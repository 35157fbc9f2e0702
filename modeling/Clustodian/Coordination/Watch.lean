import Clustodian.Coordination.Segments

namespace Clustodian

/-- A change of one key below the prefix; deletes carry no value. -/
structure Mutation where
  revision : Revision
  key : String
  value : Option Value
  deriving DecidableEq

inductive WatchEventKind
  | put
  | delete
  deriving DecidableEq

structure WatchEvent where
  revision : Revision
  key : String
  value : Option Value
  kind : WatchEventKind
  deriving DecidableEq

/-- What the server has been asked for: one key or the whole namespace, from a revision on. The
position is the part of the history it has gone through. -/
structure WatchStream where
  key : Option String
  startRevision : Revision
  position : ℕ
  deriving DecidableEq

structure WatchCursor where
  startRevision : Revision
  lastEventRevision : Option Revision
  processedKeys : BTreeSet String

structure WatchSubscription where
  key : String
  isPrefix : Bool
  cursor : WatchCursor
  stream : Option WatchStream
  pendingEvents : List WatchEvent

def metadataLead : String := "metadata/"

def relativeMetadataKey (key : String) : String := metadataLead ++ encodeSegment key

namespace WatchStream

def delivers (stream : WatchStream) (m : Mutation) : Bool :=
  stream.key.all (· == m.key) && stream.startRevision ≤ m.revision

/-- The events of the next response: those among the next entries of the history. -/
def response (stream : WatchStream) (history : List Mutation) (n : ℕ) : List Mutation :=
  ((history.drop stream.position).take n).filter stream.delivers

end WatchStream

namespace WatchCursor

def new (startRevision : Revision) : WatchCursor := ⟨startRevision, none, ∅⟩

def accepts (cursor : WatchCursor) (revision : Revision) (key : String) : Bool :=
  !(revision < cursor.startRevision || cursor.lastEventRevision.any (revision < ·) ||
    (cursor.lastEventRevision == some revision && key ∈ cursor.processedKeys))

/-- The cursor after an accepted event. -/
def accept (cursor : WatchCursor) (revision : Revision) (key : String) : WatchCursor :=
  let processed := if cursor.lastEventRevision = some revision then cursor.processedKeys else ∅
  ⟨cursor.startRevision, some revision, processed.insert key⟩

def resumeRevision (cursor : WatchCursor) : Revision :=
  cursor.lastEventRevision.getD cursor.startRevision

end WatchCursor

def openWatch (key : String) (startRevision : Revision) : WatchStream :=
  ⟨some (relativeMetadataKey key), startRevision, 0⟩

def openNamespaceWatch (startRevision : Revision) : WatchStream := ⟨none, startRevision, 0⟩

def watchMetadata (key : String) (startRevision : Revision) : WatchSubscription :=
  ⟨key, false, .new startRevision, some (openWatch key startRevision), []⟩

def watchNamespace (startRevision : Revision) : WatchSubscription :=
  ⟨"", true, .new startRevision, some (openNamespaceWatch startRevision), []⟩

namespace WatchSubscription

def decodeEvent (subscription : WatchSubscription) (m : Mutation) :
    Except CoordinationError WatchEvent := do
  let key ← if subscription.isPrefix then .ok m.key
    else match stripPrefix m.key metadataLead with
      | none => .error .invalidKey
      | some encoded => decodeSegment encoded
  return ⟨m.revision, key, m.value, if m.value.isSome then .put else .delete⟩

def push (subscription : WatchSubscription) (m : Mutation) :
    Except CoordinationError WatchSubscription := do
  let event ← subscription.decodeEvent m
  if subscription.cursor.accepts event.revision event.key then
    return ⟨subscription.key, subscription.isPrefix,
      subscription.cursor.accept event.revision event.key, subscription.stream,
      subscription.pendingEvents ++ [event]⟩
  else return subscription

/-- Take in one response of the stream. -/
def receive (subscription : WatchSubscription) (stream : WatchStream) (history : List Mutation)
    (n : ℕ) : Except CoordinationError WatchSubscription := do
  let received ← (stream.response history n).foldlM push subscription
  return { received with stream := some { stream with position := stream.position + n } }

def disconnect (subscription : WatchSubscription) : WatchSubscription :=
  { subscription with stream := none }

/-- Resume from the last processed event. -/
def resume (subscription : WatchSubscription) : WatchSubscription :=
  { subscription with
    stream := some (openWatch subscription.key subscription.cursor.resumeRevision) }

end WatchSubscription

section Runs

/-- Revisions only grow, and one revision changes a key at most once. -/
def Chronological (history : List Mutation) : Prop :=
  history.Pairwise fun old new ↦ old.revision ≤ new.revision ∧
    (old.revision = new.revision → old.key ≠ new.key)

/-- A subscription at work on a growing history, with the events handed out so far and the part of
the history its streams have gone through. -/
structure Watching where
  history : List Mutation
  subscription : WatchSubscription
  returned : List WatchEvent
  delivered : ℕ

inductive WatchAction
  | mutate (m : Mutation)
  | next
  | receive (n : ℕ)
  | disconnect
  | resume

namespace Watching

def initial (history : List Mutation) (subscription : WatchSubscription) : Watching :=
  ⟨history, subscription, [], 0⟩

/-- `next` hands out a buffered event, and takes in a response only when it has none. -/
inductive Step : Watching → WatchAction → Watching → Prop
  | mutate (w : Watching) (m : Mutation) : Chronological (w.history ++ [m]) →
      Step w (.mutate m) ⟨w.history ++ [m], w.subscription, w.returned, w.delivered⟩
  | next (w : Watching) (event : WatchEvent) (rest : List WatchEvent) :
      w.subscription.pendingEvents = event :: rest → Step w .next
        ⟨w.history, { w.subscription with pendingEvents := rest }, w.returned ++ [event],
          w.delivered⟩
  | receive (w : Watching) (stream : WatchStream) (n : ℕ) (received : WatchSubscription) :
      w.subscription.pendingEvents = [] → w.subscription.stream = some stream →
      stream.position + n ≤ w.history.length →
      w.subscription.receive stream w.history n = .ok received → Step w (.receive n)
        ⟨w.history, received, w.returned, max w.delivered (stream.position + n)⟩
  | disconnect (w : Watching) : Step w .disconnect
      ⟨w.history, w.subscription.disconnect, w.returned, w.delivered⟩
  | resume (w : Watching) : Step w .resume
      ⟨w.history, w.subscription.resume, w.returned, w.delivered⟩

inductive Run (start : Watching) : List WatchAction → Watching → Prop
  | nil : Run start [] start
  | snoc {actions : List WatchAction} {action : WatchAction} {w w' : Watching} :
      Run start actions w → Step w action w' → Run start (actions ++ [action]) w'

end Watching

namespace WatchSubscription

/-- Whether a change is one the subscription is for. -/
def wants (subscription : WatchSubscription) (startRevision : Revision) (m : Mutation) : Bool :=
  (subscription.isPrefix || m.key == relativeMetadataKey subscription.key) &&
    startRevision ≤ m.revision

def eventOf (subscription : WatchSubscription) (m : Mutation) : WatchEvent :=
  ⟨m.revision, if subscription.isPrefix then m.key else subscription.key, m.value,
    if m.value.isSome then .put else .delete⟩

end WatchSubscription

/-- What was handed out or lies ready is what the delivered part of the history has to offer. -/
def Watching.Exact (startRevision : Revision) (w : Watching) : Prop :=
  w.returned ++ w.subscription.pendingEvents =
    ((w.history.take w.delivered).filter (w.subscription.wants startRevision)).map
      w.subscription.eventOf

end Runs

section Tracking

variable {startRevision : Revision} {history : List Mutation} {subscription : WatchSubscription}
  {delivered : ℕ} {m : Mutation}

/-- The wanted changes of the delivered part. -/
def WatchSubscription.seen (subscription : WatchSubscription) (startRevision : Revision)
    (history : List Mutation) (delivered : ℕ) : List Mutation :=
  (history.take delivered).filter (subscription.wants startRevision)

/-- The cursor remembers the newest wanted revision and its keys. -/
structure Tracks (startRevision : Revision) (history : List Mutation)
    (subscription : WatchSubscription) (delivered : ℕ) : Prop where
  start : subscription.cursor.startRevision = startRevision
  last : subscription.cursor.lastEventRevision =
    ((subscription.seen startRevision history delivered).getLast?).map Mutation.revision
  keys : ∀ key, key ∈ subscription.cursor.processedKeys ↔
    ∃ m ∈ subscription.seen startRevision history delivered,
      subscription.cursor.lastEventRevision = some m.revision ∧
      (subscription.eventOf m).key = key

/-- The stream is for the subscription's keys and repeats at most the newest wanted revision. -/
structure Follows (startRevision : Revision) (history : List Mutation)
    (subscription : WatchSubscription) (delivered : ℕ) (stream : WatchStream) : Prop where
  key : stream.key = if subscription.isPrefix then none
    else some (relativeMetadataKey subscription.key)
  position : stream.position ≤ delivered
  start : startRevision ≤ stream.startRevision
  behind : stream.startRevision ≤ startRevision ∨
    ∃ last, subscription.cursor.lastEventRevision = some last ∧ stream.startRevision ≤ last
  repeats : ∀ m ∈ (history.take delivered).drop stream.position, stream.delivers m = true →
    subscription.cursor.lastEventRevision = some m.revision

theorem decodeEvent_of_wants (h : subscription.wants startRevision m = true) :
    subscription.decodeEvent m = .ok (subscription.eventOf m) := by
  rw [WatchSubscription.wants, Bool.and_eq_true, Bool.or_eq_true, beq_iff_eq] at h
  unfold WatchSubscription.decodeEvent WatchSubscription.eventOf
  by_cases whole : subscription.isPrefix = true
  · simp only [whole, if_true]
    rfl
  · have key := h.1.resolve_left whole
    have strip : stripPrefix m.key metadataLead = some (encodeSegment subscription.key) := by
      rw [key, relativeMetadataKey, stripPrefix, String.toList_append, if_pos (by simp)]
      simp
    simp only [whole, if_false, Bool.false_eq_true, strip, decodeSegment_encodeSegment]
    rfl

theorem eventOf_key_ne {m' : Mutation} (h : subscription.wants startRevision m = true)
    (h' : subscription.wants startRevision m' = true) (differ : m.key ≠ m'.key) :
    (subscription.eventOf m).key ≠ (subscription.eventOf m').key := by
  rw [WatchSubscription.wants, Bool.and_eq_true, Bool.or_eq_true, beq_iff_eq] at h h'
  unfold WatchSubscription.eventOf
  by_cases whole : subscription.isPrefix = true
  · simpa only [whole, if_true] using differ
  · exact absurd ((h.1.resolve_left whole).trans (h'.1.resolve_left whole).symm) differ

section Entry

variable (chronological : Chronological history) (found : history[delivered]? = some m)

include chronological found

/-- The next entry is at least as new as everything delivered, and changes another key if it has the
same revision. -/
theorem newest_of_seen {old : Mutation}
    (mem : old ∈ subscription.seen startRevision history delivered) :
    old.revision ≤ m.revision ∧ (old.revision = m.revision → old.key ≠ m.key) := by
  have earlier : old ∈ history.take delivered := (List.mem_filter.mp mem).1
  obtain ⟨bound, rfl⟩ := List.getElem?_eq_some_iff.mp found
  have split := List.take_append_getElem bound
  have sub : (history.take delivered ++ [history[delivered]]).Sublist history := by
    rw [split]
    exact List.take_sublist _ _
  exact (List.pairwise_append.mp (chronological.sublist sub)).2.2 _ earlier _ (by simp)

omit chronological in
theorem seen_succ : subscription.seen startRevision history (delivered + 1) =
    subscription.seen startRevision history delivered ++
      if subscription.wants startRevision m then [m] else [] := by
  obtain ⟨bound, rfl⟩ := List.getElem?_eq_some_iff.mp found
  rw [WatchSubscription.seen, List.take_succ_eq_append_getElem bound, List.filter_append,
    List.filter_singleton, Bool.cond_eq_ite]
  rfl

end Entry

theorem revision_le_last (chronological : Chronological history)
    (tracks : Tracks startRevision history subscription delivered)
    (mem : m ∈ subscription.seen startRevision history delivered) :
    ∃ last, subscription.cursor.lastEventRevision = some last ∧ m.revision ≤ last := by
  have ordered : (subscription.seen startRevision history delivered).Pairwise
      fun old new ↦ old.revision ≤ new.revision :=
    (chronological.sublist (List.filter_sublist.trans (List.take_sublist _ _))).imp And.left
  have nonempty := List.ne_nil_of_mem mem
  refine ⟨_, by rw [tracks.last, List.getLast?_eq_getLast_of_ne_nil nonempty]; rfl, ?_⟩
  rw [← List.dropLast_append_getLast nonempty] at mem ordered
  rcases List.mem_append.mp mem with earlier | last
  · exact (List.pairwise_append.mp ordered).2.2 _ earlier _ (by simp)
  · rw [List.mem_singleton.mp last]

theorem push_new (chronological : Chronological history) (found : history[delivered]? = some m)
    (tracks : Tracks startRevision history subscription delivered)
    (wanted : subscription.wants startRevision m = true) :
    ∃ received, subscription.push m = .ok received ∧ received.key = subscription.key ∧
      received.isPrefix = subscription.isPrefix ∧
      received.pendingEvents = subscription.pendingEvents ++ [subscription.eventOf m] ∧
      received.cursor.lastEventRevision = some m.revision ∧
      Tracks startRevision history received (delivered + 1) := by
  set event := subscription.eventOf m with hevent
  have earlier : ∀ old ∈ subscription.seen startRevision history delivered,
      old.revision ≤ m.revision ∧ (old.revision = m.revision → old.key ≠ m.key) :=
    fun old mem ↦ newest_of_seen chronological found mem
  have wants_of_seen : ∀ old ∈ subscription.seen startRevision history delivered,
      subscription.wants startRevision old = true := fun old mem ↦ (List.mem_filter.mp mem).2
  have fromStart : startRevision ≤ m.revision := by
    rw [WatchSubscription.wants, Bool.and_eq_true, decide_eq_true_eq] at wanted
    exact wanted.2
  have accepted : subscription.cursor.accepts event.revision event.key = true := by
    have notBefore : ¬event.revision < subscription.cursor.startRevision := by
      rw [tracks.start]
      exact Nat.not_lt.mpr fromStart
    have notOlder : subscription.cursor.lastEventRevision.any (event.revision < ·) = false := by
      rw [tracks.last]
      cases newest : (subscription.seen startRevision history delivered).getLast? with
      | none => rfl
      | some old =>
        rw [Option.map_some, Option.any_some, decide_eq_false_iff_not]
        exact Nat.not_lt.mpr (earlier old (List.mem_of_getLast? newest)).1
    have notRepeated : ¬(subscription.cursor.lastEventRevision = some event.revision ∧
        event.key ∈ subscription.cursor.processedKeys) := by
      rintro ⟨same, processed⟩
      obtain ⟨old, mem, last, key⟩ := (tracks.keys _).mp processed
      rw [same, Option.some.injEq] at last
      exact eventOf_key_ne (wants_of_seen old mem) wanted ((earlier old mem).2 last.symm) key
    simp only [WatchCursor.accepts, notBefore, notOlder, decide_false, Bool.or_self, Bool.false_or,
      Bool.not_eq_true', Bool.and_eq_false_iff, beq_eq_false_iff_ne, decide_eq_false_iff_not]
    by_contra both
    push Not at both
    exact notRepeated both
  refine ⟨⟨subscription.key, subscription.isPrefix,
    subscription.cursor.accept event.revision event.key, subscription.stream,
    subscription.pendingEvents ++ [event]⟩, ?_, rfl, rfl, rfl, rfl, ?_⟩
  · rw [WatchSubscription.push, decodeEvent_of_wants wanted, CheckedLoop.ok_bind, if_pos accepted]
    rfl
  · have seen : subscription.seen startRevision history (delivered + 1) =
        subscription.seen startRevision history delivered ++ [m] := by
      rw [seen_succ found, if_pos wanted]
    refine ⟨tracks.start, ?_, fun key ↦ ?_⟩
    · change some m.revision = ((subscription.seen startRevision history
        (delivered + 1)).getLast?).map Mutation.revision
      rw [seen, List.getLast?_concat]
      rfl
    · change key ∈ (if subscription.cursor.lastEventRevision = some m.revision then
          subscription.cursor.processedKeys else ∅).insert event.key ↔
        ∃ old ∈ subscription.seen startRevision history (delivered + 1),
          some m.revision = some old.revision ∧ (subscription.eventOf old).key = key
      rw [seen, OrderedMap.mem_insert]
      constructor
      · rintro (rfl | processed)
        · exact ⟨m, by simp, rfl, rfl⟩
        · split at processed
          · next same =>
            obtain ⟨old, mem, last, hkey⟩ := (tracks.keys _).mp processed
            exact ⟨old, List.mem_append_left _ mem, same.symm.trans last, hkey⟩
          · simp at processed
      · rintro ⟨old, mem, same, hkey⟩
        rcases List.mem_append.mp mem with mem | mem
        · refine .inr ?_
          obtain ⟨last, hlast, le⟩ := revision_le_last chronological tracks mem
          have newest : last = m.revision := by
            rw [tracks.last, Option.map_eq_some_iff] at hlast
            obtain ⟨top, htop, rfl⟩ := hlast
            have upper := (earlier top (List.mem_of_getLast? htop)).1
            rw [Option.some.injEq] at same
            exact le_antisymm upper (same ▸ le)
          rw [if_pos (by rw [hlast, newest])]
          exact (tracks.keys _).mpr ⟨old, mem, by rw [hlast, newest, ← Option.some.inj same], hkey⟩
        · rw [List.mem_singleton.mp mem] at hkey
          exact .inl hkey.symm

/-- What the stream repeats was accepted before. -/
theorem push_repeated (tracks : Tracks startRevision history subscription delivered)
    (mem : m ∈ subscription.seen startRevision history delivered)
    (last : subscription.cursor.lastEventRevision = some m.revision) :
    subscription.push m = .ok subscription := by
  have wanted : subscription.wants startRevision m = true := (List.mem_filter.mp mem).2
  have processed : (subscription.eventOf m).key ∈ subscription.cursor.processedKeys :=
    (tracks.keys _).mpr ⟨m, mem, last, rfl⟩
  rw [WatchSubscription.push, decodeEvent_of_wants wanted, CheckedLoop.ok_bind, if_neg ?_]
  · rfl
  · have revision : (subscription.eventOf m).revision = m.revision := rfl
    simp [WatchCursor.accepts, processed, last, revision]

section Stream

variable {stream : WatchStream}

theorem wants_of_delivers (follows : Follows startRevision history subscription delivered stream)
    (h : stream.delivers m = true) : subscription.wants startRevision m = true := by
  rw [WatchStream.delivers, follows.key, Bool.and_eq_true, decide_eq_true_eq] at h
  have fromStart : startRevision ≤ m.revision := follows.start.trans h.2
  rw [WatchSubscription.wants, Bool.and_eq_true, decide_eq_true_eq]
  refine ⟨?_, fromStart⟩
  have key := h.1
  cases whole : subscription.isPrefix with
  | true => rfl
  | false =>
    rw [whole, if_neg (by decide), Option.all_some, beq_iff_eq] at key
    rw [Bool.false_or, beq_iff_eq]
    exact key.symm

/-- A wanted entry the stream has not gone through yet is not held back. -/
theorem delivers_of_wants (chronological : Chronological history)
    (found : history[delivered]? = some m)
    (tracks : Tracks startRevision history subscription delivered)
    (follows : Follows startRevision history subscription delivered stream)
    (h : subscription.wants startRevision m = true) : stream.delivers m = true := by
  rw [WatchSubscription.wants, Bool.and_eq_true, decide_eq_true_eq] at h
  rw [WatchStream.delivers, follows.key, Bool.and_eq_true, decide_eq_true_eq]
  refine ⟨?_, ?_⟩
  · have key := h.1
    cases whole : subscription.isPrefix with
    | true => rfl
    | false =>
      rw [whole, Bool.false_or, beq_iff_eq] at key
      rw [if_neg (by decide), Option.all_some, beq_iff_eq]
      exact key.symm
  · rcases follows.behind with early | ⟨last, hlast, le⟩
    · exact early.trans h.2
    · rw [tracks.last, Option.map_eq_some_iff] at hlast
      obtain ⟨top, htop, rfl⟩ := hlast
      exact le.trans (newest_of_seen chronological found (List.mem_of_getLast? htop)).1

theorem response_succ {n : ℕ} (found : history[stream.position + n]? = some m) :
    stream.response history (n + 1) =
      stream.response history n ++ if stream.delivers m then [m] else [] := by
  obtain ⟨bound, rfl⟩ := List.getElem?_eq_some_iff.mp found
  have inside : n < (history.drop stream.position).length := by
    rw [List.length_drop]
    omega
  rw [WatchStream.response, List.take_succ_eq_append_getElem inside, List.filter_append,
    List.filter_singleton, Bool.cond_eq_ite, List.getElem_drop]
  rfl

/-- The subscription after a number of entries of the history have gone by. -/
structure Received (startRevision : Revision) (history : List Mutation)
    (subscription : WatchSubscription) (delivered : ℕ) (stream : WatchStream) (n : ℕ)
    (received : WatchSubscription) : Prop where
  run : (stream.response history n).foldlM WatchSubscription.push subscription = .ok received
  key : received.key = subscription.key
  isPrefix : received.isPrefix = subscription.isPrefix
  pending : ∃ new, received.pendingEvents = subscription.pendingEvents ++ new ∧
    (subscription.seen startRevision history (max delivered (stream.position + n))).map
      subscription.eventOf = (subscription.seen startRevision history delivered).map
        subscription.eventOf ++ new
  tracks : Tracks startRevision history received (max delivered (stream.position + n))
  follows : Follows startRevision history received (max delivered (stream.position + n))
    { stream with position := stream.position + n }

theorem received (chronological : Chronological history)
    (tracks : Tracks startRevision history subscription delivered)
    (follows : Follows startRevision history subscription delivered stream) (n : ℕ)
    (bound : stream.position + n ≤ history.length) :
    ∃ result, Received startRevision history subscription delivered stream n result := by
  induction n with
  | zero =>
    have same : max delivered (stream.position + 0) = delivered := max_eq_left follows.position
    refine ⟨subscription, rfl, rfl, rfl, ⟨[], by simp, by rw [same, List.append_nil]⟩, ?_, ?_⟩
    · rw [same]
      exact tracks
    · rw [same]
      exact follows
  | succ n ih =>
    obtain ⟨result, h⟩ := ih (by omega)
    obtain ⟨new, hnew, hseen⟩ := h.pending
    obtain ⟨m, found⟩ : ∃ m, history[stream.position + n]? = some m :=
      ⟨_, List.getElem?_eq_getElem (by omega)⟩
    have sameSeen : ∀ d, result.seen startRevision history d =
        subscription.seen startRevision history d := by
      intro d
      have sameWants : result.wants startRevision = subscription.wants startRevision := by
        funext m
        simp only [WatchSubscription.wants, h.key, h.isPrefix]
      rw [WatchSubscription.seen, sameWants]
      rfl
    have sameEvent : result.eventOf = subscription.eventOf := by
      funext m
      simp only [WatchSubscription.eventOf, h.key, h.isPrefix]
    have run : ∀ next, (if stream.delivers m then result.push m else .ok result) = .ok next →
        (stream.response history (n + 1)).foldlM WatchSubscription.push subscription =
          .ok next := by
      intro next step
      rw [response_succ found, List.foldlM_append, h.run, CheckedLoop.ok_bind]
      split
      · next passes =>
        rw [if_pos passes] at step
        rw [List.foldlM_cons, step, CheckedLoop.ok_bind]
        rfl
      · next held =>
        rw [if_neg held] at step
        exact step
    by_cases old : stream.position + n < delivered
    · -- the stream is still going through entries of an earlier one
      have same : max delivered (stream.position + n) = delivered := max_eq_left old.le
      have same' : max delivered (stream.position + (n + 1)) = delivered := max_eq_left (by omega)
      have tracks' := h.tracks
      have follows' := h.follows
      rw [same] at tracks' follows' hseen
      have mem : m ∈ (history.take delivered).drop (stream.position + n) := by
        rw [List.mem_iff_getElem?]
        exact ⟨0, by rw [List.getElem?_drop, List.getElem?_take_of_lt (by omega), Nat.add_zero, found]⟩
      have step : (if stream.delivers m then result.push m else .ok result) = .ok result := by
        split
        · next passes =>
          refine push_repeated tracks' (List.mem_filter.mpr ⟨List.mem_of_mem_drop mem, ?_⟩)
            (follows'.repeats m mem passes)
          exact wants_of_delivers follows' passes
        · rfl
      refine ⟨result, run _ step, h.key, h.isPrefix, ⟨new, hnew, by rw [same']; exact hseen⟩, ?_, ?_⟩
      · rw [same']
        exact tracks'
      · rw [same']
        have position : stream.position + (n + 1) ≤ delivered := old
        refine ⟨follows'.key, position, follows'.start, follows'.behind, fun m' mem' ↦ ?_⟩
        refine follows'.repeats m' ?_
        rw [← Nat.add_assoc, ← List.drop_drop] at mem'
        exact List.mem_of_mem_drop mem'
    · have same : max delivered (stream.position + n) = stream.position + n := by omega
      have same' : max delivered (stream.position + (n + 1)) = stream.position + n + 1 := by omega
      have tracks' := h.tracks
      have follows' := h.follows
      rw [same] at tracks' follows' hseen
      have passed : (history.take (stream.position + n + 1)).drop (stream.position + n + 1) = [] :=
        List.drop_eq_nil_of_le (List.length_take_le _ _)
      by_cases passes : stream.delivers m = true
      · have wanted := wants_of_delivers follows' passes
        obtain ⟨next, hpush, hkey, hprefix, hpending, hlast, htracks⟩ :=
          push_new chronological found tracks' wanted
        have wanted' : subscription.wants startRevision m = true := by
          simpa only [WatchSubscription.wants, h.key, h.isPrefix] using wanted
        refine ⟨next, run _ (by rw [if_pos passes, hpush]), hkey.trans h.key,
          hprefix.trans h.isPrefix, ⟨new ++ [subscription.eventOf m], ?_, ?_⟩, ?_, ?_⟩
        · rw [hpending, hnew, sameEvent, List.append_assoc]
        · rw [same', seen_succ found, if_pos wanted', List.map_append, hseen, List.append_assoc]
          rfl
        · rw [same']
          exact htracks
        · rw [same']
          refine ⟨?_, le_rfl, follows'.start, .inr ⟨m.revision, hlast, ?_⟩, fun m' mem' ↦ ?_⟩
          · rw [hkey, hprefix]
            exact follows'.key
          · rw [WatchStream.delivers, Bool.and_eq_true, decide_eq_true_eq] at passes
            exact passes.2
          · rw [← Nat.add_assoc, passed] at mem'
            cases mem'
      · have unwanted : ¬result.wants startRevision m = true := by
          intro wanted
          have delivered := delivers_of_wants chronological found tracks' follows' wanted
          exact passes delivered
        have unwanted' : ¬subscription.wants startRevision m = true := by
          simpa only [WatchSubscription.wants, h.key, h.isPrefix] using unwanted
        have unchanged : result.seen startRevision history (stream.position + n + 1) =
            result.seen startRevision history (stream.position + n) := by
          rw [seen_succ found, if_neg unwanted, List.append_nil]
        refine ⟨result, run _ (if_neg passes), h.key, h.isPrefix, ⟨new, hnew, ?_⟩, ?_, ?_⟩
        · rw [same', seen_succ found, if_neg unwanted', List.append_nil]
          exact hseen
        · rw [same']
          exact ⟨tracks'.start, by rw [unchanged]; exact tracks'.last,
            fun key ↦ by rw [unchanged]; exact tracks'.keys key⟩
        · rw [same']
          refine ⟨follows'.key, le_rfl, follows'.start, follows'.behind, fun m' mem' ↦ ?_⟩
          rw [← Nat.add_assoc, passed] at mem'
          cases mem'

end Stream

end Tracking

namespace Watching

variable {startRevision : Revision} {w w' : Watching} {action : WatchAction}

/-- What every step of a run keeps. -/
structure Sound (startRevision : Revision) (w : Watching) : Prop where
  chronological : Chronological w.history
  bound : w.delivered ≤ w.history.length
  exact : w.Exact startRevision
  tracks : Tracks startRevision w.history w.subscription w.delivered
  follows : ∀ stream, w.subscription.stream = some stream →
    Follows startRevision w.history w.subscription w.delivered stream

theorem sound_initial {history : List Mutation} (chronological : Chronological history)
    {subscription : WatchSubscription}
    (h : (∃ key, subscription = watchMetadata key startRevision) ∨
      subscription = watchNamespace startRevision) :
    Sound startRevision (initial history subscription) := by
  have fresh : subscription.cursor = .new startRevision ∧ subscription.pendingEvents = [] ∧
      subscription.stream = some ⟨if subscription.isPrefix then none
        else some (relativeMetadataKey subscription.key), startRevision, 0⟩ := by
    rcases h with ⟨key, rfl⟩ | rfl <;> exact ⟨rfl, rfl, rfl⟩
  obtain ⟨hcursor, hpending, hstream⟩ := fresh
  refine ⟨chronological, Nat.zero_le _, ?_, ⟨?_, ?_, fun key ↦ ?_⟩, fun stream hs ↦ ?_⟩
  · simp [Exact, initial, hpending]
  · simp [initial, hcursor, WatchCursor.new]
  · simp [initial, hcursor, WatchCursor.new, WatchSubscription.seen]
  · simp [initial, hcursor, WatchCursor.new, WatchSubscription.seen]
  · have hs' : subscription.stream = some stream := hs
    rw [hstream] at hs'
    cases hs'
    exact ⟨rfl, le_rfl, le_rfl, .inl le_rfl, by simp [initial]⟩

/-- A step keeps track of the subscription unless it resumes a namespace subscription. -/
theorem Step.sound (step : Step w action w') (h : Sound startRevision w)
    (narrow : w.subscription.isPrefix = true → action ≠ .resume) :
    Sound startRevision w' ∧ w'.subscription.isPrefix = w.subscription.isPrefix := by
  cases step with
  | mutate m chronological =>
    have take : (w.history ++ [m]).take w.delivered = w.history.take w.delivered :=
      List.take_append_of_le_length h.bound
    have seen : w.subscription.seen startRevision (w.history ++ [m]) w.delivered =
        w.subscription.seen startRevision w.history w.delivered := by
      rw [WatchSubscription.seen, take]
      rfl
    refine ⟨⟨chronological, ?_, ?_, ⟨h.tracks.start, ?_, fun key ↦ ?_⟩, fun stream hs ↦ ?_⟩, rfl⟩
    · have := h.bound
      simp only [List.length_append]
      omega
    · rw [Exact]
      simp only [take]
      exact h.exact
    · simp only [seen]
      exact h.tracks.last
    · simp only [seen]
      exact h.tracks.keys key
    · have follows := h.follows stream hs
      exact ⟨follows.key, follows.position, follows.start, follows.behind, by
        simp only [take]
        exact follows.repeats⟩
  | next event rest ready =>
    refine ⟨⟨h.chronological, h.bound, ?_, ⟨h.tracks.start, h.tracks.last, h.tracks.keys⟩,
      fun stream hs ↦ ?_⟩, rfl⟩
    · have exact := h.exact
      rw [Exact, ready] at exact
      rw [Exact, List.append_assoc]
      exact exact
    · obtain ⟨h1, h2, h3, h4, h5⟩ := h.follows stream hs
      exact ⟨h1, h2, h3, h4, h5⟩
  | receive stream n result empty hstream bound run =>
    obtain ⟨end_, hend⟩ := received h.chronological h.tracks (h.follows stream hstream) n bound
    rw [WatchSubscription.receive, hend.run, CheckedLoop.ok_bind] at run
    cases run
    obtain ⟨new, hnew, hseen⟩ := hend.pending
    have sameWants : end_.wants startRevision = w.subscription.wants startRevision := by
      funext m
      simp only [WatchSubscription.wants, hend.key, hend.isPrefix]
    have sameEvent : end_.eventOf = w.subscription.eventOf := by
      funext m
      simp only [WatchSubscription.eventOf, hend.key, hend.isPrefix]
    refine ⟨⟨h.chronological, max_le h.bound bound, ?_, ⟨hend.tracks.start, hend.tracks.last,
      hend.tracks.keys⟩, fun other hs ↦ ?_⟩, hend.isPrefix⟩
    · have before := h.exact
      rw [Exact, empty, List.append_nil] at before
      change w.returned ++ end_.pendingEvents =
        ((w.history.take (max w.delivered (stream.position + n))).filter
          (end_.wants startRevision)).map end_.eventOf
      rw [sameWants, sameEvent, hnew, empty, List.nil_append, before]
      exact hseen.symm
    · cases hs
      obtain ⟨h1, h2, h3, h4, h5⟩ := hend.follows
      exact ⟨h1, h2, h3, h4, h5⟩
  | disconnect => exact ⟨⟨h.chronological, h.bound, h.exact, ⟨h.tracks.start, h.tracks.last,
      h.tracks.keys⟩, fun _ hs ↦ nomatch hs⟩, rfl⟩
  | resume =>
    have single : w.subscription.isPrefix = false := by
      cases whole : w.subscription.isPrefix with
      | false => rfl
      | true => exact absurd rfl (narrow whole)
    have mem_seen : ∀ m ∈ w.history.take w.delivered,
        m.key = relativeMetadataKey w.subscription.key → startRevision ≤ m.revision →
        m ∈ w.subscription.seen startRevision w.history w.delivered := by
      intro m mem key le
      refine List.mem_filter.mpr ⟨mem, ?_⟩
      simp [WatchSubscription.wants, key, le]
    have fromStart : ∀ last, w.subscription.cursor.lastEventRevision = some last →
        startRevision ≤ last := by
      intro last hlast
      rw [h.tracks.last, Option.map_eq_some_iff] at hlast
      obtain ⟨top, htop, rfl⟩ := hlast
      have wanted := (List.mem_filter.mp (List.mem_of_getLast? htop)).2
      rw [WatchSubscription.wants, Bool.and_eq_true, decide_eq_true_eq] at wanted
      exact wanted.2
    refine ⟨⟨h.chronological, h.bound, h.exact, ⟨h.tracks.start, h.tracks.last, h.tracks.keys⟩,
      fun stream hs ↦ ?_⟩, rfl⟩
    cases hs
    have start : startRevision ≤ w.subscription.cursor.resumeRevision := by
      rw [WatchCursor.resumeRevision]
      cases hlast : w.subscription.cursor.lastEventRevision with
      | none => exact h.tracks.start.ge
      | some last => exact fromStart last hlast
    refine ⟨?_, Nat.zero_le _, start, ?_, fun m mem delivers ↦ ?_⟩
    · change some (relativeMetadataKey w.subscription.key) =
        if w.subscription.isPrefix = true then none else some (relativeMetadataKey w.subscription.key)
      rw [single, if_neg (by decide)]
    · change w.subscription.cursor.resumeRevision ≤ startRevision ∨
        ∃ last, w.subscription.cursor.lastEventRevision = some last ∧
          w.subscription.cursor.resumeRevision ≤ last
      rw [WatchCursor.resumeRevision]
      cases w.subscription.cursor.lastEventRevision with
      | none => exact .inl h.tracks.start.le
      | some last => exact .inr ⟨last, rfl, le_rfl⟩
    · change m ∈ (w.history.take w.delivered).drop 0 at mem
      change ((some (relativeMetadataKey w.subscription.key)).all (· == m.key) &&
        decide (w.subscription.cursor.resumeRevision ≤ m.revision)) = true at delivers
      rw [Bool.and_eq_true, Option.all_some, beq_iff_eq, decide_eq_true_eq] at delivers
      have seen := mem_seen m mem delivers.1.symm (start.trans delivers.2)
      obtain ⟨last, hlast, le⟩ := revision_le_last h.chronological h.tracks seen
      change w.subscription.cursor.lastEventRevision = some m.revision
      rw [hlast, le_antisymm le]
      have := delivers.2
      rwa [WatchCursor.resumeRevision, hlast] at this

theorem Run.sound {start : Watching} {actions : List WatchAction} (run : Run start actions w)
    (h : Sound startRevision start)
    (narrow : start.subscription.isPrefix = true → .resume ∉ actions) :
    Sound startRevision w ∧ w.subscription.isPrefix = start.subscription.isPrefix := by
  induction run with
  | nil => exact ⟨h, rfl⟩
  | snoc run step ih =>
    obtain ⟨sound, same⟩ := ih fun whole mem ↦ narrow whole (List.mem_append_left _ mem)
    obtain ⟨sound', same'⟩ := step.sound sound fun whole resumed ↦
      narrow (same.symm.trans whole) (by simp [resumed])
    exact ⟨sound', same'.trans same⟩

end Watching

/-- A subscription hands out what it is for exactly once and in order, in every run that resumes it
only if it is for a single key. -/
theorem watch_exact (startRevision : Revision) {history : List Mutation}
    (chronological : Chronological history) {subscription : WatchSubscription}
    (opened : (∃ key, subscription = watchMetadata key startRevision) ∨
      subscription = watchNamespace startRevision)
    {actions : List WatchAction} {w : Watching}
    (run : Watching.Run (.initial history subscription) actions w)
    (narrow : subscription.isPrefix = true → .resume ∉ actions) : w.Exact startRevision :=
  (run.sound (Watching.sound_initial chronological opened) narrow).1.exact

def registered : Mutation := ⟨5, "live/61", some (.text "1")⟩

theorem watch_exact_registration :
    ∃ w, Watching.Run (.initial [registered] (watchNamespace 1)) [.receive 1, .next] w ∧
      w.returned = [⟨5, "live/61", some (.text "1"), .put⟩] ∧ w.Exact 1 := by
  have received : Watching.Run (.initial [registered] (watchNamespace 1)) ([] ++ [.receive 1]) _ :=
    .snoc .nil (.receive _ (openNamespaceWatch 1) 1 _ rfl rfl (by decide) rfl)
  have run : Watching.Run (.initial [registered] (watchNamespace 1)) ([.receive 1] ++ [.next]) _ :=
    .snoc received (.next _ ⟨5, "live/61", some (.text "1"), .put⟩ [] rfl)
  exact ⟨_, run, rfl, watch_exact 1 (List.pairwise_singleton _ _) (.inr rfl) run (by simp)⟩

/-- Resuming a namespace subscription asks for the metadata key without a name instead, and misses
what is registered from then on. -/
theorem resumed_namespace_watch_misses :
    ∃ w, Watching.Run (.initial [registered] (watchNamespace 1)) [.disconnect, .resume, .receive 1]
      w ∧ w.returned = [] ∧ ¬w.Exact 1 := by
  have closed : Watching.Run (.initial [registered] (watchNamespace 1)) ([] ++ [.disconnect]) _ :=
    .snoc .nil (.disconnect _)
  have resumed : Watching.Run (.initial [registered] (watchNamespace 1))
      ([.disconnect] ++ [.resume]) _ := .snoc closed (.resume _)
  have silent : (openWatch "" 1).response [registered] 1 = [] := by decide +kernel
  have received : (watchNamespace 1).disconnect.resume.receive (openWatch "" 1) [registered] 1 =
      .ok ⟨"", true, .new 1, some ⟨some (relativeMetadataKey ""), 1, 1⟩, []⟩ := by
    rw [WatchSubscription.receive, silent]
    rfl
  have run : Watching.Run (.initial [registered] (watchNamespace 1))
      ([.disconnect, .resume] ++ [.receive 1]) _ :=
    .snoc resumed (.receive _ (openWatch "" 1) 1 _ rfl rfl (by decide) received)
  refine ⟨_, run, rfl, fun exact ↦ ?_⟩
  have missed : ([] : List WatchEvent) = [⟨5, "live/61", some (.text "1"), .put⟩] := exact
  cases missed

end Clustodian
