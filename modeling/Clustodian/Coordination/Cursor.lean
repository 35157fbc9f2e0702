import Clustodian.Coordination.Watch

/-! The watch cursor on its own: what it accepts of streams that start over after a disconnect. -/

namespace Clustodian

/-- `Revision::next`; `none` is `RevisionExhausted`. -/
def nextRevision (revision : Revision) : Option Revision :=
  if revision < 2 ^ 63 - 1 then some (revision + 1) else none

/-- The revision and key of a change. -/
abbrev Event : Type := Revision × String

namespace WatchCursor

/-- `accept`: the verdict on an event and the cursor after it. -/
def offer (cursor : WatchCursor) (event : Event) : WatchCursor × Bool :=
  if cursor.accepts event.1 event.2 then (cursor.accept event.1 event.2, true) else (cursor, false)

/-- The new start revision and the cursor after a recovery. -/
def resetAfterRecovery (cursor : WatchCursor) (snapshotRevision : Revision) :
    Option (Revision × WatchCursor) := do
  let startRevision ← nextRevision snapshotRevision
  return (startRevision, { cursor with
    startRevision := startRevision, lastEventRevision := none, processedKeys := ∅ })

/-- A stream of events, with the accepted ones in their order. -/
def feed (cursor : WatchCursor) : List Event → WatchCursor × List Event
  | [] => (cursor, [])
  | event :: events =>
    let (cursor, accepted) := cursor.offer event
    let (cursor, rest) := feed cursor events
    (cursor, if accepted then event :: rest else rest)

/-- A stream is the beginning of the history from a revision on, in some order that respects
revisions. -/
def StreamFrom (history : List Event) (revision : Revision) (stream : List Event) : Prop :=
  ∃ rest, (stream ++ rest).Perm (history.filter fun event ↦ revision ≤ event.1) ∧
    (stream ++ rest).Pairwise fun first second ↦ first.1 ≤ second.1

/-- Streams one after the other, each from where the cursor stands; the last two indexes are what
was delivered and what was accepted. -/
inductive Delivery (history : List Event) (start : WatchCursor) :
    WatchCursor → List Event → List Event → Prop
  | none : Delivery history start start [] []
  | stream {cursor : WatchCursor} {delivered accepted stream : List Event} :
      Delivery history start cursor delivered accepted →
      StreamFrom history cursor.resumeRevision stream →
      Delivery history start (cursor.feed stream).1 (delivered ++ stream)
        (accepted ++ (cursor.feed stream).2)

/-- The cursor remembers the last accepted revision and its keys. -/
structure Remembers (start : Revision) (cursor : WatchCursor) (accepted : List Event) : Prop where
  start : cursor.startRevision = start
  ordered : accepted.Pairwise fun first second ↦ first.1 ≤ second.1
  nodup : accepted.Nodup
  last : cursor.lastEventRevision = accepted.getLast?.map Prod.fst
  keys : ∀ key, key ∈ cursor.processedKeys ↔
    ∃ revision, cursor.lastEventRevision = some revision ∧ (revision, key) ∈ accepted

section Step

variable {start : Revision} {cursor : WatchCursor} {accepted : List Event} {event : Event}

/-- No accepted event is newer than the last one. -/
theorem Remembers.le_last (h : Remembers start cursor accepted) (mem : event ∈ accepted) :
    ∃ revision, cursor.lastEventRevision = some revision ∧ event.1 ≤ revision := by
  have nonempty := List.ne_nil_of_mem mem
  refine ⟨(accepted.getLast nonempty).1, ?_, ?_⟩
  · rw [h.last, List.getLast?_eq_getLast_of_ne_nil nonempty]
    rfl
  · have ordered := h.ordered
    rw [← List.dropLast_append_getLast nonempty] at mem ordered
    rcases List.mem_append.mp mem with earlier | last
    · exact (List.pairwise_append.mp ordered).2.2 _ earlier _ (by simp)
    · rw [List.mem_singleton.mp last]

/-- An event that is not older than the last one is accepted if it is new. -/
theorem Remembers.offer (h : Remembers start cursor accepted) (fresh : start ≤ event.1)
    (newer : ∀ revision, cursor.lastEventRevision = some revision → revision ≤ event.1) :
    (cursor.offer event).2 = decide (event ∉ accepted) ∧
      Remembers start (cursor.offer event).1
        (if event ∈ accepted then accepted else accepted ++ [event]) := by
  have notOld : ¬ event.1 < cursor.startRevision := by
    rw [h.start]
    exact Nat.not_lt.mpr fresh
  have notOlder : cursor.lastEventRevision.any (event.1 < ·) = false := by
    cases last : cursor.lastEventRevision with
    | none => rfl
    | some revision =>
      rw [Option.any_some, decide_eq_false_iff_not]
      exact Nat.not_lt.mpr (newer revision last)
  have repeated : (cursor.lastEventRevision = some event.1 ∧ event.2 ∈ cursor.processedKeys) ↔
      event ∈ accepted := by
    rw [h.keys]
    constructor
    · rintro ⟨last, revision, last', mem⟩
      rw [last, Option.some.injEq] at last'
      rw [← last'] at mem
      exact mem
    · intro mem
      obtain ⟨revision, last, le⟩ := h.le_last mem
      have same : revision = event.1 := le_antisymm (newer revision last) le
      exact ⟨same ▸ last, event.1, same ▸ last, mem⟩
  have verdict : cursor.accepts event.1 event.2 = decide (event ∉ accepted) := by
    rw [Bool.eq_iff_iff, decide_eq_true_iff, ← repeated]
    simp only [WatchCursor.accepts, notOld, notOlder, decide_false, Bool.or_self, Bool.false_or,
      Bool.not_eq_true', Bool.and_eq_false_iff, beq_eq_false_iff_ne, decide_eq_false_iff_not,
      not_and_or, ne_eq]
  unfold WatchCursor.offer
  rw [verdict]
  by_cases known : event ∈ accepted
  · simp only [known, not_true_eq_false, decide_false, Bool.false_eq_true, if_false, if_true,
      true_and]
    exact h
  · simp only [known, not_false_eq_true, decide_true, if_true, if_false, true_and]
    refine ⟨h.start, ?_, ?_, ?_, fun key ↦ ?_⟩
    · refine List.pairwise_append.mpr ⟨h.ordered, List.pairwise_singleton _ _, fun old mem _ new ↦ ?_⟩
      obtain ⟨revision, last, le⟩ := h.le_last mem
      rw [List.mem_singleton.mp new]
      exact le.trans (newer revision last)
    · exact h.nodup.append (List.nodup_singleton _) (by simpa using known)
    · rw [List.getLast?_concat]
      rfl
    · change key ∈ (if cursor.lastEventRevision = some event.1 then cursor.processedKeys
        else ∅).insert event.2 ↔ _
      rw [OrderedMap.mem_insert]
      constructor
      · rintro (rfl | processed)
        · exact ⟨event.1, rfl, by simp⟩
        · split at processed
          · next same =>
            obtain ⟨revision, last, mem⟩ := (h.keys key).mp processed
            rw [same, Option.some.injEq] at last
            exact ⟨revision, by rw [← last]; rfl, List.mem_append_left _ mem⟩
          · simp at processed
      · rintro ⟨revision, last, mem⟩
        obtain rfl : event.1 = revision := Option.some.inj last
        rcases List.mem_append.mp mem with mem | new
        · obtain ⟨newest, last', le⟩ := h.le_last mem
          have same : newest = event.1 := le_antisymm (newer newest last') le
          rw [if_pos (same ▸ last')]
          exact .inr ((h.keys key).mpr ⟨event.1, same ▸ last', mem⟩)
        · exact .inl (congrArg Prod.snd (List.mem_singleton.mp new))

/-- A stream of events that are not older than the last one. -/
theorem Remembers.feed {stream : List Event} (h : Remembers start cursor accepted)
    (ordered : stream.Pairwise fun first second ↦ first.1 ≤ second.1)
    (fresh : ∀ event ∈ stream, start ≤ event.1)
    (newer : ∀ event ∈ stream, ∀ revision, cursor.lastEventRevision = some revision →
      revision ≤ event.1) :
    Remembers start (cursor.feed stream).1 (accepted ++ (cursor.feed stream).2) ∧
      ∀ event, event ∈ accepted ++ (cursor.feed stream).2 ↔ event ∈ accepted ∨ event ∈ stream := by
  induction stream generalizing cursor accepted with
  | nil =>
    rw [WatchCursor.feed, List.append_nil]
    exact ⟨h, fun event ↦ by simp⟩
  | cons first stream ih =>
    obtain ⟨later, ordered'⟩ := List.pairwise_cons.mp ordered
    obtain ⟨verdict, after⟩ := h.offer (fresh first List.mem_cons_self) (newer first List.mem_cons_self)
    -- the last revision is now at most that of the event just offered
    have last (revision : Revision) (found : (cursor.offer first).1.lastEventRevision = some revision) :
        revision ≤ first.1 := by
      unfold WatchCursor.offer at found
      split at found
      · exact (Option.some.inj found).ge
      · exact newer first List.mem_cons_self revision found
    obtain ⟨remembers, members⟩ := ih after ordered'
      (fun event mem ↦ fresh event (List.mem_cons_of_mem _ mem))
      fun event mem revision found ↦ (last revision found).trans (later event mem)
    have split : accepted ++ (cursor.feed (first :: stream)).2 =
        (if first ∈ accepted then accepted else accepted ++ [first]) ++
          ((cursor.offer first).1.feed stream).2 := by
      rw [WatchCursor.feed]
      simp only [verdict]
      by_cases known : first ∈ accepted <;> simp [known]
    rw [split]
    refine ⟨remembers, fun event ↦ (members event).trans ?_⟩
    rw [List.mem_cons]
    by_cases known : first ∈ accepted
    · rw [if_pos known]
      constructor
      · exact fun mem ↦ mem.imp_right .inr
      · rintro (mem | rfl | mem)
        · exact .inl mem
        · exact .inl known
        · exact .inr mem
    · rw [if_neg known, List.mem_append, List.mem_singleton, or_assoc]

end Step

section Deliveries

variable {history : List Event} {start : Revision} {initial cursor : WatchCursor}
  {delivered accepted : List Event}

theorem StreamFrom.mem {revision : Revision} {stream : List Event} {event : Event}
    (h : StreamFrom history revision stream) (mem : event ∈ stream) :
    event ∈ history ∧ revision ≤ event.1 := by
  obtain ⟨rest, perm, _⟩ := h
  simpa using perm.mem_iff.mp (List.mem_append_left _ mem)

/-- Before an event of a stream come all older ones from its start on. -/
theorem StreamFrom.older {revision : Revision} {stream : List Event} {event older : Event}
    (h : StreamFrom history revision stream) (mem : event ∈ stream) (known : older ∈ history)
    (from_ : revision ≤ older.1) (lt : older.1 < event.1) : older ∈ stream := by
  obtain ⟨rest, perm, ordered⟩ := h
  have listed := perm.mem_iff.mpr (List.mem_filter.mpr ⟨known, by simpa using from_⟩)
  refine (List.mem_append.mp listed).resolve_right fun later ↦ ?_
  exact absurd ((List.pairwise_append.mp ordered).2.2 event mem older later) (Nat.not_le.mpr lt)

/-- What a delivery from a fresh cursor means. -/
structure Exactly (history : List Event) (start : Revision) (cursor : WatchCursor)
    (delivered accepted : List Event) : Prop where
  remembers : Remembers start cursor accepted
  delivered : ∀ event, event ∈ accepted ↔ event ∈ delivered
  recorded : ∀ event ∈ accepted, event ∈ history ∧ start ≤ event.1
  gapless : ∀ event ∈ history, start ≤ event.1 → (∃ newer ∈ accepted, event.1 < newer.1) →
    event ∈ accepted

theorem exactly_of_delivery (fresh : initial.startRevision = start)
    (nothing : initial.lastEventRevision = none) (empty : initial.processedKeys = ∅)
    (h : Delivery history initial cursor delivered accepted) :
    Exactly history start cursor delivered accepted := by
  induction h with
  | none =>
    exact {
      remembers := ⟨fresh, .nil, .nil, nothing, fun key ↦ by simp [nothing, empty]⟩
      delivered := fun event ↦ Iff.rfl
      recorded := fun event mem ↦ absurd mem List.not_mem_nil
      gapless := fun event _ _ older ↦ by
        obtain ⟨newer, mem, -⟩ := older
        exact absurd mem List.not_mem_nil }
  | @stream cursor delivered accepted stream _ streamed ih =>
    have fromStart : start ≤ cursor.resumeRevision := by
      unfold WatchCursor.resumeRevision
      cases last : cursor.lastEventRevision with
      | none => exact ih.remembers.start.ge
      | some revision =>
        rw [ih.remembers.last, Option.map_eq_some_iff] at last
        obtain ⟨event, last, rfl⟩ := last
        exact (ih.recorded event (List.mem_of_getLast? last)).2
    have ordered : stream.Pairwise fun first second ↦ first.1 ≤ second.1 :=
      (List.pairwise_append.mp streamed.choose_spec.2).1
    obtain ⟨remembers, members⟩ := ih.remembers.feed ordered
      (fun event mem ↦ fromStart.trans (streamed.mem mem).2) fun event mem revision last ↦ by
        have resumed := (streamed.mem mem).2
        rwa [WatchCursor.resumeRevision, last] at resumed
    refine ⟨remembers, fun event ↦ ?_, fun event mem ↦ ?_, fun event known from_ older ↦ ?_⟩
    · rw [members, ih.delivered, List.mem_append]
    · rcases (members event).mp mem with old | new
      · exact ih.recorded event old
      · exact ⟨(streamed.mem new).1, fromStart.trans (streamed.mem new).2⟩
    · obtain ⟨newer, mem, lt⟩ := older
      rw [members]
      rcases (members newer).mp mem with old | new
      · exact .inl (ih.gapless event known from_ ⟨newer, old, lt⟩)
      · by_cases resumed : cursor.resumeRevision ≤ event.1
        · exact .inr (streamed.older new known resumed lt)
        · -- the event is older than the last accepted one
          left
          unfold WatchCursor.resumeRevision at resumed
          cases last : cursor.lastEventRevision with
          | none =>
            rw [last, Option.getD_none, ih.remembers.start] at resumed
            exact absurd from_ resumed
          | some revision =>
            rw [last, Option.getD_some] at resumed
            rw [ih.remembers.last, Option.map_eq_some_iff] at last
            obtain ⟨newest, last, rfl⟩ := last
            exact ih.gapless event known from_
              ⟨newest, List.mem_of_getLast? last, Nat.lt_of_not_le resumed⟩

/-- After a recovery the cursor is as a new one that starts behind the snapshot. -/
theorem resetAfterRecovery_spec {before after : WatchCursor} {snapshot : Revision}
    (h : before.resetAfterRecovery snapshot = some (start, after)) :
    start = snapshot + 1 ∧ after.startRevision = snapshot + 1 ∧
      after.lastEventRevision = none ∧ after.processedKeys = ∅ := by
  unfold WatchCursor.resetAfterRecovery nextRevision at h
  split at h
  · obtain ⟨rfl, rfl⟩ := Prod.mk.inj (Option.some.inj h)
    exact ⟨rfl, rfl, rfl, rfl⟩
  · exact absurd h (by simp)

/-- A cursor accepts every delivered event from its start on once, in the order of revisions, also
after a recovery, and it leaves none out. -/
theorem cursor_accepts_exactly (history : List Event) :
    (∀ start cursor delivered accepted, Delivery history (.new start) cursor delivered accepted →
      (∀ event, event ∈ accepted ↔ event ∈ delivered) ∧
      (∀ event ∈ accepted, event ∈ history ∧ start ≤ event.1) ∧
      accepted.Nodup ∧ accepted.Pairwise (fun first second ↦ first.1 ≤ second.1)) ∧
    ∀ (before after : WatchCursor) (snapshot start : Revision),
      before.resetAfterRecovery snapshot = some (start, after) →
      ∀ cursor delivered accepted, Delivery history after cursor delivered accepted →
        (∀ event, event ∈ accepted ↔ event ∈ delivered) ∧
        (∀ event ∈ accepted, event ∈ history ∧ snapshot < event.1) ∧
        accepted.Nodup ∧ accepted.Pairwise (fun first second ↦ first.1 ≤ second.1) ∧
        ∀ event ∈ history, snapshot < event.1 → (∃ newer ∈ accepted, event.1 < newer.1) →
          event ∈ accepted := by
  constructor
  · intro start cursor delivered accepted h
    have exactly : Exactly history start cursor delivered accepted :=
      exactly_of_delivery rfl rfl rfl h
    exact ⟨exactly.delivered, exactly.recorded, exactly.remembers.nodup, exactly.remembers.ordered⟩
  · intro before after snapshot start reset cursor delivered accepted h
    obtain ⟨rfl, revision, last, keys⟩ := resetAfterRecovery_spec reset
    have exactly := exactly_of_delivery revision last keys h
    exact ⟨exactly.delivered, exactly.recorded, exactly.remembers.nodup,
      exactly.remembers.ordered, exactly.gapless⟩

/-- The redelivered second key of a revision is dropped, the first one is not forgotten. -/
example : ((WatchCursor.new 5).feed
    [(5, "first"), (5, "second"), (5, "second"), (5, "first"), (6, "new")]).2 =
      [(5, "first"), (5, "second"), (6, "new")] := by
  decide +kernel

end Deliveries

end WatchCursor

end Clustodian
