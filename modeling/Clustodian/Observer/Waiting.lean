import Clustodian.Coordination.Marker
import Clustodian.Coordination.Watch

namespace Clustodian

open RevisionStore

structure ControllerMembership where
  active : List String
  standby : List String
  deriving DecidableEq

/-- What an observer sees of a cluster. Routing is a function of the external view and the
configured instances. -/
structure ClusterSnapshot where
  observerRevision : Revision
  authoritativeRevision : Revision
  processedRevision : Option Revision
  controllers : ControllerMembership
  participants : ParticipantSessionSnapshot
  externalView : ExternalView
  pendingTransitions : List PublishedTransition
  configuredInstances : BTreeSet InstanceId

section Decoding

def controllers (snapshot : CoordinationSnapshot) : ControllerMembership :=
  let active := (snapshot.controllerElection.active.map fun item ↦ [item.1]).getD []
  ⟨active, (snapshot.controllerElection.candidates.toList.map Prod.fst).filter (· ∉ active)⟩

def orError {ε α : Type} (error : CoordinationError) : Except ε α → Except CoordinationError α
  | .ok a => .ok a
  | .error _ => .error error

def processedRevision (snapshot : CoordinationSnapshot) :
    Except CoordinationError (Option Revision) :=
  match metadataValue snapshot processedOutputKey with
  | none => .ok none
  | some value => do return some (← parseRevision value)

abbrev ExternalViewWire := BTreeMap String (BTreeMap String (BTreeMap String String))

def externalViewWire (snapshot : CoordinationSnapshot) :
    Except CoordinationError ExternalViewWire :=
  match metadataValue snapshot externalOutputKey with
  | none => .ok ∅
  | some (.externalView view) => .ok view
  | some _ => .error .invalidValue

def pendingTransitions (snapshot : CoordinationSnapshot) :
    Except CoordinationError (List PublishedTransition) :=
  match metadataValue snapshot pendingOutputKey with
  | none => .ok []
  | some value => orError .invalidValue value.asTransitions

def configuredInstances (snapshot : CoordinationSnapshot) :
    Except CoordinationError (BTreeSet InstanceId) :=
  match metadataValue snapshot instanceConfigsKey with
  | none => .ok ∅
  | some value => do
    let records ← orError .invalidValue value.asInstances
    records.foldlM (fun configured record ↦ do
      let instance_ ← orError .invalidKey (Name.new .ofInstance record.name)
      return configured.insert instance_) ∅

def addReplica (partition : PartitionId) (current : CurrentState) (item : String × String) :
    Except CoordinationError CurrentState := do
  let instance_ ← orError .invalidKey (Name.new .ofInstance item.1)
  let state ← orError .invalidValue (Name.new .ofState item.2)
  orError .invalidValue (current.setState partition instance_ state)

def addPartition (current : CurrentState) (item : String × BTreeMap String String) :
    Except CoordinationError CurrentState := do
  let partition ← orError .invalidKey (Name.new .ofPartition item.1)
  item.2.toList.foldlM (addReplica partition) current

def addResource (view : ExternalView) (item : String × BTreeMap String (BTreeMap String String)) :
    Except CoordinationError ExternalView := do
  let resource ← orError .invalidKey (Name.new .ofResource item.1)
  let current ← item.2.toList.foldlM addPartition (∅ : CurrentState)
  return view.insert resource current.entries

def externalViewModel (wire : ExternalViewWire) : Except CoordinationError ExternalView :=
  wire.toList.foldlM addResource ∅

def snapshotFromCoordination (snapshot : CoordinationSnapshot) :
    Except CoordinationError ClusterSnapshot := do
  let processed ← processedRevision snapshot
  let wire ← externalViewWire snapshot
  let pending ← pendingTransitions snapshot
  let configured ← configuredInstances snapshot
  let view ← externalViewModel wire
  return ⟨snapshot.revision, snapshot.authoritativeRevision, processed, controllers snapshot,
    snapshot.participants, view, pending, configured⟩

/-- One read of the namespace; `none` stands for a failed etcd request. -/
def readSnapshot (answer : Option EtcdStore) : Except CoordinationError ClusterSnapshot :=
  match answer with
  | none => .error .etcd
  | some s => do snapshotFromCoordination (← controllerSnapshotFromKvs s)

theorem readSnapshot_eq_ok {s : EtcdStore} {snapshot : ClusterSnapshot}
    (h : readSnapshot (some s) = .ok snapshot) :
    snapshot.observerRevision = s.revision ∧
      snapshot.authoritativeRevision = authoritativeRevision s := by
  obtain ⟨coordination, hcoordination, h⟩ := CheckedLoop.bind_eq_ok.mp h
  have of := snapshotOf hcoordination
  obtain ⟨processed, -, h⟩ := CheckedLoop.bind_eq_ok.mp h
  obtain ⟨wire, -, h⟩ := CheckedLoop.bind_eq_ok.mp h
  obtain ⟨pending, -, h⟩ := CheckedLoop.bind_eq_ok.mp h
  obtain ⟨configured, -, h⟩ := CheckedLoop.bind_eq_ok.mp h
  obtain ⟨view, -, h⟩ := CheckedLoop.bind_eq_ok.mp h
  cases h
  exact ⟨of.revision, of.authoritativeRevision⟩

end Decoding

section Loop

def isLeaseBackedDelete (event : WatchEvent) : Bool :=
  event.kind = .delete && (startsWith event.key "live/" || startsWith event.key "current-state/")

def ClusterSnapshot.withAuthoritativeFloor (snapshot : ClusterSnapshot) (floor : Revision) :
    ClusterSnapshot :=
  { snapshot with authoritativeRevision := max snapshot.authoritativeRevision floor }

/-- The variables of the wait loop. -/
structure Waiting where
  authoritativeFloor : Revision
  catchUpRevision : Revision
  caughtUp : Bool
  deriving DecidableEq

/-- What the loop meets: the first read, a watch event with the read it causes, a compacted watch
with the read of its replacement, a watch to be resumed, a watch that cannot be, or a poll. -/
inductive WaitInput
  | start (answer : Option EtcdStore)
  | event (event : WatchEvent) (answer : Option EtcdStore)
  | compacted (answer : Option EtcdStore)
  | disconnected
  | broken (error : CoordinationError)
  | poll (answer : Option EtcdStore)

inductive WaitProgress
  | starting
  | waiting (state : Waiting)
  | returned (snapshot : ClusterSnapshot)
  | failed (error : CoordinationError)

namespace Waiting

def ofSnapshot (snapshot : ClusterSnapshot) : Waiting :=
  ⟨snapshot.authoritativeRevision, snapshot.observerRevision,
    snapshot.observerRevision ≤ snapshot.authoritativeRevision⟩

def onEvent (w : Waiting) (event : WatchEvent) : Waiting :=
  ⟨if isLeaseBackedDelete event then max w.authoritativeFloor event.revision
    else w.authoritativeFloor, w.catchUpRevision, w.caughtUp || w.catchUpRevision ≤ event.revision⟩

def onCompacted (w : Waiting) (snapshot : ClusterSnapshot) : Waiting :=
  ⟨max w.authoritativeFloor snapshot.authoritativeRevision, w.catchUpRevision, true⟩

/-- Return a read snapshot or keep waiting. -/
def judge (predicate : ClusterSnapshot → Bool) (w : Waiting) (snapshot : ClusterSnapshot) :
    WaitProgress :=
  if w.caughtUp && predicate snapshot then .returned snapshot else .waiting w

end Waiting

/-- `wait_until` of both observers. -/
def WaitProgress.next (predicate : ClusterSnapshot → Bool) : WaitProgress → WaitInput →
    WaitProgress
  | .starting, .start answer => match readSnapshot answer with
    | .error error => .failed error
    | .ok snapshot => (Waiting.ofSnapshot snapshot).judge predicate snapshot
  | .waiting w, .event event answer => match readSnapshot answer with
    | .error error => .failed error
    | .ok snapshot => (w.onEvent event).judge predicate
        (snapshot.withAuthoritativeFloor (w.onEvent event).authoritativeFloor)
  | .waiting w, .compacted answer => match readSnapshot answer with
    | .error error => .failed error
    | .ok snapshot =>
      let floored := snapshot.withAuthoritativeFloor w.authoritativeFloor
      (w.onCompacted floored).judge predicate floored
  | .waiting _, .broken error => .failed error
  | .waiting w, .poll answer => match readSnapshot answer with
    | .error error => if error.isTransient then .waiting w else .failed error
    | .ok snapshot => w.judge predicate (snapshot.withAuthoritativeFloor w.authoritativeFloor)
  | progress, _ => progress

/-- The predicate of `wait_for_idle`. -/
def isIdle (snapshot : ClusterSnapshot) : Bool :=
  snapshot.pendingTransitions.isEmpty &&
    snapshot.processedRevision.any (snapshot.authoritativeRevision ≤ ·)

end Loop

section Runs

/-- A change of a key, as the namespace watch shows it. -/
def watchEventOf (r : Record Key Value Purpose) (key : Key) : WatchEvent :=
  ⟨r.after.revision, key.relative, r.after.value key,
    if (r.after.entry key).isSome then .put else .delete⟩

def Occurred (history : List (Record Key Value Purpose)) (event : WatchEvent) : Prop :=
  ∃ r ∈ history, ∃ key : Key, r.after.entry key ≠ r.before.entry key ∧ event = watchEventOf r key

namespace WaitInput

def answer : WaitInput → Option EtcdStore
  | .start answer => answer
  | .event _ answer => answer
  | .compacted answer => answer
  | .disconnected => none
  | .broken _ => none
  | .poll answer => answer

def delivered : WaitInput → Option WatchEvent
  | .event shown _ => some shown
  | _ => none

def isCompacted : WaitInput → Bool
  | .compacted _ => true
  | _ => false

/-- Reads are of the present store and events of the past. -/
def Possible (cluster : Cluster) (input : WaitInput) : Prop :=
  (∀ s, input.answer = some s → s = cluster.store) ∧
    ∀ event, input.delivered = some event → Occurred cluster.history event

end WaitInput

namespace WaitProgress

def state : WaitProgress → Option Waiting
  | .waiting w => some w
  | _ => none

/-- What a finished wait has returned. -/
def result : WaitProgress → Option ClusterSnapshot
  | .returned snapshot => some snapshot
  | _ => none

theorem eq_waiting {progress : WaitProgress} {w : Waiting} (h : progress.state = some w) :
    progress = .waiting w := by
  cases progress with
  | waiting w' => rw [Option.some.inj h]
  | _ => cases h

end WaitProgress

/-- Whether the loop is at the place for such an input. -/
def WaitProgress.expects : WaitProgress → WaitInput → Bool
  | .starting, .start _ => true
  | .waiting _, .start _ => false
  | .waiting _, _ => true
  | _, _ => false

/-- An observer beside the clients of the namespace, with all it has met. -/
structure Observing where
  cluster : Cluster
  inputs : List WaitInput
  progress : WaitProgress

namespace Observing

inductive Reachable (predicate : ClusterSnapshot → Bool) (s : EtcdStore) : Observing → Prop
  | initial {cluster : Cluster} : NamespaceReachable s cluster →
      Reachable predicate s ⟨cluster, [], .starting⟩
  | cluster {o : Observing} {cluster : Cluster} : Reachable predicate s o →
      System.Step True Operation.program Outside o.cluster cluster →
      Reachable predicate s ⟨cluster, o.inputs, o.progress⟩
  | observe {o : Observing} (input : WaitInput) : Reachable predicate s o →
      o.progress.expects input = true → input.Possible o.cluster →
      Reachable predicate s ⟨o.cluster, o.inputs ++ [input], o.progress.next predicate input⟩

/-- The events the watch has handed out. -/
def delivered (o : Observing) : List WatchEvent := o.inputs.filterMap WaitInput.delivered

end Observing

end Runs

section Steps

variable {predicate : ClusterSnapshot → Bool} {progress : WaitProgress} {input : WaitInput}

theorem judge_cases {w w' : Waiting} {snapshot : ClusterSnapshot}
    (h : w.judge predicate snapshot = .waiting w') : w' = w := by
  unfold Waiting.judge at h
  split at h
  · cases h
  · cases h
    rfl

/-- How the loop goes on waiting. -/
theorem next_waiting {w' : Waiting} (h : progress.next predicate input = .waiting w')
    (expected : progress.expects input = true) :
    (∃ s snapshot, progress = .starting ∧ input = .start (some s) ∧
      readSnapshot (some s) = .ok snapshot ∧ w' = .ofSnapshot snapshot) ∨
    ∃ w, progress = .waiting w ∧
      ((∃ event answer, input = .event event answer ∧ w' = w.onEvent event) ∨
      (∃ answer snapshot, input = .compacted answer ∧ w' = w.onCompacted snapshot) ∨
      (input.delivered = none ∧ input.isCompacted = false ∧ w' = w)) := by
  cases progress with
  | starting =>
    cases input with
    | start answer =>
      rw [WaitProgress.next] at h
      split at h
      · cases h
      · next snapshot hread =>
        cases answer with
        | none => cases hread
        | some s => exact .inl ⟨s, snapshot, rfl, rfl, hread, judge_cases h⟩
    | _ => cases expected
  | waiting w =>
    refine .inr ⟨w, rfl, ?_⟩
    cases input with
    | start answer => cases expected
    | event event answer =>
      rw [WaitProgress.next] at h
      split at h
      · cases h
      · exact .inl ⟨event, answer, rfl, judge_cases h⟩
    | compacted answer =>
      rw [WaitProgress.next] at h
      split at h
      · cases h
      · exact .inr (.inl ⟨answer, _, rfl, judge_cases h⟩)
    | disconnected =>
      cases h
      exact .inr (.inr ⟨rfl, rfl, rfl⟩)
    | broken error => cases h
    | poll answer =>
      refine .inr (.inr ⟨rfl, rfl, ?_⟩)
      rw [WaitProgress.next] at h
      split at h
      · split at h
        · cases h
          rfl
        · cases h
      · exact judge_cases h
  | returned snapshot => cases expected
  | failed error => cases expected

theorem judge_returned {w : Waiting} {read snapshot : ClusterSnapshot}
    (h : w.judge predicate read = .returned snapshot) :
    snapshot = read ∧ predicate snapshot = true := by
  unfold Waiting.judge at h
  split at h
  · next met =>
    cases h
    exact ⟨rfl, (Bool.and_eq_true_iff.mp met).2⟩
  · cases h

/-- How the loop returns: with the read of its last input, lifted to what the events so far tell of
ended leases. -/
theorem next_returned {snapshot : ClusterSnapshot}
    (h : progress.next predicate input = .returned snapshot)
    (expected : progress.expects input = true) :
    ∃ s read floor, input.answer = some s ∧ readSnapshot (some s) = .ok read ∧
      snapshot = read.withAuthoritativeFloor floor ∧ predicate snapshot = true ∧
      (∀ w, progress = .waiting w → w.authoritativeFloor ≤ floor) ∧
      ∀ event, input.delivered = some event → isLeaseBackedDelete event = true →
        event.revision ≤ floor := by
  have answered : ∀ {answer : Option EtcdStore} {read : ClusterSnapshot},
      readSnapshot answer = .ok read → ∃ s, answer = some s := by
    intro answer read hread
    cases answer with
    | none => cases hread
    | some s => exact ⟨s, rfl⟩
  cases progress with
  | starting =>
    cases input with
    | start answer =>
      rw [WaitProgress.next] at h
      split at h
      · cases h
      · next read hread =>
        obtain ⟨s, rfl⟩ := answered hread
        obtain ⟨rfl, met⟩ := judge_returned h
        refine ⟨s, snapshot, 0, rfl, hread, ?_, met, (fun _ h ↦ nomatch h), fun _ h ↦ nomatch h⟩
        rw [ClusterSnapshot.withAuthoritativeFloor, Nat.max_zero]
    | _ => cases expected
  | waiting w =>
    cases input with
    | start answer => cases expected
    | event event answer =>
      rw [WaitProgress.next] at h
      split at h
      · cases h
      · next read hread =>
        obtain ⟨s, rfl⟩ := answered hread
        obtain ⟨rfl, met⟩ := judge_returned h
        refine ⟨s, read, _, rfl, hread, rfl, met, fun w' same ↦ ?_, fun event' same ended ↦ ?_⟩
        · cases same
          unfold Waiting.onEvent
          dsimp only
          split
          · exact le_max_left _ _
          · exact le_rfl
        · cases same
          rw [Waiting.onEvent, if_pos ended]
          exact le_max_right _ _
    | compacted answer =>
      rw [WaitProgress.next] at h
      split at h
      · cases h
      · next read hread =>
        obtain ⟨s, rfl⟩ := answered hread
        obtain ⟨rfl, met⟩ := judge_returned h
        refine ⟨s, read, _, rfl, hread, rfl, met, fun w' same ↦ ?_, fun _ h ↦ nomatch h⟩
        cases same
        exact le_rfl
    | disconnected => cases h
    | broken error => cases h
    | poll answer =>
      rw [WaitProgress.next] at h
      split at h
      · split at h <;> cases h
      · next read hread =>
        obtain ⟨s, rfl⟩ := answered hread
        obtain ⟨rfl, met⟩ := judge_returned h
        refine ⟨s, read, _, rfl, hread, rfl, met, fun w' same ↦ ?_, fun _ h ↦ nomatch h⟩
        cases same
        exact le_rfl
  | returned snapshot => cases expected
  | failed error => cases expected

end Steps

section Invariants

variable {predicate : ClusterSnapshot → Bool} {s : EtcdStore} {o : Observing}

namespace Observing.Reachable

theorem namespace_reachable (h : Reachable predicate s o) : NamespaceReachable s o.cluster := by
  induction h with
  | initial start => exact start
  | cluster _ step ih => exact ih.step step
  | observe input _ _ _ ih => exact ih

theorem mem_delivered {event : WatchEvent} :
    event ∈ o.delivered ↔ ∃ input ∈ o.inputs, input.delivered = some event :=
  List.mem_filterMap

theorem delivered_observe {input : WaitInput} {progress : WaitProgress} {event : WatchEvent}
    (mem : event ∈ Observing.delivered ⟨o.cluster, o.inputs ++ [input], progress⟩) :
    event ∈ o.delivered ∨ input.delivered = some event := by
  obtain ⟨other, mem, found⟩ := mem_delivered.mp mem
  rcases List.mem_append.mp mem with mem | mem
  · exact .inl (mem_delivered.mpr ⟨other, mem, found⟩)
  · rw [List.mem_singleton.mp mem] at found
    exact .inr found

theorem occurred (h : Reachable predicate s o) {event : WatchEvent} (mem : event ∈ o.delivered) :
    Occurred o.cluster.history event := by
  induction h with
  | initial => cases mem
  | @cluster o _ _ step ih =>
    obtain ⟨r, hr, key, changed, rfl⟩ := ih mem
    obtain ⟨new, past, -⟩ := System.steps_changed (fun _ ↦ ()) (.single step)
    exact ⟨r, by rw [past]; exact List.mem_append_left _ hr, key, changed, rfl⟩
  | observe input _ _ possible ih =>
    rcases delivered_observe mem with earlier | now
    · exact ih earlier
    · exact possible.2 event now

theorem starting (h : Reachable predicate s o) (start : o.progress = .starting) : o.inputs = [] := by
  induction h with
  | initial => rfl
  | cluster _ _ ih => exact ih start
  | @observe o input _ expected _ _ =>
    exfalso
    have judged : ∀ (w : Waiting) snapshot, w.judge predicate snapshot ≠ .starting := by
      intro w snapshot h
      unfold Waiting.judge at h
      split at h <;> cases h
    revert start expected
    cases o.progress <;> cases input <;> simp only [WaitProgress.next, WaitProgress.expects] <;>
      grind

/-- The floor covers every ended lease the watch has told of. -/
theorem floor (h : Reachable predicate s o) {w : Waiting} (waiting : o.progress = .waiting w)
    {event : WatchEvent} (mem : event ∈ o.delivered) (ended : isLeaseBackedDelete event = true) :
    event.revision ≤ w.authoritativeFloor := by
  induction h generalizing w with
  | initial => cases waiting
  | cluster _ _ ih => exact ih waiting mem
  | @observe o input reach expected possible ih =>
    have earlier : ∀ w, o.progress = .waiting w → event ∈ o.delivered →
        event.revision ≤ w.authoritativeFloor := fun w hw mem ↦ ih hw mem
    have split := delivered_observe mem
    rcases next_waiting waiting expected with ⟨s', snapshot, starting, rfl, -, -⟩ |
        ⟨w', hw', ⟨event', answer, rfl, rfl⟩ | ⟨answer, snapshot, rfl, rfl⟩ | ⟨quiet, -, rfl⟩⟩
    · -- nothing was delivered before the start
      rcases split with mem | now
      · rw [Observing.delivered, reach.starting starting] at mem
        cases mem
      · cases now
    · unfold Waiting.onEvent
      dsimp only
      rcases split with mem | now
      · have bound := earlier w' hw' mem
        split
        · exact bound.trans (le_max_left _ _)
        · exact bound
      · cases now
        rw [if_pos ended]
        exact le_max_right _ _
    · rcases split with mem | now
      · exact (earlier w' hw' mem).trans (le_max_left _ _)
      · cases now
    · rcases split with mem | now
      · exact earlier w hw' mem
      · rw [quiet] at now
        cases now

end Observing.Reachable

end Invariants

section CatchUp

variable {predicate : ClusterSnapshot → Bool} {s first : EtcdStore} {o : Observing} {w : Waiting}

/-- The target is the revision of the first read; it is met by the first read itself, by an event
that is as new, or by a compaction. -/
theorem Observing.Reachable.caughtUp (h : Reachable predicate s o) (waiting : o.progress = .waiting w) :
    ∃ first rest, o.inputs = .start (some first) :: rest ∧ w.catchUpRevision = first.revision ∧
      (w.caughtUp = true ↔ first.revision ≤ authoritativeRevision first ∨
        (∃ event ∈ o.delivered, first.revision ≤ event.revision) ∨
        ∃ input ∈ o.inputs, input.isCompacted = true) := by
  induction h generalizing w with
  | initial => cases waiting
  | cluster _ _ ih => exact ih waiting
  | @observe o input reach expected _ ih =>
    rcases next_waiting waiting expected with ⟨first, snapshot, starting, rfl, hread, rfl⟩ |
        ⟨w', hw', step⟩
    · obtain ⟨observed, authoritative⟩ := readSnapshot_eq_ok hread
      refine ⟨first, [], by rw [reach.starting starting]; rfl, observed, ?_⟩
      simp [Waiting.ofSnapshot, Observing.delivered, reach.starting starting, observed,
        authoritative, WaitInput.delivered, WaitInput.isCompacted]
    · obtain ⟨first, rest, inputs, target, met⟩ := ih hw'
      have delivered : Observing.delivered ⟨o.cluster, o.inputs ++ [input],
          o.progress.next predicate input⟩ = o.delivered ++ input.delivered.toList := by
        rw [Observing.delivered, List.filterMap_append]
        cases seen : input.delivered <;> simp [Observing.delivered, seen]
      refine ⟨first, rest ++ [input], by rw [inputs]; rfl, ?_, ?_⟩
      · rcases step with ⟨_, _, -, rfl⟩ | ⟨_, _, -, rfl⟩ | ⟨-, -, rfl⟩ <;> exact target
      · simp only [delivered, List.mem_append, or_and_right, exists_or, List.mem_singleton]
        rcases step with ⟨event, answer, rfl, rfl⟩ | ⟨answer, snapshot, rfl, rfl⟩ |
            ⟨quiet, kept, rfl⟩
        · have ordinary : (WaitInput.event event answer).isCompacted = false := rfl
          simp only [Waiting.onEvent, Bool.or_eq_true, met, target, decide_eq_true_eq,
            WaitInput.delivered, Option.toList_some, List.mem_singleton, exists_eq_left,
            ordinary, Bool.false_eq_true, or_false]
          rw [or_assoc, or_right_comm]
        · simp [Waiting.onCompacted, WaitInput.isCompacted]
        · simp [met, quiet, kept]

/-- The revision of the first read was made by a write to the namespace. -/
def Current (first : EtcdStore) (history : List (Record Key Value Purpose)) : Prop :=
  first.revision ≤ authoritativeRevision first ∨
    ∃ event, Occurred history event ∧ event.revision = first.revision

/-- The watch has shown every event between the first read's authoritative and own revision. -/
def Observing.ShownAll (o : Observing) (first : EtcdStore) : Prop :=
  ∀ event, Occurred o.cluster.history event → authoritativeRevision first < event.revision →
    event.revision ≤ first.revision → event ∈ o.delivered

/-- Whatever satisfies the predicate is returned. -/
def Waiting.Returns (predicate : ClusterSnapshot → Bool) (w : Waiting) : Prop :=
  ∀ s snapshot, readSnapshot (some s) = .ok snapshot →
    predicate (snapshot.withAuthoritativeFloor w.authoritativeFloor) = true →
    (WaitProgress.waiting w).next predicate (.poll (some s)) =
      .returned (snapshot.withAuthoritativeFloor w.authoritativeFloor)

theorem returns_of_caughtUp (h : w.caughtUp = true) : w.Returns predicate := by
  intro s snapshot hread met
  rw [WaitProgress.next, hread]
  simp only [Waiting.judge, h, met, Bool.and_self, if_true]

theorem wait_catches_up_iff (reach : Observing.Reachable predicate s o)
    (waiting : o.progress = .waiting w) (started : o.inputs.head? = some (.start (some first)))
    (all : o.ShownAll first) :
    (Current first o.cluster.history → w.caughtUp = true ∧ w.Returns predicate) ∧
    ((∀ event ∈ o.delivered, event.revision ≤ first.revision) →
      (∀ input ∈ o.inputs, input.isCompacted = false) →
      (w.caughtUp = true ↔ Current first o.cluster.history)) := by
  obtain ⟨first', rest, inputs, -, met⟩ := reach.caughtUp waiting
  rw [inputs] at started
  cases started
  have enough : Current first o.cluster.history → w.caughtUp = true := by
    intro current
    refine met.mpr ?_
    by_cases early : first.revision ≤ authoritativeRevision first
    · exact .inl early
    · obtain ⟨event, occurred, same⟩ := current.resolve_left early
      refine .inr (.inl ⟨event, all event occurred ?_ same.le, same.ge⟩)
      rw [same]
      exact Nat.lt_of_not_le early
  refine ⟨fun current ↦ ⟨enough current, returns_of_caughtUp (enough current)⟩,
    fun exact_ compacted ↦ ⟨fun caught ↦ ?_, enough⟩⟩
  rcases met.mp caught with early | ⟨event, mem, bound⟩ | ⟨input, mem, h⟩
  · exact .inl early
  · exact .inr ⟨event, reach.occurred mem, le_antisymm (exact_ event mem) bound⟩
  · rw [compacted input mem] at h
    cases h

theorem possible_start (cluster : Cluster) :
    (WaitInput.start (some cluster.store)).Possible cluster :=
  ⟨fun _ same ↦ (Option.some.inj same).symm, fun _ h ↦ nomatch h⟩

-- A candidate's record is the newest write when the wait starts, and is then shown.
namespace NewCandidate

def cluster : Cluster :=
  (System.initial initialized).perform Operation.program (.acquire "c" [.proceed, .proceed]) 9 2

def event : WatchEvent := ⟨3, "controller/election/candidates/63", some (.text "c"), .put⟩

def observing : Observing :=
  let inputs := [.start (some cluster.store), .event event (some cluster.store)]
  ⟨cluster, inputs, inputs.foldl (WaitProgress.next fun _ ↦ false) .starting⟩

theorem occurred_iff {event' : WatchEvent} :
    Occurred cluster.history event' ↔ event' = event := by
  have shown : watchEventOf (.own 0 (.ofTxn Purpose.ordinary (candidateTxn "c" 9) initialized))
      (.candidate "c") = event := by decide +kernel
  have history : cluster.history = [.other initialized initialized,
      .own 0 (.ofTxn Purpose.ordinary (candidateTxn "c" 9) initialized)] := rfl
  have committed : (candidateTxn "c" 9).succeeds initialized = true := by decide
  have changed : ((candidateTxn "c" 9).run initialized).entry (.candidate "c") ≠
      initialized.entry (.candidate "c") := by decide
  constructor
  · rintro ⟨r, mem, key, different, rfl⟩
    rw [history] at mem
    obtain rfl : r = _ := by
      rcases List.mem_cons.mp mem with rfl | mem
      · exact absurd rfl different
      · exact List.mem_singleton.mp mem
    by_cases same : key = .candidate "c"
    · rw [same]
      exact shown
    · refine absurd ?_ different
      change ((candidateTxn "c" 9).run initialized).entry key = initialized.entry key
      rw [Txn.run, if_pos committed]
      exact Store.entry_write_of_not_mem (by simpa [candidateTxn, Op.key] using same)
  · rintro rfl
    have mem : .own 0 (.ofTxn Purpose.ordinary (candidateTxn "c" 9) initialized) ∈
        cluster.history := by
      rw [history]
      exact List.mem_cons_of_mem _ (List.mem_singleton_self _)
    exact ⟨_, mem, .candidate "c", changed, shown.symm⟩

theorem reachable : Observing.Reachable (fun _ ↦ false) Store.empty observing := by
  have start : Observing.Reachable (fun _ ↦ false) Store.empty ⟨cluster, [], .starting⟩ :=
    .initial (System.Reachable.initial.perform _ _ _)
  have first := start.observe (.start (some cluster.store)) rfl (possible_start cluster)
  refine first.observe (.event event (some cluster.store)) (by decide +kernel) ?_
  refine ⟨fun s same ↦ (Option.some.inj same).symm, fun event' same ↦ ?_⟩
  exact occurred_iff.mpr (Option.some.inj same).symm

end NewCandidate

open NewCandidate in
theorem wait_catches_up_candidate : cluster.store.revision = 3 ∧
    authoritativeRevision cluster.store = 2 ∧
    ∃ w, observing.progress = .waiting w ∧ w.caughtUp = true ∧ w.Returns fun _ ↦ false := by
  obtain ⟨progress, revision, newest⟩ : observing.progress.state = some ⟨2, 3, true⟩ ∧
      cluster.store.revision = 3 ∧ authoritativeRevision cluster.store = 2 := by decide +kernel
  have waiting := WaitProgress.eq_waiting progress
  refine ⟨revision, newest, _, waiting,
    (wait_catches_up_iff reachable waiting rfl fun event' occurred _ _ ↦ ?_).1 ?_⟩
  · rw [occurred_iff.mp occurred]
    exact List.mem_singleton_self _
  · refine .inr ⟨event, occurred_iff.mpr rfl, ?_⟩
    rw [revision]
    rfl

theorem wait_stuck_on_foreign_write : ∃ (o : Observing) (w : Waiting) (first : EtcdStore),
    Observing.Reachable (fun _ ↦ true) Store.empty o ∧ o.progress = .waiting w ∧
      o.inputs.head? = some (.start (some first)) ∧ o.ShownAll first ∧ w.caughtUp = false ∧
      ∀ n, (fun progress : WaitProgress ↦
        progress.next (fun _ ↦ true) (.poll (some first)))^[n] (.waiting w) = .waiting w := by
  let cluster : Cluster := ⟨initialized.advance, [], [.other initialized initialized.advance]⟩
  obtain ⟨begun, polled⟩ : (WaitProgress.starting.next (fun _ ↦ true)
      (.start (some initialized.advance))).state = some ⟨2, 3, false⟩ ∧
      ((WaitProgress.waiting ⟨2, 3, false⟩).next (fun _ ↦ true)
        (.poll (some initialized.advance))).state = some ⟨2, 3, false⟩ := by decide +kernel
  have start : Observing.Reachable (fun _ ↦ true) Store.empty ⟨cluster, [], .starting⟩ :=
    .initial (System.Reachable.initial.step (.other _ _ (.advance _)))
  refine ⟨_, _, initialized.advance, start.observe (.start (some initialized.advance)) rfl
    (possible_start cluster), WaitProgress.eq_waiting begun, rfl, ?_, rfl, fun n ↦ ?_⟩
  · rintro event ⟨r, mem, key, changed, -⟩
    obtain rfl := List.mem_singleton.mp mem
    exact absurd rfl changed
  · exact Function.iterate_fixed (WaitProgress.eq_waiting polled) n

end CatchUp

section Idle

variable {s : EtcdStore} {o : Observing} {input : WaitInput} {snapshot : ClusterSnapshot}

/-- Every ended lease the store knows of has either been followed by a write of the marker or been
shown to the observer. -/
def Observing.Covered (o : Observing) : Prop :=
  ∀ r ∈ o.cluster.history, ∀ lease, r.after = r.before.expire lease →
    ∀ key : Key, key.counted = true → r.after.entry key ≠ r.before.entry key →
      r.after.revision ≤ authoritativeRevision o.cluster.store ∨
      ∃ event ∈ o.delivered, event.revision = r.after.revision ∧ isLeaseBackedDelete event = true

/-- Everything the snapshot includes has been processed. -/
def ClusterSnapshot.Settled (snapshot : ClusterSnapshot)
    (history : List (Record Key Value Purpose)) : Prop :=
  ∀ r ∈ history, ∀ key : Key, key.counted = true → r.after.entry key ≠ r.before.entry key →
    r.after.revision ≤ snapshot.observerRevision →
    ∃ processed, snapshot.processedRevision = some processed ∧ r.after.revision ≤ processed

/-- What follows a read has a newer revision than the read. -/
theorem settled_of_steps {cluster cluster' : Cluster} (settled : snapshot.Settled cluster.history)
    (read : snapshot.observerRevision = cluster.store.revision)
    (steps : Relation.ReflTransGen (System.Step True Operation.program Outside) cluster cluster') :
    snapshot.Settled cluster'.history := by
  obtain ⟨-, new, history, records⟩ := System.steps_later (fun _ _ change ↦ change.later) steps
  intro r mem key counted changed bound
  rw [history] at mem
  rcases List.mem_append.mp mem with mem | mem
  · exact settled r mem key counted changed bound
  · obtain ⟨past, step⟩ := records r mem
    have order := past.revision_le
    have order' := step.revision_le
    refine absurd (step.entry_eq_of_revision ?_) changed
    rw [read] at bound
    exact le_antisymm (bound.trans order) order'

theorem waitForIdle_settled (absent : s.entry .marker = none)
    (reach : Observing.Reachable isIdle s o) (expected : o.progress.expects input = true)
    (possible : input.Possible o.cluster)
    (returned : o.progress.next isIdle input = .returned snapshot)
    (covered : Observing.Covered ⟨o.cluster, o.inputs ++ [input], .returned snapshot⟩)
    {cluster : Cluster}
    (steps : Relation.ReflTransGen (System.Step True Operation.program Outside) o.cluster cluster) :
    snapshot.Settled cluster.history := by
  obtain ⟨s', read, floor, answered, hread, rfl, idle, floors, now⟩ :=
    next_returned returned expected
  obtain rfl := possible.1 s' answered
  obtain ⟨observed, authoritative⟩ := readSnapshot_eq_ok hread
  refine settled_of_steps (fun r mem key counted changed bound ↦ ?_) observed steps
  obtain ⟨processed, hprocessed, reached⟩ : ∃ processed, read.processedRevision = some processed ∧
      max read.authoritativeRevision floor ≤ processed := by
    have met := (Bool.and_eq_true_iff.mp idle).2
    rw [ClusterSnapshot.withAuthoritativeFloor] at met
    cases found : read.processedRevision with
    | none =>
      rw [found] at met
      cases met
    | some processed =>
      rw [found, Option.any_some, decide_eq_true_eq] at met
      exact ⟨processed, rfl, met⟩
  refine ⟨processed, hprocessed, le_trans ?_ reached⟩
  have marker := (reach.namespace_reachable.markerNewest absent).authoritativeRevision
  have old : r.after.revision ≤ authoritativeRevision o.cluster.store →
      r.after.revision ≤ max read.authoritativeRevision floor := by
    intro le
    rw [authoritative]
    exact le.trans (le_max_left _ _)
  rcases reach.namespace_reachable.changed absent mem counted changed with fresh | ⟨lease, ended⟩
  · rw [← marker] at fresh
    exact old fresh
  · rcases covered r mem lease ended key counted changed with fresh | ⟨event, shown, same, kind⟩
    · exact old fresh
    · rw [← same]
      refine le_trans ?_ (le_max_right _ _)
      rcases Observing.Reachable.delivered_observe shown with earlier | latest
      · cases progress : o.progress with
        | waiting w => exact (reach.floor progress earlier kind).trans (floors w progress)
        | starting =>
          rw [Observing.delivered, reach.starting progress] at earlier
          cases earlier
        | returned snapshot =>
          rw [progress] at expected
          cases expected
        | failed error =>
          rw [progress] at expected
          cases expected
      · exact now event latest kind

theorem occurred_of_record {cluster : Cluster} (n : ℕ) (key : Key) {event : WatchEvent}
    (h : (cluster.history[n]?).any fun r ↦
      r.after.entry key ≠ r.before.entry key ∧ event = watchEventOf r key) :
    Occurred cluster.history event := by
  cases found : cluster.history[n]? with
  | none =>
    rw [found] at h
    cases h
  | some r =>
    rw [found, Option.any_some, decide_eq_true_eq] at h
    exact ⟨r, List.mem_of_getElem? found, key, h⟩

-- A controller is elected, an instance registers, the controller publishes, and the instance's
-- lease ends.
namespace LostLease

def elected : Cluster :=
  (System.initial initialized).perform Operation.program
    (.acquire "c" [.proceed, .proceed, .proceed]) 9 4

theorem joined_instance : "a" ≠ "" := by decide

theorem joined_state : "OFFLINE" ≠ "" := by decide

def joined : Cluster := elected.perform Operation.program
  (.register ⟨"a", joined_instance⟩ ⟨⟨"OFFLINE", joined_state⟩, ∅⟩) 7 5

def published : Cluster := joined.perform Operation.program
  (.publish ⟨"c", 9⟩ (.externalView ∅) (.ofTransitions .published []) 6 none) 9 3

def expired : Cluster := ⟨published.store.expire 7, published.clients,
  published.history ++ [.other published.store (published.store.expire 7)]⟩

theorem published_reachable : NamespaceReachable Store.empty published :=
  ((System.Reachable.initial.perform _ _ _).perform _ _ _).perform _ _ _

def started : WaitProgress := WaitProgress.starting.next isIdle (.start (some published.store))

def viewEvent : WatchEvent :=
  ⟨7, (Key.metadata externalOutputKey).relative, some (.externalView ∅), .put⟩

def seen : WaitInput := .event viewEvent (some expired.store)

end LostLease

/-- A record that leaves the counted keys alone. -/
theorem counted_unchanged {before after : EtcdStore} {key : Key} (counted : key.counted = true)
    (same : after.entries.filter (fun key _ ↦ key.counted) =
      before.entries.filter fun key _ ↦ key.counted) : after.entry key = before.entry key := by
  have kept : ∀ entry : Option (Entry Value), (entry.filter fun _ ↦ true) = entry := by
    intro entry
    cases entry <;> rfl
  have found := congrArg (·[key]?) same
  simp only [OrderedMap.getElem?_filter, counted, kept] at found
  exact found

open LostLease in
theorem waitForIdle_settled_publication : ∃ snapshot : ClusterSnapshot,
    started.next isIdle (.event viewEvent (some published.store)) = .returned snapshot ∧
      snapshot.Settled published.history := by
  obtain ⟨expected, result, shown, newest, quiet⟩ :
      started.expects (.event viewEvent (some published.store)) = true ∧
      (started.next isIdle (.event viewEvent (some published.store))).result.isSome = true ∧
      ((published.history[11]?).any fun r ↦
        r.after.entry (.metadata externalOutputKey) ≠
          r.before.entry (.metadata externalOutputKey) ∧
          viewEvent = watchEventOf r (.metadata externalOutputKey)) = true ∧
      authoritativeRevision published.store = 6 ∧
      (published.history.all fun r ↦ r.after.revision ≤ 6 ∨
        r.after.entries.filter (fun key _ ↦ key.counted) =
          r.before.entries.filter fun key _ ↦ key.counted) = true := by decide +kernel
  have waiting : Observing.Reachable isIdle Store.empty
      ⟨published, [.start (some published.store)], started⟩ := by
    have start : Observing.Reachable isIdle Store.empty ⟨published, [], .starting⟩ :=
      .initial published_reachable
    exact start.observe (.start (some published.store)) rfl (possible_start published)
  have possible : (WaitInput.event viewEvent (some published.store)).Possible published := by
    refine ⟨fun s same ↦ (Option.some.inj same).symm, fun event same ↦ ?_⟩
    cases same
    exact occurred_of_record 11 _ shown
  generalize progress : started.next isIdle (.event viewEvent (some published.store)) = next
    at result
  cases next with
  | returned snapshot =>
    refine ⟨snapshot, rfl, waitForIdle_settled rfl waiting expected possible progress ?_ .refl⟩
    intro r mem lease ended key counted changed
    rcases of_decide_eq_true (List.all_eq_true.mp quiet r mem) with old | same
    · rw [newest]
      exact .inl old
    · exact absurd (counted_unchanged counted same) changed
  | _ => cases result

namespace LostLease

theorem outcome : started.expects seen = true ∧
    ((started.next isIdle seen).result.map fun snapshot ↦
      (snapshot.observerRevision, snapshot.processedRevision)) = some (8, some 6) ∧
    ((expired.history[11]?).any fun r ↦
      r.after.entry (.metadata externalOutputKey) ≠ r.before.entry (.metadata externalOutputKey) ∧
        viewEvent = watchEventOf r (.metadata externalOutputKey)) = true ∧
    (published.store.expire 7).revision = 8 ∧
    (published.store.expire 7).entry (.live ⟨"a", by decide⟩) ≠
      published.store.entry (.live ⟨"a", by decide⟩) := by decide +kernel

end LostLease

open LostLease in
theorem waitForIdle_misses_expiry : ∃ (o : Observing) (input : WaitInput)
    (snapshot : ClusterSnapshot), Observing.Reachable isIdle Store.empty o ∧
      o.progress.expects input = true ∧ input.Possible o.cluster ∧
      o.progress.next isIdle input = .returned snapshot ∧
      ¬snapshot.Settled o.cluster.history := by
  obtain ⟨expected, result, shown, ended, gone⟩ := outcome
  have waiting : Observing.Reachable isIdle Store.empty
      ⟨expired, [.start (some published.store)], started⟩ := by
    have start : Observing.Reachable isIdle Store.empty ⟨published, [], .starting⟩ :=
      .initial published_reachable
    have first := start.observe (.start (some published.store)) rfl (possible_start published)
    exact first.cluster (.other published _ (.expire _ 7))
  have possible : seen.Possible expired := by
    refine ⟨fun s same ↦ (Option.some.inj same).symm, fun event same ↦ ?_⟩
    cases same
    exact occurred_of_record 11 _ shown
  generalize progress : started.next isIdle seen = next at result
  cases next with
  | returned snapshot =>
    obtain ⟨observed, processed⟩ := Prod.mk.inj (Option.some.inj result)
    refine ⟨_, seen, snapshot, waiting, expected, possible, progress, fun settled ↦ ?_⟩
    obtain ⟨revision, found, bound⟩ := settled
      (.other published.store (published.store.expire 7))
      (List.mem_append_right _ (List.mem_singleton_self _)) _ (Key.counted_live _) gone
      (observed.trans ended.symm).ge
    have bound : (published.store.expire 7).revision ≤ revision := bound
    rw [processed, Option.some.injEq] at found
    rw [ended, ← found] at bound
    exact absurd bound (by decide)
  | _ => cases result

end Idle

end Clustodian
