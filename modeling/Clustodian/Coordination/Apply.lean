import Clustodian.Coordination.Instances

/-! The application facade's `apply`: what its validation checks, and what the administrator it
calls checks again. -/

namespace Clustodian

open RevisionStore

namespace Application

structure InstanceSpec where
  instanceId : String
  zone : String

structure Topology where
  path : String
  faultZoneType : String
  endNodeType : String

inductive Placement
  | crush
  | crushWithTopology (topology : Topology)
  | semiAuto (preferenceLists : BTreeMap String (List String))

inductive StateModel
  | leaderStandby

structure ResourceSpec where
  name : String
  partitions : ℕ
  replicas : ℕ
  stateModel : StateModel
  placement : Placement

structure ClusterSpec where
  instances : List InstanceSpec
  resources : List ResourceSpec

inductive ApplicationError
  | spec (message : String)
  | coordination (error : CoordinationError)
  deriving DecidableEq

def InstanceSpec.intoLowLevel (spec : InstanceSpec) : Clustodian.InstanceSpec :=
  ⟨spec.instanceId, spec.zone⟩

def Topology.intoLowLevel (topology : Topology) : CrushTopologyRecord :=
  ⟨topology.path, topology.faultZoneType, topology.endNodeType⟩

def Placement.intoLowLevel : Placement → PlacementSpec
  | .crush => .crush
  | .crushWithTopology topology => .crushWithTopology topology.intoLowLevel
  | .semiAuto preferenceLists => .semiAuto preferenceLists

def ResourceSpec.intoLowLevel (spec : ResourceSpec) : Clustodian.ResourceSpec where
  name := spec.name
  partitions := spec.partitions
  replicas := spec.replicas
  stateModel := match spec.stateModel with
    | .leaderStandby => "LeaderStandby"
  placement := spec.placement.intoLowLevel

/-- One round of the first loop of `validate`; the set has the names of the earlier ones. -/
def InstanceSpec.validate (seen : BTreeSet InstanceId) (spec : InstanceSpec) :
    Except ApplicationError (BTreeSet InstanceId) :=
  match Name.new .ofInstance spec.instanceId with
  | .error message => .error (.spec message)
  | .ok id =>
    if isBlank spec.zone ∨ '\x00' ∈ spec.zone.toList then
      .error (.spec ("instance " ++ id.asStr ++ ": zone must not be empty or contain NUL"))
    else if id ∈ seen then
      .error (.spec ("instance " ++ id.asStr ++ " is declared more than once"))
    else .ok (seen.insert id)

def Placement.validate (id : ResourceId) (partitions replicas : ℕ) : Placement →
    Except ApplicationError Unit
  | .semiAuto preferenceLists =>
    if preferenceLists.size ≠ partitions ∨
        preferenceLists.toList.any fun item ↦ item.2.length ≠ replicas then
      .error (.spec ("resource " ++ id.asStr ++
        ": semi-auto lists must match partitions and replicas"))
    else if preferenceLists.toList.any fun item ↦ ¬item.2.Nodup then
      .error (.spec ("resource " ++ id.asStr ++
        ": semi-auto preference lists must not contain duplicate instances"))
    else .ok ()
  | _ => .ok ()

/-- One round of the second loop of `validate`. -/
def ResourceSpec.validate (seen : BTreeSet ResourceId) (spec : ResourceSpec) :
    Except ApplicationError (BTreeSet ResourceId) :=
  match Name.new .ofResource spec.name with
  | .error message => .error (.spec message)
  | .ok id =>
    if spec.partitions = 0 ∨ spec.replicas = 0 then
      .error (.spec ("resource " ++ id.asStr ++
        ": partitions and replicas must be greater than zero"))
    else if id ∈ seen then
      .error (.spec ("resource " ++ id.asStr ++ " is declared more than once"))
    else do
      spec.placement.validate id spec.partitions spec.replicas
      return seen.insert id

def ClusterSpec.validate (spec : ClusterSpec) : Except ApplicationError Unit := do
  let _ ← spec.instances.foldlM InstanceSpec.validate ∅
  let _ ← spec.resources.foldlM ResourceSpec.validate ∅

/-- What `apply` does with a specification that it has validated, in the cluster `own`. -/
def applyValidated (own : String) (spec : ClusterSpec) : Client Unit := do
  ensureCluster own own
  spec.instances.forM fun instance_ ↦ putInstance instance_.intoLowLevel
  spec.resources.forM fun resource ↦ putResource resource.intoLowLevel

def apply (own : String) (spec : ClusterSpec) : Client (Except ApplicationError Unit) :=
  match spec.validate with
  | .error error => return .error error
  | .ok _ => do
    let result ← (applyValidated own spec).attempt
    return match result with
      | .ok _ => .ok ()
      | .error error => .error (.coordination error)

section Validation

def InstanceSpec.Fits (spec : InstanceSpec) : Prop :=
  spec.instanceId ≠ "" ∧ ¬(isBlank spec.zone ∨ '\x00' ∈ spec.zone.toList)

/-- A preference list for every partition, each with as many different instances as replicas. -/
def Placement.Fits (partitions replicas : ℕ) : Placement → Prop
  | .semiAuto preferenceLists => preferenceLists.size = partitions ∧
    ∀ item ∈ preferenceLists.toList, item.2.length = replicas ∧ item.2.Nodup
  | _ => True

def ResourceSpec.Fits (spec : ResourceSpec) : Prop :=
  spec.name ≠ "" ∧ ¬(spec.partitions = 0 ∨ spec.replicas = 0) ∧
    spec.placement.Fits spec.partitions spec.replicas

theorem InstanceSpec.validate_ok {seen after : BTreeSet InstanceId} {spec : InstanceSpec}
    (h : spec.validate seen = .ok after) : spec.Fits := by
  unfold InstanceSpec.validate at h
  split at h
  · cases h
  · next id named =>
    split at h
    · cases h
    · next zoned =>
      refine ⟨?_, zoned⟩
      rw [Name.new_eq_ok.mp named]
      exact id.asStr_ne

theorem Placement.validate_ok {id : ResourceId} {partitions replicas : ℕ} {placement : Placement}
    (h : placement.validate id partitions replicas = .ok ()) :
    placement.Fits partitions replicas := by
  cases placement with
  | crush => trivial
  | crushWithTopology topology => trivial
  | semiAuto preferenceLists =>
    rw [Placement.validate] at h
    by_cases sizes : preferenceLists.size ≠ partitions ∨
        preferenceLists.toList.any fun item ↦ item.2.length ≠ replicas
    · rw [if_pos sizes] at h
      cases h
    · rw [if_neg sizes] at h
      by_cases repeated : preferenceLists.toList.any fun item ↦ ¬item.2.Nodup
      · rw [if_pos repeated] at h
        cases h
      · simp only [not_or, not_not, List.any_eq_true, decide_eq_true_eq, not_exists, not_and,
          ne_eq] at sizes
        simp only [List.any_eq_true, decide_eq_true_eq, not_exists, not_and, not_not] at repeated
        exact ⟨sizes.1, fun item mem ↦ ⟨sizes.2 item mem, repeated item mem⟩⟩

theorem ResourceSpec.validate_ok {seen after : BTreeSet ResourceId} {spec : ResourceSpec}
    (h : spec.validate seen = .ok after) : spec.Fits := by
  unfold ResourceSpec.validate at h
  split at h
  · cases h
  · next id named =>
    split at h
    · cases h
    · next counts =>
      split at h
      · cases h
      · obtain ⟨_, fits, -⟩ := CheckedLoop.bind_eq_ok.mp h
        refine ⟨?_, counts, Placement.validate_ok fits⟩
        rw [Name.new_eq_ok.mp named]
        exact id.asStr_ne

theorem ClusterSpec.validate_ok {spec : ClusterSpec} (h : spec.validate = .ok ()) :
    (∀ instance_ ∈ spec.instances, instance_.Fits) ∧ ∀ resource ∈ spec.resources, resource.Fits := by
  obtain ⟨_, instances, h⟩ := CheckedLoop.bind_eq_ok.mp h
  obtain ⟨_, resources, -⟩ := CheckedLoop.bind_eq_ok.mp h
  constructor
  · refine CheckedLoop.foldlM_inv (fun done _ ↦ ∀ instance_ ∈ done, InstanceSpec.Fits instance_) _
      instances (by simp) fun done item rest s s' _ checked step instance_ mem ↦ ?_
    rcases List.mem_append.mp mem with mem | mem
    · exact checked instance_ mem
    · rw [List.mem_singleton.mp mem]
      exact InstanceSpec.validate_ok step
  · refine CheckedLoop.foldlM_inv (fun done _ ↦ ∀ resource ∈ done, ResourceSpec.Fits resource) _
      resources (by simp) fun done item rest s s' _ checked step resource mem ↦ ?_
    rcases List.mem_append.mp mem with mem | mem
    · exact checked resource mem
    · rw [List.mem_singleton.mp mem]
      exact ResourceSpec.validate_ok step

end Validation

section Refusal

/-- Neither `InvalidKey` nor `InvalidValue`. -/
def Unrefused {α : Type} : Except CoordinationError α → Prop
  | .error error => error ≠ .invalidKey ∧ error ≠ .invalidValue
  | .ok _ => True

/-- The instance configuration can be read, so that `InvalidValue` is never about it. -/
def Readable (s : EtcdStore) : Prop := ∃ records, instanceRecords s = .ok records

/-- Every preference list is for a named partition and names its instances. -/
def Placement.Named : Placement → Prop
  | .semiAuto preferenceLists => ∀ item ∈ preferenceLists.toList, item.1 ≠ "" ∧ "" ∉ item.2
  | _ => True

def ClusterSpec.Named (spec : ClusterSpec) : Prop :=
  ∀ resource ∈ spec.resources, resource.placement.Named

theorem endsIn_unrefused_bind {α β : Type} {kind : EtcdStore → Prop} {p : Client α}
    {f : α → Client β} (h : p.EndsIn kind Unrefused) (h' : ∀ a, (f a).EndsIn kind Unrefused) :
    (p >>= f).EndsIn kind Unrefused := by
  refine Prog.endsIn_bind (h.mono fun result accepted ↦ ?_)
  cases result with
  | ok a => exact h' a
  | error e => exact accepted

theorem endsIn_unrefused_retry {α : Type} {kind : EtcdStore → Prop} {round : Client (Option α)}
    (h : round.EndsIn kind Unrefused) (n : ℕ) :
    (Prog.retry .contention round n).EndsIn kind Unrefused := by
  induction n with
  | zero => exact ⟨nofun, nofun⟩
  | succ n ih =>
    refine endsIn_unrefused_bind h fun result ↦ ?_
    cases result with
    | none => exact ih
    | some a => trivial

theorem endsIn_send (request : EtcdTxn) (kind : EtcdStore → Prop) :
    (send request).EndsIn kind Unrefused := ⟨fun _ _ ↦ trivial, nofun, nofun⟩

theorem endsIn_getMetadata {β : Type} {f : Option MetadataEntry → Client β} {kind : EtcdStore → Prop}
    (key : String) (h : ∀ s, kind s → (f (metadataEntry s key)).EndsIn kind Unrefused) :
    (getMetadata key >>= f).EndsIn kind Unrefused := ⟨h, nofun, nofun⟩

theorem endsIn_ensureCluster (own : String) :
    (ensureCluster own own).EndsIn Readable Unrefused := by
  unfold ensureCluster
  split
  · exact ⟨nofun, nofun⟩
  · refine endsIn_unrefused_bind (endsIn_unrefused_bind (endsIn_send _ _) fun _ ↦ trivial)
      fun applied ↦ ?_
    split
    · trivial
    · refine endsIn_getMetadata _ fun s _ ↦ ?_
      split
      · trivial
      · exact ⟨nofun, nofun⟩

theorem endsIn_replaceInstances (current : Option MetadataEntry) (value : Value) :
    (replaceInstances current value).EndsIn Readable Unrefused := by
  cases current with
  | none => exact endsIn_unrefused_bind (endsIn_send _ _) fun _ ↦ trivial
  | some entry =>
    refine endsIn_unrefused_bind (endsIn_unrefused_bind (endsIn_send _ _) fun _ ↦ trivial)
      fun _ ↦ trivial

theorem endsIn_putInstance {spec : InstanceSpec} (fits : spec.Fits) :
    (putInstance spec.intoLowLevel).EndsIn Readable Unrefused := by
  obtain ⟨named, zoned⟩ := fits
  unfold putInstance
  rw [Name.new, dif_neg (by exact named)]
  simp only [if_neg (show ¬(isBlank spec.intoLowLevel.zone ∨ '\x00' ∈ spec.intoLowLevel.zone.toList)
    from zoned)]
  refine endsIn_unrefused_retry (endsIn_getMetadata _ fun s readable ↦ ?_) _
  obtain ⟨records, decoded⟩ := readable
  rw [instanceRecords] at decoded
  simp only [decoded, Prog.ofExcept, Prog.done_ok_bind]
  split
  · trivial
  · refine endsIn_unrefused_bind (endsIn_replaceInstances _ _) fun applied ↦ ?_
    split
    · trivial
    · trivial

/-- The administrator's checks of preference lists of the right length without repetitions. -/
theorem forM_lists {items : List (String × List String)} {replicas : ℕ}
    (fits : ∀ item ∈ items, item.2.length = replicas ∧ item.2.Nodup) :
    (items.forM fun item ↦ (if item.1 = "" then .error .invalidKey
      else if item.2.length ≠ replicas then .error .invalidValue
      else if ¬item.2.Nodup then .error .invalidValue
      else if "" ∈ item.2 then .error .invalidKey
      else pure () : Except CoordinationError Unit)) =
    if ∀ item ∈ items, item.1 ≠ "" ∧ "" ∉ item.2 then .ok () else .error .invalidKey := by
  induction items with
  | nil =>
    rw [if_pos (by simp)]
    rfl
  | cons item items ih =>
    obtain ⟨length, nodup⟩ := fits item List.mem_cons_self
    rw [List.forM, ih fun other mem ↦ fits other (List.mem_cons_of_mem _ mem)]
    by_cases unnamed : item.1 = ""
    · simp [unnamed, CheckedLoop.error_bind]
    · by_cases blank : "" ∈ item.2
      · simp [unnamed, length, nodup, blank, CheckedLoop.error_bind]
      · have head : item.1 ≠ "" ∧ "" ∉ item.2 := ⟨unnamed, blank⟩
        simp only [unnamed, length, nodup, blank, if_false, ne_eq, not_true_eq_false,
          List.forall_mem_cons, not_false_eq_true, and_self, true_and]
        rfl

/-- The administrator's checks of a placement that the facade has validated. -/
theorem placementRecord_of_fits {spec : ResourceSpec} (fits : spec.Fits) (resource : ResourceId) :
    (spec.placement.Named → ∃ record, placementRecord resource spec.intoLowLevel = .ok record) ∧
    (¬spec.placement.Named → placementRecord resource spec.intoLowLevel = .error .invalidKey) := by
  obtain ⟨-, -, fits⟩ := fits
  unfold placementRecord
  cases placed : spec.placement with
  | crush =>
    simp only [ResourceSpec.intoLowLevel, placed, Placement.intoLowLevel]
    exact ⟨fun _ ↦ ⟨_, rfl⟩, fun unnamed ↦ absurd trivial unnamed⟩
  | crushWithTopology topology =>
    simp only [ResourceSpec.intoLowLevel, placed, Placement.intoLowLevel]
    exact ⟨fun _ ↦ ⟨_, rfl⟩, fun unnamed ↦ absurd trivial unnamed⟩
  | semiAuto preferenceLists =>
    rw [placed] at fits
    simp only [ResourceSpec.intoLowLevel, placed, Placement.intoLowLevel,
      if_neg (not_not.mpr fits.1), forM_lists fits.2]
    constructor
    · intro named
      rw [if_pos (show ∀ item ∈ preferenceLists.toList, _ from named)]
      exact ⟨_, rfl⟩
    · intro unnamed
      rw [if_neg (show ¬∀ item ∈ preferenceLists.toList, _ from unnamed)]
      rfl

/-- A validated resource reaches the administrator's check of its placement. -/
theorem putResource_eq {spec : ResourceSpec} (fits : spec.Fits) :
    putResource spec.intoLowLevel = (do
      let placement ← Prog.ofExcept (placementRecord ⟨spec.name, fits.1⟩ spec.intoLowLevel)
      let value := Value.resource ⟨spec.name, spec.intoLowLevel.stateModel, placement⟩
      let key := resourceKeyLead ++ spec.name
      let current ← getMetadata key
      if current.bind (·.value) = some value then return ()
      else do
        let _ ← put key value 0) := by
  have counts : ¬(spec.intoLowLevel.partitions = 0 ∨ spec.intoLowLevel.replicas = 0 ∨
      spec.intoLowLevel.stateModel ≠ "LeaderStandby") := by
    rw [← or_assoc, not_or]
    refine ⟨fits.2.1, not_not.mpr ?_⟩
    unfold ResourceSpec.intoLowLevel
    cases spec.stateModel
    rfl
  unfold putResource
  rw [Name.new, dif_neg (by exact fits.1)]
  simp only [if_neg counts]
  rfl

theorem endsIn_putResource {spec : ResourceSpec} (fits : spec.Fits) (named : spec.placement.Named) :
    (putResource spec.intoLowLevel).EndsIn Readable Unrefused := by
  obtain ⟨record, recorded⟩ := (placementRecord_of_fits fits ⟨spec.name, fits.1⟩).1 named
  rw [putResource_eq fits, recorded]
  refine endsIn_getMetadata _ fun s _ ↦ ?_
  split
  · trivial
  · exact endsIn_unrefused_bind (endsIn_unrefused_bind (endsIn_send _ _) fun _ ↦ trivial)
      fun _ ↦ trivial

end Refusal

section Execution

variable {s : EtcdStore} {lease : ℕ}

theorem exec_getMetadata {β : Type} (key : String) (f : Option MetadataEntry → Client β) :
    (getMetadata key >>= f).exec lease s = (f (metadataEntry s key)).exec lease s := rfl

theorem exec_retry {α : Type} {round : Client (Option α)} {a : α} {s' : EtcdStore}
    (h : round.exec lease s = (.ok (some a), s')) (n : ℕ) :
    (Prog.retry .contention round (n + 1)).exec lease s = (.ok a, s') := by
  rw [Prog.retry, Prog.exec_bind_ok h]
  rfl

/-- Alone at work, the configuration is replaced. -/
theorem exec_replaceInstances (s : EtcdStore) (records : List InstanceRecord) :
    (replaceInstances (metadataEntry s instanceConfigsKey) (.instances records)).exec lease s =
      (.ok true, s.write (metadataOperations instanceConfigsKey
        (.put (.metadata instanceConfigsKey) (.instances records) 0))) := by
  have unchanged := revisionCompare_holds s (.metadata instanceConfigsKey)
  cases found : s.entry (.metadata instanceConfigsKey) with
  | none =>
    rw [found] at unchanged
    have succeeds : (compareAndPutAbsentTxn instanceConfigsKey (.instances records)).succeeds s = true :=
      Txn.succeeds_iff.mpr fun compare mem ↦ by
        rw [List.mem_singleton.mp mem]
        exact unchanged
    rw [metadataEntry, found]
    refine (Prog.exec_bind_ok (exec_send _)).trans ?_
    rw [succeeds, Txn.run, if_pos succeeds]
    rfl
  | some e =>
    rw [found] at unchanged
    have succeeds : (compareAndPutTxn instanceConfigsKey (.instances records) e.modRevision).succeeds s =
        true := Txn.succeeds_iff.mpr fun compare mem ↦ by
      rw [List.mem_singleton.mp mem]
      exact unchanged
    rw [metadataEntry, found]
    refine (Prog.exec_bind_ok (Prog.exec_bind_ok (exec_send _))).trans ?_
    rw [succeeds, Txn.run, if_pos succeeds]
    rfl

theorem exec_putInstance (lease : ℕ) {spec : InstanceSpec} (fits : spec.Fits) (readable : Readable s) :
    ∃ s', (putInstance spec.intoLowLevel).exec lease s = (.ok (), s') ∧ Readable s' := by
  obtain ⟨named, zoned⟩ := fits
  obtain ⟨existing, decoded⟩ := readable
  unfold putInstance
  rw [Name.new, dif_neg (by exact named)]
  simp only [if_neg (show ¬(isBlank spec.intoLowLevel.zone ∨ '\x00' ∈ spec.intoLowLevel.zone.toList)
    from zoned)]
  have records := decoded
  rw [instanceRecords] at records
  by_cases same : withInstance existing ⟨spec.instanceId, spec.zone⟩ =
      existing.mergeSort (·.name ≤ ·.name)
  · refine ⟨s, exec_retry ?_ 31, existing, decoded⟩
    rw [exec_getMetadata, records]
    simp only [Prog.ofExcept, Prog.done_ok_bind]
    rw [if_pos (by exact same)]
    rfl
  · refine ⟨_, exec_retry ?_ 31, _, (instanceRecords_write s (withInstance existing
      ⟨spec.instanceId, spec.zone⟩)).1⟩
    rw [exec_getMetadata, records]
    simp only [Prog.ofExcept, Prog.done_ok_bind]
    rw [if_neg (by exact same)]
    exact Prog.exec_bind_ok (exec_replaceInstances s _)

theorem exec_putResource (s : EtcdStore) (lease : ℕ) {spec : ResourceSpec} (fits : spec.Fits) (named : spec.placement.Named) :
    ∃ s', (putResource spec.intoLowLevel).exec lease s = (.ok (), s') := by
  obtain ⟨record, recorded⟩ := (placementRecord_of_fits fits ⟨spec.name, fits.1⟩).1 named
  rw [putResource_eq fits, recorded]
  simp only [Prog.ofExcept, Prog.done_ok_bind, exec_getMetadata]
  split
  · exact ⟨s, rfl⟩
  · exact ⟨_, rfl⟩

theorem exec_putResource_unnamed {spec : ResourceSpec} (fits : spec.Fits)
    (unnamed : ¬spec.placement.Named) :
    (putResource spec.intoLowLevel).exec lease s = (.error .invalidKey, s) := by
  rw [putResource_eq fits, (placementRecord_of_fits fits ⟨spec.name, fits.1⟩).2 unnamed]
  rfl

/-- The cluster record is the one that connecting has left. -/
def Connected (own : String) (s : EtcdStore) : Prop :=
  ¬isBlank own ∧ '\x00' ∉ own.toList ∧ s.value (.metadata "controller/cluster") = some (.text own)

theorem exec_ensureCluster {own : String} (connected : Connected own s) :
    (ensureCluster own own).exec lease s = (.ok (), s) := by
  obtain ⟨nonblank, noNul, recorded⟩ := connected
  obtain ⟨e, found, value⟩ := Option.map_eq_some_iff.mp recorded
  have refused : (compareAndPutAbsentTxn "controller/cluster" (.text own)).succeeds s ≠ true := by
    intro succeeds
    have absent := Compare.version_zero.mp (Txn.succeeds_iff.mp succeeds _ List.mem_cons_self)
    rw [found] at absent
    cases absent
  unfold ensureCluster
  rw [if_neg (by simp [nonblank, noNul])]
  refine (Prog.exec_bind_ok (Prog.exec_bind_ok (exec_send _))).trans ?_
  have unapplied := eq_false_of_ne_true refused
  simp only [Txn.run, unapplied, Bool.false_eq_true, if_false, exec_getMetadata, metadataEntry, found]
  simp only [Option.map_some, Option.bind_some, value, if_true]
  rfl

theorem exec_putInstances (lease : ℕ) {specs : List InstanceSpec} (fits : ∀ spec ∈ specs, spec.Fits)
    (readable : Readable s) :
    ∃ s', (specs.forM fun spec ↦ putInstance spec.intoLowLevel).exec lease s = (.ok (), s') := by
  induction specs generalizing s with
  | nil => exact ⟨s, rfl⟩
  | cons spec specs ih =>
    obtain ⟨s₁, first, readable⟩ := exec_putInstance lease (fits spec List.mem_cons_self) readable
    obtain ⟨s₂, rest⟩ := ih (fun other mem ↦ fits other (List.mem_cons_of_mem _ mem)) readable
    exact ⟨s₂, (Prog.exec_bind_ok first).trans rest⟩

/-- The first resource with an unnamed partition or instance ends the loop. -/
theorem exec_putResources (s : EtcdStore) (lease : ℕ) {specs : List ResourceSpec} (fits : ∀ spec ∈ specs, spec.Fits) :
    ((∀ spec ∈ specs, spec.placement.Named) → ∃ s',
      (specs.forM fun spec ↦ putResource spec.intoLowLevel).exec lease s = (.ok (), s')) ∧
    (¬(∀ spec ∈ specs, spec.placement.Named) → ∃ s',
      (specs.forM fun spec ↦ putResource spec.intoLowLevel).exec lease s =
        (.error .invalidKey, s')) := by
  induction specs generalizing s with
  | nil => exact ⟨fun _ ↦ ⟨s, rfl⟩, fun unnamed ↦ absurd (by simp) unnamed⟩
  | cons spec specs ih =>
    have fitsRest : ∀ other ∈ specs, other.Fits := fun other mem ↦
      fits other (List.mem_cons_of_mem _ mem)
    rw [List.forall_mem_cons]
    by_cases named : spec.placement.Named
    · obtain ⟨s₁, first⟩ := exec_putResource s lease (fits spec List.mem_cons_self) named
      constructor
      · intro h
        obtain ⟨s₂, rest⟩ := (ih s₁ fitsRest).1 h.2
        exact ⟨s₂, (Prog.exec_bind_ok first).trans rest⟩
      · intro unnamed
        obtain ⟨s₂, rest⟩ := (ih s₁ fitsRest).2 fun rest ↦ unnamed ⟨named, rest⟩
        exact ⟨s₂, (Prog.exec_bind_ok first).trans rest⟩
    · exact ⟨fun h ↦ absurd h.1 named, fun _ ↦ ⟨s, Prog.exec_bind_error
        (exec_putResource_unnamed (fits spec List.mem_cons_self) named)⟩⟩

end Execution

/-- Alone at work, the calls of `apply` succeed, or one of them is refused. -/
theorem exec_applyValidated {own : String} {spec : ClusterSpec} {s : EtcdStore} (lease : ℕ)
    (fits : (∀ instance_ ∈ spec.instances, instance_.Fits) ∧
      ∀ resource ∈ spec.resources, resource.Fits)
    (connected : Connected own s) (readable : Readable s) :
    (spec.Named → ((applyValidated own spec).exec lease s).1 = .ok ()) ∧
    (¬spec.Named → ((applyValidated own spec).exec lease s).1 = .error .invalidKey) := by
  obtain ⟨s₁, instances⟩ := exec_putInstances lease fits.1 readable
  have before : (applyValidated own spec).exec lease s =
      (spec.resources.forM fun resource ↦ putResource resource.intoLowLevel).exec lease s₁ :=
    (Prog.exec_bind_ok (exec_ensureCluster connected)).trans (Prog.exec_bind_ok instances)
  have resources := exec_putResources s₁ lease fits.2
  constructor
  · intro named
    obtain ⟨s₂, done⟩ := resources.1 named
    exact congrArg Prod.fst (before.trans done)
  · intro unnamed
    obtain ⟨s₂, refused⟩ := resources.2 unnamed
    exact congrArg Prod.fst (before.trans refused)

/-- Whatever other clients do, no call of `apply` is refused if the lists name everything. -/
theorem endsIn_applyValidated {own : String} {spec : ClusterSpec}
    (fits : (∀ instance_ ∈ spec.instances, instance_.Fits) ∧
      ∀ resource ∈ spec.resources, resource.Fits) (named : spec.Named) :
    (applyValidated own spec).EndsIn Readable Unrefused := by
  have loop {α : Type} (f : α → Client Unit) (items : List α)
      (each : ∀ item ∈ items, (f item).EndsIn Readable Unrefused) :
      (items.forM f).EndsIn Readable Unrefused := by
    induction items with
    | nil => trivial
    | cons item items ih =>
      exact endsIn_unrefused_bind (each item List.mem_cons_self) fun _ ↦
        ih fun other mem ↦ each other (List.mem_cons_of_mem _ mem)
  exact endsIn_unrefused_bind (endsIn_ensureCluster own) fun _ ↦
    endsIn_unrefused_bind (loop _ _ fun item mem ↦ endsIn_putInstance (fits.1 item mem)) fun _ ↦
      loop _ _ fun item mem ↦ endsIn_putResource (fits.2 item mem) (named item mem)

/-- A store with the cluster record alone. -/
def connectedStore (own : String) : EtcdStore :=
  Store.empty.write [.put (.metadata "controller/cluster") (.text own) 0]

theorem connected_connectedStore {own : String} (nonblank : ¬isBlank own)
    (noNul : '\x00' ∉ own.toList) :
    Connected own (connectedStore own) ∧ Readable (connectedStore own) := by
  have other : Key.metadata instanceConfigsKey ≠ .metadata "controller/cluster" := by decide
  have configs : (connectedStore own).entry (.metadata instanceConfigsKey) = none := by
    rw [connectedStore, Store.entry_write_of_not_mem fun mem ↦ other (List.mem_singleton.mp mem)]
    simp [Store.entry, Store.empty]
  have mem : (.put (.metadata "controller/cluster") (.text own) 0 : EtcdOp) ∈
      [.put (.metadata "controller/cluster") (.text own) 0] := List.mem_singleton_self _
  obtain ⟨e, found, value, -⟩ := Store.entry_write_put (s := Store.empty) mem
    fun op mem _ ↦ List.mem_singleton.mp mem
  refine ⟨⟨nonblank, noNul, ?_⟩, [], ?_⟩
  · rw [Store.value, connectedStore, found, Option.map_some, value]
  · rw [instanceRecords, metadataEntry, configs]
    rfl

/-- An invalid specification is refused before any request. No call for a valid one is refused
exactly if its preference lists name their partitions and instances. -/
theorem apply_unrefused_iff (own : String) (nonblank : ¬isBlank own) (noNul : '\x00' ∉ own.toList)
    (spec : ClusterSpec) :
    (∀ error, spec.validate = .error error → apply own spec = return .error error) ∧
    (spec.validate = .ok () →
      ((∀ s lease, Connected own s → Readable s →
        Unrefused ((applyValidated own spec).exec lease s).1) ↔ spec.Named) ∧
      (spec.Named → (applyValidated own spec).EndsIn Readable Unrefused)) := by
  refine ⟨fun error invalid ↦ ?_, fun valid ↦ ?_⟩
  · rw [apply, invalid]
  · have fits := ClusterSpec.validate_ok valid
    refine ⟨⟨fun unrefused ↦ ?_, fun named s lease connected readable ↦ ?_⟩,
      endsIn_applyValidated fits⟩
    · by_contra unnamed
      obtain ⟨connected, readable⟩ := connected_connectedStore nonblank noNul
      have result := unrefused _ 1 connected readable
      rw [(exec_applyValidated 1 fits connected readable).2 unnamed] at result
      exact result.1 rfl
    · rw [(exec_applyValidated lease fits connected readable).1 named]
      trivial

/-- One resource with a list for the empty partition name. -/
def unnamedPartition : ClusterSpec :=
  ⟨[⟨"node-a", "zone-a"⟩], [⟨"documents", 1, 1, .leaderStandby,
    .semiAuto ((∅ : BTreeMap String (List String)).insert "" ["node-a"])⟩]⟩

theorem apply_half_done : unnamedPartition.validate = .ok () ∧
    ((apply "cluster" unnamedPartition).exec 1 (connectedStore "cluster")).1 =
      .ok (.error (.coordination .invalidKey)) ∧
    ((apply "cluster" unnamedPartition).exec 1 (connectedStore "cluster")).2.value
      (.metadata instanceConfigsKey) = some (.instances [⟨"node-a", "zone-a"⟩]) := by
  decide +kernel

theorem apply_unrefused_iff_unnamedPartition : ¬∀ s lease, Connected "cluster" s → Readable s →
    Unrefused ((applyValidated "cluster" unnamedPartition).exec lease s).1 := by
  intro unrefused
  have named := ((apply_unrefused_iff "cluster" (by decide) (by decide) unnamedPartition).2
    (by decide)).1.mp unrefused _ List.mem_cons_self
  exact (named ("", ["node-a"]) (by decide)).1 rfl

end Application

end Clustodian
