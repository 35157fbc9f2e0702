import Clustodian.Lib.OrderedMap
import Clustodian.Model.StateModel

namespace Clustodian

abbrev InstanceStates := BTreeMap InstanceId State
abbrev PartitionStates := BTreeMap PartitionId InstanceStates

/-- Replica states by partition and instance; a recorded partition has a replica. -/
structure ReplicaStates where
  entries : PartitionStates
  occupied : ∀ (partition : PartitionId) (instances : InstanceStates),
    entries[partition]? = some instances → instances ≠ ∅
  deriving DecidableEq

abbrev CurrentState := ReplicaStates
abbrev BestPossibleState := ReplicaStates

inductive ReplicaStateError
  | duplicate (partition : PartitionId) (instance_ : InstanceId)
  deriving DecidableEq

def ReplicaStateError.message : ReplicaStateError → String
  | .duplicate partition instance_ =>
    "duplicate state for partition " ++ partition.asStr ++ " and instance " ++ instance_.asStr

namespace ReplicaStates

def empty : ReplicaStates := ⟨∅, by simp⟩

instance : EmptyCollection ReplicaStates := ⟨empty⟩
instance : Inhabited ReplicaStates := ⟨empty⟩

def state (states : ReplicaStates) (partition : PartitionId) (instance_ : InstanceId) :
    Option State :=
  states.entries[partition]?.bind (·[instance_]?)

/-- `ReplicaStates::insert`, which the builders call `set_state`. -/
def setState (states : ReplicaStates) (partition : PartitionId) (instance_ : InstanceId)
    (value : State) : Except ReplicaStateError ReplicaStates :=
  let instances := states.entries[partition]?.getD ∅
  if instance_ ∈ instances then .error (.duplicate partition instance_)
  else .ok {
    entries := states.entries.insert partition (instances.insert instance_ value)
    occupied := by
      intro other found h
      rw [OrderedMap.getElem?_insert] at h
      split at h
      · cases h
        exact fun h ↦ by
          have := congrArg (·[instance_]?) h
          simp at this
      · exact states.occupied _ _ h }

variable {states result : ReplicaStates} {partition other : PartitionId}
  {instance_ witness : InstanceId} {value : State}

@[simp] theorem entries_empty : (∅ : ReplicaStates).entries = ∅ := rfl

@[simp] theorem state_empty : (∅ : ReplicaStates).state partition instance_ = none := by
  simp [state]

theorem setState_eq_ok (value : State) (absent : states.state partition instance_ = none) :
    ∃ next, states.setState partition instance_ value = .ok next ∧
      ∀ p i, next.state p i =
        if p = partition ∧ i = instance_ then some value else states.state p i := by
  have fresh : instance_ ∉ states.entries[partition]?.getD ∅ := by
    unfold state at absent
    cases h : states.entries[partition]? with
    | none => simp
    | some instances =>
      rw [h, Option.bind_some] at absent
      exact (OrderedMap.not_mem_iff _ _).mpr absent
  refine ⟨_, if_neg fresh, fun p i ↦ ?_⟩
  simp only [state, OrderedMap.getElem?_insert]
  by_cases hp : p = partition
  · subst hp
    cases h : states.entries[p]? <;> simp [OrderedMap.getElem?_insert]
  · simp [hp]

theorem mem_entries : partition ∈ states.entries ↔ ∃ i s, states.state partition i = some s := by
  constructor
  · intro h
    obtain ⟨instances, found⟩ := (OrderedMap.mem_iff _ _).mp h
    by_contra none
    refine states.occupied _ _ found (OrderedMap.ext fun i ↦ ?_)
    cases hi : instances[i]? with
    | none => simp
    | some s => exact absurd ⟨i, s, by simp [state, found, hi]⟩ none
  · rintro ⟨i, s, h⟩
    obtain ⟨instances, found, -⟩ := Option.bind_eq_some_iff.mp h
    exact (OrderedMap.mem_iff _ _).mpr ⟨instances, found⟩

/-- States are equal as soon as they answer every lookup alike. -/
theorem ext_state {left right : ReplicaStates}
    (same : ∀ p i, left.state p i = right.state p i) : left = right := by
  have entries : left.entries = right.entries := by
    refine OrderedMap.ext fun p ↦ ?_
    have mem : p ∈ left.entries ↔ p ∈ right.entries := by simp only [mem_entries, same]
    cases hl : left.entries[p]? with
    | none =>
      rw [← OrderedMap.not_mem_iff, mem, OrderedMap.not_mem_iff] at hl
      exact hl.symm
    | some l =>
      obtain ⟨r, hr⟩ := (OrderedMap.mem_iff _ _).mp (mem.mp ((OrderedMap.mem_iff _ _).mpr ⟨l, hl⟩))
      rw [hr]
      refine congrArg some (OrderedMap.ext fun i ↦ ?_)
      simpa [state, hl, hr] using same p i
  cases left
  cases right
  cases entries
  rfl

end ReplicaStates

/-- Desired placement of one resource. Every list has `replicas` distinct instances. -/
structure IdealState where
  resource : ResourceId
  replicas : ℕ
  preferenceLists : BTreeMap PartitionId (List InstanceId)
  listed : ∀ (partition : PartitionId) (list : List InstanceId),
    preferenceLists[partition]? = some list → list.length = replicas ∧ list.Nodup
  inhabited : preferenceLists.isEmpty = false
  deriving DecidableEq

inductive IdealStateError
  | duplicatePartition (partition : PartitionId)
  | duplicatePreferenceInstance (partition : PartitionId)
  | noPartitions
  | preferenceListReplicaCount (partition : PartitionId) (expected actual : ℕ)
  deriving DecidableEq

def IdealStateError.message : IdealStateError → String
  | .duplicatePartition partition => "duplicate ideal-state partition: " ++ partition.asStr
  | .duplicatePreferenceInstance partition =>
    "preference list contains a duplicate instance for partition " ++ partition.asStr
  | .noPartitions => "ideal state must contain a partition"
  | .preferenceListReplicaCount partition expected actual =>
    "preference list for partition " ++ partition.asStr ++ " has " ++ toString actual ++
      " entries; expected " ++ toString expected

structure IdealStateBuilder where
  resource : ResourceId
  replicas : ℕ
  preferenceLists : BTreeMap PartitionId (List InstanceId)
  listed : ∀ (partition : PartitionId) (list : List InstanceId),
    preferenceLists[partition]? = some list → list.length = replicas ∧ list.Nodup

namespace IdealState

def preferenceList (ideal : IdealState) (partition : PartitionId) : Option (List InstanceId) :=
  ideal.preferenceLists[partition]?

def builder (resource : ResourceId) (replicas : ℕ) : IdealStateBuilder :=
  ⟨resource, replicas, ∅, by simp⟩

theorem preferenceList_nodup {ideal : IdealState} {partition : PartitionId}
    {list : List InstanceId} (h : ideal.preferenceList partition = some list) : list.Nodup :=
  (ideal.listed _ _ h).2

end IdealState

namespace IdealStateBuilder

def setPreferenceList (builder : IdealStateBuilder) (partition : PartitionId)
    (instances : List InstanceId) : Except IdealStateError IdealStateBuilder :=
  if partition ∈ builder.preferenceLists then .error (.duplicatePartition partition)
  else if count : instances.length ≠ builder.replicas then
    .error (.preferenceListReplicaCount partition builder.replicas instances.length)
  else if unique : ¬instances.Nodup then .error (.duplicatePreferenceInstance partition)
  else .ok { builder with
    preferenceLists := builder.preferenceLists.insert partition instances
    listed := by
      intro other list h
      rw [OrderedMap.getElem?_insert] at h
      split at h
      · cases h
        exact ⟨not_not.mp count, not_not.mp unique⟩
      · exact builder.listed _ _ h }

def build (builder : IdealStateBuilder) : Except IdealStateError IdealState :=
  if inhabited : builder.preferenceLists.isEmpty = false then
    .ok ⟨builder.resource, builder.replicas, builder.preferenceLists, builder.listed, inhabited⟩
  else .error .noPartitions

end IdealStateBuilder

end Clustodian
