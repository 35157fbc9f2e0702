import Clustodian.Planner.SemiAuto

namespace Clustodian

structure TransitionRequest where
  resource : ResourceId
  partition : PartitionId
  instance_ : InstanceId
  sourceState : State
  targetState : State
  deriving DecidableEq

structure PendingTransition where
  partition : PartitionId
  instance_ : InstanceId
  sourceState : State
  targetState : State
  deriving DecidableEq

inductive TransitionGenerationError
  | missingCurrentState (partition : PartitionId) (instance_ : InstanceId)
  | missingTargetState (partition : PartitionId) (instance_ : InstanceId)
  deriving DecidableEq

def TransitionGenerationError.message : TransitionGenerationError → String
  | .missingCurrentState partition instance_ =>
    "missing current state for partition " ++ partition.asStr ++ " and instance " ++ instance_.asStr
  | .missingTargetState partition instance_ =>
    "missing target state for partition " ++ partition.asStr ++ " and instance " ++ instance_.asStr

namespace ReplicaStates

/-- The nested iteration over partitions and their instances. -/
def replicas (states : ReplicaStates) : List (PartitionId × InstanceId × State) :=
  states.entries.toList.flatMap fun (partition, instances) ↦
    instances.toList.map fun (instance_, state) ↦ (partition, instance_, state)

theorem mem_replicas {states : ReplicaStates} {partition : PartitionId} {instance_ : InstanceId}
    {state : State} :
    (partition, instance_, state) ∈ states.replicas ↔
      states.state partition instance_ = some state := by
  simp only [replicas, List.mem_flatMap, List.mem_map, Prod.exists, OrderedMap.mem_toList,
    Prod.mk.injEq, ReplicaStates.state, Option.bind_eq_some_iff]
  constructor
  · rintro ⟨_, instances, found, _, _, entry, rfl, rfl, rfl⟩
    exact ⟨instances, found, entry⟩
  · rintro ⟨instances, found, entry⟩
    exact ⟨partition, instances, found, instance_, state, entry, rfl, rfl, rfl⟩

end ReplicaStates

def validateExplicitReplicaSet (current : CurrentState) (target : BestPossibleState) :
    Except TransitionGenerationError Unit :=
  match target.replicas.find? fun (p, i, _) ↦ (current.state p i).isNone with
  | some (partition, instance_, _) => .error (.missingCurrentState partition instance_)
  | none =>
    match current.replicas.find? fun (p, i, _) ↦ (target.state p i).isNone with
    | some (partition, instance_, _) => .error (.missingTargetState partition instance_)
    | none => .ok ()

/-- The next hop of one replica, if it is not yet in its desired state and has a path there. -/
def nextRequest (resource : ResourceId) (current : CurrentState) (model : StateModelDefinition) :
    PartitionId × InstanceId × State → Option TransitionRequest
  | (partition, instance_, desired) => do
    let currentState ← current.state partition instance_
    if currentState = desired then none
    else
      let nextState ← model.nextStateToward currentState desired
      return ⟨resource, partition, instance_, currentState, nextState⟩

def generateTransitions (resource : ResourceId) (current : CurrentState)
    (target : BestPossibleState) (model : StateModelDefinition) :
    Except TransitionGenerationError (List TransitionRequest) := do
  validateExplicitReplicaSet current target
  return target.replicas.filterMap (nextRequest resource current model)

theorem validateExplicitReplicaSet_eq_ok {current : CurrentState} {target : BestPossibleState}
    (same : ∀ p i, (current.state p i).isSome ↔ (target.state p i).isSome) :
    validateExplicitReplicaSet current target = .ok () := by
  have noMissingCurrent : target.replicas.find? (fun (p, i, _) ↦ (current.state p i).isNone) =
      none := by
    rw [List.find?_eq_none]
    rintro ⟨p, i, s⟩ h
    have := (same p i).mpr (by rw [ReplicaStates.mem_replicas.mp h]; rfl)
    simpa only [Bool.not_eq_true, Option.isNone_eq_false_iff] using this
  have noMissingTarget : current.replicas.find? (fun (p, i, _) ↦ (target.state p i).isNone) =
      none := by
    rw [List.find?_eq_none]
    rintro ⟨p, i, s⟩ h
    have := (same p i).mp (by rw [ReplicaStates.mem_replicas.mp h]; rfl)
    simpa only [Bool.not_eq_true, Option.isNone_eq_false_iff] using this
  simp only [validateExplicitReplicaSet, noMissingCurrent, noMissingTarget]

theorem nextRequest_eq_some {resource : ResourceId} {current : CurrentState}
    {model : StateModelDefinition} {replica : PartitionId × InstanceId × State}
    {request : TransitionRequest} :
    nextRequest resource current model replica = some request ↔
      request.resource = resource ∧ replica.1 = request.partition ∧
      replica.2.1 = request.instance_ ∧
      current.state request.partition request.instance_ = some request.sourceState ∧
      request.sourceState ≠ replica.2.2 ∧
      model.nextStateToward request.sourceState replica.2.2 = some request.targetState := by
  obtain ⟨partition, instance_, desired⟩ := replica
  obtain ⟨r, p, i, source, target⟩ := request
  simp only [nextRequest, Option.bind_eq_bind, Option.bind_eq_some_iff]
  constructor
  · rintro ⟨state, hstate, h⟩
    split at h
    · cases h
    · next differs =>
      obtain ⟨next, hnext, h⟩ := Option.bind_eq_some_iff.mp h
      cases h
      exact ⟨rfl, rfl, rfl, hstate, differs, hnext⟩
  · rintro ⟨rfl, rfl, rfl, hstate, differs, hnext⟩
    refine ⟨source, hstate, ?_⟩
    simp only [if_neg differs]
    exact Option.bind_eq_some_iff.mpr ⟨target, hnext, rfl⟩

/-- With one replica set on both sides generation succeeds; its requests are the next hops. -/
theorem generateTransitions_eq_ok (resource : ResourceId) (current : CurrentState)
    (target : BestPossibleState) (model : StateModelDefinition)
    (same : ∀ p i, (current.state p i).isSome ↔ (target.state p i).isSome) :
    ∃ requests, generateTransitions resource current target model = .ok requests ∧
      ∀ request, request ∈ requests ↔ request.resource = resource ∧
        ∃ desired, target.state request.partition request.instance_ = some desired ∧
          current.state request.partition request.instance_ = some request.sourceState ∧
          request.sourceState ≠ desired ∧
          model.nextStateToward request.sourceState desired = some request.targetState := by
  refine ⟨target.replicas.filterMap (nextRequest resource current model), ?_, fun request ↦ ?_⟩
  · rw [generateTransitions, validateExplicitReplicaSet_eq_ok same]
    rfl
  · simp only [List.mem_filterMap, nextRequest_eq_some, Prod.exists]
    constructor
    · rintro ⟨p, i, desired, mem, rfl, rfl, rfl, hcurrent, differs, hnext⟩
      exact ⟨rfl, desired, ReplicaStates.mem_replicas.mp mem, hcurrent, differs, hnext⟩
    · rintro ⟨hresource, desired, htarget, hcurrent, differs, hnext⟩
      exact ⟨_, _, desired, ReplicaStates.mem_replicas.mpr htarget, hresource, rfl, rfl, hcurrent,
        differs, hnext⟩

end Clustodian
