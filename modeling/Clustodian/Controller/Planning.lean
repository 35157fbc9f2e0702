import Clustodian.Controller.Decoding

namespace Clustodian

inductive ReconcileMode
  | startup
  | normal
  | sessionReplacement
  deriving DecidableEq

/-- Resource, partition and instance to state, as published for observers. -/
abbrev ExternalView := BTreeMap ResourceId PartitionStates

def liveSet (snapshot : CoordinationSnapshot) : BTreeSet InstanceId :=
  snapshot.participants.liveInstances.keys.foldl (fun set i ↦ set.insert i) ∅

/-- Merge one instance's report of a resource, skipping unconfigured and dead replicas. -/
def addReplicas (configs : BTreeMap InstanceId String) (live : BTreeSet InstanceId)
    (current : CurrentState) (states : PartitionStates) : PartitionStates :=
  current.entries.toList.foldl (fun states (partition, replicas) ↦
    states.insert partition (replicas.toList.foldl (fun partitionStates (replica, state) ↦
      if replica ∉ configs ∨ replica ∉ live then partitionStates
      else partitionStates.insert replica state) ((states[partition]?).getD ∅))) states

/-- Rebuilding through the builder records a partition with its first replica. -/
def rebuild (entries : PartitionStates) : CurrentState where
  entries := entries.filter fun _ replicas ↦ !replicas.isEmpty
  occupied := by
    intro partition instances h
    rw [OrderedMap.getElem?_filter, Option.filter_eq_some_iff] at h
    rintro rfl
    simp at h

def activeCurrentState (snapshot : CoordinationSnapshot) (configs : BTreeMap InstanceId String)
    (live : BTreeSet InstanceId) : BTreeMap ResourceId CurrentState :=
  let states := snapshot.participants.activeCurrentState.toList.foldl (fun states (_, active) ↦
    active.resources.toList.foldl (fun states (resource, current) ↦ states.insert resource
      (addReplicas configs live current ((states[resource]?).getD ∅))) states)
    (∅ : BTreeMap ResourceId PartitionStates)
  states.map fun _ entries ↦ rebuild entries

/-- The planning state: live replicas as reported, listed live replicas without a report initial. -/
def normalizeCurrent (actual : CurrentState) (ideal : IdealState) (live : BTreeSet InstanceId)
    (model : StateModelDefinition) : CurrentState :=
  let reported := actual.entries.map fun _ replicas ↦ replicas.filter fun i _ ↦ i ∈ live
  rebuild (ideal.preferenceLists.toList.foldl (fun entries (partition, instances) ↦
    instances.foldl (fun entries i ↦
      if i ∈ live ∧ actual.state partition i = none then
        insertState entries partition i model.initialState
      else entries) entries) reported)

def findPlan (plans : List ResourcePlan) (resource : String) : Option ResourcePlan :=
  plans.find? (·.resource.asStr = resource)

/-- Whether a queued message survives into the next planning cycle. -/
def retains (snapshot : CoordinationSnapshot) (actual : BTreeMap ResourceId CurrentState)
    (plans : List ResourcePlan) (strictPendingFencing : Bool) (message : PublishedTransition) :
    Bool :=
  match Name.new .ofInstance message.instance_, Name.new .ofResource message.resource,
      Name.new .ofPartition message.partition with
  | .ok instance_, .ok resource, .ok partition =>
    if snapshot.live instance_ ≠ some message.targetSession then false
    else match findPlan plans message.resource with
      | none => false
      | some plan =>
        let desiredPreference := plan.ideal.preferenceList partition
        let state := actual[resource]?
        if desiredPreference = none ∧ ¬state.any (fun current ↦ partition ∈ current.entries) then
          false
        else if strictPendingFencing ∧ (desiredPreference.any (instance_ ∈ ·) ↔
            (message.target = "OFFLINE" ∨ message.target = "DROPPED")) then false
        else match state.bind (·.state partition instance_) with
          | some current => current.asStr = message.source
          | none => true
  | _, _, _ => false

def retainPending (pending : List PublishedTransition) (snapshot : CoordinationSnapshot)
    (actual : BTreeMap ResourceId CurrentState) (plans : List ResourcePlan)
    (strictPendingFencing : Bool) : List PublishedTransition :=
  pending.filter (retains snapshot actual plans strictPendingFencing)

def toOperationalPending (message : PublishedTransition) : Option OperationalPendingTransition :=
  match Name.new .ofResource message.resource, Name.new .ofPartition message.partition,
      Name.new .ofInstance message.instance_, Name.new .ofState message.source,
      Name.new .ofState message.target with
  | .ok resource, .ok partition, .ok instance_, .ok source, .ok target =>
    some ⟨resource, partition, instance_, source, target⟩
  | _, _, _, _, _ => none

def pendingPartitionIsCurrentOnly (plan : ResourcePlan) (partition : PartitionId) : Bool :=
  (plan.ideal.preferenceList partition).isNone

def operationalPendingForPlans (pending : List PublishedTransition) (plans : List ResourcePlan)
    (mode : ReconcileMode) : List OperationalPendingTransition :=
  (pending.filterMap toOperationalPending).filter fun transition ↦
    mode ≠ .sessionReplacement ∨ plans.any fun plan ↦
      plan.resource = transition.resource ∧
        ((plan.ideal.preferenceList transition.partition).any (transition.instance_ ∈ ·) ∨
          pendingPartitionIsCurrentOnly plan transition.partition)

def pendingForResource (resource : ResourceId) (pending : List OperationalPendingTransition) :
    List PendingTransition :=
  (pending.filter (·.resource = resource)).map fun transition ↦
    ⟨transition.partition, transition.instance_, transition.sourceState, transition.targetState⟩

def resourceTransitionInput (plan : ResourcePlan) (actual : BTreeMap ResourceId CurrentState)
    (live : BTreeSet InstanceId) (operationalPending : List OperationalPendingTransition)
    (model : StateModelDefinition) : Except ControllerRuntimeError ResourceTransitionInput := do
  let actualState := (actual[plan.resource]?).getD ∅
  let planningState := normalizeCurrent actualState plan.ideal live model
  let best ← if plan.ideal.preferenceLists.isEmpty then pure ∅
    else orMessage ReplicaStateError.message <|
      computeSemiAutoBestPossibleState plan.ideal planningState live model
  let candidates ← orMessage TransitionGenerationError.message
    (generateTransitions plan.resource planningState best model)
  let preferenceLists := planningState.entries.keys.foldl (fun lists partition ↦
    if partition ∈ lists then lists else lists.insert partition []) plan.ideal.preferenceLists
  let selected ← orMessage MessageSelectionError.message
    (selectTransitions plan.resource plan.ideal planningState live candidates
      (pendingForResource plan.resource operationalPending) model)
  return ⟨plan.resource, plan.ideal.replicas, none, preferenceLists, planningState, best, selected⟩

def sameReplica (left right : PublishedTransition) : Bool :=
  left.resource = right.resource ∧ left.partition = right.partition ∧
    left.instance_ = right.instance_

def sameTransition (existing : PublishedTransition) (transition : TransitionRequest)
    (session : ℕ) : Bool :=
  existing.resource = transition.resource.asStr ∧
    existing.partition = transition.partition.asStr ∧
    existing.instance_ = transition.instance_.asStr ∧ existing.targetSession = session ∧
    existing.source = transition.sourceState.asStr ∧
    existing.target = transition.targetState.asStr ∧ existing.messageType = "STATE_TRANSITION"

def freshMessageId (revision : Revision) (ordinal : ℕ) : String :=
  "m10:" ++ toString revision ++ ":" ++ toString ordinal

/-- The message for a dispatched transition: a withdrawn attempt keeps its identity. -/
def dispatchedMessage (snapshot : CoordinationSnapshot) (originalPending : List PublishedTransition)
    (ordinal : ℕ) (transition : TransitionRequest) (session : SessionId) : PublishedTransition where
  resource := transition.resource.asStr
  partition := transition.partition.asStr
  instance_ := transition.instance_.asStr
  targetSession := session
  source := transition.sourceState.asStr
  target := transition.targetState.asStr
  messageType := "STATE_TRANSITION"
  messageId := ((originalPending.find? (sameTransition · transition session)).map
    (·.messageId)).getD (freshMessageId snapshot.revision ordinal)

def addDispatched (snapshot : CoordinationSnapshot) (originalPending : List PublishedTransition)
    (nextPending : List PublishedTransition) (dispatched : TransitionRequest × ℕ) :
    List PublishedTransition :=
  match snapshot.live dispatched.1.instance_ with
  | none => nextPending
  | some session =>
    let message := dispatchedMessage snapshot originalPending dispatched.2 dispatched.1 session
    if nextPending.any (sameReplica · message) then nextPending else nextPending ++ [message]

/-- `sort` followed by `dedup` on the queue. -/
def normalizeQueue (queue : List PublishedTransition) : List PublishedTransition :=
  (queue.insertionSort (· ≤ ·)).destutter (· ≠ ·)

/-- The first cycle of a controller plans without limits. -/
def cycleThrottles (snapshot : CoordinationSnapshot) (mode : ReconcileMode) :
    Except ControllerRuntimeError (List StateTransitionThrottleConfig) :=
  if mode = .startup then .ok [] else throttles snapshot

def computeOutputsWithPendingPolicy (crush : Crush) (snapshot : CoordinationSnapshot)
    (pending : List PublishedTransition) (mode : ReconcileMode) :
    Except ControllerRuntimeError (ExternalView × List PublishedTransition) := do
  let live := liveSet snapshot
  let configs ← instanceConfigs snapshot
  let actual := activeCurrentState snapshot configs live
  let plans ← resourcePlans crush snapshot configs live
  let retained := retainPending pending snapshot actual plans (mode = .sessionReplacement)
  let operationalPending := operationalPendingForPlans retained plans mode
  let inputs ← plans.mapM fun plan ↦
    resourceTransitionInput plan actual live operationalPending leaderStandby
  let throttleConfigs ← cycleThrottles snapshot mode
  let throttle ← orMessage IntermediateThrottleError.message
    (computeIntermediateAndThrottle inputs live operationalPending throttleConfigs leaderStandby)
  let nextPending := throttle.dispatchableTransitions.zipIdx.foldl
    (addDispatched snapshot pending) retained
  return (actual.map fun _ current ↦ current.entries, normalizeQueue nextPending)

end Clustodian
