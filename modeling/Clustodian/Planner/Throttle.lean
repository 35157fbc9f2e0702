import Clustodian.Planner.Selection

namespace Clustodian

inductive RebalanceType
  | any
  | recoveryBalance
  | loadBalance
  deriving DecidableEq

inductive ThrottleScope
  | cluster
  | resource
  | instance_
  deriving DecidableEq

namespace RebalanceType

def rank : RebalanceType → ℕ
  | .any => 0
  | .recoveryBalance => 1
  | .loadBalance => 2

instance : LinearOrder RebalanceType :=
  LinearOrder.lift' rank fun a b h ↦ by cases a <;> cases b <;> first | rfl | cases h

instance : Std.TransCmp (compare : RebalanceType → RebalanceType → Ordering) := inferInstance

end RebalanceType

inductive ThrottleTarget
  | resource (resource : ResourceId)
  | instance_ (instance_ : InstanceId)
  deriving DecidableEq

structure StateTransitionThrottleConfig where
  rebalanceType : RebalanceType
  scope : ThrottleScope
  maxTransitions : ℕ
  target : Option ThrottleTarget
  deriving DecidableEq

namespace StateTransitionThrottleConfig

def new (rebalanceType : RebalanceType) (scope : ThrottleScope) (maxTransitions : ℕ) :
    StateTransitionThrottleConfig := ⟨rebalanceType, scope, maxTransitions, none⟩

def forResource (rebalanceType : RebalanceType) (resource : ResourceId) (maxTransitions : ℕ) :
    StateTransitionThrottleConfig := ⟨rebalanceType, .resource, maxTransitions, some (.resource resource)⟩

def forInstance (rebalanceType : RebalanceType) (instance_ : InstanceId) (maxTransitions : ℕ) :
    StateTransitionThrottleConfig := ⟨rebalanceType, .instance_, maxTransitions, some (.instance_ instance_)⟩

end StateTransitionThrottleConfig

/-- A transition already in flight before this controller cycle. -/
structure OperationalPendingTransition where
  resource : ResourceId
  partition : PartitionId
  instance_ : InstanceId
  sourceState : State
  targetState : State
  deriving DecidableEq

structure ResourceTransitionInput where
  resource : ResourceId
  replicas : ℕ
  minActiveReplicas : Option ℕ
  preferenceLists : BTreeMap PartitionId (List InstanceId)
  currentState : CurrentState
  bestPossibleState : BestPossibleState
  selectedTransitions : List TransitionRequest

structure IntermediateThrottleResult where
  intermediateState : BTreeMap ResourceId PartitionStates
  dispatchableTransitions : List TransitionRequest

inductive IntermediateThrottleError
  | duplicateResource (resource : ResourceId)
  | duplicatePendingTransition (partition : PartitionId) (instance_ : InstanceId)
  | resourceMismatch (expected actual : ResourceId)
  | unknownPendingResource (resource : ResourceId)
  | unknownSelectedPartition (resource : ResourceId) (partition : PartitionId)
  deriving DecidableEq

def IntermediateThrottleError.message : IntermediateThrottleError → String
  | .duplicateResource resource => "duplicate resource " ++ resource.asStr
  | .duplicatePendingTransition partition instance_ =>
    "duplicate pending transition for partition " ++ partition.asStr ++ " and instance " ++
      instance_.asStr
  | .resourceMismatch expected actual =>
    "selected transition belongs to resource " ++ actual.asStr ++ ", expected " ++ expected.asStr
  | .unknownPendingResource resource =>
    "pending transition references unknown resource " ++ resource.asStr
  | .unknownSelectedPartition resource partition =>
    "selected transition references unknown partition " ++ partition.asStr ++ " in resource " ++
      resource.asStr

abbrev Quota := BTreeMap RebalanceType ℕ

def quotaExhausted (quota : Quota) (rebalanceType : RebalanceType) : Bool :=
  quota[RebalanceType.any]? = some 0 ∨ quota[rebalanceType]? = some 0

def chargeQuota (quota : Quota) (rebalanceType : RebalanceType) : Quota :=
  let take (quota : Quota) (type : RebalanceType) : Quota :=
    match quota[type]? with
    | some value => quota.insert type (value - 1)
    | none => quota
  let quota := take quota .any
  if rebalanceType ≠ .any then take quota rebalanceType else quota

structure ThrottleController where
  cluster : Quota
  resources : BTreeMap ResourceId Quota
  instances : BTreeMap InstanceId Quota

namespace ThrottleController

/-- One configuration overwrites the cells it applies to. -/
def configure (controller : ThrottleController) (config : StateTransitionThrottleConfig) :
    ThrottleController :=
  let set (quota : Quota) : Quota := quota.insert config.rebalanceType config.maxTransitions
  match config.scope with
  | .cluster => { controller with cluster := set controller.cluster }
  | .resource =>
    match config.target with
    | some (.resource resource) =>
      match controller.resources[resource]? with
      | some quota => { controller with
          resources := controller.resources.insert resource (set quota) }
      | none => controller
    | _ => { controller with resources := controller.resources.map fun _ quota ↦ set quota }
  | .instance_ =>
    match config.target with
    | some (.instance_ instance_) =>
      match controller.instances[instance_]? with
      | some quota => { controller with
          instances := controller.instances.insert instance_ (set quota) }
      | none => controller
    | _ => { controller with instances := controller.instances.map fun _ quota ↦ set quota }

def new (resources : List ResourceTransitionInput) (live : BTreeSet InstanceId)
    (configs : List StateTransitionThrottleConfig) : ThrottleController :=
  configs.foldl configure {
    cluster := ∅
    resources := resources.foldl (fun map input ↦ map.insert input.resource ∅) ∅
    instances := live.toList.foldl (fun map instance_ ↦ map.insert instance_ ∅) ∅ }

def shouldThrottle (controller : ThrottleController) (rebalanceType : RebalanceType)
    (resource : ResourceId) (instance_ : InstanceId) : Bool :=
  quotaExhausted controller.cluster rebalanceType ||
    (controller.resources[resource]?).any (quotaExhausted · rebalanceType) ||
    (controller.instances[instance_]?).any (quotaExhausted · rebalanceType)

def charge (controller : ThrottleController) (rebalanceType : RebalanceType)
    (resource : ResourceId) (instance_ : InstanceId) : ThrottleController where
  cluster := chargeQuota controller.cluster rebalanceType
  resources :=
    match controller.resources[resource]? with
    | some quota => controller.resources.insert resource (chargeQuota quota rebalanceType)
    | none => controller.resources
  instances :=
    match controller.instances[instance_]? with
    | some quota => controller.instances.insert instance_ (chargeQuota quota rebalanceType)
    | none => controller.instances

end ThrottleController

def isDropTransition (transition : TransitionRequest) (resource : ResourceTransitionInput)
    (model : StateModelDefinition) : Bool :=
  isDropPath transition.partition transition.sourceState transition.targetState
    resource.currentState model

def validateSelected (resource : ResourceTransitionInput) (model : StateModelDefinition) :
    Except IntermediateThrottleError Unit :=
  resource.selectedTransitions.foldlM (fun _ transition ↦
    if transition.resource ≠ resource.resource then
      .error (.resourceMismatch resource.resource transition.resource)
    else if transition.partition ∉ resource.preferenceLists ∨
        (¬(resource.preferenceLists[transition.partition]?).any (¬·.isEmpty) ∧
          ¬isDropTransition transition resource model) then
      .error (.unknownSelectedPartition resource.resource transition.partition)
    else .ok ()) ()

/-- The first walk of `required_states`: fixed and all-node states take candidates in order. -/
def requiredFixed (model : StateModelDefinition) :
    List State → ℕ → ℕ → BTreeMap State ℕ → ℕ × ℕ × BTreeMap State ℕ
  | [], candidates, replicas, result => (candidates, replicas, result)
  | state :: rest, candidates, replicas, result =>
    if candidates = 0 then (candidates, replicas, result)
    else match model.cardinalityFor state with
      | some (.exact count) =>
        if 0 < count then
          let taken := min count candidates
          requiredFixed model rest (candidates - taken) (replicas - taken) (result.insert state taken)
        else requiredFixed model rest candidates replicas result
      | some .nodeCount =>
        requiredFixed model rest 0 (replicas - candidates) (result.insert state candidates)
      | some .replicaCount | some .unbounded | none =>
        requiredFixed model rest candidates replicas result

def requiredStates (resource : ResourceTransitionInput) (partition : PartitionId)
    (live : BTreeSet InstanceId) (model : StateModelDefinition) : BTreeMap State ℕ :=
  let candidateCount := ((resource.preferenceLists[partition]?).map fun preference ↦
    preference.countP (· ∈ live)).getD 0
  let (candidates, replicas, result) := requiredFixed model model.statesByPriority candidateCount
    (resource.minActiveReplicas.getD resource.replicas) ∅
  match model.statesByPriority.find? fun state ↦
      model.cardinalityFor state = some .replicaCount ∧ 0 < candidates ∧ 0 < replicas with
  | some state => result.insert state (min candidates replicas)
  | none => result

def rebalanceType (required : BTreeMap State ℕ) (current : PartitionStates)
    (transition : TransitionRequest) : RebalanceType :=
  let remaining := ((current[transition.partition]?).getD ∅).toList.foldl
    (fun remaining (entry : InstanceId × State) ↦
      match remaining[entry.2]? with
      | some count =>
        if count = 1 then remaining.erase entry.2 else remaining.insert entry.2 (count - 1)
      | none => remaining) required
  if transition.targetState ∈ remaining then .recoveryBalance else .loadBalance

/-- How many current states find a matching slot among the best-possible ones. -/
def matchedSlots (best : InstanceStates) (current : InstanceStates) : ℕ :=
  let slots := best.toList.foldl (fun (slots : BTreeMap State ℕ) entry ↦
    slots.insert entry.2 ((slots[entry.2]?).getD 0 + 1)) ∅
  (current.toList.foldl (fun (acc : BTreeMap State ℕ × ℕ) entry ↦
    match acc.1[entry.2]? with
    | some (count + 1) => (acc.1.insert entry.2 count, acc.2 + 1)
    | some 0 | none => acc) (slots, 0)).2

def partitionKey (resource : ResourceTransitionInput) (topState : State)
    (partition : PartitionId) : ℕ × ℕ × ℕ :=
  let current := resource.currentState.entries[partition]?
  let best := resource.bestPossibleState.entries[partition]?
  let missTop := if current.any (·.toList.any (·.2 = topState)) then 0 else 1
  let active := (best.map fun best ↦ matchedSlots best (current.getD ∅)).getD 0
  let matched := (best.map fun best ↦
    (current.getD ∅).toList.countP fun (instance_, state) ↦ best[instance_]? = some state).getD 0
  (missTop, active, matched)

def partitionPriority (resource : ResourceTransitionInput) (topState : State)
    (left right : PartitionId) : Ordering :=
  let leftKey := partitionKey resource topState left
  let rightKey := partitionKey resource topState right
  (compare leftKey.1 rightKey.1).then <| (compare leftKey.2.1 rightKey.2.1).then <|
    (compare leftKey.2.2 rightKey.2.2).then (compare left right)

def messagePriority (resource : ResourceTransitionInput) (model : StateModelDefinition)
    (left right : TransitionRequest) : Ordering :=
  let statePosition (request : TransitionRequest) : ℕ :=
    (model.statesByPriority.findIdx? (· == request.targetState)).getD usizeMax
  if left.targetState ≠ right.targetState then compare (statePosition left) (statePosition right)
  else
    let listPosition (request : TransitionRequest) : Option ℕ :=
      (resource.preferenceLists[request.partition]?).bind fun list ↦
        list.findIdx? (· == request.instance_)
    (compare (listPosition left) (listPosition right)).then
      (compare left.instance_ right.instance_)

/-- `sort_by` is stable; insertion keeps equal elements in their order. -/
def sortBy {α : Type} (order : α → α → Ordering) (items : List α) : List α :=
  items.insertionSort fun left right ↦ order left right ≠ .gt

def pendingAsRequest (transition : OperationalPendingTransition) : TransitionRequest :=
  ⟨transition.resource, transition.partition, transition.instance_, transition.sourceState,
    transition.targetState⟩

def chargePending (resource : ResourceTransitionInput) (pending : List OperationalPendingTransition)
    (live : BTreeSet InstanceId) (model : StateModelDefinition) (controller : ThrottleController) :
    ThrottleController :=
  (OrderedMap.groupBy OperationalPendingTransition.partition pending).toList.foldl
    (fun controller (partition, transitions) ↦
      let required := requiredStates resource partition live model
      (sortBy (fun left right ↦ messagePriority resource model (pendingAsRequest left)
          (pendingAsRequest right)) transitions).foldl (fun controller transition ↦
        let current := resource.currentState.state partition transition.instance_
        if current ≠ some transition.sourceState ∨ current = some transition.targetState then
          controller
        else controller.charge
          (rebalanceType required resource.currentState.entries (pendingAsRequest transition))
          resource.resource transition.instance_) controller) controller

def pendingByResourceMatches (pending : List OperationalPendingTransition)
    (transition : TransitionRequest) : Bool :=
  pending.any fun candidate ↦
    candidate.partition = transition.partition ∧ candidate.instance_ = transition.instance_ ∧
      candidate.sourceState = transition.sourceState ∧
      candidate.targetState = transition.targetState

def insertState (states : PartitionStates) (partition : PartitionId) (instance_ : InstanceId)
    (state : State) : PartitionStates :=
  states.insert partition (((states[partition]?).getD ∅).insert instance_ state)

/-- Move one replica in the derived map; a dropped replica leaves it. -/
def applyTarget (dropped : Option State) (states : PartitionStates) (partition : PartitionId)
    (instance_ : InstanceId) (target : State) : PartitionStates :=
  if some target = dropped then
    match states[partition]? with
    | some instances => states.insert partition (instances.erase instance_)
    | none => states
  else insertState states partition instance_ target

structure ThrottleState where
  controller : ThrottleController
  derived : PartitionStates
  dispatchable : List TransitionRequest

def dispatchTransition (resource : ResourceTransitionInput)
    (pending : List OperationalPendingTransition) (required : BTreeMap State ℕ)
    (state : ThrottleState) (transition : TransitionRequest) : ThrottleState :=
  if pendingByResourceMatches pending transition then state
  else
    let type := rebalanceType required state.derived transition
    if state.controller.shouldThrottle type resource.resource transition.instance_ then state
    else {
      controller := state.controller.charge type resource.resource transition.instance_
      derived := insertState state.derived transition.partition transition.instance_
        transition.targetState
      dispatchable := state.dispatchable ++ [transition] }

/-- The selected transitions of one resource in the order the stage examines them. -/
def examinationOrder (resource : ResourceTransitionInput) (model : StateModelDefinition) :
    List (PartitionId × List TransitionRequest) :=
  let selectedByPartition :=
    OrderedMap.groupBy TransitionRequest.partition resource.selectedTransitions
  (sortBy (partitionPriority resource model.highestPriorityState) selectedByPartition.keys).map
    fun partition ↦ (partition,
      sortBy (messagePriority resource model) ((selectedByPartition[partition]?).getD []))

/-- One resource's pass; the controller and the dispatch list carry over to the next. -/
def throttleResource (live : BTreeSet InstanceId) (model : StateModelDefinition)
    (pending : List OperationalPendingTransition) (resource : ResourceTransitionInput)
    (controller : ThrottleController) (dispatchable : List TransitionRequest) :
    ThrottleController × List TransitionRequest × PartitionStates :=
  if resource.selectedTransitions.isEmpty then
    (controller, dispatchable, resource.bestPossibleState.entries)
  else
    let state := (examinationOrder resource model).foldl (fun state (partition, messages) ↦
      messages.foldl (dispatchTransition resource pending
        (requiredStates resource partition live model)) state)
      ⟨controller, resource.currentState.entries, dispatchable⟩
    let derived := pending.foldl (fun derived transition ↦ applyTarget model.dropped derived
      transition.partition transition.instance_ transition.targetState) state.derived
    let derived := (resource.selectedTransitions.filter (· ∈ state.dispatchable)).foldl
      (fun derived transition ↦ applyTarget model.dropped derived transition.partition
        transition.instance_ transition.targetState) derived
    (state.controller, state.dispatchable, derived)

def checkResources : List ResourceTransitionInput → List ResourceId →
    Except IntermediateThrottleError Unit
  | [], _ => .ok ()
  | input :: rest, seen =>
    if input.resource ∈ seen then .error (.duplicateResource input.resource)
    else checkResources rest (input.resource :: seen)

def checkOperationalPending : List OperationalPendingTransition →
    List (ResourceId × PartitionId × InstanceId) → Except IntermediateThrottleError Unit
  | [], _ => .ok ()
  | transition :: rest, seen =>
    let key := (transition.resource, transition.partition, transition.instance_)
    if key ∈ seen then
      .error (.duplicatePendingTransition transition.partition transition.instance_)
    else checkOperationalPending rest (key :: seen)

def computeIntermediateAndThrottle (resources : List ResourceTransitionInput)
    (live : BTreeSet InstanceId) (pending : List OperationalPendingTransition)
    (configs : List StateTransitionThrottleConfig) (model : StateModelDefinition) :
    Except IntermediateThrottleError IntermediateThrottleResult := do
  checkResources resources []
  if let some transition := pending.find? fun t ↦ t.resource ∉ resources.map (·.resource) then
    throw (.unknownPendingResource transition.resource)
  checkOperationalPending pending []
  let pendingByResource := OrderedMap.groupBy OperationalPendingTransition.resource pending
  let pendingFor (input : ResourceTransitionInput) := (pendingByResource[input.resource]?).getD []
  let controller := resources.foldl (fun controller input ↦
    chargePending input (pendingFor input) live model controller)
    (ThrottleController.new resources live configs)
  let (_, dispatchable, intermediate) ← resources.foldlM
    (fun (acc : ThrottleController × List TransitionRequest × BTreeMap ResourceId PartitionStates)
        input ↦ do
      validateSelected input model
      let (controller, dispatchable, derived) :=
        throttleResource live model (pendingFor input) input acc.1 acc.2.1
      return (controller, dispatchable, acc.2.2.insert input.resource derived))
    (controller, [], ∅)
  return ⟨intermediate, dispatchable⟩

namespace Throttle

theorem checkResources_eq_ok_iff (resources : List ResourceTransitionInput) (seen : List ResourceId) :
    checkResources resources seen = .ok () ↔
      (resources.map (·.resource)).Nodup ∧ ∀ input ∈ resources, input.resource ∉ seen := by
  induction resources generalizing seen with
  | nil => simp [checkResources]
  | cons input resources ih =>
    rw [checkResources]
    split <;> rename_i known
    · simp [known]
    · simp only [ih, List.map_cons, List.nodup_cons, List.mem_map, List.mem_cons, not_or]
      grind

theorem checkOperationalPending_eq_ok_iff (pending : List OperationalPendingTransition)
    (seen : List (ResourceId × PartitionId × InstanceId)) :
    checkOperationalPending pending seen = .ok () ↔
      (pending.map fun t ↦ (t.resource, t.partition, t.instance_)).Nodup ∧
      ∀ t ∈ pending, (t.resource, t.partition, t.instance_) ∉ seen := by
  induction pending generalizing seen with
  | nil => simp [checkOperationalPending]
  | cons transition pending ih =>
    rw [checkOperationalPending]
    split <;> rename_i known
    · simp [known]
    · simp only [ih, List.map_cons, List.nodup_cons, List.mem_map, List.mem_cons, not_or]
      grind

section Dispatch

variable {live : BTreeSet InstanceId} {model : StateModelDefinition}
  {pending : List OperationalPendingTransition} {resource : ResourceTransitionInput}

/-- Why a transition is passed over: it is in flight already or a quota is used up. -/
def Withheld (pending : List OperationalPendingTransition) (resource : ResourceTransitionInput)
    (controller : ThrottleController) (transition : TransitionRequest) : Prop :=
  pendingByResourceMatches pending transition = true ∨
    ∃ type, controller.shouldThrottle type resource.resource transition.instance_ = true

theorem foldl_dispatchTransition (pending : List OperationalPendingTransition)
    (resource : ResourceTransitionInput) (required : BTreeMap State ℕ) (messages : List TransitionRequest)
    (state : ThrottleState) : ∃ new,
    (messages.foldl (dispatchTransition resource pending required) state).dispatchable =
      state.dispatchable ++ new ∧ (∀ t ∈ new, t ∈ messages) ∧
    (new = [] → messages.foldl (dispatchTransition resource pending required) state = state ∧
      ∀ t ∈ messages, Withheld pending resource state.controller t) := by
  induction messages generalizing state with
  | nil => exact ⟨[], by simp⟩
  | cons message messages ih =>
    rw [List.foldl_cons]
    by_cases withheld : dispatchTransition resource pending required state message = state
    · rw [withheld]
      obtain ⟨new, happend, hmem, hnone⟩ := ih state
      refine ⟨new, happend, fun t ht ↦ List.mem_cons_of_mem _ (hmem t ht), fun empty ↦ ?_⟩
      obtain ⟨hsame, hrest⟩ := hnone empty
      refine ⟨hsame, fun t ht ↦ ?_⟩
      rcases List.mem_cons.mp ht with rfl | ht
      · by_cases inFlight : pendingByResourceMatches pending t = true
        · exact .inl inFlight
        by_cases full : state.controller.shouldThrottle (rebalanceType required state.derived t)
            resource.resource t.instance_ = true
        · exact .inr ⟨_, full⟩
        · exfalso
          have grew := congrArg (fun s ↦ s.dispatchable.length) withheld
          simp [dispatchTransition, inFlight, full] at grew
      · exact hrest t ht
    · obtain ⟨new, happend, hmem, -⟩ :=
        ih (dispatchTransition resource pending required state message)
      have moved : (dispatchTransition resource pending required state message).dispatchable =
          state.dispatchable ++ [message] := by
        unfold dispatchTransition at withheld ⊢
        by_cases inFlight : pendingByResourceMatches pending message = true
        · simp [inFlight] at withheld
        · simp only [inFlight, Bool.false_eq_true, if_false] at withheld ⊢
          split at withheld
          · exact absurd rfl withheld
          · next open_ => simp [open_]
      refine ⟨message :: new, by rw [happend, moved, List.append_assoc]; rfl, fun t ht ↦ ?_, by simp⟩
      rcases List.mem_cons.mp ht with rfl | ht
      · exact List.mem_cons_self
      · exact List.mem_cons_of_mem _ (hmem t ht)

theorem foldl_groups (live : BTreeSet InstanceId) (model : StateModelDefinition)
    (pending : List OperationalPendingTransition) (resource : ResourceTransitionInput)
    (groups : List (PartitionId × List TransitionRequest))
    (state : ThrottleState) : ∃ new,
    (groups.foldl (fun state (group : PartitionId × List TransitionRequest) ↦
      group.2.foldl (dispatchTransition resource pending
        (requiredStates resource group.1 live model)) state) state).dispatchable =
      state.dispatchable ++ new ∧ (∀ t ∈ new, ∃ group ∈ groups, t ∈ group.2) ∧
    (new = [] → groups.foldl (fun state (group : PartitionId × List TransitionRequest) ↦
        group.2.foldl (dispatchTransition resource pending
          (requiredStates resource group.1 live model)) state) state = state ∧
      ∀ group ∈ groups, ∀ t ∈ group.2, Withheld pending resource state.controller t) := by
  induction groups generalizing state with
  | nil => exact ⟨[], by simp⟩
  | cons group groups ih =>
    rw [List.foldl_cons]
    obtain ⟨first, hfirst, hfirstMem, hfirstNone⟩ := foldl_dispatchTransition
      pending resource (requiredStates resource group.1 live model)
      group.2 state
    obtain ⟨rest, hrest, hrestMem, hrestNone⟩ := ih (group.2.foldl
      (dispatchTransition resource pending (requiredStates resource group.1 live model)) state)
    refine ⟨first ++ rest, by rw [hrest, hfirst, List.append_assoc], fun t ht ↦ ?_, fun empty ↦ ?_⟩
    · rcases List.mem_append.mp ht with ht | ht
      · exact ⟨group, List.mem_cons_self, hfirstMem t ht⟩
      · obtain ⟨g, hg, htg⟩ := hrestMem t ht
        exact ⟨g, List.mem_cons_of_mem _ hg, htg⟩
    · obtain ⟨emptyFirst, emptyRest⟩ := List.append_eq_nil_iff.mp empty
      obtain ⟨sameFirst, withheldFirst⟩ := hfirstNone emptyFirst
      obtain ⟨sameRest, withheldRest⟩ := hrestNone emptyRest
      rw [sameFirst] at sameRest withheldRest
      refine ⟨by rw [sameFirst, sameRest], fun g hg ↦ ?_⟩
      rcases List.mem_cons.mp hg with rfl | hg
      · exact withheldFirst
      · exact withheldRest g hg

theorem mem_sortBy {α : Type} {order : α → α → Ordering} {items : List α} {item : α} :
    item ∈ sortBy order items ↔ item ∈ items := List.mem_insertionSort _

theorem mem_examinationOrder {transition : TransitionRequest} :
    (∃ group ∈ examinationOrder resource model, transition ∈ group.2) ↔
      transition ∈ resource.selectedTransitions := by
  simp only [examinationOrder, List.mem_map, mem_sortBy, Std.ExtTreeMap.mem_keys]
  constructor
  · rintro ⟨_, ⟨partition, -, rfl⟩, h⟩
    rw [mem_sortBy, OrderedMap.getElem?_groupBy] at h
    exact (List.mem_filter.mp h).1
  · intro h
    have filled : transition ∈ ((OrderedMap.groupBy TransitionRequest.partition
        resource.selectedTransitions)[transition.partition]?).getD [] := by
      rw [OrderedMap.getElem?_groupBy]
      simpa using h
    refine ⟨_, ⟨transition.partition, ?_, rfl⟩, mem_sortBy.mpr filled⟩
    rw [OrderedMap.mem_iff]
    cases found : (OrderedMap.groupBy TransitionRequest.partition
        resource.selectedTransitions)[transition.partition]? with
    | none => simp [found] at filled
    | some group => exact ⟨group, rfl⟩

/-- One resource appends selected transitions; with nothing appended, all were withheld. -/
theorem throttleResource_spec (live : BTreeSet InstanceId) (model : StateModelDefinition)
    (pending : List OperationalPendingTransition) (resource : ResourceTransitionInput)
    (controller : ThrottleController)
    (dispatchable : List TransitionRequest) : ∃ new,
    (throttleResource live model pending resource controller dispatchable).2.1 =
      dispatchable ++ new ∧ (∀ t ∈ new, t ∈ resource.selectedTransitions) ∧
    (new = [] →
      (throttleResource live model pending resource controller dispatchable).1 = controller ∧
      ∀ t ∈ resource.selectedTransitions, Withheld pending resource controller t) := by
  unfold throttleResource
  split <;> rename_i idle
  · rw [List.isEmpty_iff] at idle
    exact ⟨[], by simp [idle]⟩
  · obtain ⟨new, happend, hmem, hnone⟩ := foldl_groups live model pending resource
      (examinationOrder resource model)
      ⟨controller, resource.currentState.entries, dispatchable⟩
    refine ⟨new, happend, fun t ht ↦ mem_examinationOrder.mp (hmem t ht), fun empty ↦ ?_⟩
    obtain ⟨same, withheld⟩ := hnone empty
    refine ⟨congrArg ThrottleState.controller same, fun t ht ↦ ?_⟩
    obtain ⟨group, hgroup, htg⟩ := mem_examinationOrder.mpr ht
    exact withheld group hgroup t htg

end Dispatch

section Stage

variable {live : BTreeSet InstanceId} {model : StateModelDefinition}
  {pending : List OperationalPendingTransition} {resources : List ResourceTransitionInput}
  {configs : List StateTransitionThrottleConfig}

/-- The quotas left after the transitions in flight are charged. -/
def charged (resources : List ResourceTransitionInput) (live : BTreeSet InstanceId)
    (pending : List OperationalPendingTransition) (configs : List StateTransitionThrottleConfig)
    (model : StateModelDefinition) : ThrottleController :=
  resources.foldl (fun controller input ↦ chargePending input
    (pending.filter fun t ↦ t.resource = input.resource) live model controller)
    (ThrottleController.new resources live configs)

/-- The stage succeeds on consistent inputs and dispatches selected transitions only. -/
theorem computeIntermediateAndThrottle_eq_ok (live : BTreeSet InstanceId)
    (pending : List OperationalPendingTransition) (configs : List StateTransitionThrottleConfig)
    (distinct : (resources.map (·.resource)).Nodup)
    (known : ∀ t ∈ pending, t.resource ∈ resources.map (·.resource))
    (separate : (pending.map fun t ↦ (t.resource, t.partition, t.instance_)).Nodup)
    (valid : ∀ input ∈ resources, validateSelected input model = .ok ()) :
    ∃ result, computeIntermediateAndThrottle resources live pending configs model = .ok result ∧
      (∀ t ∈ result.dispatchableTransitions, ∃ input ∈ resources, t ∈ input.selectedTransitions) ∧
      (result.dispatchableTransitions = [] →
        ∀ input ∈ resources, ∀ t ∈ input.selectedTransitions,
          Withheld (pending.filter fun t ↦ t.resource = input.resource) input
            (charged resources live pending configs model) t) := by
  have hresources := (checkResources_eq_ok_iff resources []).mpr ⟨distinct, by simp⟩
  have hunknown : pending.find? (fun t ↦ t.resource ∉ resources.map (·.resource)) = none := by
    rw [List.find?_eq_none]
    intro t ht
    simpa using known t ht
  have hpending := (checkOperationalPending_eq_ok_iff pending []).mpr ⟨separate, by simp⟩
  obtain ⟨⟨controller, dispatchable, intermediate⟩, hloop, hmem, hnone⟩ := CheckedLoop.foldlM_ok
    (fun done (acc : ThrottleController × List TransitionRequest ×
        BTreeMap ResourceId PartitionStates) ↦
      (∀ t ∈ acc.2.1, ∃ input ∈ done, t ∈ input.selectedTransitions) ∧
      (acc.2.1 = [] → acc.1 = charged resources live pending configs model ∧
        ∀ input ∈ done, ∀ t ∈ input.selectedTransitions,
          Withheld (pending.filter fun t ↦ t.resource = input.resource) input
            (charged resources live pending configs model) t))
    (fun acc input ↦ do
      validateSelected input model
      let next := throttleResource live model (pending.filter fun t ↦ t.resource = input.resource)
        input acc.1 acc.2.1
      return (next.1, next.2.1, acc.2.2.insert input.resource next.2.2)) resources
    (charged resources live pending configs model, [], ∅)
    (by simp) fun done input rest acc split inv ↦ by
      have hvalid := valid input (by rw [split]; simp)
      obtain ⟨new, happend, hnew, hidle⟩ := throttleResource_spec live model
        (pending.filter fun t ↦ t.resource = input.resource) input
        acc.1 acc.2.1
      refine ⟨_, by rw [hvalid]; rfl, ?_, ?_⟩
      · intro t ht
        rw [happend] at ht
        rcases List.mem_append.mp ht with ht | ht
        · obtain ⟨i, hi, hti⟩ := inv.1 t ht
          exact ⟨i, List.mem_append_left _ hi, hti⟩
        · exact ⟨input, by simp, hnew t ht⟩
      · intro empty
        rw [happend] at empty
        obtain ⟨emptyOld, emptyNew⟩ := List.append_eq_nil_iff.mp empty
        obtain ⟨same, withheld⟩ := inv.2 emptyOld
        obtain ⟨kept, withheldNew⟩ := hidle emptyNew
        refine ⟨kept.trans same, fun i hi ↦ ?_⟩
        rcases List.mem_append.mp hi with hi | hi
        · exact withheld i hi
        · rw [List.mem_singleton] at hi
          subst hi
          rw [same] at withheldNew
          exact withheldNew
  refine ⟨⟨intermediate, dispatchable⟩, ?_, hmem, fun empty ↦ (hnone empty).2⟩
  unfold computeIntermediateAndThrottle
  rw [hresources, CheckedLoop.ok_bind, hunknown]
  simp only [hpending, OrderedMap.getElem?_groupBy, CheckedLoop.ok_bind]
  exact CheckedLoop.bind_eq_ok.mpr ⟨_, hloop, rfl⟩

/-- Every configured cell still has room. -/
def Open (controller : ThrottleController) : Prop :=
  (∀ t : RebalanceType, controller.cluster[t]? ≠ some 0) ∧
  (∀ (r : ResourceId) (q : Quota), controller.resources[r]? = some q →
    ∀ t : RebalanceType, q[t]? ≠ some 0) ∧
  ∀ (i : InstanceId) (q : Quota), controller.instances[i]? = some q →
    ∀ t : RebalanceType, q[t]? ≠ some 0

theorem insert_open {quota : Quota} {type : RebalanceType} {limit : ℕ} (positive : limit ≠ 0)
    (room : ∀ t : RebalanceType, quota[t]? ≠ some 0) (t : RebalanceType) :
    (quota.insert type limit)[t]? ≠ some 0 := by
  rw [OrderedMap.getElem?_insert]
  split
  · simpa using positive
  · exact room t

theorem cells_open {K : Type} [LinearOrder K] {cells : BTreeMap K Quota} {type : RebalanceType}
    {limit : ℕ} (positive : limit ≠ 0)
    (room : ∀ (k : K) (q : Quota), cells[k]? = some q → ∀ t : RebalanceType, q[t]? ≠ some 0) :
    (∀ (key k : K) (q quota : Quota), cells[key]? = some quota →
      (cells.insert key (quota.insert type limit))[k]? = some q →
      ∀ t : RebalanceType, q[t]? ≠ some 0) ∧
    ∀ (k : K) (q : Quota), (cells.map fun _ quota ↦ quota.insert type limit)[k]? = some q →
      ∀ t : RebalanceType, q[t]? ≠ some 0 := by
  refine ⟨fun key k q quota found h ↦ ?_, fun k q h ↦ ?_⟩
  · rw [OrderedMap.getElem?_insert] at h
    split at h
    · cases h
      exact insert_open positive (room key quota found)
    · exact room k q h
  · rw [Std.ExtTreeMap.getElem?_map, Option.map_eq_some_iff] at h
    obtain ⟨quota, found, rfl⟩ := h
    exact insert_open positive (room k quota found)

theorem configure_open {controller : ThrottleController} {config : StateTransitionThrottleConfig}
    (positive : config.maxTransitions ≠ 0) (room : Open controller) :
    Open (controller.configure config) := by
  obtain ⟨hcluster, hresources, hinstances⟩ := room
  unfold ThrottleController.configure
  split
  · exact ⟨insert_open positive hcluster, hresources, hinstances⟩
  · split
    · split
      · next quota found =>
        exact ⟨hcluster, fun k q ↦ (cells_open positive hresources).1 _ k q quota found, hinstances⟩
      · exact ⟨hcluster, hresources, hinstances⟩
    · exact ⟨hcluster, (cells_open positive hresources).2, hinstances⟩
  · split
    · split
      · next quota found =>
        exact ⟨hcluster, hresources, fun k q ↦ (cells_open positive hinstances).1 _ k q quota found⟩
      · exact ⟨hcluster, hresources, hinstances⟩
    · exact ⟨hcluster, hresources, (cells_open positive hinstances).2⟩

theorem getElem?_foldl_insert_empty {α K : Type} [LinearOrder K] (key : α → K) (items : List α)
    (cells : BTreeMap K Quota) (room : ∀ (k : K) (q : Quota), cells[k]? = some q → q = ∅) (k : K)
    (q : Quota) (found : (items.foldl (fun cells item ↦ cells.insert (key item) ∅) cells)[k]? =
      some q) : q = ∅ := by
  induction items generalizing cells with
  | nil => exact room k q found
  | cons item items ih =>
    refine ih (cells.insert (key item) ∅) (fun k' q' h ↦ ?_) found
    rw [OrderedMap.getElem?_insert] at h
    split at h
    · exact (Option.some.inj h).symm
    · exact room k' q' h

theorem new_open (positive : ∀ config ∈ configs, config.maxTransitions ≠ 0) :
    Open (ThrottleController.new resources live configs) := by
  suffices general : ∀ (configs : List StateTransitionThrottleConfig),
      (∀ config ∈ configs, config.maxTransitions ≠ 0) → ∀ controller, Open controller →
      Open (configs.foldl ThrottleController.configure controller) by
    refine general configs positive _ ⟨by simp, fun r q h t ↦ ?_, fun i q h t ↦ ?_⟩
    · rw [getElem?_foldl_insert_empty (fun input : ResourceTransitionInput ↦ input.resource)
        resources ∅ (by simp) r q h]
      simp
    · rw [getElem?_foldl_insert_empty (fun i : InstanceId ↦ i) live.toList ∅ (by simp) i q h]
      simp
  intro configs
  induction configs with
  | nil => exact fun _ _ h ↦ h
  | cons config configs ih =>
    intro positive controller h
    exact ih (fun c hc ↦ positive c (List.mem_cons_of_mem _ hc)) _
      (configure_open (positive config List.mem_cons_self) h)

theorem charged_nil : charged resources live [] configs model =
    ThrottleController.new resources live configs := by
  have idle : ∀ (input : ResourceTransitionInput) (controller : ThrottleController),
      chargePending input [] live model controller = controller := by
    intro input controller
    simp only [chargePending, OrderedMap.groupBy, List.foldl_nil, OrderedMap.toList_empty]
  unfold charged
  simp only [List.filter_nil, idle]
  exact List.foldl_fixed _

theorem not_shouldThrottle {controller : ThrottleController} (room : Open controller)
    (type : RebalanceType) (resource : ResourceId) (instance_ : InstanceId) :
    controller.shouldThrottle type resource instance_ = false := by
  have clear : ∀ quota : Quota, (∀ t : RebalanceType, quota[t]? ≠ some 0) →
      quotaExhausted quota type = false := by
    intro quota h
    simp [quotaExhausted, h]
  unfold ThrottleController.shouldThrottle
  rw [clear _ room.1, Bool.false_or, Bool.or_eq_false_iff]
  constructor
  · cases found : controller.resources[resource]? with
    | none => rfl
    | some quota => exact clear quota (room.2.1 _ _ found)
  · cases found : controller.instances[instance_]? with
    | none => rfl
    | some quota => exact clear quota (room.2.2 _ _ found)

/-- With nothing in flight and positive limits a selected transition leads to a dispatch. -/
theorem dispatches_of_selected
    (distinct : (resources.map (·.resource)).Nodup)
    (valid : ∀ input ∈ resources, validateSelected input model = .ok ())
    (positive : ∀ config ∈ configs, config.maxTransitions ≠ 0)
    {input : ResourceTransitionInput} (hinput : input ∈ resources)
    {transition : TransitionRequest} (selected : transition ∈ input.selectedTransitions)
    {result : IntermediateThrottleResult}
    (run : computeIntermediateAndThrottle resources live [] configs model = .ok result) :
    result.dispatchableTransitions ≠ [] := by
  obtain ⟨result', run', -, idle⟩ := computeIntermediateAndThrottle_eq_ok live [] configs
    distinct (by simp) (by simp) valid
  rw [run] at run'
  cases run'
  intro empty
  rcases idle empty input hinput transition selected with inFlight | ⟨type, full⟩
  · simp [pendingByResourceMatches] at inFlight
  · rw [charged_nil, not_shouldThrottle (new_open positive)] at full
    cases full

end Stage

end Throttle

end Clustodian
