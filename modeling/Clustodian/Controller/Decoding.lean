import Clustodian.Model.Snapshot
import Clustodian.Planner.Throttle

namespace Clustodian

structure ControllerRuntimeError where
  message : String
  transient : Bool
  deriving DecidableEq

namespace ControllerRuntimeError

def ofMessage (message : String) : ControllerRuntimeError := ⟨message, false⟩

end ControllerRuntimeError

/-- Raise a stage's error as a controller error with the same text. -/
def orMessage {ε α : Type} (text : ε → String) : Except ε α → Except ControllerRuntimeError α
  | .ok value => .ok value
  | .error error => .error (.ofMessage (text error))

def instanceConfigsKey : String := "controller/instance-configs"
def throttlesKey : String := "controller/throttles"
def resourceKeyLead : String := "controller/resources/"
def externalOutputKey : String := "controller/output/external-view"
def pendingOutputKey : String := "controller/output/pending-transitions"
def processedOutputKey : String := "controller/output/processed-revision"

structure ResourcePlan where
  resource : ResourceId
  ideal : IdealState

/-- The placement algorithm behind `CRUSH` records: resource, partitions, replica count, configured
instances with their zones, live instances and topology to preference lists. -/
abbrev Crush := ResourceId → List PartitionId → ℕ → List (InstanceId × String) →
  BTreeSet InstanceId → CrushTopologyRecord →
  Except String (BTreeMap PartitionId (List InstanceId))

def metadataValue (snapshot : CoordinationSnapshot) (key : String) : Option Value :=
  (snapshot.metadata[key]?).bind (·.value)

def instanceConfigs (snapshot : CoordinationSnapshot) :
    Except ControllerRuntimeError (BTreeMap InstanceId String) :=
  match metadataValue snapshot instanceConfigsKey with
  | none => .ok ∅
  | some value => do
    let records ← orMessage id value.asInstances
    records.foldlM (fun configs record ↦ do
      let instance_ ← orMessage id (Name.new .ofInstance record.name)
      return configs.insert instance_ record.zone) ∅

/-- The placement of one record as preference lists. -/
def placementLists (crush : Crush) (configs : BTreeMap InstanceId String)
    (live : BTreeSet InstanceId) (resource : ResourceId) (placement : PlacementRecord) :
    Except ControllerRuntimeError (BTreeMap PartitionId (List InstanceId)) :=
  if placement.kind = "CRUSH" then do
    let partitions ← placement.partitions.mapM fun value ↦
      orMessage id (Name.new .ofPartition value)
    orMessage id (crush resource partitions (min placement.replicas live.size) configs.toList live
      (placement.topology.getD ⟨"/instance", "instance", "instance"⟩))
  else if placement.kind = "SEMI_AUTO" then
    placement.preferenceLists.toList.foldlM (fun lists (partition, instances) ↦ do
      let partition ← orMessage id (Name.new .ofPartition partition)
      let instances ← instances.mapM fun value ↦ orMessage id (Name.new .ofInstance value)
      return lists.insert partition instances) ∅
  else .error (.ofMessage ("unsupported M10 placement kind " ++ placement.kind))

def effectiveReplicas (placement : PlacementRecord)
    (lists : BTreeMap PartitionId (List InstanceId)) : ℕ :=
  if placement.kind = "CRUSH" then ((lists.toList.map (·.2.length)).min?).getD 0
  else placement.replicas

def buildIdeal (resource : ResourceId) (replicas : ℕ)
    (lists : BTreeMap PartitionId (List InstanceId)) : Except IdealStateError IdealState := do
  let builder ← lists.toList.foldlM (fun (builder : IdealStateBuilder) (partition, instances) ↦
    builder.setPreferenceList partition instances) (IdealState.builder resource replicas)
  builder.build

/-- The loop body of `resource_plans` for a key below the resource directory. -/
def resourcePlan (crush : Crush) (configs : BTreeMap InstanceId String)
    (live : BTreeSet InstanceId) (name : String) (entry : MetadataEntry) :
    Except ControllerRuntimeError ResourcePlan := do
  let record ← orMessage id ((entry.value.getD (.text "")).asResource)
  if record.name ≠ name then
    .error (.ofMessage ("resource metadata key " ++ name ++ " disagrees with resource name " ++
      record.name))
  else if record.stateModel ≠ "LeaderStandby" then
    .error (.ofMessage ("unsupported M10 state model " ++ record.stateModel))
  else do
    let resource ← orMessage id (Name.new .ofResource record.name)
    let lists ← placementLists crush configs live resource record.placement
    let ideal ← orMessage IdealStateError.message
      (buildIdeal resource (effectiveReplicas record.placement lists) lists)
    return ⟨resource, ideal⟩

def resourcePlans (crush : Crush) (snapshot : CoordinationSnapshot)
    (configs : BTreeMap InstanceId String) (live : BTreeSet InstanceId) :
    Except ControllerRuntimeError (List ResourcePlan) :=
  snapshot.metadata.toList.foldlM (fun plans (key, entry) ↦
    match stripPrefix key resourceKeyLead with
    | none => pure plans
    | some name => do
      let plan ← resourcePlan crush configs live name entry
      return plans ++ [plan]) []

def throttleScope : String → Except ControllerRuntimeError ThrottleScope
  | "CLUSTER" => .ok .cluster
  | "RESOURCE" => .ok .resource
  | "INSTANCE" => .ok .instance_
  | value => .error (.ofMessage ("unknown throttle scope " ++ value))

def throttleRebalanceType : String → Except ControllerRuntimeError RebalanceType
  | "ANY" => .ok .any
  | "RECOVERY_BALANCE" => .ok .recoveryBalance
  | "LOAD_BALANCE" => .ok .loadBalance
  | value => .error (.ofMessage ("unknown rebalance type " ++ value))

def throttleConfig (record : ThrottleRecord) :
    Except ControllerRuntimeError StateTransitionThrottleConfig := do
  let scope ← throttleScope record.scope
  let rebalanceType ← throttleRebalanceType record.rebalanceType
  if record.maxInFlight = 0 then
    .error (.ofMessage "transition throttle limit must be greater than zero")
  else match scope with
    | .cluster =>
      if record.resource.isSome ∨ record.instance_.isSome then
        .error (.ofMessage "cluster transition throttle cannot target a resource or instance")
      else return .new rebalanceType scope record.maxInFlight
    | .resource =>
      if record.instance_.isSome then
        .error (.ofMessage "resource transition throttle cannot target an instance")
      else match record.resource with
        | some resource => do
          let resource ← orMessage id (Name.new .ofResource resource)
          return .forResource rebalanceType resource record.maxInFlight
        | none => return .new rebalanceType scope record.maxInFlight
    | .instance_ =>
      if record.resource.isSome then
        .error (.ofMessage "instance transition throttle cannot target a resource")
      else match record.instance_ with
        | some instance_ => do
          let instance_ ← orMessage id (Name.new .ofInstance instance_)
          return .forInstance rebalanceType instance_ record.maxInFlight
        | none => return .new rebalanceType scope record.maxInFlight

def throttles (snapshot : CoordinationSnapshot) :
    Except ControllerRuntimeError (List StateTransitionThrottleConfig) :=
  match metadataValue snapshot throttlesKey with
  | none => .ok []
  | some value => do
    let records ← orMessage id value.asThrottles
    records.mapM throttleConfig

def readPending (snapshot : CoordinationSnapshot) :
    Except ControllerRuntimeError (List PublishedTransition) :=
  match metadataValue snapshot pendingOutputKey with
  | none => .ok []
  | some value => do
    let pending ← orMessage id value.asTransitions
    if pending.any (·.messageId = "") then
      .error (.ofMessage "pending transition is missing message identity")
    else return pending

end Clustodian
