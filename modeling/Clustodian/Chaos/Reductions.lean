import Clustodian.Lib.OrderedMap
import Clustodian.Model.Names

/-! Chaos traces and the transformations that the minimizer tries on them. -/

namespace Clustodian.Chaos

structure ParticipantConfig where
  id : String
  zone : String
  deriving DecidableEq

inductive PlacementConfig
  | crush
  | semiAuto (preferenceLists : BTreeMap String (List String))
  deriving DecidableEq

structure ResourceConfig where
  name : String
  partitions : List String
  replicas : ℕ
  placement : PlacementConfig
  deriving DecidableEq

structure ThrottleConfig where
  scope : String
  rebalanceType : String
  maxInFlight : ℕ
  deriving DecidableEq

structure ClusterConfig where
  controllers : List String
  participants : List ParticipantConfig
  resources : List ResourceConfig
  throttles : List ThrottleConfig
  deriving DecidableEq

inductive Action
  | startController (id : String)
  | gracefulStopController (id : String)
  | crashController (id : String)
  | restartController (id : String)
  | startParticipant (id : String)
  | gracefulStopParticipant (id : String)
  | crashParticipant (id : String)
  | restartParticipant (id : String)
  | addParticipant (participant : ParticipantConfig)
  | removeParticipant (id : String)
  | createResource (resource : ResourceConfig)
  | modifyPreferenceList (resource partition : String) (instances : List String)
  | changeThrottle (throttle : ThrottleConfig)
  | wait (milliseconds : ℕ)
  | requestQuiescence
  | waitForConvergence (deadlineMilliseconds : ℕ)
  | assertIdle (seconds : ℕ)
  deriving DecidableEq

inductive NetworkTarget
  | controller (id : String)
  | participant (id : String)
  | controllersAndParticipants
  deriving DecidableEq

inductive Direction
  | upstream
  | downstream
  deriving DecidableEq

inductive NetworkToxic
  | disconnect
  | directionalDisconnect (direction : Direction)
  | latency (milliseconds jitterMilliseconds : ℕ)
  | timeout (milliseconds : ℕ)
  | connectionReset
  | bandwidth (kilobytesPerSecond : ℕ)
  | slowClose (milliseconds : ℕ)
  deriving DecidableEq

inductive CallbackBehavior
  | succeedImmediately
  | succeedSlowly (milliseconds : ℕ)
  | block (token : String)
  | error
  | repeatedError (attempts : ℕ)
  | panic
  deriving DecidableEq

inductive ClockPerturbation
  | wallForward (milliseconds : ℤ)
  | wallBackward (milliseconds : ℤ)
  | monotonicOffset (milliseconds : ℤ)
  | suspend (milliseconds : ℕ)
  | delayedKeepalive (milliseconds : ℕ)
  deriving DecidableEq

inductive FailpointBehavior
  | pause (milliseconds : ℕ)
  | returnError
  | panic
  | hardAbort
  deriving DecidableEq

inductive Fault
  | network (target : NetworkTarget) (toxic : NetworkToxic) (durationMilliseconds : ℕ)
  | etcdMemberRestart (member : String)
  | etcdCompaction
  | callback (participant : String) (behavior : CallbackBehavior)
  | clock (participant : String) (perturbation : ClockPerturbation)
  | failpoint (point : String) (behavior : FailpointBehavior)
  deriving DecidableEq

structure ScheduledFault where
  actionIndex : ℕ
  fault : Fault
  deriving DecidableEq

structure Trace where
  schemaVersion : ℕ
  seed : ℕ
  profile : String
  initialConfig : ClusterConfig
  actions : List Action
  faults : List ScheduledFault
  deriving DecidableEq

section Ranges

/-- Remove an action range and remap faults that occur after that range. -/
def removeActionRange (trace : Trace) (start stop : ℕ) : Option Trace :=
  if stop ≤ start ∨ trace.actions.length < stop then none
  else some { trace with
    actions := trace.actions.take start ++ trace.actions.drop stop
    faults := trace.faults.filterMap fun scheduled ↦
      if start ≤ scheduled.actionIndex ∧ scheduled.actionIndex < stop then none
      else
        -- the source subtracts nothing for an action before the range
        let removed := (stop - start) * if stop ≤ scheduled.actionIndex then 1 else 0
        if scheduled.actionIndex < removed then none
        else some ⟨scheduled.actionIndex - removed, scheduled.fault⟩ }

/-- Remove a range of scheduled faults without changing action indices. -/
def removeFaultRange (trace : Trace) (start stop : ℕ) : Option Trace :=
  if stop ≤ start ∨ trace.faults.length < stop then none
  else some { trace with faults := trace.faults.take start ++ trace.faults.drop stop }

end Ranges

section Parameters

/-- The smaller values that are tried in the place of one; `zero` is the last. -/
def lowerValues {α : Type} [DecidableEq α] (value half one zero : α) : List α :=
  [half, one, zero].foldl (fun values reduced ↦
    if reduced ≠ value ∧ reduced ∉ values then values ++ [reduced] else values) []

/-- `lower_u64` and `lower_u32`. -/
def lowerUnsigned (value : ℕ) : List ℕ := lowerValues value (value / 2) 1 0

/-- Division of signed numbers rounds towards zero. -/
def lowerI64 (value : ℤ) : List ℤ := lowerValues value (value.tdiv 2) value.sign 0

def NetworkToxic.reduce : NetworkToxic → List NetworkToxic
  | .latency milliseconds jitter =>
    (lowerUnsigned milliseconds).map (.latency · jitter) ++
      (lowerUnsigned jitter).map (.latency milliseconds ·)
  | .timeout milliseconds => (lowerUnsigned milliseconds).map .timeout
  | .slowClose milliseconds => (lowerUnsigned milliseconds).map .slowClose
  | .bandwidth kilobytes => (lowerUnsigned kilobytes).map .bandwidth
  | .disconnect | .directionalDisconnect _ | .connectionReset => []

def CallbackBehavior.reduce : CallbackBehavior → List CallbackBehavior
  | .succeedSlowly milliseconds => (lowerUnsigned milliseconds).map .succeedSlowly
  | .repeatedError attempts => (lowerUnsigned attempts).map .repeatedError
  | .succeedImmediately | .block _ | .error | .panic => []

def ClockPerturbation.reduce : ClockPerturbation → List ClockPerturbation
  | .suspend milliseconds => (lowerUnsigned milliseconds).map .suspend
  | .delayedKeepalive milliseconds => (lowerUnsigned milliseconds).map .delayedKeepalive
  | .wallForward milliseconds => (lowerI64 milliseconds).map .wallForward
  | .wallBackward milliseconds => (lowerI64 milliseconds).map .wallBackward
  | .monotonicOffset milliseconds => (lowerI64 milliseconds).map .monotonicOffset

def FailpointBehavior.reduce : FailpointBehavior → List FailpointBehavior
  | .pause milliseconds => (lowerUnsigned milliseconds).map .pause
  | .returnError | .panic | .hardAbort => []

/-- The faults that are tried in the place of one. -/
def Fault.reduce : Fault → List Fault
  | .network target toxic duration =>
    (lowerUnsigned duration).map (.network target toxic ·) ++
      toxic.reduce.map (.network target · duration)
  | .callback participant behavior => behavior.reduce.map (.callback participant)
  | .clock participant perturbation => perturbation.reduce.map (.clock participant)
  | .failpoint point behavior => behavior.reduce.map (.failpoint point)
  | .etcdMemberRestart _ | .etcdCompaction => []

def replaceFault (trace : Trace) (faultIndex : ℕ) (fault : Fault) : Trace :=
  { trace with faults := trace.faults.modify faultIndex fun scheduled ↦ { scheduled with fault } }

/-- The scalar reductions of one scheduled fault. -/
def reduceFault (trace : Trace) (faultIndex : ℕ) : List Trace :=
  match trace.faults[faultIndex]? with
  | none => []
  | some scheduled => scheduled.fault.reduce.map (replaceFault trace faultIndex)

end Parameters

section Topology

def Action.controllerId : Action → Option String
  | .startController id | .gracefulStopController id | .crashController id
  | .restartController id => some id
  | _ => none

def Action.resourceId : Action → Option String
  | .createResource resource => some resource.name
  | .modifyPreferenceList resource _ _ => some resource
  | _ => none

def Fault.controllerId : Fault → Option String
  | .network (.controller id) _ _ => some id
  | _ => none

def Fault.participantId : Fault → Option String
  | .network (.participant id) _ _ | .callback id _ | .clock id _ => some id
  | _ => none

/-- One round of `transform_actions`: the new indices so far and the actions so far. -/
def transformAction (transform : Action → Option Action) (state : List (Option ℕ) × List Action)
    (action : Action) : List (Option ℕ) × List Action :=
  match transform action with
  | some action => (state.1 ++ [some state.2.length], state.2 ++ [action])
  | none => (state.1 ++ [none], state.2)

def transformActions (trace : Trace) (transform : Action → Option Action) : Trace :=
  let (remap, actions) := trace.actions.foldl (transformAction transform) ([], [])
  { trace with
    actions
    faults := trace.faults.filterMap fun scheduled ↦ do
      let actionIndex ← (remap[scheduled.actionIndex]?).join
      return ⟨actionIndex, scheduled.fault⟩ }

def withoutController (controller : String) (action : Action) : Option Action :=
  if action.controllerId = some controller then none else some action

def removeController (trace : Trace) (controller : String) : Trace :=
  let candidate := transformActions trace (withoutController controller)
  { candidate with
    initialConfig := { candidate.initialConfig with
      controllers := candidate.initialConfig.controllers.filter (· ≠ controller) }
    faults := candidate.faults.filter (·.fault.controllerId ≠ some controller) }

def PlacementConfig.pruneParticipant (participant : String) : PlacementConfig → PlacementConfig
  | .crush => .crush
  | .semiAuto preferenceLists =>
    .semiAuto (preferenceLists.map fun _ instances ↦ instances.filter (· ≠ participant))

def pruneResourceParticipant (participant : String) (resource : ResourceConfig) : ResourceConfig :=
  { resource with placement := resource.placement.pruneParticipant participant }

def withoutParticipant (participant : String) (action : Action) : Option Action :=
  match action with
  | .startController _ | .gracefulStopController _ | .crashController _ | .restartController _
  | .changeThrottle _ | .wait _ | .requestQuiescence | .waitForConvergence _ | .assertIdle _ =>
    some action
  | .startParticipant id => if id ≠ participant then some (.startParticipant id) else none
  | .gracefulStopParticipant id =>
    if id ≠ participant then some (.gracefulStopParticipant id) else none
  | .crashParticipant id => if id ≠ participant then some (.crashParticipant id) else none
  | .restartParticipant id => if id ≠ participant then some (.restartParticipant id) else none
  | .removeParticipant id => if id ≠ participant then some (.removeParticipant id) else none
  | .addParticipant added => if added.id ≠ participant then some (.addParticipant added) else none
  | .createResource resource => some (.createResource (pruneResourceParticipant participant resource))
  | .modifyPreferenceList resource partition instances =>
    some (.modifyPreferenceList resource partition (instances.filter (· ≠ participant)))

def removeParticipant (trace : Trace) (participant : String) : Trace :=
  let candidate := transformActions trace (withoutParticipant participant)
  { candidate with
    initialConfig := { candidate.initialConfig with
      participants := candidate.initialConfig.participants.filter (·.id ≠ participant)
      resources := candidate.initialConfig.resources.map (pruneResourceParticipant participant) }
    faults := candidate.faults.filter (·.fault.participantId ≠ some participant) }

def withoutResource (name : String) (action : Action) : Option Action :=
  if action.resourceId = some name then none else some action

def removeResource (trace : Trace) (name : String) : Trace :=
  let candidate := transformActions trace (withoutResource name)
  { candidate with
    initialConfig := { candidate.initialConfig with
      resources := candidate.initialConfig.resources.filter (·.name ≠ name) } }

def PlacementConfig.prunePartition (partition : String) : PlacementConfig → PlacementConfig
  | .crush => .crush
  | .semiAuto preferenceLists => .semiAuto (preferenceLists.erase partition)

def pruneResourcePartition (name partition : String) (resource : ResourceConfig) : ResourceConfig :=
  if resource.name = name then { resource with
    partitions := resource.partitions.filter (· ≠ partition)
    placement := resource.placement.prunePartition partition }
  else resource

def withoutPartition (name partition : String) (action : Action) : Option Action :=
  match action with
  | .createResource resource => some (.createResource (pruneResourcePartition name partition resource))
  | .modifyPreferenceList resource actionPartition _ =>
    if resource = name ∧ actionPartition = partition then none else some action
  | other => some other

def removePartition (trace : Trace) (name partition : String) : Trace :=
  let candidate := transformActions trace (withoutPartition name partition)
  { candidate with
    initialConfig := { candidate.initialConfig with
      resources := candidate.initialConfig.resources.map (pruneResourcePartition name partition) } }

def limitReplicas (name : String) (replicas : ℕ) (resource : ResourceConfig) : ResourceConfig :=
  if resource.name = name then { resource with replicas := max replicas 1 } else resource

def limitCreatedReplicas (name : String) (replicas : ℕ) : Action → Action
  | .createResource resource => .createResource (limitReplicas name replicas resource)
  | action => action

def setResourceReplicas (trace : Trace) (name : String) (replicas : ℕ) : Trace :=
  { trace with
    initialConfig := { trace.initialConfig with
      resources := trace.initialConfig.resources.map (limitReplicas name replicas) }
    actions := trace.actions.map (limitCreatedReplicas name replicas) }

/-- The candidates with a smaller initial cluster or resource topology. -/
def reduceClusterAndResources (trace : Trace) : List Trace :=
  let config := trace.initialConfig
  (if 1 < config.controllers.length then config.controllers.map (removeController trace) else []) ++
  (if 1 < config.participants.length then
    config.participants.map fun participant ↦ removeParticipant trace participant.id
  else []) ++
  (if 1 < config.resources.length then
    config.resources.map fun resource ↦ removeResource trace resource.name
  else []) ++
  config.resources.flatMap fun resource ↦
    (if 1 < resource.partitions.length then
      resource.partitions.map (removePartition trace resource.name)
    else []) ++
    if 1 < resource.replicas then
      [setResourceReplicas trace resource.name (resource.replicas / 2)]
    else []

end Topology

end Clustodian.Chaos
