import Clustodian.Coordination.Transactions

namespace Clustodian

open RevisionStore

/-- What a write request is sent for; a publication notes the cycle it stems from. -/
inductive Purpose
  | ordinary
  | cycle (mode : ReconcileMode) (snapshot : CoordinationSnapshot)
      (pending : List PublishedTransition)

abbrev Client (α : Type) := Prog Key Value Purpose CoordinationError α

def get : Client EtcdStore := Prog.query .etcd

def send (request : EtcdTxn) : Client (Bool × Revision) := Prog.submit .etcd .ordinary request

structure CasResult where
  applied : Bool
  revision : Revision
  deriving DecidableEq

inductive TransitionClaim
  | claimed (revision : Revision)
  | withdrawn
  | sessionLost
  deriving DecidableEq

inductive CompletionResult
  | applied (revision : Revision)
  | sessionLost
  | alreadyCompleted
  deriving DecidableEq

structure EtcdParticipantSession where
  instanceId : InstanceId
  sessionId : SessionId
  leaseId : ℕ
  registrationRevision : Revision
  deriving DecidableEq

structure RegistrationOptions where
  defaultInitialState : State
  resourceInitialStates : BTreeMap ResourceId State

def RegistrationOptions.initialState (options : RegistrationOptions) (resource : ResourceId) :
    State := (options.resourceInitialStates[resource]?).getD options.defaultInitialState

def maxQueueCasRetries : ℕ := 256
def maxCasRetries : ℕ := 32
def publishRounds : ℕ := 32
def expiryRounds : ℕ := 32
def adminCasRetries : ℕ := 32
def currentStateDeleteBatch : ℕ := 100

section Decoding

/-- `Revision::new` on the decimal text of a watermark. -/
def parseRevision (value : Value) : Except CoordinationError Revision :=
  match value with
  | .text text => match parseI64 text with
    | some revision =>
      if 0 < revision then .ok revision.toNat else .error (.invalidRevision revision)
    | none => .error .invalidValue
  | _ => .error .invalidValue

def parsePendingMessages (value : Option Value) :
    Except CoordinationError (List TransitionMessage) :=
  match value with
  | none => .ok []
  | some value => match value.asTransitions with
    | .error _ => .error .invalidValue
    | .ok messages =>
      if messages.any (·.messageId = "") then .error .invalidValue else .ok messages

def decodeInstances (entry : Option MetadataEntry) :
    Except CoordinationError (List InstanceRecord) :=
  match entry.bind (·.value) with
  | none => .ok []
  | some value => match value.asInstances with
    | .error _ => .error .invalidValue
    | .ok records => .ok records

def metadataEntry (s : EtcdStore) (key : String) : Option MetadataEntry :=
  (s.entry (.metadata key)).map fun entry ↦ ⟨some entry.value, entry.modRevision⟩

end Decoding

section Metadata

def getMetadata (key : String) : Client (Option MetadataEntry) := do
  let s ← get
  return metadataEntry s key

def put (key : String) (value : Value) (lease : ℕ) : Client Revision := do
  let response ← send (putTxn key value lease)
  return response.2

def compareAndPut (key : String) (expected : Revision) (value : Value) : Client CasResult := do
  let response ← send (compareAndPutTxn key value expected)
  return ⟨response.1, response.2⟩

def compareAndPutIfLiveAbsent (key : String) (expected : Revision) (i : InstanceId)
    (value : Value) : Client CasResult := do
  let response ← send (compareAndPutIfLiveAbsentTxn key value expected i)
  return ⟨response.1, response.2⟩

def compareAndDelete (key : String) (expected : Revision) : Client CasResult := do
  let response ← send (compareAndDeleteTxn key expected)
  return ⟨response.1, response.2⟩

def compareAndPutAbsent (key : String) (value : Value) : Client Bool := do
  let response ← send (compareAndPutAbsentTxn key value)
  return response.1

def initializeAuthoritativeInputMarker : Client Unit := do
  let _ ← compareAndPutAbsent authoritativeInputMarker (.text "1")

/-- Advance a numeric watermark without allowing it to regress. -/
def advanceMetadataRevision (key : String) (revision : Revision) : Client Revision :=
  Prog.retry .contention (do
    let value := Value.text (toString revision)
    match ← getMetadata key with
    | none => do
      if ← compareAndPutAbsent key value then return some revision else return none
    | some entry => do
      let current ← Prog.ofExcept (match entry.value with
        | none => .error .invalidValue
        | some value => parseRevision value)
      if revision ≤ current then return some current
      else do
        let result ← compareAndPut key entry.revision value
        if result.applied then return some revision else return none) maxQueueCasRetries

end Metadata

section Queue

/-- The queue a message is appended to: its revision, its messages and whether the key exists. -/
def readQueue : Client (Revision × List TransitionMessage × Bool) := do
  match ← getMetadata pendingOutputKey with
  | some entry => do
    let messages ← Prog.ofExcept (parsePendingMessages entry.value)
    return (entry.revision, messages, true)
  | none => do
    let s ← get
    let snapshot ← Prog.ofExcept (controllerSnapshotFromKvs s)
    return (snapshot.revision, [], false)

def replaceQueue (expected : Revision) (present : Bool) (value : Value) : Client Bool :=
  if present then do
    let result ← compareAndPut pendingOutputKey expected value
    return result.applied
  else compareAndPutAbsent pendingOutputKey value

/-- Append a message to the shared queue with a CAS loop. -/
def injectPendingTransition (message : TransitionMessage) : Client Revision :=
  if message.messageId = "" then Prog.fail .invalidValue
  else Prog.retry .contention (do
    let queue ← readQueue
    if queue.2.1.any (·.messageId = message.messageId) then
      Prog.fail (.duplicateMessage message.messageId)
    else do
      let value := Value.ofTransitions .message (queue.2.1 ++ [message])
      if ← replaceQueue queue.1 queue.2.2 value then do
        match ← getMetadata pendingOutputKey with
        | some entry => return some entry.revision
        | none => Prog.fail .missingRevision
      else return none) maxQueueCasRetries

def liveSessionOf (i : InstanceId) : Client (Option SessionId) := do
  let s ← get
  match s.value (.live i) with
  | none => return none
  | some value => do
    let session ← Prog.ofExcept (parseSession value)
    return some session

/-- Hold a queued message at one instant before its callback may run. -/
def claimPendingTransition (i : InstanceId) (session : SessionId) (message : TransitionMessage) :
    Client TransitionClaim :=
  Prog.retry .contention (do
    match ← getMetadata pendingOutputKey with
    | none => return some .withdrawn
    | some entry => do
      let messages ← Prog.ofExcept (parsePendingMessages entry.value)
      if message ∉ messages then return some .withdrawn
      else match entry.value with
        | none => Prog.fail .invalidValue
        | some queueValue => do
          let response ← send (claimTxn i session entry.revision queueValue)
          if response.1 then return some (.claimed entry.revision)
          else do
            let current ← liveSessionOf i
            if current ≠ some session then return some .sessionLost
            else return none) maxQueueCasRetries

/-- After a lost session the message leaves the queue without a state. -/
def completeAfterSessionLoss (fence : ParticipantCompletionFence) : Client CompletionResult := do
  match ← getMetadata pendingOutputKey with
  | none => return .sessionLost
  | some entry => do
    let current ← Prog.ofExcept (parsePendingMessages entry.value)
    let rest := current.filter (·.messageId ≠ fence.messageId)
    if rest.length = current.length then return .alreadyCompleted
    else if entry.revision ≠ fence.queueRevision then return .sessionLost
    else do
      let _ ← compareAndPut pendingOutputKey fence.queueRevision (.ofTransitions .message rest)
      return .sessionLost

def completePendingTransitionWithFence (fence : ParticipantCompletionFence)
    (message : TransitionMessage) (resultingState : Option State) : Client CompletionResult :=
  match Name.new .ofResource message.resource, Name.new .ofPartition message.partition with
  | .ok resource, .ok partition => do
    match ← getMetadata pendingOutputKey with
    | none => return .alreadyCompleted
    | some entry => do
      let messages ← Prog.ofExcept (parsePendingMessages entry.value)
      match messages.find? (·.messageId = fence.messageId) with
      | none => return .alreadyCompleted
      | some found =>
        if found ≠ message then return .alreadyCompleted
        else if entry.revision ≠ fence.queueRevision then Prog.fail .staleRevision
        else do
          let rest := messages.eraseP (·.messageId = fence.messageId)
          let response ← send (completeTxn fence resource partition resultingState
            (.ofTransitions .message rest))
          if response.1 then return .applied response.2
          else do
            let current ← liveSessionOf fence.instance_
            if current = some fence.sessionId then Prog.fail .staleRevision
            else completeAfterSessionLoss fence
  | _, _ => Prog.fail .invalidKey

def completePendingTransition (i : InstanceId) (session : SessionId) (expected : Revision)
    (message : TransitionMessage) (resultingState : Option State) : Client CompletionResult :=
  completePendingTransitionWithFence ⟨i, session, expected, message.messageId⟩ message
    resultingState

def removePendingTransition (expected : Revision) (messageId : String) : Client Bool := do
  match ← getMetadata pendingOutputKey with
  | none => return false
  | some entry => do
    let messages ← Prog.ofExcept (parsePendingMessages entry.value)
    let rest := messages.filter (·.messageId ≠ messageId)
    if rest.length = messages.length then return false
    else if entry.revision ≠ expected then Prog.fail .staleRevision
    else do
      let result ← compareAndPut pendingOutputKey expected (.ofTransitions .message rest)
      if result.applied then return true else Prog.fail .staleRevision

def removePendingTransitionsForResource (resource : ResourceId) : Client Unit :=
  Prog.retry .contention (do
    match ← getMetadata pendingOutputKey with
    | none => return some ()
    | some entry => do
      let messages ← Prog.ofExcept (parsePendingMessages entry.value)
      let retained := messages.filter (·.resource ≠ resource.asStr)
      if retained.length = messages.length then return some ()
      else do
        let result ← compareAndPut pendingOutputKey entry.revision
          (.ofTransitions .message retained)
        if result.applied then return some () else return none) maxQueueCasRetries

end Queue

section Publication

def authorityMatches (controllerId : String) (leaseId : ℕ) : Client Bool := do
  let s ← get
  match s.entry .active with
  | none => return false
  | some entry => return entry.value = .text controllerId ∧ entry.lease = leaseId

def pendingRevisionChanged (expected : Option Revision) : Client Bool := do
  let s ← get
  match expected, s.entry .queue with
  | some expected, some current => return current.modRevision ≠ expected
  | none, none => return false
  | _, _ => return true

/-- One read for every session of the fence, until one has changed. -/
def liveSessionsChanged : List (InstanceId × SessionId) → Client Bool
  | [] => return false
  | (i, session) :: rest => do
    let s ← get
    if s.value (.live i) ≠ some (.text (sessionText session)) then return true
    else liveSessionsChanged rest

def inputFenceChanged (fence : ControllerCommitFence) : Client Bool := do
  let s ← get
  match s.entry .marker with
  | none => return true
  | some marker =>
    if marker.modRevision ≠ fence.observedRevision then return true
    else liveSessionsChanged fence.liveSessions.toList

/-- The watermark with the revision of its key. -/
def readProcessed : Client (Option (Revision × Revision)) := do
  let s ← get
  match s.entry (.metadata processedOutputKey) with
  | none => return none
  | some entry => do
    let value ← Prog.ofExcept (parseRevision entry.value)
    return some (entry.modRevision, value)

/-- One round of the publication loop; no result means another round. -/
def publishRound (purpose : Purpose) (fence : ControllerCommitFence)
    (externalView pendingTransitions : Value) (pendingRevision : Option Revision) :
    Client (Option Revision) := do
  let processed ← readProcessed
  if processed.any (fence.observedRevision < ·.2) then Prog.fail .staleRevision
  else do
    let response ← Prog.submit .etcd purpose (publishTxn fence externalView pendingTransitions
      pendingRevision (processed.map Prod.fst))
    if response.1 then return some response.2
    else if !(← authorityMatches fence.controllerId fence.leaseId) then Prog.fail .staleController
    else if ← pendingRevisionChanged pendingRevision then Prog.fail .staleRevision
    else if ← inputFenceChanged fence then Prog.fail .staleRevision
    else do
      let latest ← readProcessed
      if latest.any (fence.observedRevision < ·.2) then Prog.fail .staleRevision
      else return none

def publishControllerOutputsWithFence (purpose : Purpose) (fence : ControllerCommitFence)
    (externalView pendingTransitions : Value) (pendingRevision : Option Revision) :
    Client Revision :=
  Prog.retry .contention (publishRound purpose fence externalView pendingTransitions
    pendingRevision) publishRounds

def controllerSnapshot : Client CoordinationSnapshot := do
  let s ← get
  Prog.ofExcept (controllerSnapshotFromKvs s)

/-- Publish outputs computed by the caller. -/
def publishControllerOutputs (authority : ControllerAuthority)
    (externalView pendingTransitions : Value) (processedRevision : Revision)
    (pendingRevision : Option Revision) : Client Revision := do
  let snapshot ← controllerSnapshot
  if processedRevision ≠ snapshot.authoritativeRevision then Prog.fail .staleRevision
  else do
    let fence := authority.commitFence snapshot.authoritativeRevision
      snapshot.participants.liveInstances
    publishControllerOutputsWithFence .ordinary fence externalView pendingTransitions
      pendingRevision

def recordLeaseExpiry (authority : ControllerAuthority) (eventRevision : Revision) :
    Client Revision :=
  Prog.retry .contention (do
    let s ← get
    if (s.entry .marker).any (eventRevision ≤ ·.modRevision) then
      return some (s.modRevision .marker)
    else do
      let response ← send (recordLeaseExpiryTxn authority
        ((s.entry .marker).map Entry.modRevision))
      if response.1 then return some response.2
      else if !(← authorityMatches authority.controllerId authority.leaseId) then
        Prog.fail .staleController
      else return none) expiryRounds

def putControllerOwned (authority : ControllerAuthority) (key : String) (value : Value) :
    Client Revision := do
  let response ← send (putControllerOwnedTxn key value authority)
  if response.1 then return response.2 else Prog.fail .staleController

end Publication

section Sessions

def publishCurrentState (i : InstanceId) (session : SessionId) (resource : ResourceId)
    (states : BTreeMap PartitionId State) : Client Revision := do
  let response ← send (publishCurrentStateTxn i session resource states)
  if response.1 then return response.2 else Prog.fail (.staleSession i)

def injectSessionCurrentState (i : InstanceId) (session : SessionId) (resource : ResourceId)
    (states : BTreeMap PartitionId State) : Client Unit := do
  let s ← get
  if (s.entry (.session i session)).isNone then Prog.fail (.unknownSession session)
  else do
    let _ ← send (injectSessionCurrentStateTxn i session resource states)

/-- The newest session recorded for an instance. -/
def latestSession (s : EtcdStore) (i : InstanceId) : Option SessionId :=
  (s.entries.toList.filterMap fun item ↦ match item.1 with
    | .session j ticket =>
      if j = i then (parseSession (.text (sessionText ticket))).toOption else none
    | _ => none).max?

def sequenceValue (s : EtcdStore) : Except CoordinationError ℕ :=
  match s.entry .sequence with
  | none => .ok 0
  | some entry => parseSequence entry.value

def allocateSession : Client SessionId :=
  Prog.retry .contention (do
    let s ← get
    let old ← Prog.ofExcept (sequenceValue s)
    let next := old + 1
    if 2 ^ 64 ≤ next then Prog.fail .invalidSession
    else do
      let response ← send (allocateSessionTxn ((s.entry .sequence).map Entry.modRevision) next)
      if response.1 then return some next else return none) maxCasRetries

/-- The records of an earlier session, each in its initial state. -/
def carriedState (s : EtcdStore) (i : InstanceId) (previous : SessionId)
    (options : RegistrationOptions) : List (ResourceId × PartitionId × State) :=
  s.entries.toList.filterMap fun item ↦ match item.1 with
    | .currentState j ticket resource partition =>
      if j = i ∧ ticket = previous then some (resource, partition, options.initialState resource)
      else none
    | _ => none

def carriedFrom (i : InstanceId) (previous : Option SessionId) (options : RegistrationOptions) :
    Client (List (ResourceId × PartitionId × State)) :=
  match previous with
  | none => return []
  | some previous => do
    let s ← get
    return carriedState s i previous options

def register (i : InstanceId) (options : RegistrationOptions) : Client EtcdParticipantSession := do
  let s ← get
  let session ← allocateSession
  let carried ← carriedFrom i (latestSession s i) options
  let lease ← Prog.grantLease .etcd
  let response ← send (registerTxn i session lease carried)
  if response.1 then return ⟨i, session, lease, response.2⟩
  else do
    Prog.revokeLease .etcd lease
    Prog.fail .registrationLost

def revokeLive (i : InstanceId) (session : SessionId) : Client Revision := do
  let s ← get
  match s.entry (.live i) with
  | none => Prog.fail (.staleSession i)
  | some entry => do
    let current ← Prog.ofExcept (parseSession entry.value)
    if current ≠ session then Prog.fail (.staleSession i)
    else do
      let deleted ← send (revokeLiveTxn i session)
      if !deleted.1 then Prog.fail (.staleSession i)
      else if entry.lease ≠ 0 then do
        Prog.revokeLease .etcd entry.lease
        return deleted.2
      else return deleted.2

/-- A session ends with its lease. -/
def revokeSession (lease : ℕ) : Client Unit := Prog.revokeLease .etcd lease

def statesOfResource (s : EtcdStore) (resource : ResourceId) : List Key :=
  (s.entries.toList.map Prod.fst).filter fun key ↦ match key with
    | .currentState _ _ r _ => r = resource
    | _ => false

/-- Consecutive batches of a positive size; a list has at most as many of them as elements. -/
def chunks (size : ℕ) (keys : List Key) : List (List Key) := go keys.length keys
where
  go : ℕ → List Key → List (List Key)
    | 0, _ => []
    | _, [] => []
    | bound + 1, keys => keys.take size :: go bound (keys.drop size)

theorem subset_of_mem_chunks {size : ℕ} {keys chunk : List Key} (h : chunk ∈ chunks size keys) :
    chunk ⊆ keys := by
  suffices general : ∀ bound keys, chunk ∈ chunks.go size bound keys → chunk ⊆ keys from
    general _ _ h
  intro bound
  induction bound with
  | zero => exact fun _ h ↦ nomatch h
  | succ bound ih =>
    intro keys h
    cases keys with
    | nil => exact nomatch h
    | cons key keys =>
      rcases List.mem_cons.mp h with rfl | h
      · exact List.take_subset _ _
      · exact List.Subset.trans (ih _ h) (List.drop_subset _ _)

/-- One transaction for every batch of keys. -/
def deleteBatches (revision : Revision) : List (List Key) → Client Revision
  | [] => return revision
  | keys :: rest => do
    let response ← send (removeCurrentStatesTxn keys)
    deleteBatches response.2 rest

def removeCurrentStatesForResource (resource : ResourceId) : Client Revision := do
  let s ← get
  deleteBatches s.revision (chunks currentStateDeleteBatch (statesOfResource s resource))

end Sessions

section Admin

structure InstanceSpec where
  instanceId : String
  zone : String
  deriving DecidableEq

inductive PlacementSpec
  | crush
  | crushWithTopology (topology : CrushTopologyRecord)
  | semiAuto (preferenceLists : BTreeMap String (List String))

structure ResourceSpec where
  name : String
  partitions : ℕ
  replicas : ℕ
  stateModel : String
  placement : PlacementSpec

def ensureCluster (own cluster : String) : Client Unit := do
  if cluster ≠ own ∨ isBlank cluster ∨ '\x00' ∈ cluster.toList then Prog.fail .invalidCluster
  else if ← compareAndPutAbsent "controller/cluster" (.text cluster) then return ()
  else do
    let existing ← getMetadata "controller/cluster"
    if existing.bind (·.value) = some (.text cluster) then return ()
    else Prog.fail .invalidCluster

/-- The records with one instance added or replaced, in the order of their names. -/
def withInstance (records : List InstanceRecord) (record : InstanceRecord) :
    List InstanceRecord :=
  (records.filter (·.name ≠ record.name) ++ [record]).mergeSort (·.name ≤ ·.name)

def replaceInstances (current : Option MetadataEntry) (value : Value) : Client Bool :=
  match current with
  | some entry => do
    let result ← compareAndPut instanceConfigsKey entry.revision value
    return result.applied
  | none => compareAndPutAbsent instanceConfigsKey value

def putInstance (spec : InstanceSpec) : Client Unit :=
  match Name.new .ofInstance spec.instanceId with
  | .error _ => Prog.fail .invalidKey
  | .ok i =>
    if isBlank spec.zone ∨ '\x00' ∈ spec.zone.toList then Prog.fail .invalidValue
    else Prog.retry .contention (do
      let current ← getMetadata instanceConfigsKey
      let existing ← Prog.ofExcept (decodeInstances current)
      let instances := withInstance existing ⟨i.asStr, spec.zone⟩
      if instances = existing.mergeSort (·.name ≤ ·.name) then return some ()
      else if ← replaceInstances current (.instances instances) then return some ()
      else return none) adminCasRetries

def removeInstance (instanceId : String) : Client Unit :=
  match Name.new .ofInstance instanceId with
  | .error _ => Prog.fail .invalidKey
  | .ok i => Prog.retry .contention (do
    match ← getMetadata instanceConfigsKey with
    | none => return some ()
    | some current => do
      let instances ← Prog.ofExcept (decodeInstances (some current))
      if ¬instances.any (·.name = i.asStr) then return some ()
      else do
        let rest := instances.filter (·.name ≠ i.asStr)
        let result ← compareAndPutIfLiveAbsent instanceConfigsKey current.revision i
          (.instances rest)
        if result.applied then return some ()
        else if (← liveSessionOf i).isSome then Prog.fail (.instanceStillLive i)
        else return none) adminCasRetries

def crushPartitions (resource : ResourceId) (partitions : ℕ) : List String :=
  (List.range partitions).map fun index ↦ resource.asStr ++ "_" ++ toString index

/-- The stored form of a placement, or why it is refused. -/
def placementRecord (resource : ResourceId) (spec : ResourceSpec) :
    Except CoordinationError PlacementRecord :=
  match spec.placement with
  | .crush => .ok ⟨"CRUSH", spec.replicas, ∅, crushPartitions resource spec.partitions, none⟩
  | .crushWithTopology topology =>
    .ok ⟨"CRUSH", spec.replicas, ∅, crushPartitions resource spec.partitions, some topology⟩
  | .semiAuto lists => do
    if lists.size ≠ spec.partitions then .error .invalidValue
    else do
      lists.toList.forM fun item ↦ do
        if item.1 = "" then .error .invalidKey
        else if item.2.length ≠ spec.replicas then .error .invalidValue
        else if ¬item.2.Nodup then .error .invalidValue
        else if "" ∈ item.2 then .error .invalidKey
        else pure ()
      return ⟨"SEMI_AUTO", spec.replicas, lists, [], none⟩

def putResource (spec : ResourceSpec) : Client Unit :=
  match Name.new .ofResource spec.name with
  | .error _ => Prog.fail .invalidKey
  | .ok resource =>
    if spec.partitions = 0 ∨ spec.replicas = 0 ∨ spec.stateModel ≠ "LeaderStandby" then
      Prog.fail .invalidValue
    else do
      let placement ← Prog.ofExcept (placementRecord resource spec)
      let value := Value.resource ⟨resource.asStr, spec.stateModel, placement⟩
      let key := resourceKeyLead ++ resource.asStr
      let current ← getMetadata key
      if current.bind (·.value) = some value then return ()
      else do
        let _ ← put key value 0

def putThrottles (throttles : List ThrottleRecord) : Client Unit :=
  if throttles.any fun throttle ↦ throttle.maxInFlight = 0 ∨ isBlank throttle.scope then
    Prog.fail .invalidValue
  else do
    let _ ← put throttlesKey (.throttles throttles) 0

end Admin

section Execution

variable {s : EtcdStore} {lease : ℕ}

theorem exec_get : get.exec lease s = (.ok s, s) := rfl

theorem exec_send (request : EtcdTxn) : (send request).exec lease s =
    (.ok (request.succeeds s, (request.run s).revision), request.run s) := rfl

/-- A key is as it has just been read. -/
theorem revisionCompare_holds (s : EtcdStore) (key : Key) :
    (revisionCompare key ((s.entry key).map Entry.modRevision)).holds s = true := by
  cases found : s.entry key with
  | none => exact Compare.version_zero.mpr found
  | some e => exact Compare.modRevision_holds.mpr (Store.modRevision_of_entry found)

end Execution

end Clustodian
