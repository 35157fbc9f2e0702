import Clustodian.Coordination.Reads

namespace Clustodian

open RevisionStore

abbrev EtcdTxn := Txn Key Value
abbrev EtcdOp := Op Key Value
abbrev EtcdCompare := Compare Key Value

structure ControllerAuthority where
  controllerId : String
  leaseId : ℕ
  deriving DecidableEq

/-- What a publication holds the store to: the publisher, its input and the sessions it planned
for. -/
structure ControllerCommitFence where
  controllerId : String
  leaseId : ℕ
  observedRevision : Revision
  liveSessions : BTreeMap InstanceId SessionId

namespace ControllerAuthority

def commitFence (authority : ControllerAuthority) (observedRevision : Revision)
    (liveSessions : BTreeMap InstanceId SessionId) : ControllerCommitFence :=
  ⟨authority.controllerId, authority.leaseId, observedRevision, liveSessions⟩

/-- The active election record is this controller's. -/
def compares (authority : ControllerAuthority) : List EtcdCompare :=
  [.value .active (.text authority.controllerId), .lease .active authority.leaseId]

end ControllerAuthority

structure ParticipantCompletionFence where
  instance_ : InstanceId
  sessionId : SessionId
  queueRevision : Revision
  messageId : String
  deriving DecidableEq

def authoritativeInputMarkerOperation : EtcdOp := .put .marker (.text "1") 0

/-- A write of a metadata key, with the marker if the controller reads the key. -/
def metadataOperations (key : String) (operation : EtcdOp) : List EtcdOp :=
  operation :: if isAuthoritativeMetadataKey key then [authoritativeInputMarkerOperation] else []

/-- A metadata key that does not go with a lease. -/
def Unleased (s : EtcdStore) (key : String) : Prop :=
  ∀ e, s.entry (.metadata key) = some e → e.lease = 0

theorem Unleased.expire {s : EtcdStore} {key : String} (h : Unleased s key) (lease : ℕ) :
    (s.expire lease).entry (.metadata key) = s.entry (.metadata key) := by
  rw [Store.entry_expire]
  cases found : s.entry (.metadata key) with
  | none => rfl
  | some e =>
    have free := h e found
    rw [Option.filter_some, if_pos]
    rw [decide_eq_true_eq]
    omega

theorem mem_metadataOperations {key : String} {operation op : EtcdOp}
    (h : op ∈ metadataOperations key operation) :
    op = operation ∨ op = authoritativeInputMarkerOperation := by
  rcases List.mem_cons.mp h with rfl | h
  · exact .inl rfl
  · split at h
    · exact .inr (List.mem_singleton.mp h)
    · exact absurd h List.not_mem_nil

def liveCompare (i : InstanceId) (session : SessionId) : EtcdCompare :=
  .value (.live i) (.text (sessionText session))

/-- The key is as it was read: at a revision, or absent. -/
def revisionCompare (key : Key) : Option Revision → EtcdCompare
  | some revision => .modRevision key revision
  | none => .version key 0

section Metadata

variable (key : String) (value : Value)

def putTxn (lease : ℕ) : EtcdTxn := ⟨[], metadataOperations key (.put (.metadata key) value lease)⟩

def compareAndPutTxn (expected : Revision) : EtcdTxn :=
  ⟨[.modRevision (.metadata key) expected],
    metadataOperations key (.put (.metadata key) value 0)⟩

def compareAndPutIfLiveAbsentTxn (expected : Revision) (i : InstanceId) : EtcdTxn :=
  ⟨[.modRevision (.metadata key) expected, .version (.live i) 0],
    metadataOperations key (.put (.metadata key) value 0)⟩

def compareAndDeleteTxn (expected : Revision) : EtcdTxn :=
  ⟨[.modRevision (.metadata key) expected], metadataOperations key (.delete (.metadata key))⟩

def compareAndPutAbsentTxn : EtcdTxn :=
  ⟨[.version (.metadata key) 0], metadataOperations key (.put (.metadata key) value 0)⟩

def putControllerOwnedTxn (authority : ControllerAuthority) : EtcdTxn :=
  ⟨authority.compares, metadataOperations key (.put (.metadata key) value 0)⟩

end Metadata

section Controller

/-- The publication of a cycle's outputs; `processed` is the revision of the watermark read last. -/
def publishTxn (fence : ControllerCommitFence) (externalView pendingTransitions : Value)
    (pendingRevision processed : Option Revision) : EtcdTxn where
  compares := [.value .active (.text fence.controllerId), .lease .active fence.leaseId,
    revisionCompare (.metadata processedOutputKey) processed,
    revisionCompare .queue pendingRevision, .modRevision .marker fence.observedRevision] ++
    fence.liveSessions.toList.map fun item ↦ liveCompare item.1 item.2
  operations := [.put (.metadata externalOutputKey) externalView 0,
    .put .queue pendingTransitions 0,
    .put (.metadata processedOutputKey) (.text (toString fence.observedRevision)) 0]

def recordLeaseExpiryTxn (authority : ControllerAuthority) (marker : Option Revision) : EtcdTxn :=
  ⟨authority.compares ++ [revisionCompare .marker marker], [authoritativeInputMarkerOperation]⟩

end Controller

section Session

variable (i : InstanceId) (session : SessionId)

def stateOperations (resource : ResourceId) (states : BTreeMap PartitionId State) : List EtcdOp :=
  states.toList.map fun item ↦
    .put (.currentState i session resource item.1) (.text item.2.asStr) 0

def publishCurrentStateTxn (resource : ResourceId) (states : BTreeMap PartitionId State) :
    EtcdTxn :=
  ⟨[liveCompare i session],
    stateOperations i session resource states ++ [authoritativeInputMarkerOperation]⟩

def injectSessionCurrentStateTxn (resource : ResourceId) (states : BTreeMap PartitionId State) :
    EtcdTxn :=
  ⟨[], stateOperations i session resource states ++ [authoritativeInputMarkerOperation]⟩

/-- Registration creates the live record and the session with the states it takes over. -/
def registerTxn (lease : ℕ) (carried : List (ResourceId × PartitionId × State)) : EtcdTxn where
  compares := [.version (.live i) 0]
  operations := [.put (.live i) (.text (sessionText session)) lease,
    .put (.session i session) (.text "active") 0] ++
    (carried.map fun item ↦ .put (.currentState i session item.1 item.2.1)
      (.text item.2.2.asStr) 0) ++ [authoritativeInputMarkerOperation]

def revokeLiveTxn : EtcdTxn :=
  ⟨[liveCompare i session], [.delete (.live i), authoritativeInputMarkerOperation]⟩

def removeCurrentStatesTxn (keys : List Key) : EtcdTxn :=
  ⟨[], keys.map Op.delete ++ [authoritativeInputMarkerOperation]⟩

def allocateSessionTxn (old : Option Revision) (next : ℕ) : EtcdTxn :=
  ⟨[revisionCompare .sequence old], [.put .sequence (.text (toString next)) 0]⟩

end Session

section Messages

/-- A claim changes nothing; it holds the queue and the session to one instant. -/
def claimTxn (i : InstanceId) (session : SessionId) (queueRevision : Revision)
    (queueValue : Value) : EtcdTxn :=
  ⟨[liveCompare i session, .modRevision .queue queueRevision, .value .queue queueValue], []⟩

def completionOperation (i : InstanceId) (session : SessionId) (resource : ResourceId)
    (partition : PartitionId) : Option State → EtcdOp
  | some state => .put (.currentState i session resource partition) (.text state.asStr) 0
  | none => .delete (.currentState i session resource partition)

def completeTxn (fence : ParticipantCompletionFence) (resource : ResourceId)
    (partition : PartitionId) (resultingState : Option State) (queueValue : Value) : EtcdTxn where
  compares := [liveCompare fence.instance_ fence.sessionId, .modRevision .queue fence.queueRevision]
  operations := [completionOperation fence.instance_ fence.sessionId resource partition
    resultingState, .put .queue queueValue 0, authoritativeInputMarkerOperation]

end Messages

section Election

variable (controller : String) (lease : ℕ)

def candidateTxn : EtcdTxn :=
  ⟨[.version (.candidate controller) 0], [.put (.candidate controller) (.text controller) lease]⟩

def activeTxn (createRevision : Revision) : EtcdTxn :=
  ⟨[.version .active 0, .createRevision (.candidate controller) createRevision,
    .lease (.candidate controller) lease], [.put .active (.text controller) lease]⟩

/-- Used for the candidate and the active record only. -/
def deleteOwnedElectionKeyTxn (key : Key) : EtcdTxn := ⟨[.lease key lease], [.delete key]⟩

end Election

end Clustodian
