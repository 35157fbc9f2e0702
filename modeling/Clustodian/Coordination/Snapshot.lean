import Clustodian.Coordination.Keys

namespace Clustodian

open RevisionStore

abbrev EtcdStore := Store Key Value

inductive CoordinationError
  | etcd
  | invalidCluster
  | invalidKey
  | invalidValue
  | invalidRevision (value : ℤ)
  | missingRevision
  | invalidSession
  | unknownSession (session : SessionId)
  | registrationLost
  | contention
  | staleSession (instance_ : InstanceId)
  | duplicateMessage (message : String)
  | staleController
  | staleRevision
  | instanceStillLive (instance_ : InstanceId)
  | resourceDeletionDisabled
  deriving DecidableEq

namespace CoordinationError

/-- Whether retrying the operation may succeed after the backend returns. -/
def isTransient : CoordinationError → Bool
  | .etcd => true
  | _ => false

def message : CoordinationError → String
  | .etcd => "etcd request failed"
  | .invalidCluster => "coordination cluster must not be empty"
  | .invalidKey => "coordination key is invalid"
  | .invalidValue => "coordination value is invalid UTF-8"
  | .invalidRevision value => "invalid revision " ++ toString value
  | .missingRevision => "etcd response did not include a revision"
  | .invalidSession => "invalid persisted session identifier"
  | .unknownSession session => "unknown session SessionId(" ++ toString session ++ ")"
  | .registrationLost => "participant registration lost the race"
  | .contention => "coordination CAS contention exceeded retry bound"
  | .staleSession i => "session is not live for " ++ i.asStr
  | .duplicateMessage id => "duplicate message: " ++ id
  | .staleController => "controller authority is no longer current"
  | .staleRevision => "controller input revision is stale"
  | .instanceStillLive i => "instance is still live: " ++ i.asStr
  | .resourceDeletionDisabled => "resource deletion is disabled"

end CoordinationError

/-- The Unicode `White_Space` characters, which `trim` removes. -/
def isWhitespace (c : Char) : Bool :=
  let n := c.toNat
  (9 ≤ n && n ≤ 13) || n == 32 || n == 133 || n == 160 || n == 5760 || (8192 ≤ n && n ≤ 8202) ||
    n == 8232 || n == 8233 || n == 8239 || n == 8287 || n == 12288

def isBlank (text : String) : Bool := text.toList.all isWhitespace

def parseSequence (value : Value) : Except CoordinationError ℕ :=
  match value with
  | .text text => match parseU64 text with
    | some sequence => if 0 < sequence then .ok sequence else .error .invalidSession
    | none => .error .invalidSession
  | _ => .error .invalidSession

def parseSession (value : Value) : Except CoordinationError SessionId := parseSequence value

def parseState (value : Value) : Except CoordinationError State :=
  match value with
  | .text text => match Name.new .ofState text with
    | .ok state => .ok state
    | .error _ => .error .invalidValue
  | _ => .error .invalidValue

/-- Live sessions and state records by instance and session, as a scan of the keys finds them. -/
structure ParticipantRecords where
  live : BTreeMap InstanceId SessionId
  states : BTreeMap (InstanceId ×ₗ SessionId) (BTreeMap ResourceId (BTreeMap PartitionId State))

def addRecord (records : ParticipantRecords) (item : Key × Value) :
    Except CoordinationError ParticipantRecords :=
  match item.1 with
  | .live i => do
    let session ← parseSession item.2
    return { records with live := records.live.insert i session }
  | .currentState i ticket resource partition => do
    let session ← parseSession (.text (sessionText ticket))
    let state ← parseState item.2
    let resources := (records.states[toLex (i, session)]?).getD ∅
    let partitions := (resources[resource]?).getD ∅
    return ⟨records.live, records.states.insert (toLex (i, session))
      (resources.insert resource (partitions.insert partition state))⟩
  | _ => return records

/-- One replica a partition, so `set_state` rejects nothing. -/
def ownStates (i : InstanceId) (partitions : BTreeMap PartitionId State) : CurrentState where
  entries := partitions.map fun _ state ↦ (∅ : InstanceStates).insert i state
  occupied := by
    intro partition instances h
    rw [Std.ExtTreeMap.getElem?_map, Option.map_eq_some_iff] at h
    obtain ⟨state, -, rfl⟩ := h
    intro empty
    have := congrArg (·[i]?) empty
    simp at this

namespace ParticipantRecords

def stateAt (records : ParticipantRecords) (i : InstanceId) (session : SessionId) (r : ResourceId)
    (p : PartitionId) : Option State :=
  ((records.states[toLex (i, session)]?).bind (·[r]?)).bind (·[p]?)

theorem state_ownStates {i j : InstanceId} {partitions : BTreeMap PartitionId State}
    {p : PartitionId} :
    (ownStates i partitions).state p j = if j = i then partitions[p]? else none := by
  rw [ReplicaStates.state, ownStates, Std.ExtTreeMap.getElem?_map]
  cases partitions[p]? with
  | none => simp
  | some state => simp [OrderedMap.getElem?_insert]

/-- The active view: the records of the live sessions. -/
def toSnapshot (records : ParticipantRecords) : ParticipantSessionSnapshot where
  liveInstances := records.live
  activeCurrentState := records.live.map fun i session ↦
    ⟨session, ((records.states[toLex (i, session)]?).getD ∅).map fun _ partitions ↦
      ownStates i partitions⟩
  sessions := by
    intro i
    rw [Std.ExtTreeMap.getElem?_map, Option.map_map]
    exact Option.map_id'
  own := by
    intro i active hactive r current hcurrent p j hj
    rw [Std.ExtTreeMap.getElem?_map, Option.map_eq_some_iff] at hactive
    obtain ⟨session, -, rfl⟩ := hactive
    rw [Std.ExtTreeMap.getElem?_map, Option.map_eq_some_iff] at hcurrent
    obtain ⟨partitions, -, rfl⟩ := hcurrent
    rw [state_ownStates] at hj
    by_contra differs
    rw [if_neg differs] at hj
    cases hj

end ParticipantRecords

/-- The values below a store's keys, without their revisions. -/
def values (s : EtcdStore) : BTreeMap Key Value := s.entries.map fun _ entry ↦ entry.value

def participantSnapshotFromKvs (s : EtcdStore) :
    Except CoordinationError ParticipantSessionSnapshot := do
  let records ← (values s).toList.foldlM addRecord ⟨∅, ∅⟩
  return records.toSnapshot

def addMetadata (metadata : BTreeMap String MetadataEntry) (item : Key × Entry Value) :
    BTreeMap String MetadataEntry :=
  match item.1 with
  | .metadata name => metadata.insert name ⟨some item.2.value, item.2.modRevision⟩
  | _ => metadata

def metadataFromSnapshot (s : EtcdStore) : BTreeMap String MetadataEntry :=
  s.entries.toList.foldl addMetadata ∅

def addElectionRecord (election : ControllerElectionSnapshot) (item : Key × Entry Value) :
    Except CoordinationError ControllerElectionSnapshot :=
  match item.1, item.2.value with
  | .active, .text controller =>
    if isBlank controller ∨ item.2.lease = 0 then .error .invalidValue
    else .ok { election with active := some (controller, item.2.lease) }
  | .active, _ => .error .invalidValue
  | .candidate controller, _ =>
    if isBlank controller ∨ item.2.lease = 0 then .error .invalidValue
    else .ok { election with candidates := election.candidates.insert controller item.2.lease }
  | _, _ => .ok election

def controllerElectionFromKvs (s : EtcdStore) :
    Except CoordinationError ControllerElectionSnapshot :=
  s.entries.toList.foldlM addElectionRecord ⟨none, ∅⟩

/-- The newest revision of a counted key so far. -/
def addCounted (newest : Option Revision) (item : Key × Entry Value) : Option Revision :=
  if item.1.counted then some (newest.elim item.2.modRevision (max item.2.modRevision ·))
  else newest

/-- The newest revision of a counted key, or the snapshot's own if there is none. -/
def authoritativeRevision (s : EtcdStore) : Revision :=
  (s.entries.toList.foldl addCounted none).getD s.revision

def controllerSnapshotFromKvs (s : EtcdStore) : Except CoordinationError CoordinationSnapshot := do
  let participants ← participantSnapshotFromKvs s
  let election ← controllerElectionFromKvs s
  return ⟨s.revision, authoritativeRevision s, metadataFromSnapshot s, participants, election⟩

end Clustodian
