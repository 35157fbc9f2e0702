import Clustodian.Model.Documents

namespace Clustodian

abbrev Revision := ℕ

structure MetadataEntry where
  value : Option Value
  revision : Revision
  deriving DecidableEq

structure ActiveCurrentState where
  sessionId : SessionId
  resources : BTreeMap ResourceId CurrentState
  deriving DecidableEq

/-- Live sessions and the states recorded under them; an instance reports only for itself. -/
structure ParticipantSessionSnapshot where
  liveInstances : BTreeMap InstanceId SessionId
  activeCurrentState : BTreeMap InstanceId ActiveCurrentState
  sessions : ∀ i : InstanceId,
    (activeCurrentState[i]?).map ActiveCurrentState.sessionId = liveInstances[i]?
  own : ∀ (i : InstanceId) (active : ActiveCurrentState), activeCurrentState[i]? = some active →
    ∀ (r : ResourceId) (current : CurrentState), active.resources[r]? = some current →
    ∀ p j, (current.state p j).isSome → j = i

structure ControllerElectionSnapshot where
  active : Option (String × ℕ)
  candidates : BTreeMap String ℕ
  deriving DecidableEq

/-- One read of the namespace, as the controller runtime uses it. -/
structure CoordinationSnapshot where
  revision : Revision
  authoritativeRevision : Revision
  metadata : BTreeMap String MetadataEntry
  participants : ParticipantSessionSnapshot
  controllerElection : ControllerElectionSnapshot

namespace CoordinationSnapshot

def withAuthoritativeRevision (snapshot : CoordinationSnapshot) (revision : Revision) :
    CoordinationSnapshot := { snapshot with authoritativeRevision := revision }

def live (snapshot : CoordinationSnapshot) (i : InstanceId) : Option SessionId :=
  snapshot.participants.liveInstances[i]?

/-- What an instance reports under its live session. -/
def reported (snapshot : CoordinationSnapshot) (r : ResourceId) (p : PartitionId)
    (i : InstanceId) : Option State :=
  ((snapshot.participants.activeCurrentState[i]?).bind (·.resources[r]?)).bind (·.state p i)

theorem active_iff_live {snapshot : CoordinationSnapshot} {i : InstanceId} :
    (snapshot.participants.activeCurrentState[i]?).isSome ↔ (snapshot.live i).isSome := by
  rw [live, ← snapshot.participants.sessions i, Option.isSome_map]

theorem reported_live {snapshot : CoordinationSnapshot} {r : ResourceId} {p : PartitionId}
    {i : InstanceId} {s : State} (h : snapshot.reported r p i = some s) :
    (snapshot.live i).isSome := by
  rw [← active_iff_live]
  unfold reported at h
  cases found : snapshot.participants.activeCurrentState[i]? with
  | none => simp [found] at h
  | some active => rfl

end CoordinationSnapshot

end Clustodian
