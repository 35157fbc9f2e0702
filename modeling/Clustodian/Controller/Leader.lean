import Clustodian.Coordination.Operations

namespace Clustodian

open RevisionStore

namespace ControllerRuntimeError

def coordination (error : CoordinationError) : ControllerRuntimeError :=
  ⟨error.message, error.isTransient⟩

def isLeadershipLoss (error : ControllerRuntimeError) : Bool :=
  error.message = CoordinationError.staleController.message ∨
    error.message = CoordinationError.staleRevision.message

end ControllerRuntimeError

structure ControllerState where
  pending : List PublishedTransition
  knownSessions : BTreeMap InstanceId SessionId
  authoritativeRevision : Revision

namespace ControllerState

def fromSnapshot (snapshot : CoordinationSnapshot) :
    Except ControllerRuntimeError ControllerState := do
  let pending ← readPending snapshot
  return ⟨pending, snapshot.participants.liveInstances, snapshot.authoritativeRevision⟩

def observeInputRevision (state : ControllerState) (revision : Revision) : ControllerState :=
  { state with authoritativeRevision := max state.authoritativeRevision revision }

def modeFor (state : ControllerState) (snapshot : CoordinationSnapshot) : ReconcileMode :=
  if snapshot.participants.liveInstances.toList.any fun item ↦
    (state.knownSessions[item.1]?).any (· ≠ item.2) then .sessionReplacement
  else .normal

def rememberSessions (state : ControllerState) (snapshot : CoordinationSnapshot) :
    ControllerState :=
  let knownSessions := snapshot.participants.liveInstances.toList.foldl
    (fun sessions item ↦ sessions.insert item.1 item.2) state.knownSessions
  ⟨state.pending, knownSessions, state.authoritativeRevision⟩

end ControllerState

/-- The published text of an external view. -/
def externalViewJson (view : ExternalView) : Value :=
  .externalView (view.toList.foldl (fun output item ↦ output.insert item.1.asStr
    (item.2.toList.foldl (fun partitions item ↦ partitions.insert item.1.asStr
      (item.2.toList.foldl (fun replicas item ↦ replicas.insert item.1.asStr item.2.asStr) ∅)) ∅)) ∅)

def outputsMatch (snapshot : CoordinationSnapshot) (externalView pendingTransitions : Value) :
    Bool :=
  metadataValue snapshot externalOutputKey = some externalView ∧
    metadataValue snapshot pendingOutputKey = some pendingTransitions ∧
    (metadataValue snapshot processedOutputKey).any fun value ↦ match value with
      | .text text => (parseI64 text).any ((snapshot.authoritativeRevision : ℤ) ≤ ·)
      | _ => false

section Reconcile

variable (crush : Crush) (authority : ControllerAuthority)

/-- What a reconciliation ends with: its result and the pending list, which a retry starts from. -/
abbrev Reconciled := Except ControllerRuntimeError Unit × List PublishedTransition

/-- Plan again from a snapshot read in between. -/
def replan (pending : List PublishedTransition)
    (again : CoordinationSnapshot → List PublishedTransition → Client Reconciled)
    (current : CoordinationSnapshot) : Client Reconciled :=
  match readPending current with
  | .error error => return (.error error, pending)
  | .ok pending => again current pending

/-- Read the namespace and go on, or end with the error. -/
def withSnapshot (pending : List PublishedTransition)
    (next : CoordinationSnapshot → Client Reconciled) : Client Reconciled := do
  match ← controllerSnapshot.attempt with
  | .error error => return (.error (.coordination error), pending)
  | .ok current => next current

/-- After a publication: plan again if the input has moved on, or else be done. -/
def conclude (snapshot : CoordinationSnapshot) (pending nextPending : List PublishedTransition)
    (again : CoordinationSnapshot → List PublishedTransition → Client Reconciled)
    (current : CoordinationSnapshot) : Client Reconciled :=
  if snapshot.authoritativeRevision < current.authoritativeRevision then
    replan pending again current
  else return (.ok (), nextPending)

/-- The loop of `reconcile`, cut off after some rounds: every finite run of the loop is a run with
enough of them. -/
def reconcile (mode : ReconcileMode) : ℕ → CoordinationSnapshot → List PublishedTransition →
    Client Reconciled
  | 0, _, pending => return (.error (.ofMessage "still running"), pending)
  | rounds + 1, snapshot, pending =>
    match computeOutputsWithPendingPolicy crush snapshot pending mode with
    | .error error => return (.error error, pending)
    | .ok (externalView, nextPending) =>
      let externalJson := externalViewJson externalView
      let pendingJson := Value.ofTransitions .published nextPending
      withSnapshot pending fun current ↦
        if snapshot.authoritativeRevision < current.authoritativeRevision then
          replan pending (reconcile mode rounds) current
        else
          let pendingRevision := (snapshot.metadata[pendingOutputKey]?).map (·.revision)
          if outputsMatch snapshot externalJson pendingJson then return (.ok (), nextPending)
          else do
            let fence := authority.commitFence snapshot.authoritativeRevision
              snapshot.participants.liveInstances
            match ← (publishControllerOutputsWithFence (.cycle mode snapshot pending) fence
              externalJson pendingJson pendingRevision).attempt with
            | .error .staleRevision => withSnapshot pending (replan pending (reconcile mode rounds))
            | .error error => return (.error (.coordination error), pending)
            | .ok _ =>
              withSnapshot pending (conclude snapshot pending nextPending (reconcile mode rounds))

/-- The first cycle of a leader: transient errors are retried with the snapshot it began with and
the pending list the failed attempt left behind. -/
def startup (rounds : ℕ) : ℕ → CoordinationSnapshot → List PublishedTransition →
    Client (Option (List PublishedTransition))
  | 0, _, _ => return none
  | attempts + 1, snapshot, pending => do
    match ← reconcile crush authority .startup rounds snapshot pending with
    | (.ok (), pending) => return some pending
    | (.error error, pending) =>
      if error.isLeadershipLoss then return none
      else if error.transient then startup rounds attempts snapshot pending
      else return none

/-- Later cycles take the pending list from their snapshot. -/
def reconcileCurrentSnapshot (rounds : ℕ) (snapshot : CoordinationSnapshot)
    (state : ControllerState) : Client (Except ControllerRuntimeError Unit × ControllerState) := do
  let state := state.observeInputRevision snapshot.authoritativeRevision
  let snapshot := snapshot.withAuthoritativeRevision state.authoritativeRevision
  match readPending snapshot with
  | .error error => return (.error error, state)
  | .ok pending => do
    let mode := state.modeFor snapshot
    match ← reconcile crush authority mode rounds snapshot pending with
    | (.error error, pending) => return (.error error, { state with pending := pending })
    | (.ok (), pending) =>
      return (.ok (), ({ state with pending := pending } : ControllerState).rememberSessions
        snapshot)

def reconcileUntilDone (rounds : ℕ) : ℕ → CoordinationSnapshot → ControllerState →
    Client (Option ControllerState)
  | 0, _, _ => return none
  | attempts + 1, snapshot, state => do
    match ← reconcileCurrentSnapshot crush authority rounds snapshot state with
    | (.ok (), state) => return some state
    | (.error error, state) =>
      if error.isLeadershipLoss then return none
      else if error.transient then reconcileUntilDone rounds attempts snapshot state
      else return none

/-- What wakes a leader up: its timer, a watch event, or a compacted watch. -/
inductive LeaderInput
  | tick
  | event (revision : Revision) (leaseBackedDelete : Bool)
  | compacted

/-- Retry while the backend is away. -/
def retryCoordination {α : Type} (operation : Client α) : ℕ → Client (Option α)
  | 0 => return none
  | attempts + 1 => do
    match ← operation.attempt with
    | .ok value => return some value
    | .error error => if error.isTransient then retryCoordination operation attempts else return none

def reconcileFrom (rounds : ℕ) (state : ControllerState)
    (observe : CoordinationSnapshot → ControllerState → ControllerState) :
    Client (Option ControllerState) := do
  match ← retryCoordination controllerSnapshot rounds with
  | none => return none
  | some snapshot =>
    reconcileUntilDone crush authority rounds rounds snapshot (observe snapshot state)

/-- A deletion that comes with a lease moves the marker first. -/
def expiryRecorded (rounds : ℕ) (revision : Revision) (leaseBackedDelete : Bool) : Client Bool :=
  if leaseBackedDelete then do
    let result ← retryCoordination (recordLeaseExpiry authority revision) rounds
    return result.isSome
  else return true

/-- One turn of the leader's loop. An event is delivered after its revision was reached. -/
def leaderTurn (rounds : ℕ) (state : ControllerState) :
    LeaderInput → Client (Option ControllerState)
  | .tick => reconcileFrom crush authority rounds state fun _ state ↦ state
  | .event revision leaseBackedDelete => do
    let s ← get
    if s.revision < revision then return some state
    else do
      if ← expiryRecorded authority rounds revision leaseBackedDelete then
        reconcileFrom crush authority rounds (state.observeInputRevision revision)
          fun _ state ↦ state
      else return none
  | .compacted => reconcileFrom crush authority rounds state
      fun snapshot state ↦ state.observeInputRevision snapshot.revision

def leaderLoop (rounds : ℕ) : List LeaderInput → ControllerState → Client Unit
  | [], _ => return ()
  | input :: inputs, state => do
    match ← leaderTurn crush authority rounds state input with
    | none => return ()
    | some state => leaderLoop rounds inputs state

def runAsLeader (rounds : ℕ) (inputs : List LeaderInput) : Client Unit := do
  match ← retryCoordination controllerSnapshot rounds with
  | none => return ()
  | some snapshot => match ControllerState.fromSnapshot snapshot with
    | .error _ => return ()
    | .ok state => do
      let snapshot := snapshot.withAuthoritativeRevision state.authoritativeRevision
      match ← startup crush authority rounds rounds snapshot state.pending with
      | none => return ()
      | some pending => leaderLoop crush authority rounds inputs { state with pending := pending }

end Reconcile

end Clustodian
