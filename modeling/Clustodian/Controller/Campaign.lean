import Clustodian.Coordination.Operations

namespace Clustodian

open RevisionStore

/-- What a wait of the campaign ends with: its period, a cancellation, or the loss of the lease. -/
inductive CampaignSignal
  | proceed
  | shutdown
  | lost
  deriving DecidableEq

/-- Where a campaign is: without a lease, with one to register, or registered. -/
inductive CampaignPhase
  | grant
  | register (lease : ℕ)
  | campaign (lease : ℕ)
  deriving DecidableEq

/-- The result of a campaign; `pending` is one that goes on. -/
inductive Acquisition
  | leadership (authority : ControllerAuthority)
  | cancelled
  | leaseExpired
  | pending

inductive CampaignRound
  | elected
  | waiting
  | leaseExpired
  deriving DecidableEq

section Campaign

def relinquishConfirmAttempts : ℕ := 200

def registerCandidate (controller : String) (lease : ℕ) : Client Bool := do
  let response ← send (candidateTxn controller lease)
  return response.1

def becomeActive (controller : String) (lease : ℕ) (createRevision : Revision) : Client Bool := do
  let response ← send (activeTxn controller lease createRevision)
  return response.1

/-- A candidate that was registered earlier. -/
def hasPredecessor (s : EtcdStore) (createRevision : Revision) : Bool :=
  s.entries.toList.any fun item ↦ match item.1 with
    | .candidate _ => item.2.createRevision < createRevision
    | _ => false

/-- One turn of the campaign loop. -/
def campaignRound (controller : String) (lease : ℕ) : Client CampaignRound := do
  let s ← get
  match s.entry (.candidate controller) with
  | none => return .leaseExpired
  | some candidate =>
    if hasPredecessor s candidate.createRevision then return .waiting
    else do
      if ← becomeActive controller lease candidate.createRevision then return .elected
      else return .waiting

/-- Give the lease back, whether or not that succeeds. -/
def abandon (lease : ℕ) (result : Acquisition) : Client Acquisition := do
  let _ ← (Prog.revokeLease .etcd lease : Client Unit).attempt
  return result

/-- `acquire_until`; every wait takes the next signal. -/
def acquireUntil (controller : String) : CampaignPhase → List CampaignSignal → Client Acquisition
  | _, [] => return .pending
  | .grant, signal :: signals => do
    match ← (Prog.grantLease .etcd : Client ℕ).attempt with
    | .ok lease =>
      if signal = .shutdown then return .cancelled
      else acquireUntil controller (.register lease) signals
    | .error error =>
      if !error.isTransient then Prog.fail error
      else if signal = .shutdown then return .cancelled
      else acquireUntil controller .grant signals
  | .register lease, signal :: signals => do
    let registered ← (registerCandidate controller lease).attempt
    if signal = .shutdown then abandon lease .cancelled
    else match registered with
      | .ok true => acquireUntil controller (.campaign lease) signals
      | .ok false => do
        let _ ← (Prog.revokeLease .etcd lease : Client Unit).attempt
        acquireUntil controller .grant signals
      | .error error =>
        if error.isTransient then acquireUntil controller (.register lease) signals
        else Prog.fail error
  | .campaign lease, signal :: signals =>
    if signal = .lost then return .leaseExpired
    else do
      match ← (campaignRound controller lease).attempt with
      | .ok .elected => return .leadership ⟨controller, lease⟩
      | .ok .leaseExpired => return .leaseExpired
      | .ok .waiting =>
        if signal = .shutdown then do
          Prog.revokeLease .etcd lease
          return .cancelled
        else acquireUntil controller (.campaign lease) signals
      | .error error =>
        if !error.isTransient then Prog.fail error
        else if signal = .shutdown then abandon lease .cancelled
        else acquireUntil controller (.campaign lease) signals

def deleteOwnedElectionKey (authority : ControllerAuthority) (key : Key) : Client Unit := do
  let _ ← send (deleteOwnedElectionKeyTxn authority.leaseId key)

def ownedRecordRemains (authority : ControllerAuthority) (s : EtcdStore) (key : Key) : Bool :=
  (s.entry key).any (·.lease = authority.leaseId)

/-- One look at both records. -/
def recordsReleased (authority : ControllerAuthority) : Client (Option Unit) := do
  let first ← get
  let second ← get
  if ownedRecordRemains authority first (.candidate authority.controllerId) ||
    ownedRecordRemains authority second .active then return none
  else return some ()

/-- Relinquish this exact election lease. -/
def relinquish (authority : ControllerAuthority) : Client Unit := do
  let _ ← (deleteOwnedElectionKey authority (.candidate authority.controllerId)).attempt
  let _ ← (deleteOwnedElectionKey authority .active).attempt
  Prog.revokeLease .etcd authority.leaseId
  Prog.retry .contention (recordsReleased authority) relinquishConfirmAttempts

end Campaign

end Clustodian
