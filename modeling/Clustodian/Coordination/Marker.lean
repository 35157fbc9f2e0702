import Clustodian.Controller.Campaign
import Clustodian.Controller.Leader

namespace Clustodian

open RevisionStore

/-- A metadata key of a caller; the marker is written by the operations only. -/
abbrev MetadataName := {key : String // key ≠ authoritativeInputMarker}

/-- The write operations on a namespace. -/
inductive Operation
  | connect
  | putMetadata (key : MetadataName) (value : Value) (lease : ℕ)
  | compareAndPut (key : MetadataName) (expected : Revision) (value : Value)
  | compareAndPutIfLiveAbsent (key : MetadataName) (expected : Revision) (i : InstanceId)
      (value : Value)
  | compareAndDelete (key : MetadataName) (expected : Revision)
  | putIfAbsent (key : MetadataName) (value : Value)
  | putControllerOwned (authority : ControllerAuthority) (key : MetadataName) (value : Value)
  | advanceMetadataRevision (key : MetadataName) (revision : Revision)
  | register (i : InstanceId) (options : RegistrationOptions)
  | publishCurrentState (i : InstanceId) (session : SessionId) (resource : ResourceId)
      (states : BTreeMap PartitionId State)
  | injectSessionCurrentState (i : InstanceId) (session : SessionId) (resource : ResourceId)
      (states : BTreeMap PartitionId State)
  | revokeLive (i : InstanceId) (session : SessionId)
  | revokeSession (lease : ℕ)
  | removeCurrentStates (resource : ResourceId)
  | inject (message : TransitionMessage)
  | claim (i : InstanceId) (session : SessionId) (message : TransitionMessage)
  | complete (i : InstanceId) (session : SessionId) (expected : Revision)
      (message : TransitionMessage) (resultingState : Option State)
  | removePending (expected : Revision) (messageId : String)
  | removePendingForResource (resource : ResourceId)
  | publish (authority : ControllerAuthority) (externalView pendingTransitions : Value)
      (processedRevision : Revision) (pendingRevision : Option Revision)
  | lead (crush : Crush) (authority : ControllerAuthority) (rounds : ℕ)
      (inputs : List LeaderInput)
  | recordLeaseExpiry (authority : ControllerAuthority) (eventRevision : Revision)
  | acquire (controller : String) (signals : List CampaignSignal)
  | relinquish (authority : ControllerAuthority)
  | ensureCluster (own cluster : String)
  | putInstance (spec : InstanceSpec)
  | removeInstance (instanceId : String)
  | putResource (spec : ResourceSpec)
  | putThrottles (throttles : List ThrottleRecord)

inductive Reply
  | done
  | revision (value : Revision)
  | flag (value : Bool)
  | cas (result : CasResult)
  | claim (result : TransitionClaim)
  | completion (result : CompletionResult)
  | session (session : EtcdParticipantSession)
  | acquisition (result : Acquisition)

namespace Operation

def program : Operation → Client Reply
  | .connect => do
    initializeAuthoritativeInputMarker
    return .done
  | .putMetadata key value lease => do return .revision (← put key value lease)
  | .compareAndPut key expected value => do
    return .cas (← Clustodian.compareAndPut key expected value)
  | .compareAndPutIfLiveAbsent key expected i value => do
    return .cas (← Clustodian.compareAndPutIfLiveAbsent key expected i value)
  | .compareAndDelete key expected => do
    return .cas (← Clustodian.compareAndDelete key expected)
  | .putIfAbsent key value => do return .flag (← compareAndPutAbsent key value)
  | .putControllerOwned authority key value => do
    return .revision (← Clustodian.putControllerOwned authority key value)
  | .advanceMetadataRevision key revision => do
    return .revision (← Clustodian.advanceMetadataRevision key revision)
  | .register i options => do return .session (← Clustodian.register i options)
  | .publishCurrentState i session resource states => do
    return .revision (← Clustodian.publishCurrentState i session resource states)
  | .injectSessionCurrentState i session resource states => do
    Clustodian.injectSessionCurrentState i session resource states
    return .done
  | .revokeLive i session => do return .revision (← Clustodian.revokeLive i session)
  | .revokeSession lease => do
    Clustodian.revokeSession lease
    return .done
  | .removeCurrentStates resource => do
    return .revision (← removeCurrentStatesForResource resource)
  | .inject message => do return .revision (← injectPendingTransition message)
  | .claim i session message => do return .claim (← claimPendingTransition i session message)
  | .complete i session expected message resultingState => do
    return .completion (← completePendingTransition i session expected message resultingState)
  | .removePending expected messageId => do
    return .flag (← removePendingTransition expected messageId)
  | .removePendingForResource resource => do
    removePendingTransitionsForResource resource
    return .done
  | .publish authority externalView pendingTransitions processedRevision pendingRevision => do
    return .revision (← publishControllerOutputs authority externalView pendingTransitions
      processedRevision pendingRevision)
  | .lead crush authority rounds inputs => do
    runAsLeader crush authority rounds inputs
    return .done
  | .recordLeaseExpiry authority eventRevision => do
    return .revision (← Clustodian.recordLeaseExpiry authority eventRevision)
  | .acquire controller signals => do
    return .acquisition (← acquireUntil controller .grant signals)
  | .relinquish authority => do
    Clustodian.relinquish authority
    return .done
  | .ensureCluster own cluster => do
    Clustodian.ensureCluster own cluster
    return .done
  | .putInstance spec => do
    Clustodian.putInstance spec
    return .done
  | .removeInstance instanceId => do
    Clustodian.removeInstance instanceId
    return .done
  | .putResource spec => do
    Clustodian.putResource spec
    return .done
  | .putThrottles throttles => do
    Clustodian.putThrottles throttles
    return .done

end Operation

/-- Whoever changes a key the controller counts writes the marker with it, and the marker is never
deleted or bound to a lease. -/
structure Marked (txn : EtcdTxn) : Prop where
  marker : ∀ op ∈ txn.operations, op.key.counted = true →
    authoritativeInputMarkerOperation ∈ txn.operations
  only : ∀ op ∈ txn.operations, op.key = Key.marker → op = authoritativeInputMarkerOperation

def Key.isElection : Key → Bool
  | .active => true
  | .candidate _ => true
  | _ => false

/-- What everybody but a campaign sends: marked, and apart from the election records. -/
structure Ordinary (txn : EtcdTxn) : Prop extends Marked txn where
  apart : ∀ op ∈ txn.operations, op.key.isElection = false

/-- What an elected controller sends: its election record is among the conditions. -/
structure Owned (authority : ControllerAuthority) (txn : EtcdTxn) : Prop extends Ordinary txn where
  fenced : ∀ c ∈ authority.compares, c ∈ txn.compares

section Transactions

theorem key_marker : authoritativeInputMarkerOperation.key = Key.marker := rfl

/-- A transaction that always writes the marker, and touches it only there. -/
theorem ordinary_of_mem {txn : EtcdTxn} (mem : authoritativeInputMarkerOperation ∈ txn.operations)
    (others : ∀ op ∈ txn.operations, op = authoritativeInputMarkerOperation ∨
      (op.key ≠ Key.marker ∧ op.key.isElection = false)) : Ordinary txn := by
  refine ⟨⟨fun _ _ _ ↦ mem, fun op hop same ↦ ?_⟩, fun op hop ↦ ?_⟩
  · exact (others op hop).resolve_right fun other ↦ other.1 same
  · rcases others op hop with rfl | other
    · rfl
    · exact other.2

theorem marked_of_uncounted {txn : EtcdTxn}
    (h : ∀ op ∈ txn.operations, op.key.counted = false) : Marked txn := by
  refine ⟨fun op mem counted ↦ ?_, fun op mem same ↦ ?_⟩
  · rw [h op mem] at counted
    cases counted
  · have clash := h op mem
    rw [same, Key.counted_marker] at clash
    cases clash

/-- A transaction on keys that are not counted need not write the marker. -/
theorem ordinary_of_uncounted {txn : EtcdTxn} (h : ∀ op ∈ txn.operations,
    op.key.counted = false ∧ op.key.isElection = false) : Ordinary txn :=
  ⟨marked_of_uncounted fun op mem ↦ (h op mem).1, fun op mem ↦ (h op mem).2⟩

theorem ordinary_metadata {key : String} (other : key ≠ authoritativeInputMarker) {op : EtcdOp}
    (hop : op.key = .metadata key) (compares : List EtcdCompare) :
    Ordinary ⟨compares, metadataOperations key op⟩ := by
  have notMarker : op.key ≠ Key.marker := by
    rw [hop, Key.marker, ne_eq, Key.metadata.injEq]
    exact other
  cases authoritative : isAuthoritativeMetadataKey key with
  | true =>
    refine ordinary_of_mem (by simp [metadataOperations, authoritative]) fun op' mem ↦ ?_
    simp only [metadataOperations, authoritative, if_true, List.mem_cons, List.not_mem_nil,
      or_false] at mem
    rcases mem with rfl | rfl
    · exact .inr ⟨notMarker, by rw [hop]; rfl⟩
    · exact .inl rfl
  | false =>
    refine ordinary_of_uncounted fun op' mem ↦ ?_
    simp only [metadataOperations, authoritative, Bool.false_eq_true, if_false, List.mem_cons,
      List.not_mem_nil, or_false] at mem
    rw [mem, hop, Key.counted_metadata, authoritative, Bool.false_or, beq_eq_false_iff_ne]
    exact ⟨other, rfl⟩

end Transactions

section Issues

open Prog

theorem issues_get {P : EtcdTxn → Prop} : get.Issues P := issues_query _

theorem issues_send {P : EtcdTxn → Prop} {request : EtcdTxn} (h : P request) :
    (send request).Issues P := issues_submit _ _ h

theorem issues_ofExcept {P : EtcdTxn → Prop} {α : Type} (x : Except CoordinationError α) :
    (ofExcept x : Client α).Issues P := trivial

theorem issues_getMetadata {P : EtcdTxn → Prop} (key : String) : (getMetadata key).Issues P :=
  issues_get.bind fun _ ↦ trivial

theorem issues_liveSessionOf {P : EtcdTxn → Prop} (i : InstanceId) :
    (liveSessionOf i).Issues P := by
  refine issues_get.bind fun s ↦ ?_
  split
  · trivial
  · exact (issues_ofExcept _).bind fun _ ↦ trivial

section Metadata

variable {key : String} (other : key ≠ authoritativeInputMarker) (value : Value)

include other

theorem issues_put (lease : ℕ) : (put key value lease).Issues Ordinary :=
  (issues_send (ordinary_metadata other rfl _)).bind fun _ ↦ trivial

theorem issues_compareAndPut (expected : Revision) :
    (compareAndPut key expected value).Issues Ordinary :=
  (issues_send (ordinary_metadata other rfl _)).bind fun _ ↦ trivial

theorem issues_compareAndPutIfLiveAbsent (expected : Revision) (i : InstanceId) :
    (compareAndPutIfLiveAbsent key expected i value).Issues Ordinary :=
  (issues_send (ordinary_metadata other rfl _)).bind fun _ ↦ trivial

theorem issues_compareAndDelete (expected : Revision) :
    (compareAndDelete key expected).Issues Ordinary :=
  (issues_send (ordinary_metadata other rfl _)).bind fun _ ↦ trivial

theorem issues_compareAndPutAbsent : (compareAndPutAbsent key value).Issues Ordinary :=
  (issues_send (ordinary_metadata other rfl _)).bind fun _ ↦ trivial

theorem issues_putControllerOwned (authority : ControllerAuthority) :
    (putControllerOwned authority key value).Issues (Owned authority) := by
  have owned : Owned authority (putControllerOwnedTxn key value authority) :=
    ⟨ordinary_metadata other rfl _, fun _ mem ↦ mem⟩
  refine (issues_send owned).bind fun response ↦ ?_
  split <;> trivial

theorem issues_advanceMetadataRevision (revision : Revision) :
    (advanceMetadataRevision key revision).Issues Ordinary := by
  refine issues_retry _ ((issues_getMetadata _).bind fun entry ↦ ?_) _
  split
  · refine (issues_compareAndPutAbsent other _).bind fun applied ↦ ?_
    split <;> trivial
  · refine (issues_ofExcept _).bind fun current ↦ ?_
    split
    · trivial
    · refine (issues_compareAndPut other _ _).bind fun result ↦ ?_
      split <;> trivial

end Metadata

theorem issues_initializeAuthoritativeInputMarker :
    initializeAuthoritativeInputMarker.Issues Ordinary := by
  have ordinary : Ordinary (compareAndPutAbsentTxn authoritativeInputMarker (.text "1")) := by
    have operations : (compareAndPutAbsentTxn authoritativeInputMarker (.text "1")).operations =
        [authoritativeInputMarkerOperation] := by decide
    refine ordinary_of_mem ?_ fun op mem ↦ ?_
    · rw [operations]
      exact List.mem_singleton_self _
    · rw [operations] at mem
      exact .inl (List.mem_singleton.mp mem)
  have sent : (compareAndPutAbsent authoritativeInputMarker (.text "1")).Issues Ordinary :=
    (issues_send ordinary).bind fun _ ↦ trivial
  exact sent.bind fun _ ↦ trivial

theorem queue_ne_marker : pendingOutputKey ≠ authoritativeInputMarker := by decide

section Queue

theorem issues_readQueue {P : EtcdTxn → Prop} : readQueue.Issues P := by
  refine (issues_getMetadata _).bind fun entry ↦ ?_
  split
  · exact (issues_ofExcept _).bind fun _ ↦ trivial
  · exact issues_get.bind fun _ ↦ (issues_ofExcept _).bind fun _ ↦ trivial

theorem issues_replaceQueue (expected : Revision) (present : Bool) (value : Value) :
    (replaceQueue expected present value).Issues Ordinary := by
  unfold replaceQueue
  split
  · exact (issues_compareAndPut queue_ne_marker _ _).bind fun _ ↦ trivial
  · exact issues_compareAndPutAbsent queue_ne_marker _

theorem issues_injectPendingTransition (message : TransitionMessage) :
    (injectPendingTransition message).Issues Ordinary := by
  unfold injectPendingTransition
  split
  · trivial
  · refine issues_retry _ (issues_readQueue.bind fun queue ↦ ?_) _
    split
    · trivial
    · refine (issues_replaceQueue _ _ _).bind fun applied ↦ ?_
      split
      · refine (issues_getMetadata _).bind fun entry ↦ ?_
        split <;> trivial
      · trivial

theorem ordinary_claimTxn (i : InstanceId) (session : SessionId) (revision : Revision)
    (value : Value) : Ordinary (claimTxn i session revision value) :=
  ordinary_of_uncounted fun _ mem ↦ nomatch mem

theorem issues_claimPendingTransition (i : InstanceId) (session : SessionId)
    (message : TransitionMessage) : (claimPendingTransition i session message).Issues Ordinary := by
  refine issues_retry _ ((issues_getMetadata _).bind fun entry ↦ ?_) _
  split
  · trivial
  · refine (issues_ofExcept _).bind fun messages ↦ ?_
    split
    · trivial
    · split
      · trivial
      · refine (issues_send (ordinary_claimTxn _ _ _ _)).bind fun response ↦ ?_
        split
        · trivial
        · refine (issues_liveSessionOf _).bind fun current ↦ ?_
          split <;> trivial

theorem ordinary_completeTxn (fence : ParticipantCompletionFence) (resource : ResourceId)
    (partition : PartitionId) (state : Option State) (value : Value) :
    Ordinary (completeTxn fence resource partition state value) := by
  refine ordinary_of_mem (by simp [completeTxn]) fun op mem ↦ ?_
  simp only [completeTxn, List.mem_cons, List.not_mem_nil, or_false] at mem
  rcases mem with rfl | rfl | rfl
  · cases state <;> exact .inr ⟨(fun same ↦ nomatch same), rfl⟩
  · have other : Key.queue ≠ Key.marker := by decide
    exact .inr ⟨other, rfl⟩
  · exact .inl rfl

theorem issues_completeAfterSessionLoss (fence : ParticipantCompletionFence) :
    (completeAfterSessionLoss fence).Issues Ordinary := by
  refine (issues_getMetadata _).bind fun entry ↦ ?_
  split
  · trivial
  · refine (issues_ofExcept _).bind fun current ↦ ?_
    dsimp only
    split
    · trivial
    · split
      · trivial
      · exact (issues_compareAndPut queue_ne_marker _ _).bind fun _ ↦ trivial

theorem issues_completePendingTransition (i : InstanceId) (session : SessionId)
    (expected : Revision) (message : TransitionMessage) (state : Option State) :
    (completePendingTransition i session expected message state).Issues Ordinary := by
  unfold completePendingTransition completePendingTransitionWithFence
  split
  · refine (issues_getMetadata _).bind fun entry ↦ ?_
    split
    · trivial
    · refine (issues_ofExcept _).bind fun messages ↦ ?_
      split
      · trivial
      · split
        · trivial
        · split
          · trivial
          · refine (issues_send (ordinary_completeTxn _ _ _ _ _)).bind fun response ↦ ?_
            split
            · trivial
            · refine (issues_liveSessionOf _).bind fun current ↦ ?_
              split
              · trivial
              · exact issues_completeAfterSessionLoss _
  · trivial

theorem issues_removePendingTransition (expected : Revision) (messageId : String) :
    (removePendingTransition expected messageId).Issues Ordinary := by
  refine (issues_getMetadata _).bind fun entry ↦ ?_
  split
  · trivial
  · refine (issues_ofExcept _).bind fun messages ↦ ?_
    dsimp only
    split
    · trivial
    · split
      · trivial
      · refine (issues_compareAndPut queue_ne_marker _ _).bind fun result ↦ ?_
        split <;> trivial

theorem issues_removePendingTransitionsForResource (resource : ResourceId) :
    (removePendingTransitionsForResource resource).Issues Ordinary := by
  refine issues_retry _ ((issues_getMetadata _).bind fun entry ↦ ?_) _
  split
  · trivial
  · refine (issues_ofExcept _).bind fun messages ↦ ?_
    dsimp only
    split
    · trivial
    · refine (issues_compareAndPut queue_ne_marker _ _).bind fun result ↦ ?_
      split <;> trivial

end Queue

section Publication

theorem issues_authorityMatches {P : EtcdTxn → Prop} (controllerId : String) (leaseId : ℕ) :
    (authorityMatches controllerId leaseId).Issues P := by
  refine issues_get.bind fun s ↦ ?_
  split <;> trivial

theorem issues_readProcessed {P : EtcdTxn → Prop} : readProcessed.Issues P := by
  refine issues_get.bind fun s ↦ ?_
  split
  · trivial
  · exact (issues_ofExcept _).bind fun _ ↦ trivial

theorem issues_liveSessionsChanged {P : EtcdTxn → Prop}
    (sessions : List (InstanceId × SessionId)) : (liveSessionsChanged sessions).Issues P := by
  induction sessions with
  | nil => trivial
  | cons session sessions ih =>
    refine issues_get.bind fun s ↦ ?_
    split
    · trivial
    · exact ih

theorem issues_inputFenceChanged {P : EtcdTxn → Prop} (fence : ControllerCommitFence) :
    (inputFenceChanged fence).Issues P := by
  refine issues_get.bind fun s ↦ ?_
  split
  · trivial
  · split
    · trivial
    · exact issues_liveSessionsChanged _

theorem issues_pendingRevisionChanged {P : EtcdTxn → Prop} (expected : Option Revision) :
    (pendingRevisionChanged expected).Issues P := by
  refine issues_get.bind fun s ↦ ?_
  split <;> trivial

theorem ordinary_publishTxn (fence : ControllerCommitFence) (view queue : Value)
    (pendingRevision processed : Option Revision) :
    Ordinary (publishTxn fence view queue pendingRevision processed) := by
  have view' : (Key.metadata externalOutputKey).counted = false := by
    rw [Key.counted_metadata]
    decide
  have processed' : (Key.metadata processedOutputKey).counted = false := by
    rw [Key.counted_metadata]
    decide
  refine ordinary_of_uncounted fun op mem ↦ ?_
  simp only [publishTxn, List.mem_cons, List.not_mem_nil, or_false] at mem
  rcases mem with rfl | rfl | rfl
  · exact ⟨view', rfl⟩
  · exact ⟨Key.counted_queue, rfl⟩
  · exact ⟨processed', rfl⟩

theorem owned_publishTxn (authority : ControllerAuthority) (observed : Revision)
    (sessions : BTreeMap InstanceId SessionId) (view queue : Value)
    (pendingRevision processed : Option Revision) : Owned authority
      (publishTxn (authority.commitFence observed sessions) view queue pendingRevision processed) := by
  refine ⟨ordinary_publishTxn _ _ _ _ _, fun c mem ↦ ?_⟩
  simp only [ControllerAuthority.compares, List.mem_cons, List.not_mem_nil, or_false] at mem
  rcases mem with rfl | rfl
  · exact List.mem_cons_self
  · exact List.mem_cons_of_mem _ List.mem_cons_self

theorem issues_publishControllerOutputsWithFence {P : EtcdTxn → Prop} (purpose : Purpose)
    (fence : ControllerCommitFence) (view queue : Value) (pendingRevision : Option Revision)
    (h : ∀ processed, P (publishTxn fence view queue pendingRevision processed)) :
    (publishControllerOutputsWithFence purpose fence view queue pendingRevision).Issues P := by
  refine issues_retry _ (issues_readProcessed.bind fun processed ↦ ?_) _
  split
  · trivial
  · refine (issues_submit _ _ (h _)).bind fun response ↦ ?_
    split
    · trivial
    · refine (issues_authorityMatches _ _).bind fun matches_ ↦ ?_
      split
      · trivial
      · refine (issues_pendingRevisionChanged _).bind fun changed ↦ ?_
        split
        · trivial
        · refine (issues_inputFenceChanged _).bind fun changed ↦ ?_
          split
          · trivial
          · refine issues_readProcessed.bind fun latest ↦ ?_
            split <;> trivial

theorem issues_controllerSnapshot {P : EtcdTxn → Prop} : controllerSnapshot.Issues P :=
  issues_get.bind fun _ ↦ issues_ofExcept _

theorem issues_publishControllerOutputs (authority : ControllerAuthority) (view queue : Value)
    (processed : Revision) (pendingRevision : Option Revision) :
    (publishControllerOutputs authority view queue processed pendingRevision).Issues
      (Owned authority) := by
  refine issues_controllerSnapshot.bind fun snapshot ↦ ?_
  split
  · trivial
  · exact issues_publishControllerOutputsWithFence _ _ _ _ _
      fun _ ↦ owned_publishTxn _ _ _ _ _ _ _

theorem issues_recordLeaseExpiry (authority : ControllerAuthority) (revision : Revision) :
    (recordLeaseExpiry authority revision).Issues (Owned authority) := by
  have owned : ∀ marker, Owned authority (recordLeaseExpiryTxn authority marker) := by
    refine fun marker ↦ ⟨ordinary_of_mem (List.mem_singleton_self _) fun op mem ↦ ?_,
      fun _ mem ↦ List.mem_append_left _ mem⟩
    exact .inl (List.mem_singleton.mp mem)
  refine issues_retry _ (issues_get.bind fun s ↦ ?_) _
  split
  · trivial
  · refine (issues_send (owned _)).bind fun response ↦ ?_
    split
    · trivial
    · refine (issues_authorityMatches _ _).bind fun matches_ ↦ ?_
      split <;> trivial

end Publication

section Leader

variable {P : EtcdTxn → Prop} (crush : Crush) (authority : ControllerAuthority)

theorem issues_withSnapshot {pending : List PublishedTransition}
    {next : CoordinationSnapshot → Client Reconciled} (h : ∀ current, (next current).Issues P) :
    (withSnapshot pending next).Issues P := by
  refine issues_controllerSnapshot.attempt.bind fun result ↦ ?_
  split
  · trivial
  · exact h _

theorem issues_replan {pending : List PublishedTransition}
    {again : CoordinationSnapshot → List PublishedTransition → Client Reconciled}
    (h : ∀ current pending, (again current pending).Issues P) (current : CoordinationSnapshot) :
    (replan pending again current).Issues P := by
  unfold replan
  split
  · trivial
  · exact h _ _

theorem issues_reconcile (mode : ReconcileMode) (rounds : ℕ) (snapshot : CoordinationSnapshot)
    (pending : List PublishedTransition) :
    (reconcile crush authority mode rounds snapshot pending).Issues (Owned authority) := by
  induction rounds generalizing snapshot pending with
  | zero => trivial
  | succ rounds ih =>
    unfold reconcile
    split
    · trivial
    · refine issues_withSnapshot fun current ↦ ?_
      split
      · exact issues_replan ih _
      · dsimp only
        split
        · trivial
        · refine (issues_publishControllerOutputsWithFence _ _ _ _ _
            fun _ ↦ owned_publishTxn _ _ _ _ _ _ _).attempt.bind fun result ↦ ?_
          split
          · exact issues_withSnapshot fun current ↦ issues_replan ih _
          · trivial
          · refine issues_withSnapshot fun current ↦ ?_
            unfold conclude
            split
            · exact issues_replan ih _
            · trivial

theorem issues_startup (rounds attempts : ℕ) (snapshot : CoordinationSnapshot)
    (pending : List PublishedTransition) :
    (startup crush authority rounds attempts snapshot pending).Issues (Owned authority) := by
  induction attempts generalizing pending with
  | zero => trivial
  | succ attempts ih =>
    unfold startup
    refine (issues_reconcile crush authority _ _ _ _).bind fun result ↦ ?_
    split
    · trivial
    · split
      · trivial
      · split
        · exact ih _
        · trivial

theorem issues_reconcileUntilDone (rounds attempts : ℕ) (snapshot : CoordinationSnapshot)
    (state : ControllerState) :
    (reconcileUntilDone crush authority rounds attempts snapshot state).Issues
      (Owned authority) := by
  induction attempts generalizing state with
  | zero => trivial
  | succ attempts ih =>
    unfold reconcileUntilDone
    have current : (reconcileCurrentSnapshot crush authority rounds snapshot state).Issues
        (Owned authority) := by
      unfold reconcileCurrentSnapshot
      dsimp only
      split
      · trivial
      · refine (issues_reconcile crush authority _ _ _ _).bind fun result ↦ ?_
        split <;> trivial
    refine current.bind fun result ↦ ?_
    split
    · trivial
    · split
      · trivial
      · split
        · exact ih _
        · trivial

theorem issues_retryCoordination {α : Type} {operation : Client α} (h : operation.Issues P)
    (attempts : ℕ) : (retryCoordination operation attempts).Issues P := by
  induction attempts with
  | zero => trivial
  | succ attempts ih =>
    unfold retryCoordination
    refine h.attempt.bind fun result ↦ ?_
    split
    · trivial
    · split
      · exact ih
      · trivial

theorem issues_reconcileFrom (rounds : ℕ) (state : ControllerState)
    (observe : CoordinationSnapshot → ControllerState → ControllerState) :
    (reconcileFrom crush authority rounds state observe).Issues (Owned authority) := by
  refine (issues_retryCoordination issues_controllerSnapshot _).bind fun result ↦ ?_
  split
  · trivial
  · exact issues_reconcileUntilDone crush authority _ _ _ _

theorem issues_runAsLeader (rounds : ℕ) (inputs : List LeaderInput) :
    (runAsLeader crush authority rounds inputs).Issues (Owned authority) := by
  have turn : ∀ state input,
      (leaderTurn crush authority rounds state input).Issues (Owned authority) := by
    intro state input
    unfold leaderTurn
    cases input with
    | tick => exact issues_reconcileFrom crush authority _ _ _
    | event revision leaseBackedDelete =>
      refine issues_get.bind fun s ↦ ?_
      split
      · trivial
      · refine Issues.bind ?_ fun recorded ↦ ?_
        · unfold expiryRecorded
          split
          · exact (issues_retryCoordination (issues_recordLeaseExpiry authority _) _).bind fun _ ↦ trivial
          · trivial
        · split
          · exact issues_reconcileFrom crush authority _ _ _
          · trivial
    | compacted => exact issues_reconcileFrom crush authority _ _ _
  have loop : ∀ inputs state,
      (leaderLoop crush authority rounds inputs state).Issues (Owned authority) := by
    intro inputs
    induction inputs with
    | nil => exact fun _ ↦ trivial
    | cons input inputs ih =>
      intro state
      unfold leaderLoop
      refine (turn state input).bind fun result ↦ ?_
      split
      · trivial
      · exact ih _
  refine (issues_retryCoordination issues_controllerSnapshot _).bind fun result ↦ ?_
  split
  · trivial
  · split
    · trivial
    · refine (issues_startup crush authority _ _ _ _).bind fun result ↦ ?_
      split
      · trivial
      · exact loop _ _

end Leader

section Sessions

theorem ordinary_states (i : InstanceId) (session : SessionId) (resource : ResourceId)
    (states : BTreeMap PartitionId State) (compares : List EtcdCompare) :
    Ordinary ⟨compares, stateOperations i session resource states ++
      [authoritativeInputMarkerOperation]⟩ := by
  refine ordinary_of_mem (by simp) fun op mem ↦ ?_
  rcases List.mem_append.mp mem with mem | mem
  · obtain ⟨item, -, rfl⟩ := List.mem_map.mp mem
    exact .inr ⟨(fun same ↦ nomatch same), rfl⟩
  · exact .inl (List.mem_singleton.mp mem)

theorem issues_publishCurrentState (i : InstanceId) (session : SessionId) (resource : ResourceId)
    (states : BTreeMap PartitionId State) :
    (publishCurrentState i session resource states).Issues Ordinary := by
  refine (issues_send (ordinary_states _ _ _ _ _)).bind fun response ↦ ?_
  split <;> trivial

theorem issues_injectSessionCurrentState (i : InstanceId) (session : SessionId)
    (resource : ResourceId) (states : BTreeMap PartitionId State) :
    (injectSessionCurrentState i session resource states).Issues Ordinary := by
  refine issues_get.bind fun s ↦ ?_
  split
  · trivial
  · exact (issues_send (ordinary_states _ _ _ _ _)).bind fun _ ↦ trivial

theorem ordinary_allocateSessionTxn (old : Option Revision) (next : ℕ) :
    Ordinary (allocateSessionTxn old next) :=
  ordinary_of_uncounted fun op mem ↦ by
    rw [List.mem_singleton.mp mem]
    exact ⟨Key.counted_sequence, rfl⟩

theorem issues_allocateSession {P : EtcdTxn → Prop} (h : ∀ old next, P (allocateSessionTxn old next)) :
    allocateSession.Issues P := by
  refine issues_retry _ (issues_get.bind fun s ↦ (issues_ofExcept _).bind fun old ↦ ?_) _
  dsimp only
  split
  · trivial
  · refine (issues_send (h _ _)).bind fun response ↦ ?_
    split <;> trivial

theorem ordinary_registerTxn (i : InstanceId) (session : SessionId) (lease : ℕ)
    (carried : List (ResourceId × PartitionId × State)) :
    Ordinary (registerTxn i session lease carried) := by
  refine ordinary_of_mem (by simp [registerTxn]) fun op mem ↦ ?_
  simp only [registerTxn, List.mem_append, List.mem_cons, List.not_mem_nil, or_false,
    List.mem_map] at mem
  rcases mem with ((rfl | rfl) | ⟨item, -, rfl⟩) | rfl
  · exact .inr ⟨(fun same ↦ nomatch same), rfl⟩
  · exact .inr ⟨(fun same ↦ nomatch same), rfl⟩
  · exact .inr ⟨(fun same ↦ nomatch same), rfl⟩
  · exact .inl rfl

theorem issues_register {P : EtcdTxn → Prop} (i : InstanceId) (options : RegistrationOptions)
    (allocate : ∀ old next, P (allocateSessionTxn old next))
    (commit : ∀ session lease carried, P (registerTxn i session lease carried)) :
    (register i options).Issues P := by
  refine issues_get.bind fun s ↦ (issues_allocateSession allocate).bind fun session ↦ ?_
  refine Issues.bind ?_ fun carried ↦ (issues_grantLease _).bind fun lease ↦ ?_
  · unfold carriedFrom
    split
    · trivial
    · exact issues_get.bind fun _ ↦ trivial
  · refine (issues_send (commit _ _ _)).bind fun response ↦ ?_
    split
    · trivial
    · exact (issues_revokeLease _ _).bind fun _ ↦ trivial

theorem ordinary_revokeLiveTxn (i : InstanceId) (session : SessionId) :
    Ordinary (revokeLiveTxn i session) := by
  refine ordinary_of_mem (by simp [revokeLiveTxn]) fun op mem ↦ ?_
  simp only [revokeLiveTxn, List.mem_cons, List.not_mem_nil, or_false] at mem
  rcases mem with rfl | rfl
  · exact .inr ⟨(fun same ↦ nomatch same), rfl⟩
  · exact .inl rfl

theorem issues_revokeLive (i : InstanceId) (session : SessionId) :
    (revokeLive i session).Issues Ordinary := by
  refine issues_get.bind fun s ↦ ?_
  split
  · trivial
  · refine (issues_ofExcept _).bind fun current ↦ ?_
    split
    · trivial
    · refine (issues_send (ordinary_revokeLiveTxn _ _)).bind fun deleted ↦ ?_
      split
      · trivial
      · split
        · exact (issues_revokeLease _ _).bind fun _ ↦ trivial
        · trivial

theorem ordinary_removeCurrentStatesTxn {keys : List Key}
    (h : ∀ key ∈ keys, key ≠ Key.marker ∧ key.isElection = false) :
    Ordinary (removeCurrentStatesTxn keys) := by
  refine ordinary_of_mem (by simp [removeCurrentStatesTxn]) fun op mem ↦ ?_
  rcases List.mem_append.mp mem with mem | mem
  · obtain ⟨key, hkey, rfl⟩ := List.mem_map.mp mem
    exact .inr (h key hkey)
  · exact .inl (List.mem_singleton.mp mem)

theorem issues_removeCurrentStatesForResource (resource : ResourceId) :
    (removeCurrentStatesForResource resource).Issues Ordinary := by
  have batches : ∀ (chunks : List (List Key)),
      (∀ keys ∈ chunks, ∀ key ∈ keys, key ≠ Key.marker ∧ key.isElection = false) →
      ∀ revision, (deleteBatches revision chunks).Issues Ordinary := by
    intro chunks
    induction chunks with
    | nil => exact fun _ _ ↦ trivial
    | cons keys chunks ih =>
      intro h revision
      refine (issues_send (ordinary_removeCurrentStatesTxn (h keys List.mem_cons_self))).bind
        fun response ↦ ?_
      exact ih (fun keys mem ↦ h keys (List.mem_cons_of_mem _ mem)) _
  refine issues_get.bind fun s ↦ batches _ (fun keys mem key hkey ↦ ?_) _
  have inside : key ∈ statesOfResource s resource := subset_of_mem_chunks mem hkey
  have state := (List.mem_filter.mp inside).2
  cases key with
  | currentState i ticket r p => exact ⟨(fun same ↦ nomatch same), rfl⟩
  | _ => cases state

end Sessions

section Admin

theorem configs_ne_marker : instanceConfigsKey ≠ authoritativeInputMarker := by decide

theorem issues_replaceInstances (current : Option MetadataEntry) (value : Value) :
    (replaceInstances current value).Issues Ordinary := by
  unfold replaceInstances
  split
  · exact (issues_compareAndPut configs_ne_marker _ _).bind fun _ ↦ trivial
  · exact issues_compareAndPutAbsent configs_ne_marker _

theorem issues_putInstance (spec : InstanceSpec) : (putInstance spec).Issues Ordinary := by
  unfold putInstance
  split
  · trivial
  · split
    · trivial
    · refine issues_retry _ ((issues_getMetadata _).bind fun current ↦
        (issues_ofExcept _).bind fun existing ↦ ?_) _
      dsimp only
      split
      · trivial
      · refine (issues_replaceInstances _ _).bind fun applied ↦ ?_
        split <;> trivial

theorem issues_removeInstance (instanceId : String) :
    (removeInstance instanceId).Issues Ordinary := by
  unfold removeInstance
  split
  · trivial
  · refine issues_retry _ ((issues_getMetadata _).bind fun current ↦ ?_) _
    split
    · trivial
    · refine (issues_ofExcept _).bind fun instances ↦ ?_
      split
      · trivial
      · refine (issues_compareAndPutIfLiveAbsent configs_ne_marker _ _ _).bind fun result ↦ ?_
        split
        · trivial
        · refine (issues_liveSessionOf _).bind fun live ↦ ?_
          split <;> trivial

theorem resource_ne_marker (name : String) : resourceKeyLead ++ name ≠ authoritativeInputMarker := by
  intro same
  have prefixed := Key.not_startsWith resourceKeyLead authoritativeInputMarker name
    (by decide) (by decide) (by decide)
  rw [same] at prefixed
  exact absurd prefixed (by decide)

theorem issues_putResource (spec : ResourceSpec) : (putResource spec).Issues Ordinary := by
  unfold putResource
  split
  · trivial
  · split
    · trivial
    · refine (issues_ofExcept _).bind fun placement ↦ (issues_getMetadata _).bind fun current ↦ ?_
      split
      · trivial
      · exact (issues_put (resource_ne_marker _) _ _).bind fun _ ↦ trivial

theorem issues_putThrottles (throttles : List ThrottleRecord) :
    (putThrottles throttles).Issues Ordinary := by
  unfold putThrottles
  split
  · trivial
  · exact (issues_put (by decide) _ _).bind fun _ ↦ trivial

theorem issues_ensureCluster (own cluster : String) :
    (ensureCluster own cluster).Issues Ordinary := by
  unfold ensureCluster
  split
  · trivial
  · refine (issues_compareAndPutAbsent (by decide) _).bind fun applied ↦ ?_
    split
    · trivial
    · refine (issues_getMetadata _).bind fun existing ↦ ?_
      split <;> trivial

end Admin

section Election

theorem marked_candidateTxn (controller : String) (lease : ℕ) :
    Marked (candidateTxn controller lease) := by
  refine marked_of_uncounted fun op mem ↦ ?_
  rw [List.mem_singleton.mp mem]
  exact Key.counted_candidate _

theorem marked_activeTxn (controller : String) (lease : ℕ) (createRevision : Revision) :
    Marked (activeTxn controller lease createRevision) := by
  refine marked_of_uncounted fun op mem ↦ ?_
  rw [List.mem_singleton.mp mem]
  exact Key.counted_active

theorem marked_deleteOwnedElectionKeyTxn (lease : ℕ) {key : Key} (h : key.counted = false) :
    Marked (deleteOwnedElectionKeyTxn lease key) := by
  refine marked_of_uncounted fun op mem ↦ ?_
  rw [List.mem_singleton.mp mem]
  exact h

theorem issues_registerCandidate {P : EtcdTxn → Prop} (controller : String) (lease : ℕ)
    (candidate : P (candidateTxn controller lease)) :
    (registerCandidate controller lease).Issues P :=
  (issues_send candidate).bind fun _ ↦ trivial

theorem issues_becomeActive {P : EtcdTxn → Prop} (controller : String) (lease : ℕ)
    (revision : Revision) (active : P (activeTxn controller lease revision)) :
    (becomeActive controller lease revision).Issues P :=
  (issues_send active).bind fun _ ↦ trivial

theorem issues_deleteOwnedElectionKey {P : EtcdTxn → Prop} (authority : ControllerAuthority)
    {key : Key} (owned : P (deleteOwnedElectionKeyTxn authority.leaseId key)) :
    (deleteOwnedElectionKey authority key).Issues P :=
  (issues_send owned).bind fun _ ↦ trivial

theorem issues_campaignRound {P : EtcdTxn → Prop} (controller : String) (lease : ℕ)
    (active : ∀ revision, P (activeTxn controller lease revision)) :
    (campaignRound controller lease).Issues P := by
  refine issues_get.bind fun s ↦ ?_
  split
  · trivial
  · split
    · trivial
    · refine (issues_becomeActive controller lease _ (active _)).bind fun elected ↦ ?_
      split <;> trivial

theorem issues_abandon {P : EtcdTxn → Prop} (lease : ℕ) (result : Acquisition) :
    (abandon lease result).Issues P := (issues_revokeLease _ _).attempt.bind fun _ ↦ trivial

theorem issues_acquireUntil {P : EtcdTxn → Prop} (controller : String)
    (candidate : ∀ lease, P (candidateTxn controller lease))
    (active : ∀ lease revision, P (activeTxn controller lease revision)) (phase : CampaignPhase)
    (signals : List CampaignSignal) : (acquireUntil controller phase signals).Issues P := by
  induction signals generalizing phase with
  | nil => cases phase <;> trivial
  | cons signal signals ih =>
    cases phase with
    | grant =>
      refine (issues_grantLease _).attempt.bind fun result ↦ ?_
      split
      · split
        · trivial
        · exact ih _
      · split
        · trivial
        · split
          · trivial
          · exact ih _
    | register lease =>
      refine (issues_registerCandidate controller lease (candidate lease)).attempt.bind
        fun registered ↦ ?_
      split
      · exact issues_abandon _ _
      · split
        · exact ih _
        · exact (issues_revokeLease _ _).attempt.bind fun _ ↦ ih _
        · split
          · exact ih _
          · trivial
    | campaign lease =>
      unfold acquireUntil
      split
      · trivial
      · refine (issues_campaignRound controller lease (active lease)).attempt.bind fun round ↦ ?_
        split
        · trivial
        · trivial
        · split
          · exact (issues_revokeLease _ _).bind fun _ ↦ trivial
          · exact ih _
        · split
          · trivial
          · split
            · exact issues_abandon _ _
            · exact ih _

theorem issues_relinquish {P : EtcdTxn → Prop} (authority : ControllerAuthority)
    (candidate : P (deleteOwnedElectionKeyTxn authority.leaseId
      (.candidate authority.controllerId)))
    (active : P (deleteOwnedElectionKeyTxn authority.leaseId .active)) :
    (relinquish authority).Issues P := by
  refine (issues_deleteOwnedElectionKey authority candidate).attempt.bind fun _ ↦ ?_
  refine (issues_deleteOwnedElectionKey authority active).attempt.bind fun _ ↦ ?_
  refine (issues_revokeLease _ _).bind fun _ ↦ issues_retry _ ?_ _
  refine issues_get.bind fun _ ↦ issues_get.bind fun _ ↦ ?_
  split <;> trivial

end Election

def Operation.isElection : Operation → Bool
  | .acquire _ _ => true
  | .relinquish _ => true
  | _ => false

/-- The controller in whose name an operation writes. -/
def Operation.authority : Operation → Option ControllerAuthority
  | .putControllerOwned authority _ _ => some authority
  | .publish authority _ _ _ _ => some authority
  | .lead _ authority _ _ => some authority
  | .recordLeaseExpiry authority _ => some authority
  | _ => none

theorem issues_owned (operation : Operation) {authority : ControllerAuthority}
    (h : operation.authority = some authority) : operation.program.Issues (Owned authority) := by
  cases operation with
  | putControllerOwned authority key value =>
    cases h
    exact (issues_putControllerOwned key.2 _ _).bind fun _ ↦ trivial
  | publish authority view queue processed pendingRevision =>
    cases h
    exact (issues_publishControllerOutputs _ _ _ _ _).bind fun _ ↦ trivial
  | lead crush authority rounds inputs =>
    cases h
    exact (issues_runAsLeader crush authority rounds inputs).bind fun _ ↦ trivial
  | recordLeaseExpiry authority revision =>
    cases h
    exact (issues_recordLeaseExpiry _ _).bind fun _ ↦ trivial
  | _ => cases h

theorem issues_ordinary (operation : Operation) (h : operation.isElection = false) :
    operation.program.Issues Ordinary := by
  have owned : ∀ {authority}, operation.authority = some authority →
      operation.program.Issues Ordinary :=
    fun found ↦ (issues_owned operation found).mono fun _ owned ↦ owned.toOrdinary
  cases operation with
  | connect => exact issues_initializeAuthoritativeInputMarker.bind fun _ ↦ trivial
  | putMetadata key value lease => exact (issues_put key.2 _ _).bind fun _ ↦ trivial
  | compareAndPut key expected value => exact (issues_compareAndPut key.2 _ _).bind fun _ ↦ trivial
  | compareAndPutIfLiveAbsent key expected i value =>
    exact (issues_compareAndPutIfLiveAbsent key.2 _ _ _).bind fun _ ↦ trivial
  | compareAndDelete key expected => exact (issues_compareAndDelete key.2 _).bind fun _ ↦ trivial
  | putIfAbsent key value => exact (issues_compareAndPutAbsent key.2 _).bind fun _ ↦ trivial
  | putControllerOwned authority key value => exact owned rfl
  | advanceMetadataRevision key revision =>
    exact (issues_advanceMetadataRevision key.2 _).bind fun _ ↦ trivial
  | register i options =>
    exact (issues_register _ _ ordinary_allocateSessionTxn (ordinary_registerTxn _)).bind fun _ ↦ trivial
  | publishCurrentState i session resource states =>
    exact (issues_publishCurrentState _ _ _ _).bind fun _ ↦ trivial
  | injectSessionCurrentState i session resource states =>
    exact (issues_injectSessionCurrentState _ _ _ _).bind fun _ ↦ trivial
  | revokeLive i session => exact (issues_revokeLive _ _).bind fun _ ↦ trivial
  | revokeSession lease => exact (issues_revokeLease _ _).bind fun _ ↦ trivial
  | removeCurrentStates resource =>
    exact (issues_removeCurrentStatesForResource _).bind fun _ ↦ trivial
  | inject message => exact (issues_injectPendingTransition _).bind fun _ ↦ trivial
  | claim i session message => exact (issues_claimPendingTransition _ _ _).bind fun _ ↦ trivial
  | complete i session expected message state =>
    exact (issues_completePendingTransition _ _ _ _ _).bind fun _ ↦ trivial
  | removePending expected messageId =>
    exact (issues_removePendingTransition _ _).bind fun _ ↦ trivial
  | removePendingForResource resource =>
    exact (issues_removePendingTransitionsForResource _).bind fun _ ↦ trivial
  | publish authority view queue processed pendingRevision => exact owned rfl
  | lead crush authority rounds inputs => exact owned rfl
  | recordLeaseExpiry authority revision => exact owned rfl
  | acquire controller signals => cases h
  | relinquish authority => cases h
  | ensureCluster own cluster => exact (issues_ensureCluster _ _).bind fun _ ↦ trivial
  | putInstance spec => exact (issues_putInstance _).bind fun _ ↦ trivial
  | removeInstance instanceId => exact (issues_removeInstance _).bind fun _ ↦ trivial
  | putResource spec => exact (issues_putResource _).bind fun _ ↦ trivial
  | putThrottles throttles => exact (issues_putThrottles _).bind fun _ ↦ trivial

/-- Every transaction of every operation is marked. -/
theorem issues_program (operation : Operation) : operation.program.Issues Marked := by
  cases election : operation.isElection with
  | false => exact (issues_ordinary operation election).mono fun _ ordinary ↦ ordinary.toMarked
  | true =>
    cases operation with
    | acquire controller signals =>
      exact (issues_acquireUntil controller (fun _ ↦ marked_candidateTxn _ _)
        (fun _ _ ↦ marked_activeTxn _ _ _) _ _).bind fun _ ↦ trivial
    | relinquish authority =>
      exact (issues_relinquish authority
        (marked_deleteOwnedElectionKeyTxn _ (Key.counted_candidate _))
        (marked_deleteOwnedElectionKeyTxn _ Key.counted_active)).bind fun _ ↦ trivial
    | _ => cases election

end Issues

section Invariant

/-- The marker is there for good and no counted key is newer. -/
def MarkerNewest (s : EtcdStore) : Prop :=
  ∃ marker, s.entry .marker = some marker ∧ marker.lease = 0 ∧
    ∀ (key : Key) (entry : Entry Value), key.counted = true → s.entry key = some entry →
      entry.modRevision ≤ marker.modRevision

/-- What is outside of the operations: leases expire and other keys of the etcd are written. -/
inductive Outside : EtcdStore → EtcdStore → Prop
  | expire (s : EtcdStore) (lease : ℕ) : Outside s (s.expire lease)
  | advance (s : EtcdStore) : Outside s s.advance

variable {s : EtcdStore}

theorem MarkerNewest.authoritativeRevision (h : MarkerNewest s) :
    authoritativeRevision s = s.modRevision .marker := by
  obtain ⟨marker, found, -, newest⟩ := h
  obtain ⟨key, entry, present, counted, attained⟩ :=
    authoritativeRevision_attained found Key.counted_marker
  rw [Store.modRevision_of_entry found]
  refine le_antisymm ?_ (le_authoritativeRevision found Key.counted_marker)
  rw [← attained]
  exact newest key entry counted present

/-- A store in which the marker has just been written. -/
theorem markerNewest_of_written {marker : Entry Value} (found : s.entry .marker = some marker)
    (unleased : marker.lease = 0) (now : marker.modRevision = s.revision) : MarkerNewest s := by
  refine ⟨marker, found, unleased, fun key entry _ present ↦ ?_⟩
  rw [now]
  exact (Store.entry_bounded present).2

theorem MarkerNewest.write (h : MarkerNewest s) {txn : EtcdTxn} (marked : Marked txn) :
    MarkerNewest (s.write txn.operations) := by
  by_cases mem : authoritativeInputMarkerOperation ∈ txn.operations
  · obtain ⟨marker, found, -, now, unleased⟩ := Store.entry_write_put (s := s) mem marked.only
    refine markerNewest_of_written found unleased ?_
    rw [now, Store.revision_write_of_put mem]
  · -- nothing counted is touched, the marker least of all
    have untouched : ∀ key : Key, key.counted = true →
        (s.write txn.operations).entry key = s.entry key := by
      intro key counted
      refine Store.entry_write_of_not_mem fun touched ↦ mem ?_
      obtain ⟨op, hop, rfl⟩ := List.mem_map.mp touched
      exact marked.marker op hop counted
    obtain ⟨marker, found, unleased, newest⟩ := h
    refine ⟨marker, (untouched _ Key.counted_marker).trans found, unleased,
      fun key entry counted present ↦ ?_⟩
    rw [untouched key counted] at present
    exact newest key entry counted present

theorem MarkerNewest.expire (h : MarkerNewest s) (lease : ℕ) : MarkerNewest (s.expire lease) := by
  obtain ⟨marker, found, unleased, newest⟩ := h
  refine ⟨marker, ?_, unleased, fun key entry counted present ↦ ?_⟩
  · have kept : ¬(marker.lease = lease ∧ lease ≠ 0) := by omega
    rw [Store.entry_expire, found, Option.filter_some, if_pos (decide_eq_true kept)]
  · rw [Store.entry_expire, Option.filter_eq_some_iff] at present
    exact newest key entry counted present.1

theorem MarkerNewest.outside {s' : EtcdStore} (h : MarkerNewest s) (change : Outside s s') :
    MarkerNewest s' := by
  cases change with
  | expire lease => exact h.expire lease
  | advance => exact h

theorem markerNewest_initialized (absent : s.entry .marker = none) :
    MarkerNewest ((compareAndPutAbsentTxn authoritativeInputMarker (.text "1")).run s) := by
  have operations : (compareAndPutAbsentTxn authoritativeInputMarker (.text "1")).operations =
      [authoritativeInputMarkerOperation] := by decide
  have committed : (compareAndPutAbsentTxn authoritativeInputMarker (.text "1")).succeeds s =
      true := by
    refine Txn.succeeds_iff.mpr fun condition mem ↦ ?_
    rw [List.mem_singleton.mp mem]
    exact Compare.version_zero.mpr absent
  rw [Txn.run, if_pos committed, operations]
  have mem : authoritativeInputMarkerOperation ∈ [authoritativeInputMarkerOperation] :=
    List.mem_singleton_self _
  obtain ⟨marker, found, -, now, unleased⟩ :=
    Store.entry_write_put (s := s) mem fun op mem _ ↦ List.mem_singleton.mp mem
  refine markerNewest_of_written found unleased ?_
  rw [now, Store.revision_write_of_put mem]

abbrev Cluster := System Key Value Purpose CoordinationError Reply Operation

/-- The operations at work on an initialized namespace, with answers that may get lost. -/
abbrev NamespaceReachable (s : EtcdStore) (sys : Cluster) : Prop :=
  System.Reachable True Operation.program Outside
    ((compareAndPutAbsentTxn authoritativeInputMarker (.text "1")).run s) sys

/-- A namespace that has just been connected to. -/
def initialized : EtcdStore :=
  (compareAndPutAbsentTxn authoritativeInputMarker (.text "1")).run Store.empty

variable {sys sys' : Cluster}

theorem NamespaceReachable.markerNewest (absent : s.entry .marker = none)
    (h : NamespaceReachable s sys) : MarkerNewest sys.store := by
  refine (System.Reachable.store_inv (P := Marked) issues_program ?_ ?_ ?_
    (markerNewest_initialized absent) h).1
  · intro request s marked committed newest
    rw [Txn.run, if_pos committed]
    exact newest.write marked
  · exact fun s lease newest ↦ newest.expire lease
  · exact fun s s' change newest ↦ newest.outside change

theorem Outside.later {s s' : EtcdStore} (h : Outside s s') : Store.Later s s' := by
  cases h with
  | expire lease => exact Store.Later.expire s lease
  | advance => exact Store.Later.advance s

/-- A transaction that changes a counted key leaves the marker at its own revision. -/
theorem Marked.marker_of_changed {txn : EtcdTxn} (marked : Marked txn) {key : Key}
    (counted : key.counted = true)
    (changed : (s.write txn.operations).entry key ≠ s.entry key) :
    (s.write txn.operations).modRevision .marker = (s.write txn.operations).revision := by
  have touched : key ∈ txn.operations.map Op.key := by
    by_contra untouched
    exact changed (Store.entry_write_of_not_mem untouched)
  obtain ⟨op, hop, rfl⟩ := List.mem_map.mp touched
  have mem := marked.marker op hop counted
  obtain ⟨marker, found, -, now, -⟩ := Store.entry_write_put (s := s) mem marked.only
  rw [Store.modRevision_of_entry found, now, Store.revision_write_of_put mem]

/-- Every recorded change of a counted key is covered by the marker, unless a lease has ended. -/
theorem NamespaceReachable.changed (absent : s.entry .marker = none)
    (h : NamespaceReachable s sys) {r : Record Key Value Purpose} (mem : r ∈ sys.history)
    {key : Key} (counted : key.counted = true)
    (changed : r.after.entry key ≠ r.before.entry key) :
    r.after.revision ≤ sys.store.modRevision .marker ∨
      ∃ lease, r.after = r.before.expire lease := by
  obtain ⟨cause, -, later⟩ := (System.Reachable.causes issues_program
    (fun _ _ change ↦ change.later) h).1 r mem
  obtain ⟨marker, found, -, -⟩ := h.markerNewest absent
  generalize r.before = before at *
  generalize r.after = after at *
  cases cause with
  | none => exact absurd rfl changed
  | txn request _ marked committed =>
    refine .inl ?_
    rw [Txn.run, if_pos committed] at changed later ⊢
    rw [← marked.marker_of_changed counted changed, Store.modRevision_of_entry found]
    exact Store.Later.modRevision_le_of_entry later found
  | expire _ lease => exact .inr ⟨lease, rfl⟩
  | other _ _ change =>
    cases change with
    | expire lease => exact .inr ⟨lease, rfl⟩
    | advance => exact absurd rfl changed

/-- The snapshot's authoritative revision is the marker's, so that a fence on it holds until an
input is written again. -/
theorem authoritativeRevision_marker (absent : s.entry .marker = none)
    (h : NamespaceReachable s sys) :
    authoritativeRevision sys.store = sys.store.modRevision .marker ∧
    ∀ sys', Relation.ReflTransGen (System.Step True Operation.program Outside) sys sys' →
      (Compare.modRevision Key.marker (authoritativeRevision sys.store) : EtcdCompare).holds
        sys'.store = false →
      ∃ new, sys'.history = sys.history ++ new ∧ ∃ r ∈ new,
        authoritativeRevision r.before ≠ authoritativeRevision r.after := by
  refine ⟨(h.markerNewest absent).authoritativeRevision, fun sys' steps rejected ↦ ?_⟩
  have later : NamespaceReachable s sys' := System.Reachable.steps h steps
  have newest := (later.markerNewest absent).authoritativeRevision
  obtain ⟨new, past, same | changed⟩ := System.steps_changed authoritativeRevision steps
  · rw [Bool.eq_false_iff, ne_eq, Compare.modRevision_holds, ← newest] at rejected
    exact absurd same rejected
  · exact ⟨new, past, changed⟩

theorem authoritativeRevision_marker_put :
    ∃ sys : Cluster, NamespaceReachable Store.empty sys ∧ sys.store.modRevision .marker = 3 ∧
      authoritativeRevision sys.store = sys.store.modRevision .marker := by
  have start : NamespaceReachable Store.empty (.initial _) := .initial
  have started := start.step (.start _ (.putMetadata ⟨"cluster", by decide⟩ (.text "a") 0))
  have served := started.step (.serve _ 0 _ _ _ _ _ rfl (.txn _ _ _ _))
  exact ⟨_, served, by decide, (authoritativeRevision_marker rfl served).1⟩

end Invariant

end Clustodian
