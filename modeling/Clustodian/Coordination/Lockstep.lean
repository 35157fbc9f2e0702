import Clustodian.Coordination.Sessions

namespace Clustodian

open RevisionStore

/-- One call of a sequential run; a registration gets the lease named, and the session that a live
record stands for may end with its lease. -/
inductive SessionStep
  | register (i : InstanceId) (lease : ℕ)
  | publish (i : InstanceId) (session : SessionId) (resource : ResourceId)
      (states : BTreeMap PartitionId State)
  | inject (i : InstanceId) (session : SessionId) (resource : ResourceId)
      (states : BTreeMap PartitionId State)
  | revoke (i : InstanceId) (session : SessionId)
  | expire (i : InstanceId)

namespace SessionStep

/-- What a call reports: a registration names the new session. -/
abbrev Report (ε : Type) := Except ε (Option SessionId)

def onStore (options : RegistrationOptions) (step : SessionStep) (s : EtcdStore) :
    Report CoordinationError × EtcdStore :=
  match step with
  | .register i lease =>
    let run := (Clustodian.register i options).exec lease s
    (run.1.map fun handle ↦ some handle.sessionId, run.2)
  | .publish i session resource states =>
    let run := (publishCurrentState i session resource states).exec 0 s
    (run.1.map fun _ ↦ none, run.2)
  | .inject i session resource states =>
    let run := (injectSessionCurrentState i session resource states).exec 0 s
    (run.1.map fun _ ↦ none, run.2)
  | .revoke i session =>
    let run := (revokeLive i session).exec 0 s
    (run.1.map fun _ ↦ none, run.2)
  | .expire i => (.ok none, (s.entry (.live i)).elim s fun entry ↦ s.expire entry.lease)

/-- A call that fails leaves the model as it was. -/
def settle (model : ParticipantSessionState) :
    Except SessionError (Option SessionId × ParticipantSessionState) →
      Report SessionError × ParticipantSessionState
  | .ok (session, next) => (.ok session, next)
  | .error error => (.error error, model)

def onModel (step : SessionStep) (model : ParticipantSessionState) :
    Report SessionError × ParticipantSessionState :=
  settle model <| match step with
    | .register i _ => do
      let connected ← model.connect i
      return (some connected.1, connected.2)
    | .publish i session resource states => do
      let next ← model.publishCurrentState i session resource states
      return (none, next)
    | .inject i session resource states => do
      let next ← model.injectSessionCurrentState i session resource states
      return (none, next)
    | .revoke i session => do
      let next ← model.disconnect i session
      return (none, next)
    | .expire i => match model.liveInstances[i]? with
      | none => .ok (none, model)
      | some session => do
        let next ← model.disconnect i session
        return (none, next)

/-- An instance registers when it is not live, under a lease of its own; states are not empty. -/
def Admissible (s : EtcdStore) : SessionStep → Prop
  | .register i lease => s.entry (.live i) = none ∧ lease ≠ 0 ∧
      ∀ key e, s.entry key = some e → e.lease ≠ lease
  | .publish _ _ _ states => states ≠ ∅
  | .inject _ _ _ states => states ≠ ∅
  | _ => True

end SessionStep

section Steps

variable {s : EtcdStore} {model : ParticipantSessionState} {i : InstanceId} {session : SessionId}
  {resource : ResourceId} {states : BTreeMap PartitionId State} {options : RegistrationOptions}

theorem Mirrors.value_live (h : Mirrors s model) :
    s.value (.live i) = some (.text (sessionText session)) ↔
      model.liveInstances[i]? = some session := by
  rw [h.live, Option.map_eq_some_iff]
  constructor
  · rintro ⟨live, found, same⟩
    injection same with same
    rw [found, toString_injective same]
  · exact fun found ↦ ⟨session, found, rfl⟩

/-- A fence on the session passes as the model's check of it does. -/
theorem Mirrors.liveCompare_holds (h : Mirrors s model) :
    (liveCompare i session).holds s = true ↔ model.requireLiveSession i session = .ok () := by
  rw [liveCompare, Compare.value_holds, h.value_live, model.requireLiveSession_ok]

/-- What is to be shown of a step: the two sides report the same and mirror each other after it. -/
structure InStep (model : ParticipantSessionState)
    (left : SessionStep.Report CoordinationError × EtcdStore)
    (right : SessionStep.Report SessionError × ParticipantSessionState) : Prop where
  reports : left.1.toOption = right.1.toOption
  mirrors : Mirrors left.2 right.2
  initialState : right.2.initialState = model.initialState

theorem Mirrors.inStep_register (h : Mirrors s model)
    (initial : model.initialState = options.initialState) {lease : ℕ}
    (absent : s.entry (.live i) = none) (positive : lease ≠ 0)
    (fresh : ∀ key e, s.entry key = some e → e.lease ≠ lease) :
    InStep model ((SessionStep.register i lease).onStore options s)
      ((SessionStep.register i lease).onModel model) := by
  have free : model.liveInstances[i]? = none := by
    have live := h.live i
    rw [Store.value, absent] at live
    exact Option.map_eq_none_iff.mp live.symm
  by_cases full : 2 ^ 64 ≤ model.nextSessionSequence + 1
  · have left : (register i options).exec lease s = (.error .invalidSession, s) := by
      rw [register, Prog.exec_bind_ok exec_get]
      exact Prog.exec_bind_error (exec_allocateSession_full h lease full)
    have right := ParticipantSessionState.connect_exhausted free full
    rw [SessionStep.onStore, SessionStep.onModel, left, right]
    exact ⟨rfl, h, rfl⟩
  · obtain ⟨next, right, connects⟩ := ParticipantSessionState.connect_connects free full
    rw [SessionStep.onStore, SessionStep.onModel, exec_register h options absent full, right]
    exact ⟨rfl, h.connects connects (h.registered lease initial) full positive fresh,
      connects.initialState⟩

theorem Mirrors.inStep_publish (h : Mirrors s model) (nonempty : states ≠ ∅) :
    InStep model ((SessionStep.publish i session resource states).onStore options s)
      ((SessionStep.publish i session resource states).onModel model) := by
  rw [SessionStep.onStore, SessionStep.onModel, publishCurrentState,
    ParticipantSessionState.publishCurrentState, Prog.exec_bind_ok (exec_send _)]
  by_cases live : model.requireLiveSession i session = .ok ()
  · obtain ⟨next, stored, stores⟩ := model.storeCurrentState_stores i session resource states
    have commits : (publishCurrentStateTxn i session resource states).succeeds s = true := by
      rw [Txn.succeeds_iff]
      intro compare mem
      rw [List.mem_singleton.mp mem]
      exact h.liveCompare_holds.mpr live
    have known := h.coherent.current i session ((model.requireLiveSession_ok i session).mp live)
    rw [commits, Txn.run, if_pos commits, live, stored]
    exact ⟨rfl, h.stores stores known nonempty, stores.initialState⟩
  · have fails : (publishCurrentStateTxn i session resource states).succeeds s = false := by
      rw [← Bool.not_eq_true, Txn.succeeds_iff]
      exact fun all ↦ live (h.liveCompare_holds.mp (all _ List.mem_cons_self))
    rw [fails, Txn.run, fails]
    cases refused : model.requireLiveSession i session with
    | ok value => exact absurd refused live
    | error error => exact ⟨rfl, h, rfl⟩

theorem Mirrors.inStep_inject (h : Mirrors s model) (nonempty : states ≠ ∅) :
    InStep model ((SessionStep.inject i session resource states).onStore options s)
      ((SessionStep.inject i session resource states).onModel model) := by
  rw [SessionStep.onStore, SessionStep.onModel, injectSessionCurrentState,
    ParticipantSessionState.injectSessionCurrentState, Prog.exec_bind_ok exec_get]
  by_cases known : model.knownSessions[session]? = some i
  · obtain ⟨next, stored, stores⟩ := model.storeCurrentState_stores i session resource states
    obtain ⟨e, found⟩ := Option.isSome_iff_exists.mp ((h.sessions i session).mpr known)
    have commits : (injectSessionCurrentStateTxn i session resource states).succeeds s = true := by
      rw [Txn.succeeds_iff]
      exact fun _ mem ↦ absurd mem List.not_mem_nil
    rw [found, if_neg (by simp), Prog.exec_bind_ok (exec_send _), Txn.run, if_pos commits, known]
    dsimp only
    rw [if_neg (not_not.mpr rfl), stored]
    exact ⟨rfl, h.stores stores known nonempty, stores.initialState⟩
  · have absent : (s.entry (.session i session)).isNone = true := by
      rw [Option.isNone_iff_eq_none, ← Option.not_isSome_iff_eq_none, h.sessions]
      exact known
    rw [if_pos absent]
    cases owned : model.knownSessions[session]? with
    | none => exact ⟨rfl, h, rfl⟩
    | some owner =>
      have other : owner ≠ i := by
        rintro rfl
        exact known owned
      dsimp only
      rw [if_pos other]
      exact ⟨rfl, h, rfl⟩

theorem Mirrors.inStep_expire (h : Mirrors s model) :
    InStep model ((SessionStep.expire i).onStore options s) ((SessionStep.expire i).onModel model) := by
  rw [SessionStep.onStore, SessionStep.onModel]
  have live := h.live i
  rw [Store.value] at live
  cases found : s.entry (.live i) with
  | none =>
    rw [found] at live
    rw [Option.map_eq_none_iff.mp live.symm]
    exact ⟨rfl, h, rfl⟩
  | some e =>
    rw [found] at live
    obtain ⟨session, current, -⟩ := Option.map_eq_some_iff.mp live.symm
    rw [current]
    dsimp only
    rw [ParticipantSessionState.disconnect, (model.requireLiveSession_ok i session).mpr current]
    exact ⟨rfl, h.expires found, rfl⟩

theorem Mirrors.inStep_revoke (h : Mirrors s model) :
    InStep model ((SessionStep.revoke i session).onStore options s)
      ((SessionStep.revoke i session).onModel model) := by
  rw [SessionStep.onStore, SessionStep.onModel, revokeLive, ParticipantSessionState.disconnect,
    Prog.exec_bind_ok exec_get]
  have live := h.live i
  rw [Store.value] at live
  cases found : s.entry (.live i) with
  | none =>
    rw [found] at live
    have absent := Option.map_eq_none_iff.mp live.symm
    rw [ParticipantSessionState.requireLiveSession, absent]
    exact ⟨rfl, h, rfl⟩
  | some e =>
    rw [found] at live
    obtain ⟨current, present, value⟩ := Option.map_eq_some_iff.mp live.symm
    dsimp only
    rw [← value, h.parses (h.coherent.current i current present)]
    by_cases same : current = session
    · subst same
      have passes := (model.requireLiveSession_ok i current).mpr present
      have commits : (revokeLiveTxn i current).succeeds s = true := by
        rw [Txn.succeeds_iff]
        intro compare mem
        rw [List.mem_singleton.mp mem]
        exact h.liveCompare_holds.mpr passes
      rw [passes]
      change InStep model ((Prog.exec 0 (ite _ _ _) s).1.map _, (Prog.exec 0 (ite _ _ _) s).2) _
      rw [if_neg (not_not.mpr rfl), Prog.exec_bind_ok (exec_send _), commits, Txn.run, if_pos commits]
      change InStep model ((Prog.exec 0 (ite _ _ _) _).1.map _, (Prog.exec 0 (ite _ _ _) _).2) _
      rw [if_pos (h.leased i e found)]
      exact ⟨rfl, h.revokes found, rfl⟩
    · have refused : ∃ error, model.requireLiveSession i session = .error error := by
        rw [ParticipantSessionState.requireLiveSession, present]
        exact ⟨_, if_neg same⟩
      obtain ⟨error, refused⟩ := refused
      rw [refused]
      change InStep model ((Prog.exec 0 (ite _ _ _) s).1.map _, (Prog.exec 0 (ite _ _ _) s).2) _
      rw [if_pos same]
      exact ⟨rfl, h, rfl⟩

theorem Mirrors.inStep (h : Mirrors s model) (initial : model.initialState = options.initialState)
    {step : SessionStep} (admissible : step.Admissible s) :
    InStep model (step.onStore options s) (step.onModel model) := by
  cases step with
  | register i lease =>
    exact h.inStep_register initial admissible.1 admissible.2.1 admissible.2.2
  | publish i session resource states => exact h.inStep_publish admissible
  | inject i session resource states => exact h.inStep_inject admissible
  | revoke i session => exact h.inStep_revoke
  | expire i => exact h.inStep_expire

end Steps

section Runs

/-- No session was ever registered. -/
def Unregistered (s : EtcdStore) : Prop :=
  ∀ key : Key, (key.isSessionRecord = true ∨ ∃ i, key = .live i) → s.entry key = none

/-- The model before the first session, with the initial states of the registrations. -/
def ParticipantSessionState.initially (options : RegistrationOptions) : ParticipantSessionState :=
  { ParticipantSessionState.default with
    defaultInitialState := options.defaultInitialState
    resourceInitialStates := options.resourceInitialStates }

/-- Sequential runs of calls on both sides, from a store without sessions. -/
inductive Lockstep (options : RegistrationOptions) : EtcdStore → ParticipantSessionState → Prop
  | start (s : EtcdStore) : Unregistered s →
      Lockstep options s (ParticipantSessionState.initially options)
  | step (step : SessionStep) (s : EtcdStore) (model : ParticipantSessionState) :
      Lockstep options s model → step.Admissible s →
      Lockstep options (step.onStore options s).2 (step.onModel model).2

variable {options : RegistrationOptions} {s : EtcdStore} {model : ParticipantSessionState}

theorem ParticipantSessionState.coherent_initially (options : RegistrationOptions) :
    (ParticipantSessionState.initially options).Coherent := by
  have unrecorded : ∀ i session, (initially options).resourcesOf i session = none := by
    intro i session
    simp [resourcesOf, initially, default]
  constructor
  · exact Nat.two_pow_pos 64
  · intro session i known
    simp [initially, default] at known
  · intro i session
    rw [unrecorded]
    simp [initially, default]
  · intro i session live
    simp [initially, default] at live
  · intro i session r p j found
    rw [stateOf, unrecorded] at found
    cases found
  · intro i session r found
    rw [unrecorded] at found
    cases found

theorem Unregistered.mirrors (h : Unregistered s) :
    Mirrors s (ParticipantSessionState.initially options) := by
  have absent : ∀ key : Key, (key.isSessionRecord = true ∨ ∃ i, key = .live i) → s.value key = none := by
    intro key record
    rw [Store.value, h key record]
    rfl
  constructor
  · exact ParticipantSessionState.coherent_initially options
  · exact absent .sequence (.inl rfl)
  · intro i
    rw [absent (.live i) (.inr ⟨i, rfl⟩)]
    simp [ParticipantSessionState.initially, ParticipantSessionState.default]
  · intro i session
    rw [h (.session i session) (.inl rfl)]
    simp [ParticipantSessionState.initially, ParticipantSessionState.default]
  · intro i session r p
    rw [absent (.currentState i session r p) (.inl rfl)]
    simp [ParticipantSessionState.stateOf, ParticipantSessionState.resourcesOf,
      ParticipantSessionState.initially, ParticipantSessionState.default]
  · intro i e found
    cases (h (.live i) (.inr ⟨i, rfl⟩)).symm.trans found
  · intro i j e e' found
    cases (h (.live i) (.inr ⟨i, rfl⟩)).symm.trans found
  · intro key e record found
    cases (h key (.inl record)).symm.trans found

theorem Lockstep.mirrors (run : Lockstep options s model) :
    Mirrors s model ∧ model.initialState = options.initialState := by
  induction run with
  | start s fresh => exact ⟨fresh.mirrors, rfl⟩
  | step step s model run admissible ih =>
    have next := ih.1.inStep ih.2 admissible
    exact ⟨next.mirrors, next.initialState.trans ih.2⟩

/-- The session store refines the participant model: in every sequential run a snapshot of the store
is the model's, and the next call succeeds on both sides or on neither, with the same new session. -/
theorem sessions_refine (run : Lockstep options s model) :
    (∃ participants, participantSnapshotFromKvs s = .ok participants ∧
      participants.liveInstances = model.liveInstances ∧
      participants.activeCurrentState = model.activeCurrentState) ∧
    ∀ step : SessionStep, step.Admissible s →
      (step.onStore options s).1.toOption = (step.onModel model).1.toOption := by
  obtain ⟨mirrors, initial⟩ := run.mirrors
  exact ⟨mirrors.snapshot, fun step admissible ↦ (mirrors.inStep initial admissible).reports⟩

/-- An instance registers in an empty store and comes back after its lease has ended. -/
theorem sessions_refine_return :
    let options : RegistrationOptions := ⟨State.offline, ∅⟩
    let i : InstanceId := ⟨"node-a", by decide⟩
    let left := ((SessionStep.expire i).onStore options
      ((SessionStep.register i 7).onStore options Store.empty).2).2
    let right := ((SessionStep.expire i).onModel
      ((SessionStep.register i 7).onModel (ParticipantSessionState.initially options)).2).2
    (∃ participants, participantSnapshotFromKvs left = .ok participants ∧
      participants.liveInstances = right.liveInstances) ∧
    ((SessionStep.register i 8).onStore options left).1.toOption =
      ((SessionStep.register i 8).onModel right).1.toOption := by
  intro options i left right
  have run : Lockstep options left right := by
    refine .step (.expire i) _ _ (.step (.register i 7) _ _ (.start _ fun key _ ↦ ?_) ?_) trivial
    · exact Std.ExtTreeMap.getElem?_empty
    · refine ⟨Std.ExtTreeMap.getElem?_empty, by decide, fun key e found ↦ ?_⟩
      cases (Std.ExtTreeMap.getElem?_empty : (∅ : BTreeMap Key (Entry Value))[key]? = none).symm.trans found
  obtain ⟨⟨participants, read, live, -⟩, agree⟩ := sessions_refine run
  refine ⟨⟨participants, read, live⟩, agree (.register i 8) ⟨?_, by decide, ?_⟩⟩
  · decide
  · intro key e found same
    have unused : left.leased 8 = [] := by decide
    have mem : key ∈ left.leased 8 := Store.mem_leased.mpr ⟨e, found, same, by decide⟩
    rw [unused] at mem
    exact List.not_mem_nil mem

end Runs

end Clustodian
