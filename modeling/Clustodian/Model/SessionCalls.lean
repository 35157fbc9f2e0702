import Clustodian.Model.Session

/-! The participant model changed in place by its methods: what a failed call leaves behind, and
what holds after any calls. -/

namespace Clustodian

/-- An error does not undo what a method assigned before it. -/
abbrev SessionMethod : Type → Type := EStateM SessionError ParticipantSessionState

namespace ParticipantSessionState

/-- The live sessions and the states they show. -/
def snapshot (model : ParticipantSessionState) :
    BTreeMap InstanceId SessionId × BTreeMap InstanceId ActiveCurrentState :=
  (model.liveInstances, model.activeCurrentState)

end ParticipantSessionState

namespace SessionMethod

/-- A method that only reads. -/
def reading {α : Type} (read : ParticipantSessionState → Except SessionError α) : SessionMethod α :=
  fun model ↦ match read model with
    | .ok value => .ok value model
    | .error error => .error error model

def setResourceInitialState (resource : ResourceId) (initial : State) : SessionMethod Unit :=
  modify fun model ↦ { model with
    resourceInitialStates := model.resourceInitialStates.insert resource initial }

def allocateSession (i : InstanceId) : SessionMethod SessionId := do
  let next := (← get).nextSessionSequence + 1
  if 2 ^ 64 ≤ next then throw .sessionIdExhausted
  modify fun model ↦ { model with nextSessionSequence := next }
  modify fun model ↦ { model with knownSessions := model.knownSessions.insert next i }
  return next

/-- The last statements of `connect` and `expire_and_reconnect`. -/
def enter (i : InstanceId) (session : SessionId) (carried : BTreeMap ResourceId CurrentState) :
    SessionMethod Unit := do
  modify fun model ↦ { model with liveInstances := model.liveInstances.insert i session }
  modify fun model ↦ { model with
    currentStates := model.currentStates.insert i
      (((model.currentStates[i]?).getD ∅).insert session carried) }

def connect (i : InstanceId) : SessionMethod SessionId := do
  if i ∈ (← get).liveInstances then throw (.alreadyLive i)
  let carried ← reading (·.carriedCurrentStates i none)
  let session ← allocateSession i
  enter i session carried
  return session

def disconnect (i : InstanceId) (session : SessionId) : SessionMethod Unit := do
  reading (·.requireLiveSession i session)
  modify fun model ↦ { model with liveInstances := model.liveInstances.erase i }

/-- Replace the current incarnation after a session expiry. -/
def expireAndReconnect (i : InstanceId) (oldSession : SessionId) : SessionMethod SessionId := do
  reading (·.requireLiveSession i oldSession)
  let carried ← reading (·.carriedCurrentStates i (some oldSession))
  let session ← allocateSession i
  enter i session carried
  return session

def storeCurrentState (i : InstanceId) (session : SessionId) (resource : ResourceId)
    (states : BTreeMap PartitionId State) : SessionMethod Unit := do
  let model ← get
  let existing := ((model.currentStates[i]?).bind (·[session]?)).bind (·[resource]?)
  let current ← reading fun _ ↦
    ParticipantSessionState.buildStates (ParticipantSessionState.mergeStates i existing states).toList
  modify fun model ↦
    let sessions := (model.currentStates[i]?).getD ∅
    let resources := (sessions[session]?).getD ∅
    { model with
      currentStates := model.currentStates.insert i
        (sessions.insert session (resources.insert resource current)) }

def publishCurrentState (i : InstanceId) (session : SessionId) (resource : ResourceId)
    (states : BTreeMap PartitionId State) : SessionMethod Unit := do
  reading (·.requireLiveSession i session)
  storeCurrentState i session resource states

def injectSessionCurrentState (i : InstanceId) (session : SessionId) (resource : ResourceId)
    (states : BTreeMap PartitionId State) : SessionMethod Unit := do
  match (← get).knownSessions[session]? with
  | none => throw (.unknownSession session)
  | some owner =>
    if owner ≠ i then throw (.sessionOwnershipMismatch i session owner)
    storeCurrentState i session resource states

section Statements

variable {α β : Type} {model : ParticipantSessionState}

@[simp] theorem get_bind (rest : ParticipantSessionState → SessionMethod β) :
    (get >>= rest) model = rest model model := rfl

@[simp] theorem modify_bind (change : ParticipantSessionState → ParticipantSessionState)
    (rest : PUnit → SessionMethod β) : (modify change >>= rest) model = rest ⟨⟩ (change model) := rfl

@[simp] theorem throw_bind (error : SessionError) (rest : α → SessionMethod β) :
    ((throw error : SessionMethod α) >>= rest) model = .error error model := rfl

@[simp] theorem return_apply (value : α) : (return value : SessionMethod α) model = .ok value model := rfl

theorem bind_ok {first : SessionMethod α} {rest : α → SessionMethod β} {value : α}
    {next : ParticipantSessionState} (h : first model = .ok value next) :
    (first >>= rest) model = rest value next := by
  change EStateM.bind first rest model = _
  rw [EStateM.bind, h]

theorem bind_error {first : SessionMethod α} {rest : α → SessionMethod β} {error : SessionError}
    {next : ParticipantSessionState} (h : first model = .error error next) :
    (first >>= rest) model = .error error next := by
  change EStateM.bind first rest model = _
  rw [EStateM.bind, h]

theorem reading_ok {read : ParticipantSessionState → Except SessionError α} {value : α}
    (h : read model = .ok value) : reading read model = .ok value model := by
  rw [reading, h]

theorem reading_error {read : ParticipantSessionState → Except SessionError α} {error : SessionError}
    (h : read model = .error error) : reading read model = .error error model := by
  rw [reading, h]

end Statements

section Specification

variable {model next : ParticipantSessionState} {i : InstanceId} {session : SessionId}

open ParticipantSessionState

/-- A pure operation of the model, run in place: an error leaves the model as it was. -/
def settle {α : Type} (model : ParticipantSessionState) :
    Except SessionError (α × ParticipantSessionState) →
    EStateM.Result SessionError ParticipantSessionState α
  | .ok (value, next) => .ok value next
  | .error error => .error error model

theorem allocateSession_eq (i : InstanceId) (model : ParticipantSessionState) :
    allocateSession i model = settle model (model.allocateSession i) := by
  unfold ParticipantSessionState.allocateSession allocateSession
  rw [get_bind]
  by_cases full : 2 ^ 64 ≤ model.nextSessionSequence + 1
  · simp only [if_pos full, throw_bind]
    rfl
  · simp only [if_neg full]
    rfl

theorem connect_eq (i : InstanceId) (model : ParticipantSessionState) :
    connect i model = settle model (model.connect i) := by
  unfold ParticipantSessionState.connect connect
  rw [get_bind]
  by_cases live : i ∈ model.liveInstances
  · simp only [if_pos live]
    rfl
  · simp only [if_neg live]
    cases carries : model.carriedCurrentStates i none with
    | error error => exact bind_error (reading_error carries)
    | ok carried =>
      refine (bind_ok (reading_ok carries)).trans ?_
      have allocation := allocateSession_eq i model
      cases allocates : model.allocateSession i with
      | error error =>
        rw [allocates] at allocation
        exact bind_error allocation
      | ok allocated =>
        rw [allocates] at allocation
        exact bind_ok allocation

theorem disconnect_eq (i : InstanceId) (session : SessionId) (model : ParticipantSessionState) :
    disconnect i session model = settle model ((model.disconnect i session).map ((), ·)) := by
  unfold ParticipantSessionState.disconnect disconnect
  cases required : model.requireLiveSession i session with
  | error error => exact bind_error (reading_error required)
  | ok _ => exact bind_ok (reading_ok required)

theorem storeCurrentState_eq (i : InstanceId) (session : SessionId) (resource : ResourceId)
    (states : BTreeMap PartitionId State) (model : ParticipantSessionState) :
    storeCurrentState i session resource states model =
      settle model ((model.storeCurrentState i session resource states).map ((), ·)) := by
  have same : ((model.currentStates[i]?).bind (·[session]?)).bind (·[resource]?) =
      ((((model.currentStates[i]?).getD ∅)[session]?).getD ∅)[resource]? := by
    cases model.currentStates[i]? with
    | none => simp
    | some sessions => cases found : sessions[session]? <;> simp [found]
  unfold ParticipantSessionState.storeCurrentState storeCurrentState
  rw [get_bind]
  simp only [same]
  cases built : buildStates (mergeStates i
      (((((model.currentStates[i]?).getD ∅)[session]?).getD ∅)[resource]?) states).toList with
  | error error => exact bind_error (reading_error rfl)
  | ok current => exact bind_ok (reading_ok rfl)

theorem publishCurrentState_eq (i : InstanceId) (session : SessionId) (resource : ResourceId)
    (states : BTreeMap PartitionId State) (model : ParticipantSessionState) :
    publishCurrentState i session resource states model =
      settle model ((model.publishCurrentState i session resource states).map ((), ·)) := by
  unfold ParticipantSessionState.publishCurrentState publishCurrentState
  cases required : model.requireLiveSession i session with
  | error error => exact bind_error (reading_error required)
  | ok _ =>
    rw [bind_ok (reading_ok required), storeCurrentState_eq]
    rfl

theorem injectSessionCurrentState_eq (i : InstanceId) (session : SessionId) (resource : ResourceId)
    (states : BTreeMap PartitionId State) (model : ParticipantSessionState) :
    injectSessionCurrentState i session resource states model =
      settle model ((model.injectSessionCurrentState i session resource states).map ((), ·)) := by
  unfold ParticipantSessionState.injectSessionCurrentState injectSessionCurrentState
  rw [get_bind]
  cases model.knownSessions[session]? with
  | none => rfl
  | some owner =>
    by_cases differs : owner ≠ i
    · simp only [if_pos differs]
      rfl
    · simp only [if_neg differs]
      exact storeCurrentState_eq i session resource states model

/-- How an instance gets a new session: under the next number, with the records it takes over. -/
structure Opens (model next : ParticipantSessionState) (i : InstanceId)
    (taken : Option (BTreeMap ResourceId CurrentState)) : Prop where
  nextSessionSequence : next.nextSessionSequence = model.nextSessionSequence + 1
  knownSessions : next.knownSessions = model.knownSessions.insert (model.nextSessionSequence + 1) i
  liveInstances : next.liveInstances = model.liveInstances.insert i (model.nextSessionSequence + 1)
  others : ∀ j other, ¬(j = i ∧ other = model.nextSessionSequence + 1) →
    next.resourcesOf j other = model.resourcesOf j other
  opened : (next.resourcesOf i (model.nextSessionSequence + 1)).isSome
  present : ∀ r : ResourceId, ((next.resourcesOf i (model.nextSessionSequence + 1)).bind
    (·[r]?)).isSome = (taken.bind (·[r]?)).isSome
  stateOf : ∀ r p k, next.stateOf i (model.nextSessionSequence + 1) r p k =
    ((taken.bind (·[r]?)).bind (·.state p k)).map fun state ↦
      if k = i then model.initialState r else state

section Opening

variable {carried : BTreeMap ResourceId CurrentState} {taken : Option (BTreeMap ResourceId CurrentState)}

theorem Opens.of_carried (spec : ∀ r : ResourceId, (carried[r]?).isSome = ((taken.bind (·[r]?)).isSome) ∧
      ∀ p j, (carried[r]?).bind (·.state p j) = ((taken.bind (·[r]?)).bind (·.state p j)).map
        fun state ↦ if j = i then model.initialState r else state)
    (sequence : next.nextSessionSequence = model.nextSessionSequence + 1)
    (known : next.knownSessions = model.knownSessions.insert (model.nextSessionSequence + 1) i)
    (live : next.liveInstances = model.liveInstances.insert i (model.nextSessionSequence + 1))
    (states : next.currentStates = model.currentStates.insert i
      (((model.currentStates[i]?).getD ∅).insert (model.nextSessionSequence + 1) carried)) :
    Opens model next i taken := by
  have here : next.resourcesOf i (model.nextSessionSequence + 1) = some carried := by
    rw [resourcesOf_insert states, if_pos ⟨rfl, rfl⟩]
  refine ⟨sequence, known, live, fun j other apart ↦ ?_, ?_, fun r ↦ ?_, fun r p k ↦ ?_⟩
  · rw [resourcesOf_insert states, if_neg apart]
  · rw [here]
    rfl
  · rw [here]
    exact (spec r).1
  · rw [ParticipantSessionState.stateOf, here]
    exact (spec r).2 p k

/-- The end of `connect` and of `expire_and_reconnect`. -/
theorem open_spec (spec : ∀ r : ResourceId, (carried[r]?).isSome = ((taken.bind (·[r]?)).isSome) ∧
      ∀ p j, (carried[r]?).bind (·.state p j) = ((taken.bind (·[r]?)).bind (·.state p j)).map
        fun state ↦ if j = i then model.initialState r else state) :
    (do
      let session ← allocateSession i
      enter i session carried
      return session : SessionMethod SessionId) model = .error .sessionIdExhausted model ∨
    ∃ next, (do
      let session ← allocateSession i
      enter i session carried
      return session : SessionMethod SessionId) model = .ok (model.nextSessionSequence + 1) next ∧
      Opens model next i taken := by
  have allocation := allocateSession_eq i model
  unfold ParticipantSessionState.allocateSession at allocation
  by_cases full : 2 ^ 64 ≤ model.nextSessionSequence + 1
  · simp only [if_pos full] at allocation
    exact .inl (bind_error allocation)
  · simp only [if_neg full] at allocation
    exact .inr ⟨_, bind_ok allocation, .of_carried spec rfl rfl rfl rfl⟩

end Opening

theorem connect_spec (i : InstanceId) (model : ParticipantSessionState) :
    (∃ error, connect i model = .error error model) ∨
    ∃ next, connect i model = .ok (model.nextSessionSequence + 1) next ∧
      Opens model next i (model.latestResources i) := by
  unfold connect
  rw [get_bind]
  by_cases live : i ∈ model.liveInstances
  · simp only [if_pos live]
    exact .inl ⟨_, rfl⟩
  · simp only [if_neg live]
    obtain ⟨carried, carries, spec⟩ := carriedCurrentStates_ok model i
    rcases open_spec spec with exhausted | ⟨next, opens, spec⟩
    · exact .inl ⟨_, (bind_ok (reading_ok carries)).trans exhausted⟩
    · exact .inr ⟨next, (bind_ok (reading_ok carries)).trans opens, spec⟩

theorem expireAndReconnect_spec (i : InstanceId) (oldSession : SessionId)
    (model : ParticipantSessionState) :
    (∃ error, expireAndReconnect i oldSession model = .error error model) ∨
    ∃ next, expireAndReconnect i oldSession model = .ok (model.nextSessionSequence + 1) next ∧
      Opens model next i (model.resourcesOf i oldSession) := by
  unfold expireAndReconnect
  cases required : model.requireLiveSession i oldSession with
  | error error => exact .inl ⟨error, bind_error (reading_error required)⟩
  | ok _ =>
    rw [bind_ok (reading_ok required)]
    obtain ⟨carried, carries, spec⟩ := carriedCurrentStates_some_ok model i oldSession
    rcases open_spec spec with exhausted | ⟨next, opens, spec⟩
    · exact .inl ⟨_, (bind_ok (reading_ok carries)).trans exhausted⟩
    · exact .inr ⟨next, (bind_ok (reading_ok carries)).trans opens, spec⟩

theorem disconnect_spec (i : InstanceId) (session : SessionId) (model : ParticipantSessionState) :
    (∃ error, disconnect i session model = .error error model) ∨
    disconnect i session model =
      .ok () { model with liveInstances := model.liveInstances.erase i } := by
  unfold disconnect
  cases required : model.requireLiveSession i session with
  | error error => exact .inl ⟨error, bind_error (reading_error required)⟩
  | ok _ => exact .inr (bind_ok (reading_ok required))

/-- States that are recorded under a session, and nowhere else. -/
structure Records (model next : ParticipantSessionState) (i : InstanceId) (session : SessionId)
    (resource : ResourceId) (states : BTreeMap PartitionId State) : Prop where
  stores : Stores model next i session resource states
  resourcesOf : ∃ current, ∀ j other, next.resourcesOf j other =
    if j = i ∧ other = session then
      some (((model.resourcesOf i session).getD ∅).insert resource current)
    else model.resourcesOf j other

theorem storeCurrentState_spec (i : InstanceId) (session : SessionId) (resource : ResourceId)
    (states : BTreeMap PartitionId State) (model : ParticipantSessionState) :
    ∃ next, storeCurrentState i session resource states model = .ok () next ∧
      Records model next i session resource states := by
  obtain ⟨next, stored, stores⟩ := storeCurrentState_stores model i session resource states
  obtain ⟨current, stored', -⟩ := storeCurrentState_ok model i session resource states
  refine ⟨next, ?_, stores, current, fun j other ↦ resourcesOf_insert ?_ j other⟩
  · rw [storeCurrentState_eq, stored]
    rfl
  · rw [← Except.ok.inj (stored'.symm.trans stored)]

theorem publishCurrentState_spec (i : InstanceId) (session : SessionId) (resource : ResourceId)
    (states : BTreeMap PartitionId State) (model : ParticipantSessionState) :
    (∃ error, publishCurrentState i session resource states model = .error error model) ∨
    ∃ next, publishCurrentState i session resource states model = .ok () next ∧
      model.liveInstances[i]? = some session ∧ Records model next i session resource states := by
  unfold publishCurrentState
  cases required : model.requireLiveSession i session with
  | error error => exact .inl ⟨error, bind_error (reading_error required)⟩
  | ok _ =>
    rw [bind_ok (reading_ok required)]
    obtain ⟨next, stored, records⟩ := storeCurrentState_spec i session resource states model
    exact .inr ⟨next, stored, (requireLiveSession_ok model i session).mp required, records⟩

theorem injectSessionCurrentState_spec (i : InstanceId) (session : SessionId) (resource : ResourceId)
    (states : BTreeMap PartitionId State) (model : ParticipantSessionState) :
    (∃ error, injectSessionCurrentState i session resource states model = .error error model) ∨
    ∃ next, injectSessionCurrentState i session resource states model = .ok () next ∧
      model.knownSessions[session]? = some i ∧ Records model next i session resource states := by
  unfold injectSessionCurrentState
  rw [get_bind]
  cases known : model.knownSessions[session]? with
  | none => exact .inl ⟨_, rfl⟩
  | some owner =>
    by_cases differs : owner ≠ i
    · simp only [if_pos differs]
      exact .inl ⟨_, rfl⟩
    · simp only [if_neg differs]
      obtain ⟨next, stored, records⟩ := storeCurrentState_spec i session resource states model
      exact .inr ⟨next, stored, congrArg some (not_not.mp differs), records⟩

end Specification

end SessionMethod

/-- A call of one of the methods that change the model. -/
inductive SessionCall
  | setResourceInitialState (resource : ResourceId) (initial : State)
  | connect (i : InstanceId)
  | disconnect (i : InstanceId) (session : SessionId)
  | expireAndReconnect (i : InstanceId) (oldSession : SessionId)
  | publishCurrentState (i : InstanceId) (session : SessionId) (resource : ResourceId)
      (states : BTreeMap PartitionId State)
  | injectSessionCurrentState (i : InstanceId) (session : SessionId) (resource : ResourceId)
      (states : BTreeMap PartitionId State)

namespace SessionCall

/-- The call, with the session it hands out. -/
def perform : SessionCall → SessionMethod (Option (InstanceId × SessionId))
  | setResourceInitialState resource initial => do
    SessionMethod.setResourceInitialState resource initial
    return none
  | connect i => do
    let session ← SessionMethod.connect i
    return some (i, session)
  | disconnect i session => do
    SessionMethod.disconnect i session
    return none
  | expireAndReconnect i oldSession => do
    let session ← SessionMethod.expireAndReconnect i oldSession
    return some (i, session)
  | publishCurrentState i session resource states => do
    SessionMethod.publishCurrentState i session resource states
    return none
  | injectSessionCurrentState i session resource states => do
    SessionMethod.injectSessionCurrentState i session resource states
    return none

/-- The calls one after the other, whether or not they fail: the model after them, and the sessions
they handed out with their instances. -/
def performAll : List SessionCall →
    ParticipantSessionState × List (InstanceId × SessionId) →
    ParticipantSessionState × List (InstanceId × SessionId)
  | [], reached => reached
  | call :: calls, (model, issued) => performAll calls <| match call.perform model with
    | .ok session next => (next, issued ++ session.toList)
    | .error _ next => (next, issued)

end SessionCall

namespace ParticipantSessionState

/-- The last session that was handed out to an instance. -/
def latestSession (issued : List (InstanceId × SessionId)) (i : InstanceId) : Option SessionId :=
  ((issued.filter fun handed ↦ handed.1 = i).getLast?).map Prod.snd

/-- The sessions that were handed out are the known ones, in sequence; states are recorded for each
of them, and an instance has states of its own only. -/
structure Orderly (model : ParticipantSessionState) (issued : List (InstanceId × SessionId)) :
    Prop where
  numbered : issued.map Prod.snd = List.range' 1 model.nextSessionSequence
  known : ∀ (session : SessionId) (i : InstanceId),
    model.knownSessions[session]? = some i ↔ (i, session) ∈ issued
  live : ∀ (i : InstanceId) (session : SessionId),
    model.liveInstances[i]? = some session → (i, session) ∈ issued
  recorded : ∀ i session, (model.resourcesOf i session).isSome ↔ (i, session) ∈ issued
  own : ∀ i session r p j, (model.stateOf i session r p j).isSome → j = i

section Runs

open SessionMethod

variable {model next : ParticipantSessionState} {issued : List (InstanceId × SessionId)}
  {i : InstanceId} {session : SessionId}

theorem orderly_default : Orderly .default [] where
  numbered := rfl
  known session i := by simp [default]
  live i session found := by simp [default] at found
  recorded i session := by simp [default, resourcesOf]
  own i session r p j found := by simp [default, stateOf, resourcesOf] at found

theorem Orderly.increasing (h : Orderly model issued) :
    (issued.map Prod.snd).Pairwise (· < ·) := by
  rw [h.numbered]
  exact List.pairwise_lt_range'

theorem Orderly.bound {session : ℕ} (h : Orderly model issued) (mem : (i, session) ∈ issued) :
    session ≤ model.nextSessionSequence := by
  have listed : session ∈ issued.map Prod.snd := List.mem_map_of_mem mem
  rw [h.numbered, List.mem_range'_1] at listed
  omega

/-- The latest session has the records that a reconnection takes over. -/
theorem Orderly.latestResources (h : Orderly model issued) (i : InstanceId) :
    model.latestResources i = (latestSession issued i).bind (model.resourcesOf i) := by
  obtain ⟨latest, records, greatest⟩ := latestResources_eq model i
  have ordered : (issued.filter fun handed ↦ handed.1 = i).Pairwise fun first second ↦
      first.2 ≤ second.2 :=
    ((List.pairwise_map.mp h.increasing).imp Nat.le_of_lt).filter _
  unfold latestSession
  cases last : (issued.filter fun handed ↦ handed.1 = i).getLast? with
  | none =>
    have nothing := List.getLast?_eq_none_iff.mp last
    rw [records, Option.map_none, Option.bind_none, ← Option.not_isSome_iff_eq_none, h.recorded]
    intro mem
    have listed : (i, latest) ∈ issued.filter fun handed ↦ handed.1 = i := by simpa using mem
    rw [nothing] at listed
    exact List.not_mem_nil listed
  | some handed =>
    obtain ⟨mem, same⟩ := List.mem_filter.mp (List.mem_of_getLast? last)
    obtain rfl : handed.1 = i := of_decide_eq_true same
    have known : (model.resourcesOf handed.1 handed.2).isSome := (h.recorded _ _).mpr mem
    have le := greatest handed.2 known
    have found : (model.resourcesOf handed.1 latest).isSome := by
      rw [← records, ← Option.ne_none_iff_isSome]
      intro none
      rw [latestResources_eq_none none] at known
      cases known
    have listed : (handed.1, latest) ∈ issued.filter fun other ↦ other.1 = handed.1 :=
      List.mem_filter.mpr ⟨(h.recorded _ _).mp found, decide_eq_true rfl⟩
    have ge : latest ≤ handed.2 := by
      have bound := ordered.rel_getLast listed
      rw [List.getLast?_eq_some_getLast (List.ne_nil_of_mem listed), Option.some.injEq] at last
      rw [last] at bound
      exact bound
    rw [records, Option.map_some, Option.bind_some, le_antisymm ge le]

/-- A new session takes over own states only. -/
theorem Orderly.opens {taken : Option (BTreeMap ResourceId CurrentState)} (h : Orderly model issued)
    (opens : Opens model next i taken)
    (own : ∀ (r : ResourceId) p j, ((taken.bind (·[r]?)).bind (·.state p j)).isSome → j = i) :
    Orderly next (issued ++ [(i, model.nextSessionSequence + 1)]) where
  numbered := by
    rw [List.map_append, h.numbered, opens.nextSessionSequence, List.range'_concat, one_mul,
      Nat.add_comm 1]
    rfl
  known session j := by
    rw [opens.knownSessions, OrderedMap.getElem?_insert, List.mem_append, List.mem_singleton,
      Prod.mk.injEq, ← h.known]
    by_cases same : session = model.nextSessionSequence + 1
    · subst same
      have fresh : model.knownSessions[model.nextSessionSequence + 1]? = none := by
        cases found : model.knownSessions[model.nextSessionSequence + 1]? with
        | none => rfl
        | some j =>
          have bound := h.bound ((h.known _ _).mp found)
          omega
      simp [fresh, eq_comm]
    · simp [same]
  live j session found := by
    rw [opens.liveInstances, OrderedMap.getElem?_insert] at found
    rw [List.mem_append]
    split at found
    · next same =>
      cases found
      exact .inr (by simp [same])
    · exact .inl (h.live j session found)
  recorded j session := by
    rw [List.mem_append, List.mem_singleton, Prod.mk.injEq]
    by_cases here : j = i ∧ session = model.nextSessionSequence + 1
    · obtain ⟨rfl, rfl⟩ := here
      simp [opens.opened]
    · rw [opens.others j session here, h.recorded]
      simp [here]
  own j session r p k found := by
    by_cases here : j = i ∧ session = model.nextSessionSequence + 1
    · obtain ⟨rfl, rfl⟩ := here
      rw [opens.stateOf, Option.isSome_map] at found
      exact own r p k found
    · rw [stateOf, opens.others j session here] at found
      exact h.own j session r p k found

theorem Orderly.records {resource : ResourceId} {states : BTreeMap PartitionId State}
    (h : Orderly model issued) (records : Records model next i session resource states)
    (known : (i, session) ∈ issued) : Orderly next issued where
  numbered := by rw [records.stores.nextSessionSequence, h.numbered]
  known := by
    rw [records.stores.knownSessions]
    exact h.known
  live := by
    rw [records.stores.liveInstances]
    exact h.live
  recorded j other := by
    rw [records.stores.isSome, h.recorded]
    refine ⟨fun now ↦ ?_, .inr⟩
    rcases now with ⟨rfl, rfl⟩ | old
    · exact known
    · exact old
  own j other r p k found := by
    rw [records.stores.stateOf] at found
    split at found
    · next here => exact here.2.2.2.trans here.1.symm
    · rw [Option.none_or] at found
      exact h.own j other r p k found

theorem Orderly.leaves (h : Orderly model issued) (i : InstanceId) :
    Orderly { model with liveInstances := model.liveInstances.erase i } issued where
  numbered := h.numbered
  known := h.known
  live j session found := by
    rw [OrderedMap.getElem?_erase] at found
    split at found
    · cases found
    · exact h.live j session found
  recorded := h.recorded
  own := h.own

/-- What a call can do: fail without a trace, or keep the model orderly. -/
theorem perform_cases (call : SessionCall) (model : ParticipantSessionState) :
    (∃ error, call.perform model = .error error model) ∨
    ∃ handed next, call.perform model = .ok handed next ∧
      ∀ issued, Orderly model issued → Orderly next (issued ++ handed.toList) := by
  cases call with
  | setResourceInitialState resource initial =>
    refine .inr ⟨none, _, rfl, fun issued h ↦ ?_⟩
    rw [Option.toList_none, List.append_nil]
    exact ⟨h.numbered, h.known, h.live, h.recorded, h.own⟩
  | connect i =>
    rcases connect_spec i model with ⟨error, failed⟩ | ⟨next, done, opens⟩
    · exact .inl ⟨error, bind_error failed⟩
    · refine .inr ⟨_, next, bind_ok done, fun issued h ↦ h.opens opens fun r p j found ↦ ?_⟩
      obtain ⟨latest, records, -⟩ := latestResources_eq model i
      rw [records] at found
      exact h.own i latest r p j found
  | disconnect i session =>
    rcases disconnect_spec i session model with ⟨error, failed⟩ | done
    · exact .inl ⟨error, bind_error failed⟩
    · refine .inr ⟨none, _, bind_ok done, fun issued h ↦ ?_⟩
      rw [Option.toList_none, List.append_nil]
      exact h.leaves i
  | expireAndReconnect i oldSession =>
    rcases expireAndReconnect_spec i oldSession model with ⟨error, failed⟩ | ⟨next, done, opens⟩
    · exact .inl ⟨error, bind_error failed⟩
    · exact .inr ⟨_, next, bind_ok done, fun issued h ↦ h.opens opens (h.own i oldSession)⟩
  | publishCurrentState i session resource states =>
    rcases publishCurrentState_spec i session resource states model with
      ⟨error, failed⟩ | ⟨next, done, live, records⟩
    · exact .inl ⟨error, bind_error failed⟩
    · refine .inr ⟨none, next, bind_ok done, fun issued h ↦ ?_⟩
      rw [Option.toList_none, List.append_nil]
      exact h.records records (h.live i session live)
  | injectSessionCurrentState i session resource states =>
    rcases injectSessionCurrentState_spec i session resource states model with
      ⟨error, failed⟩ | ⟨next, done, known, records⟩
    · exact .inl ⟨error, bind_error failed⟩
    · refine .inr ⟨none, next, bind_ok done, fun issued h ↦ ?_⟩
      rw [Option.toList_none, List.append_nil]
      exact h.records records ((h.known session i).mp known)

theorem Orderly.performAll (h : Orderly model issued) (calls : List SessionCall) :
    Orderly (SessionCall.performAll calls (model, issued)).1
      (SessionCall.performAll calls (model, issued)).2 := by
  induction calls generalizing model issued with
  | nil => exact h
  | cons call calls ih =>
    rw [SessionCall.performAll]
    rcases perform_cases call model with ⟨error, failed⟩ | ⟨handed, next, done, keeps⟩
    · rw [failed]
      exact ih h
    · rw [done]
      exact ih (keeps issued h)

/-- The new session has the replicas of the previous one, all in the initial state of their
resource. -/
def TakesOver (model next : ParticipantSessionState) (i : InstanceId) (previous : Option SessionId)
    (session : SessionId) : Prop :=
  next.liveInstances[i]? = some session ∧
  (∀ r : ResourceId, ((next.resourcesOf i session).bind (·[r]?)).isSome =
    ((previous.bind (model.resourcesOf i)).bind (·[r]?)).isSome) ∧
  ∀ r p j, next.stateOf i session r p j =
    (previous.bind (model.stateOf i · r p j)).map fun _ ↦ model.initialState r

/-- At most one resource of one instance is seen to change, and only under its live session. -/
def Confined (model next : ParticipantSessionState) (i : InstanceId) (session : SessionId)
    (resource : ResourceId) : Prop :=
  next.snapshot.1 = model.snapshot.1 ∧
  (∀ j : InstanceId, ¬(j = i ∧ model.liveInstances[i]? = some session) →
    next.snapshot.2[j]? = model.snapshot.2[j]?) ∧
  ∀ after, next.snapshot.2[i]? = some after → ∃ before, model.snapshot.2[i]? = some before ∧
    after.sessionId = before.sessionId ∧
    ∀ r : ResourceId, r ≠ resource → after.resources[r]? = before.resources[r]?

theorem Orderly.takesOver {taken : Option (BTreeMap ResourceId CurrentState)}
    {previous : Option SessionId} (h : Orderly model issued) (opens : Opens model next i taken)
    (same : taken = previous.bind (model.resourcesOf i)) :
    TakesOver model next i previous (model.nextSessionSequence + 1) := by
  refine ⟨?_, fun r ↦ ?_, fun r p j ↦ ?_⟩
  · rw [opens.liveInstances, OrderedMap.getElem?_insert, if_pos rfl]
  · rw [opens.present, same]
  · rw [opens.stateOf, same]
    cases previous with
    | none => rfl
    | some old =>
      change (model.stateOf i old r p j).map _ = (model.stateOf i old r p j).map _
      cases found : model.stateOf i old r p j with
      | none => rfl
      | some state =>
        have own := h.own i old r p j (by rw [found]; rfl)
        rw [Option.map_some, if_pos own, Option.map_some]

theorem getElem?_activeCurrentState (model : ParticipantSessionState) (i : InstanceId) :
    model.activeCurrentState[i]? = (model.liveInstances[i]?).map fun session ↦
      ⟨session, (model.resourcesOf i session).getD ∅⟩ :=
  Std.ExtTreeMap.getElem?_map

theorem confined_of_records {resource : ResourceId} {states : BTreeMap PartitionId State}
    (records : Records model next i session resource states) :
    Confined model next i session resource := by
  obtain ⟨current, resources⟩ := records.resourcesOf
  have live := records.stores.liveInstances
  refine ⟨live, fun j apart ↦ ?_, fun after shown ↦ ?_⟩
  · change next.activeCurrentState[j]? = model.activeCurrentState[j]?
    rw [getElem?_activeCurrentState, getElem?_activeCurrentState, live]
    cases found : model.liveInstances[j]? with
    | none => rfl
    | some other =>
      have elsewhere : ¬(j = i ∧ other = session) := by
        rintro ⟨rfl, rfl⟩
        exact apart ⟨rfl, found⟩
      rw [Option.map_some, Option.map_some, resources, if_neg elsewhere]
  · change next.activeCurrentState[i]? = some after at shown
    change ∃ before, model.activeCurrentState[i]? = some before ∧ _
    rw [getElem?_activeCurrentState, live, Option.map_eq_some_iff] at shown
    obtain ⟨other, found, rfl⟩ := shown
    rw [getElem?_activeCurrentState, found]
    refine ⟨_, rfl, rfl, fun r differs ↦ ?_⟩
    change ((next.resourcesOf i other).getD ∅)[r]? = ((model.resourcesOf i other).getD ∅)[r]?
    rw [resources]
    split
    · next here =>
      rw [here.2, Option.getD_some, OrderedMap.getElem?_insert, if_neg differs]
    · rfl

/-- Sessions, their records and what is seen of them after any calls. -/
theorem session_invariants (calls : List SessionCall) :
    let model := (SessionCall.performAll calls (.default, [])).1
    let issued := (SessionCall.performAll calls (.default, [])).2
    (issued.map Prod.snd).Pairwise (· < ·) ∧
    (∀ (i : InstanceId) (session : SessionId), model.liveInstances[i]? = some session →
      model.knownSessions[session]? = some i ∧ (i, session) ∈ issued) ∧
    (∀ i session next, SessionMethod.connect i model = .ok session next →
      TakesOver model next i (latestSession issued i) session) ∧
    (∀ i oldSession session next, SessionMethod.expireAndReconnect i oldSession model = .ok session next →
      TakesOver model next i (some oldSession) session) ∧
    (∀ i session resource states next,
      SessionMethod.publishCurrentState i session resource states model = .ok () next ∨
      SessionMethod.injectSessionCurrentState i session resource states model = .ok () next →
      Confined model next i session resource) ∧
    ∀ (call : SessionCall) (any next : ParticipantSessionState) (error : SessionError),
      call.perform any = .error error next → next = any := by
  have h := orderly_default.performAll calls
  refine ⟨h.increasing, fun i session found ↦ ?_, fun i session next done ↦ ?_,
    fun i oldSession session next done ↦ ?_, fun i session resource states next done ↦ ?_,
    fun call any next error failed ↦ ?_⟩
  · have mem := h.live i session found
    exact ⟨(h.known session i).mpr mem, mem⟩
  · rcases connect_spec i (SessionCall.performAll calls (.default, [])).1 with
      ⟨error, failed⟩ | ⟨reached, done', opens⟩
    · cases failed.symm.trans done
    · cases done'.symm.trans done
      exact h.takesOver opens (h.latestResources i)
  · rcases expireAndReconnect_spec i oldSession (SessionCall.performAll calls (.default, [])).1 with
      ⟨error, failed⟩ | ⟨reached, done', opens⟩
    · cases failed.symm.trans done
    · cases done'.symm.trans done
      exact h.takesOver opens rfl
  · rcases done with done | done
    · rcases publishCurrentState_spec i session resource states
        (SessionCall.performAll calls (.default, [])).1 with
        ⟨error, failed⟩ | ⟨reached, done', -, records⟩
      · cases failed.symm.trans done
      · cases done'.symm.trans done
        exact confined_of_records records
    · rcases injectSessionCurrentState_spec i session resource states
        (SessionCall.performAll calls (.default, [])).1 with
        ⟨error, failed⟩ | ⟨reached, done', -, records⟩
      · cases failed.symm.trans done
      · cases done'.symm.trans done
        exact confined_of_records records
  · rcases perform_cases call any with ⟨error', failed'⟩ | ⟨handed, reached, done, -⟩
    · cases failed'.symm.trans failed
      rfl
    · cases done.symm.trans failed

end Runs

end ParticipantSessionState

end Clustodian
