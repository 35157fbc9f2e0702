import Clustodian.Lib.CheckedLoop
import Clustodian.Model.Snapshot

namespace Clustodian

inductive SessionError
  | alreadyLive (instance_ : InstanceId)
  | notLive (instance_ : InstanceId)
  | sessionMismatch (instance_ : InstanceId) (expected actual : SessionId)
  | unknownSession (session : SessionId)
  | sessionOwnershipMismatch (instance_ : InstanceId) (session : SessionId) (owner : InstanceId)
  | sessionIdExhausted
  | currentState (error : ReplicaStateError)
  deriving DecidableEq

/-- The participant model without a backend: sessions are handed out in sequence, and states are
kept for every session of an instance. -/
structure ParticipantSessionState where
  nextSessionSequence : ℕ
  knownSessions : BTreeMap SessionId InstanceId
  liveInstances : BTreeMap InstanceId SessionId
  currentStates : BTreeMap InstanceId (BTreeMap SessionId (BTreeMap ResourceId CurrentState))
  defaultInitialState : State
  resourceInitialStates : BTreeMap ResourceId State

namespace ParticipantSessionState

def default : ParticipantSessionState := ⟨0, ∅, ∅, ∅, State.offline, ∅⟩

/-- Records of replicas by partition and instance. -/
abbrev ReplicaRecords := List ((PartitionId ×ₗ InstanceId) × State)

def buildStates (records : ReplicaRecords) : Except SessionError CurrentState :=
  match records.foldlM (fun states record ↦
    states.setState (ofLex record.1).1 (ofLex record.1).2 record.2) (∅ : CurrentState) with
  | .ok states => .ok states
  | .error error => .error (.currentState error)

/-- The records of a state, in the order of their keys. -/
def replicaRecords (states : CurrentState) : ReplicaRecords :=
  states.entries.toList.flatMap fun item ↦
    item.2.toList.map fun replica ↦ (toLex (item.1, replica.1), replica.2)

/-- New states of an instance over the recorded ones. -/
def mergeStates (i : InstanceId) (existing : Option CurrentState)
    (states : BTreeMap PartitionId State) : BTreeMap (PartitionId ×ₗ InstanceId) State :=
  states.toList.foldl (fun merged item ↦ merged.insert (toLex (item.1, i)) item.2)
    ((existing.elim [] replicaRecords).foldl (fun merged record ↦ merged.insert record.1 record.2) ∅)

section Operations

variable (model : ParticipantSessionState)

def requireLiveSession (i : InstanceId) (session : SessionId) : Except SessionError Unit :=
  match model.liveInstances[i]? with
  | some live => if live = session then .ok () else .error (.sessionMismatch i live session)
  | none => .error (.notLive i)

/-- Session numbers are 64 bits wide. -/
def allocateSession (i : InstanceId) : Except SessionError (SessionId × ParticipantSessionState) :=
  let next := model.nextSessionSequence + 1
  if 2 ^ 64 ≤ next then .error .sessionIdExhausted
  else .ok (next, { model with
    nextSessionSequence := next
    knownSessions := model.knownSessions.insert next i })

def initialState (resource : ResourceId) : State :=
  (model.resourceInitialStates[resource]?).getD model.defaultInitialState

/-- The states a new session takes over from the session named, or else from the latest. -/
def carriedCurrentStates (i : InstanceId) (previous : Option SessionId) :
    Except SessionError (BTreeMap ResourceId CurrentState) :=
  let previousResources := (model.currentStates[i]?).bind fun sessions ↦ match previous with
    | some session => sessions[session]?
    | none => sessions.maxKey?.bind (sessions[·]?)
  match previousResources with
  | none => .ok ∅
  | some resources => resources.toList.foldlM (fun carried item ↦ do
      let records := (replicaRecords item.2).map fun record ↦
        (record.1, if (ofLex record.1).2 = i then model.initialState item.1 else record.2)
      let states ← buildStates records
      return carried.insert item.1 states) ∅

def storeCurrentState (i : InstanceId) (session : SessionId) (resource : ResourceId)
    (states : BTreeMap PartitionId State) : Except SessionError ParticipantSessionState := do
  let sessions := (model.currentStates[i]?).getD ∅
  let resources := (sessions[session]?).getD ∅
  let current ← buildStates (mergeStates i resources[resource]? states).toList
  return { model with
    currentStates := model.currentStates.insert i
      (sessions.insert session (resources.insert resource current)) }

/-- Start a new participant incarnation. -/
def connect (i : InstanceId) : Except SessionError (SessionId × ParticipantSessionState) :=
  if i ∈ model.liveInstances then .error (.alreadyLive i)
  else do
    let carried ← model.carriedCurrentStates i none
    let allocated ← model.allocateSession i
    let (session, model) := allocated
    let sessions := (model.currentStates[i]?).getD ∅
    return (session, { model with
      liveInstances := model.liveInstances.insert i session
      currentStates := model.currentStates.insert i (sessions.insert session carried) })

def disconnect (i : InstanceId) (session : SessionId) :
    Except SessionError ParticipantSessionState := do
  model.requireLiveSession i session
  return { model with liveInstances := model.liveInstances.erase i }

def publishCurrentState (i : InstanceId) (session : SessionId) (resource : ResourceId)
    (states : BTreeMap PartitionId State) : Except SessionError ParticipantSessionState := do
  model.requireLiveSession i session
  model.storeCurrentState i session resource states

/-- States of any session that was created here. -/
def injectSessionCurrentState (i : InstanceId) (session : SessionId) (resource : ResourceId)
    (states : BTreeMap PartitionId State) : Except SessionError ParticipantSessionState :=
  match model.knownSessions[session]? with
  | none => .error (.unknownSession session)
  | some owner =>
    if owner ≠ i then .error (.sessionOwnershipMismatch i session owner)
    else model.storeCurrentState i session resource states

/-- The states of the live sessions; with the live sessions they make up `snapshot`. -/
def activeCurrentState : BTreeMap InstanceId ActiveCurrentState :=
  model.liveInstances.map fun i session ↦
    ⟨session, ((model.currentStates[i]?).bind (·[session]?)).getD ∅⟩

end Operations

section Records

variable {states : CurrentState} {p : PartitionId} {j : InstanceId} {value : State}

theorem mem_replicaRecords :
    (toLex (p, j), value) ∈ replicaRecords states ↔ states.state p j = some value := by
  simp only [replicaRecords, List.mem_flatMap, List.mem_map, Prod.exists, OrderedMap.mem_toList,
    Prod.mk.injEq, toLex_inj, ReplicaStates.state, Option.bind_eq_some_iff]
  constructor
  · rintro ⟨partition, instances, found, j', value', found', ⟨rfl, rfl⟩, rfl⟩
    exact ⟨instances, found, found'⟩
  · rintro ⟨instances, found, found'⟩
    exact ⟨p, instances, found, j, value, found', ⟨rfl, rfl⟩, rfl⟩

theorem nodup_replicaRecords (states : CurrentState) :
    ((replicaRecords states).map Prod.fst).Nodup := by
  rw [replicaRecords, List.map_flatMap, List.nodup_flatMap]
  constructor
  · intro item _
    rw [List.map_map]
    have keys := OrderedMap.keys_nodup item.2
    have injective : Function.Injective fun j : InstanceId ↦ toLex (item.1, j) := by
      intro a b same
      simpa using same
    have mapped := keys.map injective
    rw [List.map_map] at mapped
    exact mapped
  · have apart := OrderedMap.keys_nodup states.entries
    rw [List.Nodup, List.pairwise_map] at apart
    refine apart.imp fun {a b} differ ↦ ?_
    rw [Function.onFun, List.disjoint_left]
    intro key left right
    rw [List.map_map] at left right
    obtain ⟨first, -, rfl⟩ := List.mem_map.mp left
    obtain ⟨second, -, same⟩ := List.mem_map.mp right
    exact differ (congrArg (fun key ↦ (ofLex key).1) same).symm

/-- Records of different replicas are all taken. -/
theorem buildStates_ok {records : ReplicaRecords} (nodup : (records.map Prod.fst).Nodup) :
    ∃ states, buildStates records = .ok states ∧
      ∀ p j value, states.state p j = some value ↔ (toLex (p, j), value) ∈ records := by
  suffices loop : ∃ states, records.foldlM (fun states record ↦
      states.setState (ofLex record.1).1 (ofLex record.1).2 record.2) (∅ : CurrentState) = .ok states ∧
      ∀ p j value, states.state p j = some value ↔ (toLex (p, j), value) ∈ records by
    obtain ⟨states, run, spec⟩ := loop
    exact ⟨states, by rw [buildStates, run], spec⟩
  refine CheckedLoop.foldlM_ok (fun done (states : CurrentState) ↦ ∀ p j value,
    states.state p j = some value ↔ (toLex (p, j), value) ∈ done) _ records ∅ (by simp) ?_
  intro done record rest states split spec
  have fresh : record.1 ∉ done.map Prod.fst := by
    rw [split, List.map_append, List.map_cons] at nodup
    exact fun mem ↦ (List.nodup_append.mp nodup).2.2 _ mem _ List.mem_cons_self rfl
  have absent : states.state (ofLex record.1).1 (ofLex record.1).2 = none := by
    cases found : states.state (ofLex record.1).1 (ofLex record.1).2 with
    | none => rfl
    | some value => exact absurd (List.mem_map.mpr ⟨_, (spec _ _ _).mp found, rfl⟩) fresh
  obtain ⟨next, step, after⟩ := ReplicaStates.setState_eq_ok record.2 absent
  refine ⟨next, step, fun p j value ↦ ?_⟩
  rw [after, List.mem_append, List.mem_singleton]
  by_cases same : p = (ofLex record.1).1 ∧ j = (ofLex record.1).2
  · obtain ⟨rfl, rfl⟩ := same
    rw [if_pos ⟨rfl, rfl⟩]
    constructor
    · intro eq
      cases eq
      exact .inr rfl
    · rintro (mem | eq)
      · exact absurd (List.mem_map.mpr ⟨_, mem, rfl⟩) fresh
      · rw [← eq]
  · rw [if_neg same, spec]
    refine ⟨.inl, fun h ↦ h.resolve_right fun eq ↦ same ?_⟩
    rw [← eq]
    exact ⟨rfl, rfl⟩

/-- Inserting pairs of different keys one by one. -/
theorem getElem?_insertAll {α K V : Type} [LinearOrder K] (key : α → K) (value : α → V)
    {items : List α} (nodup : (items.map key).Nodup) (start : Std.ExtTreeMap K V compare) (k : K)
    (v : V) : (items.foldl (fun map item ↦ map.insert (key item) (value item)) start)[k]? = some v ↔
      (∃ item ∈ items, key item = k ∧ value item = v) ∨
        (k ∉ items.map key ∧ start[k]? = some v) := by
  rw [OrderedMap.getElem?_foldl_insert_some key value nodup]
  cases found : items.find? fun item ↦ key item = k with
  | none =>
    have absent : k ∉ items.map key := by
      intro mem
      obtain ⟨item, mem, same⟩ := List.mem_map.mp mem
      simpa [same] using List.find?_eq_none.mp found item mem
    rw [Option.map_none, Option.none_or]
    refine ⟨fun h ↦ .inr ⟨absent, h⟩, fun h ↦ ?_⟩
    rcases h with ⟨item, mem, same, -⟩ | h
    · exact absurd (List.mem_map.mpr ⟨item, mem, same⟩) absent
    · exact h.2
  | some item =>
    have mem := List.mem_of_find?_eq_some found
    have same : key item = k := by simpa using List.find?_some found
    rw [Option.map_some, Option.some_or, Option.some.injEq]
    refine ⟨fun h ↦ .inl ⟨item, mem, same, h⟩, fun h ↦ ?_⟩
    rcases h with ⟨other, mem', same', rfl⟩ | ⟨absent, -⟩
    · rw [List.inj_on_of_nodup_map nodup mem mem' (same.trans same'.symm)]
    · exact absurd (List.mem_map.mpr ⟨item, mem, same⟩) absent

theorem getElem?_mergeStates (i : InstanceId) (existing : Option CurrentState)
    (states : BTreeMap PartitionId State) (p : PartitionId) (j : InstanceId) :
    (mergeStates i existing states)[toLex (p, j)]? =
      (if j = i then states[p]? else none).or (existing.bind (·.state p j)) := by
  have keys : (states.toList.map fun item ↦ toLex (item.1, i)).Nodup := by
    have injective : Function.Injective fun p : PartitionId ↦ toLex (p, i) := by
      intro a b same
      simpa using same
    have mapped := (OrderedMap.keys_nodup states).map injective
    rw [List.map_map] at mapped
    exact mapped
  have base : ∀ value, ((existing.elim [] replicaRecords).foldl
      (fun merged record ↦ merged.insert record.1 record.2)
      (∅ : BTreeMap (PartitionId ×ₗ InstanceId) State))[toLex (p, j)]? = some value ↔
      existing.bind (·.state p j) = some value := by
    intro value
    cases existing with
    | none => simp
    | some current =>
      rw [Option.elim_some, getElem?_insertAll Prod.fst Prod.snd (nodup_replicaRecords current),
        Option.bind_some, ← mem_replicaRecords]
      simp
  refine Option.ext fun value ↦ ?_
  rw [mergeStates, getElem?_insertAll (fun item ↦ toLex (item.1, i)) Prod.snd keys, base]
  simp only [Prod.exists, OrderedMap.mem_toList, toLex_inj, Prod.mk.injEq, List.mem_map, not_exists,
    not_and]
  by_cases same : j = i
  · subst same
    cases found : states[p]? with
    | none =>
      have absent : ∀ q state, states[q]? = some state → q ≠ p := by
        rintro q state present rfl
        rw [found] at present
        cases present
      simpa [found] using fun _ ↦ absent
    | some state => simp [found]
  · simp [same, Ne.symm same]

end Records

section Specification

variable (model : ParticipantSessionState) (i : InstanceId) (session : SessionId)

/-- What is recorded under a session of an instance. -/
def resourcesOf : Option (BTreeMap ResourceId CurrentState) :=
  (model.currentStates[i]?).bind (·[session]?)

/-- The records of the latest session of an instance. -/
def latestResources : Option (BTreeMap ResourceId CurrentState) :=
  (model.currentStates[i]?).bind fun sessions ↦ sessions.maxKey?.bind (sessions[·]?)

variable {model i session}

theorem resourcesOf_insert {resources : BTreeMap ResourceId CurrentState} {next : ParticipantSessionState}
    (h : next.currentStates = model.currentStates.insert i
      (((model.currentStates[i]?).getD ∅).insert session resources)) (j : InstanceId)
    (other : SessionId) : next.resourcesOf j other =
      if j = i ∧ other = session then some resources else model.resourcesOf j other := by
  rw [resourcesOf, resourcesOf, h, OrderedMap.getElem?_insert]
  by_cases same : j = i
  · subst same
    rw [if_pos rfl, Option.bind_some, OrderedMap.getElem?_insert]
    by_cases here : other = session
    · rw [if_pos here, if_pos ⟨rfl, here⟩]
    · rw [if_neg here, if_neg fun h ↦ here h.2]
      cases model.currentStates[j]? with
      | none => simp
      | some sessions => rfl
  · rw [if_neg same, if_neg fun h ↦ same h.1]

theorem latestResources_eq_some {resources : BTreeMap ResourceId CurrentState}
    (h : model.latestResources i = some resources) :
    ∃ latest, model.resourcesOf i latest = some resources ∧
      ∀ other, (model.resourcesOf i other).isSome → other ≤ latest := by
  obtain ⟨sessions, found, h⟩ := Option.bind_eq_some_iff.mp h
  obtain ⟨latest, max, h⟩ := Option.bind_eq_some_iff.mp h
  refine ⟨latest, by rw [resourcesOf, found]; exact h, fun other some ↦ ?_⟩
  rw [resourcesOf, found, Option.bind_some, ← Std.ExtTreeMap.mem_iff_isSome_getElem?] at some
  have bound := (Std.ExtTreeMap.maxKey?_eq_some_iff_mem_and_forall.mp max).2 other some
  exact compare_le_iff_le.mp (Ordering.isLE_iff_ne_gt.mp bound)

theorem latestResources_eq_none (h : model.latestResources i = none) (session : SessionId) :
    model.resourcesOf i session = none := by
  rw [latestResources] at h
  rw [resourcesOf]
  cases found : model.currentStates[i]? with
  | none => rfl
  | some sessions =>
    rw [found, Option.bind_some] at h
    rw [Option.bind_some]
    cases max : sessions.maxKey? with
    | none => rw [Std.ExtTreeMap.maxKey?_eq_none_iff.mp max, Std.ExtTreeMap.getElem?_empty]
    | some latest =>
      rw [max, Option.bind_some, ← OrderedMap.not_mem_iff] at h
      exact absurd (Std.ExtTreeMap.maxKey?_eq_some_iff_mem_and_forall.mp max).1 h

theorem latestResources_eq (model : ParticipantSessionState) (i : InstanceId) :
    ∃ latest, model.latestResources i = model.resourcesOf i latest ∧
      ∀ other, (model.resourcesOf i other).isSome → other ≤ latest := by
  cases found : model.latestResources i with
  | none =>
    refine ⟨0, (latestResources_eq_none found 0).symm, fun other some ↦ ?_⟩
    rw [latestResources_eq_none found other] at some
    cases some
  | some resources =>
    obtain ⟨latest, here, greatest⟩ := latestResources_eq_some found
    exact ⟨latest, here.symm, greatest⟩

/-- New states replace those of the same partitions and join the others. -/
theorem storeCurrentState_ok (model : ParticipantSessionState) (i : InstanceId) (session : SessionId)
    (resource : ResourceId) (states : BTreeMap PartitionId State) :
    ∃ current, model.storeCurrentState i session resource states = .ok { model with
        currentStates := model.currentStates.insert i (((model.currentStates[i]?).getD ∅).insert
          session (((model.resourcesOf i session).getD ∅).insert resource current)) } ∧
      ∀ p j, current.state p j = (if j = i then states[p]? else none).or
        (((model.resourcesOf i session).bind (·[resource]?)).bind (·.state p j)) := by
  have sessions : (((model.currentStates[i]?).getD ∅)[session]?) = model.resourcesOf i session := by
    rw [resourcesOf]
    cases model.currentStates[i]? with
    | none => simp
    | some sessions => rfl
  have old : ∀ p j, (((model.resourcesOf i session).getD ∅)[resource]?).bind (·.state p j) =
      ((model.resourcesOf i session).bind (·[resource]?)).bind (·.state p j) := by
    intro p j
    cases model.resourcesOf i session with
    | none => simp
    | some resources => rfl
  obtain ⟨current, built, spec⟩ := buildStates_ok (OrderedMap.keys_nodup
    (mergeStates i (((model.resourcesOf i session).getD ∅)[resource]?) states))
  refine ⟨current, ?_, fun p j ↦ ?_⟩
  · unfold storeCurrentState
    simp only [sessions, built]
    rfl
  · rw [← old, ← getElem?_mergeStates]
    refine Option.ext fun value ↦ ?_
    rw [spec, OrderedMap.mem_toList]

/-- One resource as a new session takes it over: its own replicas in the initial state. -/
theorem buildStates_carried (model : ParticipantSessionState) (i : InstanceId)
    (item : ResourceId × CurrentState) :
    ∃ states, buildStates ((replicaRecords item.2).map fun record ↦ (record.1,
        if (ofLex record.1).2 = i then model.initialState item.1 else record.2)) = .ok states ∧
      ∀ p j, states.state p j = (item.2.state p j).map fun state ↦
        if j = i then model.initialState item.1 else state := by
  have keys : (((replicaRecords item.2).map fun record ↦ (record.1,
      if (ofLex record.1).2 = i then model.initialState item.1 else record.2)).map Prod.fst).Nodup := by
    rw [List.map_map]
    exact nodup_replicaRecords item.2
  obtain ⟨states, built, spec⟩ := buildStates_ok keys
  refine ⟨states, built, fun p j ↦ Option.ext fun value ↦ ?_⟩
  rw [spec, Option.map_eq_some_iff, List.mem_map]
  constructor
  · rintro ⟨⟨key, old⟩, mem, eq⟩
    cases eq
    exact ⟨old, mem_replicaRecords.mp mem, rfl⟩
  · rintro ⟨old, found, rfl⟩
    exact ⟨_, mem_replicaRecords.mpr found, rfl⟩

/-- Every record of the previous session is taken over. -/
theorem carry_ok (model : ParticipantSessionState) (i : InstanceId)
    (previous : Option (BTreeMap ResourceId CurrentState)) :
    ∃ carried : BTreeMap ResourceId CurrentState, (match previous with
        | none => (.ok ∅ : Except SessionError (BTreeMap ResourceId CurrentState))
        | some resources => resources.toList.foldlM (fun carried (item : ResourceId × CurrentState) ↦ do
            let records := (replicaRecords item.2).map fun (record : (_ ×ₗ InstanceId) × State) ↦
              (record.1, if (ofLex record.1).2 = i then model.initialState item.1 else record.2)
            let states ← buildStates records
            return carried.insert item.1 states) ∅) = .ok carried ∧
      ∀ r : ResourceId, (carried[r]?).isSome = ((previous.bind (·[r]?)).isSome) ∧
        ∀ p j, (carried[r]?).bind (·.state p j) =
          ((previous.bind (·[r]?)).bind (·.state p j)).map fun state ↦
            if j = i then model.initialState r else state := by
  cases previous with
  | none => exact ⟨∅, rfl, fun r ↦ by simp⟩
  | some resources =>
  obtain ⟨carried, run, spec⟩ := CheckedLoop.foldlM_ok
    (fun done (carried : BTreeMap ResourceId CurrentState) ↦ ∀ r,
      (r ∉ done.map Prod.fst → carried[r]? = none) ∧
      ∀ old, (r, old) ∈ done → ∃ current, carried[r]? = some current ∧
        ∀ p j, current.state p j = (old.state p j).map fun state ↦
          if j = i then model.initialState r else state)
    (fun carried item ↦ do
      let states ← buildStates ((replicaRecords item.2).map fun record ↦
        (record.1, if (ofLex record.1).2 = i then model.initialState item.1 else record.2))
      return carried.insert item.1 states) resources.toList ∅ (by simp) (by
    intro done item rest carried split spec
    obtain ⟨states, built, carries⟩ := buildStates_carried model i item
    have fresh := (OrderedMap.visited split).2
    refine ⟨carried.insert item.1 states, by rw [built]; rfl, fun r ↦ ⟨fun absent ↦ ?_, fun old mem ↦ ?_⟩⟩
    · rw [List.map_append, List.mem_append, not_or] at absent
      have other : r ≠ item.1 := fun same ↦ absent.2 (List.mem_singleton.mpr same)
      rw [OrderedMap.getElem?_insert, if_neg other]
      exact (spec r).1 absent.1
    · rw [OrderedMap.getElem?_insert]
      rcases List.mem_append.mp mem with mem | mem
      · have other : r ≠ item.1 := fun same ↦ fresh (same ▸ List.mem_map_of_mem mem)
        rw [if_neg other]
        exact (spec r).2 old mem
      · cases List.mem_singleton.mp mem
        rw [if_pos rfl]
        exact ⟨states, rfl, carries⟩)
  refine ⟨carried, run, fun r ↦ ?_⟩
  rw [Option.bind_some]
  cases found : resources[r]? with
  | none =>
    have absent := (spec r).1 fun mem ↦ by
      rw [OrderedMap.mem_keys, found] at mem
      cases mem
    rw [absent]
    exact ⟨rfl, fun _ _ ↦ rfl⟩
  | some old =>
    obtain ⟨current, here, carries⟩ := (spec r).2 old ((OrderedMap.mem_toList _ _ _).mpr found)
    rw [here]
    exact ⟨rfl, carries⟩

/-- Every record of the latest session is taken over. -/
theorem carriedCurrentStates_ok (model : ParticipantSessionState) (i : InstanceId) :
    ∃ carried, model.carriedCurrentStates i none = .ok carried ∧
      ∀ r, (carried[r]?).isSome = (((model.latestResources i).bind (·[r]?)).isSome) ∧
        ∀ p j, (carried[r]?).bind (·.state p j) =
          (((model.latestResources i).bind (·[r]?)).bind (·.state p j)).map fun state ↦
            if j = i then model.initialState r else state :=
  carry_ok model i (model.latestResources i)

/-- Every record of the session named is taken over. -/
theorem carriedCurrentStates_some_ok (model : ParticipantSessionState) (i : InstanceId)
    (session : SessionId) :
    ∃ carried, model.carriedCurrentStates i (some session) = .ok carried ∧
      ∀ r, (carried[r]?).isSome = (((model.resourcesOf i session).bind (·[r]?)).isSome) ∧
        ∀ p j, (carried[r]?).bind (·.state p j) =
          (((model.resourcesOf i session).bind (·[r]?)).bind (·.state p j)).map fun state ↦
            if j = i then model.initialState r else state :=
  carry_ok model i (model.resourcesOf i session)

end Specification

section Coherence

variable {model next : ParticipantSessionState} {i : InstanceId} {session : SessionId}

/-- The state of a replica as recorded under a session of an instance. -/
def stateOf (model : ParticipantSessionState) (i : InstanceId) (session : SessionId)
    (r : ResourceId) (p : PartitionId) (j : InstanceId) : Option State :=
  ((model.resourcesOf i session).bind (·[r]?)).bind (·.state p j)

/-- Sessions are numbered in sequence and owned by one instance, which records its own states under
them. -/
structure Coherent (model : ParticipantSessionState) : Prop where
  small : model.nextSessionSequence < 2 ^ 64
  bounded : ∀ session i, model.knownSessions[session]? = some i →
    0 < session ∧ session ≤ model.nextSessionSequence
  recorded : ∀ i session, (model.resourcesOf i session).isSome ↔
    model.knownSessions[session]? = some i
  current : ∀ (i : InstanceId) (session : SessionId), model.liveInstances[i]? = some session →
    model.knownSessions[session]? = some i
  own : ∀ i session r p j, (model.stateOf i session r p j).isSome → j = i
  occupied : ∀ i session r, ((model.resourcesOf i session).bind (·[r]?)).isSome →
    ∃ p, (model.stateOf i session r p i).isSome

theorem Coherent.known_of_state (h : Coherent model) {r : ResourceId} {p : PartitionId}
    {j : InstanceId} {state : State} (found : model.stateOf i session r p j = some state) :
    model.knownSessions[session]? = some i := by
  obtain ⟨current, found, -⟩ := Option.bind_eq_some_iff.mp found
  obtain ⟨resources, found, -⟩ := Option.bind_eq_some_iff.mp found
  rw [← h.recorded, found]
  rfl

/-- How states are recorded under a known session. -/
structure Stores (model next : ParticipantSessionState) (i : InstanceId) (session : SessionId)
    (resource : ResourceId) (states : BTreeMap PartitionId State) : Prop where
  nextSessionSequence : next.nextSessionSequence = model.nextSessionSequence
  knownSessions : next.knownSessions = model.knownSessions
  liveInstances : next.liveInstances = model.liveInstances
  initialState : next.initialState = model.initialState
  isSome : ∀ j other, (next.resourcesOf j other).isSome ↔
    (j = i ∧ other = session) ∨ (model.resourcesOf j other).isSome
  present : ∀ j other r, ((next.resourcesOf j other).bind (·[r]?)).isSome ↔
    (j = i ∧ other = session ∧ r = resource) ∨ ((model.resourcesOf j other).bind (·[r]?)).isSome
  stateOf : ∀ j other r p k, next.stateOf j other r p k =
    (if j = i ∧ other = session ∧ r = resource ∧ k = i then states[p]? else none).or
      (model.stateOf j other r p k)

theorem storeCurrentState_stores (model : ParticipantSessionState) (i : InstanceId)
    (session : SessionId) (resource : ResourceId) (states : BTreeMap PartitionId State) :
    ∃ next, model.storeCurrentState i session resource states = .ok next ∧
      Stores model next i session resource states := by
  obtain ⟨current, stored, spec⟩ := storeCurrentState_ok model i session resource states
  refine ⟨_, stored, rfl, rfl, rfl, rfl, fun j other ↦ ?_, fun j other r ↦ ?_, fun j other r p k ↦ ?_⟩
  · rw [resourcesOf_insert rfl]
    by_cases here : j = i ∧ other = session
    · simp [here]
    · simp [here]
  · rw [resourcesOf_insert rfl]
    by_cases here : j = i ∧ other = session
    · obtain ⟨rfl, rfl⟩ := here
      rw [if_pos ⟨rfl, rfl⟩, Option.bind_some, OrderedMap.getElem?_insert]
      by_cases same : r = resource
      · simp [same]
      · rw [if_neg same]
        cases model.resourcesOf j other with
        | none => simp [same]
        | some resources => simp [same]
    · rw [if_neg here]
      exact ⟨.inr, fun h ↦ h.resolve_left fun h ↦ here ⟨h.1, h.2.1⟩⟩
  · rw [ParticipantSessionState.stateOf, ParticipantSessionState.stateOf, resourcesOf_insert rfl]
    by_cases here : j = i ∧ other = session
    · obtain ⟨rfl, rfl⟩ := here
      rw [if_pos ⟨rfl, rfl⟩, Option.bind_some, OrderedMap.getElem?_insert]
      by_cases same : r = resource
      · subst same
        rw [if_pos rfl, Option.bind_some, spec]
        simp
      · rw [if_neg same, if_neg fun h ↦ same h.2.2.1, Option.none_or]
        cases model.resourcesOf j other with
        | none => simp
        | some resources => rfl
    · rw [if_neg here, if_neg fun h ↦ here ⟨h.1, h.2.1⟩, Option.none_or]

/-- Non-empty states of a known session keep the model coherent. -/
theorem Coherent.stores (h : Coherent model) {resource : ResourceId}
    {states : BTreeMap PartitionId State} (stores : Stores model next i session resource states)
    (known : model.knownSessions[session]? = some i) (nonempty : states ≠ ∅) : Coherent next where
  small := stores.nextSessionSequence ▸ h.small
  bounded other j found := by
    rw [stores.knownSessions] at found
    rw [stores.nextSessionSequence]
    exact h.bounded other j found
  recorded j other := by
    rw [stores.isSome, stores.knownSessions, h.recorded]
    refine ⟨fun now ↦ ?_, .inr⟩
    rcases now with ⟨rfl, rfl⟩ | old
    · exact known
    · exact old
  current j other found := by
    rw [stores.liveInstances] at found
    rw [stores.knownSessions]
    exact h.current j other found
  own j other r p k found := by
    rw [stores.stateOf] at found
    split at found
    · next here => exact here.2.2.2.trans here.1.symm
    · rw [Option.none_or] at found
      exact h.own j other r p k found
  occupied j other r found := by
    rw [stores.present] at found
    rcases found with ⟨rfl, rfl, rfl⟩ | old
    · obtain ⟨p, state, here⟩ : ∃ (p : PartitionId) (state : State), states[p]? = some state := by
        by_contra none
        refine nonempty (OrderedMap.ext fun p ↦ ?_)
        cases here : states[p]? with
        | none => simp
        | some state => exact absurd ⟨p, state, here⟩ none
      refine ⟨p, ?_⟩
      rw [stores.stateOf, if_pos ⟨rfl, rfl, rfl, rfl⟩, here]
      rfl
    · obtain ⟨p, here⟩ := h.occupied j other r old
      refine ⟨p, ?_⟩
      rw [stores.stateOf]
      simp [here]

/-- How an instance comes back: under the next number, with the records of its latest session. -/
structure Connects (model next : ParticipantSessionState) (i : InstanceId) : Prop where
  nextSessionSequence : next.nextSessionSequence = model.nextSessionSequence + 1
  knownSessions : next.knownSessions =
    model.knownSessions.insert (model.nextSessionSequence + 1) i
  liveInstances : next.liveInstances = model.liveInstances.insert i (model.nextSessionSequence + 1)
  initialState : next.initialState = model.initialState
  isSome : ∀ j other, (next.resourcesOf j other).isSome ↔
    (j = i ∧ other = model.nextSessionSequence + 1) ∨ (model.resourcesOf j other).isSome
  present : ∀ j other (r : ResourceId), ((next.resourcesOf j other).bind (·[r]?)).isSome =
    if j = i ∧ other = model.nextSessionSequence + 1 then
      ((model.latestResources i).bind (·[r]?)).isSome
    else ((model.resourcesOf j other).bind (·[r]?)).isSome
  stateOf : ∀ j other r p k, next.stateOf j other r p k =
    if j = i ∧ other = model.nextSessionSequence + 1 then
      (((model.latestResources i).bind (·[r]?)).bind (·.state p k)).map fun state ↦
        if k = i then model.initialState r else state
    else model.stateOf j other r p k

theorem connect_exhausted (h : model.liveInstances[i]? = none)
    (full : 2 ^ 64 ≤ model.nextSessionSequence + 1) :
    model.connect i = .error .sessionIdExhausted := by
  obtain ⟨carried, hcarried, -⟩ := carriedCurrentStates_ok model i
  rw [connect, if_neg ((OrderedMap.not_mem_iff _ _).mpr h), hcarried, allocateSession]
  simp only [if_pos full]
  rfl

theorem connect_connects (h : model.liveInstances[i]? = none)
    (room : ¬2 ^ 64 ≤ model.nextSessionSequence + 1) :
    ∃ next, model.connect i = .ok (model.nextSessionSequence + 1, next) ∧ Connects model next i := by
  obtain ⟨carried, hcarried, spec⟩ := carriedCurrentStates_ok model i
  have resources : ∀ next : ParticipantSessionState, next.currentStates = model.currentStates.insert i
      (((model.currentStates[i]?).getD ∅).insert (model.nextSessionSequence + 1) carried) →
      next.nextSessionSequence = model.nextSessionSequence + 1 →
      next.knownSessions = model.knownSessions.insert (model.nextSessionSequence + 1) i →
      next.liveInstances = model.liveInstances.insert i (model.nextSessionSequence + 1) →
      next.initialState = model.initialState → Connects model next i := by
    intro next states sequence known live initial
    refine ⟨sequence, known, live, initial, fun j other ↦ ?_, fun j other r ↦ ?_,
      fun j other r p k ↦ ?_⟩
    · rw [resourcesOf_insert states]
      by_cases here : j = i ∧ other = model.nextSessionSequence + 1
      · simp [here]
      · simp [here]
    · rw [resourcesOf_insert states]
      by_cases here : j = i ∧ other = model.nextSessionSequence + 1
      · rw [if_pos here, if_pos here, Option.bind_some, (spec r).1]
      · rw [if_neg here, if_neg here]
    · rw [ParticipantSessionState.stateOf, resourcesOf_insert states]
      by_cases here : j = i ∧ other = model.nextSessionSequence + 1
      · rw [if_pos here, if_pos here, Option.bind_some, (spec r).2]
      · rw [if_neg here, if_neg here]
        rfl
  refine ⟨⟨model.nextSessionSequence + 1,
    model.knownSessions.insert (model.nextSessionSequence + 1) i,
    model.liveInstances.insert i (model.nextSessionSequence + 1), model.currentStates.insert i
      (((model.currentStates[i]?).getD ∅).insert (model.nextSessionSequence + 1) carried),
    model.defaultInitialState, model.resourceInitialStates⟩, ?_, resources _ rfl rfl rfl rfl rfl⟩
  rw [connect, if_neg ((OrderedMap.not_mem_iff _ _).mpr h), hcarried, allocateSession]
  simp only [if_neg room]
  rfl

/-- The next number has not been handed out. -/
theorem Coherent.unknown (h : Coherent model) :
    model.knownSessions[model.nextSessionSequence + 1]? = none := by
  cases found : model.knownSessions[model.nextSessionSequence + 1]? with
  | none => rfl
  | some j =>
    have bound := (h.bounded _ _ found).2
    omega

theorem Coherent.unrecorded (h : Coherent model) (i : InstanceId) :
    model.resourcesOf i (model.nextSessionSequence + 1) = none := by
  rw [← Option.not_isSome_iff_eq_none, h.recorded, h.unknown]
  exact fun same ↦ nomatch same

theorem Coherent.known_connects (h : Coherent model) (connects : Connects model next i)
    (session : SessionId) (j : InstanceId) : next.knownSessions[session]? = some j ↔
      (j = i ∧ session = model.nextSessionSequence + 1) ∨ model.knownSessions[session]? = some j := by
  rw [connects.knownSessions, OrderedMap.getElem?_insert]
  by_cases same : session = model.nextSessionSequence + 1
  · subst same
    simp [h.unknown, eq_comm]
  · simp [same]

theorem Coherent.connects (h : Coherent model) (connects : Connects model next i)
    (room : ¬2 ^ 64 ≤ model.nextSessionSequence + 1) : Coherent next := by
  have known := h.known_connects connects
  obtain ⟨previous, latest, -⟩ := latestResources_eq model i
  constructor
  · rw [connects.nextSessionSequence]
    exact Nat.not_le.mp room
  · intro session j found
    rw [connects.nextSessionSequence]
    rcases (known session j).mp found with ⟨-, rfl⟩ | old
    · exact ⟨Nat.succ_pos _, le_rfl⟩
    · obtain ⟨positive, bound⟩ := h.bounded session j old
      exact ⟨positive, by omega⟩
  · intro j session
    rw [connects.isSome, known, h.recorded]
  · intro j session found
    rw [connects.liveInstances, OrderedMap.getElem?_insert] at found
    rw [known]
    split at found
    · next same =>
      cases found
      exact .inl ⟨same, rfl⟩
    · exact .inr (h.current j session found)
  · intro j session r p k found
    rw [connects.stateOf] at found
    split at found
    · next here =>
      rw [Option.isSome_map, latest] at found
      rw [here.1]
      exact h.own i previous r p k found
    · exact h.own j session r p k found
  · intro j session r found
    rw [connects.present] at found
    split at found
    · next here =>
      rw [latest] at found
      obtain ⟨p, state⟩ := h.occupied i previous r found
      refine ⟨p, ?_⟩
      rw [connects.stateOf, if_pos here, Option.isSome_map, latest, here.1]
      exact state
    · next other =>
      obtain ⟨p, here⟩ := h.occupied j session r found
      refine ⟨p, ?_⟩
      rw [connects.stateOf, if_neg other]
      exact here

theorem Coherent.disconnects (h : Coherent model) (i : InstanceId) :
    Coherent { model with liveInstances := model.liveInstances.erase i } where
  small := h.small
  bounded := h.bounded
  recorded := h.recorded
  current j session found := by
    rw [OrderedMap.getElem?_erase] at found
    split at found
    · cases found
    · exact h.current j session found
  own := h.own
  occupied := h.occupied

theorem requireLiveSession_ok (model : ParticipantSessionState) (i : InstanceId) (session : SessionId) :
    model.requireLiveSession i session = .ok () ↔ model.liveInstances[i]? = some session := by
  unfold requireLiveSession
  split
  · next live found =>
    rw [found, Option.some.injEq]
    split
    · next same => exact ⟨fun _ ↦ same, fun _ ↦ rfl⟩
    · next differ => exact ⟨fun h ↦ (nomatch h), fun same ↦ absurd same differ⟩
  · next absent =>
    rw [absent]
    exact ⟨fun h ↦ (nomatch h), fun h ↦ (nomatch h)⟩

end Coherence

end ParticipantSessionState

end Clustodian
