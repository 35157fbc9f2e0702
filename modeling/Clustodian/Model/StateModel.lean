import Clustodian.Model.Names

namespace Clustodian

structure Transition where
  source : State
  target : State
  deriving DecidableEq

/-- The symbolic bound attached to a state: a fixed count, `R`, `N` or `-1`. -/
inductive StateCardinality
  | exact (count : ℕ)
  | replicaCount
  | nodeCount
  | unbounded
  deriving DecidableEq

structure StateModelDefinition where
  name : String
  initialState : State
  statesByPriority : List State
  transitionsByPriority : List Transition
  cardinalities : BTreeMap State StateCardinality
  nextStates : BTreeMap State (BTreeMap State State)
  nonempty : statesByPriority ≠ []

namespace StateModelDefinition

def cardinalityFor (model : StateModelDefinition) (state : State) : Option StateCardinality :=
  model.cardinalities[state]?

def highestPriorityState (model : StateModelDefinition) : State :=
  model.statesByPriority.head model.nonempty

def nextStateToward (model : StateModelDefinition) (source target : State) : Option State :=
  model.nextStates[source]?.bind (·[target]?)

/-- The declared state named `DROPPED`, looked up by its text as the controller stages do. -/
def dropped (model : StateModelDefinition) : Option State :=
  model.statesByPriority.find? (·.asStr == "DROPPED")

end StateModelDefinition

inductive StateModelError
  | emptyModelName
  | noStates
  | missingInitialState
  | unknownInitialState (state : State)
  | missingDroppedState
  | noPathToDropped (state : State)
  | duplicateState (state : State)
  | unknownTransitionState (transition : Transition) (endpoint : State)
  | duplicateTransition (transition : Transition)
  deriving DecidableEq

/-- The two square tables of the next-hop construction, indexed by state position. -/
structure HopTables where
  distances : List (List (Option ℕ))
  next : List (List (Option ℕ))

namespace HopTables

def cell (table : List (List (Option ℕ))) (source target : ℕ) : Option ℕ :=
  (table[source]?.bind (·[target]?)).join

def setCell (table : List (List (Option ℕ))) (source target : ℕ) (value : Option ℕ) :
    List (List (Option ℕ)) :=
  table.modify source (·.set target value)

def record (tables : HopTables) (source target distance : ℕ) (hop : Option ℕ) : HopTables :=
  ⟨setCell tables.distances source target (some distance), setCell tables.next source target hop⟩

def start (n : ℕ) : HopTables :=
  let empty := List.replicate n (List.replicate n none)
  (List.range n).foldl (fun tables index ↦ tables.record index index 0 (some index)) ⟨empty, empty⟩

/-- One comparison of the ordered construction; equal lengths keep the earlier path. -/
def relax (tables : HopTables) (intermediate source target : ℕ) : HopTables :=
  match cell tables.distances source intermediate, cell tables.distances intermediate target with
  | some left, some right =>
    if (cell tables.distances source target).all (fun current ↦ left + right < current) then
      tables.record source target (left + right) (cell tables.next source intermediate)
    else tables
  | _, _ => tables

end HopTables

def buildTransitionTable (states : List State) (transitions : List Transition) :
    BTreeMap State (BTreeMap State State) :=
  let n := states.length
  let direct := transitions.foldl (fun tables transition ↦
    let source := states.idxOf transition.source
    let target := states.idxOf transition.target
    tables.record source target 1 (some target)) (HopTables.start n)
  let closed := (List.range n).foldl (fun tables intermediate ↦
    (List.range n).foldl (fun tables source ↦
      (List.range n).foldl (fun tables target ↦ tables.relax intermediate source target)
        tables) tables) direct
  states.zipIdx.foldl (fun table (state, source) ↦
    let targets := states.zipIdx.foldl (fun targets (other, target) ↦
      if source = target then targets
      else match (HopTables.cell closed.next source target).bind (states[·]?) with
        | some hop => targets.insert other hop
        | none => targets) (∅ : BTreeMap State State)
    table.insert state targets) ∅

structure StateModelBuilder where
  name : String
  initialState : Option State
  states : List (State × StateCardinality)
  transitions : List Transition

namespace StateModelBuilder

def checkStates : List (State × StateCardinality) → List State → Except StateModelError Unit
  | [], _ => .ok ()
  | (state, _) :: rest, seen =>
    if state ∈ seen then .error (.duplicateState state) else checkStates rest (state :: seen)

def checkTransitions (states : List State) :
    List Transition → List Transition → Except StateModelError Unit
  | [], _ => .ok ()
  | transition :: rest, seen =>
    if transition.source ∉ states then
      .error (.unknownTransitionState transition transition.source)
    else if transition.target ∉ states then
      .error (.unknownTransitionState transition transition.target)
    else if transition ∈ seen then .error (.duplicateTransition transition)
    else checkTransitions states rest (transition :: seen)

def checkPaths (next : BTreeMap State (BTreeMap State State)) (dropped : State) :
    List State → Except StateModelError Unit
  | [] => .ok ()
  | state :: rest =>
    if state ≠ dropped ∧ (next[state]?.bind (·[dropped]?)) = none then
      .error (.noPathToDropped state)
    else checkPaths next dropped rest

def build (builder : StateModelBuilder) : Except StateModelError StateModelDefinition := do
  if builder.name = "" then throw .emptyModelName
  if h : builder.states = [] then throw .noStates
  else
    checkStates builder.states []
    let states := builder.states.map Prod.fst
    let some initial := builder.initialState | throw .missingInitialState
    if initial ∉ states then throw (.unknownInitialState initial)
    checkTransitions states builder.transitions []
    let next := buildTransitionTable states builder.transitions
    let some dropped := states.find? (·.asStr == "DROPPED") | throw .missingDroppedState
    checkPaths next dropped states
    return {
      name := builder.name
      initialState := initial
      statesByPriority := states
      transitionsByPriority := builder.transitions
      cardinalities := builder.states.foldl (fun map (state, card) ↦ map.insert state card) ∅
      nextStates := next
      nonempty := by simpa [states] using h }

end StateModelBuilder

namespace State

def leader : State := ⟨"LEADER", by decide⟩
def standby : State := ⟨"STANDBY", by decide⟩
def offline : State := ⟨"OFFLINE", by decide⟩
def dropped : State := ⟨"DROPPED", by decide⟩
def error : State := ⟨"ERROR", by decide⟩

end State

def leaderStandbyBuilder : StateModelBuilder where
  name := "LeaderStandby"
  initialState := some State.offline
  states := [(State.leader, .exact 1), (State.standby, .replicaCount),
    (State.offline, .unbounded), (State.dropped, .unbounded)]
  transitions := [⟨State.leader, State.standby⟩, ⟨State.standby, State.leader⟩,
    ⟨State.offline, State.standby⟩, ⟨State.standby, State.offline⟩,
    ⟨State.offline, State.dropped⟩]

theorem leaderStandby_builds : leaderStandbyBuilder.build.isOk = true := by decide +kernel

/-- The built-in definition: the builder is valid, so `expect` never fails. -/
def leaderStandby : StateModelDefinition :=
  match leaderStandbyBuilder.build, leaderStandby_builds with
  | .ok model, _ => model

namespace leaderStandby

open State

/-- The built model. -/
theorem built : leaderStandby.statesByPriority = [leader, standby, offline, dropped] ∧
    leaderStandby.transitionsByPriority = leaderStandbyBuilder.transitions ∧
    leaderStandby.initialState = offline ∧ leaderStandby.highestPriorityState = leader ∧
    leaderStandby.dropped = some dropped ∧
    leaderStandby.cardinalities =
      ((((∅ : BTreeMap State StateCardinality).insert leader (.exact 1)).insert standby
        .replicaCount).insert offline .unbounded).insert dropped .unbounded ∧
    leaderStandby.nextStates =
      ((((∅ : BTreeMap State (BTreeMap State State)).insert leader
        (((∅ : BTreeMap State State).insert standby standby).insert offline standby |>.insert
          dropped standby)).insert standby
        (((∅ : BTreeMap State State).insert leader leader).insert offline offline |>.insert
          dropped offline)).insert offline
        (((∅ : BTreeMap State State).insert leader standby).insert standby standby |>.insert
          dropped dropped)).insert dropped ∅ := by decide +kernel

theorem statesByPriority_eq :
    leaderStandby.statesByPriority = [leader, standby, offline, dropped] := built.1

theorem transitionsByPriority_eq : leaderStandby.transitionsByPriority =
    leaderStandbyBuilder.transitions := built.2.1

theorem initialState_eq : leaderStandby.initialState = offline := built.2.2.1

theorem highestPriorityState_eq : leaderStandby.highestPriorityState = leader := built.2.2.2.1

theorem dropped_eq : leaderStandby.dropped = some dropped := built.2.2.2.2.1

theorem cardinalities_eq : leaderStandby.cardinalities =
    ((((∅ : BTreeMap State StateCardinality).insert leader (.exact 1)).insert standby .replicaCount).insert
      offline .unbounded).insert dropped .unbounded := built.2.2.2.2.2.1

theorem nextStates_eq : leaderStandby.nextStates =
    ((((∅ : BTreeMap State (BTreeMap State State)).insert leader
      (((∅ : BTreeMap State State).insert standby standby).insert offline standby |>.insert
        dropped standby)).insert standby
      (((∅ : BTreeMap State State).insert leader leader).insert offline offline |>.insert
        dropped offline)).insert offline
      (((∅ : BTreeMap State State).insert leader standby).insert standby standby |>.insert
        dropped dropped)).insert dropped ∅ := built.2.2.2.2.2.2

theorem distinct : [leader, standby, offline, dropped, error].Nodup := by decide

theorem distinct_pairs : leader ≠ standby ∧ leader ≠ offline ∧ leader ≠ dropped ∧ standby ≠ offline ∧
    standby ≠ dropped ∧ offline ≠ dropped := by decide

/-- The next-hop table written out: every path to `DROPPED` runs through `OFFLINE`. -/
theorem nextStateToward_eq (source target : State) :
    leaderStandby.nextStateToward source target =
      if source = leader then
        if target = standby ∨ target = offline ∨ target = dropped then some standby else none
      else if source = standby then
        if target = leader then some leader
        else if target = offline ∨ target = dropped then some offline else none
      else if source = offline then
        if target = leader ∨ target = standby then some standby
        else if target = dropped then some dropped else none
      else none := by
  obtain ⟨h1, h2, h3, h4, h5, h6⟩ := distinct_pairs
  unfold StateModelDefinition.nextStateToward
  rw [leaderStandby.nextStates_eq]
  simp only [Std.ExtTreeMap.getElem?_insert, compare_eq_iff_eq, Std.ExtTreeMap.getElem?_empty]
  by_cases hl : source = leader
  · subst hl
    simp only [h1.symm, h2.symm, h3.symm, if_false, if_true, Option.bind_some,
      Std.ExtTreeMap.getElem?_insert, compare_eq_iff_eq, Std.ExtTreeMap.getElem?_empty]
    grind
  by_cases hs : source = standby
  · subst hs
    simp only [h4.symm, h5.symm, h1.symm, if_false, if_true, Option.bind_some,
      Std.ExtTreeMap.getElem?_insert, compare_eq_iff_eq, Std.ExtTreeMap.getElem?_empty]
    grind
  by_cases ho : source = offline
  · subst ho
    simp only [h6.symm, h4.symm, h2.symm, if_false, if_true, Option.bind_some,
      Std.ExtTreeMap.getElem?_insert, compare_eq_iff_eq, Std.ExtTreeMap.getElem?_empty]
    grind
  · simp only [hl, hs, ho, Ne.symm hl, Ne.symm hs, Ne.symm ho, if_false]
    split <;> simp

theorem declared_of_next {source desired target : State}
    (h : leaderStandby.nextStateToward source desired = some target) :
    ⟨source, target⟩ ∈ leaderStandby.transitionsByPriority := by
  rw [nextStateToward_eq] at h
  rw [transitionsByPriority_eq, leaderStandbyBuilder]
  simp only [List.mem_cons, Transition.mk.injEq, List.not_mem_nil, or_false]
  split_ifs at h <;> simp_all

theorem next_dropped_of_declared {source target : State}
    (h : ⟨source, target⟩ ∈ leaderStandby.transitionsByPriority) :
    leaderStandby.nextStateToward source dropped = some target ↔
      target = offline ∨ target = dropped ∨ (source = leader ∧ target = standby) := by
  obtain ⟨h1, h2, h3, h4, h5, h6⟩ := distinct_pairs
  rw [transitionsByPriority_eq, leaderStandbyBuilder] at h
  simp only [List.mem_cons, Transition.mk.injEq, List.not_mem_nil, or_false] at h
  rw [nextStateToward_eq]
  rcases h with ⟨rfl, rfl⟩ | ⟨rfl, rfl⟩ | ⟨rfl, rfl⟩ | ⟨rfl, rfl⟩ | ⟨rfl, rfl⟩ <;> grind

end leaderStandby

end Clustodian
