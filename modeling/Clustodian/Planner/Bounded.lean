import Clustodian.Lib.Greedy
import Clustodian.Model.TransitionTable
import Clustodian.Planner.Selection

namespace Clustodian

namespace StateModelDefinition

/-- How many replicas of a partition may be in a state, where the model says so. -/
def boundOf (model : StateModelDefinition) (liveInstanceCount : ℕ) (state : State) : Option ℕ :=
  match model.cardinalityFor state with
  | some (.exact value) => some value
  | some .nodeCount => some liveInstanceCount
  | some .replicaCount | some .unbounded | none => none

end StateModelDefinition

theorem leaderStandby.build_eq : leaderStandbyBuilder.build = .ok leaderStandby := by
  unfold leaderStandby
  generalize leaderStandby_builds = builds
  revert builds
  generalize leaderStandbyBuilder.build = built
  intro builds
  cases built with
  | error e => cases builds
  | ok model => rfl

namespace Selection

section Bounds

variable {model : StateModelDefinition}

theorem getElem?_foldl_stateBounds (n : ℕ) (states : List State) (start : BTreeMap State ℕ)
    (state : State) : (states.foldl (fun bounds state ↦
      match model.cardinalityFor state with
      | some (.exact value) => bounds.insert state value
      | some .nodeCount => bounds.insert state n
      | some .replicaCount | some .unbounded | none => bounds) start)[state]? =
      if state ∈ states then (model.boundOf n state).or start[state]? else start[state]? := by
  induction states generalizing start with
  | nil => simp
  | cons first states ih =>
    have step : (match model.cardinalityFor first with
        | some (.exact value) => start.insert first value
        | some .nodeCount => start.insert first n
        | some .replicaCount | some .unbounded | none => start)[state]? =
        if state = first then (model.boundOf n state).or start[state]? else start[state]? := by
      by_cases same : state = first
      · subst same
        unfold StateModelDefinition.boundOf
        rw [if_pos rfl]
        split <;> simp_all
      · rw [if_neg same]
        split <;> simp [OrderedMap.getElem?_insert, same]
    rw [List.foldl_cons, ih, step]
    by_cases same : state = first
    · simp only [same, List.mem_cons, true_or, if_true]
      split
      · rw [← Option.or_assoc, Option.or_self]
      · rfl
    · simp only [same, if_false, List.mem_cons, false_or]

theorem getElem?_stateBounds {builder : StateModelBuilder} (published : builder.Publishes model)
    (n : ℕ) (state : State) : (stateBounds model n)[state]? = model.boundOf n state := by
  refine (getElem?_foldl_stateBounds n model.statesByPriority ∅ state).trans ?_
  simp only [Std.ExtTreeMap.getElem?_empty, Option.or_none]
  by_cases known : state ∈ model.statesByPriority
  · exact if_pos known
  · rw [if_neg known]
    have undeclared : model.cardinalityFor state = none :=
      Option.eq_none_iff_forall_ne_some.mpr fun _ found ↦ known (published.declared found)
    rw [StateModelDefinition.boundOf, undeclared]

end Bounds

/-- The counting pass takes the greedy choice under the room that the counts leave. -/
theorem foldl_selectCandidate_eq_pick (bounds : BTreeMap State ℕ)
    (candidates : List TransitionRequest) (counts : BTreeMap State ℕ)
    (taken : List TransitionRequest) :
    (candidates.foldl (selectCandidate bounds) (counts, taken)).2 =
      taken ++ Greedy.pick TransitionRequest.targetState
        (fun s ↦ bounds[s]?.map (· - countOf counts s)) candidates := by
  induction candidates generalizing counts taken with
  | nil => simp [Greedy.pick]
  | cons c candidates ih =>
    rw [List.foldl_cons, Greedy.pick]
    cases bound : bounds[c.targetState]? with
    | none =>
      have free : selectCandidate bounds (counts, taken) c = (counts, taken ++ [c]) := by
        have unbounded : c.targetState ∉ bounds := (OrderedMap.not_mem_iff _ _).mpr bound
        simp [selectCandidate, increaseStateCount, unbounded]
      rw [free, ih, List.append_assoc]
      rfl
    | some b =>
      have bounded : c.targetState ∈ bounds := (OrderedMap.mem_iff _ _).mpr ⟨b, bound⟩
      cases room : b - countOf counts c.targetState with
      | zero =>
        have skip : selectCandidate bounds (counts, taken) c = (counts, taken) := by
          refine if_pos ?_
          simp only [bound, Option.any_some, decide_eq_true_eq]
          exact Nat.lt_succ_of_le (Nat.sub_eq_zero_iff_le.mp room)
        simp only [Option.map_some]
        rw [skip, ih, room]
      | succ left =>
        have take : selectCandidate bounds (counts, taken) c =
            (increaseStateCount bounds c.targetState counts, taken ++ [c]) := by
          refine if_neg ?_
          simp only [bound, Option.any_some, decide_eq_true_eq, not_lt]
          exact Nat.lt_of_sub_eq_succ room
        have shrunk : (fun s ↦ bounds[s]?.map
              (· - countOf (increaseStateCount bounds c.targetState counts) s)) =
            Function.update (fun s ↦ bounds[s]?.map (· - countOf counts s)) c.targetState
              (some left) := by
          funext s
          by_cases same : s = c.targetState
          · subst same
            rw [Function.update_self, bound, countOf_increase bounded, if_pos rfl, Option.map_some]
            exact congrArg some (by omega)
          · rw [Function.update_of_ne same]
            cases other : bounds[s]? with
            | none => rfl
            | some b' =>
              rw [countOf_increase ((OrderedMap.mem_iff _ _).mpr ⟨b', other⟩), if_neg (Ne.symm same)]
              rfl
        simp only [Option.map_some]
        rw [take, ih, List.append_assoc, shrunk, room]
        rfl

section Stage

variable {resource : ResourceId} {ideal : IdealState} {current : CurrentState}
  {live : BTreeSet InstanceId} {model : StateModelDefinition} {candidates : List TransitionRequest}
  {pending : List PendingTransition}

/-- Replicas that are in a state before the selection, or that a transition in flight moves. -/
def base (current : CurrentState) (live : BTreeSet InstanceId) (model : StateModelDefinition)
    (pending : List PendingTransition) (partition : PartitionId) (state : State) : ℕ :=
  occupancy current live model partition (pending.filter fun t ↦ t.partition = partition) state

/-- What the bounds leave for each state before anything is selected. -/
def roomFor (current : CurrentState) (live : BTreeSet InstanceId) (model : StateModelDefinition)
    (pending : List PendingTransition) (partition : PartitionId) (state : State) : Option ℕ :=
  (model.boundOf live.size state).map (· - base current live model pending partition state)

theorem chosen_eq_pick {builder : StateModelBuilder} (published : builder.Publishes model)
    (partition : PartitionId) :
    chosen current live model candidates pending partition =
      Greedy.pick TransitionRequest.targetState
        (roomFor current live model pending partition)
        ((candidates.filter fun c ↦ c.partition = partition).insertionSort
          fun left right ↦ transitionPriority model left ≤ transitionPriority model right) := by
  rw [chosen, selectPartition, Greedy.flatMap_groupBy, foldl_selectCandidate_eq_pick,
    List.nil_append]
  congr 1
  funext s
  rw [roomFor, getElem?_stateBounds published]
  cases bound : model.boundOf live.size s with
  | none => rfl
  | some b =>
    have bounded : s ∈ stateBounds model live.size :=
      (OrderedMap.mem_iff _ _).mpr ⟨b, (getElem?_stateBounds published _ _).trans bound⟩
    rw [countOf_countStates bounded]
    rfl

theorem toList_nodup {K : Type} [LinearOrder K] (set : BTreeSet K) : set.toList.Nodup :=
  Std.ExtTreeSet.distinct_toList.imp fun differ same ↦ differ (compare_eq_iff_eq.mpr same)

/-- A successful stage lines up what it selects in each partition. -/
theorem selectTransitions_filter {selected : List TransitionRequest}
    (run : selectTransitions resource ideal current live candidates pending model = .ok selected)
    (partition : PartitionId) : selected.filter (fun t ↦ t.partition = partition) =
      chosen current live model candidates pending partition := by
  obtain ⟨_, -, run⟩ := CheckedLoop.bind_eq_ok.mp run
  obtain ⟨_, -, run⟩ := CheckedLoop.bind_eq_ok.mp run
  cases run
  suffices general : ∀ (set : BTreeSet PartitionId) (group : PartitionId → List TransitionRequest),
      (∀ c ∈ candidates, c.partition ∈ set.toList) →
      (∀ p, group p = chosen current live model candidates pending p) →
      (set.toList.flatMap group).filter (fun t ↦ t.partition = partition) =
        chosen current live model candidates pending partition from
    general _ _ (fun c mem ↦ by
      rw [Std.ExtTreeSet.mem_toList, OrderedMap.mem_foldl_insert, Std.ExtTreeMap.mem_keys,
        Std.ExtTreeMap.mem_iff_isSome_getElem?]
      have filled : c ∈ candidates.filter fun d ↦ d.partition = c.partition := by simpa using mem
      rw [← OrderedMap.getElem?_groupBy] at filled
      cases found : (OrderedMap.groupBy TransitionRequest.partition candidates)[c.partition]? with
      | none =>
        rw [found] at filled
        cases filled
      | some group => exact .inl rfl) fun p ↦ by
        have bucket := OrderedMap.getElem?_groupBy TransitionRequest.partition candidates p
        rw [chosen, OrderedMap.getElem?_groupBy, ← bucket]
        cases found : (OrderedMap.groupBy TransitionRequest.partition candidates)[p]? <;> rfl
  intro set group covered same
  have own : ∀ p, ∀ t ∈ group p, t.partition = p := by
    intro p t mem
    rw [same] at mem
    exact (mem_of_mem_chosen mem).2
  rw [Greedy.filter_flatMap own (toList_nodup set), same]
  split
  · rfl
  · next absent =>
    refine (List.eq_nil_iff_forall_not_mem.mpr fun t mem ↦ absent ?_).symm
    rw [← (mem_of_mem_chosen mem).2]
    exact covered t (mem_of_mem_chosen mem).1

theorem count_filter_partition (requests : List TransitionRequest) (c : TransitionRequest) :
    (requests.filter fun t ↦ t.partition = c.partition).count c = requests.count c :=
  List.count_filter (by simp)

theorem countP_filter_partition (requests : List TransitionRequest) (partition : PartitionId)
    (state : State) : requests.countP (fun t ↦ t.partition = partition ∧ t.targetState = state) =
      (requests.filter fun t ↦ t.partition = partition).countP fun t ↦ t.targetState = state := by
  rw [List.countP_filter]
  exact List.countP_congr fun t _ ↦ by simp [and_comm]

theorem selected_subperm {selected : List TransitionRequest}
    (run : selectTransitions resource ideal current live candidates pending model = .ok selected) :
    selected.Subperm candidates := by
  refine List.subperm_ext_iff.mpr fun t _ ↦ ?_
  rw [← count_filter_partition, ← count_filter_partition candidates, selectTransitions_filter run]
  rw [chosen, selectPartition, Greedy.flatMap_groupBy, foldl_selectCandidate_eq_pick,
    List.nil_append]
  exact ((Greedy.pick_sublist _ _ _).count_le t).trans_eq
    ((List.perm_insertionSort _ _).count_eq t)

end Stage

end Selection

section Selection

variable {builder : StateModelBuilder} {model : StateModelDefinition} {resource : ResourceId}
  {ideal : IdealState} {current : CurrentState} {live : BTreeSet InstanceId}
  {candidates selected : List TransitionRequest} {pending : List PendingTransition}

open Selection

/-- Within every partition the stage makes the greedy choice in stable priority order; so it
keeps to the bounds and leaves nothing out that a bound does not forbid. -/
theorem selection_greedy (valid : builder.build = .ok model)
    (run : selectTransitions resource ideal current live candidates pending model = .ok selected) :
    selected.Subperm candidates ∧ ∀ partition,
      (∀ state bound, model.boundOf live.size state = some bound →
        base current live model pending partition state +
            selected.countP (fun t ↦ t.partition = partition ∧ t.targetState = state) ≤
          max (base current live model pending partition state) bound) ∧
      (∀ c, c.partition = partition → selected.count c < candidates.count c →
        ∃ bound, model.boundOf live.size c.targetState = some bound ∧
          bound ≤ base current live model pending partition c.targetState +
            selected.countP (fun t ↦ t.partition = partition ∧ t.targetState = c.targetState)) ∧
      selected.filter (fun t ↦ t.partition = partition) =
        Greedy.pick TransitionRequest.targetState (roomFor current live model pending partition)
          ((candidates.filter fun c ↦ c.partition = partition).insertionSort
            fun left right ↦ transitionPriority model left ≤ transitionPriority model right) := by
  refine ⟨selected_subperm run, fun partition ↦ ?_⟩
  have greedy := (selectTransitions_filter run partition).trans
    (chosen_eq_pick (StateModelBuilder.build_eq_ok valid).2 partition)
  refine ⟨fun state bound bounded ↦ ?_, fun c own skipped ↦ ?_, greedy⟩
  · have room : roomFor current live model pending partition state =
        some (bound - base current live model pending partition state) := by
      rw [roomFor, bounded]
      rfl
    rw [countP_filter_partition, greedy, Greedy.countP_pick _ _ _ _ room]
    omega
  · subst own
    rw [← count_filter_partition, ← count_filter_partition candidates, greedy,
      ← (List.perm_insertionSort (fun left right ↦ transitionPriority model left ≤
        transitionPriority model right) (candidates.filter _)).count_eq c] at skipped
    obtain ⟨left, room, full⟩ := Greedy.full_of_count_lt _ _ _ skipped
    obtain ⟨bound, bounded, rfl⟩ := Option.map_eq_some_iff.mp room
    refine ⟨bound, bounded, ?_⟩
    rw [countP_filter_partition, greedy, full]
    omega

end Selection

section Sample

open Selection

def db : ResourceId := ⟨"db", by decide⟩
def shard : PartitionId := ⟨"shard", by decide⟩
def leftNode : InstanceId := ⟨"left", by decide⟩
def rightNode : InstanceId := ⟨"right", by decide⟩

/-- One partition on two instances. -/
def twoReplicas : IdealState where
  resource := db
  replicas := 2
  preferenceLists := (∅ : BTreeMap PartitionId (List InstanceId)).insert shard [leftNode, rightNode]
  listed := by
    intro partition list found
    rw [OrderedMap.getElem?_insert] at found
    split at found
    · cases found
      decide
    · simp at found
  inhabited := by decide +kernel

def bothLive : BTreeSet InstanceId := ((∅ : BTreeSet InstanceId).insert leftNode).insert rightNode

def promotionOf (i : InstanceId) : TransitionRequest := ⟨db, shard, i, State.standby, State.leader⟩

theorem selection_greedy_promotion : ∃ bound,
    leaderStandby.boundOf bothLive.size (promotionOf rightNode).targetState = some bound ∧
      bound ≤ base ∅ bothLive leaderStandby [] shard (promotionOf rightNode).targetState +
        [promotionOf leftNode].countP fun t ↦
          t.partition = shard ∧ t.targetState = (promotionOf rightNode).targetState := by
  have run : selectTransitions db twoReplicas ∅ bothLive [promotionOf leftNode, promotionOf rightNode]
      [] leaderStandby = .ok [promotionOf leftNode] := by decide +kernel
  have skipped : [promotionOf leftNode].count (promotionOf rightNode) <
      [promotionOf leftNode, promotionOf rightNode].count (promotionOf rightNode) := by decide +kernel
  exact ((selection_greedy leaderStandby.build_eq run).2 shard).2.1 (promotionOf rightNode) rfl skipped

end Sample

end Clustodian
