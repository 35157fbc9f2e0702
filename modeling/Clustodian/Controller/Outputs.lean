import Clustodian.Controller.Plans

namespace Clustodian

open State Selection

section Resource

variable {plan : ResourcePlan} {actual : BTreeMap ResourceId CurrentState}
  {live : BTreeSet InstanceId}

/-- The state one resource is planned from. -/
def planningState (plan : ResourcePlan) (actual : BTreeMap ResourceId CurrentState)
    (live : BTreeSet InstanceId) : CurrentState :=
  normalizeCurrent ((actual[plan.resource]?).getD ∅) plan.ideal live leaderStandby

theorem state_planningState (plan : ResourcePlan) (actual : BTreeMap ResourceId CurrentState)
    (live : BTreeSet InstanceId) (p : PartitionId) (i : InstanceId) :
    (planningState plan actual live).state p i =
      if i ∉ live then none
      else ((actual[plan.resource]?).bind (·.state p i)).or
        (if (plan.ideal.preferenceList p).any (i ∈ ·) then some offline else none) := by
  rw [planningState, state_normalizeCurrent, leaderStandby.initialState_eq]
  cases actual[plan.resource]? <;> rfl

/-- A replica that is not yet in its target state, with its next hop. -/
def IsCandidate (plan : ResourcePlan) (planning : CurrentState) (live : BTreeSet InstanceId)
    (t : TransitionRequest) : Prop :=
  t.resource = plan.resource ∧ ∃ desired,
    SemiAuto.bestState plan.ideal planning live t.partition t.instance_ = some desired ∧
    planning.state t.partition t.instance_ = some t.sourceState ∧ t.sourceState ≠ desired ∧
    leaderStandby.nextStateToward t.sourceState desired = some t.targetState

/-- What one resource hands to the throttle stage: every candidate, promotions bounded by one. -/
structure SelectionSpec (plan : ResourcePlan) (planning : CurrentState)
    (live : BTreeSet InstanceId) (pending : List PendingTransition)
    (selected : List TransitionRequest) : Prop where
  candidate : ∀ t ∈ selected, IsCandidate plan planning live t
  complete : ∀ t, IsCandidate plan planning live t → t.targetState ≠ leader → t ∈ selected
  vacant : ∀ t ∈ selected, t.targetState = leader → leaders planning live pending t.partition = 0
  single : ∀ t ∈ selected, ∀ u ∈ selected, t.partition = u.partition → t.targetState = leader →
    u.targetState = leader → t = u
  filled : ∀ t, IsCandidate plan planning live t → t.targetState = leader →
    leaders planning live pending t.partition = 0 →
    ∃ u ∈ selected, u.partition = t.partition ∧ u.targetState = leader

theorem bestState_isSome {p : PartitionId} {i : InstanceId} :
    (SemiAuto.bestState plan.ideal (planningState plan actual live) live p i).isSome ↔
      ((planningState plan actual live).state p i).isSome := by
  have hstate := state_planningState plan actual live p i
  unfold SemiAuto.bestState
  cases hlist : plan.ideal.preferenceList p with
  | none => simp
  | some list =>
    simp only [hlist, Option.any_some] at hstate ⊢
    by_cases listed : i ∈ list
    · by_cases alive : i ∈ live
      · rw [hstate]
        simp only [listed, not_true, if_false, alive, decide_true, if_true]
        cases (actual[plan.resource]?).bind (·.state p i) <;> split <;> simp
      · simp [listed, alive, hstate]
    · simp [listed]

theorem candidate_known {t : TransitionRequest}
    (h : IsCandidate plan (planningState plan actual live) live t) :
    Known plan.ideal (planningState plan actual live) leaderStandby t.partition t.sourceState
      t.targetState := by
  obtain ⟨-, desired, hbest, hstate, -, hnext⟩ := h
  by_cases listed : plan.ideal.preferenceList t.partition = none
  · right
    rw [SemiAuto.bestState, listed, hstate, Option.map_some] at hbest
    cases hbest
    simp only [isDropPath, leaderStandby.dropped_eq, decide_eq_true_eq]
    exact ⟨ReplicaStates.mem_entries.mpr ⟨_, _, hstate⟩, hnext⟩
  · exact .inl listed

/-- A candidate of a partition without listed instances is draining. -/
theorem candidate_drops {t : TransitionRequest}
    (h : IsCandidate plan (planningState plan actual live) live t)
    (unlisted : ∀ list, plan.ideal.preferenceList t.partition = some list → t.instance_ ∉ list) :
    isDropPath t.partition t.sourceState t.targetState (planningState plan actual live)
      leaderStandby = true := by
  obtain ⟨-, desired, hbest, hstate, -, hnext⟩ := h
  have dropping : desired = dropped := by
    unfold SemiAuto.bestState at hbest
    cases hlist : plan.ideal.preferenceList t.partition with
    | none => simpa [hlist, hstate, eq_comm] using hbest
    | some list => simpa [hlist, unlisted list hlist, hstate, eq_comm] using hbest
  subst dropping
  simp only [isDropPath, leaderStandby.dropped_eq, decide_eq_true_eq]
  exact ⟨ReplicaStates.mem_entries.mpr ⟨_, _, hstate⟩, hnext⟩

theorem getElem?_extended {partitions : List PartitionId}
    {lists : BTreeMap PartitionId (List InstanceId)} {p : PartitionId} :
    (partitions.foldl (fun lists partition ↦
      if partition ∈ lists then lists else lists.insert partition []) lists)[p]? =
      (lists[p]?).or (if p ∈ partitions then some [] else none) := by
  induction partitions generalizing lists with
  | nil => simp
  | cons q partitions ih =>
    rw [List.foldl_cons, ih]
    by_cases known : q ∈ lists
    · rw [if_pos known]
      obtain ⟨list, found⟩ := (OrderedMap.mem_iff _ _).mp known
      by_cases same : p = q
      · subst same
        simp [found]
      · simp [same]
    · rw [if_neg known, OrderedMap.getElem?_insert]
      rw [OrderedMap.not_mem_iff] at known
      by_cases same : p = q
      · subst same
        simp [known]
      · simp [same]

theorem validateSelected_eq_ok {input : ResourceTransitionInput}
    (each : ∀ t ∈ input.selectedTransitions, t.resource = input.resource ∧
      ∃ list, input.preferenceLists[t.partition]? = some list ∧
        (list ≠ [] ∨ isDropTransition t input leaderStandby = true)) :
    validateSelected input leaderStandby = .ok () := by
  obtain ⟨_, h, -⟩ := CheckedLoop.foldlM_ok (fun _ _ ↦ True)
    (fun (_ : Unit) (transition : TransitionRequest) ↦
      if transition.resource ≠ input.resource then
        Except.error (IntermediateThrottleError.resourceMismatch input.resource transition.resource)
      else if transition.partition ∉ input.preferenceLists ∨
          (¬(input.preferenceLists[transition.partition]?).any (¬·.isEmpty) ∧
            ¬isDropTransition transition input leaderStandby) then
        .error (.unknownSelectedPartition input.resource transition.partition)
      else .ok ()) input.selectedTransitions () trivial
    fun done t rest _ split _ ↦ by
      obtain ⟨same, list, found, ok⟩ := each t (by rw [split]; simp)
      refine ⟨(), ?_, trivial⟩
      rw [if_neg (not_not.mpr same), if_neg]
      rw [OrderedMap.not_mem_iff, found]
      rcases ok with ok | ok
      · simp [ok]
      · simp [ok]
  exact h

/-- One resource's planning fails only on its pending list; otherwise it meets the spec. -/
theorem resourceTransitionInput_eq (op : List OperationalPendingTransition) :
    (∀ e, checkPending plan.ideal (planningState plan actual live) leaderStandby
        (pendingForResource plan.resource op) [] = .error e →
      resourceTransitionInput plan actual live op leaderStandby = .error (.ofMessage e.message)) ∧
    (checkPending plan.ideal (planningState plan actual live) leaderStandby
        (pendingForResource plan.resource op) [] = .ok () →
      ∃ input, resourceTransitionInput plan actual live op leaderStandby = .ok input ∧
        input.resource = plan.resource ∧ validateSelected input leaderStandby = .ok () ∧
        SelectionSpec plan (planningState plan actual live) live
          (pendingForResource plan.resource op) input.selectedTransitions) := by
  obtain ⟨best, hbest, hbestState⟩ := SemiAuto.computeSemiAutoBestPossibleState_eq_ok plan.ideal
    (planningState plan actual live) live
  obtain ⟨candidates, hgenerate, hcandidates⟩ := generateTransitions_eq_ok
    plan.resource (planningState plan actual live) best leaderStandby fun p i ↦ by rw [hbestState, bestState_isSome]
  have isCandidate : ∀ t, t ∈ candidates ↔ IsCandidate plan (planningState plan actual live) live t :=
    fun t ↦ by rw [hcandidates, IsCandidate]; simp only [hbestState]
  obtain ⟨hfail, hok⟩ := selectTransitions_eq plan.resource plan.ideal
    (planningState plan actual live) live leaderStandby candidates
    (pendingForResource plan.resource op) fun c hc ↦
      ⟨((isCandidate c).mp hc).1, candidate_known ((isCandidate c).mp hc)⟩
  have prelude : ∀ select, select = selectTransitions plan.resource plan.ideal
      (planningState plan actual live) live candidates (pendingForResource plan.resource op)
      leaderStandby → resourceTransitionInput plan actual live op leaderStandby =
      (orMessage MessageSelectionError.message select >>= fun selected ↦ .ok ⟨plan.resource,
        plan.ideal.replicas, none, (planningState plan actual live).entries.keys.foldl
          (fun lists partition ↦ if partition ∈ lists then lists else lists.insert partition [])
          plan.ideal.preferenceLists, planningState plan actual live, best, selected⟩) := by
    rintro _ rfl
    unfold resourceTransitionInput
    simp only [plan.ideal.inhabited, Bool.false_eq_true, if_false]
    rw [← planningState, hbest]
    simp only [orMessage, CheckedLoop.ok_bind]
    rw [hgenerate]
    rfl
  refine ⟨fun e he ↦ ?_, fun hpending ↦ ?_⟩
  · rw [prelude _ rfl, hfail e he]
    rfl
  · obtain ⟨selected, hselect, hselected⟩ := hok hpending
    refine ⟨_, by rw [prelude _ rfl, hselect]; rfl, rfl, ?_, ?_⟩
    · refine validateSelected_eq_ok fun t ht ↦ ?_
      have hc := (isCandidate t).mp (mem_of_mem_chosen ((hselected t).mp ht)).1
      refine ⟨hc.1, ?_⟩
      simp only [getElem?_extended, isDropTransition]
      obtain ⟨-, -, -, hstate, -⟩ := id hc
      have recorded : t.partition ∈ (planningState plan actual live).entries.keys := by
        rw [Std.ExtTreeMap.mem_keys]
        exact ReplicaStates.mem_entries.mpr ⟨_, _, hstate⟩
      cases hlist : plan.ideal.preferenceList t.partition with
      | none =>
        rw [IdealState.preferenceList] at hlist
        refine ⟨[], by simp [hlist, recorded], .inr (candidate_drops hc fun list h ↦ ?_)⟩
        rw [IdealState.preferenceList, hlist] at h
        cases h
      | some list =>
        refine ⟨list, by rw [IdealState.preferenceList] at hlist; simp [hlist], ?_⟩
        by_cases empty : list = []
        · refine .inr (candidate_drops hc fun other h ↦ ?_)
          rw [hlist] at h
          cases h
          simp [empty]
        · exact .inl empty
    · refine ⟨fun t ht ↦ (isCandidate t).mp (mem_of_mem_chosen ((hselected t).mp ht)).1,
        fun t ht low ↦ (hselected t).mpr (chosen_spec.1 t ((isCandidate t).mpr ht) rfl low),
        fun t ht top ↦ chosen_spec.2.1 t ((hselected t).mp ht) top,
        fun t ht u hu same top top' ↦ ?_, fun t ht top vacant ↦ ?_⟩
      · have hu' := (hselected u).mp hu
        rw [← same] at hu'
        exact chosen_spec.2.2.1 t ((hselected t).mp ht) u hu' top top'
      · obtain ⟨u, hu, htop⟩ := chosen_spec.2.2.2 vacant t ((isCandidate t).mpr ht) rfl top
        have hp := (mem_of_mem_chosen hu).2
        exact ⟨u, (hselected u).mpr (by rwa [hp]), hp, htop⟩

end Resource

/-- A snapshot whose instance configurations and resource records decode. -/
structure Decoded (crush : Crush) (snapshot : CoordinationSnapshot) where
  configs : BTreeMap InstanceId String
  plans : List ResourcePlan
  configs_eq : instanceConfigs snapshot = .ok configs
  plans_eq : resourcePlans crush snapshot configs (liveSet snapshot) = .ok plans

namespace Decoded

variable {crush : Crush} {snapshot : CoordinationSnapshot} (d : Decoded crush snapshot)
  (pending : List PublishedTransition) (mode : ReconcileMode)

def actual : BTreeMap ResourceId CurrentState :=
  activeCurrentState snapshot d.configs (liveSet snapshot)

def view : ExternalView := d.actual.map fun _ current ↦ current.entries

def planning (plan : ResourcePlan) : CurrentState :=
  planningState plan d.actual (liveSet snapshot)

def retained : List PublishedTransition :=
  retainPending pending snapshot d.actual d.plans (mode = .sessionReplacement)

def inFlight : List OperationalPendingTransition :=
  operationalPendingForPlans (d.retained pending mode) d.plans mode

def pendingFor (plan : ResourcePlan) : List PendingTransition :=
  pendingForResource plan.resource (d.inFlight pending mode)

def selected (plan : ResourcePlan) : List TransitionRequest :=
  match resourceTransitionInput plan d.actual (liveSet snapshot) (d.inFlight pending mode)
    leaderStandby with
  | .ok input => input.selectedTransitions
  | .error _ => []

/-- Every resource accepts the messages in flight for it. -/
def Plannable : Prop := ∀ plan ∈ d.plans,
  checkPending plan.ideal (d.planning plan) leaderStandby (d.pendingFor pending mode plan) [] =
    .ok ()

theorem nodup_plans : (d.plans.map (·.resource)).Nodup := (resourcePlans_spec d.plans_eq).1

variable {d pending mode}

theorem mem_retained {message : PublishedTransition} : message ∈ d.retained pending mode ↔
    message ∈ pending ∧
      retains snapshot d.actual d.plans (mode = .sessionReplacement) message = true := by
  rw [retained, retainPending, List.mem_filter]

theorem mem_inFlight {t : OperationalPendingTransition} (h : t ∈ d.inFlight pending mode) :
    ∃ message ∈ d.retained pending mode, toOperationalPending message = some t := by
  rw [inFlight, operationalPendingForPlans, List.mem_filter, List.mem_filterMap] at h
  exact h.1

theorem toOperationalPending_eq_some {message : PublishedTransition}
    {t : OperationalPendingTransition} : toOperationalPending message = some t ↔
      message.resource = t.resource.asStr ∧ message.partition = t.partition.asStr ∧
      message.instance_ = t.instance_.asStr ∧ message.source = t.sourceState.asStr ∧
      message.target = t.targetState.asStr := by
  obtain ⟨r, p, i, s, u⟩ := t
  simp only [← Name.new_eq_ok]
  unfold toOperationalPending
  constructor
  · intro h
    split at h
    · next h1 h2 h3 h4 h5 =>
      cases h
      exact ⟨h1, h2, h3, h4, h5⟩
    · cases h
  · rintro ⟨h1, h2, h3, h4, h5⟩
    simp only [h1, h2, h3, h4, h5]

/-- What keeping a message means, for a message with proper names. -/
theorem retains_iff {strict : Bool} {message : PublishedTransition} {r : ResourceId}
    {p : PartitionId} {i : InstanceId} (hr : message.resource = r.asStr)
    (hp : message.partition = p.asStr) (hi : message.instance_ = i.asStr) :
    retains snapshot d.actual d.plans strict message = true ↔
      snapshot.live i = some message.targetSession ∧
      ∃ plan ∈ d.plans, plan.resource = r ∧
        (plan.ideal.preferenceList p ≠ none ∨
          ∃ j s, visible snapshot d.configs r p j = some s) ∧
        (strict = true → ¬((plan.ideal.preferenceList p).any (i ∈ ·) = true ↔
          (message.target = "OFFLINE" ∨ message.target = "DROPPED"))) ∧
        ∀ s, visible snapshot d.configs r p i = some s → s.asStr = message.source := by
  have hlookup : ∀ j, ((d.actual[r]?).bind (·.state p j)) = visible snapshot d.configs r p j :=
    fun j ↦ state_activeCurrentState
  have recorded : (d.actual[r]?).any (fun current ↦ decide (p ∈ current.entries)) = true ↔
      ∃ j s, visible snapshot d.configs r p j = some s := by
    simp only [← hlookup]
    cases d.actual[r]? with
    | none => simp
    | some current => simp [ReplicaStates.mem_entries]
  unfold retains
  rw [hr, hp, hi]
  simp only [Name.new_asStr, ne_eq, ite_not]
  split <;> rename_i live
  · cases hplan : findPlan d.plans r.asStr with
    | none =>
      simp only [Bool.false_eq_true, live, true_and, false_iff]
      rintro ⟨plan, mem, rfl, -⟩
      rw [(findPlan_eq_some d.nodup_plans).mpr ⟨mem, rfl⟩] at hplan
      cases hplan
    | some plan =>
      obtain ⟨mem, same⟩ := (findPlan_eq_some d.nodup_plans).mp hplan
      have unique : ∀ other ∈ d.plans, other.resource = r → other = plan := fun other ho hor ↦
        List.inj_on_of_nodup_map d.nodup_plans ho mem
          (Name.asStr_injective (by rw [hor, same]))
      have collapse : ∀ P : ResourcePlan → Prop,
          (∃ other ∈ d.plans, other.resource = r ∧ P other) ↔ P plan := fun P ↦
        ⟨fun ⟨other, ho, hor, h⟩ ↦ unique other ho hor ▸ h,
          fun h ↦ ⟨plan, mem, Name.asStr_injective same, h⟩⟩
      rw [collapse]
      simp only [hlookup, live, true_and]
      by_cases unknown : plan.ideal.preferenceList p = none ∧
          ¬(d.actual[r]?).any (fun current ↦ decide (p ∈ current.entries)) = true
      · rw [if_pos unknown]
        simp only [Bool.false_eq_true, false_iff]
        rintro ⟨listed | reported, -⟩
        · exact listed unknown.1
        · exact unknown.2 (recorded.mpr reported)
      · rw [if_neg unknown]
        have understood : plan.ideal.preferenceList p ≠ none ∨
            ∃ j s, visible snapshot d.configs r p j = some s := by
          rw [← recorded]
          tauto
        by_cases fenced : strict = true ∧ ((plan.ideal.preferenceList p).any (i ∈ ·) = true ↔
            (message.target = "OFFLINE" ∨ message.target = "DROPPED"))
        · rw [if_pos fenced]
          simp only [Bool.false_eq_true, false_iff]
          exact fun h ↦ h.2.1 fenced.1 fenced.2
        · rw [if_neg fenced]
          cases visible snapshot d.configs r p i with
          | none => simpa [understood] using fun h ↦ fun h' ↦ fenced ⟨h, h'⟩
          | some s => simpa [understood] using fun _ h ↦ fun h' ↦ fenced ⟨h, h'⟩
  · simp [live]

/-- The resource and partition of a message in flight are those of a plan and of the message. -/
theorem resource_of_inFlight {t : OperationalPendingTransition}
    (h : t ∈ d.inFlight pending mode) : ∃ plan ∈ d.plans, plan.resource = t.resource := by
  obtain ⟨message, hmessage, hop⟩ := mem_inFlight h
  obtain ⟨hr, hp, hi, -, -⟩ := toOperationalPending_eq_some.mp hop
  obtain ⟨-, plan, mem, same, -⟩ := (retains_iff hr hp hi).mp (mem_retained.mp hmessage).2
  exact ⟨plan, mem, same⟩

theorem selected_spec (plannable : d.Plannable pending mode) {plan : ResourcePlan}
    (mem : plan ∈ d.plans) :
    (∃ input, resourceTransitionInput plan d.actual (liveSet snapshot) (d.inFlight pending mode)
        leaderStandby = .ok input ∧ input.resource = plan.resource ∧
      validateSelected input leaderStandby = .ok () ∧
      input.selectedTransitions = d.selected pending mode plan) ∧
    SelectionSpec plan (d.planning plan) (liveSet snapshot) (d.pendingFor pending mode plan)
      (d.selected pending mode plan) := by
  obtain ⟨input, hinput, hresource, hvalid, hspec⟩ :=
    (resourceTransitionInput_eq (d.inFlight pending mode)).2 (plannable plan mem)
  have eq : input.selectedTransitions = d.selected pending mode plan := by
    rw [selected, hinput]
  exact ⟨⟨input, hinput, hresource, hvalid, eq⟩, eq ▸ hspec⟩

theorem nodup_inFlight (plannable : d.Plannable pending mode) :
    ((d.inFlight pending mode).map fun t ↦ (t.resource, t.partition, t.instance_)).Nodup := by
  rw [List.Nodup, List.pairwise_map, List.pairwise_iff_forall_sublist]
  intro a b hsub same
  simp only [Prod.mk.injEq] at same
  obtain ⟨plan, mem, hplan⟩ := resource_of_inFlight (hsub.subset (List.mem_cons_self (a := a)))
  have distinct := ((checkPending_eq_ok_iff _ _).mp (plannable plan mem)).2.1
  rw [pendingFor, pendingForResource, List.map_map, List.Nodup, List.pairwise_map,
    List.pairwise_filter, List.pairwise_iff_forall_sublist] at distinct
  refine distinct hsub (by simp [hplan]) (by simp [hplan, same.1]) ?_
  simp [same.2.1, same.2.2]

theorem compute_eq (d : Decoded crush snapshot) :
    computeOutputsWithPendingPolicy crush snapshot pending mode =
      (d.plans.mapM (fun plan ↦ resourceTransitionInput plan d.actual (liveSet snapshot)
        (d.inFlight pending mode) leaderStandby) >>= fun inputs ↦
      cycleThrottles snapshot mode >>= fun configs ↦
      orMessage IntermediateThrottleError.message (computeIntermediateAndThrottle inputs
        (liveSet snapshot) (d.inFlight pending mode) configs leaderStandby) >>= fun throttle ↦
      .ok (d.view, normalizeQueue (throttle.dispatchableTransitions.zipIdx.foldl
        (addDispatched snapshot pending) (d.retained pending mode)))) := by
  unfold computeOutputsWithPendingPolicy
  rw [d.configs_eq]
  simp only [CheckedLoop.ok_bind, d.plans_eq]
  rfl

/-- A cycle over accepted messages: the view, the kept messages and the dispatched transitions. -/
theorem compute_spec (d : Decoded crush snapshot) {configs : List StateTransitionThrottleConfig}
    (hthrottles : cycleThrottles snapshot mode = .ok configs) (plannable : d.Plannable pending mode) :
    ∃ dispatch, computeOutputsWithPendingPolicy crush snapshot pending mode =
        .ok (d.view, normalizeQueue (dispatch.zipIdx.foldl (addDispatched snapshot pending)
          (d.retained pending mode))) ∧
      (∀ t ∈ dispatch, ∃ plan ∈ d.plans, t ∈ d.selected pending mode plan) ∧
      ((∀ config ∈ configs, config.maxTransitions ≠ 0) → d.inFlight pending mode = [] →
        dispatch = [] → ∀ plan ∈ d.plans, d.selected pending mode plan = []) := by
  obtain ⟨inputs, hinputs, hrel⟩ := CheckedLoop.mapM_ok
    (f := fun plan ↦ resourceTransitionInput plan d.actual (liveSet snapshot)
      (d.inFlight pending mode) leaderStandby)
    (fun plan input ↦ input.resource = plan.resource ∧
      validateSelected input leaderStandby = .ok () ∧
      input.selectedTransitions = d.selected pending mode plan) d.plans
    fun plan mem ↦ by
      obtain ⟨⟨input, hinput, hrest⟩, -⟩ := selected_spec plannable mem
      exact ⟨input, hinput, hrest⟩
  have hresources : inputs.map (·.resource) = d.plans.map (·.resource) :=
    CheckedLoop.forall₂_map (fun _ _ h ↦ h.1) hrel
  have backward : ∀ input ∈ inputs, ∃ plan ∈ d.plans, validateSelected input leaderStandby = .ok () ∧
      input.selectedTransitions = d.selected pending mode plan := fun input hinput ↦ by
    obtain ⟨plan, mem, h⟩ := CheckedLoop.forall₂_left hrel.flip hinput
    exact ⟨plan, mem, h.2⟩
  have forward : ∀ plan ∈ d.plans, ∃ input ∈ inputs,
      input.selectedTransitions = d.selected pending mode plan := fun plan mem ↦ by
    obtain ⟨input, hinput, h⟩ := CheckedLoop.forall₂_left hrel mem
    exact ⟨input, hinput, h.2.2⟩
  have distinct : (inputs.map (·.resource)).Nodup := hresources ▸ d.nodup_plans
  obtain ⟨result, hresult, hselected, -⟩ := Throttle.computeIntermediateAndThrottle_eq_ok
    (liveSet snapshot) (d.inFlight pending mode) configs distinct
    (fun t ht ↦ by
      obtain ⟨plan, mem, same⟩ := resource_of_inFlight ht
      rw [hresources, ← same]
      exact List.mem_map_of_mem mem)
    (nodup_inFlight plannable) fun input hinput ↦ (backward input hinput).choose_spec.2.1
  refine ⟨result.dispatchableTransitions, ?_, fun t ht ↦ ?_, fun positive idle empty plan mem ↦ ?_⟩
  · rw [d.compute_eq, hinputs, CheckedLoop.ok_bind, hthrottles, CheckedLoop.ok_bind, hresult]
    rfl
  · obtain ⟨input, hinput, htin⟩ := hselected t ht
    obtain ⟨plan, mem, -, eq⟩ := backward input hinput
    exact ⟨plan, mem, eq ▸ htin⟩
  · obtain ⟨input, hinput, eq⟩ := forward plan mem
    rw [← eq]
    by_contra nonempty
    obtain ⟨t, ht⟩ := List.exists_mem_of_ne_nil _ nonempty
    rw [idle] at hresult
    exact Throttle.dispatches_of_selected distinct
      (fun input hinput ↦ (backward input hinput).choose_spec.2.1) positive hinput ht hresult empty

/-- A cycle fails exactly when a throttle does not decode or a resource rejects its messages. -/
theorem compute_isOk_iff (d : Decoded crush snapshot) :
    (∃ outputs, computeOutputsWithPendingPolicy crush snapshot pending mode = .ok outputs) ↔
      (∃ configs, cycleThrottles snapshot mode = .ok configs) ∧ d.Plannable pending mode := by
  constructor
  · rintro ⟨outputs, h⟩
    rw [d.compute_eq] at h
    obtain ⟨inputs, hinputs, h⟩ := CheckedLoop.bind_eq_ok.mp h
    obtain ⟨configs, hconfigs, -⟩ := CheckedLoop.bind_eq_ok.mp h
    refine ⟨⟨configs, hconfigs⟩, fun plan mem ↦ ?_⟩
    obtain ⟨input, -, hinput⟩ := CheckedLoop.forall₂_left (CheckedLoop.mapM_inv hinputs) mem
    cases hcheck : checkPending plan.ideal (d.planning plan) leaderStandby
        (d.pendingFor pending mode plan) [] with
    | ok _ => rfl
    | error e =>
      rw [(resourceTransitionInput_eq (d.inFlight pending mode)).1 e hcheck] at hinput
      cases hinput
  · rintro ⟨⟨configs, hthrottles⟩, plannable⟩
    obtain ⟨dispatch, h, -⟩ := d.compute_spec hthrottles plannable
    exact ⟨_, h⟩

theorem of_compute {outputs : ExternalView × List PublishedTransition}
    (h : computeOutputsWithPendingPolicy crush snapshot pending mode = .ok outputs) :
    Nonempty (Decoded crush snapshot) := by
  unfold computeOutputsWithPendingPolicy at h
  obtain ⟨configs, hconfigs, h⟩ := CheckedLoop.bind_eq_ok.mp h
  obtain ⟨plans, hplans, -⟩ := CheckedLoop.bind_eq_ok.mp h
  exact ⟨⟨configs, plans, hconfigs, hplans⟩⟩

end Decoded

end Clustodian
