import Clustodian.Chaos.Reductions

/-! What the transformations of a trace carry over: every fault stays with its action. -/

namespace Clustodian.Chaos

section Positions

variable {α β : Type} (f : α → Option β)

/-- Where `filterMap` puts what becomes of the element at an index. -/
def position (items : List α) (i : ℕ) : Option ℕ :=
  ((items[i]?).bind f).map fun _ ↦ ((items.take i).filterMap f).length

variable {f} {items : List α} {i j : ℕ} {a : α} {b : β}

theorem position_eq_none (found : items[i]? = some a) : position f items i = none ↔ f a = none := by
  rw [position, found, Option.bind_some, Option.map_eq_none_iff]

theorem position_eq_some (found : items[i]? = some a) (kept : f a = some b) :
    position f items i = some ((items.take i).filterMap f).length := by
  rw [position, found, Option.bind_some, kept, Option.map_some]

theorem filterMap_split (found : items[i]? = some a) (kept : f a = some b) :
    items.filterMap f = (items.take i).filterMap f ++ b :: (items.drop (i + 1)).filterMap f := by
  obtain ⟨hi, rfl⟩ := List.getElem?_eq_some_iff.mp found
  conv_lhs => rw [← List.take_append_drop i items, List.drop_eq_getElem_cons hi,
    List.filterMap_append, List.filterMap_cons, kept]

theorem getElem?_position (found : items[i]? = some a) (placed : position f items i = some j) :
    (items.filterMap f)[j]? = f a := by
  cases kept : f a with
  | none =>
    rw [(position_eq_none found).mpr kept] at placed
    cases placed
  | some b =>
    rw [position_eq_some found kept, Option.some.injEq] at placed
    rw [filterMap_split found kept, ← placed, List.getElem?_append_right le_rfl, Nat.sub_self]
    rfl

theorem position_lt {i' j' : ℕ} (before : i < i') (placed : position f items i = some j)
    (placed' : position f items i' = some j') : j < j' := by
  obtain ⟨b, found, rfl⟩ := Option.map_eq_some_iff.mp placed
  obtain ⟨b', -, rfl⟩ := Option.map_eq_some_iff.mp placed'
  obtain ⟨a, found, kept⟩ := Option.bind_eq_some_iff.mp found
  have next : (items.take (i + 1)).filterMap f = (items.take i).filterMap f ++ [b] := by
    rw [List.take_add_one, found, List.filterMap_append]
    simp [kept]
  have grows : ((items.take (i + 1)).filterMap f).length ≤ ((items.take i').filterMap f).length :=
    ((List.take_prefix_take_left before).filterMap f).length_le
  rw [next, List.length_append, List.length_singleton] at grows
  exact grows

theorem exists_position (hj : j < (items.filterMap f).length) :
    ∃ i < items.length, position f items i = some j := by
  induction items using List.reverseRecOn with
  | nil => simp at hj
  | append_singleton items a ih =>
    have old {i : ℕ} (hi : i < items.length) :
        position f (items ++ [a]) i = position f items i := by
      rw [position, position, List.getElem?_append_left hi, List.take_append_of_le_length hi.le]
    by_cases earlier : j < (items.filterMap f).length
    · obtain ⟨i, hi, placed⟩ := ih earlier
      exact ⟨i, by simp; omega, (old hi).trans placed⟩
    · cases kept : f a with
      | none =>
        rw [List.filterMap_append, List.filterMap_cons, kept, List.filterMap_nil,
          List.append_nil] at hj
        exact absurd hj earlier
      | some b =>
        rw [List.filterMap_append, List.length_append, List.filterMap_cons, kept, List.filterMap_nil,
          List.length_singleton] at hj
        refine ⟨items.length, by simp, ?_⟩
        have last : (items ++ [a])[items.length]? = some a := by simp
        rw [position_eq_some last kept, List.take_left]
        exact congrArg some (by omega)

end Positions

/-- Where the actions of a trace are in a reduced one, if `rewrite` says what becomes of each of
them. -/
structure Placement (rewrite : ℕ → Action → Option Action) (actions actions' : List Action)
    (place : ℕ → Option ℕ) : Prop where
  gone : ∀ i action, actions[i]? = some action → (place i = none ↔ rewrite i action = none)
  here : ∀ i j action, actions[i]? = some action → place i = some j →
    actions'[j]? = rewrite i action
  ordered : ∀ i i' j j', i < i' → place i = some j → place i' = some j' → j < j'
  onto : ∀ j < actions'.length, ∃ i < actions.length, place i = some j

/-- The faults of removed actions are gone, and those that `names` holds of; all others are still
there, unchanged and in their order, each at its action. -/
def Carries (rewrite : ℕ → Action → Option Action) (names : Fault → Prop) [DecidablePred names]
    (trace candidate : Trace) : Prop :=
  ∃ place, Placement rewrite trace.actions candidate.actions place ∧
    candidate.faults = trace.faults.filterMap fun scheduled ↦
      if names scheduled.fault then none
      else (place scheduled.actionIndex).map (⟨·, scheduled.fault⟩)

/-- Every fault is scheduled on an action. -/
def Trace.InRange (trace : Trace) : Prop :=
  ∀ scheduled ∈ trace.faults, scheduled.actionIndex < trace.actions.length

section Transformations

variable {transform : Action → Option Action} {trace candidate : Trace}
  {rewrite : ℕ → Action → Option Action} {names : Fault → Prop} [DecidablePred names]

theorem foldl_transformAction (transform : Action → Option Action) (actions : List Action) :
    actions.foldl (transformAction transform) ([], []) =
      ((List.range actions.length).map (position transform actions),
        actions.filterMap transform) := by
  induction actions using List.reverseRecOn with
  | nil => rfl
  | append_singleton actions action ih =>
    have old : (List.range actions.length).map (position transform (actions ++ [action])) =
        (List.range actions.length).map (position transform actions) := by
      refine List.map_congr_left fun i mem ↦ ?_
      have hi := List.mem_range.mp mem
      rw [position, position, List.getElem?_append_left hi, List.take_append_of_le_length hi.le]
    have last : (actions ++ [action])[actions.length]? = some action := by simp
    rw [List.foldl_append, ih, List.foldl_cons, List.foldl_nil, transformAction, List.length_append,
      List.length_singleton, List.range_succ, List.map_append, old, List.filterMap_append,
      List.map_singleton, List.filterMap_cons, List.filterMap_nil]
    cases kept : transform action with
    | none => rw [(position_eq_none last).mpr kept, List.append_nil]
    | some action' => rw [position_eq_some last kept, List.take_left]

theorem transformActions_actions (trace : Trace) (transform : Action → Option Action) :
    (transformActions trace transform).actions = trace.actions.filterMap transform := by
  rw [transformActions, foldl_transformAction]

theorem transformActions_faults (trace : Trace) (transform : Action → Option Action) :
    (transformActions trace transform).faults = trace.faults.filterMap fun scheduled ↦
      (position transform trace.actions scheduled.actionIndex).map (⟨·, scheduled.fault⟩) := by
  rw [transformActions, foldl_transformAction]
  refine List.filterMap_congr fun scheduled _ ↦ ?_
  have lookup : (((List.range trace.actions.length).map
      (position transform trace.actions))[scheduled.actionIndex]?).join =
      position transform trace.actions scheduled.actionIndex := by
    rw [List.getElem?_map]
    by_cases inside : scheduled.actionIndex < trace.actions.length
    · rw [List.getElem?_range inside]
      rfl
    · rw [List.getElem?_eq_none (by simpa using inside), position,
        List.getElem?_eq_none (Nat.le_of_not_lt inside)]
      rfl
  simp only [lookup]
  cases position transform trace.actions scheduled.actionIndex with
  | none => rfl
  | some index => rfl

theorem placement_filterMap (transform : Action → Option Action) (actions : List Action) :
    Placement (fun _ ↦ transform) actions (actions.filterMap transform)
      (position transform actions) where
  gone _ _ found := position_eq_none found
  here _ _ _ found placed := getElem?_position found placed
  ordered _ _ _ _ before placed placed' := position_lt before placed placed'
  onto _ hj := exists_position hj

/-- A transformation of the actions, after which the faults that name something are dropped. -/
theorem carries_transform (actions : candidate.actions = trace.actions.filterMap transform)
    (faults : candidate.faults =
      (transformActions trace transform).faults.filter fun scheduled ↦ ¬names scheduled.fault) :
    Carries (fun _ ↦ transform) names trace candidate := by
  refine ⟨position transform trace.actions, ?_, ?_⟩
  · rw [actions]
    exact placement_filterMap transform trace.actions
  · rw [faults, transformActions_faults, List.filter_filterMap]
    refine List.filterMap_congr fun scheduled _ ↦ ?_
    cases position transform trace.actions scheduled.actionIndex with
    | none => simp
    | some index =>
      by_cases named : names scheduled.fault
      · simp [named]
      · simp [named]

/-- Faults that stay with their actions stay in range. -/
theorem Carries.inRange (h : Carries rewrite names trace candidate) (inRange : trace.InRange) :
    candidate.InRange := by
  obtain ⟨place, placement, faults⟩ := h
  intro scheduled mem
  rw [faults, List.mem_filterMap] at mem
  obtain ⟨old, mem, kept⟩ := mem
  split at kept
  · cases kept
  · obtain ⟨j, placed, rfl⟩ := Option.map_eq_some_iff.mp kept
    obtain ⟨action, found⟩ : ∃ action, trace.actions[old.actionIndex]? = some action :=
      ⟨_, List.getElem?_eq_getElem (inRange old mem)⟩
    have here := placement.here _ _ _ found placed
    cases rewritten : rewrite old.actionIndex action with
    | none =>
      rw [(placement.gone _ _ found).mpr rewritten] at placed
      cases placed
    | some action' =>
      rw [rewritten] at here
      exact (List.getElem?_eq_some_iff.mp here).1

/-- The indices after a range are shifted by its length. -/
theorem removeActionRange_carries {start stop : ℕ}
    (h : removeActionRange trace start stop = some candidate) :
    Carries (fun i action ↦ if start ≤ i ∧ i < stop then none else some action) (fun _ ↦ False)
      trace candidate := by
  unfold removeActionRange at h
  split at h
  · cases h
  next valid =>
  obtain rfl := Option.some.inj h
  have nonempty : start < stop := by omega
  have inside : stop ≤ trace.actions.length := by omega
  refine ⟨fun i ↦ if start ≤ i ∧ i < stop then none
    else some (if stop ≤ i then i - (stop - start) else i), ⟨fun i action _ ↦ ?_,
      fun i j action found placed ↦ ?_, fun i i' j j' before placed placed' ↦ ?_, fun j hj ↦ ?_⟩, ?_⟩
  · split
    · simp
    · simp
  · split at placed
    · cases placed
    · next outside =>
      rw [if_neg outside, ← found, ← Option.some.inj placed]
      have length : (trace.actions.take start).length = start := by
        rw [List.length_take]
        omega
      by_cases after : stop ≤ i
      · rw [if_pos after, List.getElem?_append_right (by omega), List.getElem?_drop, length]
        exact congrArg (trace.actions[·]?) (by omega)
      · rw [if_neg after, List.getElem?_append_left (by omega), List.getElem?_take,
          if_pos (by omega)]
  · split at placed <;> split at placed' <;> simp only [Option.some.injEq, reduceCtorEq] at placed placed'
    split at placed <;> split at placed' <;> omega
  · simp only [List.length_append, List.length_take, List.length_drop] at hj
    by_cases earlier : j < start
    · refine ⟨j, by omega, ?_⟩
      rw [if_neg (by omega), if_neg (by omega)]
    · refine ⟨j + (stop - start), by omega, ?_⟩
      rw [if_neg (by omega), if_pos (by omega)]
      exact congrArg some (by omega)
  · refine List.filterMap_congr fun scheduled _ ↦ ?_
    simp only [if_false]
    split
    · rfl
    · next outside =>
      by_cases after : stop ≤ scheduled.actionIndex
      · simp only [after, if_true, mul_one, Option.map_some]
        rw [if_neg (by omega)]
      · simp only [after, if_false, mul_zero, Option.map_some, Nat.not_lt_zero, Nat.sub_zero]

end Transformations

section Mentions

def Action.MentionsController (controller : String) : Action → Prop
  | .startController id | .gracefulStopController id | .crashController id
  | .restartController id => id = controller
  | _ => False

def PlacementConfig.MentionsParticipant (participant : String) : PlacementConfig → Prop
  | .crush => False
  | .semiAuto preferenceLists => ∃ (partition : String) (instances : List String),
    preferenceLists[partition]? = some instances ∧ participant ∈ instances

def Action.MentionsParticipant (participant : String) : Action → Prop
  | .startParticipant id | .gracefulStopParticipant id | .crashParticipant id
  | .restartParticipant id | .removeParticipant id => id = participant
  | .addParticipant added => added.id = participant
  | .createResource resource => resource.placement.MentionsParticipant participant
  | .modifyPreferenceList _ _ instances => participant ∈ instances
  | _ => False

def Action.MentionsResource (name : String) : Action → Prop
  | .createResource resource => resource.name = name
  | .modifyPreferenceList resource _ _ => resource = name
  | _ => False

def PlacementConfig.MentionsPartition (partition : String) : PlacementConfig → Prop
  | .crush => False
  | .semiAuto preferenceLists => partition ∈ preferenceLists

def Action.MentionsPartition (name partition : String) : Action → Prop
  | .createResource resource => resource.name = name ∧
    (partition ∈ resource.partitions ∨ resource.placement.MentionsPartition partition)
  | .modifyPreferenceList resource actionPartition _ =>
    resource = name ∧ actionPartition = partition
  | _ => False

def Fault.MentionsController (controller : String) : Fault → Prop
  | .network (.controller id) _ _ => id = controller
  | _ => False

def Fault.MentionsParticipant (participant : String) : Fault → Prop
  | .network (.participant id) _ _ | .callback id _ | .clock id _ => id = participant
  | _ => False

instance (controller : String) : DecidablePred (Fault.MentionsController controller) :=
  fun fault ↦ by
    unfold Fault.MentionsController
    split <;> infer_instance

instance (participant : String) : DecidablePred (Fault.MentionsParticipant participant) :=
  fun fault ↦ by
    unfold Fault.MentionsParticipant
    split <;> infer_instance

end Mentions

/-- What a candidate of `reduce_cluster_and_resources` leaves out or makes smaller. -/
inductive Reduction
  | controller (id : String)
  | participant (id : String)
  | resource (name : String)
  | partition (name partition : String)
  | replicas (name : String) (replicas : ℕ)

namespace Reduction

/-- What becomes of an action. -/
def rewrite : Reduction → Action → Option Action
  | .controller id => withoutController id
  | .participant id => withoutParticipant id
  | .resource name => withoutResource name
  | .partition name lost => withoutPartition name lost
  | .replicas name limit => fun action ↦ some (limitCreatedReplicas name limit action)

/-- The faults that name what is left out. -/
def Names : Reduction → Fault → Prop
  | .controller id => Fault.MentionsController id
  | .participant id => Fault.MentionsParticipant id
  | _ => fun _ ↦ False

instance (reduction : Reduction) : DecidablePred reduction.Names := by
  cases reduction <;> unfold Names <;> infer_instance

/-- The reduction is about something that the trace is configured with. -/
def Of (trace : Trace) : Reduction → Prop
  | .controller id => id ∈ trace.initialConfig.controllers
  | .participant id => id ∈ trace.initialConfig.participants.map ParticipantConfig.id
  | .resource name => name ∈ trace.initialConfig.resources.map ResourceConfig.name
  | .partition name lost =>
    ∃ resource ∈ trace.initialConfig.resources, resource.name = name ∧ lost ∈ resource.partitions
  | .replicas name limit => ∃ resource ∈ trace.initialConfig.resources,
    resource.name = name ∧ limit = resource.replicas / 2 ∧ 1 < resource.replicas

/-- No action and no fault of a trace mentions what has been left out. -/
def Forgotten (candidate : Trace) : Reduction → Prop
  | .controller id => (∀ action ∈ candidate.actions, ¬action.MentionsController id) ∧
    ∀ scheduled ∈ candidate.faults, ¬scheduled.fault.MentionsController id
  | .participant id => (∀ action ∈ candidate.actions, ¬action.MentionsParticipant id) ∧
    ∀ scheduled ∈ candidate.faults, ¬scheduled.fault.MentionsParticipant id
  | .resource name => ∀ action ∈ candidate.actions, ¬action.MentionsResource name
  | .partition name lost => ∀ action ∈ candidate.actions, ¬action.MentionsPartition name lost
  | .replicas _ _ => True

end Reduction

section Candidates

variable {trace : Trace}

theorem controllerId_eq {controller : String} (fault : Fault) :
    fault.controllerId = some controller ↔ fault.MentionsController controller := by
  unfold Fault.controllerId Fault.MentionsController
  split <;> simp_all

theorem participantId_eq {participant : String} (fault : Fault) :
    fault.participantId = some participant ↔ fault.MentionsParticipant participant := by
  unfold Fault.participantId Fault.MentionsParticipant
  split <;> simp_all

theorem withoutController_forgets {controller : String} {action action' : Action}
    (h : withoutController controller action = some action') :
    ¬action'.MentionsController controller := by
  unfold withoutController at h
  split at h
  · cases h
  · next other =>
    cases h
    intro mentions
    apply other
    unfold Action.MentionsController at mentions
    unfold Action.controllerId
    split at mentions <;> simp_all

theorem pruneParticipant_forgets (participant : String) (placement : PlacementConfig) :
    ¬(placement.pruneParticipant participant).MentionsParticipant participant := by
  cases placement with
  | crush => exact id
  | semiAuto preferenceLists =>
    rintro ⟨partition, instances, found, mem⟩
    rw [Std.ExtTreeMap.getElem?_map, Option.map_eq_some_iff] at found
    obtain ⟨old, -, rfl⟩ := found
    simpa using (List.mem_filter.mp mem).2

theorem withoutParticipant_forgets {participant : String} {action action' : Action}
    (h : withoutParticipant participant action = some action') :
    ¬action'.MentionsParticipant participant := by
  cases action with
  | createResource resource =>
    cases h
    exact pruneParticipant_forgets participant resource.placement
  | modifyPreferenceList resource partition instances =>
    cases h
    intro mem
    simpa using (List.mem_filter.mp mem).2
  | startParticipant id | gracefulStopParticipant id | crashParticipant id | restartParticipant id
  | removeParticipant id | addParticipant added =>
    simp only [withoutParticipant, Option.ite_none_right_eq_some] at h
    obtain ⟨other, eq⟩ := h
    cases eq
    exact other
  | _ =>
    cases h
    exact id

theorem withoutResource_forgets {name : String} {action action' : Action}
    (h : withoutResource name action = some action') : ¬action'.MentionsResource name := by
  unfold withoutResource at h
  split at h
  · cases h
  · next other =>
    cases h
    intro mentions
    apply other
    unfold Action.MentionsResource at mentions
    unfold Action.resourceId
    split at mentions <;> simp_all

theorem prunePartition_forgets (partition : String) (placement : PlacementConfig) :
    ¬(placement.prunePartition partition).MentionsPartition partition := by
  cases placement with
  | crush => exact id
  | semiAuto preferenceLists =>
    intro mem
    have gone : (preferenceLists.erase partition)[partition]? = none := by
      rw [OrderedMap.getElem?_erase, if_pos rfl]
    exact (OrderedMap.not_mem_iff _ _).mpr gone mem

theorem withoutPartition_forgets {name partition : String} {action action' : Action}
    (h : withoutPartition name partition action = some action') :
    ¬action'.MentionsPartition name partition := by
  cases action with
  | createResource resource =>
    cases h
    rintro ⟨named, mentions⟩
    by_cases same : resource.name = name
    · rw [pruneResourcePartition, if_pos same] at mentions
      rcases mentions with mem | mem
      · simpa using (List.mem_filter.mp mem).2
      · exact prunePartition_forgets partition resource.placement mem
    · rw [pruneResourcePartition, if_neg same] at named
      exact same named
  | modifyPreferenceList resource actionPartition instances =>
    simp only [withoutPartition, Option.ite_none_left_eq_some] at h
    obtain ⟨other, eq⟩ := h
    cases eq
    exact other
  | _ =>
    cases h
    exact id

theorem controller_carries (trace : Trace) (controller : String) :
    Carries (fun _ ↦ withoutController controller) (Fault.MentionsController controller) trace
      (removeController trace controller) := by
  refine carries_transform (transformActions_actions trace _) ?_
  refine List.filter_congr fun scheduled _ ↦ ?_
  rw [decide_eq_decide, ne_eq, controllerId_eq]

theorem participant_carries (trace : Trace) (participant : String) :
    Carries (fun _ ↦ withoutParticipant participant) (Fault.MentionsParticipant participant) trace
      (removeParticipant trace participant) := by
  refine carries_transform (transformActions_actions trace _) ?_
  refine List.filter_congr fun scheduled _ ↦ ?_
  rw [decide_eq_decide, ne_eq, participantId_eq]

/-- A transformation that drops no faults of its own. -/
theorem transform_carries {transform : Action → Option Action} {candidate : Trace}
    (actions : candidate.actions = (transformActions trace transform).actions)
    (faults : candidate.faults = (transformActions trace transform).faults) :
    Carries (fun _ ↦ transform) (fun _ ↦ False) trace candidate := by
  refine carries_transform (actions.trans (transformActions_actions trace _)) ?_
  rw [faults, List.filter_eq_self.mpr]
  simp

theorem replicas_carries (trace : Trace) (name : String) (replicas : ℕ) :
    Carries (fun _ action ↦ some (limitCreatedReplicas name replicas action)) (fun _ ↦ False) trace
      (setResourceReplicas trace name replicas) := by
  refine ⟨some, ⟨fun i action _ ↦ by simp, fun i j action found placed ↦ ?_,
    fun i i' j j' before placed placed' ↦ ?_, fun j hj ↦ ?_⟩, ?_⟩
  · obtain rfl := Option.some.inj placed
    rw [setResourceReplicas, List.getElem?_map, found, Option.map_some]
  · rw [← Option.some.inj placed, ← Option.some.inj placed']
    exact before
  · rw [setResourceReplicas, List.length_map] at hj
    exact ⟨j, hj, rfl⟩
  · simp [setResourceReplicas]

theorem forgets_of_transform {transform : Action → Option Action} {mentions : Action → Prop}
    (forgets : ∀ action action', transform action = some action' → ¬mentions action')
    {actions : List Action} : ∀ action ∈ actions.filterMap transform, ¬mentions action := by
  intro action mem
  obtain ⟨old, -, kept⟩ := List.mem_filterMap.mp mem
  exact forgets old action kept

theorem reduction_of_candidate {candidate : Trace} (mem : candidate ∈ reduceClusterAndResources trace) :
    ∃ reduction : Reduction, reduction.Of trace ∧
      Carries (fun _ ↦ reduction.rewrite) reduction.Names trace candidate ∧
      reduction.Forgotten candidate := by
  unfold reduceClusterAndResources at mem
  simp only [List.mem_append, List.mem_flatMap, List.mem_ite_nil_right, List.mem_map,
    List.mem_singleton] at mem
  rcases mem with ((⟨-, controller, listed, rfl⟩ | ⟨-, participant, listed, rfl⟩) |
    ⟨-, resource, listed, rfl⟩) | ⟨resource, listed, ⟨-, partition, member, rfl⟩ | ⟨large, rfl⟩⟩
  · refine ⟨.controller controller, listed, controller_carries trace controller, ?_, ?_⟩
    · rw [removeController, transformActions_actions]
      exact forgets_of_transform fun _ _ ↦ withoutController_forgets
    · intro scheduled mem
      rw [← controllerId_eq]
      simpa using (List.mem_filter.mp mem).2
  · refine ⟨.participant participant.id, List.mem_map_of_mem listed,
      participant_carries trace participant.id, ?_, ?_⟩
    · rw [removeParticipant, transformActions_actions]
      exact forgets_of_transform fun _ _ ↦ withoutParticipant_forgets
    · intro scheduled mem
      rw [← participantId_eq]
      simpa using (List.mem_filter.mp mem).2
  · refine ⟨.resource resource.name, List.mem_map_of_mem listed, transform_carries rfl rfl, ?_⟩
    rw [removeResource]
    change ∀ action ∈ (transformActions trace _).actions, _
    rw [transformActions_actions]
    exact forgets_of_transform fun _ _ ↦ withoutResource_forgets
  · refine ⟨.partition resource.name partition, ⟨resource, listed, rfl, member⟩,
      transform_carries rfl rfl, ?_⟩
    change ∀ action ∈ (transformActions trace _).actions, _
    rw [transformActions_actions]
    exact forgets_of_transform fun _ _ ↦ withoutPartition_forgets
  · exact ⟨.replicas resource.name (resource.replicas / 2), ⟨resource, listed, rfl, rfl, large⟩,
      replicas_carries trace resource.name _, trivial⟩

/-- Every reduction of a trace leaves each fault with its action, and drops only the faults of
removed actions and those that name what has been removed. -/
theorem reductions_carry_faults (trace : Trace) (inRange : trace.InRange) :
    (∀ start stop candidate, removeActionRange trace start stop = some candidate →
      Carries (fun i action ↦ if start ≤ i ∧ i < stop then none else some action) (fun _ ↦ False)
        trace candidate ∧ candidate.InRange) ∧
    ∀ candidate ∈ reduceClusterAndResources trace, ∃ reduction : Reduction, reduction.Of trace ∧
      Carries (fun _ ↦ reduction.rewrite) reduction.Names trace candidate ∧ candidate.InRange ∧
      reduction.Forgotten candidate := by
  refine ⟨fun start stop candidate removed ↦ ?_, fun candidate mem ↦ ?_⟩
  · have carries := removeActionRange_carries removed
    exact ⟨carries, carries.inRange inRange⟩
  · obtain ⟨reduction, about, carries, forgotten⟩ := reduction_of_candidate mem
    exact ⟨reduction, about, carries, carries.inRange inRange, forgotten⟩

/-- Two controllers and a fault on the start of the second one. -/
def twoControllers : Trace where
  schemaVersion := 1
  seed := 7
  profile := "nightly"
  initialConfig := ⟨["controller-a", "controller-b"], [], [], []⟩
  actions := [.startController "controller-a", .startController "controller-b"]
  faults := [⟨1, .etcdCompaction⟩]

theorem reductions_carry_faults_twoControllers :
    (removeController twoControllers "controller-a").InRange ∧
    (removeController twoControllers "controller-a").faults = [⟨0, .etcdCompaction⟩] := by
  obtain ⟨_, -, -, inRange, -⟩ := (reductions_carry_faults twoControllers (by
    unfold Trace.InRange
    decide)).2 (removeController twoControllers "controller-a") (by decide)
  exact ⟨inRange, by decide⟩

end Candidates

end Clustodian.Chaos
