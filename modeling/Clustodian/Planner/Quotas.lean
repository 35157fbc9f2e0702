import Clustodian.Lib.Metering
import Clustodian.Planner.Bounded
import Clustodian.Planner.Throttle

namespace Clustodian

/-- The cluster, one resource or one live instance. -/
inductive QuotaOwner
  | cluster
  | resource (resource : ResourceId)
  | instance_ (instance_ : InstanceId)
  deriving DecidableEq

structure QuotaCell where
  owner : QuotaOwner
  type : RebalanceType
  deriving DecidableEq

/-- The cells that a transition of a class concerns. -/
def quotaCells (type : RebalanceType) (resource : ResourceId) (instance_ : InstanceId) :
    List QuotaCell :=
  [.cluster, .resource resource, .instance_ instance_].flatMap fun owner ↦
    [⟨owner, .any⟩, ⟨owner, type⟩]

namespace StateTransitionThrottleConfig

/-- A configuration without a target of its scope's kind is for every owner of that kind. -/
def aimsAtResource (config : StateTransitionThrottleConfig) (resource : ResourceId) : Bool :=
  match config.target with
  | some (.resource target) => target = resource
  | _ => true

def aimsAtInstance (config : StateTransitionThrottleConfig) (instance_ : InstanceId) : Bool :=
  match config.target with
  | some (.instance_ target) => target = instance_
  | _ => true

def configures (config : StateTransitionThrottleConfig) (cell : QuotaCell) : Bool :=
  config.rebalanceType = cell.type && match cell.owner with
    | .cluster => config.scope = .cluster
    | .resource resource => config.scope = .resource && config.aimsAtResource resource
    | .instance_ instance_ => config.scope = .instance_ && config.aimsAtInstance instance_

end StateTransitionThrottleConfig

namespace Throttle

section Spec

variable (resources : List ResourceTransitionInput) (live : BTreeSet InstanceId)
  (pending : List OperationalPendingTransition) (configs : List StateTransitionThrottleConfig)
  (model : StateModelDefinition)

def known : QuotaOwner → Bool
  | .cluster => true
  | .resource resource => resource ∈ resources.map (·.resource)
  | .instance_ instance_ => instance_ ∈ live

/-- The limit of a cell is the one that was configured last. -/
def limit (cell : QuotaCell) : Option ℕ :=
  if known resources live cell.owner then
    ((configs.filter (·.configures cell)).getLast?).map (·.maxTransitions)
  else none

/-- The class under which a transition in flight is charged, if its replica is still at the
source of the transition. -/
def pendingClass (transition : OperationalPendingTransition) : Option RebalanceType :=
  (resources.find? (·.resource = transition.resource)).bind fun input ↦
    let current := input.currentState.state transition.partition transition.instance_
    if current ≠ some transition.sourceState ∨ current = some transition.targetState then none
    else some (rebalanceType (requiredStates input transition.partition live model)
      input.currentState.entries (pendingAsRequest transition))

def pendingCells (transition : OperationalPendingTransition) : List QuotaCell :=
  match pendingClass resources live model transition with
  | some type => quotaCells type transition.resource transition.instance_
  | none => []

/-- What is left of the limits after the transitions in flight are charged. -/
def capacity : QuotaCell → Option ℕ :=
  Metering.left (pendingCells resources live model) (limit resources live configs) pending

inductive Verdict
  | inFlight
  | dispatched (type : RebalanceType)
  | withheld (type : RebalanceType)
  deriving DecidableEq

structure Examination where
  transition : TransitionRequest
  verdict : Verdict
  deriving DecidableEq

namespace Examination

def dispatched (examination : Examination) : Option TransitionRequest :=
  match examination.verdict with
  | .dispatched _ => some examination.transition
  | .inFlight | .withheld _ => none

/-- Only a dispatch is charged, under the class found when it was examined. -/
def cells (examination : Examination) : List QuotaCell :=
  match examination.verdict with
  | .dispatched type =>
    quotaCells type examination.transition.resource examination.transition.instance_
  | .inFlight | .withheld _ => []

end Examination

/-- The replicas of a resource after the dispatches of this cycle. -/
def derivedAfter (input : ResourceTransitionInput) (dispatched : List TransitionRequest) :
    PartitionStates :=
  (dispatched.filter (·.resource = input.resource)).foldl (fun derived transition ↦
    insertState derived transition.partition transition.instance_ transition.targetState)
    input.currentState.entries

/-- The class of a transition in view of the dispatches before it. -/
def classAfter (dispatched : List TransitionRequest) (transition : TransitionRequest) :
    RebalanceType :=
  match resources.find? (·.resource = transition.resource) with
  | some input => rebalanceType (requiredStates input transition.partition live model)
      (derivedAfter input dispatched) transition
  | none => .any

def examine (log : List Examination) (transition : TransitionRequest) : Examination where
  transition
  verdict :=
    if transition ∈ pending.map pendingAsRequest then .inFlight
    else
      let type := classAfter resources live model (log.filterMap Examination.dispatched) transition
      if (quotaCells type transition.resource transition.instance_).any fun cell ↦
          Metering.left Examination.cells (capacity resources live pending configs model) log cell =
            some 0 then .withheld type
      else .dispatched type

/-- All selected transitions, resource by resource in the order of their examination. -/
def examinationSequence : List TransitionRequest :=
  resources.flatMap fun input ↦ (examinationOrder input model).flatMap Prod.snd

/-- A whole cycle as one log of examinations. -/
def throttleLog : List Examination :=
  Metering.record (examine resources live pending configs model) []
    (examinationSequence resources model)

end Spec

section Controller

variable {type : RebalanceType} {resource : ResourceId} {instance_ : InstanceId}

/-- What a cell of the controller has left, if it is limited. -/
def remaining (controller : ThrottleController) (cell : QuotaCell) : Option ℕ :=
  match cell.owner with
  | .cluster => controller.cluster[cell.type]?
  | .resource resource => controller.resources[resource]?.bind (·[cell.type]?)
  | .instance_ instance_ => controller.instances[instance_]?.bind (·[cell.type]?)

theorem mem_quotaCells {cell : QuotaCell} : cell ∈ quotaCells type resource instance_ ↔
    (cell.owner = .cluster ∨ cell.owner = .resource resource ∨ cell.owner = .instance_ instance_) ∧
      (cell.type = .any ∨ cell.type = type) := by
  obtain ⟨owner, t⟩ := cell
  simp only [quotaCells, List.mem_flatMap, List.mem_cons, List.not_mem_nil, or_false,
    QuotaCell.mk.injEq]
  constructor
  · rintro ⟨o, ho, ⟨rfl, ht⟩ | ⟨rfl, ht⟩⟩
    · exact ⟨ho, .inl ht⟩
    · exact ⟨ho, .inr ht⟩
  · rintro ⟨ho, ht⟩
    exact ⟨owner, ho, ht.imp (fun h ↦ ⟨rfl, h⟩) fun h ↦ ⟨rfl, h⟩⟩

theorem getElem?_chargeQuota (quota : Quota) (t : RebalanceType) :
    (chargeQuota quota type)[t]? =
      if t = .any ∨ t = type then quota[t]?.map (· - 1) else quota[t]? := by
  have one : ∀ (quota : Quota) (kind : RebalanceType), ((quota[kind]?).elim quota fun value ↦
      quota.insert kind (value - 1))[t]? = if t = kind then quota[t]?.map (· - 1) else quota[t]? := by
    intro quota kind
    by_cases same : t = kind
    · subst same
      rw [if_pos rfl]
      cases found : quota[t]? with
      | some value =>
        rw [Option.elim_some, OrderedMap.getElem?_insert, if_pos rfl]
        rfl
      | none =>
        rw [Option.elim_none, found]
        rfl
    · rw [if_neg same]
      cases quota[kind]? with
      | some value => rw [Option.elim_some, OrderedMap.getElem?_insert, if_neg same]
      | none => rfl
  unfold chargeQuota
  by_cases general : type = .any
  · simp only [general, ne_eq, not_true, if_false, or_self]
    refine Eq.trans (congrArg (·[t]?) ?_) (one quota .any)
    cases quota[RebalanceType.any]? <;> rfl
  · simp only [general, ne_eq, not_false_eq_true, if_true]
    refine Eq.trans (congrArg (·[t]?) ?_) ((one ((quota[RebalanceType.any]?).elim quota
      fun value ↦ quota.insert .any (value - 1)) type).trans ?_)
    · cases quota[RebalanceType.any]? with
      | none =>
        dsimp only [Option.elim_none]
        cases quota[type]? <;> rfl
      | some value =>
        dsimp only [Option.elim_some]
        cases (quota.insert .any (value - 1))[type]? <;> rfl
    cases found : quota[RebalanceType.any]? with
    | none =>
      by_cases any : t = .any
      · subst any
        simp [found]
      · simp only [any, false_or, Option.elim_none]
    | some value =>
      simp only [Option.elim_some, OrderedMap.getElem?_insert]
      by_cases any : t = .any
      · subst any
        simp [found, Ne.symm general]
      · simp only [any, false_or, if_false]

theorem remaining_charge (controller : ThrottleController) (type : RebalanceType)
    (resource : ResourceId) (instance_ : InstanceId) (cell : QuotaCell) :
    remaining (controller.charge type resource instance_) cell =
      if cell ∈ quotaCells type resource instance_ then (remaining controller cell).map (· - 1)
      else remaining controller cell := by
  obtain ⟨owner, t⟩ := cell
  simp only [mem_quotaCells]
  cases owner with
  | cluster =>
    simp only [remaining, ThrottleController.charge, getElem?_chargeQuota, true_or, true_and]
  | resource r =>
    simp only [remaining, ThrottleController.charge, QuotaOwner.resource.injEq, reduceCtorEq,
      false_or, or_false]
    by_cases same : r = resource
    · subst same
      cases found : controller.resources[r]? with
      | none => simp [found]
      | some quota => simp [getElem?_chargeQuota]
    · simp only [same, false_and, if_false]
      split <;> simp [OrderedMap.getElem?_insert, same]
  | instance_ i =>
    simp only [remaining, ThrottleController.charge, QuotaOwner.instance_.injEq, reduceCtorEq,
      false_or]
    by_cases same : i = instance_
    · subst same
      cases found : controller.instances[i]? with
      | none => simp [found]
      | some quota => simp [getElem?_chargeQuota]
    · simp only [same, false_and, if_false]
      split <;> simp [OrderedMap.getElem?_insert, same]

theorem shouldThrottle_iff (controller : ThrottleController) (type : RebalanceType)
    (resource : ResourceId) (instance_ : InstanceId) :
    controller.shouldThrottle type resource instance_ = true ↔
      ∃ cell ∈ quotaCells type resource instance_, remaining controller cell = some 0 := by
  have one : ∀ quota : Quota, quotaExhausted quota type = true ↔
      ∃ t, (t = .any ∨ t = type) ∧ quota[t]? = some 0 := by
    intro quota
    simp [quotaExhausted]
  have cells : ∀ quota : Option Quota, quota.any (quotaExhausted · type) = true ↔
      ∃ t, (t = .any ∨ t = type) ∧ quota.bind (·[t]?) = some 0 := by
    intro quota
    cases quota with
    | none => simp
    | some quota => simpa using one quota
  rw [ThrottleController.shouldThrottle, Bool.or_eq_true, Bool.or_eq_true, one, cells, cells]
  simp only [mem_quotaCells]
  constructor
  · rintro ((⟨t, ht, zero⟩ | ⟨t, ht, zero⟩) | ⟨t, ht, zero⟩)
    · exact ⟨⟨.cluster, t⟩, ⟨.inl rfl, ht⟩, zero⟩
    · exact ⟨⟨.resource resource, t⟩, ⟨.inr (.inl rfl), ht⟩, zero⟩
    · exact ⟨⟨.instance_ instance_, t⟩, ⟨.inr (.inr rfl), ht⟩, zero⟩
  · rintro ⟨⟨owner, t⟩, ⟨rfl | rfl | rfl, ht⟩, zero⟩
    · exact .inl (.inl ⟨t, ht, zero⟩)
    · exact .inl (.inr ⟨t, ht, zero⟩)
    · exact .inr ⟨t, ht, zero⟩

/-- The controller keeps quotas for this owner. -/
def keeps (controller : ThrottleController) : QuotaOwner → Bool
  | .cluster => true
  | .resource resource => controller.resources[resource]?.isSome
  | .instance_ instance_ => controller.instances[instance_]?.isSome

theorem configure_resource (controller : ThrottleController) (type : RebalanceType) (maximum : ℕ)
    (target : Option ThrottleTarget) : ∃ cells,
    controller.configure ⟨type, .resource, maximum, target⟩ = { controller with resources := cells } ∧
    ∀ r : ResourceId, cells[r]? =
      if StateTransitionThrottleConfig.aimsAtResource ⟨type, .resource, maximum, target⟩ r then
        controller.resources[r]?.map (·.insert type maximum)
      else controller.resources[r]? := by
  unfold StateTransitionThrottleConfig.aimsAtResource
  cases target with
  | none => exact ⟨_, rfl, fun r ↦ by simp⟩
  | some target =>
    cases target with
    | instance_ i => exact ⟨_, rfl, fun r ↦ by simp⟩
    | resource target =>
      simp only [ThrottleController.configure]
      cases found : controller.resources[target]? with
      | none =>
        refine ⟨controller.resources, rfl, fun r ↦ ?_⟩
        by_cases same : target = r
        · subst same
          simp [found]
        · simp [same]
      | some quota =>
        refine ⟨_, rfl, fun r ↦ ?_⟩
        by_cases same : target = r
        · subst same
          simp [found]
        · simp [OrderedMap.getElem?_insert, same, Ne.symm same]

theorem configure_instance (controller : ThrottleController) (type : RebalanceType) (maximum : ℕ)
    (target : Option ThrottleTarget) : ∃ cells,
    controller.configure ⟨type, .instance_, maximum, target⟩ =
      { controller with instances := cells } ∧
    ∀ i : InstanceId, cells[i]? =
      if StateTransitionThrottleConfig.aimsAtInstance ⟨type, .instance_, maximum, target⟩ i then
        controller.instances[i]?.map (·.insert type maximum)
      else controller.instances[i]? := by
  unfold StateTransitionThrottleConfig.aimsAtInstance
  cases target with
  | none => exact ⟨_, rfl, fun i ↦ by simp⟩
  | some target =>
    cases target with
    | resource r => exact ⟨_, rfl, fun i ↦ by simp⟩
    | instance_ target =>
      simp only [ThrottleController.configure]
      cases found : controller.instances[target]? with
      | none =>
        refine ⟨controller.instances, rfl, fun i ↦ ?_⟩
        by_cases same : target = i
        · subst same
          simp [found]
        · simp [same]
      | some quota =>
        refine ⟨_, rfl, fun i ↦ ?_⟩
        by_cases same : target = i
        · subst same
          simp [found]
        · simp [OrderedMap.getElem?_insert, same, Ne.symm same]

/-- One configuration sets the cells that it is for, where the controller keeps them. -/
theorem configure_spec (controller : ThrottleController) (config : StateTransitionThrottleConfig)
    (cell : QuotaCell) :
    keeps (controller.configure config) cell.owner = keeps controller cell.owner ∧
    remaining (controller.configure config) cell =
      if keeps controller cell.owner ∧ config.configures cell then some config.maxTransitions
      else remaining controller cell := by
  obtain ⟨owner, t⟩ := cell
  obtain ⟨type, scope, maximum, target⟩ := config
  have set : ∀ quota : Quota, (quota.insert type maximum)[t]? =
      if type = t then some maximum else quota[t]? := by
    intro quota
    by_cases same : t = type <;> simp [OrderedMap.getElem?_insert, same, Ne.symm]
  cases scope with
  | cluster =>
    cases owner <;> simp [keeps, remaining, ThrottleController.configure,
      StateTransitionThrottleConfig.configures, set]
  | resource =>
    obtain ⟨cells, same, found⟩ := configure_resource controller type maximum target
    rw [same]
    cases owner with
    | cluster => simp [keeps, remaining, StateTransitionThrottleConfig.configures]
    | instance_ i => simp [keeps, remaining, StateTransitionThrottleConfig.configures]
    | resource r =>
      simp only [keeps, remaining, found, StateTransitionThrottleConfig.configures]
      split <;> rename_i aimed <;> cases controller.resources[r]? <;> simp [aimed, set]
  | instance_ =>
    obtain ⟨cells, same, found⟩ := configure_instance controller type maximum target
    rw [same]
    cases owner with
    | cluster => simp [keeps, remaining, StateTransitionThrottleConfig.configures]
    | resource r => simp [keeps, remaining, StateTransitionThrottleConfig.configures]
    | instance_ i =>
      simp only [keeps, remaining, found, StateTransitionThrottleConfig.configures]
      split <;> rename_i aimed <;> cases controller.instances[i]? <;> simp [aimed, set]

theorem foldl_configure (controller : ThrottleController)
    (configs : List StateTransitionThrottleConfig) (cell : QuotaCell) :
    keeps (configs.foldl ThrottleController.configure controller) cell.owner =
      keeps controller cell.owner ∧
    remaining (configs.foldl ThrottleController.configure controller) cell =
      if keeps controller cell.owner then
        ((configs.filter (·.configures cell)).getLast?.map (·.maxTransitions)).or
          (remaining controller cell)
      else remaining controller cell := by
  induction configs using List.reverseRecOn with
  | nil => simp
  | append_singleton configs config ih =>
    obtain ⟨kept, left⟩ := ih
    obtain ⟨kept', left'⟩ := configure_spec (configs.foldl ThrottleController.configure controller)
      config cell
    rw [List.foldl_append, List.foldl_cons, List.foldl_nil, kept', left', kept, left,
      List.filter_append]
    refine ⟨rfl, ?_⟩
    by_cases known : keeps controller cell.owner = true
    · by_cases sets : config.configures cell = true
      · simp [known, sets]
      · simp [known, sets]
    · simp [known]

/-- Before anything is charged every cell holds its limit. -/
theorem remaining_new (resources : List ResourceTransitionInput) (live : BTreeSet InstanceId)
    (configs : List StateTransitionThrottleConfig) :
    remaining (ThrottleController.new resources live configs) = limit resources live configs := by
  funext cell
  obtain ⟨-, left⟩ := foldl_configure
    { cluster := ∅
      resources := resources.foldl (fun map input ↦ map.insert input.resource ∅) ∅
      instances := live.toList.foldl (fun map instance_ ↦ map.insert instance_ ∅) ∅ } configs cell
  refine left.trans ?_
  have first : ∀ {α K : Type} [LinearOrder K] (key : α → K) (items : List α) (k : K),
      (items.foldl (fun cells item ↦ cells.insert (key item) ∅) (∅ : BTreeMap K Quota))[k]? =
        if k ∈ items.map key then some ∅ else none := by
    intro α K _ key items k
    induction items using List.reverseRecOn with
    | nil => simp
    | append_singleton items item ih =>
      rw [List.foldl_append, List.foldl_cons, List.foldl_nil, OrderedMap.getElem?_insert, ih]
      by_cases same : k = key item <;> simp [same]
  obtain ⟨owner, t⟩ := cell
  cases owner with
  | cluster => simp [keeps, remaining, limit, known]
  | resource r =>
    simp only [keeps, remaining, limit, known,
      first (fun input : ResourceTransitionInput ↦ input.resource) resources r]
    by_cases mem : r ∈ resources.map (·.resource) <;> simp [mem]
  | instance_ i =>
    simp only [keeps, remaining, limit, known, first (fun i : InstanceId ↦ i) live.toList i]
    by_cases mem : i ∈ live <;> simp [mem]

end Controller

section InFlight

variable {resources : List ResourceTransitionInput} {live : BTreeSet InstanceId}
  {pending : List OperationalPendingTransition} {configs : List StateTransitionThrottleConfig}
  {model : StateModelDefinition} {input : ResourceTransitionInput}

theorem find?_input (distinct : (resources.map (·.resource)).Nodup) (mem : input ∈ resources) :
    resources.find? (·.resource = input.resource) = some input := by
  cases found : resources.find? (·.resource = input.resource) with
  | none => simpa using List.find?_eq_none.mp found input mem
  | some other =>
    have same : other.resource = input.resource := by simpa using List.find?_some found
    exact congrArg some (List.inj_on_of_nodup_map distinct (List.mem_of_find?_eq_some found) mem same)

/-- The pass over the transitions in flight of one resource charges their cells. -/
theorem remaining_chargePending (distinct : (resources.map (·.resource)).Nodup)
    (mem : input ∈ resources) (own : ∀ t ∈ pending, t.resource = input.resource)
    (controller : ThrottleController) :
    remaining (chargePending input pending live model controller) =
      Metering.left (pendingCells resources live model) (remaining controller) pending := by
  let charge (controller : ThrottleController) (transition : OperationalPendingTransition) :=
    match pendingClass resources live model transition with
    | some type => controller.charge type input.resource transition.instance_
    | none => controller
  let groups := (OrderedMap.groupBy OperationalPendingTransition.partition pending).toList
  let order := fun left right ↦ messagePriority input model (pendingAsRequest left)
    (pendingAsRequest right)
  have bucket : ∀ g ∈ groups, ∀ t ∈ sortBy order g.2, t.partition = g.1 ∧ t ∈ pending := by
    rintro ⟨p, group⟩ hg t ht
    have filtered := OrderedMap.getElem?_groupBy OperationalPendingTransition.partition pending p
    rw [(OrderedMap.mem_toList _ _ _).mp hg, Option.getD_some] at filtered
    rw [mem_sortBy, filtered, List.mem_filter, decide_eq_true_eq] at ht
    exact ⟨ht.2, ht.1⟩
  have flat : chargePending input pending live model controller =
      (groups.flatMap fun g ↦ sortBy order g.2).foldl charge controller := by
    rw [List.foldl_flatMap]
    refine List.foldl_ext _ _ _ fun c g hg ↦ List.foldl_ext _ _ _ fun c' t ht ↦ ?_
    obtain ⟨same, hpending⟩ := bucket g hg t ht
    simp only [charge, pendingClass, own t hpending, find?_input distinct mem, Option.bind_some,
      same]
    split <;> rfl
  have all : (groups.flatMap fun g ↦ sortBy order g.2).Perm pending := by
    have sorted : (groups.flatMap fun g ↦ sortBy order g.2).Perm (groups.flatMap Prod.snd) :=
      List.Perm.flatMap_left _ fun g _ ↦ List.perm_insertionSort _ _
    refine sorted.trans ?_
    rw [Greedy.flatMap_groupBy]
    exact List.perm_insertionSort _ _
  rw [flat, Metering.left_foldl (pendingCells resources live model) remaining
    fun c t ht cell ↦ ?_]
  · exact funext fun cell ↦ Metering.left_perm _ _ all cell
  · have same := own t (all.mem_iff.mp ht)
    cases found : pendingClass resources live model t with
    | none => simp [charge, pendingCells, found]
    | some type => simp only [charge, pendingCells, found, remaining_charge, same]

/-- The quotas left after all transitions in flight are charged. -/
theorem remaining_charged (distinct : (resources.map (·.resource)).Nodup)
    (known : ∀ t ∈ pending, t.resource ∈ resources.map (·.resource)) :
    remaining (charged resources live pending configs model) =
      capacity resources live pending configs model := by
  have all : ((resources.map (·.resource)).flatMap fun r ↦
      pending.filter fun t ↦ t.resource = r).Perm pending := by
    refine List.perm_iff_count.mpr fun t ↦ ?_
    have own : ∀ r, ∀ t ∈ pending.filter (fun t ↦ t.resource = r), t.resource = r := by
      intro r t mem
      simpa using (List.mem_filter.mp mem).2
    have count : ∀ l : List OperationalPendingTransition,
        (l.filter fun s ↦ s.resource = t.resource).count t = l.count t := fun l ↦
      List.count_filter (by simp)
    rw [← count, Greedy.filter_flatMap own distinct, ← count pending]
    split
    · rfl
    · next absent =>
      refine (List.count_eq_zero_of_not_mem ?_).symm
      exact fun mem ↦ absent (known t (List.mem_of_mem_filter mem))
  have step : ∀ (items : List ResourceTransitionInput) (controller : ThrottleController),
      (∀ input ∈ items, input ∈ resources) →
      remaining (items.foldl (fun controller input ↦ chargePending input
        (pending.filter fun t ↦ t.resource = input.resource) live model controller) controller) =
      Metering.left (pendingCells resources live model) (remaining controller)
        ((items.map (·.resource)).flatMap fun r ↦ pending.filter fun t ↦ t.resource = r) := by
    intro items
    induction items with
    | nil =>
      intro controller _
      exact (Metering.left_nil _ _).symm
    | cons input items ih =>
      intro controller mem
      rw [List.foldl_cons, ih _ fun i hi ↦ mem i (List.mem_cons_of_mem _ hi),
        remaining_chargePending distinct (mem input List.mem_cons_self) fun t ht ↦ by
          simpa using (List.mem_filter.mp ht).2, Metering.left_left]
      rfl
  rw [charged, step resources _ fun _ h ↦ h, remaining_new]
  exact funext fun cell ↦ Metering.left_perm _ _ all cell

end InFlight

section Cycle

variable {resources : List ResourceTransitionInput} {live : BTreeSet InstanceId}
  {pending : List OperationalPendingTransition} {configs : List StateTransitionThrottleConfig}
  {model : StateModelDefinition} {input : ResourceTransitionInput}

theorem pendingByResourceMatches_iff {transition : TransitionRequest}
    (own : transition.resource = input.resource) :
    pendingByResourceMatches (pending.filter fun t ↦ t.resource = input.resource) transition = true ↔
      transition ∈ pending.map pendingAsRequest := by
  obtain ⟨r, p, i, source, target⟩ := transition
  obtain rfl : r = input.resource := own
  simp only [pendingByResourceMatches, List.any_eq_true, List.mem_filter, decide_eq_true_eq,
    List.mem_map, pendingAsRequest, TransitionRequest.mk.injEq]
  constructor
  · rintro ⟨t, ⟨mem, resource⟩, same⟩
    exact ⟨t, mem, resource, same⟩
  · rintro ⟨t, mem, resource, same⟩
    exact ⟨t, ⟨mem, resource⟩, same⟩

/-- The loop variables of the dispatch loop as a log tells them. -/
structure Mirrors (resources : List ResourceTransitionInput) (live : BTreeSet InstanceId)
    (pending : List OperationalPendingTransition) (configs : List StateTransitionThrottleConfig)
    (model : StateModelDefinition) (input : ResourceTransitionInput) (state : ThrottleState)
    (log : List Examination) : Prop where
  remaining : remaining state.controller =
    Metering.left Examination.cells (capacity resources live pending configs model) log
  derived : state.derived = derivedAfter input (log.filterMap Examination.dispatched)
  dispatchable : state.dispatchable = log.filterMap Examination.dispatched

theorem Mirrors.dispatch (distinct : (resources.map (·.resource)).Nodup) (mem : input ∈ resources)
    {state : ThrottleState} {log : List Examination}
    (h : Mirrors resources live pending configs model input state log)
    {transition : TransitionRequest} (own : transition.resource = input.resource) :
    Mirrors resources live pending configs model input
      (dispatchTransition input (pending.filter fun t ↦ t.resource = input.resource)
        (requiredStates input transition.partition live model) state transition)
      (log ++ [examine resources live pending configs model log transition]) := by
  have found : resources.find? (·.resource = transition.resource) = some input := by
    rw [own]
    exact find?_input distinct mem
  -- A verdict other than a dispatch changes nothing.
  have idle : ∀ e : Examination, e.dispatched = none → e.cells = [] →
      Mirrors resources live pending configs model input state (log ++ [e]) := by
    intro e silent free
    have same : (log ++ [e]).filterMap Examination.dispatched =
        log.filterMap Examination.dispatched := by
      rw [List.filterMap_append, List.filterMap_cons, silent]
      exact List.append_nil _
    refine ⟨?_, by rw [same, h.derived], by rw [same, h.dispatchable]⟩
    funext cell
    rw [Metering.left_snoc, free, if_neg List.not_mem_nil, h.remaining]
  unfold dispatchTransition
  by_cases flight : transition ∈ pending.map pendingAsRequest
  · rw [if_pos ((pendingByResourceMatches_iff own).mpr flight)]
    have verdict : examine resources live pending configs model log transition =
        ⟨transition, .inFlight⟩ := by rw [examine, if_pos flight]
    rw [verdict]
    exact idle _ rfl rfl
  · rw [if_neg (mt (pendingByResourceMatches_iff own).mp flight)]
    have type : rebalanceType (requiredStates input transition.partition live model) state.derived
        transition = classAfter resources live model (log.filterMap Examination.dispatched)
          transition := by
      rw [classAfter, found, h.derived]
    have full := shouldThrottle_iff state.controller (classAfter resources live model
      (log.filterMap Examination.dispatched) transition) input.resource transition.instance_
    rw [h.remaining, ← own] at full
    simp only [type, ← own]
    by_cases throttled : state.controller.shouldThrottle (classAfter resources live model
        (log.filterMap Examination.dispatched) transition) transition.resource
          transition.instance_ = true
    · have verdict : examine resources live pending configs model log transition =
          ⟨transition, .withheld (classAfter resources live model
            (log.filterMap Examination.dispatched) transition)⟩ := by
        rw [examine, if_neg flight]
        dsimp only
        rw [if_pos (List.any_eq_true.mpr (by simpa using full.mp throttled))]
      rw [if_pos throttled, verdict]
      exact idle _ rfl rfl
    · have verdict : examine resources live pending configs model log transition =
          ⟨transition, .dispatched (classAfter resources live model
            (log.filterMap Examination.dispatched) transition)⟩ := by
        rw [examine, if_neg flight]
        dsimp only
        rw [if_neg]
        intro any
        exact throttled (full.mpr (by simpa using List.any_eq_true.mp any))
      have grown : (log ++ [(⟨transition, .dispatched (classAfter resources live model
            (log.filterMap Examination.dispatched) transition)⟩ : Examination)]).filterMap
          Examination.dispatched = log.filterMap Examination.dispatched ++ [transition] := by
        rw [List.filterMap_append]
        rfl
      rw [if_neg throttled, verdict]
      refine ⟨?_, ?_, ?_⟩
      · funext cell
        rw [Metering.left_snoc, remaining_charge, h.remaining]
        rfl
      · rw [grown, derivedAfter, List.filter_append, List.foldl_append,
          List.filter_cons_of_pos (by simpa using own), ← derivedAfter, ← h.derived]
        rfl
      · rw [grown, h.dispatchable]

theorem Mirrors.messages (distinct : (resources.map (·.resource)).Nodup) (mem : input ∈ resources)
    {partition : PartitionId} {messages : List TransitionRequest}
    (own : ∀ t ∈ messages, t.resource = input.resource ∧ t.partition = partition)
    {state : ThrottleState} {log : List Examination}
    (h : Mirrors resources live pending configs model input state log) :
    Mirrors resources live pending configs model input
      (messages.foldl (dispatchTransition input (pending.filter fun t ↦ t.resource = input.resource)
        (requiredStates input partition live model)) state)
      (Metering.record (examine resources live pending configs model) log messages) := by
  induction messages generalizing state log with
  | nil => exact h
  | cons t messages ih =>
    obtain ⟨resource, rfl⟩ := own t List.mem_cons_self
    exact ih (fun s hs ↦ own s (List.mem_cons_of_mem _ hs)) (h.dispatch distinct mem resource)

theorem Mirrors.groups (distinct : (resources.map (·.resource)).Nodup) (mem : input ∈ resources)
    {groups : List (PartitionId × List TransitionRequest)}
    (own : ∀ g ∈ groups, ∀ t ∈ g.2, t.resource = input.resource ∧ t.partition = g.1)
    {state : ThrottleState} {log : List Examination}
    (h : Mirrors resources live pending configs model input state log) :
    Mirrors resources live pending configs model input
      (groups.foldl (fun state (group : PartitionId × List TransitionRequest) ↦
        group.2.foldl (dispatchTransition input
          (pending.filter fun t ↦ t.resource = input.resource)
          (requiredStates input group.1 live model)) state) state)
      (Metering.record (examine resources live pending configs model) log
        (groups.flatMap Prod.snd)) := by
  induction groups generalizing state log with
  | nil => exact h
  | cons g groups ih =>
    rw [List.flatMap_cons, Metering.record_append]
    exact ih (fun s hs ↦ own s (List.mem_cons_of_mem _ hs))
      (h.messages distinct mem (own g List.mem_cons_self))

theorem mem_examinationOrder_group {group : PartitionId × List TransitionRequest}
    (mem : group ∈ examinationOrder input model) {transition : TransitionRequest}
    (inside : transition ∈ group.2) :
    transition ∈ input.selectedTransitions ∧ transition.partition = group.1 := by
  simp only [examinationOrder, List.mem_map] at mem
  obtain ⟨partition, -, rfl⟩ := mem
  rw [mem_sortBy, OrderedMap.getElem?_groupBy, List.mem_filter, decide_eq_true_eq] at inside
  exact inside

theorem resource_of_validateSelected (valid : validateSelected input model = .ok ())
    {transition : TransitionRequest} (mem : transition ∈ input.selectedTransitions) :
    transition.resource = input.resource := by
  refine CheckedLoop.foldlM_inv (fun done (_ : Unit) ↦ ∀ t ∈ done, t.resource = input.resource)
    input.selectedTransitions valid (fun t h ↦ absurd h List.not_mem_nil)
    (fun done t rest _ _ _ inv step ↦ ?_) transition mem
  intro s hs
  rcases List.mem_append.mp hs with hs | hs
  · exact inv s hs
  · rw [List.mem_singleton] at hs
    subst hs
    by_contra other
    rw [if_pos other] at step
    cases step

/-- One resource's pass in the log. -/
theorem throttleResource_mirrors (distinct : (resources.map (·.resource)).Nodup)
    (mem : input ∈ resources) (valid : validateSelected input model = .ok ())
    {controller : ThrottleController} {dispatchable : List TransitionRequest}
    {log : List Examination} (others : ∀ e ∈ log, e.transition.resource ≠ input.resource)
    (left : remaining controller =
      Metering.left Examination.cells (capacity resources live pending configs model) log)
    (sent : dispatchable = log.filterMap Examination.dispatched) :
    let pass := throttleResource live model (pending.filter fun t ↦ t.resource = input.resource)
      input controller dispatchable
    let log' := Metering.record (examine resources live pending configs model) log
      ((examinationOrder input model).flatMap Prod.snd)
    remaining pass.1 =
      Metering.left Examination.cells (capacity resources live pending configs model) log' ∧
    pass.2.1 = log'.filterMap Examination.dispatched := by
  intro pass log'
  have start : Mirrors resources live pending configs model input
      ⟨controller, input.currentState.entries, dispatchable⟩ log := by
    refine ⟨left, ?_, sent⟩
    have none : (log.filterMap Examination.dispatched).filter
        (fun t ↦ t.resource = input.resource) = [] := by
      refine List.filter_eq_nil_iff.mpr fun t ht ↦ ?_
      obtain ⟨e, he, found⟩ := List.mem_filterMap.mp ht
      have same : e.transition = t := by
        unfold Examination.dispatched at found
        split at found
        · exact Option.some.inj found
        · cases found
        · cases found
      simpa [← same] using others e he
    rw [derivedAfter, none]
    rfl
  have own : ∀ g ∈ examinationOrder input model, ∀ t ∈ g.2,
      t.resource = input.resource ∧ t.partition = g.1 := by
    intro g hg t ht
    obtain ⟨selected, same⟩ := mem_examinationOrder_group hg ht
    exact ⟨resource_of_validateSelected valid selected, same⟩
  have finish := start.groups distinct mem own
  by_cases idle : input.selectedTransitions.isEmpty = true
  · have empty : examinationOrder input model = [] := by
      rw [List.isEmpty_iff] at idle
      rw [examinationOrder, idle]
      simp only [OrderedMap.groupBy, List.foldl_nil]
      rfl
    have same : log' = log := by
      simp only [log', empty, List.flatMap_nil]
      rfl
    have skipped : pass = (controller, dispatchable, input.bestPossibleState.entries) := if_pos idle
    rw [same, skipped]
    exact ⟨left, sent⟩
  · simp only [pass, throttleResource, if_neg idle]
    exact ⟨finish.remaining, finish.dispatchable⟩

/-- Every transition is examined once, in the given order. -/
theorem transitions_record (resources : List ResourceTransitionInput) (live : BTreeSet InstanceId)
    (pending : List OperationalPendingTransition) (configs : List StateTransitionThrottleConfig)
    (model : StateModelDefinition) (sequence : List TransitionRequest) :
    (Metering.record (examine resources live pending configs model) [] sequence).map
      Examination.transition = sequence :=
  (Metering.map_record Examination.transition id (fun _ _ ↦ rfl) sequence []).trans (List.map_id _)

/-- The stage dispatches what its log says. -/
theorem dispatchable_eq {result : IntermediateThrottleResult}
    (run : computeIntermediateAndThrottle resources live pending configs model = .ok result) :
    (resources.map (·.resource)).Nodup ∧
    (∀ t ∈ pending, t.resource ∈ resources.map (·.resource)) ∧
    (∀ input ∈ resources, validateSelected input model = .ok ()) ∧
    result.dispatchableTransitions =
      (throttleLog resources live pending configs model).filterMap Examination.dispatched := by
  unfold computeIntermediateAndThrottle at run
  obtain ⟨⟨⟩, unique, run⟩ := CheckedLoop.bind_eq_ok.mp run
  obtain ⟨distinct, -⟩ := (checkResources_eq_ok_iff resources []).mp unique
  cases unknown : pending.find? (fun t ↦ t.resource ∉ resources.map (·.resource)) with
  | some t =>
    rw [unknown] at run
    cases run
  | none =>
    rw [unknown] at run
    have known : ∀ t ∈ pending, t.resource ∈ resources.map (·.resource) := by
      intro t mem
      simpa using List.find?_eq_none.mp unknown t mem
    obtain ⟨⟨⟩, -, run⟩ := CheckedLoop.bind_eq_ok.mp run
    obtain ⟨⟨controller, dispatchable, intermediate⟩, loop, run⟩ := CheckedLoop.bind_eq_ok.mp run
    cases run
    simp only [OrderedMap.getElem?_groupBy] at loop
    let sequence (inputs : List ResourceTransitionInput) : List TransitionRequest :=
      inputs.flatMap fun input ↦ (examinationOrder input model).flatMap Prod.snd
    obtain ⟨-, sent, valid⟩ := CheckedLoop.foldlM_inv
      (fun done (acc : ThrottleController × List TransitionRequest ×
          BTreeMap ResourceId PartitionStates) ↦
        remaining acc.1 = Metering.left Examination.cells
          (capacity resources live pending configs model)
          (Metering.record (examine resources live pending configs model) [] (sequence done)) ∧
        acc.2.1 = (Metering.record (examine resources live pending configs model) []
          (sequence done)).filterMap Examination.dispatched ∧
        ∀ input ∈ done, validateSelected input model = .ok ()) resources loop
      ⟨(remaining_charged distinct known).trans (Metering.left_nil _ _).symm, rfl, by simp⟩
      fun done input rest acc acc' split inv step ↦ by
        obtain ⟨⟨⟩, valid, step⟩ := CheckedLoop.bind_eq_ok.mp step
        cases step
        obtain ⟨left, sent, earlier⟩ := inv
        have mem : input ∈ resources := by simp [split]
        have others : ∀ e ∈ Metering.record (examine resources live pending configs model) []
            (sequence done), e.transition.resource ≠ input.resource := by
          intro e he same
          have examined : e.transition ∈ sequence done := by
            have listed := transitions_record resources live pending configs model (sequence done)
            rw [← listed]
            exact List.mem_map_of_mem he
          obtain ⟨other, hother, inside⟩ := List.mem_flatMap.mp examined
          obtain ⟨group, hgroup, inside⟩ := List.mem_flatMap.mp inside
          have own := resource_of_validateSelected (earlier other hother)
            (mem_examinationOrder_group hgroup inside).1
          rw [split, List.map_append, List.nodup_append] at distinct
          exact distinct.2.2 other.resource (List.mem_map_of_mem hother) input.resource (by simp)
            (own.symm.trans same)
        obtain ⟨left', sent'⟩ := throttleResource_mirrors distinct mem valid others left sent
        have grown : sequence (done ++ [input]) =
            sequence done ++ (examinationOrder input model).flatMap Prod.snd := by
          simp [sequence]
        rw [grown, Metering.record_append]
        refine ⟨left', sent', fun i hi ↦ ?_⟩
        rcases List.mem_append.mp hi with hi | hi
        · exact earlier i hi
        · rw [List.mem_singleton] at hi
          rw [hi, valid]
    exact ⟨distinct, known, valid, sent⟩

theorem examinationOrder_perm (input : ResourceTransitionInput) (model : StateModelDefinition) :
    ((examinationOrder input model).flatMap Prod.snd).Perm input.selectedTransitions := by
  let groups := OrderedMap.groupBy TransitionRequest.partition input.selectedTransitions
  let group (p : PartitionId) : List TransitionRequest :=
    sortBy (messagePriority input model) ((groups[p]?).getD [])
  have own : ∀ p, ∀ t ∈ group p, t.partition = p := by
    intro p t mem
    rw [mem_sortBy, OrderedMap.getElem?_groupBy] at mem
    simpa using (List.mem_filter.mp mem).2
  have keys : (sortBy (partitionPriority input model.highestPriorityState) groups.keys).Nodup := by
    refine (List.perm_insertionSort _ _).nodup_iff.mpr ?_
    rw [← Std.ExtTreeMap.map_fst_toList_eq_keys]
    exact OrderedMap.keys_nodup _
  have flat : (examinationOrder input model).flatMap Prod.snd =
      (sortBy (partitionPriority input model.highestPriorityState) groups.keys).flatMap group := by
    rw [examinationOrder, List.flatMap_map]
  have count : ∀ (l : List TransitionRequest) (t : TransitionRequest),
      (l.filter fun s ↦ s.partition = t.partition).count t = l.count t := fun l t ↦
    List.count_filter (by simp)
  refine List.perm_iff_count.mpr fun t ↦ ?_
  rw [flat, ← count, Greedy.filter_flatMap own keys, ← count input.selectedTransitions,
    ← OrderedMap.getElem?_groupBy]
  split
  · exact (List.perm_insertionSort _ _).count_eq t
  · next absent =>
    rw [mem_sortBy, Std.ExtTreeMap.mem_keys, OrderedMap.not_mem_iff] at absent
    rw [absent]
    rfl

theorem examinationSequence_perm (resources : List ResourceTransitionInput)
    (model : StateModelDefinition) : (examinationSequence resources model).Perm
      (resources.flatMap (·.selectedTransitions)) :=
  List.Perm.flatMap_left _ fun input _ ↦ examinationOrder_perm input model

theorem transition_of_dispatched {e : Examination} {t : TransitionRequest}
    (h : e.dispatched = some t) : t = e.transition ∧ ∃ type, e.verdict = .dispatched type := by
  unfold Examination.dispatched at h
  split at h
  · next type verdict => exact ⟨(Option.some.inj h).symm, type, verdict⟩
  · cases h
  · cases h

theorem dispatched_sublist (log : List Examination) :
    (log.filterMap Examination.dispatched).Sublist (log.map Examination.transition) := by
  induction log with
  | nil => exact .refl _
  | cons e log ih =>
    cases sent : e.dispatched with
    | none =>
      rw [List.filterMap_cons_none sent]
      exact ih.cons _
    | some t =>
      rw [List.filterMap_cons_some sent, (transition_of_dispatched sent).1]
      exact ih.cons_cons _

/-- What a verdict says about the log before it. -/
theorem verdict_spec {before after : List Examination} {e : Examination}
    (split : throttleLog resources live pending configs model = before ++ e :: after) :
    let room := Metering.left Examination.cells (capacity resources live pending configs model)
      before
    e.verdict = .inFlight ∧ e.transition ∈ pending.map pendingAsRequest ∨
      e.transition ∉ pending.map pendingAsRequest ∧ ∃ type,
        e.verdict = .withheld type ∧
            (∃ cell ∈ quotaCells type e.transition.resource e.transition.instance_,
              room cell = some 0) ∨
          e.verdict = .dispatched type ∧
            ∀ cell ∈ quotaCells type e.transition.resource e.transition.instance_,
              room cell ≠ some 0 := by
  intro room
  have same : e.verdict = (examine resources live pending configs model before e.transition).verdict :=
    Metering.record_induction
      (fun before (e : Examination) ↦
        e.verdict = (examine resources live pending configs model before e.transition).verdict)
      _ (fun _ _ _ ↦ rfl) before e after split
  rw [same]
  by_cases flight : e.transition ∈ pending.map pendingAsRequest
  · exact .inl ⟨if_pos flight, flight⟩
  · refine .inr ⟨flight, classAfter resources live model (before.filterMap Examination.dispatched)
      e.transition, ?_⟩
    by_cases full : (quotaCells (classAfter resources live model
        (before.filterMap Examination.dispatched) e.transition) e.transition.resource
          e.transition.instance_).any fun cell ↦ room cell = some 0
    · refine .inl ⟨(if_neg flight).trans (if_pos full), ?_⟩
      simpa using List.any_eq_true.mp full
    · refine .inr ⟨(if_neg flight).trans (if_neg full), fun cell mem zero ↦ full ?_⟩
      exact List.any_eq_true.mpr ⟨cell, mem, by simpa using zero⟩

theorem transitions_throttleLog (resources : List ResourceTransitionInput)
    (live : BTreeSet InstanceId) (pending : List OperationalPendingTransition)
    (configs : List StateTransitionThrottleConfig) (model : StateModelDefinition) :
    ((throttleLog resources live pending configs model).map Examination.transition).Perm
      (resources.flatMap (·.selectedTransitions)) := by
  have listed := transitions_record resources live pending configs model
    (examinationSequence resources model)
  exact (List.Perm.of_eq listed).trans (examinationSequence_perm resources model)

end Cycle

end Throttle

section Throttling

variable {resources : List ResourceTransitionInput} {live : BTreeSet InstanceId}
  {pending : List OperationalPendingTransition} {configs : List StateTransitionThrottleConfig}
  {model : StateModelDefinition} {result : IntermediateThrottleResult}

open Throttle

/-- No cell is charged more dispatches than its limit leaves beside the transitions in flight. -/
theorem throttle_within_quotas
    (run : computeIntermediateAndThrottle resources live pending configs model = .ok result) :
    let log := throttleLog resources live pending configs model
    result.dispatchableTransitions = log.filterMap Examination.dispatched ∧
    (∀ cell q, limit resources live configs cell = some q →
      Metering.used Examination.cells log cell ≤
        q - Metering.used (pendingCells resources live model) pending cell) ∧
    result.dispatchableTransitions.Subperm (resources.flatMap (·.selectedTransitions)) ∧
    ∀ t ∈ result.dispatchableTransitions, t ∉ pending.map pendingAsRequest := by
  intro log
  obtain ⟨-, -, -, sent⟩ := dispatchable_eq run
  refine ⟨sent, fun cell q limited ↦ ?_, ?_, fun t mem flight ↦ ?_⟩
  · refine Metering.used_le Examination.cells (capacity resources live pending configs model)
      (fun before e after split cell charged ↦ ?_) (by rw [capacity, Metering.left, limited]; rfl)
    rcases verdict_spec split with ⟨verdict, -⟩ | ⟨-, type, ⟨verdict, -⟩ | ⟨verdict, room⟩⟩
    · simp [Examination.cells, verdict] at charged
    · simp [Examination.cells, verdict] at charged
    · refine room cell ?_
      simpa only [Examination.cells, verdict] using charged
  · rw [sent]
    exact (dispatched_sublist log).subperm.trans
      (transitions_throttleLog resources live pending configs model).subperm
  · rw [sent] at mem
    obtain ⟨e, he, dispatched⟩ := List.mem_filterMap.mp mem
    obtain ⟨rfl, type, verdict⟩ := transition_of_dispatched dispatched
    obtain ⟨before, after, split⟩ := List.append_of_mem he
    rcases verdict_spec split with ⟨other, -⟩ | ⟨free, -⟩
    · rw [other] at verdict
      cases verdict
    · exact free flight

/-- Two selected transitions under a cluster limit of one. -/
def oneAtATime : ResourceTransitionInput where
  resource := db
  replicas := 2
  minActiveReplicas := none
  preferenceLists := twoReplicas.preferenceLists
  currentState := ∅
  bestPossibleState := ∅
  selectedTransitions := [promotionOf leftNode, promotionOf rightNode]

theorem oneAtATime_runs : ((computeIntermediateAndThrottle [oneAtATime] bothLive []
    [.new .any .cluster 1] leaderStandby).toOption.map (·.dispatchableTransitions)) =
      some [promotionOf leftNode] := by decide +kernel

theorem throttle_within_quotas_one : ∃ result,
    computeIntermediateAndThrottle [oneAtATime] bothLive [] [.new .any .cluster 1] leaderStandby =
      .ok result ∧
    result.dispatchableTransitions.Subperm [promotionOf leftNode, promotionOf rightNode] ∧
    Metering.used Examination.cells
      (throttleLog [oneAtATime] bothLive [] [.new .any .cluster 1] leaderStandby)
      ⟨.cluster, .any⟩ ≤ 1 := by
  obtain ⟨result, run, -⟩ := Option.map_eq_some_iff.mp oneAtATime_runs
  have ok := CheckedLoop.toOption_eq_some.mp run
  obtain ⟨-, within, listed, -⟩ := throttle_within_quotas ok
  exact ⟨result, ok, listed, within ⟨.cluster, .any⟩ 1 (by decide +kernel)⟩

/-- What is passed over concerns a cell that is still exhausted when the cycle ends. -/
theorem throttle_work_conserving
    (run : computeIntermediateAndThrottle resources live pending configs model = .ok result) :
    let log := throttleLog resources live pending configs model
    result.dispatchableTransitions = log.filterMap Examination.dispatched ∧
    (log.map Examination.transition).Perm (resources.flatMap (·.selectedTransitions)) ∧
    (∀ e ∈ log, e.transition ∉ pending.map pendingAsRequest → e.dispatched = none →
      ∃ type, e.verdict = .withheld type ∧
        ∃ cell ∈ quotaCells type e.transition.resource e.transition.instance_,
          ∃ q, limit resources live configs cell = some q ∧
            q - Metering.used (pendingCells resources live model) pending cell -
              Metering.used Examination.cells log cell = 0) ∧
    (configs = [] → result.dispatchableTransitions.Perm
      ((resources.flatMap (·.selectedTransitions)).filter
        fun t ↦ t ∉ pending.map pendingAsRequest)) := by
  intro log
  obtain ⟨-, -, -, sent⟩ := dispatchable_eq run
  have examined := transitions_throttleLog resources live pending configs model
  have blocked : ∀ e ∈ log, e.transition ∉ pending.map pendingAsRequest → e.dispatched = none →
      ∃ type, e.verdict = .withheld type ∧
        ∃ cell ∈ quotaCells type e.transition.resource e.transition.instance_,
          ∃ q, limit resources live configs cell = some q ∧
            q - Metering.used (pendingCells resources live model) pending cell -
              Metering.used Examination.cells log cell = 0 := by
    intro e he free silent
    obtain ⟨before, after, split⟩ := List.append_of_mem he
    rcases verdict_spec split with ⟨-, flight⟩ | ⟨-, type, ⟨verdict, full⟩ | ⟨verdict, -⟩⟩
    · exact absurd flight free
    · obtain ⟨cell, concerned, zero⟩ := full
      have still := Metering.left_append_eq_zero Examination.cells
        (capacity resources live pending configs model) zero (e :: after)
      rw [← split] at still
      obtain ⟨rest, found, empty⟩ := Option.map_eq_some_iff.mp still
      obtain ⟨q, limited, rfl⟩ := Option.map_eq_some_iff.mp found
      exact ⟨type, verdict, cell, concerned, q, limited, empty⟩
    · rw [Examination.dispatched, verdict] at silent
      cases silent
  refine ⟨sent, examined, blocked, fun unlimited ↦ ?_⟩
  subst unlimited
  have all : ∀ e ∈ log, e.dispatched =
      if e.transition ∉ pending.map pendingAsRequest then some e.transition else none := by
    intro e he
    obtain ⟨before, after, split⟩ := List.append_of_mem he
    rcases verdict_spec split with ⟨verdict, flight⟩ | ⟨free, type, ⟨verdict, -⟩ | ⟨verdict, -⟩⟩
    · rw [if_neg (not_not.mpr flight), Examination.dispatched, verdict]
    · have silent : e.dispatched = none := by rw [Examination.dispatched, verdict]
      obtain ⟨-, -, cell, -, q, limited, -⟩ := blocked e he free silent
      simp [limit] at limited
    · rw [if_pos free, Examination.dispatched, verdict]
  rw [sent]
  refine List.Perm.trans (List.Perm.of_eq ?_) (examined.filter _)
  rw [List.filter_map, ← List.filterMap_eq_filter, List.map_filterMap]
  refine List.filterMap_congr fun e he ↦ ?_
  rw [all e he, Option.guard_apply]
  by_cases flight : e.transition ∈ pending.map pendingAsRequest
  · simp only [flight, Function.comp, not_true, decide_false, Bool.false_eq_true, if_false,
      Option.map_none]
  · simp only [flight, Function.comp, not_false_eq_true, decide_true, if_true, Option.map_some]

theorem throttle_work_conserving_one : ∃ result,
    computeIntermediateAndThrottle [oneAtATime] bothLive [] [.new .any .cluster 1] leaderStandby =
      .ok result ∧
    ((throttleLog [oneAtATime] bothLive [] [.new .any .cluster 1] leaderStandby).map
      Examination.transition).Perm [promotionOf leftNode, promotionOf rightNode] := by
  obtain ⟨result, run, -⟩ := Option.map_eq_some_iff.mp oneAtATime_runs
  have ok := CheckedLoop.toOption_eq_some.mp run
  obtain ⟨-, examined, -⟩ := throttle_work_conserving ok
  exact ⟨result, ok, examined⟩

end Throttling

end Clustodian
