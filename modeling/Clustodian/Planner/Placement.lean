import Clustodian.Planner.Bounded
import Clustodian.Planner.SemiAuto

namespace Clustodian

namespace SemiAuto

section Spec

variable (model : StateModelDefinition) (current : Option InstanceStates)

/-- In the top state or one declared transition below it. -/
def NearTop (instance_ : InstanceId) : Prop :=
  let state := (current.bind (·[instance_]?)).getD model.initialState
  state = model.highestPriorityState ∨
    ⟨state, model.highestPriorityState⟩ ∈ model.transitionsByPriority

instance (instance_ : InstanceId) : Decidable (NearTop model current instance_) :=
  inferInstanceAs (Decidable (_ ∨ _))

/-- Who is given a state while so many replicas of it are requested: the first in line, but for
the top state the unassigned instance of best current state where there is a choice and the
first in line is far from the top. -/
def pickFor (requested : State) (requests : ℕ) : List InstanceId → Option InstanceId
  | [] => none
  | first :: rest =>
    if requested = model.highestPriorityState ∧ requests < (first :: rest).length ∧
        ¬NearTop model current first then
      ((first :: rest).insertionSort fun left right ↦ currentStatePriority current left model ≤
        currentStatePriority current right model).head?
    else some first

def serve (requested : State) : ℕ → List InstanceId → List InstanceId
  | 0, _ => []
  | requests + 1, unassigned =>
    match pickFor model current requested (requests + 1) unassigned with
    | none => []
    | some chosen => chosen :: serve requested requests (unassigned.filter (· ≠ chosen))

/-- The states in their order, each with the instances that are given it. -/
def placement (count : State → ℕ) : List State → List InstanceId → List (State × List InstanceId)
  | [], _ => []
  | state :: states, unassigned =>
    let chosen := serve model current state (count state) unassigned
    (state, chosen) :: placement count states (unassigned.filter (· ∉ chosen))

end Spec

section Serve

variable {model : StateModelDefinition} {current : Option InstanceStates} {requested : State}

theorem pickFor_mem {requests : ℕ} {unassigned : List InstanceId} {chosen : InstanceId}
    (h : pickFor model current requested requests unassigned = some chosen) :
    chosen ∈ unassigned := by
  cases unassigned with
  | nil => cases h
  | cons first rest =>
    rw [pickFor] at h
    split at h
    · exact (List.mem_insertionSort _).mp (List.mem_of_mem_head? h)
    · cases h
      exact List.mem_cons_self

theorem pickFor_eq_none {requests : ℕ} {unassigned : List InstanceId} :
    pickFor model current requested requests unassigned = none ↔ unassigned = [] := by
  refine ⟨fun h ↦ ?_, fun h ↦ by rw [h, pickFor]⟩
  cases unassigned with
  | nil => rfl
  | cons first rest =>
    rw [pickFor] at h
    split at h
    · have length := List.length_insertionSort (fun left right ↦
        currentStatePriority current left model ≤ currentStatePriority current right model)
        (first :: rest)
      rw [List.head?_eq_none_iff.mp h] at length
      cases length
    · cases h

theorem mem_serve {requests : ℕ} {unassigned : List InstanceId} {i : InstanceId}
    (h : i ∈ serve model current requested requests unassigned) : i ∈ unassigned := by
  induction requests generalizing unassigned with
  | zero => cases h
  | succ requests ih =>
    rw [serve] at h
    split at h
    · cases h
    · next chosen picked =>
      rcases List.mem_cons.mp h with rfl | h
      · exact pickFor_mem picked
      · exact List.mem_of_mem_filter (ih h)

theorem serve_nodup (requests : ℕ) (unassigned : List InstanceId) :
    (serve model current requested requests unassigned).Nodup := by
  induction requests generalizing unassigned with
  | zero => exact .nil
  | succ requests ih =>
    rw [serve]
    split
    · exact .nil
    · next chosen picked =>
      refine List.nodup_cons.mpr ⟨fun again ↦ ?_, ih _⟩
      simpa using (List.mem_filter.mp (mem_serve again)).2

theorem length_filter_ne {instances : List InstanceId} (distinct : instances.Nodup)
    {i : InstanceId} (mem : i ∈ instances) :
    (instances.filter (· ≠ i)).length + 1 = instances.length := by
  have filled := List.length_pos_of_mem mem
  have shrunk := List.length_erase_of_mem mem
  rw [List.Nodup.erase_eq_filter distinct] at shrunk
  have same : instances.filter (fun j ↦ decide (j ≠ i)) = instances.filter (· != i) := by
    refine List.filter_congr fun j _ ↦ ?_
    by_cases h : j = i <;> simp [h]
  rw [same, shrunk]
  omega

/-- A state gets as many replicas as are requested and can still be had. -/
theorem serve_length (requests : ℕ) {unassigned : List InstanceId} (distinct : unassigned.Nodup) :
    (serve model current requested requests unassigned).length = min requests unassigned.length := by
  induction requests generalizing unassigned with
  | zero => exact (Nat.zero_min _).symm
  | succ requests ih =>
    rw [serve]
    split
    · next none_left => rw [pickFor_eq_none.mp none_left, List.length_nil, Nat.min_zero]
    · next chosen picked =>
      have shrunk := length_filter_ne distinct (pickFor_mem picked)
      rw [List.length_cons, ih (distinct.filter _)]
      omega

/-- Below the top state the first in line are served. -/
theorem serve_of_not_top (low : requested ≠ model.highestPriorityState) (requests : ℕ)
    {unassigned : List InstanceId} (distinct : unassigned.Nodup) :
    serve model current requested requests unassigned = unassigned.take requests := by
  induction requests generalizing unassigned with
  | zero => rfl
  | succ requests ih =>
    cases unassigned with
    | nil => rfl
    | cons first rest =>
      have picked : pickFor model current requested (requests + 1) (first :: rest) = some first :=
        if_neg fun h ↦ low h.1
      obtain ⟨fresh, distinct'⟩ := List.nodup_cons.mp distinct
      have others : (first :: rest).filter (· ≠ first) = rest := by
        rw [List.filter_cons_of_neg (by simp)]
        exact List.filter_eq_self.mpr fun i hi ↦ by
          simpa using fun same : i = first ↦ fresh (same ▸ hi)
      rw [serve, picked, List.take_succ_cons]
      exact congrArg (first :: ·) (by rw [others, ih distinct'])

/-- Every instance served is the pick for the requests still open at that moment. -/
theorem serve_split {requests : ℕ} {unassigned done rest : List InstanceId} {i : InstanceId}
    (split : serve model current requested requests unassigned = done ++ i :: rest) :
    pickFor model current requested (requests - done.length) (unassigned.filter (· ∉ done)) =
      some i := by
  induction requests generalizing unassigned done with
  | zero => simp [serve] at split
  | succ requests ih =>
    rw [serve] at split
    cases picked : pickFor model current requested (requests + 1) unassigned with
    | none => simp [picked] at split
    | some chosen =>
      rw [picked] at split
      cases done with
      | nil =>
        cases split
        simpa using picked
      | cons first done =>
        obtain ⟨rfl, later⟩ := List.cons.inj split
        have filtered : (unassigned.filter (· ≠ chosen)).filter (· ∉ done) =
            unassigned.filter (· ∉ chosen :: done) := by
          rw [List.filter_filter]
          refine List.filter_congr fun j _ ↦ ?_
          rw [← Bool.decide_and, decide_eq_decide, List.mem_cons, not_or]
          exact and_comm
        rw [← filtered, ← ih later, List.length_cons, Nat.add_sub_add_right]

theorem placement_states (count : State → ℕ) (states : List State) (unassigned : List InstanceId) :
    (placement model current count states unassigned).map Prod.fst = states := by
  induction states generalizing unassigned with
  | nil => rfl
  | cons state states ih => exact congrArg (state :: ·) (ih _)

theorem mem_placement {count : State → ℕ} {states : List State} {unassigned : List InstanceId}
    {i : InstanceId}
    (h : i ∈ (placement model current count states unassigned).flatMap Prod.snd) :
    i ∈ unassigned := by
  induction states generalizing unassigned with
  | nil => cases h
  | cons state states ih =>
    rw [placement, List.flatMap_cons] at h
    rcases List.mem_append.mp h with h | h
    · exact mem_serve h
    · exact List.mem_of_mem_filter (ih h)

theorem placement_nodup (count : State → ℕ) (states : List State) (unassigned : List InstanceId) :
    ((placement model current count states unassigned).flatMap Prod.snd).Nodup := by
  induction states generalizing unassigned with
  | nil => exact .nil
  | cons state states ih =>
    rw [placement, List.flatMap_cons]
    refine List.nodup_append.mpr ⟨serve_nodup _ _, ih _, fun i served j later same ↦ ?_⟩
    subst same
    exact of_decide_eq_true (List.mem_filter.mp (mem_placement later)).2 served

/-- When its turn comes, a state is served from the instances that are still unassigned. -/
theorem placement_split {count : State → ℕ} {states : List State} {unassigned : List InstanceId}
    {before after : List (State × List InstanceId)} {state : State} {chosen : List InstanceId}
    (split : placement model current count states unassigned = before ++ (state, chosen) :: after) :
    chosen = serve model current state (count state)
      (unassigned.filter (· ∉ before.flatMap Prod.snd)) := by
  induction states generalizing unassigned before with
  | nil => simp [placement] at split
  | cons first states ih =>
    rw [placement] at split
    cases before with
    | nil =>
      cases split
      simp
    | cons entry before =>
      obtain ⟨rfl, rest⟩ := List.cons.inj split
      rw [ih rest, List.filter_filter, List.flatMap_cons]
      congr 1
      refine List.filter_congr fun i _ ↦ ?_
      rw [← Bool.decide_and, decide_eq_decide, List.mem_append, not_or]
      exact and_comm

end Serve

section Loop

variable {builder : StateModelBuilder} {model : StateModelDefinition}
  {current : Option InstanceStates} {active : List InstanceId}

/-- The instances without a state so far, in list order. -/
def unassigned (active : List InstanceId) (assigned : BTreeSet InstanceId) : List InstanceId :=
  active.filter (· ∉ assigned)

/-- The queue and the priority order keep every unassigned instance, in its place. -/
structure Ready (model : StateModelDefinition) (current : Option InstanceStates)
    (active : List InstanceId) (a : Assignment) : Prop where
  queue : unassigned a.activeQueue a.assigned = unassigned active a.assigned
  priority : unassigned a.currentPriority a.assigned =
    (unassigned active a.assigned).insertionSort fun left right ↦
      currentStatePriority current left model ≤ currentStatePriority current right model
  size : active.length - a.assigned.size = (unassigned active a.assigned).length

theorem unassigned_insert (active : List InstanceId) (assigned : BTreeSet InstanceId)
    (i : InstanceId) :
    unassigned active (assigned.insert i) = (unassigned active assigned).filter (· ≠ i) := by
  rw [unassigned, unassigned, List.filter_filter]
  refine List.filter_congr fun j _ ↦ ?_
  rw [← Bool.decide_and, decide_eq_decide, OrderedMap.mem_insert, not_or]

theorem nextUnassigned_spec (assigned : BTreeSet InstanceId) (candidates : List InstanceId) :
    (nextUnassigned assigned candidates).1 = (unassigned candidates assigned).head? ∧
    unassigned (nextUnassigned assigned candidates).2 assigned =
      (unassigned candidates assigned).tail := by
  induction candidates with
  | nil => exact ⟨rfl, rfl⟩
  | cons candidate candidates ih =>
    rw [nextUnassigned]
    by_cases taken : candidate ∈ assigned
    · rw [if_pos taken, unassigned, List.filter_cons_of_neg (by simpa using taken)]
      exact ih
    · rw [if_neg taken, unassigned, List.filter_cons_of_pos (by simpa using taken)]
      exact ⟨rfl, rfl⟩

theorem isSecondTopState_iff_declared (valid : builder.build = .ok model) (state : State)
    (below : state ≠ model.highestPriorityState) :
    isSecondTopState state model = true ↔
      ⟨state, model.highestPriorityState⟩ ∈ model.transitionsByPriority := by
  obtain ⟨checked, published⟩ := StateModelBuilder.build_eq_ok valid
  have next : ∀ s, model.nextStateToward s model.highestPriorityState =
      some model.highestPriorityState ↔ s ≠ model.highestPriorityState ∧
        Declared builder.transitions s model.highestPriorityState := by
    intro s
    rw [StateModelDefinition.nextStateToward, published.table]
    constructor
    · intro found
      obtain ⟨-, -, differ, edge, -⟩ := hop_spec checked.declared checked.nodup found
      exact ⟨differ, edge⟩
    · rintro ⟨differ, edge⟩
      have walk := Walks.Walk.cons edge (.nil _)
      obtain ⟨hop, found⟩ := hop_of_walk checked.declared checked.nodup differ walk
      obtain ⟨-, -, -, -, d, distance, closer⟩ := hop_spec checked.declared checked.nodup found
      have short := distance.2 _ walk
      obtain rfl : d = 0 := by omega
      rw [found, closer.1.eq_of_zero]
  have known : ∀ s, Declared builder.transitions s model.highestPriorityState →
      s ∈ model.statesByPriority := by
    intro s edge
    rw [published.states]
    exact (checked.declared _ edge).1
  simp only [isSecondTopState, List.any_eq_true, decide_eq_true_eq, next]
  rw [published.transitions]
  constructor
  · rintro ⟨s, -, ⟨-, edge⟩, rfl⟩
    exact edge
  · intro edge
    exact ⟨state, known state edge, ⟨below, edge⟩, rfl⟩

theorem needsAdjustment_iff (valid : builder.build = .ok model) (i : InstanceId) :
    (decide ((current.bind (·[i]?)).getD model.initialState ≠ model.highestPriorityState ∧
      !isSecondTopState ((current.bind (·[i]?)).getD model.initialState) model)) = true ↔
      ¬NearTop model current i := by
  rw [decide_eq_true_eq, NearTop]
  generalize (current.bind (·[i]?)).getD model.initialState = state
  by_cases top : state = model.highestPriorityState
  · simp [top]
  · rw [Bool.not_eq_true', ← Bool.not_eq_true, isSecondTopState_iff_declared valid state top]
    simp [top]

theorem sorted_filter (instances : List InstanceId) (i : InstanceId) :
    (instances.filter (· ≠ i)).insertionSort (fun left right ↦
        currentStatePriority current left model ≤ currentStatePriority current right model) =
      (instances.insertionSort fun left right ↦ currentStatePriority current left model ≤
        currentStatePriority current right model).filter (· ≠ i) :=
  Greedy.insertionSort_filter _ _

/-- One pass gives the state to the instance that `pickFor` names. -/
theorem assignNext_spec (valid : builder.build = .ok model) {requested : State}
    {partition : PartitionId} (distinct : active.Nodup) {a : Assignment}
    (ready : Ready model current active a) {peek : InstanceId} {rest : List InstanceId}
    (queue : a.activeQueue = peek :: rest) (free : peek ∉ a.assigned)
    (fresh : ∀ i ∈ active, i ∉ a.assigned → a.output.state partition i = none) (requests : ℕ) :
    ∃ chosen next,
      pickFor model current requested requests (unassigned active a.assigned) = some chosen ∧
      assignNext model partition current active.length requested requests peek a = .ok next ∧
      Ready model current active next ∧ next.assigned = a.assigned.insert chosen ∧
      (next.activeQueue = rest ∨ next.activeQueue = peek :: rest) ∧
      ∀ p i, next.output.state p i =
        if p = partition ∧ i = chosen then some requested else a.output.state p i := by
  have line : unassigned active a.assigned = peek :: unassigned rest a.assigned := by
    rw [← ready.queue, queue, unassigned, List.filter_cons_of_pos (by simpa using free)]
    rfl
  let order := fun left right ↦
    currentStatePriority current left model ≤ currentStatePriority current right model
  obtain ⟨chosen, tail, picked, adjusted, sorted⟩ : ∃ chosen tail,
      pickFor model current requested requests (unassigned active a.assigned) = some chosen ∧
      adjustInstanceIfNecessary peek a.assigned (active.length - a.assigned.size) requests
        (requested == model.highestPriorityState)
        (decide ((current.bind (·[peek]?)).getD model.initialState ≠ requested ∧
          !isSecondTopState ((current.bind (·[peek]?)).getD model.initialState) model))
        a.currentPriority = (chosen, tail) ∧
      unassigned tail (a.assigned.insert chosen) =
        ((unassigned active a.assigned).filter (· ≠ chosen)).insertionSort order := by
    have condition : (requests < active.length - a.assigned.size ∧
        (requested == model.highestPriorityState) = true ∧
        decide ((current.bind (·[peek]?)).getD model.initialState ≠ requested ∧
          !isSecondTopState ((current.bind (·[peek]?)).getD model.initialState) model) = true) ↔
        requested = model.highestPriorityState ∧
          requests < (unassigned active a.assigned).length ∧ ¬NearTop model current peek := by
      rw [ready.size, beq_iff_eq]
      constructor
      · rintro ⟨choice, rfl, far⟩
        exact ⟨rfl, choice, (needsAdjustment_iff valid peek).mp far⟩
      · rintro ⟨rfl, choice, far⟩
        exact ⟨choice, rfl, (needsAdjustment_iff valid peek).mpr far⟩
    by_cases adjust : requested = model.highestPriorityState ∧
        requests < (unassigned active a.assigned).length ∧ ¬NearTop model current peek
    · obtain ⟨first, left⟩ := nextUnassigned_spec a.assigned a.currentPriority
      rw [ready.priority] at first left
      cases sorted : (unassigned active a.assigned).insertionSort order with
      | nil =>
        have length := List.length_insertionSort order (unassigned active a.assigned)
        rw [sorted, line] at length
        cases length
      | cons chosen others =>
        refine ⟨chosen, (nextUnassigned a.assigned a.currentPriority).2, ?_, ?_, ?_⟩
        · rw [line, pickFor, if_pos (by rw [← line]; exact adjust), ← line]
          exact congrArg List.head? sorted
        · rw [adjustInstanceIfNecessary, if_pos (condition.mpr adjust)]
          have found : (nextUnassigned a.assigned a.currentPriority).1 = some chosen := by
            rw [first]
            exact congrArg List.head? sorted
          split
          · next candidate rest' same =>
            rw [same] at found ⊢
            rw [Option.some.inj found]
          · next rest' same =>
            rw [same] at found
            cases found
        · rw [unassigned_insert, left, sorted_filter]
          have same : ((unassigned active a.assigned).insertionSort fun left right ↦
              currentStatePriority current left model ≤
                currentStatePriority current right model) = chosen :: others := sorted
          rw [same, List.tail_cons, List.filter_cons_of_neg (by simp)]
    · refine ⟨peek, a.currentPriority, ?_, ?_, ?_⟩
      · rw [line, pickFor, if_neg (by rw [← line]; exact adjust)]
      · rw [adjustInstanceIfNecessary, if_neg (mt condition.mp adjust)]
      · rw [unassigned_insert, ready.priority, sorted_filter]
  have mem : chosen ∈ unassigned active a.assigned := pickFor_mem picked
  obtain ⟨listed, new⟩ := List.mem_filter.mp mem
  have new : chosen ∉ a.assigned := by simpa using new
  obtain ⟨output, set, state⟩ := ReplicaStates.setState_eq_ok requested (fresh chosen listed new)
  refine ⟨chosen, ⟨if chosen = peek then a.activeQueue.tail else a.activeQueue, tail,
    a.assigned.insert chosen, output⟩, picked, ?_, ⟨?_, ?_, ?_⟩, rfl, ?_, state⟩
  · simp only [assignNext, adjusted, set]
    rfl
  · rw [unassigned_insert active, ← ready.queue, ← unassigned_insert]
    split
    · next same =>
      rw [queue, List.tail_cons, unassigned, unassigned, List.filter_cons_of_neg]
      simp [same]
    · rfl
  · rw [sorted, unassigned_insert]
  · have gone := length_filter_ne (distinct.filter _) mem
    have size := ready.size
    rw [unassigned_insert, Std.ExtTreeSet.size_insert, if_neg (by simpa using new)]
    rw [unassigned] at size ⊢
    omega
  · dsimp only
    split
    · exact .inl (by rw [queue, List.tail_cons])
    · exact .inr queue

/-- The loop for one state serves it, whatever fuel is left over. -/
theorem assignLoop_spec (valid : builder.build = .ok model) {requested : State}
    {partition : PartitionId} (distinct : active.Nodup) (fuel : ℕ) :
    ∀ (requests : ℕ) (a : Assignment), Ready model current active a →
      (∀ i ∈ active, i ∉ a.assigned → a.output.state partition i = none) →
      requests + a.activeQueue.length ≤ fuel →
      ∃ b, assignLoop model partition current active.length requested fuel requests a = .ok b ∧
        Ready model current active b ∧
        (∀ i, i ∈ b.assigned ↔ i ∈ a.assigned ∨
          i ∈ serve model current requested requests (unassigned active a.assigned)) ∧
        ∀ p i, b.output.state p i =
          if p = partition ∧ i ∈ serve model current requested requests
              (unassigned active a.assigned) then some requested
          else a.output.state p i := by
  induction fuel with
  | zero =>
    intro requests a ready _ fueled
    obtain rfl : requests = 0 := by omega
    exact ⟨a, rfl, ready, by simp [serve], by simp [serve]⟩
  | succ fuel ih =>
    intro requests a ready fresh fueled
    cases requests with
    | zero => exact ⟨a, rfl, ready, by simp [serve], by simp [serve]⟩
    | succ requests =>
      cases queue : a.activeQueue with
      | nil =>
        have done : unassigned active a.assigned = [] := by
          rw [← ready.queue, queue]
          rfl
        refine ⟨a, by simp only [assignLoop, queue], ready, ?_, ?_⟩ <;> simp [serve, done, pickFor]
      | cons peek rest =>
        rw [queue, List.length_cons] at fueled
        simp only [assignLoop, queue]
        by_cases taken : peek ∈ a.assigned
        · rw [if_pos taken]
          have popped : Ready model current active { a with activeQueue := rest } := by
            refine ⟨?_, ready.priority, ready.size⟩
            rw [← ready.queue, queue]
            exact (List.filter_cons_of_neg (by simpa using taken)).symm
          exact ih (requests + 1) { a with activeQueue := rest } popped fresh
            (by dsimp only; omega)
        · rw [if_neg taken]
          obtain ⟨chosen, next, picked, step, ready', assigned, shorter, state⟩ :=
            assignNext_spec valid distinct ready queue taken fresh (requests + 1)
          have left : unassigned active next.assigned =
              (unassigned active a.assigned).filter (· ≠ chosen) := by
            rw [assigned, unassigned_insert]
          have served : serve model current requested (requests + 1) (unassigned active a.assigned) =
              chosen :: serve model current requested requests
                (unassigned active next.assigned) := by
            rw [serve, picked, left]
          obtain ⟨b, loop, ready'', assigned', state'⟩ := ih requests next ready'
            (fun i listed free ↦ by
              rw [assigned, OrderedMap.mem_insert, not_or] at free
              rw [state, if_neg fun h ↦ free.1 h.2]
              exact fresh i listed free.2)
            (by
              rcases shorter with same | same
              · rw [same]
                omega
              · rw [same, List.length_cons]
                omega)
          refine ⟨b, by rw [step, CheckedLoop.ok_bind, loop], ready'', fun i ↦ ?_, fun p i ↦ ?_⟩
          · rw [served, List.mem_cons, assigned', assigned, OrderedMap.mem_insert]
            tauto
          · rw [state', state, served]
            by_cases hp : p = partition
            · simp only [hp, true_and, List.mem_cons]
              by_cases later : i ∈ serve model current requested requests
                  (unassigned active next.assigned)
              · simp [later]
              · by_cases now : i = chosen <;> simp [later, now]
            · simp [hp]

/-- The state an instance is given, if any. -/
def stateIn (places : List (State × List InstanceId)) (i : InstanceId) : Option State :=
  (places.find? fun place ↦ i ∈ place.2).map Prod.fst

theorem assignStates_spec (valid : builder.build = .ok model) {partition : PartitionId}
    (distinct : active.Nodup) (listLength : ℕ) (states : List State) :
    ∀ a : Assignment, Ready model current active a →
      (∀ i ∈ active, i ∉ a.assigned → a.output.state partition i = none) →
      ∃ b, states.foldlM (fun a requested ↦
          assignState model partition current active.length requested
            (stateCount (model.cardinalityFor requested) active.length listLength) a) a = .ok b ∧
        ∀ p i, b.output.state p i =
          if p = partition then
            (stateIn (placement model current (fun state ↦ stateCount (model.cardinalityFor state)
              active.length listLength) states (unassigned active a.assigned)) i).or
              (a.output.state p i)
          else a.output.state p i := by
  induction states with
  | nil => exact fun a _ _ ↦ ⟨a, rfl, by simp [placement, stateIn]⟩
  | cons requested states ih =>
    intro a ready fresh
    obtain ⟨b, loop, ready', assigned, state⟩ := assignLoop_spec valid distinct _
      (stateCount (model.cardinalityFor requested) active.length listLength) a ready fresh le_rfl
    have left : unassigned active b.assigned = (unassigned active a.assigned).filter fun i ↦
        i ∉ serve model current requested (stateCount (model.cardinalityFor requested)
          active.length listLength) (unassigned active a.assigned) := by
      rw [unassigned, unassigned, List.filter_filter]
      refine List.filter_congr fun i _ ↦ ?_
      rw [← Bool.decide_and, decide_eq_decide, assigned, not_or]
      exact and_comm
    obtain ⟨c, rest, state'⟩ := ih b ready' fun i listed free ↦ by
      rw [assigned, not_or] at free
      rw [state, if_neg fun h ↦ free.2 h.2]
      exact fresh i listed free.1
    refine ⟨c, by rw [List.foldlM_cons, assignState, loop, CheckedLoop.ok_bind, rest],
      fun p i ↦ ?_⟩
    rw [state', state, left]
    by_cases hp : p = partition
    · simp only [hp, true_and, if_true, placement]
      rw [stateIn, stateIn, List.find?_cons]
      by_cases now : i ∈ serve model current requested (stateCount (model.cardinalityFor requested)
          active.length listLength) (unassigned active a.assigned)
      · have notLater : (placement model current (fun state ↦ stateCount
            (model.cardinalityFor state) active.length listLength) states
            ((unassigned active a.assigned).filter fun i ↦ i ∉ serve model current requested
              (stateCount (model.cardinalityFor requested) active.length listLength)
              (unassigned active a.assigned))).find? (fun place ↦ decide (i ∈ place.2)) = none := by
          refine List.find?_eq_none.mpr fun place hplace later ↦ ?_
          have again := mem_placement (List.mem_flatMap.mpr ⟨place, hplace, of_decide_eq_true later⟩)
          exact of_decide_eq_true (List.mem_filter.mp again).2 now
        rw [notLater]
        simp [now]
      · simp [now]
    · simp [hp]

end Loop

section Result

variable {builder : StateModelBuilder} {model : StateModelDefinition}

/-- The states of one listed partition. -/
def places (model : StateModelDefinition) (current : Option InstanceStates)
    (live : BTreeSet InstanceId) (list : List InstanceId) : List (State × List InstanceId) :=
  let active := list.filter (· ∈ live)
  placement model current (fun state ↦ stateCount (model.cardinalityFor state) active.length
    list.length) model.statesByPriority active

/-- The whole result: replicas that are no longer listed are drained, the others placed. -/
def targetState (model : StateModelDefinition) (ideal : IdealState) (currentState : CurrentState)
    (live : BTreeSet InstanceId) (partition : PartitionId) (i : InstanceId) : Option State :=
  match ideal.preferenceList partition with
  | none => (currentState.state partition i).map fun _ ↦ State.dropped
  | some list =>
    if i ∉ list then (currentState.state partition i).map fun _ ↦ State.dropped
    else stateIn (places model currentState.entries[partition]? live list) i

theorem stateIn_mem {placed : List (State × List InstanceId)} {i : InstanceId} {state : State}
    (h : stateIn placed i = some state) : i ∈ placed.flatMap Prod.snd := by
  obtain ⟨place, found, -⟩ := Option.map_eq_some_iff.mp h
  have holds := List.find?_some found
  exact List.mem_flatMap.mpr ⟨place, List.mem_of_find?_eq_some found, of_decide_eq_true holds⟩

theorem stateIn_eq_some {placed : List (State × List InstanceId)}
    (once : (placed.flatMap Prod.snd).Nodup) {i : InstanceId} {state : State} :
    stateIn placed i = some state ↔ ∃ chosen, (state, chosen) ∈ placed ∧ i ∈ chosen := by
  induction placed with
  | nil => simp [stateIn]
  | cons place placed ih =>
    obtain ⟨-, rest, apart⟩ := List.nodup_append.mp once
    rw [stateIn, List.find?_cons]
    by_cases here : i ∈ place.2
    · rw [decide_eq_true here, Option.map_some, Option.some_inj]
      constructor
      · rintro rfl
        exact ⟨place.2, List.mem_cons_self, here⟩
      · rintro ⟨chosen, mem, inside⟩
        rcases List.mem_cons.mp mem with same | later
        · rw [← same]
        · exact absurd rfl (apart i here i (List.mem_flatMap.mpr ⟨_, later, inside⟩))
    · rw [decide_eq_false here, ← stateIn, ih rest]
      refine exists_congr fun chosen ↦ and_congr_left fun inside ↦ ?_
      rw [List.mem_cons]
      refine (or_iff_right ?_).symm
      rintro rfl
      exact here inside

theorem places_mem {current : Option InstanceStates} {live : BTreeSet InstanceId}
    {list : List InstanceId} {i : InstanceId}
    (h : i ∈ (places model current live list).flatMap Prod.snd) : i ∈ list ∧ i ∈ live := by
  simpa using List.mem_filter.mp (mem_placement h)

theorem assignPartition_spec (valid : builder.build = .ok model) {ideal : IdealState}
    (currentState : CurrentState) (live : BTreeSet InstanceId) {output : BestPossibleState}
    {partition : PartitionId} {list : List InstanceId}
    (found : ideal.preferenceList partition = some list)
    (fresh : ∀ i, output.state partition i = none) :
    ∃ next, assignPartition currentState live model output (partition, list) = .ok next ∧
      ∀ p i, next.state p i =
        if p = partition then targetState model ideal currentState live p i
        else output.state p i := by
  have nodup := IdealState.preferenceList_nodup found
  obtain ⟨middle, drop, dropped⟩ := ReplicaStates.foldlM_setState partition State.dropped
    ((currentState.entries[partition]?.getD ∅).toList.filter (·.1 ∉ list)) output
    ((List.filter_sublist.map Prod.fst).nodup (OrderedMap.keys_nodup _)) fun i _ ↦ fresh i
  simp only [mem_instances fun i ↦ decide (i ∉ list), decide_eq_true_eq] at dropped
  have start : Ready model currentState.entries[partition]? (list.filter (· ∈ live))
      ⟨list.filter (· ∈ live), (list.filter (· ∈ live)).insertionSort fun left right ↦
        currentStatePriority currentState.entries[partition]? left model ≤
          currentStatePriority currentState.entries[partition]? right model, ∅, middle⟩ := by
    have all : ∀ l : List InstanceId, unassigned l ∅ = l := fun l ↦
      List.filter_eq_self.mpr fun i _ ↦ by simp
    refine ⟨rfl, ?_, ?_⟩
    · rw [all, all]
    · rw [all, Std.ExtTreeSet.size_empty, Nat.sub_zero]
  obtain ⟨b, assign, state⟩ := assignStates_spec valid (nodup.filter fun i ↦ decide (i ∈ live))
    list.length model.statesByPriority _ start fun i mem _ ↦ by
      rw [dropped, if_neg (by simp [(List.mem_filter.mp mem).1])]
      exact fresh i
  refine ⟨b.output, ?_, fun p i ↦ ?_⟩
  · simp only [assignPartition, drop, CheckedLoop.ok_bind]
    rw [assign]
    rfl
  · rw [state, dropped]
    by_cases hp : p = partition
    · subst hp
      have none_taken : unassigned (list.filter (· ∈ live)) ∅ = list.filter (· ∈ live) :=
        List.filter_eq_self.mpr fun i _ ↦ by simp
      rw [none_taken, if_pos rfl, if_pos rfl, targetState, found]
      dsimp only
      rw [← places]
      by_cases listed : i ∈ list
      · rw [if_neg (by simp [listed]), if_neg (by simp [listed]), fresh, Option.or_none]
      · have unplaced : stateIn (places model currentState.entries[p]? live list) i = none := by
          by_contra placed
          obtain ⟨s, hs⟩ := Option.ne_none_iff_exists'.mp placed
          exact listed (places_mem (stateIn_mem hs)).1
        rw [unplaced, Option.none_or, if_pos listed]
        cases h : currentState.state p i <;> simp [listed, fresh]
    · simp [hp]

/-- The stage always succeeds, and with the whole result. -/
theorem computeSemiAutoBestPossibleState_spec (valid : builder.build = .ok model)
    (ideal : IdealState) (currentState : CurrentState) (live : BTreeSet InstanceId) :
    ∃ best, computeSemiAutoBestPossibleState ideal currentState live model = .ok best ∧
      ∀ p i, best.state p i = targetState model ideal currentState live p i := by
  obtain ⟨listed, hlisted, inv⟩ := CheckedLoop.foldlM_ok
    (fun done (output : BestPossibleState) ↦ ∀ p i, output.state p i =
      if p ∈ done.map Prod.fst then targetState model ideal currentState live p i else none)
    (assignPartition currentState live model) ideal.preferenceLists.toList
    ∅ (by simp) fun done item rest output split inv ↦ by
      obtain ⟨partition, list⟩ := item
      obtain ⟨found, absent⟩ := OrderedMap.visited split
      obtain ⟨next, step, state⟩ := assignPartition_spec valid currentState live found
        fun i ↦ by rw [inv, if_neg absent]
      refine ⟨next, step, fun p i ↦ ?_⟩
      rw [state, inv]
      grind
  obtain ⟨best, hbest, inv'⟩ := CheckedLoop.foldlM_ok
    (fun done (output : BestPossibleState) ↦ ∀ p i, output.state p i =
      if (ideal.preferenceList p).isSome ∨ p ∈ done.map Prod.fst then
        targetState model ideal currentState live p i else none)
    (fun output (entry : PartitionId × InstanceStates) ↦
      if ideal.preferenceList entry.1 = none then
        entry.2.toList.foldlM (fun output (item : InstanceId × State) ↦
          output.setState entry.1 item.1 State.dropped) output
      else pure output) currentState.entries.toList
    listed
    (by simp only [inv, OrderedMap.mem_keys]; simp [IdealState.preferenceList])
    fun done item rest output split inv ↦ by
      obtain ⟨partition, instances⟩ := item
      obtain ⟨found, absent⟩ := OrderedMap.visited split
      by_cases unlisted : ideal.preferenceList partition = none
      · obtain ⟨next, step, state⟩ := ReplicaStates.foldlM_setState partition State.dropped
          instances.toList output (OrderedMap.keys_nodup _) fun i _ ↦ by
            rw [inv, if_neg (by simp [unlisted, absent])]
        refine ⟨next, by simp only [unlisted, if_true, step], fun p i ↦ ?_⟩
        have known : i ∈ instances.toList.map Prod.fst ↔
            (currentState.state partition i).isSome := by
          rw [OrderedMap.mem_keys, ReplicaStates.state, found, Option.bind_some]
        rw [state, inv]
        by_cases hp : p = partition
        · subst hp
          simp only [true_and, known, targetState, unlisted]
          cases h : currentState.state p i <;> simp [absent]
        · simp only [hp, false_and, if_false, List.map_append, List.mem_append, List.map_cons,
            List.map_nil, List.mem_singleton, or_false]
      · refine ⟨output, by simp only [unlisted, if_false]; rfl, fun p i ↦ ?_⟩
        have some := Option.isSome_iff_ne_none.mpr unlisted
        rw [inv]
        grind
  refine ⟨best, by rw [computeSemiAutoBestPossibleState, hlisted]; exact hbest, fun p i ↦ ?_⟩
  rw [inv']
  by_cases covered : (ideal.preferenceList p).isSome ∨
      p ∈ currentState.entries.toList.map Prod.fst
  · rw [if_pos covered]
  · rw [if_neg covered]
    rw [OrderedMap.mem_keys, not_or, Option.not_isSome_iff_eq_none,
      Option.not_isSome_iff_eq_none] at covered
    simp [targetState, covered.1, ReplicaStates.state, covered.2]

end Result

end SemiAuto

section Placement

variable {builder : StateModelBuilder} {model : StateModelDefinition}

open SemiAuto

/-- The best-possible state drains what is not listed and serves the states in priority order. -/
theorem semiAuto_serves (valid : builder.build = .ok model) (ideal : IdealState)
    (currentState : CurrentState) (live : BTreeSet InstanceId) :
    ∃ best, computeSemiAutoBestPossibleState ideal currentState live model = .ok best ∧
      ∀ partition,
        (ideal.preferenceList partition = none → ∀ i, best.state partition i =
          (currentState.state partition i).map fun _ ↦ State.dropped) ∧
        ∀ list, ideal.preferenceList partition = some list →
          let current := currentState.entries[partition]?
          let active := list.filter (· ∈ live)
          let count state := stateCount (model.cardinalityFor state) active.length list.length
          ∃ placed : List (State × List InstanceId),
            (∀ i, i ∉ list → best.state partition i =
              (currentState.state partition i).map fun _ ↦ State.dropped) ∧
            (∀ i ∈ list, ∀ state, best.state partition i = some state ↔
              ∃ chosen, (state, chosen) ∈ placed ∧ i ∈ chosen) ∧
            placed.map Prod.fst = model.statesByPriority ∧
            (placed.flatMap Prod.snd).Nodup ∧ (∀ i ∈ placed.flatMap Prod.snd, i ∈ active) ∧
            ∀ before state chosen after, placed = before ++ (state, chosen) :: after →
              let unassigned := active.filter (· ∉ before.flatMap Prod.snd)
              chosen.length = min (count state) unassigned.length ∧
              (state ≠ model.highestPriorityState → chosen = unassigned.take (count state)) ∧
              ∀ done i rest, chosen = done ++ i :: rest →
                pickFor model current state (count state - done.length)
                  (unassigned.filter (· ∉ done)) = some i := by
  obtain ⟨best, run, result⟩ := computeSemiAutoBestPossibleState_spec valid ideal currentState live
  refine ⟨best, run, fun partition ↦ ⟨fun unlisted i ↦ ?_, fun list found ↦ ?_⟩⟩
  · rw [result, targetState, unlisted]
  · intro current active count
    have distinct : active.Nodup := (IdealState.preferenceList_nodup found).filter _
    have once : ((placement model current count model.statesByPriority active).flatMap
        Prod.snd).Nodup := placement_nodup _ _ _
    refine ⟨placement model current count model.statesByPriority active, fun i out ↦ ?_,
      fun i listed state ↦ ?_, placement_states _ _ _, once, fun i mem ↦ mem_placement mem,
      fun before state chosen after split ↦ ?_⟩
    · rw [result, targetState, found]
      exact if_pos out
    · rw [result, targetState, found]
      dsimp only
      rw [if_neg (not_not.mpr listed)]
      exact stateIn_eq_some once
    · intro unassigned
      have served := placement_split split
      refine ⟨?_, fun low ↦ ?_, fun done i rest picked ↦ ?_⟩
      · rw [served]
        exact serve_length _ (distinct.filter _)
      · rw [served]
        exact serve_of_not_top low _ (distinct.filter _)
      · exact serve_split (served.symm.trans picked)

theorem semiAuto_serves_twoReplicas : ∃ best,
    computeSemiAutoBestPossibleState twoReplicas ∅ bothLive leaderStandby = .ok best ∧
      ∃ placed : List (State × List InstanceId),
        placed.map Prod.fst = leaderStandby.statesByPriority ∧
        ∀ i ∈ [leftNode, rightNode], ∀ state, best.state shard i = some state ↔
          ∃ chosen, (state, chosen) ∈ placed ∧ i ∈ chosen := by
  have listed : twoReplicas.preferenceList shard = some [leftNode, rightNode] := by decide +kernel
  obtain ⟨best, run, result⟩ := semiAuto_serves leaderStandby.build_eq twoReplicas ∅ bothLive
  obtain ⟨placed, -, states, order, -⟩ := (result shard).2 _ listed
  exact ⟨best, run, placed, order, states⟩

end Placement

end Clustodian
