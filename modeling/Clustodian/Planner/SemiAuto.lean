import Clustodian.Lib.CheckedLoop
import Clustodian.Model.ReplicaStates

namespace Clustodian

/-- `usize::MAX` on the supported targets. -/
def usizeMax : ℕ := 2 ^ 64 - 1

def stateCount (cardinality : Option StateCardinality)
    (liveCandidateCount preferenceListCount : ℕ) : ℕ :=
  match cardinality with
  | some (.exact count) => count
  | some .replicaCount => preferenceListCount
  | some .nodeCount => liveCandidateCount
  | some .unbounded | none => 0

def currentStatePriority (current : Option InstanceStates) (instance_ : InstanceId)
    (model : StateModelDefinition) : ℕ :=
  ((current.bind (·[instance_]?)).bind fun state ↦
    model.statesByPriority.findIdx? (· == state)).getD usizeMax

/-- The iterator walk of `adjust_instance_if_necessary`: what it returns and what it leaves. -/
def nextUnassigned (assigned : BTreeSet InstanceId) :
    List InstanceId → Option InstanceId × List InstanceId
  | [] => (none, [])
  | candidate :: rest =>
    if candidate ∈ assigned then nextUnassigned assigned rest else (some candidate, rest)

def adjustInstanceIfNecessary (proposed : InstanceId) (assigned : BTreeSet InstanceId)
    (remainingCandidateCount remainingRequestCount : ℕ)
    (requestedStateIsTop currentNeedsAdjustment : Bool) (currentPriority : List InstanceId) :
    InstanceId × List InstanceId :=
  if remainingRequestCount < remainingCandidateCount ∧ requestedStateIsTop ∧
      currentNeedsAdjustment then
    match nextUnassigned assigned currentPriority with
    | (some candidate, rest) => (candidate, rest)
    | (none, rest) => (proposed, rest)
  else (proposed, currentPriority)

def isSecondTopState (state : State) (model : StateModelDefinition) : Bool :=
  model.statesByPriority.any fun candidate ↦
    model.nextStateToward candidate model.highestPriorityState = some model.highestPriorityState ∧
      candidate = state

/-- The local variables of one partition's assignment loop. -/
structure Assignment where
  activeQueue : List InstanceId
  currentPriority : List InstanceId
  assigned : BTreeSet InstanceId
  output : BestPossibleState

section Loop

variable (model : StateModelDefinition) (partition : PartitionId)
  (current : Option InstanceStates) (total : ℕ) (requested : State)

/-- One pass of the `while` body with a non-empty queue and requests left. -/
def assignNext (count : ℕ) (peek : InstanceId) (a : Assignment) :
    Except ReplicaStateError Assignment := do
  let currentInstanceState := (current.bind (·[peek]?)).getD model.initialState
  let (proposed, priority) := adjustInstanceIfNecessary peek a.assigned
    (total - a.assigned.size) count (requested == model.highestPriorityState)
    (currentInstanceState ≠ requested ∧ !isSecondTopState currentInstanceState model)
    a.currentPriority
  let output ← a.output.setState partition proposed requested
  return {
    activeQueue := if proposed = peek then a.activeQueue.tail else a.activeQueue
    currentPriority := priority
    assigned := a.assigned.insert proposed
    output }

/-- The `while` loop; a pass either pops the queue or serves a request, so the fuel
`count + activeQueue.length` that `assignState` gives it never runs out. -/
def assignLoop : ℕ → ℕ → Assignment → Except ReplicaStateError Assignment
  | 0, _, a => .ok a
  | _ + 1, 0, a => .ok a
  | fuel + 1, count + 1, a =>
    match a.activeQueue with
    | [] => .ok a
    | peek :: rest =>
      if peek ∈ a.assigned then assignLoop fuel (count + 1) { a with activeQueue := rest }
      else do
        let next ← assignNext model partition current total requested (count + 1) peek a
        assignLoop fuel count next

def assignState (count : ℕ) (a : Assignment) : Except ReplicaStateError Assignment :=
  assignLoop model partition current total requested (count + a.activeQueue.length) count a

end Loop

/-- The body of the loop over preference lists. -/
def assignPartition (currentState : CurrentState) (live : BTreeSet InstanceId)
    (model : StateModelDefinition) (output : BestPossibleState)
    (entry : PartitionId × List InstanceId) : Except ReplicaStateError BestPossibleState := do
  let (partition, preferenceList) := entry
  let current := currentState.entries[partition]?
  let output ← ((current.getD ∅).toList.filter (·.1 ∉ preferenceList)).foldlM
    (fun output (instance_, _) ↦ output.setState partition instance_ State.dropped) output
  let active := preferenceList.filter (· ∈ live)
  let priority := active.insertionSort fun left right ↦
    currentStatePriority current left model ≤ currentStatePriority current right model
  let result ← model.statesByPriority.foldlM (fun a requested ↦
    assignState model partition current active.length requested
      (stateCount (model.cardinalityFor requested) active.length preferenceList.length) a)
    ⟨active, priority, ∅, output⟩
  return result.output

def computeSemiAutoBestPossibleState (ideal : IdealState) (currentState : CurrentState)
    (live : BTreeSet InstanceId) (model : StateModelDefinition) :
    Except ReplicaStateError BestPossibleState := do
  let output ← ideal.preferenceLists.toList.foldlM (assignPartition currentState live model) ∅
  currentState.entries.toList.foldlM (fun output (partition, instances) ↦
    if ideal.preferenceList partition = none then
      instances.toList.foldlM
        (fun output (instance_, _) ↦ output.setState partition instance_ State.dropped) output
    else pure output) output

namespace ReplicaStates

/-- Setting one value on distinct fresh replicas of a partition never fails. -/
theorem foldlM_setState (partition : PartitionId) (value : State)
    (items : List (InstanceId × State)) (output : ReplicaStates)
    (distinct : (items.map Prod.fst).Nodup)
    (fresh : ∀ i ∈ items.map Prod.fst, output.state partition i = none) :
    ∃ next, items.foldlM (fun output (item : InstanceId × State) ↦
        output.setState partition item.1 value) output = .ok next ∧
      ∀ p i, next.state p i =
        if p = partition ∧ i ∈ items.map Prod.fst then some value else output.state p i := by
  induction items generalizing output with
  | nil => exact ⟨output, rfl, by simp⟩
  | cons item items ih =>
    rw [List.map_cons, List.nodup_cons] at distinct
    obtain ⟨middle, hset, hmiddle⟩ := setState_eq_ok value (fresh item.1 (by simp))
    obtain ⟨next, hrest, hnext⟩ := ih middle distinct.2 fun i hi ↦ by
      rw [hmiddle, if_neg (by rintro ⟨-, rfl⟩; exact distinct.1 hi)]
      exact fresh i (List.mem_cons_of_mem _ hi)
    refine ⟨next, by rw [List.foldlM_cons, hset, CheckedLoop.ok_bind, hrest], fun p i ↦ ?_⟩
    rw [hnext, hmiddle]
    grind

end ReplicaStates

namespace SemiAuto

open State

section Loop

variable {model : StateModelDefinition} {partition : PartitionId}
  {current : Option InstanceStates} {total : ℕ} {requested : State}

theorem assignNext_of_not_top (current : Option InstanceStates) (total count : ℕ) {peek : InstanceId} {a : Assignment}
    (low : requested ≠ model.highestPriorityState)
    (fresh : a.output.state partition peek = none) :
    ∃ output, assignNext model partition current total requested count peek a = .ok
        ⟨a.activeQueue.tail, a.currentPriority, a.assigned.insert peek, output⟩ ∧
      ∀ p i, output.state p i =
        if p = partition ∧ i = peek then some requested else a.output.state p i := by
  obtain ⟨output, hset, houtput⟩ := ReplicaStates.setState_eq_ok requested fresh
  refine ⟨output, ?_, houtput⟩
  simp only [assignNext, adjustInstanceIfNecessary, beq_eq_false_iff_ne.mpr low,
    Bool.false_eq_true, false_and, and_false, if_false]
  rw [hset]
  rfl

/-- A state below the top one is given to every instance still unassigned. -/
theorem assignLoop_of_not_top (partition : PartitionId) (current : Option InstanceStates) (total : ℕ)
    (low : requested ≠ model.highestPriorityState)
    (queue : List InstanceId) :
    ∀ (fuel count : ℕ) (a : Assignment), a.activeQueue = queue → queue.Nodup →
      queue.length ≤ count → count + queue.length ≤ fuel →
      (∀ i ∈ queue, i ∉ a.assigned → a.output.state partition i = none) →
      ∃ b, assignLoop model partition current total requested fuel count a = .ok b ∧
        ∀ p i, b.output.state p i =
          if p = partition ∧ i ∈ queue ∧ i ∉ a.assigned then some requested
          else a.output.state p i := by
  induction queue with
  | nil =>
    intro fuel count a hqueue _ _ _ _
    refine ⟨a, ?_, by simp⟩
    cases fuel with
    | zero => rfl
    | succ fuel =>
      cases count with
      | zero => rfl
      | succ count => simp only [assignLoop, hqueue]
  | cons peek rest ih =>
    intro fuel count a hqueue distinct enough fueled fresh
    rw [List.nodup_cons] at distinct
    simp only [List.length_cons] at enough fueled
    obtain ⟨fuel, rfl⟩ : ∃ f, fuel = f + 1 := ⟨fuel - 1, by omega⟩
    obtain ⟨count, rfl⟩ : ∃ c, count = c + 1 := ⟨count - 1, by omega⟩
    simp only [assignLoop, hqueue]
    by_cases done : peek ∈ a.assigned
    · rw [if_pos done]
      obtain ⟨b, hloop, hb⟩ := ih fuel (count + 1) { a with activeQueue := rest } rfl distinct.2
        (by omega) (by omega) fun i hi ↦ fresh i (List.mem_cons_of_mem _ hi)
      refine ⟨b, hloop, fun p i ↦ ?_⟩
      rw [hb]
      grind
    · rw [if_neg done]
      obtain ⟨output, hnext, houtput⟩ := assignNext_of_not_top current total
        (count + 1) low (fresh peek List.mem_cons_self done)
      rw [hnext, CheckedLoop.ok_bind]
      obtain ⟨b, hloop, hb⟩ := ih fuel count
        ⟨a.activeQueue.tail, a.currentPriority, a.assigned.insert peek, output⟩
        (by rw [hqueue]; rfl) distinct.2 (by omega) (by omega) fun i hi hnot ↦ by
          rw [Std.ExtTreeSet.mem_insert, compare_eq_iff_eq, not_or] at hnot
          rw [houtput, if_neg fun h ↦ hnot.1 h.2.symm]
          exact fresh i (List.mem_cons_of_mem _ hi) hnot.2
      refine ⟨b, hloop, fun p i ↦ ?_⟩
      rw [hb, houtput]
      simp only [Std.ExtTreeSet.mem_insert, compare_eq_iff_eq, List.mem_cons]
      grind

theorem assignLoop_zero {fuel : ℕ} (a : Assignment) :
    assignLoop model partition current total requested fuel 0 a = .ok a := by
  cases fuel <;> rfl

end Loop

/-- Whom the top state of a partition goes to, given its live listed instances in order. -/
def preferredLeader (current : Option InstanceStates) (active : List InstanceId) :
    Option InstanceId :=
  match active with
  | [] => none
  | first :: _ =>
    let state := (current.bind (·[first]?)).getD offline
    if active.length ≤ 1 ∨ state = leader ∨ state = standby then some first
    else (active.insertionSort fun left right ↦ currentStatePriority current left leaderStandby ≤
      currentStatePriority current right leaderStandby).head?

theorem nextUnassigned_empty (candidates : List InstanceId) :
    nextUnassigned ∅ candidates = (candidates.head?, candidates.tail) := by
  cases candidates with
  | nil => rfl
  | cons candidate rest => simp [nextUnassigned]

theorem isSecondTopState_iff (state : State) :
    isSecondTopState state leaderStandby = true ↔ state = standby := by
  obtain ⟨h1, h2, h3, h4, h5, h6⟩ := leaderStandby.distinct_pairs
  simp only [isSecondTopState, leaderStandby.statesByPriority_eq,
    leaderStandby.highestPriorityState_eq, leaderStandby.nextStateToward_eq, List.any_cons,
    List.any_nil, Bool.or_false, Bool.or_eq_true, decide_eq_true_eq]
  grind

theorem preferredLeader_mem {current : Option InstanceStates} {active : List InstanceId}
    {chosen : InstanceId} (h : preferredLeader current active = some chosen) : chosen ∈ active := by
  unfold preferredLeader at h
  cases active with
  | nil => cases h
  | cons first rest =>
    simp only at h
    split at h
    · cases h
      exact List.mem_cons_self
    · exact (List.mem_insertionSort _).mp (List.mem_of_mem_head? h)

theorem preferredLeader_ne_none (current : Option InstanceStates) (first : InstanceId)
    (rest : List InstanceId) : ∃ chosen, preferredLeader current (first :: rest) = some chosen := by
  unfold preferredLeader
  simp only
  split
  · exact ⟨first, rfl⟩
  · refine Option.isSome_iff_exists.mp (Option.isSome_iff_ne_none.mpr fun h ↦ ?_)
    rw [List.head?_eq_none_iff] at h
    have length := (List.perm_insertionSort (fun left right ↦
      currentStatePriority current left leaderStandby ≤
        currentStatePriority current right leaderStandby) (first :: rest)).length_eq
    rw [h] at length
    cases length

/-- The single request for the top state goes to the preferred leader. -/
theorem assignState_leader {partition : PartitionId} (current : Option InstanceStates)
    {active priority : List InstanceId} {output : BestPossibleState}
    (sorted : priority = active.insertionSort fun left right ↦
      currentStatePriority current left leaderStandby ≤
        currentStatePriority current right leaderStandby)
    (fresh : ∀ i ∈ active, output.state partition i = none) :
    ∃ b, assignState leaderStandby partition current active.length leader 1
        ⟨active, priority, ∅, output⟩ = .ok b ∧
      (∀ i, i ∈ b.assigned ↔ preferredLeader current active = some i) ∧
      b.activeQueue.Sublist active ∧
      (∀ i ∈ active, preferredLeader current active = some i ∨ i ∈ b.activeQueue) ∧
      ∀ p i, b.output.state p i =
        if p = partition ∧ preferredLeader current active = some i then some leader
        else output.state p i := by
  cases active with
  | nil => exact ⟨_, rfl, by simp [preferredLeader], .refl _, by simp, by simp [preferredLeader]⟩
  | cons first rest =>
    obtain ⟨chosen, choice⟩ := preferredLeader_ne_none current first rest
    have adjusted : ∃ tail, adjustInstanceIfNecessary first ∅ (first :: rest).length 1
        (leader == leaderStandby.highestPriorityState)
        (decide ((current.bind (·[first]?)).getD leaderStandby.initialState ≠ leader ∧
          (!isSecondTopState ((current.bind (·[first]?)).getD leaderStandby.initialState)
            leaderStandby) = true)) priority = (chosen, tail) := by
      rw [leaderStandby.highestPriorityState_eq, leaderStandby.initialState_eq]
      simp only [adjustInstanceIfNecessary, nextUnassigned_empty, preferredLeader,
        beq_self_eq_true, true_and, decide_eq_true_eq, Bool.not_eq_true', ← Bool.not_eq_true,
        isSecondTopState_iff] at choice ⊢
      by_cases stay : (first :: rest).length ≤ 1 ∨
          (current.bind (·[first]?)).getD offline = leader ∨
          (current.bind (·[first]?)).getD offline = standby
      · rw [if_pos stay] at choice
        rw [if_neg (by grind), Option.some.inj choice]
        exact ⟨_, rfl⟩
      · rw [if_neg stay, ← sorted] at choice
        rw [if_pos (by grind), choice]
        exact ⟨_, rfl⟩
    obtain ⟨tail, adjusted⟩ := adjusted
    obtain ⟨next, hset, hnext⟩ := ReplicaStates.setState_eq_ok leader
      (fresh chosen (preferredLeader_mem choice))
    have step : assignNext leaderStandby partition current (first :: rest).length leader 1 first
        ⟨first :: rest, priority, ∅, output⟩ = .ok
        ⟨if chosen = first then rest else first :: rest, tail,
          (∅ : BTreeSet InstanceId).insert chosen, next⟩ := by
      simp only [assignNext, Std.ExtTreeSet.size_empty, Nat.sub_zero, adjusted, hset]
      rfl
    simp only [choice, Option.some.injEq]
    refine ⟨⟨if chosen = first then rest else first :: rest, tail,
      (∅ : BTreeSet InstanceId).insert chosen, next⟩, ?_, fun i ↦ ?_, ?_, fun i hi ↦ ?_,
      by simpa only [eq_comm (a := chosen)] using hnext⟩
    · simp only [assignState, List.length_cons, Nat.add_comm 1, assignLoop,
        Std.ExtTreeSet.not_mem_empty, if_false]
      rw [show rest.length + 1 = (first :: rest).length from rfl, step, CheckedLoop.ok_bind]
    · rw [OrderedMap.mem_insert, eq_comm]
      simp
    · split
      · exact List.sublist_cons_self _ _
      · exact List.Sublist.refl _
    · by_cases eq : chosen = first
      · subst eq
        simpa [eq_comm] using hi
      · simp [eq, List.mem_cons.mp hi]

/-- The walk over the declared states of one partition leaves one leader, the rest standby. -/
theorem assignStates (partition : PartitionId) (current : Option InstanceStates)
    {active : List InstanceId} (listLength : ℕ) (output : BestPossibleState)
    (distinct : active.Nodup) (short : active.length ≤ listLength)
    (fresh : ∀ i ∈ active, output.state partition i = none) :
    ∃ b, leaderStandby.statesByPriority.foldlM (fun a requested ↦
        assignState leaderStandby partition current active.length requested
          (stateCount (leaderStandby.cardinalityFor requested) active.length listLength) a)
        ⟨active, active.insertionSort fun left right ↦
          currentStatePriority current left leaderStandby ≤
            currentStatePriority current right leaderStandby, ∅, output⟩ = .ok b ∧
      ∀ p i, b.output.state p i =
        if p = partition ∧ i ∈ active then
          if preferredLeader current active = some i then some leader else some standby
        else output.state p i := by
  obtain ⟨h1, h2, h3, h4, h5, h6⟩ := leaderStandby.distinct_pairs
  have counts : stateCount (leaderStandby.cardinalityFor leader) active.length listLength = 1 ∧
      stateCount (leaderStandby.cardinalityFor standby) active.length listLength = listLength ∧
      stateCount (leaderStandby.cardinalityFor offline) active.length listLength = 0 ∧
      stateCount (leaderStandby.cardinalityFor dropped) active.length listLength = 0 := by
    simp only [StateModelDefinition.cardinalityFor, leaderStandby.cardinalities_eq,
      OrderedMap.getElem?_insert, h1, h2, h3, h4, h5, h6, if_true, if_false, stateCount, and_self]
  obtain ⟨b, hleader, hassigned, hsub, hcover, hb⟩ :=
    assignState_leader current rfl fresh
  have low : standby ≠ leaderStandby.highestPriorityState := by
    rw [leaderStandby.highestPriorityState_eq]
    exact h1.symm
  obtain ⟨c, hstandby, hc⟩ := assignLoop_of_not_top partition current active.length low b.activeQueue (listLength + b.activeQueue.length) listLength b rfl
    (hsub.nodup distinct) (hsub.length_le.trans short) le_rfl fun i hi hnot ↦ by
      rw [hb, if_neg fun h ↦ hnot ((hassigned i).mpr h.2)]
      exact fresh i (hsub.subset hi)
  refine ⟨c, ?_, fun p i ↦ ?_⟩
  · rw [leaderStandby.statesByPriority_eq]
    simp only [List.foldlM_cons, List.foldlM_nil, counts, hleader, CheckedLoop.ok_bind]
    rw [assignState, hstandby]
    simp only [CheckedLoop.ok_bind, assignState, assignLoop_zero]
    rfl
  · have chosen : preferredLeader current active = some i → i ∈ active := preferredLeader_mem
    have inQueue : i ∈ b.activeQueue → i ∈ active := fun h ↦ hsub.subset h
    have covered := hcover i
    have taken := hassigned i
    rw [hc, hb]
    grind

/-- The target of every replica, written out: unlisted replicas drain to `DROPPED`. -/
def bestState (ideal : IdealState) (currentState : CurrentState) (live : BTreeSet InstanceId)
    (partition : PartitionId) (instance_ : InstanceId) : Option State :=
  match ideal.preferenceList partition with
  | none => (currentState.state partition instance_).map fun _ ↦ dropped
  | some list =>
    if instance_ ∉ list then (currentState.state partition instance_).map fun _ ↦ dropped
    else if instance_ ∉ live then none
    else if preferredLeader currentState.entries[partition]? (list.filter (· ∈ live)) =
      some instance_ then some leader
    else some standby

theorem mem_instances {currentState : CurrentState} {partition : PartitionId} {i : InstanceId}
    (keep : InstanceId → Bool) :
    i ∈ ((currentState.entries[partition]?.getD ∅).toList.filter (keep ·.1)).map Prod.fst ↔
      (currentState.state partition i).isSome ∧ keep i = true := by
  simp only [List.mem_map, List.mem_filter, Prod.exists, OrderedMap.mem_toList,
    exists_and_right, exists_eq_right, ReplicaStates.state, and_congr_left_iff]
  intro _
  rw [Option.isSome_iff_exists]
  cases h : currentState.entries[partition]? <;> simp only [Option.getD_none, Option.getD_some,
    Option.bind_none, Option.bind_some, Std.ExtTreeMap.getElem?_empty]

theorem assignPartition_eq_ok {ideal : IdealState} (currentState : CurrentState)
    (live : BTreeSet InstanceId) {output : BestPossibleState} {partition : PartitionId}
    {list : List InstanceId} (found : ideal.preferenceList partition = some list)
    (fresh : ∀ i, output.state partition i = none) :
    ∃ next, assignPartition currentState live leaderStandby output (partition, list) = .ok next ∧
      ∀ p i, next.state p i =
        if p = partition then bestState ideal currentState live p i else output.state p i := by
  have nodup := IdealState.preferenceList_nodup found
  obtain ⟨middle, hdrop, hmiddle⟩ := ReplicaStates.foldlM_setState partition dropped
    ((currentState.entries[partition]?.getD ∅).toList.filter (·.1 ∉ list)) output
    ((List.filter_sublist.map Prod.fst).nodup (OrderedMap.keys_nodup _)) fun i _ ↦ fresh i
  simp only [mem_instances fun i ↦ decide (i ∉ list), decide_eq_true_eq] at hmiddle
  obtain ⟨b, hassign, hb⟩ := assignStates partition currentState.entries[partition]? list.length middle
    (nodup.filter (fun i ↦ decide (i ∈ live))) (List.length_filter_le _ _) fun i hi ↦ by
      rw [hmiddle, if_neg (by grind)]
      exact fresh i
  refine ⟨b.output, ?_, fun p i ↦ ?_⟩
  · simp only [assignPartition, hdrop, CheckedLoop.ok_bind]
    rw [hassign]
    rfl
  · rw [hb, hmiddle]
    by_cases hp : p = partition
    · subst hp
      simp only [bestState, found, true_and, fresh, List.mem_filter, decide_eq_true_eq, if_true]
      cases h : currentState.state p i <;> grind
    · simp [hp]

/-- The computed best-possible state is total and is `bestState`. -/
theorem computeSemiAutoBestPossibleState_eq_ok (ideal : IdealState) (currentState : CurrentState)
    (live : BTreeSet InstanceId) :
    ∃ best, computeSemiAutoBestPossibleState ideal currentState live leaderStandby = .ok best ∧
      ∀ p i, best.state p i = bestState ideal currentState live p i := by
  obtain ⟨listed, hlisted, inv⟩ := CheckedLoop.foldlM_ok
    (fun done (output : BestPossibleState) ↦ ∀ p i, output.state p i =
      if p ∈ done.map Prod.fst then bestState ideal currentState live p i else none)
    (assignPartition currentState live leaderStandby) ideal.preferenceLists.toList
    ∅ (by simp) fun done item rest output split inv ↦ by
      obtain ⟨partition, list⟩ := item
      obtain ⟨found, absent⟩ := OrderedMap.visited split
      obtain ⟨next, hnext, hstate⟩ := assignPartition_eq_ok currentState live found fun i ↦ by rw [inv, if_neg absent]
      refine ⟨next, hnext, fun p i ↦ ?_⟩
      rw [hstate, inv]
      grind
  obtain ⟨best, hbest, inv'⟩ := CheckedLoop.foldlM_ok
    (fun done (output : BestPossibleState) ↦ ∀ p i, output.state p i =
      if (ideal.preferenceList p).isSome ∨ p ∈ done.map Prod.fst then
        bestState ideal currentState live p i else none)
    (fun output (entry : PartitionId × InstanceStates) ↦
      if ideal.preferenceList entry.1 = none then
        entry.2.toList.foldlM (fun output (item : InstanceId × State) ↦
          output.setState entry.1 item.1 dropped) output
      else pure output) currentState.entries.toList
    listed
    (by simp only [inv, OrderedMap.mem_keys]; simp [IdealState.preferenceList]) fun done item rest output split inv ↦ by
      obtain ⟨partition, instances⟩ := item
      obtain ⟨found, absent⟩ := OrderedMap.visited split
      by_cases unlisted : ideal.preferenceList partition = none
      · obtain ⟨next, hnext, hstate⟩ := ReplicaStates.foldlM_setState partition dropped
          instances.toList output (OrderedMap.keys_nodup _) fun i _ ↦ by
            rw [inv, if_neg (by simp [unlisted, absent])]
        refine ⟨next, by simp only [unlisted, if_true, hnext], fun p i ↦ ?_⟩
        have known : i ∈ instances.toList.map Prod.fst ↔
            (currentState.state partition i).isSome := by
          rw [OrderedMap.mem_keys, ReplicaStates.state, found, Option.bind_some]
        rw [hstate, inv]
        by_cases hp : p = partition
        · subst hp
          simp only [true_and, known, bestState, unlisted]
          cases h : currentState.state p i <;> simp [absent]
        · simp only [hp, false_and, if_false, List.map_append, List.mem_append, List.map_cons,
            List.map_nil, List.mem_singleton, or_false]
      · refine ⟨output, by simp only [unlisted, if_false]; rfl, fun p i ↦ ?_⟩
        have some := Option.isSome_iff_ne_none.mpr unlisted
        rw [inv]
        grind
  refine ⟨best, by rw [computeSemiAutoBestPossibleState, hlisted]; exact hbest, fun p i ↦ ?_⟩
  rw [inv']
  by_cases listedOrCurrent : (ideal.preferenceList p).isSome ∨
      p ∈ currentState.entries.toList.map Prod.fst
  · rw [if_pos listedOrCurrent]
  · rw [if_neg listedOrCurrent]
    rw [OrderedMap.mem_keys, not_or, Option.not_isSome_iff_eq_none,
      Option.not_isSome_iff_eq_none] at listedOrCurrent
    simp [bestState, listedOrCurrent.1, ReplicaStates.state, listedOrCurrent.2]

end SemiAuto

end Clustodian
