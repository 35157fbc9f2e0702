import Clustodian.Planner.Generation

namespace Clustodian

inductive MessageSelectionError
  | candidateResourceMismatch (expected actual : ResourceId)
  | unknownCandidatePartition (partition : PartitionId)
  | unknownPendingPartition (partition : PartitionId)
  | duplicatePendingTransition (partition : PartitionId) (instance_ : InstanceId)
  deriving DecidableEq

def MessageSelectionError.message : MessageSelectionError → String
  | .candidateResourceMismatch expected actual =>
    "candidate transition belongs to resource " ++ actual.asStr ++ ", expected " ++ expected.asStr
  | .unknownCandidatePartition partition =>
    "candidate transition references unknown partition " ++ partition.asStr
  | .unknownPendingPartition partition =>
    "pending transition references unknown partition " ++ partition.asStr
  | .duplicatePendingTransition partition instance_ =>
    "duplicate pending transition for partition " ++ partition.asStr ++ " and instance " ++
      instance_.asStr

/-- A hop of a replica of a recorded partition on its way to `DROPPED`. -/
def isDropPath (partition : PartitionId) (source target : State) (current : CurrentState)
    (model : StateModelDefinition) : Bool :=
  match model.dropped with
  | none => false
  | some dropped =>
    partition ∈ current.entries ∧ model.nextStateToward source dropped = some target

def stateBounds (model : StateModelDefinition) (liveInstanceCount : ℕ) : BTreeMap State ℕ :=
  model.statesByPriority.foldl (fun bounds state ↦
    match model.cardinalityFor state with
    | some (.exact value) => bounds.insert state value
    | some .nodeCount => bounds.insert state liveInstanceCount
    -- The dynamic `R` bound stays unresolved here, as in Helix.
    | some .replicaCount | some .unbounded | none => bounds) ∅

def increaseStateCount (bounds : BTreeMap State ℕ) (state : State)
    (stateCounts : BTreeMap State ℕ) : BTreeMap State ℕ :=
  if state ∈ bounds then stateCounts.insert state ((stateCounts[state]?).getD 0 + 1)
  else stateCounts

section Checks

variable (resource : ResourceId) (ideal : IdealState) (current : CurrentState)
  (model : StateModelDefinition)

def checkCandidate (candidate : TransitionRequest) : Except MessageSelectionError Unit :=
  if candidate.resource ≠ resource then
    .error (.candidateResourceMismatch resource candidate.resource)
  else if ideal.preferenceList candidate.partition = none ∧ ¬isDropPath candidate.partition
      candidate.sourceState candidate.targetState current model then
    .error (.unknownCandidatePartition candidate.partition)
  else .ok ()

def checkPending : List PendingTransition → List (PartitionId × InstanceId) →
    Except MessageSelectionError Unit
  | [], _ => .ok ()
  | transition :: rest, seen =>
    if ideal.preferenceList transition.partition = none ∧ ¬isDropPath transition.partition
        transition.sourceState transition.targetState current model then
      .error (.unknownPendingPartition transition.partition)
    else if (transition.partition, transition.instance_) ∈ seen then
      .error (.duplicatePendingTransition transition.partition transition.instance_)
    else checkPending rest ((transition.partition, transition.instance_) :: seen)

end Checks

section Counting

variable (current : CurrentState) (live : BTreeSet InstanceId) (model : StateModelDefinition)
  (bounds : BTreeMap State ℕ)

/-- Replicas in each bounded state, with both endpoints of every pending transition. -/
def countStates (partition : PartitionId) (pending : List PendingTransition) : BTreeMap State ℕ :=
  let reported := live.toList.foldl (fun counts instance_ ↦ increaseStateCount bounds
    ((current.state partition instance_).getD model.initialState) counts) ∅
  pending.foldl (fun counts transition ↦ increaseStateCount bounds transition.sourceState
    (increaseStateCount bounds transition.targetState counts)) reported

def transitionPriority (candidate : TransitionRequest) : ℕ :=
  (model.transitionsByPriority.findIdx? fun transition ↦
    transition.source = candidate.sourceState ∧ transition.target = candidate.targetState).getD
    usizeMax

def selectCandidate (acc : BTreeMap State ℕ × List TransitionRequest)
    (candidate : TransitionRequest) : BTreeMap State ℕ × List TransitionRequest :=
  if (bounds[candidate.targetState]?).any fun upperBound ↦
      upperBound < (acc.1[candidate.targetState]?).getD 0 + 1 then acc
  else (increaseStateCount bounds candidate.targetState acc.1, acc.2 ++ [candidate])

def selectPartition (partition : PartitionId) (candidates : List TransitionRequest)
    (pending : List PendingTransition) : List TransitionRequest :=
  let grouped := OrderedMap.groupBy (transitionPriority model) candidates
  ((grouped.toList.flatMap Prod.snd).foldl (selectCandidate bounds)
    (countStates current live model bounds partition pending, [])).2

end Counting

def selectTransitions (resource : ResourceId) (ideal : IdealState) (current : CurrentState)
    (live : BTreeSet InstanceId) (candidates : List TransitionRequest)
    (pending : List PendingTransition) (model : StateModelDefinition) :
    Except MessageSelectionError (List TransitionRequest) := do
  candidates.foldlM (fun _ candidate ↦ checkCandidate resource ideal current model candidate) ()
  let candidatesByPartition := OrderedMap.groupBy TransitionRequest.partition candidates
  checkPending ideal current model pending []
  let pendingByPartition := OrderedMap.groupBy PendingTransition.partition pending
  let bounds := stateBounds model live.size
  let partitions := candidatesByPartition.keys.foldl (fun set partition ↦ set.insert partition)
    (ideal.preferenceLists.keys.foldl (fun set partition ↦ set.insert partition)
      (∅ : BTreeSet PartitionId))
  return partitions.toList.flatMap fun partition ↦
    match candidatesByPartition[partition]? with
    | none => []
    | some partitionCandidates => selectPartition current live model bounds partition
        partitionCandidates ((pendingByPartition[partition]?).getD [])

namespace Selection

open State

section Bounds

variable {bounds : BTreeMap State ℕ} {state : State}

def countOf (counts : BTreeMap State ℕ) (state : State) : ℕ := (counts[state]?).getD 0

theorem countOf_increase (bounded : state ∈ bounds) (other : State) (counts : BTreeMap State ℕ) :
    countOf (increaseStateCount bounds other counts) state =
      countOf counts state + if other = state then 1 else 0 := by
  unfold countOf increaseStateCount
  by_cases same : other = state
  · subst same
    simp [bounded]
  · split
    · simp [OrderedMap.getElem?_insert, Ne.symm same]
    · simp

theorem countOf_le_increase (other : State) (counts : BTreeMap State ℕ) :
    countOf counts state ≤ countOf (increaseStateCount bounds other counts) state := by
  unfold increaseStateCount
  split
  · by_cases same : state = other
    · subst same
      simp [countOf]
    · simp [countOf, OrderedMap.getElem?_insert, same]
  · exact le_rfl

theorem countOf_foldl {α : Type} (bounded : state ∈ bounds) (stateOf : α → State) (items : List α)
    (counts : BTreeMap State ℕ) :
    countOf (items.foldl (fun counts item ↦ increaseStateCount bounds (stateOf item) counts)
      counts) state = countOf counts state + items.countP (stateOf · = state) := by
  induction items generalizing counts with
  | nil => simp
  | cons item items ih =>
    rw [List.foldl_cons, ih, countOf_increase bounded, List.countP_cons]
    simp only [decide_eq_true_eq]
    omega

/-- Replicas of a partition that are in a state, or that a pending transition may put there. -/
def occupancy (current : CurrentState) (live : BTreeSet InstanceId) (model : StateModelDefinition)
    (partition : PartitionId) (pending : List PendingTransition) (state : State) : ℕ :=
  live.toList.countP (fun i ↦ (current.state partition i).getD model.initialState = state) +
    (pending.countP (·.targetState = state) + pending.countP (·.sourceState = state))

theorem countOf_countStates {current : CurrentState} {live : BTreeSet InstanceId}
    {model : StateModelDefinition} {partition : PartitionId} (bounded : state ∈ bounds)
    (pending : List PendingTransition) :
    countOf (countStates current live model bounds partition pending) state =
      occupancy current live model partition pending state := by
  unfold countStates
  simp only
  suffices general : ∀ counts, countOf (pending.foldl (fun counts transition ↦
      increaseStateCount bounds transition.sourceState
        (increaseStateCount bounds transition.targetState counts)) counts) state =
      countOf counts state +
        (pending.countP (·.targetState = state) + pending.countP (·.sourceState = state)) by
    rw [general, countOf_foldl bounded fun i ↦ (current.state partition i).getD model.initialState]
    simp [occupancy, countOf]
  induction pending with
  | nil => simp
  | cons transition pending ih =>
    intro counts
    rw [List.foldl_cons, ih, countOf_increase bounded, countOf_increase bounded, List.countP_cons,
      List.countP_cons]
    simp only [decide_eq_true_eq]
    omega

/-- The greedy pass: what it picks, what the counts become and why the rest is left out. -/
theorem foldl_selectCandidate (bounds : BTreeMap State ℕ) (candidates : List TransitionRequest) :
    ∀ (counts : BTreeMap State ℕ) (chosen : List TransitionRequest), ∃ picked,
      (candidates.foldl (selectCandidate bounds) (counts, chosen)).2 = chosen ++ picked ∧
      picked.Sublist candidates ∧
      (∀ s b, bounds[s]? = some b →
        countOf (candidates.foldl (selectCandidate bounds) (counts, chosen)).1 s =
          countOf counts s + picked.countP (·.targetState = s) ∧
        countOf (candidates.foldl (selectCandidate bounds) (counts, chosen)).1 s ≤
          max (countOf counts s) b) ∧
      ∀ c ∈ candidates, c ∈ picked ∨ ∃ b, bounds[c.targetState]? = some b ∧
        b ≤ countOf (candidates.foldl (selectCandidate bounds) (counts, chosen)).1 c.targetState := by
  induction candidates with
  | nil => exact fun counts chosen ↦ ⟨[], by simp, .refl _, by simp, by simp⟩
  | cons c candidates ih =>
    intro counts chosen
    rw [List.foldl_cons]
    by_cases full : (bounds[c.targetState]?).any fun upperBound ↦
        decide (upperBound < countOf counts c.targetState + 1)
    · obtain ⟨picked, hpicked, hsub, hcount, hrest⟩ := ih counts chosen
      have skip : selectCandidate bounds (counts, chosen) c = (counts, chosen) := if_pos full
      rw [skip]
      refine ⟨picked, hpicked, hsub.cons _, hcount, fun d hd ↦ ?_⟩
      rcases List.mem_cons.mp hd with rfl | hd
      · cases hb : bounds[d.targetState]? with
        | none => simp [hb] at full
        | some b =>
          have kept := (hcount _ _ hb).1
          have exceeded : b < countOf counts d.targetState + 1 := by simpa [hb] using full
          exact .inr ⟨b, rfl, by omega⟩
      · exact hrest d hd
    · have take : selectCandidate bounds (counts, chosen) c =
          (increaseStateCount bounds c.targetState counts, chosen ++ [c]) := if_neg full
      rw [take]
      obtain ⟨picked, hpicked, hsub, hcount, hrest⟩ :=
        ih (increaseStateCount bounds c.targetState counts) (chosen ++ [c])
      refine ⟨c :: picked, by rw [hpicked, List.append_assoc]; rfl, hsub.cons_cons _, ?_, ?_⟩
      · intro s b hb
        have bounded : s ∈ bounds := (OrderedMap.mem_iff _ _).mpr ⟨b, hb⟩
        have step := hcount s b hb
        rw [countOf_increase bounded] at step
        have room : c.targetState = s → countOf counts s + 1 ≤ b := by
          rintro rfl
          simpa [hb] using full
        rw [List.countP_cons]
        by_cases same : c.targetState = s
        · have := room same
          simp only [same, if_true, decide_true] at step ⊢
          omega
        · simp only [same, if_false, decide_false, Bool.false_eq_true] at step ⊢
          omega
      · intro d hd
        rcases List.mem_cons.mp hd with rfl | hd
        · exact .inl List.mem_cons_self
        · exact (hrest d hd).imp_left (List.mem_cons_of_mem _)

end Bounds

section Checks

variable {resource : ResourceId} {ideal : IdealState} {current : CurrentState}
  {model : StateModelDefinition}

/-- A transition of this partition is understood: the partition is listed or being drained. -/
def Known (ideal : IdealState) (current : CurrentState) (model : StateModelDefinition)
    (partition : PartitionId) (source target : State) : Prop :=
  ideal.preferenceList partition ≠ none ∨ isDropPath partition source target current model = true

theorem not_known {partition : PartitionId} {source target : State} :
    (ideal.preferenceList partition = none ∧
      ¬isDropPath partition source target current model = true) ↔
      ¬Known ideal current model partition source target := by
  simp only [Known, not_or, not_not, ne_eq]

theorem checkPending_eq_ok_iff (pending : List PendingTransition)
    (seen : List (PartitionId × InstanceId)) :
    checkPending ideal current model pending seen = .ok () ↔
      (∀ t ∈ pending, Known ideal current model t.partition t.sourceState t.targetState) ∧
      (pending.map fun t ↦ (t.partition, t.instance_)).Nodup ∧
      ∀ t ∈ pending, (t.partition, t.instance_) ∉ seen := by
  induction pending generalizing seen with
  | nil => simp [checkPending]
  | cons transition pending ih =>
    simp only [List.map_cons, List.nodup_cons, List.forall_mem_cons]
    by_cases known : Known ideal current model transition.partition transition.sourceState
        transition.targetState
    · rw [checkPending, if_neg (mt not_known.mp (not_not.mpr known))]
      by_cases fresh : (transition.partition, transition.instance_) ∈ seen
      · simp [fresh]
      · rw [if_neg fresh, ih]
        simp only [known, fresh, true_and, not_false_eq_true]
        constructor
        · rintro ⟨hknown, hnodup, hnew⟩
          refine ⟨hknown, ⟨fun h ↦ ?_, hnodup⟩,
            fun t ht hseen ↦ hnew t ht (List.mem_cons_of_mem _ hseen)⟩
          obtain ⟨t, ht, heq⟩ := List.mem_map.mp h
          exact hnew t ht (heq ▸ List.mem_cons_self)
        · rintro ⟨hknown, ⟨hnot, hnodup⟩, hseen⟩
          refine ⟨hknown, hnodup, fun t ht h ↦ ?_⟩
          rcases List.mem_cons.mp h with heq | h
          · exact hnot (heq ▸ List.mem_map_of_mem ht)
          · exact hseen t ht h
    · rw [checkPending, if_pos (not_known.mpr known)]
      simp [known]

theorem checkCandidate_eq_ok {candidate : TransitionRequest}
    (same : candidate.resource = resource)
    (known : Known ideal current model candidate.partition candidate.sourceState
      candidate.targetState) :
    checkCandidate resource ideal current model candidate = .ok () := by
  rw [checkCandidate, if_neg (not_not.mpr same), if_neg (mt not_known.mp (not_not.mpr known))]

end Checks

section Selected

variable {resource : ResourceId} {ideal : IdealState} {current : CurrentState}
  {live : BTreeSet InstanceId} {model : StateModelDefinition} {candidates : List TransitionRequest}
  {pending : List PendingTransition}

/-- What the stage selects in one partition. -/
def chosen (current : CurrentState) (live : BTreeSet InstanceId) (model : StateModelDefinition)
    (candidates : List TransitionRequest) (pending : List PendingTransition)
    (partition : PartitionId) : List TransitionRequest :=
  selectPartition current live model (stateBounds model live.size) partition
    (candidates.filter fun c ↦ c.partition = partition)
    (pending.filter fun t ↦ t.partition = partition)

theorem mem_of_mem_chosen {partition : PartitionId} {request : TransitionRequest}
    (h : request ∈ chosen current live model candidates pending partition) :
    request ∈ candidates ∧ request.partition = partition := by
  unfold chosen selectPartition at h
  simp only at h
  obtain ⟨picked, hpicked, hsub, -, -⟩ := foldl_selectCandidate
    (stateBounds model live.size) ((OrderedMap.groupBy (transitionPriority model)
      (candidates.filter fun c ↦ c.partition = partition)).toList.flatMap Prod.snd)
    (countStates current live model (stateBounds model live.size) partition
      (pending.filter fun t ↦ t.partition = partition)) []
  rw [hpicked, List.nil_append] at h
  simpa using (OrderedMap.mem_groupBy _ _ _).mp (hsub.subset h)

/-- On generated candidates the stage fails only through its check of the pending list. -/
theorem selectTransitions_eq (resource : ResourceId) (ideal : IdealState) (current : CurrentState)
    (live : BTreeSet InstanceId) (model : StateModelDefinition)
    (candidates : List TransitionRequest) (pending : List PendingTransition)
    (generated : ∀ c ∈ candidates, c.resource = resource ∧
      Known ideal current model c.partition c.sourceState c.targetState) :
    (∀ e, checkPending ideal current model pending [] = .error e →
      selectTransitions resource ideal current live candidates pending model = .error e) ∧
    (checkPending ideal current model pending [] = .ok () →
      ∃ selected,
        selectTransitions resource ideal current live candidates pending model = .ok selected ∧
        ∀ request, request ∈ selected ↔
          request ∈ chosen current live model candidates pending request.partition) := by
  obtain ⟨_, hcandidates, -⟩ := CheckedLoop.foldlM_ok (fun _ _ ↦ True)
    (fun (_ : Unit) c ↦ checkCandidate resource ideal current model c) candidates
    () trivial fun done c rest _ split _ ↦ by
      obtain ⟨same, known⟩ := generated c (by rw [split]; simp)
      exact ⟨(), checkCandidate_eq_ok same known, trivial⟩
  refine ⟨fun e he ↦ ?_, fun hpending ↦ ?_⟩
  · rw [selectTransitions, hcandidates, CheckedLoop.ok_bind, he]
    rfl
  · rw [selectTransitions, hcandidates, CheckedLoop.ok_bind, hpending, CheckedLoop.ok_bind]
    refine ⟨_, rfl, fun request ↦ ?_⟩
    have bucket : ∀ p l, (OrderedMap.groupBy TransitionRequest.partition candidates)[p]? = some l →
        l = candidates.filter fun c ↦ c.partition = p := by
      intro p l found
      rw [← OrderedMap.getElem?_groupBy, found, Option.getD_some]
    simp only [List.mem_flatMap, OrderedMap.getElem?_groupBy]
    constructor
    · rintro ⟨p, -, h⟩
      cases found : (OrderedMap.groupBy TransitionRequest.partition candidates)[p]? with
      | none => simp [found] at h
      | some l =>
        rw [found, bucket p l found] at h
        obtain rfl := (mem_of_mem_chosen h).2
        exact h
    · intro h
      have mem := (mem_of_mem_chosen h).1
      have filled : request ∈ candidates.filter fun c ↦ c.partition = request.partition := by
        simpa using mem
      cases found : (OrderedMap.groupBy TransitionRequest.partition candidates)[request.partition]?
        with
      | none =>
        rw [← OrderedMap.getElem?_groupBy, found] at filled
        cases filled
      | some l =>
        refine ⟨request.partition, ?_, ?_⟩
        · rw [Std.ExtTreeSet.mem_toList, OrderedMap.mem_foldl_insert, Std.ExtTreeMap.mem_keys,
            OrderedMap.mem_iff]
          exact .inl ⟨l, found⟩
        · rw [found, bucket _ l found]
          exact h

end Selected

section LeaderStandby

variable {current : CurrentState} {live : BTreeSet InstanceId} {candidates : List TransitionRequest}
  {pending : List PendingTransition} {partition : PartitionId}

theorem stateBounds_leaderStandby (n : ℕ) :
    stateBounds leaderStandby n = (∅ : BTreeMap State ℕ).insert leader 1 := by
  obtain ⟨h1, h2, h3, h4, h5, h6⟩ := leaderStandby.distinct_pairs
  simp only [stateBounds, leaderStandby.statesByPriority_eq, List.foldl_cons, List.foldl_nil,
    StateModelDefinition.cardinalityFor, leaderStandby.cardinalities_eq,
    OrderedMap.getElem?_insert, h1, h2, h3, h4, h5, h6, if_true, if_false]

/-- Leaders of a partition: reported by a live instance or at an end of a pending transition. -/
def leaders (current : CurrentState) (live : BTreeSet InstanceId)
    (pending : List PendingTransition) (partition : PartitionId) : ℕ :=
  occupancy current live leaderStandby partition
    (pending.filter fun t ↦ t.partition = partition) leader

/-- Only promotions are bounded: at most one, none beside an existing leader, one if possible. -/
theorem chosen_spec :
    (∀ c ∈ candidates, c.partition = partition → c.targetState ≠ leader →
      c ∈ chosen current live leaderStandby candidates pending partition) ∧
    (∀ c ∈ chosen current live leaderStandby candidates pending partition,
      c.targetState = leader → leaders current live pending partition = 0) ∧
    (∀ c ∈ chosen current live leaderStandby candidates pending partition,
      ∀ d ∈ chosen current live leaderStandby candidates pending partition,
      c.targetState = leader → d.targetState = leader → c = d) ∧
    (leaders current live pending partition = 0 →
      ∀ c ∈ candidates, c.partition = partition → c.targetState = leader →
      ∃ d ∈ chosen current live leaderStandby candidates pending partition,
        d.targetState = leader) := by
  unfold chosen selectPartition
  simp only
  obtain ⟨picked, hpicked, hsub, hcount, hrest⟩ := foldl_selectCandidate
    (stateBounds leaderStandby live.size)
    ((OrderedMap.groupBy (transitionPriority leaderStandby)
      (candidates.filter fun c ↦ c.partition = partition)).toList.flatMap Prod.snd)
    (countStates current live leaderStandby (stateBounds leaderStandby live.size) partition
      (pending.filter fun t ↦ t.partition = partition)) []
  rw [hpicked, List.nil_append]
  have bound : (stateBounds leaderStandby live.size)[leader]? = some 1 := by
    simp [stateBounds_leaderStandby]
  have unbounded : ∀ s, s ≠ leader → (stateBounds leaderStandby live.size)[s]? = none := by
    intro s hs
    simp [stateBounds_leaderStandby, OrderedMap.getElem?_insert, hs]
  have candidate : ∀ c ∈ candidates, c.partition = partition → c ∈ picked ∨
      ∃ b, (stateBounds leaderStandby live.size)[c.targetState]? = some b ∧ _ := fun c hc hp ↦
    hrest c ((OrderedMap.mem_groupBy _ _ _).mpr (by simpa [hp] using hc))
  obtain ⟨htotal, hmax⟩ := hcount leader 1 bound
  rw [countOf_countStates ((OrderedMap.mem_iff _ _).mpr ⟨1, bound⟩), ← leaders] at htotal hmax
  refine ⟨fun c hc hp hlow ↦ ?_, fun c hc htop ↦ ?_, fun c hc d hd hctop hdtop ↦ ?_,
    fun hzero c hc hp htop ↦ ?_⟩
  · rcases candidate c hc hp with h | ⟨b, hb, -⟩
    · exact h
    · rw [unbounded _ hlow] at hb
      cases hb
  · have : 0 < picked.countP (·.targetState = leader) :=
      List.countP_pos_iff.mpr ⟨c, hc, by simpa using htop⟩
    omega
  · have few : (picked.filter (·.targetState = leader)).length ≤ 1 := by
      rw [← List.countP_eq_length_filter]
      omega
    have hc' : c ∈ picked.filter (·.targetState = leader) := by simp [hc, hctop]
    have hd' : d ∈ picked.filter (·.targetState = leader) := by simp [hd, hdtop]
    obtain ⟨only, honly⟩ := List.length_eq_one_iff.mp
      (le_antisymm few (List.length_pos_of_mem hc'))
    rw [honly, List.mem_singleton] at hc' hd'
    rw [hc', hd']
  · rcases candidate c hc hp with h | ⟨b, hb, hfull⟩
    · exact ⟨c, h, htop⟩
    · rw [htop, bound] at hb
      cases hb
      rw [htop] at hfull
      obtain ⟨d, hd, hdtop⟩ := List.countP_pos_iff.mp
        (show 0 < picked.countP (·.targetState = leader) by omega)
      exact ⟨d, hd, by simpa using hdtop⟩

end LeaderStandby

end Selection

end Clustodian
