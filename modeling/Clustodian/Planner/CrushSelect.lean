import Clustodian.Planner.CrushTree

namespace Clustodian

namespace TopologyTree

variable {α : Type}

/-- A node whose children are the choices of one selection, told apart by their names. -/
structure Level (tree : TopologyTree) (parent : ℕ) (nodeType : String) (name : ℕ → α) : Prop where
  inner : (tree.node parent).children ≠ []
  typed : ∀ child ∈ (tree.node parent).children, (tree.node child).nodeType = nodeType
  injective : ∀ left ∈ (tree.node parent).children, ∀ right ∈ (tree.node parent).children,
    name left = name right → left = right

/-- What a selection below a node draws from, by name. -/
def urn (tree : TopologyTree) (straws : List ℕ → List ℕ) (name : ℕ → α) (parent : ℕ)
    (input : BitVec 64) : Urn α where
  live := {item | ∃ child ∈ (tree.node parent).children,
    ¬ tree.isNodeUnavailable child ∧ name child = item}
  pick round :=
    match tree.chooseChild straws parent input round with
    | .ok child => name child
    | .error _ => name 0

/-- The names of a set of nodes. -/
def named (name : ℕ → α) (nodes : BTreeSet ℕ) : Set α := {item | ∃ node ∈ nodes, name node = item}

/-- The outcome of the loops is a draw. -/
def Drawn (tree : TopologyTree) (straws : List ℕ → List ℕ) (name : ℕ → α) (parent : ℕ)
    (input : BitVec 64) (selected : List ℕ) (excluded rejected : BTreeSet ℕ) (round left : ℕ)
    (outcome : Option ℕ × List SelectCall) : Prop :=
  (∀ node ∈ outcome.1, node ∈ (tree.node parent).children) ∧ ∃ rounds,
    (tree.urn straws name parent input).Draws {item | item ∈ selected.map name}
      (named name excluded) round (named name rejected) left (outcome.1.map name) rounds ∧
    outcome.2 = rounds.map (Prod.mk input)

section Naming

variable (name : ℕ → α)

theorem named_empty : named name ∅ = ∅ := by
  ext item
  simp [named]

theorem named_insert (nodes : BTreeSet ℕ) (node : ℕ) :
    named name (nodes.insert node) = insert (name node) (named name nodes) := by
  ext item
  simp only [named, OrderedMap.mem_insert, Set.mem_ofPred_eq, Set.mem_insert_iff]
  constructor
  · rintro ⟨other, rfl | mem, rfl⟩
    · exact .inl rfl
    · exact .inr ⟨other, mem, rfl⟩
  · rintro (rfl | ⟨other, mem, rfl⟩)
    · exact ⟨node, .inl rfl, rfl⟩
    · exact ⟨other, .inr mem, rfl⟩

theorem named_foldl (nodes : List ℕ) :
    named name (nodes.foldl (·.insert ·) ∅) = {item | item ∈ nodes.map name} := by
  ext item
  have members := OrderedMap.mem_foldl_insert nodes (∅ : BTreeSet ℕ)
  simp only [named, Set.mem_ofPred_eq, List.mem_map]
  refine exists_congr fun node ↦ and_congr_left fun _ ↦ (members node).trans ?_
  simp

end Naming

section Level

variable {tree : TopologyTree} {straws : List ℕ → List ℕ} {parent : ℕ} {nodeType : String}
  {name : ℕ → α} (level : tree.Level parent nodeType name)

include level

theorem Level.choose (straws : List ℕ → List ℕ) (input : BitVec 64) (round : ℕ) :
    ∃ child ∈ (tree.node parent).children,
      tree.chooseChild straws parent input round = .ok child ∧
      (tree.urn straws name parent input).pick round = name child := by
  obtain ⟨child, mem, chosen⟩ := chooseChild_mem straws input round level.inner
  refine ⟨child, mem, chosen, ?_⟩
  simp only [urn, chosen]

theorem Level.mem_list {child : ℕ} (mem : child ∈ (tree.node parent).children) {nodes : List ℕ}
    (within : ∀ node ∈ nodes, node ∈ (tree.node parent).children) :
    name child ∈ nodes.map name ↔ child ∈ nodes := by
  refine ⟨fun named ↦ ?_, List.mem_map_of_mem⟩
  obtain ⟨node, mem', eq⟩ := List.mem_map.mp named
  exact level.injective node (within node mem') child mem eq ▸ mem'

theorem Level.mem_named {child : ℕ} (mem : child ∈ (tree.node parent).children)
    {nodes : BTreeSet ℕ} (within : ∀ node ∈ nodes, node ∈ (tree.node parent).children) :
    name child ∈ named name nodes ↔ child ∈ nodes := by
  refine ⟨?_, fun h ↦ ⟨child, h, rfl⟩⟩
  rintro ⟨node, mem', eq⟩
  exact level.injective node (within node mem') child mem eq ▸ mem'

theorem Level.mem_live {child : ℕ} (mem : child ∈ (tree.node parent).children)
    (input : BitVec 64) :
    name child ∈ (tree.urn straws name parent input).live ↔ ¬ tree.isNodeUnavailable child := by
  refine ⟨?_, fun h ↦ ⟨child, mem, h, rfl⟩⟩
  rintro ⟨other, mem', available, eq⟩
  exact level.injective other mem' child mem eq ▸ available

/-- The elimination test is the library's. -/
theorem Level.eliminated {selected : List ℕ} {rejected : BTreeSet ℕ}
    (within : ∀ node ∈ selected, node ∈ (tree.node parent).children)
    (within' : ∀ node ∈ rejected, node ∈ (tree.node parent).children) (input : BitVec 64) :
    tree.allChildrenEliminated parent selected rejected ↔
      (tree.urn straws name parent input).Exhausted {item | item ∈ selected.map name}
        (named name rejected) := by
  constructor
  · rintro all item ⟨child, mem, available, rfl⟩
    rcases all child mem with gone | given | turnedDown
    · exact absurd gone available
    · exact .inl (List.mem_map_of_mem given)
    · exact .inr ⟨child, turnedDown, rfl⟩
  · intro exhausted child mem
    by_cases gone : tree.isNodeUnavailable child
    · exact .inl gone
    · rcases exhausted ((level.mem_live mem input).mpr gone) with given | turnedDown
      · exact .inr (.inl ((level.mem_list mem within).mp given))
      · exact .inr (.inr ((level.mem_named mem within').mp turnedDown))

section Node

variable {selected : List ℕ} {excluded rejected : BTreeSet ℕ}
  (given : ∀ node ∈ selected, node ∈ (tree.node parent).children)
  (barred : ∀ node ∈ excluded, node ∈ (tree.node parent).children)
  (turnedDown : ∀ node ∈ rejected, node ∈ (tree.node parent).children)

include given barred turnedDown

/-- The tests that a round makes, for the code and for the library. -/
theorem Level.round_cases (straws : List ℕ → List ℕ) (input : BitVec 64) (round : ℕ) :
    ∃ child ∈ (tree.node parent).children,
      tree.chooseChild straws parent input round = .ok child ∧
      (tree.urn straws name parent input).pick round = name child ∧
      ((child ∈ selected ∨ child ∈ excluded) ↔
        name child ∈ {item | item ∈ selected.map name} ∪ named name excluded) ∧
      (tree.isNodeUnavailable child ↔
        name child ∉ (tree.urn straws name parent input).live) ∧
      (∀ node ∈ rejected.insert child, node ∈ (tree.node parent).children) ∧
      (tree.allChildrenEliminated parent selected (rejected.insert child) ↔
        (tree.urn straws name parent input).Exhausted {item | item ∈ selected.map name}
          (insert (name child) (named name rejected))) := by
  obtain ⟨child, mem, chosen, picked⟩ := level.choose straws input round
  have within : ∀ node ∈ rejected.insert child, node ∈ (tree.node parent).children := by
    intro node mem'
    rcases (OrderedMap.mem_insert _ _ _).mp mem' with rfl | mem'
    · exact mem
    · exact turnedDown node mem'
  refine ⟨child, mem, chosen, picked, ?_, ?_, within, ?_⟩
  · exact (or_congr (level.mem_list mem given) (level.mem_named mem barred)).symm
  · rw [level.mem_live mem, not_not]
  · rw [level.eliminated given within input, named_insert]

/-- A round that proposes an available node which was not given out ends the loops. -/
theorem Level.selectNode_place {input : BitVec 64} {r failure : ℕ}
    (fresh : (tree.urn straws name parent input).pick (r + failure) ∉
      {item | item ∈ selected.map name} ∪ named name excluded)
    (alive : (tree.urn straws name parent input).pick (r + failure) ∈
      (tree.urn straws name parent input).live) (fuel loopbackCount : ℕ) :
    ∃ child ∈ (tree.node parent).children,
      name child = (tree.urn straws name parent input).pick (r + failure) ∧
      tree.selectNode straws parent input nodeType selected excluded r (fuel + 1) parent rejected
        failure loopbackCount = .ok (some child, [(input, r + failure)]) := by
  obtain ⟨child, mem, chosen, picked, taken, dead, _⟩ :=
    level.round_cases given barred turnedDown straws input (r + failure)
  refine ⟨child, mem, picked.symm, ?_⟩
  rw [picked] at fresh alive
  rw [selectNode, chosen]
  simp only [bind, Except.bind, if_neg (not_not_intro (level.typed child mem)),
    if_neg (mt taken.mp fresh), if_neg (fun gone ↦ dead.mp gone alive)]
  rfl

/-- A setback gives the replica up, or starts over with nothing rejected. -/
theorem Level.selectNode_setback {input : BitVec 64} {r failure : ℕ}
    (s : (tree.urn straws name parent input).Setback {item | item ∈ selected.map name}
      (named name excluded) (named name rejected) (r + failure)) (fuel loopbackCount : ℕ) :
    tree.selectNode straws parent input nodeType selected excluded r (fuel + 1) parent rejected
        failure loopbackCount =
      (if loopbackCount = maxLoopbackCount then .ok (none, [])
        else tree.selectNode straws parent input nodeType selected excluded r fuel parent ∅
          (failure + 1) (loopbackCount + 1)).map
        fun (out, calls) ↦ (out, (input, r + failure) :: calls) := by
  obtain ⟨child, mem, chosen, picked, taken, dead, _, exhausted⟩ :=
    level.round_cases given barred turnedDown straws input (r + failure)
  rw [Urn.Setback, picked] at s
  rw [selectNode, chosen]
  simp only [bind, Except.bind, if_neg (not_not_intro (level.typed child mem))]
  rcases s with ⟨given', all⟩ | ⟨fresh, gone⟩
  · rw [if_pos (taken.mpr given'), if_pos (exhausted.mpr all)]
    rfl
  · rw [if_neg (mt taken.mp fresh), if_pos (dead.mpr gone)]
    rfl

/-- A proposal that was given out before is turned down while something else is left. -/
theorem Level.selectNode_again {input : BitVec 64} {r failure : ℕ}
    (given' : (tree.urn straws name parent input).pick (r + failure) ∈
      {item | item ∈ selected.map name} ∪ named name excluded)
    (more : ¬ (tree.urn straws name parent input).Exhausted {item | item ∈ selected.map name}
      (insert ((tree.urn straws name parent input).pick (r + failure)) (named name rejected)))
    (fuel loopbackCount : ℕ) :
    ∃ child, named name (rejected.insert child) =
        insert ((tree.urn straws name parent input).pick (r + failure)) (named name rejected) ∧
      (∀ node ∈ rejected.insert child, node ∈ (tree.node parent).children) ∧
      tree.selectNode straws parent input nodeType selected excluded r (fuel + 1) parent rejected
          failure loopbackCount =
        (tree.selectNode straws parent input nodeType selected excluded r fuel parent
          (rejected.insert child) (failure + 1) loopbackCount).map
          fun (out, calls) ↦ (out, (input, r + failure) :: calls) := by
  obtain ⟨child, mem, chosen, picked, taken, _, within, exhausted⟩ :=
    level.round_cases given barred turnedDown straws input (r + failure)
  rw [picked] at given' more ⊢
  refine ⟨child, named_insert name rejected child, within, ?_⟩
  rw [selectNode, chosen]
  simp only [bind, Except.bind, if_neg (not_not_intro (level.typed child mem)),
    if_pos (taken.mpr given'), if_neg (mt exhausted.mp more)]
  rfl

/-- Every run of the loops that ends is a draw. -/
theorem Level.selectNode_ensures {loopbackCount : ℕ} (bound : loopbackCount ≤ maxLoopbackCount)
    (input : BitVec 64) (r fuel failure : ℕ) :
    Ensures (tree.selectNode straws parent input nodeType selected excluded r fuel parent rejected
      failure loopbackCount) (tree.Drawn straws name parent input selected excluded rejected
        (r + failure) (maxLoopbackCount - loopbackCount)) := by
  induction fuel generalizing rejected failure loopbackCount with
  | zero => exact rfl
  | succ fuel ih =>
    have setback (s : (tree.urn straws name parent input).Setback {item | item ∈ selected.map name}
        (named name excluded) (named name rejected) (r + failure)) :
        Ensures (tree.selectNode straws parent input nodeType selected excluded r (fuel + 1) parent
          rejected failure loopbackCount) (tree.Drawn straws name parent input selected excluded
            rejected (r + failure) (maxLoopbackCount - loopbackCount)) := by
      rw [level.selectNode_setback given barred turnedDown s]
      split
      · next last =>
        refine ⟨by simp, [r + failure], ?_, rfl⟩
        rw [last, Nat.sub_self]
        exact .escape s
      · next more =>
        refine (ih (by simp) (by omega) (failure + 1)).map fun (out, calls) spec ↦ ?_
        obtain ⟨inner, rounds, draw, rfl⟩ := spec
        refine ⟨inner, (r + failure) :: rounds, ?_, rfl⟩
        have left : maxLoopbackCount - loopbackCount =
            maxLoopbackCount - (loopbackCount + 1) + 1 := by omega
        rw [left]
        rw [named_empty] at draw
        exact .back s draw
    by_cases taken : (tree.urn straws name parent input).pick (r + failure) ∈
        {item | item ∈ selected.map name} ∪ named name excluded
    · by_cases all : (tree.urn straws name parent input).Exhausted {item | item ∈ selected.map name}
          (insert ((tree.urn straws name parent input).pick (r + failure)) (named name rejected))
      · exact setback (.inl ⟨taken, all⟩)
      · obtain ⟨child, names, within, eq⟩ :=
          level.selectNode_again given barred turnedDown taken all fuel loopbackCount
        rw [eq]
        refine (ih within bound (failure + 1)).map fun (out, calls) spec ↦ ?_
        obtain ⟨inner, rounds, draw, rfl⟩ := spec
        rw [names] at draw
        exact ⟨inner, (r + failure) :: rounds, .again taken all draw, rfl⟩
    · by_cases alive : (tree.urn straws name parent input).pick (r + failure) ∈
          (tree.urn straws name parent input).live
      · obtain ⟨child, mem, names, eq⟩ :=
          level.selectNode_place given barred turnedDown taken alive fuel loopbackCount
        rw [eq]
        refine ⟨?_, [r + failure], ?_, rfl⟩
        · rintro node ⟨⟩
          exact mem
        · rw [Option.map_some, names]
          exact .place taken alive
      · exact setback (.inr ⟨taken, alive⟩)

/-- With fuel for all its rounds, the loops give what the draw gives. -/
theorem Level.selectNode_complete {input : BitVec 64} {r round left : ℕ} {barrier : Set α}
    {found : Option α} {rounds : List ℕ}
    (draw : (tree.urn straws name parent input).Draws {item | item ∈ selected.map name}
      (named name excluded) round barrier left found rounds)
    {failure loopbackCount fuel : ℕ} (at_ : round = r + failure)
    (loops : left + loopbackCount = maxLoopbackCount) (same : named name rejected = barrier)
    (enough : rounds.length ≤ fuel) :
    ∃ out, tree.selectNode straws parent input nodeType selected excluded r fuel parent rejected
        failure loopbackCount = .ok (out, rounds.map (Prod.mk input)) ∧ out.map name = found := by
  obtain ⟨fuel, rfl⟩ : ∃ n, fuel = n + 1 := by
    have some_round : rounds.length ≠ 0 := by cases draw <;> simp
    exact ⟨fuel - 1, by omega⟩
  induction draw generalizing rejected failure loopbackCount fuel with
  | place fresh alive =>
    subst at_
    obtain ⟨child, mem, names, eq⟩ :=
      level.selectNode_place given barred turnedDown fresh alive fuel loopbackCount
    exact ⟨some child, eq, congrArg some names⟩
  | escape s =>
    subst at_ same
    rw [level.selectNode_setback given barred turnedDown s, if_pos (by omega)]
    exact ⟨none, rfl, rfl⟩
  | @back round barrier left found rounds s rest ih =>
    subst at_ same
    rw [level.selectNode_setback given barred turnedDown s, if_neg (by omega)]
    have some_round : rounds.length ≠ 0 := by cases rest <;> simp
    rw [List.length_cons] at enough
    obtain ⟨fuel, rfl⟩ : ∃ n, fuel = n + 1 := ⟨fuel - 1, by omega⟩
    have loops' : left + (loopbackCount + 1) = maxLoopbackCount := by omega
    obtain ⟨out, eq, names⟩ := ih (by simp) (Nat.add_assoc _ _ _) loops' (named_empty name) fuel
      (by omega)
    exact ⟨out, by rw [eq]; rfl, names⟩
  | @again round barrier left found rounds taken more rest ih =>
    subst at_ same
    obtain ⟨child, names', within, step⟩ :=
      level.selectNode_again given barred turnedDown taken more fuel loopbackCount
    have some_round : rounds.length ≠ 0 := by cases rest <;> simp
    rw [List.length_cons] at enough
    obtain ⟨fuel, rfl⟩ : ∃ n, fuel = n + 1 := ⟨fuel - 1, by omega⟩
    obtain ⟨out, eq, names⟩ := ih within (Nat.add_assoc _ _ _) loops names' fuel (by omega)
    exact ⟨out, by rw [step, eq]; rfl, names⟩

end Node

section Seats

variable {excluded : BTreeSet ℕ} (barred : ∀ node ∈ excluded, node ∈ (tree.node parent).children)

include barred

theorem Level.seats_ensures (input : BitVec 64) (fuel : ℕ) (seats selected : List ℕ)
    (calls : List SelectCall) (given : ∀ node ∈ selected, node ∈ (tree.node parent).children) :
    Ensures (seats.foldlM (tree.selectSeat straws fuel parent input nodeType excluded)
      (selected, calls)) fun outcome ↦
      (∀ node ∈ outcome.1, node ∈ (tree.node parent).children) ∧ ∃ rounds,
        Urn.Selects (tree.urn straws name parent input) (named name excluded) maxLoopbackCount
          seats (selected.map name) (outcome.1.map name) rounds ∧
        outcome.2 = calls ++ rounds.map (Prod.mk input) := by
  induction seats generalizing selected calls with
  | nil => exact ⟨given, [], .done _, (List.append_nil calls).symm⟩
  | cons r seats ih =>
    have draw : Ensures (tree.selectNode straws parent input nodeType selected excluded r fuel
        parent ∅ 0 0) (tree.Drawn straws name parent input selected excluded ∅ r
          maxLoopbackCount) :=
      level.selectNode_ensures given barred (by simp) (Nat.zero_le _) input r fuel 0
    have seat : Ensures (tree.selectSeat straws fuel parent input nodeType excluded
        (selected, calls) r) fun state ↦ ∃ out more, state = (selected ++ out.toList, calls ++ more) ∧
          tree.Drawn straws name parent input selected excluded ∅ r maxLoopbackCount (out, more) :=
      draw.bind fun (out, more) drawn ↦ ⟨out, more, rfl, drawn⟩
    rw [List.foldlM_cons]
    refine seat.bind fun state spec ↦ ?_
    obtain ⟨out, more, rfl, inner, rounds, drawn, rfl⟩ := spec
    have given' : ∀ node ∈ selected ++ out.toList, node ∈ (tree.node parent).children := by
      intro node mem
      exact (List.mem_append.mp mem).elim (given node) fun mem ↦ inner node (by simpa using mem)
    refine (ih _ _ given').mono fun outcome spec ↦ ?_
    obtain ⟨within, later, selects, calls'⟩ := spec
    refine ⟨within, rounds ++ later, ?_, ?_⟩
    · rw [named_empty] at drawn
      refine .seat drawn ?_
      rw [List.map_append, ← Option.toList_map] at selects
      exact selects
    · rw [calls', List.map_append, List.append_assoc]

theorem Level.seats_complete (input : BitVec 64) {seats selected : List ℕ} {result : List α}
    {rounds : List ℕ} {chosen : List α} (same : selected.map name = chosen)
    (selects : Urn.Selects (tree.urn straws name parent input) (named name excluded)
      maxLoopbackCount seats chosen result rounds)
    {fuel : ℕ} (enough : rounds.length ≤ fuel) (calls : List SelectCall)
    (given : ∀ node ∈ selected, node ∈ (tree.node parent).children) :
    ∃ nodes, seats.foldlM (tree.selectSeat straws fuel parent input nodeType excluded)
        (selected, calls) = .ok (nodes, calls ++ rounds.map (Prod.mk input)) ∧
      nodes.map name = result := by
  induction selects generalizing selected calls with
  | done chosen => exact ⟨selected, by rw [List.map_nil, List.append_nil]; rfl, same⟩
  | @seat r seats chosen result found rounds more draw _ ih =>
    subst same
    rw [List.length_append] at enough
    obtain ⟨out, eq, names⟩ := level.selectNode_complete given barred (by simp) draw
      (Nat.add_zero r).symm (Nat.add_zero _) (named_empty name) (show rounds.length ≤ fuel by omega)
    have inner : ∀ node ∈ out, node ∈ (tree.node parent).children := by
      have spec : Ensures (tree.selectNode straws parent input nodeType selected excluded r fuel
          parent ∅ 0 0) (tree.Drawn straws name parent input selected excluded ∅ r
            maxLoopbackCount) :=
        level.selectNode_ensures given barred (by simp) (Nat.zero_le _) input r fuel 0
      exact (spec.of_eq_ok eq).1
    have given' : ∀ node ∈ selected ++ out.toList, node ∈ (tree.node parent).children := by
      intro node mem
      exact (List.mem_append.mp mem).elim (given node) fun mem ↦ inner node (by simpa using mem)
    have same' : (selected ++ out.toList).map name = selected.map name ++ found.toList := by
      rw [List.map_append, ← names, Option.toList_map]
    obtain ⟨nodes, rest, names'⟩ := ih same' (by omega) (calls ++ rounds.map (Prod.mk input)) given'
    refine ⟨nodes, ?_, names'⟩
    rw [List.foldlM_cons, selectSeat, eq, List.map_append, ← List.append_assoc, ← rest]
    rfl

/-- A selection below one node is a pass over its seats. -/
theorem Level.selectNodesOfType_ensures (input : BitVec 64) (fuel count : ℕ) :
    Ensures (tree.selectNodesOfType straws fuel parent input count nodeType excluded) fun outcome ↦
      (∀ node ∈ outcome.1, node ∈ (tree.node parent).children) ∧ ∃ rounds,
        Urn.Selects (tree.urn straws name parent input) (named name excluded) maxLoopbackCount
          (List.range' 1 count) [] (outcome.1.map name) rounds ∧
        outcome.2 = rounds.map (Prod.mk input) :=
  level.seats_ensures barred input fuel _ [] [] (by simp)

theorem Level.selectNodesOfType_complete (input : BitVec 64) {count : ℕ} {result : List α}
    {rounds : List ℕ}
    (selects : Urn.Selects (tree.urn straws name parent input) (named name excluded)
      maxLoopbackCount (List.range' 1 count) [] result rounds)
    {fuel : ℕ} (enough : rounds.length ≤ fuel) :
    ∃ nodes, tree.selectNodesOfType straws fuel parent input count nodeType excluded =
        .ok (nodes, rounds.map (Prod.mk input)) ∧ nodes.map name = result :=
  level.seats_complete barred input rfl selects enough [] (by simp)

end Seats

end Level

end TopologyTree

end Clustodian
