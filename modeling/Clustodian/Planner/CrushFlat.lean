import Clustodian.Planner.CrushAttempts

/-! Flat topologies: every instance is a child of the root. -/

namespace Clustodian

namespace TopologyTree

section Build

variable (live : BTreeSet InstanceId) (topology : CrushTopology)

/-- The leaf of an instance. -/
def leafOf (item : CrushInstance) : Node where
  name := item.instance_.asStr
  nodeType := topology.endNodeType
  id := Crush.sha1FirstU32 item.instance_.asStr
  weight := if item.instance_ ∈ live then defaultNodeWeight else 0
  failed := !live.contains item.instance_
  children := []
  instance_ := some item.instance_

/-- What a build has made of the instances so far. -/
structure IsFlat (tree : TopologyTree) (instances : List CrushInstance) : Prop where
  root : tree.root = 0
  mode : tree.topology = topology
  length : tree.nodes.length = instances.length + 1
  children : (tree.node 0).children = List.range' 1 instances.length
  leaf : ∀ i item, instances[i]? = some item → tree.node (i + 1) = leafOf live topology item

/-- A new node below another one, with the weight that it adds to the nodes above it. -/
def attach (tree : TopologyTree) (above : List ℕ) (parent : ℕ) (node : Node) : TopologyTree :=
  (above.foldl (fun (tree : TopologyTree) index ↦ tree.addWeight index node.weight)
    { tree with nodes := tree.nodes ++ [node] }).pushChild parent tree.nodes.length

variable {live topology} {tree : TopologyTree}

theorem modify_snoc (nodes : List Node) (node : Node) (f : Node → Node) :
    (nodes ++ [node]).modify nodes.length f = nodes ++ [f node] := by
  rw [List.modify_eq_take_cons_drop (by simp)]
  simp

theorem addWeights_frame (weight : ℕ) (above : List ℕ) (tree : TopologyTree) :
    let tree' := above.foldl (fun (tree : TopologyTree) index ↦ tree.addWeight index weight) tree
    tree'.root = tree.root ∧ tree'.topology = tree.topology ∧
      tree'.nodes.length = tree.nodes.length := by
  induction above generalizing tree with
  | nil => exact ⟨rfl, rfl, rfl⟩
  | cons first above ih =>
    obtain ⟨root, topology, length⟩ := ih (tree.addWeight first weight)
    exact ⟨root, topology, length.trans (length_modify ..)⟩

theorem node_addWeights (weight : ℕ) (above : List ℕ) (tree : TopologyTree)
    (bound : ∀ index ∈ above, index < tree.nodes.length) (index : ℕ) :
    (above.foldl (fun (tree : TopologyTree) index ↦ tree.addWeight index weight) tree).node index =
      { tree.node index with
        weight := (tree.node index).weight + above.count index * weight } := by
  induction above generalizing tree with
  | nil => simp
  | cons first above ih =>
    have inside : first < tree.nodes.length := bound first List.mem_cons_self
    have bound' : ∀ index ∈ above, index < (tree.addWeight first weight).nodes.length := by
      intro index mem
      rw [addWeight, length_modify]
      exact bound index (List.mem_cons_of_mem _ mem)
    rw [List.foldl_cons, ih _ bound', addWeight, node_modify _ _ inside]
    split
    · next same =>
      subst same
      rw [List.count_cons_self]
      simp only [Node.mk.injEq, true_and, and_true]
      ring
    · next other => rw [List.count_cons_of_ne (Ne.symm other)]

section Attach

variable {above : List ℕ} {parent : ℕ} {node : Node}

@[simp] theorem root_attach : (tree.attach above parent node).root = tree.root :=
  (addWeights_frame _ _ _).1

@[simp] theorem topology_attach : (tree.attach above parent node).topology = tree.topology :=
  (addWeights_frame _ _ _).2.1

@[simp] theorem length_attach :
    (tree.attach above parent node).nodes.length = tree.nodes.length + 1 := by
  rw [attach, pushChild, length_modify, (addWeights_frame _ _ _).2.2, List.length_append,
    List.length_singleton]

/-- The nodes above the new one get its weight, and one of them a child more. -/
theorem node_attach (bound : ∀ index ∈ above, index < tree.nodes.length)
    (below : parent < tree.nodes.length) (index : ℕ) :
    (tree.attach above parent node).node index =
      if index = tree.nodes.length then node
      else { tree.node index with
        weight := (tree.node index).weight + above.count index * node.weight
        children := (tree.node index).children ++
          if index = parent then [tree.nodes.length] else [] } := by
  have grown : ({ tree with nodes := tree.nodes ++ [node] } : TopologyTree).nodes.length =
      tree.nodes.length + 1 := by
    rw [List.length_append, List.length_singleton]
  have weights := node_addWeights node.weight above
    { tree with nodes := tree.nodes ++ [node] } fun index mem ↦ by
      have := bound index mem
      omega
  have apart : tree.nodes.length ∉ above := fun mem ↦ (bound _ mem).false
  rw [attach, pushChild, node_modify _ _ (by rw [(addWeights_frame _ _ _).2.2]; omega), weights, weights,
    node_snoc, node_snoc]
  by_cases new : index = tree.nodes.length
  · subst new
    rw [if_neg below.ne', if_pos rfl, if_pos rfl, List.count_eq_zero_of_not_mem apart]
    simp
  · rw [if_neg new, if_neg new]
    by_cases same : index = parent
    · subst same
      rw [if_pos rfl, if_neg new, if_pos rfl]
    · rw [if_neg same, if_neg same, List.append_nil]

end Attach

theorem addFlatLeaf_eq (item : CrushInstance) : addFlatLeaf live topology tree item =
    tree.attach (if item.instance_ ∈ live then [tree.root] else []) tree.root
      (leafOf live topology item) := by
  unfold addFlatLeaf attach
  by_cases alive : item.instance_ ∈ live
  · have contains : live.contains item.instance_ = true := Std.ExtTreeSet.contains_iff_mem.mpr alive
    simp only [contains, if_true, alive, addNode, setWeight, modify, leafOf, modify_snoc]
    rfl
  · have contains : live.contains item.instance_ = false := by
      rw [Bool.eq_false_iff, ne_eq, Std.ExtTreeSet.contains_iff_mem]
      exact alive
    simp [contains, alive, addNode, leafOf]

theorem isFlat_addFlatLeaf {instances : List CrushInstance} (flat : IsFlat live topology tree instances)
    (item : CrushInstance) :
    IsFlat live topology (addFlatLeaf live topology tree item) (instances ++ [item]) := by
  have bound : ∀ index ∈ if item.instance_ ∈ live then [tree.root] else [],
      index < tree.nodes.length := by
    intro index mem
    split at mem
    · rw [List.mem_singleton.mp mem, flat.root, flat.length]
      omega
    · cases mem
  have below : tree.root < tree.nodes.length := by
    rw [flat.root, flat.length]
    omega
  rw [addFlatLeaf_eq]
  constructor
  · rw [root_attach, flat.root]
  · rw [topology_attach, flat.mode]
  · rw [length_attach, flat.length, List.length_append, List.length_singleton]
  · rw [node_attach bound below, if_neg (by rw [flat.length]; omega), flat.root, if_pos rfl,
      flat.children, flat.length, List.length_append, List.length_singleton,
      List.range'_concat, Nat.one_mul, Nat.add_comm 1]
  · intro i other found
    rw [node_attach bound below]
    by_cases last : i = instances.length
    · subst last
      rw [List.getElem?_append_right le_rfl, Nat.sub_self] at found
      rw [if_pos flat.length.symm, ← Option.some.inj found]
    · have earlier : i < instances.length := by
        have inside := (List.getElem?_eq_some_iff.mp found).1
        rw [List.length_append, List.length_singleton] at inside
        omega
      rw [List.getElem?_append_left earlier] at found
      have apart : i + 1 ∉ if item.instance_ ∈ live then [tree.root] else [] := by
        rw [flat.root]
        split
        · simp
        · simp
      have old : ¬i + 1 = tree.nodes.length := by
        rw [flat.length]
        omega
      have inner : ¬i + 1 = tree.root := by
        rw [flat.root]
        omega
      rw [if_neg old, List.count_eq_zero_of_not_mem apart, if_neg inner, Nat.zero_mul,
        List.append_nil, flat.leaf i other found]
      rfl

theorem isFlat_build (flat : topology.Flat) (instances : List CrushInstance) :
    IsFlat live topology (build live topology instances) instances := by
  have run (tree : TopologyTree) (zones : BTreeMap String ℕ) (instances : List CrushInstance) :
      instances.foldl (fun (state : TopologyTree × BTreeMap String ℕ) item ↦
        if topology.faultZoneType = topology.endNodeType then
          (addFlatLeaf live topology state.1 item, state.2)
        else addZoneLeaf live topology state.1 state.2 item) (tree, zones) =
      (instances.foldl (addFlatLeaf live topology) tree, zones) := by
    induction instances generalizing tree with
    | nil => rfl
    | cons item instances ih =>
      rw [List.foldl_cons, if_pos flat, ih]
      rfl
  have start : IsFlat live topology { (addNode ⟨[], 0, topology⟩ "root" "ROOT" none false).1 with
      root := 0 } [] := by
    refine ⟨rfl, rfl, rfl, rfl, fun i item found ↦ ?_⟩
    rw [List.getElem?_nil] at found
    cases found
  change IsFlat live topology (instances.foldl _ (_, _)).1 instances
  rw [run]
  induction instances using List.reverseRecOn with
  | nil => exact start
  | append_singleton instances item ih =>
    rw [List.foldl_append]
    exact isFlat_addFlatLeaf ih item

end Build

section Children

variable {live : BTreeSet InstanceId} {topology : CrushTopology} {tree : TopologyTree}
  {instances : List CrushInstance}

theorem IsFlat.child (flat : IsFlat live topology tree instances) {index : ℕ}
    (mem : index ∈ (tree.node tree.root).children) :
    ∃ i item, instances[i]? = some item ∧ index = i + 1 ∧ tree.node index = leafOf live topology item := by
  rw [flat.root, flat.children, List.mem_range'_1] at mem
  obtain ⟨i, rfl⟩ : ∃ i, index = i + 1 := ⟨index - 1, by omega⟩
  have inside : i < instances.length := by omega
  have found : instances[i]? = some instances[i] := List.getElem?_eq_getElem inside
  exact ⟨i, instances[i], found, rfl, flat.leaf i _ found⟩

theorem IsFlat.isNodeUnavailable {item : CrushInstance} {index : ℕ}
    (leaf : tree.node index = leafOf live topology item) :
    tree.isNodeUnavailable index ↔ item.instance_ ∉ live := by
  unfold TopologyTree.isNodeUnavailable
  rw [leaf]
  by_cases alive : item.instance_ ∈ live
  · have contains : live.contains item.instance_ = true := Std.ExtTreeSet.contains_iff_mem.mpr alive
    simp [leafOf, alive, contains, defaultNodeWeight]
  · simp [leafOf, alive]

/-- The instances are the children of the root, told apart by their names. -/
theorem IsFlat.level (flat : IsFlat live topology tree instances) (some_ : instances ≠ [])
    (nodup : (instances.map (·.instance_)).Nodup) :
    tree.Level tree.root topology.endNodeType tree.instanceOf where
  inner := by
    rw [flat.root, flat.children]
    cases instances with
    | nil => exact absurd rfl some_
    | cons item instances => simp
  typed child mem := by
    obtain ⟨i, item, -, -, leaf⟩ := flat.child mem
    rw [leaf]
    rfl
  injective left hl right hr same := by
    obtain ⟨i, item, found, rfl, leaf⟩ := flat.child hl
    obtain ⟨j, item', found', rfl, leaf'⟩ := flat.child hr
    rw [instanceOf, instanceOf, leaf, leaf'] at same
    have inside := (List.getElem?_eq_some_iff.mp found).1
    have at_ : (instances.map (·.instance_))[i]? = (instances.map (·.instance_))[j]? := by
      rw [List.getElem?_map, List.getElem?_map, found, found']
      exact same
    rw [List.getElem?_inj (by simpa using inside) nodup |>.mp at_]

/-- What can be given out are the live instances. -/
theorem IsFlat.live_urn (flat : IsFlat live topology tree instances)
    (known : ∀ i ∈ live, i ∈ instances.map (·.instance_)) (straws : List ℕ → List ℕ)
    (input : BitVec 64) :
    (tree.urn straws tree.instanceOf tree.root input).live = {item | ∃ i ∈ live, some i = item} := by
  ext item
  constructor
  · rintro ⟨child, mem, available, rfl⟩
    obtain ⟨i, item, found, -, leaf⟩ := flat.child mem
    rw [IsFlat.isNodeUnavailable leaf, not_not] at available
    exact ⟨item.instance_, available, by rw [instanceOf, leaf]; rfl⟩
  · rintro ⟨i, alive, rfl⟩
    obtain ⟨item, mem, rfl⟩ := List.mem_map.mp (known i alive)
    obtain ⟨k, inside, rfl⟩ := List.getElem_of_mem mem
    have leaf := flat.leaf k _ (List.getElem?_eq_getElem inside)
    refine ⟨k + 1, ?_, ?_, ?_⟩
    · rw [flat.root, flat.children, List.mem_range'_1]
      omega
    · rw [IsFlat.isNodeUnavailable leaf, not_not]
      exact alive
    · rw [instanceOf, leaf]
      rfl

end Children

end TopologyTree

section Straws

/-- The straw of a child of the one weight that live instances have. -/
def unitStraw (weight : ℕ) : ℕ := if weight = 0 then 0 else 65536

/-- Straw lengths of live and lost instances. -/
def UniformStraws (straws : List ℕ → List ℕ) : Prop :=
  ∀ weights : List ℕ, weights.Pairwise (· ≥ ·) → (∀ w ∈ weights, w = 0 ∨ w = defaultNodeWeight) →
    straws weights = weights.map unitStraw

variable {ops : FloatOps}

theorem strawLoop_zeros (state : StrawState ops) {weights : List ℕ} (zeros : ∀ w ∈ weights, w = 0) :
    strawLoop ops state weights = weights.map unitStraw := by
  induction weights with
  | nil => rfl
  | cons weight weights ih =>
    obtain rfl := zeros weight List.mem_cons_self
    rw [strawLoop, ih fun w mem ↦ zeros w (List.mem_cons_of_mem _ mem)]
    rfl

/-- While the weight stays the same, so does the state of the loop. -/
theorem strawLoop_uniform (exact : ops.Exact) {state : StrawState ops}
    (unit : state.straw = ops.ofNat 1) {weights : List ℕ} (descending : weights.Pairwise (· ≥ ·))
    (uniform : ∀ w ∈ weights, w = 0 ∨ w = defaultNodeWeight) :
    strawLoop ops state weights = weights.map unitStraw := by
  induction weights with
  | nil => rfl
  | cons weight weights ih =>
    obtain ⟨below, rest⟩ := List.pairwise_cons.mp descending
    have uniform' : ∀ w ∈ weights, w = 0 ∨ w = defaultNodeWeight :=
      fun w mem ↦ uniform w (List.mem_cons_of_mem _ mem)
    have later := ih rest uniform'
    rcases uniform weight List.mem_cons_self with rfl | rfl
    · rw [strawLoop, later]
      rfl
    have length : ops.toU64 (ops.mul state.straw (ops.ofNat 65536)) = 65536 := by
      rw [unit, exact.toU64_unit]
    rw [defaultNodeWeight, strawLoop.eq_def]
    dsimp only
    rw [length]
    cases weights with
    | nil => rfl
    | cons next weights =>
      dsimp only
      rcases uniform' next List.mem_cons_self with rfl | rfl
      · -- the live instances are through
        have zeros : ∀ w ∈ 0 :: weights, w = 0 := by
          intro w mem
          rcases List.mem_cons.mp mem with rfl | mem
          · rfl
          · exact Nat.le_zero.mp ((List.pairwise_cons.mp rest).1 w mem)
        rw [strawLoop_zeros _ zeros, strawLoop_zeros _ zeros, ite_self]
        rfl
      · have same : ops.beq (ops.ofNat defaultNodeWeight) (ops.ofNat (999 + 1)) = true :=
          exact.beq_self _
        rw [if_pos same, later]
        rfl

theorem uniformStraws_strawLengths (exact : ops.Exact) : UniformStraws (strawLengths ops) :=
  fun _ descending uniform ↦ strawLoop_uniform exact rfl descending uniform

end Straws

section Standing

variable (live : BTreeSet InstanceId) (ids : List InstanceId)

/-- What a round gives an instance. -/
def pointsOf (input : BitVec 64) (round : ℕ) (i : InstanceId) : ℕ :=
  (Crush.jenkinsHashThree input (Crush.sha1FirstU32 i.asStr) (.ofNat 64 round) &&& 0xffff).toNat *
    if i ∈ live then 65536 else 0

/-- The bucket of an instance in a hash map of all of them. -/
def bucketOf (i : InstanceId) : ℕ :=
  Crush.javaHashMapBucket i.asStr (Crush.javaHashMapCapacity ids.length)

/-- The order in which the scores are compared: by bucket, then live instances before the others,
then in the order of the slice. -/
def Ahead (i j : InstanceId) : Prop :=
  bucketOf ids i < bucketOf ids j ∨ bucketOf ids i = bucketOf ids j ∧
    (i ∈ live ∧ j ∉ live ∨ (i ∈ live ↔ j ∈ live) ∧ ids.idxOf i < ids.idxOf j)

/-- The instance that wins a round. -/
def WinsRound (input : BitVec 64) (round : ℕ) (i : InstanceId) : Prop :=
  i ∈ ids ∧ ∀ j ∈ ids, j ≠ i →
    pointsOf live input round j < pointsOf live input round i ∨
      pointsOf live input round j = pointsOf live input round i ∧ Ahead live ids i j

variable {live ids} {input : BitVec 64} {round : ℕ} {i j : InstanceId}

theorem Ahead.asymm (h : Ahead live ids i j) (h' : Ahead live ids j i) : False := by
  rcases h with lt | ⟨eq, h⟩
  · rcases h' with lt' | ⟨eq', _⟩
    · exact lt.asymm lt'
    · exact lt.ne' eq'
  · rcases h' with lt' | ⟨_, h'⟩
    · exact lt'.ne' eq
    · rcases h with ⟨alive, dead⟩ | ⟨same, lt⟩
      · rcases h' with ⟨alive', _⟩ | ⟨same', _⟩
        · exact dead alive'
        · exact dead (same'.mpr alive)
      · rcases h' with ⟨alive', dead'⟩ | ⟨_, lt'⟩
        · exact dead' (same.mpr alive')
        · exact lt.asymm lt'

theorem WinsRound.unique (h : WinsRound live ids input round i)
    (h' : WinsRound live ids input round j) : i = j := by
  by_contra other
  rcases h.2 j h'.1 (Ne.symm other) with lower | ⟨tied, ahead⟩
  · rcases h'.2 i h.1 other with lower' | ⟨tied', _⟩
    · exact lower.asymm lower'
    · exact lower.ne' tied'
  · rcases h'.2 i h.1 other with lower' | ⟨_, ahead'⟩
    · exact lower'.ne' tied
    · exact ahead.asymm ahead'

end Standing

namespace TopologyTree

section Pick

variable {tree : TopologyTree} {straws : List ℕ → List ℕ} {parent : ℕ}

theorem descending_sortedChildren :
    ((tree.sortedChildren parent).map fun child ↦ (tree.node child).weight).Pairwise (· ≥ ·) := by
  have : Std.Total (fun a b : ℕ ↦ (tree.node b).weight ≤ (tree.node a).weight) :=
    ⟨fun a b ↦ le_total _ _⟩
  have : IsTrans ℕ (fun a b : ℕ ↦ (tree.node b).weight ≤ (tree.node a).weight) :=
    ⟨fun a b c ab bc ↦ bc.trans ab⟩
  exact List.pairwise_map.mpr (List.pairwise_insertionSort _ _)

/-- The entries when a length depends on the weight of its child only. -/
theorem strawEntries_eq {length : ℕ → ℕ}
    (lengths : straws ((tree.sortedChildren parent).map fun child ↦ (tree.node child).weight) =
      ((tree.sortedChildren parent).map fun child ↦ (tree.node child).weight).map length) :
    tree.strawEntries straws parent =
      ((tree.sortedChildren parent).map fun child ↦
        (child, length (tree.node child).weight)).insertionSort fun left right ↦
          Crush.javaHashMapBucket (tree.node left.1).name
              (Crush.javaHashMapCapacity (tree.node parent).children.length) ≤
            Crush.javaHashMapBucket (tree.node right.1).name
              (Crush.javaHashMapCapacity (tree.node parent).children.length) := by
  have entries : ((tree.sortedChildren parent).zipIdx.map fun entry ↦
      (entry.1, (((tree.sortedChildren parent).map fun child ↦
        (tree.node child).weight).map length).getD entry.2 0)) =
      (tree.sortedChildren parent).map fun child ↦ (child, length (tree.node child).weight) := by
    refine List.ext_getElem (by simp) fun index inside inside' ↦ ?_
    rw [List.getElem_map, List.getElem_map, List.getElem_zipIdx]
    rw [List.length_map] at inside'
    simp [inside']
  have size : (tree.sortedChildren parent).length = (tree.node parent).children.length :=
    perm_sortedChildren.length_eq
  rw [strawEntries, lengths]
  dsimp only
  rw [List.length_map, List.length_zipIdx, size, ← entries]

/-- The children of a node in the order of their scores' comparison. -/
theorem pairwise_strawEntries {length : ℕ → ℕ}
    (lengths : straws ((tree.sortedChildren parent).map fun child ↦ (tree.node child).weight) =
      ((tree.sortedChildren parent).map fun child ↦ (tree.node child).weight).map length)
    (ascending : (tree.node parent).children.Pairwise (· < ·)) :
    (tree.strawEntries straws parent).Pairwise fun left right ↦
      Crush.javaHashMapBucket (tree.node left.1).name
          (Crush.javaHashMapCapacity (tree.node parent).children.length) <
        Crush.javaHashMapBucket (tree.node right.1).name
          (Crush.javaHashMapCapacity (tree.node parent).children.length) ∨
      Crush.javaHashMapBucket (tree.node left.1).name
          (Crush.javaHashMapCapacity (tree.node parent).children.length) =
        Crush.javaHashMapBucket (tree.node right.1).name
          (Crush.javaHashMapCapacity (tree.node parent).children.length) ∧
        ((tree.node right.1).weight < (tree.node left.1).weight ∨
          (tree.node left.1).weight = (tree.node right.1).weight ∧ left.1 < right.1) := by
  rw [strawEntries_eq lengths]
  apply Greedy.pairwise_insertionSort_of_pairwise
  rw [List.pairwise_map]
  exact @Greedy.pairwise_insertionSort_of_pairwise ℕ ℕᵒᵈ _
    (fun child ↦ OrderDual.toDual (tree.node child).weight) _ _ ascending

/-- A child's straw depends on its weight only. -/
theorem straw_of_mem {length : ℕ → ℕ}
    (lengths : straws ((tree.sortedChildren parent).map fun child ↦ (tree.node child).weight) =
      ((tree.sortedChildren parent).map fun child ↦ (tree.node child).weight).map length)
    {entry : ℕ × ℕ} (mem : entry ∈ tree.strawEntries straws parent) :
    entry.1 ∈ (tree.node parent).children ∧ entry.2 = length (tree.node entry.1).weight := by
  rw [strawEntries_eq lengths, List.mem_insertionSort] at mem
  obtain ⟨child, sorted, rfl⟩ := List.mem_map.mp mem
  exact ⟨perm_sortedChildren.mem_iff.mp sorted, rfl⟩

theorem score_eq_of_straw_le {entry : ℕ × ℕ} (le : entry.2 ≤ 65536) (input : BitVec 64)
    (round : ℕ) : tree.score entry input round = tree.scoreHash entry.1 input round * entry.2 := by
  have hash : tree.scoreHash entry.1 input round ≤ 65535 := by
    unfold scoreHash
    rw [BitVec.toNat_and]
    exact Nat.and_le_right
  have product := Nat.mul_le_mul hash le
  exact Nat.mod_eq_of_lt (by omega)

/-- Choices come back after as many rounds as a word has values. -/
theorem periodic_pick {α : Type} (name : ℕ → α) (input : BitVec 64) :
    Function.Periodic (tree.urn straws name parent input).pick (2 ^ 32) := by
  intro round
  have scores (entry : ℕ × ℕ) :
      tree.score entry input (round + 2 ^ 32) = tree.score entry input round := by
    rw [score, scoreHash, Crush.jenkinsHashThree_add_period]
    rfl
  have same : tree.chooseChild straws parent input (round + 2 ^ 32) =
      tree.chooseChild straws parent input round := by
    unfold chooseChild
    simp only [scores]
  simp only [urn, same]

variable {live : BTreeSet InstanceId} {topology : CrushTopology} {instances : List CrushInstance}

/-- What a child of the root in a flat topology stands for. -/
theorem IsFlat.standing (flat : IsFlat live topology tree instances)
    (nodup : (instances.map (·.instance_)).Nodup) {child : ℕ}
    (mem : child ∈ (tree.node tree.root).children) :
    ∃ i ∈ instances.map (·.instance_), tree.instanceOf child = some i ∧
      (tree.node child).name = i.asStr ∧ (tree.node child).id = Crush.sha1FirstU32 i.asStr ∧
      (tree.node child).weight = (if i ∈ live then defaultNodeWeight else 0) ∧
      child = (instances.map (·.instance_)).idxOf i + 1 := by
  obtain ⟨k, item, found, rfl, leaf⟩ := flat.child mem
  obtain ⟨inside, eq⟩ := List.getElem?_eq_some_iff.mp found
  have inside' : k < (instances.map (·.instance_)).length := by rwa [List.length_map]
  have at_ : (instances.map (·.instance_))[k] = item.instance_ := by rw [List.getElem_map, eq]
  refine ⟨item.instance_, ?_, ?_, ?_, ?_, ?_, ?_⟩
  · exact at_ ▸ List.getElem_mem inside'
  · rw [instanceOf, leaf]
    rfl
  · rw [leaf]
    rfl
  · rw [leaf]
    rfl
  · rw [leaf]
    rfl
  · rw [← at_, nodup.idxOf_getElem]

theorem IsFlat.lengths (flat : IsFlat live topology tree instances)
    (uniform : UniformStraws straws) :
    straws ((tree.sortedChildren tree.root).map fun child ↦ (tree.node child).weight) =
      ((tree.sortedChildren tree.root).map fun child ↦ (tree.node child).weight).map unitStraw := by
  refine uniform _ descending_sortedChildren fun w mem ↦ ?_
  obtain ⟨child, sorted, rfl⟩ := List.mem_map.mp mem
  obtain ⟨k, item, -, -, leaf⟩ := flat.child (perm_sortedChildren.mem_iff.mp sorted)
  rw [leaf, leafOf]
  dsimp only
  split
  · exact .inr rfl
  · exact .inl rfl

theorem IsFlat.exists_entry (flat : IsFlat live topology tree instances)
    (straws : List ℕ → List ℕ) {i : InstanceId} (known : i ∈ instances.map (·.instance_)) :
    ∃ entry ∈ tree.strawEntries straws tree.root, tree.instanceOf entry.1 = some i := by
  obtain ⟨item, mem, rfl⟩ := List.mem_map.mp known
  obtain ⟨k, inside, rfl⟩ := List.getElem_of_mem mem
  have child : k + 1 ∈ (tree.node tree.root).children := by
    rw [flat.root, flat.children, List.mem_range'_1]
    omega
  obtain ⟨entry, sorted, eq⟩ := List.mem_map.mp ((perm_strawEntries straws).mem_iff.mpr child)
  refine ⟨entry, sorted, ?_⟩
  rw [eq, instanceOf, flat.leaf k _ (List.getElem?_eq_getElem inside)]
  rfl

/-- The child that a round chooses is the one whose instance wins it. -/
theorem IsFlat.exists_winsRound (flat : IsFlat live topology tree instances)
    (some_ : instances ≠ []) (nodup : (instances.map (·.instance_)).Nodup)
    (uniform : UniformStraws straws) (input : BitVec 64) (round : ℕ) :
    ∃ i, (tree.urn straws tree.instanceOf tree.root input).pick round = some i ∧
      WinsRound live (instances.map (·.instance_)) input round i := by
  have lengths := flat.lengths uniform
  have inner := (flat.level some_ nodup).inner
  have ascending : (tree.node tree.root).children.Pairwise (· < ·) := by
    rw [flat.root, flat.children]
    exact List.pairwise_lt_range'
  have size : (tree.node tree.root).children.length = (instances.map (·.instance_)).length := by
    rw [flat.root, flat.children, List.length_range', List.length_map]
  obtain ⟨before, best, after, split, chosen, lower, upper⟩ :=
    chooseChild_spec straws input round inner
  have ordered := pairwise_strawEntries lengths ascending
  rw [split] at ordered
  have entry {entry : ℕ × ℕ} (mem : entry ∈ before ++ best :: after) :
      ∃ i, tree.instanceOf entry.1 = some i ∧ i ∈ instances.map (·.instance_) ∧
        tree.score entry input round = pointsOf live input round i ∧
        (tree.node entry.1).name = i.asStr ∧
        (tree.node entry.1).weight = (if i ∈ live then defaultNodeWeight else 0) ∧
        entry.1 = (instances.map (·.instance_)).idxOf i + 1 := by
    rw [← split] at mem
    obtain ⟨mem, straw⟩ := straw_of_mem lengths mem
    obtain ⟨i, known, named, name, id, weight, position⟩ := flat.standing nodup mem
    refine ⟨i, named, known, ?_, name, weight, position⟩
    have short : entry.2 ≤ 65536 := by
      rw [straw, unitStraw]
      split <;> omega
    rw [score_eq_of_straw_le short, scoreHash, id, straw, weight, pointsOf]
    by_cases alive : i ∈ live
    · rw [if_pos alive, if_pos alive]
      rfl
    · rw [if_neg alive, if_neg alive]
      rfl
  obtain ⟨i, named, known, points, name, weight, position⟩ :=
    entry (List.mem_append_right _ List.mem_cons_self)
  refine ⟨i, ?_, known, fun j mem other ↦ ?_⟩
  · simp only [urn, chosen, named]
  obtain ⟨rival, sorted, rivals⟩ := flat.exists_entry straws mem
  rw [split] at sorted
  obtain ⟨j', named', -, points', name', weight', position'⟩ := entry sorted
  obtain rfl : j' = j := Option.some.inj (named'.symm.trans rivals)
  rw [← points, ← points']
  rcases List.mem_append.mp sorted with earlier | later
  · exact .inl (lower rival earlier)
  rcases List.mem_cons.mp later with rfl | later
  · exact absurd (Option.some.inj (named'.symm.trans named)) other
  rcases (upper rival later).lt_or_eq with less | tied
  · exact .inl less
  · have first := (List.pairwise_cons.mp (List.pairwise_append.mp ordered).2.1).1 rival later
    rw [name, name', size, weight, weight', position, position'] at first
    refine .inr ⟨tied, first.imp_right (And.imp_right fun order ↦ ?_)⟩
    by_cases alive : i ∈ live
    · by_cases alive' : j' ∈ live
      · rw [if_pos alive, if_pos alive'] at order
        exact .inr ⟨iff_of_true alive alive', by omega⟩
      · exact .inl ⟨alive, alive'⟩
    · by_cases alive' : j' ∈ live
      · rw [if_neg alive, if_pos alive', defaultNodeWeight] at order
        omega
      · rw [if_neg alive, if_neg alive'] at order
        exact .inr ⟨iff_of_false alive alive', by omega⟩

theorem IsFlat.winsRound_iff (flat : IsFlat live topology tree instances)
    (some_ : instances ≠ []) (nodup : (instances.map (·.instance_)).Nodup)
    (uniform : UniformStraws straws) (input : BitVec 64) (round : ℕ) (i : InstanceId) :
    WinsRound live (instances.map (·.instance_)) input round i ↔
      (tree.urn straws tree.instanceOf tree.root input).pick round = some i := by
  obtain ⟨best, picked, wins⟩ := flat.exists_winsRound some_ nodup uniform input round
  rw [picked]
  constructor
  · intro wins'
    rw [wins.unique wins']
  · intro eq
    rwa [← Option.some.inj eq]

end Pick

end TopologyTree

end Clustodian
