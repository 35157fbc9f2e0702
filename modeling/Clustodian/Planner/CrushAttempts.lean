import Clustodian.Lib.CheckedLoop
import Clustodian.Planner.CrushSelect

/-! The attempts for one partition in a flat topology, as runs of the library. -/

namespace Clustodian

namespace TopologyTree

section Attempts

variable {α : Type} {tree : TopologyTree} {straws : List ℕ → List ℕ} {parent : ℕ} {name : ℕ → α}
  (level : tree.Level parent tree.topology.endNodeType name) (flat : tree.topology.Flat)

include level flat

theorem Level.attempt_ensures (input : BitVec 64) (fuel count : ℕ) {nodes : List ℕ}
    (zones : BTreeSet ℕ) (given : ∀ node ∈ nodes, node ∈ (tree.node parent).children) :
    Ensures (tree.addReplicasForAttempt straws fuel parent input count nodes zones) fun outcome ↦
      ∃ added rounds, outcome = (nodes ++ added, zones, rounds.map (Prod.mk input)) ∧
        (∀ node ∈ added, node ∈ (tree.node parent).children) ∧
        Urn.Selects (tree.urn straws name parent input) {item | item ∈ nodes.map name}
          maxLoopbackCount (List.range' 1 count) [] (added.map name) rounds := by
  rw [addReplicasForAttempt, if_neg (not_not_intro flat)]
  have barred : ∀ node ∈ nodes.foldl (·.insert ·) (∅ : BTreeSet ℕ),
      node ∈ (tree.node parent).children := by
    intro node mem
    rcases (OrderedMap.mem_foldl_insert nodes _ node).mp mem with mem | mem
    · exact given node mem
    · simp at mem
  refine (level.selectNodesOfType_ensures barred input fuel count).bind fun outcome spec ↦ ?_
  obtain ⟨within, rounds, selects, calls⟩ := spec
  rw [named_foldl] at selects
  exact ⟨outcome.1, rounds, by rw [← calls], within, selects⟩

theorem Level.attempt_complete {input : BitVec 64} {count : ℕ} {nodes : List ℕ}
    {result : List α} {rounds : List ℕ}
    (selects : Urn.Selects (tree.urn straws name parent input) {item | item ∈ nodes.map name}
      maxLoopbackCount (List.range' 1 count) [] result rounds)
    {fuel : ℕ} (enough : rounds.length ≤ fuel) (zones : BTreeSet ℕ)
    (given : ∀ node ∈ nodes, node ∈ (tree.node parent).children) :
    ∃ added, tree.addReplicasForAttempt straws fuel parent input count nodes zones =
        .ok (nodes ++ added, zones, rounds.map (Prod.mk input)) ∧
      (∀ node ∈ added, node ∈ (tree.node parent).children) ∧ added.map name = result := by
  have barred : ∀ node ∈ nodes.foldl (·.insert ·) (∅ : BTreeSet ℕ),
      node ∈ (tree.node parent).children := by
    intro node mem
    rcases (OrderedMap.mem_foldl_insert nodes _ node).mp mem with mem | mem
    · exact given node mem
    · simp at mem
  rw [← named_foldl] at selects
  obtain ⟨added, run, names⟩ := level.selectNodesOfType_complete barred input selects enough
  refine ⟨added, ?_, ?_, names⟩
  · rw [addReplicasForAttempt, if_neg (not_not_intro flat)]
    dsimp only
    rw [run]
    rfl
  · exact ((level.selectNodesOfType_ensures barred input fuel count).of_eq_ok run).1

theorem Level.attempts_ensures (fuel count tries : ℕ) (input : BitVec 64) {nodes : List ℕ}
    (zones : BTreeSet ℕ) (given : ∀ node ∈ nodes, node ∈ (tree.node parent).children) :
    Ensures (tree.attemptReplicas straws fuel parent count tries input (count - nodes.length) nodes
      zones) fun outcome ↦
      (∀ node ∈ outcome.1, node ∈ (tree.node parent).children) ∧
      Urn.Fills (tree.urn straws name parent) Crush.jenkinsHashOne maxLoopbackCount count tries
        input (nodes.map name) (outcome.1.map name) outcome.2 := by
  induction tries generalizing input nodes zones with
  | zero => exact ⟨given, .spent _ _⟩
  | succ tries ih =>
    rw [attemptReplicas]
    by_cases short : nodes.length < count
    · rw [if_pos short]
      refine (level.attempt_ensures flat input fuel _ zones given).bind fun outcome spec ↦ ?_
      obtain ⟨added, rounds, rfl, within, selects⟩ := spec
      have given' : ∀ node ∈ nodes ++ added, node ∈ (tree.node parent).children :=
        fun node mem ↦ (List.mem_append.mp mem).elim (given node) (within node)
      have length : (nodes.map name).length = nodes.length := List.length_map _
      have fills {result : List α} {calls : List SelectCall}
          (rest : Urn.Fills (tree.urn straws name parent) Crush.jenkinsHashOne maxLoopbackCount count
            tries (Crush.jenkinsHashOne input) ((nodes ++ added).map name) result calls) :
          Urn.Fills (tree.urn straws name parent) Crush.jenkinsHashOne maxLoopbackCount count
            (tries + 1) input (nodes.map name) result (rounds.map (Prod.mk input) ++ calls) := by
        rw [← length] at short selects
        rw [List.map_append] at rest
        exact .attempt short selects rest
      dsimp only
      by_cases more : count - (nodes ++ added).length > 0
      · rw [if_pos more]
        refine (ih (Crush.jenkinsHashOne input) zones given').bind fun outcome spec ↦ ?_
        exact ⟨spec.1, fills spec.2⟩
      · rw [if_neg more]
        refine ⟨given', ?_⟩
        have full : count ≤ ((nodes ++ added).map name).length := by
          rw [List.length_map]
          omega
        have rest := @fills ((nodes ++ added).map name) []
        rw [List.append_nil] at rest
        cases tries with
        | zero => exact rest (.spent _ _)
        | succ tries => exact rest (.full full)
    · rw [if_neg short]
      refine ⟨given, .full ?_⟩
      rw [List.length_map]
      omega

/-- With fuel for all rounds the attempts give what the run of the library gives. -/
theorem Level.attempts_complete {count tries : ℕ} {input : BitVec 64} {filled result : List α}
    {calls : List SelectCall}
    (fills : Urn.Fills (tree.urn straws name parent) Crush.jenkinsHashOne maxLoopbackCount count
      tries input filled result calls)
    {fuel : ℕ} (enough : calls.length ≤ fuel) {nodes : List ℕ} (zones : BTreeSet ℕ)
    (given : ∀ node ∈ nodes, node ∈ (tree.node parent).children) (same : nodes.map name = filled) :
    ∃ nodes', tree.attemptReplicas straws fuel parent count tries input (count - nodes.length) nodes
      zones = .ok (nodes', calls) ∧ nodes'.map name = result := by
  induction fills generalizing nodes with
  | spent input filled => exact ⟨nodes, rfl, same⟩
  | @full tries input filled full =>
    rw [← same, List.length_map] at full
    exact ⟨nodes, by rw [attemptReplicas, if_neg (by omega)], same⟩
  | @attempt tries input filled added result rounds calls short selects rest ih =>
    subst same
    rw [List.length_append, List.length_map] at enough
    rw [List.length_map] at short selects
    obtain ⟨new, run, within, rfl⟩ := level.attempt_complete flat selects
      (show rounds.length ≤ fuel by omega) zones given
    have given' : ∀ node ∈ nodes ++ new, node ∈ (tree.node parent).children :=
      fun node mem ↦ (List.mem_append.mp mem).elim (given node) (within node)
    rw [attemptReplicas, if_pos short, run]
    change ∃ nodes', ite (count - (nodes ++ new).length > 0) _ _ = _ ∧ _
    by_cases more : count - (nodes ++ new).length > 0
    · obtain ⟨nodes', later, names⟩ := ih (by omega) given' (List.map_append ..)
      refine ⟨nodes', ?_, names⟩
      rw [if_pos more, later]
      rfl
    · rw [if_neg more]
      have full : count ≤ (nodes.map name ++ new.map name).length := by
        rw [List.length_append, List.length_map, List.length_map]
        rw [List.length_append] at more
        omega
      -- nothing is left to fill, so the rest of the run is empty
      have spent := rest.det (show Urn.Fills _ _ _ _ tries _ _ (nodes.map name ++ new.map name) [] by
        cases tries with
        | zero => exact .spent _ _
        | succ tries => exact .full full)
      obtain ⟨rfl, rfl⟩ := spent
      exact ⟨nodes ++ new, by rw [List.append_nil]; rfl, List.map_append ..⟩

theorem Level.selectReplicas_ensures (straws : List ℕ → List ℕ) (fuel count : ℕ)
    (input : BitVec 64) :
    Ensures (tree.selectReplicas straws fuel parent input count) fun outcome ↦
      (∀ node ∈ outcome.1, node ∈ (tree.node parent).children) ∧
      Urn.Fills (tree.urn straws name parent) Crush.jenkinsHashOne maxLoopbackCount count maxRetry
        input [] (outcome.1.map name) outcome.2 :=
  level.attempts_ensures flat fuel count maxRetry input ∅ (List.forall_mem_nil _)

theorem Level.selectReplicas_complete {count : ℕ} {input : BitVec 64} {result : List α}
    {calls : List SelectCall}
    (fills : Urn.Fills (tree.urn straws name parent) Crush.jenkinsHashOne maxLoopbackCount count
      maxRetry input [] result calls) {fuel : ℕ} (enough : calls.length ≤ fuel) :
    ∃ nodes, tree.selectReplicas straws fuel parent input count = .ok (nodes, calls) ∧
      nodes.map name = result :=
  level.attempts_complete flat fills enough ∅ (List.forall_mem_nil _) rfl

end Attempts

/-- The instance of a leaf. -/
def instanceOf (tree : TopologyTree) (index : ℕ) : Option InstanceId := (tree.node index).instance_

section Partitions

variable {tree : TopologyTree} {straws : List ℕ → List ℕ} {replicaCount : ℕ}

theorem mapM_eq_some {α β : Type} {f : α → Option β} {items : List α} {results : List β} :
    items.mapM f = some results ↔ items.map f = results.map some := by
  induction items generalizing results with
  | nil =>
    cases results with
    | nil => simp
    | cons result results => simp
  | cons item items ih =>
    cases results with
    | nil =>
      rw [List.mapM_cons]
      cases f item <;> cases items.mapM f <;> simp
    | cons result results =>
      rw [List.mapM_cons, List.map_cons, List.map_cons, List.cons.injEq, ← ih]
      cases f item <;> cases items.mapM f <;> simp

theorem exists_map_some {α β : Type} {f : α → Option β} {items : List α}
    (h : ∀ item ∈ items, (f item).isSome) : ∃ results : List β, items.map f = results.map some := by
  induction items with
  | nil => exact ⟨[], rfl⟩
  | cons item items ih =>
    obtain ⟨results, eq⟩ := ih fun item mem ↦ h item (List.mem_cons_of_mem _ mem)
    obtain ⟨result, found⟩ := Option.isSome_iff_exists.mp (h item List.mem_cons_self)
    exact ⟨result :: results, by rw [List.map_cons, List.map_cons, eq, found]⟩

/-- The partitions are placed one by one. -/
theorem assignPartitions_ensures (good : PartitionId → List ℕ → List SelectCall → Prop) {fuel : ℕ}
    {partitions : List PartitionId} (nodup : partitions.Nodup)
    (each : ∀ p ∈ partitions, Ensures
      (tree.selectReplicas straws fuel tree.root (partitionInput p) replicaCount) fun outcome ↦
        good p outcome.1 outcome.2 ∧ ∀ node ∈ outcome.1, (tree.instanceOf node).isSome)
    (assignment : BTreeMap PartitionId (List InstanceId)) :
    Ensures (assignPartitions straws fuel tree replicaCount partitions assignment) fun outcome ↦
      ∃ assignment', outcome.1 = .ok assignment' ∧
        (∀ p ∉ partitions, assignment'[p]? = assignment[p]?) ∧
        ∀ p ∈ partitions, ∃ list nodes calls, assignment'[p]? = some list ∧
          nodes.map tree.instanceOf = list.map some ∧ good p nodes calls ∧
          ∀ call ∈ calls, call ∈ outcome.2 := by
  induction partitions generalizing assignment with
  | nil => exact ⟨assignment, rfl, fun _ _ ↦ rfl, fun _ mem ↦ by cases mem⟩
  | cons p partitions ih =>
    obtain ⟨fresh, rest⟩ := List.nodup_cons.mp nodup
    rw [assignPartitions]
    refine (each p List.mem_cons_self).bind fun outcome spec ↦ ?_
    obtain ⟨nodes, calls⟩ := outcome
    obtain ⟨placed, leaves⟩ := spec
    dsimp only at placed leaves ⊢
    obtain ⟨list, names⟩ := exists_map_some leaves
    have read : (nodes.mapM fun node ↦ (tree.node node).instance_) = some list :=
      mapM_eq_some.mpr names
    rw [read]
    have later := ih rest (fun q mem ↦ each q (List.mem_cons_of_mem _ mem)) (assignment.insert p list)
    refine later.bind fun outcome spec ↦ ?_
    obtain ⟨assignment', ok, others, own⟩ := spec
    refine ⟨assignment', ok, fun q outside ↦ ?_, fun q mem ↦ ?_⟩
    · rw [List.mem_cons, not_or] at outside
      rw [others q outside.2, OrderedMap.getElem?_insert, if_neg outside.1]
    · rcases List.mem_cons.mp mem with rfl | mem
      · refine ⟨list, nodes, calls, ?_, names, placed, fun call mem ↦ ?_⟩
        · rw [others q fresh, OrderedMap.getElem?_insert, if_pos rfl]
        · exact List.mem_append_left _ mem
      · obtain ⟨list', nodes', calls', found, names', placed', within⟩ := own q mem
        exact ⟨list', nodes', calls', found, names', placed',
          fun call mem ↦ List.mem_append_right _ (within call mem)⟩

theorem assignPartitions_complete {fuel : ℕ} {partitions : List PartitionId}
    (each : ∀ p ∈ partitions, ∃ outcome,
      tree.selectReplicas straws fuel tree.root (partitionInput p) replicaCount = .ok outcome ∧
        ∀ node ∈ outcome.1, (tree.instanceOf node).isSome)
    (assignment : BTreeMap PartitionId (List InstanceId)) :
    ∃ outcome, assignPartitions straws fuel tree replicaCount partitions assignment =
      .ok outcome := by
  induction partitions generalizing assignment with
  | nil => exact ⟨_, rfl⟩
  | cons p partitions ih =>
    obtain ⟨⟨nodes, calls⟩, run, leaves⟩ := each p List.mem_cons_self
    obtain ⟨list, names⟩ := exists_map_some leaves
    have read : (nodes.mapM fun node ↦ (tree.node node).instance_) = some list :=
      mapM_eq_some.mpr names
    obtain ⟨outcome, later⟩ :=
      ih (fun q mem ↦ each q (List.mem_cons_of_mem _ mem)) (assignment.insert p list)
    refine ⟨(outcome.1, calls ++ outcome.2), ?_⟩
    rw [assignPartitions, run]
    dsimp only [bind, Except.bind]
    rw [read]
    dsimp only
    rw [later]
    rfl

end Partitions

end TopologyTree

section Inputs

variable {ε : Type}

theorem checkNames_ok {K V : Type} [LinearOrder K] (key : V → K) (error : V → ε) {items : List V}
    {names names' : BTreeSet K}
    (h : items.foldlM (fun (names : BTreeSet K) item ↦
      if key item ∈ names then Except.error (error item) else .ok (names.insert (key item))) names =
        .ok names') :
    (items.map key).Nodup ∧ (∀ item ∈ items, key item ∉ names) ∧
      ∀ k, k ∈ names' ↔ k ∈ items.map key ∨ k ∈ names := by
  induction items generalizing names with
  | nil =>
    obtain rfl := Except.ok.inj h
    exact ⟨List.nodup_nil, by simp, by simp⟩
  | cons item items ih =>
    rw [List.foldlM_cons] at h
    by_cases seen : key item ∈ names
    · rw [if_pos seen] at h
      cases h
    · rw [if_neg seen] at h
      obtain ⟨distinct, fresh, members⟩ := ih h
      have others : ∀ other ∈ items, key other ≠ key item ∧ key other ∉ names := fun other mem ↦ by
        have absent := fresh other mem
        rwa [OrderedMap.mem_insert, not_or] at absent
      refine ⟨List.nodup_cons.mpr ⟨fun mem ↦ ?_, distinct⟩, fun other mem ↦ ?_, fun k ↦ ?_⟩
      · obtain ⟨other, mem, same⟩ := List.mem_map.mp mem
        exact (others other mem).1 same
      · rcases List.mem_cons.mp mem with rfl | mem
        · exact seen
        · exact (others other mem).2
      · rw [members, OrderedMap.mem_insert, List.map_cons, List.mem_cons]
        tauto

theorem forM_ok {V : Type} {check : V → Except ε Unit} {items : List V}
    (h : items.forM check = .ok ()) : ∀ item ∈ items, check item = .ok () := by
  induction items with
  | nil => exact fun _ mem ↦ by cases mem
  | cons first items ih =>
    rw [List.forM] at h
    obtain ⟨_, passed, rest⟩ := CheckedLoop.bind_eq_ok.mp h
    exact List.forall_mem_cons.mpr ⟨passed, ih rest⟩

/-- What the checks promise to the build. -/
structure CrushAccepted (partitions : List PartitionId) (instances : List CrushInstance)
    (liveInstances : BTreeSet InstanceId) : Prop where
  instances_ne : instances ≠ []
  partitions_nodup : partitions.Nodup
  instances_nodup : (instances.map (·.instance_)).Nodup
  live_known : ∀ i ∈ liveInstances, i ∈ instances.map (·.instance_)

theorem checkCrushInputs_ok {partitions : List PartitionId} {instances : List CrushInstance}
    {liveInstances : BTreeSet InstanceId} {topology : CrushTopology}
    (h : checkCrushInputs partitions instances liveInstances topology = .ok ()) :
    CrushAccepted partitions instances liveInstances := by
  unfold checkCrushInputs at h
  obtain ⟨_, -, h⟩ := CheckedLoop.bind_eq_ok.mp h
  by_cases none : partitions = []
  · rw [if_pos none] at h
    cases h
  rw [if_neg none] at h
  by_cases empty : instances.isEmpty
  · rw [if_pos empty] at h
    cases h
  rw [if_neg empty] at h
  obtain ⟨_, checked, h⟩ := CheckedLoop.bind_eq_ok.mp h
  obtain ⟨names, checked', h⟩ := CheckedLoop.bind_eq_ok.mp h
  have partitions' := checkNames_ok id CrushError.duplicatePartition checked
  have instances' := checkNames_ok CrushInstance.instance_ _ checked'
  refine ⟨by simpa using empty, ?_, instances'.1, fun i alive ↦ ?_⟩
  · rw [← List.map_id partitions]
    exact partitions'.1
  · have known := forM_ok h i (Std.ExtTreeSet.mem_toList.mpr alive)
    by_cases mem : i ∈ names
    · exact ((instances'.2.2 i).mp mem).resolve_right (by simp)
    · rw [if_neg mem] at known
      cases known

end Inputs

end Clustodian
