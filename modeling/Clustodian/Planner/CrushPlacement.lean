import Clustodian.Planner.CrushFlat

/-! Preference lists in a flat topology: when they are computed, how long they are, and what they
depend on. -/

namespace Clustodian

open TopologyTree

section Flat

variable (straws : List ℕ → List ℕ) (live : BTreeSet InstanceId) (topology : CrushTopology)
  (instances : List CrushInstance)

/-- What the seats of a partition are drawn from. -/
def flatUrn (input : BitVec 64) : Urn (Option InstanceId) :=
  (build live topology instances).urn straws (build live topology instances).instanceOf
    (build live topology instances).root input

/-- The seats that a partition's attempts fill. -/
def Placed (replicaCount : ℕ) (partition : PartitionId) (list : List InstanceId)
    (calls : List SelectCall) : Prop :=
  Urn.Fills (flatUrn straws live topology instances) Crush.jenkinsHashOne maxLoopbackCount
    replicaCount maxRetry (partitionInput partition) [] (list.map some) calls

variable {straws live topology instances} {partitions : List PartitionId} {replicaCount fuel : ℕ}
  {resource : ResourceId}
  (accepted : checkCrushInputs partitions instances live topology = .ok ())

include accepted

theorem flatLevel (flat : topology.Flat) :
    (build live topology instances).Level (build live topology instances).root
      (build live topology instances).topology.endNodeType
      (build live topology instances).instanceOf := by
  have built : IsFlat live topology _ instances := isFlat_build flat instances
  obtain ⟨some_, _, nodup, _⟩ := checkCrushInputs_ok accepted
  rw [built.mode]
  exact built.level some_ nodup

theorem live_flatUrn (flat : topology.Flat) (input : BitVec 64) :
    (flatUrn straws live topology instances input).live = {item | ∃ i ∈ live, some i = item} :=
  (isFlat_build flat instances).live_urn (checkCrushInputs_ok accepted).live_known straws input

/-- Every run that ends places each partition by the attempts of the library. -/
theorem computeCrushAssignment_ensures (flat : topology.Flat) :
    Ensures (computeCrushAssignment straws fuel resource partitions replicaCount instances live
      topology) fun outcome ↦ ∃ assignment, outcome.1 = .ok assignment ∧
        (∀ p ∉ partitions, assignment[p]? = none) ∧
        ∀ p ∈ partitions, ∃ list calls, assignment[p]? = some list ∧
          Placed straws live topology instances replicaCount p list calls ∧
          ∀ call ∈ calls, call ∈ outcome.2 := by
  have built : IsFlat live topology _ instances := isFlat_build flat instances
  have level := flatLevel accepted flat
  have mode : (build live topology instances).topology.Flat := by
    rw [built.mode]
    exact flat
  rw [computeCrushAssignment, accepted]
  dsimp only
  have each (p : PartitionId) (_ : p ∈ partitions) :
      Ensures ((build live topology instances).selectReplicas straws fuel
        (build live topology instances).root (partitionInput p) replicaCount) fun outcome ↦
          Urn.Fills (flatUrn straws live topology instances) Crush.jenkinsHashOne maxLoopbackCount
            replicaCount maxRetry (partitionInput p) []
            (outcome.1.map (build live topology instances).instanceOf) outcome.2 ∧
          ∀ node ∈ outcome.1, ((build live topology instances).instanceOf node).isSome := by
    refine (level.selectReplicas_ensures mode straws fuel replicaCount (partitionInput p)).mono
      fun outcome spec ↦ ⟨spec.2, fun node mem ↦ ?_⟩
    obtain ⟨i, item, -, -, leaf⟩ := built.child (spec.1 node mem)
    rw [instanceOf, leaf]
    rfl
  refine (assignPartitions_ensures (fun p nodes calls ↦
    Urn.Fills (flatUrn straws live topology instances) Crush.jenkinsHashOne maxLoopbackCount
      replicaCount maxRetry (partitionInput p) []
      (nodes.map (build live topology instances).instanceOf) calls)
    (checkCrushInputs_ok accepted).partitions_nodup each ∅).mono fun outcome spec ↦ ?_
  obtain ⟨assignment, ok, others, own⟩ := spec
  refine ⟨assignment, ok, fun p outside ↦ ?_, fun p mem ↦ ?_⟩
  · rw [others p outside]
    exact Std.ExtTreeMap.getElem?_empty
  · obtain ⟨list, nodes, calls, found, names, fills, within⟩ := own p mem
    rw [names] at fills
    exact ⟨list, calls, found, fills, within⟩

/-- With fuel for all rounds the placements of the library are computed. -/
theorem computeCrushAssignment_complete (flat : topology.Flat)
    (placed : ∀ p ∈ partitions, ∃ list calls,
      Placed straws live topology instances replicaCount p list calls) :
    ∃ fuel outcome, computeCrushAssignment straws fuel resource partitions replicaCount instances
      live topology = .ok outcome := by
  have built : IsFlat live topology _ instances := isFlat_build flat instances
  have level := flatLevel accepted flat
  have mode : (build live topology instances).topology.Flat := by
    rw [built.mode]
    exact flat
  obtain ⟨fuel, enough⟩ : ∃ fuel, ∀ p ∈ partitions, ∃ list calls,
      Placed straws live topology instances replicaCount p list calls ∧ calls.length ≤ fuel := by
    clear accepted
    induction partitions with
    | nil => exact ⟨0, by simp⟩
    | cons p partitions ih =>
      obtain ⟨fuel, enough⟩ := ih fun q mem ↦ placed q (List.mem_cons_of_mem _ mem)
      obtain ⟨list, calls, fills⟩ := placed p List.mem_cons_self
      refine ⟨max fuel calls.length, List.forall_mem_cons.mpr ⟨?_, fun q mem ↦ ?_⟩⟩
      · exact ⟨list, calls, fills, le_max_right _ _⟩
      · obtain ⟨list, calls, fills, le⟩ := enough q mem
        exact ⟨list, calls, fills, le.trans (le_max_left _ _)⟩
  have each (p : PartitionId) (mem : p ∈ partitions) : ∃ outcome,
      (build live topology instances).selectReplicas straws fuel
        (build live topology instances).root (partitionInput p) replicaCount = .ok outcome ∧
      ∀ node ∈ outcome.1, ((build live topology instances).instanceOf node).isSome := by
    obtain ⟨list, calls, fills, le⟩ := enough p mem
    obtain ⟨nodes, run, names⟩ := level.selectReplicas_complete mode fills le
    refine ⟨(nodes, calls), run, fun node mem ↦ ?_⟩
    have some_ : (build live topology instances).instanceOf node ∈ list.map some :=
      names ▸ List.mem_map_of_mem mem
    obtain ⟨i, -, eq⟩ := List.mem_map.mp some_
    rw [← eq]
    rfl
  obtain ⟨outcome, run⟩ := assignPartitions_complete each ∅
  refine ⟨fuel, outcome, ?_⟩
  rw [computeCrushAssignment, accepted]
  exact run

end Flat

end Clustodian
