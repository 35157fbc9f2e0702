import Clustodian.Controller.Outputs
import Clustodian.Model.TransitionTable
import Clustodian.Planner.Bounded

namespace Clustodian

open State Selection Walks

namespace ReplicaStates

theorem replicas_nodup (states : ReplicaStates) :
    (states.replicas.map fun replica ↦ (replica.1, replica.2.1)).Nodup := by
  have keys : states.replicas.map (fun replica ↦ (replica.1, replica.2.1)) =
      states.entries.toList.flatMap fun entry ↦ entry.2.toList.map fun item ↦ (entry.1, item.1) := by
    rw [replicas, List.map_flatMap]
    refine List.flatMap_congr fun entry _ ↦ ?_
    rw [List.map_map]
    rfl
  rw [keys, List.Nodup, List.pairwise_flatMap]
  constructor
  · intro entry _
    rw [← List.Nodup, show (entry.2.toList.map fun item ↦ (entry.1, item.1)) =
      (entry.2.toList.map Prod.fst).map (Prod.mk entry.1) by rw [List.map_map]; rfl]
    exact (OrderedMap.keys_nodup _).map (Prod.mk_right_injective _)
  · have distinct := OrderedMap.keys_nodup states.entries
    rw [List.Nodup, List.pairwise_map] at distinct
    refine distinct.imp fun {a b} differ x hx y hy same ↦ ?_
    obtain ⟨i, -, rfl⟩ := List.mem_map.mp hx
    obtain ⟨j, -, rfl⟩ := List.mem_map.mp hy
    exact differ (Prod.mk.inj same).1

end ReplicaStates

theorem generateTransitions_nodup {resource : ResourceId} {current : CurrentState}
    {target : BestPossibleState} {model : StateModelDefinition}
    {requests : List TransitionRequest}
    (run : generateTransitions resource current target model = .ok requests) :
    (requests.map fun t ↦ (t.partition, t.instance_)).Nodup := by
  obtain ⟨⟨⟩, -, run⟩ := CheckedLoop.bind_eq_ok.mp run
  cases run
  rw [List.Nodup, List.pairwise_map, List.pairwise_filterMap]
  have distinct := target.replicas_nodup
  rw [List.Nodup, List.pairwise_map] at distinct
  refine distinct.imp fun {a b} differ t ht u hu same ↦ differ ?_
  obtain ⟨-, partition, instance_, -⟩ := nextRequest_eq_some.mp ht
  obtain ⟨-, partition', instance', -⟩ := nextRequest_eq_some.mp hu
  rw [partition, instance_, partition', instance']
  exact same

namespace leaderStandby

theorem nextStateToward_isSome {source target : State} :
    (∃ hop, leaderStandby.nextStateToward source target = some hop) ↔
      source ≠ target ∧ ∃ n, Walk (Declared leaderStandby.transitionsByPriority) n source target := by
  obtain ⟨valid, published⟩ := StateModelBuilder.build_eq_ok leaderStandby.build_eq
  rw [published.transitions, StateModelDefinition.nextStateToward, published.table]
  constructor
  · rintro ⟨hop, found⟩
    obtain ⟨-, -, differ, -, d, distance, -⟩ := hop_spec valid.declared valid.nodup found
    exact ⟨differ, d + 1, distance.1⟩
  · rintro ⟨differ, n, walk⟩
    exact hop_of_walk valid.declared valid.nodup differ walk

theorem nextStateToward_closer {source target hop : State}
    (found : leaderStandby.nextStateToward source target = some hop) :
    ⟨source, hop⟩ ∈ leaderStandby.transitionsByPriority ∧
    ∃ d, IsDistance (Declared leaderStandby.transitionsByPriority) source target (d + 1) ∧
      IsDistance (Declared leaderStandby.transitionsByPriority) hop target d := by
  obtain ⟨valid, published⟩ := StateModelBuilder.build_eq_ok leaderStandby.build_eq
  rw [StateModelDefinition.nextStateToward, published.table] at found
  rw [published.transitions]
  obtain ⟨-, -, -, edge, d, distance, closer⟩ := hop_spec valid.declared valid.nodup found
  exact ⟨edge, d, distance, closer⟩

end leaderStandby

section Pipeline

variable {plans : List ResourcePlan} {actual : BTreeMap ResourceId CurrentState}
  {live : BTreeSet InstanceId}

/-- The requests of one resource: one declared step closer for every replica that is on its way. -/
structure Stepwise (current : CurrentState) (best : BestPossibleState)
    (requests : List TransitionRequest) : Prop where
  closer : ∀ t ∈ requests, ∃ desired d, best.state t.partition t.instance_ = some desired ∧
    current.state t.partition t.instance_ = some t.sourceState ∧
    ⟨t.sourceState, t.targetState⟩ ∈ leaderStandby.transitionsByPriority ∧
    IsDistance (Declared leaderStandby.transitionsByPriority) t.sourceState desired (d + 1) ∧
    IsDistance (Declared leaderStandby.transitionsByPriority) t.targetState desired d
  once : (requests.map fun t ↦ (t.partition, t.instance_)).Nodup
  settled : ∀ p i s, current.state p i = some s → ∃ desired, best.state p i = some desired ∧
    ((∀ t ∈ requests, ¬(t.partition = p ∧ t.instance_ = i)) ↔
      s = desired ∨ ¬∃ n, Walk (Declared leaderStandby.transitionsByPriority) n s desired)

theorem generated_stepwise (plan : ResourcePlan) (actual : BTreeMap ResourceId CurrentState)
    (live : BTreeSet InstanceId) : ∃ best requests,
    computeSemiAutoBestPossibleState plan.ideal (planningState plan actual live) live
      leaderStandby = .ok best ∧
    generateTransitions plan.resource (planningState plan actual live) best leaderStandby =
      .ok requests ∧
    Stepwise (planningState plan actual live) best requests := by
  obtain ⟨best, hbest, state⟩ := SemiAuto.computeSemiAutoBestPossibleState_eq_ok plan.ideal
    (planningState plan actual live) live
  have same : ∀ p i, ((planningState plan actual live).state p i).isSome ↔
      (best.state p i).isSome := fun p i ↦ by rw [state, bestState_isSome]
  obtain ⟨requests, run, mem⟩ := generateTransitions_eq_ok plan.resource
    (planningState plan actual live) best leaderStandby same
  refine ⟨best, requests, hbest, run, fun t ht ↦ ?_, generateTransitions_nodup run,
    fun p i s reported ↦ ?_⟩
  · obtain ⟨-, desired, target, source, -, next⟩ := (mem t).mp ht
    obtain ⟨edge, d, distance, closer⟩ := leaderStandby.nextStateToward_closer next
    exact ⟨desired, d, target, source, edge, distance, closer⟩
  · obtain ⟨desired, target⟩ := Option.isSome_iff_exists.mp
      ((same p i).mp (by rw [reported]; rfl))
    refine ⟨desired, target, ?_, ?_⟩
    · intro none
      by_contra open_
      rw [not_or, not_not] at open_
      obtain ⟨hop, next⟩ := leaderStandby.nextStateToward_isSome.mpr open_
      exact none ⟨plan.resource, p, i, s, hop⟩
        ((mem _).mpr ⟨rfl, desired, target, reported, open_.1, next⟩) ⟨rfl, rfl⟩
    · rintro closed t ht ⟨rfl, rfl⟩
      obtain ⟨-, desired', target', source, differ, next⟩ := (mem t).mp ht
      rw [target] at target'
      rw [reported] at source
      cases target'
      cases source
      obtain ⟨-, walk⟩ := leaderStandby.nextStateToward_isSome.mp ⟨_, next⟩
      exact closed.elim differ fun stuck ↦ stuck walk

/-- With nothing in flight all stages of a planning cycle succeed, whatever is reported. -/
theorem pipeline_succeeds (plans : List ResourcePlan)
    (distinct : (plans.map (·.resource)).Nodup) (actual : BTreeMap ResourceId CurrentState)
    (live : BTreeSet InstanceId) :
    (∃ inputs, plans.mapM (fun plan ↦ resourceTransitionInput plan actual live [] leaderStandby) =
        .ok inputs ∧
      ∀ configs, ∃ result,
        computeIntermediateAndThrottle inputs live [] configs leaderStandby = .ok result) ∧
    ∀ plan ∈ plans,
      let planning := normalizeCurrent ((actual[plan.resource]?).getD ∅) plan.ideal live leaderStandby
      ∃ best requests,
        computeSemiAutoBestPossibleState plan.ideal planning live leaderStandby = .ok best ∧
        generateTransitions plan.resource planning best leaderStandby = .ok requests ∧
        Stepwise planning best requests := by
  refine ⟨?_, fun plan _ ↦ generated_stepwise plan actual live⟩
  obtain ⟨inputs, run, each⟩ := CheckedLoop.mapM_ok
    (f := fun plan ↦ resourceTransitionInput plan actual live [] leaderStandby)
    (fun plan input ↦ input.resource = plan.resource ∧
      validateSelected input leaderStandby = .ok ()) plans
    fun plan _ ↦ by
      obtain ⟨input, step, resource, valid, -⟩ := (resourceTransitionInput_eq []).2
        (show checkPending plan.ideal (planningState plan actual live) leaderStandby [] [] = .ok ()
          from rfl)
      exact ⟨input, step, resource, valid⟩
  have resources : inputs.map (·.resource) = plans.map (·.resource) :=
    CheckedLoop.forall₂_map (fun _ _ h ↦ h.1) each
  refine ⟨inputs, run, fun configs ↦ ?_⟩
  obtain ⟨result, ok, -⟩ := Throttle.computeIntermediateAndThrottle_eq_ok live [] configs
    (resources ▸ distinct) (by simp) (by simp) fun input mem ↦ by
      obtain ⟨plan, -, h⟩ := CheckedLoop.forall₂_left each.flip mem
      exact h.2
  exact ⟨result, ok⟩

theorem pipeline_succeeds_twoReplicas : ∃ inputs,
    [(⟨db, twoReplicas⟩ : ResourcePlan)].mapM (fun plan ↦
      resourceTransitionInput plan ∅ bothLive [] leaderStandby) = .ok inputs := by
  obtain ⟨inputs, run, -⟩ := (pipeline_succeeds [⟨db, twoReplicas⟩] (by decide) ∅ bothLive).1
  exact ⟨inputs, run⟩

end Pipeline

end Clustodian
