import Clustodian.Controller.Queue

namespace Clustodian

open State Selection

namespace Decoded

variable {crush : Crush} {snapshot : CoordinationSnapshot} {d : Decoded crush snapshot}
  {pending queue : List PublishedTransition} {mode : ReconcileMode}

/-- A message in flight towards service, for a live replica of a partition that its resource no
longer lists while some replica of the partition is still reported. -/
def Blocks (d : Decoded crush snapshot) (m : PublishedTransition) : Prop :=
  ∃ t : TransitionRequest, sameTransition m t m.targetSession = true ∧
    snapshot.live t.instance_ = some m.targetSession ∧
    ∃ plan ∈ d.plans, plan.resource = t.resource ∧
      plan.ideal.preferenceList t.partition = none ∧
      (∃ j s, visible snapshot d.configs t.resource t.partition j = some s) ∧
      (∀ s, visible snapshot d.configs t.resource t.partition t.instance_ = some s →
        s = t.sourceState) ∧
      leaderStandby.nextStateToward t.sourceState dropped ≠ some t.targetState

theorem nodup_inFlight_of_unambiguous (d : Decoded crush snapshot) (mode : ReconcileMode)
    (h : Unambiguous pending) :
    ((d.inFlight pending mode).map fun t ↦ (t.resource, t.partition, t.instance_)).Nodup := by
  have distinct : Unambiguous (d.retained pending mode) := h.sublist retained_sublist
  rw [Unambiguous, List.Nodup, List.pairwise_map] at distinct
  rw [List.Nodup, List.pairwise_map, inFlight, operationalPendingForPlans]
  refine List.Pairwise.filter _ (List.pairwise_filterMap.mpr (distinct.imp ?_))
  intro m m' differ t ht t' ht' same
  obtain ⟨hr, hp, hi, -⟩ := toOperationalPending_eq_some.mp ht
  obtain ⟨hr', hp', hi', -⟩ := toOperationalPending_eq_some.mp ht'
  simp only [Prod.mk.injEq] at same
  apply differ
  simp only [PublishedTransition.replica, hr, hp, hi, hr', hp', hi', same]

theorem mem_pendingFor {plan : ResourcePlan} {t : PendingTransition} :
    t ∈ d.pendingFor pending mode plan ↔
      ⟨plan.resource, t.partition, t.instance_, t.sourceState, t.targetState⟩ ∈
        d.inFlight pending mode := by
  rw [pendingFor, pendingForResource, List.mem_map]
  constructor
  · rintro ⟨u, hu, rfl⟩
    obtain ⟨hu, same⟩ := List.mem_filter.mp hu
    simpa [← of_decide_eq_true same] using hu
  · exact fun h ↦ ⟨_, List.mem_filter.mpr ⟨h, by simp⟩, rfl⟩

/-- With one message a replica, planning fails only on a transition of an unknown partition. -/
theorem plannable_iff (h : Unambiguous pending) : d.Plannable pending mode ↔
    ∀ plan ∈ d.plans, ∀ t ∈ d.pendingFor pending mode plan,
      Known plan.ideal (d.planning plan) leaderStandby t.partition t.sourceState t.targetState := by
  refine forall₂_congr fun plan _ ↦ ?_
  rw [checkPending_eq_ok_iff]
  refine and_iff_left ⟨?_, by simp⟩
  have distinct := d.nodup_inFlight_of_unambiguous mode h
  rw [List.Nodup, List.pairwise_map] at distinct
  rw [pendingFor, pendingForResource, List.map_map, List.Nodup, List.pairwise_map,
    List.pairwise_filter]
  refine distinct.imp fun {a b} differ ha hb same ↦ differ ?_
  simp only [Function.comp_apply, Prod.mk.injEq, decide_eq_true_eq] at ha hb same
  simp only [ha, hb, same]

theorem known_iff {plan : ResourcePlan} {p : PartitionId} {source target : State}
    (unlisted : plan.ideal.preferenceList p = none)
    (seen : ∃ j s, visible snapshot d.configs plan.resource p j = some s) :
    Known plan.ideal (d.planning plan) leaderStandby p source target ↔
      leaderStandby.nextStateToward source dropped = some target := by
  have recorded : p ∈ (d.planning plan).entries := by
    obtain ⟨j, s, hs⟩ := seen
    have alive : j ∈ liveSet snapshot := by
      rw [visible] at hs
      split at hs
      · exact mem_liveSet.mpr (CoordinationSnapshot.reported_live hs)
      · cases hs
    refine ReplicaStates.mem_entries.mpr ⟨j, s, ?_⟩
    rw [planning, state_planningState, if_neg (not_not.mpr alive), actual,
      state_activeCurrentState, hs]
    rfl
  simp [Known, unlisted, isDropPath, leaderStandby.dropped_eq, recorded]

/-- A transition in flight stems from a kept message and concerns a planned resource. -/
theorem retained_of_pendingFor {plan : ResourcePlan} (mem : plan ∈ d.plans) {t : PendingTransition}
    (ht : t ∈ d.pendingFor pending mode plan) : ∃ m ∈ pending,
      toOperationalPending m =
        some ⟨plan.resource, t.partition, t.instance_, t.sourceState, t.targetState⟩ ∧
      snapshot.live t.instance_ = some m.targetSession ∧
      (plan.ideal.preferenceList t.partition ≠ none ∨
        ∃ j s, visible snapshot d.configs plan.resource t.partition j = some s) ∧
      (mode = .sessionReplacement →
        ¬((plan.ideal.preferenceList t.partition).any (t.instance_ ∈ ·) = true ↔
          (m.target = "OFFLINE" ∨ m.target = "DROPPED"))) ∧
      ∀ s, visible snapshot d.configs plan.resource t.partition t.instance_ = some s →
        s.asStr = m.source := by
  obtain ⟨m, hm, hop⟩ := mem_inFlight (mem_pendingFor.mp ht)
  obtain ⟨hr, hp, hi, -, -⟩ := toOperationalPending_eq_some.mp hop
  obtain ⟨hpending, hretains⟩ := mem_retained.mp hm
  obtain ⟨live, other, hother, same, rest⟩ := (retains_iff hr hp hi).mp hretains
  obtain rfl : other = plan := List.inj_on_of_nodup_map d.nodup_plans hother mem same
  exact ⟨m, hpending, hop, live, by simpa using rest⟩

theorem plannable_iff_blocks (h : Unambiguous pending) (valid : ∀ m ∈ pending, m.WellFormed) :
    d.Plannable pending mode ↔
      mode = .sessionReplacement ∨ ∀ m ∈ pending, ¬d.Blocks m := by
  rw [plannable_iff h]
  constructor
  · intro known
    by_contra blocked
    obtain ⟨strict, m, hm, hblocks⟩ : mode ≠ .sessionReplacement ∧ ∃ m ∈ pending, d.Blocks m := by
      simpa [not_or] using blocked
    obtain ⟨t, ht, live, plan, mem, same, unlisted, seen, agrees, upward⟩ := hblocks
    obtain ⟨hr, hp, hi, -, hs, hu, -⟩ := sameTransition_iff.mp ht
    have hretains : retains snapshot d.actual d.plans (mode = .sessionReplacement) m = true := by
      rw [retains_iff hr hp hi]
      exact ⟨live, plan, mem, same, .inr seen, by simp [strict],
        fun s hvisible ↦ by rw [agrees s hvisible, hs]⟩
    have flying : (⟨t.resource, t.partition, t.instance_, t.sourceState, t.targetState⟩ :
        OperationalPendingTransition) ∈ d.inFlight pending mode := by
      rw [inFlight, operationalPendingForPlans, List.mem_filter, List.mem_filterMap]
      exact ⟨⟨m, mem_retained.mpr ⟨hm, hretains⟩,
        toOperationalPending_eq_some.mpr ⟨hr, hp, hi, hs, hu⟩⟩, by simp [strict]⟩
    rw [← same] at flying seen
    exact upward ((known_iff unlisted seen).mp
      (known plan mem ⟨_, _, _, _⟩ (mem_pendingFor.mpr flying)))
  · intro accepted plan mem t ht
    obtain ⟨m, hm, hop, live, understood, fenced, agrees⟩ := retained_of_pendingFor mem ht
    obtain ⟨hr, hp, hi, hs, hu⟩ := toOperationalPending_eq_some.mp hop
    cases unlisted : plan.ideal.preferenceList t.partition with
    | some list => exact .inl (by simp [unlisted])
    | none =>
      have seen := understood.resolve_left (not_not.mpr unlisted)
      rw [known_iff unlisted seen]
      obtain ⟨u, hsame, declared⟩ := valid m hm
      obtain ⟨-, -, -, -, hs', hu', htype⟩ := sameTransition_iff.mp hsame
      rw [show u.sourceState = t.sourceState from Name.asStr_injective (hs'.symm.trans hs),
        show u.targetState = t.targetState from Name.asStr_injective (hu'.symm.trans hu)] at declared
      rcases accepted with strict | unblocked
      · have draining : m.target = "OFFLINE" ∨ m.target = "DROPPED" := by
          simpa [unlisted, or_iff_not_imp_left] using fenced strict
        rw [leaderStandby.next_dropped_of_declared declared]
        rw [hu] at draining
        exact draining.elim (fun h ↦ .inl (Name.asStr_injective h))
          fun h ↦ .inr (.inl (Name.asStr_injective h))
      · by_contra upward
        refine unblocked m hm ⟨⟨plan.resource, t.partition, t.instance_, t.sourceState,
          t.targetState⟩, ?_, live, plan, mem, rfl, unlisted, seen, fun s hvisible ↦ ?_, upward⟩
        · exact sameTransition_iff.mpr ⟨hr, hp, hi, rfl, hs, hu, htype⟩
        · exact Name.asStr_injective ((agrees s hvisible).trans hs)

/-- A cycle over a queue of the controllers' own making runs in `SessionReplacement` mode always,
and in the other modes unless a message blocks it. -/
theorem compute_isOk_of_published (d : Decoded crush snapshot)
    {configs : List StateTransitionThrottleConfig} (hthrottles : throttles snapshot = .ok configs)
    (h : Published crush queue) :
    (∃ outputs, computeOutputsWithPendingPolicy crush snapshot queue mode = .ok outputs) ↔
      mode = .sessionReplacement ∨ ∀ m ∈ queue, ¬d.Blocks m := by
  rw [d.compute_isOk_iff, plannable_iff_blocks h.invariant.1 h.invariant.2]
  refine and_iff_right ?_
  unfold cycleThrottles
  split
  · exact ⟨_, rfl⟩
  · exact ⟨configs, hthrottles⟩

end Decoded

/-- A decodable snapshot plans in every mode from any queue the controllers can have left behind,
exactly when no message of the queue blocks. -/
theorem cycles_succeed_iff {crush : Crush} {snapshot : CoordinationSnapshot}
    (d : Decoded crush snapshot) {configs : List StateTransitionThrottleConfig}
    (hthrottles : throttles snapshot = .ok configs) {queue : List PublishedTransition}
    (h : Published crush queue) :
    (∀ mode, ∃ outputs, computeOutputsWithPendingPolicy crush snapshot queue mode = .ok outputs) ↔
      ∀ m ∈ queue, ¬d.Blocks m := by
  simp only [d.compute_isOk_of_published hthrottles h]
  constructor
  · intro all
    simpa using all .normal
  · exact fun unblocked mode ↦ .inr unblocked

section RemovedPartition

theorem nodeA_nonempty : "a" ≠ "" := by decide

def nodeA : InstanceId := ⟨"a", nodeA_nonempty⟩
def resourceR : ResourceId := ⟨"r", by decide⟩
def partitionP : PartitionId := ⟨"p", by decide⟩

def oneReplicaStates : CurrentState :=
  rebuild ((∅ : PartitionStates).insert partitionP ((∅ : InstanceStates).insert nodeA standby))

/-- A live standby of partition `p`, and a resource that lists the given partition. -/
def oneReplica (listed : String) : CoordinationSnapshot where
  revision := 7
  authoritativeRevision := 7
  metadata := ((∅ : BTreeMap String MetadataEntry).insert instanceConfigsKey
    ⟨some (.instances [⟨"a", "zone"⟩]), 3⟩).insert (resourceKeyLead ++ "r")
    ⟨some (.resource ⟨"r", "LeaderStandby", "SEMI_AUTO", 1,
      (∅ : BTreeMap String (List String)).insert listed ["a"], [], none⟩), 4⟩
  participants := {
    liveInstances := (∅ : BTreeMap InstanceId SessionId).insert nodeA 1
    activeCurrentState := (∅ : BTreeMap InstanceId ActiveCurrentState).insert nodeA
      ⟨1, (∅ : BTreeMap ResourceId CurrentState).insert resourceR oneReplicaStates⟩
    sessions := by
      intro i
      simp only [OrderedMap.getElem?_insert]
      split <;> simp
    own := by
      intro i active hactive r current hcurrent p j hj
      rw [OrderedMap.getElem?_insert] at hactive
      split at hactive <;> rename_i hi
      · cases hactive
        simp only [OrderedMap.getElem?_insert] at hcurrent
        split at hcurrent
        · cases hcurrent
          simp only [oneReplicaStates, state_rebuild, PartitionStates.lookup_insert,
            PartitionStates.lookup_empty, OrderedMap.getElem?_insert] at hj
          grind
        · simp at hcurrent
      · simp at hactive }
  controllerElection := ⟨none, ∅⟩

def noCrush : Crush := fun _ _ _ _ _ _ ↦ .error "no placement"

def promotion : PublishedTransition :=
  ⟨"r", "p", "a", 1, "STANDBY", "LEADER", "STATE_TRANSITION", "m10:7:0"⟩

def queueOf : Except ControllerRuntimeError (ExternalView × List PublishedTransition) →
    Option (List PublishedTransition)
  | .ok (_, queue) => some queue
  | .error _ => none

theorem throttles_oneReplica (listed : String) : throttles (oneReplica listed) = .ok [] := by
  simp [throttles, metadataValue, oneReplica, throttlesKey, resourceKeyLead, instanceConfigsKey]

theorem run_of_queueOf {outputs : Except ControllerRuntimeError (ExternalView ×
    List PublishedTransition)} {queue : List PublishedTransition} (h : queueOf outputs = some queue) :
    ∃ view, outputs = .ok (view, queue) := by
  cases outputs with
  | error e => cases h
  | ok result =>
    cases h
    exact ⟨result.1, rfl⟩

theorem promotion_published : Published noCrush [promotion] := by
  obtain ⟨view, run⟩ := run_of_queueOf (show queueOf (computeOutputsWithPendingPolicy noCrush
    (oneReplica "p") [] .normal) = some [promotion] by decide +kernel)
  exact .cycle .empty run

theorem cycles_succeed_while_listed : ∃ d : Decoded noCrush (oneReplica "p"),
    ∀ m ∈ [promotion], ¬d.Blocks m := by
  have runs : ∀ mode, ∃ view, computeOutputsWithPendingPolicy noCrush (oneReplica "p")
      [promotion] mode = .ok (view, [promotion]) := fun mode ↦
    run_of_queueOf (by cases mode <;> decide +kernel)
  obtain ⟨view, run⟩ := runs .normal
  obtain ⟨d⟩ := Decoded.of_compute run
  refine ⟨d, (cycles_succeed_iff d (throttles_oneReplica "p") promotion_published).mp
    fun mode ↦ ?_⟩
  obtain ⟨view, run⟩ := runs mode
  exact ⟨_, run⟩

/-- Removing the partition of a queued promotion from its resource makes the next cycle fail. -/
theorem cycle_fails_on_removed_partition :
    Published noCrush [promotion] ∧ Nonempty (Decoded noCrush (oneReplica "q")) ∧
    throttles (oneReplica "q") = .ok [] ∧
    ¬∃ outputs, computeOutputsWithPendingPolicy noCrush (oneReplica "q") [promotion] .normal =
      .ok outputs := by
  refine ⟨promotion_published, ?_, throttles_oneReplica "q", ?_⟩
  · obtain ⟨view, run⟩ := run_of_queueOf (show queueOf (computeOutputsWithPendingPolicy noCrush
      (oneReplica "q") [] .normal) = some [⟨"r", "p", "a", 1, "STANDBY", "OFFLINE",
        "STATE_TRANSITION", "m10:7:0"⟩, ⟨"r", "q", "a", 1, "OFFLINE", "STANDBY",
        "STATE_TRANSITION", "m10:7:1"⟩] by decide +kernel)
    exact Decoded.of_compute run
  · rintro ⟨outputs, h⟩
    have failed : queueOf (computeOutputsWithPendingPolicy noCrush (oneReplica "q") [promotion]
        .normal) = none := by decide +kernel
    rw [h] at failed
    cases failed

end RemovedPartition

end Clustodian
