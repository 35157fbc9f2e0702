import Clustodian.Chaos.Minimizer

/-! When the minimizer of failing traces comes to an end. -/

namespace Clustodian.Chaos

open DeltaDebugging

section Parameters

/-- The unsigned and the signed parameters of a fault. -/
def NetworkToxic.unsigned : NetworkToxic → List ℕ
  | .latency milliseconds jitter => [milliseconds, jitter]
  | .timeout milliseconds | .slowClose milliseconds => [milliseconds]
  | .bandwidth kilobytes => [kilobytes]
  | .disconnect | .directionalDisconnect _ | .connectionReset => []

def CallbackBehavior.unsigned : CallbackBehavior → List ℕ
  | .succeedSlowly milliseconds => [milliseconds]
  | .repeatedError attempts => [attempts]
  | .succeedImmediately | .block _ | .error | .panic => []

def ClockPerturbation.unsigned : ClockPerturbation → List ℕ
  | .suspend milliseconds | .delayedKeepalive milliseconds => [milliseconds]
  | .wallForward _ | .wallBackward _ | .monotonicOffset _ => []

def ClockPerturbation.signed : ClockPerturbation → List ℤ
  | .wallForward milliseconds | .wallBackward milliseconds | .monotonicOffset milliseconds =>
    [milliseconds]
  | .suspend _ | .delayedKeepalive _ => []

def FailpointBehavior.unsigned : FailpointBehavior → List ℕ
  | .pause milliseconds => [milliseconds]
  | .returnError | .panic | .hardAbort => []

def Fault.unsigned : Fault → List ℕ
  | .network _ toxic duration => duration :: toxic.unsigned
  | .callback _ behavior => behavior.unsigned
  | .clock _ perturbation => perturbation.unsigned
  | .failpoint _ behavior => behavior.unsigned
  | .etcdMemberRestart _ | .etcdCompaction => []

def Fault.signed : Fault → List ℤ
  | .clock _ perturbation => perturbation.signed
  | _ => []

/-- The sum of all parameters. -/
def Fault.weight (fault : Fault) : ℕ := fault.unsigned.sum + (fault.signed.map Int.natAbs).sum

theorem mem_lowerValues {α : Type} [DecidableEq α] {value half one zero reduced : α} :
    reduced ∈ lowerValues value half one zero ↔
      reduced ≠ value ∧ (reduced = half ∨ reduced = one ∨ reduced = zero) := by
  have loop (tried values : List α) : reduced ∈ tried.foldl (fun values reduced ↦
      if reduced ≠ value ∧ reduced ∉ values then values ++ [reduced] else values) values ↔
      reduced ∈ values ∨ reduced ≠ value ∧ reduced ∈ tried := by
    induction tried generalizing values with
    | nil => simp
    | cons first tried ih =>
      rw [List.foldl_cons, ih]
      by_cases new : first ≠ value ∧ first ∉ values
      · rw [if_pos new, List.mem_append, List.mem_singleton, List.mem_cons, or_assoc]
        constructor
        · rintro (mem | rfl | ⟨differs, mem⟩)
          · exact .inl mem
          · exact .inr ⟨new.1, .inl rfl⟩
          · exact .inr ⟨differs, .inr mem⟩
        · rintro (mem | ⟨differs, rfl | mem⟩)
          · exact .inl mem
          · exact .inr (.inl rfl)
          · exact .inr (.inr ⟨differs, mem⟩)
      · rw [if_neg new, List.mem_cons]
        constructor
        · rintro (mem | ⟨differs, mem⟩)
          · exact .inl mem
          · exact .inr ⟨differs, .inr mem⟩
        · rintro (mem | ⟨differs, rfl | mem⟩)
          · exact .inl mem
          · exact .inl (by_contra fun absent ↦ new ⟨differs, absent⟩)
          · exact .inr ⟨differs, mem⟩
  rw [lowerValues, loop]
  simp

/-- A zero is not lowered: one is tried in its place. -/
theorem mem_lowerUnsigned {value reduced : ℕ} (h : reduced ∈ lowerUnsigned value) :
    reduced < value ∨ value = 0 ∧ reduced = 1 := by
  obtain ⟨differs, half | one | zero⟩ := mem_lowerValues.mp h
  · omega
  · omega
  · omega

theorem lowerUnsigned_ne_nil (value : ℕ) : lowerUnsigned value ≠ [] := by
  by_cases zero : value = 0
  · exact List.ne_nil_of_mem (mem_lowerValues.mpr ⟨by omega, .inr (.inl rfl)⟩)
  · exact List.ne_nil_of_mem (mem_lowerValues.mpr ⟨Ne.symm zero, .inr (.inr rfl)⟩)

theorem mem_lowerI64 {value reduced : ℤ} (h : reduced ∈ lowerI64 value) :
    reduced.natAbs < value.natAbs := by
  obtain ⟨differs, half | one | zero⟩ := mem_lowerValues.mp h
  · have magnitude : reduced.natAbs = value.natAbs / 2 := by
      rw [half, Int.natAbs_tdiv]
      rfl
    have differs' : value ≠ 0 := by
      rintro rfl
      exact differs half
    have positive := Int.natAbs_pos.mpr differs'
    omega
  · rcases lt_trichotomy value 0 with negative | rfl | positive
    · rw [Int.sign_eq_neg_one_of_neg negative] at one
      omega
    · exact absurd one differs
    · rw [Int.sign_eq_one_of_pos positive] at one
      omega
  · rw [zero] at differs ⊢
    exact Int.natAbs_pos.mpr (Ne.symm differs)

/-- One of the parameters has been lowered, or raised from zero to one. -/
def Lowered (old new : List ℕ) : Prop :=
  new.length = old.length ∧ (new.sum < old.sum ∨ 0 ∈ old ∧ new.sum = old.sum + 1)

theorem lowered_singleton {value reduced : ℕ} (h : reduced ∈ lowerUnsigned value) :
    Lowered [value] [reduced] := by
  refine ⟨rfl, ?_⟩
  rcases mem_lowerUnsigned h with less | ⟨rfl, rfl⟩
  · exact .inl (by simpa using less)
  · exact .inr ⟨List.mem_singleton_self _, rfl⟩

theorem Lowered.append {old new : List ℕ} (h : Lowered old new) (before after : List ℕ) :
    Lowered (before ++ old ++ after) (before ++ new ++ after) := by
  obtain ⟨length, less | ⟨zero, more⟩⟩ := h
  · refine ⟨by simp [length], .inl ?_⟩
    simp only [List.sum_append]
    omega
  · refine ⟨by simp [length], .inr ⟨by simp [zero], ?_⟩⟩
    simp only [List.sum_append]
    omega

theorem NetworkToxic.mem_reduce {toxic reduced : NetworkToxic} (h : reduced ∈ toxic.reduce) :
    Lowered toxic.unsigned reduced.unsigned := by
  cases toxic with
  | latency milliseconds jitter =>
    simp only [NetworkToxic.reduce, List.mem_append, List.mem_map] at h
    rcases h with ⟨value, mem, rfl⟩ | ⟨value, mem, rfl⟩
    · exact (lowered_singleton mem).append [] [jitter]
    · exact (lowered_singleton mem).append [milliseconds] []
  | timeout milliseconds | slowClose milliseconds | bandwidth milliseconds =>
    obtain ⟨value, mem, rfl⟩ := List.mem_map.mp h
    exact lowered_singleton mem
  | disconnect | directionalDisconnect _ | connectionReset => cases h

theorem CallbackBehavior.mem_reduce {behavior reduced : CallbackBehavior}
    (h : reduced ∈ behavior.reduce) : Lowered behavior.unsigned reduced.unsigned := by
  cases behavior with
  | succeedSlowly milliseconds | repeatedError milliseconds =>
    obtain ⟨value, mem, rfl⟩ := List.mem_map.mp h
    exact lowered_singleton mem
  | succeedImmediately | block _ | error | panic => cases h

theorem FailpointBehavior.mem_reduce {behavior reduced : FailpointBehavior}
    (h : reduced ∈ behavior.reduce) : Lowered behavior.unsigned reduced.unsigned := by
  cases behavior with
  | pause milliseconds =>
    obtain ⟨value, mem, rfl⟩ := List.mem_map.mp h
    exact lowered_singleton mem
  | returnError | panic | hardAbort => cases h

/-- Signed parameters only get smaller. -/
theorem ClockPerturbation.mem_reduce {perturbation reduced : ClockPerturbation}
    (h : reduced ∈ perturbation.reduce) :
    (Lowered perturbation.unsigned reduced.unsigned ∧ reduced.signed = perturbation.signed) ∨
      reduced.unsigned = perturbation.unsigned ∧
        (reduced.signed.map Int.natAbs).sum < (perturbation.signed.map Int.natAbs).sum := by
  cases perturbation with
  | suspend milliseconds | delayedKeepalive milliseconds =>
    obtain ⟨value, mem, rfl⟩ := List.mem_map.mp h
    exact .inl ⟨lowered_singleton mem, rfl⟩
  | wallForward milliseconds | wallBackward milliseconds | monotonicOffset milliseconds =>
    obtain ⟨value, mem, rfl⟩ := List.mem_map.mp h
    exact .inr ⟨rfl, by simpa [ClockPerturbation.signed] using mem_lowerI64 mem⟩

/-- A candidate for a fault has as many parameters; their sum is smaller, unless a zero was raised
to one. -/
theorem Fault.mem_reduce {fault reduced : Fault} (h : reduced ∈ fault.reduce) :
    reduced.unsigned.length = fault.unsigned.length ∧
      (reduced.weight < fault.weight ∨
        0 ∈ fault.unsigned ∧ reduced.weight = fault.weight + 1) := by
  have unsigned (lowered : Lowered fault.unsigned reduced.unsigned)
      (signed : reduced.signed = fault.signed) :
      reduced.unsigned.length = fault.unsigned.length ∧ (reduced.weight < fault.weight ∨
        0 ∈ fault.unsigned ∧ reduced.weight = fault.weight + 1) := by
    obtain ⟨length, less | ⟨zero, more⟩⟩ := lowered
    · refine ⟨length, .inl ?_⟩
      rw [Fault.weight, Fault.weight, signed]
      omega
    · refine ⟨length, .inr ⟨zero, ?_⟩⟩
      rw [Fault.weight, Fault.weight, signed]
      omega
  cases fault with
  | network target toxic duration =>
    simp only [Fault.reduce, List.mem_append, List.mem_map] at h
    rcases h with ⟨value, mem, rfl⟩ | ⟨toxic', mem, rfl⟩
    · exact unsigned ((lowered_singleton mem).append [] toxic.unsigned) rfl
    · refine unsigned ?_ rfl
      have lowered := (NetworkToxic.mem_reduce mem).append [duration] []
      rwa [List.append_nil, List.append_nil] at lowered
  | callback participant behavior =>
    obtain ⟨behavior', mem, rfl⟩ := List.mem_map.mp h
    exact unsigned (CallbackBehavior.mem_reduce mem) rfl
  | failpoint point behavior =>
    obtain ⟨behavior', mem, rfl⟩ := List.mem_map.mp h
    exact unsigned (FailpointBehavior.mem_reduce mem) rfl
  | clock participant perturbation =>
    obtain ⟨perturbation', mem, rfl⟩ := List.mem_map.mp h
    rcases ClockPerturbation.mem_reduce mem with ⟨lowered, signed⟩ | ⟨same, less⟩
    · exact unsigned lowered signed
    · refine ⟨congrArg List.length same, .inl ?_⟩
      simp only [Fault.weight, Fault.unsigned, Fault.signed, same]
      omega
  | etcdMemberRestart member => cases h
  | etcdCompaction => cases h

/-- A fault with an unsigned parameter has a candidate. -/
theorem Fault.reduce_ne_nil {fault : Fault} (h : fault.unsigned ≠ []) : fault.reduce ≠ [] := by
  cases fault with
  | network target toxic duration =>
    simp [Fault.reduce, lowerUnsigned_ne_nil]
  | callback participant behavior =>
    cases behavior <;> simp_all [Fault.reduce, CallbackBehavior.reduce, Fault.unsigned,
      CallbackBehavior.unsigned, lowerUnsigned_ne_nil]
  | clock participant perturbation =>
    cases perturbation <;> simp_all [Fault.reduce, ClockPerturbation.reduce, Fault.unsigned,
      ClockPerturbation.unsigned, lowerUnsigned_ne_nil]
  | failpoint point behavior =>
    cases behavior <;> simp_all [Fault.reduce, FailpointBehavior.reduce, Fault.unsigned,
      FailpointBehavior.unsigned, lowerUnsigned_ne_nil]
  | etcdMemberRestart member => exact absurd rfl h
  | etcdCompaction => exact absurd rfl h

end Parameters

section Weights

variable {trace candidate : Trace} {reproduces : Trace → Bool}

def Trace.parameters (trace : Trace) : ℕ := (trace.faults.map (·.fault.weight)).sum

/-- The largest replica count of a resource name, which may be declared more than once. -/
def largestReplicas (resources : List ResourceConfig) (name : String) : ℕ :=
  ((resources.filter (·.name = name)).map (·.replicas)).foldr max 0

def ClusterConfig.weight (config : ClusterConfig) : ℕ :=
  config.controllers.length + config.participants.length + config.resources.length +
    (config.resources.map (·.partitions.length)).sum +
    (config.resources.map fun resource ↦ largestReplicas config.resources resource.name).sum

/-- What every accepted candidate makes smaller, unless it raises a zero. -/
def Trace.weight (trace : Trace) : ℕ :=
  trace.actions.length + trace.faults.length + trace.parameters + trace.initialConfig.weight

theorem sublist_filterMap {α β : Type} {f : α → Option α} {g : α → β}
    (keeps : ∀ a b, f a = some b → g b = g a) (items : List α) :
    ((items.filterMap f).map g).Sublist (items.map g) := by
  induction items with
  | nil => exact List.nil_sublist _
  | cons item items ih =>
    rw [List.filterMap_cons, List.map_cons]
    cases kept : f item with
    | none => exact ih.cons _
    | some item' =>
      rw [List.map_cons, keeps item item' kept]
      exact ih.cons_cons _

/-- Some faults may be gone; the others are as they were. -/
def Fewer (trace candidate : Trace) : Prop :=
  (candidate.faults.map (·.fault)).Sublist (trace.faults.map (·.fault))

theorem Fewer.length (h : Fewer trace candidate) : candidate.faults.length ≤ trace.faults.length := by
  simpa using h.length_le

theorem Fewer.parameters (h : Fewer trace candidate) : candidate.parameters ≤ trace.parameters := by
  have sums := (List.Sublist.map Fault.weight h).sum_le_sum fun _ _ ↦ Nat.zero_le _
  rw [List.map_map, List.map_map] at sums
  exact sums

theorem Carries.fewer {rewrite : ℕ → Action → Option Action} {names : Fault → Prop}
    [DecidablePred names] (h : Carries rewrite names trace candidate) : Fewer trace candidate := by
  obtain ⟨place, -, faults⟩ := h
  rw [Fewer, faults]
  refine sublist_filterMap (fun scheduled kept eq ↦ ?_) trace.faults
  split at eq
  · cases eq
  · obtain ⟨_, -, rfl⟩ := Option.map_eq_some_iff.mp eq
    rfl

theorem fewer_removeActions (h : actionRanges.Accepts reproduces trace candidate) :
    Fewer trace candidate := by
  obtain ⟨⟨start, stop, removed⟩, -⟩ := h
  exact (removeActionRange_carries removed).fewer

theorem fewer_removeFaults (h : faultRanges.Accepts reproduces trace candidate) :
    Fewer trace candidate := by
  obtain ⟨⟨start, stop, removed⟩, -⟩ := h
  obtain ⟨nonempty, inside⟩ := valid_removeFaultRange removed
  have removed : removeFaultRange trace start stop = some candidate := removed
  rw [removeFaultRange, if_neg (by omega)] at removed
  obtain rfl := Option.some.inj removed
  refine List.Sublist.map _ ?_
  conv_rhs => rw [← List.take_append_drop start trace.faults]
  exact (List.Sublist.refl _).append (List.drop_sublist_drop_left _ nonempty.le)

theorem fewer_topology (h : Takes reduceClusterAndResources reproduces trace candidate) :
    Fewer trace candidate := by
  obtain ⟨_, -, carries, -⟩ := reduction_of_candidate h.1
  exact carries.fewer

theorem weight_removeActions (h : actionRanges.Accepts reproduces trace candidate) :
    candidate.weight < trace.weight := by
  have parameters := (fewer_removeActions h).parameters
  have length := (fewer_removeActions h).length
  have shorter : candidate.actions.length < trace.actions.length := h.size_lt
  obtain ⟨⟨start, stop, removed⟩, -⟩ := h
  have config : candidate.initialConfig = trace.initialConfig := by
    have removed : removeActionRange trace start stop = some candidate := removed
    unfold removeActionRange at removed
    split at removed
    · cases removed
    · rw [← Option.some.inj removed]
  rw [Trace.weight, Trace.weight, config]
  omega

theorem weight_removeFaults (h : faultRanges.Accepts reproduces trace candidate) :
    candidate.weight < trace.weight := by
  have parameters := (fewer_removeFaults h).parameters
  have shorter : candidate.faults.length < trace.faults.length := h.size_lt
  obtain ⟨⟨start, stop, removed⟩, -⟩ := h
  have same : candidate.actions = trace.actions ∧ candidate.initialConfig = trace.initialConfig := by
    have removed : removeFaultRange trace start stop = some candidate := removed
    unfold removeFaultRange at removed
    split at removed
    · cases removed
    · obtain rfl := Option.some.inj removed
      exact ⟨rfl, rfl⟩
  rw [Trace.weight, Trace.weight, same.1, same.2]
  omega

theorem le_largestReplicas {resources : List ResourceConfig} {resource : ResourceConfig}
    (mem : resource ∈ resources) : resource.replicas ≤ largestReplicas resources resource.name := by
  have listed : resource.replicas ∈ (resources.filter (·.name = resource.name)).map (·.replicas) :=
    List.mem_map_of_mem (List.mem_filter.mpr ⟨mem, decide_eq_true rfl⟩)
  unfold largestReplicas
  generalize (resources.filter (·.name = resource.name)).map (·.replicas) = counts at listed
  induction counts with
  | nil => cases listed
  | cons count counts ih =>
    rw [List.foldr_cons, le_max_iff]
    rcases List.mem_cons.mp listed with same | later
    · exact .inl same.le
    · exact .inr (ih later)

theorem largestReplicas_le {resources : List ResourceConfig} {name : String} {bound : ℕ}
    (h : ∀ resource ∈ resources, resource.name = name → resource.replicas ≤ bound) :
    largestReplicas resources name ≤ bound := by
  unfold largestReplicas
  induction resources with
  | nil => exact Nat.zero_le _
  | cons resource resources ih =>
    have rest := ih fun other mem ↦ h other (List.mem_cons_of_mem _ mem)
    by_cases same : resource.name = name
    · rw [List.filter_cons_of_pos (by simpa using same), List.map_cons, List.foldr_cons]
      exact max_le (h resource List.mem_cons_self same) rest
    · rw [List.filter_cons_of_neg (by simpa using same)]
      exact rest

/-- A change of the resources that keeps names and counts. -/
theorem largestReplicas_map {resources : List ResourceConfig} {change : ResourceConfig → ResourceConfig}
    {name : String} (names : ∀ resource, (change resource).name = resource.name)
    (counts : ∀ resource, resource.name = name → (change resource).replicas = resource.replicas) :
    largestReplicas (resources.map change) name = largestReplicas resources name := by
  unfold largestReplicas
  induction resources with
  | nil => rfl
  | cons resource resources ih =>
    rw [List.map_cons]
    by_cases same : resource.name = name
    · rw [List.filter_cons_of_pos (by simpa [names] using same),
        List.filter_cons_of_pos (by simpa using same), List.map_cons, List.map_cons,
        List.foldr_cons, List.foldr_cons, counts resource same, ih]
    · rw [List.filter_cons_of_neg (by simpa [names] using same),
        List.filter_cons_of_neg (by simpa using same), ih]

theorem weight_controller {config : ClusterConfig} {controller : String}
    (mem : controller ∈ config.controllers) :
    ({ config with controllers := config.controllers.filter (· ≠ controller) } : ClusterConfig).weight <
      config.weight := by
  have shorter : (config.controllers.filter (· ≠ controller)).length < config.controllers.length :=
    List.length_filter_lt_length_iff_exists.mpr ⟨controller, mem, by simp⟩
  simp only [ClusterConfig.weight]
  omega

theorem weight_participant {config : ClusterConfig} {participant : ParticipantConfig}
    (mem : participant ∈ config.participants) :
    ({ config with
      participants := config.participants.filter (·.id ≠ participant.id)
      resources := config.resources.map (pruneResourceParticipant participant.id) } :
        ClusterConfig).weight < config.weight := by
  have shorter : (config.participants.filter (·.id ≠ participant.id)).length <
      config.participants.length :=
    List.length_filter_lt_length_iff_exists.mpr ⟨participant, mem, by simp⟩
  have largest (name : String) : largestReplicas
      (config.resources.map (pruneResourceParticipant participant.id)) name =
      largestReplicas config.resources name := largestReplicas_map (fun _ ↦ rfl) fun _ _ ↦ rfl
  simp only [ClusterConfig.weight, List.length_map, List.map_map, Function.comp_def, largest]
  have same : (config.resources.map fun resource ↦
      (pruneResourceParticipant participant.id resource).partitions.length) =
      config.resources.map (·.partitions.length) := rfl
  have names : (config.resources.map fun resource ↦ largestReplicas config.resources
      (pruneResourceParticipant participant.id resource).name) =
      config.resources.map fun resource ↦ largestReplicas config.resources resource.name := rfl
  rw [same, names]
  omega

theorem weight_resource {config : ClusterConfig} {resource : ResourceConfig}
    (mem : resource ∈ config.resources) :
    ({ config with resources := config.resources.filter (·.name ≠ resource.name) } :
      ClusterConfig).weight < config.weight := by
  have shorter : (config.resources.filter (·.name ≠ resource.name)).length <
      config.resources.length :=
    List.length_filter_lt_length_iff_exists.mpr ⟨resource, mem, by simp⟩
  have rest : (config.resources.filter (·.name ≠ resource.name)).Sublist config.resources :=
    List.filter_sublist
  have partitions := (rest.map (·.partitions.length)).sum_le_sum fun _ _ ↦ Nat.zero_le _
  have largest := (rest.map fun other ↦ largestReplicas config.resources other.name).sum_le_sum
    fun _ _ ↦ Nat.zero_le _
  -- the other names keep all their declarations
  have kept : ((config.resources.filter (·.name ≠ resource.name)).map fun other ↦
      largestReplicas (config.resources.filter (·.name ≠ resource.name)) other.name) =
      (config.resources.filter (·.name ≠ resource.name)).map fun other ↦
        largestReplicas config.resources other.name := by
    refine List.map_congr_left fun other listed ↦ ?_
    have differs : other.name ≠ resource.name := by simpa using (List.mem_filter.mp listed).2
    unfold largestReplicas
    rw [List.filter_filter]
    congr 2
    refine List.filter_congr fun third _ ↦ ?_
    by_cases same : third.name = other.name
    · simp [same, differs]
    · simp [same]
  simp only [ClusterConfig.weight, kept]
  omega

theorem weight_partition {config : ClusterConfig} {resource : ResourceConfig} {partition : String}
    (mem : resource ∈ config.resources) (listed : partition ∈ resource.partitions) :
    ({ config with
      resources := config.resources.map (pruneResourcePartition resource.name partition) } :
        ClusterConfig).weight < config.weight := by
  have names (other : ResourceConfig) :
      (pruneResourcePartition resource.name partition other).name = other.name := by
    unfold pruneResourcePartition
    split <;> rfl
  have largest (name : String) : largestReplicas
      (config.resources.map (pruneResourcePartition resource.name partition)) name =
      largestReplicas config.resources name := largestReplicas_map names fun other _ ↦ by
    unfold pruneResourcePartition
    split <;> rfl
  have fewer : (config.resources.map fun other ↦
      (pruneResourcePartition resource.name partition other).partitions.length).sum <
      (config.resources.map (·.partitions.length)).sum := by
    refine List.sum_lt_sum _ _ (fun other _ ↦ ?_) ⟨resource, mem, ?_⟩
    · unfold pruneResourcePartition
      split
      · exact List.length_filter_le _ _
      · rfl
    · rw [pruneResourcePartition, if_pos rfl]
      exact List.length_filter_lt_length_iff_exists.mpr ⟨partition, listed, by simp⟩
  simp only [ClusterConfig.weight, List.length_map, List.map_map, Function.comp_def, largest, names]
  omega

theorem weight_replicas {config : ClusterConfig} {resource : ResourceConfig}
    (mem : resource ∈ config.resources) (large : 1 < resource.replicas) :
    ({ config with
      resources := config.resources.map (limitReplicas resource.name (resource.replicas / 2)) } :
        ClusterConfig).weight < config.weight := by
  have names (other : ResourceConfig) :
      (limitReplicas resource.name (resource.replicas / 2) other).name = other.name := by
    unfold limitReplicas
    split <;> rfl
  have partitions (other : ResourceConfig) : (limitReplicas resource.name (resource.replicas / 2)
      other).partitions = other.partitions := by
    unfold limitReplicas
    split <;> rfl
  -- all declarations of the name get the same count, which is below that of this one
  have limited : largestReplicas (config.resources.map
      (limitReplicas resource.name (resource.replicas / 2))) resource.name <
      largestReplicas config.resources resource.name := by
    have bound : largestReplicas (config.resources.map
        (limitReplicas resource.name (resource.replicas / 2))) resource.name ≤
        max (resource.replicas / 2) 1 := largestReplicas_le fun other listed same ↦ by
      obtain ⟨old, -, rfl⟩ := List.mem_map.mp listed
      rw [names] at same
      rw [limitReplicas, if_pos same]
    have above := le_largestReplicas mem
    omega
  have others {name : String} (differs : name ≠ resource.name) : largestReplicas
      (config.resources.map (limitReplicas resource.name (resource.replicas / 2))) name =
      largestReplicas config.resources name := largestReplicas_map names fun other same ↦ by
    rw [limitReplicas, if_neg (same ▸ differs)]
  have fewer : (config.resources.map fun other ↦ largestReplicas (config.resources.map
      (limitReplicas resource.name (resource.replicas / 2))) other.name).sum <
      (config.resources.map fun other ↦ largestReplicas config.resources other.name).sum := by
    refine List.sum_lt_sum _ _ (fun other _ ↦ ?_) ⟨resource, mem, limited⟩
    by_cases same : other.name = resource.name
    · rw [same]
      exact limited.le
    · exact (others same).le
  simp only [ClusterConfig.weight, List.length_map, List.map_map, Function.comp_def, partitions,
    names]
  omega

theorem transformActions_initialConfig (trace : Trace) (transform : Action → Option Action) :
    (transformActions trace transform).initialConfig = trace.initialConfig := by
  rw [transformActions, foldl_transformAction]

theorem length_transformActions (trace : Trace) (transform : Action → Option Action) :
    (transformActions trace transform).actions.length ≤ trace.actions.length := by
  rw [transformActions_actions]
  exact List.length_filterMap_le _ _

/-- Every candidate for a smaller topology is lighter. -/
theorem weight_topology (h : Takes reduceClusterAndResources reproduces trace candidate) :
    candidate.weight < trace.weight := by
  have parameters := (fewer_topology h).parameters
  have length := (fewer_topology h).length
  obtain ⟨mem, -⟩ := h
  have lighter (actions : candidate.actions.length ≤ trace.actions.length)
      (config : candidate.initialConfig.weight < trace.initialConfig.weight) :
      candidate.weight < trace.weight := by
    rw [Trace.weight, Trace.weight]
    omega
  apply lighter
  all_goals
    unfold reduceClusterAndResources at mem
    simp only [List.mem_append, List.mem_flatMap, List.mem_ite_nil_right, List.mem_map,
      List.mem_singleton] at mem
    rcases mem with ((⟨-, controller, listed, rfl⟩ | ⟨-, participant, listed, rfl⟩) |
      ⟨-, resource, listed, rfl⟩) | ⟨resource, listed, ⟨-, partition, member, rfl⟩ | ⟨large, rfl⟩⟩
  · exact length_transformActions _ _
  · exact length_transformActions _ _
  · exact length_transformActions _ _
  · exact length_transformActions _ _
  · exact (List.length_map _).le
  · simp only [removeController, transformActions_initialConfig]
    exact weight_controller listed
  · simp only [removeParticipant, transformActions_initialConfig]
    exact weight_participant listed
  · simp only [removeResource, transformActions_initialConfig]
    exact weight_resource listed
  · simp only [removePartition, transformActions_initialConfig]
    exact weight_partition listed member
  · exact weight_replicas listed large

/-- One of the faults has been replaced by a candidate for it. -/
theorem mem_faultCandidates : candidate ∈ faultCandidates trace ↔
    ∃ before scheduled after, ∃ reduced ∈ scheduled.fault.reduce,
      trace.faults = before ++ scheduled :: after ∧
      candidate = { trace with faults := before ++ { scheduled with fault := reduced } :: after } := by
  unfold faultCandidates
  rw [List.mem_flatMap]
  constructor
  · rintro ⟨i, -, mem⟩
    unfold reduceFault at mem
    split at mem
    · cases mem
    next scheduled found =>
    obtain ⟨reduced, listed, rfl⟩ := List.mem_map.mp mem
    obtain ⟨hi, rfl⟩ := List.getElem?_eq_some_iff.mp found
    refine ⟨trace.faults.take i, trace.faults[i], trace.faults.drop (i + 1), reduced, listed, ?_, ?_⟩
    · rw [← List.drop_eq_getElem_cons hi, List.take_append_drop]
    · rw [replaceFault, List.modify_eq_take_cons_drop hi]
  · rintro ⟨before, scheduled, after, reduced, listed, faults, rfl⟩
    have hi : before.length < trace.faults.length := by
      rw [faults, List.length_append, List.length_cons]
      omega
    refine ⟨before.length, List.mem_range.mpr hi, ?_⟩
    have found : trace.faults[before.length]? = some scheduled := by
      rw [faults, List.getElem?_append_right le_rfl, Nat.sub_self]
      rfl
    rw [reduceFault, found]
    refine List.mem_map.mpr ⟨reduced, listed, ?_⟩
    rw [replaceFault, faults, List.modify_eq_take_cons_drop (by simp)]
    simp

/-- A candidate has fewer parameters, unless it raises one that was zero. -/
theorem parameters_faultCandidates (mem : candidate ∈ faultCandidates trace) :
    candidate.parameters < trace.parameters ∨
      (∃ scheduled ∈ trace.faults, 0 ∈ scheduled.fault.unsigned) ∧
        candidate.parameters = trace.parameters + 1 := by
  obtain ⟨before, scheduled, after, reduced, listed, faults, rfl⟩ := mem_faultCandidates.mp mem
  simp only [Trace.parameters, faults, List.map_append, List.map_cons, List.sum_append,
    List.sum_cons]
  rcases (Fault.mem_reduce listed).2 with less | ⟨zero, more⟩
  · exact .inl (by omega)
  · exact .inr ⟨⟨scheduled, by simp, zero⟩, by omega⟩

/-- A candidate that raises no parameter is lighter. -/
theorem weight_faultCandidates (mem : candidate ∈ faultCandidates trace)
    (lowers : ¬trace.parameters < candidate.parameters) : candidate.weight < trace.weight := by
  have parameters := parameters_faultCandidates mem
  obtain ⟨before, scheduled, after, reduced, -, faults, rfl⟩ := mem_faultCandidates.mp mem
  have length : (before ++ { scheduled with fault := reduced } :: after).length =
      trace.faults.length := by
    rw [faults, List.length_append, List.length_append]
    rfl
  simp only [Trace.weight, length]
  omega

end Weights

section Returns

variable {reproduces : Trace → Bool} {trace : Trace}

/-- Some number of rounds is enough. -/
def Returns (reproduces : Trace → Bool) (trace : Trace) : Prop :=
  ∃ rounds, (minimize reproduces rounds trace).isSome

/-- A candidate that any of the phases accepts. -/
def Accepted (reproduces : Trace → Bool) (trace candidate : Trace) : Prop :=
  actionRanges.Accepts reproduces trace candidate ∨ faultRanges.Accepts reproduces trace candidate ∨
    Takes faultCandidates reproduces trace candidate ∨
    Takes reduceClusterAndResources reproduces trace candidate

theorem weight_of_accepted {candidate : Trace} (accepted : Accepted reproduces trace candidate)
    (lowers : candidate ∈ faultCandidates trace → ¬trace.parameters < candidate.parameters) :
    candidate.weight < trace.weight := by
  rcases accepted with actions | faults | parameter | topology
  · exact weight_removeActions actions
  · exact weight_removeFaults faults
  · exact weight_faultCandidates parameter.1 (lowers parameter.1)
  · exact weight_topology topology

theorem minimizeActionRanges_reaches (trace : Trace) :
    Relation.ReflTransGen (Accepted reproduces) trace (minimizeActionRanges reproduces trace) :=
  (Ranges.minimize_reaches _ trace).lift id fun _ _ ↦ .inl

theorem minimizeFaultRanges_reaches (trace : Trace) :
    Relation.ReflTransGen (Accepted reproduces) trace (minimizeFaultRanges reproduces trace) :=
  (Ranges.minimize_reaches _ trace).lift id fun _ _ accepted ↦ .inr (.inl accepted)

theorem minimizeFaultParameters_reaches {rounds : ℕ} {result : Trace}
    (h : minimizeFaultParameters reproduces rounds trace = some result) :
    Relation.ReflTransGen (Accepted reproduces) trace result :=
  (descend_reaches h).lift id fun _ _ accepted ↦ .inr (.inr (.inl accepted))

theorem minimizeTopology_reaches {rounds : ℕ} {result : Trace}
    (h : minimizeTopology reproduces rounds trace = some result) :
    Relation.ReflTransGen (Accepted reproduces) trace result :=
  (descend_reaches h).lift id fun _ _ accepted ↦ .inr (.inr (.inr accepted))

section Lighter

variable {keeps : Trace → Prop} (smaller : ∀ trace candidate, keeps trace →
  Accepted reproduces trace candidate → keeps candidate ∧ candidate.weight < trace.weight)

include smaller

theorem lighter_of_reaches {candidate : Trace} (kept : keeps trace)
    (reaches : Relation.ReflTransGen (Accepted reproduces) trace candidate) :
    keeps candidate ∧ (candidate = trace ∨ candidate.weight < trace.weight) := by
  induction reaches with
  | refl => exact ⟨kept, .inl rfl⟩
  | tail _ last ih =>
    obtain ⟨kept', less⟩ := smaller _ _ ih.1 last
    refine ⟨kept', .inr ?_⟩
    rcases ih.2 with rfl | lighter
    · exact less
    · exact less.trans lighter

/-- A run that accepts only lighter candidates ends. -/
theorem minimize_isSome {rounds : ℕ} (kept : keeps trace) (enough : trace.weight + 1 < rounds) :
    (minimize reproduces rounds trace).isSome := by
  induction rounds generalizing trace with
  | zero => omega
  | succ rounds ih =>
    -- the fuel is enough for what is reached from the trace
    have light {current : Trace}
        (reaches : Relation.ReflTransGen (Accepted reproduces) trace current) :
        keeps current ∧ current.weight < rounds := by
      obtain ⟨kept', same | lighter⟩ := lighter_of_reaches smaller kept reaches
      · rw [same]
        exact ⟨kept, by omega⟩
      · exact ⟨kept', by omega⟩
    have ranges := (minimizeActionRanges_reaches trace).trans
      (@minimizeFaultRanges_reaches reproduces _)
    obtain ⟨lowered, lowers⟩ := Option.isSome_iff_exists.mp (descend_isSome Trace.weight keeps
      (fun t t' kept accepted ↦ smaller t t' kept (.inr (.inr (.inl accepted))))
      (light ranges).1 (light ranges).2)
    have parameters := ranges.trans (minimizeFaultParameters_reaches lowers)
    obtain ⟨result, ends⟩ := Option.isSome_iff_exists.mp (descend_isSome Trace.weight keeps
      (fun t t' kept accepted ↦ smaller t t' kept (.inr (.inr (.inr accepted))))
      (light parameters).1 (light parameters).2)
    have reaches := parameters.trans (minimizeTopology_reaches ends)
    have round : minimize reproduces (rounds + 1) trace =
        if result = trace then some result else minimize reproduces rounds result := by
      rw [minimize]
      change (minimizeFaultParameters reproduces rounds _).bind _ = _
      rw [minimizeFaultParameters, lowers]
      change (minimizeTopology reproduces rounds _).bind _ = _
      rw [minimizeTopology, ends]
      rfl
    rw [round]
    split
    · rfl
    · next differs =>
      obtain ⟨kept', same | lighter⟩ := lighter_of_reaches smaller kept reaches
      · exact absurd same differs
      · exact ih kept' (by omega)

end Lighter

/-- No candidate is accepted that raises a parameter. -/
def NeverRaises (reproduces : Trace → Bool) : Prop :=
  ∀ trace, ∀ candidate ∈ faultCandidates trace, trace.parameters < candidate.parameters →
    reproduces candidate = false

theorem returns_of_neverRaises (h : NeverRaises reproduces) (trace : Trace) :
    Returns reproduces trace := by
  refine ⟨trace.weight + 2, @minimize_isSome _ _ (fun _ ↦ True) (fun t t' _ accepted ↦
    ⟨trivial, weight_of_accepted accepted fun mem raises ↦ ?_⟩) _ trivial (by omega)⟩
  have rejected := h t t' mem raises
  have reproduced : reproduces t' = true := by
    rcases accepted with accepted | accepted | accepted | accepted <;> exact accepted.2
  exact absurd reproduced (by simp [rejected])

/-- No fault has an unsigned parameter. -/
def OnlySigned (trace : Trace) : Prop := ∀ scheduled ∈ trace.faults, scheduled.fault.unsigned = []

theorem OnlySigned.fewer {candidate : Trace} (signed : OnlySigned trace)
    (fewer : Fewer trace candidate) : OnlySigned candidate := by
  intro scheduled mem
  obtain ⟨old, mem, same⟩ := List.mem_map.mp (fewer.subset (List.mem_map_of_mem mem))
  rw [← same]
  exact signed old mem

/-- A candidate for a fault has as many unsigned parameters. -/
theorem onlySigned_faultCandidates {candidate : Trace} (mem : candidate ∈ faultCandidates trace) :
    OnlySigned candidate ↔ OnlySigned trace := by
  obtain ⟨before, scheduled, after, reduced, listed, faults, rfl⟩ := mem_faultCandidates.mp mem
  have same : reduced.unsigned = [] ↔ scheduled.fault.unsigned = [] := by
    rw [← List.length_eq_zero_iff, ← List.length_eq_zero_iff, (Fault.mem_reduce listed).1]
  simp only [OnlySigned, faults, List.forall_mem_append, List.forall_mem_cons, same]

theorem OnlySigned.accepted {candidate : Trace} (signed : OnlySigned trace)
    (accepted : Accepted reproduces trace candidate) :
    OnlySigned candidate ∧ candidate.weight < trace.weight := by
  constructor
  · rcases accepted with actions | faults | parameter | topology
    · exact signed.fewer (fewer_removeActions actions)
    · exact signed.fewer (fewer_removeFaults faults)
    · exact (onlySigned_faultCandidates parameter.1).mpr signed
    · exact signed.fewer (fewer_topology topology)
  · refine weight_of_accepted accepted fun mem raises ↦ ?_
    rcases parameters_faultCandidates mem with less | ⟨⟨scheduled, mem, zero⟩, -⟩
    · omega
    · rw [signed scheduled mem] at zero
      cases zero

/-- A trace with an unsigned parameter has a candidate. -/
theorem exists_faultCandidate (h : ¬OnlySigned trace) : ∃ candidate ∈ faultCandidates trace,
    candidate.actions.length = trace.actions.length ∧
      candidate.faults.length = trace.faults.length := by
  unfold OnlySigned at h
  push Not at h
  obtain ⟨scheduled, mem, unsigned⟩ := h
  obtain ⟨reduced, listed⟩ := List.exists_mem_of_ne_nil _ (Fault.reduce_ne_nil unsigned)
  obtain ⟨before, after, faults⟩ := List.append_of_mem mem
  refine ⟨_, mem_faultCandidates.mpr ⟨before, scheduled, after, reduced, listed, faults, rfl⟩,
    rfl, ?_⟩
  rw [faults, List.length_append, List.length_append]
  rfl

/-- A trace is accepted if nothing has been removed from it. -/
def sameLengths (trace candidate : Trace) : Bool :=
  candidate.actions.length = trace.actions.length ∧ candidate.faults.length = trace.faults.length

/-- A trace with an unsigned parameter always has a candidate that has one, too. -/
theorem minimize_eq_none (h : ¬OnlySigned trace) (rounds : ℕ) :
    minimize (sameLengths trace) rounds trace = none := by
  have lengths {candidate : Trace} (accepted : sameLengths trace candidate = true) :
      candidate.actions.length = trace.actions.length ∧
        candidate.faults.length = trace.faults.length := of_decide_eq_true accepted
  cases rounds with
  | zero => rfl
  | succ rounds =>
    have actions : minimizeActionRanges (sameLengths trace) trace = trace :=
      Ranges.minimize_eq_self _ fun t' accepted ↦ accepted.size_lt.ne (lengths accepted.2).1
    have faults : minimizeFaultRanges (sameLengths trace) trace = trace :=
      Ranges.minimize_eq_self _ fun t' accepted ↦ accepted.size_lt.ne (lengths accepted.2).2
    have parameters : minimizeFaultParameters (sameLengths trace) rounds trace = none := by
      refine descend_eq_none (fun t ↦ sameLengths trace t = true ∧ ¬OnlySigned t) (fun t kept ↦ ?_)
        (fun t t' kept taken ↦ ⟨taken.2, ?_⟩) rounds ⟨by simp [sameLengths], h⟩
      · obtain ⟨candidate, mem, actions, faults⟩ := exists_faultCandidate kept.2
        have lengths := lengths kept.1
        refine ⟨candidate, mem, decide_eq_true ⟨by omega, by omega⟩⟩
      · rw [onlySigned_faultCandidates taken.1]
        exact kept.2
    rw [minimize, actions, faults]
    change (minimizeFaultParameters (sameLengths trace) rounds trace).bind _ = none
    rw [parameters]
    rfl

/-- The reductions of one fault come to an end. -/
theorem acc_reduce_iff (fault : Fault) :
    Acc (fun reduced fault ↦ reduced ∈ fault.reduce) fault ↔ fault.unsigned = [] := by
  constructor
  · intro acc
    induction acc with
    | intro fault _ ih =>
      by_contra unsigned
      obtain ⟨reduced, mem⟩ := List.exists_mem_of_ne_nil _ (Fault.reduce_ne_nil unsigned)
      have length := (Fault.mem_reduce mem).1
      rw [ih reduced mem, List.length_nil, eq_comm, List.length_eq_zero_iff] at length
      exact unsigned length
  · intro signed
    induction weight : fault.weight using Nat.strongRecOn generalizing fault with
    | ind n ih =>
      refine Acc.intro _ fun reduced mem ↦ ?_
      obtain ⟨length, less | ⟨zero, -⟩⟩ := Fault.mem_reduce mem
      · rw [signed, List.length_nil, List.length_eq_zero_iff] at length
        exact ih _ (weight ▸ less) reduced length rfl
      · rw [signed] at zero
        cases zero

/-- The minimizer returns on every oracle exactly if no fault has an unsigned parameter: one that is
zero is raised to one again. -/
theorem minimize_returns_iff (trace : Trace) :
    ((∀ reproduces, Returns reproduces trace) ↔
      ∀ scheduled ∈ trace.faults, scheduled.fault.unsigned = []) ∧
    (∀ scheduled ∈ trace.faults,
      Acc (fun reduced fault : Fault ↦ reduced ∈ fault.reduce) scheduled.fault ↔
        scheduled.fault.unsigned = []) ∧
    ∀ reproduces, NeverRaises reproduces → Returns reproduces trace := by
  refine ⟨⟨fun returns ↦ ?_, fun signed reproduces ↦ ?_⟩, fun _ _ ↦ acc_reduce_iff _,
    fun reproduces h ↦ returns_of_neverRaises h trace⟩
  · by_contra unsigned
    obtain ⟨rounds, isSome⟩ := returns (sameLengths trace)
    rw [minimize_eq_none unsigned] at isSome
    cases isSome
  · exact ⟨trace.weight + 2, @minimize_isSome reproduces trace OnlySigned
      (fun _ _ kept accepted ↦ kept.accepted accepted) _ signed (by omega)⟩

/-- A trace whose only fault pauses an action. -/
def paused : Trace where
  schemaVersion := 1
  seed := 7
  profile := "nightly"
  initialConfig := ⟨["controller-a"], [], [], []⟩
  actions := [.startController "controller-a"]
  faults := [⟨0, .failpoint "controller_after_reconcile_before_publish" (.pause 0)⟩]

theorem minimize_returns_iff_paused : Returns (fun _ ↦ false) paused :=
  (minimize_returns_iff paused).2.2 _ fun _ _ _ _ ↦ rfl

/-- A pause of no time is replaced by one of a millisecond, and that by a pause of no time. -/
theorem minimize_diverges : lowerUnsigned 0 = [1] ∧ lowerUnsigned 1 = [0] ∧
    ¬Returns (sameLengths paused) paused := by
  refine ⟨by decide, by decide, fun returns ↦ ?_⟩
  obtain ⟨rounds, isSome⟩ := returns
  have unsigned : ¬OnlySigned paused := fun signed ↦
    List.cons_ne_nil _ _ (signed _ List.mem_cons_self)
  rw [minimize_eq_none unsigned] at isSome
  cases isSome

end Returns

end Clustodian.Chaos
