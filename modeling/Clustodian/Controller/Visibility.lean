import Clustodian.Controller.Planning

namespace Clustodian

namespace PartitionStates

def lookup (entries : PartitionStates) (p : PartitionId) (i : InstanceId) : Option State :=
  (entries[p]?).bind (·[i]?)

@[simp] theorem lookup_empty (p : PartitionId) (i : InstanceId) :
    lookup (∅ : PartitionStates) p i = none := by simp [lookup]

theorem lookup_insert (entries : PartitionStates) (q p : PartitionId) (replicas : InstanceStates)
    (i : InstanceId) :
    lookup (entries.insert q replicas) p i = if p = q then replicas[i]? else lookup entries p i := by
  simp only [lookup, OrderedMap.getElem?_insert]
  split <;> simp

theorem getElem?_getD (entries : PartitionStates) (p : PartitionId) (i : InstanceId) :
    ((entries[p]?).getD ∅)[i]? = lookup entries p i := by
  cases h : entries[p]? <;> simp [lookup, h]

theorem lookup_insertState (entries : PartitionStates) (q p : PartitionId) (j i : InstanceId)
    (state : State) : lookup (insertState entries q j state) p i =
      if p = q ∧ i = j then some state else lookup entries p i := by
  rw [insertState, lookup_insert, OrderedMap.getElem?_insert, getElem?_getD]
  grind

end PartitionStates

open PartitionStates

theorem state_rebuild (entries : PartitionStates) (p : PartitionId) (i : InstanceId) :
    (rebuild entries).state p i = lookup entries p i := by
  simp only [ReplicaStates.state, rebuild, OrderedMap.getElem?_filter, lookup]
  cases h : entries[p]? with
  | none => rfl
  | some replicas =>
    by_cases empty : replicas.isEmpty
    · rw [Std.ExtTreeMap.isEmpty_iff] at empty
      simp [empty]
    · simp [Option.filter, empty]

theorem mem_liveSet {snapshot : CoordinationSnapshot} {i : InstanceId} :
    i ∈ liveSet snapshot ↔ (snapshot.live i).isSome := by
  rw [liveSet, OrderedMap.mem_foldl_insert, Std.ExtTreeMap.mem_keys,
    Std.ExtTreeMap.mem_iff_isSome_getElem?]
  simp [CoordinationSnapshot.live]

section Visible

variable {configs : BTreeMap InstanceId String} {live : BTreeSet InstanceId}
  {snapshot : CoordinationSnapshot} {r : ResourceId} {p : PartitionId} {i : InstanceId}

/-- Replicas the controller takes into account. -/
def Counted (configs : BTreeMap InstanceId String) (live : BTreeSet InstanceId)
    (i : InstanceId) : Prop := i ∈ configs ∧ i ∈ live

theorem not_counted : (i ∉ configs ∨ i ∉ live) ↔ ¬Counted configs live i := by
  rw [Counted, not_and_or]

theorem addPartition_sound {replicas states : InstanceStates} {value : State}
    (seen : (replicas.toList.foldl (fun (states : InstanceStates) (entry : InstanceId × State) ↦
      if entry.1 ∉ configs ∨ entry.1 ∉ live then states else states.insert entry.1 entry.2)
      states)[i]? = some value) :
    states[i]? = some value ∨ (replicas[i]? = some value ∧ Counted configs live i) := by
  rcases CheckedLoop.foldl_sound (fun m : InstanceStates ↦ m[i]?)
    (fun entry value ↦ entry = (i, value) ∧ Counted configs live i) (fun s entry v h ↦ by
      split at h <;> rename_i skip
      · exact .inl h
      · rw [OrderedMap.getElem?_insert] at h
        split at h <;> rename_i same
        · cases h
          subst same
          exact .inr ⟨rfl, not_not.mp (mt not_counted.mpr skip)⟩
        · exact .inl h) _ seen with h | ⟨entry, mem, rfl, counted⟩
  · exact .inl h
  · exact .inr ⟨(OrderedMap.mem_toList _ _ _).mp mem, counted⟩

theorem addPartition_complete {replicas states : InstanceStates}
    (known : (states[i]?).isSome ∨ ((replicas[i]?).isSome ∧ Counted configs live i)) :
    ((replicas.toList.foldl (fun (states : InstanceStates) (entry : InstanceId × State) ↦
      if entry.1 ∉ configs ∨ entry.1 ∉ live then states else states.insert entry.1 entry.2)
      states)[i]?).isSome := by
  refine CheckedLoop.foldl_complete (fun m : InstanceStates ↦ m[i]?)
    (fun entry value ↦ entry = (i, value) ∧ Counted configs live i) _ (fun s entry h ↦ ?_) _ _
    (known.imp_right fun ⟨h, counted⟩ ↦ ?_)
  · split <;> rename_i skip
    · rcases h with h | ⟨value, rfl, counted⟩
      · exact h
      · exact absurd counted (not_counted.mp skip)
    · rw [OrderedMap.getElem?_insert]
      rcases h with h | ⟨value, rfl, counted⟩
      · split
        · rfl
        · exact h
      · simp
  · obtain ⟨value, h⟩ := Option.isSome_iff_exists.mp h
    exact ⟨(i, value), (OrderedMap.mem_toList _ _ _).mpr h, value, rfl, counted⟩

theorem addReplicas_sound {current : CurrentState} {states : PartitionStates} {value : State}
    (seen : lookup (addReplicas configs live current states) p i = some value) :
    lookup states p i = some value ∨
      (current.state p i = some value ∧ Counted configs live i) := by
  rcases CheckedLoop.foldl_sound (fun m : PartitionStates ↦ lookup m p i)
    (fun entry value ↦ entry.1 = p ∧ entry.2[i]? = some value ∧ Counted configs live i)
    (fun s entry v h ↦ by
      rw [lookup_insert] at h
      split at h <;> rename_i same
      · subst same
        rcases addPartition_sound h with h | h
        · exact .inl (by rwa [getElem?_getD] at h)
        · exact .inr ⟨rfl, h⟩
      · exact .inl h) _ seen with h | ⟨entry, mem, rfl, found, counted⟩
  · exact .inl h
  · refine .inr ⟨?_, counted⟩
    rw [ReplicaStates.state, (OrderedMap.mem_toList _ _ _).mp mem]
    exact found

theorem addReplicas_complete {current : CurrentState} {states : PartitionStates}
    (known : (lookup states p i).isSome ∨ ((current.state p i).isSome ∧ Counted configs live i)) :
    (lookup (addReplicas configs live current states) p i).isSome := by
  refine CheckedLoop.foldl_complete (fun m : PartitionStates ↦ lookup m p i)
    (fun entry value ↦ entry.1 = p ∧ entry.2[i]? = some value ∧ Counted configs live i)
    _ (fun s entry h ↦ ?_) _ _ (known.imp_right fun ⟨h, counted⟩ ↦ ?_)
  · rw [lookup_insert]
    split <;> rename_i same
    · refine addPartition_complete ?_
      rcases h with h | ⟨value, -, found, counted⟩
      · exact .inl (by rwa [getElem?_getD, ← same])
      · exact .inr ⟨by rw [found]; rfl, counted⟩
    · rcases h with h | ⟨value, rfl, -⟩
      · exact h
      · exact absurd rfl same
  · obtain ⟨value, h⟩ := Option.isSome_iff_exists.mp h
    obtain ⟨replicas, found, h⟩ := Option.bind_eq_some_iff.mp h
    exact ⟨(p, replicas), (OrderedMap.mem_toList _ _ _).mpr found, value, rfl, h, counted⟩

/-- The nested table before the rebuild. -/
def tableLookup (states : BTreeMap ResourceId PartitionStates) (r : ResourceId) (p : PartitionId)
    (i : InstanceId) : Option State := (states[r]?).bind (lookup · p i)

theorem tableLookup_insert (states : BTreeMap ResourceId PartitionStates) (r' : ResourceId)
    (entries : PartitionStates) : tableLookup (states.insert r' entries) r p i =
      if r = r' then lookup entries p i else tableLookup states r p i := by
  simp only [tableLookup, OrderedMap.getElem?_insert]
  split <;> simp

theorem lookup_getD (states : BTreeMap ResourceId PartitionStates) :
    lookup ((states[r]?).getD ∅) p i = tableLookup states r p i := by
  cases h : states[r]? <;> simp [tableLookup, h]

def addActive (configs : BTreeMap InstanceId String) (live : BTreeSet InstanceId)
    (states : BTreeMap ResourceId PartitionStates) (active : ActiveCurrentState) :
    BTreeMap ResourceId PartitionStates :=
  active.resources.toList.foldl (fun states (entry : ResourceId × CurrentState) ↦
    states.insert entry.1 (addReplicas configs live entry.2 ((states[entry.1]?).getD ∅))) states

theorem addActive_sound {active : ActiveCurrentState} {states : BTreeMap ResourceId PartitionStates}
    {value : State} (seen : tableLookup (addActive configs live states active) r p i = some value) :
    tableLookup states r p i = some value ∨ ∃ current, active.resources[r]? = some current ∧
      current.state p i = some value ∧ Counted configs live i := by
  rcases CheckedLoop.foldl_sound (fun m : BTreeMap ResourceId PartitionStates ↦ tableLookup m r p i)
    (fun entry value ↦ entry.1 = r ∧ entry.2.state p i = some value ∧ Counted configs live i)
    (fun s entry v h ↦ by
      rw [tableLookup_insert] at h
      split at h <;> rename_i same
      · subst same
        rcases addReplicas_sound h with h | h
        · exact .inl (by rwa [lookup_getD] at h)
        · exact .inr ⟨rfl, h⟩
      · exact .inl h) _ seen with h | ⟨entry, mem, rfl, found⟩
  · exact .inl h
  · exact .inr ⟨entry.2, (OrderedMap.mem_toList _ _ _).mp mem, found⟩

theorem addActive_complete {active : ActiveCurrentState}
    {states : BTreeMap ResourceId PartitionStates}
    (known : (tableLookup states r p i).isSome ∨ ∃ current, active.resources[r]? = some current ∧
      (current.state p i).isSome ∧ Counted configs live i) :
    (tableLookup (addActive configs live states active) r p i).isSome := by
  refine CheckedLoop.foldl_complete
    (fun m : BTreeMap ResourceId PartitionStates ↦ tableLookup m r p i)
    (fun entry value ↦ entry.1 = r ∧ entry.2.state p i = some value ∧ Counted configs live i)
    _ (fun s entry h ↦ ?_) _ _ (known.imp_right fun ⟨current, found, h, counted⟩ ↦ ?_)
  · rw [tableLookup_insert]
    split <;> rename_i same
    · refine addReplicas_complete ?_
      rcases h with h | ⟨value, -, found, counted⟩
      · exact .inl (by rwa [lookup_getD, ← same])
      · exact .inr ⟨by rw [found]; rfl, counted⟩
    · rcases h with h | ⟨value, rfl, -⟩
      · exact h
      · exact absurd rfl same
  · obtain ⟨value, h⟩ := Option.isSome_iff_exists.mp h
    exact ⟨(r, current), (OrderedMap.mem_toList _ _ _).mpr found, value, rfl, h, counted⟩

/-- The replica states the controller plans with and publishes. -/
def visible (snapshot : CoordinationSnapshot) (configs : BTreeMap InstanceId String)
    (r : ResourceId) (p : PartitionId) (i : InstanceId) : Option State :=
  if i ∈ configs then snapshot.reported r p i else none

/-- The computed table answers every lookup with what the live, configured instance reported. -/
theorem state_activeCurrentState :
    ((activeCurrentState snapshot configs (liveSet snapshot))[r]?).bind (·.state p i) =
      visible snapshot configs r p i := by
  have table : ((activeCurrentState snapshot configs (liveSet snapshot))[r]?).bind (·.state p i) =
      tableLookup (snapshot.participants.activeCurrentState.toList.foldl
        (fun states (entry : InstanceId × ActiveCurrentState) ↦
          addActive configs (liveSet snapshot) states entry.2) ∅) r p i := by
    simp only [activeCurrentState, Std.ExtTreeMap.getElem?_map, tableLookup, Option.bind_map]
    exact congrArg _ (funext fun entries ↦ state_rebuild entries p i)
  have visible_iff : ∀ value, visible snapshot configs r p i = some value ↔
      snapshot.reported r p i = some value ∧ Counted configs (liveSet snapshot) i := by
    intro value
    unfold visible Counted
    split <;> rename_i configured
    · simp only [configured, true_and, iff_self_and, mem_liveSet]
      exact CoordinationSnapshot.reported_live
    · simp [configured]
  rw [table]
  have sound : ∀ value, tableLookup (snapshot.participants.activeCurrentState.toList.foldl
      (fun states (entry : InstanceId × ActiveCurrentState) ↦
        addActive configs (liveSet snapshot) states entry.2) ∅) r p i = some value →
      visible snapshot configs r p i = some value := by
    intro value seen
    rcases CheckedLoop.foldl_sound
      (fun m : BTreeMap ResourceId PartitionStates ↦ tableLookup m r p i)
      (fun (entry : InstanceId × ActiveCurrentState) value ↦ ∃ current,
        entry.2.resources[r]? = some current ∧ current.state p i = some value ∧
          Counted configs (liveSet snapshot) i)
      (fun s entry v h ↦ addActive_sound h) _ seen with h | ⟨entry, mem, current, found, h, counted⟩
    · simp [tableLookup] at h
    · have active := (OrderedMap.mem_toList _ _ _).mp mem
      have owner := snapshot.participants.own _ _ active r current found p i (by rw [h]; rfl)
      subst owner
      refine (visible_iff value).mpr ⟨?_, counted⟩
      simp [CoordinationSnapshot.reported, active, found, h]
  cases seen : visible snapshot configs r p i with
  | none =>
    exact Option.eq_none_iff_forall_ne_some.mpr fun value h ↦ by
      rw [sound value h] at seen
      cases seen
  | some value =>
    obtain ⟨reported, counted⟩ := (visible_iff value).mp seen
    obtain ⟨current, found, h⟩ := Option.bind_eq_some_iff.mp reported
    obtain ⟨active, hactive, found⟩ := Option.bind_eq_some_iff.mp found
    obtain ⟨other, hother⟩ := Option.isSome_iff_exists.mp (CheckedLoop.foldl_complete
      (fun m : BTreeMap ResourceId PartitionStates ↦ tableLookup m r p i)
      (fun (entry : InstanceId × ActiveCurrentState) value ↦ ∃ current,
        entry.2.resources[r]? = some current ∧ current.state p i = some value ∧
          Counted configs (liveSet snapshot) i)
      (fun states (entry : InstanceId × ActiveCurrentState) ↦
        addActive configs (liveSet snapshot) states entry.2)
      (fun s entry h ↦ addActive_complete (h.imp_right fun ⟨value, current, found, h, counted⟩ ↦
        ⟨current, found, by rw [h]; rfl, counted⟩))
      snapshot.participants.activeCurrentState.toList ∅
      (.inr ⟨(i, active), (OrderedMap.mem_toList _ _ _).mpr hactive, value, current, found, h,
        counted⟩))
    rw [hother, ← sound other hother, seen]

theorem isSome_addActive {active : ActiveCurrentState}
    {states : BTreeMap ResourceId PartitionStates} :
    ((addActive configs live states active)[r]?).isSome ↔
      (states[r]?).isSome ∨ (active.resources[r]?).isSome := by
  have general : ∀ (items : List (ResourceId × CurrentState))
      (states : BTreeMap ResourceId PartitionStates),
      ((items.foldl (fun states (entry : ResourceId × CurrentState) ↦ states.insert entry.1
        (addReplicas configs live entry.2 ((states[entry.1]?).getD ∅))) states)[r]?).isSome ↔
        (states[r]?).isSome ∨ r ∈ items.map Prod.fst := by
    intro items
    induction items with
    | nil => simp
    | cons entry items ih =>
      intro states
      rw [List.foldl_cons, ih, OrderedMap.getElem?_insert, List.map_cons, List.mem_cons]
      split <;> rename_i same <;> simp [same]
  rw [addActive, general, OrderedMap.mem_keys]

/-- A resource is in the view exactly when a live instance has a record of it. -/
theorem isSome_activeCurrentState :
    ((activeCurrentState snapshot configs live)[r]?).isSome ↔
      ∃ (i : InstanceId) (active : ActiveCurrentState),
        snapshot.participants.activeCurrentState[i]? = some active ∧
          (active.resources[r]?).isSome := by
  have general : ∀ (items : List (InstanceId × ActiveCurrentState))
      (states : BTreeMap ResourceId PartitionStates),
      ((items.foldl (fun states (entry : InstanceId × ActiveCurrentState) ↦
        addActive configs live states entry.2) states)[r]?).isSome ↔
        (states[r]?).isSome ∨ ∃ entry ∈ items, (entry.2.resources[r]?).isSome := by
    intro items
    induction items with
    | nil => simp
    | cons entry items ih =>
      intro states
      rw [List.foldl_cons, ih, isSome_addActive]
      simp [or_assoc]
  simp only [activeCurrentState, Std.ExtTreeMap.getElem?_map, Option.isSome_map]
  refine (general _ ∅).trans ?_
  simp

/-- Planning sees live replicas as reported, and listed live ones without a report as initial. -/
theorem state_normalizeCurrent {actual : CurrentState} {ideal : IdealState}
    {model : StateModelDefinition} :
    (normalizeCurrent actual ideal live model).state p i =
      if i ∉ live then none
      else (actual.state p i).or
        (if (ideal.preferenceList p).any (i ∈ ·) then some model.initialState else none) := by
  have reported : lookup (actual.entries.map fun _ replicas ↦ replicas.filter fun i _ ↦ i ∈ live)
      p i = if i ∈ live then actual.state p i else none := by
    simp only [lookup, Std.ExtTreeMap.getElem?_map, ReplicaStates.state]
    cases h : actual.entries[p]? with
    | none => simp
    | some replicas =>
      simp only [Option.map_some, Option.bind_some, OrderedMap.getElem?_filter]
      cases found : replicas[i]? with
      | none => simp
      | some value => simp [Option.filter]
  have row : ∀ (q : PartitionId) (instances : List InstanceId) (entries : PartitionStates),
      lookup (instances.foldl (fun entries j ↦ if j ∈ live ∧ actual.state q j = none then
        insertState entries q j model.initialState else entries) entries) p i =
      if p = q ∧ i ∈ instances ∧ i ∈ live ∧ actual.state p i = none then some model.initialState
      else lookup entries p i := by
    intro q instances
    induction instances with
    | nil => simp
    | cons j instances ih =>
      intro entries
      rw [List.foldl_cons, ih]
      by_cases fill : j ∈ live ∧ actual.state q j = none
      · rw [if_pos fill, lookup_insertState]
        grind
      · rw [if_neg fill]
        grind
  have rows : ∀ (items : List (PartitionId × List InstanceId)) (entries : PartitionStates),
      lookup (items.foldl (fun entries (item : PartitionId × List InstanceId) ↦
        item.2.foldl (fun entries j ↦ if j ∈ live ∧ actual.state item.1 j = none then
          insertState entries item.1 j model.initialState else entries) entries) entries) p i =
      if items.any (fun item ↦ item.1 = p ∧ i ∈ item.2) ∧ i ∈ live ∧ actual.state p i = none then
        some model.initialState
      else lookup entries p i := by
    intro items
    induction items with
    | nil => simp
    | cons item items ih =>
      intro entries
      rw [List.foldl_cons, ih, row]
      simp only [List.any_cons, eq_comm (a := p)]
      grind
  have listed : ideal.preferenceLists.toList.any (fun item ↦ item.1 = p ∧ i ∈ item.2) =
      (ideal.preferenceList p).any (i ∈ ·) := by
    rw [Bool.eq_iff_iff]
    simp only [IdealState.preferenceList, List.any_eq_true, Prod.exists, OrderedMap.mem_toList,
      decide_eq_true_eq]
    cases h : ideal.preferenceLists[p]? with
    | none =>
      simp only [Option.any_none, Bool.false_eq_true, iff_false]
      rintro ⟨q, list, found, rfl, -⟩
      rw [h] at found
      cases found
    | some list =>
      simp only [Option.any_some, decide_eq_true_eq]
      constructor
      · rintro ⟨q, other, found, rfl, mem⟩
        rw [h] at found
        cases found
        exact mem
      · exact fun mem ↦ ⟨p, list, h, rfl, mem⟩
  rw [normalizeCurrent, state_rebuild, rows, reported]
  simp only [listed]
  cases actual.state p i <;> grind

end Visible

end Clustodian
