import Clustodian.Coordination.Snapshot

namespace Clustodian

open RevisionStore

section Participants

variable {s s' : EtcdStore}

theorem getElem?_values (k : Key) : (values s)[k]? = s.value k := by
  rw [values, Std.ExtTreeMap.getElem?_map]
  rfl

theorem parseSession_text (ticket : SessionId) : parseSession (.text (sessionText ticket)) =
    if 0 < ticket ∧ ticket < 2 ^ 64 then .ok ticket else .error .invalidSession := by
  have parsed := parseU64_toString ticket
  simp only [parseSession, parseSequence, sessionText, parsed]
  by_cases bounded : ticket < 2 ^ 64
  · simp only [bounded, if_true, and_true]
  · simp only [bounded, if_false, and_false]

theorem parseSession_text_eq_ok {ticket session : SessionId}
    (h : parseSession (.text (sessionText ticket)) = .ok session) : session = ticket := by
  rw [parseSession_text] at h
  split at h
  · cases h
    rfl
  · cases h

theorem parseState_text (state : State) : parseState (.text state.asStr) = .ok state := by
  simp [parseState]

/-- The session of an instance's live record. -/
def liveSession (s : EtcdStore) (i : InstanceId) : Option SessionId :=
  (s.value (.live i)).bind fun value ↦ (parseSession value).toOption

/-- The state recorded for a replica under a session. -/
def recordedState (s : EtcdStore) (i : InstanceId) (ticket : SessionId) (r : ResourceId)
    (p : PartitionId) : Option State :=
  (s.value (.currentState i ticket r p)).bind fun value ↦ (parseState value).toOption

namespace ParticipantRecords

/-- What a scan of some of the keys has gathered. -/
structure Gathered (done : List (Key × Value)) (records : ParticipantRecords) : Prop where
  live : ∀ i session, records.live[i]? = some session ↔
    ∃ value, (Key.live i, value) ∈ done ∧ parseSession value = .ok session
  states : ∀ i ticket r p state, records.stateAt i ticket r p = some state ↔
    ∃ value, (Key.currentState i ticket r p, value) ∈ done ∧ parseState value = .ok state

theorem stateAt_insert (records : ParticipantRecords) (i j : InstanceId) (ticket other : SessionId)
    (r r' : ResourceId) (p p' : PartitionId) (state : State) :
    stateAt ⟨records.live, records.states.insert (toLex (i, ticket))
      (((records.states[toLex (i, ticket)]?).getD ∅).insert r
        (((((records.states[toLex (i, ticket)]?).getD ∅)[r]?).getD ∅).insert p state))⟩
      j other r' p' =
    if j = i ∧ other = ticket ∧ r' = r ∧ p' = p then some state
    else records.stateAt j other r' p' := by
  unfold stateAt
  by_cases owner : j = i ∧ other = ticket
  · obtain ⟨rfl, rfl⟩ := owner
    simp only [OrderedMap.getElem?_insert, if_true, Option.bind_some, true_and]
    cases records.states[toLex (j, other)]? with
    | none =>
      by_cases same : r' = r
      · simp [OrderedMap.getElem?_insert, same]
      · simp [same]
    | some resources =>
      simp only [Option.getD_some, Option.bind_some]
      by_cases same : r' = r
      · subst same
        simp only [if_true, Option.bind_some, OrderedMap.getElem?_insert, true_and]
        cases resources[r']? <;> simp
      · simp [same]
  · have apart : toLex (j, other) ≠ toLex (i, ticket) := fun h ↦ owner (by simpa using h)
    rw [OrderedMap.getElem?_insert, if_neg apart, if_neg fun h ↦ owner ⟨h.1, h.2.1⟩]

theorem gathered_nil : Gathered [] ⟨∅, ∅⟩ := ⟨by simp, by simp [stateAt]⟩

theorem gathered_step {done : List (Key × Value)} {records next : ParticipantRecords} {key : Key}
    {value : Value} (h : Gathered done records) (unseen : key ∉ done.map Prod.fst)
    (step : addRecord records (key, value) = .ok next) : Gathered (done ++ [(key, value)]) next := by
  have fresh : ∀ other, (key, other) ∉ done := fun other mem ↦
    unseen (List.mem_map_of_mem mem)
  have skip : records = next → (∀ i, key ≠ .live i) → (∀ i ticket r p, key ≠ .currentState i ticket r p) →
      Gathered (done ++ [(key, value)]) next := by
    rintro rfl notLive notState
    refine ⟨fun i session ↦ ?_, fun i ticket r p state ↦ ?_⟩
    · simp only [h.live, List.mem_append, List.mem_singleton, Prod.mk.injEq, (notLive i).symm,
        false_and, or_false]
    · simp only [h.states, List.mem_append, List.mem_singleton, Prod.mk.injEq,
        (notState i ticket r p).symm, false_and, or_false]
  unfold addRecord at step
  cases key with
  | live i =>
    obtain ⟨session, hsession, step⟩ := CheckedLoop.bind_eq_ok.mp step
    cases step
    refine ⟨fun j other ↦ ?_, fun j ticket r p state ↦ ?_⟩
    · simp only [OrderedMap.getElem?_insert, List.mem_append, List.mem_singleton, Prod.mk.injEq,
        Key.live.injEq]
      by_cases same : j = i
      · subst same
        simp only [if_true, Option.some.injEq, fresh, false_or, true_and, exists_eq_left, hsession,
          Except.ok.injEq]
      · simp only [same, if_false, false_and, or_false]
        exact h.live j other
    · simp only [List.mem_append, List.mem_singleton, Prod.mk.injEq, reduceCtorEq, false_and,
        or_false]
      exact h.states j ticket r p state
  | currentState i ticket r p =>
    obtain ⟨session, hsession, step⟩ := CheckedLoop.bind_eq_ok.mp step
    obtain ⟨state, hstate, step⟩ := CheckedLoop.bind_eq_ok.mp step
    cases step
    obtain rfl := parseSession_text_eq_ok hsession
    refine ⟨fun j other ↦ ?_, fun j other r' p' state' ↦ ?_⟩
    · simp only [List.mem_append, List.mem_singleton, Prod.mk.injEq, reduceCtorEq, false_and,
        or_false]
      exact h.live j other
    · rw [stateAt_insert]
      simp only [List.mem_append, List.mem_singleton, Prod.mk.injEq, Key.currentState.injEq]
      by_cases same : j = i ∧ other = session ∧ r' = r ∧ p' = p
      · obtain ⟨rfl, rfl, rfl, rfl⟩ := same
        simp only [and_self, if_true, Option.some.injEq, fresh, false_or, true_and, exists_eq_left,
          hstate, Except.ok.injEq]
      · simp only [same, if_false, false_and, or_false]
        exact h.states j other r' p' state'
  | active => exact skip (Except.ok.inj step) (by simp) (by simp)
  | candidate c => exact skip (Except.ok.inj step) (by simp) (by simp)
  | sequence => exact skip (Except.ok.inj step) (by simp) (by simp)
  | metadata name => exact skip (Except.ok.inj step) (by simp) (by simp)
  | session i ticket => exact skip (Except.ok.inj step) (by simp) (by simp)

theorem gathered {records : ParticipantRecords}
    (run : (values s).toList.foldlM addRecord ⟨∅, ∅⟩ = .ok records) :
    Gathered (values s).toList records := by
  refine CheckedLoop.foldlM_inv Gathered _ run gathered_nil ?_
  intro done item rest records next split h step
  exact gathered_step h (OrderedMap.visited split).2 step

end ParticipantRecords

/-- The keys a participant's registration and progress are read from. -/
def Key.isParticipant : Key → Bool
  | .live _ => true
  | .currentState _ _ _ _ => true
  | _ => false

theorem participantSnapshotFromKvs_congr
    (same : ∀ key : Key, key.isParticipant = true → s.value key = s'.value key) :
    participantSnapshotFromKvs s = participantSnapshotFromKvs s' := by
  have skip : ∀ records (item : Key × Value), item.1.isParticipant = false →
      addRecord records item = .ok records := by
    intro records item other
    obtain ⟨key, value⟩ := item
    cases key <;> first | rfl | cases other
  have restrict : ∀ s : EtcdStore, (values s).toList.foldlM addRecord ⟨∅, ∅⟩ =
      ((values s).filter fun key _ ↦ key.isParticipant).toList.foldlM addRecord ⟨∅, ∅⟩ := by
    intro s
    rw [Std.ExtTreeMap.toList_filter]
    exact (CheckedLoop.foldlM_filter _ skip _ _).symm
  have agree : (values s).filter (fun key _ ↦ key.isParticipant) =
      (values s').filter fun key _ ↦ key.isParticipant := by
    refine OrderedMap.ext fun key ↦ ?_
    rw [OrderedMap.getElem?_filter, OrderedMap.getElem?_filter, getElem?_values, getElem?_values]
    cases participant : key.isParticipant with
    | false =>
      have dropped : ∀ found : Option Value, (found.filter fun _ ↦ false) = none := by simp
      rw [dropped, dropped]
    | true => rw [same key participant]
  rw [participantSnapshotFromKvs, participantSnapshotFromKvs, restrict, restrict, agree]

variable {participants : ParticipantSessionSnapshot}

theorem live_participantSnapshot (h : participantSnapshotFromKvs s = .ok participants)
    (i : InstanceId) : participants.liveInstances[i]? = liveSession s i := by
  obtain ⟨records, run, h⟩ := CheckedLoop.bind_eq_ok.mp h
  cases h
  refine Option.ext fun session ↦ ?_
  have found := (ParticipantRecords.gathered run).live i session
  simp only [OrderedMap.mem_toList, getElem?_values] at found
  simp only [ParticipantRecords.toSnapshot, liveSession, Option.bind_eq_some_iff,
    CheckedLoop.toOption_eq_some, found]

theorem reported_participantSnapshot (h : participantSnapshotFromKvs s = .ok participants)
    (r : ResourceId) (p : PartitionId) (i : InstanceId) :
    ((participants.activeCurrentState[i]?).bind (·.resources[r]?)).bind (·.state p i) =
      (liveSession s i).bind fun ticket ↦ recordedState s i ticket r p := by
  rw [← live_participantSnapshot h]
  obtain ⟨records, run, h⟩ := CheckedLoop.bind_eq_ok.mp h
  cases h
  simp only [ParticipantRecords.toSnapshot, Std.ExtTreeMap.getElem?_map, Option.bind_map]
  cases records.live[i]? with
  | none => rfl
  | some ticket =>
    refine Option.ext fun state ↦ ?_
    have found := (ParticipantRecords.gathered run).states i ticket r p state
    simp only [OrderedMap.mem_toList, getElem?_values] at found
    rw [Option.bind_some, Option.bind_some, recordedState, Option.bind_eq_some_iff (x := s.value _)]
    simp only [CheckedLoop.toOption_eq_some, ← found, ParticipantRecords.stateAt]
    cases owned : records.states[toLex (i, ticket)]? with
    | none => simp [owned]
    | some resources =>
      cases listed : resources[r]? with
      | none => simp [owned, listed]
      | some partitions => simp [owned, listed, ParticipantRecords.state_ownStates]

end Participants

section Metadata

variable {s s' : EtcdStore}

theorem getElem?_addMetadata (metadata : BTreeMap String MetadataEntry) (item : Key × Entry Value)
    (name : String) : (addMetadata metadata item)[name]? =
      if item.1 = .metadata name then some ⟨some item.2.value, item.2.modRevision⟩
      else metadata[name]? := by
  obtain ⟨key, entry⟩ := item
  cases key <;> simp [addMetadata, OrderedMap.getElem?_insert, eq_comm]

theorem getElem?_metadataFromSnapshot (s : EtcdStore) (name : String) :
    (metadataFromSnapshot s)[name]? =
      (s.entry (.metadata name)).map fun entry ↦ ⟨some entry.value, entry.modRevision⟩ := by
  have sound : ∀ found, (metadataFromSnapshot s)[name]? = some found →
      ∃ entry, s.entry (.metadata name) = some entry ∧
        found = ⟨some entry.value, entry.modRevision⟩ := by
    intro found seen
    have written := CheckedLoop.foldl_sound
      (fun metadata : BTreeMap String MetadataEntry ↦ metadata[name]?)
      (fun (item : Key × Entry Value) found ↦ item.1 = .metadata name ∧
        found = ⟨some item.2.value, item.2.modRevision⟩) (fun metadata item found h ↦ by
        rw [getElem?_addMetadata] at h
        split at h
        · next same => exact .inr ⟨same, (Option.some.inj h).symm⟩
        · exact .inl h) _ seen
    rcases written with h | ⟨⟨key, entry⟩, mem, same, h⟩
    · simp at h
    · cases same
      exact ⟨entry, (OrderedMap.mem_toList _ _ _).mp mem, h⟩
  have complete : (s.entry (.metadata name)).isSome → ((metadataFromSnapshot s)[name]?).isSome := by
    intro present
    obtain ⟨entry, present⟩ := Option.isSome_iff_exists.mp present
    refine CheckedLoop.foldl_complete (fun metadata : BTreeMap String MetadataEntry ↦ metadata[name]?)
      (fun (item : Key × Entry Value) (_ : MetadataEntry) ↦ item.1 = .metadata name) addMetadata
      (fun metadata item h ↦ ?_) _ _ (.inr ⟨(.metadata name, entry),
        (OrderedMap.mem_toList _ _ _).mpr present, ⟨none, 0⟩, rfl⟩)
    rw [getElem?_addMetadata]
    split
    · rfl
    · next other => exact h.resolve_right fun ⟨_, same⟩ ↦ other same
  cases present : s.entry (.metadata name) with
  | none =>
    rw [Option.map_none, Option.eq_none_iff_forall_ne_some]
    intro found seen
    obtain ⟨entry, found', -⟩ := sound found seen
    rw [present] at found'
    cases found'
  | some entry =>
    obtain ⟨found, seen⟩ := Option.isSome_iff_exists.mp (complete (by rw [present]; rfl))
    obtain ⟨entry', found', rfl⟩ := sound found seen
    rw [present] at found'
    cases found'
    exact seen

section Counted

theorem addCounted_spec (items : List (Key × Entry Value)) (newest : Option Revision) :
    (∀ old, newest = some old → ∃ revision, items.foldl addCounted newest = some revision ∧
      old ≤ revision) ∧
    (∀ item ∈ items, item.1.counted = true → ∃ revision,
      items.foldl addCounted newest = some revision ∧ item.2.modRevision ≤ revision) ∧
    ∀ revision, items.foldl addCounted newest = some revision → newest = some revision ∨
      ∃ item ∈ items, item.1.counted = true ∧ item.2.modRevision = revision := by
  induction items generalizing newest with
  | nil => exact ⟨fun old found ↦ ⟨old, found, le_rfl⟩, by simp, fun _ found ↦ .inl found⟩
  | cons item items ih =>
    obtain ⟨keeps, covers, attained⟩ := ih (addCounted newest item)
    rw [List.foldl_cons]
    refine ⟨fun old found ↦ ?_, fun other mem counted ↦ ?_, fun revision found ↦ ?_⟩
    · have step : ∃ next, addCounted newest item = some next ∧ old ≤ next := by
        unfold addCounted
        split
        · exact ⟨_, rfl, by simp [found]⟩
        · exact ⟨old, found, le_rfl⟩
      obtain ⟨next, hnext, le⟩ := step
      obtain ⟨revision, hrevision, le'⟩ := keeps next hnext
      exact ⟨revision, hrevision, le.trans le'⟩
    · rcases List.mem_cons.mp mem with rfl | mem
      · have step : ∃ next, addCounted newest other = some next ∧ other.2.modRevision ≤ next := by
          rw [addCounted, if_pos counted]
          refine ⟨_, rfl, ?_⟩
          cases newest <;> simp
        obtain ⟨next, hnext, le⟩ := step
        obtain ⟨revision, hrevision, le'⟩ := keeps next hnext
        exact ⟨revision, hrevision, le.trans le'⟩
      · exact covers other mem counted
    · rcases attained revision found with h | ⟨other, mem, counted, eq⟩
      · unfold addCounted at h
        split at h
        · next counted =>
          cases newest with
          | none => exact .inr ⟨item, List.mem_cons_self, counted, Option.some.inj h⟩
          | some old =>
            rcases max_choice item.2.modRevision old with pick | pick
            · rw [Option.elim_some, pick] at h
              exact .inr ⟨item, List.mem_cons_self, counted, Option.some.inj h⟩
            · rw [Option.elim_some, pick] at h
              exact .inl h
        · exact .inl h
      · exact .inr ⟨other, List.mem_cons_of_mem _ mem, counted, eq⟩

/-- No counted key is newer than the authoritative revision. -/
theorem le_authoritativeRevision {key : Key} {entry : Entry Value}
    (found : s.entry key = some entry) (counted : key.counted = true) :
    entry.modRevision ≤ authoritativeRevision s := by
  obtain ⟨revision, eq, le⟩ := (addCounted_spec s.entries.toList none).2.1 (key, entry)
    ((OrderedMap.mem_toList _ _ _).mpr found) counted
  rw [authoritativeRevision, eq]
  exact le

/-- A namespace with a counted key takes its authoritative revision from one. -/
theorem authoritativeRevision_attained {key : Key} {entry : Entry Value}
    (found : s.entry key = some entry) (counted : key.counted = true) :
    ∃ newest newestEntry, s.entry newest = some newestEntry ∧ newest.counted = true ∧
      newestEntry.modRevision = authoritativeRevision s := by
  have spec := addCounted_spec s.entries.toList none
  obtain ⟨revision, eq, -⟩ := spec.2.1 (key, entry) ((OrderedMap.mem_toList _ _ _).mpr found) counted
  rcases spec.2.2 revision eq with h | ⟨⟨newest, newestEntry⟩, mem, hcounted, attained⟩
  · cases h
  · refine ⟨newest, newestEntry, (OrderedMap.mem_toList _ _ _).mp mem, hcounted, ?_⟩
    rw [authoritativeRevision, eq]
    exact attained

end Counted

end Metadata

section Snapshot

variable {s : EtcdStore} {snapshot : CoordinationSnapshot}

/-- What a snapshot holds of the store it was read from. -/
structure SnapshotOf (s : EtcdStore) (snapshot : CoordinationSnapshot) : Prop where
  revision : snapshot.revision = s.revision
  authoritativeRevision : snapshot.authoritativeRevision = authoritativeRevision s
  metadata : snapshot.metadata = metadataFromSnapshot s
  participants : participantSnapshotFromKvs s = .ok snapshot.participants

theorem snapshotOf (h : controllerSnapshotFromKvs s = .ok snapshot) : SnapshotOf s snapshot := by
  obtain ⟨participants, hparticipants, h⟩ := CheckedLoop.bind_eq_ok.mp h
  obtain ⟨election, -, h⟩ := CheckedLoop.bind_eq_ok.mp h
  cases h
  exact ⟨rfl, rfl, rfl, hparticipants⟩

namespace SnapshotOf

variable (h : SnapshotOf s snapshot)

include h

theorem live (i : InstanceId) : snapshot.live i = liveSession s i :=
  live_participantSnapshot h.participants i

theorem reported (r : ResourceId) (p : PartitionId) (i : InstanceId) : snapshot.reported r p i =
    (liveSession s i).bind fun ticket ↦ recordedState s i ticket r p :=
  reported_participantSnapshot h.participants r p i

theorem metadataValue (name : String) :
    metadataValue snapshot name = s.value (.metadata name) := by
  rw [Clustodian.metadataValue, h.metadata, getElem?_metadataFromSnapshot, Store.value]
  cases s.entry (.metadata name) <;> rfl

end SnapshotOf

/-- Two snapshots between which the planner sees no difference. -/
structure SameInput (left right : CoordinationSnapshot) : Prop where
  revision : left.revision = right.revision
  participants : left.participants = right.participants
  metadata : ∀ name, isAuthoritativeMetadataKey name = true →
    left.metadata[name]? = right.metadata[name]?

theorem isAuthoritativeMetadataKey_resource {name : String}
    (h : (stripPrefix name resourceKeyLead).isSome) : isAuthoritativeMetadataKey name = true := by
  have leads : resourceKeyLead.toList <+: name.toList := by
    unfold stripPrefix at h
    split at h
    · next leads => exact List.isPrefixOf_iff_prefix.mp leads
    · cases h
  have apart : ∀ lead : String, ¬lead.toList <+: resourceKeyLead.toList →
      ¬resourceKeyLead.toList <+: lead.toList → startsWith name lead = false := by
    intro lead h1 h2
    rw [Bool.eq_false_iff]
    intro other
    rw [startsWith, List.isPrefixOf_iff_prefix] at other
    exact (List.prefix_or_prefix_of_prefix other leads).elim h1 h2
  have output := apart "controller/output/" (by decide) (by decide)
  have progress := apart "participant/" (by decide) (by decide)
  have marker : name ≠ authoritativeInputMarker := by
    rintro rfl
    exact absurd leads (by decide)
  simp [isAuthoritativeMetadataKey, output, progress, marker]

theorem computeOutputs_congr {left right : CoordinationSnapshot} (same : SameInput left right)
    (crush : Crush) (pending : List PublishedTransition) (mode : ReconcileMode) :
    computeOutputsWithPendingPolicy crush left pending mode =
      computeOutputsWithPendingPolicy crush right pending mode := by
  have lives : left.live = right.live := by
    funext i
    rw [CoordinationSnapshot.live, same.participants]
    rfl
  have set : liveSet left = liveSet right := by
    rw [liveSet, same.participants]
    rfl
  have configs : instanceConfigs left = instanceConfigs right := by
    rw [instanceConfigs, metadataValue, same.metadata _ (by decide)]
    rfl
  have limits : throttles left = throttles right := by
    rw [throttles, metadataValue, same.metadata _ (by decide)]
    rfl
  have plans : ∀ configs live, resourcePlans crush left configs live =
      resourcePlans crush right configs live := by
    intro configs live
    have agree : left.metadata.filter (fun key _ ↦ (stripPrefix key resourceKeyLead).isSome) =
        right.metadata.filter fun key _ ↦ (stripPrefix key resourceKeyLead).isSome := by
      refine OrderedMap.ext fun key ↦ ?_
      rw [OrderedMap.getElem?_filter, OrderedMap.getElem?_filter]
      cases named : (stripPrefix key resourceKeyLead).isSome with
      | false =>
        have dropped : ∀ found : Option MetadataEntry, (found.filter fun _ ↦ false) = none := by
          simp
        rw [dropped, dropped]
      | true => rw [same.metadata key (isAuthoritativeMetadataKey_resource named)]
    have restrict : ∀ snapshot, resourcePlans crush snapshot configs live =
        resourcePlans crush { snapshot with metadata := snapshot.metadata.filter fun key _ ↦
          (stripPrefix key resourceKeyLead).isSome } configs live := by
      intro snapshot
      rw [resourcePlans, resourcePlans, Std.ExtTreeMap.toList_filter]
      refine (CheckedLoop.foldlM_filter _ (fun plans item skip ↦ ?_) _ _).symm
      rw [Option.isSome_eq_false_iff, Option.isNone_iff_eq_none] at skip
      simp only [skip]
      rfl
    rw [restrict left, restrict right, resourcePlans, resourcePlans, agree]
  have states : activeCurrentState left = activeCurrentState right := by
    funext configs live
    rw [activeCurrentState, same.participants]
    rfl
  have kept : retains left = retains right := by
    funext actual plans strict message
    rw [retains, lives]
    rfl
  have messages : addDispatched left pending = addDispatched right pending := by
    have message : dispatchedMessage left pending = dispatchedMessage right pending := by
      funext ordinal transition session
      rw [dispatchedMessage, same.revision]
      rfl
    funext queue item
    rw [addDispatched, lives, message]
    rfl
  simp only [computeOutputsWithPendingPolicy, cycleThrottles, set, configs, limits, plans, states,
    retainPending, kept, messages]

end Snapshot

end Clustodian
