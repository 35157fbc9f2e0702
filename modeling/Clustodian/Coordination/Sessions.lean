import Clustodian.Coordination.Operations
import Clustodian.Model.Session

namespace Clustodian

open RevisionStore

/-- The keys that sessions and their states are recorded under. -/
def Key.isSessionRecord : Key → Bool
  | .session _ _ => true
  | .currentState _ _ _ _ => true
  | .sequence => true
  | _ => false

/-- The store holds what the participant model says, one key a record; every live record goes with
a lease of its own. -/
structure Mirrors (s : EtcdStore) (model : ParticipantSessionState) : Prop where
  coherent : model.Coherent
  sequence : s.value .sequence = if model.nextSessionSequence = 0 then none
    else some (.text (toString model.nextSessionSequence))
  live : ∀ i, s.value (.live i) = (model.liveInstances[i]?).map fun session ↦
    .text (sessionText session)
  sessions : ∀ i session, (s.entry (.session i session)).isSome ↔
    model.knownSessions[session]? = some i
  states : ∀ i session r p, s.value (.currentState i session r p) =
    (model.stateOf i session r p i).map fun state ↦ .text state.asStr
  leased : ∀ i e, s.entry (.live i) = some e → e.lease ≠ 0
  distinct : ∀ i j e e', s.entry (.live i) = some e → s.entry (.live j) = some e' →
    e.lease = e'.lease → i = j
  unleased : ∀ key e, key.isSessionRecord = true → s.entry key = some e → e.lease = 0

section States

variable {s : EtcdStore} {i : InstanceId} {session : SessionId} {resource : ResourceId}
  {states : BTreeMap PartitionId State}

theorem mem_stateOperations {op : EtcdOp}
    (h : op ∈ stateOperations i session resource states ++ [authoritativeInputMarkerOperation]) :
    (∃ p state, states[p]? = some state ∧
      op = .put (.currentState i session resource p) (.text state.asStr) 0) ∨
    op = authoritativeInputMarkerOperation := by
  rcases List.mem_append.mp h with mem | mem
  · obtain ⟨⟨p, state⟩, found, rfl⟩ := List.mem_map.mp mem
    exact .inl ⟨p, state, (OrderedMap.mem_toList _ _ _).mp found, rfl⟩
  · exact .inr (List.mem_singleton.mp mem)

/-- What a write of states leaves as it was. -/
theorem entry_writeStates_other {key : Key} (marker : key ≠ .marker)
    (other : ∀ p, (states[p]?).isSome → key ≠ .currentState i session resource p) :
    (s.write (stateOperations i session resource states ++
      [authoritativeInputMarkerOperation])).entry key = s.entry key := by
  refine Store.entry_write_of_not_mem fun mem ↦ ?_
  obtain ⟨op, mem, written⟩ := List.mem_map.mp mem
  rcases mem_stateOperations mem with ⟨p, state, found, rfl⟩ | rfl
  · exact other p (Option.isSome_iff_exists.mpr ⟨state, found⟩) written.symm
  · exact marker written.symm

theorem entry_writeStates {p : PartitionId} {state : State} (found : states[p]? = some state) :
    ∃ e, (s.write (stateOperations i session resource states ++
      [authoritativeInputMarkerOperation])).entry (.currentState i session resource p) = some e ∧
      e.value = .text state.asStr ∧ e.lease = 0 := by
  have mem : (.put (.currentState i session resource p) (.text state.asStr) 0 : EtcdOp) ∈
      stateOperations i session resource states ++ [authoritativeInputMarkerOperation] :=
    List.mem_append_left _ (List.mem_map.mpr ⟨(p, state), (OrderedMap.mem_toList _ _ _).mpr found, rfl⟩)
  obtain ⟨e, here, value, -, lease⟩ := Store.entry_write_put (s := s) mem fun op mem same ↦ by
    rcases mem_stateOperations mem with ⟨q, other, found', rfl⟩ | rfl
    · cases same
      rw [found, Option.some.injEq] at found'
      rw [found']
    · cases same
  exact ⟨e, here, value, lease⟩

theorem value_congr {s s' : EtcdStore} {key : Key} (h : s'.entry key = s.entry key) :
    s'.value key = s.value key := by
  rw [Store.value, Store.value, h]

/-- States are recorded on both sides. -/
theorem Mirrors.stores {model next : ParticipantSessionState} (h : Mirrors s model)
    (stores : model.Stores next i session resource states)
    (known : model.knownSessions[session]? = some i) (nonempty : states ≠ ∅) :
    Mirrors (s.write (stateOperations i session resource states ++
      [authoritativeInputMarkerOperation])) next := by
  have other : ∀ key : Key, key ≠ .marker → (∀ p, key ≠ .currentState i session resource p) →
      (s.write (stateOperations i session resource states ++
        [authoritativeInputMarkerOperation])).entry key = s.entry key :=
    fun key marker apart ↦ entry_writeStates_other marker fun p _ ↦ apart p
  have live := fun j ↦ other (.live j) (fun h ↦ nomatch h) fun _ h ↦ nomatch h
  constructor
  · exact h.coherent.stores stores known nonempty
  · rw [value_congr (other .sequence (fun h ↦ nomatch h) (fun _ h ↦ nomatch h)), h.sequence,
      stores.nextSessionSequence]
  · intro j
    rw [value_congr (live j), h.live, stores.liveInstances]
  · intro j t
    rw [other (.session j t) (fun h ↦ nomatch h) (fun _ h ↦ nomatch h), h.sessions,
      stores.knownSessions]
  · intro j t r p
    rw [stores.stateOf]
    by_cases here : j = i ∧ t = session ∧ r = resource
    · obtain ⟨rfl, rfl, rfl⟩ := here
      rw [if_pos ⟨rfl, rfl, rfl, rfl⟩]
      cases found : states[p]? with
      | none =>
        rw [Option.none_or, ← h.states]
        refine value_congr (entry_writeStates_other (fun h ↦ nomatch h) fun q some same ↦ ?_)
        cases same
        rw [found] at some
        cases some
      | some state =>
        obtain ⟨e, written, value, -⟩ := entry_writeStates (s := s) (i := j) found
        rw [Store.value_of_entry written, value]
        rfl
    · rw [if_neg fun h ↦ here ⟨h.1, h.2.1, h.2.2.1⟩, Option.none_or, ← h.states]
      refine value_congr (other _ (fun h ↦ nomatch h) fun q same ↦ here ?_)
      cases same
      exact ⟨rfl, rfl, rfl⟩
  · intro j e found
    rw [live] at found
    exact h.leased j e found
  · intro j k e e' found found'
    rw [live] at found found'
    exact h.distinct j k e e' found found'
  · intro key e record found
    by_cases written : ∃ p state, states[p]? = some state ∧ key = .currentState i session resource p
    · obtain ⟨p, state, present, rfl⟩ := written
      obtain ⟨e', found', -, lease⟩ := entry_writeStates (s := s) (i := i) present
      cases found'.symm.trans found
      exact lease
    · refine h.unleased key e record ((entry_writeStates_other ?_ fun p some same ↦ ?_).symm.trans found)
      · rintro rfl
        cases record
      · obtain ⟨state, present⟩ := Option.isSome_iff_exists.mp some
        exact written ⟨p, state, present, same⟩

end States

section Disconnection

variable {s s' : EtcdStore} {model : ParticipantSessionState} {i : InstanceId}

/-- A live record goes on both sides. -/
theorem Mirrors.disconnects (h : Mirrors s model)
    (records : ∀ key : Key, key.isSessionRecord = true → s'.entry key = s.entry key)
    (gone : s'.entry (.live i) = none) (others : ∀ j, j ≠ i → s'.entry (.live j) = s.entry (.live j)) :
    Mirrors s' { model with liveInstances := model.liveInstances.erase i } := by
  have still : ∀ j e, s'.entry (.live j) = some e → s.entry (.live j) = some e := by
    intro j e found
    have differ : j ≠ i := by
      rintro rfl
      cases gone.symm.trans found
    exact (others j differ).symm.trans found
  constructor
  · exact h.coherent.disconnects i
  · exact (value_congr (records .sequence rfl)).trans h.sequence
  · intro j
    rw [OrderedMap.getElem?_erase]
    by_cases same : j = i
    · rw [if_pos same, same, Store.value, gone]
      rfl
    · rw [if_neg same, value_congr (others j same)]
      exact h.live j
  · intro j t
    rw [records (.session j t) rfl]
    exact h.sessions j t
  · intro j t r p
    exact (value_congr (records (.currentState j t r p) rfl)).trans (h.states j t r p)
  · exact fun j e found ↦ h.leased j e (still j e found)
  · exact fun j k e e' found found' ↦ h.distinct j k e e' (still j e found) (still k e' found')
  · exact fun key e record found ↦ h.unleased key e record ((records key record).symm.trans found)

/-- The lease behind a live record holds no session record and no other live record. -/
theorem Mirrors.entry_expire (h : Mirrors s model) {e : Entry Value}
    (found : s.entry (.live i) = some e) {key : Key} (same : s'.entry key = s.entry key)
    (apart : key.isSessionRecord = true ∨ ∃ j, j ≠ i ∧ key = .live j) :
    (s'.expire e.lease).entry key = s.entry key := by
  rw [Store.entry_expire, same]
  cases present : s.entry key with
  | none => rfl
  | some e' =>
    rw [Option.filter_some, if_pos]
    rw [decide_eq_true_eq]
    rintro ⟨shared, positive⟩
    rcases apart with record | ⟨j, differ, rfl⟩
    · exact h.leased i e found (shared.symm.trans (h.unleased key e' record present))
    · exact differ (h.distinct j i e' e present found shared)

/-- The lease behind a live record ends. -/
theorem Mirrors.expires (h : Mirrors s model) {e : Entry Value} (found : s.entry (.live i) = some e) :
    Mirrors (s.expire e.lease) { model with liveInstances := model.liveInstances.erase i } := by
  refine h.disconnects (fun key record ↦ h.entry_expire found rfl (.inl record)) ?_
    fun j differ ↦ h.entry_expire found rfl (.inr ⟨j, differ, rfl⟩)
  rw [Store.entry_expire, found, Option.filter_some, if_neg]
  simp [h.leased i e found]

/-- A live record is deleted, and its lease ends. -/
theorem Mirrors.revokes (h : Mirrors s model) {e : Entry Value} (found : s.entry (.live i) = some e) :
    Mirrors ((s.write [.delete (.live i), authoritativeInputMarkerOperation]).expire e.lease)
      { model with liveInstances := model.liveInstances.erase i } := by
  have other : ∀ key : Key, key ≠ .live i → key ≠ .marker →
      (s.write [.delete (.live i), authoritativeInputMarkerOperation]).entry key = s.entry key := by
    intro key live marker
    refine Store.entry_write_of_not_mem fun mem ↦ ?_
    rcases List.mem_cons.mp mem with same | mem
    · exact live same
    · exact marker (List.mem_singleton.mp mem)
  refine h.disconnects (fun key record ↦ h.entry_expire found (other key ?_ ?_) (.inl record)) ?_
    fun j differ ↦ h.entry_expire found (other (.live j) ?_ (fun h ↦ nomatch h)) (.inr ⟨j, differ, rfl⟩)
  · rintro rfl
    cases record
  · rintro rfl
    cases record
  · rw [Store.entry_expire]
    have gone : (s.write [.delete (.live i), authoritativeInputMarkerOperation]).entry (.live i) =
        none := by
      rw [Store.entry_write]
      have apart : Key.live i ≠ .marker := fun h ↦ nomatch h
      simp [Op.update, Op.key, Op.next, authoritativeInputMarkerOperation, apart]
    rw [gone]
    rfl
  · intro same
    cases same
    exact differ rfl

end Disconnection

section Registration

variable {s : EtcdStore} {model : ParticipantSessionState} {i : InstanceId}

theorem Mirrors.sequenceValue_eq (h : Mirrors s model) :
    sequenceValue s = .ok model.nextSessionSequence := by
  have stored := h.sequence
  rw [sequenceValue]
  cases found : s.entry .sequence with
  | none =>
    rw [Store.value, found] at stored
    split at stored
    · next zero => rw [zero]
    · cases stored
  | some e =>
    rw [Store.value_of_entry found] at stored
    split at stored
    · cases stored
    · next positive =>
      rw [Option.some.injEq] at stored
      have parsed := parseSession_text model.nextSessionSequence
      rw [if_pos ⟨Nat.pos_of_ne_zero positive, h.coherent.small⟩] at parsed
      dsimp only
      rw [stored]
      exact parsed

theorem Mirrors.resources_iff (h : Mirrors s model) (session : SessionId) :
    (model.resourcesOf i session).isSome ↔ (s.entry (.session i session)).isSome := by
  rw [h.coherent.recorded, h.sessions]

/-- The sessions that the scan for a predecessor finds. -/
def sessionsOf (s : EtcdStore) (i : InstanceId) : List SessionId :=
  s.entries.toList.filterMap fun item ↦ match item.1 with
    | .session j ticket =>
      if j = i then (parseSession (.text (sessionText ticket))).toOption else none
    | _ => none

theorem latestSession_eq_max (s : EtcdStore) (i : InstanceId) :
    latestSession s i = (sessionsOf s i).max? := rfl

theorem Mirrors.mem_sessionsOf (h : Mirrors s model) {session : SessionId} :
    session ∈ sessionsOf s i ↔ (model.resourcesOf i session).isSome := by
  rw [h.resources_iff, sessionsOf, List.mem_filterMap]
  constructor
  · rintro ⟨⟨key, e⟩, mem, parsed⟩
    have present : s.entry key = some e := (OrderedMap.mem_toList _ _ _).mp mem
    cases key with
    | session j ticket =>
      dsimp only at parsed
      split at parsed
      · next same =>
        rw [parseSession_text_eq_ok (CheckedLoop.toOption_eq_some.mp parsed), ← same, present]
        rfl
      · cases parsed
    | _ => cases parsed
  · intro some
    obtain ⟨e, present⟩ := Option.isSome_iff_exists.mp some
    obtain ⟨positive, bound⟩ := h.coherent.bounded session i ((h.sessions i session).mp some)
    refine ⟨(.session i session, e), (OrderedMap.mem_toList _ _ _).mpr present, ?_⟩
    dsimp only
    rw [if_pos rfl, parseSession_text, if_pos ⟨positive, bound.trans_lt h.coherent.small⟩]
    rfl

/-- The predecessor is the session that the model takes as the latest. -/
theorem Mirrors.latestResources_eq (h : Mirrors s model) (i : InstanceId) :
    model.latestResources i = (latestSession s i).bind fun previous ↦ model.resourcesOf i previous := by
  obtain ⟨latest, same, greatest⟩ := model.latestResources_eq i
  rw [same, latestSession_eq_max]
  cases max : (sessionsOf s i).max? with
  | none =>
    have none := List.max?_eq_none_iff.mp max
    rw [Option.bind_none]
    cases found : model.resourcesOf i latest with
    | none => rfl
    | some resources =>
      have mem := h.mem_sessionsOf.mpr (by rw [found]; rfl)
      rw [none] at mem
      exact absurd mem List.not_mem_nil
  | some previous =>
    obtain ⟨mem, bound⟩ := List.max?_eq_some_iff.mp max
    have below := greatest previous (h.mem_sessionsOf.mp mem)
    rw [Option.bind_some]
    cases found : model.resourcesOf i latest with
    | none =>
      rw [found] at same
      rw [ParticipantSessionState.latestResources_eq_none same previous]
    | some resources =>
      have above := bound latest (h.mem_sessionsOf.mpr (by rw [found]; rfl))
      rw [le_antisymm below above, found]

theorem exec_allocateSession (h : Mirrors s model) (lease : ℕ)
    (room : ¬2 ^ 64 ≤ model.nextSessionSequence + 1) :
    allocateSession.exec lease s = (.ok (model.nextSessionSequence + 1),
      s.write [.put .sequence (.text (toString (model.nextSessionSequence + 1))) 0]) := by
  have commits : (allocateSessionTxn ((s.entry .sequence).map Entry.modRevision)
      (model.nextSessionSequence + 1)).succeeds s = true := by
    rw [Txn.succeeds_iff]
    intro compare mem
    rw [List.mem_singleton.mp mem]
    exact revisionCompare_holds s .sequence
  rw [allocateSession, maxCasRetries, Prog.retry, Prog.exec_bind_ok (a := some (model.nextSessionSequence + 1))]
  · rfl
  · rw [Prog.exec_bind_ok exec_get]
    rw [h.sequenceValue_eq]
    change Prog.exec lease (ite _ _ _) s = _
    rw [if_neg room, Prog.exec_bind_ok (exec_send _), commits, Txn.run, if_pos commits]
    rfl

theorem exec_allocateSession_full (h : Mirrors s model) (lease : ℕ)
    (full : 2 ^ 64 ≤ model.nextSessionSequence + 1) :
    allocateSession.exec lease s = (.error .invalidSession, s) := by
  rw [allocateSession, maxCasRetries, Prog.retry, Prog.exec_bind_error]
  rw [Prog.exec_bind_ok exec_get]
  rw [h.sequenceValue_eq]
  change Prog.exec lease (ite _ _ _) s = _
  rw [if_pos full]
  rfl

/-- What a registration takes over. -/
def carriedOf (s : EtcdStore) (i : InstanceId) (previous : Option SessionId)
    (options : RegistrationOptions) : List (ResourceId × PartitionId × State) :=
  previous.elim [] fun previous ↦ carriedState s i previous options

theorem mem_carriedOf {previous : Option SessionId} {options : RegistrationOptions}
    {item : ResourceId × PartitionId × State} : item ∈ carriedOf s i previous options ↔
      item.2.2 = options.initialState item.1 ∧ ∃ session, previous = some session ∧
        (s.entry (.currentState i session item.1 item.2.1)).isSome := by
  cases previous with
  | none => simp [carriedOf]
  | some session =>
    rw [carriedOf, Option.elim_some, carriedState, List.mem_filterMap]
    constructor
    · rintro ⟨⟨key, e⟩, mem, carried⟩
      have present : s.entry key = some e := (OrderedMap.mem_toList _ _ _).mp mem
      cases key with
      | currentState j ticket r p =>
        dsimp only at carried
        split at carried
        · next same =>
          cases carried
          refine ⟨rfl, session, rfl, ?_⟩
          rw [← same.1, ← same.2, present]
          rfl
        · cases carried
      | _ => cases carried
    · rintro ⟨state, _, same, some⟩
      cases same
      obtain ⟨e, present⟩ := Option.isSome_iff_exists.mp some
      refine ⟨_, (OrderedMap.mem_toList _ _ _).mpr present, ?_⟩
      dsimp only
      rw [if_pos ⟨rfl, rfl⟩, ← state]

/-- A registration at work alone. -/
theorem exec_register (h : Mirrors s model) {lease : ℕ} (options : RegistrationOptions)
    (absent : s.entry (.live i) = none) (room : ¬2 ^ 64 ≤ model.nextSessionSequence + 1) :
    let allocated := s.write [.put .sequence (.text (toString (model.nextSessionSequence + 1))) 0]
    let after := allocated.write (registerTxn i (model.nextSessionSequence + 1) lease
      (carriedOf allocated i (latestSession s i) options)).operations
    (register i options).exec lease s =
      (.ok ⟨i, model.nextSessionSequence + 1, lease, after.revision⟩, after) := by
  intro allocated after
  have carries : (carriedFrom i (latestSession s i) options).exec lease allocated =
      (.ok (carriedOf allocated i (latestSession s i) options), allocated) := by
    cases latestSession s i with
    | none => rfl
    | some previous => rfl
  have commits : (registerTxn i (model.nextSessionSequence + 1) lease
      (carriedOf allocated i (latestSession s i) options)).succeeds allocated = true := by
    rw [Txn.succeeds_iff]
    intro compare mem
    rw [List.mem_singleton.mp mem, Compare.version_zero, ← absent]
    exact Store.entry_write_of_not_mem fun mem ↦ nomatch List.mem_singleton.mp mem
  rw [register, Prog.exec_bind_ok exec_get, Prog.exec_bind_ok (exec_allocateSession h lease room),
    Prog.exec_bind_ok carries, Prog.exec_bind_ok (rfl : (Prog.grantLease _).exec lease _ = (.ok lease, _)),
    Prog.exec_bind_ok (exec_send _), commits, Txn.run, if_pos commits]
  rfl

theorem mem_registerOperations {session : SessionId} {lease : ℕ}
    {carried : List (ResourceId × PartitionId × State)} {op : EtcdOp}
    (h : op ∈ (registerTxn i session lease carried).operations) :
    op = .put (.live i) (.text (sessionText session)) lease ∨
    op = .put (.session i session) (.text "active") 0 ∨
    (∃ item ∈ carried, op =
      .put (.currentState i session item.1 item.2.1) (.text item.2.2.asStr) 0) ∨
    op = authoritativeInputMarkerOperation := by
  simp only [registerTxn, List.mem_append, List.mem_cons, List.not_mem_nil, or_false,
    List.mem_map] at h
  rcases h with ((rfl | rfl) | ⟨item, mem, rfl⟩) | rfl
  · exact .inl rfl
  · exact .inr (.inl rfl)
  · exact .inr (.inr (.inl ⟨item, mem, rfl⟩))
  · exact .inr (.inr (.inr rfl))

/-- The entries of a store after a registration. -/
theorem entry_registered (allocated : EtcdStore) (i : InstanceId) (session : SessionId) (lease : ℕ)
    {carried : List (ResourceId × PartitionId × State)} {options : RegistrationOptions}
    (initial : ∀ item ∈ carried, item.2.2 = options.initialState item.1) :
    let after := allocated.write (registerTxn i session lease carried).operations
    (∃ e, after.entry (.live i) = some e ∧ e.value = .text (sessionText session) ∧ e.lease = lease) ∧
    (∃ e, after.entry (.session i session) = some e ∧ e.lease = 0) ∧
    (∀ item ∈ carried, ∃ e, after.entry (.currentState i session item.1 item.2.1) = some e ∧
      e.value = .text (options.initialState item.1).asStr ∧ e.lease = 0) ∧
    ∀ key : Key, key ≠ .live i → key ≠ .session i session → key ≠ .marker →
      (∀ item ∈ carried, key ≠ .currentState i session item.1 item.2.1) →
      after.entry key = allocated.entry key := by
  refine ⟨?_, ?_, fun item mem ↦ ?_, fun key live record marker states ↦ ?_⟩
  · obtain ⟨e, found, value, -, lease⟩ := Store.entry_write_put (s := allocated)
      (List.mem_cons_self : _ ∈ (registerTxn i session lease carried).operations) fun op mem same ↦ by
        rcases mem_registerOperations mem with rfl | rfl | ⟨item, -, rfl⟩ | rfl
        · rfl
        · cases same
        · cases same
        · cases same
    exact ⟨e, found, value, lease⟩
  · obtain ⟨e, found, -, -, lease⟩ := Store.entry_write_put (s := allocated)
      (List.mem_cons_of_mem _ List.mem_cons_self : _ ∈ (registerTxn i session lease carried).operations)
      fun op mem same ↦ by
        rcases mem_registerOperations mem with rfl | rfl | ⟨item, -, rfl⟩ | rfl
        · cases same
        · rfl
        · cases same
        · cases same
    exact ⟨e, found, lease⟩
  · have put : (.put (.currentState i session item.1 item.2.1) (.text item.2.2.asStr) 0 : EtcdOp) ∈
        (registerTxn i session lease carried).operations := by
      simp only [registerTxn, List.mem_append, List.mem_map]
      exact .inl (.inr ⟨item, mem, rfl⟩)
    obtain ⟨e, found, value, -, lease⟩ := Store.entry_write_put (s := allocated) put fun op mem' same ↦ by
      rcases mem_registerOperations mem' with rfl | rfl | ⟨other, taken, rfl⟩ | rfl
      · cases same
      · cases same
      · injection same with _ _ hr hp
        rw [initial item mem, initial other taken, hr, hp]
      · cases same
    exact ⟨e, found, by rw [value, initial item mem], lease⟩
  · refine Store.entry_write_of_not_mem fun mem ↦ ?_
    obtain ⟨op, mem, written⟩ := List.mem_map.mp mem
    rcases mem_registerOperations mem with rfl | rfl | ⟨item, taken, rfl⟩ | rfl
    · exact live written.symm
    · exact record written.symm
    · exact states item taken written.symm
    · exact marker written.symm

theorem Mirrors.isSome_states (h : Mirrors s model) (session : SessionId) (r : ResourceId)
    (p : PartitionId) : (s.entry (.currentState i session r p)).isSome =
      (model.stateOf i session r p i).isSome := by
  have same := congrArg Option.isSome (h.states i session r p)
  rw [Store.value, Option.isSome_map, Option.isSome_map] at same
  exact same

/-- A store as a registration leaves it. -/
structure Registered (s after : EtcdStore) (model : ParticipantSessionState) (i : InstanceId)
    (lease : ℕ) : Prop where
  sequence : ∃ e, after.entry .sequence = some e ∧
    e.value = .text (toString (model.nextSessionSequence + 1)) ∧ e.lease = 0
  live : ∃ e, after.entry (.live i) = some e ∧
    e.value = .text (sessionText (model.nextSessionSequence + 1)) ∧ e.lease = lease
  session : ∃ e, after.entry (.session i (model.nextSessionSequence + 1)) = some e ∧ e.lease = 0
  states : ∀ r p, (((model.latestResources i).bind (·[r]?)).bind (·.state p i)).isSome →
    ∃ e, after.entry (.currentState i (model.nextSessionSequence + 1) r p) = some e ∧
      e.value = .text (model.initialState r).asStr ∧ e.lease = 0
  other : ∀ key : Key, key ≠ .sequence → key ≠ .live i →
    key ≠ .session i (model.nextSessionSequence + 1) → key ≠ .marker →
    (∀ r p, (((model.latestResources i).bind (·[r]?)).bind (·.state p i)).isSome →
      key ≠ .currentState i (model.nextSessionSequence + 1) r p) → after.entry key = s.entry key

/-- A new session is there on both sides, with the records of its predecessor. -/
theorem Mirrors.connects {next : ParticipantSessionState} (h : Mirrors s model)
    (connects : model.Connects next i) {lease : ℕ} {after : EtcdStore}
    (registered : Registered s after model i lease)
    (room : ¬2 ^ 64 ≤ model.nextSessionSequence + 1) (positive : lease ≠ 0)
    (fresh : ∀ key e, s.entry key = some e → e.lease ≠ lease) : Mirrors after next := by
  have lives : ∀ j, j ≠ i → after.entry (.live j) = s.entry (.live j) := by
    intro j differ
    refine registered.other _ (fun h ↦ by cases h) (fun same ↦ ?_) (fun h ↦ by cases h)
      (fun h ↦ by cases h) fun _ _ _ h ↦ by cases h
    cases same
    exact differ rfl
  constructor
  · exact h.coherent.connects connects room
  · obtain ⟨e, found, value, -⟩ := registered.sequence
    rw [Store.value_of_entry found, value, connects.nextSessionSequence, if_neg (Nat.succ_ne_zero _)]
  · intro j
    rw [connects.liveInstances, OrderedMap.getElem?_insert]
    by_cases same : j = i
    · obtain ⟨e, found, value, -⟩ := registered.live
      rw [if_pos same, same, Store.value_of_entry found, value]
      rfl
    · rw [if_neg same, value_congr (lives j same), h.live]
  · intro j t
    rw [h.coherent.known_connects connects]
    by_cases here : j = i ∧ t = model.nextSessionSequence + 1
    · obtain ⟨e, found, -⟩ := registered.session
      rw [here.1, here.2, found]
      simp
    · rw [registered.other (.session j t) (fun h ↦ by cases h) (fun h ↦ by cases h)
        (fun same ↦ here (by cases same; exact ⟨rfl, rfl⟩)) (fun h ↦ by cases h)
        (fun _ _ _ h ↦ by cases h), h.sessions]
      exact ⟨.inr, fun known ↦ known.resolve_left here⟩
  · intro j t r p
    rw [connects.stateOf]
    by_cases here : j = i ∧ t = model.nextSessionSequence + 1
    · obtain ⟨rfl, rfl⟩ := here
      rw [if_pos ⟨rfl, rfl⟩]
      cases previous : ((model.latestResources j).bind (·[r]?)).bind (·.state p j) with
      | none =>
        rw [value_congr (registered.other (.currentState j _ r p) (fun h ↦ by cases h)
          (fun h ↦ by cases h) (fun h ↦ by cases h) (fun h ↦ by cases h) fun r' p' some same ↦ ?_),
          h.states, ParticipantSessionState.stateOf, h.coherent.unrecorded]
        · rfl
        · cases same
          rw [previous] at some
          cases some
      | some state =>
        obtain ⟨e, found, value, -⟩ := registered.states r p (by rw [previous]; rfl)
        rw [Store.value_of_entry found, value]
        simp
    · rw [if_neg here, ← h.states]
      refine value_congr (registered.other _ (fun h ↦ by cases h) (fun h ↦ by cases h)
        (fun h ↦ by cases h) (fun h ↦ by cases h) fun r' p' _ same ↦ here ?_)
      cases same
      exact ⟨rfl, rfl⟩
  · intro j e found
    by_cases same : j = i
    · obtain ⟨e', found', -, lease'⟩ := registered.live
      rw [same, found'] at found
      cases found
      rw [lease']
      exact positive
    · rw [lives j same] at found
      exact h.leased j e found
  · intro j k e e' found found' same
    obtain ⟨new, hnew, -, hlease⟩ := registered.live
    by_cases hj : j = i
    · by_cases hk : k = i
      · rw [hj, hk]
      · rw [hj, hnew] at found
        cases found
        rw [lives k hk] at found'
        exact absurd (same.symm.trans hlease) (fresh _ e' found')
    · rw [lives j hj] at found
      by_cases hk : k = i
      · rw [hk, hnew] at found'
        cases found'
        exact absurd (same.trans hlease) (fresh _ e found)
      · rw [lives k hk] at found'
        exact h.distinct j k e e' found found' same
  · intro key e record found
    by_cases first : key = .sequence
    · obtain ⟨e', found', -, unleased⟩ := registered.sequence
      rw [first, found'] at found
      cases found
      exact unleased
    by_cases second : key = .session i (model.nextSessionSequence + 1)
    · obtain ⟨e', found', unleased⟩ := registered.session
      rw [second, found'] at found
      cases found
      exact unleased
    by_cases third : ∃ r p, (((model.latestResources i).bind (·[r]?)).bind (·.state p i)).isSome ∧
        key = .currentState i (model.nextSessionSequence + 1) r p
    · obtain ⟨r, p, some, rfl⟩ := third
      obtain ⟨e', found', -, unleased⟩ := registered.states r p some
      rw [found'] at found
      cases found
      exact unleased
    · refine h.unleased key e record ((registered.other key first ?_ second ?_ ?_).symm.trans found)
      · rintro rfl
        cases record
      · rintro rfl
        cases record
      · exact fun r p some same ↦ third ⟨r, p, some, same⟩

/-- What a registration does to a store that mirrors a model. -/
theorem Mirrors.registered (h : Mirrors s model) (lease : ℕ) {options : RegistrationOptions}
    (initial : model.initialState = options.initialState) :
    let allocated := s.write [.put .sequence (.text (toString (model.nextSessionSequence + 1))) 0]
    Registered s (allocated.write (registerTxn i (model.nextSessionSequence + 1) lease
      (carriedOf allocated i (latestSession s i) options)).operations) model i lease := by
  intro allocated
  have kept : ∀ key, key ≠ .sequence → allocated.entry key = s.entry key := by
    intro key other
    exact Store.entry_write_of_not_mem fun mem ↦ other (List.mem_singleton.mp mem)
  have taken : ∀ r p, (r, p, options.initialState r) ∈
      carriedOf allocated i (latestSession s i) options ↔
      (((model.latestResources i).bind (·[r]?)).bind (·.state p i)).isSome := by
    intro r p
    rw [mem_carriedOf, h.latestResources_eq i]
    cases latestSession s i with
    | none => simp
    | some previous =>
      simp only [true_and, Option.some.injEq, exists_eq_left', Option.bind_some]
      rw [kept (.currentState i previous r p) (fun h ↦ nomatch h), h.isSome_states]
      rfl
  obtain ⟨live, session, states, other⟩ := entry_registered allocated i
    (model.nextSessionSequence + 1) lease
    fun item (mem : item ∈ carriedOf allocated i (latestSession s i) options) ↦
      (mem_carriedOf.mp mem).1
  have carried : ∀ item ∈ carriedOf allocated i (latestSession s i) options,
      (((model.latestResources i).bind (·[item.1]?)).bind (·.state item.2.1 i)).isSome := by
    intro item mem
    rw [← taken, ← (mem_carriedOf.mp mem).1]
    exact mem
  refine ⟨?_, live, session, fun r p some ↦ ?_, fun key hseq hlive hsession hmarker hstates ↦ ?_⟩
  · rw [other .sequence (fun h ↦ nomatch h) (fun h ↦ nomatch h) (fun h ↦ nomatch h)
      (fun _ _ h ↦ nomatch h)]
    obtain ⟨e, found, value, -, unleased⟩ := Store.entry_write_put (s := s)
      (List.mem_singleton_self (Op.put .sequence
        (.text (toString (model.nextSessionSequence + 1))) 0)) fun op mem _ ↦ List.mem_singleton.mp mem
    exact ⟨e, found, value, unleased⟩
  · obtain ⟨e, found, value, unleased⟩ := states (r, p, options.initialState r) ((taken r p).mpr some)
    exact ⟨e, found, by rw [value, initial], unleased⟩
  · rw [other key hlive hsession hmarker fun item mem same ↦ hstates _ _ (carried item mem) same]
    exact kept key hseq

end Registration

section Reading

variable {s : EtcdStore} {model : ParticipantSessionState}

theorem Mirrors.parses (h : Mirrors s model) {session : SessionId} {i : InstanceId}
    (known : model.knownSessions[session]? = some i) :
    parseSession (.text (sessionText session)) = .ok session := by
  obtain ⟨positive, bound⟩ := h.coherent.bounded session i known
  rw [parseSession_text, if_pos ⟨positive, bound.trans_lt h.coherent.small⟩]

/-- No resource is recorded without a partition. -/
def ParticipantRecords.Occupied (records : ParticipantRecords) : Prop :=
  ∀ (key : InstanceId ×ₗ SessionId) (resources : BTreeMap ResourceId (BTreeMap PartitionId State))
    (r : ResourceId), records.states[key]? = some resources → resources[r]? ≠ some ∅

theorem occupied_addRecord {records next : ParticipantRecords} {item : Key × Value}
    (h : records.Occupied) (step : addRecord records item = .ok next) : next.Occupied := by
  obtain ⟨key, value⟩ := item
  cases key with
  | live i =>
    obtain ⟨session, -, step⟩ := CheckedLoop.bind_eq_ok.mp step
    cases step
    exact h
  | currentState i ticket resource partition =>
    obtain ⟨session, -, step⟩ := CheckedLoop.bind_eq_ok.mp step
    obtain ⟨state, -, step⟩ := CheckedLoop.bind_eq_ok.mp step
    cases step
    intro key resources r found empty
    rw [OrderedMap.getElem?_insert] at found
    split at found
    · cases found
      rw [OrderedMap.getElem?_insert] at empty
      split at empty
      · have clash := congrArg (·[partition]?) (Option.some.inj empty)
        simp at clash
      · cases owned : records.states[toLex (i, session)]? with
        | none => simp [owned] at empty
        | some resources =>
          rw [owned] at empty
          exact h _ _ _ owned empty
    · exact h _ _ _ found empty
  | _ =>
    cases step
    exact h

/-- The records of a store that mirrors a model are read without an error. -/
theorem Mirrors.reads (h : Mirrors s model) :
    ∃ records, (values s).toList.foldlM addRecord ⟨∅, ∅⟩ = .ok records := by
  obtain ⟨records, run, -⟩ := CheckedLoop.foldlM_ok (fun _ _ ↦ True) addRecord (values s).toList
    ⟨∅, ∅⟩ trivial (by
      intro done item rest records split _
      obtain ⟨key, value⟩ := item
      have found := (OrderedMap.visited split).1
      rw [getElem?_values] at found
      cases key with
      | live i =>
        rw [h.live, Option.map_eq_some_iff] at found
        obtain ⟨session, live, rfl⟩ := found
        dsimp only [addRecord]
        rw [h.parses (h.coherent.current i session live)]
        exact ⟨_, rfl, trivial⟩
      | currentState i ticket r p =>
        rw [h.states, Option.map_eq_some_iff] at found
        obtain ⟨state, recorded, rfl⟩ := found
        dsimp only [addRecord]
        rw [h.parses (h.coherent.known_of_state recorded), parseState_text]
        exact ⟨_, rfl, trivial⟩
      | _ => exact ⟨records, rfl, trivial⟩)
  exact ⟨records, run⟩

theorem Mirrors.liveSession (h : Mirrors s model) (i : InstanceId) :
    liveSession s i = model.liveInstances[i]? := by
  rw [Clustodian.liveSession, h.live]
  cases live : model.liveInstances[i]? with
  | none => rfl
  | some session =>
    rw [Option.map_some, Option.bind_some, h.parses (h.coherent.current i session live)]
    rfl

theorem Mirrors.recordedState (h : Mirrors s model) (i : InstanceId) (session : SessionId)
    (r : ResourceId) (p : PartitionId) :
    recordedState s i session r p = model.stateOf i session r p i := by
  rw [Clustodian.recordedState, h.states]
  cases model.stateOf i session r p i with
  | none => rfl
  | some state =>
    rw [Option.map_some, Option.bind_some, parseState_text]
    rfl

/-- Records that give every state of a session give its resources. -/
theorem ParticipantSessionState.Coherent.resources_eq (h : model.Coherent)
    {records : ParticipantRecords} (occupied : records.Occupied) {i : InstanceId}
    {session : SessionId}
    (states : ∀ r p, records.stateAt i session r p = model.stateOf i session r p i) :
    (((records.states[toLex (i, session)]?).getD ∅).map fun _ partitions ↦ ownStates i partitions) =
      (model.resourcesOf i session).getD ∅ := by
  refine OrderedMap.ext fun r ↦ ?_
  have left : ((records.states[toLex (i, session)]?).getD ∅)[r]? =
      (records.states[toLex (i, session)]?).bind (·[r]?) := by
    cases records.states[toLex (i, session)]? <;> simp
  have right : ((model.resourcesOf i session).getD ∅)[r]? =
      (model.resourcesOf i session).bind (·[r]?) := by
    cases model.resourcesOf i session <;> simp
  rw [Std.ExtTreeMap.getElem?_map, left, right]
  cases scanned : (records.states[toLex (i, session)]?).bind (·[r]?) with
  | none =>
    cases kept : (model.resourcesOf i session).bind (·[r]?) with
    | none => rfl
    | some current =>
      obtain ⟨p, some⟩ := h.occupied i session r (Option.isSome_of_eq_some kept)
      rw [← states, ParticipantRecords.stateAt, scanned] at some
      cases some
  | some partitions =>
    obtain ⟨resources, found, present⟩ := Option.bind_eq_some_iff.mp scanned
    have inhabited : partitions ≠ ∅ := by
      rintro rfl
      exact occupied _ resources r found present
    obtain ⟨p, state, here⟩ : ∃ (p : PartitionId) (state : State), partitions[p]? = some state := by
      by_contra none
      refine inhabited (OrderedMap.ext fun p ↦ ?_)
      cases here : partitions[p]? with
      | none => simp
      | some state => exact absurd ⟨p, state, here⟩ none
    have known := states r p
    rw [ParticipantRecords.stateAt, scanned, Option.bind_some, here] at known
    obtain ⟨current, kept, -⟩ := Option.bind_eq_some_iff.mp known.symm
    rw [kept, Option.map_some]
    refine congrArg some (ReplicaStates.ext_state fun p j ↦ ?_)
    rw [ParticipantRecords.state_ownStates]
    by_cases owner : j = i
    · have same := states r p
      rw [ParticipantRecords.stateAt, ParticipantSessionState.stateOf, scanned, kept] at same
      rw [if_pos owner, owner]
      exact same
    · rw [if_neg owner]
      cases foreign : current.state p j with
      | none => rfl
      | some state =>
        refine absurd (h.own i session r p j ?_) owner
        rw [ParticipantSessionState.stateOf, kept, Option.bind_some, foreign]
        rfl

theorem Mirrors.snapshot (h : Mirrors s model) :
    ∃ participants, participantSnapshotFromKvs s = .ok participants ∧
      participants.liveInstances = model.liveInstances ∧
      participants.activeCurrentState = model.activeCurrentState := by
  obtain ⟨records, run⟩ := h.reads
  have read : participantSnapshotFromKvs s = .ok records.toSnapshot := by
    rw [participantSnapshotFromKvs, run]
    rfl
  have live : records.live = model.liveInstances := OrderedMap.ext fun i ↦
    (live_participantSnapshot read i).trans (h.liveSession i)
  have gathered := ParticipantRecords.gathered run
  have occupied : records.Occupied :=
    CheckedLoop.foldlM_inv (fun _ records ↦ records.Occupied) _ run (by
      intro key resources r found
      simp at found) fun _ _ _ _ _ _ h step ↦ occupied_addRecord h step
  refine ⟨_, read, live, OrderedMap.ext fun i ↦ ?_⟩
  rw [ParticipantRecords.toSnapshot, ParticipantSessionState.activeCurrentState]
  simp only [Std.ExtTreeMap.getElem?_map]
  rw [live]
  cases current : model.liveInstances[i]? with
  | none => rfl
  | some session =>
  have states : ∀ r p, records.stateAt i session r p = model.stateOf i session r p i := by
    intro r p
    refine Option.ext fun state ↦ ?_
    rw [gathered.states]
    simp only [OrderedMap.mem_toList, getElem?_values, h.states, Option.map_eq_some_iff]
    constructor
    · rintro ⟨value, ⟨recorded, found, rfl⟩, parsed⟩
      rw [parseState_text] at parsed
      cases parsed
      exact found
    · exact fun found ↦ ⟨_, ⟨state, found, rfl⟩, parseState_text state⟩
  exact congrArg (fun resources ↦ some (ActiveCurrentState.mk session resources))
    (h.coherent.resources_eq occupied states)

end Reading

end Clustodian
