import Clustodian.Coordination.Marker

namespace Clustodian

open RevisionStore

section Writes

abbrev EtcdEvent := Event Key Value Purpose

/-- A campaign writes only records that are absent, and the active one only as the oldest
candidate. -/
structure CampaignWrite (controller : String) (event : EtcdEvent) : Prop where
  candidates : ∀ name,
    event.after.entry (.candidate name) ≠ event.before.entry (.candidate name) →
    name = controller ∧ event.before.entry (.candidate name) = none
  active : event.after.entry .active ≠ event.before.entry .active →
    event.before.entry .active = none ∧ ∃ record candidate,
      event.after.entry .active = some record ∧ record.value = .text controller ∧
      event.before.entry (.candidate controller) = some candidate ∧
      candidate.lease = record.lease ∧
      ∀ name other, event.before.entry (.candidate name) = some other →
        candidate.createRevision ≤ other.createRevision

/-- A resignation removes only records of its own lease. -/
def ReleaseWrite (authority : ControllerAuthority) (event : EtcdEvent) : Prop :=
  ∀ key : Key, key.isElection = true → event.after.entry key ≠ event.before.entry key →
    event.after.entry key = none ∧
    ∃ record, event.before.entry key = some record ∧ record.lease = authority.leaseId

/-- The active record is this controller's. -/
def Leads (authority : ControllerAuthority) (s : EtcdStore) : Prop :=
  ∃ record, s.entry .active = some record ∧ record.value = .text authority.controllerId ∧
    record.lease = authority.leaseId

/-- Everybody else leaves the election alone, and writes in a controller's name only while that
controller is active. -/
structure ServiceWrite (authority : Option ControllerAuthority) (event : EtcdEvent) : Prop where
  apart : ∀ key : Key, key.isElection = true → event.after.entry key = event.before.entry key
  led : ∀ a, authority = some a → event.committed = true → Leads a event.before

def Operation.Conduct : Operation → EtcdEvent → Prop
  | .acquire controller _ => CampaignWrite controller
  | .relinquish authority => ReleaseWrite authority
  | operation => ServiceWrite operation.authority

end Writes

section Transactions

variable {s : EtcdStore} {tag : Purpose}

theorem Txn.run_of_failed {txn : EtcdTxn} (h : txn.succeeds s = false) : txn.run s = s := by
  rw [Txn.run, h]
  rfl

theorem campaignWrite_candidateTxn (controller : String) (lease : ℕ) :
    CampaignWrite controller (.ofTxn tag (candidateTxn controller lease) s) := by
  cases committed : (candidateTxn controller lease).succeeds s with
  | false =>
    refine ⟨fun name changed ↦ absurd ?_ changed, fun changed ↦ absurd ?_ changed⟩
    · exact congrArg (Store.entry · _) (Txn.run_of_failed committed)
    · exact congrArg (Store.entry · _) (Txn.run_of_failed committed)
  | true =>
    have after : (candidateTxn controller lease).run s = s.write _ := if_pos committed
    refine ⟨fun name changed ↦ ?_, fun changed ↦ absurd ?_ changed⟩
    · have same : name = controller := by
        by_contra other
        refine changed ((congrArg (Store.entry · _) after).trans (Store.entry_write_of_not_mem ?_))
        simpa [candidateTxn, Op.key] using other
      refine ⟨same, ?_⟩
      rw [same]
      exact Compare.version_zero.mp (Txn.succeeds_iff.mp committed _ (List.mem_singleton_self _))
    · refine (congrArg (Store.entry · _) after).trans (Store.entry_write_of_not_mem ?_)
      simp [candidateTxn, Op.key]

theorem hasPredecessor_eq_false {createRevision : Revision}
    (h : hasPredecessor s createRevision = false) {name : String} {other : Entry Value}
    (found : s.entry (.candidate name) = some other) : createRevision ≤ other.createRevision := by
  have later := List.any_eq_false.mp h (.candidate name, other) ((OrderedMap.mem_toList _ _ _).mpr found)
  simpa using later

/-- The order among the candidates was checked on an older store; it still holds when the record
is written, because whoever came since has a newer creation revision. -/
theorem campaignWrite_activeTxn {controller : String} {lease : ℕ} {read : EtcdStore}
    {candidate : Entry Value} (later : Store.Later read s)
    (found : read.entry (.candidate controller) = some candidate)
    (oldest : hasPredecessor read candidate.createRevision = false) :
    CampaignWrite controller
      (.ofTxn tag (activeTxn controller lease candidate.createRevision) s) := by
  cases committed : (activeTxn controller lease candidate.createRevision).succeeds s with
  | false =>
    refine ⟨fun name changed ↦ absurd ?_ changed, fun changed ↦ absurd ?_ changed⟩
    · exact congrArg (Store.entry · _) (Txn.run_of_failed committed)
    · exact congrArg (Store.entry · _) (Txn.run_of_failed committed)
  | true =>
    have after : (activeTxn controller lease candidate.createRevision).run s = s.write _ :=
      if_pos committed
    refine ⟨fun name changed ↦ absurd ?_ changed, fun _ ↦ ?_⟩
    · refine (congrArg (Store.entry · _) after).trans (Store.entry_write_of_not_mem ?_)
      simp [activeTxn, Op.key]
    · have holds := Txn.succeeds_iff.mp committed
      simp only [activeTxn, List.mem_cons, List.not_mem_nil, or_false, forall_eq_or_imp,
        forall_eq] at holds
      obtain ⟨absent, created, leased⟩ := holds
      obtain ⟨positive, bound⟩ := Store.createRevision_bounded found
      obtain ⟨record, written, value, -, lease'⟩ := Store.entry_write_put (s := s)
        (List.mem_singleton_self (Op.put Key.active (Value.text controller) lease))
        fun op mem _ ↦ List.mem_singleton.mp mem
      refine ⟨Compare.version_zero.mp absent, record, ?_⟩
      simp only [Compare.holds, decide_eq_true_eq] at created leased
      cases present : s.entry (.candidate controller) with
      | none =>
        rw [present] at created
        exact absurd created (by simp; omega)
      | some own =>
        rw [present] at created leased
        refine ⟨own, (congrArg (Store.entry · _) after).trans written, value, present, ?_, ?_⟩
        · exact leased.trans lease'.symm
        · intro name other found'
          have created : own.createRevision = candidate.createRevision := created
          by_contra newer
          obtain ⟨e₀, earlier, same⟩ := later.entry_created found' (by omega)
          exact newer (created.le.trans ((hasPredecessor_eq_false oldest earlier).trans same.le))

theorem apart_of_ordinary {txn : EtcdTxn} (ordinary : Ordinary txn) {key : Key}
    (election : key.isElection = true) : (txn.run s).entry key = s.entry key := by
  cases committed : txn.succeeds s with
  | false => rw [Txn.run_of_failed committed]
  | true =>
    rw [Txn.run, if_pos committed]
    refine Store.entry_write_of_not_mem fun mem ↦ ?_
    obtain ⟨op, hop, rfl⟩ := List.mem_map.mp mem
    rw [ordinary.apart op hop] at election
    cases election

theorem leads_of_owned {authority : ControllerAuthority} {txn : EtcdTxn} (owned : Owned authority txn)
    (committed : txn.succeeds s = true) : Leads authority s := by
  have holds : ∀ c ∈ authority.compares, c.holds s = true :=
    fun c mem ↦ Txn.succeeds_iff.mp committed c (owned.fenced c mem)
  simp only [ControllerAuthority.compares, List.mem_cons, List.not_mem_nil, or_false,
    forall_eq_or_imp, forall_eq] at holds
  obtain ⟨value, lease⟩ := holds
  rw [Compare.value_holds, Store.value] at value
  simp only [Compare.holds, decide_eq_true_eq] at lease
  cases found : s.entry .active with
  | none =>
    rw [found] at value
    cases value
  | some record =>
    rw [found] at value lease
    exact ⟨record, found, Option.some.inj value, lease⟩

theorem releaseWrite_deleteOwnedElectionKeyTxn (authority : ControllerAuthority) (key : Key) :
    ReleaseWrite authority
      (.ofTxn tag (deleteOwnedElectionKeyTxn authority.leaseId key) s) := by
  intro key' _ changed
  have after : (deleteOwnedElectionKeyTxn authority.leaseId key).run s ≠ s :=
    fun same ↦ changed (congrArg (Store.entry · _) same)
  cases committed : (deleteOwnedElectionKeyTxn authority.leaseId key).succeeds s with
  | false => exact absurd (Txn.run_of_failed committed) after
  | true =>
    have after : (deleteOwnedElectionKeyTxn authority.leaseId key).run s = s.write [.delete key] :=
      if_pos committed
    have same : key' = key := by
      by_contra other
      refine changed ((congrArg (Store.entry · _) after).trans (Store.entry_write_of_not_mem ?_))
      simpa [Op.key] using other
    have gone : (s.write [.delete key]).entry key = none := by
      rw [Store.entry_write]
      exact if_pos rfl
    have leased := Txn.succeeds_iff.mp committed _ (List.mem_singleton_self _)
    simp only [Compare.holds, decide_eq_true_eq] at leased
    rw [same]
    have after := (congrArg (Store.entry · key) after).trans gone
    refine ⟨after, ?_⟩
    cases found : s.entry key with
    | none =>
      refine absurd ?_ changed
      rw [same]
      exact after.trans found.symm
    | some record =>
      rw [found] at leased
      exact ⟨record, found, leased⟩

end Transactions

section Verification

open Contract

/-- Clients rely on the order of time only. -/
def timely : Contract Key Value := ⟨True, Store.Later, Store.Later.expire⟩

theorem timely_since {s s' : EtcdStore} (h : timely.Since s s') : Store.Later s s' := by
  induction h with
  | refl => exact Store.Later.refl s
  | tail _ step ih => exact ih.trans step

variable {s : EtcdStore}

/-- A program of which every transaction keeps to a rule whatever the store is. -/
theorem wp_timely {Q : EtcdEvent → Prop} {P : EtcdTxn → Prop} {α : Type} {p : Client α}
    (issues : p.Issues P) (rule : ∀ tag request s, P request → Q (.ofTxn tag request s))
    {log : List EtcdEvent} (past : ∀ event ∈ log, Q event) :
    timely.wp (fun log ↦ ∀ event ∈ log, Q event) (fun _ _ _ ↦ True) p log s :=
  wp_of_issues (fun tag request s hrequest ↦
    ⟨rule tag request s hrequest, fun _ ↦ Txn.later_run request s⟩) issues past

theorem mem_snoc {Q : EtcdEvent → Prop} {log : List EtcdEvent} {event : EtcdEvent}
    (past : ∀ event ∈ log, Q event) (new : Q event) : ∀ e ∈ log ++ [event], Q e := by
  intro e mem
  rcases List.mem_append.mp mem with mem | mem
  · exact past e mem
  · rw [List.mem_singleton.mp mem]
    exact new

section Campaign

variable (controller : String)

theorem wp_campaignRound (lease : ℕ) {log : List EtcdEvent}
    (past : ∀ event ∈ log, CampaignWrite controller event) :
    timely.wp (fun log ↦ ∀ event ∈ log, CampaignWrite controller event) (fun _ _ _ ↦ True)
      (campaignRound controller lease) log s := by
  refine wp_bind (wp_query past (fun read _ ↦ ?_) fun _ _ _ ↦ trivial)
  dsimp only
  split
  · exact ⟨past, trivial⟩
  · next candidate found =>
    split
    · exact ⟨past, trivial⟩
    · next oldest =>
      have write : ∀ s, timely.Since read s → ∀ event ∈ log ++ [.ofTxn .ordinary
          (activeTxn controller lease candidate.createRevision) s], CampaignWrite controller event :=
        fun s since ↦ mem_snoc past
          (campaignWrite_activeTxn (timely_since since) found (Bool.eq_false_iff.mpr oldest))
      have sent : timely.wp (fun log ↦ ∀ event ∈ log, CampaignWrite controller event)
          (fun _ _ _ ↦ True) (becomeActive controller lease candidate.createRevision) log read := by
        refine wp_then (wp_submit past (fun s _ _ ↦ Txn.later_run _ s) write
          (fun _ _ ↦ trivial) fun _ _ _ ↦ ⟨trivial, trivial⟩) fun _ log s past ↦ ⟨past, trivial⟩
      refine wp_then sent fun elected log s past ↦ ?_
      split
      · exact ⟨past, trivial⟩
      · exact ⟨past, trivial⟩

theorem wp_acquireUntil (phase : CampaignPhase) (signals : List CampaignSignal)
    {log : List EtcdEvent} (past : ∀ event ∈ log, CampaignWrite controller event) :
    timely.wp (fun log ↦ ∀ event ∈ log, CampaignWrite controller event) (fun _ _ _ ↦ True)
      (acquireUntil controller phase signals) log s := by
  have quiet : ∀ {α : Type} {p : Client α} {log : List EtcdEvent} {s : EtcdStore},
      (∀ event ∈ log, CampaignWrite controller event) → p.Issues (fun _ ↦ False) →
      timely.wp (fun log ↦ ∀ event ∈ log, CampaignWrite controller event) (fun _ _ _ ↦ True)
        p log s := fun past issues ↦ wp_timely issues (fun _ _ _ h ↦ h.elim) past
  have abandoned : ∀ {lease : ℕ} {result : Acquisition} {log : List EtcdEvent} {s : EtcdStore},
      (∀ event ∈ log, CampaignWrite controller event) →
      timely.wp (fun log ↦ ∀ event ∈ log, CampaignWrite controller event) (fun _ _ _ ↦ True)
        (abandon lease result) log s := fun past ↦ quiet past (issues_abandon _ _)
  induction signals generalizing phase log s with
  | nil => cases phase <;> exact ⟨past, trivial⟩
  | cons signal signals ih =>
    cases phase with
    | grant =>
      refine wp_then (quiet past (Prog.issues_grantLease _).attempt) fun result log s past ↦ ?_
      split
      · split
        · exact ⟨past, trivial⟩
        · exact ih _ past
      · split
        · exact ⟨past, trivial⟩
        · split
          · exact ⟨past, trivial⟩
          · exact ih _ past
    | register lease =>
      have registered : timely.wp (fun log ↦ ∀ event ∈ log, CampaignWrite controller event)
          (fun _ _ _ ↦ True) (registerCandidate controller lease) log s := by
        refine wp_timely (issues_registerCandidate controller lease rfl) ?_ past
        rintro tag _ s rfl
        exact campaignWrite_candidateTxn controller lease
      refine wp_then (wp_attempt registered) fun registered log s past ↦ ?_
      split
      · exact abandoned past
      · split
        · exact ih _ past
        · exact wp_then (quiet past (Prog.issues_revokeLease _ _).attempt) fun _ _ _ past ↦ ih _ past
        · split
          · exact ih _ past
          · exact ⟨past, trivial⟩
    | campaign lease =>
      unfold acquireUntil
      split
      · exact ⟨past, trivial⟩
      · refine wp_then (wp_attempt (wp_campaignRound controller lease past))
          fun round log s past ↦ ?_
        split
        · exact ⟨past, trivial⟩
        · exact ⟨past, trivial⟩
        · split
          · exact wp_then (quiet past (Prog.issues_revokeLease _ _))
              fun _ _ _ past ↦ ⟨past, trivial⟩
          · exact ih _ past
        · split
          · exact ⟨past, trivial⟩
          · split
            · exact abandoned past
            · exact ih _ past

end Campaign

theorem serviceWrite_of_ordinary {request : EtcdTxn} (ordinary : Ordinary request) (tag : Purpose) :
    ServiceWrite none (.ofTxn tag request s) :=
  ⟨fun _ election ↦ apart_of_ordinary ordinary election, fun _ h ↦ nomatch h⟩

theorem serviceWrite_of_owned {authority : ControllerAuthority} {request : EtcdTxn}
    (owned : Owned authority request) (tag : Purpose) :
    ServiceWrite (some authority) (.ofTxn tag request s) := by
  refine ⟨fun _ election ↦ apart_of_ordinary owned.toOrdinary election, fun a same committed ↦ ?_⟩
  cases same
  exact leads_of_owned owned committed

/-- Every operation keeps to its conduct, whatever happens between its requests. -/
theorem wp_conduct (operation : Operation) (s : EtcdStore) :
    timely.wp (fun log ↦ ∀ event ∈ log, operation.Conduct event) (fun _ _ _ ↦ True)
      operation.program [] s := by
  have none : ∀ Q : EtcdEvent → Prop, ∀ event ∈ ([] : List EtcdEvent), Q event :=
    fun _ _ mem ↦ nomatch mem
  cases election : operation.isElection with
  | true =>
    cases operation with
    | acquire controller signals =>
      exact wp_then (wp_acquireUntil controller .grant signals (none _))
        fun _ _ _ past ↦ ⟨past, trivial⟩
    | relinquish authority =>
      refine wp_timely (P := fun request ↦ ∃ key,
        request = deleteOwnedElectionKeyTxn authority.leaseId key) ?_ ?_ (none _)
      · exact (issues_relinquish authority ⟨_, rfl⟩ ⟨_, rfl⟩).bind fun _ ↦ trivial
      · rintro tag _ s ⟨key, rfl⟩
        exact releaseWrite_deleteOwnedElectionKeyTxn authority key
    | _ => cases election
  | false =>
    have conduct : operation.Conduct = ServiceWrite operation.authority := by
      cases operation with
      | acquire controller signals => cases election
      | relinquish authority => cases election
      | _ => rfl
    rw [conduct]
    cases found : operation.authority with
    | none =>
      exact wp_timely (issues_ordinary operation election)
        (fun tag _ _ ordinary ↦ serviceWrite_of_ordinary ordinary tag) (none _)
    | some authority =>
      exact wp_timely (issues_owned operation found)
        (fun tag _ _ owned ↦ serviceWrite_of_owned owned tag) (none _)

end Verification

section Safety

variable {s : EtcdStore} {sys : Cluster}

theorem NamespaceReachable.conduct (h : NamespaceReachable s sys) {client : ℕ} {event : EtcdEvent}
    (mem : .own client event ∈ sys.history) :
    ∃ operation p, sys.clients[client]? = some (operation, p) ∧ operation.Conduct event := by
  obtain ⟨-, -, idle, hold⟩ := System.Reachable.wp (c := timely) wp_conduct
    (fun _ _ change ↦ change.later) h
  have written : event ∈ System.writes sys.history client :=
    List.mem_filterMap.mpr ⟨_, mem, if_pos rfl⟩
  cases found : sys.clients[client]? with
  | none =>
    rw [idle client (List.getElem?_eq_none_iff.mp found)] at written
    cases written
  | some job =>
    obtain ⟨s, -, hwp⟩ := hold client job.1 job.2 found
    exact ⟨job.1, job.2, rfl, Contract.wp_log hwp event written⟩

/-- What is not a transaction removes the records of one lease at most. -/
theorem NamespaceReachable.ended (h : NamespaceReachable s sys) {before after : EtcdStore}
    (mem : .other before after ∈ sys.history) {key : Key}
    (changed : after.entry key ≠ before.entry key) : ∃ record, before.entry key = some record ∧
      after.entry key = none ∧ after = before.expire record.lease := by
  have expired : ∀ lease, after = before.expire lease → ∃ record,
      before.entry key = some record ∧ after.entry key = none ∧
      after = before.expire record.lease := by
    rintro lease rfl
    rw [Store.entry_expire] at changed ⊢
    cases found : before.entry key with
    | none =>
      rw [found] at changed
      exact absurd rfl changed
    | some record =>
      rw [found, Option.filter_some] at changed
      split at changed
      · exact absurd rfl changed
      · next ended =>
        have ended : record.lease = lease ∧ lease ≠ 0 := by simpa using ended
        exact ⟨record, rfl, by simp [Option.filter_some, ended], by rw [ended.1]⟩
  rcases System.Reachable.others h mem with same | ⟨lease, ended⟩ | change
  · rw [same] at changed
    exact absurd rfl changed
  · exact expired lease ended
  · cases change with
    | expire lease => exact expired lease rfl
    | advance => exact absurd rfl changed

/-- A change that carries a lease: its end, or a resignation from it. -/
def CarriesLease (sys : Cluster) (lease : ℕ) (r : Record Key Value Purpose) : Prop :=
  r.after = r.before.expire lease ∨ ∃ client event authority p, r = .own client event ∧
    sys.clients[client]? = some (.relinquish authority, p) ∧ authority.leaseId = lease

/-- A successful write in a controller's name. -/
def WrittenFor (sys : Cluster) (authority : ControllerAuthority) (r : Record Key Value Purpose) :
    Prop :=
  ∃ client event operation p, r = .own client event ∧ event.committed = true ∧
    sys.clients[client]? = some (operation, p) ∧ operation.authority = some authority

/-- The active record is written where there is none, by the oldest candidate. -/
theorem NamespaceReachable.activated (h : NamespaceReachable s sys) {r : Record Key Value Purpose}
    (mem : r ∈ sys.history) {record : Entry Value} (written : r.after.entry .active = some record)
    (new : r.before.entry .active ≠ some record) : r.before.entry .active = none ∧
      ∃ client event controller signals p candidate, r = .own client event ∧
        sys.clients[client]? = some (.acquire controller signals, p) ∧
        record.value = .text controller ∧
        r.before.entry (.candidate controller) = some candidate ∧
        candidate.lease = record.lease ∧
        ∀ name other, r.before.entry (.candidate name) = some other →
          candidate.createRevision ≤ other.createRevision := by
  have changed : r.after.entry .active ≠ r.before.entry .active := by
    rw [written]
    exact fun same ↦ new same.symm
  cases r with
  | other before after =>
    obtain ⟨_, -, gone, -⟩ := h.ended mem changed
    rw [Record.after, gone] at written
    cases written
  | own client event =>
    obtain ⟨operation, p, found, conduct⟩ := h.conduct mem
    have apart : ServiceWrite operation.authority event → False :=
      fun service ↦ changed (service.apart .active rfl)
    cases operation with
    | acquire controller signals =>
      obtain ⟨absent, record', candidate, written', value, own, lease, oldest⟩ :=
        conduct.active changed
      cases written.symm.trans written'
      exact ⟨absent, client, event, controller, signals, p, candidate, rfl, found, value, own,
        lease, oldest⟩
    | relinquish authority =>
      obtain ⟨gone, -⟩ := conduct .active rfl changed
      rw [Record.after, gone] at written
      cases written
    | _ => exact (apart conduct).elim

/-- An election record is never overwritten, and removed only on account of its own lease. -/
theorem NamespaceReachable.removed (h : NamespaceReachable s sys) {r : Record Key Value Purpose}
    (mem : r ∈ sys.history) {key : Key} (election : key.isElection = true) {record : Entry Value}
    (found : r.before.entry key = some record) (changed : r.after.entry key ≠ some record) :
    r.after.entry key = none ∧ CarriesLease sys record.lease r := by
  have changed : r.after.entry key ≠ r.before.entry key := by
    rw [found]
    exact changed
  cases r with
  | other before after =>
    obtain ⟨record', found', gone, ended⟩ := h.ended mem changed
    cases found.symm.trans found'
    exact ⟨gone, .inl ended⟩
  | own client event =>
    obtain ⟨operation, p, job, conduct⟩ := h.conduct mem
    have apart : ServiceWrite operation.authority event → False :=
      fun service ↦ changed (service.apart key election)
    cases operation with
    | acquire controller signals =>
      have absent : event.before.entry key = none := by
        cases key with
        | active => exact (conduct.active changed).1
        | candidate name => exact (conduct.candidates name changed).2
        | _ => cases election
      cases found.symm.trans absent
    | relinquish authority =>
      obtain ⟨gone, record', found', lease⟩ := conduct key election changed
      cases found.symm.trans found'
      exact ⟨gone, .inr ⟨client, event, authority, p, rfl, job, lease.symm⟩⟩
    | _ => exact (apart conduct).elim

theorem NamespaceReachable.led (h : NamespaceReachable s sys) {r : Record Key Value Purpose}
    (mem : r ∈ sys.history) {authority : ControllerAuthority}
    (written : WrittenFor sys authority r) : Leads authority r.before := by
  obtain ⟨client, event, operation, p, rfl, committed, found, owner⟩ := written
  obtain ⟨operation', p', found', conduct⟩ := h.conduct mem
  cases found.symm.trans found'
  have service : ServiceWrite operation.authority event := by
    cases operation with
    | acquire controller signals => cases owner
    | relinquish authority => cases owner
    | _ => exact conduct
  exact service.led authority owner committed

theorem Leads.eq {s' : EtcdStore} {a a' : ControllerAuthority} (h : Leads a s) (h' : Leads a' s')
    (same : s.entry .active = s'.entry .active) : a = a' := by
  obtain ⟨record, found, value, lease⟩ := h
  obtain ⟨record', found', value', lease'⟩ := h'
  cases found.symm.trans (same.trans found')
  have controller : a.controllerId = a'.controllerId := Value.text.inj (value.symm.trans value')
  have leaseId : a.leaseId = a'.leaseId := lease.symm.trans lease'
  cases a
  cases a'
  cases controller
  cases leaseId
  rfl

theorem election_safe (h : NamespaceReachable s sys) :
    (∀ r ∈ sys.history, ∀ record, r.after.entry .active = some record →
      r.before.entry .active ≠ some record → r.before.entry .active = none ∧
      ∃ client event controller signals p candidate, r = .own client event ∧
        sys.clients[client]? = some (.acquire controller signals, p) ∧
        record.value = .text controller ∧
        r.before.entry (.candidate controller) = some candidate ∧
        candidate.lease = record.lease ∧
        ∀ name other, r.before.entry (.candidate name) = some other →
          candidate.createRevision ≤ other.createRevision) ∧
    (∀ r ∈ sys.history, ∀ key : Key, key.isElection = true → ∀ record,
      r.before.entry key = some record → r.after.entry key ≠ some record →
      r.after.entry key = none ∧ CarriesLease sys record.lease r) ∧
    ∀ r ∈ sys.history, ∀ authority, WrittenFor sys authority r → Leads authority r.before ∧
      ∀ r' ∈ sys.history, ∀ authority', WrittenFor sys authority' r' →
        r.before.entry .active = r'.before.entry .active → authority = authority' := by
  refine ⟨fun r mem record written new ↦ h.activated mem written new,
    fun r mem key election record found changed ↦ h.removed mem election found changed,
    fun r mem authority written ↦ ⟨h.led mem written, fun r' mem' authority' written' same ↦ ?_⟩⟩
  exact (h.led mem written).eq (h.led mem' written') same

theorem election_safe_first : ∃ sys : Cluster, NamespaceReachable Store.empty sys ∧
    sys.store.entry .active = some ⟨.text "c", 4, 4, 1, 9⟩ ∧
    ∀ r ∈ sys.history, ∀ record, r.after.entry .active = some record →
      r.before.entry .active ≠ some record → r.before.entry .active = none := by
  let sys : Cluster := (System.initial initialized).perform Operation.program
    (.acquire "c" [.proceed, .proceed, .proceed]) 9 4
  have reach : NamespaceReachable Store.empty sys := System.Reachable.initial.perform _ _ _
  refine ⟨sys, reach, by decide, fun r mem record written new ↦ ?_⟩
  exact ((election_safe reach).1 r mem record written new).1

end Safety

section Recognition

variable {sys : Cluster} {client lease : ℕ} {controller : String} {signals : List CampaignSignal}
  {job : Operation}

/-- The active record carries this lease. -/
def Holds (lease : ℕ) (s : EtcdStore) : Prop := ∃ record, s.entry .active = some record ∧
  record.lease = lease

/-- A campaign at the head of its loop. -/
def campaign (controller : String) (lease : ℕ) (signals : List CampaignSignal) : Client Reply := do
  return .acquisition (← acquireUntil controller (.campaign lease) signals)

def Elected (result : Except CoordinationError Reply) : Prop :=
  ∃ authority, result = .ok (.acquisition (.leadership authority))

/-- A campaign whose lease is on the active record is not told so by any of its requests. -/
theorem campaignRound_blind :
    (campaignRound controller lease).EndsIn (Holds lease) (· ≠ .ok .elected) := by
  refine Prog.endsIn_bind ⟨fun s _ ↦ ?_, fun h ↦ nomatch h⟩
  dsimp only [Option.elim_some, Prog.pure_eq, Prog.EndsIn]
  split
  · exact fun h ↦ nomatch h
  · next candidate found =>
    split
    · exact fun h ↦ nomatch h
    · refine Prog.endsIn_bind (Prog.endsIn_bind ⟨fun s present ↦ ?_, fun h ↦ nomatch h⟩)
      have refused : (activeTxn controller lease candidate.createRevision).succeeds s = false := by
        obtain ⟨record, found, -⟩ := present
        rw [Bool.eq_false_iff]
        intro committed
        have absent := Txn.succeeds_iff.mp committed _ List.mem_cons_self
        rw [Compare.version_zero, found] at absent
        cases absent
      rw [refused]
      exact fun h ↦ nomatch h

theorem endsIn_revokeLease {post : Except CoordinationError Unit → Prop} {kind : EtcdStore → Prop}
    (h : ∀ result, post result) :
    (Prog.revokeLease .etcd lease : Client Unit).EndsIn kind post := by
  intro answer
  cases answer <;> exact h _

theorem abandon_blind {kind : EtcdStore → Prop} {post : Except CoordinationError Acquisition → Prop}
    {result : Acquisition} (h : post (.ok result)) : (abandon lease result).EndsIn kind post :=
  Prog.endsIn_bind (Prog.endsIn_attempt (endsIn_revokeLease fun _ ↦ h))

/-- While its lease is on the active record, a campaign goes on or gives up. -/
theorem acquireUntil_blind : (acquireUntil controller (.campaign lease) signals).EndsIn
    (Holds lease) fun result ↦ ∀ authority, result ≠ .ok (.leadership authority) := by
  induction signals with
  | nil => exact fun _ h ↦ by cases h
  | cons signal signals ih =>
    unfold acquireUntil
    split
    · exact fun _ h ↦ by cases h
    · refine Prog.endsIn_bind (Prog.endsIn_attempt (campaignRound_blind.mono fun round blind ↦ ?_))
      dsimp only
      split
      · exact absurd rfl blind
      · exact fun _ h ↦ by cases h
      · split
        · refine Prog.endsIn_bind (endsIn_revokeLease fun result ↦ ?_)
          cases result <;> exact fun _ h ↦ by cases h
        · exact ih
      · split
        · exact fun _ h ↦ by cases h
        · split
          · exact abandon_blind fun _ h ↦ by cases h
          · exact ih

theorem campaign_blind : (campaign controller lease signals).EndsIn (Holds lease) (¬Elected ·) := by
  refine Prog.endsIn_bind (acquireUntil_blind.mono fun result blind ↦ ?_)
  cases result with
  | error e => exact fun ⟨_, h⟩ ↦ nomatch h
  | ok acquisition =>
    rintro ⟨authority, h⟩
    cases h
    exact blind authority rfl

/-- The next turn of the loop, with every request answered, ends the campaign as elected. -/
def Recognises (sys : Cluster) (client lease : ℕ) : Prop :=
  Holds lease sys.store → ∃ operation result,
    ((sys.serve client lease).serve client lease).clients[client]? =
      some (operation, .done result) ∧ Elected result

theorem campaign_reads (controller : String) (lease : ℕ) (signals : List CampaignSignal) :
    (∃ next, campaign controller lease signals = .read next) ∨
      ∃ result, campaign controller lease signals = .done result := by
  cases signals with
  | nil => exact .inr ⟨_, rfl⟩
  | cons signal signals =>
    cases signal with
    | lost => exact .inr ⟨_, rfl⟩
    | proceed => exact .inl ⟨_, rfl⟩
    | shutdown => exact .inl ⟨_, rfl⟩

/-- One answered request of a campaign at the head of its loop leaves the store alone. -/
theorem serve_campaign (campaigning :
    sys.clients[client]? = some (job, campaign controller lease signals)) :
    (sys.serve client lease).store = sys.store := by
  unfold System.serve
  rw [campaigning]
  dsimp only
  rcases campaign_reads controller lease signals with ⟨next, read⟩ | ⟨result, done⟩
  · rw [read]
    rfl
  · rw [done]
    rfl

theorem never_elected (campaigning :
    sys.clients[client]? = some (job, campaign controller lease signals)) {sys' : Cluster}
    (steps : Relation.ReflTransGen (fun sys sys' : Cluster ↦ Holds lease sys.store ∧
      System.Step True Operation.program Outside sys sys') sys sys')
    {operation : Operation} {result : Except CoordinationError Reply}
    (ended : sys'.clients[client]? = some (operation, .done result)) : ¬Elected result := by
  obtain ⟨p, found, blind⟩ := System.steps_endsIn steps campaigning campaign_blind
  cases found.symm.trans ended
  exact blind

theorem served_steps {kind : EtcdStore → Prop} {g : ℕ} (h : kind sys.store) :
    Relation.ReflTransGen (fun sys sys' : Cluster ↦ kind sys.store ∧
      System.Step True Operation.program Outside sys sys') sys (sys.serve client g) := by
  have served : sys.serve client g = sys ∨
      System.Step True Operation.program Outside sys (sys.serve client g) :=
    System.serve_cases sys client g
  rcases served with same | step
  · rw [same]
  · exact .single ⟨h, step⟩

theorem not_recognises (campaigning :
    sys.clients[client]? = some (job, campaign controller lease signals))
    (held : Holds lease sys.store) : ¬Recognises sys client lease := by
  intro recognises
  obtain ⟨operation, result, ended, elected⟩ := recognises held
  refine never_elected campaigning (Relation.ReflTransGen.trans (served_steps held)
    (served_steps ?_)) ended elected
  rw [serve_campaign campaigning]
  exact held

theorem recognises_iff (campaigning :
    sys.clients[client]? = some (job, campaign controller lease signals)) :
    (Recognises sys client lease ↔ ¬Holds lease sys.store) ∧
    ∀ sys', Relation.ReflTransGen (fun sys sys' : Cluster ↦ Holds lease sys.store ∧
        System.Step True Operation.program Outside sys sys') sys sys' →
      ∀ operation result, sys'.clients[client]? = some (operation, .done result) →
        ¬Elected result := by
  refine ⟨⟨fun recognises held ↦ not_recognises campaigning held recognises,
    fun unheld held ↦ absurd held unheld⟩, fun sys' steps operation result ended ↦ ?_⟩
  exact never_elected campaigning steps ended

-- The answer to the transaction that makes a candidate active is lost.
namespace LostAnswer

def candidate : EtcdStore := (candidateTxn "c" 9).run initialized

def elected : EtcdStore := (activeTxn "c" 9 3).run candidate

def operation : Operation := .acquire "c" [.proceed, .proceed, .proceed, .proceed]

theorem registered : (candidateTxn "c" 9).succeeds initialized = true ∧
    candidate.entry (.candidate "c") = some ⟨.text "c", 3, 3, 1, 9⟩ ∧
    hasPredecessor candidate 3 = false ∧
    elected.entry .active = some ⟨.text "c", 4, 4, 1, 9⟩ := by decide

/-- A turn of the loop that gets no answer to its transaction. -/
theorem unanswered (lease : ℕ) (signals : List CampaignSignal) {s : EtcdStore} {e : Entry Value}
    (found : s.entry (.candidate controller) = some e)
    (oldest : hasPredecessor s e.createRevision = false) :
    ∃ next, campaign controller lease (.proceed :: signals) = .read next ∧
      ∃ next', next (some s) = .txn .ordinary (activeTxn controller lease e.createRevision) next' ∧
      next' none = campaign controller lease signals := by
  refine ⟨_, rfl, ?_⟩
  dsimp only [Option.elim_some, Prog.pure_eq]
  simp only [Prog.bind]
  rw [found]
  dsimp only
  rw [oldest]
  exact ⟨_, rfl, rfl⟩

/-- A registration that is answered. -/
theorem answered (controller : String) (lease : ℕ) (signals : List CampaignSignal) : ∃ next,
    (do return .acquisition (← acquireUntil controller (.register lease) (.proceed :: signals)) :
      Client Reply) = .txn .ordinary (candidateTxn controller lease) next ∧
    ∀ revision, next (some (true, revision)) = campaign controller lease signals :=
  ⟨_, rfl, fun _ ↦ rfl⟩

theorem reachable : ∃ sys : Cluster, NamespaceReachable Store.empty sys ∧ Holds 9 sys.store ∧
    sys.clients[0]? = some (operation, campaign "c" 9 [.proceed]) := by
  obtain ⟨committed, found, oldest, active⟩ := registered
  obtain ⟨next, registers, goes⟩ := answered "c" 9 [.proceed, .proceed]
  obtain ⟨after, reads, answer, sends, lost⟩ := unanswered 9 [.proceed] found oldest
  have start : NamespaceReachable Store.empty (.initial initialized) := .initial
  have started := start.step (.start _ operation)
  have granted := started.step (.serve _ 0 _ _ _ _ _ rfl (.grant _ _ 9 (by decide)))
  change NamespaceReachable Store.empty ⟨initialized, [(operation, do
    return .acquisition (← acquireUntil "c" (.register 9) [.proceed, .proceed, .proceed]))], _⟩
    at granted
  rw [registers] at granted
  have registered := granted.step (.serve _ 0 _ _ _ _ _ rfl (.txn _ _ _ _))
  rw [committed, goes, reads] at registered
  have read := registered.step (.serve _ 0 _ _ _ _ _ rfl (.read _ _))
  change NamespaceReachable Store.empty ⟨candidate, [(operation, after (some candidate))], _⟩ at read
  rw [sends] at read
  have sent := read.step (.serve _ 0 _ _ _ _ _ rfl (.txnUnanswered _ _ _ _ trivial))
  rw [lost] at sent
  exact ⟨_, sent, ⟨_, active, rfl⟩, rfl⟩

end LostAnswer

open LostAnswer in
theorem recognises_lost_answer : ∃ sys : Cluster, NamespaceReachable Store.empty sys ∧
    Holds 9 sys.store ∧ sys.clients[0]? = some (operation, campaign "c" 9 [.proceed]) ∧
    (Recognises sys 0 9 ↔ ¬Holds 9 sys.store) := by
  obtain ⟨sys, reach, held, campaigning⟩ := reachable
  exact ⟨sys, reach, held, campaigning, (recognises_iff campaigning).1⟩

theorem winner_unrecognised : ∃ (sys : Cluster) (operation : Operation),
    NamespaceReachable Store.empty sys ∧ Holds 9 sys.store ∧
    sys.clients[0]? = some (operation, campaign "c" 9 [.proceed]) ∧ ¬Recognises sys 0 9 := by
  obtain ⟨sys, reach, held, campaigning⟩ := LostAnswer.reachable
  exact ⟨sys, _, reach, held, campaigning, not_recognises campaigning held⟩

end Recognition

end Clustodian
