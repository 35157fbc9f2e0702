import Clustodian.Lib.Linear
import Clustodian.Coordination.Marker

namespace Clustodian

open RevisionStore

/-- Administrators and participants at work on the configured instances. -/
inductive InstanceCall
  | put (spec : InstanceSpec)
  | remove (instanceId : String)
  | register (i : InstanceId) (options : RegistrationOptions)

namespace InstanceCall

def program : InstanceCall → Client Unit
  | .put spec => putInstance spec
  | .remove instanceId => removeInstance instanceId
  | .register i options => do
    let _ ← Clustodian.register i options

def isAdministration : InstanceCall → Bool
  | .put _ => true
  | .remove _ => true
  | .register _ _ => false

/-- What a call is for: the zones of the configured instances by name. -/
def apply (call : InstanceCall) (zones : String → Option String) : String → Option String :=
  match call with
  | .put spec => Function.update zones spec.instanceId (some spec.zone)
  | .remove instanceId => Function.update zones instanceId none
  | .register _ _ => zones

/-- Only a success has an effect. -/
def effect (call : InstanceCall) (zones : String → Option String) :
    Except CoordinationError Unit → String → Option String
  | .ok _ => call.apply zones
  | .error _ => zones

end InstanceCall

/-- All calls that came to a result, one after the other. -/
def zonesAfter (log : List (InstanceCall × Except CoordinationError Unit)) :
    String → Option String :=
  log.foldl (fun zones item ↦ item.1.effect zones item.2) fun _ ↦ none

def instanceRecords (s : EtcdStore) : Except CoordinationError (List InstanceRecord) :=
  decodeInstances (metadataEntry s instanceConfigsKey)

/-- The records have pairwise distinct names and say what zone every configured instance is in. -/
structure Lists (records : List InstanceRecord) (zones : String → Option String) : Prop where
  nodup : (records.map InstanceRecord.name).Nodup
  zone : ∀ name zone, ⟨name, zone⟩ ∈ records ↔ zones name = some zone

/-- The stored configuration is there for good and lists the zones. -/
structure Configures (s : EtcdStore) (zones : String → Option String) : Prop where
  unleased : Unleased s instanceConfigsKey
  lists : ∃ records, instanceRecords s = .ok records ∧ Lists records zones

def Configured (s : EtcdStore) (i : InstanceId) : Prop :=
  ∃ records, instanceRecords s = .ok records ∧ i.asStr ∈ records.map InstanceRecord.name

/-- An instance that is removed is not live at that instant. -/
def RemovesAbsent (s s' : EtcdStore) : Prop :=
  ∀ i, Configured s i → ¬Configured s' i → s.entry (.live i) = none ∧ s'.entry (.live i) = none

section Records

variable {records : List InstanceRecord} {zones : String → Option String}

theorem perm_withInstance (records : List InstanceRecord) (record : InstanceRecord) :
    (withInstance records record).Perm (records.filter (·.name ≠ record.name) ++ [record]) :=
  List.mergeSort_perm _ _

theorem mem_withInstance {record other : InstanceRecord} : other ∈ withInstance records record ↔
    (other ∈ records ∧ other.name ≠ record.name) ∨ other = record := by
  rw [(perm_withInstance records record).mem_iff, List.mem_append, List.mem_filter,
    List.mem_singleton, decide_eq_true_eq]

theorem name_mem_withInstance {record : InstanceRecord} {name : String}
    (h : name ∈ records.map InstanceRecord.name) :
    name ∈ (withInstance records record).map InstanceRecord.name := by
  obtain ⟨old, mem, rfl⟩ := List.mem_map.mp h
  by_cases same : old.name = record.name
  · exact List.mem_map.mpr ⟨record, mem_withInstance.mpr (.inr rfl), same.symm⟩
  · exact List.mem_map.mpr ⟨old, mem_withInstance.mpr (.inl ⟨mem, same⟩), rfl⟩

theorem Lists.withInstance (h : Lists records zones) (name zone : String) :
    Lists (withInstance records ⟨name, zone⟩) (Function.update zones name (some zone)) := by
  refine ⟨?_, fun other z ↦ ?_⟩
  · rw [((perm_withInstance records _).map _).nodup_iff, List.map_append, List.nodup_append]
    refine ⟨h.nodup.sublist ((List.filter_sublist).map _), List.nodup_singleton _, ?_⟩
    intro first mem second single same
    obtain ⟨record, kept, hname⟩ := List.mem_map.mp mem
    rw [List.map_singleton, List.mem_singleton] at single
    have differ := (List.mem_filter.mp kept).2
    rw [decide_eq_true_eq] at differ
    exact differ (hname.trans (same.trans single))
  · rw [mem_withInstance, h.zone]
    by_cases same : other = name
    · subst same
      rw [Function.update_self]
      simp [eq_comm]
    · rw [Function.update_of_ne same]
      simp [same]

theorem Lists.without (h : Lists records zones) (name : String) :
    Lists (records.filter (·.name ≠ name)) (Function.update zones name none) := by
  refine ⟨h.nodup.sublist ((List.filter_sublist).map _), fun other z ↦ ?_⟩
  rw [List.mem_filter, h.zone, decide_eq_true_eq]
  by_cases same : other = name
  · subst same
    rw [Function.update_self]
    simp
  · rw [Function.update_of_ne same]
    simp [same]

theorem Lists.update_absent (h : Lists records zones) {name : String}
    (absent : name ∉ records.map InstanceRecord.name) : Function.update zones name none = zones := by
  refine Function.update_eq_self_iff.mpr ?_
  cases found : zones name with
  | none => rfl
  | some zone =>
    exact absurd (List.mem_map.mpr ⟨_, (h.zone name zone).mpr found, rfl⟩) absent

end Records

section Changes

variable {s s' : EtcdStore} {zones : String → Option String}

theorem instanceRecords_congr
    (h : s'.entry (.metadata instanceConfigsKey) = s.entry (.metadata instanceConfigsKey)) :
    instanceRecords s' = instanceRecords s := by
  rw [instanceRecords, instanceRecords, metadataEntry, metadataEntry, h]

theorem Configures.congr (h : Configures s zones)
    (same : s'.entry (.metadata instanceConfigsKey) = s.entry (.metadata instanceConfigsKey)) :
    Configures s' zones := by
  refine ⟨fun e found ↦ h.unleased e (same.symm.trans found), ?_⟩
  rw [instanceRecords_congr same]
  exact h.lists

/-- The configuration as one write leaves it. -/
theorem instanceRecords_write (s : EtcdStore) (records : List InstanceRecord) :
    let after := s.write (metadataOperations instanceConfigsKey
      (.put (.metadata instanceConfigsKey) (.instances records) 0))
    instanceRecords after = .ok records ∧
      Unleased after instanceConfigsKey ∧
      ∀ i, after.entry (.live i) = s.entry (.live i) := by
  have mem : (.put (.metadata instanceConfigsKey) (.instances records) 0 : EtcdOp) ∈
      metadataOperations instanceConfigsKey
        (.put (.metadata instanceConfigsKey) (.instances records) 0) := List.mem_cons_self
  obtain ⟨e, found, value, -, lease⟩ := Store.entry_write_put (s := s) mem fun op mem same ↦
    (mem_metadataOperations mem).resolve_right fun marker ↦ by
      rw [marker] at same
      exact configs_ne_marker (Key.metadata.inj same).symm
  refine ⟨?_, fun e' found' ↦ ?_, fun i ↦ Store.entry_write_of_not_mem fun mem ↦ ?_⟩
  · rw [instanceRecords, metadataEntry, found]
    simp only [Option.map_some, value, decodeInstances, Option.bind_some, Value.asInstances]
  · rw [found] at found'
    cases found'
    exact lease
  · obtain ⟨op, mem, written⟩ := List.mem_map.mp mem
    rcases mem_metadataOperations mem with rfl | rfl
    · cases written
    · cases written

/-- What one request of a call does, with the result of the call if it is the last. -/
structure Linear (call : InstanceCall) (result : Option (Except CoordinationError Unit))
    (s s' : EtcdStore) : Prop where
  effect : ∀ zones, Configures s zones →
    Configures s' (result.elim zones fun result ↦ call.effect zones result)
  unchanged : call.isAdministration = true → (∀ a, result ≠ some (.ok a)) → s' = s
  absent : Unleased s instanceConfigsKey → RemovesAbsent s s'

/-- A request after which a call goes on or fails. -/
theorem linear_of_unsuccessful {call : InstanceCall} {result : Option (Except CoordinationError Unit)}
    (unsuccessful : ∀ a, result ≠ some (.ok a)) (s : EtcdStore) : Linear call result s s := by
  refine ⟨fun zones h ↦ ?_, fun _ _ ↦ rfl, fun _ i before after ↦ absurd before after⟩
  cases result with
  | none => exact h
  | some result =>
    cases result with
    | ok a => exact absurd rfl (unsuccessful a)
    | error e => exact h

theorem linear_running (call : InstanceCall) (s : EtcdStore) : Linear call none s s := by
  refine linear_of_unsuccessful (fun _ eq ↦ ?_) s
  cases eq

theorem linear_failed (call : InstanceCall) (e : CoordinationError) (s : EtcdStore) :
    Linear call (some (.error e)) s s := by
  refine linear_of_unsuccessful (fun _ eq ↦ ?_) s
  cases eq

end Changes

/-- Answers are not lost. -/
def answered : Contract Key Value := ⟨False, Store.Later, Store.Later.expire⟩

theorem later_of_answered {s s' : EtcdStore} (h : answered.Since s s') : Store.Later s s' := by
  induction h with
  | refl => exact Store.Later.refl s
  | tail _ change ih => exact ih.trans change

/-- A write of the configuration that was read, with the effect of the call. -/
theorem linear_of_write {call : InstanceCall} {s : EtcdStore} {existing records : List InstanceRecord}
    (read : instanceRecords s = .ok existing)
    (effect : ∀ zones, Lists existing zones → Lists records (call.apply zones))
    (absent : ∀ i : InstanceId, i.asStr ∈ existing.map InstanceRecord.name →
      i.asStr ∉ records.map InstanceRecord.name → s.entry (.live i) = none) :
    Linear call (some (.ok ())) s (s.write (metadataOperations instanceConfigsKey
      (.put (.metadata instanceConfigsKey) (.instances records) 0))) := by
  obtain ⟨written, unleased, live⟩ := instanceRecords_write s records
  refine ⟨fun zones h ↦ ⟨unleased, records, written, ?_⟩, fun _ failed ↦ absurd rfl (failed ()),
    fun _ i before after ↦ ?_⟩
  · obtain ⟨current, found, lists⟩ := h.lists
    cases read.symm.trans found
    exact effect zones lists
  · obtain ⟨current, found, mem⟩ := before
    cases read.symm.trans found
    have gone := absent i mem fun still ↦ after ⟨records, written, still⟩
    exact ⟨gone, (live i).trans gone⟩

/-- A call that finds its effect in place. -/
theorem linear_of_read {call : InstanceCall} {s : EtcdStore} {existing : List InstanceRecord}
    (read : instanceRecords s = .ok existing)
    (effect : ∀ zones, Lists existing zones → call.apply zones = zones) :
    Linear call (some (.ok ())) s s := by
  refine ⟨fun zones h ↦ ?_, fun _ failed ↦ absurd rfl (failed ()),
    fun _ i before after ↦ absurd before after⟩
  obtain ⟨current, found, lists⟩ := h.lists
  cases read.symm.trans found
  change Configures s (call.apply zones)
  rw [effect zones lists]
  exact h

theorem guarantees_put (spec : InstanceSpec) (s : EtcdStore) :
    answered.guarantees (Linear (.put spec)) (putInstance spec) s := by
  unfold putInstance
  split
  · trivial
  next i named =>
  split
  · trivial
  have hname : spec.instanceId = i.asStr := Name.new_eq_ok.mp named
  refine Contract.guarantees_retry rfl (fun rest loop unsuccessful s read since ↦ ?_) _ s
  change Linear _ (Prog.bind (Prog.bind (Prog.ofExcept (instanceRecords read)) _) _).result? _ _ ∧
    answered.guarantees _ (Prog.bind (Prog.bind (Prog.ofExcept (instanceRecords read)) _) _) _
  cases decoded : instanceRecords read with
  | error e => exact ⟨linear_failed _ e read, trivial⟩
  | ok existing =>
  change Linear _ (Prog.bind (ite _ _ _) _).result? _ _ ∧
    answered.guarantees _ (Prog.bind (ite _ _ _) _) _
  split
  · next same =>
    refine ⟨linear_of_read decoded fun zones lists ↦ ?_, trivial⟩
    have mem : (⟨i.asStr, spec.zone⟩ : InstanceRecord) ∈ existing := by
      rw [← (List.mergeSort_perm existing _).mem_iff, ← same]
      exact mem_withInstance.mpr (.inr rfl)
    rw [InstanceCall.apply, hname, ← (lists.zone _ _).mp mem, Function.update_eq_self]
  -- the compare holds the configuration to what was read
  have replaced : ∀ s : EtcdStore,
      s.entry (.metadata instanceConfigsKey) = read.entry (.metadata instanceConfigsKey) →
      Linear (.put spec) (some (.ok ())) s (s.write (metadataOperations instanceConfigsKey
        (.put (.metadata instanceConfigsKey)
          (.instances (withInstance existing ⟨i.asStr, spec.zone⟩)) 0))) := by
    intro s kept
    refine linear_of_write ((instanceRecords_congr kept).trans decoded) (fun zones lists ↦ ?_)
      fun j mem gone ↦ absurd (name_mem_withInstance mem) gone
    rw [InstanceCall.apply, hname]
    exact lists.withInstance _ _
  cases found : read.entry (.metadata instanceConfigsKey) with
  | none =>
    rw [metadataEntry, found]
    refine ⟨linear_running _ read, Contract.guarantees_txn (fun s since committed ↦ ?_)
      fun s since _ ↦ ⟨linear_of_unsuccessful unsuccessful s, loop s⟩⟩
    have absent := Compare.version_zero.mp (Txn.succeeds_iff.mp committed _ List.mem_cons_self)
    exact ⟨Store.Later.write _ _, replaced s (absent.trans found.symm),
      trivial⟩
  | some e =>
    rw [metadataEntry, found]
    refine ⟨linear_running _ read, Contract.guarantees_txn (fun s since committed ↦ ?_)
      fun s since _ ↦ ⟨linear_of_unsuccessful unsuccessful s, loop s⟩⟩
    have same := Compare.modRevision_holds.mp
      (Txn.succeeds_iff.mp committed _ List.mem_cons_self)
    have kept := (later_of_answered since).entry_eq found same
    exact ⟨Store.Later.write _ _, replaced s (kept.trans found.symm),
      trivial⟩

theorem guarantees_remove (instanceId : String) (s : EtcdStore) :
    answered.guarantees (Linear (.remove instanceId)) (removeInstance instanceId) s := by
  unfold removeInstance
  split
  · trivial
  next i named =>
  have hname : instanceId = i.asStr := Name.new_eq_ok.mp named
  refine Contract.guarantees_retry rfl (fun rest loop unsuccessful s read since ↦ ?_) _ s
  cases found : read.entry (.metadata instanceConfigsKey) with
  | none =>
    have decoded : instanceRecords read = .ok [] := by
      rw [instanceRecords, metadataEntry, found]
      rfl
    change Linear _ (Prog.bind (Prog.bind (Prog.done (.ok (metadataEntry read instanceConfigsKey)))
      _) _).result? _ _ ∧ answered.guarantees _ (Prog.bind (Prog.bind (Prog.done (.ok (metadataEntry
        read instanceConfigsKey))) _) _) _
    rw [metadataEntry, found]
    refine ⟨linear_of_read decoded fun zones lists ↦ ?_, trivial⟩
    exact lists.update_absent List.not_mem_nil
  | some e =>
  change Linear _ (Prog.bind (Prog.bind (Prog.done (.ok (metadataEntry read instanceConfigsKey)))
    _) _).result? _ _ ∧ answered.guarantees _ (Prog.bind (Prog.bind (Prog.done (.ok (metadataEntry
      read instanceConfigsKey))) _) _) _
  have entry : metadataEntry read instanceConfigsKey = some ⟨some e.value, e.modRevision⟩ := by
    rw [metadataEntry, found]
    rfl
  have decoding : instanceRecords read = decodeInstances (some ⟨some e.value, e.modRevision⟩) := by
    rw [instanceRecords, entry]
  rw [entry]
  change Linear _ (Prog.bind (Prog.bind (Prog.ofExcept (decodeInstances _)) _) _).result? _ _ ∧
    answered.guarantees _ (Prog.bind (Prog.bind (Prog.ofExcept (decodeInstances _)) _) _) _
  rw [← decoding]
  cases decoded : instanceRecords read with
  | error error => exact ⟨linear_failed _ error read, trivial⟩
  | ok existing =>
  change Linear _ (Prog.bind (ite _ _ _) _).result? _ _ ∧
    answered.guarantees _ (Prog.bind (ite _ _ _) _) _
  split
  · next absent =>
    refine ⟨linear_of_read decoded fun zones lists ↦ ?_, trivial⟩
    refine lists.update_absent fun mem ↦ absent ?_
    obtain ⟨record, mem, same⟩ := List.mem_map.mp mem
    exact List.any_eq_true.mpr ⟨record, mem, decide_eq_true (same.trans hname)⟩
  refine ⟨linear_running _ read, Contract.guarantees_txn (fun s since committed ↦ ?_)
    fun s since _ ↦ ⟨linear_running _ s, fun late since ↦ ?_⟩⟩
  · have holds := Txn.succeeds_iff.mp committed
    have kept := (later_of_answered since).entry_eq found
      (Compare.modRevision_holds.mp (holds _ List.mem_cons_self))
    have live := Compare.version_zero.mp (holds _ (List.mem_cons_of_mem _ List.mem_cons_self))
    refine ⟨Store.Later.write _ _, linear_of_write
      ((instanceRecords_congr (kept.trans found.symm)).trans decoded) (fun zones lists ↦ ?_)
      (fun j mem gone ↦ ?_), trivial⟩
    · rw [InstanceCall.apply, hname]
      exact lists.without i.asStr
    · have same : j = i := by
        by_contra differ
        obtain ⟨record, mem, hrecord⟩ := List.mem_map.mp mem
        refine gone (List.mem_map.mpr ⟨record, List.mem_filter.mpr ⟨mem, decide_eq_true ?_⟩, hrecord⟩)
        exact fun same ↦ differ (Name.asStr_injective (hrecord.symm.trans same))
      rw [same]
      exact live
  · -- a refused removal looks at the live key again
    simp only [Option.elim_some, Prog.pure_eq, Prog.bind]
    cases late.value (.live i) with
    | none => exact ⟨linear_of_unsuccessful unsuccessful late, loop late⟩
    | some value =>
      dsimp only
      cases parseSession value with
      | error error => exact ⟨linear_failed _ error late, trivial⟩
      | ok session => exact ⟨linear_failed _ _ late, trivial⟩

/-- A change that leaves the configuration alone unless it goes with a lease. -/
theorem linear_of_entry {s s' : EtcdStore} (i : InstanceId) (options : RegistrationOptions)
    (same : Unleased s instanceConfigsKey →
      s'.entry (.metadata instanceConfigsKey) = s.entry (.metadata instanceConfigsKey))
    (result : Option (Except CoordinationError Unit)) : Linear (.register i options) result s s' := by
  refine ⟨fun zones h ↦ ?_, (fun clash ↦ nomatch clash), fun unleased j before after ↦ ?_⟩
  · have kept := h.congr (same h.unleased)
    match result with
    | none => exact kept
    | some (.ok a) => exact kept
    | some (.error e) => exact kept
  · obtain ⟨records, found, mem⟩ := before
    exact absurd ⟨records, (instanceRecords_congr (same unleased)).trans found, mem⟩ after

/-- Registrations leave the configuration alone. -/
theorem guarantees_register (i : InstanceId) (options : RegistrationOptions) (s : EtcdStore) :
    answered.guarantees (Linear (.register i options))
      (InstanceCall.register i options).program s := by
  have issues : (InstanceCall.register i options).program.Issues fun txn ↦
      .metadata instanceConfigsKey ∉ txn.operations.map Op.key := by
    refine (issues_register i options (fun old next mem ↦ ?_) fun session lease carried mem ↦ ?_).bind
      fun _ ↦ trivial
    · obtain ⟨op, mem, written⟩ := List.mem_map.mp mem
      rw [List.mem_singleton.mp mem] at written
      cases written
    · obtain ⟨op, mem, written⟩ := List.mem_map.mp mem
      simp only [registerTxn, List.mem_append, List.mem_cons, List.not_mem_nil, or_false,
        List.mem_map] at mem
      rcases mem with ((rfl | rfl) | ⟨item, -, rfl⟩) | rfl
      · cases written
      · cases written
      · cases written
      · exact configs_ne_marker (Key.metadata.inj written).symm
  refine Contract.guarantees_of_issues (fun result s ↦ linear_of_entry i options (fun _ ↦ rfl) result)
    (fun result s lease ↦ linear_of_entry i options (fun free ↦ free.expire lease) result)
    (fun request s other committed ↦ ?_) issues s
  rw [Txn.run, if_pos committed]
  exact ⟨Store.Later.write _ _, linear_of_entry i options fun _ ↦ Store.entry_write_of_not_mem other⟩

theorem guarantees_program (call : InstanceCall) (s : EtcdStore) :
    answered.guarantees (Linear call) call.program s := by
  cases call with
  | put spec => exact guarantees_put spec s
  | remove instanceId => exact guarantees_remove instanceId s
  | register i options => exact guarantees_register i options s

/-- A call that ends before its first request is refused. -/
theorem InstanceCall.refused (call : InstanceCall) {result : Except CoordinationError Unit}
    (h : call.program.result? = some result) : ∃ e, result = .error e := by
  cases call with
  | put spec =>
    simp only [InstanceCall.program, putInstance] at h
    split at h
    · cases h
      exact ⟨_, rfl⟩
    · split at h
      · cases h
        exact ⟨_, rfl⟩
      · cases h
  | remove instanceId =>
    simp only [InstanceCall.program, removeInstance] at h
    split at h
    · cases h
      exact ⟨_, rfl⟩
    · cases h
  | register i options => cases h

abbrev InstanceSystem := System Key Value Purpose CoordinationError Unit InstanceCall

section Runs

variable {s₀ : EtcdStore} (absent : s₀.entry (.metadata instanceConfigsKey) = none)
  {log : List (InstanceCall × Except CoordinationError Unit)} {sys : InstanceSystem}

theorem Configures.outside {s s' : EtcdStore} {zones : String → Option String}
    (h : Configures s zones) (change : Outside s s') : Configures s' zones := by
  cases change with
  | expire lease => exact h.congr (h.unleased.expire lease)
  | advance => exact h.congr rfl

include absent

theorem configures_zonesAfter (run : System.Completed InstanceCall.program Outside s₀ log sys) :
    Configures sys.store (zonesAfter log) := by
  refine System.Completed.inv guarantees_program (fun _ _ ↦ Outside.later)
    (fun log s ↦ Configures s (zonesAfter log)) ⟨?_, [], ?_, List.nodup_nil, ?_⟩ ?_ ?_ ?_ run
  · intro e found
    cases absent.symm.trans found
  · rw [instanceRecords, metadataEntry, absent]
    rfl
  · intro name zone
    simp [zonesAfter]
  · intro log s call result ended h
    obtain ⟨e, rfl⟩ := call.refused ended
    rw [zonesAfter, List.foldl_append]
    exact h
  · intro log s s' call result linear h
    have after := linear.effect _ h
    cases result with
    | none => simpa using after
    | some result =>
      rw [zonesAfter, List.foldl_append]
      exact after
  · exact fun log s s' change h ↦ h.outside change

/-- The configuration of the instances is linearizable: it is what the successful calls make of it
in the order in which they came to their results. -/
theorem instanceConfigs_linearizable
    (run : System.Completed InstanceCall.program Outside s₀ log sys) :
    Configures sys.store (zonesAfter log) ∧
    log.Perm (sys.clients.filterMap System.outcome) ∧
    (∀ r ∈ sys.history, RemovesAbsent r.before r.after) ∧
    ∀ (client : ℕ) (call : InstanceCall) (p : Client Unit),
      sys.clients[client]? = some (call, p) → call.isAdministration = true →
      (∀ a, p ≠ .done (.ok a)) →
      ∀ event ∈ System.writes sys.history client, event.after = event.before := by
  have rely : ∀ s s', Outside s s' → answered.change s s' := fun _ _ ↦ Outside.later
  have always : ∀ log sys, System.Completed InstanceCall.program Outside s₀ log sys →
      ∃ zones, Configures sys.store zones := fun _ _ run ↦ ⟨_, configures_zonesAfter absent run⟩
  refine ⟨configures_zonesAfter absent run, run.perm, ?_, fun client call p found admin failed ↦ ?_⟩
  · refine System.Completed.records guarantees_program rely RemovesAbsent
      (Q := fun s ↦ ∃ zones, Configures s zones) always ?_ ?_ run
    · exact fun s s' call result ⟨zones, h⟩ linear ↦ linear.absent h.unleased
    · intro s s' ⟨zones, h⟩ change i before after
      obtain ⟨records, found, mem⟩ := before
      refine absurd ⟨records, ?_, mem⟩ after
      rw [← found]
      cases change with
      | expire lease => exact instanceRecords_congr (h.unleased.expire lease)
      | advance => rfl
  · exact run.unchanged guarantees_program rely
      (fun call result s s' admin linear ↦ linear.unchanged admin) found admin failed

end Runs

/-- An instance comes and goes. -/
def reconfigured : InstanceSystem :=
  ((System.initial Store.empty).perform InstanceCall.program (.put ⟨"a", "z"⟩) 0 2).perform
    InstanceCall.program (.remove "a") 0 2

theorem instanceConfigs_linearizable_removal :
    ∃ log, Configures reconfigured.store (zonesAfter log) ∧
      log.Perm (reconfigured.clients.filterMap System.outcome) := by
  obtain ⟨log, run⟩ := ((System.Reachable.initial.perform _ _ _).perform _ _ _ :
    System.Reachable False InstanceCall.program Outside Store.empty reconfigured).completed
  have linear := instanceConfigs_linearizable (by decide +kernel) run
  exact ⟨log, linear.1, linear.2.1⟩

end Clustodian
