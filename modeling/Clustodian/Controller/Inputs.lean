import Clustodian.Lib.Linear
import Clustodian.Observer.Waiting

namespace Clustodian

open RevisionStore

section Keys

/-- Events of which keys wake the controller up. -/
def isControllerInput (key : String) : Bool :=
  if startsWith key "live/" || startsWith key "current-state/" then true
  else match stripPrefix key "metadata/" with
    | none => false
    | some encoded => match decodeSegment encoded with
      | .error _ => true
      | .ok decoded => !startsWith decoded "controller/output/" && decoded != internalSessionSequence

/-- The keys under which observers record how far they have come. -/
def isParticipantProgress (name : String) : Bool :=
  startsWith name "participant/" && endsWith name "/processed-revision"

theorem stripPrefix_append (lead rest : String) : stripPrefix (lead ++ rest) lead = some rest :=
  stripPrefix_eq_some.mpr rfl

theorem isControllerInput_other (text other : String)
    (first : text.toList.take 2 ≠ ['l', 'i']) (second : text.toList.take 2 ≠ ['c', 'u'])
    (third : text.toList.take 2 ≠ ['m', 'e']) (long : 2 ≤ text.toList.length) :
    isControllerInput (text ++ other) = false := by
  have notLive : startsWith (text ++ other) "live/" = false :=
    Key.not_startsWith text _ other first long (by decide)
  have notState : startsWith (text ++ other) "current-state/" = false :=
    Key.not_startsWith text _ other second long (by decide)
  have notMetadata : startsWith (text ++ other) "metadata/" = false :=
    Key.not_startsWith text _ other third long (by decide)
  have unstripped : stripPrefix (text ++ other) "metadata/" = none := by
    cases strip : stripPrefix (text ++ other) "metadata/" with
    | none => rfl
    | some rest =>
      rw [stripPrefix_eq_some.mp strip, startsWith, String.toList_append,
        List.isPrefixOf_iff_prefix.mpr (List.prefix_append _ _)] at notMetadata
      cases notMetadata
  rw [isControllerInput, notLive, notState, unstripped]
  rfl

theorem isControllerInput_metadata (name : String) :
    isControllerInput (Key.metadata name).relative =
      (!startsWith name "controller/output/" && name != internalSessionSequence) := by
  have notLive : startsWith ("metadata/" ++ encodeSegment name) "live/" = false :=
    Key.not_startsWith "metadata/" "live/" _ (by decide) (by decide)
      (by decide)
  have notState : startsWith ("metadata/" ++ encodeSegment name) "current-state/" = false :=
    Key.not_startsWith "metadata/" "current-state/" _ (by decide) (by decide)
      (by decide)
  change isControllerInput ("metadata/" ++ encodeSegment name) = _
  unfold isControllerInput
  rw [notLive, notState, stripPrefix_append, Bool.or_false, if_neg Bool.false_ne_true]
  simp only [decodeSegment_encodeSegment]

/-- The keys that wake the controller up. -/
theorem isControllerInput_cases {key : Key} (h : isControllerInput key.relative = true) :
    (∃ i, key = .live i) ∨ (∃ i ticket r p, key = .currentState i ticket r p) ∨
      ∃ name, key = .metadata name ∧ startsWith name "controller/output/" = false := by
  have other : ∀ text rest : String, text ++ rest = key.relative →
      text.toList.take 2 ≠ ['l', 'i'] → text.toList.take 2 ≠ ['c', 'u'] →
      text.toList.take 2 ≠ ['m', 'e'] → 2 ≤ text.toList.length → False := by
    intro text rest same first second third long
    rw [← same, isControllerInput_other text rest first second third long] at h
    cases h
  cases key with
  | live i => exact .inl ⟨i, rfl⟩
  | currentState i ticket r p => exact .inr (.inl ⟨i, ticket, r, p, rfl⟩)
  | session i ticket =>
    have text : "sessions/" ++ (encodeSegment i.asStr ++ ("/" ++ sessionText ticket)) =
        "sessions/" ++ encodeSegment i.asStr ++ "/" ++ sessionText ticket := by
      rw [String.append_assoc, String.append_assoc]
    exact (other "sessions/" _ text (by decide) (by decide) (by decide)
      (by decide)).elim
  | active =>
    exact (other "controller/election/active" "" (by decide) (by decide)
      (by decide) (by decide) (by decide)).elim
  | candidate c =>
    exact (other "controller/election/candidates/" _ rfl (by decide)
      (by decide) (by decide) (by decide)).elim
  | sequence =>
    exact (other internalSessionSequence "" (by decide) (by decide)
      (by decide) (by decide) (by decide)).elim
  | metadata name =>
    rw [isControllerInput_metadata, Bool.and_eq_true, Bool.not_eq_true'] at h
    exact .inr (.inr ⟨name, rfl, h.1⟩)

theorem counted_of_not_progress {name : String} (input : startsWith name "controller/output/" = false)
    (other : isParticipantProgress name = false) : (Key.metadata name).counted = true := by
  rw [isParticipantProgress] at other
  rw [Key.counted_metadata, isAuthoritativeMetadataKey, input, other]
  by_cases same : name = authoritativeInputMarker
  · simp [same]
  · simp [same]

end Keys

section Runs

/-- What wakes the loop of a leader up: its timer, an event, or a compacted watch with the store
that the recovery reads. -/
inductive WakeUp
  | tick
  | event (r : Record Key Value Purpose) (key : Key)
  | compacted (read : EtcdStore)

/-- Where the loop stands; a lease's end is recorded by a client before the loop goes on. -/
inductive LeaderPhase
  | starting
  | waiting (state : ControllerState)
  | recording (state : ControllerState) (r : Record Key Value Purpose) (key : Key) (client : ℕ)

/-- A revision to publish, as fixed for a snapshot of the store. -/
structure Fix where
  revision : Revision
  read : EtcdStore

/-- A leader beside the clients of the namespace, with all that has woken it up and the revisions
it has fixed. Its own publications are among the clients. -/
structure Leading where
  cluster : Cluster
  phase : LeaderPhase
  wakeUps : List WakeUp
  fixed : List Fix

namespace Leading

/-- `reconcile_current_snapshot` fixes the revision; whatever it does then leaves the watermark. -/
def fix (o : Leading) (wakeUp : WakeUp) (state : ControllerState) (snapshot : CoordinationSnapshot)
    (pending : List PublishedTransition) (knownSessions : BTreeMap InstanceId SessionId) : Leading :=
  let state := state.observeInputRevision snapshot.authoritativeRevision
  ⟨o.cluster, .waiting ⟨pending, knownSessions, state.authoritativeRevision⟩, o.wakeUps ++ [wakeUp],
    o.fixed ++ [⟨state.authoritativeRevision, o.cluster.store⟩]⟩

/-- The leader has seen a change of a key and asks for the marker to follow it. -/
def record (o : Leading) (authority : ControllerAuthority) (state : ControllerState)
    (r : Record Key Value Purpose) (key : Key) : Leading :=
  let job := Operation.recordLeaseExpiry authority (watchEventOf r key).revision
  ⟨⟨o.cluster.store, o.cluster.clients ++ [(job, job.program)], o.cluster.history⟩,
    .recording state r key o.cluster.clients.length, o.wakeUps, o.fixed⟩

/-- The runs of `run_as_leader_until`; events of other keys change nothing. -/
inductive Reachable (authority : ControllerAuthority) (s : EtcdStore) : Leading → Prop
  | initial {cluster : Cluster} : NamespaceReachable s cluster →
      Reachable authority s ⟨cluster, .starting, [], []⟩
  | cluster {o : Leading} {cluster : Cluster} : Reachable authority s o →
      System.Step True Operation.program Outside o.cluster cluster →
      Reachable authority s ⟨cluster, o.phase, o.wakeUps, o.fixed⟩
  | start {o : Leading} {snapshot : CoordinationSnapshot} {state : ControllerState} :
      Reachable authority s o → o.phase = .starting →
      controllerSnapshotFromKvs o.cluster.store = .ok snapshot →
      ControllerState.fromSnapshot snapshot = .ok state →
      Reachable authority s ⟨o.cluster, .waiting state, o.wakeUps,
        o.fixed ++ [⟨state.authoritativeRevision, o.cluster.store⟩]⟩
  | tick {o : Leading} {state : ControllerState} {snapshot : CoordinationSnapshot}
      (pending : List PublishedTransition) (knownSessions : BTreeMap InstanceId SessionId) :
      Reachable authority s o → o.phase = .waiting state →
      controllerSnapshotFromKvs o.cluster.store = .ok snapshot →
      Reachable authority s (o.fix .tick state snapshot pending knownSessions)
  | event {o : Leading} {state : ControllerState} {snapshot : CoordinationSnapshot}
      (r : Record Key Value Purpose) (key : Key) (pending : List PublishedTransition)
      (knownSessions : BTreeMap InstanceId SessionId) :
      Reachable authority s o → o.phase = .waiting state →
      r ∈ o.cluster.history → r.after.entry key ≠ r.before.entry key →
      isControllerInput (watchEventOf r key).key = true →
      isLeaseBackedDelete (watchEventOf r key) = false →
      controllerSnapshotFromKvs o.cluster.store = .ok snapshot →
      Reachable authority s (o.fix (.event r key)
        (state.observeInputRevision (watchEventOf r key).revision) snapshot pending knownSessions)
  | record {o : Leading} {state : ControllerState} (r : Record Key Value Purpose) (key : Key) :
      Reachable authority s o → o.phase = .waiting state →
      r ∈ o.cluster.history → r.after.entry key ≠ r.before.entry key →
      isControllerInput (watchEventOf r key).key = true →
      isLeaseBackedDelete (watchEventOf r key) = true →
      Reachable authority s (o.record authority state r key)
  | again {o : Leading} {state : ControllerState} {r : Record Key Value Purpose} {key : Key}
      {client : ℕ} {job : Operation} {error : CoordinationError} :
      Reachable authority s o → o.phase = .recording state r key client →
      o.cluster.clients[client]? = some (job, .done (.error error)) → error.isTransient = true →
      Reachable authority s (o.record authority state r key)
  | recorded {o : Leading} {state : ControllerState} {snapshot : CoordinationSnapshot}
      {r : Record Key Value Purpose} {key : Key} {client : ℕ} {job : Operation} {reply : Reply}
      (pending : List PublishedTransition) (knownSessions : BTreeMap InstanceId SessionId) :
      Reachable authority s o → o.phase = .recording state r key client →
      o.cluster.clients[client]? = some (job, .done (.ok reply)) →
      controllerSnapshotFromKvs o.cluster.store = .ok snapshot →
      Reachable authority s (o.fix (.event r key)
        (state.observeInputRevision (watchEventOf r key).revision) snapshot pending knownSessions)
  | compacted {o : Leading} {state : ControllerState} {snapshot : CoordinationSnapshot}
      (pending : List PublishedTransition) (knownSessions : BTreeMap InstanceId SessionId) :
      Reachable authority s o → o.phase = .waiting state →
      controllerSnapshotFromKvs o.cluster.store = .ok snapshot →
      Reachable authority s (o.fix (.compacted o.cluster.store)
        (state.observeInputRevision snapshot.revision) snapshot pending knownSessions)

end Leading

/-- When a wake-up leaves the watermark at the marker: a recovery finds a write of the marker to be
the newest of the whole etcd, and an event is not of an observer's progress, nor of a metadata key
that went with its lease. -/
def WakeUp.Covered : WakeUp → Prop
  | .tick => True
  | .event r key => ∀ name, key = .metadata name →
      isParticipantProgress name = false ∧ ∀ lease, r.after ≠ r.before.expire lease
  | .compacted read => read.revision = read.modRevision .marker

end Runs

section Recording

/-- The store goes on, and the marker stays the newest of the counted keys. -/
def marking : Contract Key Value where
  lossy := True
  change s s' := Store.Later s s' ∧ (MarkerNewest s → MarkerNewest s')
  expires s lease := ⟨Store.Later.expire s lease, fun newest ↦ newest.expire lease⟩

variable {s s' : EtcdStore} {authority : ControllerAuthority} {revision : Revision}

theorem marking_since (h : marking.Since s s') :
    Store.Later s s' ∧ (MarkerNewest s → MarkerNewest s') := by
  induction h with
  | refl => exact ⟨Store.Later.refl s, id⟩
  | tail _ step ih => exact ⟨ih.1.trans step.1, step.2 ∘ ih.2⟩

theorem marking_cause (h : System.Cause Marked Outside s s') : marking.Since s s' := by
  refine .single ⟨h.later fun _ _ change ↦ change.later, fun newest ↦ ?_⟩
  cases h with
  | none => exact newest
  | txn request _ marked committed =>
    rw [Txn.run, if_pos committed]
    exact newest.write marked
  | expire _ lease => exact newest.expire lease
  | other _ _ change => exact newest.outside change

theorem modRevision_marker_le (newest : MarkerNewest s') (later : Store.Later s s') :
    s.modRevision .marker ≤ s'.modRevision .marker := by
  obtain ⟨marker, found, -⟩ := newest
  rw [Store.modRevision_of_entry found]
  exact later.modRevision_le_of_entry found

theorem wp_authorityMatches (controllerId : String) (leaseId : ℕ)
    {log : List (RevisionStore.Event Key Value Purpose)} :
    marking.wp (fun _ ↦ True) (fun _ _ s' ↦ marking.Since s s') (authorityMatches controllerId leaseId)
      log s := by
  refine Contract.wp_bind (Contract.wp_query trivial (fun s₁ since ↦ ?_) fun _ s₁ since ↦ since)
  dsimp only
  split
  · exact ⟨trivial, since⟩
  · exact ⟨trivial, since⟩

/-- A lease's end that is recorded without an error is no newer than the marker. -/
theorem wp_recordLeaseExpiry (newest : MarkerNewest s) (reached : revision ≤ s.revision)
    (log : List (RevisionStore.Event Key Value Purpose)) :
    marking.wp (fun _ ↦ True)
      (fun result _ s ↦ ∀ n, result = .ok n → revision ≤ s.modRevision .marker)
      (recordLeaseExpiry authority revision) log s := by
  refine Contract.wp_retry (fun _ s ↦ MarkerNewest s ∧ revision ≤ s.revision) ?_
    (fun _ _ _ ↦ ⟨trivial, fun _ h ↦ by cases h⟩) _ ⟨newest, reached⟩
  intro log s ⟨newest, reached⟩
  refine Contract.wp_bind (Contract.wp_query trivial (fun s₁ since ↦ ?_) fun _ _ _ _ h ↦ by cases h)
  obtain ⟨later, keep⟩ := marking_since since
  have newest₁ := keep newest
  have reached₁ : revision ≤ s₁.revision := reached.trans later.revision_le
  dsimp only
  by_cases done : ((s₁.entry .marker).any fun entry ↦ decide (revision ≤ entry.modRevision)) = true
  · rw [if_pos done]
    refine ⟨trivial, fun n _ ↦ ?_⟩
    obtain ⟨marker, found, -⟩ := newest₁
    rw [found, Option.any_some, decide_eq_true_eq] at done
    rw [Store.modRevision_of_entry found]
    exact done
  · rw [if_neg done]
    have marked : Marked (recordLeaseExpiryTxn authority ((s₁.entry .marker).map Entry.modRevision)) :=
      (ordinary_of_mem (List.mem_singleton_self _) fun op mem ↦ .inl (List.mem_singleton.mp mem)).toMarked
    refine Contract.wp_bind (Contract.wp_submit trivial (fun s₂ _ committed ↦ ?_)
      (fun _ _ ↦ trivial) (fun s₂ since' ↦ ?_) fun _ _ _ ↦ ⟨fun _ h ↦ (by cases h), fun _ h ↦ (by cases h)⟩)
    · refine ⟨Txn.later_run _ _, fun newest ↦ ?_⟩
      rw [Txn.run, if_pos committed]
      exact newest.write marked
    · obtain ⟨later', keep'⟩ := marking_since since'
      have newest₂ := keep' newest₁
      have reached₂ := reached₁.trans later'.revision_le
      dsimp only
      split
      · next committed =>
        refine ⟨trivial, fun n _ ↦ ?_⟩
        rw [Txn.run, if_pos committed]
        obtain ⟨marker, found, -, now, -⟩ := Store.entry_write_put (s := s₂)
          (List.mem_singleton_self authoritativeInputMarkerOperation)
          fun op mem _ ↦ List.mem_singleton.mp mem
        have here : (s₂.write (recordLeaseExpiryTxn authority
            ((s₁.entry .marker).map Entry.modRevision)).operations).modRevision .marker =
            s₂.revision + 1 := (Store.modRevision_of_entry found).trans now
        rw [here]
        exact reached₂.trans (Nat.le_succ _)
      · next refused =>
        rw [Txn.run, if_neg refused]
        -- the rest of the round only reads
        refine Contract.wp_bind (Contract.wp_mono (fun result log s₃ _ since'' ↦ ?_)
          (wp_authorityMatches authority.controllerId authority.leaseId))
        obtain ⟨later'', keep''⟩ := marking_since since''
        cases result with
        | error e => exact fun n h ↦ by cases h
        | ok authorized =>
          cases authorized with
          | false => exact ⟨trivial, fun n h ↦ by cases h⟩
          | true => exact ⟨trivial, keep'' newest₂, reached₂.trans later''.revision_le⟩

end Recording

section Watermark

variable {s : EtcdStore} {authority : ControllerAuthority} {o : Leading}

theorem startsWith_append (lead rest : String) : startsWith (lead ++ rest) lead = true := by
  rw [startsWith, String.toList_append, List.isPrefixOf_iff_prefix]
  exact List.prefix_append _ _

/-- What a lease takes along is deleted. -/
theorem kind_of_expired {r : Record Key Value Purpose} {key : Key}
    (changed : r.after.entry key ≠ r.before.entry key) {lease : ℕ}
    (expired : r.after = r.before.expire lease) : (watchEventOf r key).kind = .delete := by
  have gone : r.after.entry key = none := by
    rw [expired, Store.entry_expire] at changed ⊢
    cases found : r.before.entry key with
    | none => rfl
    | some e =>
      rw [found, Option.filter_some] at changed
      rw [Option.filter_some]
      split at changed
      · exact absurd rfl changed
      · next dropped => rw [if_neg dropped]
  rw [watchEventOf, gone]
  rfl

/-- The marker has come as far as a covered event, unless a lease took the key along. -/
theorem event_revision_le {cluster : Cluster} (absent : s.entry .marker = none)
    (h : NamespaceReachable s cluster) {r : Record Key Value Purpose} (mem : r ∈ cluster.history)
    {key : Key} (changed : r.after.entry key ≠ r.before.entry key)
    (input : isControllerInput (watchEventOf r key).key = true)
    (backed : isLeaseBackedDelete (watchEventOf r key) = false)
    (covered : (WakeUp.event r key).Covered) :
    (watchEventOf r key).revision ≤ cluster.store.modRevision .marker := by
  have delete : ∀ lead rest : String, (lead = "live/" ∨ lead = "current-state/") →
      key.relative = lead ++ rest → ∀ lease, r.after ≠ r.before.expire lease := by
    intro lead rest known same lease expired
    rw [isLeaseBackedDelete, kind_of_expired changed expired] at backed
    rw [watchEventOf, same] at backed
    rcases known with rfl | rfl
    · simp [startsWith_append] at backed
    · simp [startsWith_append] at backed
  obtain ⟨counted, kept⟩ : key.counted = true ∧ ∀ lease, r.after ≠ r.before.expire lease := by
    rcases isControllerInput_cases input with ⟨i, rfl⟩ | ⟨i, ticket, r', p, rfl⟩ | ⟨name, rfl, output⟩
    · exact ⟨Key.counted_live i, delete "live/" _ (.inl rfl) rfl⟩
    · have text : "current-state/" ++ encodeSegment i.asStr ++ "/" ++ sessionText ticket ++ "/" ++
          encodeSegment r'.asStr ++ "/" ++ encodeSegment p.asStr = "current-state/" ++
          (encodeSegment i.asStr ++ ("/" ++ (sessionText ticket ++ ("/" ++ (encodeSegment r'.asStr ++
            ("/" ++ encodeSegment p.asStr)))))) := by
        simp only [String.append_assoc]
      exact ⟨Key.counted_currentState i ticket r' p, delete "current-state/" _ (.inr rfl) text⟩
    · obtain ⟨other, kept⟩ := covered name rfl
      exact ⟨counted_of_not_progress output other, kept⟩
  rcases h.changed absent mem counted changed with bound | ⟨lease, expired⟩
  · exact bound
  · exact absurd expired (kept lease)

/-- The state of the loop, once it has one. -/
def LeaderPhase.state : LeaderPhase → Option ControllerState
  | .starting => none
  | .waiting state => some state
  | .recording state _ _ _ => some state

/-- The client that records a lease's end does its work. -/
def LeaderPhase.Recording (authority : ControllerAuthority) (cluster : Cluster) :
    LeaderPhase → Prop
  | .recording _ r key client => (watchEventOf r key).revision ≤ cluster.store.revision ∧
      ∃ p, cluster.clients[client]? =
        some (.recordLeaseExpiry authority (watchEventOf r key).revision, p) ∧
      ∃ log s, marking.Since s cluster.store ∧ marking.wp (fun _ ↦ True)
        (fun result _ s ↦ ∀ reply, result = .ok reply →
          (watchEventOf r key).revision ≤ s.modRevision .marker) p log s
  | _ => True

/-- The watermark follows the marker. -/
structure Leading.Tracks (authority : ControllerAuthority) (s : EtcdStore) (o : Leading) : Prop where
  cluster : NamespaceReachable s o.cluster
  watermark : ∀ state, o.phase.state = some state →
    state.authoritativeRevision ≤ o.cluster.store.modRevision .marker
  recording : o.phase.Recording authority o.cluster
  fixed : ∀ fix ∈ o.fixed, fix.revision = fix.read.modRevision .marker ∧
    Store.Later fix.read o.cluster.store

/-- The snapshot's own revision is the marker's. -/
theorem Leading.Tracks.snapshot (h : o.Tracks authority s) (absent : s.entry .marker = none)
    {snapshot : CoordinationSnapshot}
    (read : controllerSnapshotFromKvs o.cluster.store = .ok snapshot) :
    snapshot.authoritativeRevision = o.cluster.store.modRevision .marker :=
  (snapshotOf read).authoritativeRevision.trans
    (h.cluster.markerNewest absent).authoritativeRevision

theorem Leading.Tracks.fix (h : o.Tracks authority s) (absent : s.entry .marker = none)
    (wakeUp : WakeUp) {state : ControllerState} {snapshot : CoordinationSnapshot}
    (read : controllerSnapshotFromKvs o.cluster.store = .ok snapshot)
    (bound : state.authoritativeRevision ≤ o.cluster.store.modRevision .marker)
    (pending : List PublishedTransition) (knownSessions : BTreeMap InstanceId SessionId) :
    (o.fix wakeUp state snapshot pending knownSessions).Tracks authority s := by
  have fixed : (state.observeInputRevision snapshot.authoritativeRevision).authoritativeRevision =
      o.cluster.store.modRevision .marker := by
    change max state.authoritativeRevision snapshot.authoritativeRevision = _
    rw [h.snapshot absent read]
    exact max_eq_right bound
  refine ⟨h.cluster, ?_, trivial, fun fix mem ↦ ?_⟩
  · intro next same
    cases same
    exact fixed.le
  · rcases List.mem_append.mp mem with mem | mem
    · exact h.fixed fix mem
    · rw [List.mem_singleton.mp mem]
      exact ⟨fixed, Store.Later.refl _⟩

theorem Leading.Tracks.step (h : o.Tracks authority s) (absent : s.entry .marker = none)
    {cluster : Cluster} (step : System.Step True Operation.program Outside o.cluster cluster) :
    Leading.Tracks authority s ⟨cluster, o.phase, o.wakeUps, o.fixed⟩ := by
  have next : NamespaceReachable s cluster := h.cluster.step step
  obtain ⟨-, -, clients⟩ := System.Reachable.causes issues_program
    (fun _ _ change ↦ change.later) h.cluster
  have change := marking_cause (step.cause issues_program clients).1
  have later := (marking_since change).1
  refine ⟨next, fun state same ↦ ?_, ?_, fun fix mem ↦ ?_⟩
  · exact (h.watermark state same).trans (modRevision_marker_le (next.markerNewest absent) later)
  · have recording := h.recording
    cases phase : o.phase with
    | recording state r key client =>
      rw [phase] at recording
      obtain ⟨reached, p, found, hwp⟩ := recording
      exact ⟨reached.trans later.revision_le, System.Step.client_wp step change found hwp⟩
    | _ => trivial
  · exact ⟨(h.fixed fix mem).1, (h.fixed fix mem).2.trans later⟩

theorem Leading.Tracks.record (h : o.Tracks authority s) (absent : s.entry .marker = none)
    {state : ControllerState} {r : Record Key Value Purpose} {key : Key}
    (reached : (watchEventOf r key).revision ≤ o.cluster.store.revision)
    (same : o.phase.state = some state) : (o.record authority state r key).Tracks authority s := by
  refine ⟨h.cluster.step (.start _ _), fun _ eq ↦ ?_, ?_, h.fixed⟩
  · cases eq
    exact h.watermark state same
  · refine ⟨reached, _, List.getElem?_concat_length, [], o.cluster.store, .refl, ?_⟩
    refine Contract.wp_bind (Contract.wp_mono (fun result log s _ bound ↦ ?_)
      (wp_recordLeaseExpiry (h.cluster.markerNewest absent) reached []))
    cases result with
    | ok revision => exact ⟨trivial, fun _ _ ↦ bound revision rfl⟩
    | error e => exact fun _ eq ↦ nomatch eq

theorem Leading.Reachable.tracks (absent : s.entry .marker = none)
    (h : Leading.Reachable authority s o) (covered : ∀ wakeUp ∈ o.wakeUps, wakeUp.Covered) :
    o.Tracks authority s := by
  induction h with
  | initial reachable =>
    exact ⟨reachable, fun _ eq ↦ (nomatch eq), trivial, fun _ mem ↦ (nomatch mem)⟩
  | cluster _ step ih => exact (ih covered).step absent step
  | @start o snapshot state _ phase read begun ih =>
    have tracks := ih covered
    obtain ⟨pending, -, begun⟩ := CheckedLoop.bind_eq_ok.mp begun
    cases begun
    have fixed := tracks.snapshot absent read
    refine ⟨tracks.cluster, fun state same ↦ ?_, trivial, fun fix mem ↦ ?_⟩
    · cases same
      exact fixed.le
    · rcases List.mem_append.mp mem with mem | mem
      · exact tracks.fixed fix mem
      · rw [List.mem_singleton.mp mem]
        exact ⟨fixed, Store.Later.refl _⟩
  | @tick o state snapshot pending known _ phase read ih =>
    have tracks := ih fun wakeUp mem ↦ covered wakeUp (List.mem_append_left _ mem)
    have bound := tracks.watermark state (by rw [phase]; rfl)
    exact tracks.fix absent _ read bound pending known
  | @event o state snapshot r key pending known _ phase mem changed input backed read ih =>
    have tracks := ih fun wakeUp mem ↦ covered wakeUp (List.mem_append_left _ mem)
    have bound := tracks.watermark state (by rw [phase]; rfl)
    have reached := event_revision_le absent tracks.cluster mem changed input backed
      (covered _ (List.mem_append_right _ (List.mem_singleton_self _)))
    exact tracks.fix absent _ read (max_le bound reached) pending known
  | @record o state r key _ phase mem changed input backed ih =>
    have tracks := ih covered
    obtain ⟨records, -⟩ := System.Reachable.causes issues_program
      (fun _ _ change ↦ change.later) tracks.cluster
    exact tracks.record absent (records r mem).2.2.revision_le (by rw [phase]; rfl)
  | @again o state r key client job error _ phase failed transient ih =>
    have tracks := ih covered
    have recording := tracks.recording
    rw [phase] at recording
    exact tracks.record absent recording.1 (by rw [phase]; rfl)
  | @recorded o state snapshot r key client job reply pending known _ phase done read ih =>
    have tracks := ih fun wakeUp mem ↦ covered wakeUp (List.mem_append_left _ mem)
    have bound := tracks.watermark state (by rw [phase]; rfl)
    have recording := tracks.recording
    rw [phase] at recording
    obtain ⟨-, p, found, log, before, since, hwp⟩ := recording
    rw [done] at found
    cases found
    obtain ⟨later, keep⟩ := marking_since since
    have reached : (watchEventOf r key).revision ≤ o.cluster.store.modRevision .marker :=
      (hwp.2 reply rfl).trans
        (modRevision_marker_le (tracks.cluster.markerNewest absent) later)
    exact tracks.fix absent _ read (max_le bound reached) pending known
  | @compacted o state snapshot pending known _ phase read ih =>
    have tracks := ih fun wakeUp mem ↦ covered wakeUp (List.mem_append_left _ mem)
    have bound := tracks.watermark state (by rw [phase]; rfl)
    have newest : o.cluster.store.revision = o.cluster.store.modRevision .marker :=
      covered _ (List.mem_append_right _ (List.mem_singleton_self _))
    have reached : snapshot.revision ≤ o.cluster.store.modRevision .marker :=
      ((snapshotOf read).revision.trans newest).le
    exact tracks.fix absent _ read (max_le bound reached) pending known

end Watermark

section Publication

variable {s : EtcdStore} {authority : ControllerAuthority} {snapshot : CoordinationSnapshot}
  {revision : Revision}

variable {o : Leading}

-- The elected controller of a fresh namespace; its own election records are the newest writes.
namespace FreshLeader

def chosen : ControllerAuthority := ⟨"c", 9⟩

theorem reads : ∃ snapshot state, controllerSnapshotFromKvs LostLease.elected.store = .ok snapshot ∧
    ControllerState.fromSnapshot snapshot = .ok state ∧ snapshot.revision = 4 ∧
    snapshot.authoritativeRevision = 2 ∧ state.authoritativeRevision = 2 := by
  have read : ((controllerSnapshotFromKvs LostLease.elected.store).toOption.bind fun snapshot ↦
      (ControllerState.fromSnapshot snapshot).toOption.map fun state ↦ (snapshot.revision,
        snapshot.authoritativeRevision, state.authoritativeRevision)) = some (4, 2, 2) := by
    decide +kernel
  obtain ⟨snapshot, hsnapshot, h⟩ := Option.bind_eq_some_iff.mp read
  obtain ⟨state, hstate, h⟩ := Option.map_eq_some_iff.mp h
  injection h with header h
  injection h with newest revision
  exact ⟨snapshot, state, CheckedLoop.toOption_eq_some.mp hsnapshot,
    CheckedLoop.toOption_eq_some.mp hstate, header, newest, revision⟩

theorem started {snapshot : CoordinationSnapshot} {state : ControllerState}
    (read : controllerSnapshotFromKvs LostLease.elected.store = .ok snapshot)
    (begun : ControllerState.fromSnapshot snapshot = .ok state) :
    Leading.Reachable chosen Store.empty ⟨LostLease.elected, .waiting state, [],
      [⟨state.authoritativeRevision, LostLease.elected.store⟩]⟩ :=
  .start (.initial (System.Reachable.initial.perform _ _ _)) rfl read begun

end FreshLeader

end Publication

end Clustodian
