import Clustodian.Coordination.Marker

namespace Clustodian

open RevisionStore

/-- The number a metadata key holds, as `parse::<i64>` reads it. -/
def watermark (s : EtcdStore) (key : String) : Option ℤ :=
  match s.value (.metadata key) with
  | some (.text text) => parseI64 text
  | _ => none

/-- Revisions are positive and fit in 63 bits. -/
abbrev ValidRevision := {revision : Revision // 0 < revision ∧ revision < 2 ^ 63}

/-- The calls that move watermarks. -/
inductive WatermarkCall
  | publish (purpose : Purpose) (controllerId : String) (leaseId : ℕ) (observed : ValidRevision)
      (liveSessions : BTreeMap InstanceId SessionId) (externalView pendingTransitions : Value)
      (pendingRevision : Option Revision)
  | advance (key : String) (revision : ValidRevision)

namespace WatermarkCall

def program : WatermarkCall → Client Revision
  | .publish purpose controllerId leaseId observed liveSessions view pending pendingRevision =>
    publishControllerOutputsWithFence purpose ⟨controllerId, leaseId, observed, liveSessions⟩
      view pending pendingRevision
  | .advance key revision => advanceMetadataRevision key revision

end WatermarkCall

section Numbers

theorem parseI64_toString {n : ℕ} (small : n < 2 ^ 63) : parseI64 (toString n) = some (n : ℤ) := by
  have unsigned : ∀ rest sign, sign = '+' ∨ sign = '-' → Nat.toDigits 10 n ≠ sign :: rest := by
    intro rest sign h eq
    have digit := Nat.isDigit_of_mem_toDigits (b := 10) (n := n) (c := sign) (by decide) (by decide)
      (by rw [eq]; exact List.mem_cons_self)
    rcases h with rfl | rfl
    · exact absurd digit (by decide)
    · exact absurd digit (by decide)
  have text : (toString n).toList = Nat.toDigits 10 n := by
    simp
  unfold parseI64
  rw [text]
  split
  · next rest eq => exact absurd eq (unsigned rest _ (.inr rfl))
  · next rest eq => exact absurd eq (unsigned rest _ (.inl rfl))
  · rw [parseDigits_toDigits, Option.bind_some, if_pos small]

theorem parseRevision_eq_ok {value : Value} {revision : Revision}
    (h : parseRevision value = .ok revision) :
    ∃ text, value = .text text ∧ parseI64 text = some (revision : ℤ) := by
  unfold parseRevision at h
  split at h
  · next text =>
    split at h
    · next number parsed =>
      split at h
      · next positive =>
        cases h
        exact ⟨text, rfl, by rw [parsed, Int.toNat_of_nonneg positive.le]⟩
      · cases h
    · cases h
  · cases h

end Numbers

section Changes

variable {s s' s₁ : EtcdStore} {key : String} {ops : List EtcdOp}

theorem watermark_of_entry {e : Entry Value} {text : String}
    (found : s.entry (.metadata key) = some e) (holds : e.value = .text text) :
    watermark s key = parseI64 text := by
  rw [watermark, Store.value_of_entry found, holds]

theorem watermark_congr (h : s'.entry (.metadata key) = s.entry (.metadata key)) :
    watermark s' key = watermark s key := by
  rw [watermark, watermark, Store.value, Store.value, h]

/-- How the store may change for a watermark to be one. -/
structure Rises (key : String) (s s' : EtcdStore) : Prop where
  later : Store.Later s s'
  unleased : Unleased s key → Unleased s' key
  rises : Unleased s key → ∀ n, watermark s key = some n → ∃ m, n ≤ m ∧ watermark s' key = some m

theorem Rises.refl (key : String) (s : EtcdStore) : Rises key s s :=
  ⟨Store.Later.refl s, id, fun _ n h ↦ ⟨n, le_rfl, h⟩⟩

theorem Rises.trans (h : Rises key s s₁) (h' : Rises key s₁ s') : Rises key s s' where
  later := h.later.trans h'.later
  unleased := h'.unleased ∘ h.unleased
  rises free n hn := by
    obtain ⟨m, le, hm⟩ := h.rises free n hn
    obtain ⟨k, le', hk⟩ := h'.rises (h.unleased free) m hm
    exact ⟨k, le.trans le', hk⟩

theorem rises_of_entry (later : Store.Later s s')
    (same : Unleased s key → s'.entry (.metadata key) = s.entry (.metadata key)) :
    Rises key s s' where
  later := later
  unleased free e found := free e ((same free).symm.trans found)
  rises free n hn := ⟨n, le_rfl, by rw [watermark_congr (same free), hn]⟩

theorem rises_expire (key : String) (s : EtcdStore) (lease : ℕ) : Rises key s (s.expire lease) :=
  rises_of_entry (Store.Later.expire s lease) fun free ↦ free.expire lease

theorem rises_of_not_mem (h : .metadata key ∉ ops.map Op.key) : Rises key s (s.write ops) :=
  rises_of_entry (Store.Later.write s ops) fun _ ↦ Store.entry_write_of_not_mem h

theorem watermark_write {revision : Revision} (small : revision < 2 ^ 63)
    (mem : .put (.metadata key) (.text (toString revision)) 0 ∈ ops)
    (only : ∀ op ∈ ops, op.key = .metadata key →
      op = .put (.metadata key) (.text (toString revision)) 0) :
    watermark (s.write ops) key = some (revision : ℤ) ∧ Unleased (s.write ops) key := by
  obtain ⟨e, found, value, -, lease⟩ := Store.entry_write_put mem only
  refine ⟨by rw [watermark_of_entry found value, parseI64_toString small], fun e' found' ↦ ?_⟩
  rw [found] at found'
  cases found'
  exact lease

theorem rises_of_put {revision : Revision} (small : revision < 2 ^ 63)
    (mem : .put (.metadata key) (.text (toString revision)) 0 ∈ ops)
    (only : ∀ op ∈ ops, op.key = .metadata key →
      op = .put (.metadata key) (.text (toString revision)) 0)
    (above : ∀ n, watermark s key = some n → n ≤ revision) : Rises key s (s.write ops) := by
  obtain ⟨written, free⟩ := watermark_write small mem only
  exact ⟨Store.Later.write s ops, fun _ ↦ free, fun _ n hn ↦ ⟨revision, above n hn, written⟩⟩

end Changes

section Calls

variable {key : String}

/-- Every change leaves the watermark where it is or raises it; answers may get lost. -/
def rising (key : String) : Contract Key Value := ⟨True, Rises key, rises_expire key⟩

theorem rises_of_since {s s' : EtcdStore} (h : (rising key).Since s s') : Rises key s s' := by
  induction h with
  | refl => exact Rises.refl key s
  | tail _ change ih => exact ih.trans change

/-- Neither the marker, which every writer of input resets, nor a document that publications
replace. -/
structure IsWatermarkKey (key : String) : Prop where
  marker : key ≠ authoritativeInputMarker
  externalView : key ≠ externalOutputKey
  pending : key ≠ pendingOutputKey

/-- A write of one metadata key, as a watermark sees it. -/
theorem rises_metadata (h : IsWatermarkKey key) {s : EtcdStore} {name : String} {revision : Revision}
    (small : revision < 2 ^ 63)
    (above : name = key → ∀ n, watermark s key = some n → n ≤ revision) :
    Rises key s (s.write (metadataOperations name
      (.put (.metadata name) (.text (toString revision)) 0))) ∧
    (name = key → watermark (s.write (metadataOperations name
      (.put (.metadata name) (.text (toString revision)) 0))) key = some (revision : ℤ)) := by
  have marker : (authoritativeInputMarkerOperation : EtcdOp).key ≠ .metadata key := by
    intro same
    exact h.marker (Key.metadata.inj same).symm
  have ops : ∀ op ∈ metadataOperations name (.put (.metadata name) (.text (toString revision)) 0),
      op.key = .metadata key → op = .put (.metadata name) (.text (toString revision)) 0 := by
    intro op mem written
    rcases mem_metadataOperations mem with rfl | rfl
    · rfl
    · exact absurd written marker
  by_cases same : name = key
  · subst same
    exact ⟨rises_of_put small List.mem_cons_self ops (above rfl),
      fun _ ↦ (watermark_write small List.mem_cons_self ops).1⟩
  · refine ⟨rises_of_not_mem fun mem ↦ ?_, fun eq ↦ absurd eq same⟩
    obtain ⟨op, mem, written⟩ := List.mem_map.mp mem
    rw [ops op mem written] at written
    exact same (Key.metadata.inj written)

/-- What a call that advances a watermark gives back. -/
def Advanced (key name : String) (revision : Revision) (result : Except CoordinationError Revision)
    (s : EtcdStore) : Prop :=
  ∀ v, result = .ok v → name = key → revision ≤ v ∧ watermark s key = some (v : ℤ)

/-- One round of an advance: a result means the end of the loop. -/
def AdvancedRound (key name : String) (revision : Revision)
    (result : Except CoordinationError (Option Revision)) (s : EtcdStore) : Prop :=
  match result with
  | .ok (some v) => Advanced key name revision (.ok v) s
  | .ok none => True
  | .error e => Advanced key name revision (.error e) s

/-- A compare-and-put of a watermark under compares that fail where it is higher. -/
theorem wp_advanceTxn (h : IsWatermarkKey key) {name : String} {revision : Revision}
    (small : revision < 2 ^ 63) {compares : List EtcdCompare} {s : EtcdStore}
    {log : List (RevisionStore.Event Key Value Purpose)}
    (above : ∀ s₁, Rises key s s₁ → (∀ compare ∈ compares, compare.holds s₁ = true) → name = key →
      ∀ n, watermark s₁ key = some n → n ≤ revision)
    {β : Type} (answer : Bool × Revision → β) (applied : β → Bool)
    (reads : ∀ response, applied (answer response) = response.1) :
    (rising key).wp (fun log ↦ ∀ event ∈ log, True)
      (fun result _ s ↦ AdvancedRound key name revision result s) (do
        let result ← (do
          let response ← send ⟨compares, metadataOperations name
            (.put (.metadata name) (.text (toString revision)) 0)⟩
          return answer response)
        if applied result then return some revision else return none) log s := by
  have rises : ∀ s₁, (rising key).Since s s₁ → (⟨compares, metadataOperations name
      (.put (.metadata name) (.text (toString revision)) 0)⟩ : EtcdTxn).succeeds s₁ = true → _ :=
    fun s₁ since succeeds ↦ rises_metadata h small
      (above s₁ (rises_of_since since) (Txn.succeeds_iff.mp succeeds))
  refine Contract.wp_bind (Contract.wp_bind (Contract.wp_submit (fun _ _ ↦ trivial)
    (fun s₁ since succeeds ↦ ?_) (fun _ _ _ _ ↦ trivial) (fun s₁ since ↦ ?_)
    (fun _ _ _ ↦ ⟨(fun _ eq ↦ nomatch eq), (fun _ eq ↦ nomatch eq)⟩)))
  · rw [Txn.run, if_pos succeeds]
    exact (rises s₁ since succeeds).1
  · refine ⟨fun _ _ ↦ trivial, ?_⟩
    dsimp only
    rw [reads]
    cases succeeds : Txn.succeeds _ s₁ with
    | false => exact ⟨fun _ _ ↦ trivial, trivial⟩
    | true =>
      refine ⟨fun _ _ ↦ trivial, fun v eq same ↦ ?_⟩
      cases eq
      rw [Txn.run, if_pos succeeds]
      exact ⟨le_rfl, (rises s₁ since succeeds).2 same⟩

theorem wp_advance (h : IsWatermarkKey key) (name : String) (revision : ValidRevision)
    {log : List (RevisionStore.Event Key Value Purpose)} {s : EtcdStore} :
    (rising key).wp (fun log ↦ ∀ event ∈ log, True)
      (fun result _ s ↦ Advanced key name revision result s)
      (advanceMetadataRevision name revision) log s := by
  refine Contract.wp_retry (fun _ _ ↦ True) (fun log s _ ↦ ?_)
    (fun _ _ _ ↦ ⟨fun _ _ ↦ trivial, fun _ eq ↦ by cases eq⟩) _ trivial
  refine Contract.wp_mono
    (fun result _ s _ (ends : AdvancedRound key name revision result s) ↦ ?_) ?_
  · cases result with
    | error e => exact ends
    | ok answer =>
      cases answer with
      | none => trivial
      | some v => exact ends
  refine Contract.wp_bind (Contract.wp_bind (Contract.wp_query (fun _ _ ↦ trivial)
    (fun read _ ↦ ⟨fun _ _ ↦ trivial, ?_⟩) fun _ read _ _ eq ↦ by cases eq))
  cases found : read.entry (.metadata name) with
  | none =>
    rw [metadataEntry, found, Option.map_none]
    refine wp_advanceTxn h revision.2.2 (fun s₁ _ holds same n hn ↦ ?_) Prod.fst id fun _ ↦ rfl
    subst same
    have absent := Compare.version_zero.mp (holds _ List.mem_cons_self)
    rw [watermark, Store.value, absent] at hn
    cases hn
  | some e =>
    rw [metadataEntry, found, Option.map_some]
    dsimp only
    cases parsed : parseRevision e.value with
    | error error => exact ⟨fun _ _ ↦ trivial, fun _ eq ↦ by cases eq⟩
    | ok current =>
    obtain ⟨text, holds, number⟩ := parseRevision_eq_ok parsed
    change (rising key).wp _ _ (if revision.1 ≤ current then pure (some current) else _) log read
    split
    · next reached =>
      refine ⟨fun _ _ ↦ trivial, fun v eq same ↦ ?_⟩
      cases eq
      subst same
      exact ⟨reached, by rw [watermark_of_entry found holds, number]⟩
    · next below =>
      refine wp_advanceTxn h revision.2.2 (fun s₁ rises compares same n hn ↦ ?_)
        (fun response ↦ (⟨response.1, response.2⟩ : CasResult)) CasResult.applied fun _ ↦ rfl
      -- the compared revision says that the value is still the one that was read
      have unmoved := Compare.modRevision_holds.mp (compares _ List.mem_cons_self)
      have kept := rises.later.entry_eq found unmoved
      subst same
      rw [watermark_of_entry kept holds, number] at hn
      cases hn
      exact_mod_cast (Nat.not_le.mp below).le

theorem mem_publishTxn {fence : ControllerCommitFence} {view pending : Value}
    {pendingRevision processed : Option Revision} {op : EtcdOp}
    (mem : op ∈ (publishTxn fence view pending pendingRevision processed).operations)
    (h : IsWatermarkKey key) (written : op.key = .metadata key) :
    op = .put (.metadata processedOutputKey) (.text (toString fence.observedRevision)) 0 := by
  rcases List.mem_cons.mp mem with rfl | mem
  · exact absurd (Key.metadata.inj written).symm h.externalView
  rcases List.mem_cons.mp mem with rfl | mem
  · exact absurd (Key.metadata.inj written).symm h.pending
  · exact List.mem_singleton.mp mem

/-- A publication writes the watermark under the revision it has been read at. -/
theorem rises_publishTxn (h : IsWatermarkKey key) {fence : ControllerCommitFence}
    (small : fence.observedRevision < 2 ^ 63) {view pending : Value}
    {pendingRevision : Option Revision} {processed : Option Revision} {s : EtcdStore}
    (above : key = processedOutputKey → ∀ n, watermark s key = some n → n ≤ fence.observedRevision) :
    Rises key s (s.write (publishTxn fence view pending pendingRevision processed).operations) := by
  by_cases same : key = processedOutputKey
  · subst same
    refine rises_of_put small ?_ (fun op mem written ↦ mem_publishTxn mem h written) (above rfl)
    exact List.mem_cons_of_mem _ (List.mem_cons_of_mem _ List.mem_cons_self)
  · refine rises_of_not_mem fun mem ↦ ?_
    obtain ⟨op, mem, written⟩ := List.mem_map.mp mem
    rw [mem_publishTxn mem h written] at written
    exact same (Key.metadata.inj written).symm

/-- The watermark as a publication reads it, still there under the same compare. -/
theorem wp_readProcessed {log : List (RevisionStore.Event Key Value Purpose)} {s : EtcdStore} :
    (rising key).wp (fun log ↦ ∀ event ∈ log, True) (fun result _ s ↦ ∀ processed,
        result = .ok processed → ∀ s₁, Rises key s s₁ →
          (revisionCompare (.metadata processedOutputKey) (processed.map Prod.fst)).holds s₁ = true →
          ∀ n, watermark s₁ processedOutputKey = some n → ∃ item ∈ processed, n = (item.2 : ℤ))
      readProcessed log s := by
  refine Contract.wp_bind (Contract.wp_query (fun _ _ ↦ trivial) (fun read _ ↦ ?_)
    fun _ _ _ _ eq ↦ by cases eq)
  dsimp only
  cases found : read.entry (.metadata processedOutputKey) with
  | none =>
    refine ⟨fun _ _ ↦ trivial, fun processed eq s₁ rises holds n hn ↦ ?_⟩
    cases eq
    have absent := Compare.version_zero.mp holds
    rw [watermark, Store.value, absent] at hn
    cases hn
  | some e =>
    dsimp only
    cases parsed : parseRevision e.value with
    | error error => exact ⟨fun _ _ ↦ trivial, fun _ eq ↦ by cases eq⟩
    | ok current =>
      obtain ⟨text, value, number⟩ := parseRevision_eq_ok parsed
      refine ⟨fun _ _ ↦ trivial, fun processed eq s₁ rises holds n hn ↦ ?_⟩
      cases eq
      have kept := rises.later.entry_eq found (Compare.modRevision_holds.mp holds)
      rw [watermark_of_entry kept value, number] at hn
      cases hn
      exact ⟨_, rfl, rfl⟩

theorem wp_publish (h : IsWatermarkKey key) (purpose : Purpose) {fence : ControllerCommitFence}
    (small : fence.observedRevision < 2 ^ 63) (view pending : Value)
    (pendingRevision : Option Revision) {log : List (RevisionStore.Event Key Value Purpose)} {s : EtcdStore} :
    (rising key).wp (fun log ↦ ∀ event ∈ log, True) (fun _ _ _ ↦ True)
      (publishControllerOutputsWithFence purpose fence view pending pendingRevision) log s := by
  refine Contract.wp_retry (fun _ _ ↦ True) (fun log s _ ↦ ?_)
    (fun _ _ _ ↦ ⟨fun _ _ ↦ trivial, trivial⟩) _ trivial
  refine Contract.wp_mono (fun result _ s _ (_ : True) ↦ ?_) ?_
  · match result with
    | .ok (some v) => trivial
    | .ok none => trivial
    | .error e => trivial
  refine Contract.wp_bind (Contract.wp_mono (fun result log s past read ↦ ?_) wp_readProcessed)
  cases result with
  | error e => trivial
  | ok processed =>
  dsimp only
  split
  · exact ⟨past, trivial⟩
  next current =>
  refine Contract.wp_then (Contract.wp_submit past (fun s₁ since succeeds ↦ ?_)
    (fun _ _ _ _ ↦ trivial) (fun _ _ ↦ trivial) fun _ _ _ ↦ ⟨trivial, trivial⟩)
    fun response log s past ↦ ?_
  · rw [Txn.run, if_pos succeeds]
    refine rises_publishTxn h small fun same n hn ↦ ?_
    subst same
    have holds := Txn.succeeds_iff.mp succeeds (revisionCompare _ _)
      (List.mem_append_left _ (List.mem_cons_of_mem _ (List.mem_cons_of_mem _ List.mem_cons_self)))
    obtain ⟨item, mem, rfl⟩ := read _ rfl s₁ (rises_of_since since) holds n hn
    rw [Option.mem_def] at mem
    rw [mem] at current
    simp only [Option.any_some, decide_eq_true_eq, Nat.not_lt] at current
    exact_mod_cast current
  · -- the rest of the round only reads
    refine Contract.wp_of_issues (P := fun _ ↦ False) (fun _ _ _ impossible ↦ impossible.elim) ?_ past
    split
    · trivial
    refine (issues_authorityMatches _ _).bind fun authorized ↦ ?_
    split
    · trivial
    refine (issues_pendingRevisionChanged _).bind fun changed ↦ ?_
    split
    · trivial
    refine (issues_inputFenceChanged _).bind fun changed ↦ ?_
    split
    · trivial
    refine issues_readProcessed.bind fun latest ↦ ?_
    split
    · trivial
    · trivial

end Calls

/-- Everything else that happens in the store leaves the key alone. -/
def Elsewhere (key : String) (s s' : EtcdStore) : Prop :=
  Store.Later s s' ∧ s'.entry (.metadata key) = s.entry (.metadata key)

theorem elsewhere_rises {key : String} {s s' : EtcdStore} (h : Elsewhere key s s') :
    Rises key s s' := rises_of_entry h.1 fun _ ↦ h.2

abbrev WatermarkSystem := System Key Value Purpose CoordinationError Revision WatermarkCall

theorem verified_watermarkCall {key : String} (h : IsWatermarkKey key) (call : WatermarkCall)
    (s : EtcdStore) : (rising key).wp (fun log ↦ ∀ event ∈ log, True)
      (fun result _ s ↦ ∀ name revision, call = .advance name revision →
        Advanced key name revision result s) call.program [] s := by
  cases call with
  | publish purpose controllerId leaseId observed liveSessions view pending pendingRevision =>
    exact Contract.wp_mono (fun _ _ _ _ _ _ _ eq ↦ nomatch eq)
      (wp_publish h purpose observed.2.2 view pending pendingRevision)
  | advance name revision =>
    refine Contract.wp_mono (fun result _ s _ ends name' revision' eq ↦ ?_)
      (wp_advance h name revision)
    cases eq
    exact ends

/-- Watermarks never regress under publications and advances of any controllers and callers, and an
advance gives back a number that it asked for or exceeds it and that was stored meanwhile. -/
theorem watermark_monotone {key : String} (h : IsWatermarkKey key) {s₀ : EtcdStore}
    (unleased : Unleased s₀ key) {sys sys' : WatermarkSystem}
    (reach : System.Reachable True WatermarkCall.program (Elsewhere key) s₀ sys)
    (steps : Relation.ReflTransGen (System.Step True WatermarkCall.program (Elsewhere key)) sys sys') :
    (∀ n, watermark sys.store key = some n →
      ∃ m, n ≤ m ∧ watermark sys'.store key = some m) ∧
    ∀ (client : ℕ) (revision : ValidRevision) (v : Revision),
      sys.clients[client]? = some (.advance key revision, (WatermarkCall.advance key revision).program) →
      sys'.clients[client]? = some (.advance key revision, .done (.ok v)) →
      revision.1 ≤ v ∧ ∃ middle : WatermarkSystem,
        Relation.ReflTransGen (System.Step True WatermarkCall.program (Elsewhere key)) sys middle ∧
        Relation.ReflTransGen (System.Step True WatermarkCall.program (Elsewhere key)) middle sys' ∧
        watermark middle.store key = some (v : ℤ) := by
  have verified := verified_watermarkCall h
  have rely : ∀ s s', Elsewhere key s s' → (rising key).change s s' := fun s s' ↦ elsewhere_rises
  have start := rises_of_since (System.Reachable.wp (c := rising key) verified rely reach).1
  have since := rises_of_since (System.Reachable.since (c := rising key) verified rely reach steps)
  refine ⟨since.rises (start.unleased unleased), fun client revision v found done ↦ ?_⟩
  obtain ⟨p, kept, same | ⟨middle, before, after, hwp⟩⟩ :=
    System.Reachable.instant (c := rising key) verified rely reach steps found
  · cases done.symm.trans kept
    cases same
  · cases done.symm.trans kept
    obtain ⟨le, stored⟩ := hwp.2 key revision rfl v rfl rfl
    exact ⟨le, middle, before, after, stored⟩

/-- Two advances of one key, the second with a number that is too low. -/
def advancing : WatermarkSystem :=
  ((System.initial Store.empty).perform WatermarkCall.program
    (.advance "watermark" ⟨5, by decide⟩) 0 2).perform WatermarkCall.program
    (.advance "watermark" ⟨3, by decide⟩) 0 0

theorem watermark_monotone_advance :
    (∃ m, 5 ≤ m ∧ watermark (advancing.serve 1 0).store "watermark" = some m) ∧ 3 ≤ 5 := by
  have monotone := watermark_monotone
    (⟨by decide, by decide, by decide⟩ : IsWatermarkKey "watermark")
    (fun e (found : (Store.empty : EtcdStore).entry _ = some e) ↦ by
      simp [Store.entry, Store.empty] at found)
    ((System.Reachable.initial.perform _ _ _).perform _ _ _ : System.Reachable True _ _ _ advancing)
    (System.steps_serve advancing 1 0)
  exact ⟨monotone.1 5 (by decide), (monotone.2 1 ⟨3, by decide⟩ 5 rfl rfl).1⟩

/-- A run without a lost answer or an interference in which a number goes down. -/
def Regresses (key : String) : Prop :=
  ∃ (s₀ : EtcdStore) (sys sys' : WatermarkSystem),
    System.Reachable False WatermarkCall.program (fun _ _ ↦ False) s₀ sys ∧
    Relation.ReflTransGen (System.Step False WatermarkCall.program fun _ _ ↦ False) sys sys' ∧
    ∃ n m, watermark sys.store key = some n ∧ watermark sys'.store key = some m ∧ m < n

/-- A namespace with an active controller. -/
def led : EtcdStore := initialized.write [.put .active (.text "c") 9]

/-- One advance after another. -/
def advanced (key : String) : WatermarkSystem :=
  (System.initial led).perform WatermarkCall.program (.advance key ⟨5, by decide⟩) 0 2

theorem regresses_of_call {key : String} {n m : ℤ} (call : WatermarkCall)
    (before : watermark (advanced key).store key = some n)
    (after : watermark ((advanced key).perform WatermarkCall.program call 0 2).store key = some m)
    (lt : m < n) : Regresses key :=
  ⟨led, _, _, System.Reachable.initial.perform _ _ _, System.steps_perform _ _ _ _, n, m, before,
    after, lt⟩

/-- A write of any input resets the marker, and a publication replaces its two documents by the
texts it is given. -/
theorem watermark_regresses : Regresses authoritativeInputMarker ∧ Regresses externalOutputKey ∧
    Regresses pendingOutputKey := by
  refine ⟨?_, ?_, ?_⟩
  · exact regresses_of_call (n := 5) (m := 1) (.advance "watermark" ⟨7, by decide⟩)
      (by decide) (by decide) (by decide)
  · exact regresses_of_call (n := 5) (m := 3)
      (.publish .ordinary "c" 9 ⟨2, by decide⟩ ∅ (.text "3") (.text "4") none)
      (by decide) (by decide) (by decide)
  · exact regresses_of_call (n := 5) (m := 4)
      (.publish .ordinary "c" 9 ⟨2, by decide⟩ ∅ (.text "3") (.text "4") (some 4))
      (by decide) (by decide) (by decide)

end Clustodian
