import Clustodian.Lib.OrderedMap

namespace RevisionStore

structure Entry (V : Type) where
  value : V
  createRevision : ℕ
  modRevision : ℕ
  version : ℕ
  lease : ℕ
  deriving DecidableEq

/-- A multi-version store at one instant: the counter and the newest entry of every key. -/
structure Store (K V : Type) [LinearOrder K] where
  revision : ℕ
  entries : Std.ExtTreeMap K (Entry V) compare
  bounded : ∀ (k : K) (e : Entry V), entries[k]? = some e →
    0 < e.createRevision ∧ e.createRevision ≤ e.modRevision ∧ 0 < e.version ∧
      e.modRevision ≤ revision

/-- One operation of a transaction; lease `0` stands for none. -/
inductive Op (K V : Type)
  | put (key : K) (value : V) (lease : ℕ)
  | delete (key : K)
  deriving DecidableEq

/-- A condition of a transaction. An absent key has zero revisions, version and lease. -/
inductive Compare (K V : Type)
  | value (key : K) (value : V)
  | createRevision (key : K) (revision : ℕ)
  | modRevision (key : K) (revision : ℕ)
  | version (key : K) (version : ℕ)
  | lease (key : K) (lease : ℕ)
  deriving DecidableEq

structure Txn (K V : Type) where
  compares : List (Compare K V)
  operations : List (Op K V)
  deriving DecidableEq

variable {K V : Type} [LinearOrder K]

namespace Op

def key : Op K V → K
  | .put key _ _ => key
  | .delete key => key

/-- The entry of an operation's key after the operation. -/
def next (revision : ℕ) (entry : Option (Entry V)) : Op K V → Option (Entry V)
  | .put _ value lease => match entry with
    | some e => some ⟨value, e.createRevision, revision, e.version + 1, lease⟩
    | none => some ⟨value, revision, revision, 1, lease⟩
  | .delete _ => none

def update (op : Op K V) (revision : ℕ) (k : K) (entry : Option (Entry V)) : Option (Entry V) :=
  if k = op.key then op.next revision entry else entry

def apply (op : Op K V) (revision : ℕ) (entries : Std.ExtTreeMap K (Entry V) compare) :
    Std.ExtTreeMap K (Entry V) compare :=
  match op.update revision op.key entries[op.key]? with
  | some e => entries.insert op.key e
  | none => entries.erase op.key

def changes (op : Op K V) (entries : Std.ExtTreeMap K (Entry V) compare) : Bool :=
  match op with
  | .put _ _ _ => true
  | .delete key => key ∈ entries

theorem getElem?_apply (op : Op K V) (revision : ℕ)
    (entries : Std.ExtTreeMap K (Entry V) compare) (k : K) :
    (op.apply revision entries)[k]? = op.update revision k entries[k]? := by
  unfold apply
  by_cases same : k = op.key
  · rw [same]
    split
    · next e h => rw [OrderedMap.getElem?_insert, if_pos rfl, h]
    · next h => rw [OrderedMap.getElem?_erase, if_pos rfl, h]
  · have kept : op.update revision k entries[k]? = entries[k]? := if_neg same
    rw [kept]
    split
    · rw [OrderedMap.getElem?_insert, if_neg same]
    · rw [OrderedMap.getElem?_erase, if_neg same]

theorem getElem?_foldl_apply (ops : List (Op K V)) (revision : ℕ)
    (entries : Std.ExtTreeMap K (Entry V) compare) (k : K) :
    (ops.foldl (fun entries op ↦ op.apply revision entries) entries)[k]? =
      ops.foldl (fun entry op ↦ op.update revision k entry) entries[k]? := by
  induction ops generalizing entries with
  | nil => rfl
  | cons op ops ih => rw [List.foldl_cons, ih, getElem?_apply, List.foldl_cons]

/-- Operations on other keys leave an entry alone. -/
theorem foldl_update_of_not_mem {ops : List (Op K V)} {k : K} (revision : ℕ)
    (entry : Option (Entry V)) (h : k ∉ ops.map Op.key) :
    ops.foldl (fun entry op ↦ op.update revision k entry) entry = entry := by
  induction ops generalizing entry with
  | nil => rfl
  | cons op ops ih =>
    rw [List.map_cons, List.mem_cons, not_or] at h
    rw [List.foldl_cons, update, if_neg h.1]
    exact ih entry h.2

/-- An entry is left alone or carries the revision of the operations. -/
theorem foldl_update_cases (ops : List (Op K V)) (k : K) (revision : ℕ)
    (entry : Option (Entry V)) (e : Entry V)
    (h : ops.foldl (fun entry op ↦ op.update revision k entry) entry = some e) :
    entry = some e ∨ (e.modRevision = revision ∧ k ∈ ops.map Op.key ∧ 0 < e.version) := by
  induction ops generalizing entry with
  | nil => exact .inl h
  | cons op ops ih =>
    rw [List.foldl_cons] at h
    rcases ih _ h with kept | ⟨new, mem, version⟩
    · unfold update at kept
      split at kept
      · next same =>
        cases op with
        | put key value lease =>
          refine .inr ?_
          cases entry with
          | none =>
            cases kept
            exact ⟨rfl, by simp [same], Nat.one_pos⟩
          | some before =>
            cases kept
            exact ⟨rfl, by simp [same], Nat.succ_pos _⟩
        | delete key => cases kept
      · exact .inl kept
    · exact .inr ⟨new, List.mem_cons_of_mem _ mem, version⟩

/-- An entry was created by the operations or long before. -/
theorem foldl_update_created (ops : List (Op K V)) (k : K) (revision : ℕ)
    (entry : Option (Entry V)) (e : Entry V)
    (h : ops.foldl (fun entry op ↦ op.update revision k entry) entry = some e) :
    e.createRevision = revision ∨
      ∃ old, entry = some old ∧ old.createRevision = e.createRevision := by
  induction ops generalizing entry with
  | nil => exact .inr ⟨e, h, rfl⟩
  | cons op ops ih =>
    rw [List.foldl_cons] at h
    rcases ih _ h with new | ⟨middle, found, same⟩
    · exact .inl new
    · unfold update at found
      split at found
      · cases op with
        | put key value lease =>
          cases entry with
          | none =>
            cases found
            exact .inl same.symm
          | some before =>
            cases found
            exact .inr ⟨before, rfl, same⟩
        | delete key => cases found
      · exact .inr ⟨middle, found, same⟩

end Op

namespace Store

variable {s s' : Store K V} {k : K} {e e' : Entry V} {ops : List (Op K V)}

def empty : Store K V := ⟨1, ∅, by simp⟩

def entry (s : Store K V) (k : K) : Option (Entry V) := s.entries[k]?

def value (s : Store K V) (k : K) : Option V := (s.entry k).map Entry.value

def modRevision (s : Store K V) (k : K) : ℕ := ((s.entry k).map Entry.modRevision).getD 0

theorem modRevision_le (s : Store K V) (k : K) : s.modRevision k ≤ s.revision := by
  unfold modRevision entry
  cases found : s.entries[k]? with
  | none => exact Nat.zero_le _
  | some e => exact (s.bounded k e found).2.2.2

theorem modRevision_eq_zero : s.modRevision k = 0 ↔ s.entry k = none := by
  unfold modRevision entry
  cases found : s.entries[k]? with
  | none => simp
  | some e =>
    obtain ⟨h1, h2, -, -⟩ := s.bounded k e found
    simp only [Option.map_some, Option.getD_some, reduceCtorEq, iff_false]
    omega

theorem modRevision_of_entry (h : s.entry k = some e) : s.modRevision k = e.modRevision := by
  rw [modRevision, h]
  rfl

theorem value_of_entry (h : s.entry k = some e) : s.value k = some e.value := by
  rw [value, h]
  rfl

theorem entry_bounded (h : s.entry k = some e) :
    0 < e.modRevision ∧ e.modRevision ≤ s.revision := by
  obtain ⟨h1, h2, -, h4⟩ := s.bounded k e h
  exact ⟨h1.trans_le h2, h4⟩

theorem createRevision_bounded (h : s.entry k = some e) :
    0 < e.createRevision ∧ e.createRevision ≤ s.revision := by
  obtain ⟨h1, h2, -, h4⟩ := s.bounded k e h
  exact ⟨h1, h2.trans h4⟩

/-- Execute operations atomically; the counter moves only if something is changed. -/
def write (s : Store K V) (ops : List (Op K V)) : Store K V where
  revision := if ops.any (·.changes s.entries) then s.revision + 1 else s.revision
  entries := ops.foldl (fun entries op ↦ op.apply (s.revision + 1) entries) s.entries
  bounded := by
    intro k e found
    rw [Op.getElem?_foldl_apply] at found
    have created : 0 < e.createRevision ∧ e.createRevision ≤ s.revision + 1 := by
      rcases Op.foldl_update_created ops k (s.revision + 1) _ e found with new | ⟨old, h, same⟩
      · omega
      · obtain ⟨h1, h2, h3, h4⟩ := s.bounded k old h
        omega
    rcases Op.foldl_update_cases ops k (s.revision + 1) _ e found with kept | ⟨new, mem, version⟩
    · obtain ⟨h1, h2, h3, h4⟩ := s.bounded k e kept
      refine ⟨h1, h2, h3, h4.trans ?_⟩
      split <;> omega
    · refine ⟨created.1, by omega, version, ?_⟩
      rw [new]
      split
      · exact le_rfl
      · next idle =>
        exfalso
        have deletes : ∀ op ∈ ops, ∃ key, op = .delete key ∧ key ∉ s.entries := by
          intro op hop
          have quiet := idle
          simp only [List.any_eq_true, not_exists, not_and] at quiet
          cases op with
          | put key value lease => exact absurd rfl (quiet _ hop)
          | delete key => exact ⟨key, rfl, by simpa [Op.changes] using quiet _ hop⟩
        have absent : k ∉ s.entries := by
          obtain ⟨op, hop, rfl⟩ := List.mem_map.mp mem
          obtain ⟨key, rfl, h⟩ := deletes op hop
          exact h
        have gone : ∀ entry, entry = none →
            ops.foldl (fun entry op ↦ op.update (s.revision + 1) k entry) entry = none := by
          clear found mem idle
          induction ops with
          | nil => exact fun entry h ↦ h
          | cons op ops ih =>
            intro entry h
            rw [List.foldl_cons]
            refine ih (fun op hop ↦ deletes op (List.mem_cons_of_mem _ hop)) _ ?_
            obtain ⟨key, rfl, -⟩ := deletes op List.mem_cons_self
            rw [Op.update]
            split
            · rfl
            · exact h
        rw [gone _ ((OrderedMap.not_mem_iff _ _).mp absent)] at found
        cases found

/-- The counter moves without a change to this store's keys. -/
def advance (s : Store K V) : Store K V where
  revision := s.revision + 1
  entries := s.entries
  bounded := by
    intro k e found
    obtain ⟨h1, h2, h3, h4⟩ := s.bounded k e found
    exact ⟨h1, h2, h3, by omega⟩

def leased (s : Store K V) (lease : ℕ) : List K :=
  (s.entries.toList.filter fun item ↦ item.2.lease = lease ∧ lease ≠ 0).map Prod.fst

/-- Revocation or expiry of a lease deletes its keys in one revision. -/
def expire (s : Store K V) (lease : ℕ) : Store K V := s.write ((s.leased lease).map Op.delete)

theorem entry_write : (s.write ops).entry k =
    ops.foldl (fun entry op ↦ op.update (s.revision + 1) k entry) (s.entry k) :=
  Op.getElem?_foldl_apply ops _ _ _

theorem entry_write_of_not_mem (h : k ∉ ops.map Op.key) : (s.write ops).entry k = s.entry k := by
  rw [entry_write, Op.foldl_update_of_not_mem _ _ h]

theorem entry_write_cases (h : (s.write ops).entry k = some e) :
    s.entry k = some e ∨ (e.modRevision = s.revision + 1 ∧ k ∈ ops.map Op.key) := by
  rw [entry_write] at h
  exact (Op.foldl_update_cases _ _ _ _ _ h).imp_right fun new ↦ ⟨new.1, new.2.1⟩

/-- A key that one put of the operations writes, and no other operation touches. -/
theorem entry_write_put {key : K} {value : V} {lease : ℕ} (mem : Op.put key value lease ∈ ops)
    (only : ∀ op ∈ ops, op.key = key → op = .put key value lease) :
    ∃ e, (s.write ops).entry key = some e ∧ e.value = value ∧ e.modRevision = s.revision + 1 ∧
      e.lease = lease := by
  have general : ∀ (ops : List (Op K V)) (entry : Option (Entry V)),
      (∀ op ∈ ops, op.key = key → op = .put key value lease) →
      (.put key value lease ∈ ops ∨ ∃ e, entry = some e ∧ e.value = value ∧
        e.modRevision = s.revision + 1 ∧ e.lease = lease) →
      ∃ e, ops.foldl (fun entry op ↦ op.update (s.revision + 1) key entry) entry = some e ∧
        e.value = value ∧ e.modRevision = s.revision + 1 ∧ e.lease = lease := by
    intro ops
    induction ops with
    | nil => exact fun entry _ h ↦ h.resolve_left List.not_mem_nil
    | cons op ops ih =>
      intro entry only h
      rw [List.foldl_cons]
      refine ih _ (fun op mem ↦ only op (List.mem_cons_of_mem _ mem)) ?_
      by_cases same : op.key = key
      · rw [only op List.mem_cons_self same, Op.update, if_pos (by rfl)]
        refine .inr ?_
        cases entry with
        | none => exact ⟨_, rfl, rfl, rfl, rfl⟩
        | some old => exact ⟨_, rfl, rfl, rfl, rfl⟩
      · rw [Op.update, if_neg fun eq ↦ same eq.symm]
        refine h.imp_left fun mem ↦ (List.mem_cons.mp mem).resolve_left fun eq ↦ same ?_
        rw [← eq]
        rfl
  rw [entry_write]
  exact general ops _ only (.inl mem)

theorem revision_write_le : s.revision ≤ (s.write ops).revision := by
  unfold write
  simp only
  split <;> omega

theorem revision_write_of_put {key : K} {value : V} {lease : ℕ}
    (h : Op.put key value lease ∈ ops) : (s.write ops).revision = s.revision + 1 :=
  if_pos (List.any_eq_true.mpr ⟨_, h, rfl⟩)

/-- A write that leaves the counter alone deletes nothing. -/
theorem entry_write_of_quiet (quiet : (s.write ops).revision = s.revision) :
    (s.write ops).entry k = s.entry k := by
  have idle : ¬ops.any (·.changes s.entries) := by
    intro busy
    have moved : (s.write ops).revision = s.revision + 1 := if_pos busy
    omega
  simp only [List.any_eq_true, not_exists, not_and] at idle
  by_cases mem : k ∈ ops.map Op.key
  · obtain ⟨op, hop, rfl⟩ := List.mem_map.mp mem
    have absent : s.entry op.key = none := by
      cases op with
      | put key value lease => exact absurd rfl (idle _ hop)
      | delete key =>
        have absent : key ∉ s.entries := by simpa [Op.changes] using idle _ hop
        exact (OrderedMap.not_mem_iff _ _).mp absent
    rw [absent]
    cases found : (s.write ops).entry op.key with
    | none => rfl
    | some e =>
      rcases entry_write_cases found with kept | ⟨new, -⟩
      · rw [absent] at kept
        cases kept
      · have bound := (entry_bounded found).2
        omega
  · exact entry_write_of_not_mem mem

@[simp] theorem entry_advance : s.advance.entry k = s.entry k := rfl

theorem mem_leased {lease : ℕ} :
    k ∈ s.leased lease ↔ ∃ e, s.entry k = some e ∧ e.lease = lease ∧ lease ≠ 0 := by
  simp only [leased, List.mem_map, List.mem_filter, Prod.exists, OrderedMap.mem_toList,
    decide_eq_true_eq, exists_and_right, exists_eq_right, entry]

/-- Expiry removes exactly the keys of the lease. -/
theorem entry_expire (s : Store K V) (lease : ℕ) (k : K) :
    (s.expire lease).entry k = (s.entry k).filter fun e ↦ ¬(e.lease = lease ∧ lease ≠ 0) := by
  have general : ∀ (keys : List K) (entry : Option (Entry V)), (keys.map Op.delete).foldl
      (fun entry (op : Op K V) ↦ op.update (s.revision + 1) k entry) entry =
      if k ∈ keys then none else entry := by
    intro keys
    induction keys with
    | nil => simp
    | cons key keys ih =>
      intro entry
      rw [List.map_cons, List.foldl_cons, ih]
      by_cases same : k = key
      · simp [Op.update, Op.next, Op.key, same]
      · simp [Op.update, Op.key, same]
  rw [expire, entry_write, general]
  cases found : s.entry k with
  | none => simp
  | some e =>
    by_cases gone : e.lease = lease ∧ lease ≠ 0
    · rw [if_pos (mem_leased.mpr ⟨e, found, gone⟩), Option.filter_some, if_neg (by simpa using gone)]
    · rw [if_neg, Option.filter_some, if_pos (decide_eq_true gone)]
      intro mem
      obtain ⟨e', found', h⟩ := mem_leased.mp mem
      rw [found, Option.some.injEq] at found'
      exact gone (found' ▸ h)

/-- One atomic change of the store. -/
inductive Step : Store K V → Store K V → Prop
  | write (s : Store K V) (ops : List (Op K V)) : Step s (s.write ops)
  | advance (s : Store K V) : Step s s.advance

/-- The second store is the first one or a later one. -/
def Later : Store K V → Store K V → Prop := Relation.ReflTransGen Step

namespace Later

theorem refl (s : Store K V) : Later s s := Relation.ReflTransGen.refl

theorem trans {s₁ s₂ s₃ : Store K V} (h : Later s₁ s₂) (h' : Later s₂ s₃) : Later s₁ s₃ :=
  Relation.ReflTransGen.trans h h'

theorem write (s : Store K V) (ops : List (Op K V)) : Later s (s.write ops) :=
  .single (.write s ops)

theorem expire (s : Store K V) (lease : ℕ) : Later s (s.expire lease) := write s _

theorem advance (s : Store K V) : Later s s.advance := .single (.advance s)

theorem revision_le (h : Later s s') : s.revision ≤ s'.revision := by
  induction h with
  | refl => exact le_rfl
  | tail _ step ih =>
    cases step with
    | write ops => exact ih.trans revision_write_le
    | advance => exact ih.trans (Nat.le_succ _)

/-- What is there later was there before or has been written since. -/
theorem entry_cases (h : Later s s') (found : s'.entry k = some e) :
    s.entry k = some e ∨ s.revision < e.modRevision := by
  induction h with
  | refl => exact .inl found
  | tail past step ih =>
    have bound := revision_le past
    cases step with
    | write ops =>
      rcases entry_write_cases found with kept | ⟨new, -⟩
      · exact ih kept
      · exact .inr (by omega)
    | advance => exact ih found

/-- A creation revision that is not new was there before. -/
theorem entry_created (h : Later s s') (found : s'.entry k = some e)
    (old : e.createRevision ≤ s.revision) :
    ∃ e₀, s.entry k = some e₀ ∧ e₀.createRevision = e.createRevision := by
  induction h generalizing e with
  | refl => exact ⟨e, found, rfl⟩
  | tail past step ih =>
    have bound := revision_le past
    cases step with
    | write ops =>
      rw [entry_write] at found
      rcases Op.foldl_update_created _ _ _ _ _ found with new | ⟨middle, found, same⟩
      · omega
      · obtain ⟨e₀, first, created⟩ := ih found (same ▸ old)
        exact ⟨e₀, first, created.trans same⟩
    | advance => exact ih found old

/-- Nothing changes without a new revision. -/
theorem entry_eq_of_revision (h : Later s s') (same : s'.revision = s.revision) :
    s'.entry k = s.entry k := by
  induction h with
  | refl => rfl
  | tail past step ih =>
    have bound := revision_le past
    cases step with
    | write ops =>
      have quiet := revision_write_le.trans_eq same
      rw [entry_write_of_quiet (by omega)]
      exact ih (by omega)
    | advance =>
      have moved : _ + 1 = s.revision := same
      omega

/-- A modification revision identifies the entry. -/
theorem entry_eq (h : Later s s') (found : s.entry k = some e)
    (same : s'.modRevision k = e.modRevision) : s'.entry k = some e := by
  have bound := entry_bounded found
  cases found' : s'.entry k with
  | none =>
    rw [modRevision_eq_zero.mpr found'] at same
    omega
  | some e' =>
    rw [modRevision_of_entry found'] at same
    rcases entry_cases h found' with kept | newer
    · rw [found] at kept
      exact kept.symm
    · omega

theorem modRevision_le_of_entry (h : Later s s') (found : s'.entry k = some e) :
    s.modRevision k ≤ e.modRevision := by
  rcases entry_cases h found with kept | newer
  · rw [modRevision_of_entry kept]
  · have := modRevision_le s k
    omega

end Later

end Store

namespace Compare

variable [DecidableEq V]

def holds (s : Store K V) : Compare K V → Bool
  | .value key v => s.value key = some v
  | .createRevision key n => ((s.entry key).map Entry.createRevision).getD 0 = n
  | .modRevision key n => s.modRevision key = n
  | .version key n => ((s.entry key).map Entry.version).getD 0 = n
  | .lease key n => ((s.entry key).map Entry.lease).getD 0 = n

theorem version_zero {s : Store K V} {key : K} :
    (Compare.version key 0 : Compare K V).holds s = true ↔ s.entry key = none := by
  simp only [holds, decide_eq_true_eq]
  cases found : s.entry key with
  | none => simp
  | some e =>
    have positive := (s.bounded key e found).2.2.1
    simp only [Option.map_some, Option.getD_some, reduceCtorEq, iff_false]
    omega

theorem modRevision_holds {s : Store K V} {key : K} {revision : ℕ} :
    (Compare.modRevision key revision : Compare K V).holds s = true ↔
      s.modRevision key = revision := by
  simp [holds]

theorem value_holds {s : Store K V} {key : K} {value : V} :
    (Compare.value key value).holds s = true ↔ s.value key = some value := by
  simp [holds]

end Compare

namespace Txn

variable [DecidableEq V]

def succeeds (txn : Txn K V) (s : Store K V) : Bool := txn.compares.all (·.holds s)

def run (txn : Txn K V) (s : Store K V) : Store K V :=
  if txn.succeeds s then s.write txn.operations else s

theorem succeeds_iff {txn : Txn K V} {s : Store K V} :
    txn.succeeds s = true ↔ ∀ c ∈ txn.compares, c.holds s = true := List.all_eq_true

theorem later_run (txn : Txn K V) (s : Store K V) : Store.Later s (txn.run s) := by
  unfold run
  split
  · exact Store.Later.write s _
  · exact Store.Later.refl s

end Txn

end RevisionStore
