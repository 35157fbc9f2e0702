import Mathlib

/-! Delta debugging: a failing test case is made smaller while it still reproduces the failure, by
removing ranges of its elements, coarse ones first, or by taking the first candidate that does. -/

namespace DeltaDebugging

variable {T : Type}

/-- Test cases of which ranges of elements can be removed. -/
structure Ranges (T : Type) where
  size : T → ℕ
  remove : T → ℕ → ℕ → Option T
  size_lt : ∀ t start stop t', remove t start stop = some t' → size t' < size t

section Removal

variable (ranges : Ranges T) (reproduces : T → Bool)

/-- A removal that is accepted. -/
def Ranges.Accepts (t t' : T) : Prop :=
  (∃ start stop, ranges.remove t start stop = some t') ∧ reproduces t' = true

/-- The first of the consecutive ranges of one length that can be left out. -/
def Ranges.scan (t : T) (chunk : ℕ) : Option T :=
  ((List.range (ranges.size t)).filter (chunk ∣ ·)).findSome? fun start ↦
    (ranges.remove t start (min (start + chunk) (ranges.size t))).filter reproduces

variable {ranges reproduces} {t t' : T}

theorem Ranges.scan_accepts {chunk : ℕ} (h : ranges.scan reproduces t chunk = some t') :
    ranges.Accepts reproduces t t' := by
  obtain ⟨start, -, removed⟩ := List.exists_of_findSome?_eq_some h
  obtain ⟨removed, accepted⟩ := Option.filter_eq_some_iff.mp removed
  exact ⟨⟨start, _, removed⟩, accepted⟩

theorem Ranges.Accepts.size_lt (h : ranges.Accepts reproduces t t') :
    ranges.size t' < ranges.size t := by
  obtain ⟨⟨start, stop, removed⟩, -⟩ := h
  exact ranges.size_lt t start stop t' removed

/-- The number of ranges that a test case is cut into. -/
abbrev Granularity : Type := {granularity : ℕ // 2 ≤ granularity}

def Granularity.coarser (granularity : Granularity) : Granularity :=
  ⟨max (granularity.val - 1) 2, le_max_right _ _⟩

/-- Twice as many ranges, but no more than elements. -/
def Granularity.finer (granularity : Granularity) {size : ℕ} (large : 2 ≤ size) : Granularity :=
  ⟨min (granularity.val * 2) size, le_min (by have := granularity.property; omega) large⟩

def Granularity.chunk (granularity : Granularity) (size : ℕ) : ℕ :=
  (size + granularity.val - 1) / granularity.val

variable (ranges reproduces)

/-- Remove ranges until none of a single element can be removed. -/
def Ranges.minimize (granularity : Granularity) (t : T) : T :=
  if small : ranges.size t < 2 then t
  else match _accepted : ranges.scan reproduces t (granularity.chunk (ranges.size t)) with
    | some candidate => Ranges.minimize granularity.coarser candidate
    | none =>
      if granularity.val < ranges.size t then
        Ranges.minimize (granularity.finer (Nat.le_of_not_lt small)) t
      else t
termination_by (ranges.size t, ranges.size t - granularity.val)
decreasing_by
  · exact Prod.Lex.left _ _ (Ranges.scan_accepts _accepted).size_lt
  · refine Prod.Lex.right _ ?_
    have := granularity.property
    simp only [Granularity.finer]
    omega

variable {ranges reproduces}

/-- The result is reached by accepted removals. -/
theorem Ranges.minimize_reaches (granularity : Granularity) (t : T) :
    Relation.ReflTransGen (ranges.Accepts reproduces) t (ranges.minimize reproduces granularity t) := by
  fun_induction Ranges.minimize ranges reproduces granularity t with
  | case1 granularity t small => exact .refl
  | case2 granularity t small candidate accepted ih => exact .head (Ranges.scan_accepts accepted) ih
  | case3 granularity t small rejected coarse ih => exact ih
  | case4 granularity t small rejected fine => exact .refl

/-- Where no removal reproduces, nothing is removed. -/
theorem Ranges.minimize_eq_self (granularity : Granularity)
    (rejected : ∀ t', ¬ranges.Accepts reproduces t t') :
    ranges.minimize reproduces granularity t = t := by
  cases (Ranges.minimize_reaches granularity t).cases_head with
  | inl same => exact same.symm
  | inr first =>
    obtain ⟨t', accepted, -⟩ := first
    exact absurd accepted (rejected t')

end Removal

section Descent

variable (candidates : T → List T) (reproduces : T → Bool)

/-- Take the first candidate that reproduces, until none does. -/
def descend : ℕ → T → Option T
  | 0, _ => none
  | fuel + 1, t => match (candidates t).find? reproduces with
    | some candidate => descend fuel candidate
    | none => some t

/-- A candidate that is accepted. -/
def Takes (t t' : T) : Prop := t' ∈ candidates t ∧ reproduces t' = true

variable {candidates reproduces} {t result : T}

theorem takes_of_find? (h : (candidates t).find? reproduces = some result) :
    Takes candidates reproduces t result :=
  ⟨List.mem_of_find?_eq_some h, List.find?_some h⟩

theorem descend_reaches {fuel : ℕ} (h : descend candidates reproduces fuel t = some result) :
    Relation.ReflTransGen (Takes candidates reproduces) t result := by
  induction fuel generalizing t with
  | zero => cases h
  | succ fuel ih =>
    rw [descend] at h
    split at h
    · next candidate found => exact .head (takes_of_find? found) (ih h)
    · cases h
      exact .refl

/-- What makes every candidate that is taken smaller bounds the number of rounds. -/
theorem descend_isSome (weight : T → ℕ) (keeps : T → Prop)
    (smaller : ∀ t t', keeps t → Takes candidates reproduces t t' → keeps t' ∧ weight t' < weight t)
    {fuel : ℕ} (kept : keeps t) (enough : weight t < fuel) :
    (descend candidates reproduces fuel t).isSome := by
  induction fuel generalizing t with
  | zero => omega
  | succ fuel ih =>
    rw [descend]
    split
    · next candidate found =>
      obtain ⟨kept', less⟩ := smaller t candidate kept (takes_of_find? found)
      exact ih kept' (by omega)
    · rfl

/-- A descent that always finds a candidate does not end. -/
theorem descend_eq_none (keeps : T → Prop)
    (next : ∀ t, keeps t → ∃ t', Takes candidates reproduces t t')
    (stays : ∀ t t', keeps t → Takes candidates reproduces t t' → keeps t') (fuel : ℕ)
    (kept : keeps t) : descend candidates reproduces fuel t = none := by
  induction fuel generalizing t with
  | zero => rfl
  | succ fuel ih =>
    rw [descend]
    split
    · next candidate found => exact ih (stays t candidate kept (takes_of_find? found))
    · next missing =>
      obtain ⟨t', mem, accepted⟩ := next t kept
      exact absurd accepted (by simpa using List.find?_eq_none.mp missing t' mem)

end Descent

end DeltaDebugging
