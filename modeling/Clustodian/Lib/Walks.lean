import Mathlib

namespace Walks

variable {V W : Type} {edge : V → V → Prop} {inner : V → Prop} {a b c k : V} {n m : ℕ}

/-- A walk of so many edges. -/
inductive Walk (edge : V → V → Prop) : ℕ → V → V → Prop
  | nil (a : V) : Walk edge 0 a a
  | cons {n : ℕ} {a b c : V} : edge a c → Walk edge n c b → Walk edge (n + 1) a b

/-- A walk of at least one edge, with a condition on the vertices between its ends. -/
inductive Through (edge : V → V → Prop) (inner : V → Prop) : ℕ → V → V → Prop
  | edge {a b : V} : edge a b → Through edge inner 1 a b
  | cons {n : ℕ} {a b c : V} : edge a c → inner c → Through edge inner n c b →
      Through edge inner (n + 1) a b

/-- The number of edges of a shortest walk. -/
def IsDistance (edge : V → V → Prop) (a b : V) (n : ℕ) : Prop :=
  Walk edge n a b ∧ ∀ m, Walk edge m a b → n ≤ m

namespace Walk

theorem append (h : Walk edge n a c) (h' : Walk edge m c b) : Walk edge (n + m) a b := by
  induction h with
  | nil => simpa only [Nat.zero_add] using h'
  | cons first _ ih =>
    rw [Nat.add_right_comm]
    exact .cons first (ih h')

theorem eq_of_zero (h : Walk edge 0 a b) : a = b := by
  cases h
  rfl

/-- Vertices along a walk are carried over one by one. -/
theorem transfer (h : Walk edge n a b) {edge' : W → W → Prop} (same : V → W → Prop)
    (step : ∀ a b x, same a x → edge a b → ∃ y, same b y ∧ edge' x y) {x : W}
    (start : same a x) : ∃ y, same b y ∧ Walk edge' n x y := by
  induction h generalizing x with
  | nil => exact ⟨x, start, .nil x⟩
  | cons first _ ih =>
    obtain ⟨y, middle, first'⟩ := step _ _ _ start first
    obtain ⟨z, last, rest⟩ := ih middle
    exact ⟨z, last, .cons first' rest⟩

theorem through (h : Walk edge (n + 1) a b) (all : ∀ {a c}, edge a c → inner c) :
    Through edge inner (n + 1) a b := by
  induction n generalizing a with
  | zero =>
    cases h with
    | cons first rest =>
      rw [← eq_of_zero rest]
      exact .edge first
  | succ n ih =>
    cases h with
    | cons first rest => exact .cons first (all first) (ih rest)

end Walk

namespace Through

theorem mono {inner' : V → Prop} (h : Through edge inner n a b)
    (weaker : ∀ v, inner v → inner' v) : Through edge inner' n a b := by
  induction h with
  | edge first => exact .edge first
  | cons first middle _ ih => exact .cons first (weaker _ middle) ih

/-- A walk that may pass one more vertex avoids it or is cut there. -/
theorem split (h : Through edge (fun v ↦ inner v ∨ v = k) n a b) : Through edge inner n a b ∨
    ∃ left right, Through edge inner left a k ∧ Through edge inner right k b ∧ left + right ≤ n := by
  induction h with
  | edge first => exact .inl (.edge first)
  | @cons n a b c first middle _ ih =>
    rcases middle with allowed | rfl
    · rcases ih with rest | ⟨left, right, start, stop, bound⟩
      · exact .inl (.cons first allowed rest)
      · exact .inr ⟨left + 1, right, .cons first allowed start, stop, by omega⟩
    · rcases ih with rest | ⟨left, right, _, stop, bound⟩
      · exact .inr ⟨1, n, .edge first, rest, by omega⟩
      · exact .inr ⟨1, right, .edge first, stop, by omega⟩

end Through

namespace IsDistance

theorem unique (h : IsDistance edge a b n) (h' : IsDistance edge a b m) : n = m :=
  le_antisymm (h.2 m h'.1) (h'.2 n h.1)

theorem exists_of_walk (h : Walk edge n a b) : ∃ m, IsDistance edge a b m := by
  classical
  have some_walk : ∃ m, Walk edge m a b := ⟨n, h⟩
  exact ⟨Nat.find some_walk, Nat.find_spec some_walk, fun m hm ↦ Nat.find_min' some_walk hm⟩

/-- The first edge of a shortest walk leads one step closer. -/
theorem of_edge (h : IsDistance edge a b (n + 1)) (first : edge a c) (rest : Walk edge n c b) :
    IsDistance edge c b n := by
  refine ⟨rest, fun m hm ↦ ?_⟩
  have shorter := h.2 (m + 1) (.cons first hm)
  omega

end IsDistance

end Walks
