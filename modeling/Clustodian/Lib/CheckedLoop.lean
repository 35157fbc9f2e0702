import Mathlib

namespace CheckedLoop

variable {ε α β σ : Type}

theorem bind_eq_ok {x : Except ε α} {f : α → Except ε β} {b : β} :
    x >>= f = .ok b ↔ ∃ a, x = .ok a ∧ f a = .ok b := by
  cases x with
  | error e => simp [bind, Except.bind]
  | ok a => simp [bind, Except.bind]

theorem ok_bind (a : α) (f : α → Except ε β) : (Except.ok a >>= f) = f a := rfl

theorem error_bind (e : ε) (f : α → Except ε β) : (Except.error e >>= f) = .error e := rfl

theorem toOption_eq_some {x : Except ε α} {a : α} : x.toOption = some a ↔ x = .ok a := by
  cases x <;> simp [Except.toOption]

/-- A loop whose body succeeds and keeps a prefix-indexed invariant runs to its end. -/
theorem foldlM_ok (inv : List α → σ → Prop) (step : σ → α → Except ε σ) (items : List α)
    (start : σ) (init : inv [] start)
    (keep : ∀ done item rest s, items = done ++ item :: rest → inv done s →
      ∃ s', step s item = .ok s' ∧ inv (done ++ [item]) s') :
    ∃ s, items.foldlM step start = .ok s ∧ inv items s := by
  suffices general : ∀ rest done s, items = done ++ rest → inv done s →
      ∃ s', rest.foldlM step s = .ok s' ∧ inv items s' from general items [] start rfl init
  intro rest
  induction rest with
  | nil =>
    intro done s split h
    rw [List.append_nil] at split
    subst split
    exact ⟨s, rfl, h⟩
  | cons item rest ih =>
    intro done s split h
    obtain ⟨s', hs', h'⟩ := keep done item rest s split h
    rw [List.foldlM_cons, hs', ok_bind]
    exact ih (done ++ [item]) s' (by rw [split, List.append_assoc, List.singleton_append]) h'

/-- What holds at the start and is kept by every successful pass holds at the end. -/
theorem foldlM_inv (inv : List α → σ → Prop) {step : σ → α → Except ε σ} (items : List α)
    {start result : σ} (run : items.foldlM step start = .ok result) (init : inv [] start)
    (keep : ∀ done item rest s s', items = done ++ item :: rest → inv done s →
      step s item = .ok s' → inv (done ++ [item]) s') : inv items result := by
  suffices general : ∀ rest done s, items = done ++ rest → inv done s →
      rest.foldlM step s = .ok result → inv items result from general items [] start rfl init run
  intro rest
  induction rest with
  | nil =>
    intro done s split h hs
    rw [List.append_nil] at split
    subst split
    cases hs
    exact h
  | cons item rest ih =>
    intro done s split h hs
    rw [List.foldlM_cons, bind_eq_ok] at hs
    obtain ⟨s', hs', hrest⟩ := hs
    exact ih (done ++ [item]) s' (by rw [split, List.append_assoc, List.singleton_append])
      (keep done item rest s s' split h hs') hrest

/-- A loop may leave out the items its body passes over. -/
theorem foldlM_filter {step : σ → α → Except ε σ} (keep : α → Bool)
    (skip : ∀ s item, keep item = false → step s item = .ok s) (items : List α) (start : σ) :
    (items.filter keep).foldlM step start = items.foldlM step start := by
  induction items generalizing start with
  | nil => rfl
  | cons item items ih =>
    rw [List.filter_cons, List.foldlM_cons]
    split
    · rw [List.foldlM_cons]
      exact congrArg _ (funext ih)
    · next dropped =>
      rw [skip start item (by simpa using dropped), ok_bind, ih]

theorem mapM_ok {f : α → Except ε β} (rel : α → β → Prop) (items : List α)
    (each : ∀ item ∈ items, ∃ result, f item = .ok result ∧ rel item result) :
    ∃ results, items.mapM f = .ok results ∧ List.Forall₂ rel items results := by
  induction items with
  | nil => exact ⟨[], rfl, .nil⟩
  | cons item items ih =>
    obtain ⟨result, hresult, hrel⟩ := each item List.mem_cons_self
    obtain ⟨results, hresults, hrels⟩ := ih fun x hx ↦ each x (List.mem_cons_of_mem _ hx)
    refine ⟨result :: results, ?_, .cons hrel hrels⟩
    rw [List.mapM_cons, hresult, ok_bind, hresults, ok_bind]
    rfl

theorem mapM_inv {f : α → Except ε β} {items : List α} {results : List β}
    (run : items.mapM f = .ok results) : List.Forall₂ (fun item result ↦ f item = .ok result)
      items results := by
  induction items generalizing results with
  | nil =>
    cases run
    exact .nil
  | cons item items ih =>
    rw [List.mapM_cons] at run
    obtain ⟨result, hresult, run⟩ := bind_eq_ok.mp run
    obtain ⟨rest, hrest, run⟩ := bind_eq_ok.mp run
    cases run
    exact .cons hresult (ih hrest)

theorem forall₂_left {rel : α → β → Prop} {items : List α} {results : List β}
    (h : List.Forall₂ rel items results) {item : α} (mem : item ∈ items) :
    ∃ result ∈ results, rel item result := by
  induction h with
  | nil => cases mem
  | cons hrel _ ih =>
    rcases List.mem_cons.mp mem with rfl | mem
    · exact ⟨_, List.mem_cons_self, hrel⟩
    · obtain ⟨result, hresult, hrel⟩ := ih mem
      exact ⟨result, List.mem_cons_of_mem _ hresult, hrel⟩

theorem forall₂_map {γ : Type} {rel : α → β → Prop} {f : α → γ} {g : β → γ}
    (agree : ∀ a b, rel a b → g b = f a) {items : List α} {results : List β}
    (h : List.Forall₂ rel items results) : results.map g = items.map f := by
  induction h with
  | nil => rfl
  | cons hrel _ ih => rw [List.map_cons, List.map_cons, agree _ _ hrel, ih]

/-- A value observed after a loop was there before it or was written by a pass. -/
theorem foldl_sound (observe : σ → Option β) (writes : α → β → Prop) {step : σ → α → σ}
    (sound : ∀ s item value, observe (step s item) = some value →
      observe s = some value ∨ writes item value) (items : List α) {start : σ} {value : β}
    (seen : observe (items.foldl step start) = some value) :
    observe start = some value ∨ ∃ item ∈ items, writes item value := by
  induction items generalizing start with
  | nil => exact .inl seen
  | cons item items ih =>
    rcases ih seen with h | ⟨x, hx, h⟩
    · exact (sound start item value h).imp_right fun h ↦ ⟨item, List.mem_cons_self, h⟩
    · exact .inr ⟨x, List.mem_cons_of_mem _ hx, h⟩

/-- What was there before a loop, or is written by a pass, is there after it. -/
theorem foldl_complete (observe : σ → Option β) (writes : α → β → Prop) (step : σ → α → σ)
    (complete : ∀ s item, (observe s).isSome ∨ (∃ value, writes item value) →
      (observe (step s item)).isSome) (items : List α) (start : σ)
    (known : (observe start).isSome ∨ ∃ item ∈ items, ∃ value, writes item value) :
    (observe (items.foldl step start)).isSome := by
  induction items generalizing start with
  | nil => simpa using known
  | cons item items ih =>
    refine ih _ ?_
    rcases known with h | ⟨x, hx, h⟩
    · exact .inl (complete start item (.inl h))
    · rcases List.mem_cons.mp hx with rfl | hx
      · exact .inl (complete start x (.inr h))
      · exact .inr ⟨x, hx, h⟩

end CheckedLoop
