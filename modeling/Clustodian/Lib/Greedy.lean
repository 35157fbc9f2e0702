import Clustodian.Lib.OrderedMap

/-! Greedy choice under per-class limits, and the stable order in which it meets the items. -/

namespace Greedy

section Pick

variable {α κ : Type} [DecidableEq κ]

/-- Take the items in turn; a class without a limit is never full. -/
def pick (cls : α → κ) : (κ → Option ℕ) → List α → List α
  | _, [] => []
  | room, item :: items =>
    match room (cls item) with
    | none => item :: pick cls room items
    | some 0 => pick cls room items
    | some (left + 1) => item :: pick cls (Function.update room (cls item) (some left)) items

variable (cls : α → κ) (room : κ → Option ℕ) (items : List α)

theorem pick_sublist : (pick cls room items).Sublist items := by
  fun_induction pick cls room items with
  | case1 => exact .refl _
  | case2 room item items _ ih => exact ih.cons_cons _
  | case3 room item items _ ih => exact ih.cons _
  | case4 room item items left _ ih => exact ih.cons_cons _

/-- Of every limited class the first items are taken, as many as there is room for. -/
theorem filter_pick (k : κ) {limit : ℕ} (limited : room k = some limit) :
    (pick cls room items).filter (cls · = k) = (items.filter (cls · = k)).take limit := by
  fun_induction pick cls room items generalizing limit with
  | case1 => simp
  | case2 room item items free ih =>
    have other : cls item ≠ k := by
      rintro rfl
      rw [free] at limited
      cases limited
    rw [List.filter_cons_of_neg (by simpa using other), List.filter_cons_of_neg (by simpa using other)]
    exact ih limited
  | case3 room item items full ih =>
    by_cases same : cls item = k
    · rw [same, limited] at full
      cases full
      rw [ih limited, List.take_zero, List.take_zero]
    · rw [List.filter_cons_of_neg (by simpa using same)]
      exact ih limited
  | case4 room item items left open_ ih =>
    by_cases same : cls item = k
    · rw [same, limited] at open_
      cases open_
      subst same
      rw [List.filter_cons_of_pos (by simp), List.filter_cons_of_pos (by simp), List.take_succ_cons,
        ih (Function.update_self _ _ _)]
    · rw [List.filter_cons_of_neg (by simpa using same), List.filter_cons_of_neg (by simpa using same)]
      exact ih (by rw [Function.update_of_ne (Ne.symm same), limited])

theorem filter_pick_of_unlimited (k : κ) (free : room k = none) :
    (pick cls room items).filter (cls · = k) = items.filter (cls · = k) := by
  fun_induction pick cls room items with
  | case1 => rfl
  | case2 room item items _ ih => rw [List.filter_cons, List.filter_cons, ih free]
  | case3 room item items full ih =>
    have other : cls item ≠ k := by
      rintro rfl
      rw [free] at full
      cases full
    rw [List.filter_cons_of_neg (by simpa using other)]
    exact ih free
  | case4 room item items left open_ ih =>
    have other : cls item ≠ k := by
      rintro rfl
      rw [free] at open_
      cases open_
    rw [List.filter_cons_of_neg (by simpa using other), List.filter_cons_of_neg (by simpa using other)]
    exact ih (by rw [Function.update_of_ne (Ne.symm other), free])

theorem countP_pick (k : κ) {limit : ℕ} (limited : room k = some limit) :
    (pick cls room items).countP (cls · = k) = min limit (items.countP (cls · = k)) := by
  rw [List.countP_eq_length_filter, filter_pick cls room items k limited, List.length_take,
    List.countP_eq_length_filter]

/-- An occurrence that is left out finds its class filled up. -/
theorem full_of_count_lt [DecidableEq α] {item : α}
    (skipped : (pick cls room items).count item < items.count item) :
    ∃ limit, room (cls item) = some limit ∧
      (pick cls room items).countP (cls · = cls item) = limit := by
  have inClass : ∀ l : List α, (l.filter (cls · = cls item)).count item = l.count item :=
    fun l ↦ List.count_filter (by simp)
  cases limited : room (cls item) with
  | none =>
    rw [← inClass, ← inClass items, filter_pick_of_unlimited cls room items _ limited] at skipped
    omega
  | some limit =>
    refine ⟨limit, rfl, ?_⟩
    rw [← inClass, ← inClass items, filter_pick cls room items _ limited] at skipped
    rw [countP_pick cls room items _ limited, List.countP_eq_length_filter, Nat.min_eq_left]
    by_contra short
    rw [List.take_of_length_le (by omega)] at skipped
    omega

end Pick

section Best

variable {α β : Type} (score : α → ℕ) (label : α → β)

/-- A scan that keeps the first item with the highest score; its best score starts at zero. -/
theorem foldl_best (first : α) (rest : List α) :
    ∃ before best after, first :: rest = before ++ best :: after ∧
      ((first :: rest).foldl (fun kept item ↦
        if score item > kept.2 then (label item, score item) else kept) (label first, 0)).1 =
          label best ∧
      (∀ item ∈ before, score item < score best) ∧ ∀ item ∈ after, score item ≤ score best := by
  -- after the first item the kept score is the score of the kept item
  suffices general : ∀ (rest before after : List α) (best : α),
      (∀ item ∈ before, score item < score best) → (∀ item ∈ after, score item ≤ score best) →
      ∃ before' best' after', before ++ best :: (after ++ rest) = before' ++ best' :: after' ∧
        (rest.foldl (fun kept item ↦
          if score item > kept.2 then (label item, score item) else kept)
            (label best, score best)).1 = label best' ∧
        (∀ item ∈ before', score item < score best') ∧
          ∀ item ∈ after', score item ≤ score best' by
    have start : (if score first > (label first, 0).2 then (label first, score first)
        else (label first, 0)) = (label first, score first) := by
      split
      · rfl
      · next low => rw [Nat.eq_zero_of_not_pos low]
    rw [List.foldl_cons, start]
    exact general rest [] [] first (by simp) (by simp)
  intro rest
  induction rest with
  | nil => exact fun before after best lower upper ↦ ⟨before, best, after, by simp, rfl, lower, upper⟩
  | cons item rest ih =>
    intro before after best lower upper
    rw [List.foldl_cons]
    by_cases higher : score item > score best
    · rw [if_pos higher]
      obtain ⟨before', best', after', split, result⟩ := ih (before ++ best :: after) [] item
        (fun other mem ↦ by
          rcases List.mem_append.mp mem with mem | mem
          · exact (lower other mem).trans higher
          · rcases List.mem_cons.mp mem with rfl | mem
            · exact higher
            · exact (upper other mem).trans_lt higher) (by simp)
      exact ⟨before', best', after', by rw [← split]; simp, result⟩
    · rw [if_neg higher]
      obtain ⟨before', best', after', split, result⟩ := ih before (after ++ [item]) best lower
        (fun other mem ↦ by
          rcases List.mem_append.mp mem with mem | mem
          · exact upper other mem
          · rw [List.mem_singleton.mp mem]
            exact Nat.le_of_not_lt higher)
      exact ⟨before', best', after', by rw [← split]; simp, result⟩

end Best

section Order

variable {V K : Type} [LinearOrder K] {key : V → K}

/-- A stable order is determined by its keys and by the order inside every class. -/
theorem eq_of_filter_eq {left right : List V} (sortedLeft : left.Pairwise (key · ≤ key ·))
    (sortedRight : right.Pairwise (key · ≤ key ·))
    (same : ∀ k, left.filter (key · = k) = right.filter (key · = k)) : left = right := by
  induction left generalizing right with
  | nil =>
    cases right with
    | nil => rfl
    | cons b right => simpa using same (key b)
  | cons a left ih =>
    cases right with
    | nil => simpa using same (key a)
    | cons b right =>
      have member : ∀ {l l' : List V} {c : V}, c ∈ l → (∀ k, l.filter (key · = k) =
          l'.filter (key · = k)) → c ∈ l' := by
        intro l l' c mem eq
        have filtered : c ∈ l.filter (key · = key c) := by simpa using mem
        rw [eq] at filtered
        exact List.mem_of_mem_filter filtered
      have lower : key b ≤ key a := by
        rcases List.mem_cons.mp (member List.mem_cons_self same) with rfl | later
        · exact le_rfl
        · exact (List.pairwise_cons.mp sortedRight).1 a later
      have upper : key a ≤ key b := by
        rcases List.mem_cons.mp (member List.mem_cons_self fun k ↦ (same k).symm) with rfl | later
        · exact le_rfl
        · exact (List.pairwise_cons.mp sortedLeft).1 b later
      have keys : key a = key b := le_antisymm upper lower
      have first := same (key a)
      rw [List.filter_cons_of_pos (by simp), List.filter_cons_of_pos (by simp [keys])] at first
      obtain ⟨rfl, -⟩ := List.cons.inj first
      rw [ih (List.pairwise_cons.mp sortedLeft).2 (List.pairwise_cons.mp sortedRight).2 fun k ↦ ?_]
      have tails := same k
      rw [List.filter_cons, List.filter_cons] at tails
      split at tails
      · exact (List.cons.inj tails).2
      · exact tails

theorem filter_orderedInsert (item : V) (items : List V) (sorted : items.Pairwise (key · ≤ key ·))
    (k : K) : (items.orderedInsert (key · ≤ key ·) item).filter (key · = k) =
      (item :: items).filter (key · = k) := by
  induction items with
  | nil => rfl
  | cons other items ih =>
    rw [List.orderedInsert_cons]
    split
    · rfl
    · next after =>
      rw [List.filter_cons, ih (List.pairwise_cons.mp sorted).2]
      have differ : key other ≠ key item := fun h ↦ after h.ge
      by_cases hk : key item = k
      · subst hk
        simp [differ]
      · simp [hk, List.filter_cons]

theorem pairwise_insertionSort (items : List V) :
    (items.insertionSort (key · ≤ key ·)).Pairwise (key · ≤ key ·) := by
  have : Std.Total (fun a b : V ↦ key a ≤ key b) := ⟨fun a b ↦ le_total _ _⟩
  have : IsTrans V (fun a b : V ↦ key a ≤ key b) := ⟨fun a b c ↦ le_trans⟩
  exact List.pairwise_insertionSort _ _

theorem pairwise_orderedInsert {before : V → V → Prop} (item : V) (items : List V)
    (sorted : items.Pairwise fun a b ↦ key a < key b ∨ key a = key b ∧ before a b)
    (first : ∀ other ∈ items, before item other) :
    (items.orderedInsert (key · ≤ key ·) item).Pairwise
      fun a b ↦ key a < key b ∨ key a = key b ∧ before a b := by
  induction items with
  | nil => exact List.pairwise_singleton _ _
  | cons other items ih =>
    obtain ⟨after, rest⟩ := List.pairwise_cons.mp sorted
    rw [List.orderedInsert_cons]
    split
    · next le =>
      refine List.pairwise_cons.mpr ⟨fun later mem ↦ ?_, sorted⟩
      have least : key item ≤ key later := by
        rcases List.mem_cons.mp mem with rfl | mem
        · exact le
        · exact le.trans ((after later mem).elim (·.le) (·.1.le))
      rcases least.lt_or_eq with lt | eq
      · exact .inl lt
      · exact .inr ⟨eq, first later mem⟩
    · next gt =>
      refine List.pairwise_cons.mpr ⟨fun later mem ↦ ?_, ih rest fun later mem ↦
        first later (List.mem_cons_of_mem _ mem)⟩
      rcases (List.mem_orderedInsert _).mp mem with rfl | mem
      · exact .inl (lt_of_not_ge gt)
      · exact after later mem

/-- A stable sort keeps the order of the items inside every class. -/
theorem pairwise_insertionSort_of_pairwise {before : V → V → Prop} {items : List V}
    (ordered : items.Pairwise before) :
    (items.insertionSort (key · ≤ key ·)).Pairwise
      fun a b ↦ key a < key b ∨ key a = key b ∧ before a b := by
  induction items with
  | nil => exact .nil
  | cons item items ih =>
    obtain ⟨first, rest⟩ := List.pairwise_cons.mp ordered
    refine pairwise_orderedInsert item _ (ih rest) fun other mem ↦ first other ?_
    exact (List.mem_insertionSort _).mp mem

/-- Sorting by insertion is stable. -/
theorem filter_insertionSort (items : List V) (k : K) :
    (items.insertionSort (key · ≤ key ·)).filter (key · = k) = items.filter (key · = k) := by
  induction items with
  | nil => rfl
  | cons item items ih =>
    rw [List.insertionSort_cons, filter_orderedInsert _ _ (pairwise_insertionSort items),
      List.filter_cons, ih, List.filter_cons]

/-- Sorting stably and leaving items out can be done in any order. -/
theorem insertionSort_filter (keep : V → Bool) (items : List V) :
    (items.filter keep).insertionSort (key · ≤ key ·) =
      (items.insertionSort (key · ≤ key ·)).filter keep := by
  refine eq_of_filter_eq (pairwise_insertionSort _)
    ((pairwise_insertionSort items).filter _) fun k ↦ ?_
  rw [filter_insertionSort, List.filter_comm, ← filter_insertionSort items k, List.filter_comm]

/-- In a list grouped by key the items of a key are its group. -/
theorem filter_flatMap {group : K → List V} (own : ∀ k, ∀ item ∈ group k, key item = k)
    {keys : List K} (distinct : keys.Nodup) (k : K) :
    (keys.flatMap group).filter (key · = k) = if k ∈ keys then group k else [] := by
  induction keys with
  | nil => rfl
  | cons first keys ih =>
    rw [List.nodup_cons] at distinct
    rw [List.flatMap_cons, List.filter_append, ih distinct.2]
    by_cases same : k = first
    · subst same
      rw [List.filter_eq_self.mpr fun item mem ↦ by simpa using own k item mem,
        if_neg distinct.1, if_pos List.mem_cons_self, List.append_nil]
    · rw [List.filter_eq_nil_iff.mpr fun item mem ↦ by
        simpa [own first item mem] using Ne.symm same]
      simp only [List.nil_append, List.mem_cons, same, false_or]

/-- Walking the buckets of an ordered map is the stable order by key. -/
theorem flatMap_groupBy (key : V → K) (items : List V) :
    (OrderedMap.groupBy key items).toList.flatMap Prod.snd =
      items.insertionSort (key · ≤ key ·) := by
  have buckets : (OrderedMap.groupBy key items).toList.flatMap Prod.snd =
      ((OrderedMap.groupBy key items).toList.map Prod.fst).flatMap fun k ↦
        items.filter (key · = k) := by
    rw [List.flatMap_map]
    refine List.flatMap_congr fun bucket mem ↦ ?_
    rw [← OrderedMap.getElem?_groupBy, (OrderedMap.mem_toList _ _ _).mp mem]
    rfl
  have own : ∀ k, ∀ item ∈ items.filter (key · = k), key item = k := by
    intro k item mem
    simpa using (List.mem_filter.mp mem).2
  rw [buckets]
  refine eq_of_filter_eq ?_ (pairwise_insertionSort items) fun k ↦ ?_
  · have ordered := (OrderedMap.groupBy key items).ordered_keys_toList
    refine List.pairwise_flatMap.mpr ⟨fun k _ ↦ ?_, ?_⟩
    · refine List.pairwise_of_forall_mem_list fun x hx y hy ↦ ?_
      rw [own k x hx, own k y hy]
    · refine List.pairwise_map.mpr (ordered.imp fun {a b} lt x hx y hy ↦ ?_)
      rw [own _ x hx, own _ y hy]
      exact (compare_lt_iff_lt.mp lt).le
  · rw [filter_flatMap own (OrderedMap.keys_nodup _), filter_insertionSort]
    split
    · rfl
    · next absent =>
      rw [OrderedMap.mem_keys, Option.not_isSome_iff_eq_none] at absent
      rw [← OrderedMap.getElem?_groupBy, absent]
      rfl

end Order

end Greedy
