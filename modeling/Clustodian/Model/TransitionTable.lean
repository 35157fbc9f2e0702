import Clustodian.Lib.CheckedLoop
import Clustodian.Lib.Walks
import Clustodian.Lib.OrderedMap
import Clustodian.Model.StateModel

namespace Clustodian

open Walks

namespace HopTables

section Cells

variable {n i j : ℕ} {table : List (List (Option ℕ))}

/-- So many rows of so many columns. -/
def Square (n : ℕ) (table : List (List (Option ℕ))) : Prop :=
  table.length = n ∧ ∀ row ∈ table, row.length = n

theorem square_setCell (h : Square n table) (value : Option ℕ) :
    Square n (setCell table i j value) := by
  refine ⟨by rw [setCell, List.length_modify]; exact h.1, fun row mem ↦ ?_⟩
  obtain ⟨index, hindex⟩ := List.mem_iff_getElem?.mp mem
  rw [setCell, List.getElem?_modify] at hindex
  cases old : table[index]? with
  | none =>
    rw [old] at hindex
    cases hindex
  | some row' =>
    rw [old] at hindex
    have length := h.2 row' (List.mem_of_getElem? old)
    have same : (if i = index then row'.set j value else row') = row := Option.some.inj hindex
    rw [← same]
    split
    · rw [List.length_set, length]
    · exact length

theorem cell_setCell (h : Square n table) (hi : i < n) (hj : j < n) (value : Option ℕ)
    (i' j' : ℕ) : cell (setCell table i j value) i' j' =
      if i' = i ∧ j' = j then value else cell table i' j' := by
  unfold cell setCell
  rw [List.getElem?_modify]
  by_cases row : i = i'
  · subst row
    have present : i < table.length := by rw [h.1]; exact hi
    rw [List.getElem?_eq_getElem present]
    have width : j < table[i].length := by rw [h.2 _ (List.getElem_mem present)]; exact hj
    simp only [if_true, Option.map_eq_map, Option.map_some, Option.bind_some, true_and]
    by_cases column : j' = j
    · subst column
      rw [List.getElem?_set_self width, if_pos rfl]
      rfl
    · rw [List.getElem?_set_ne (Ne.symm column), if_neg column]
  · have kept : (fun a ↦ if i = i' then List.set a j value else a) = id := by
      funext a
      exact if_neg row
    rw [kept, if_neg fun both ↦ row both.1.symm, id_map]

theorem cell_replicate (i j : ℕ) :
    cell (List.replicate n (List.replicate n none)) i j = none := by
  unfold cell
  rw [List.getElem?_replicate]
  split
  · rw [Option.bind_some, List.getElem?_replicate]
    split <;> rfl
  · rfl

theorem square_replicate : Square n (List.replicate n (List.replicate n none)) := by
  refine ⟨List.length_replicate, fun row mem ↦ ?_⟩
  rw [(List.mem_replicate.mp mem).2, List.length_replicate]

end Cells

section Routes

variable {n : ℕ} {edge : ℕ → ℕ → Prop} {tables : HopTables} {i j k : ℕ}

/-- What the two tables say is true of the graph: the diagonal is never improved, and every other
distance is that of a walk which the hop begins. -/
structure Sound (n : ℕ) (edge : ℕ → ℕ → Prop) (tables : HopTables) : Prop where
  distances : Square n tables.distances
  next : Square n tables.next
  diagonal : ∀ i < n, ∃ d ≤ 1, cell tables.distances i i = some d
  walk : ∀ i j, i ≠ j → ∀ d, cell tables.distances i j = some d → ∃ hop m, d = m + 1 ∧
    cell tables.next i j = some hop ∧ edge i hop ∧ Walk edge m hop j
  hop : ∀ i j, i ≠ j → cell tables.distances i j = none → cell tables.next i j = none

/-- No walk through the vertices below a bound is shorter than the distance. -/
def Covers (edge : ℕ → ℕ → Prop) (bound : ℕ) (tables : HopTables) (i j : ℕ) : Prop :=
  ∀ m, Through edge (· < bound) m i j → ∃ d ≤ m, cell tables.distances i j = some d

theorem cell_record (h : Sound n edge tables) (hi : i < n) (hj : j < n) (distance : ℕ)
    (hop : Option ℕ) (i' j' : ℕ) :
    cell (tables.record i j distance hop).distances i' j' =
      (if i' = i ∧ j' = j then some distance else cell tables.distances i' j') ∧
    cell (tables.record i j distance hop).next i' j' =
      if i' = i ∧ j' = j then hop else cell tables.next i' j' :=
  ⟨cell_setCell h.distances hi hj _ _ _, cell_setCell h.next hi hj _ _ _⟩

/-- A recorded cell off the diagonal has to be right. -/
theorem Sound.record (h : Sound n edge tables) (hi : i < n) (hj : j < n) (differ : i ≠ j)
    {m hop : ℕ} (first : edge i hop) (rest : Walk edge m hop j) :
    Sound n edge (tables.record i j (m + 1) (some hop)) := by
  have cells := cell_record h hi hj (m + 1) (some hop)
  refine ⟨square_setCell h.distances _, square_setCell h.next _, fun a ha ↦ ?_,
    fun a b other d found ↦ ?_, fun a b other found ↦ ?_⟩
  · rw [(cells a a).1, if_neg fun both ↦ differ (both.1.symm.trans both.2)]
    exact h.diagonal a ha
  · rw [(cells a b).1] at found
    rw [(cells a b).2]
    split at found
    · next both =>
      obtain ⟨rfl, rfl⟩ := both
      cases found
      rw [if_pos ⟨rfl, rfl⟩]
      exact ⟨hop, m, rfl, rfl, first, rest⟩
    · next elsewhere =>
      rw [if_neg elsewhere]
      exact h.walk a b other d found
  · rw [(cells a b).1] at found
    rw [(cells a b).2]
    split at found
    · cases found
    · next elsewhere =>
      rw [if_neg elsewhere]
      exact h.hop a b other found

/-- One comparison either changes nothing or improves a cell off the diagonal. -/
theorem Sound.relax_cases (h : Sound n edge tables) (hi : i < n) (hj : j < n) (hk : k < n) :
    (tables.relax k i j = tables ∧ ∀ left right, cell tables.distances i k = some left →
      cell tables.distances k j = some right →
      ∃ d ≤ left + right, cell tables.distances i j = some d) ∨
    ∃ left right hop m m', i ≠ j ∧ left = m + 1 ∧ right = m' + 1 ∧ edge i hop ∧
      Walk edge m hop k ∧ Walk edge right k j ∧ cell tables.distances i k = some left ∧
      cell tables.distances k j = some right ∧
      (∀ d, cell tables.distances i j = some d → left + right < d) ∧
      tables.relax k i j = tables.record i j (left + right) (some hop) := by
  unfold relax
  split
  · next left right hleft hright =>
    split
    · next better =>
      have better : ∀ d, cell tables.distances i j = some d → left + right < d := by
        intro d found
        rw [found, Option.all_some, decide_eq_true_eq] at better
        exact better
      have awayLeft : i ≠ k := by
        rintro rfl
        have := better right hright
        omega
      have awayRight : k ≠ j := by
        rintro rfl
        have := better left hleft
        omega
      obtain ⟨hop, m, rfl, hnext, first, rest⟩ := h.walk i k awayLeft left hleft
      obtain ⟨hop', m', rfl, -, first', rest'⟩ := h.walk k j awayRight right hright
      have differ : i ≠ j := by
        rintro rfl
        obtain ⟨d, small, found⟩ := h.diagonal i hi
        have := better d found
        omega
      rw [hnext]
      exact .inr ⟨m + 1, m' + 1, hop, m, m', differ, rfl, rfl, first, rest, .cons first' rest',
        hleft, hright, better, rfl⟩
    · next worse =>
      refine .inl ⟨rfl, fun left' right' hleft' hright' ↦ ?_⟩
      cases hleft.symm.trans hleft'
      cases hright.symm.trans hright'
      cases found : cell tables.distances i j with
      | none =>
        rw [found] at worse
        exact absurd rfl worse
      | some d =>
        rw [found, Option.all_some, decide_eq_true_eq] at worse
        exact ⟨d, by omega, rfl⟩
  · next none =>
    exact .inl ⟨rfl, fun left right hleft hright ↦ absurd hright (none left right hleft)⟩

theorem Sound.relax (h : Sound n edge tables) (hi : i < n) (hj : j < n) (hk : k < n) :
    Sound n edge (tables.relax k i j) := by
  rcases h.relax_cases hi hj hk with ⟨same, -⟩ | ⟨left, right, hop, m, m', differ, rfl, rfl, first,
      rest, last, -, -, -, changed⟩
  · rw [same]
    exact h
  · rw [changed, Nat.add_right_comm m 1]
    exact h.record hi hj differ first (rest.append last)

/-- Distances only get smaller. -/
theorem Sound.relax_le (h : Sound n edge tables) (hi : i < n) (hj : j < n) (hk : k < n)
    {a b d : ℕ} (found : cell tables.distances a b = some d) :
    ∃ d' ≤ d, cell (tables.relax k i j).distances a b = some d' := by
  rcases h.relax_cases hi hj hk with ⟨same, -⟩ | ⟨left, right, hop, m, m', differ, -, -, -, -, -,
      -, -, better, changed⟩
  · rw [same]
    exact ⟨d, le_rfl, found⟩
  · rw [changed, (cell_record h hi hj _ _ a b).1]
    split
    · next both =>
      obtain ⟨rfl, rfl⟩ := both
      exact ⟨left + right, (better d found).le, rfl⟩
    · exact ⟨d, le_rfl, found⟩

theorem Sound.covers_relax (h : Sound n edge tables) (hi : i < n) (hj : j < n) (hk : k < n)
    {bound a b : ℕ} (covered : Covers edge bound tables a b) :
    Covers edge bound (tables.relax k i j) a b := by
  intro m walk
  obtain ⟨d, small, found⟩ := covered m walk
  obtain ⟨d', smaller, found'⟩ := h.relax_le hi hj hk found
  exact ⟨d', smaller.trans small, found'⟩

/-- The comparison through a vertex takes the walks through it into account. -/
theorem Sound.covers_succ (h : Sound n edge tables) (hi : i < n) (hj : j < n) (hk : k < n)
    (covered : ∀ a < n, ∀ b < n, a ≠ b → Covers edge k tables a b) (differ : i ≠ j) :
    Covers edge (k + 1) (tables.relax k i j) i j := by
  intro m walk
  have below := h.covers_relax hi hj hk (covered i hi j hj differ)
  have walk : Through edge (fun v ↦ v < k ∨ v = k) m i j :=
    walk.mono fun v hv ↦ Nat.lt_succ_iff_lt_or_eq.mp hv
  rcases walk.split with avoids | ⟨left, right, start, stop, total⟩
  · exact below m avoids
  · by_cases first : i = k
    · subst first
      obtain ⟨d, small, found⟩ := below right stop
      exact ⟨d, by omega, found⟩
    · by_cases last : k = j
      · subst last
        obtain ⟨d, small, found⟩ := below left start
        exact ⟨d, by omega, found⟩
      · obtain ⟨dl, smallLeft, foundLeft⟩ := covered i hi k hk first left start
        obtain ⟨dr, smallRight, foundRight⟩ := covered k hk j hj last right stop
        rcases h.relax_cases hi hj hk with ⟨same, none⟩ | ⟨left', right', hop, m, m', -, -, -, -,
            -, -, foundLeft', foundRight', -, changed⟩
        · obtain ⟨d, small, found⟩ := none dl dr foundLeft foundRight
          rw [same]
          exact ⟨d, by omega, found⟩
        · cases foundLeft.symm.trans foundLeft'
          cases foundRight.symm.trans foundRight'
          rw [changed, (cell_record h hi hj _ _ i j).1, if_pos ⟨rfl, rfl⟩]
          exact ⟨dl + dr, by omega, rfl⟩

/-- All comparisons through one vertex, as the two inner loops make them. -/
def relaxAll (n k : ℕ) (tables : HopTables) : HopTables :=
  (List.range n).foldl (fun tables source ↦
    (List.range n).foldl (fun tables target ↦ tables.relax k source target) tables) tables

/-- A loop that keeps an invariant and has done its work on every item it has met. -/
theorem foldl_done {σ ι : Type} {step : σ → ι → σ} (inv : σ → Prop) (done : σ → ι → Prop)
    (items : List ι) (keeps : ∀ s, ∀ item ∈ items, inv s → inv (step s item))
    (does : ∀ s, ∀ item ∈ items, inv s → done (step s item) item)
    (stays : ∀ s, ∀ item ∈ items, ∀ other, inv s → done s other → done (step s item) other)
    {s : σ} (h : inv s) : inv (items.foldl step s) ∧
      (∀ item ∈ items, done (items.foldl step s) item) ∧
      ∀ other, done s other → done (items.foldl step s) other := by
  induction items generalizing s with
  | nil => exact ⟨h, (fun _ mem ↦ nomatch mem), fun _ past ↦ past⟩
  | cons item items ih =>
    have hmem : ∀ {other}, other ∈ items → other ∈ item :: items := List.mem_cons_of_mem item
    obtain ⟨hinv, hdone, hpast⟩ := ih (fun s other mem ↦ keeps s other (hmem mem))
      (fun s other mem ↦ does s other (hmem mem)) (fun s other mem ↦ stays s other (hmem mem))
      (keeps s item List.mem_cons_self h)
    refine ⟨hinv, fun other mem ↦ ?_, fun other past ↦ ?_⟩
    · rcases List.mem_cons.mp mem with rfl | mem
      · exact hpast other (does s other List.mem_cons_self h)
      · exact hdone other mem
    · exact hpast other (stays s item List.mem_cons_self other h past)

/-- What the tables are after the comparisons through the vertices below a bound. -/
structure Stage (n : ℕ) (edge : ℕ → ℕ → Prop) (bound : ℕ) (tables : HopTables) : Prop where
  sound : Sound n edge tables
  covers : ∀ i < n, ∀ j < n, i ≠ j → Covers edge bound tables i j

theorem Stage.relax {bound : ℕ} (h : Stage n edge bound tables) (hi : i < n) (hj : j < n)
    (hk : k < n) : Stage n edge bound (tables.relax k i j) :=
  ⟨h.sound.relax hi hj hk, fun a ha b hb differ ↦
    h.sound.covers_relax hi hj hk (h.covers a ha b hb differ)⟩

theorem relaxAll_eq (tables : HopTables) : relaxAll n k tables =
    (List.range n ×ˢ List.range n).foldl (fun tables pair ↦ tables.relax k pair.1 pair.2) tables := by
  unfold relaxAll SProd.sprod List.instSProd List.product
  simp only [List.foldl_flatMap, List.foldl_map]

theorem Stage.succ (h : Stage n edge k tables) (hk : k < n) :
    Stage n edge (k + 1) (relaxAll n k tables) := by
  have below : ∀ {pair : ℕ × ℕ}, pair ∈ List.range n ×ˢ List.range n → pair.1 < n ∧ pair.2 < n := by
    intro pair mem
    obtain ⟨h1, h2⟩ := List.mem_product.mp mem
    exact ⟨List.mem_range.mp h1, List.mem_range.mp h2⟩
  obtain ⟨stage, done, -⟩ := foldl_done (Stage n edge k)
    (fun tables (pair : ℕ × ℕ) ↦ pair.1 ≠ pair.2 → Covers edge (k + 1) tables pair.1 pair.2)
    (List.range n ×ˢ List.range n)
    (fun tables pair mem stage ↦ stage.relax (below mem).1 (below mem).2 hk)
    (fun tables pair mem stage ↦
      stage.sound.covers_succ (below mem).1 (below mem).2 hk stage.covers)
    (fun tables pair mem other stage past differ ↦
      stage.sound.covers_relax (below mem).1 (below mem).2 hk (past differ)) h
  rw [relaxAll_eq]
  refine ⟨stage.sound, fun i hi j hj differ ↦ ?_⟩
  exact done (i, j) (List.mem_product.mpr ⟨List.mem_range.mpr hi, List.mem_range.mpr hj⟩) differ

/-- All stages: no walk at all is shorter than the distance. -/
theorem Stage.close (h : Stage n edge 0 tables) {bound : ℕ} (le : bound ≤ n) :
    Stage n edge bound ((List.range bound).foldl (fun tables k ↦ relaxAll n k tables) tables) := by
  induction bound with
  | zero => exact h
  | succ bound ih =>
    rw [List.range_succ, List.foldl_append]
    exact (ih (by omega)).succ le

end Routes

section Start

variable {n i : ℕ} {edge : ℕ → ℕ → Prop} {tables : HopTables}

/-- The diagonal of the first rows. -/
def diagonalUpTo (n m : ℕ) : HopTables :=
  (List.range m).foldl (fun tables index ↦ tables.record index index 0 (some index))
    ⟨List.replicate n (List.replicate n none), List.replicate n (List.replicate n none)⟩

theorem diagonalUpTo_cells {m : ℕ} (le : m ≤ n) : Square n (diagonalUpTo n m).distances ∧
    Square n (diagonalUpTo n m).next ∧
    (∀ i < m, cell (diagonalUpTo n m).distances i i = some 0) ∧
    ∀ i j, i ≠ j → cell (diagonalUpTo n m).distances i j = none ∧
      cell (diagonalUpTo n m).next i j = none := by
  induction m with
  | zero =>
    exact ⟨square_replicate, square_replicate, (fun _ h ↦ absurd h (Nat.not_lt_zero _)),
      fun i j _ ↦ ⟨cell_replicate i j, cell_replicate i j⟩⟩
  | succ m ih =>
    obtain ⟨distances, next, diagonal, off⟩ := ih (by omega)
    have step : diagonalUpTo n (m + 1) = (diagonalUpTo n m).record m m 0 (some m) := by
      unfold diagonalUpTo
      rw [List.range_succ, List.foldl_append, List.foldl_cons, List.foldl_nil]
    have hm : m < n := by omega
    rw [step]
    refine ⟨square_setCell distances _, square_setCell next _, fun i hi ↦ ?_, fun i j differ ↦ ?_⟩
    · rw [record, cell_setCell distances hm hm]
      split
      · rfl
      · exact diagonal i (by omega)
    · rw [record, cell_setCell distances hm hm, cell_setCell next hm hm,
        if_neg fun both ↦ differ (both.1.trans both.2.symm),
        if_neg fun both ↦ differ (both.1.trans both.2.symm)]
      exact off i j differ

theorem sound_start : Sound n edge (start n) := by
  obtain ⟨distances, next, diagonal, off⟩ := diagonalUpTo_cells (le_refl n)
  refine ⟨distances, next, fun i hi ↦ ⟨0, Nat.zero_le _, diagonal i hi⟩,
    fun i j differ d found ↦ ?_, fun i j differ _ ↦ (off i j differ).2⟩
  have found : cell (diagonalUpTo n n).distances i j = some d := found
  rw [(off i j differ).1] at found
  cases found

/-- A self-loop replaces the zero on the diagonal, which nothing depends on. -/
theorem Sound.record_self (h : Sound n edge tables) (hi : i < n) :
    Sound n edge (tables.record i i 1 (some i)) := by
  have cells := cell_record h hi hi 1 (some i)
  have off : ∀ {a b : ℕ}, a ≠ b → ¬(a = i ∧ b = i) :=
    fun differ both ↦ differ (both.1.trans both.2.symm)
  refine ⟨square_setCell h.distances _, square_setCell h.next _, fun a ha ↦ ?_,
    fun a b differ d found ↦ ?_, fun a b differ found ↦ ?_⟩
  · rw [(cells a a).1]
    split
    · exact ⟨1, le_rfl, rfl⟩
    · exact h.diagonal a ha
  · rw [(cells a b).1, if_neg (off differ)] at found
    rw [(cells a b).2, if_neg (off differ)]
    exact h.walk a b differ d found
  · rw [(cells a b).1, if_neg (off differ)] at found
    rw [(cells a b).2, if_neg (off differ)]
    exact h.hop a b differ found

/-- The tables after the direct edges have been entered one by one. -/
theorem stage_direct (pairs : List (ℕ × ℕ)) (bounded : ∀ pair ∈ pairs, pair.1 < n ∧ pair.2 < n) :
    Stage n (fun i j ↦ (i, j) ∈ pairs) 0 (pairs.foldl (fun tables pair ↦
      tables.record pair.1 pair.2 1 (some pair.2)) (start n)) := by
  have keeps : ∀ tables, ∀ pair ∈ pairs, Sound n (fun i j ↦ (i, j) ∈ pairs) tables →
      Sound n (fun i j ↦ (i, j) ∈ pairs) (tables.record pair.1 pair.2 1 (some pair.2)) := by
    intro tables pair mem sound
    obtain ⟨hi, hj⟩ := bounded pair mem
    by_cases self : pair.1 = pair.2
    · rw [← self]
      exact sound.record_self hi
    · exact sound.record hi hj self mem (.nil _)
  have enters : ∀ tables, ∀ pair ∈ pairs, Sound n (fun i j ↦ (i, j) ∈ pairs) tables →
      ∀ other : ℕ × ℕ, other = pair ∨ cell tables.distances other.1 other.2 = some 1 →
      cell (tables.record pair.1 pair.2 1 (some pair.2)).distances other.1 other.2 = some 1 := by
    intro tables pair mem sound other h
    obtain ⟨hi, hj⟩ := bounded pair mem
    rw [(cell_record sound hi hj _ _ _ _).1]
    split
    · rfl
    · next elsewhere =>
      refine h.resolve_left fun same ↦ elsewhere ?_
      rw [same]
      exact ⟨rfl, rfl⟩
  obtain ⟨sound, done, -⟩ := foldl_done (Sound n fun i j ↦ (i, j) ∈ pairs)
    (fun tables (pair : ℕ × ℕ) ↦ cell tables.distances pair.1 pair.2 = some 1) pairs keeps
    (fun tables pair mem sound ↦ enters tables pair mem sound pair (.inl rfl))
    (fun tables pair mem other sound past ↦ enters tables pair mem sound other (.inr past))
    sound_start
  refine ⟨sound, fun i hi j hj differ m walk ↦ ?_⟩
  cases walk with
  | edge direct => exact ⟨1, le_rfl, done (i, j) direct⟩
  | cons _ inner _ => exact absurd inner (Nat.not_lt_zero _)

/-- The finished tables. -/
def closed (n : ℕ) (pairs : List (ℕ × ℕ)) : HopTables :=
  (List.range n).foldl (fun tables k ↦ relaxAll n k tables) (pairs.foldl (fun tables pair ↦
    tables.record pair.1 pair.2 1 (some pair.2)) (start n))

variable {pairs : List (ℕ × ℕ)} (bounded : ∀ pair ∈ pairs, pair.1 < n ∧ pair.2 < n) {j : ℕ}
  (hi : i < n) (hj : j < n) (differ : i ≠ j)

include bounded

theorem stage_closed : Stage n (fun i j ↦ (i, j) ∈ pairs) n (closed n pairs) :=
  (stage_direct pairs bounded).close (le_refl n)

include hi hj differ

theorem closed_covers {m : ℕ} (walk : Walk (fun i j ↦ (i, j) ∈ pairs) m i j) :
    ∃ d ≤ m, cell (closed n pairs).distances i j = some d := by
  cases m with
  | zero => exact absurd walk.eq_of_zero differ
  | succ m =>
    exact (stage_closed bounded).covers i hi j hj differ _
      (walk.through fun edge ↦ (bounded _ edge).2)

/-- Every hop begins a shortest walk. -/
theorem closed_hop {hop : ℕ} (found : cell (closed n pairs).next i j = some hop) :
    (i, hop) ∈ pairs ∧ ∃ m, Walk (fun i j ↦ (i, j) ∈ pairs) m hop j ∧
      IsDistance (fun i j ↦ (i, j) ∈ pairs) i j (m + 1) := by
  have sound := (stage_closed bounded).sound
  cases distance : cell (closed n pairs).distances i j with
  | none =>
    rw [sound.hop i j differ distance] at found
    cases found
  | some d =>
    obtain ⟨hop', m, rfl, found', edge, rest⟩ := sound.walk i j differ d distance
    cases found.symm.trans found'
    refine ⟨edge, m, rest, .cons edge rest, fun m' walk ↦ ?_⟩
    obtain ⟨d, small, found''⟩ := closed_covers bounded hi hj differ walk
    cases distance.symm.trans found''
    exact small

theorem closed_reachable {m : ℕ} (walk : Walk (fun i j ↦ (i, j) ∈ pairs) m i j) :
    ∃ hop, cell (closed n pairs).next i j = some hop := by
  have sound := (stage_closed bounded).sound
  obtain ⟨d, -, distance⟩ := closed_covers bounded hi hj differ walk
  obtain ⟨hop, m, -, found, -, -⟩ := sound.walk i j differ d distance
  exact ⟨hop, found⟩

end Start

end HopTables

section Table

open HopTables

variable {states : List State} {transitions : List Transition} {a b : State}

/-- A declared transition. -/
def Declared (transitions : List Transition) (a b : State) : Prop := ⟨a, b⟩ ∈ transitions

def positions (states : List State) (transitions : List Transition) : List (ℕ × ℕ) :=
  transitions.map fun t ↦ (states.idxOf t.source, states.idxOf t.target)

theorem find?_zipIdx (states : List State) (a : State) (start : ℕ) :
    ((states.zipIdx start).find? fun item ↦ item.1 = a) =
      if a ∈ states then some (a, states.idxOf a + start) else none := by
  induction states generalizing start with
  | nil => rfl
  | cons first states ih =>
    rw [List.zipIdx_cons, List.find?_cons]
    by_cases same : first = a
    · subst same
      rw [decide_eq_true rfl, if_pos List.mem_cons_self, List.idxOf_cons_self, Nat.zero_add]
    · rw [decide_eq_false same, ih, List.idxOf_cons_ne states same]
      by_cases mem : a ∈ states
      · rw [if_pos mem, if_pos (List.mem_cons_of_mem _ mem)]
        exact congrArg (fun position ↦ some (a, position)) (by omega)
      · rw [if_neg mem, if_neg fun h ↦ mem ((List.mem_cons.mp h).resolve_left (Ne.symm same))]

theorem nodup_zipIdx (nodup : states.Nodup) : (states.zipIdx.map Prod.fst).Nodup := by
  rw [List.zipIdx_map_fst]
  exact nodup

/-- The table, read off the finished positions. -/
theorem buildTransitionTable_eq (nodup : states.Nodup) :
    (buildTransitionTable states transitions)[a]?.bind (·[b]?) =
      if a ∈ states ∧ b ∈ states ∧ a ≠ b then
        (cell (closed states.length (positions states transitions)).next (states.idxOf a)
          (states.idxOf b)).bind (states[·]?)
      else none := by
  have tables : (List.range states.length).foldl (fun tables intermediate ↦
      (List.range states.length).foldl (fun tables source ↦
        (List.range states.length).foldl (fun tables target ↦
          tables.relax intermediate source target) tables) tables)
      (transitions.foldl (fun tables transition ↦ tables.record (states.idxOf transition.source)
        (states.idxOf transition.target) 1 (some (states.idxOf transition.target)))
        (HopTables.start states.length)) =
      closed states.length (positions states transitions) := by
    unfold closed positions
    rw [List.foldl_map]
    rfl
  unfold buildTransitionTable
  dsimp only
  rw [tables]
  generalize closed states.length (positions states transitions) = closed
  have row : ∀ source, (states.zipIdx.foldl (fun (targets : BTreeMap State State) item ↦
      if source = item.2 then targets
      else ((HopTables.cell closed.next source item.2).bind (states[·]?)).elim targets
        fun hop ↦ targets.insert item.1 hop) ∅)[b]? = if b ∈ states ∧ source ≠ states.idxOf b then
          (cell closed.next source (states.idxOf b)).bind (states[·]?) else none := by
    intro source
    have found := OrderedMap.getElem?_foldl_insert Prod.fst (fun item ↦ if source = item.2 then none
      else (HopTables.cell closed.next source item.2).bind (states[·]?)) (nodup_zipIdx nodup)
      (∅ : BTreeMap State State) b
    rw [find?_zipIdx, Std.ExtTreeMap.getElem?_empty, Option.or_none, Nat.add_zero] at found
    refine (congrArg (·[b]?) (congrArg (fun f ↦ List.foldl f ∅ states.zipIdx) ?_)).trans
      (found.trans ?_)
    · funext targets item
      by_cases self : source = item.2
      · rw [if_pos self, if_pos self]
      · rw [if_neg self, if_neg self]
        cases (cell closed.next source item.2).bind (states[·]?) <;> rfl
    · by_cases mem : b ∈ states
      · rw [if_pos mem, Option.bind_some]
        by_cases self : source = states.idxOf b
        · rw [if_pos self, if_neg fun h ↦ h.2 self]
        · rw [if_neg self, if_pos ⟨mem, self⟩]
      · rw [if_neg mem, if_neg fun h ↦ mem h.1]
        rfl
  rw [OrderedMap.getElem?_foldl_insert_some Prod.fst _ (nodup_zipIdx nodup), find?_zipIdx,
    Std.ExtTreeMap.getElem?_empty, Option.or_none, Nat.add_zero]
  by_cases mem : a ∈ states
  · rw [if_pos mem, Option.map_some, Option.bind_some]
    refine (congrArg (·[b]?) (congrArg (fun f ↦ List.foldl f ∅ states.zipIdx) ?_)).trans
      ((row (states.idxOf a)).trans (if_congr ?_ rfl rfl))
    · funext targets item
      cases (cell closed.next (states.idxOf a) item.2).bind (states[·]?) <;> rfl
    have same : b ∈ states → (states.idxOf a = states.idxOf b ↔ a = b) := fun _ ↦
      List.idxOf_inj mem
    constructor
    · rintro ⟨hb, differ⟩
      exact ⟨mem, hb, fun eq ↦ differ ((same hb).mpr eq)⟩
    · rintro ⟨-, hb, differ⟩
      exact ⟨hb, fun eq ↦ differ ((same hb).mp eq)⟩
  · rw [if_neg mem, if_neg fun h ↦ mem h.1]
    rfl

theorem positions_walk {n : ℕ} (walk : Walk (Declared transitions) n a b) :
    Walk (fun i j ↦ (i, j) ∈ positions states transitions) n (states.idxOf a)
      (states.idxOf b) := by
  have step : ∀ (a b : State) (i : ℕ), i = states.idxOf a → Declared transitions a b →
      ∃ j, j = states.idxOf b ∧ (i, j) ∈ positions states transitions := by
    rintro a b _ rfl edge
    exact ⟨_, rfl, List.mem_map_of_mem edge⟩
  obtain ⟨_, rfl, walk⟩ := walk.transfer (fun a i ↦ i = states.idxOf a) step rfl
  exact walk

variable (declared : ∀ t ∈ transitions, t.source ∈ states ∧ t.target ∈ states)

include declared

theorem positions_bounded : ∀ pair ∈ positions states transitions,
    pair.1 < states.length ∧ pair.2 < states.length := by
  intro pair mem
  obtain ⟨t, ht, rfl⟩ := List.mem_map.mp mem
  obtain ⟨hsource, htarget⟩ := declared t ht
  exact ⟨List.idxOf_lt_length_iff.mpr hsource, List.idxOf_lt_length_iff.mpr htarget⟩

theorem positions_edge {i j : ℕ} (hi : states[i]? = some a)
    (edge : (i, j) ∈ positions states transitions) :
    ∃ c, states[j]? = some c ∧ Declared transitions a c := by
  obtain ⟨t, ht, same⟩ := List.mem_map.mp edge
  cases same
  obtain ⟨hsource, htarget⟩ := declared t ht
  rw [List.getElem?_idxOf hsource] at hi
  cases hi
  exact ⟨t.target, List.getElem?_idxOf htarget, ht⟩

theorem declared_walk {n i j : ℕ} (hi : states[i]? = some a) (hj : states[j]? = some b)
    (walk : Walk (fun i j ↦ (i, j) ∈ positions states transitions) n i j) :
    Walk (Declared transitions) n a b := by
  obtain ⟨c, hc, walk⟩ := walk.transfer (fun i a ↦ states[i]? = some a)
    (fun _ _ _ hi edge ↦ positions_edge declared hi edge) hi
  cases hj.symm.trans hc
  exact walk

theorem declared_of_walk {n : ℕ} (differ : a ≠ b) (walk : Walk (Declared transitions) n a b) :
    a ∈ states ∧ b ∈ states := by
  have last : ∀ {n : ℕ} {a c : State}, Walk (Declared transitions) n a c → a ∈ states →
      c ∈ states := by
    intro n a c walk
    induction walk with
    | nil => exact fun mem ↦ mem
    | cons edge _ ih => exact fun _ ↦ ih (declared _ edge).2
  cases walk with
  | nil => exact absurd rfl differ
  | cons edge rest => exact ⟨(declared _ edge).1, last rest (declared _ edge).2⟩

variable (nodup : states.Nodup)

include nodup

/-- A next hop is a declared transition that leads one step closer. -/
theorem hop_spec {hop : State}
    (found : (buildTransitionTable states transitions)[a]?.bind (·[b]?) = some hop) :
    a ∈ states ∧ b ∈ states ∧ a ≠ b ∧ Declared transitions a hop ∧
      ∃ d, IsDistance (Declared transitions) a b (d + 1) ∧
        IsDistance (Declared transitions) hop b d := by
  rw [buildTransitionTable_eq nodup] at found
  split at found
  · next known =>
    obtain ⟨ha, hb, differ⟩ := known
    obtain ⟨position, cell, hhop⟩ := Option.bind_eq_some_iff.mp found
    have hi := List.idxOf_lt_length_iff.mpr ha
    have hj := List.idxOf_lt_length_iff.mpr hb
    have apart : states.idxOf a ≠ states.idxOf b := fun same ↦ differ ((List.idxOf_inj ha).mp same)
    obtain ⟨edge, d, rest, shortest⟩ := closed_hop (positions_bounded declared) hi hj apart cell
    obtain ⟨c, hc, edge⟩ := positions_edge declared (List.getElem?_idxOf ha) edge
    cases hhop.symm.trans hc
    have rest := declared_walk declared hhop (List.getElem?_idxOf hb) rest
    have distance : IsDistance (Declared transitions) a b (d + 1) :=
      ⟨.cons edge rest, fun m walk ↦ shortest.2 m (positions_walk walk)⟩
    exact ⟨ha, hb, differ, edge, d, distance, distance.of_edge edge rest⟩
  · cases found

theorem hop_of_walk {n : ℕ} (differ : a ≠ b) (walk : Walk (Declared transitions) n a b) :
    ∃ hop, (buildTransitionTable states transitions)[a]?.bind (·[b]?) = some hop := by
  obtain ⟨ha, hb⟩ := declared_of_walk declared differ walk
  have apart : states.idxOf a ≠ states.idxOf b := fun same ↦ differ ((List.idxOf_inj ha).mp same)
  obtain ⟨position, cell⟩ := closed_reachable (positions_bounded declared)
    (List.idxOf_lt_length_iff.mpr ha) (List.idxOf_lt_length_iff.mpr hb) apart (positions_walk walk)
  obtain ⟨edge, -⟩ := closed_hop (positions_bounded declared)
    (List.idxOf_lt_length_iff.mpr ha) (List.idxOf_lt_length_iff.mpr hb) apart cell
  obtain ⟨hop, hhop, -⟩ := positions_edge declared (List.getElem?_idxOf ha) edge
  refine ⟨hop, ?_⟩
  rw [buildTransitionTable_eq nodup, if_pos ⟨ha, hb, differ⟩, cell]
  exact hhop

/-- Following the hops takes one step off the distance each time. -/
theorem follow_distance {d : ℕ} (distance : IsDistance (Declared transitions) a b d) {j : ℕ}
    (le : j ≤ d) : IsDistance (Declared transitions)
      ((fun s ↦ ((buildTransitionTable states transitions)[s]?.bind (·[b]?)).getD s)^[j] a) b
      (d - j) := by
  induction j with
  | zero => exact distance
  | succ j ih =>
    have here := ih (by omega)
    rw [Function.iterate_succ_apply']
    generalize (fun s ↦ ((buildTransitionTable states transitions)[s]?.bind (·[b]?)).getD s)^[j] a =
      current at here
    obtain ⟨m, hm⟩ : ∃ m, d - j = m + 1 := ⟨d - j - 1, by omega⟩
    rw [hm] at here
    have differ : current ≠ b := by
      rintro rfl
      have := here.2 0 (.nil _)
      omega
    obtain ⟨hop, found⟩ := hop_of_walk declared nodup differ here.1
    obtain ⟨-, -, -, -, m', before, after⟩ := hop_spec declared nodup found
    have same : m + 1 = m' + 1 := here.unique before
    rw [found, Option.getD_some, show d - (j + 1) = m' by omega]
    exact after

end Table

namespace StateModelBuilder

theorem checkStates_eq_ok {states : List (State × StateCardinality)} {seen : List State} :
    checkStates states seen = .ok () ↔
      (states.map Prod.fst).Nodup ∧ ∀ s ∈ states.map Prod.fst, s ∉ seen := by
  induction states generalizing seen with
  | nil => exact ⟨fun _ ↦ ⟨List.nodup_nil, (fun _ mem ↦ nomatch mem)⟩, fun _ ↦ rfl⟩
  | cons item states ih =>
    rw [checkStates, List.map_cons, List.nodup_cons, List.forall_mem_cons]
    split
    · next old => exact ⟨(fun h ↦ nomatch h), fun h ↦ absurd old h.2.1⟩
    · next new =>
      rw [ih]
      simp only [List.mem_cons, not_or]
      constructor
      · rintro ⟨nodup, fresh⟩
        exact ⟨⟨fun mem ↦ (fresh _ mem).1 rfl, nodup⟩, new, fun s mem ↦ (fresh s mem).2⟩
      · rintro ⟨⟨first, nodup⟩, -, fresh⟩
        exact ⟨nodup, fun s mem ↦ ⟨fun same ↦ first (same ▸ mem), fresh s mem⟩⟩

theorem checkTransitions_eq_ok {states : List State} {transitions seen : List Transition} :
    checkTransitions states transitions seen = .ok () ↔
      (∀ t ∈ transitions, t.source ∈ states ∧ t.target ∈ states) ∧ transitions.Nodup ∧
        ∀ t ∈ transitions, t ∉ seen := by
  induction transitions generalizing seen with
  | nil =>
    exact ⟨fun _ ↦ ⟨(fun _ mem ↦ nomatch mem), List.nodup_nil, (fun _ mem ↦ nomatch mem)⟩,
      fun _ ↦ rfl⟩
  | cons first transitions ih =>
    rw [checkTransitions, List.nodup_cons, List.forall_mem_cons, List.forall_mem_cons]
    split
    · next unknown => exact ⟨(fun h ↦ nomatch h), fun h ↦ absurd h.1.1.1 unknown⟩
    · split
      · next unknown => exact ⟨(fun h ↦ nomatch h), fun h ↦ absurd h.1.1.2 unknown⟩
      · split
        · next old => exact ⟨(fun h ↦ nomatch h), fun h ↦ absurd old h.2.2.1⟩
        · next source target new =>
          rw [ih]
          simp only [List.mem_cons, not_or]
          constructor
          · rintro ⟨declared, nodup, fresh⟩
            exact ⟨⟨⟨not_not.mp source, not_not.mp target⟩, declared⟩,
              ⟨fun mem ↦ (fresh _ mem).1 rfl, nodup⟩, new, fun t mem ↦ (fresh t mem).2⟩
          · rintro ⟨⟨-, declared⟩, ⟨absent, nodup⟩, -, fresh⟩
            exact ⟨declared, nodup, fun t mem ↦ ⟨fun same ↦ absent (same ▸ mem), fresh t mem⟩⟩

theorem checkPaths_eq_ok {next : BTreeMap State (BTreeMap State State)} {dropped : State}
    {states : List State} : checkPaths next dropped states = .ok () ↔
      ∀ s ∈ states, s ≠ dropped → ∃ hop, next[s]?.bind (·[dropped]?) = some hop := by
  induction states with
  | nil => exact ⟨fun _ ↦ (fun _ mem ↦ nomatch mem), fun _ ↦ rfl⟩
  | cons first states ih =>
    rw [checkPaths, List.forall_mem_cons]
    split
    · next stuck =>
      refine ⟨(fun h ↦ nomatch h), fun h ↦ ?_⟩
      obtain ⟨hop, found⟩ := h.1 stuck.1
      rw [stuck.2] at found
      cases found
    · next fine =>
      rw [ih]
      refine ⟨fun rest ↦ ⟨fun differ ↦ ?_, rest⟩, fun h ↦ h.2⟩
      exact Option.ne_none_iff_exists'.mp fun none ↦ fine ⟨differ, none⟩

theorem find?_dropped {states : List State} {dropped : State} :
    states.find? (·.asStr == "DROPPED") = some dropped ↔
      dropped = State.dropped ∧ State.dropped ∈ states := by
  have named : ∀ s : State, (s.asStr == "DROPPED") = true ↔ s = State.dropped := by
    intro s
    rw [beq_iff_eq]
    exact Name.asStr_inj (b := State.dropped)
  constructor
  · intro h
    have holds := List.find?_some h
    have same := (named _).mp holds
    exact ⟨same, same ▸ List.mem_of_find?_eq_some h⟩
  · rintro ⟨rfl, mem⟩
    cases found : states.find? (·.asStr == "DROPPED") with
    | none => exact absurd ((named _).mpr rfl) (List.find?_eq_none.mp found _ mem)
    | some s =>
      have holds := List.find?_some found
      rw [(named s).mp holds]

/-- What has to be said of a builder for its model to be published. -/
structure Valid (builder : StateModelBuilder) : Prop where
  name : builder.name ≠ ""
  nonempty : builder.states ≠ []
  nodup : (builder.states.map Prod.fst).Nodup
  initial : ∃ s, builder.initialState = some s ∧ s ∈ builder.states.map Prod.fst
  declared : ∀ t ∈ builder.transitions,
    t.source ∈ builder.states.map Prod.fst ∧ t.target ∈ builder.states.map Prod.fst
  distinct : builder.transitions.Nodup
  dropped : State.dropped ∈ builder.states.map Prod.fst
  paths : ∀ s ∈ builder.states.map Prod.fst, s ≠ State.dropped →
    ∃ n, Walk (Declared builder.transitions) n s State.dropped

/-- The model that a builder publishes. -/
structure Publishes (builder : StateModelBuilder) (model : StateModelDefinition) : Prop where
  initial : builder.initialState = some model.initialState
  states : model.statesByPriority = builder.states.map Prod.fst
  transitions : model.transitionsByPriority = builder.transitions
  cardinalities : model.cardinalities =
    builder.states.foldl (fun map (state, card) ↦ map.insert state card) ∅
  table : model.nextStates =
    buildTransitionTable (builder.states.map Prod.fst) builder.transitions

theorem build_eq_ok {builder : StateModelBuilder} {model : StateModelDefinition}
    (h : builder.build = .ok model) : builder.Valid ∧ builder.Publishes model := by
  unfold build at h
  by_cases name : builder.name = ""
  · rw [if_pos name] at h
    cases h
  by_cases nonempty : builder.states = []
  · rw [if_neg name, dif_pos nonempty] at h
    cases h
  rw [if_neg name, dif_neg nonempty] at h
  obtain ⟨⟨⟩, fresh, h⟩ := CheckedLoop.bind_eq_ok.mp h
  obtain ⟨nodup, -⟩ := checkStates_eq_ok.mp fresh
  cases found : builder.initialState with
  | none =>
    rw [found] at h
    cases h
  | some initial =>
  rw [found] at h
  by_cases known : initial ∉ builder.states.map Prod.fst
  · dsimp only at h
    rw [if_pos known] at h
    cases h
  dsimp only at h
  rw [if_neg known] at h
  obtain ⟨⟨⟩, checked, h⟩ := CheckedLoop.bind_eq_ok.mp h
  obtain ⟨declared, distinct, -⟩ := checkTransitions_eq_ok.mp checked
  split at h
  · next dropped named =>
    obtain ⟨rfl, mem⟩ := find?_dropped.mp named
    obtain ⟨⟨⟩, paths, h⟩ := CheckedLoop.bind_eq_ok.mp h
    cases h
    refine ⟨⟨name, nonempty, nodup, ⟨initial, found, not_not.mp known⟩, declared, distinct, mem,
      fun s hs differ ↦ ?_⟩, found, rfl, rfl, rfl, rfl⟩
    obtain ⟨hop, next⟩ := checkPaths_eq_ok.mp paths s hs differ
    obtain ⟨-, -, -, -, d, distance, -⟩ := hop_spec declared nodup next
    exact ⟨d + 1, distance.1⟩
  · cases h

theorem Publishes.declared {builder : StateModelBuilder} {model : StateModelDefinition}
    (h : builder.Publishes model) {state : State} {cardinality : StateCardinality}
    (found : model.cardinalityFor state = some cardinality) : state ∈ model.statesByPriority := by
  have writes : model.cardinalities[state]? = some cardinality := found
  rw [h.cardinalities] at writes
  rcases CheckedLoop.foldl_sound (fun map : BTreeMap State StateCardinality ↦ map[state]?)
    (fun (item : State × StateCardinality) _ ↦ item.1 = state)
    (fun map item value seen ↦ by
      rw [OrderedMap.getElem?_insert] at seen
      split at seen
      · next same => exact .inr same.symm
      · exact .inl seen) builder.states writes with start | ⟨item, mem, same⟩
  · simp at start
  · rw [h.states, ← same]
    exact List.mem_map_of_mem mem

theorem build_isOk {builder : StateModelBuilder} (h : builder.Valid) :
    ∃ model, builder.build = .ok model := by
  obtain ⟨initial, found, known⟩ := h.initial
  have states : checkStates builder.states [] = .ok () :=
    checkStates_eq_ok.mpr ⟨h.nodup, fun _ _ ↦ List.not_mem_nil⟩
  have transitions : checkTransitions (builder.states.map Prod.fst) builder.transitions [] = .ok () :=
    checkTransitions_eq_ok.mpr ⟨h.declared, h.distinct, fun _ _ ↦ List.not_mem_nil⟩
  have paths : checkPaths (buildTransitionTable (builder.states.map Prod.fst) builder.transitions)
      State.dropped (builder.states.map Prod.fst) = .ok () := by
    refine checkPaths_eq_ok.mpr fun s hs differ ↦ ?_
    obtain ⟨n, walk⟩ := h.paths s hs differ
    exact hop_of_walk h.declared h.nodup differ walk
  unfold build
  rw [if_neg h.name, dif_neg h.nonempty, states, found]
  simp only [CheckedLoop.ok_bind, known, not_true, if_false, transitions,
    find?_dropped.mpr ⟨rfl, h.dropped⟩, paths]
  exact ⟨_, rfl⟩

end StateModelBuilder

theorem stateModel_shortest (builder : StateModelBuilder) :
    ((∃ model, builder.build = .ok model) ↔ builder.Valid) ∧
    ∀ model, builder.build = .ok model → ∀ a b,
      ((model.nextStateToward a b).isSome ↔
        a ∈ builder.states.map Prod.fst ∧ b ∈ builder.states.map Prod.fst ∧ a ≠ b ∧
          ∃ n, Walk (Declared builder.transitions) n a b) ∧
      (∀ hop, model.nextStateToward a b = some hop → Declared builder.transitions a hop ∧
        ∃ d, IsDistance (Declared builder.transitions) a b (d + 1) ∧
          IsDistance (Declared builder.transitions) hop b d) ∧
      ∀ d, IsDistance (Declared builder.transitions) a b d →
        (fun s ↦ (model.nextStateToward s b).getD s)^[d] a = b ∧
          ∀ j < d, (fun s ↦ (model.nextStateToward s b).getD s)^[j] a ≠ b := by
  refine ⟨⟨fun ⟨model, h⟩ ↦ (StateModelBuilder.build_eq_ok h).1, StateModelBuilder.build_isOk⟩,
    fun model h a b ↦ ?_⟩
  obtain ⟨valid, published⟩ := StateModelBuilder.build_eq_ok h
  unfold StateModelDefinition.nextStateToward
  rw [published.table]
  refine ⟨?_, fun hop found ↦ ?_, fun d distance ↦ ⟨?_, fun j lt arrived ↦ ?_⟩⟩
  · rw [Option.isSome_iff_exists]
    constructor
    · rintro ⟨hop, found⟩
      obtain ⟨ha, hb, differ, -, d, distance, -⟩ := hop_spec valid.declared valid.nodup found
      exact ⟨ha, hb, differ, d + 1, distance.1⟩
    · rintro ⟨-, -, differ, n, walk⟩
      exact hop_of_walk valid.declared valid.nodup differ walk
  · obtain ⟨-, -, -, edge, d, distance, closer⟩ := hop_spec valid.declared valid.nodup found
    exact ⟨edge, d, distance, closer⟩
  · have last := follow_distance valid.declared valid.nodup distance le_rfl
    rw [Nat.sub_self] at last
    exact last.1.eq_of_zero
  · have before := follow_distance valid.declared valid.nodup distance lt.le
    rw [arrived] at before
    have stay := before.2 0 (.nil b)
    omega

end Clustodian
