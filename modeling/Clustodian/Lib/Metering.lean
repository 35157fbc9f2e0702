import Mathlib

/-! Cells of limited capacity, and logs of decisions that charge them. -/

namespace Metering

section Log

variable {Item Entry : Type}

/-- Decide the items one after the other, each in view of the decisions before it. -/
def record (decide : List Entry → Item → Entry) (log : List Entry) (items : List Item) :
    List Entry := items.foldl (fun log item ↦ log ++ [decide log item]) log

theorem record_append (decide : List Entry → Item → Entry) (log : List Entry)
    (first second : List Item) : record decide log (first ++ second) =
      record decide (record decide log first) second := List.foldl_append

/-- What holds of every decision at the moment it is taken. -/
theorem record_induction {decide : List Entry → Item → Entry} (keeps : List Entry → Entry → Prop)
    (items : List Item) (each : ∀ log, ∀ item ∈ items, keeps log (decide log item)) :
    ∀ before entry after, record decide [] items = before ++ entry :: after →
      keeps before entry := by
  induction items using List.reverseRecOn with
  | nil =>
    intro before entry after split
    have empty : [] = before ++ entry :: after := split
    simp at empty
  | append_singleton items item ih =>
    intro before entry after split
    rw [record_append] at split
    have last : record decide [] items ++ [decide (record decide [] items) item] =
      before ++ entry :: after := split
    rcases List.eq_nil_or_concat after with rfl | ⟨after, final, rfl⟩
    · obtain ⟨rfl, same⟩ := List.append_inj' last rfl
      cases same
      exact each _ item (by simp)
    · rw [List.concat_eq_append, ← List.cons_append, ← List.append_assoc] at last
      exact ih (fun log x mem ↦ each log x (List.mem_append_left _ mem)) before entry after
        (List.append_inj' last rfl).1

theorem map_record {Key : Type} {decide : List Entry → Item → Entry} (key : Entry → Key)
    (of : Item → Key) (same : ∀ log item, key (decide log item) = of item) (items : List Item)
    (log : List Entry) : (record decide log items).map key = log.map key ++ items.map of := by
  induction items generalizing log with
  | nil => exact (List.append_nil _).symm
  | cons item items ih =>
    have step : record decide log (item :: items) = record decide (log ++ [decide log item]) items :=
      rfl
    rw [step, ih, List.map_append, List.append_assoc, List.map_cons, List.map_nil, same]
    rfl

end Log

section Cells

variable {Entry Cell : Type} [DecidableEq Cell] (charges : Entry → List Cell)
  (capacity : Cell → Option ℕ)

/-- How often a log charges a cell. -/
def used (log : List Entry) (cell : Cell) : ℕ := log.countP fun entry ↦ cell ∈ charges entry

/-- What a limited cell has left, never less than nothing. -/
def left (log : List Entry) (cell : Cell) : Option ℕ := (capacity cell).map (· - used charges log cell)

theorem used_append (first second : List Entry) (cell : Cell) :
    used charges (first ++ second) cell = used charges first cell + used charges second cell :=
  List.countP_append

theorem used_singleton (entry : Entry) (cell : Cell) :
    used charges [entry] cell = if cell ∈ charges entry then 1 else 0 := by
  simp [used, List.countP_cons]

theorem left_nil : left charges capacity [] = capacity := by
  funext cell
  cases found : capacity cell <;> simp [left, found, used]

/-- Charging in two rounds is charging at once. -/
theorem left_left (first second : List Entry) :
    left charges (left charges capacity first) second = left charges capacity (first ++ second) := by
  funext cell
  unfold left
  rw [used_append]
  cases capacity cell with
  | none => rfl
  | some q => exact congrArg some (Nat.sub_sub _ _ _)

theorem left_snoc (log : List Entry) (entry : Entry) (cell : Cell) :
    left charges capacity (log ++ [entry]) cell =
      if cell ∈ charges entry then (left charges capacity log cell).map (· - 1)
      else left charges capacity log cell := by
  unfold left
  rw [used_append, used_singleton]
  cases capacity cell with
  | none => simp
  | some q => split <;> simp [Nat.sub_sub]

theorem left_perm {first second : List Entry} (same : first.Perm second) (cell : Cell) :
    left charges capacity first cell = left charges capacity second cell := by
  rw [left, left, used, used, same.countP_eq]

/-- A loop that takes one from each cell an entry charges leaves what `left` says. -/
theorem left_foldl {State : Type} (view : State → Cell → Option ℕ) {step : State → Entry → State}
    {items : List Entry} (steps : ∀ state, ∀ entry ∈ items, ∀ cell, view (step state entry) cell =
      if cell ∈ charges entry then (view state cell).map (· - 1) else view state cell)
    (state : State) : view (items.foldl step state) = left charges (view state) items := by
  funext cell
  induction items using List.reverseRecOn with
  | nil => exact (congrFun (left_nil charges (view state)) cell).symm
  | append_singleton items entry ih =>
    rw [List.foldl_append, List.foldl_cons, List.foldl_nil, steps _ entry (by simp), left_snoc,
      ih fun s e mem ↦ steps s e (List.mem_append_left _ mem)]

/-- An exhausted cell stays so. -/
theorem left_append_eq_zero {before : List Entry} {cell : Cell}
    (exhausted : left charges capacity before cell = some 0) (after : List Entry) :
    left charges capacity (before ++ after) cell = some 0 := by
  obtain ⟨q, limited, full⟩ := Option.map_eq_some_iff.mp exhausted
  have spent : q - used charges before cell = 0 := full
  have none_left : q - (used charges before cell + used charges after cell) = 0 := by omega
  rw [left, limited, used_append]
  exact congrArg some none_left

/-- When every decision finds room in the cells that it charges, no cell is overdrawn. -/
theorem used_le {log : List Entry} (room : ∀ before entry after, log = before ++ entry :: after →
      ∀ cell ∈ charges entry, left charges capacity before cell ≠ some 0)
    {cell : Cell} {q : ℕ} (limited : capacity cell = some q) : used charges log cell ≤ q := by
  induction log using List.reverseRecOn with
  | nil => exact Nat.zero_le _
  | append_singleton log entry ih =>
    have earlier := ih fun before e after split ↦
      room before e (after ++ [entry]) (by rw [split, List.append_assoc, List.cons_append])
    rw [used_append, used_singleton]
    split
    · next mem =>
      have fits := room log entry [] rfl cell mem
      rw [left, limited, Option.map_some, ne_eq, Option.some_inj] at fits
      omega
    · exact earlier

end Cells

end Metering
