import Clustodian.Lib.Draws
import Clustodian.Lib.Greedy
import Clustodian.Planner.Crush

namespace Clustodian

/-- A run gives a value with the property, or it needs more fuel. -/
def Ensures {α : Type} (run : Except Halt α) (post : α → Prop) : Prop :=
  match run with
  | .ok value => post value
  | .error halt => halt = .outOfFuel

section Ensures

variable {α β : Type} {post : α → Prop} {post' : β → Prop}

@[simp] theorem ensures_ok {value : α} : Ensures (.ok value) post ↔ post value := Iff.rfl

theorem Ensures.mono {run : Except Halt α} {weaker : α → Prop} (h : Ensures run post)
    (imp : ∀ value, post value → weaker value) : Ensures run weaker := by
  cases run with
  | ok value => exact imp value h
  | error halt => exact h

theorem Ensures.bind {run : Except Halt α} {next : α → Except Halt β} (h : Ensures run post)
    (rest : ∀ value, post value → Ensures (next value) post') : Ensures (run >>= next) post' := by
  cases run with
  | ok value => exact rest value h
  | error halt => exact h

theorem Ensures.map {run : Except Halt α} {f : α → β} (h : Ensures run post)
    (image : ∀ value, post value → post' (f value)) : Ensures (run.map f) post' := by
  cases run with
  | ok value => exact image value h
  | error halt => exact h

theorem Ensures.of_eq_ok {run : Except Halt α} {value : α} (h : Ensures run post)
    (eq : run = .ok value) : post value := by
  rw [eq] at h
  exact h

theorem Ensures.not_panicked {run : Except Halt α} (h : Ensures run post) :
    run ≠ .error .panicked := by
  rintro rfl
  cases h

end Ensures

namespace TopologyTree

section Arena

variable (tree : TopologyTree)

theorem node_snoc (node : Node) (index : ℕ) :
    ({ tree with nodes := tree.nodes ++ [node] } : TopologyTree).node index =
      if index = tree.nodes.length then node else tree.node index := by
  unfold TopologyTree.node
  rw [List.getD_eq_getElem?_getD, List.getD_eq_getElem?_getD]
  split
  · next eq => simp [eq]
  · next ne =>
    rw [List.getElem?_append]
    split
    · rfl
    · rw [List.getElem?_eq_none (by simp; omega), List.getElem?_eq_none (by omega)]

theorem node_modify (f : Node → Node) {index : ℕ} (bound : index < tree.nodes.length) (other : ℕ) :
    (tree.modify index f).node other =
      if other = index then f (tree.node index) else tree.node other := by
  unfold node modify
  rw [List.getD_eq_getElem?_getD, List.getElem?_modify]
  by_cases same : index = other
  · subst same
    simp [List.getElem?_eq_getElem bound]
  · rw [if_neg (Ne.symm same), List.getD_eq_getElem?_getD]
    simp [same]

@[simp] theorem length_modify (f : Node → Node) (index : ℕ) :
    (tree.modify index f).nodes.length = tree.nodes.length := List.length_modify ..

end Arena

section Choose

variable {tree : TopologyTree} {parent : ℕ}

theorem perm_sortedChildren : (tree.sortedChildren parent).Perm (tree.node parent).children :=
  List.perm_insertionSort _ _

theorem perm_strawEntries (straws : List ℕ → List ℕ) :
    ((tree.strawEntries straws parent).map Prod.fst).Perm (tree.node parent).children := by
  refine ((List.perm_insertionSort _ _).map Prod.fst).trans ?_
  rw [List.map_map]
  have firsts : (tree.sortedChildren parent).zipIdx.map Prod.fst = tree.sortedChildren parent :=
    List.zipIdx_map_fst 0 _
  exact firsts.symm ▸ perm_sortedChildren

theorem strawEntries_ne_nil {straws : List ℕ → List ℕ} (inner : (tree.node parent).children ≠ []) :
    tree.strawEntries straws parent ≠ [] := by
  intro empty
  have perm := @perm_strawEntries tree parent straws
  rw [empty, List.map_nil] at perm
  exact inner perm.nil_eq.symm

/-- The child that is chosen is the first of the entries with the highest score. -/
theorem chooseChild_spec (straws : List ℕ → List ℕ) (input : BitVec 64) (round : ℕ)
    (inner : (tree.node parent).children ≠ []) :
    ∃ before best after, tree.strawEntries straws parent = before ++ best :: after ∧
      tree.chooseChild straws parent input round = .ok best.1 ∧
      (∀ entry ∈ before, tree.score entry input round < tree.score best input round) ∧
      ∀ entry ∈ after, tree.score entry input round ≤ tree.score best input round := by
  unfold chooseChild
  cases entries : tree.strawEntries straws parent with
  | nil => exact absurd entries (strawEntries_ne_nil inner)
  | cons first rest =>
    obtain ⟨before, best, after, split, chosen, lower, upper⟩ :=
      Greedy.foldl_best (fun entry ↦ tree.score entry input round) Prod.fst first rest
    exact ⟨before, best, after, split, congrArg Except.ok chosen, lower, upper⟩

theorem chooseChild_mem (straws : List ℕ → List ℕ) (input : BitVec 64) (round : ℕ)
    (inner : (tree.node parent).children ≠ []) :
    ∃ child ∈ (tree.node parent).children,
      tree.chooseChild straws parent input round = .ok child := by
  obtain ⟨before, best, after, split, chosen, _⟩ := chooseChild_spec straws input round inner
  refine ⟨best.1, ?_, chosen⟩
  refine (perm_strawEntries straws).mem_iff.mp (List.mem_map_of_mem ?_)
  rw [split]
  exact List.mem_append_right _ List.mem_cons_self

end Choose

end TopologyTree

end Clustodian
