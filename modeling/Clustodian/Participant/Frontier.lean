import Clustodian.Model.Snapshot

namespace Clustodian

/-- Message ids by the queue revision they were seen at, and those completed among them. -/
structure CompletionState where
  revisions : BTreeMap Revision (BTreeSet String)
  completed : BTreeSet String
  frontier : Option Revision

namespace CompletionState

def new : CompletionState := ⟨∅, ∅, none⟩

def observe (state : CompletionState) (revision : Revision) (messageIds : List String) :
    CompletionState :=
  let recorded := messageIds.foldl (fun recorded id ↦ recorded.insert id)
    ((state.revisions[revision]?).getD ∅)
  { state with revisions := state.revisions.insert revision recorded }

/-- Drop the completions that no recorded revision refers to any more. -/
def forget (revisions : BTreeMap Revision (BTreeSet String)) (completed : BTreeSet String)
    (messageIds : List String) : BTreeSet String :=
  messageIds.foldl (fun completed id ↦
    if revisions.toList.any fun item ↦ id ∈ item.2 then completed else completed.erase id) completed

/-- The loop of `complete`: take the first revision off while all of it is completed. The fuel is
the number of revisions. -/
def release : ℕ → BTreeMap Revision (BTreeSet String) → BTreeSet String → Option Revision →
    BTreeMap Revision (BTreeSet String) × BTreeSet String × Option Revision
  | 0, revisions, completed, frontier => (revisions, completed, frontier)
  | n + 1, revisions, completed, frontier => match revisions.toList.head? with
    | none => (revisions, completed, frontier)
    | some (revision, messageIds) =>
      if messageIds.toList.all (· ∈ completed) then
        release n (revisions.erase revision)
          (forget (revisions.erase revision) completed messageIds.toList) (some revision)
      else (revisions, completed, frontier)

def complete (state : CompletionState) (messageId : String) : CompletionState × Option Revision :=
  let released := release state.revisions.size state.revisions (state.completed.insert messageId)
    none
  (⟨released.1, released.2.1, released.2.2 <|> state.frontier⟩, released.2.2)

end CompletionState

/-- `CompletionFrontier::observe`, which ignores an empty list. -/
def observeFrontier (state : CompletionState) (revision : Revision) (messageIds : List String) :
    CompletionState :=
  if messageIds.isEmpty then state else state.observe revision messageIds

/-- Whether an id is recorded at some revision. -/
def Listed (revisions : BTreeMap Revision (BTreeSet String)) (id : String) : Prop :=
  ∃ (revision : Revision) (messageIds : BTreeSet String),
    revisions[revision]? = some messageIds ∧ id ∈ messageIds

namespace CompletionState

variable {revisions : BTreeMap Revision (BTreeSet String)} {completed : BTreeSet String}
  {state : CompletionState}

theorem getElem?_observe (revision : Revision) (messageIds : List String) (other : Revision) :
    (state.observe revision messageIds).revisions[other]? = if other = revision then
      some (messageIds.foldl (fun recorded id ↦ recorded.insert id)
        ((state.revisions[revision]?).getD ∅)) else state.revisions[other]? :=
  OrderedMap.getElem?_insert _ _ _ _

/-- What is recorded after an observation was recorded before or belongs to it. -/
theorem mem_observe {revision other : Revision} {messageIds : List String}
    {recorded : BTreeSet String} {id : String}
    (found : (state.observe revision messageIds).revisions[other]? = some recorded)
    (mem : id ∈ recorded) :
    (∃ before, state.revisions[other]? = some before ∧ id ∈ before) ∨
      (other = revision ∧ id ∈ messageIds) := by
  rw [getElem?_observe] at found
  split at found
  · next same =>
    cases found
    rcases (OrderedMap.mem_foldl_insert _ _ _).mp mem with new | old
    · exact .inr ⟨same, new⟩
    · cases before : state.revisions[revision]? with
      | none =>
        rw [before, Option.getD_none] at old
        exact absurd old Std.ExtTreeSet.not_mem_empty
      | some recorded =>
        rw [before, Option.getD_some] at old
        exact .inl ⟨recorded, same ▸ before, old⟩
  · exact .inl ⟨recorded, found, mem⟩

theorem observe_keeps (revision : Revision) (messageIds : List String) {other : Revision}
    {before : BTreeSet String} (found : state.revisions[other]? = some before) :
    ∃ after, (state.observe revision messageIds).revisions[other]? = some after ∧
      ∀ id ∈ before, id ∈ after := by
  rw [getElem?_observe]
  split
  · next same =>
    refine ⟨_, rfl, fun id mem ↦ (OrderedMap.mem_foldl_insert _ _ _).mpr (.inr ?_)⟩
    rw [← same, found]
    exact mem
  · exact ⟨before, found, fun _ mem ↦ mem⟩

theorem mem_forget {messageIds : List String} {id : String} :
    id ∈ forget revisions completed messageIds ↔
      id ∈ completed ∧ (id ∈ messageIds → Listed revisions id) := by
  have listed : ∀ id, (revisions.toList.any fun item ↦ id ∈ item.2) = true ↔
      Listed revisions id := by
    intro id
    simp only [List.any_eq_true, decide_eq_true_eq, Prod.exists, OrderedMap.mem_toList, Listed]
  unfold forget
  induction messageIds generalizing completed with
  | nil => simp
  | cons first rest ih =>
    rw [List.foldl_cons]
    refine ih.trans ?_
    split
    · next h =>
      have kept := (listed first).mp h
      constructor
      · rintro ⟨mem, later⟩
        refine ⟨mem, fun h ↦ ?_⟩
        rcases List.mem_cons.mp h with rfl | h
        · exact kept
        · exact later h
      · rintro ⟨mem, all⟩
        exact ⟨mem, fun h ↦ all (List.mem_cons_of_mem _ h)⟩
    · next h =>
      have gone : ¬Listed revisions first := fun l ↦ h ((listed first).mpr l)
      rw [Std.ExtTreeSet.mem_erase, ne_eq, compare_eq_iff_eq]
      constructor
      · rintro ⟨⟨differ, mem⟩, later⟩
        refine ⟨mem, fun h ↦ ?_⟩
        rcases List.mem_cons.mp h with rfl | h
        · exact absurd rfl differ
        · exact later h
      · rintro ⟨mem, all⟩
        refine ⟨⟨fun same ↦ gone ?_, mem⟩, fun h ↦ all (List.mem_cons_of_mem _ h)⟩
        exact same ▸ all (same ▸ List.mem_cons_self)

/-- What the loop does: it stops at the first revision with something left to complete. -/
structure Released (revisions : BTreeMap Revision (BTreeSet String)) (completed : BTreeSet String)
    (frontier : Option Revision)
    (result : BTreeMap Revision (BTreeSet String) × BTreeSet String × Option Revision) :
    Prop where
  kept : ∀ (revision : Revision) (ids : BTreeSet String), result.1[revision]? = some ids →
    revisions[revision]? = some ids
  taken : ∀ (revision : Revision) (ids : BTreeSet String), revisions[revision]? = some ids →
    result.1[revision]? = some ids ∨ ∀ id ∈ ids, id ∈ completed
  fewer : ∀ id ∈ result.2.1, id ∈ completed
  known : ∀ id ∈ completed, Listed result.1 id → id ∈ result.2.1
  stops : result.1 = ∅ ∨ ∃ id, Listed result.1 id ∧ id ∉ result.2.1
  reached : (result.1 = revisions ∧ result.2.2 = frontier) ∨
    ∃ newest, result.2.2 = some newest ∧ (∃ ids, revisions[newest]? = some ids) ∧
      ∀ (revision : Revision) (ids : BTreeSet String), result.1[revision]? = some ids →
        newest < revision

theorem released_of_stopped {frontier : Option Revision}
    (stops : revisions = ∅ ∨ ∃ id, Listed revisions id ∧ id ∉ completed) :
    Released revisions completed frontier (revisions, completed, frontier) where
  kept _ _ found := found
  taken _ _ found := .inl found
  fewer _ mem := mem
  known _ mem _ := mem
  stops := stops
  reached := .inl ⟨rfl, rfl⟩

theorem released_release (n : ℕ) (frontier : Option Revision) (enough : revisions.size ≤ n) :
    Released revisions completed frontier (release n revisions completed frontier) := by
  induction n generalizing revisions completed frontier with
  | zero =>
    refine released_of_stopped (.inl ?_)
    exact Std.ExtTreeMap.eq_empty_iff_size_eq_zero.mpr (Nat.le_zero.mp enough)
  | succ n ih =>
    unfold release
    split
    · next none => exact released_of_stopped (.inl (OrderedMap.eq_empty_of_head? none))
    · next revision ids head =>
      obtain ⟨found, least⟩ := OrderedMap.head?_toList head
      split
      · next done =>
        have finished : ∀ id ∈ ids, id ∈ completed := by
          intro id mem
          have all := List.all_eq_true.mp done id (Std.ExtTreeSet.mem_toList.mpr mem)
          simpa using all
        have erased : ∀ (other : Revision), (revisions.erase revision)[other]? =
            if other = revision then none else revisions[other]? :=
          fun other ↦ OrderedMap.getElem?_erase _ _ _
        have size : (revisions.erase revision).size ≤ n := by
          have present : revision ∈ revisions := (OrderedMap.mem_iff _ _).mpr ⟨ids, found⟩
          rw [Std.ExtTreeMap.size_erase, if_pos (Std.ExtTreeMap.contains_iff_mem.mpr present)]
          omega
        have rest : Released (revisions.erase revision) _ (some revision) _ :=
          @ih _ (forget (revisions.erase revision) completed ids.toList) (some revision) size
        have below : ∀ (other : Revision) (ids : BTreeSet String),
            (revisions.erase revision)[other]? = some ids → revision < other ∧
              revisions[other]? = some ids := by
          intro other ids found'
          rw [erased] at found'
          split at found'
          · cases found'
          · next differ => exact ⟨least other ids found' differ, found'⟩
        exact {
          kept := fun other ids found' ↦ (below other ids (rest.kept other ids found')).2
          taken := by
            intro other ids' found'
            by_cases same : other = revision
            · rw [same, found, Option.some.injEq] at found'
              exact .inr (found' ▸ finished)
            · refine (rest.taken other ids' ?_).imp_right fun all id mem ↦ ?_
              · rw [erased, if_neg same]
                exact found'
              · exact (mem_forget.mp (all id mem)).1
          fewer := fun id mem ↦ (mem_forget.mp (rest.fewer id mem)).1
          known := by
            intro id mem listed
            refine rest.known id (mem_forget.mpr ⟨mem, fun _ ↦ ?_⟩) listed
            obtain ⟨other, ids', found', mem'⟩ := listed
            exact ⟨other, ids', rest.kept other ids' found', mem'⟩
          stops := rest.stops
          reached := by
            refine .inr ?_
            rcases rest.reached with ⟨same, last⟩ | ⟨newest, last, ⟨ids', found'⟩, above⟩
            · refine ⟨revision, last, ⟨ids, found⟩, fun other ids' found' ↦ ?_⟩
              rw [same] at found'
              exact (below other ids' found').1
            · exact ⟨newest, last, ⟨ids', (below newest ids' found').2⟩, above⟩ }
      · next open_ =>
        refine released_of_stopped (.inr ?_)
        simp only [List.all_eq_true, not_forall, decide_eq_true_eq] at open_
        obtain ⟨id, mem, missing⟩ := open_
        exact ⟨id, ⟨revision, ids, found, Std.ExtTreeSet.mem_toList.mp mem⟩, missing⟩

theorem released_complete (state : CompletionState) (messageId : String) :
    Released state.revisions (state.completed.insert messageId) none
      ((state.complete messageId).1.revisions, (state.complete messageId).1.completed,
        (state.complete messageId).2) :=
  released_release _ _ le_rfl

end CompletionState

end Clustodian
