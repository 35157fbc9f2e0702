import Clustodian.Participant.Frontier

/-! The completion frontier over whole runs of observations and completions. -/

namespace Clustodian

namespace CompletionState

/-- A call on the frontier. -/
inductive Call
  | observe (revision : Revision) (messageIds : List String)
  | complete (messageId : String)

def apply (state : CompletionState) : Call → CompletionState
  | .observe revision messageIds => state.observe revision messageIds
  | .complete messageId => (state.complete messageId).1

def run (calls : List Call) : CompletionState := calls.foldl apply new

/-- Observations come with revisions that do not decrease. -/
def Ordered (calls : List Call) : Prop :=
  calls.Pairwise fun first second ↦ match first, second with
    | .observe earlier _, .observe later _ => earlier ≤ later
    | _, _ => True

section Release

variable {revisions : BTreeMap Revision (BTreeSet String)} {completed : BTreeSet String}

/-- The first revision that the loop leaves misses an id. -/
theorem release_least (n : ℕ) (frontier : Option Revision) (enough : revisions.size ≤ n) :
    (release n revisions completed frontier).1 = ∅ ∨
      ∃ (least : Revision) (ids : BTreeSet String),
        (release n revisions completed frontier).1[least]? = some ids ∧
        (∀ (other : Revision) (ids' : BTreeSet String),
          (release n revisions completed frontier).1[other]? = some ids' → least ≤ other) ∧
        ∃ id ∈ ids, id ∉ (release n revisions completed frontier).2.1 := by
  induction n generalizing revisions completed frontier with
  | zero => exact .inl (Std.ExtTreeMap.eq_empty_iff_size_eq_zero.mpr (Nat.le_zero.mp enough))
  | succ n ih =>
    unfold release
    split
    · next none => exact .inl (OrderedMap.eq_empty_of_head? none)
    · next revision ids head =>
      obtain ⟨found, least⟩ := OrderedMap.head?_toList head
      split
      · have present : revision ∈ revisions := (OrderedMap.mem_iff _ _).mpr ⟨ids, found⟩
        refine ih (some revision) ?_
        rw [Std.ExtTreeMap.size_erase, if_pos (Std.ExtTreeMap.contains_iff_mem.mpr present)]
        omega
      · next open_ =>
        simp only [List.all_eq_true, not_forall, decide_eq_true_eq] at open_
        obtain ⟨id, mem, missing⟩ := open_
        refine .inr ⟨revision, ids, found, fun other ids' found' ↦ ?_, id,
          Std.ExtTreeSet.mem_toList.mp mem, missing⟩
        by_cases same : other = revision
        · exact same.ge
        · exact (least other ids' found' same).le

/-- What the loop takes off is reported, or older than what is reported. -/
theorem release_reported (n : ℕ) (frontier : Option Revision) (enough : revisions.size ≤ n)
    {revision : Revision} {ids : BTreeSet String} (found : revisions[revision]? = some ids) :
    (release n revisions completed frontier).1[revision]? = some ids ∨
      ∃ newest, (release n revisions completed frontier).2.2 = some newest ∧
        revision ≤ newest := by
  induction n generalizing revisions completed frontier with
  | zero => exact .inl found
  | succ n ih =>
    unfold release
    split
    · exact .inl found
    · next first firstIds head =>
      obtain ⟨foundFirst, least⟩ := OrderedMap.head?_toList head
      split
      · have present : first ∈ revisions := (OrderedMap.mem_iff _ _).mpr ⟨firstIds, foundFirst⟩
        have size : (revisions.erase first).size ≤ n := by
          rw [Std.ExtTreeMap.size_erase, if_pos (Std.ExtTreeMap.contains_iff_mem.mpr present)]
          omega
        by_cases same : revision = first
        · have rest : Released (revisions.erase first) _ (some first) _ :=
            @released_release _ (forget (revisions.erase first) completed firstIds.toList) n
              (some first) size
          right
          rcases rest.reached with ⟨_, last⟩ | ⟨newest, last, ⟨later, recorded⟩, _⟩
          · exact ⟨first, last, same.le⟩
          · refine ⟨newest, last, ?_⟩
            rw [OrderedMap.getElem?_erase] at recorded
            split at recorded
            · cases recorded
            · next differ => exact same.le.trans (least newest later recorded differ).le
        · refine ih (some first) size ?_
          rw [OrderedMap.getElem?_erase, if_neg same]
          exact found
      · exact .inl found

/-- An id that no revision lists is not forgotten. -/
theorem release_unlisted (n : ℕ) (frontier : Option Revision) {id : String} (done : id ∈ completed)
    (unlisted : ¬ Listed revisions id) : id ∈ (release n revisions completed frontier).2.1 := by
  induction n generalizing revisions completed frontier with
  | zero => exact done
  | succ n ih =>
    unfold release
    split
    · exact done
    · next first ids head =>
      obtain ⟨found, _⟩ := OrderedMap.head?_toList head
      split
      · refine ih (some first) (mem_forget.mpr ⟨done, fun mem ↦ absurd ?_ unlisted⟩) ?_
        · exact ⟨first, ids, found, Std.ExtTreeSet.mem_toList.mp mem⟩
        · rintro ⟨other, ids', found', mem⟩
          rw [OrderedMap.getElem?_erase] at found'
          split at found'
          · cases found'
          · exact unlisted ⟨other, ids', found', mem⟩
      · exact done

end Release

section Complete

variable (state : CompletionState) (messageId : String)

/-- The recorded revisions up to which everything recorded is in a set of completed ids. -/
def covered (completed : BTreeSet String) : Set Revision :=
  {r | (∃ ids, state.revisions[r]? = some ids) ∧ ∀ (q : Revision) (ids : BTreeSet String),
    q ≤ r → state.revisions[q]? = some ids → ∀ id ∈ ids, id ∈ completed}

/-- A completion reports the greatest revision that it covers. -/
theorem complete_eq_some_iff (r : Revision) : (state.complete messageId).2 = some r ↔
    IsGreatest (state.covered (state.completed.insert messageId)) r := by
  have released := released_complete state messageId
  have least : (state.complete messageId).1.revisions = ∅ ∨ _ :=
    @release_least _ (state.completed.insert messageId) state.revisions.size none le_rfl
  have reported {q : Revision} {ids : BTreeSet String} (found : state.revisions[q]? = some ids) :
      (state.complete messageId).1.revisions[q]? = some ids ∨ _ :=
    @release_reported _ (state.completed.insert messageId) state.revisions.size none le_rfl _ _ found
  -- a covered revision is taken off, since the first one that is left misses an id
  have taken {q : Revision} (h : q ∈ state.covered (state.completed.insert messageId)) :
      ∃ newest, (state.complete messageId).2 = some newest ∧ q ≤ newest := by
    obtain ⟨⟨ids, found⟩, all⟩ := h
    rcases reported found with left | older
    · rcases least with empty | ⟨first, missed, kept, lowest, id, mem, missing⟩
      · rw [empty] at left
        simp at left
      · have done := all first missed (lowest q ids left) (released.kept first missed kept) id mem
        exact absurd (released.known id done ⟨first, missed, kept, mem⟩) missing
    · exact older
  constructor
  · intro result
    rcases released.reached with ⟨_, none⟩ | ⟨newest, last, recorded, above⟩
    · rw [result] at none
      cases none
    · obtain rfl : newest = r := Option.some.inj (last.symm.trans result)
      refine ⟨⟨recorded, fun q ids le found ↦ ?_⟩, fun q h ↦ ?_⟩
      · refine (released.taken q ids found).resolve_left fun left ↦ ?_
        exact absurd (above q ids left) (Nat.not_lt.mpr le)
      · obtain ⟨other, result', le⟩ := taken h
        exact le.trans_eq (Option.some.inj (result'.symm.trans last))
  · rintro ⟨covers, greatest⟩
    obtain ⟨newest, result, le⟩ := taken covers
    rcases released.reached with ⟨_, none⟩ | ⟨newest', last, recorded, above⟩
    · rw [result] at none
      cases none
    · obtain rfl : newest' = newest := Option.some.inj (last.symm.trans result)
      have covers' : newest' ∈ state.covered (state.completed.insert messageId) := by
        refine ⟨recorded, fun q ids le found ↦ ?_⟩
        refine (released.taken q ids found).resolve_left fun left ↦ ?_
        exact absurd (above q ids left) (Nat.not_lt.mpr le)
      rw [result, le_antisymm le (greatest covers')]

end Complete

section Runs

variable {calls : List Call}

/-- What has been observed and completed in a run. -/
def Observed (calls : List Call) (revision : Revision) (id : String) : Prop :=
  ∃ messageIds, .observe revision messageIds ∈ calls ∧ id ∈ messageIds

def Completed (calls : List Call) (id : String) : Prop := .complete id ∈ calls

theorem run_snoc (calls : List Call) (call : Call) : run (calls ++ [call]) = (run calls).apply call := by
  rw [run, List.foldl_append]
  rfl

theorem observed_snoc {call : Call} {revision : Revision} {id : String} :
    Observed (calls ++ [call]) revision id ↔
      Observed calls revision id ∨ ∃ messageIds, call = .observe revision messageIds ∧ id ∈ messageIds := by
  simp only [Observed, List.mem_append, List.mem_singleton]
  constructor
  · rintro ⟨messageIds, mem | same, listed⟩
    · exact .inl ⟨messageIds, mem, listed⟩
    · exact .inr ⟨messageIds, same.symm, listed⟩
  · rintro (⟨messageIds, mem, listed⟩ | ⟨messageIds, rfl, listed⟩)
    · exact ⟨messageIds, .inl mem, listed⟩
    · exact ⟨messageIds, .inr rfl, listed⟩

theorem completed_snoc {call : Call} {id : String} :
    Completed (calls ++ [call]) id ↔ Completed calls id ∨ call = .complete id := by
  simp only [Completed, List.mem_append, List.mem_singleton, eq_comm]

/-- What the state of a run says about the calls that led to it. -/
structure Explained (calls : List Call) (state : CompletionState) : Prop where
  recorded : ∀ (revision : Revision) (ids : BTreeSet String) (id : String),
    state.revisions[revision]? = some ids → id ∈ ids → Observed calls revision id
  entries : ∀ (revision : Revision) (ids : BTreeSet String),
    state.revisions[revision]? = some ids → ∃ messageIds, .observe revision messageIds ∈ calls
  completed : ∀ id ∈ state.completed, Completed calls id
  pending : ∀ revision id, Observed calls revision id → Completed calls id ∨
    ∃ ids, state.revisions[revision]? = some ids ∧ id ∈ ids
  waiting : ∀ id, Completed calls id → (∀ revision, ¬Observed calls revision id) →
    id ∈ state.completed

theorem Explained.observe {state : CompletionState} (h : Explained calls state)
    (revision : Revision) (messageIds : List String) :
    Explained (calls ++ [.observe revision messageIds]) (state.observe revision messageIds) where
  recorded other ids id found mem := by
    rw [observed_snoc]
    rcases mem_observe found mem with ⟨before, found', mem'⟩ | ⟨rfl, listed⟩
    · exact .inl (h.recorded other before id found' mem')
    · exact .inr ⟨messageIds, rfl, listed⟩
  entries other ids found := by
    rw [getElem?_observe] at found
    split at found
    · next same => exact ⟨messageIds, List.mem_append_right _ (by rw [same]; simp)⟩
    · obtain ⟨earlier, mem⟩ := h.entries other ids found
      exact ⟨earlier, List.mem_append_left _ mem⟩
  completed id mem := completed_snoc.mpr (.inl (h.completed id mem))
  pending other id observed := by
    rw [completed_snoc]
    rcases observed_snoc.mp observed with observed | ⟨messageIds', same, listed⟩
    · refine (h.pending other id observed).imp .inl ?_
      rintro ⟨ids, found, mem⟩
      obtain ⟨after, found', more⟩ := observe_keeps revision messageIds found
      exact ⟨after, found', more id mem⟩
    · cases same
      refine .inr ⟨_, (getElem?_observe _ _ _).trans (if_pos rfl), ?_⟩
      exact (OrderedMap.mem_foldl_insert _ _ _).mpr (.inl listed)
  waiting id done unseen := by
    refine h.waiting id ?_ fun other observed ↦ unseen other (observed_snoc.mpr (.inl observed))
    exact (completed_snoc.mp done).resolve_right (fun same ↦ (nomatch same))

theorem Explained.complete {state : CompletionState} (h : Explained calls state)
    (messageId : String) :
    Explained (calls ++ [.complete messageId]) (state.complete messageId).1 := by
  have released := released_complete state messageId
  have same (revision : Revision) (id : String) :
      Observed (calls ++ [.complete messageId]) revision id ↔ Observed calls revision id := by
    rw [observed_snoc]
    exact or_iff_left fun ⟨_, eq, _⟩ ↦ (nomatch eq)
  have done {id : String} (mem : id ∈ state.completed.insert messageId) :
      Completed (calls ++ [.complete messageId]) id := by
    rw [completed_snoc]
    rcases (OrderedMap.mem_insert _ _ _).mp mem with rfl | mem
    · exact .inr rfl
    · exact .inl (h.completed id mem)
  exact {
    recorded := fun revision ids id found mem ↦
      (same revision id).mpr (h.recorded revision ids id (released.kept revision ids found) mem)
    entries := fun revision ids found ↦ by
      obtain ⟨messageIds, mem⟩ := h.entries revision ids (released.kept revision ids found)
      exact ⟨messageIds, List.mem_append_left _ mem⟩
    completed := fun id mem ↦ done (released.fewer id mem)
    pending := fun revision id observed ↦ by
      rcases h.pending revision id ((same revision id).mp observed) with earlier | ⟨ids, found, mem⟩
      · exact .inl (completed_snoc.mpr (.inl earlier))
      · rcases released.taken revision ids found with left | all
        · exact .inr ⟨ids, left, mem⟩
        · exact .inl (done (all id mem))
    waiting := fun id finished unseen ↦ by
      have unlisted : ¬ Listed state.revisions id := by
        rintro ⟨revision, ids, found, mem⟩
        exact unseen revision ((same revision id).mpr (h.recorded revision ids id found mem))
      refine release_unlisted _ none ((OrderedMap.mem_insert _ _ _).mpr ?_) unlisted
      rcases completed_snoc.mp finished with earlier | now
      · exact .inr (h.waiting id earlier fun revision observed ↦
          unseen revision ((same revision id).mpr observed))
      · cases now
        exact .inl rfl }

theorem explained_run (calls : List Call) : Explained calls (run calls) := by
  induction calls using List.reverseRecOn with
  | nil =>
    exact {
      recorded := fun revision ids id found ↦ by simp [run, new] at found
      entries := fun revision ids found ↦ by simp [run, new] at found
      completed := fun id mem ↦ absurd mem Std.ExtTreeSet.not_mem_empty
      pending := fun revision id ⟨_, mem, _⟩ ↦ absurd mem List.not_mem_nil
      waiting := fun id done _ ↦ absurd done List.not_mem_nil }
  | append_singleton calls call ih =>
    rw [run_snoc]
    cases call with
    | observe revision messageIds => exact ih.observe revision messageIds
    | complete messageId => exact ih.complete messageId

/-- After its completion an id stays completed while it is listed, until it is observed again. -/
theorem listed_completed {id : String} (done : id ∈ (run calls).completed) (later : List Call)
    (unseen : ∀ revision, ¬Observed later revision id) :
    Listed (run (calls ++ later)).revisions id → id ∈ (run (calls ++ later)).completed := by
  induction later using List.reverseRecOn with
  | nil =>
    rw [List.append_nil]
    exact fun _ ↦ done
  | append_singleton later call ih =>
    have before := ih fun revision observed ↦ unseen revision (observed_snoc.mpr (.inl observed))
    rw [← List.append_assoc, run_snoc]
    intro listed
    cases call with
    | observe revision messageIds =>
      refine before ?_
      obtain ⟨other, ids, found, mem⟩ := listed
      rcases mem_observe found mem with ⟨earlier, found', mem'⟩ | ⟨_, own⟩
      · exact ⟨other, earlier, found', mem'⟩
      · exact absurd (observed_snoc.mpr (.inr ⟨messageIds, rfl, own⟩)) (unseen revision)
    | complete messageId =>
      have released := released_complete (run (calls ++ later)) messageId
      refine released.known id ((OrderedMap.mem_insert _ _ _).mpr (.inr (before ?_))) listed
      obtain ⟨other, ids, found, mem⟩ := listed
      exact ⟨other, ids, released.kept other ids found, mem⟩

/-- A revision is recorded from before, or observed since. -/
theorem recorded_since (between : List Call) {revision : Revision} {ids : BTreeSet String}
    (found : (run (calls ++ between)).revisions[revision]? = some ids) :
    (∃ before, (run calls).revisions[revision]? = some before) ∨
      ∃ messageIds, .observe revision messageIds ∈ between := by
  induction between using List.reverseRecOn generalizing ids with
  | nil =>
    rw [List.append_nil] at found
    exact .inl ⟨ids, found⟩
  | append_singleton between call ih =>
    have extend : (∃ messageIds, .observe revision messageIds ∈ between) →
        ∃ messageIds, .observe revision messageIds ∈ between ++ [call] :=
      fun ⟨messageIds, mem⟩ ↦ ⟨messageIds, List.mem_append_left _ mem⟩
    rw [← List.append_assoc, run_snoc] at found
    cases call with
    | observe other messageIds =>
      rw [apply, getElem?_observe] at found
      split at found
      · next same => exact .inr ⟨messageIds, by rw [same]; simp⟩
      · exact (ih found).imp_right extend
    | complete messageId =>
      have released := released_complete (run (calls ++ between)) messageId
      exact (ih (released.kept revision ids found)).imp_right extend

/-- After a report a later one is not older. -/
theorem report_le {earlier between : List Call} {messageId messageId' : String} {r r' : Revision}
    (ordered : Ordered (earlier ++ .complete messageId :: between))
    (report : ((run earlier).complete messageId).2 = some r)
    (report' : ((run (earlier ++ .complete messageId :: between)).complete messageId').2 =
      some r') : r ≤ r' := by
  have split : earlier ++ .complete messageId :: between =
      earlier ++ [.complete messageId] ++ between := by simp
  obtain ⟨⟨⟨ids, found⟩, _⟩, _⟩ := (complete_eq_some_iff _ _ r).mp report
  obtain ⟨⟨⟨ids', found'⟩, _⟩, _⟩ := (complete_eq_some_iff _ _ r').mp report'
  rw [split] at found'
  rcases recorded_since between found' with ⟨before, recorded⟩ | ⟨messageIds', mem'⟩
  · rw [run_snoc] at recorded
    rcases (released_complete (run earlier) messageId).reached with
      ⟨_, none⟩ | ⟨newest, last, _, above⟩
    · rw [report] at none
      cases none
    · obtain rfl : newest = r := Option.some.inj (last.symm.trans report)
      exact (above r' before recorded).le
  · obtain ⟨messageIds, mem⟩ := (explained_run earlier).entries r ids found
    exact (List.pairwise_append.mp ordered).2.2 _ mem _ (List.mem_cons_of_mem _ mem')

/-- The completion frontier over every run: what a completion reports, in terms of the calls
before it. -/
theorem frontier_runs (calls : List Call) (ordered : Ordered calls) :
    (∀ earlier messageId rest, calls = earlier ++ .complete messageId :: rest →
      -- everything observed up to a reported revision was completed
      (∀ r, ((run earlier).complete messageId).2 = some r → ∀ q ≤ r, ∀ id,
        Observed earlier q id → Completed (earlier ++ [.complete messageId]) id) ∧
      -- reports do not decrease
      (∀ r, ((run earlier).complete messageId).2 = some r → ∀ between messageId' rest',
        rest = between ++ .complete messageId' :: rest' → ∀ r',
          ((run (earlier ++ .complete messageId :: between)).complete messageId').2 = some r' →
          r ≤ r') ∧
      -- the report is the greatest covered revision
      (∀ r, ((run earlier).complete messageId).2 = some r ↔
        IsGreatest ((run earlier).covered ((run earlier).completed.insert messageId)) r) ∧
      -- and there is none while the least recorded revision misses an id
      (∀ (least : Revision) (ids : BTreeSet String), (run earlier).revisions[least]? = some ids →
        (∀ (q : Revision) (ids' : BTreeSet String), (run earlier).revisions[q]? = some ids' →
          least ≤ q) → (∃ id ∈ ids, id ∉ (run earlier).completed.insert messageId) →
        ((run earlier).complete messageId).2 = none)) ∧
    -- an id completed before it is first observed counts as completed for that observation
    ∀ earlier revision messageIds later id,
      calls = earlier ++ .observe revision messageIds :: later → id ∈ messageIds →
      Completed earlier id → (∀ q, ¬Observed earlier q id) → (∀ q, ¬Observed later q id) →
      Listed (run calls).revisions id → id ∈ (run calls).completed := by
  refine ⟨?_, ?_⟩
  · rintro earlier messageId rest rfl
    have explained := explained_run earlier
    refine ⟨fun r report q le id observed ↦ ?_, fun r report between messageId' rest' eq r' report' ↦ ?_,
      complete_eq_some_iff _ _, fun least ids found lowest missed ↦ ?_⟩
    · rcases explained.pending q id observed with done | ⟨ids, found, mem⟩
      · exact completed_snoc.mpr (.inl done)
      · have done := ((complete_eq_some_iff _ _ r).mp report).1.2 q ids le found id mem
        rw [completed_snoc]
        rcases (OrderedMap.mem_insert _ _ _).mp done with rfl | done
        · exact .inr rfl
        · exact .inl (explained.completed id done)
    · subst eq
      refine report_le (List.Pairwise.sublist ?_ ordered) report report'
      exact List.Sublist.append_left ((List.sublist_append_left _ _).cons_cons _) _
    · obtain ⟨id, mem, missing⟩ := missed
      refine Option.eq_none_iff_forall_ne_some.mpr fun r report ↦ missing ?_
      obtain ⟨⟨⟨ids', found'⟩, all⟩, _⟩ := (complete_eq_some_iff _ _ r).mp report
      exact all least ids (lowest r ids' found') found id mem
  · rintro earlier revision messageIds later id rfl mem done unseen unseenLater
    have waiting : id ∈ (run (earlier ++ [.observe revision messageIds])).completed := by
      rw [run_snoc]
      exact (explained_run earlier).waiting id done unseen
    have split : earlier ++ .observe revision messageIds :: later =
        earlier ++ [.observe revision messageIds] ++ later := by simp
    rw [split]
    exact listed_completed waiting later unseenLater

/-- Two observations that are completed out of order. -/
theorem frontier_runs_out_of_order :
    ((run [.observe 30 ["M1"], .observe 31 ["M3"], .complete "M3"]).complete "M1").2 = some 31 ∧
      ∀ q ≤ 31, ∀ id, Observed [.observe 30 ["M1"], .observe 31 ["M3"], .complete "M3"] q id →
        Completed [.observe 30 ["M1"], .observe 31 ["M3"], .complete "M3", .complete "M1"] id := by
  have report : ((run [.observe 30 ["M1"], .observe 31 ["M3"], .complete "M3"]).complete "M1").2 =
      some 31 := by decide +kernel
  refine ⟨report, ?_⟩
  have spec := frontier_runs
    [.observe 30 ["M1"], .observe 31 ["M3"], .complete "M3", .complete "M1"]
    (by simp [Ordered])
  exact (spec.1 [.observe 30 ["M1"], .observe 31 ["M3"], .complete "M3"] "M1" [] rfl).1 31 report

end Runs

end CompletionState

end Clustodian
