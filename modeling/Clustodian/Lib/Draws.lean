import Mathlib

/-! Seats filled by draws that are retried: rounds propose an item, items already given out are
skipped, and draws that lead nowhere are given up after a number of loop-backs. -/

variable {α : Type}

/-- The items that can be given out, and the item that each round proposes. -/
structure Urn (α : Type) where
  live : Set α
  pick : ℕ → α

namespace Urn

variable (urn : Urn α) (selected excluded : Set α)

/-- Every live item is given out or was turned down since the last loop-back. -/
def Exhausted (rejected : Set α) : Prop := urn.live ⊆ selected ∪ rejected

/-- A round after which the draw starts over: what it proposes was given out before and nothing
else is left, or it is not live. -/
def Setback (rejected : Set α) (round : ℕ) : Prop :=
  (urn.pick round ∈ selected ∪ excluded ∧
    urn.Exhausted selected (insert (urn.pick round) rejected)) ∨
  (urn.pick round ∉ selected ∪ excluded ∧ urn.pick round ∉ urn.live)

/-- One draw, from its next round, with the loop-backs it may still make; the last index lists
the rounds that it looks at. -/
inductive Draws : ℕ → Set α → ℕ → Option α → List ℕ → Prop
  | place {round : ℕ} {rejected : Set α} {left : ℕ} :
      urn.pick round ∉ selected ∪ excluded → urn.pick round ∈ urn.live →
      Draws round rejected left (some (urn.pick round)) [round]
  | escape {round : ℕ} {rejected : Set α} :
      urn.Setback selected excluded rejected round → Draws round rejected 0 none [round]
  | back {round : ℕ} {rejected : Set α} {left : ℕ} {found : Option α} {rounds : List ℕ} :
      urn.Setback selected excluded rejected round →
      Draws (round + 1) ∅ left found rounds →
      Draws round rejected (left + 1) found (round :: rounds)
  | again {round : ℕ} {rejected : Set α} {left : ℕ} {found : Option α} {rounds : List ℕ} :
      urn.pick round ∈ selected ∪ excluded →
      ¬ urn.Exhausted selected (insert (urn.pick round) rejected) →
      Draws (round + 1) (insert (urn.pick round) rejected) left found rounds →
      Draws round rejected left found (round :: rounds)

/-- Seats in turn: a draw that is given up leaves its seat empty. -/
inductive Selects (urn : Urn α) (excluded : Set α) (patience : ℕ) :
    List ℕ → List α → List α → List ℕ → Prop
  | done (selected : List α) : Selects urn excluded patience [] selected selected []
  | seat {seat : ℕ} {seats : List ℕ} {selected result : List α} {found : Option α}
      {rounds more : List ℕ} :
      urn.Draws {item | item ∈ selected} excluded seat ∅ patience found rounds →
      Selects urn excluded patience seats (selected ++ found.toList) result more →
      Selects urn excluded patience (seat :: seats) selected result (rounds ++ more)

variable {urn} {selected excluded rejected : Set α} {round left : ℕ} {found : Option α}
  {rounds : List ℕ}

section Draw

theorem Draws.mem {item : α} (h : urn.Draws selected excluded round rejected left (some item) rounds) :
    item ∈ urn.live ∧ item ∉ selected ∪ excluded ∧ item ∈ Set.range urn.pick := by
  generalize drawn : some item = found at h
  induction h with
  | place fresh live =>
    cases drawn
    exact ⟨live, fresh, Set.mem_range_self _⟩
  | escape _ => cases drawn
  | back _ _ ih => exact ih drawn
  | again _ _ _ ih => exact ih drawn

/-- A draw is given up only when a round proposed an item that is not live, or when the proposals
that were turned down leave nothing. -/
theorem Draws.of_none (h : urn.Draws selected excluded round rejected left none rounds)
    (turnedDown : rejected ⊆ (selected ∪ excluded) ∩ Set.range urn.pick) :
    (∃ n ∈ rounds, urn.pick n ∉ urn.live) ∨
      urn.live ⊆ selected ∪ ((selected ∪ excluded) ∩ Set.range urn.pick) := by
  generalize drawn : none = found at h
  induction h with
  | place _ _ => cases drawn
  | @escape round rejected setback =>
    rcases setback with ⟨taken, exhausted⟩ | ⟨_, dead⟩
    · right
      refine exhausted.trans (Set.union_subset_union_right _ ?_)
      exact Set.insert_subset ⟨taken, Set.mem_range_self _⟩ turnedDown
    · exact .inl ⟨round, List.mem_singleton_self _, dead⟩
  | back _ _ ih =>
    rcases ih (Set.empty_subset _) drawn with ⟨n, mem, dead⟩ | all
    · exact .inl ⟨n, List.mem_cons_of_mem _ mem, dead⟩
    · exact .inr all
  | again taken _ _ ih =>
    rcases ih (Set.insert_subset ⟨taken, Set.mem_range_self _⟩ turnedDown) drawn with
      ⟨n, mem, dead⟩ | all
    · exact .inl ⟨n, List.mem_cons_of_mem _ mem, dead⟩
    · exact .inr all

/-- Only the proposals of the rounds that were looked at decide a draw. -/
theorem Draws.congr {other : Urn α}
    (h : urn.Draws selected excluded round rejected left found rounds)
    (live : other.live = urn.live) (same : ∀ n ∈ rounds, other.pick n = urn.pick n) :
    other.Draws selected excluded round rejected left found rounds := by
  have setback {n : ℕ} {rejected : Set α} (eq : other.pick n = urn.pick n)
      (s : urn.Setback selected excluded rejected n) :
      other.Setback selected excluded rejected n := by
    unfold Setback Exhausted
    rw [eq, live]
    exact s
  induction h with
  | place fresh alive =>
    have eq := same _ (List.mem_singleton_self _)
    rw [← eq] at fresh alive ⊢
    exact .place fresh (live ▸ alive)
  | escape s => exact .escape (setback (same _ (List.mem_singleton_self _)) s)
  | back s _ ih =>
    refine .back (setback (same _ List.mem_cons_self) s) ?_
    exact ih fun n mem ↦ same n (List.mem_cons_of_mem _ mem)
  | again taken more _ ih =>
    have eq := same _ List.mem_cons_self
    have rest := ih fun n mem ↦ same n (List.mem_cons_of_mem _ mem)
    rw [← eq] at taken more rest
    refine .again taken ?_ rest
    unfold Exhausted
    rw [live]
    exact more

theorem Draws.det {found' : Option α} {rounds' : List ℕ}
    (h : urn.Draws selected excluded round rejected left found rounds)
    (h' : urn.Draws selected excluded round rejected left found' rounds') :
    found' = found ∧ rounds' = rounds := by
  have clash {rejected : Set α} {n : ℕ} (taken : urn.pick n ∈ selected ∪ excluded)
      (more : ¬ urn.Exhausted selected (insert (urn.pick n) rejected))
      (s : urn.Setback selected excluded rejected n) : False := by
    rcases s with ⟨_, exhausted⟩ | ⟨fresh, _⟩
    · exact more exhausted
    · exact fresh taken
  have refuse {rejected : Set α} {n : ℕ} (fresh : urn.pick n ∉ selected ∪ excluded)
      (alive : urn.pick n ∈ urn.live) (s : urn.Setback selected excluded rejected n) : False := by
    rcases s with ⟨taken, _⟩ | ⟨_, dead⟩
    · exact fresh taken
    · exact dead alive
  induction h generalizing rounds' with
  | place fresh alive =>
    cases h' with
    | place _ _ => exact ⟨rfl, rfl⟩
    | escape s => exact (refuse fresh alive s).elim
    | back s _ => exact (refuse fresh alive s).elim
    | again taken _ _ => exact absurd taken fresh
  | escape s =>
    cases h' with
    | place fresh alive => exact (refuse fresh alive s).elim
    | escape _ => exact ⟨rfl, rfl⟩
    | again taken more _ => exact (clash taken more s).elim
  | back s _ ih =>
    cases h' with
    | place fresh alive => exact (refuse fresh alive s).elim
    | back _ rest =>
      obtain ⟨eq, tail⟩ := ih rest
      exact ⟨eq, congrArg _ tail⟩
    | again taken more _ => exact (clash taken more s).elim
  | again taken more _ ih =>
    cases h' with
    | place fresh _ => exact absurd taken fresh
    | escape s => exact (clash taken more s).elim
    | back s _ => exact (clash taken more s).elim
    | again _ _ rest =>
      obtain ⟨eq, tail⟩ := ih rest
      exact ⟨eq, congrArg _ tail⟩

end Draw

section Termination

/-- Where every setback leads to an end, a draw ends once its proposals reach one that was not
given out, or leave nothing. -/
theorem Draws.exists_of_settled
    (ends : ∀ n rejected, urn.Setback selected excluded rejected n →
      ∃ found rounds, urn.Draws selected excluded n rejected left found rounds)
    (n start : ℕ) (rejected : Set α)
    (settled : urn.pick (start + n) ∉ selected ∪ excluded ∨
      urn.live ⊆ selected ∪ (rejected ∪ {item | ∃ i ≤ n, urn.pick (start + i) = item})) :
    ∃ found rounds, urn.Draws selected excluded start rejected left found rounds := by
  induction n generalizing start rejected with
  | zero =>
    by_cases taken : urn.pick start ∈ selected ∪ excluded
    · refine ends start rejected (.inl ⟨taken, ?_⟩)
      have all := settled.resolve_left (not_not_intro taken)
      refine all.trans (Set.union_subset_union_right _ ?_)
      rintro item (mem | ⟨i, le, rfl⟩)
      · exact Set.mem_insert_of_mem _ mem
      · rw [Nat.le_zero.mp le]
        exact Set.mem_insert _ _
    · by_cases alive : urn.pick start ∈ urn.live
      · exact ⟨_, _, .place taken alive⟩
      · exact ends start rejected (.inr ⟨taken, alive⟩)
  | succ n ih =>
    by_cases taken : urn.pick start ∈ selected ∪ excluded
    · by_cases exhausted : urn.Exhausted selected (insert (urn.pick start) rejected)
      · exact ends start rejected (.inl ⟨taken, exhausted⟩)
      have shift (i : ℕ) : start + 1 + i = start + (i + 1) := by omega
      obtain ⟨found, rounds, rest⟩ := ih (start + 1) (insert (urn.pick start) rejected) (by
        rw [shift]
        refine settled.imp_right fun all ↦ all.trans (Set.union_subset_union_right _ ?_)
        rintro item (mem | ⟨i, le, rfl⟩)
        · exact .inl (Set.mem_insert_of_mem _ mem)
        · cases i with
          | zero => exact .inl (Set.mem_insert _ _)
          | succ i => exact .inr ⟨i, Nat.le_of_succ_le_succ le, by rw [shift]⟩)
      exact ⟨found, start :: rounds, .again taken exhausted rest⟩
    · by_cases alive : urn.pick start ∈ urn.live
      · exact ⟨_, _, .place taken alive⟩
      · exact ends start rejected (.inr ⟨taken, alive⟩)

theorem Draws.exists_of_stretch (patience : ℕ)
    (stretch : ∀ start, ∃ n, urn.pick (start + n) ∉ selected ∪ excluded ∨
      urn.live ⊆ selected ∪ {item | ∃ i ≤ n, urn.pick (start + i) = item}) (start : ℕ)
    (rejected : Set α) :
    ∃ found rounds, urn.Draws selected excluded start rejected patience found rounds := by
  induction patience generalizing start rejected with
  | zero =>
    obtain ⟨n, settled⟩ := stretch start
    refine Draws.exists_of_settled (fun _ _ s ↦ ⟨_, _, .escape s⟩) n start rejected ?_
    exact settled.imp_right fun all ↦ all.trans
      (Set.union_subset_union_right _ Set.subset_union_right)
  | succ patience ih =>
    obtain ⟨n, settled⟩ := stretch start
    refine Draws.exists_of_settled (fun m _ s ↦ ?_) n start rejected ?_
    · obtain ⟨found, rounds, rest⟩ := ih (m + 1) ∅
      exact ⟨found, m :: rounds, .back s rest⟩
    · exact settled.imp_right fun all ↦ all.trans
        (Set.union_subset_union_right _ Set.subset_union_right)

/-- While only given-out items are proposed and they leave a live item, nothing stops the draw. -/
theorem Draws.false_of_trapped (given : Set.range urn.pick ⊆ selected ∪ excluded)
    (remains : ¬ urn.live ⊆ selected ∪ Set.range urn.pick)
    (turnedDown : rejected ⊆ Set.range urn.pick) :
    ¬ urn.Draws selected excluded round rejected left found rounds := by
  intro h
  have calm {n : ℕ} {rejected : Set α} (turnedDown : rejected ⊆ Set.range urn.pick)
      (s : urn.Setback selected excluded rejected n) : False := by
    rcases s with ⟨_, exhausted⟩ | ⟨fresh, _⟩
    · refine remains (exhausted.trans (Set.union_subset_union_right _ ?_))
      exact Set.insert_subset (Set.mem_range_self _) turnedDown
    · exact fresh (given (Set.mem_range_self _))
  induction h with
  | place fresh _ => exact fresh (given (Set.mem_range_self _))
  | escape s => exact calm turnedDown s
  | back s _ _ => exact calm turnedDown s
  | again _ _ _ ih => exact ih (Set.insert_subset (Set.mem_range_self _) turnedDown)

variable {period : ℕ}

/-- Proposals that recur: a draw ends exactly when some round proposes an item that was not given
out, or the proposals together leave nothing. -/
theorem Draws.exists_iff (recurs : Function.Periodic urn.pick period) (positive : 0 < period)
    (start patience : ℕ) :
    (∃ found rounds, urn.Draws selected excluded start ∅ patience found rounds) ↔
      (∃ n, urn.pick n ∉ selected ∪ excluded) ∨ urn.live ⊆ selected ∪ Set.range urn.pick := by
  -- every proposal comes back within one period of any round
  have returns (n from_ : ℕ) : ∃ i < period, urn.pick (from_ + i) = urn.pick n := by
    refine ⟨(n + (period - 1) * from_) % period, Nat.mod_lt _ positive, ?_⟩
    have eq : (from_ + (n + (period - 1) * from_) % period) % period = n % period := by
      rw [Nat.add_mod_mod]
      have split : from_ + (n + (period - 1) * from_) = n + from_ * period := by
        obtain ⟨p, rfl⟩ : ∃ p, period = p + 1 := ⟨period - 1, by omega⟩
        rw [Nat.add_sub_cancel]
        ring
      rw [split, Nat.add_mul_mod_self_right]
    rw [← recurs.map_mod_nat, eq, recurs.map_mod_nat]
  constructor
  · rintro ⟨found, rounds, h⟩
    by_contra none
    push Not at none
    exact Draws.false_of_trapped (Set.range_subset_iff.mpr none.1) none.2 (Set.empty_subset _) h
  · intro settles
    refine Draws.exists_of_stretch patience (fun from_ ↦ ?_) start ∅
    rcases settles with ⟨n, fresh⟩ | all
    · obtain ⟨i, _, eq⟩ := returns n from_
      exact ⟨i, .inl (eq ▸ fresh)⟩
    · refine ⟨period, .inr (all.trans (Set.union_subset_union_right _ ?_))⟩
      rintro item ⟨n, rfl⟩
      obtain ⟨i, lt, eq⟩ := returns n from_
      exact ⟨i, lt.le, eq⟩

end Termination

section Seats

variable {patience : ℕ} {seats : List ℕ} {chosen result : List α} {calls : List ℕ}

theorem Selects.det {result' : List α} {calls' : List ℕ}
    (h : Selects urn excluded patience seats chosen result calls)
    (h' : Selects urn excluded patience seats chosen result' calls') :
    result' = result ∧ calls' = calls := by
  induction h generalizing calls' with
  | done _ =>
    cases h'
    exact ⟨rfl, rfl⟩
  | seat draw _ ih =>
    cases h' with
    | seat draw' rest =>
      obtain ⟨rfl, rfl⟩ := draw.det draw'
      obtain ⟨rfl, rfl⟩ := ih rest
      exact ⟨rfl, rfl⟩

theorem Selects.congr {other : Urn α} (h : Selects urn excluded patience seats chosen result calls)
    (live : other.live = urn.live) (same : ∀ n ∈ calls, other.pick n = urn.pick n) :
    Selects other excluded patience seats chosen result calls := by
  induction h with
  | done _ => exact .done _
  | seat draw _ ih =>
    refine .seat (draw.congr live fun n mem ↦ same n (List.mem_append_left _ mem)) ?_
    exact ih fun n mem ↦ same n (List.mem_append_right _ mem)

theorem Selects.subset (h : Selects urn excluded patience seats chosen result calls) {item : α}
    (mem : item ∈ chosen) : item ∈ result := by
  induction h with
  | done _ => exact mem
  | seat _ _ ih => exact ih (List.mem_append_left _ mem)

/-- What the seats get is live, different from each other and from what was excluded. -/
theorem Selects.spec (h : Selects urn excluded patience seats chosen result calls)
    (nodup : chosen.Nodup) :
    ∃ added, result = chosen ++ added ∧ result.Nodup ∧ added.length ≤ seats.length ∧
      ∀ item ∈ added, item ∈ urn.live ∧ item ∉ excluded ∧ item ∈ Set.range urn.pick := by
  induction h with
  | done chosen => exact ⟨[], (List.append_nil _).symm, nodup, le_rfl, by simp⟩
  | @seat seat seats chosen result found rounds more draw _ ih =>
    have fresh : ∀ item ∈ found, item ∈ urn.live ∧ item ∉ {item | item ∈ chosen} ∪ excluded ∧
        item ∈ Set.range urn.pick := by
      rintro item rfl
      exact draw.mem
    have nodup' : (chosen ++ found.toList).Nodup := by
      refine nodup.append ?_ ?_
      · cases found <;> simp
      · intro item mem mem'
        exact (fresh item (Option.mem_toList.mp mem')).2.1 (.inl mem)
    obtain ⟨added, rfl, distinct, length, spec⟩ := ih nodup'
    refine ⟨found.toList ++ added, List.append_assoc _ _ _, distinct, ?_, ?_⟩
    · rw [List.length_append, List.length_cons]
      have one : found.toList.length ≤ 1 := by cases found <;> simp
      omega
    · intro item mem
      rcases List.mem_append.mp mem with mem | mem
      · obtain ⟨alive, other, proposed⟩ := fresh item (Option.mem_toList.mp mem)
        exact ⟨alive, fun mem ↦ other (.inr mem), proposed⟩
      · exact spec item mem

/-- While only live items are proposed, no seat stays empty before everything is given out. -/
theorem Selects.full (h : Selects urn excluded patience seats chosen result calls)
    (alive : ∀ n ∈ calls, urn.pick n ∈ urn.live) :
    urn.live ⊆ {item | item ∈ result} ∪ excluded ∨
      result.length = chosen.length + seats.length := by
  induction h with
  | done _ => exact .inr rfl
  | @seat seat seats chosen result found rounds more draw rest ih =>
    have step := ih fun n mem ↦ alive n (List.mem_append_right _ mem)
    cases found with
    | some item =>
      refine step.imp_right fun eq ↦ ?_
      rw [eq, List.length_append, List.length_cons, Option.toList_some, List.length_singleton]
      omega
    | none =>
      left
      have all : urn.live ⊆ {item | item ∈ chosen} ∪ excluded := by
        rcases draw.of_none (Set.empty_subset _) with ⟨n, mem, dead⟩ | all
        · exact absurd (alive n (List.mem_append_left _ mem)) dead
        · refine all.trans (Set.union_subset Set.subset_union_left ?_)
          exact Set.inter_subset_left
      refine all.trans (Set.union_subset_union_left _ fun item mem ↦ ?_)
      exact rest.subset (by simpa using mem)

/-- What the rounds propose beyond the items that are given out or excluded. -/
def remaining (urn : Urn α) (excluded : Set α) (chosen : List α) : Set α :=
  Set.range urn.pick \ ({item | item ∈ chosen} ∪ excluded)

theorem finite_proposed {period : ℕ} (recurs : Function.Periodic urn.pick period)
    (positive : 0 < period) : (Set.range urn.pick).Finite := by
  refine ((Set.finite_lt_nat period).image urn.pick).subset ?_
  rintro item ⟨n, rfl⟩
  exact ⟨n % period, Nat.mod_lt _ positive, recurs.map_mod_nat n⟩

theorem ncard_remaining_snoc (finite : (Set.range urn.pick).Finite) {item : α}
    (fresh : item ∉ {item | item ∈ chosen} ∪ excluded) (proposed : item ∈ Set.range urn.pick) :
    (urn.remaining excluded (chosen ++ [item])).ncard + 1 =
      (urn.remaining excluded chosen).ncard := by
  have eq : urn.remaining excluded (chosen ++ [item]) =
      urn.remaining excluded chosen \ {item} := by
    ext other
    simp only [remaining, Set.mem_sdiff, Set.mem_union, Set.mem_ofPred_eq, List.mem_append,
      List.mem_singleton, Set.mem_singleton_iff]
    tauto
  rw [eq]
  exact Set.ncard_sdiff_singleton_add_one (Set.mem_sdiff_of_mem proposed fresh) finite.sdiff

/-- All seats are dealt with exactly when some round proposes an item that is not live, every live
item is proposed, or the proposals have enough items that were not excluded. -/
theorem Selects.exists_iff {period : ℕ} (recurs : Function.Periodic urn.pick period)
    (positive : 0 < period) (alive : excluded ⊆ urn.live) (seats : List ℕ) {chosen : List α}
    (drawn : {item | item ∈ chosen} ⊆ urn.live ∩ Set.range urn.pick) :
    (∃ result calls, Selects urn excluded patience seats chosen result calls) ↔
      (∃ n, urn.pick n ∉ urn.live) ∨ urn.live ⊆ Set.range urn.pick ∨
        seats.length ≤ (urn.remaining excluded chosen).ncard := by
  have finite := finite_proposed recurs positive
  induction seats generalizing chosen with
  | nil => simpa using ⟨chosen, [], Selects.done chosen⟩
  | cons seat seats ih =>
    have proposedOnly : {item | item ∈ chosen} ⊆ Set.range urn.pick :=
      drawn.trans Set.inter_subset_right
    have ends : (∃ found rounds,
        urn.Draws {item | item ∈ chosen} excluded seat ∅ patience found rounds) ↔ _ :=
      Draws.exists_iff recurs positive seat patience
    rw [Set.union_eq_self_of_subset_left proposedOnly] at ends
    have extend {item : α} {rounds : List ℕ}
        (draw : urn.Draws {item | item ∈ chosen} excluded seat ∅ patience (some item) rounds) :
        {other | other ∈ chosen ++ [item]} ⊆ urn.live ∩ Set.range urn.pick := by
      intro other mem
      rcases List.mem_append.mp mem with mem | mem
      · exact drawn mem
      · rw [List.mem_singleton.mp mem]
        exact ⟨draw.mem.1, draw.mem.2.2⟩
    constructor
    · rintro ⟨result, calls, h⟩
      cases h with
      | @seat _ _ _ _ found rounds more draw rest =>
      cases found with
      | none =>
        rcases draw.of_none (Set.empty_subset _) with ⟨n, _, dead⟩ | all
        · exact .inl ⟨n, dead⟩
        · exact .inr (.inl (all.trans (Set.union_subset proposedOnly Set.inter_subset_right)))
      | some item =>
        have step := (ih (extend draw)).mp ⟨result, more, rest⟩
        refine step.imp_right (Or.imp_right fun enough ↦ ?_)
        have fewer := ncard_remaining_snoc finite draw.mem.2.1 draw.mem.2.2
        rw [List.length_cons]
        omega
    · intro settles
      obtain ⟨found, rounds, draw⟩ := ends.mpr (by
        rcases settles with ⟨n, dead⟩ | all | enough
        · exact .inl ⟨n, fun taken ↦ dead (taken.elim (fun mem ↦ (drawn mem).1) (alive ·))⟩
        · exact .inr all
        · rw [List.length_cons] at enough
          obtain ⟨item, ⟨n, rfl⟩, fresh⟩ := Set.nonempty_of_ncard_ne_zero
            (show (urn.remaining excluded chosen).ncard ≠ 0 by omega)
          exact .inl ⟨n, fresh⟩)
      cases found with
      | none =>
        have settles' : (∃ n, urn.pick n ∉ urn.live) ∨ urn.live ⊆ Set.range urn.pick := by
          rcases draw.of_none (Set.empty_subset _) with ⟨n, _, dead⟩ | all
          · exact .inl ⟨n, dead⟩
          · exact .inr (all.trans (Set.union_subset proposedOnly Set.inter_subset_right))
        have same : {item | item ∈ chosen ++ []} ⊆ urn.live ∩ Set.range urn.pick := by
          rw [List.append_nil]
          exact drawn
        obtain ⟨result, more, rest⟩ := (ih same).mpr (settles'.imp_right .inl)
        exact ⟨result, rounds ++ more, .seat draw rest⟩
      | some item =>
        have fewer := ncard_remaining_snoc finite draw.mem.2.1 draw.mem.2.2
        obtain ⟨result, more, rest⟩ := (ih (extend draw)).mpr (by
          refine settles.imp_right (Or.imp_right fun enough ↦ ?_)
          rw [List.length_cons] at enough
          have kept : seats.length ≤ (urn.remaining excluded (chosen ++ [item])).ncard := by omega
          exact kept)
        exact ⟨result, rounds ++ more, .seat draw rest⟩

end Seats

section Without

variable {smaller : Urn α} {gone : α}

/-- An urn that lost one live item, with the same proposals where the item was not proposed. -/
structure Loses (urn smaller : Urn α) (gone : α) : Prop where
  live : smaller.live = urn.live \ {gone}
  was : gone ∈ urn.live
  pick : ∀ n, urn.pick n ≠ gone → smaller.pick n = urn.pick n

/-- An item that is live and not given out is placed as soon as it is proposed. -/
theorem Loses.pick_of_setback (loses : Loses urn smaller gone) (free : gone ∉ selected ∪ excluded)
    {n : ℕ} (s : urn.Setback selected excluded rejected n) : smaller.pick n = urn.pick n := by
  refine loses.pick n fun eq ↦ ?_
  rcases s with ⟨taken, _⟩ | ⟨_, dead⟩
  · exact free (eq ▸ taken)
  · exact dead (eq ▸ loses.was)

theorem Loses.pick_of_taken (loses : Loses urn smaller gone) (free : gone ∉ selected ∪ excluded)
    {n : ℕ} (taken : urn.pick n ∈ selected ∪ excluded) : smaller.pick n = urn.pick n :=
  loses.pick n fun eq ↦ free (eq ▸ taken)

/-- While the item is free, only a dead proposal sets a draw back. -/
theorem Loses.dead_of_setback (loses : Loses urn smaller gone) (free : gone ∉ selected ∪ excluded)
    (turnedDown : rejected ⊆ selected ∪ excluded) {n : ℕ}
    (s : urn.Setback selected excluded rejected n) :
    urn.pick n ∉ selected ∪ excluded ∧ urn.pick n ∉ urn.live := by
  rcases s with ⟨taken, exhausted⟩ | dead
  · rcases exhausted loses.was with mem | mem | mem
    · exact absurd (.inl mem) free
    · exact absurd (mem ▸ taken) free
    · exact absurd (turnedDown mem) free
  · exact dead

/-- A draw that found another item finds it without the lost one, in the same rounds. -/
theorem Loses.draws_some (loses : Loses urn smaller gone) (free : gone ∉ selected ∪ excluded)
    {item : α} (other : item ≠ gone) (turnedDown : rejected ⊆ selected ∪ excluded)
    (h : urn.Draws selected excluded round rejected left (some item) rounds) :
    smaller.Draws selected excluded round rejected left (some item) rounds := by
  have remains : item ∈ smaller.live ∧ item ∉ selected ∪ excluded := by
    rw [loses.live]
    exact ⟨⟨h.mem.1, other⟩, h.mem.2.1⟩
  have dead {rejected : Set α} {n : ℕ} (turnedDown : rejected ⊆ selected ∪ excluded)
      (s : urn.Setback selected excluded rejected n) :
      smaller.Setback selected excluded rejected n := by
    obtain ⟨fresh, dead⟩ := loses.dead_of_setback free turnedDown s
    rw [Setback, loses.pick_of_setback free s, loses.live]
    exact .inr ⟨fresh, fun mem ↦ dead mem.1⟩
  generalize drawn : some item = found at h ⊢
  induction h with
  | place fresh alive =>
    cases drawn
    have eq := loses.pick _ other
    rw [← eq] at fresh remains ⊢
    exact .place fresh remains.1
  | escape _ => cases drawn
  | back s _ ih => exact .back (dead turnedDown s) (ih (Set.empty_subset _) drawn)
  | again taken _ _ ih =>
    have eq := loses.pick_of_taken free taken
    have more := Set.insert_subset taken turnedDown
    refine .again (eq ▸ taken) (fun exhausted ↦ remains.2 ?_) (eq ▸ ih more drawn)
    rw [eq] at exhausted
    exact (exhausted remains.1).elim .inl (more ·)

/-- A draw that was given up is given up without the lost item too, and not later. -/
theorem Loses.draws_none (loses : Loses urn smaller gone) (free : gone ∉ selected ∪ excluded)
    (turnedDown : rejected ⊆ selected ∪ excluded)
    (h : urn.Draws selected excluded round rejected left none rounds) {left' : ℕ} (le : left' ≤ left)
    (rejected' : Set α) :
    ∃ rounds', smaller.Draws selected excluded round rejected' left' none rounds' := by
  have step {n left' : ℕ} {rejected' : Set α} (s : smaller.Setback selected excluded rejected' n)
      (rest : ∀ left'' < left', ∃ rounds',
        smaller.Draws selected excluded (n + 1) ∅ left'' none rounds') :
      ∃ rounds', smaller.Draws selected excluded n rejected' left' none rounds' := by
    cases left' with
    | zero => exact ⟨[n], .escape s⟩
    | succ left'' =>
      obtain ⟨rounds', later⟩ := rest left'' (Nat.lt_succ_self _)
      exact ⟨n :: rounds', .back s later⟩
  have dead {rejected rejected' : Set α} {n : ℕ} (turnedDown : rejected ⊆ selected ∪ excluded)
      (s : urn.Setback selected excluded rejected n) :
      smaller.Setback selected excluded rejected' n := by
    obtain ⟨fresh, dead⟩ := loses.dead_of_setback free turnedDown s
    rw [Setback, loses.pick_of_setback free s, loses.live]
    exact .inr ⟨fresh, fun mem ↦ dead mem.1⟩
  generalize drawn : none = found at h
  induction h generalizing left' rejected' with
  | place _ _ => cases drawn
  | escape s =>
    refine step (dead turnedDown s) fun left'' lt ↦ ?_
    omega
  | back s _ ih =>
    cases drawn
    refine step (dead turnedDown s) fun left'' lt ↦ ?_
    exact ih (Set.empty_subset _) (by omega) ∅ rfl
  | @again n rejected left _ _ taken _ _ ih =>
    cases drawn
    have eq := loses.pick_of_taken free taken
    have more := Set.insert_subset taken turnedDown
    by_cases exhausted : smaller.Exhausted selected (insert (smaller.pick n) rejected')
    · refine step (.inl ⟨eq ▸ taken, exhausted⟩) fun left'' lt ↦ ?_
      exact ih more (by omega) ∅ rfl
    · obtain ⟨rounds', later⟩ := ih more le (insert (smaller.pick n) rejected') rfl
      exact ⟨n :: rounds', .again (eq ▸ taken) exhausted later⟩

theorem Loses.selects (loses : Loses urn smaller gone) (free : gone ∉ excluded) {patience : ℕ}
    {seats : List ℕ} {chosen result : List α} {calls : List ℕ}
    (h : Selects urn excluded patience seats chosen result calls) (kept : gone ∉ result) :
    ∃ calls', Selects smaller excluded patience seats chosen result calls' := by
  induction h with
  | done chosen => exact ⟨[], .done chosen⟩
  | @seat seat seats chosen result found _ _ draw rest ih =>
    obtain ⟨more, later⟩ := ih kept
    have out : gone ∉ chosen ++ found.toList := fun mem ↦ kept (rest.subset mem)
    rw [List.mem_append, not_or] at out
    have free' : gone ∉ {item | item ∈ chosen} ∪ excluded := fun mem ↦ mem.elim out.1 free
    cases found with
    | some item =>
      have other : item ≠ gone := fun eq ↦ out.2 (eq ▸ List.mem_singleton_self _)
      exact ⟨_, .seat (loses.draws_some free' other (Set.empty_subset _) draw) later⟩
    | none =>
      obtain ⟨rounds', given⟩ := loses.draws_none free' (Set.empty_subset _) draw le_rfl ∅
      exact ⟨_, .seat given later⟩

end Without

section Attempts

variable {ι : Type}

/-- Attempts with rehashed inputs, until every seat is filled or the attempts are used up. -/
inductive Fills (urn : ι → Urn α) (rehash : ι → ι) (patience count : ℕ) :
    ℕ → ι → List α → List α → List (ι × ℕ) → Prop
  | spent (input : ι) (filled : List α) :
      Fills urn rehash patience count 0 input filled filled []
  | full {tries : ℕ} {input : ι} {filled : List α} : count ≤ filled.length →
      Fills urn rehash patience count (tries + 1) input filled filled []
  | attempt {tries : ℕ} {input : ι} {filled added result : List α} {rounds : List ℕ}
      {calls : List (ι × ℕ)} : filled.length < count →
      Selects (urn input) {item | item ∈ filled} patience (List.range' 1 (count - filled.length)) []
        added rounds →
      Fills urn rehash patience count tries (rehash input) (filled ++ added) result calls →
      Fills urn rehash patience count (tries + 1) input filled result
        (rounds.map (Prod.mk input) ++ calls)

/-- The attempts that a run makes, each with its input and what was filled before it. -/
inductive Attempts (urn : ι → Urn α) (rehash : ι → ι) (patience count : ℕ) :
    ℕ → ι → List α → ι → List α → Prop
  | here {tries : ℕ} {input : ι} {filled : List α} : filled.length < count →
      Attempts urn rehash patience count (tries + 1) input filled input filled
  | later {tries : ℕ} {input at_ : ι} {filled added before : List α} {rounds : List ℕ} :
      filled.length < count →
      Selects (urn input) {item | item ∈ filled} patience (List.range' 1 (count - filled.length)) []
        added rounds →
      Attempts urn rehash patience count tries (rehash input) (filled ++ added) at_ before →
      Attempts urn rehash patience count (tries + 1) input filled at_ before

variable {family : ι → Urn α} {rehash : ι → ι} {patience count tries : ℕ} {input : ι}
  {filled result : List α} {calls : List (ι × ℕ)}

theorem Fills.det {result' : List α} {calls' : List (ι × ℕ)}
    (h : Fills family rehash patience count tries input filled result calls)
    (h' : Fills family rehash patience count tries input filled result' calls') :
    result' = result ∧ calls' = calls := by
  induction h generalizing calls' with
  | spent _ _ =>
    cases h'
    exact ⟨rfl, rfl⟩
  | full enough =>
    cases h' with
    | full _ => exact ⟨rfl, rfl⟩
    | attempt short _ _ => omega
  | attempt short select _ ih =>
    cases h' with
    | full enough => omega
    | attempt _ select' rest =>
      obtain ⟨rfl, rfl⟩ := select.det select'
      obtain ⟨rfl, rfl⟩ := ih rest
      exact ⟨rfl, rfl⟩

theorem Fills.congr {other : ι → Urn α}
    (h : Fills family rehash patience count tries input filled result calls)
    (live : ∀ i, (other i).live = (family i).live)
    (same : ∀ call ∈ calls, (other call.1).pick call.2 = (family call.1).pick call.2) :
    Fills other rehash patience count tries input filled result calls := by
  induction h with
  | spent _ _ => exact .spent _ _
  | full enough => exact .full enough
  | @attempt _ input _ _ _ rounds _ short select _ ih =>
    refine .attempt short (select.congr (live input) fun n mem ↦ ?_) (ih fun call mem ↦ ?_)
    · exact same (input, n) (List.mem_append_left _ (List.mem_map_of_mem mem))
    · exact same call (List.mem_append_right _ mem)

theorem Fills.prefix_result
    (h : Fills family rehash patience count tries input filled result calls) :
    filled <+: result := by
  induction h with
  | spent _ _ => exact List.prefix_rfl
  | full _ => exact List.prefix_rfl
  | attempt _ _ _ ih => exact (List.prefix_append _ _).trans ih

/-- What one attempt leaves: the seats stay within the count and hold different live items. -/
theorem Selects.append_spec {urn : Urn α} {added : List α} {rounds : List ℕ}
    (h : Selects urn {item | item ∈ filled} patience (List.range' 1 (count - filled.length)) []
      added rounds)
    (nodup : filled.Nodup) (alive : ∀ item ∈ filled, item ∈ urn.live)
    (within : filled.length ≤ count) :
    (filled ++ added).Nodup ∧ (∀ item ∈ filled ++ added, item ∈ urn.live) ∧
      (filled ++ added).length ≤ count := by
  obtain ⟨own, rfl, distinct, length, spec⟩ := h.spec List.nodup_nil
  rw [List.length_range'] at length
  refine ⟨nodup.append distinct ?_, ?_, ?_⟩
  · exact fun item mem mem' ↦ (spec item mem').2.1 mem
  · intro item mem
    exact (List.mem_append.mp mem).elim (alive item) fun mem ↦ (spec item mem).1
  · rw [List.length_append]
    omega

variable {live : Set α}

theorem Fills.spec (h : Fills family rehash patience count tries input filled result calls)
    (same : ∀ i, (family i).live = live) (nodup : filled.Nodup)
    (alive : ∀ item ∈ filled, item ∈ live) (within : filled.length ≤ count) :
    result.Nodup ∧ (∀ item ∈ result, item ∈ live) ∧ result.length ≤ count := by
  induction h with
  | spent _ _ => exact ⟨nodup, alive, within⟩
  | full _ => exact ⟨nodup, alive, within⟩
  | @attempt _ input _ _ _ _ _ short select _ ih =>
    rw [← same input] at alive
    obtain ⟨distinct, lives, length⟩ := select.append_spec nodup alive within
    rw [same input] at lives
    exact ih distinct lives length

/-- While only live items are proposed, the first attempt fills what can be filled. -/
theorem Fills.full_of_alive (h : Fills family rehash patience count (tries + 1) input [] result calls)
    (same : ∀ i, (family i).live = live)
    (alive : ∀ call ∈ calls, (family call.1).pick call.2 ∈ live) :
    live ⊆ {item | item ∈ result} ∨ count ≤ result.length := by
  cases h with
  | full enough => exact .inr enough
  | @attempt _ _ _ added _ rounds _ short select rest =>
    have now := select.full fun n mem ↦ by
      rw [same input]
      exact alive (input, n) (List.mem_append_left _ (List.mem_map_of_mem mem))
    rcases now with all | length
    · refine .inl (same input ▸ all.trans (Set.union_subset (fun item mem ↦ rest.prefix_result.subset mem) ?_))
      exact fun item mem ↦ absurd mem List.not_mem_nil
    · right
      have kept : added.length ≤ result.length := by
        have sub := rest.prefix_result
        exact sub.length_le
      simp only [List.length_nil, List.length_range'] at length
      omega

theorem Fills.length_eq (h : Fills family rehash patience count (tries + 1) input [] result calls)
    (same : ∀ i, (family i).live = live) (finite : live.Finite)
    (alive : ∀ call ∈ calls, (family call.1).pick call.2 ∈ live) :
    result.length = min count live.ncard := by
  obtain ⟨distinct, lives, within⟩ := h.spec same List.nodup_nil (by simp) (Nat.zero_le _)
  have card : {item | item ∈ result}.ncard = result.length := by
    classical
    rw [← List.coe_toFinset, Set.ncard_coe_finset, List.toFinset_card_of_nodup distinct]
  have atMost : result.length ≤ live.ncard := card ▸ Set.ncard_le_ncard lives finite
  rcases h.full_of_alive same alive with all | enough
  · have atLeast : live.ncard ≤ result.length :=
      card ▸ Set.ncard_le_ncard all (List.finite_toSet result)
    omega
  · omega

/-- A run ends exactly when each of its attempts deals with its seats. -/
theorem Fills.exists_iff :
    (∃ result calls, Fills family rehash patience count tries input filled result calls) ↔
      ∀ at_ before, Attempts family rehash patience count tries input filled at_ before →
        ∃ added rounds, Selects (family at_) {item | item ∈ before} patience
          (List.range' 1 (count - before.length)) [] added rounds := by
  constructor
  · rintro ⟨result, calls, h⟩ at_ before attempt
    induction attempt generalizing calls with
    | here short =>
      cases h with
      | full enough => omega
      | attempt _ select _ => exact ⟨_, _, select⟩
    | later short select _ ih =>
      cases h with
      | full enough => omega
      | attempt _ select' rest =>
        obtain ⟨rfl, rfl⟩ := select.det select'
        exact ih _ rest
  · intro ends
    induction tries generalizing input filled with
    | zero => exact ⟨filled, [], .spent _ _⟩
    | succ tries ih =>
      by_cases enough : count ≤ filled.length
      · exact ⟨filled, [], .full enough⟩
      · have short := Nat.lt_of_not_le enough
        obtain ⟨added, rounds, select⟩ := ends input filled (.here short)
        obtain ⟨result, calls, rest⟩ := ih fun at_ before attempt ↦
          ends at_ before (.later short select attempt)
        exact ⟨result, _, .attempt short select rest⟩

/-- Without an item that a run leaves free, the run gives the same result. -/
theorem Loses.fills {smaller : ι → Urn α} {gone : α}
    (loses : ∀ i, Loses (family i) (smaller i) gone)
    (h : Fills family rehash patience count tries input filled result calls)
    (kept : gone ∉ result) :
    ∃ calls', Fills smaller rehash patience count tries input filled result calls' := by
  induction h with
  | spent _ _ => exact ⟨[], .spent _ _⟩
  | full enough => exact ⟨[], .full enough⟩
  | @attempt _ input filled added _ _ _ short select rest ih =>
    obtain ⟨more, later⟩ := ih kept
    have out : gone ∉ filled ++ added := fun mem ↦ kept (rest.prefix_result.subset mem)
    rw [List.mem_append, not_or] at out
    obtain ⟨calls', select'⟩ := (loses input).selects out.1 select out.2
    exact ⟨_, .attempt short select' later⟩

end Attempts

end Urn
