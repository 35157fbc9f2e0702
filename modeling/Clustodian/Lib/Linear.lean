import Clustodian.Lib.Client

namespace RevisionStore

variable {K V T ε α β Job : Type} [LinearOrder K]

namespace Prog

def result? : Prog K V T ε α → Option (Except ε α)
  | .done result => some result
  | _ => none

theorem result?_eq_some {p : Prog K V T ε α} {result : Except ε α} :
    p.result? = some result ↔ p = .done result := by
  cases p with
  | done r => simp [result?]
  | _ => simp [result?]

theorem retry_unsuccessful {exhausted : ε} {round : Prog K V T ε (Option α)}
    (running : round.result? = none) (n : ℕ) (a : α) :
    (retry exhausted round n).result? ≠ some (.ok a) := by
  intro ended
  cases n with
  | zero => cases ended
  | succ n =>
    cases round with
    | done result => cases running
    | _ => cases ended

end Prog

variable [DecidableEq V]

namespace Contract

/-- Every answered request meets a guarantee, which relates the store before it, the store after it
and the result of the program if the request is its last. -/
def guarantees (c : Contract K V) (G : Option (Except ε α) → Store K V → Store K V → Prop) :
    Prog K V T ε α → Store K V → Prop
  | .done _, _ => True
  | .read next, s => ∀ s₁, c.Since s s₁ →
      G (next (some s₁)).result? s₁ s₁ ∧ guarantees c G (next (some s₁)) s₁
  | .txn _ request next, s => ∀ s₁, c.Since s s₁ →
      (request.succeeds s₁ = true → c.change s₁ (request.run s₁)) ∧
      G (next (some (request.succeeds s₁, (request.run s₁).revision))).result? s₁ (request.run s₁) ∧
      guarantees c G (next (some (request.succeeds s₁, (request.run s₁).revision))) (request.run s₁)
  | .grant next, s => ∀ s₁, c.Since s s₁ → ∀ lease, lease ≠ 0 →
      G (next (some lease)).result? s₁ s₁ ∧ guarantees c G (next (some lease)) s₁
  | .revoke lease next, s => ∀ s₁, c.Since s s₁ →
      G (next (some ())).result? s₁ (s₁.expire lease) ∧
      guarantees c G (next (some ())) (s₁.expire lease)

variable {c : Contract K V} {G : Option (Except ε α) → Store K V → Store K V → Prop}

theorem guarantees_served {p p' : Prog K V T ε α} {s s₁ s' : Store K V}
    {event : Option (Event K V T)} (h : c.guarantees G p s) (since : c.Since s s₁)
    (served : p.Served False s₁ p' s' event) :
    c.Since s₁ s' ∧ G p'.result? s₁ s' ∧ c.guarantees G p' s' := by
  cases served with
  | read next => exact ⟨.refl, h s₁ since⟩
  | txn tag request next =>
    obtain ⟨change, met, rest⟩ := h s₁ since
    refine ⟨?_, met, rest⟩
    cases committed : request.succeeds s₁ with
    | false => rw [Txn.run, committed]; exact .refl
    | true => exact .single (change committed)
  | grant next _ lease positive => exact ⟨.refl, h s₁ since lease positive⟩
  | revoke lease next => exact ⟨.single (c.expires _ _), h s₁ since⟩
  | readLost _ _ lost => exact lost.elim
  | txnLost _ _ _ _ lost => exact lost.elim
  | txnUnanswered _ _ _ _ lost => exact lost.elim
  | grantLost _ _ lost => exact lost.elim
  | revokeLost _ _ _ lost => exact lost.elim
  | revokeUnanswered _ _ _ lost => exact lost.elim

/-- A program of which every single transaction is fine at every instant. -/
theorem guarantees_of_issues {P : Txn K V → Prop}
    (idle : ∀ result s, G result s s) (ends : ∀ result s lease, G result s (s.expire lease))
    (commit : ∀ request s, P request → request.succeeds s = true →
      c.change s (request.run s) ∧ ∀ result, G result s (request.run s))
    {p : Prog K V T ε α} (issues : p.Issues P) (s : Store K V) : c.guarantees G p s := by
  induction p generalizing s with
  | done result => trivial
  | read next ih => exact fun s₁ _ ↦ ⟨idle _ _, ih _ (issues _) s₁⟩
  | txn tag request next ih =>
    intro s₁ _
    refine ⟨fun committed ↦ (commit request s₁ issues.1 committed).1, ?_, ih _ (issues.2 _) _⟩
    cases committed : request.succeeds s₁ with
    | false => rw [Txn.run, committed]; exact idle _ _
    | true => exact (commit request s₁ issues.1 committed).2 _
  | grant next ih => exact fun s₁ _ lease _ ↦ ⟨idle _ _, ih _ (issues _) s₁⟩
  | revoke lease next ih => exact fun s₁ _ ↦ ⟨ends _ _ _, ih _ (issues _) _⟩

/-- A transaction that commits or not. -/
theorem guarantees_txn {tag : T} {request : Txn K V} {next : Option (Bool × ℕ) → Prog K V T ε α}
    {s : Store K V}
    (commits : ∀ s₁, c.Since s s₁ → request.succeeds s₁ = true →
      let s' := s₁.write request.operations
      c.change s₁ s' ∧ G (next (some (true, s'.revision))).result? s₁ s' ∧
        c.guarantees G (next (some (true, s'.revision))) s')
    (fails : ∀ s₁, c.Since s s₁ → request.succeeds s₁ = false →
      G (next (some (false, s₁.revision))).result? s₁ s₁ ∧
        c.guarantees G (next (some (false, s₁.revision))) s₁) :
    c.guarantees G (.txn tag request next) s := by
  intro s₁ since
  unfold Txn.run
  cases committed : request.succeeds s₁ with
  | false => exact ⟨fun impossible ↦ (nomatch impossible), fails s₁ since committed⟩
  | true =>
    obtain ⟨change, met, rest⟩ := commits s₁ since committed
    exact ⟨fun _ ↦ change, met, rest⟩

/-- A loop with a bound on its rounds: a round may rely on what is left of the loop. -/
theorem guarantees_retry {exhausted : ε} {round : Prog K V T ε (Option α)}
    (running : round.result? = none)
    (step : ∀ rest : Prog K V T ε α, (∀ s, c.guarantees G rest s) →
      (∀ a, rest.result? ≠ some (.ok a)) → ∀ s,
      c.guarantees G (round >>= fun result ↦ result.elim rest pure) s) (n : ℕ) (s : Store K V) :
    c.guarantees G (Prog.retry exhausted round n) s := by
  induction n generalizing s with
  | zero => trivial
  | succ n ih => exact step _ ih (Prog.retry_unsuccessful running n) s

end Contract

namespace System

variable {program : Job → Prog K V T ε α} {env : Store K V → Store K V → Prop} {s₀ : Store K V}
  {sys : System K V T ε α Job} {log : List (Job × Except ε α)}

/-- A verified client keeps its precondition while all the clients are at work. -/
theorem Step.client_wp {c : Contract K V} {inv : List (Event K V T) → Prop}
    {post : Except ε α → List (Event K V T) → Store K V → Prop} {sys sys' : System K V T ε α Job}
    (step : Step c.lossy program env sys sys') (change : c.Since sys.store sys'.store) {client : ℕ}
    {job : Job} {p : Prog K V T ε α} (found : sys.clients[client]? = some (job, p))
    (h : ∃ log s, c.Since s sys.store ∧ c.wp inv post p log s) :
    ∃ p', sys'.clients[client]? = some (job, p') ∧
      ∃ log s, c.Since s sys'.store ∧ c.wp inv post p' log s := by
  obtain ⟨log, s, since, hwp⟩ := h
  have bound : client < sys.clients.length := (List.getElem?_eq_some_iff.mp found).1
  cases step with
  | start job' =>
    exact ⟨p, by rw [List.getElem?_append_left bound]; exact found, log, s, since, hwp⟩
  | serve i job' q q' s' event found' served =>
    by_cases same : i = client
    · subst same
      rw [found] at found'
      cases found'
      exact ⟨q', List.getElem?_set_self bound, _, s', .refl, (Contract.wp_served hwp since served).2⟩
    · exact ⟨p, by rw [List.getElem?_set_ne same]; exact found, log, s, since.trans change, hwp⟩
  | other s' _ => exact ⟨p, found, log, s, since.trans change, hwp⟩

/-- Runs without lost answers, with the calls in the order in which they came to their results. -/
inductive Completed (program : Job → Prog K V T ε α) (env : Store K V → Store K V → Prop)
    (s : Store K V) : List (Job × Except ε α) → System K V T ε α Job → Prop
  | initial : Completed program env s [] (initial s)
  | start {log : List (Job × Except ε α)} {sys : System K V T ε α Job} (job : Job) :
      Completed program env s log sys →
      Completed program env s (log ++ (program job).result?.toList.map (job, ·))
        ⟨sys.store, sys.clients ++ [(job, program job)], sys.history⟩
  | serve {log : List (Job × Except ε α)} {sys : System K V T ε α Job} (client : ℕ) (job : Job)
      (p p' : Prog K V T ε α) (s' : Store K V) (event : Option (Event K V T)) :
      Completed program env s log sys → sys.clients[client]? = some (job, p) →
      p.Served False sys.store p' s' event →
      Completed program env s (log ++ p'.result?.toList.map (job, ·))
        ⟨s', sys.clients.set client (job, p'), sys.history ++ [record client sys.store s' event]⟩
  | other {log : List (Job × Except ε α)} {sys : System K V T ε α Job} (s' : Store K V) :
      Completed program env s log sys → env sys.store s' →
      Completed program env s log ⟨s', sys.clients, sys.history ++ [.other sys.store s']⟩

theorem Reachable.completed (h : Reachable False program env s₀ sys) :
    ∃ log, Completed program env s₀ log sys := by
  induction h with
  | initial => exact ⟨[], .initial⟩
  | step _ step ih =>
    obtain ⟨log, past⟩ := ih
    cases step with
    | start job => exact ⟨_, .start job past⟩
    | serve client job p p' s' event found served =>
      exact ⟨_, .serve client job p p' s' event past found served⟩
    | other s' change => exact ⟨_, .other s' past change⟩

theorem Completed.reachable (h : Completed program env s₀ log sys) :
    Reachable False program env s₀ sys := by
  induction h with
  | initial => exact .initial
  | start job _ ih => exact ih.step (.start _ job)
  | serve client job p p' s' event _ found served ih =>
    exact ih.step (.serve _ client job p p' s' event found served)
  | other s' _ change ih => exact ih.step (.other _ s' change)

/-- The result of a client's call, if it has come to one. -/
def outcome (client : Job × Prog K V T ε α) : Option (Job × Except ε α) :=
  client.2.result?.map (client.1, ·)

omit [DecidableEq V] in
theorem toList_map_outcome (job : Job) (p : Prog K V T ε α) :
    p.result?.toList.map (job, ·) = (outcome (job, p)).toList := by
  unfold outcome
  cases p.result? with
  | none => rfl
  | some r => rfl

/-- The order lists the calls that have come to a result, each of them once. -/
theorem Completed.perm (h : Completed program env s₀ log sys) :
    log.Perm (sys.clients.filterMap outcome) := by
  induction h with
  | initial => exact .nil
  | start job _ ih =>
    rw [List.filterMap_append, toList_map_outcome]
    refine ih.append ?_
    cases found : outcome (job, program job) with
    | none => simp [found]
    | some r => simp [found]
  | @serve log sys client job p p' s' event _ found served ih =>
    obtain ⟨bound, here⟩ := List.getElem?_eq_some_iff.mp found
    have running : outcome (job, p) = none := by
      cases served <;> rfl
    have split := List.take_append_drop client sys.clients
    rw [List.drop_eq_getElem_cons bound, here] at split
    rw [List.set_eq_take_append_cons_drop, if_pos bound, List.filterMap_append, toList_map_outcome]
    rw [← split, List.filterMap_append, List.filterMap_cons, running] at ih
    refine (ih.append_right _).trans ?_
    rw [List.append_assoc]
    refine List.Perm.append_left _ ?_
    cases ended : outcome (job, p') with
    | none => simp [ended]
    | some r =>
      simp only [Option.toList_some, List.filterMap_cons, ended]
      exact List.perm_append_singleton _ _
  | other s' _ _ ih => exact ih

/-- Clients that are still to come have written nothing. -/
theorem Completed.idle (h : Completed program env s₀ log sys) {client : ℕ}
    (long : sys.clients.length ≤ client) : writes sys.history client = [] := by
  induction h with
  | initial => rfl
  | start job _ ih =>
    rw [List.length_append] at long
    exact ih (by omega)
  | @serve log sys i job p p' s' event _ found served ih =>
    rw [List.length_set] at long
    obtain ⟨bound, -⟩ := List.getElem?_eq_some_iff.mp found
    rw [writes_record, ih long, if_neg (by omega)]
    rfl
  | other s' _ _ ih =>
    rw [writes, List.filterMap_append]
    exact List.append_eq_nil_iff.mpr ⟨ih long, rfl⟩

section Rules

variable {c : Contract K V} {G : Job → Option (Except ε α) → Store K V → Store K V → Prop}
  (verified : ∀ job s, c.guarantees (G job) (program job) s)
  (rely : ∀ s s', env s s' → c.change s s')

include verified rely

theorem Completed.guaranteed (h : Completed program env s₀ log sys) :
    ∀ client ∈ sys.clients, ∃ s, c.Since s sys.store ∧ c.guarantees (G client.1) client.2 s := by
  induction h with
  | initial => exact fun client mem ↦ nomatch mem
  | start job _ ih =>
    intro client mem
    rcases List.mem_append.mp mem with mem | mem
    · exact ih client mem
    · rw [List.mem_singleton.mp mem]
      exact ⟨_, .refl, verified job _⟩
  | serve client job p p' s' event _ found served ih =>
    obtain ⟨s, since, hold⟩ := ih _ (List.mem_of_getElem? found)
    obtain ⟨step, -, rest⟩ := Contract.guarantees_served hold since served
    intro other mem
    rcases List.mem_or_eq_of_mem_set mem with mem | rfl
    · obtain ⟨s, since, hold⟩ := ih other mem
      exact ⟨s, since.trans step, hold⟩
    · exact ⟨s', .refl, rest⟩
  | other s' _ change ih =>
    intro client mem
    obtain ⟨s, since, hold⟩ := ih client mem
    exact ⟨s, since.tail (rely _ _ change), hold⟩

/-- What holds of the order and the store at first, and is kept by every request and every other
change. -/
theorem Completed.inv (inv : List (Job × Except ε α) → Store K V → Prop) (init : inv [] s₀)
    (start : ∀ log s job result, (program job).result? = some result → inv log s →
      inv (log ++ [(job, result)]) s)
    (serve : ∀ log s s' job result, G job result s s' → inv log s →
      inv (log ++ result.toList.map (job, ·)) s')
    (other : ∀ log s s', env s s' → inv log s → inv log s')
    (h : Completed program env s₀ log sys) : inv log sys.store := by
  induction h with
  | initial => exact init
  | start job _ ih =>
    cases ended : (program job).result? with
    | none => simpa using ih
    | some result => exact start _ _ _ _ ended ih
  | serve client job p p' s' event past found served ih =>
    obtain ⟨s, since, hold⟩ := past.guaranteed verified rely _ (List.mem_of_getElem? found)
    exact serve _ _ _ _ _ (Contract.guarantees_served hold since served).2.1 ih
  | other s' _ change ih => exact other _ _ _ change ih

/-- What every request and every other change does holds of all that is recorded. -/
theorem Completed.records {Q : Store K V → Prop} (R : Store K V → Store K V → Prop)
    (always : ∀ log sys, Completed program env s₀ log sys → Q sys.store)
    (serve : ∀ s s' job result, Q s → G job result s s' → R s s')
    (other : ∀ s s', Q s → env s s' → R s s')
    (h : Completed program env s₀ log sys) : ∀ r ∈ sys.history, R r.before r.after := by
  induction h with
  | initial => exact fun r mem ↦ nomatch mem
  | start job _ ih => exact ih
  | @serve log sys client job p p' s' event past found served ih =>
    obtain ⟨s, since, hold⟩ := past.guaranteed verified rely _ (List.mem_of_getElem? found)
    have ends : (record client sys.store s' event).before = sys.store ∧
        (record client sys.store s' event).after = s' := by
      cases served <;> exact ⟨rfl, rfl⟩
    intro r mem
    rcases List.mem_append.mp mem with mem | mem
    · exact ih r mem
    · rw [List.mem_singleton.mp mem, ends.1, ends.2]
      exact serve _ _ _ _ (always _ _ past) (Contract.guarantees_served hold since served).2.1
  | other s' past change ih =>
    intro r mem
    rcases List.mem_append.mp mem with mem | mem
    · exact ih r mem
    · rw [List.mem_singleton.mp mem]
      exact other _ _ (always _ _ past) change

/-- A call that changes nothing before its success has changed nothing when there is none. -/
theorem Completed.unchanged {calls : Job → Prop}
    (quiet : ∀ job result s s', calls job → G job result s s' → (∀ a, result ≠ some (.ok a)) → s' = s)
    (h : Completed program env s₀ log sys) {client : ℕ} {job : Job} {p : Prog K V T ε α}
    (found : sys.clients[client]? = some (job, p)) (call : calls job)
    (unsuccessful : ∀ a, p ≠ .done (.ok a)) :
    ∀ event ∈ writes sys.history client, event.after = event.before := by
  induction h generalizing p with
  | initial => exact fun _ mem ↦ by cases mem
  | @start log sys job' past ih =>
    rw [List.getElem?_append] at found
    split at found
    · exact ih found unsuccessful
    · next long =>
      rw [past.idle (Nat.not_lt.mp long)]
      exact fun _ mem ↦ by cases mem
  | @serve log sys i job' q q' s' event past found' served ih =>
    rw [writes_record]
    by_cases mine : i = client
    · subst mine
      obtain ⟨bound, -⟩ := List.getElem?_eq_some_iff.mp found'
      rw [List.getElem?_set_self bound] at found
      cases found
      obtain ⟨s, since, hold⟩ := past.guaranteed verified rely _ (List.mem_of_getElem? found')
      have met := (Contract.guarantees_served hold since served).2.1
      have same := quiet job _ _ _ call met fun a success ↦
        unsuccessful a (Prog.result?_eq_some.mp success)
      have running : ∀ a, q ≠ .done (.ok a) := by
        rintro a rfl
        cases served
      rw [if_pos rfl]
      intro event' mem
      rcases List.mem_append.mp mem with mem | mem
      · exact ih found' running event' mem
      · cases served with
        | txn tag request next =>
          cases List.mem_singleton.mp mem
          exact same
        | read | grant | revoke => cases mem
        | readLost _ _ lost | txnLost _ _ _ _ lost | txnUnanswered _ _ _ _ lost
        | grantLost _ _ lost | revokeLost _ _ _ lost | revokeUnanswered _ _ _ lost =>
          exact lost.elim
    · rw [List.getElem?_set_ne mine] at found
      rw [if_neg mine, List.append_nil]
      exact ih found unsuccessful
  | other s' past change ih =>
    rw [writes, List.filterMap_append]
    intro event mem
    rcases List.mem_append.mp mem with mem | mem
    · exact ih found unsuccessful event mem
    · cases mem

end Rules

end System

end RevisionStore
