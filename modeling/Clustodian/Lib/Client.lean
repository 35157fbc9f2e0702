import Clustodian.Lib.RevisionStore

namespace RevisionStore

variable {K V T ε α β Job : Type} [LinearOrder K]

/-- A client of the store: requests with what follows each answer. No answer means that the
connection failed; the request may have been served or not. -/
inductive Prog (K V T ε : Type) [LinearOrder K] (α : Type) : Type
  | done (result : Except ε α)
  | read (next : Option (Store K V) → Prog K V T ε α)
  | txn (tag : T) (request : Txn K V) (next : Option (Bool × ℕ) → Prog K V T ε α)
  | grant (next : Option ℕ → Prog K V T ε α)
  | revoke (lease : ℕ) (next : Option Unit → Prog K V T ε α)

/-- A write request that was served. -/
structure Event (K V T : Type) [LinearOrder K] where
  tag : T
  committed : Bool
  before : Store K V
  after : Store K V

namespace Prog

def bind (p : Prog K V T ε α) (f : α → Prog K V T ε β) : Prog K V T ε β :=
  match p with
  | .done (.ok a) => f a
  | .done (.error e) => .done (.error e)
  | .read next => .read fun answer ↦ (next answer).bind f
  | .txn tag request next => .txn tag request fun answer ↦ (next answer).bind f
  | .grant next => .grant fun answer ↦ (next answer).bind f
  | .revoke lease next => .revoke lease fun answer ↦ (next answer).bind f

/-- Turn an error into a value the caller can inspect. -/
def attempt (p : Prog K V T ε α) : Prog K V T ε (Except ε α) :=
  match p with
  | .done result => .done (.ok result)
  | .read next => .read fun answer ↦ (next answer).attempt
  | .txn tag request next => .txn tag request fun answer ↦ (next answer).attempt
  | .grant next => .grant fun answer ↦ (next answer).attempt
  | .revoke lease next => .revoke lease fun answer ↦ (next answer).attempt

instance : Monad (Prog K V T ε) where
  pure a := .done (.ok a)
  bind := Prog.bind

def fail (e : ε) : Prog K V T ε α := .done (.error e)

def ofExcept : Except ε α → Prog K V T ε α := .done

@[simp] theorem pure_eq (a : α) : (pure a : Prog K V T ε α) = .done (.ok a) := rfl

@[simp] theorem done_ok_bind (a : α) (f : α → Prog K V T ε β) :
    (Prog.done (.ok a) >>= f : Prog K V T ε β) = f a := rfl

@[simp] theorem done_error_bind (e : ε) (f : α → Prog K V T ε β) :
    (Prog.done (.error e) >>= f : Prog K V T ε β) = .done (.error e) := rfl

@[simp] theorem read_bind (next : Option (Store K V) → Prog K V T ε α) (f : α → Prog K V T ε β) :
    (Prog.read next >>= f : Prog K V T ε β) = .read fun answer ↦ next answer >>= f := rfl

@[simp] theorem txn_bind (tag : T) (request : Txn K V)
    (next : Option (Bool × ℕ) → Prog K V T ε α) (f : α → Prog K V T ε β) :
    (Prog.txn tag request next >>= f : Prog K V T ε β) =
      .txn tag request fun answer ↦ next answer >>= f := rfl

@[simp] theorem grant_bind (next : Option ℕ → Prog K V T ε α) (f : α → Prog K V T ε β) :
    (Prog.grant next >>= f : Prog K V T ε β) = .grant fun answer ↦ next answer >>= f := rfl

@[simp] theorem revoke_bind (lease : ℕ) (next : Option Unit → Prog K V T ε α)
    (f : α → Prog K V T ε β) :
    (Prog.revoke lease next >>= f : Prog K V T ε β) =
      .revoke lease fun answer ↦ next answer >>= f := rfl

/-- Single requests; a lost connection is reported as an error. -/
def query (lost : ε) : Prog K V T ε (Store K V) :=
  .read fun answer ↦ answer.elim (fail lost) pure

def submit (lost : ε) (tag : T) (request : Txn K V) : Prog K V T ε (Bool × ℕ) :=
  .txn tag request fun answer ↦ answer.elim (fail lost) pure

def grantLease (lost : ε) : Prog K V T ε ℕ := .grant fun answer ↦ answer.elim (fail lost) pure

def revokeLease (lost : ε) (lease : ℕ) : Prog K V T ε Unit :=
  .revoke lease fun answer ↦ answer.elim (fail lost) pure

/-- Run a round until it produces a result, at most so many times. -/
def retry (exhausted : ε) (round : Prog K V T ε (Option α)) : ℕ → Prog K V T ε α
  | 0 => fail exhausted
  | n + 1 => round >>= fun result ↦ result.elim (retry exhausted round n) pure

/-- Every transaction the program can send satisfies a predicate. -/
def Issues (P : Txn K V → Prop) : Prog K V T ε α → Prop
  | .done _ => True
  | .read next => ∀ answer, (next answer).Issues P
  | .txn _ request next => P request ∧ ∀ answer, (next answer).Issues P
  | .grant next => ∀ answer, (next answer).Issues P
  | .revoke _ next => ∀ answer, (next answer).Issues P

theorem Issues.bind {P : Txn K V → Prop} {p : Prog K V T ε α} {f : α → Prog K V T ε β}
    (h : p.Issues P) (h' : ∀ a, (f a).Issues P) : (p >>= f).Issues P := by
  induction p with
  | done result =>
    cases result with
    | ok a => exact h' a
    | error e => trivial
  | read next ih => exact fun answer ↦ ih answer (h answer)
  | txn tag request next ih => exact ⟨h.1, fun answer ↦ ih answer (h.2 answer)⟩
  | grant next ih => exact fun answer ↦ ih answer (h answer)
  | revoke lease next ih => exact fun answer ↦ ih answer (h answer)

theorem Issues.mono {P Q : Txn K V → Prop} {p : Prog K V T ε α} (h : p.Issues P)
    (weaker : ∀ request, P request → Q request) : p.Issues Q := by
  induction p with
  | done result => trivial
  | read next ih => exact fun answer ↦ ih answer (h answer)
  | txn tag request next ih => exact ⟨weaker _ h.1, fun answer ↦ ih answer (h.2 answer)⟩
  | grant next ih => exact fun answer ↦ ih answer (h answer)
  | revoke lease next ih => exact fun answer ↦ ih answer (h answer)

theorem Issues.attempt {P : Txn K V → Prop} {p : Prog K V T ε α} (h : p.Issues P) :
    p.attempt.Issues P := by
  induction p with
  | done result => trivial
  | read next ih => exact fun answer ↦ ih answer (h answer)
  | txn tag request next ih => exact ⟨h.1, fun answer ↦ ih answer (h.2 answer)⟩
  | grant next ih => exact fun answer ↦ ih answer (h answer)
  | revoke lease next ih => exact fun answer ↦ ih answer (h answer)

theorem issues_true (p : Prog K V T ε α) : p.Issues fun _ ↦ True := by
  induction p with
  | done result => trivial
  | read next ih => exact ih
  | txn tag request next ih => exact ⟨trivial, ih⟩
  | grant next ih => exact ih
  | revoke lease next ih => exact ih

section Issues

variable {P : Txn K V → Prop}

theorem issues_query (lost : ε) : (query lost : Prog K V T ε _).Issues P := by
  intro answer
  cases answer <;> trivial

theorem issues_submit (lost : ε) (tag : T) {request : Txn K V} (h : P request) :
    (submit lost tag request).Issues P := by
  refine ⟨h, fun answer ↦ ?_⟩
  cases answer <;> trivial

theorem issues_grantLease (lost : ε) : (grantLease lost : Prog K V T ε _).Issues P := by
  intro answer
  cases answer <;> trivial

theorem issues_revokeLease (lost : ε) (lease : ℕ) :
    (revokeLease lost lease : Prog K V T ε _).Issues P := by
  intro answer
  cases answer <;> trivial

theorem issues_retry (exhausted : ε) {round : Prog K V T ε (Option α)} (h : round.Issues P)
    (n : ℕ) : (retry exhausted round n).Issues P := by
  induction n with
  | zero => trivial
  | succ n ih =>
    refine h.bind fun result ↦ ?_
    cases result with
    | none => exact ih
    | some a => trivial

end Issues

end Prog

section Requests

variable [DecidableEq V]

def Event.ofTxn (tag : T) (request : Txn K V) (s : Store K V) : Event K V T :=
  ⟨tag, request.succeeds s, s, request.run s⟩

/-- The service of one request: the program goes on and the store may change. -/
inductive Prog.Served (lossy : Prop) : Prog K V T ε α → Store K V → Prog K V T ε α → Store K V →
    Option (Event K V T) → Prop
  | read (next : Option (Store K V) → Prog K V T ε α) (s : Store K V) :
      Served lossy (.read next) s (next (some s)) s none
  | txn (tag : T) (request : Txn K V) (next : Option (Bool × ℕ) → Prog K V T ε α)
      (s : Store K V) : Served lossy (.txn tag request next) s
        (next (some (request.succeeds s, (request.run s).revision))) (request.run s)
        (some (.ofTxn tag request s))
  | grant (next : Option ℕ → Prog K V T ε α) (s : Store K V) (lease : ℕ) : lease ≠ 0 →
      Served lossy (.grant next) s (next (some lease)) s none
  | revoke (lease : ℕ) (next : Option Unit → Prog K V T ε α) (s : Store K V) :
      Served lossy (.revoke lease next) s (next (some ())) (s.expire lease) none
  | readLost (next : Option (Store K V) → Prog K V T ε α) (s : Store K V) : lossy →
      Served lossy (.read next) s (next none) s none
  | txnLost (tag : T) (request : Txn K V) (next : Option (Bool × ℕ) → Prog K V T ε α)
      (s : Store K V) : lossy → Served lossy (.txn tag request next) s (next none) s none
  | txnUnanswered (tag : T) (request : Txn K V) (next : Option (Bool × ℕ) → Prog K V T ε α)
      (s : Store K V) : lossy → Served lossy (.txn tag request next) s (next none) (request.run s)
        (some (.ofTxn tag request s))
  | grantLost (next : Option ℕ → Prog K V T ε α) (s : Store K V) : lossy →
      Served lossy (.grant next) s (next none) s none
  | revokeLost (lease : ℕ) (next : Option Unit → Prog K V T ε α) (s : Store K V) : lossy →
      Served lossy (.revoke lease next) s (next none) s none
  | revokeUnanswered (lease : ℕ) (next : Option Unit → Prog K V T ε α) (s : Store K V) : lossy →
      Served lossy (.revoke lease next) s (next none) (s.expire lease) none

/-- A program alone at work: its result and the store it leaves; a granted lease gets the given
id. -/
def Prog.exec (lease : ℕ) : Prog K V T ε α → Store K V → Except ε α × Store K V
  | .done result, s => (result, s)
  | .read next, s => (next (some s)).exec lease s
  | .txn _ request next, s =>
    (next (some (request.succeeds s, (request.run s).revision))).exec lease (request.run s)
  | .grant next, s => (next (some lease)).exec lease s
  | .revoke ended next, s => (next (some ())).exec lease (s.expire ended)

section Execution

variable {lease : ℕ} {s s' : Store K V}

theorem Prog.exec_bind_ok {p : Prog K V T ε α} {f : α → Prog K V T ε β} {a : α}
    (h : p.exec lease s = (.ok a, s')) : (p >>= f).exec lease s = (f a).exec lease s' := by
  induction p generalizing s with
  | done result =>
    cases h
    rfl
  | read next ih => exact ih _ h
  | txn tag request next ih => exact ih _ h
  | grant next ih => exact ih _ h
  | revoke ended next ih => exact ih _ h

theorem Prog.exec_bind_error {p : Prog K V T ε α} {f : α → Prog K V T ε β} {e : ε}
    (h : p.exec lease s = (.error e, s')) : (p >>= f).exec lease s = (.error e, s') := by
  induction p generalizing s with
  | done result =>
    cases h
    rfl
  | read next ih => exact ih _ h
  | txn tag request next ih => exact ih _ h
  | grant next ih => exact ih _ h
  | revoke ended next ih => exact ih _ h

end Execution

/-- The service of a program's next request without a loss; a granted lease gets the given id. -/
def Prog.serve (lease : ℕ) (s : Store K V) : Prog K V T ε α →
    Option (Prog K V T ε α × Store K V × Option (Event K V T))
  | .done _ => none
  | .read next => some (next (some s), s, none)
  | .txn tag request next => some (next (some (request.succeeds s, (request.run s).revision)),
      request.run s, some (.ofTxn tag request s))
  | .grant next => if lease = 0 then none else some (next (some lease), s, none)
  | .revoke lease next => some (next (some ()), s.expire lease, none)

theorem Prog.served_of_serve {lossy : Prop} (p : Prog K V T ε α) {p' : Prog K V T ε α} {lease : ℕ}
    {s s' : Store K V} {event : Option (Event K V T)}
    (h : p.serve lease s = some (p', s', event)) : p.Served lossy s p' s' event := by
  cases p with
  | done result => cases h
  | read next =>
    cases h
    exact .read next s
  | txn tag request next =>
    cases h
    exact .txn tag request next s
  | grant next =>
    rw [Prog.serve] at h
    split at h
    · cases h
    · next positive =>
      cases h
      exact .grant next s lease positive
  | revoke lease next =>
    cases h
    exact .revoke lease next s

namespace Prog

/-- Whatever is lost, the program ends as wanted if all its requests meet stores of one kind. -/
def EndsIn (kind : Store K V → Prop) (post : Except ε α → Prop) : Prog K V T ε α → Prop
  | .done result => post result
  | .read next => (∀ s, kind s → (next (some s)).EndsIn kind post) ∧ (next none).EndsIn kind post
  | .txn _ request next => (∀ s, kind s →
      (next (some (request.succeeds s, (request.run s).revision))).EndsIn kind post) ∧
      (next none).EndsIn kind post
  | .grant next => ∀ answer, (next answer).EndsIn kind post
  | .revoke _ next => ∀ answer, (next answer).EndsIn kind post

variable {kind : Store K V → Prop} {post : Except ε α → Prop}

theorem EndsIn.served {lossy : Prop} {p p' : Prog K V T ε α} {s s' : Store K V}
    {event : Option (Event K V T)} (h : p.EndsIn kind post) (hs : kind s)
    (served : p.Served lossy s p' s' event) : p'.EndsIn kind post := by
  cases served with
  | read next => exact h.1 s hs
  | txn tag request next => exact h.1 s hs
  | grant next _ lease positive => exact h _
  | revoke lease next => exact h _
  | readLost next _ lost => exact h.2
  | txnLost tag request next _ lost => exact h.2
  | txnUnanswered tag request next _ lost => exact h.2
  | grantLost next _ lost => exact h _
  | revokeLost lease next _ lost => exact h _
  | revokeUnanswered lease next _ lost => exact h _

theorem EndsIn.mono {post' : Except ε α → Prop} {p : Prog K V T ε α} (h : p.EndsIn kind post)
    (weaker : ∀ result, post result → post' result) : p.EndsIn kind post' := by
  induction p with
  | done result => exact weaker result h
  | read next ih => exact ⟨fun s hs ↦ ih _ (h.1 s hs), ih _ h.2⟩
  | txn tag request next ih => exact ⟨fun s hs ↦ ih _ (h.1 s hs), ih _ h.2⟩
  | grant next ih => exact fun answer ↦ ih _ (h answer)
  | revoke lease next ih => exact fun answer ↦ ih _ (h answer)

theorem endsIn_bind {p : Prog K V T ε β} {f : β → Prog K V T ε α}
    (h : p.EndsIn kind fun result ↦ match result with
      | .ok b => (f b).EndsIn kind post
      | .error e => post (.error e)) : (p >>= f).EndsIn kind post := by
  induction p with
  | done result =>
    cases result with
    | ok b => exact h
    | error e => exact h
  | read next ih => exact ⟨fun s hs ↦ ih _ (h.1 s hs), ih _ h.2⟩
  | txn tag request next ih => exact ⟨fun s hs ↦ ih _ (h.1 s hs), ih _ h.2⟩
  | grant next ih => exact fun answer ↦ ih _ (h answer)
  | revoke lease next ih => exact fun answer ↦ ih _ (h answer)

theorem endsIn_attempt {p : Prog K V T ε β} {post : Except ε (Except ε β) → Prop}
    (h : p.EndsIn kind fun result ↦ post (.ok result)) : p.attempt.EndsIn kind post := by
  induction p with
  | done result => exact h
  | read next ih => exact ⟨fun s hs ↦ ih _ (h.1 s hs), ih _ h.2⟩
  | txn tag request next ih => exact ⟨fun s hs ↦ ih _ (h.1 s hs), ih _ h.2⟩
  | grant next ih => exact fun answer ↦ ih _ (h answer)
  | revoke lease next ih => exact fun answer ↦ ih _ (h answer)

end Prog

/-- What clients may rely on: whether answers get lost and how the store may change. -/
structure Contract (K V : Type) [LinearOrder K] where
  lossy : Prop
  change : Store K V → Store K V → Prop
  expires : ∀ s lease, change s (s.expire lease)

namespace Contract

variable (c : Contract K V) (inv : List (Event K V T) → Prop)

def Since : Store K V → Store K V → Prop := Relation.ReflTransGen c.change

/-- The weakest precondition of a client program under interference: `log` holds its writes so far,
of which the invariant is kept, and `s` is a store it may have seen. -/
def wp (post : Except ε α → List (Event K V T) → Store K V → Prop) :
    Prog K V T ε α → List (Event K V T) → Store K V → Prop
  | .done result, log, s => inv log ∧ post result log s
  | .read next, log, s => inv log ∧ ∀ s₁, c.Since s s₁ →
      wp post (next (some s₁)) log s₁ ∧ (c.lossy → wp post (next none) log s₁)
  | .txn tag request next, log, s => inv log ∧ ∀ s₁, c.Since s s₁ →
      (request.succeeds s₁ = true → c.change s₁ (request.run s₁)) ∧
      wp post (next (some (request.succeeds s₁, (request.run s₁).revision)))
        (log ++ [.ofTxn tag request s₁]) (request.run s₁) ∧
      (c.lossy → wp post (next none) log s₁ ∧
        wp post (next none) (log ++ [.ofTxn tag request s₁]) (request.run s₁))
  | .grant next, log, s => inv log ∧ ∀ s₁, c.Since s s₁ →
      (∀ lease, lease ≠ 0 → wp post (next (some lease)) log s₁) ∧
      (c.lossy → wp post (next none) log s₁)
  | .revoke lease next, log, s => inv log ∧ ∀ s₁, c.Since s s₁ →
      wp post (next (some ())) log (s₁.expire lease) ∧
      (c.lossy → wp post (next none) log s₁ ∧ wp post (next none) log (s₁.expire lease))

variable {c inv}

theorem wp_log {post : Except ε α → List (Event K V T) → Store K V → Prop}
    {p : Prog K V T ε α} {log : List (Event K V T)} {s : Store K V} (h : c.wp inv post p log s) :
    inv log := by
  cases p <;> exact h.1

theorem wp_mono {post post' : Except ε α → List (Event K V T) → Store K V → Prop}
    (weaker : ∀ result log s, inv log → post result log s → post' result log s)
    {p : Prog K V T ε α} {log : List (Event K V T)} {s : Store K V} (h : c.wp inv post p log s) :
    c.wp inv post' p log s := by
  induction p generalizing log s with
  | done result => exact ⟨h.1, weaker _ _ _ h.1 h.2⟩
  | read next ih =>
    refine ⟨h.1, fun s₁ since ↦ ?_⟩
    obtain ⟨h1, h2⟩ := h.2 s₁ since
    exact ⟨ih _ h1, fun lost ↦ ih _ (h2 lost)⟩
  | txn tag request next ih =>
    refine ⟨h.1, fun s₁ since ↦ ?_⟩
    obtain ⟨hchange, h1, h2⟩ := h.2 s₁ since
    exact ⟨hchange, ih _ h1, fun lost ↦ ⟨ih _ (h2 lost).1, ih _ (h2 lost).2⟩⟩
  | grant next ih =>
    refine ⟨h.1, fun s₁ since ↦ ?_⟩
    obtain ⟨h1, h2⟩ := h.2 s₁ since
    exact ⟨fun lease positive ↦ ih _ (h1 lease positive), fun lost ↦ ih _ (h2 lost)⟩
  | revoke lease next ih =>
    refine ⟨h.1, fun s₁ since ↦ ?_⟩
    obtain ⟨h1, h2⟩ := h.2 s₁ since
    exact ⟨ih _ h1, fun lost ↦ ⟨ih _ (h2 lost).1, ih _ (h2 lost).2⟩⟩

/-- Sequencing: the first part establishes the precondition of the second. -/
theorem wp_bind {post : Except ε β → List (Event K V T) → Store K V → Prop}
    {p : Prog K V T ε α} {f : α → Prog K V T ε β} {log : List (Event K V T)} {s : Store K V}
    (h : c.wp inv (fun result log s ↦ match result with
      | .ok a => c.wp inv post (f a) log s
      | .error e => post (.error e) log s) p log s) : c.wp inv post (p >>= f) log s := by
  induction p generalizing log s with
  | done result =>
    cases result with
    | ok a => exact h.2
    | error e => exact h
  | read next ih =>
    refine ⟨h.1, fun s₁ since ↦ ?_⟩
    obtain ⟨h1, h2⟩ := h.2 s₁ since
    exact ⟨ih _ h1, fun lost ↦ ih _ (h2 lost)⟩
  | txn tag request next ih =>
    refine ⟨h.1, fun s₁ since ↦ ?_⟩
    obtain ⟨hchange, h1, h2⟩ := h.2 s₁ since
    exact ⟨hchange, ih _ h1, fun lost ↦ ⟨ih _ (h2 lost).1, ih _ (h2 lost).2⟩⟩
  | grant next ih =>
    refine ⟨h.1, fun s₁ since ↦ ?_⟩
    obtain ⟨h1, h2⟩ := h.2 s₁ since
    exact ⟨fun lease positive ↦ ih _ (h1 lease positive), fun lost ↦ ih _ (h2 lost)⟩
  | revoke lease next ih =>
    refine ⟨h.1, fun s₁ since ↦ ?_⟩
    obtain ⟨h1, h2⟩ := h.2 s₁ since
    exact ⟨ih _ h1, fun lost ↦ ⟨ih _ (h2 lost).1, ih _ (h2 lost).2⟩⟩

theorem wp_attempt {post : Except ε (Except ε α) → List (Event K V T) → Store K V → Prop}
    {p : Prog K V T ε α} {log : List (Event K V T)} {s : Store K V}
    (h : c.wp inv (fun result log s ↦ post (.ok result) log s) p log s) :
    c.wp inv post p.attempt log s := by
  induction p generalizing log s with
  | done result => exact h
  | read next ih =>
    refine ⟨h.1, fun s₁ since ↦ ?_⟩
    obtain ⟨h1, h2⟩ := h.2 s₁ since
    exact ⟨ih _ h1, fun lost ↦ ih _ (h2 lost)⟩
  | txn tag request next ih =>
    refine ⟨h.1, fun s₁ since ↦ ?_⟩
    obtain ⟨hchange, h1, h2⟩ := h.2 s₁ since
    exact ⟨hchange, ih _ h1, fun lost ↦ ⟨ih _ (h2 lost).1, ih _ (h2 lost).2⟩⟩
  | grant next ih =>
    refine ⟨h.1, fun s₁ since ↦ ?_⟩
    obtain ⟨h1, h2⟩ := h.2 s₁ since
    exact ⟨fun lease positive ↦ ih _ (h1 lease positive), fun lost ↦ ih _ (h2 lost)⟩
  | revoke lease next ih =>
    refine ⟨h.1, fun s₁ since ↦ ?_⟩
    obtain ⟨h1, h2⟩ := h.2 s₁ since
    exact ⟨ih _ h1, fun lost ↦ ⟨ih _ (h2 lost).1, ih _ (h2 lost).2⟩⟩

section Rules

variable {log : List (Event K V T)} {s : Store K V}

theorem wp_query {post : Except ε (Store K V) → List (Event K V T) → Store K V → Prop} {lost : ε}
    (h : inv log) (answered : ∀ s₁, c.Since s s₁ → post (.ok s₁) log s₁)
    (failed : c.lossy → ∀ s₁, c.Since s s₁ → post (.error lost) log s₁) :
    c.wp inv post (Prog.query lost) log s :=
  ⟨h, fun s₁ since ↦ ⟨⟨h, answered s₁ since⟩, fun lossy ↦ ⟨h, failed lossy s₁ since⟩⟩⟩

theorem wp_submit {post : Except ε (Bool × ℕ) → List (Event K V T) → Store K V → Prop} {lost : ε}
    {tag : T} {request : Txn K V} (h : inv log)
    (change : ∀ s₁, c.Since s s₁ → request.succeeds s₁ = true → c.change s₁ (request.run s₁))
    (keep : ∀ s₁, c.Since s s₁ → inv (log ++ [.ofTxn tag request s₁]))
    (answered : ∀ s₁, c.Since s s₁ → post (.ok (request.succeeds s₁, (request.run s₁).revision))
      (log ++ [.ofTxn tag request s₁]) (request.run s₁))
    (failed : c.lossy → ∀ s₁, c.Since s s₁ → post (.error lost) log s₁ ∧
      post (.error lost) (log ++ [.ofTxn tag request s₁]) (request.run s₁)) :
    c.wp inv post (Prog.submit lost tag request) log s :=
  ⟨h, fun s₁ since ↦ ⟨change s₁ since, ⟨keep s₁ since, answered s₁ since⟩, fun lossy ↦
    ⟨⟨h, (failed lossy s₁ since).1⟩, ⟨keep s₁ since, (failed lossy s₁ since).2⟩⟩⟩⟩

theorem wp_grantLease {post : Except ε ℕ → List (Event K V T) → Store K V → Prop} {lost : ε}
    (h : inv log) (answered : ∀ s₁, c.Since s s₁ → ∀ lease, lease ≠ 0 → post (.ok lease) log s₁)
    (failed : c.lossy → ∀ s₁, c.Since s s₁ → post (.error lost) log s₁) :
    c.wp inv post (Prog.grantLease lost) log s :=
  ⟨h, fun s₁ since ↦ ⟨fun lease positive ↦ ⟨h, answered s₁ since lease positive⟩, fun lossy ↦
    ⟨h, failed lossy s₁ since⟩⟩⟩

theorem wp_revokeLease {post : Except ε Unit → List (Event K V T) → Store K V → Prop} {lost : ε}
    {lease : ℕ} (h : inv log) (answered : ∀ s₁, c.Since s s₁ → post (.ok ()) log s₁)
    (failed : c.lossy → ∀ s₁, c.Since s s₁ → post (.error lost) log s₁) :
    c.wp inv post (Prog.revokeLease lost lease) log s := by
  refine ⟨h, fun s₁ since ↦ ?_⟩
  have later : c.Since s (s₁.expire lease) := since.tail (c.expires _ _)
  exact ⟨⟨h, answered _ later⟩, fun lossy ↦
    ⟨⟨h, failed lossy _ since⟩, ⟨h, failed lossy _ later⟩⟩⟩

/-- Sequencing of programs that have to keep the invariant only. -/
theorem wp_then {p : Prog K V T ε α} {f : α → Prog K V T ε β}
    (h : c.wp inv (fun _ _ _ ↦ True) p log s)
    (next : ∀ a log s, inv log → c.wp inv (fun _ _ _ ↦ True) (f a) log s) :
    c.wp inv (fun _ _ _ ↦ True) (p >>= f) log s := by
  refine wp_bind (wp_mono (fun result log s past _ ↦ ?_) h)
  cases result with
  | ok a => exact next a log s past
  | error e => trivial

/-- A loop with a bound on its rounds: every round keeps the loop invariant or ends the loop. -/
theorem wp_retry {post : Except ε α → List (Event K V T) → Store K V → Prop} {exhausted : ε}
    {round : Prog K V T ε (Option α)} (loop : List (Event K V T) → Store K V → Prop)
    (step : ∀ log s, loop log s → c.wp inv (fun result log s ↦ match result with
      | .ok (some a) => post (.ok a) log s
      | .ok none => loop log s
      | .error e => post (.error e) log s) round log s)
    (ends : ∀ log s, loop log s → inv log ∧ post (.error exhausted) log s) (n : ℕ)
    (h : loop log s) : c.wp inv post (Prog.retry exhausted round n) log s := by
  induction n generalizing log s with
  | zero => exact ends log s h
  | succ n ih =>
    refine wp_bind (wp_mono (fun result log s hinv hresult ↦ ?_) (step log s h))
    match result with
    | .ok (some a) => exact ⟨hinv, hresult⟩
    | .ok none => exact ih hresult
    | .error e => exact hresult

end Rules

/-- A program of which every single transaction is fine, whatever it has read before. -/
theorem wp_of_issues {P : Txn K V → Prop} {Q : Event K V T → Prop}
    (commit : ∀ tag request s, P request → Q (.ofTxn tag request s) ∧
      (request.succeeds s = true → c.change s (request.run s)))
    {p : Prog K V T ε α} (issues : p.Issues P) {log : List (Event K V T)} {s : Store K V}
    (past : ∀ event ∈ log, Q event) :
    c.wp (fun log ↦ ∀ event ∈ log, Q event) (fun _ _ _ ↦ True) p log s := by
  induction p generalizing log s with
  | done result => exact ⟨past, trivial⟩
  | read next ih => exact ⟨past, fun s₁ _ ↦ ⟨ih _ (issues _) past, fun _ ↦ ih _ (issues _) past⟩⟩
  | txn tag request next ih =>
    refine ⟨past, fun s₁ _ ↦ ?_⟩
    obtain ⟨hevent, hchange⟩ := commit tag request s₁ issues.1
    have extended : ∀ event ∈ log ++ [.ofTxn tag request s₁], Q event := by
      intro event mem
      rcases List.mem_append.mp mem with mem | mem
      · exact past event mem
      · rw [List.mem_singleton.mp mem]
        exact hevent
    exact ⟨hchange, ih _ (issues.2 _) extended,
      fun _ ↦ ⟨ih _ (issues.2 _) past, ih _ (issues.2 _) extended⟩⟩
  | grant next ih =>
    exact ⟨past, fun s₁ _ ↦ ⟨fun _ _ ↦ ih _ (issues _) past, fun _ ↦ ih _ (issues _) past⟩⟩
  | revoke lease next ih =>
    exact ⟨past, fun s₁ _ ↦ ⟨ih _ (issues _) past,
      fun _ ↦ ⟨ih _ (issues _) past, ih _ (issues _) past⟩⟩⟩

/-- One served request keeps the precondition and is a change the others may rely on. -/
theorem wp_served {post : Except ε α → List (Event K V T) → Store K V → Prop}
    {p p' : Prog K V T ε α} {log : List (Event K V T)} {s s₁ s' : Store K V}
    {event : Option (Event K V T)} (h : c.wp inv post p log s) (since : c.Since s s₁)
    (served : p.Served c.lossy s₁ p' s' event) :
    c.Since s₁ s' ∧ c.wp inv post p' (log ++ event.toList) s' := by
  have commits : ∀ (tag : T) (request : Txn K V) next, c.wp inv post (.txn tag request next) log s →
      c.Since s₁ (request.run s₁) := by
    intro tag request next h
    cases committed : request.succeeds s₁ with
    | false => rw [Txn.run, committed]; exact .refl
    | true => exact .single ((h.2 s₁ since).1 committed)
  cases served with
  | read next => exact ⟨.refl, by simpa using (h.2 s₁ since).1⟩
  | txn tag request next => exact ⟨commits _ _ _ h, (h.2 s₁ since).2.1⟩
  | grant next _ lease positive => exact ⟨.refl, by simpa using (h.2 s₁ since).1 lease positive⟩
  | revoke lease next => exact ⟨.single (c.expires _ _), by simpa using (h.2 s₁ since).1⟩
  | readLost next _ lost => exact ⟨.refl, by simpa using (h.2 s₁ since).2 lost⟩
  | txnLost tag request next _ lost => exact ⟨.refl, by simpa using ((h.2 s₁ since).2.2 lost).1⟩
  | txnUnanswered tag request next _ lost => exact ⟨commits _ _ _ h, ((h.2 s₁ since).2.2 lost).2⟩
  | grantLost next _ lost => exact ⟨.refl, by simpa using (h.2 s₁ since).2 lost⟩
  | revokeLost lease next _ lost => exact ⟨.refl, by simpa using ((h.2 s₁ since).2 lost).1⟩
  | revokeUnanswered lease next _ lost =>
    exact ⟨.single (c.expires _ _), by simpa using ((h.2 s₁ since).2 lost).2⟩

end Contract

/-- What happened to the store: a write of a client, or a change with another cause. -/
inductive Record (K V T : Type) [LinearOrder K]
  | own (client : ℕ) (event : Event K V T)
  | other (before after : Store K V)

namespace Record

def before : Record K V T → Store K V
  | .own _ event => event.before
  | .other before _ => before

def after : Record K V T → Store K V
  | .own _ event => event.after
  | .other _ after => after

def ownedBy (client : ℕ) : Record K V T → Option (Event K V T)
  | .own owner event => if owner = client then some event else none
  | .other _ _ => none

end Record

/-- Clients at work on one store, with the record of all changes. -/
structure System (K V T ε : Type) [LinearOrder K] (α Job : Type) where
  store : Store K V
  clients : List (Job × Prog K V T ε α)
  history : List (Record K V T)

namespace System

variable {sys sys' : System K V T ε α Job} {c : Contract K V} {program : Job → Prog K V T ε α}
  {env : Store K V → Store K V → Prop}

def initial (s : Store K V) : System K V T ε α Job := ⟨s, [], []⟩

/-- The writes of one client, in order. -/
def writes (history : List (Record K V T)) (client : ℕ) : List (Event K V T) :=
  history.filterMap (Record.ownedBy client)

def record (client : ℕ) (before after : Store K V) : Option (Event K V T) → Record K V T
  | some event => .own client event
  | none => .other before after

/-- Any client may be served next, a new one may start, and the store may change by itself. -/
inductive Step (lossy : Prop) (program : Job → Prog K V T ε α)
    (env : Store K V → Store K V → Prop) : System K V T ε α Job → System K V T ε α Job → Prop
  | start (sys : System K V T ε α Job) (job : Job) : Step lossy program env sys
      ⟨sys.store, sys.clients ++ [(job, program job)], sys.history⟩
  | serve (sys : System K V T ε α Job) (client : ℕ) (job : Job) (p p' : Prog K V T ε α)
      (s' : Store K V) (event : Option (Event K V T)) : sys.clients[client]? = some (job, p) →
      p.Served lossy sys.store p' s' event → Step lossy program env sys
        ⟨s', sys.clients.set client (job, p'),
          sys.history ++ [record client sys.store s' event]⟩
  | other (sys : System K V T ε α Job) (s' : Store K V) : env sys.store s' →
      Step lossy program env sys ⟨s', sys.clients, sys.history ++ [.other sys.store s']⟩

/-- Reachable by any schedule from a store without clients. -/
inductive Reachable (lossy : Prop) (program : Job → Prog K V T ε α)
    (env : Store K V → Store K V → Prop) (s : Store K V) : System K V T ε α Job → Prop
  | initial : Reachable lossy program env s (initial s)
  | step {sys sys' : System K V T ε α Job} : Reachable lossy program env s sys →
      Step lossy program env sys sys' → Reachable lossy program env s sys'

omit [DecidableEq V] in
theorem writes_record (history : List (Record K V T)) (client other : ℕ)
    (before after : Store K V) (event : Option (Event K V T)) :
    writes (history ++ [record other before after event]) client =
      writes history client ++ if other = client then event.toList else [] := by
  rw [writes, List.filterMap_append]
  congr 1
  cases event with
  | none => simp [record, Record.ownedBy]
  | some event => by_cases same : other = client <;> simp [record, Record.ownedBy, same]

theorem Reachable.steps {lossy : Prop} {s₀ : Store K V} (h : Reachable lossy program env s₀ sys)
    (steps : Relation.ReflTransGen (Step lossy program env) sys sys') :
    Reachable lossy program env s₀ sys' := by
  induction steps with
  | refl => exact h
  | tail _ step ih => exact ih.step step

/-- What is different later was changed by a recorded step. -/
theorem steps_changed {lossy : Prop} {γ : Type} (f : Store K V → γ)
    (steps : Relation.ReflTransGen (Step lossy program env) sys sys') :
    ∃ new, sys'.history = sys.history ++ new ∧
      (f sys'.store = f sys.store ∨ ∃ r ∈ new, f r.before ≠ f r.after) := by
  have extend : ∀ {middle : System K V T ε α Job} {s' : Store K V} {new : List (Record K V T)}
      (r : Record K V T), r.before = middle.store → r.after = s' →
      middle.history = sys.history ++ new →
      (f middle.store = f sys.store ∨ ∃ r ∈ new, f r.before ≠ f r.after) →
      ∃ new, middle.history ++ [r] = sys.history ++ new ∧
        (f s' = f sys.store ∨ ∃ r ∈ new, f r.before ≠ f r.after) := by
    intro middle s' new r hbefore hafter past h
    refine ⟨new ++ [r], by rw [past, List.append_assoc], ?_⟩
    rcases h with same | ⟨old, mem, changed⟩
    · by_cases quiet : f r.before = f r.after
      · rw [← hafter, ← quiet, hbefore]
        exact .inl same
      · exact .inr ⟨r, by simp, quiet⟩
    · exact .inr ⟨old, by simp [mem], changed⟩
  induction steps with
  | refl => exact ⟨[], (List.append_nil _).symm, .inl rfl⟩
  | tail _ step ih =>
    obtain ⟨new, past, h⟩ := ih
    cases step with
    | start job => exact ⟨new, past, h⟩
    | serve i job p p' s' event found served =>
      refine extend _ ?_ ?_ past h
      · cases served <;> rfl
      · cases served <;> rfl
    | other s' change => exact extend _ rfl rfl past h

section Execution

/-- One request of a client, if it has any. -/
def serve (sys : System K V T ε α Job) (client lease : ℕ) : System K V T ε α Job :=
  match sys.clients[client]? with
  | none => sys
  | some (job, p) => match p.serve lease sys.store with
    | none => sys
    | some (p', s', event) => ⟨s', sys.clients.set client (job, p'),
        sys.history ++ [record client sys.store s' event]⟩

/-- A new client, alone at work for so many requests. -/
def perform (program : Job → Prog K V T ε α) (sys : System K V T ε α Job) (job : Job)
    (lease requests : ℕ) : System K V T ε α Job :=
  (fun sys' ↦ sys'.serve sys.clients.length lease)^[requests]
    ⟨sys.store, sys.clients ++ [(job, program job)], sys.history⟩

variable {lossy : Prop} {s₀ : Store K V}

theorem serve_cases (sys : System K V T ε α Job) (client lease : ℕ) :
    sys.serve client lease = sys ∨ Step lossy program env sys (sys.serve client lease) := by
  unfold System.serve
  split
  · exact .inl rfl
  · next job p found =>
    split
    · exact .inl rfl
    · next p' s' event served =>
      exact .inr (.serve sys _ _ _ _ _ _ found (p.served_of_serve served))

theorem steps_serve (sys : System K V T ε α Job) (client lease : ℕ) :
    Relation.ReflTransGen (Step lossy program env) sys (sys.serve client lease) := by
  rcases serve_cases sys client lease with same | step
  · rw [same]
  · exact .single step

theorem Reachable.serve (h : Reachable lossy program env s₀ sys) (client lease : ℕ) :
    Reachable lossy program env s₀ (sys.serve client lease) := h.steps (steps_serve sys client lease)

theorem steps_perform (sys : System K V T ε α Job) (job : Job) (lease requests : ℕ) :
    Relation.ReflTransGen (Step lossy program env) sys (sys.perform program job lease requests) := by
  unfold System.perform
  induction requests with
  | zero => exact .single (.start sys job)
  | succ requests ih =>
    rw [Function.iterate_succ_apply']
    exact ih.trans (steps_serve _ _ _)

theorem Reachable.perform (h : Reachable lossy program env s₀ sys) (job : Job)
    (lease requests : ℕ) :
    Reachable lossy program env s₀ (sys.perform program job lease requests) :=
  h.steps (steps_perform sys job lease requests)

end Execution

/-- A client that meets stores of one kind only. -/
theorem steps_endsIn {lossy : Prop} {kind : Store K V → Prop} {post : Except ε α → Prop}
    (steps : Relation.ReflTransGen
      (fun sys sys' ↦ kind sys.store ∧ Step lossy program env sys sys') sys sys')
    {client : ℕ} {job : Job} {p : Prog K V T ε α} (found : sys.clients[client]? = some (job, p))
    (h : p.EndsIn kind post) :
    ∃ p', sys'.clients[client]? = some (job, p') ∧ p'.EndsIn kind post := by
  induction steps with
  | refl => exact ⟨p, found, h⟩
  | @tail middle _ _ step ih =>
    obtain ⟨p, found, h⟩ := ih
    obtain ⟨hkind, step⟩ := step
    have bound : client < middle.clients.length := by
      by_contra long
      rw [List.getElem?_eq_none (Nat.not_lt.mp long)] at found
      cases found
    cases step with
    | start job' => exact ⟨p, by rw [List.getElem?_append_left bound]; exact found, h⟩
    | serve i job' q q' s' event found' served =>
      by_cases same : i = client
      · subst same
        rw [found] at found'
        cases found'
        exact ⟨q', List.getElem?_set_self bound, h.served hkind served⟩
      · exact ⟨p, by rw [List.getElem?_set_ne same]; exact found, h⟩
    | other s' change => exact ⟨p, found, h⟩

/-- What no client wrote is an ended lease or the environment's. -/
theorem Reachable.others {lossy : Prop} {s₀ : Store K V} (h : Reachable lossy program env s₀ sys)
    {before after : Store K V} (mem : .other before after ∈ sys.history) :
    after = before ∨ (∃ lease, after = before.expire lease) ∨ env before after := by
  induction h with
  | initial => cases mem
  | step _ step ih =>
    cases step with
    | start job => exact ih mem
    | serve i job p p' s' event found served =>
      rcases List.mem_append.mp mem with mem | mem
      · exact ih mem
      · have new := List.mem_singleton.mp mem
        cases served with
        | read next =>
          cases new
          exact .inl rfl
        | txn tag request next => cases new
        | grant next _ lease positive =>
          cases new
          exact .inl rfl
        | revoke lease next =>
          cases new
          exact .inr (.inl ⟨lease, rfl⟩)
        | readLost next _ lost =>
          cases new
          exact .inl rfl
        | txnLost tag request next _ lost =>
          cases new
          exact .inl rfl
        | txnUnanswered tag request next _ lost => cases new
        | grantLost next _ lost =>
          cases new
          exact .inl rfl
        | revokeLost lease next _ lost =>
          cases new
          exact .inl rfl
        | revokeUnanswered lease next _ lost =>
          cases new
          exact .inr (.inl ⟨lease, rfl⟩)
    | other s' change =>
      rcases List.mem_append.mp mem with mem | mem
      · exact ih mem
      · cases List.mem_singleton.mp mem
        exact .inr (.inr change)

/-- Why the store changed from the one to the other. -/
inductive Cause (P : Txn K V → Prop) (env : Store K V → Store K V → Prop) :
    Store K V → Store K V → Prop
  | none (s : Store K V) : Cause P env s s
  | txn (request : Txn K V) (s : Store K V) : P request → request.succeeds s = true →
      Cause P env s (request.run s)
  | expire (s : Store K V) (lease : ℕ) : Cause P env s (s.expire lease)
  | other (s s' : Store K V) : env s s' → Cause P env s s'

section Causes

variable {lossy : Prop} {P : Txn K V → Prop} {s₀ : Store K V}

theorem Prog.Served.cause {p p' : Prog K V T ε α} {s s' : Store K V}
    {event : Option (Event K V T)} (h : p.Served lossy s p' s' event) (issues : p.Issues P) :
    Cause P env s s' ∧ p'.Issues P := by
  have run : ∀ request : Txn K V, P request → Cause P env s (request.run s) := by
    intro request hrequest
    cases committed : request.succeeds s with
    | false =>
      rw [Txn.run, committed]
      exact .none s
    | true => exact .txn request s hrequest committed
  cases h with
  | read next => exact ⟨.none _, issues _⟩
  | txn tag request next => exact ⟨run _ issues.1, issues.2 _⟩
  | grant next _ lease positive => exact ⟨.none _, issues _⟩
  | revoke lease next => exact ⟨.expire _ _, issues _⟩
  | readLost next _ lost => exact ⟨.none _, issues _⟩
  | txnLost tag request next _ lost => exact ⟨.none _, issues.2 _⟩
  | txnUnanswered tag request next _ lost => exact ⟨run _ issues.1, issues.2 _⟩
  | grantLost next _ lost => exact ⟨.none _, issues _⟩
  | revokeLost lease next _ lost => exact ⟨.none _, issues _⟩
  | revokeUnanswered lease next _ lost => exact ⟨.expire _ _, issues _⟩

/-- One step: the store changes for a cause, which is recorded, and the clients go on as they are
meant to. -/
theorem Step.cause (issues : ∀ job, (program job).Issues P) (step : Step lossy program env sys sys')
    (clients : ∀ client ∈ sys.clients, client.2.Issues P) :
    Cause P env sys.store sys'.store ∧ (∀ client ∈ sys'.clients, client.2.Issues P) ∧
    ((sys'.history = sys.history ∧ sys'.store = sys.store) ∨
      ∃ r, sys'.history = sys.history ++ [r] ∧ r.before = sys.store ∧ r.after = sys'.store) := by
  cases step with
  | start job =>
    refine ⟨.none _, fun client mem ↦ ?_, .inl ⟨rfl, rfl⟩⟩
    rcases List.mem_append.mp mem with mem | mem
    · exact clients client mem
    · rw [List.mem_singleton.mp mem]
      exact issues job
  | serve i job p p' s' event found served =>
    have next : Cause P env sys.store s' ∧ p'.Issues P :=
      Prog.Served.cause served (clients (job, p) (List.mem_of_getElem? found))
    refine ⟨next.1, fun client mem ↦ ?_, .inr ⟨_, rfl, ?_, ?_⟩⟩
    · rcases List.mem_or_eq_of_mem_set mem with mem | rfl
      · exact clients client mem
      · exact next.2
    · cases served <;> rfl
    · cases served <;> rfl
  | other s' change => exact ⟨.other _ _ change, clients, .inr ⟨_, rfl, rfl, rfl⟩⟩

theorem Cause.later {s s' : Store K V} (h : Cause P env s s')
    (later : ∀ s s', env s s' → Store.Later s s') : Store.Later s s' := by
  cases h with
  | none => exact Store.Later.refl s
  | txn request _ _ _ => exact Txn.later_run request s
  | expire _ lease => exact Store.Later.expire s lease
  | other _ _ change => exact later _ _ change

/-- What is recorded after a state of the system is later than its store. -/
theorem steps_later (later : ∀ s s', env s s' → Store.Later s s')
    (steps : Relation.ReflTransGen (Step lossy program env) sys sys') :
    Store.Later sys.store sys'.store ∧ ∃ new, sys'.history = sys.history ++ new ∧
      ∀ r ∈ new, Store.Later sys.store r.before ∧ Store.Later r.before r.after := by
  induction steps with
  | refl => exact ⟨Store.Later.refl _, [], (List.append_nil _).symm, fun _ h ↦ nomatch h⟩
  | tail _ step ih =>
    obtain ⟨past, new, history, records⟩ := ih
    obtain ⟨cause, -, ⟨same, -⟩ | ⟨r, grown, hbefore, hafter⟩⟩ :=
      step.cause (fun job ↦ (program job).issues_true) fun client _ ↦ client.2.issues_true
    · exact ⟨past.trans (cause.later later), new, same.trans history, records⟩
    · refine ⟨past.trans (cause.later later), new ++ [r], ?_, fun q mem ↦ ?_⟩
      · rw [grown, history, List.append_assoc]
      · rcases List.mem_append.mp mem with mem | mem
        · exact records q mem
        · rw [List.mem_singleton.mp mem, hbefore, hafter]
          exact ⟨past, cause.later later⟩

variable (issues : ∀ job, (program job).Issues P)

include issues

/-- An invariant of the store that every transaction of the clients keeps. -/
theorem Reachable.store_inv {inv : Store K V → Prop}
    (commit : ∀ request s, P request → request.succeeds s = true → inv s → inv (request.run s))
    (expire : ∀ s lease, inv s → inv (s.expire lease))
    (other : ∀ s s', env s s' → inv s → inv s') (init : inv s₀)
    (h : Reachable lossy program env s₀ sys) :
    inv sys.store ∧ ∀ client ∈ sys.clients, client.2.Issues P := by
  have keep : ∀ {s s' : Store K V}, Cause P env s s' → inv s → inv s' := by
    intro s s' cause before
    cases cause with
    | none => exact before
    | txn request _ hrequest committed => exact commit _ _ hrequest committed before
    | expire _ lease => exact expire _ lease before
    | other _ _ change => exact other _ _ change before
  induction h with
  | initial => exact ⟨init, by simp [System.initial]⟩
  | step _ step ih =>
    obtain ⟨cause, clients, -⟩ := step.cause issues ih.2
    exact ⟨keep cause ih.1, clients⟩

/-- Every recorded change has a cause, and the records follow one another. -/
theorem Reachable.causes (later : ∀ s s', env s s' → Store.Later s s')
    (h : Reachable lossy program env s₀ sys) :
    (∀ r ∈ sys.history, Cause P env r.before r.after ∧ Store.Later s₀ r.before ∧
      Store.Later r.after sys.store) ∧ Store.Later s₀ sys.store ∧
    ∀ client ∈ sys.clients, client.2.Issues P := by
  induction h with
  | initial =>
    exact ⟨by simp [System.initial], Store.Later.refl s₀, by simp [System.initial]⟩
  | step _ step ih =>
    obtain ⟨records, start, clients⟩ := ih
    obtain ⟨cause, clients, ⟨history, -⟩ | ⟨r, history, hbefore, hafter⟩⟩ :=
      step.cause issues clients
    · refine ⟨fun r mem ↦ ?_, start.trans (cause.later later), clients⟩
      rw [history] at mem
      obtain ⟨h1, h2, h3⟩ := records r mem
      exact ⟨h1, h2, h3.trans (cause.later later)⟩
    · refine ⟨fun q mem ↦ ?_, start.trans (cause.later later), clients⟩
      rw [history] at mem
      rcases List.mem_append.mp mem with mem | mem
      · obtain ⟨h1, h2, h3⟩ := records q mem
        exact ⟨h1, h2, h3.trans (cause.later later)⟩
      · rw [List.mem_singleton.mp mem, hbefore, hafter]
        exact ⟨cause, start, Store.Later.refl _⟩

end Causes

/-- Verified clients keep their contracts in every schedule. -/
theorem Reachable.wp {inv : Job → List (Event K V T) → Prop}
    {post : Job → Except ε α → List (Event K V T) → Store K V → Prop}
    (verified : ∀ job s, c.wp (inv job) (post job) (program job) [] s)
    (rely : ∀ s s', env s s' → c.change s s') {s₀ : Store K V}
    (h : Reachable c.lossy program env s₀ sys) :
    c.Since s₀ sys.store ∧
    (∀ r ∈ sys.history, c.Since s₀ r.before ∧ c.Since r.before r.after ∧ c.Since r.after sys.store) ∧
    (∀ client, sys.clients.length ≤ client → writes sys.history client = []) ∧
    ∀ (client : ℕ) (job : Job) (p : Prog K V T ε α), sys.clients[client]? = some (job, p) →
      ∃ s, c.Since s sys.store ∧ c.wp (inv job) (post job) p (writes sys.history client) s := by
  induction h with
  | initial => exact ⟨.refl, by simp [System.initial], fun _ _ ↦ rfl, by simp [System.initial]⟩
  | @step sys sys' reach step ih =>
    obtain ⟨past, records, idle, hold⟩ := ih
    have extend : ∀ (r : Record K V T) (s' : Store K V), r.before = sys.store → r.after = s' →
        c.Since sys.store s' → ∀ q ∈ sys.history ++ [r], c.Since s₀ q.before ∧
        c.Since q.before q.after ∧ c.Since q.after s' := by
      intro r s' hbefore hafter since q hq
      rcases List.mem_append.mp hq with hq | hq
      · obtain ⟨h1, h2, h3⟩ := records q hq
        exact ⟨h1, h2, h3.trans since⟩
      · rw [List.mem_singleton.mp hq, hbefore, hafter]
        exact ⟨past, since, .refl⟩
    cases step with
    | start job =>
      refine ⟨past, records, fun client long ↦ ?_, fun client job' p found ↦ ?_⟩
      · exact idle client (by simp only [List.length_append] at long; omega)
      · rw [List.getElem?_append] at found
        split at found
        · exact hold client job' p found
        · next long =>
          have first : client - sys.clients.length = 0 := by
            by_contra more
            rw [List.getElem?_eq_none (by simp only [List.length_singleton]; omega)] at found
            cases found
          rw [first] at found
          cases found
          refine ⟨sys.store, .refl, ?_⟩
          rw [idle client (Nat.not_lt.mp long)]
          exact verified _ _
    | serve i job p p' s' event found served =>
      obtain ⟨s, since, hwp⟩ := hold i job p found
      obtain ⟨hstep, hnext⟩ := Contract.wp_served hwp since served
      have ends : (record i sys.store s' event).before = sys.store ∧
          (record i sys.store s' event).after = s' := by
        cases served <;> exact ⟨rfl, rfl⟩
      have bound : i < sys.clients.length := by
        by_contra long
        rw [List.getElem?_eq_none (Nat.not_lt.mp long)] at found
        cases found
      refine ⟨past.trans hstep, extend _ _ ends.1 ends.2 hstep, fun client long ↦ ?_,
        fun client job' q hq ↦ ?_⟩
      · rw [List.length_set] at long
        rw [writes_record, idle client long, if_neg (by omega)]
        rfl
      · rw [writes_record]
        by_cases same : i = client
        · subst same
          rw [List.getElem?_set_self bound] at hq
          cases hq
          rw [if_pos rfl]
          exact ⟨s', .refl, hnext⟩
        · rw [List.getElem?_set_ne same] at hq
          obtain ⟨s, since, hwp⟩ := hold client job' q hq
          rw [if_neg same, List.append_nil]
          exact ⟨s, since.trans hstep, hwp⟩
    | other s' change =>
      have since : c.Since sys.store s' := .single (rely _ _ change)
      have quiet : ∀ client, writes (sys.history ++ [Record.other sys.store s']) client =
          writes sys.history client := by
        intro client
        simp [writes, Record.ownedBy]
      refine ⟨past.trans since, extend _ _ rfl rfl since, fun client long ↦ ?_,
        fun client job' q hq ↦ ?_⟩
      · rw [quiet]
        exact idle client long
      · obtain ⟨s, since', hwp⟩ := hold client job' q hq
        refine ⟨s, since'.trans since, ?_⟩
        rw [quiet]
        exact hwp

section Instants

variable {inv : Job → List (Event K V T) → Prop}
  {post : Job → Except ε α → List (Event K V T) → Store K V → Prop}
  (verified : ∀ job s, c.wp (inv job) (post job) (program job) [] s)
  (rely : ∀ s s', env s s' → c.change s s') {s₀ : Store K V}

include verified rely

theorem Reachable.since (h : Reachable c.lossy program env s₀ sys)
    (steps : Relation.ReflTransGen (Step c.lossy program env) sys sys') :
    c.Since sys.store sys'.store := by
  induction steps with
  | refl => exact .refl
  | @tail middle _ past step ih =>
    refine ih.trans ?_
    cases step with
    | start job => exact .refl
    | serve i job p p' s' event found served =>
      obtain ⟨-, -, -, hold⟩ := Reachable.wp verified rely (h.steps past)
      obtain ⟨s, since, hwp⟩ := hold i job p found
      exact (Contract.wp_served hwp since served).1
    | other s' change => exact .single (rely _ _ change)

/-- A call that has gone on since a state of the system has done so at an instant in between. -/
theorem Reachable.instant (h : Reachable c.lossy program env s₀ sys)
    (steps : Relation.ReflTransGen (Step c.lossy program env) sys sys') {client : ℕ} {job : Job}
    {p : Prog K V T ε α} (found : sys.clients[client]? = some (job, p)) :
    ∃ p', sys'.clients[client]? = some (job, p') ∧ (p' = p ∨
      ∃ middle, Relation.ReflTransGen (Step c.lossy program env) sys middle ∧
        Relation.ReflTransGen (Step c.lossy program env) middle sys' ∧
        c.wp (inv job) (post job) p' (writes sys'.history client) middle.store) := by
  induction steps with
  | refl => exact ⟨p, found, .inl rfl⟩
  | @tail last next past step ih =>
    obtain ⟨p', found', same⟩ := ih
    have bound : client < last.clients.length := by
      by_contra long
      rw [List.getElem?_eq_none (Nat.not_lt.mp long)] at found'
      cases found'
    -- the steps of others leave the call where it was
    have keep : next.clients[client]? = some (job, p') →
        writes next.history client = writes last.history client →
        ∃ p', next.clients[client]? = some (job, p') ∧ (p' = p ∨
          ∃ middle, Relation.ReflTransGen (Step c.lossy program env) sys middle ∧
            Relation.ReflTransGen (Step c.lossy program env) middle next ∧
            c.wp (inv job) (post job) p' (writes next.history client) middle.store) := by
      intro kept quiet
      refine ⟨p', kept, same.imp_right fun ⟨middle, before, after, hwp⟩ ↦ ?_⟩
      rw [quiet]
      exact ⟨middle, before, after.tail step, hwp⟩
    cases step with
    | start job' => exact keep (by rw [List.getElem?_append_left bound]; exact found') rfl
    | serve i job' q q' s' event found'' served =>
      by_cases mine : i = client
      · subst mine
        cases found'.symm.trans found''
        obtain ⟨-, -, -, hold⟩ := Reachable.wp verified rely (h.steps past)
        obtain ⟨s, since, hwp⟩ := hold i job p' found'
        refine ⟨q', List.getElem?_set_self bound, .inr ⟨_, past.tail
          (.serve last i job p' q' s' event found' served), .refl, ?_⟩⟩
        rw [writes_record, if_pos rfl]
        exact (Contract.wp_served hwp since served).2
      · refine keep (by rw [List.getElem?_set_ne mine]; exact found') ?_
        rw [writes_record, if_neg mine, List.append_nil]
    | other s' change =>
      refine keep found' ?_
      simp [writes, Record.ownedBy]

end Instants

end System

end Requests

end RevisionStore
