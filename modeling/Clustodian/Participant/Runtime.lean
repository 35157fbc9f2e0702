import Clustodian.Participant.Frontier

namespace Clustodian

/-- A message picked for execution, with the key that keeps others of its partition out. -/
structure Scheduled where
  message : TransitionMessage
  executionKey : String
  deriving DecidableEq

/-- A `process_messages` call between its critical section and its end. -/
structure Call where
  queueRevision : Revision
  observedIds : List String
  scheduled : List Scheduled
  recorded : Bool
  deriving DecidableEq

/-- After its completion a worker still has to advance the watermark and to release its key. -/
inductive WorkerPhase
  | running
  | advancing (revision : Revision)
  | finished
  deriving DecidableEq

structure Worker where
  job : Scheduled
  phase : WorkerPhase
  deriving DecidableEq

/-- The workers of one runtime, with the record of the queue images given to it, of the ids its
workers have completed and of the revisions they have advanced to. -/
structure Runtime where
  inFlight : BTreeMap String String
  frontier : CompletionState
  call : Option Call
  workers : List Worker
  given : List Revision
  completions : List String
  advances : List Revision

/-- Who runs and what the queue holds at each revision. -/
structure Participant where
  instance_ : InstanceId
  queue : Revision → List TransitionMessage

section Calls

def executionKey (message : TransitionMessage) : String :=
  message.resource ++ "/" ++ message.partition

def Participant.owns (participant : Participant) (message : TransitionMessage) : Bool :=
  message.instance_ = participant.instance_.asStr && message.messageId ≠ ""

/-- The variables of the critical section. -/
structure Admission where
  inFlight : BTreeMap String String
  observedIds : List String
  scheduled : List Scheduled

def Admission.next (participant : Participant) (admission : Admission)
    (message : TransitionMessage) : Admission :=
  if participant.owns message then
    match admission.inFlight[executionKey message]? with
    | some existing =>
      if existing = message.messageId then
        { admission with observedIds := admission.observedIds ++ [message.messageId] }
      else admission
    | none => ⟨admission.inFlight.insert (executionKey message) message.messageId,
        admission.observedIds ++ [message.messageId],
        admission.scheduled ++ [⟨message, executionKey message⟩]⟩
  else admission

def Participant.schedule (participant : Participant) (inFlight : BTreeMap String String)
    (messages : List TransitionMessage) : Admission :=
  messages.foldl (Admission.next participant) ⟨inFlight, [], []⟩

end Calls

/-- What can happen next: a call enters with an image of the queue, records what it observed, spawns
a worker or returns, and a worker completes, advances the watermark or releases its key. -/
inductive RuntimeAction
  | enter (revision : Revision)
  | observe
  | spawn
  | leave
  | complete (worker : ℕ)
  | advance (worker : ℕ)
  | remove (worker : ℕ)
  deriving DecidableEq

namespace Runtime

def initial : Runtime := ⟨∅, .new, none, [], [], [], []⟩

/-- Images arrive in the order of their revisions. -/
def enter (participant : Participant) (r : Runtime) (revision : Revision) : Option Runtime :=
  if r.call.isNone ∧ ∀ earlier ∈ r.given, earlier ≤ revision then
    let admission := participant.schedule r.inFlight (participant.queue revision)
    some ⟨admission.inFlight, r.frontier,
      some ⟨revision, admission.observedIds, admission.scheduled, false⟩, r.workers,
      r.given ++ [revision], r.completions, r.advances⟩
  else none

def observe (r : Runtime) : Option Runtime :=
  match r.call with
  | some call =>
    if call.recorded then none
    else some { r with
      frontier := observeFrontier r.frontier call.queueRevision call.observedIds
      call := some { call with recorded := true } }
  | none => none

def spawn (r : Runtime) : Option Runtime :=
  match r.call with
  | some ⟨revision, observedIds, job :: rest, true⟩ => some { r with
      call := some ⟨revision, observedIds, rest, true⟩
      workers := r.workers ++ [⟨job, .running⟩] }
  | _ => none

def leave (r : Runtime) : Option Runtime :=
  match r.call with
  | some ⟨_, _, [], true⟩ => some { r with call := none }
  | _ => none

/-- A worker's message has been executed with `Applied`, `SessionLost` or `AlreadyCompleted`. -/
def complete (r : Runtime) (worker : ℕ) : Option Runtime :=
  match r.workers[worker]? with
  | some ⟨job, .running⟩ =>
    let completed := r.frontier.complete job.message.messageId
    some { r with
      frontier := completed.1
      workers := r.workers.set worker ⟨job, match completed.2 with
        | some revision => .advancing revision
        | none => .finished⟩
      completions := r.completions ++ [job.message.messageId] }
  | _ => none

def advance (r : Runtime) (worker : ℕ) : Option Runtime :=
  match r.workers[worker]? with
  | some ⟨job, .advancing revision⟩ => some { r with
      workers := r.workers.set worker ⟨job, .finished⟩
      advances := r.advances ++ [revision] }
  | _ => none

def remove (r : Runtime) (worker : ℕ) : Option Runtime :=
  match r.workers[worker]? with
  | some ⟨job, .finished⟩ => some { r with
      inFlight := if r.inFlight[job.executionKey]? = some job.message.messageId then
        r.inFlight.erase job.executionKey else r.inFlight
      workers := r.workers.eraseIdx worker }
  | _ => none

def step (participant : Participant) (r : Runtime) : RuntimeAction → Option Runtime
  | .enter revision => r.enter participant revision
  | .observe => r.observe
  | .spawn => r.spawn
  | .leave => r.leave
  | .complete worker => r.complete worker
  | .advance worker => r.advance worker
  | .remove worker => r.remove worker

/-- Reachable by steps that meet a condition. -/
inductive Reachable (participant : Participant) (meets : Runtime → RuntimeAction → Prop) :
    Runtime → Prop
  | initial : Reachable participant meets initial
  | step {r r' : Runtime} (action : RuntimeAction) : Reachable participant meets r →
      meets r action → r.step participant action = some r' → Reachable participant meets r'

theorem Reachable.run {participant : Participant} {meets : Runtime → RuntimeAction → Prop}
    {r r' : Runtime} (h : r.Reachable participant meets) (actions : List RuntimeAction)
    (met : ∀ r, ∀ action ∈ actions, meets r action)
    (run : actions.foldlM (Runtime.step participant) r = some r') :
    r'.Reachable participant meets := by
  induction actions generalizing r with
  | nil =>
    cases run
    exact h
  | cons action actions ih =>
    rw [List.foldlM_cons, Option.bind_eq_bind, Option.bind_eq_some_iff] at run
    obtain ⟨next, first, rest⟩ := run
    exact ih (h.step action (met r action List.mem_cons_self) first)
      (fun r action mem ↦ met r action (List.mem_cons_of_mem _ mem)) rest

end Runtime

section Steps

namespace Runtime

variable {participant : Participant} {r r' : Runtime}

theorem enter_eq_some {revision : Revision} (h : r.enter participant revision = some r') :
    r.call = none ∧ (∀ earlier ∈ r.given, earlier ≤ revision) ∧
    r' = ⟨(participant.schedule r.inFlight (participant.queue revision)).inFlight, r.frontier,
      some ⟨revision, (participant.schedule r.inFlight (participant.queue revision)).observedIds,
        (participant.schedule r.inFlight (participant.queue revision)).scheduled, false⟩, r.workers,
      r.given ++ [revision], r.completions, r.advances⟩ := by
  unfold enter at h
  split at h
  · next free =>
    cases h
    exact ⟨Option.isNone_iff_eq_none.mp free.1, free.2, rfl⟩
  · cases h

theorem observe_eq_some (h : r.observe = some r') :
    ∃ call, r.call = some call ∧ call.recorded = false ∧ r' = { r with
      frontier := observeFrontier r.frontier call.queueRevision call.observedIds
      call := some { call with recorded := true } } := by
  unfold observe at h
  split at h
  · next call found =>
    split at h
    · cases h
    · next fresh =>
      cases h
      exact ⟨call, found, Bool.eq_false_iff.mpr fresh, rfl⟩
  · cases h

theorem spawn_eq_some (h : r.spawn = some r') :
    ∃ revision observedIds job rest, r.call = some ⟨revision, observedIds, job :: rest, true⟩ ∧
      r' = { r with
        call := some ⟨revision, observedIds, rest, true⟩
        workers := r.workers ++ [⟨job, .running⟩] } := by
  unfold spawn at h
  split at h
  · next revision observedIds job rest found =>
    cases h
    exact ⟨revision, observedIds, job, rest, found, rfl⟩
  · cases h

theorem leave_eq_some (h : r.leave = some r') :
    ∃ revision observedIds, r.call = some ⟨revision, observedIds, [], true⟩ ∧
      r' = { r with call := none } := by
  unfold leave at h
  split at h
  · next revision observedIds found =>
    cases h
    exact ⟨revision, observedIds, found, rfl⟩
  · cases h

theorem complete_eq_some {worker : ℕ} (h : r.complete worker = some r') :
    ∃ job phase, r.workers[worker]? = some ⟨job, .running⟩ ∧ phase ≠ .running ∧
      (∀ revision, phase = .advancing revision →
        (r.frontier.complete job.message.messageId).2 = some revision) ∧
      r' = { r with
        frontier := (r.frontier.complete job.message.messageId).1
        workers := r.workers.set worker ⟨job, phase⟩
        completions := r.completions ++ [job.message.messageId] } := by
  unfold complete at h
  split at h
  · next job found =>
    cases h
    refine ⟨job, _, found, ?_, ?_, rfl⟩
    · split <;> simp
    · intro revision
      split
      · next advanced =>
        intro same
        rw [advanced, WorkerPhase.advancing.inj same]
      · exact fun same ↦ nomatch same
  · cases h

theorem advance_eq_some {worker : ℕ} (h : r.advance worker = some r') :
    ∃ job revision, r.workers[worker]? = some ⟨job, .advancing revision⟩ ∧ r' = { r with
      workers := r.workers.set worker ⟨job, .finished⟩
      advances := r.advances ++ [revision] } := by
  unfold advance at h
  split at h
  · next job revision found =>
    cases h
    exact ⟨job, revision, found, rfl⟩
  · cases h

theorem remove_eq_some {worker : ℕ} (h : r.remove worker = some r') :
    ∃ job inFlight, r.workers[worker]? = some ⟨job, .finished⟩ ∧ r' = { r with
      inFlight := inFlight
      workers := r.workers.eraseIdx worker } := by
  unfold remove at h
  split at h
  · next job found =>
    cases h
    exact ⟨job, _, found, rfl⟩
  · cases h

end Runtime

end Steps

section Frontier

namespace Runtime

variable {participant : Participant} {r r' : Runtime} {id : String}

/-- Somebody is going to complete the id: a running worker, or one about to be spawned. -/
def Pending (r : Runtime) (id : String) : Prop :=
  (∃ worker ∈ r.workers, worker.job.message.messageId = id ∧ worker.phase = .running) ∨
    ∃ call, r.call = some call ∧ ∃ job ∈ call.scheduled, job.message.messageId = id

/-- Nothing recorded is forgotten, and while something is recorded somebody is going to look. -/
structure Tended (r : Runtime) : Prop where
  covered : ∀ id, Listed r.frontier.revisions id → id ∈ r.frontier.completed ∨ r.Pending id
  awake : r.frontier.revisions = ∅ ∨ (∃ id, r.Pending id) ∨
    ∃ id, Listed r.frontier.revisions id ∧ id ∉ r.frontier.completed

/-- What a call records is still to be completed, or is completed and recorded already. -/
def Attended (r : Runtime) (action : RuntimeAction) : Prop :=
  action = .observe → ∀ call, r.call = some call → ∀ id ∈ call.observedIds,
    r.Pending id ∨ (id ∈ r.frontier.completed ∧ Listed r.frontier.revisions id)

/-- The frontier is left alone and nobody stops working. -/
theorem Tended.of_pending (h : r.Tended) (frontier : r'.frontier = r.frontier)
    (pending : ∀ id, r.Pending id → r'.Pending id) : r'.Tended := by
  refine ⟨fun id listed ↦ ?_, ?_⟩
  · rw [frontier] at listed ⊢
    exact (h.covered id listed).imp_right (pending id)
  · rw [frontier]
    exact h.awake.imp_right (Or.imp_left fun ⟨id, waits⟩ ↦ ⟨id, pending id waits⟩)

theorem Tended.observe (h : r.Tended) (met : r.Attended .observe) (step : r.observe = some r') :
    r'.Tended := by
  obtain ⟨call, found, -, rfl⟩ := observe_eq_some step
  have attended := met rfl call found
  have pending : ∀ {frontier} {id}, r.Pending id → Runtime.Pending { r with
      frontier := frontier
      call := some { call with recorded := true } } id := by
    intro frontier id waits
    refine waits.imp_right fun ⟨other, same, job⟩ ↦ ?_
    rw [found] at same
    cases same
    exact ⟨_, rfl, job⟩
  by_cases empty : call.observedIds.isEmpty = true
  · exact h.of_pending (if_pos empty) fun _ ↦ pending
  · have frontier : observeFrontier r.frontier call.queueRevision call.observedIds =
        r.frontier.observe call.queueRevision call.observedIds := if_neg empty
    refine ⟨fun id ⟨revision, recorded, at_, mem⟩ ↦ ?_, ?_⟩
    · simp only [frontier] at at_ ⊢
      rcases CompletionState.mem_observe at_ mem with ⟨before, at_, mem⟩ | ⟨-, mem⟩
      · exact (h.covered id ⟨revision, before, at_, mem⟩).imp_right pending
      · exact (attended id mem).elim (fun waits ↦ .inr (pending waits)) fun known ↦ .inl known.1
    · obtain ⟨id, mem⟩ : ∃ id, id ∈ call.observedIds := by
        cases ids : call.observedIds with
        | nil =>
          rw [ids] at empty
          exact absurd rfl empty
        | cons id ids => exact ⟨id, List.mem_cons_self⟩
      rcases attended id mem with waits | ⟨-, listed⟩
      · exact .inr (.inl ⟨id, pending waits⟩)
      · -- it was recorded before, so somebody was looking already
        rcases h.awake with none | ⟨other, waits⟩ | ⟨other, ⟨revision, before, at_, mem⟩, missing⟩
        · obtain ⟨revision, before, at_, -⟩ := listed
          rw [none, Std.ExtTreeMap.getElem?_empty] at at_
          cases at_
        · exact .inr (.inl ⟨other, pending waits⟩)
        · obtain ⟨after, at', keeps⟩ := CompletionState.observe_keeps call.queueRevision
            call.observedIds at_
          refine .inr (.inr ⟨other, ⟨revision, after, ?_, keeps _ mem⟩, ?_⟩)
          · simp only [frontier]
            exact at'
          · simp only [frontier]
            exact missing

theorem Tended.complete (h : r.Tended) {worker : ℕ} (step : r.complete worker = some r') :
    r'.Tended := by
  obtain ⟨job, phase, found, notRunning, -, rfl⟩ := complete_eq_some step
  have released := CompletionState.released_complete r.frontier job.message.messageId
  have pending : ∀ id, id ≠ job.message.messageId → r.Pending id → Runtime.Pending { r with
      frontier := (r.frontier.complete job.message.messageId).1
      workers := r.workers.set worker ⟨job, phase⟩
      completions := r.completions ++ [job.message.messageId] } id := by
    intro id other waits
    refine waits.imp_left fun ⟨busy, mem, same, running⟩ ↦ ⟨busy, ?_, same, running⟩
    obtain ⟨n, at_⟩ := List.getElem?_of_mem mem
    have differ : worker ≠ n := by
      rintro rfl
      rw [found] at at_
      cases at_
      exact other same.symm
    exact List.mem_of_getElem? (by rw [List.getElem?_set_ne differ]; exact at_)
  refine ⟨fun id listed ↦ ?_, released.stops.imp_right .inr⟩
  obtain ⟨revision, ids, at_, mem⟩ := listed
  have before : Listed r.frontier.revisions id := ⟨revision, ids, released.kept _ _ at_, mem⟩
  have known : id ∈ r.frontier.completed.insert job.message.messageId →
      id ∈ (r.frontier.complete job.message.messageId).1.completed :=
    fun done ↦ released.known id done ⟨revision, ids, at_, mem⟩
  rcases h.covered id before with done | waits
  · exact .inl (known ((OrderedMap.mem_insert _ _ _).mpr (.inr done)))
  · by_cases same : id = job.message.messageId
    · exact .inl (known ((OrderedMap.mem_insert _ _ _).mpr (.inl same)))
    · exact .inr (pending id same waits)

/-- Workers that are done do not count. -/
theorem pending_of_workers {workers : List Worker} (call : r'.call = r.call)
    (mem : ∀ worker ∈ r.workers, worker.phase = .running → worker ∈ workers)
    (same : r'.workers = workers) (h : r.Pending id) : r'.Pending id := by
  rcases h with ⟨worker, present, named, running⟩ | scheduled
  · exact .inl ⟨worker, same ▸ mem worker present running, named, running⟩
  · rw [← call] at scheduled
    exact .inr scheduled

theorem Tended.step (h : r.Tended) {action : RuntimeAction} (met : r.Attended action)
    (step : r.step participant action = some r') : r'.Tended := by
  cases action with
  | enter revision =>
    obtain ⟨free, -, rfl⟩ := enter_eq_some step
    refine h.of_pending rfl fun id waits ↦ waits.imp_right fun ⟨call, same, _⟩ ↦ ?_
    rw [free] at same
    cases same
  | observe => exact h.observe met step
  | spawn =>
    obtain ⟨revision, observedIds, job, rest, found, rfl⟩ := spawn_eq_some step
    refine h.of_pending rfl fun id waits ↦ ?_
    rcases waits with ⟨worker, mem, named, running⟩ | ⟨call, same, picked, mem, named⟩
    · exact .inl ⟨worker, List.mem_append_left _ mem, named, running⟩
    · rw [found] at same
      cases same
      rcases List.mem_cons.mp mem with rfl | mem
      · exact .inl ⟨_, List.mem_append_right _ (List.mem_singleton_self _), named, rfl⟩
      · exact .inr ⟨_, rfl, picked, mem, named⟩
  | leave =>
    obtain ⟨revision, observedIds, found, rfl⟩ := leave_eq_some step
    refine h.of_pending rfl fun id waits ↦ waits.imp_right fun ⟨call, same, picked, mem, _⟩ ↦ ?_
    rw [found] at same
    cases same
    cases mem
  | complete worker => exact h.complete step
  | advance worker =>
    obtain ⟨job, revision, found, rfl⟩ := advance_eq_some step
    refine h.of_pending rfl fun id ↦ pending_of_workers rfl (fun busy mem running ↦ ?_) rfl
    obtain ⟨n, at_⟩ := List.getElem?_of_mem mem
    have differ : worker ≠ n := by
      rintro rfl
      rw [found] at at_
      cases at_
      cases running
    exact List.mem_of_getElem? (by rw [List.getElem?_set_ne differ]; exact at_)
  | remove worker =>
    obtain ⟨job, inFlight, found, rfl⟩ := remove_eq_some step
    refine h.of_pending rfl fun id ↦ pending_of_workers rfl (fun busy mem running ↦ ?_) rfl
    obtain ⟨n, at_⟩ := List.getElem?_of_mem mem
    refine List.mem_eraseIdx_iff_getElem?.mpr ⟨n, fun same ↦ ?_, at_⟩
    subst same
    rw [found] at at_
    cases at_
    cases running

theorem Reachable.tended (h : r.Reachable participant Attended) : r.Tended := by
  induction h with
  | initial =>
    refine ⟨fun id ⟨revision, ids, found, _⟩ ↦ ?_, .inl rfl⟩
    simp [Runtime.initial, CompletionState.new] at found
  | step action _ met step ih => exact ih.step met step

end Runtime

/-- When nothing is under way any more, no revision is left behind. -/
theorem frontier_clears {participant : Participant} {r : Runtime}
    (reach : r.Reachable participant Runtime.Attended) (idle : r.workers = [])
    (returned : r.call = none) : r.frontier.revisions = ∅ := by
  have tended := Runtime.Reachable.tended reach
  have nobody : ∀ id, ¬r.Pending id := by
    rintro id (⟨worker, mem, -⟩ | ⟨call, found, -⟩)
    · rw [idle] at mem
      cases mem
    · rw [returned] at found
      cases found
  rcases tended.awake with none | ⟨id, waits⟩ | ⟨id, listed, missing⟩
  · exact none
  · exact absurd waits (nobody id)
  · exact absurd ((tended.covered id listed).resolve_left missing) (nobody id)

-- One message, which the images at revisions 5 and 6 hold.
namespace OneMessage

def message : TransitionMessage :=
  ⟨"db", "db_0", "a", 1, "OFFLINE", "STANDBY", "STATE_TRANSITION", "m"⟩

def participant : Participant :=
  ⟨⟨"a", by decide⟩, fun revision ↦ if revision = 5 ∨ revision = 6 then [message] else []⟩

/-- The completion slips in between a call's critical section and its record. -/
def slips : List RuntimeAction :=
  [.enter 5, .observe, .spawn, .leave, .enter 6, .complete 0, .advance 0, .remove 0, .observe,
    .leave, .enter 7, .observe, .leave]

def worked : List RuntimeAction := [.spawn, .leave, .complete 0, .advance 0, .remove 0]

end OneMessage

open OneMessage in
theorem frontier_clears_message : ∃ r : Runtime, r.Reachable participant Runtime.Attended ∧
    r.completions = ["m"] ∧ r.advances = [5] ∧ r.frontier.revisions = ∅ := by
  obtain ⟨r₁, first⟩ : ∃ r, Runtime.initial.enter participant 5 = some r := ⟨_, rfl⟩
  obtain ⟨r₂, second⟩ : ∃ r, r₁.observe = some r := by
    cases first
    exact ⟨_, rfl⟩
  have start : r₁.Reachable participant Runtime.Attended :=
    Runtime.Reachable.initial.step (.enter 5) (fun h ↦ nomatch h) first
  have call : r₁.call = some ⟨5, ["m"], [⟨message, "db/db_0"⟩], false⟩ := by
    cases first
    decide
  have recorded : r₂.Reachable participant Runtime.Attended := by
    refine start.step .observe (fun _ other found id mem ↦ .inl (.inr ?_)) second
    rw [call] at found
    cases found
    exact ⟨_, call, _, List.mem_singleton_self _, (List.mem_singleton.mp mem).symm⟩
  have outcome : (worked.foldlM (Runtime.step participant) r₂).any (fun r ↦ r.workers = [] ∧
      r.call = none ∧ r.completions = ["m"] ∧ r.advances = [5]) = true := by
    cases first
    cases second
    decide
  cases run : worked.foldlM (Runtime.step participant) r₂ with
  | none =>
    rw [run] at outcome
    cases outcome
  | some r =>
    rw [run, Option.any_some, decide_eq_true_eq] at outcome
    obtain ⟨idle, returned, completions, advances⟩ := outcome
    have reach := recorded.run worked (fun _ action mem same ↦ by simp [same, worked] at mem) run
    exact ⟨r, reach, completions, advances, frontier_clears reach idle returned⟩

open OneMessage in
theorem frontier_sticks : ∃ r : Runtime, r.Reachable participant (fun _ _ ↦ True) ∧
    r.workers = [] ∧ r.call = none ∧
    (∃ last, r.given.getLast? = some last ∧
      ∀ message ∈ participant.queue last, participant.owns message = false) ∧
    r.frontier.revisions ≠ ∅ := by
  have outcome : (slips.foldlM (Runtime.step participant) .initial).any (fun r ↦
      r.workers = [] ∧ r.call = none ∧ r.given.getLast? = some 7 ∧
        r.frontier.revisions.size = 1) = true := by decide
  cases run : slips.foldlM (Runtime.step participant) .initial with
  | none =>
    rw [run] at outcome
    cases outcome
  | some r =>
    rw [run, Option.any_some, decide_eq_true_eq] at outcome
    obtain ⟨idle, returned, last, left⟩ := outcome
    refine ⟨r, Runtime.Reachable.initial.run slips (fun _ _ _ ↦ trivial) run, idle, returned,
      ⟨7, last, fun _ mem ↦ nomatch mem⟩, fun none ↦ ?_⟩
    rw [none] at left
    cases left

end Frontier

section Watermark

variable {participant : Participant}

/-- No message of an image has to wait for another one of its partition. -/
def Participant.Unblocked (participant : Participant) (inFlight : BTreeMap String String)
    (messages : List TransitionMessage) : Prop :=
  ∀ message ∈ messages, participant.owns message = true →
    (∀ holder, inFlight[executionKey message]? = some holder → holder = message.messageId) ∧
    ∀ other ∈ messages, participant.owns other = true →
      executionKey other = executionKey message → other.messageId = message.messageId

theorem Admission.observedIds_next {admission : Admission} {message : TransitionMessage}
    {id : String} (h : id ∈ admission.observedIds) :
    id ∈ (admission.next participant message).observedIds := by
  unfold Admission.next
  split
  · split
    · split
      · exact List.mem_append_left _ h
      · exact h
    · exact List.mem_append_left _ h
  · exact h

/-- The critical section observes everything that is not blocked. -/
theorem Participant.Unblocked.observes {inFlight : BTreeMap String String}
    {messages : List TransitionMessage} (h : participant.Unblocked inFlight messages)
    {message : TransitionMessage} (mem : message ∈ messages)
    (owned : participant.owns message = true) :
    message.messageId ∈ (participant.schedule inFlight messages).observedIds := by
  have grows : ∀ (rest : List TransitionMessage) (admission : Admission) id,
      id ∈ admission.observedIds →
      id ∈ (rest.foldl (Admission.next participant) admission).observedIds := by
    intro rest
    induction rest with
    | nil => exact fun _ _ h ↦ h
    | cons first rest ih => exact fun admission id h ↦ ih _ id (Admission.observedIds_next h)
  -- whoever holds a key of the image has the id of every message with that key
  have general : ∀ (rest : List TransitionMessage) (admission : Admission), rest ⊆ messages →
      (∀ message ∈ messages, participant.owns message = true → ∀ holder,
        admission.inFlight[executionKey message]? = some holder → holder = message.messageId) →
      ∀ message ∈ rest, participant.owns message = true →
        message.messageId ∈ (rest.foldl (Admission.next participant) admission).observedIds := by
    intro rest
    induction rest with
    | nil => exact fun _ _ _ _ mem ↦ nomatch mem
    | cons first rest ih =>
      intro admission inside holders message mem owned
      have here := inside List.mem_cons_self
      rw [List.foldl_cons]
      rcases List.mem_cons.mp mem with rfl | mem
      · refine grows rest _ _ ?_
        rw [Admission.next, if_pos owned]
        split
        · next holder held =>
          rw [if_pos (holders message here owned holder held)]
          exact List.mem_append_right _ (List.mem_singleton_self _)
        · exact List.mem_append_right _ (List.mem_singleton_self _)
      · refine ih _ (fun _ m ↦ inside (List.mem_cons_of_mem _ m)) ?_ message mem owned
        intro other otherMem otherOwned holder held
        unfold Admission.next at held
        split at held
        · next firstOwned =>
          split at held
          · split at held
            · exact holders other otherMem otherOwned holder held
            · exact holders other otherMem otherOwned holder held
          · rw [OrderedMap.getElem?_insert] at held
            split at held
            · next same =>
              cases held
              exact (h other otherMem otherOwned).2 first here firstOwned same.symm
            · exact holders other otherMem otherOwned holder held
        · exact holders other otherMem otherOwned holder held
  exact general messages _ (List.Subset.refl _) (fun m hm ho ↦ (h m hm ho).1) message mem owned

namespace Runtime

variable {r r' : Runtime}

def Unblocked (participant : Participant) (r : Runtime) (action : RuntimeAction) : Prop :=
  ∀ revision, action = .enter revision →
    participant.Unblocked r.inFlight (participant.queue revision)

/-- A worker has completed every message of the image. -/
def Done (participant : Participant) (r : Runtime) (revision : Revision) : Prop :=
  ∀ message ∈ participant.queue revision, participant.owns message = true →
    message.messageId ∈ r.completions

/-- Recorded revisions are recorded in full, and each image is recorded, about to be, or done. -/
structure Faithful (participant : Participant) (r : Runtime) : Prop where
  latest : ∀ call, r.call = some call →
    call.queueRevision ∈ r.given ∧ ∀ revision ∈ r.given, revision ≤ call.queueRevision
  observed : ∀ call, r.call = some call → ∀ message ∈ participant.queue call.queueRevision,
    participant.owns message = true → message.messageId ∈ call.observedIds
  recorded : ∀ (revision : Revision) (ids : BTreeSet String),
    r.frontier.revisions[revision]? = some ids → revision ∈ r.given ∧
      ∀ message ∈ participant.queue revision, participant.owns message = true →
        message.messageId ∈ ids
  accounted : ∀ revision ∈ r.given, (∃ ids, r.frontier.revisions[revision]? = some ids) ∨
    (∃ call, r.call = some call ∧ call.recorded = false ∧ call.queueRevision = revision) ∨
    r.Done participant revision
  known : ∀ id ∈ r.frontier.completed, id ∈ r.completions
  advancing : ∀ worker ∈ r.workers, ∀ revision, worker.phase = .advancing revision →
    revision ∈ r.given ∧ ∀ earlier ∈ r.given, earlier ≤ revision → r.Done participant earlier

theorem Faithful.enter (h : r.Faithful participant) {revision : Revision}
    (met : participant.Unblocked r.inFlight (participant.queue revision))
    (step : r.enter participant revision = some r') : r'.Faithful participant := by
  obtain ⟨free, order, rfl⟩ := enter_eq_some step
  exact {
    latest := by
      intro call same
      cases same
      refine ⟨List.mem_append_right _ (List.mem_singleton_self _), fun earlier mem ↦ ?_⟩
      rcases List.mem_append.mp mem with mem | mem
      · exact order earlier mem
      · exact (List.mem_singleton.mp mem).le
    observed := by
      intro call same message mem owned
      cases same
      exact met.observes mem owned
    recorded := fun other ids found ↦ ⟨List.mem_append_left _ (h.recorded other ids found).1,
      (h.recorded other ids found).2⟩
    accounted := by
      intro other mem
      rcases List.mem_append.mp mem with mem | mem
      · refine (h.accounted other mem).imp_right (Or.imp_left fun ⟨call, same, _⟩ ↦ ?_)
        rw [free] at same
        cases same
      · exact .inr (.inl ⟨_, rfl, rfl, (List.mem_singleton.mp mem).symm⟩)
    known := h.known
    advancing := by
      intro worker mem newest phase
      obtain ⟨given, done⟩ := h.advancing worker mem newest phase
      refine ⟨List.mem_append_left _ given, fun earlier mem le ↦ ?_⟩
      rcases List.mem_append.mp mem with mem | mem
      · exact done earlier mem le
      · -- an image that is not newer than an advance is that of the advance, given again
        have same : earlier = newest := by
          rw [List.mem_singleton.mp mem] at le ⊢
          exact le_antisymm le (order newest given)
        rw [same]
        exact done newest given le_rfl }

theorem Faithful.observe (h : r.Faithful participant) (step : r.observe = some r') :
    r'.Faithful participant := by
  obtain ⟨call, found, -, rfl⟩ := observe_eq_some step
  have observed := h.observed call found
  have given := (h.latest call found).1
  have frontier : (∀ id ∈ call.observedIds, False) ∧
      observeFrontier r.frontier call.queueRevision call.observedIds = r.frontier ∨
      observeFrontier r.frontier call.queueRevision call.observedIds =
        r.frontier.observe call.queueRevision call.observedIds := by
    by_cases empty : call.observedIds.isEmpty = true
    · refine .inl ⟨fun id mem ↦ ?_, if_pos empty⟩
      rw [List.isEmpty_iff.mp empty] at mem
      cases mem
    · exact .inr (if_neg empty)
  exact {
    latest := by
      intro other same
      cases same
      exact h.latest call found
    observed := by
      intro other same
      cases same
      exact observed
    recorded := by
      intro revision ids at_
      rcases frontier with ⟨-, same⟩ | same
      · simp only [same] at at_
        exact h.recorded revision ids at_
      · simp only [same] at at_
        rw [CompletionState.getElem?_observe] at at_
        split at at_
        · next here =>
          cases at_
          rw [here]
          exact ⟨given, fun message mem owned ↦
            (OrderedMap.mem_foldl_insert _ _ _).mpr (.inl (observed message mem owned))⟩
        · exact h.recorded revision ids at_
    accounted := by
      intro revision mem
      by_cases here : revision = call.queueRevision
      · rw [here]
        rcases frontier with ⟨none, same⟩ | same
        · exact .inr (.inr fun message mem owned ↦ (none _ (observed message mem owned)).elim)
        · refine .inl ?_
          simp only [same]
          rw [CompletionState.getElem?_observe, if_pos rfl]
          exact ⟨_, rfl⟩
      · rcases h.accounted revision mem with ⟨ids, at_⟩ | ⟨other, same, -, named⟩ | done
        · refine .inl ⟨ids, ?_⟩
          rcases frontier with ⟨-, same⟩ | same
          · simp only [same]
            exact at_
          · simp only [same]
            rw [CompletionState.getElem?_observe, if_neg here]
            exact at_
        · rw [found] at same
          cases same
          exact absurd named.symm here
        · exact .inr (.inr done)
    known := by
      rcases frontier with ⟨-, same⟩ | same
      · simp only [same]
        exact h.known
      · simp only [same]
        exact h.known
    advancing := h.advancing }

theorem Faithful.complete (h : r.Faithful participant) {worker : ℕ}
    (step : r.complete worker = some r') : r'.Faithful participant := by
  obtain ⟨job, phase, found, -, advances, rfl⟩ := complete_eq_some step
  have released := CompletionState.released_complete r.frontier job.message.messageId
  have grows : ∀ {id}, id ∈ r.completions → id ∈ r.completions ++ [job.message.messageId] :=
    fun mem ↦ List.mem_append_left _ mem
  have inserted : ∀ id ∈ r.frontier.completed.insert job.message.messageId,
      id ∈ r.completions ++ [job.message.messageId] := by
    intro id mem
    rcases (OrderedMap.mem_insert _ _ _).mp mem with rfl | mem
    · exact List.mem_append_right _ (List.mem_singleton_self _)
    · exact grows (h.known id mem)
  -- a recorded revision stays or is done
  have settled : ∀ (revision : Revision) (ids : BTreeSet String),
      r.frontier.revisions[revision]? = some ids →
      (r.frontier.complete job.message.messageId).1.revisions[revision]? = some ids ∨
        ∀ message ∈ participant.queue revision, participant.owns message = true →
          message.messageId ∈ r.completions ++ [job.message.messageId] := by
    intro revision ids at_
    refine (released.taken revision ids at_).imp_right fun all message mem owned ↦ ?_
    exact inserted _ (all _ ((h.recorded revision ids at_).2 message mem owned))
  exact {
    latest := h.latest
    observed := h.observed
    recorded := fun revision ids at_ ↦ h.recorded revision ids (released.kept revision ids at_)
    accounted := by
      intro revision mem
      rcases h.accounted revision mem with ⟨ids, at_⟩ | calls | done
      · exact (settled revision ids at_).elim (fun kept ↦ .inl ⟨ids, kept⟩)
          fun done ↦ .inr (.inr done)
      · exact .inr (.inl calls)
      · exact .inr (.inr fun message mem owned ↦ grows (done message mem owned))
    known := fun id mem ↦ inserted id (released.fewer id mem)
    advancing := by
      intro other mem newest hphase
      rcases List.mem_or_eq_of_mem_set mem with mem | rfl
      · obtain ⟨given, done⟩ := h.advancing other mem newest hphase
        exact ⟨given, fun earlier mem le message inside owned ↦
          grows (done earlier mem le message inside owned)⟩
      · have advanced := advances newest hphase
        obtain ⟨newest', last, ⟨ids, at_⟩, above⟩ := released.reached.resolve_left
          fun same ↦ nomatch advanced.symm.trans same.2
        obtain rfl : newest' = newest := Option.some.inj (last.symm.trans advanced)
        have given := (h.recorded newest' ids at_).1
        refine ⟨given, fun earlier mem le ↦ ?_⟩
        have done : ∀ ids, r.frontier.revisions[earlier]? = some ids →
            Done participant { r with
              frontier := (r.frontier.complete job.message.messageId).1
              workers := r.workers.set worker ⟨job, phase⟩
              completions := r.completions ++ [job.message.messageId] } earlier := by
          intro ids at_
          refine (settled earlier ids at_).resolve_left fun kept ↦ ?_
          exact absurd le (Nat.not_le.mpr (above earlier ids kept))
        rcases h.accounted earlier mem with ⟨ids, at_⟩ | ⟨call, same, -, named⟩ | finished
        · exact done ids at_
        · -- the call under way repeats an image that is recorded already
          have order := (h.latest call same).2 newest' given
          rw [named] at order
          obtain rfl := le_antisymm le order
          exact done ids at_
        · exact fun message inside owned ↦ grows (finished message inside owned) }

/-- Steps that touch neither the images nor the frontier. -/
theorem Faithful.of_workers (h : r.Faithful participant) {call : Option Call}
    (same : ∀ c, call = some c → ∃ c', r.call = some c' ∧ c'.queueRevision = c.queueRevision ∧
      c'.observedIds = c.observedIds)
    (fresh : ∀ c, r.call = some c → c.recorded = false → call = some c)
    {workers : List Worker} (kept : ∀ worker ∈ workers, ∀ revision,
      worker.phase = .advancing revision → worker ∈ r.workers)
    (inFlight : BTreeMap String String) (advances : List Revision) :
    Faithful participant ⟨inFlight, r.frontier, call, workers, r.given, r.completions, advances⟩ where
  latest := by
    intro c hc
    obtain ⟨c', found, revision, -⟩ := same c hc
    rw [← revision]
    exact h.latest c' found
  observed := by
    intro c hc
    obtain ⟨c', found, revision, ids⟩ := same c hc
    rw [← revision, ← ids]
    exact h.observed c' found
  recorded := h.recorded
  accounted := fun revision mem ↦ (h.accounted revision mem).imp_right
    (Or.imp_left fun ⟨c, found, unrecorded, named⟩ ↦
      ⟨c, fresh c found unrecorded, unrecorded, named⟩)
  known := h.known
  advancing := fun worker mem revision phase ↦
    h.advancing worker (kept worker mem revision phase) revision phase

theorem Faithful.step (h : r.Faithful participant) {action : RuntimeAction}
    (met : r.Unblocked participant action) (step : r.step participant action = some r') :
    r'.Faithful participant := by
  have unchanged : ∀ c, r.call = some c → ∃ c', r.call = some c' ∧
      c'.queueRevision = c.queueRevision ∧ c'.observedIds = c.observedIds :=
    fun c hc ↦ ⟨c, hc, rfl, rfl⟩
  cases action with
  | enter revision => exact h.enter (met revision rfl) step
  | observe => exact h.observe step
  | spawn =>
    obtain ⟨revision, observedIds, job, rest, found, rfl⟩ := spawn_eq_some step
    refine h.of_workers (fun c hc ↦ ?_) (fun c hc unrecorded ↦ ?_) (fun worker mem newest phase ↦ ?_)
      _ _
    · cases hc
      exact ⟨_, found, rfl, rfl⟩
    · rw [found] at hc
      cases hc
      cases unrecorded
    · rcases List.mem_append.mp mem with mem | mem
      · exact mem
      · rw [List.mem_singleton.mp mem] at phase
        cases phase
  | leave =>
    obtain ⟨revision, observedIds, found, rfl⟩ := leave_eq_some step
    refine h.of_workers (fun c hc ↦ ?_) (fun c hc unrecorded ↦ ?_) (fun worker mem _ _ ↦ mem) _ _
    · cases hc
    · rw [found] at hc
      cases hc
      cases unrecorded
  | complete worker => exact h.complete step
  | advance worker =>
    obtain ⟨job, revision, found, rfl⟩ := advance_eq_some step
    refine h.of_workers unchanged (fun c hc _ ↦ hc) (fun other mem newest phase ↦ ?_) _ _
    rcases List.mem_or_eq_of_mem_set mem with mem | rfl
    · exact mem
    · cases phase
  | remove worker =>
    obtain ⟨job, inFlight, found, rfl⟩ := remove_eq_some step
    exact h.of_workers unchanged (fun c hc _ ↦ hc)
      (fun other mem newest phase ↦ List.mem_of_mem_eraseIdx mem) _ _

theorem Reachable.faithful (h : r.Reachable participant (Unblocked participant)) :
    r.Faithful participant := by
  induction h with
  | initial => exact ⟨by simp [Runtime.initial], by simp [Runtime.initial],
      by simp [Runtime.initial, CompletionState.new], by simp [Runtime.initial],
      by simp [Runtime.initial, CompletionState.new], by simp [Runtime.initial]⟩
  | step action _ met step ih => exact ih.step met step

/-- A message of an image has been completed or was gone from a later image. -/
def Accounted (participant : Participant) (r : Runtime) (revision : Revision)
    (message : TransitionMessage) : Prop :=
  message.messageId ∈ r.completions ∨
    ∃ later ∈ r.given, revision < later ∧ message ∉ participant.queue later

end Runtime

/-- When a worker advances the watermark, everything up to it is accounted for. -/
theorem processedRevision_accounted {r : Runtime}
    (reach : r.Reachable participant (Runtime.Unblocked participant)) {worker : ℕ} {job : Scheduled}
    {processed : Revision} (advances : r.workers[worker]? = some ⟨job, .advancing processed⟩) :
    ∀ revision ∈ r.given, revision ≤ processed → ∀ message ∈ participant.queue revision,
      participant.owns message = true → r.Accounted participant revision message := by
  intro revision given le message mem owned
  have faithful := Runtime.Reachable.faithful reach
  obtain ⟨-, done⟩ := faithful.advancing _ (List.mem_of_getElem? advances) processed rfl
  exact .inl (done revision given le message mem owned)

end Watermark

open OneMessage in
theorem processedRevision_accounted_message : ∃ r : Runtime,
    r.Reachable participant (Runtime.Unblocked participant) ∧ r.given = [5] ∧
    r.workers = [⟨⟨message, "db/db_0"⟩, .advancing 5⟩] ∧ r.Accounted participant 5 message := by
  obtain ⟨r₁, first⟩ : ∃ r, Runtime.initial.enter participant 5 = some r := ⟨_, rfl⟩
  have start : r₁.Reachable participant (Runtime.Unblocked participant) := by
    refine Runtime.Reachable.initial.step (.enter 5) (fun revision same m mem _ ↦ ?_) first
    cases same
    obtain rfl := List.mem_singleton.mp mem
    refine ⟨fun holder held ↦ ?_, fun other mem _ _ ↦ by rw [List.mem_singleton.mp mem]⟩
    simp [Runtime.initial] at held
  have outcome : ([.observe, .spawn, .leave, .complete 0].foldlM (Runtime.step participant)
      r₁).any (fun r ↦ r.workers = [⟨⟨message, "db/db_0"⟩, .advancing 5⟩] ∧ r.given = [5]) =
        true := by
    cases first
    decide
  cases run : [.observe, .spawn, .leave, .complete 0].foldlM (Runtime.step participant) r₁ with
  | none =>
    rw [run] at outcome
    cases outcome
  | some r =>
    rw [run, Option.any_some, decide_eq_true_eq] at outcome
    obtain ⟨workers, given⟩ := outcome
    have reach := start.run [.observe, .spawn, .leave, .complete 0]
      (fun _ action mem revision same ↦ by simp [same] at mem) run
    refine ⟨r, reach, given, workers, ?_⟩
    exact processedRevision_accounted reach (show r.workers[0]? = _ by rw [workers]; rfl) 5
      (by rw [given]; decide) le_rfl message (by decide) (by decide)

-- Partition 0 gets its next message while the worker of the last one has not released its key.
namespace NextMessage

def first : TransitionMessage :=
  ⟨"db", "db_0", "a", 1, "OFFLINE", "STANDBY", "STATE_TRANSITION", "m1"⟩

def next : TransitionMessage :=
  ⟨"db", "db_0", "a", 1, "STANDBY", "LEADER", "STATE_TRANSITION", "m2"⟩

def other : TransitionMessage :=
  ⟨"db", "db_1", "a", 1, "OFFLINE", "STANDBY", "STATE_TRANSITION", "m3"⟩

def participant : Participant := ⟨⟨"a", by decide⟩, fun revision ↦
  if revision = 5 then [first] else if revision = 6 then [next, other] else []⟩

def overtaken : List RuntimeAction :=
  [.enter 5, .observe, .spawn, .leave, .enter 6, .observe, .spawn, .leave, .complete 1, .remove 1,
    .complete 0]

end NextMessage

open NextMessage in
theorem processedRevision_unaccounted : ∃ (r : Runtime) (job : Scheduled),
    r.Reachable participant (fun _ _ ↦ True) ∧ r.workers[0]? = some ⟨job, .advancing 6⟩ ∧
    6 ∈ r.given ∧ next ∈ participant.queue 6 ∧ participant.owns next = true ∧
    ¬r.Accounted participant 6 next := by
  have outcome : (overtaken.foldlM (Runtime.step participant) .initial).any (fun r ↦
      r.workers = [⟨⟨first, "db/db_0"⟩, .advancing 6⟩] ∧ r.given = [5, 6] ∧
        r.completions = ["m3", "m1"]) = true := by decide
  cases run : overtaken.foldlM (Runtime.step participant) .initial with
  | none =>
    rw [run] at outcome
    cases outcome
  | some r =>
    rw [run, Option.any_some, decide_eq_true_eq] at outcome
    obtain ⟨workers, given, completions⟩ := outcome
    refine ⟨r, ⟨first, "db/db_0"⟩, Runtime.Reachable.initial.run overtaken (fun _ _ _ ↦ trivial) run,
      by rw [workers]; rfl, by rw [given]; decide, by decide, by decide, ?_⟩
    rintro (mem | ⟨later, mem, newer, -⟩)
    · rw [completions] at mem
      exact absurd mem (by decide)
    · rw [given] at mem
      rcases List.mem_cons.mp mem with rfl | mem
      · exact absurd newer (by decide)
      · rw [List.mem_singleton.mp mem] at newer
        exact absurd newer (by decide)

end Clustodian
