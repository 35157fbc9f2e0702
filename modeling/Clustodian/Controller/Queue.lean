import Clustodian.Controller.Outputs

namespace Clustodian

open State

namespace PublishedTransition

/-- The replica a message is about. -/
def replica (message : PublishedTransition) : String × String × String :=
  (message.resource, message.partition, message.instance_)

end PublishedTransition

def TransitionRequest.replica (transition : TransitionRequest) : String × String × String :=
  (transition.resource.asStr, transition.partition.asStr, transition.instance_.asStr)

/-- A message as the controller writes them: proper names and a declared transition. -/
def PublishedTransition.WellFormed (message : PublishedTransition) : Prop :=
  ∃ t : TransitionRequest, sameTransition message t message.targetSession = true ∧
    ⟨t.sourceState, t.targetState⟩ ∈ leaderStandby.transitionsByPriority

/-- No replica is the subject of two messages. -/
def Unambiguous (queue : List PublishedTransition) : Prop :=
  (queue.map PublishedTransition.replica).Nodup

section Normalize

variable {queue : List PublishedTransition}

theorem sameReplica_iff {left right : PublishedTransition} :
    sameReplica left right = true ↔ left.replica = right.replica := by
  simp [sameReplica, PublishedTransition.replica]

theorem sameTransition_iff {message : PublishedTransition} {t : TransitionRequest} {session : ℕ} :
    sameTransition message t session = true ↔
      message.resource = t.resource.asStr ∧ message.partition = t.partition.asStr ∧
      message.instance_ = t.instance_.asStr ∧ message.targetSession = session ∧
      message.source = t.sourceState.asStr ∧ message.target = t.targetState.asStr ∧
      message.messageType = "STATE_TRANSITION" := by
  simp [sameTransition]

theorem Unambiguous.sublist {other : List PublishedTransition} (h : Unambiguous queue)
    (sub : other.Sublist queue) : Unambiguous other := List.Nodup.sublist (sub.map _) h

theorem Unambiguous.nodup (h : Unambiguous queue) : queue.Nodup := List.Nodup.of_map _ h

theorem Unambiguous.eq {left right : PublishedTransition} (h : Unambiguous queue)
    (hl : left ∈ queue) (hr : right ∈ queue) (same : left.replica = right.replica) :
    left = right := List.inj_on_of_nodup_map h hl hr same

theorem normalizeQueue_eq (nodup : queue.Nodup) :
    normalizeQueue queue = queue.insertionSort (· ≤ ·) := by
  have nodup' : (queue.insertionSort (· ≤ ·)).Nodup :=
    (List.perm_insertionSort _ _).nodup_iff.mpr nodup
  exact List.destutter_of_isChain _ _ nodup'.isChain

theorem sorted_normalizeQueue (queue : List PublishedTransition) :
    (normalizeQueue queue).Pairwise (· ≤ ·) :=
  (List.pairwise_insertionSort _ _).sublist (List.destutter_sublist _ _)

end Normalize

section Dispatch

variable (snapshot : CoordinationSnapshot) (original : List PublishedTransition)

theorem sameTransition_dispatchedMessage (ordinal : ℕ) (t : TransitionRequest)
    (session : SessionId) :
    sameTransition (dispatchedMessage snapshot original ordinal t session) t session = true := by
  simp [sameTransition, dispatchedMessage]

theorem replica_dispatchedMessage (ordinal : ℕ) (t : TransitionRequest) (session : SessionId) :
    (dispatchedMessage snapshot original ordinal t session).replica = t.replica := rfl

/-- The dispatch loop appends messages for replicas that have none and serves every live one. -/
theorem foldl_addDispatched (items : List (TransitionRequest × ℕ)) :
    ∀ queue : List PublishedTransition, ∃ added,
      items.foldl (addDispatched snapshot original) queue = queue ++ added ∧
      (∀ m ∈ added, ∃ t n session, (t, n) ∈ items ∧ snapshot.live t.instance_ = some session ∧
        m = dispatchedMessage snapshot original n t session ∧
        ∀ other ∈ queue, other.replica ≠ m.replica) ∧
      (Unambiguous queue → Unambiguous (queue ++ added)) ∧
      ∀ t n, (t, n) ∈ items → (snapshot.live t.instance_).isSome →
        ∃ m ∈ queue ++ added, m.replica = t.replica := by
  induction items with
  | nil => exact fun queue ↦ ⟨[], by simp⟩
  | cons item items ih =>
    obtain ⟨t, n⟩ := item
    intro queue
    rw [List.foldl_cons]
    cases alive : snapshot.live t.instance_ with
    | none =>
      have skip : addDispatched snapshot original queue (t, n) = queue := by
        simp [addDispatched, alive]
      obtain ⟨added, hadded, hminted, hdistinct, hserved⟩ := ih queue
      rw [skip]
      refine ⟨added, hadded, fun m hm ↦ ?_, hdistinct, fun u k hu live ↦ ?_⟩
      · obtain ⟨u, k, session, hu, rest⟩ := hminted m hm
        exact ⟨u, k, session, List.mem_cons_of_mem _ hu, rest⟩
      · rcases List.mem_cons.mp hu with h | hu
        · cases h
          simp [alive] at live
        · exact hserved u k hu live
    | some session =>
      set message := dispatchedMessage snapshot original n t session with hmessage
      by_cases taken : queue.any (sameReplica · message) = true
      · have skip : addDispatched snapshot original queue (t, n) = queue := by
          simp only [addDispatched, alive, ← hmessage, taken, if_true]
        obtain ⟨added, hadded, hminted, hdistinct, hserved⟩ := ih queue
        rw [skip]
        refine ⟨added, hadded, fun m hm ↦ ?_, hdistinct, fun u k hu live ↦ ?_⟩
        · obtain ⟨u, k, session, hu, rest⟩ := hminted m hm
          exact ⟨u, k, session, List.mem_cons_of_mem _ hu, rest⟩
        · rcases List.mem_cons.mp hu with h | hu
          · cases h
            obtain ⟨m, hm, same⟩ := List.any_eq_true.mp taken
            exact ⟨m, List.mem_append_left _ hm, sameReplica_iff.mp same⟩
          · exact hserved u k hu live
      · have push : addDispatched snapshot original queue (t, n) = queue ++ [message] := by
          simp only [addDispatched, alive, ← hmessage, taken, if_false, Bool.false_eq_true]
        have unserved : ∀ other ∈ queue, other.replica ≠ message.replica := fun other ho same ↦
          taken (List.any_eq_true.mpr ⟨other, ho, sameReplica_iff.mpr same⟩)
        obtain ⟨added, hadded, hminted, hdistinct, hserved⟩ := ih (queue ++ [message])
        rw [push]
        rw [List.append_assoc, List.singleton_append] at hadded hdistinct hserved
        refine ⟨message :: added, hadded, fun m hm ↦ ?_, fun distinct ↦ hdistinct ?_,
          fun u k hu live ↦ ?_⟩
        · rcases List.mem_cons.mp hm with rfl | hm
          · exact ⟨t, n, session, List.mem_cons_self, alive, hmessage, unserved⟩
          · obtain ⟨u, k, session, hu, live, rfl, rest⟩ := hminted m hm
            exact ⟨u, k, session, List.mem_cons_of_mem _ hu, live, rfl,
              fun other ho ↦ rest other (List.mem_append_left _ ho)⟩
        · rw [Unambiguous, List.map_append, List.map_singleton, List.nodup_append]
          refine ⟨distinct, List.nodup_singleton _, fun a ha b hb same ↦ ?_⟩
          obtain ⟨other, ho, rfl⟩ := List.mem_map.mp ha
          exact unserved other ho (same.trans (List.mem_singleton.mp hb))
        · rcases List.mem_cons.mp hu with h | hu
          · cases h
            exact ⟨message, by simp, rfl⟩
          · exact hserved u k hu live

end Dispatch

namespace Decoded

variable {crush : Crush} {snapshot : CoordinationSnapshot} {d : Decoded crush snapshot}
  {pending queue : List PublishedTransition} {mode : ReconcileMode} {view : ExternalView}

/-- How a cycle's queue arises: the kept messages and new ones for the dispatched transitions. -/
structure Outcome (d : Decoded crush snapshot) (pending : List PublishedTransition)
    (mode : ReconcileMode) (dispatch : List TransitionRequest)
    (added queue : List PublishedTransition) : Prop where
  plannable : d.Plannable pending mode
  perm : queue.Perm (d.retained pending mode ++ added)
  sorted : queue.Pairwise (· ≤ ·)
  unambiguous : Unambiguous queue
  planned : ∀ t ∈ dispatch, ∃ plan ∈ d.plans, t ∈ d.selected pending mode plan
  minted : ∀ m ∈ added, ∃ t n session, dispatch[n]? = some t ∧
    snapshot.live t.instance_ = some session ∧
    m = dispatchedMessage snapshot pending n t session ∧
    ∀ other ∈ d.retained pending mode, other.replica ≠ m.replica
  served : ∀ t ∈ dispatch, ∃ m ∈ queue, m.replica = t.replica

theorem retained_sublist : (d.retained pending mode).Sublist pending := List.filter_sublist

theorem live_of_selected (plannable : d.Plannable pending mode) {plan : ResourcePlan}
    (mem : plan ∈ d.plans) {t : TransitionRequest} (ht : t ∈ d.selected pending mode plan) :
    (snapshot.live t.instance_).isSome := by
  obtain ⟨-, _, -, hstate, -⟩ := (selected_spec plannable mem).2.candidate t ht
  rw [planning, state_planningState] at hstate
  split at hstate
  · cases hstate
  · next alive => exact mem_liveSet.mp (not_not.mp alive)

theorem outcome (d : Decoded crush snapshot) (unambiguous : Unambiguous pending)
    (h : computeOutputsWithPendingPolicy crush snapshot pending mode = .ok (view, queue)) :
    view = d.view ∧ ∃ dispatch added, d.Outcome pending mode dispatch added queue := by
  obtain ⟨⟨configs, hthrottles⟩, plannable⟩ := d.compute_isOk_iff.mp ⟨_, h⟩
  obtain ⟨dispatch, hcompute, hplanned, -⟩ := d.compute_spec hthrottles plannable
  rw [hcompute] at h
  cases h
  obtain ⟨added, hadded, hminted, hdistinct, hserved⟩ :=
    foldl_addDispatched snapshot pending dispatch.zipIdx
      (d.retained pending mode)
  have distinct := hdistinct (unambiguous.sublist retained_sublist)
  rw [hadded, normalizeQueue_eq distinct.nodup]
  have perm := List.perm_insertionSort (· ≤ ·) (d.retained pending mode ++ added)
  refine ⟨rfl, dispatch, added, plannable, perm, List.pairwise_insertionSort _ _,
    (perm.map _).nodup_iff.mpr distinct, hplanned, fun m hm ↦ ?_, fun t ht ↦ ?_⟩
  · obtain ⟨t, n, session, ht, rest⟩ := hminted m hm
    exact ⟨t, n, session, List.mem_zipIdx_iff_getElem?.mp ht, rest⟩
  · obtain ⟨n, hn⟩ := List.getElem?_of_mem ht
    obtain ⟨plan, mem, hsel⟩ := hplanned t ht
    obtain ⟨m, hm, same⟩ := hserved t n (List.mem_zipIdx_iff_getElem?.mpr hn)
      (live_of_selected plannable mem hsel)
    exact ⟨m, perm.mem_iff.mpr hm, same⟩

namespace Outcome

variable {dispatch : List TransitionRequest} {added : List PublishedTransition}
  (o : d.Outcome pending mode dispatch added queue)

include o

theorem mem {m : PublishedTransition} :
    m ∈ queue ↔ m ∈ d.retained pending mode ∨ m ∈ added := by
  rw [o.perm.mem_iff, List.mem_append]

theorem candidate {t : TransitionRequest} (ht : t ∈ dispatch) : ∃ plan ∈ d.plans,
    t ∈ d.selected pending mode plan ∧ IsCandidate plan (d.planning plan) (liveSet snapshot) t := by
  obtain ⟨plan, mem, hsel⟩ := o.planned t ht
  exact ⟨plan, mem, hsel, (selected_spec o.plannable mem).2.candidate t hsel⟩

theorem wellFormed (valid : ∀ m ∈ pending, m.WellFormed) : ∀ m ∈ queue, m.WellFormed := by
  intro m hm
  rcases o.mem.mp hm with hm | hm
  · exact valid m (mem_retained.mp hm).1
  · obtain ⟨t, n, session, ht, -, rfl, -⟩ := o.minted m hm
    obtain ⟨plan, -, -, -, desired, -, -, -, hnext⟩ := o.candidate (List.mem_of_getElem? ht)
    exact ⟨t, sameTransition_dispatchedMessage _ _ n t session, leaderStandby.declared_of_next hnext⟩

end Outcome

end Decoded

/-- Queues the controllers of a cluster can leave behind: published by a cycle on any snapshot from
an earlier such queue, or thinned out by completions. -/
inductive Published (crush : Crush) : List PublishedTransition → Prop
  | empty : Published crush []
  | thinned {queue rest : List PublishedTransition} :
      Published crush queue → rest.Sublist queue → Published crush rest
  | cycle {snapshot : CoordinationSnapshot} {pending queue : List PublishedTransition}
      {mode : ReconcileMode} {view : ExternalView} : Published crush pending →
      computeOutputsWithPendingPolicy crush snapshot pending mode = .ok (view, queue) →
      Published crush queue

theorem Published.invariant {crush : Crush} {queue : List PublishedTransition}
    (h : Published crush queue) : Unambiguous queue ∧ ∀ m ∈ queue, m.WellFormed := by
  induction h with
  | empty => exact ⟨List.nodup_nil, by simp⟩
  | thinned _ sub ih => exact ⟨ih.1.sublist sub, fun m hm ↦ ih.2 m (sub.subset hm)⟩
  | cycle _ run ih =>
    obtain ⟨d⟩ := Decoded.of_compute run
    obtain ⟨-, _, _, o⟩ := d.outcome ih.1 run
    exact ⟨o.unambiguous, o.wellFormed ih.2⟩

end Clustodian
