/-
What the queue's collections promise over whole runs, and what a client may
conclude from a snapshot.
-/

import Mneme.Supervisor.Router

namespace Mneme.Supervisor

open Common Transition

structure JobQueue.WellFormed (queue : JobQueue) : Prop where
  pendingNodup : queue.pending.Nodup
  pendingTracked : ∀ id, id ∈ queue.pending → id ∈ queue.tracked
  inFlightTracked : ∀ id, id ∈ queue.inFlight → id ∈ queue.tracked
  disjoint : ∀ id, id ∈ queue.pending → id ∉ queue.inFlight

namespace System

/-- No completion overtakes the router's mark, and none reports a job that was
requeued and is pending again. -/
def Timely (state : System) : Event → Prop
  | .markAssigned =>
      ∀ id worker, state.router = .dispatched id worker → id ∈ state.queue.tracked
  | .workerComplete id _ => id ∉ state.queue.pending
  | _ => True

variable {state : System}

/-- The accounts leave only the two inclusions to prove. -/
theorem wellFormed_of_accounting (accounting : Accounting state)
    (pendingTracked : ∀ id, id ∈ state.queue.pending → id ∈ state.queue.tracked)
    (inFlightTracked : ∀ id, id ∈ state.queue.inFlight → id ∈ state.queue.tracked) :
    state.queue.WellFormed := by
  refine ⟨?_, pendingTracked, inFlightTracked, ?_⟩
  · rw [List.nodup_iff_count_le_one]
    intro id
    by_cases member : id ∈ state.queue.pending
    · have once := accounting.placed id (pendingTracked id member)
      unfold places at once
      omega
    · have none := List.count_eq_zero.mpr member
      omega
  · intro id member flying
    have once := accounting.placed id (pendingTracked id member)
    have positive := List.count_pos_iff.mpr member
    unfold places at once
    rw [if_pos flying] at once
    omega

variable {event : Event}

theorem Timely.marks (timely : state.Timely event) (id : JobId)
    (worker : String) (marking : event = .markAssigned)
    (router : state.router = .dispatched id worker) : id ∈ state.queue.tracked := by
  subst marking
  exact timely id worker router

variable {state after : System}

theorem timely_pendingTracked (accounting : Accounting state) (wellFormed : state.queue.WellFormed)
    (timely : state.Timely event) (step : state.next event = some after) :
    ∀ id, id ∈ after.queue.pending → id ∈ after.queue.tracked := by
  intro id member
  cases taken_of_next step with
  | submit job waker =>
      rcases submit_cases state job waker with refused | queued
      · rw [refused] at member ⊢
        exact wellFormed.pendingTracked id member
      · rw [queued] at member ⊢
        rcases List.mem_append.mp member with old | new
        · exact Finmap.mem_insert.mpr (Or.inr (wellFormed.pendingTracked id old))
        · exact Finmap.mem_insert.mpr (Or.inl (List.mem_singleton.mp new))
  | nextPending idle =>
      rw [nextPending_queue, JobQueue.nextPending_pending] at member
      rw [nextPending_queue, JobQueue.nextPending_tracked]
      exact wellFormed.pendingTracked id (List.mem_of_mem_tail member)
  | encodeFailed error held job router =>
      have inHand : state.router.job? = some held := by
        rw [router]
        rfl
      change id ∈ (state.queue.complete held _).2.pending at member
      rw [JobQueue.complete_pending] at member
      have tracked := wellFormed.pendingTracked id member
      change id ∈ (state.queue.complete held _).2.tracked
      rw [JobQueue.complete_tracked, Finmap.mem_erase]
      refine ⟨?_, tracked⟩
      intro same
      subst same
      exact (accounting.held_only tracked inHand).1 member
  | dispatchOk worker held job router => exact wellFormed.pendingTracked id member
  | markAssigned held worker router =>
      exact (JobQueue.mem_markAssigned_tracked _ _ _ _).mpr (wellFormed.pendingTracked id member)
  | returnPending held job router =>
      change id ∈ state.queue.tracked
      rcases (JobQueue.mem_returnPending_pending _ _ _).mp member with ⟨same, present⟩ | old
      · rw [same]
        exact present
      · exact wellFormed.pendingTracked id old
  | workerComplete done outcome =>
      rw [complete_queue, JobQueue.complete_pending] at member
      rw [complete_queue, JobQueue.complete_tracked]
      refine Finmap.mem_erase.mpr ⟨?_, wellFormed.pendingTracked id member⟩
      intro same
      subst same
      exact timely member
  | requeueWorker worker ids order =>
      apply (JobQueue.mem_requeueWorker_tracked _ _ _).mpr
      change id ∈ (state.queue.requeueWorker ids).pending at member
      rw [JobQueue.requeueWorker_pending, List.mem_append, List.mem_reverse] at member
      rcases member with walked | old
      · exact wellFormed.inFlightTracked id
          (Finmap.mem_of_lookup_eq_some ((order.mem_iff id).mp walked))
      · exact wellFormed.pendingTracked id old

/-- A mark or a completion out of time leaves an id in a collection whose job
is gone. -/
theorem timely_of_wellFormed
    (step : state.next event = some after) (wellFormed : after.queue.WellFormed) :
    state.Timely event := by
  cases taken_of_next step with
  | submit job waker => trivial
  | nextPending idle => trivial
  | encodeFailed error held job router => trivial
  | dispatchOk worker held job router => trivial
  | returnPending held job router => trivial
  | requeueWorker worker ids order => trivial
  | markAssigned held worker router =>
      intro id other inHand
      rw [router] at inHand
      cases inHand
      have flying : held ∈ (state.queue.markAssigned held worker).inFlight :=
        Finmap.mem_insert.mpr (Or.inl rfl)
      exact (JobQueue.mem_markAssigned_tracked _ _ _ _).mp (wellFormed.inFlightTracked held flying)
  | workerComplete done outcome =>
      intro member
      have stale := wellFormed.pendingTracked done (by
        rw [complete_queue, JobQueue.complete_pending]
        exact member)
      rw [complete_queue, JobQueue.complete_tracked] at stale
      exact Finmap.notMem_erase_self stale

private structure Sound (state : System) : Prop where
  accounting : Accounting state
  wellFormed : state.queue.WellFormed

theorem initial_sound (maxPending counter : Nat) : Sound (initial maxPending counter) := by
  refine ⟨reachable_accounting Reachable.refl, ?_⟩
  apply wellFormed_of_accounting (reachable_accounting Reachable.refl)
  · intro id member
    cases member
  · intro id member
    exact absurd member Finmap.notMem_empty

theorem sound_step (sound : Sound state)
    (timely : state.Timely event) (step : state.next event = some after) : Sound after := by
  have accounting := step_accounting sound.accounting step
  have pendingTracked := timely_pendingTracked sound.accounting sound.wellFormed timely step
  have inFlightTracked := step_flying sound.wellFormed.inFlightTracked timely.marks step
  exact ⟨accounting, wellFormed_of_accounting accounting pendingTracked inFlightTracked⟩

/-- A run keeps the queue well formed in every state it passes through exactly
when every mark and every completion in it is timely. -/
theorem wellFormed_iff_timely {maxPending counter : Nat}
    {history : List (System × Event)} {final : System}
    (run : Run next (initial maxPending counter) history final) :
    Throughout (fun state => state.queue.WellFormed) history final ↔ Respects Timely history := by
  exact run.throughout_iff_respects (initial_sound maxPending counter)
    (fun _ sound => sound.wellFormed)
    (fun _ _ _ sound timely step => sound_step sound timely step)
    (fun _ _ _ _ step wellFormed => timely_of_wellFormed step wellFormed)

/-- One job from submission to completion, in the order the queue expects. -/
def promptTrace : List Event :=
  [.submit (.ingest "notes.md" "shard") none, .nextPending, .dispatchOk "md-ingest-worker",
    .markAssigned, .workerComplete 1 (.ok none 0 .null)]

theorem wellFormed_iff_timely_prompt :
    ∃ history final, Run next (initial 16 1) history final ∧
      history.map Prod.snd = promptTrace ∧
      (Throughout (fun state => state.queue.WellFormed) history final ↔
        Respects Timely history) := by
  obtain ⟨history, final, run, labels, _⟩ := Run.of_trace next (initial 16 1) promptTrace
    (fun _ _ => true) (by decide)
  exact ⟨history, final, run, labels, wellFormed_iff_timely run⟩

/-- The worker's report overtakes the router's mark. -/
def overtakenTrace : List Event :=
  [.submit (.ingest "notes.md" "shard") none, .nextPending, .dispatchOk "md-ingest-worker",
    .workerComplete 1 (.ok none 0 .null), .markAssigned]

theorem overtaken_mark_not_wellFormed :
    ¬ ∀ state, Reachable next (initial 16 1) state → state.queue.WellFormed := by
  intro always
  obtain ⟨history, final, run, _, stale⟩ := Run.of_trace next (initial 16 1) overtakenTrace
    (fun _ state => decide (1 ∈ state.queue.inFlight ∧ 1 ∉ state.queue.tracked)) (by decide)
  obtain ⟨flying, untracked⟩ := of_decide_eq_true stale
  exact untracked ((always final ⟨history, run⟩).inFlightTracked 1 flying)

/-! ### What an empty snapshot means -/

/-- The condition on which `run_dispatched` stops polling. -/
def watchdogDone (snapshot : JobQueueSnapshot) : Bool :=
  snapshot.pending == 0 && snapshot.inFlight == 0

theorem watchdogDone_iff (queue : JobQueue) :
    watchdogDone queue.snapshot = true ↔
      queue.pending = [] ∧ ∀ id, id ∉ queue.inFlight := by
  unfold watchdogDone JobQueue.snapshot
  simp only [Bool.and_eq_true, beq_iff_eq, List.length_eq_zero_iff, Finset.card_eq_zero]
  constructor
  · rintro ⟨empty, none⟩
    refine ⟨empty, fun id member => ?_⟩
    have key := Finmap.mem_keys.mpr member
    rw [none] at key
    exact absurd key (Finset.notMem_empty id)
  · rintro ⟨empty, none⟩
    refine ⟨empty, Finset.eq_empty_of_forall_notMem (fun id key => ?_)⟩
    exact none id (Finmap.mem_keys.mp key)

/-- An uncompleted job is pending, in flight or in the router's hand. -/
theorem Accounting.somewhere (accounting : Accounting state) {id : JobId}
    (tracked : id ∈ state.queue.tracked) :
    id ∈ state.queue.pending ∨ id ∈ state.queue.inFlight ∨ state.router.job? = some id := by
  by_contra nowhere
  simp only [not_or] at nowhere
  have once := accounting.placed id tracked
  unfold places at once
  rw [List.count_eq_zero.mpr nowhere.1, if_neg nowhere.2.1, if_neg nowhere.2.2] at once
  cases once

/-- When the poll sees an empty queue, a build is complete exactly when the
router holds none of its uncompleted jobs. -/
theorem drained_iff_router_free {maxPending counter : Nat} {state : System}
    (reachable : Reachable next (initial maxPending counter) state)
    (build : List JobId) (submitted : ∀ id, id ∈ build → id ∈ state.accepted.map Prod.fst)
    (done : watchdogDone state.queue.snapshot = true) :
    (∀ id, id ∈ build → id ∈ state.completed) ↔
      ∀ id, id ∈ build → state.router.job? = some id → id ∉ state.queue.tracked := by
  have accounting := reachable_accounting reachable
  obtain ⟨empty, none⟩ := (watchdogDone_iff _).mp done
  constructor
  · intro completed id member _ tracked
    exact accounting.apart id tracked (completed id member)
  · intro free id member
    rcases (accounting.accepted id).mp (submitted id member) with tracked | completed
    · rcases accounting.somewhere tracked with pending | flying | held
      · rw [empty] at pending
        cases pending
      · exact absurd flying (none id)
      · exact absurd tracked (free id member held)
    · exact completed

theorem drained_iff_router_free_prompt :
    ∃ state, Reachable next (initial 16 1) state ∧
      ((∀ id, id ∈ [1] → id ∈ state.completed) ↔
        ∀ id, id ∈ [1] → state.router.job? = some id → id ∉ state.queue.tracked) := by
  obtain ⟨history, final, run, _, passed⟩ := Run.of_trace next (initial 16 1) promptTrace
    (fun _ state => decide (1 ∈ state.accepted.map Prod.fst ∧
      watchdogDone state.queue.snapshot = true)) (by decide)
  obtain ⟨accepted, done⟩ := of_decide_eq_true passed
  have submitted : ∀ id, id ∈ [1] → id ∈ final.accepted.map Prod.fst := by
    intro id member
    rw [List.mem_singleton.mp member]
    exact accepted
  exact ⟨final, ⟨history, run⟩, drained_iff_router_free ⟨history, run⟩ [1] submitted done⟩

/-- The router has popped the only job of a build; the poll lands before it
marks the job. -/
theorem popped_job_escapes_snapshot :
    ¬ ∀ state, Reachable next (initial 16 1) state →
        watchdogDone state.queue.snapshot = true →
        ∀ id, id ∈ state.accepted.map Prod.fst → id ∈ state.completed := by
  intro always
  obtain ⟨history, final, run, _, passed⟩ := Run.of_trace next (initial 16 1)
    [.submit (.ingest "notes.md" "shard") none, .nextPending]
    (fun _ state => decide (watchdogDone state.queue.snapshot = true ∧
      1 ∈ state.accepted.map Prod.fst ∧ 1 ∉ state.completed)) (by decide)
  obtain ⟨done, submitted, uncompleted⟩ := of_decide_eq_true passed
  exact uncompleted (always final ⟨history, run⟩ done 1 submitted)

end System

end Mneme.Supervisor
