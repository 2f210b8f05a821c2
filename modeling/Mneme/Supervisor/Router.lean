/-
The job queue among the three parties that use it.

Clients submit jobs and poll snapshots, one router task pops, dispatches and
marks them, workers report completions over IPC, and the monitor of a dead
child requeues its jobs.  Every queue operation is one atomic step; between
them the parties interleave freely, so a completion may arrive before the
router has marked the job, or after the monitor has requeued it.
-/

import Mathlib.Tactic.Cases
import Mneme.Library.Run
import Mneme.Supervisor.JobQueue

namespace Mneme.Supervisor

open Common Transition

/-- Where the router stands in its drain loop. -/
inductive RouterState where
  | idle
  /-- `next_pending` returned this job; it is being encoded or dispatched. -/
  | holding (id : JobId) (job : Job)
  /-- `dispatch_to_pool` returned `Ok(worker)`. -/
  | dispatched (id : JobId) (worker : String)
deriving DecidableEq

def RouterState.job? : RouterState → Option JobId
  | .idle => none
  | .holding id _ => some id
  | .dispatched id _ => some id

theorem RouterState.job?_ne {router : RouterState} {held other : JobId}
    (holds : router.job? = some held) (different : other ≠ held) : router.job? ≠ some other := by
  rw [holds]
  intro equal
  exact different (Option.some.inj equal).symm

/-- `accepted` and `completed` are history: the submissions that returned an
id, and the first outcome reported for each tracked job. -/
structure System where
  queue : JobQueue
  counter : Nat
  router : RouterState
  accepted : List (JobId × Job)
  completed : Finmap (fun _ : JobId => JobOutcome)

inductive Event where
  | submit (job : Job) (waker : Option Waker)
  | nextPending
  | encodeFailed (error : String)
  | dispatchOk (worker : String)
  | markAssigned
  | returnPending
  | workerComplete (id : JobId) (outcome : JobOutcome)
  | requeueWorker (worker : String) (ids : List JobId)

namespace System

def initial (maxPending counter : Nat) : System :=
  { queue := .new maxPending
    counter := counter
    router := .idle
    accepted := []
    completed := ∅ }

def submit (state : System) (job : Job) (waker : Option Waker) : System :=
  let (id, counter) := JobId.next state.counter
  match state.queue.submit id job waker with
  | .error _ => { state with counter := counter }
  | .ok queue =>
      { state with
        queue := queue
        counter := counter
        accepted := state.accepted ++ [(id, job)] }

def nextPending (state : System) : System :=
  { state with
    queue := state.queue.nextPending.2
    router :=
      match state.queue.nextPending.1 with
      | none => .idle
      | some (id, job) => .holding id job }

def complete (state : System) (id : JobId) (outcome : JobOutcome) : System :=
  { state with
    queue := (state.queue.complete id outcome).2
    completed :=
      match (state.queue.complete id outcome).1 with
      | none => state.completed
      | some _ => state.completed.insert id outcome }

/-- What the router reports for a job it cannot encode. -/
def encodeError (error : String) : JobOutcome :=
  .err s!"router encode: {error}" 0 .null

def next (state : System) : Event → Option System
  | .submit job waker => some (state.submit job waker)
  | .nextPending =>
      match state.router with
      | .idle => some state.nextPending
      | _ => none
  | .encodeFailed error =>
      match state.router with
      | .holding id _ => some { state.complete id (encodeError error) with router := .idle }
      | _ => none
  | .dispatchOk worker =>
      match state.router with
      | .holding id _ => some { state with router := .dispatched id worker }
      | _ => none
  | .markAssigned =>
      match state.router with
      | .dispatched id worker =>
          some { state with queue := state.queue.markAssigned id worker, router := .idle }
      | _ => none
  | .returnPending =>
      match state.router with
      | .holding id _ =>
          some { state with queue := state.queue.returnPending id, router := .idle }
      | _ => none
  | .workerComplete id outcome => some (state.complete id outcome)
  | .requeueWorker worker ids =>
      if state.queue.RequeueOrder worker ids then
        some { state with queue := state.queue.requeueWorker ids }
      else none

/-- What a step can be: the inversion of `next`. -/
inductive Taken (state : System) : Event → System → Prop
  | submit (job : Job) (waker : Option Waker) :
      Taken state (.submit job waker) (state.submit job waker)
  | nextPending (idle : state.router = .idle) : Taken state .nextPending state.nextPending
  | encodeFailed (error : String) (id : JobId) (job : Job) (router : state.router = .holding id job) :
      Taken state (.encodeFailed error)
        { state.complete id (encodeError error) with router := .idle }
  | dispatchOk (worker : String) (id : JobId) (job : Job) (router : state.router = .holding id job) :
      Taken state (.dispatchOk worker) { state with router := .dispatched id worker }
  | markAssigned (id : JobId) (worker : String) (router : state.router = .dispatched id worker) :
      Taken state .markAssigned
        { state with queue := state.queue.markAssigned id worker, router := .idle }
  | returnPending (id : JobId) (job : Job) (router : state.router = .holding id job) :
      Taken state .returnPending
        { state with queue := state.queue.returnPending id, router := .idle }
  | workerComplete (id : JobId) (outcome : JobOutcome) :
      Taken state (.workerComplete id outcome) (state.complete id outcome)
  | requeueWorker (worker : String) (ids : List JobId)
      (order : state.queue.RequeueOrder worker ids) :
      Taken state (.requeueWorker worker ids)
        { state with queue := state.queue.requeueWorker ids }

variable {state after : System} {event : Event}

theorem taken_of_next (step : state.next event = some after) : Taken state event after := by
  cases event with
  | submit job waker =>
      cases step
      exact .submit job waker
  | nextPending =>
      cases router : state.router <;> simp only [next, router, reduceCtorEq] at step
      cases step
      exact .nextPending router
  | encodeFailed error =>
      cases router : state.router <;> simp only [next, router, reduceCtorEq] at step
      cases step
      exact .encodeFailed error _ _ router
  | dispatchOk worker =>
      cases router : state.router <;> simp only [next, router, reduceCtorEq] at step
      cases step
      exact .dispatchOk worker _ _ router
  | markAssigned =>
      cases router : state.router <;> simp only [next, router, reduceCtorEq] at step
      cases step
      exact .markAssigned _ _ router
  | returnPending =>
      cases router : state.router <;> simp only [next, router, reduceCtorEq] at step
      cases step
      exact .returnPending _ _ router
  | workerComplete id outcome =>
      cases step
      exact .workerComplete id outcome
  | requeueWorker worker ids =>
      by_cases order : state.queue.RequeueOrder worker ids
      · simp only [next, order, if_true] at step
        cases step
        exact .requeueWorker worker ids order
      · simp only [next, order, if_false, reduceCtorEq] at step

/-- A submission is refused, which only uses up an id, or it is queued. -/
theorem submit_cases (state : System) (job : Job) (waker : Option Waker) :
    state.submit job waker = { state with counter := state.counter + 1 } ∨
      state.submit job waker =
        { state with
          queue := { state.queue with
            pending := state.queue.pending ++ [state.counter]
            tracked := state.queue.tracked.insert state.counter
              { job := job, assignedTo := none, waker := waker } }
          counter := state.counter + 1
          accepted := state.accepted ++ [(state.counter, job)] } := by
  unfold submit JobId.next
  cases result : state.queue.submit state.counter job waker with
  | error message =>
      left
      simp only [result]
  | ok queue =>
      right
      obtain ⟨_, same⟩ := (JobQueue.submit_ok_iff _ _ _ _ _).mp result
      simp only [result, same]

theorem nextPending_queue (state : System) :
    state.nextPending.queue = state.queue.nextPending.2 := rfl

theorem complete_queue (state : System) (id : JobId) (outcome : JobOutcome) :
    (state.complete id outcome).queue = (state.queue.complete id outcome).2 := rfl

/-! ### What a step only adds to -/

theorem step_counter_le (step : state.next event = some after) : state.counter ≤ after.counter := by
  cases taken_of_next step with
  | submit job waker =>
      rcases submit_cases state job waker with refused | queued
      · rw [refused]
        exact Nat.le_succ _
      · rw [queued]
        exact Nat.le_succ _
  | _ => exact Nat.le_refl _

theorem mem_complete_completed (state : System) (id other : JobId) (outcome : JobOutcome) :
    other ∈ (state.complete id outcome).completed ↔
      other ∈ state.completed ∨ (other = id ∧ id ∈ state.queue.tracked) := by
  unfold complete
  simp only [JobQueue.complete_entry]
  cases found : state.queue.tracked.lookup id with
  | none =>
      have absent := Finmap.lookup_eq_none.mp found
      simp only [absent, and_false, or_false]
  | some entry =>
      have present := Finmap.mem_of_lookup_eq_some found
      simp only [Finmap.mem_insert, present, and_true]
      tauto

variable {id : JobId}

theorem step_completed (step : state.next event = some after) (old : id ∈ state.completed) :
    id ∈ after.completed := by
  cases taken_of_next step with
  | submit job waker =>
      rcases submit_cases state job waker with refused | queued
      · rw [refused]
        exact old
      · rw [queued]
        exact old
  | encodeFailed error held job router =>
      exact (mem_complete_completed _ _ _ _).mpr (Or.inl old)
  | workerComplete done outcome =>
      exact (mem_complete_completed _ _ _ _).mpr (Or.inl old)
  | _ => exact old

/-! ### Every tracked job is in exactly one place -/

/-- How often a job occurs among the pending jobs, the jobs in flight and the
router's hand. -/
def places (state : System) (id : JobId) : Nat :=
  state.queue.pending.count id + (if id ∈ state.queue.inFlight then 1 else 0) +
    (if state.router.job? = some id then 1 else 0)

/-- Holds in every reachable state, whatever the order of the steps. -/
structure Accounting (state : System) : Prop where
  pendingOld : ∀ id, id ∈ state.queue.pending → id < state.counter
  inFlightOld : ∀ id, id ∈ state.queue.inFlight → id < state.counter
  trackedOld : ∀ id, id ∈ state.queue.tracked → id < state.counter
  heldOld : ∀ id, state.router.job? = some id → id < state.counter
  completedOld : ∀ id, id ∈ state.completed → id < state.counter
  placed : ∀ id, id ∈ state.queue.tracked → state.places id = 1
  accepted : ∀ id, id ∈ state.accepted.map Prod.fst ↔
    id ∈ state.queue.tracked ∨ id ∈ state.completed
  apart : ∀ id, id ∈ state.queue.tracked → id ∉ state.completed

theorem initial_accounting (maxPending counter : Nat) :
    Accounting (initial maxPending counter) := by
  constructor
  · intro id member
    cases member
  · intro id member
    exact absurd member Finmap.notMem_empty
  · intro id member
    exact absurd member Finmap.notMem_empty
  · intro id held
    cases held
  · intro id member
    exact absurd member Finmap.notMem_empty
  · intro id member
    exact absurd member Finmap.notMem_empty
  · intro id
    constructor
    · intro member
      cases member
    · rintro (member | member)
      · exact absurd member Finmap.notMem_empty
      · exact absurd member Finmap.notMem_empty
  · intro id member
    exact absurd member Finmap.notMem_empty

/-- A tracked job that the router holds is neither pending nor in flight. -/
theorem Accounting.held_only (accounting : Accounting state)
    (tracked : id ∈ state.queue.tracked) (held : state.router.job? = some id) :
    id ∉ state.queue.pending ∧ id ∉ state.queue.inFlight := by
  have once := accounting.placed id tracked
  unfold places at once
  rw [if_pos held] at once
  constructor
  · intro member
    have positive := List.count_pos_iff.mpr member
    omega
  · intro member
    rw [if_pos member] at once
    omega

theorem submit_accounting (accounting : Accounting state)
    (job : Job) (waker : Option Waker) : Accounting (state.submit job waker) := by
  rcases submit_cases state job waker with refused | queued
  · rw [refused]
    exact
      { pendingOld := fun id member => Nat.lt_succ_of_lt (accounting.pendingOld id member)
        inFlightOld := fun id member => Nat.lt_succ_of_lt (accounting.inFlightOld id member)
        trackedOld := fun id member => Nat.lt_succ_of_lt (accounting.trackedOld id member)
        heldOld := fun id held => Nat.lt_succ_of_lt (accounting.heldOld id held)
        completedOld := fun id member => Nat.lt_succ_of_lt (accounting.completedOld id member)
        placed := accounting.placed
        accepted := accounting.accepted
        apart := accounting.apart }
  · rw [queued]
    constructor
    · intro id member
      rcases List.mem_append.mp member with old | new
      · exact Nat.lt_succ_of_lt (accounting.pendingOld id old)
      · rw [List.mem_singleton] at new
        rw [new]
        exact Nat.lt_succ_self _
    · exact fun id member => Nat.lt_succ_of_lt (accounting.inFlightOld id member)
    · intro id member
      rcases Finmap.mem_insert.mp member with new | old
      · rw [new]
        exact Nat.lt_succ_self _
      · exact Nat.lt_succ_of_lt (accounting.trackedOld id old)
    · exact fun id held => Nat.lt_succ_of_lt (accounting.heldOld id held)
    · exact fun id member => Nat.lt_succ_of_lt (accounting.completedOld id member)
    · intro id member
      change (state.queue.pending ++ [state.counter]).count id +
        (if id ∈ state.queue.inFlight then 1 else 0) +
        (if state.router.job? = some id then 1 else 0) = 1
      rcases Finmap.mem_insert.mp member with new | old
      · subst new
        -- The counter is above every id the queue has ever seen.
        have notPending : state.queue.pending.count state.counter = 0 :=
          List.count_eq_zero.mpr
            (fun present => Nat.lt_irrefl _ (accounting.pendingOld _ present))
        have notInFlight : state.counter ∉ state.queue.inFlight :=
          fun present => Nat.lt_irrefl _ (accounting.inFlightOld _ present)
        have notHeld : state.router.job? ≠ some state.counter :=
          fun held => Nat.lt_irrefl _ (accounting.heldOld _ held)
        simp [List.count_append, notPending, notInFlight, notHeld]
      · have different : state.counter ≠ id := Nat.ne_of_gt (accounting.trackedOld id old)
        have once := accounting.placed id old
        unfold places at once
        simp only [List.count_append, List.count_singleton, beq_iff_eq, if_neg different]
        omega
    · intro id
      change id ∈ (state.accepted ++ [(state.counter, job)]).map Prod.fst ↔
        id ∈ state.queue.tracked.insert state.counter _ ∨ id ∈ state.completed
      rw [List.map_append, List.mem_append, accounting.accepted id, Finmap.mem_insert]
      simp only [List.map_cons, List.map_nil, List.mem_singleton]
      tauto
    · intro id member completed
      rcases Finmap.mem_insert.mp member with new | old
      · subst new
        exact Nat.lt_irrefl _ (accounting.completedOld _ completed)
      · exact accounting.apart id old completed

theorem nextPending_accounting (accounting : Accounting state)
    (idle : state.router = .idle) : Accounting state.nextPending := by
  have notHeld : state.router.job? = none := by
    rw [idle]
    rfl
  cases front : state.queue.pending with
  | nil =>
      have same : state.nextPending = state := by
        unfold nextPending
        rw [JobQueue.nextPending_nil _ front, ← idle]
      rw [same]
      exact accounting
  | cons first rest =>
      unfold nextPending
      rw [JobQueue.nextPending_cons _ _ _ front]
      have inRest : ∀ id, id ∈ rest → id < state.counter := fun id member =>
        accounting.pendingOld id (by rw [front]; exact List.mem_cons_of_mem _ member)
      cases found : state.queue.tracked.lookup first with
      | none =>
          refine
            { pendingOld := inRest
              inFlightOld := accounting.inFlightOld
              trackedOld := accounting.trackedOld
              heldOld := ?_
              completedOld := accounting.completedOld
              placed := ?_
              accepted := accounting.accepted
              apart := accounting.apart }
          · intro id held
            cases held
          · intro id tracked
            have different : first ≠ id := by
              intro same
              subst same
              exact Finmap.lookup_eq_none.mp found tracked
            have once := accounting.placed id tracked
            unfold places at once ⊢
            rw [front, notHeld, List.count_cons_of_ne different] at once
            simpa [RouterState.job?] using once
      | some entry =>
          refine
            { pendingOld := inRest
              inFlightOld := accounting.inFlightOld
              trackedOld := accounting.trackedOld
              heldOld := ?_
              completedOld := accounting.completedOld
              placed := ?_
              accepted := accounting.accepted
              apart := accounting.apart }
          · intro id held
            cases held
            exact accounting.trackedOld _ (Finmap.mem_of_lookup_eq_some found)
          · intro id tracked
            have once := accounting.placed id tracked
            unfold places at once ⊢
            rw [front, notHeld, List.count_cons] at once
            simp only [Option.map_some, RouterState.job?, Option.some.injEq]
            simp only [beq_iff_eq, reduceCtorEq, if_false] at once
            omega

theorem complete_accounting (accounting : Accounting state)
    (id : JobId) (outcome : JobOutcome) : Accounting (state.complete id outcome) := by
  constructor
  · intro other member
    rw [complete_queue, JobQueue.complete_pending] at member
    exact accounting.pendingOld other member
  · intro other member
    rw [complete_queue, JobQueue.complete_inFlight, Finmap.mem_erase] at member
    exact accounting.inFlightOld other member.2
  · intro other member
    rw [complete_queue, JobQueue.complete_tracked, Finmap.mem_erase] at member
    exact accounting.trackedOld other member.2
  · exact accounting.heldOld
  · intro other member
    rcases (mem_complete_completed _ _ _ _).mp member with old | ⟨same, tracked⟩
    · exact accounting.completedOld other old
    · rw [same]
      exact accounting.trackedOld id tracked
  · intro other member
    rw [complete_queue, JobQueue.complete_tracked, Finmap.mem_erase] at member
    have once := accounting.placed other member.2
    unfold places at once ⊢
    rw [complete_queue, JobQueue.complete_pending, JobQueue.complete_inFlight]
    simp only [Finmap.mem_erase, member.1, not_false_eq_true, ne_eq, true_and]
    exact once
  · intro other
    rw [complete_queue, JobQueue.complete_tracked, Finmap.mem_erase, mem_complete_completed]
    change other ∈ state.accepted.map Prod.fst ↔ _
    rw [accounting.accepted other]
    by_cases same : other = id
    · subst same
      simp only [ne_eq, not_true_eq_false, false_and, true_and, false_or]
      exact or_comm
    · simp only [ne_eq, same, not_false_eq_true, true_and, false_and, or_false]
  · intro other member completed
    rw [complete_queue, JobQueue.complete_tracked, Finmap.mem_erase] at member
    rcases (mem_complete_completed _ _ _ _).mp completed with old | ⟨same, _⟩
    · exact accounting.apart other member.2 old
    · exact member.1 same

theorem markAssigned_accounting (accounting : Accounting state)
    (id : JobId) (worker : String) (held : state.router.job? = some id) :
    Accounting
      { state with queue := state.queue.markAssigned id worker, router := .idle } := by
  constructor
  · exact accounting.pendingOld
  · intro other member
    rcases Finmap.mem_insert.mp member with same | old
    · rw [same]
      exact accounting.heldOld id held
    · exact accounting.inFlightOld other old
  · intro other member
    exact accounting.trackedOld other ((JobQueue.mem_markAssigned_tracked _ _ _ _).mp member)
  · intro other impossible
    cases impossible
  · exact accounting.completedOld
  · intro other member
    have tracked := (JobQueue.mem_markAssigned_tracked _ _ _ _).mp member
    have once := accounting.placed other tracked
    unfold places at once ⊢
    by_cases same : other = id
    · subst same
      obtain ⟨_, notInFlight⟩ := accounting.held_only tracked held
      simp only [held, notInFlight, if_true, if_false] at once
      simp only [JobQueue.markAssigned_pending, JobQueue.markAssigned_inFlight,
        Finmap.mem_insert, true_or, if_true, RouterState.job?, reduceCtorEq, if_false]
      omega
    · have notHeld := RouterState.job?_ne held same
      simp only [notHeld, if_false] at once
      simp only [JobQueue.markAssigned_pending, JobQueue.markAssigned_inFlight,
        Finmap.mem_insert, same, false_or, RouterState.job?, reduceCtorEq, if_false]
      exact once
  · intro other
    change other ∈ state.accepted.map Prod.fst ↔
      other ∈ (state.queue.markAssigned id worker).tracked ∨ other ∈ state.completed
    rw [JobQueue.mem_markAssigned_tracked]
    exact accounting.accepted other
  · intro other member
    exact accounting.apart other ((JobQueue.mem_markAssigned_tracked _ _ _ _).mp member)

theorem returnPending_accounting (accounting : Accounting state)
    (id : JobId) (held : state.router.job? = some id) :
    Accounting { state with queue := state.queue.returnPending id, router := .idle } := by
  constructor
  · intro other member
    rcases (JobQueue.mem_returnPending_pending _ _ _).mp member with ⟨same, _⟩ | old
    · rw [same]
      exact accounting.heldOld id held
    · exact accounting.pendingOld other old
  · intro other member
    exact accounting.inFlightOld other (Finmap.mem_erase.mp member).2
  · exact accounting.trackedOld
  · intro other impossible
    cases impossible
  · exact accounting.completedOld
  · intro other tracked
    change other ∈ state.queue.tracked at tracked
    have once := accounting.placed other tracked
    unfold places at once ⊢
    change (if id ∈ state.queue.tracked then id :: state.queue.pending
        else state.queue.pending).count other +
      (if other ∈ state.queue.inFlight.erase id then 1 else 0) + 0 = 1
    by_cases same : other = id
    · subst same
      simp only [held, if_true] at once
      simp only [tracked, if_true, List.count_cons_self, Finmap.mem_erase, ne_eq,
        not_true_eq_false, false_and, if_false]
      omega
    · have notHeld := RouterState.job?_ne held same
      have sameCount : (if id ∈ state.queue.tracked then id :: state.queue.pending
          else state.queue.pending).count other = state.queue.pending.count other := by
        split
        · exact List.count_cons_of_ne (fun equal => same equal.symm)
        · rfl
      simp only [notHeld, if_false] at once
      simp only [sameCount, Finmap.mem_erase, ne_eq, same, not_false_eq_true, true_and]
      exact once
  · exact accounting.accepted
  · exact accounting.apart

theorem requeueWorker_accounting (accounting : Accounting state)
    (worker : String) (ids : List JobId) (order : state.queue.RequeueOrder worker ids) :
    Accounting { state with queue := state.queue.requeueWorker ids } := by
  have flying : ∀ id, id ∈ ids → id ∈ state.queue.inFlight := fun id member =>
    Finmap.mem_of_lookup_eq_some ((order.mem_iff id).mp member)
  constructor
  · intro id member
    change id ∈ (state.queue.requeueWorker ids).pending at member
    rw [JobQueue.requeueWorker_pending, List.mem_append, List.mem_reverse] at member
    rcases member with walked | old
    · exact accounting.inFlightOld id (flying id walked)
    · exact accounting.pendingOld id old
  · intro id member
    exact accounting.inFlightOld id
      ((JobQueue.mem_requeueWorker_inFlight state.queue ids id).mp member).2
  · intro id member
    exact accounting.trackedOld id ((JobQueue.mem_requeueWorker_tracked _ _ _).mp member)
  · exact accounting.heldOld
  · exact accounting.completedOld
  · intro id member
    have once := accounting.placed id ((JobQueue.mem_requeueWorker_tracked _ _ _).mp member)
    unfold places at once ⊢
    simp only [JobQueue.requeueWorker_pending, List.count_append, List.count_reverse,
      JobQueue.mem_requeueWorker_inFlight]
    by_cases walked : id ∈ ids
    · have single := List.count_eq_one_of_mem order.1 walked
      simp only [flying id walked, if_true] at once
      simp only [single, walked, not_true_eq_false, false_and, if_false]
      omega
    · have none := List.count_eq_zero.mpr walked
      simp only [none, walked, not_false_eq_true, true_and]
      omega
  · intro id
    change id ∈ state.accepted.map Prod.fst ↔
      id ∈ (state.queue.requeueWorker ids).tracked ∨ id ∈ state.completed
    rw [JobQueue.mem_requeueWorker_tracked]
    exact accounting.accepted id
  · intro id member
    exact accounting.apart id ((JobQueue.mem_requeueWorker_tracked _ _ _).mp member)

theorem release_accounting (accounting : Accounting state)
    (id : JobId) (held : state.router.job? = some id) (gone : id ∉ state.queue.tracked) :
    Accounting { state with router := .idle } := by
  refine { accounting with heldOld := ?_, placed := ?_ }
  · intro other impossible
    cases impossible
  · intro other tracked
    have once := accounting.placed other tracked
    have different : other ≠ id := by
      intro same
      rw [same] at tracked
      exact gone tracked
    have notHeld := RouterState.job?_ne held different
    unfold places at once ⊢
    rw [if_neg notHeld] at once
    simpa only [RouterState.job?, reduceCtorEq, if_false] using once

theorem step_accounting (accounting : Accounting state) (step : state.next event = some after) :
    Accounting after := by
  cases taken_of_next step with
  | submit job waker => exact submit_accounting accounting job waker
  | nextPending idle => exact nextPending_accounting accounting idle
  | encodeFailed error id job router =>
      have completed := complete_accounting accounting id (encodeError error)
      apply release_accounting completed id
      · change state.router.job? = some id
        rw [router]
        rfl
      · rw [complete_queue, JobQueue.complete_tracked]
        exact Finmap.notMem_erase_self
  | dispatchOk worker id job router =>
      have sameHand : ∀ other, (RouterState.dispatched id worker).job? = some other ↔
          state.router.job? = some other := by
        intro other
        rw [router]
        rfl
      refine { accounting with heldOld := ?_, placed := ?_ }
      · intro other held
        exact accounting.heldOld other ((sameHand other).mp held)
      · intro other tracked
        have once := accounting.placed other tracked
        unfold places at once ⊢
        simpa only [sameHand other] using once
  | markAssigned id worker router =>
      apply markAssigned_accounting accounting
      rw [router]
      rfl
  | returnPending id job router =>
      apply returnPending_accounting accounting
      rw [router]
      rfl
  | workerComplete id outcome => exact complete_accounting accounting id outcome
  | requeueWorker worker ids order => exact requeueWorker_accounting accounting worker ids order

theorem step_known (step : state.next event = some after)
    (known : id ∈ state.queue.tracked ∨ id ∈ state.completed) :
    id ∈ after.queue.tracked ∨ id ∈ after.completed := by
  rcases known with tracked | completed
  · have completing : ∀ done outcome,
        id ∈ (state.complete done outcome).queue.tracked ∨
          id ∈ (state.complete done outcome).completed := by
      intro done outcome
      by_cases same : id = done
      · subst same
        exact Or.inr ((mem_complete_completed _ _ _ _).mpr (Or.inr ⟨rfl, tracked⟩))
      · left
        rw [complete_queue, JobQueue.complete_tracked]
        exact Finmap.mem_erase.mpr ⟨same, tracked⟩
    cases taken_of_next step with
    | submit job waker =>
        left
        rcases submit_cases state job waker with refused | queued
        · rw [refused]
          exact tracked
        · rw [queued]
          exact Finmap.mem_insert.mpr (Or.inr tracked)
    | nextPending idle =>
        left
        rw [nextPending_queue, JobQueue.nextPending_tracked]
        exact tracked
    | encodeFailed error held job router => exact completing held _
    | dispatchOk worker held job router => exact Or.inl tracked
    | markAssigned held worker router =>
        exact Or.inl ((JobQueue.mem_markAssigned_tracked _ _ _ _).mpr tracked)
    | returnPending held job router => exact Or.inl tracked
    | workerComplete done outcome => exact completing done outcome
    | requeueWorker worker ids order =>
        exact Or.inl ((JobQueue.mem_requeueWorker_tracked _ _ _).mpr tracked)
  · exact Or.inr (step_completed step completed)

theorem step_flying (flying : ∀ id, id ∈ state.queue.inFlight → id ∈ state.queue.tracked)
    (marks : ∀ id worker, event = .markAssigned → state.router = .dispatched id worker →
      id ∈ state.queue.tracked) (step : state.next event = some after) :
    ∀ id, id ∈ after.queue.inFlight → id ∈ after.queue.tracked := by
  have completing : ∀ done outcome id, id ∈ (state.complete done outcome).queue.inFlight →
      id ∈ (state.complete done outcome).queue.tracked := by
    intro done outcome id member
    rw [complete_queue, JobQueue.complete_inFlight, Finmap.mem_erase] at member
    rw [complete_queue, JobQueue.complete_tracked, Finmap.mem_erase]
    exact ⟨member.1, flying id member.2⟩
  intro id member
  cases taken_of_next step with
  | submit job waker =>
      rcases submit_cases state job waker with refused | queued
      · rw [refused] at member ⊢
        exact flying id member
      · rw [queued] at member ⊢
        exact Finmap.mem_insert.mpr (Or.inr (flying id member))
  | nextPending idle =>
      rw [nextPending_queue, JobQueue.nextPending_inFlight] at member
      rw [nextPending_queue, JobQueue.nextPending_tracked]
      exact flying id member
  | encodeFailed error held job router => exact completing held _ id member
  | dispatchOk worker held job router => exact flying id member
  | markAssigned held worker router =>
      apply (JobQueue.mem_markAssigned_tracked _ _ _ _).mpr
      rcases Finmap.mem_insert.mp member with same | old
      · rw [same]
        exact marks held worker rfl router
      · exact flying id old
  | returnPending held job router => exact flying id (Finmap.mem_erase.mp member).2
  | workerComplete done outcome => exact completing done outcome id member
  | requeueWorker worker ids order =>
      apply (JobQueue.mem_requeueWorker_tracked _ _ _).mpr
      exact flying id ((JobQueue.mem_requeueWorker_inFlight _ _ _).mp member).2

theorem reachable_accounting {maxPending counter : Nat}
    (reachable : Reachable next (initial maxPending counter) state) : Accounting state :=
  reachable.invariant (initial_accounting maxPending counter)
    (fun _ _ _ accounting taken => step_accounting accounting taken)

end System

end Mneme.Supervisor
