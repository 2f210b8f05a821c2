/-
The job queue under any calls, and when it stays within its bound.

Nothing is assumed about the callers: a job may be marked, returned or
completed by anybody at any time, and the disk may be recovered again and
again.  An operation is the critical section it runs under the lock; the ids
that `submit` draws before it, the writes it makes after it and the two reads
of a recovery are steps of their own.

Only `submit` compares the load with the bound.  Three other operations put
jobs in: a job that its holder gives back, a mark of a job that is not in
flight, and the rows of a recovery.
-/

import Mneme.Supervisor.DurableQueue

namespace Mneme.Supervisor

open Common Transition

/-- How far a call of `recover_from_disk` is. -/
inductive RecoveryCall where
  | flipped
  | read (rows : List RecoveredJob)
  | returned

/-- `accepted`, `recovered`, `reported` and `fired` are history: the
submissions that returned an id, how many jobs the recoveries returned, the
completions of accepted jobs and the wakers that were used. -/
structure QueueCalls where
  queue : JobQueue
  durable : Option DurableJobQueue
  counter : Nat
  /-- Ids whose `submit` has not yet taken the lock. -/
  drawn : List JobId
  recoveries : List RecoveryCall
  outstanding : List Write
  accepted : List (JobId × Option Waker)
  recovered : Nat
  reported : List (JobId × JobOutcome)
  fired : List (JobId × Waker × JobOutcome)

inductive QueueCall where
  | drawId
  /-- `persisted`: whether the row was written. -/
  | submit (id : JobId) (job : Job) (waker : Option Waker) (persisted : Bool)
  | nextPending
  | markAssigned (id : JobId) (worker : String)
  | returnPending (id : JobId)
  | complete (id : JobId) (outcome : JobOutcome)
  | requeueWorker (worker : String) (ids : List JobId)
  /-- One of the outstanding writes is made, or fails. -/
  | write (position : Nat) (done : Bool)
  | flipRows
  | readRows (call : Nat)
  | pushRows (call : Nat)

namespace QueueCalls

/-- A new queue in a process that has already handed out some ids. -/
def start (maxPending previous : Nat) (durable : Option DurableJobQueue) : QueueCalls :=
  { queue := .new maxPending
    durable := durable
    counter :=
      match durable with
      | none => previous + 1
      | some disk => (JobQueue.withDurable maxPending (previous + 1) disk).2
    drawn := []
    recoveries := []
    outstanding := []
    accepted := []
    recovered := 0
    reported := []
    fired := [] }

def submit (state : QueueCalls) (id : JobId) (job : Job) (waker : Option Waker)
    (persisted : Bool) : QueueCalls :=
  match state.queue.submit id job waker with
  | .error _ => { state with drawn := state.drawn.erase id }
  | .ok queue =>
      { state with
        queue := queue
        durable :=
          if persisted then state.durable.map (fun disk => disk.push id job) else state.durable
        drawn := state.drawn.erase id
        accepted := state.accepted ++ [(id, waker)] }

def complete (state : QueueCalls) (id : JobId) (outcome : JobOutcome) : QueueCalls :=
  { state with
    queue := (state.queue.complete id outcome).2
    outstanding :=
      match (state.queue.complete id outcome).1 with
      | none => state.outstanding
      | some _ => state.outstanding ++ [.markDone id outcome]
    reported :=
      if id ∈ state.accepted.map Prod.fst then state.reported ++ [(id, outcome)]
      else state.reported
    fired :=
      match (state.queue.complete id outcome).1.bind Tracked.waker with
      | none => state.fired
      | some waker => state.fired ++ [(id, waker, outcome)] }

/-- The rows that a recovery has read and not yet pushed. -/
def rowsRead (state : QueueCalls) (call : Nat) : List RecoveredJob :=
  match state.recoveries[call]? with
  | some (.read rows) => rows
  | _ => []

/-- The last part of a recovery, under the lock. -/
def pushRows (state : QueueCalls) (call : Nat) (rows : List RecoveredJob) : QueueCalls :=
  { state with
    queue := rows.foldl JobQueue.recoverOne state.queue
    recoveries := state.recoveries.set call .returned
    recovered := state.recovered + rows.length }

def next (state : QueueCalls) : QueueCall → Option QueueCalls
  | .drawId =>
      some { state with
        counter := (JobId.next state.counter).2
        drawn := state.drawn ++ [(JobId.next state.counter).1] }
  | .submit id job waker persisted =>
      if id ∈ state.drawn then some (state.submit id job waker persisted) else none
  | .nextPending => some { state with queue := state.queue.nextPending.2 }
  | .markAssigned id worker =>
      some { state with
        queue := state.queue.markAssigned id worker
        outstanding := state.outstanding ++ [.markInFlight id worker] }
  | .returnPending id =>
      some { state with
        queue := state.queue.returnPending id
        outstanding := state.outstanding ++ [.requeue id] }
  | .complete id outcome => some (state.complete id outcome)
  | .requeueWorker worker ids =>
      if state.queue.RequeueOrder worker ids then
        some { state with
          queue := state.queue.requeueWorker ids
          outstanding := state.outstanding ++ ids.map .requeue }
      else none
  | .write position done =>
      match state.outstanding[position]? with
      | none => none
      | some write =>
          some { state with
            durable :=
              if done then state.durable.map (fun disk => write.run disk) else state.durable
            outstanding := state.outstanding.eraseIdx position }
  | .flipRows =>
      match state.durable with
      | none => none
      | some disk =>
          some { state with
            durable := some disk.requeueAllInFlight
            recoveries := state.recoveries ++ [.flipped] }
  | .readRows call =>
      match state.recoveries[call]?, state.durable with
      | some .flipped, some disk =>
          some { state with recoveries := state.recoveries.set call (.read disk.recoverQueued) }
      | _, _ => none
  | .pushRows call =>
      match state.recoveries[call]? with
      | some (.read rows) => some (state.pushRows call rows)
      | _ => none

/-- What a step can be: the inversion of `next`. -/
inductive Taken (state : QueueCalls) : QueueCall → QueueCalls → Prop
  | drawId :
      Taken state .drawId
        { state with counter := state.counter + 1, drawn := state.drawn ++ [state.counter] }
  | submit (id : JobId) (job : Job) (waker : Option Waker) (persisted : Bool)
      (drawn : id ∈ state.drawn) :
      Taken state (.submit id job waker persisted) (state.submit id job waker persisted)
  | nextPending : Taken state .nextPending { state with queue := state.queue.nextPending.2 }
  | markAssigned (id : JobId) (worker : String) :
      Taken state (.markAssigned id worker)
        { state with
          queue := state.queue.markAssigned id worker
          outstanding := state.outstanding ++ [.markInFlight id worker] }
  | returnPending (id : JobId) :
      Taken state (.returnPending id)
        { state with
          queue := state.queue.returnPending id
          outstanding := state.outstanding ++ [.requeue id] }
  | complete (id : JobId) (outcome : JobOutcome) :
      Taken state (.complete id outcome) (state.complete id outcome)
  | requeueWorker (worker : String) (ids : List JobId)
      (order : state.queue.RequeueOrder worker ids) :
      Taken state (.requeueWorker worker ids)
        { state with
          queue := state.queue.requeueWorker ids
          outstanding := state.outstanding ++ ids.map .requeue }
  | write (position : Nat) (done : Bool) (write : Write)
      (found : state.outstanding[position]? = some write) :
      Taken state (.write position done)
        { state with
          durable :=
            if done then state.durable.map (fun disk => write.run disk) else state.durable
          outstanding := state.outstanding.eraseIdx position }
  | flipRows (disk : DurableJobQueue) (attached : state.durable = some disk) :
      Taken state .flipRows
        { state with
          durable := some disk.requeueAllInFlight
          recoveries := state.recoveries ++ [.flipped] }
  | readRows (call : Nat) (disk : DurableJobQueue) (attached : state.durable = some disk)
      (reached : state.recoveries[call]? = some .flipped) :
      Taken state (.readRows call)
        { state with recoveries := state.recoveries.set call (.read disk.recoverQueued) }
  | pushRows (call : Nat) (rows : List RecoveredJob)
      (reached : state.recoveries[call]? = some (.read rows)) :
      Taken state (.pushRows call) (state.pushRows call rows)

theorem taken_of_next {state after : QueueCalls} {call : QueueCall}
    (step : state.next call = some after) : Taken state call after := by
  cases call with
  | drawId =>
      cases step
      exact .drawId
  | submit id job waker persisted =>
      simp only [next] at step
      split at step
      · next drawn =>
          cases step
          exact .submit id job waker persisted drawn
      · cases step
  | nextPending =>
      cases step
      exact .nextPending
  | markAssigned id worker =>
      cases step
      exact .markAssigned id worker
  | returnPending id =>
      cases step
      exact .returnPending id
  | complete id outcome =>
      cases step
      exact .complete id outcome
  | requeueWorker worker ids =>
      simp only [next] at step
      split at step
      · next order =>
          cases step
          exact .requeueWorker worker ids order
      · cases step
  | write position done =>
      simp only [next] at step
      split at step
      · cases step
      · next write found =>
          cases step
          exact .write position done write found
  | flipRows =>
      simp only [next] at step
      split at step
      · cases step
      · next disk attached =>
          cases step
          exact .flipRows disk attached
  | readRows call =>
      simp only [next] at step
      split at step
      · next disk reached attached =>
          cases step
          exact .readRows call disk attached reached
      · cases step
  | pushRows call =>
      simp only [next] at step
      split at step
      · next rows reached =>
          cases step
          exact .pushRows call rows reached
      · cases step

/-- A submission is refused, which only uses up the id, or it is queued. -/
theorem submit_cases (state : QueueCalls) (id : JobId) (job : Job) (waker : Option Waker)
    (persisted : Bool) :
    state.submit id job waker persisted = { state with drawn := state.drawn.erase id } ∨
      (state.queue.pending.length + state.queue.inFlight.keys.card < state.queue.maxPending ∧
        state.submit id job waker persisted =
          { state with
            queue := { state.queue with
              pending := state.queue.pending ++ [id]
              tracked := state.queue.tracked.insert id
                { job := job, assignedTo := none, waker := waker } }
            durable :=
              if persisted then state.durable.map (fun disk => disk.push id job)
              else state.durable
            drawn := state.drawn.erase id
            accepted := state.accepted ++ [(id, waker)] }) := by
  unfold submit
  cases result : state.queue.submit id job waker with
  | error message => exact Or.inl rfl
  | ok queue =>
      obtain ⟨room, same⟩ := (JobQueue.submit_ok_iff _ _ _ _ _).mp result
      right
      rw [same]
      exact ⟨room, rfl⟩

theorem rowsRead_of_read {state : QueueCalls} {call : Nat} {rows : List RecoveredJob}
    (reached : state.recoveries[call]? = some (.read rows)) : state.rowsRead call = rows := by
  unfold rowsRead
  rw [reached]

end QueueCalls

end Mneme.Supervisor

namespace Mneme.Supervisor

open Common Transition

namespace JobQueue

/-- What `max_pending` bounds. -/
def load (queue : JobQueue) : Nat :=
  queue.pending.length + queue.inFlight.keys.card

theorem keys_insert (flights : Finmap (fun _ : JobId => String)) (id : JobId) (worker : String) :
    (flights.insert id worker).keys = insert id flights.keys := by
  ext other
  rw [Finmap.mem_keys, Finmap.mem_insert, Finset.mem_insert, Finmap.mem_keys]

variable (queue : JobQueue)

theorem nextPending_load_le : queue.nextPending.2.load ≤ queue.load := by
  unfold load
  rw [nextPending_pending, nextPending_inFlight, List.length_tail]
  omega

theorem markAssigned_load (id : JobId) (worker : String) :
    (queue.markAssigned id worker).load =
      queue.load + if id ∈ queue.inFlight then 0 else 1 := by
  unfold load
  rw [markAssigned_pending, markAssigned_inFlight, keys_insert]
  by_cases flying : id ∈ queue.inFlight
  · rw [if_pos flying, Finset.insert_eq_of_mem (Finmap.mem_keys.mpr flying)]
    omega
  · rw [if_neg flying, Finset.card_insert_of_notMem (fun key => flying (Finmap.mem_keys.mp key))]
    omega

theorem card_erase (flights : Finmap (fun _ : JobId => String)) (id : JobId) :
    (flights.erase id).keys.card + (if id ∈ flights then 1 else 0) = flights.keys.card := by
  rw [Finmap.keys_erase]
  by_cases flying : id ∈ flights
  · rw [if_pos flying]
    exact Finset.card_erase_add_one (Finmap.mem_keys.mpr flying)
  · rw [if_neg flying, Finset.erase_eq_of_notMem (fun key => flying (Finmap.mem_keys.mp key))]
    rfl

theorem returnPending_load (id : JobId) :
    (queue.returnPending id).load + (if id ∈ queue.inFlight then 1 else 0) =
      queue.load + if id ∈ queue.tracked then 1 else 0 := by
  have flights := card_erase queue.inFlight id
  unfold load returnPending
  by_cases tracked : id ∈ queue.tracked
  · simp only [tracked, if_true, List.length_cons]
    omega
  · simp only [tracked, if_false]
    omega

theorem complete_load_le (id : JobId) (outcome : JobOutcome) :
    (queue.complete id outcome).2.load ≤ queue.load := by
  have flights := card_erase queue.inFlight id
  unfold load
  rw [complete_pending, complete_inFlight]
  omega

/-- A requeue moves jobs from flight to the front, one for one. -/
theorem requeueWorker_load {queue : JobQueue} {worker : String} {ids : List JobId}
    (order : queue.RequeueOrder worker ids) : (queue.requeueWorker ids).load = queue.load := by
  have flying : ids.toFinset ⊆ queue.inFlight.keys := by
    rw [order.2]
    exact Finset.filter_subset _ _
  have left : (queue.requeueWorker ids).inFlight.keys = queue.inFlight.keys \ ids.toFinset := by
    ext other
    rw [Finmap.mem_keys, mem_requeueWorker_inFlight, Finset.mem_sdiff, Finmap.mem_keys,
      List.mem_toFinset]
    exact and_comm
  have taken := Finset.card_sdiff_add_card_eq_card flying
  rw [List.toFinset_card_of_nodup order.1] at taken
  unfold load
  rw [requeueWorker_pending, left, List.length_append, List.length_reverse]
  omega

theorem recover_load (rows : List RecoveredJob) :
    (rows.foldl recoverOne queue).load = queue.load + rows.length := by
  unfold load
  rw [recover_pending, recover_inFlight, List.length_append, List.length_map]
  omega

theorem recover_maxPending (rows : List RecoveredJob) :
    (rows.foldl recoverOne queue).maxPending = queue.maxPending := by
  induction rows generalizing queue with
  | nil => rfl
  | cons row rows ih => exact ih (queue.recoverOne row)

theorem requeueWorker_maxPending (ids : List JobId) :
    (queue.requeueWorker ids).maxPending = queue.maxPending := by
  induction ids generalizing queue with
  | nil => rfl
  | cons id ids ih => exact ih (queue.requeueOne id)

theorem complete_maxPending (id : JobId) (outcome : JobOutcome) :
    (queue.complete id outcome).2.maxPending = queue.maxPending := by
  unfold complete
  cases queue.tracked.lookup id <;> rfl

end JobQueue

namespace QueueCalls

def WithinBound (state : QueueCalls) : Prop :=
  state.queue.load ≤ state.queue.maxPending

/-- A call that puts jobs in without asking finds room for them. -/
def FindsRoom (state : QueueCalls) : QueueCall → Prop
  | .markAssigned id _ =>
      id ∈ state.queue.inFlight ∨ state.queue.load < state.queue.maxPending
  | .returnPending id =>
      id ∉ state.queue.tracked ∨ id ∈ state.queue.inFlight ∨
        state.queue.load < state.queue.maxPending
  | .pushRows call =>
      state.queue.load + (state.rowsRead call).length ≤ state.queue.maxPending
  | _ => True

instance (state : QueueCalls) : (call : QueueCall) → Decidable (state.FindsRoom call)
  | .markAssigned _ _ => inferInstanceAs (Decidable (_ ∨ _))
  | .returnPending _ => inferInstanceAs (Decidable (_ ∨ _ ∨ _))
  | .pushRows _ => inferInstanceAs (Decidable (_ ≤ _))
  | .drawId | .submit _ _ _ _ | .nextPending | .complete _ _ | .requeueWorker _ _ | .write _ _
  | .flipRows | .readRows _ => isTrue trivial

/-- From within the bound a step stays there exactly when it finds room. -/
theorem withinBound_step_iff {state after : QueueCalls} {call : QueueCall}
    (within : state.WithinBound) (step : state.next call = some after) :
    after.WithinBound ↔ state.FindsRoom call := by
  unfold WithinBound at within ⊢
  cases taken_of_next step with
  | drawId | write | flipRows | readRows => exact iff_of_true within trivial
  | submit id job waker persisted drawn =>
      rcases state.submit_cases id job waker persisted with refused | ⟨room, queued⟩
      · rw [refused]
        exact iff_of_true within trivial
      · rw [queued]
        refine iff_of_true ?_ trivial
        change (state.queue.pending ++ [id]).length + state.queue.inFlight.keys.card ≤
          state.queue.maxPending
        rw [List.length_append, List.length_singleton]
        omega
  | nextPending =>
      have fewer := state.queue.nextPending_load_le
      have bound : state.queue.nextPending.2.maxPending = state.queue.maxPending := by
        rw [JobQueue.nextPending_queue]
      refine iff_of_true ?_ trivial
      change state.queue.nextPending.2.load ≤ state.queue.nextPending.2.maxPending
      omega
  | markAssigned id worker =>
      have load := state.queue.markAssigned_load id worker
      change (state.queue.markAssigned id worker).load ≤ state.queue.maxPending ↔
        id ∈ state.queue.inFlight ∨ state.queue.load < state.queue.maxPending
      by_cases flying : id ∈ state.queue.inFlight
      · rw [if_pos flying] at load
        exact iff_of_true (by omega) (Or.inl flying)
      · rw [if_neg flying] at load
        simp only [flying, false_or]
        omega
  | returnPending id =>
      have load := state.queue.returnPending_load id
      change (state.queue.returnPending id).load ≤ state.queue.maxPending ↔
        id ∉ state.queue.tracked ∨ id ∈ state.queue.inFlight ∨
          state.queue.load < state.queue.maxPending
      by_cases tracked : id ∈ state.queue.tracked
      · rw [if_pos tracked] at load
        by_cases flying : id ∈ state.queue.inFlight
        · rw [if_pos flying] at load
          exact iff_of_true (by omega) (Or.inr (Or.inl flying))
        · rw [if_neg flying] at load
          simp only [tracked, flying, not_true_eq_false, false_or]
          omega
      · rw [if_neg tracked] at load
        exact iff_of_true (by omega) (Or.inl tracked)
  | complete id outcome =>
      have fewer := state.queue.complete_load_le id outcome
      have bound := state.queue.complete_maxPending id outcome
      change (state.queue.complete id outcome).2.load ≤ (state.queue.complete id outcome).2.maxPending
        ↔ True
      refine iff_of_true ?_ trivial
      omega
  | requeueWorker worker ids order =>
      have same := JobQueue.requeueWorker_load order
      have bound := state.queue.requeueWorker_maxPending ids
      refine iff_of_true ?_ trivial
      change (state.queue.requeueWorker ids).load ≤ (state.queue.requeueWorker ids).maxPending
      omega
  | pushRows call rows reached =>
      have load := state.queue.recover_load rows
      have bound := state.queue.recover_maxPending rows
      change (rows.foldl JobQueue.recoverOne state.queue).load ≤
          (rows.foldl JobQueue.recoverOne state.queue).maxPending ↔
        state.queue.load + (state.rowsRead call).length ≤ state.queue.maxPending
      rw [rowsRead_of_read reached, load, bound]

theorem withinBound_iff (maxPending previous : Nat) (durable : Option DurableJobQueue)
    {history : List (QueueCalls × QueueCall)} {final : QueueCalls}
    (run : Run next (start maxPending previous durable) history final) :
    Throughout WithinBound history final ↔ Respects FindsRoom history := by
  have empty : WithinBound (start maxPending previous durable) := Nat.zero_le _
  refine run.throughout_iff_respects empty (fun _ within => within) ?_ ?_
  · intro state call after within room step
    exact (withinBound_step_iff within step).mpr room
  · intro state call after within step good
    exact (withinBound_step_iff within step).mp good

def notes : Job := .ingest "notes.md" "shard"

/-- A job that its holder gives back while there is room, and a requeue. -/
theorem withinBound_iff_returned :
    ∃ history final, Run next (start 2 0 none) history final ∧
      history.length = 9 ∧ Throughout WithinBound history final := by
  obtain ⟨history, final, run, labels, passed⟩ := Run.of_trace next (start 2 0 none)
    [.drawId, .submit 1 notes none false, .nextPending, .returnPending 1, .nextPending,
      .markAssigned 1 "md-ingest-worker", .drawId, .submit 2 notes none false,
      .requeueWorker "md-ingest-worker" [1]]
    (fun history _ => decide (Respects FindsRoom history)) (by decide)
  have long := congrArg List.length labels
  rw [List.length_map] at long
  exact ⟨history, final, run, long, (withinBound_iff 2 0 none run).mpr (of_decide_eq_true passed)⟩

/-- The router holds the first job when the second is submitted, and gives it
back because no worker takes it. -/
theorem returned_job_overfills :
    ¬ ∀ (maxPending previous : Nat) (durable : Option DurableJobQueue)
      (history : List (QueueCalls × QueueCall)) (final : QueueCalls),
        Run next (start maxPending previous durable) history final →
          Throughout WithinBound history final := by
  intro always
  obtain ⟨history, final, run, _, passed⟩ := Run.of_trace next (start 1 0 none)
    [.drawId, .submit 1 notes none false, .nextPending, .drawId, .submit 2 notes none false,
      .returnPending 1]
    (fun _ state => decide (state.queue.load = 2 ∧ state.queue.maxPending = 1)) (by decide)
  obtain ⟨load, bound⟩ := of_decide_eq_true passed
  have within : final.queue.load ≤ final.queue.maxPending := (always 1 0 none history final run).2
  omega

end QueueCalls

end Mneme.Supervisor
