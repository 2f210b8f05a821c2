/-
The supervisor's in-memory job queue.

Each operation is the critical section the source runs under one lock.  Hash
maps are finite maps, so nothing can depend on their iteration order; the one
operation that walks a map takes the order of the walk as an argument.
-/

import Mathlib.Data.Finmap
import Mneme.Common.Jobs

namespace Mneme.Supervisor

open Common

/-- The sending half of the one-shot channel a caller may wait on. -/
abbrev Waker := Nat

/-- A job that was accepted and has not been reported complete. -/
structure Tracked where
  job : Job
  assignedTo : Option String
  waker : Option Waker
deriving DecidableEq

structure JobQueue where
  pending : List JobId
  tracked : Finmap (fun _ : JobId => Tracked)
  inFlight : Finmap (fun _ : JobId => String)
  completedCount : Nat
  failedCount : Nat
  requeuedCount : Nat
  /-- Bound on the pending jobs and the jobs in flight together. -/
  maxPending : Nat

structure JobQueueSnapshot where
  pending : Nat
  inFlight : Nat
  completed : Nat
  failed : Nat
  requeued : Nat
deriving DecidableEq, Repr

namespace JobQueue

def new (maxPending : Nat) : JobQueue :=
  { pending := []
    tracked := ∅
    inFlight := ∅
    completedCount := 0
    failedCount := 0
    requeuedCount := 0
    maxPending := maxPending }

def submit (queue : JobQueue) (id : JobId) (job : Job) (waker : Option Waker) :
    Except String JobQueue :=
  if queue.pending.length + queue.inFlight.keys.card ≥ queue.maxPending then
    .error s!"job queue full ({queue.maxPending}); refusing submit"
  else
    .ok { queue with
      pending := queue.pending ++ [id]
      tracked := queue.tracked.insert id { job := job, assignedTo := none, waker := waker } }

/-- An id that is no longer tracked is popped and dropped, and the caller sees
an empty queue. -/
def nextPending (queue : JobQueue) : Option (JobId × Job) × JobQueue :=
  match queue.pending with
  | [] => (none, queue)
  | id :: rest =>
      match queue.tracked.lookup id with
      | none => (none, { queue with pending := rest })
      | some entry => (some (id, entry.job), { queue with pending := rest })

def markAssigned (queue : JobQueue) (id : JobId) (worker : String) : JobQueue :=
  { queue with
    tracked :=
      match queue.tracked.lookup id with
      | none => queue.tracked
      | some entry => queue.tracked.insert id { entry with assignedTo := some worker }
    -- The source inserts here whether or not the job is still tracked.
    inFlight := queue.inFlight.insert id worker }

def returnPending (queue : JobQueue) (id : JobId) : JobQueue :=
  { queue with
    inFlight := queue.inFlight.erase id
    pending := if id ∈ queue.tracked then id :: queue.pending else queue.pending }

/-- The entry removed by a completion, `none` for an unknown job.  Its
`assignedTo` is what the caller is handed back and its `waker` is what fires. -/
def complete (queue : JobQueue) (id : JobId) (outcome : JobOutcome) : Option Tracked × JobQueue :=
  match queue.tracked.lookup id with
  | none => (none, { queue with inFlight := queue.inFlight.erase id })
  | some entry =>
      (some entry,
        { queue with
          inFlight := queue.inFlight.erase id
          tracked := queue.tracked.erase id
          completedCount := if outcome.isOk then queue.completedCount + 1 else queue.completedCount
          failedCount := if outcome.isOk then queue.failedCount else queue.failedCount + 1 })

/-- The jobs a worker has in flight. -/
def inFlightOf (queue : JobQueue) (worker : String) : Finset JobId :=
  queue.inFlight.keys.filter (fun id => queue.inFlight.lookup id = some worker)

def requeueOne (queue : JobQueue) (id : JobId) : JobQueue :=
  { queue with
    inFlight := queue.inFlight.erase id
    tracked :=
      match queue.tracked.lookup id with
      | none => queue.tracked
      | some entry => queue.tracked.insert id { entry with assignedTo := none }
    pending := id :: queue.pending
    requeuedCount := queue.requeuedCount + 1 }

/-- The walk of `requeue_worker` over the ids it collected. -/
def requeueWorker (queue : JobQueue) (ids : List JobId) : JobQueue :=
  ids.foldl requeueOne queue

/-- The orders in which the collected ids of a worker may come. -/
def RequeueOrder (queue : JobQueue) (worker : String) (ids : List JobId) : Prop :=
  ids.Nodup ∧ ids.toFinset = queue.inFlightOf worker

instance (queue : JobQueue) (worker : String) (ids : List JobId) :
    Decidable (queue.RequeueOrder worker ids) :=
  inferInstanceAs (Decidable (_ ∧ _))

def snapshot (queue : JobQueue) : JobQueueSnapshot :=
  { pending := queue.pending.length
    inFlight := queue.inFlight.keys.card
    completed := queue.completedCount
    failed := queue.failedCount
    requeued := queue.requeuedCount }

/-! ### What each operation changes -/

variable (queue : JobQueue)

theorem mem_inFlightOf (worker : String) (id : JobId) :
    id ∈ queue.inFlightOf worker ↔ queue.inFlight.lookup id = some worker := by
  unfold inFlightOf
  rw [Finset.mem_filter, Finmap.mem_keys]
  constructor
  · exact fun both => both.2
  · exact fun found => ⟨Finmap.mem_of_lookup_eq_some found, found⟩

theorem RequeueOrder.mem_iff {queue : JobQueue} {worker : String} {ids : List JobId}
    (order : queue.RequeueOrder worker ids) (id : JobId) :
    id ∈ ids ↔ queue.inFlight.lookup id = some worker := by
  rw [← mem_inFlightOf, ← order.2, List.mem_toFinset]

@[simp] theorem markAssigned_pending (queue : JobQueue) (id : JobId) (worker : String) :
    (queue.markAssigned id worker).pending = queue.pending := rfl

@[simp] theorem markAssigned_inFlight (queue : JobQueue) (id : JobId) (worker : String) :
    (queue.markAssigned id worker).inFlight = queue.inFlight.insert id worker := rfl

theorem mem_markAssigned_tracked (id other : JobId) (worker : String) :
    other ∈ (queue.markAssigned id worker).tracked ↔ other ∈ queue.tracked := by
  unfold markAssigned
  cases found : queue.tracked.lookup id with
  | none => exact Iff.rfl
  | some entry =>
      simp only [Finmap.mem_insert]
      constructor
      · rintro (same | present)
        · subst same
          exact Finmap.mem_of_lookup_eq_some found
        · exact present
      · exact Or.inr

theorem mem_returnPending_pending (id other : JobId) :
    other ∈ (queue.returnPending id).pending ↔
      (other = id ∧ id ∈ queue.tracked) ∨ other ∈ queue.pending := by
  change other ∈ (if id ∈ queue.tracked then id :: queue.pending else queue.pending) ↔ _
  by_cases tracked : id ∈ queue.tracked
  · rw [if_pos tracked, List.mem_cons]
    simp only [tracked, and_true]
  · rw [if_neg tracked]
    simp only [tracked, and_false, false_or]

@[simp] theorem complete_pending (queue : JobQueue) (id : JobId) (outcome : JobOutcome) :
    (queue.complete id outcome).2.pending = queue.pending := by
  unfold complete
  cases queue.tracked.lookup id <;> rfl

@[simp] theorem complete_inFlight (queue : JobQueue) (id : JobId) (outcome : JobOutcome) :
    (queue.complete id outcome).2.inFlight = queue.inFlight.erase id := by
  unfold complete
  cases queue.tracked.lookup id <;> rfl

@[simp] theorem complete_tracked (queue : JobQueue) (id : JobId) (outcome : JobOutcome) :
    (queue.complete id outcome).2.tracked = queue.tracked.erase id := by
  unfold complete
  cases found : queue.tracked.lookup id with
  | some entry => rfl
  | none =>
      apply Finmap.ext_lookup
      intro other
      by_cases same : other = id
      · subst same
        rw [Finmap.lookup_erase, found]
      · rw [Finmap.lookup_erase_ne same]

@[simp] theorem complete_entry (queue : JobQueue) (id : JobId) (outcome : JobOutcome) :
    (queue.complete id outcome).1 = queue.tracked.lookup id := by
  unfold complete
  cases queue.tracked.lookup id <;> rfl

theorem mem_requeueOne_tracked (id other : JobId) :
    other ∈ (queue.requeueOne id).tracked ↔ other ∈ queue.tracked := by
  unfold requeueOne
  cases found : queue.tracked.lookup id with
  | none => exact Iff.rfl
  | some entry =>
      simp only [Finmap.mem_insert]
      constructor
      · rintro (same | present)
        · subst same
          exact Finmap.mem_of_lookup_eq_some found
        · exact present
      · exact Or.inr

@[simp] theorem mem_requeueWorker_tracked (queue : JobQueue) (ids : List JobId) (other : JobId) :
    other ∈ (queue.requeueWorker ids).tracked ↔ other ∈ queue.tracked := by
  induction ids generalizing queue with
  | nil => exact Iff.rfl
  | cons head tail ih =>
      exact (ih (queue.requeueOne head)).trans (mem_requeueOne_tracked queue head other)

@[simp] theorem requeueWorker_pending (queue : JobQueue) (ids : List JobId) :
    (queue.requeueWorker ids).pending = ids.reverse ++ queue.pending := by
  induction ids generalizing queue with
  | nil => rfl
  | cons head tail ih =>
      have rest := ih (queue.requeueOne head)
      simpa [requeueWorker, requeueOne] using rest

/-- A requeue takes exactly the walked ids out of flight. -/
theorem requeueWorker_inFlight (ids : List JobId) (other : JobId) :
    (queue.requeueWorker ids).inFlight.lookup other =
      if other ∈ ids then none else queue.inFlight.lookup other := by
  induction ids generalizing queue with
  | nil => simp [requeueWorker]
  | cons head tail ih =>
      have rest := ih (queue.requeueOne head)
      have folded : (queue.requeueWorker (head :: tail)).inFlight.lookup other =
          ((queue.requeueOne head).requeueWorker tail).inFlight.lookup other := rfl
      rw [folded, rest]
      by_cases later : other ∈ tail
      · simp [later]
      · by_cases same : other = head
        · subst same
          simp [requeueOne]
        · simp [requeueOne, later, same, Finmap.lookup_erase_ne same]

theorem mem_requeueWorker_inFlight (ids : List JobId) (other : JobId) :
    other ∈ (queue.requeueWorker ids).inFlight ↔ other ∉ ids ∧ other ∈ queue.inFlight := by
  rw [← Finmap.lookup_isSome, requeueWorker_inFlight, ← Finmap.lookup_isSome]
  by_cases walked : other ∈ ids
  · simp [walked]
  · simp [walked]

theorem nextPending_cons (id : JobId) (rest : List JobId) (front : queue.pending = id :: rest) :
    queue.nextPending =
      ((queue.tracked.lookup id).map (fun entry => (id, entry.job)),
        { queue with pending := rest }) := by
  unfold nextPending
  cases found : queue.tracked.lookup id with
  | none => simp only [front, found, Option.map_none]
  | some entry => simp only [front, found, Option.map_some]

theorem nextPending_nil (empty : queue.pending = []) : queue.nextPending = (none, queue) := by
  unfold nextPending
  rw [empty]

/-- Popping takes the front id off the pending jobs and changes nothing else. -/
theorem nextPending_queue : queue.nextPending.2 = { queue with pending := queue.pending.tail } := by
  cases front : queue.pending with
  | nil =>
      rw [nextPending_nil _ front, List.tail_nil, ← front]
  | cons id rest =>
      rw [nextPending_cons _ _ _ front, List.tail_cons]

@[simp] theorem nextPending_pending (queue : JobQueue) :
    queue.nextPending.2.pending = queue.pending.tail := by
  rw [nextPending_queue]

@[simp] theorem nextPending_tracked (queue : JobQueue) :
    queue.nextPending.2.tracked = queue.tracked := by
  rw [nextPending_queue]

@[simp] theorem nextPending_inFlight (queue : JobQueue) :
    queue.nextPending.2.inFlight = queue.inFlight := by
  rw [nextPending_queue]

theorem submit_ok_iff (id : JobId) (job : Job) (waker : Option Waker) (after : JobQueue) :
    queue.submit id job waker = .ok after ↔
      queue.pending.length + queue.inFlight.keys.card < queue.maxPending ∧
        after = { queue with
          pending := queue.pending ++ [id]
          tracked := queue.tracked.insert id
            { job := job, assignedTo := none, waker := waker } } := by
  unfold submit
  by_cases full : queue.pending.length + queue.inFlight.keys.card ≥ queue.maxPending
  · rw [if_pos full]
    constructor
    · intro impossible
      cases impossible
    · rintro ⟨room, _⟩
      omega
  · rw [if_neg full]
    constructor
    · intro accepted
      exact ⟨by omega, (Except.ok.inj accepted).symm⟩
    · rintro ⟨_, same⟩
      rw [same]

end JobQueue

end Mneme.Supervisor
