/-
The job queue with its durable companion.

An operation changes memory under the lock and writes its row after the lock
is released, so the two halves of different operations interleave: the first
half is a step of the queue's system, which leaves its disk writes
outstanding, and each write is a step of its own.  Only `submit` writes while
it holds the lock.
-/

import Mneme.Supervisor.Router
import Mneme.Supervisor.JobQueueDb

namespace Mneme.Supervisor

open Common Transition

inductive Write where
  | push (id : JobId) (job : Job)
  | markInFlight (id : JobId) (worker : String)
  | requeue (id : JobId)
  | markDone (id : JobId) (outcome : JobOutcome)

namespace Write

def key : Write → JobId
  | .push id _ => id
  | .markInFlight id _ => id
  | .requeue id => id
  | .markDone id _ => id

def isPush : Write → Bool
  | .push _ _ => true
  | _ => false

def run (disk : DurableJobQueue) : Write → DurableJobQueue
  | .push id job => disk.push id job
  | .markInFlight id worker => disk.markInFlight id worker
  | .requeue id => disk.requeue id
  | .markDone id outcome => disk.markDone id outcome

end Write

namespace JobQueue

/-- `with_durable`: an empty queue, and the id counter moved past the table. -/
def withDurable (maxPending counter : Nat) (disk : DurableJobQueue) : JobQueue × Nat :=
  (.new maxPending,
    if disk.maxId > 0 then JobId.seedTo counter (disk.maxId + 1) else counter)

def recoverOne (queue : JobQueue) (recovered : RecoveredJob) : JobQueue :=
  { queue with
    pending := queue.pending ++ [recovered.id]
    tracked := queue.tracked.insert recovered.id
      { job := recovered.job, assignedTo := none, waker := none } }

def recoverFromDisk (queue : JobQueue) (disk : DurableJobQueue) : JobQueue × DurableJobQueue :=
  (disk.requeueAllInFlight.recoverQueued.foldl recoverOne queue, disk.requeueAllInFlight)

end JobQueue

namespace System

/-- What an operation writes before it releases the lock. -/
def lockedWrites (state : System) : Event → List Write
  | .submit job waker =>
      match state.queue.submit state.counter job waker with
      | .error _ => []
      | .ok _ => [.push state.counter job]
  | _ => []

/-- `complete` returns early for an unknown job. -/
def completeWrites (state : System) (id : JobId) (outcome : JobOutcome) : List Write :=
  match (state.queue.complete id outcome).1 with
  | none => []
  | some _ => [.markDone id outcome]

/-- What an operation writes after it released the lock. -/
def laterWrites (state : System) : Event → List Write
  | .encodeFailed error =>
      match state.router with
      | .holding id _ => state.completeWrites id (encodeError error)
      | _ => []
  | .markAssigned =>
      match state.router with
      | .dispatched id worker => [.markInFlight id worker]
      | _ => []
  | .returnPending =>
      match state.router with
      | .holding id _ => [.requeue id]
      | _ => []
  | .workerComplete id outcome => state.completeWrites id outcome
  | .requeueWorker _ ids => ids.map .requeue
  | _ => []

end System

/-- `boot`, `issued` and `executed` are history: the table as the session found
it after its recovery, the writes in the order the operations took the lock,
and the writes in the order they reached the table. -/
structure DurableSystem where
  system : System
  disk : DurableJobQueue
  /-- For each operation, the writes it has still to make. -/
  outstanding : List (List Write)
  boot : DurableJobQueue
  issued : List Write
  executed : List Write

inductive DurableEvent where
  | memory (event : Event)
  | disk (operation : Nat)

/-- A table each of whose payloads decodes, as every payload that `push`
writes does. -/
structure JobsTable where
  disk : DurableJobQueue
  decodable : ∀ id row, disk.rows.lookup id = some row → ∃ job, Job.ofJson row.payload = some job

def JobsTable.empty : JobsTable :=
  { disk := .empty
    decodable := by
      intro id row found
      cases found }

namespace DurableSystem

/-- The boot path of the supervisor, over the table a previous session left. -/
def start (maxPending : Nat) (disk : DurableJobQueue) : DurableSystem :=
  let opened := JobQueue.withDurable maxPending 1 disk
  let recovered := opened.1.recoverFromDisk disk
  { system :=
      { queue := recovered.1
        counter := opened.2
        router := .idle
        accepted := recovered.2.recoverQueued.map (fun row => (row.id, row.job))
        completed := ∅ }
    disk := recovered.2
    outstanding := []
    boot := recovered.2
    issued := []
    executed := [] }

/-- The state after the first half of an operation. -/
def afterMemory (state : DurableSystem) (event : Event) (system : System) : DurableSystem :=
  { state with
    system := system
    disk := (state.system.lockedWrites event).foldl Write.run state.disk
    outstanding := state.outstanding ++ [state.system.laterWrites event]
    issued := state.issued ++ (state.system.lockedWrites event ++ state.system.laterWrites event)
    executed := state.executed ++ state.system.lockedWrites event }

/-- The state after one write of the operation at this position. -/
def afterWrite (state : DurableSystem) (operation : Nat) (write : Write)
    (rest : List Write) : DurableSystem :=
  { state with
    disk := write.run state.disk
    outstanding := state.outstanding.set operation rest
    executed := state.executed ++ [write] }

def next (state : DurableSystem) : DurableEvent → Option DurableSystem
  | .memory event => (state.system.next event).map (state.afterMemory event)
  | .disk operation =>
      match state.outstanding[operation]? with
      | some (write :: rest) => some (state.afterWrite operation write rest)
      | _ => none

/-- All started operations have finished their disk steps. -/
def Quiescent (state : DurableSystem) : Prop :=
  state.outstanding.flatten = []

/-- The inversion of `next`. -/
inductive Taken (state : DurableSystem) : DurableEvent → DurableSystem → Prop
  | memory (event : Event) (system : System) (step : state.system.next event = some system) :
      Taken state (.memory event) (state.afterMemory event system)
  | disk (operation : Nat) (write : Write) (rest : List Write)
      (found : state.outstanding[operation]? = some (write :: rest)) :
      Taken state (.disk operation) (state.afterWrite operation write rest)

theorem taken_of_next {state after : DurableSystem} {event : DurableEvent}
    (step : state.next event = some after) : Taken state event after := by
  cases event with
  | memory event =>
      obtain ⟨system, moved, same⟩ := Option.map_eq_some_iff.mp step
      subst same
      exact .memory event system moved
  | disk operation =>
      simp only [next] at step
      split at step
      · rename_i write rest found
        cases step
        exact .disk operation write rest found
      · cases step

variable {outstanding : List (List Write)} {rest : List Write} {operation : Nat} {write : Write}

/-- Taking one write out of the outstanding ones. -/
theorem flatten_perm_of_found (found : outstanding[operation]? = some (write :: rest)) :
    outstanding.flatten.Perm (write :: (outstanding.set operation rest).flatten) := by
  induction outstanding generalizing operation with
  | nil => cases found
  | cons head tail ih =>
      cases operation with
      | zero =>
          simp only [List.getElem?_cons_zero, Option.some.injEq] at found
          rw [found]
          exact List.Perm.refl _
      | succ operation =>
          rw [List.getElem?_cons_succ] at found
          rw [List.set_cons_succ, List.flatten_cons, List.flatten_cons]
          exact ((ih found).append_left head).trans List.perm_middle

theorem mem_flatten_of_found (found : outstanding[operation]? = some (write :: rest)) :
    write ∈ outstanding.flatten :=
  (flatten_perm_of_found found).mem_iff.mpr List.mem_cons_self

theorem mem_of_mem_set {write other : Write}
    (found : outstanding[operation]? = some (write :: rest))
    (member : other ∈ (outstanding.set operation rest).flatten) : other ∈ outstanding.flatten :=
  (flatten_perm_of_found found).mem_iff.mpr (List.mem_cons_of_mem _ member)

theorem mem_afterMemory_outstanding (state : DurableSystem) (event : Event) (system : System)
    (write : Write) :
    write ∈ (state.afterMemory event system).outstanding.flatten ↔
      write ∈ state.outstanding.flatten ∨ write ∈ state.system.laterWrites event := by
  unfold afterMemory
  simp only [List.flatten_append, List.flatten_cons, List.flatten_nil, List.append_nil,
    List.mem_append]

/-- What an outstanding write comes from: the inversion of `laterWrites`. -/
inductive Left (state : System) : Event → Write → Prop
  | failed (error : String) (id : JobId) (job : Job) (router : state.router = .holding id job)
      (tracked : id ∈ state.queue.tracked) :
      Left state (.encodeFailed error) (.markDone id (System.encodeError error))
  | marked (id : JobId) (worker : String) (router : state.router = .dispatched id worker) :
      Left state .markAssigned (.markInFlight id worker)
  | returned (id : JobId) (job : Job) (router : state.router = .holding id job) :
      Left state .returnPending (.requeue id)
  | completed (id : JobId) (outcome : JobOutcome) (tracked : id ∈ state.queue.tracked) :
      Left state (.workerComplete id outcome) (.markDone id outcome)
  | requeued (worker : String) (ids : List JobId) (id : JobId) (walked : id ∈ ids) :
      Left state (.requeueWorker worker ids) (.requeue id)

theorem completeWrites_eq (state : System) (id : JobId) (outcome : JobOutcome) :
    state.completeWrites id outcome =
      if id ∈ state.queue.tracked then [.markDone id outcome] else [] := by
  unfold System.completeWrites
  rw [JobQueue.complete_entry]
  cases found : state.queue.tracked.lookup id with
  | none => rw [if_neg (Finmap.lookup_eq_none.mp found)]
  | some entry => rw [if_pos (Finmap.mem_of_lookup_eq_some found)]

theorem left_of_mem {state : System} {event : Event}
    (member : write ∈ state.laterWrites event) : Left state event write := by
  have completes : ∀ {id outcome}, write ∈ state.completeWrites id outcome →
      write = .markDone id outcome ∧ id ∈ state.queue.tracked := by
    intro id outcome present
    rw [completeWrites_eq] at present
    by_cases tracked : id ∈ state.queue.tracked
    · rw [if_pos tracked, List.mem_singleton] at present
      exact ⟨present, tracked⟩
    · rw [if_neg tracked] at present
      cases present
  cases event with
  | submit job waker => cases member
  | nextPending => cases member
  | dispatchOk worker => cases member
  | encodeFailed error =>
      unfold System.laterWrites at member
      cases router : state.router with
      | holding id job =>
          rw [router] at member
          obtain ⟨same, tracked⟩ := completes member
          rw [same]
          exact .failed error id job router tracked
      | idle =>
          rw [router] at member
          cases member
      | dispatched id worker =>
          rw [router] at member
          cases member
  | markAssigned =>
      unfold System.laterWrites at member
      cases router : state.router with
      | dispatched id worker =>
          rw [router] at member
          rw [List.mem_singleton.mp member]
          exact .marked id worker router
      | idle =>
          rw [router] at member
          cases member
      | holding id job =>
          rw [router] at member
          cases member
  | returnPending =>
      unfold System.laterWrites at member
      cases router : state.router with
      | holding id job =>
          rw [router] at member
          rw [List.mem_singleton.mp member]
          exact .returned id job router
      | idle =>
          rw [router] at member
          cases member
      | dispatched id worker =>
          rw [router] at member
          cases member
  | workerComplete id outcome =>
      obtain ⟨same, tracked⟩ := completes member
      rw [same]
      exact .completed id outcome tracked
  | requeueWorker worker ids =>
      obtain ⟨id, walked, same⟩ := List.mem_map.mp member
      rw [← same]
      exact .requeued worker ids id walked

/-- A submission writes its row under the lock exactly when it is accepted. -/
theorem submit_writes (state : System) (job : Job) (waker : Option Waker) :
    (state.submit job waker = { state with counter := state.counter + 1 } ∧
      state.lockedWrites (.submit job waker) = []) ∨
    (state.submit job waker =
        { state with
          queue := { state.queue with
            pending := state.queue.pending ++ [state.counter]
            tracked := state.queue.tracked.insert state.counter
              { job := job, assignedTo := none, waker := waker } }
          counter := state.counter + 1
          accepted := state.accepted ++ [(state.counter, job)] } ∧
      state.lockedWrites (.submit job waker) = [.push state.counter job]) := by
  unfold System.submit JobId.next System.lockedWrites
  cases result : state.queue.submit state.counter job waker with
  | error message =>
      left
      simp only [result, and_self]
  | ok queue =>
      right
      obtain ⟨_, same⟩ := (JobQueue.submit_ok_iff _ _ _ _ _).mp result
      simp only [result, same, and_self]

/-- What an operation writes under the lock, and whom it starts to track. -/
theorem locked_cases {state after : System} {event : Event} (step : state.next event = some after) :
    (state.lockedWrites event = [] ∧ after.accepted = state.accepted ∧
      ∀ id, id ∈ after.queue.tracked → id ∈ state.queue.tracked) ∨
    (∃ job, state.lockedWrites event = [.push state.counter job] ∧
      after.accepted = state.accepted ++ [(state.counter, job)] ∧
      after.counter = state.counter + 1 ∧ state.counter ∈ after.queue.tracked ∧
      ∀ id, id ∈ after.queue.tracked → id = state.counter ∨ id ∈ state.queue.tracked) := by
  have completing : ∀ done outcome id, id ∈ (state.complete done outcome).queue.tracked →
      id ∈ state.queue.tracked := by
    intro done outcome id member
    rw [System.complete_queue, JobQueue.complete_tracked] at member
    exact (Finmap.mem_erase.mp member).2
  cases System.taken_of_next step with
  | submit job waker =>
      rcases submit_writes state job waker with ⟨refused, silent⟩ | ⟨queued, pushed⟩
      · left
        rw [refused]
        exact ⟨silent, rfl, fun id member => member⟩
      · right
        rw [queued]
        exact ⟨job, pushed, rfl, rfl, Finmap.mem_insert.mpr (Or.inl rfl),
          fun id member => Finmap.mem_insert.mp member⟩
  | nextPending idle =>
      left
      refine ⟨rfl, rfl, ?_⟩
      intro id member
      rw [System.nextPending_queue, JobQueue.nextPending_tracked] at member
      exact member
  | encodeFailed error held job router => exact Or.inl ⟨rfl, rfl, completing held _⟩
  | dispatchOk worker held job router => exact Or.inl ⟨rfl, rfl, fun id member => member⟩
  | markAssigned held worker router =>
      exact Or.inl ⟨rfl, rfl, fun id member => (JobQueue.mem_markAssigned_tracked _ _ _ _).mp member⟩
  | returnPending held job router => exact Or.inl ⟨rfl, rfl, fun id member => member⟩
  | workerComplete done outcome => exact Or.inl ⟨rfl, rfl, completing done outcome⟩
  | requeueWorker worker ids order =>
      exact Or.inl ⟨rfl, rfl, fun id member => (JobQueue.mem_requeueWorker_tracked _ _ _).mp member⟩

end DurableSystem

/-! ### The boot state -/

namespace JobQueue

variable (queue : JobQueue)

variable (recovered : List RecoveredJob)

theorem recover_pending :
    (recovered.foldl recoverOne queue).pending =
      queue.pending ++ recovered.map RecoveredJob.id := by
  induction recovered generalizing queue with
  | nil => simp
  | cons head tail ih =>
      rw [List.foldl_cons, ih, List.map_cons]
      simp [recoverOne]

theorem recover_inFlight :
    (recovered.foldl recoverOne queue).inFlight = queue.inFlight := by
  induction recovered generalizing queue with
  | nil => rfl
  | cons head tail ih => exact ih (queue.recoverOne head)

theorem recover_lookup_of_notMem (id : JobId) (absent : id ∉ recovered.map RecoveredJob.id) :
    (recovered.foldl recoverOne queue).tracked.lookup id = queue.tracked.lookup id := by
  induction recovered generalizing queue with
  | nil => rfl
  | cons head tail ih =>
      rw [List.map_cons, List.mem_cons, not_or] at absent
      rw [List.foldl_cons, ih _ absent.2]
      exact Finmap.lookup_insert_of_ne _ absent.1

theorem recover_lookup_of_mem
    (distinct : (recovered.map RecoveredJob.id).Nodup) {row : RecoveredJob}
    (member : row ∈ recovered) :
    (recovered.foldl recoverOne queue).tracked.lookup row.id =
      some { job := row.job, assignedTo := none, waker := none } := by
  induction recovered generalizing queue with
  | nil => cases member
  | cons head tail ih =>
      rw [List.map_cons, List.nodup_cons] at distinct
      rw [List.foldl_cons]
      rcases List.mem_cons.mp member with same | later
      · subst same
        rw [recover_lookup_of_notMem _ _ _ distinct.1]
        exact Finmap.lookup_insert _
      · exact ih (queue.recoverOne head) distinct.2 later

end JobQueue

namespace DurableSystem

section Start

variable (maxPending : Nat) (disk : DurableJobQueue)

theorem start_queue :
    (start maxPending disk).system.queue =
      disk.requeueAllInFlight.recoverQueued.foldl JobQueue.recoverOne (.new maxPending) := rfl

theorem start_completed : (start maxPending disk).system.completed = ∅ := rfl

theorem start_accepted : (start maxPending disk).system.accepted =
    disk.requeueAllInFlight.recoverQueued.map (fun row => (row.id, row.job)) := rfl

theorem start_pending :
    (start maxPending disk).system.queue.pending =
      disk.requeueAllInFlight.recoverQueued.map RecoveredJob.id := by
  rw [start_queue, JobQueue.recover_pending]
  rfl

theorem start_inFlight : (start maxPending disk).system.queue.inFlight = ∅ := by
  rw [start_queue, JobQueue.recover_inFlight]
  rfl

theorem start_tracked {row : RecoveredJob} (member : row ∈ disk.requeueAllInFlight.recoverQueued) :
    (start maxPending disk).system.queue.tracked.lookup row.id =
      some { job := row.job, assignedTo := none, waker := none } := by
  rw [start_queue]
  exact JobQueue.recover_lookup_of_mem (.new maxPending) _
    (DurableJobQueue.recoverQueued_ids_nodup _) member

theorem mem_start_tracked (id : JobId) :
    id ∈ (start maxPending disk).system.queue.tracked ↔
      id ∈ disk.requeueAllInFlight.recoverQueued.map RecoveredJob.id := by
  constructor
  · intro tracked
    by_contra absent
    have untracked := JobQueue.recover_lookup_of_notMem (.new maxPending)
      disk.requeueAllInFlight.recoverQueued id absent
    rw [start_queue] at tracked
    exact Finmap.lookup_eq_none.mp untracked tracked
  · intro member
    obtain ⟨row, present, same⟩ := List.mem_map.mp member
    rw [← same]
    exact Finmap.mem_of_lookup_eq_some (start_tracked maxPending disk present)

theorem start_recovers {id : JobId} {row : Row} {job : Job}
    (found : disk.requeueAllInFlight.rows.lookup id = some row) (queued : row.state = .queued)
    (payload : Job.ofJson row.payload = some job) :
    (start maxPending disk).system.queue.tracked.lookup id =
        some { job := job, assignedTo := none, waker := none } ∧
      (start maxPending disk).system.queue.pending.count id = 1 := by
  have read := DurableJobQueue.recoverRow_eq_some found queued payload
  have recovered : RecoveredJob.mk id job row.assignedTo ∈
      disk.requeueAllInFlight.recoverQueued := DurableJobQueue.mem_recoverQueued.mpr read
  have tracked := start_tracked maxPending disk recovered
  constructor
  · exact tracked
  · rw [start_pending]
    exact List.count_eq_one_of_mem (DurableJobQueue.recoverQueued_ids_nodup _)
      (List.mem_map_of_mem recovered)

theorem lt_start_counter {id : JobId} (member : id ∈ disk.rows) :
    id < (start maxPending disk).system.counter := by
  have below := disk.le_maxId member
  change id < if disk.maxId > 0 then JobId.seedTo 1 (disk.maxId + 1) else 1
  unfold JobId.seedTo
  split
  · split
    · omega
    · exact Nat.lt_succ_of_le below
  · exact Nat.lt_succ_of_le (Nat.le_trans below (by omega))

theorem recovered_old {row : RecoveredJob}
    (member : row ∈ disk.requeueAllInFlight.recoverQueued) : row.id ∈ disk.rows := by
  rw [DurableJobQueue.mem_recoverQueued] at member
  obtain ⟨held, found, _⟩ := Option.bind_eq_some_iff.mp member
  rw [← DurableJobQueue.mem_requeueAllInFlight]
  exact Finmap.mem_of_lookup_eq_some found

theorem start_accounting : System.Accounting (start maxPending disk).system := by
  have known : ∀ id, id ∈ disk.requeueAllInFlight.recoverQueued.map RecoveredJob.id →
      id < (start maxPending disk).system.counter := by
    intro id member
    obtain ⟨row, present, same⟩ := List.mem_map.mp member
    rw [← same]
    exact lt_start_counter maxPending disk (recovered_old disk present)
  constructor
  · intro id member
    rw [start_pending] at member
    exact known id member
  · intro id member
    rw [start_inFlight] at member
    exact absurd member Finmap.notMem_empty
  · intro id member
    exact known id ((mem_start_tracked maxPending disk id).mp member)
  · intro id held
    cases held
  · intro id member
    rw [start_completed] at member
    exact absurd member Finmap.notMem_empty
  · intro id member
    unfold System.places
    rw [start_pending, start_inFlight, List.count_eq_one_of_mem
      (DurableJobQueue.recoverQueued_ids_nodup _) ((mem_start_tracked maxPending disk id).mp member),
      if_neg Finmap.notMem_empty, if_neg (by simp [start, RouterState.job?])]
  · intro id
    rw [mem_start_tracked, start_accepted, start_completed, List.map_map]
    constructor
    · exact fun member => Or.inl member
    · intro either
      rcases either with member | impossible
      · exact member
      · exact absurd impossible Finmap.notMem_empty
  · intro id _ impossible
    rw [start_completed] at impossible
    exact absurd impossible Finmap.notMem_empty

end Start

end DurableSystem

end Mneme.Supervisor
