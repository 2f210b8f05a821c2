/-
The order in which the queue gives out its jobs.

The router takes what stands at the front.  Submissions go to the back in the order in which
they take the lock, which is not the order in which their ids were drawn; jobs that are
given back or requeued go to the front, those of a dead worker in the order of a hash map;
and a job that was completed while it waited leaves its id behind.
-/

import Mneme.Library.Turns
import Mneme.Supervisor.QueueLedger

namespace Mneme.Supervisor

open Common Library Transition

namespace JobQueue

/-- The queue after the router has popped some more jobs. -/
def popped (queue : JobQueue) : Nat → JobQueue
  | 0 => queue
  | pops + 1 => queue.nextPending.2.popped pops

/-- The queued rows of the table are the pending jobs: no write is outstanding, and no job
is on its way to a worker. -/
structure Settled (queue : JobQueue) (disk : DurableJobQueue) : Prop where
  written : ∀ id entry, id ∈ queue.pending → queue.tracked.lookup id = some entry →
    ∃ row, disk.rows.lookup id = some row ∧ row.state = .queued ∧
      Job.ofJson row.payload = some entry.job
  waiting : ∀ id row, disk.rows.lookup id = some row → row.state = .queued →
    id ∈ queue.pending ∧ id ∈ queue.tracked

/-- The next job is the oldest of the tracked jobs that are pending. -/
structure OldestNext (queue : JobQueue) (durable : Option DurableJobQueue) : Prop where
  oldest : ∀ id, id ∈ queue.pending → id ∈ queue.tracked →
    ∃ first entry, queue.nextPending.1 = some (first, entry.job) ∧ first ∈ queue.pending ∧
      queue.tracked.lookup first = some entry ∧ first ≤ id
  chosen : ∀ disk, durable = some disk → queue.Settled disk →
    disk.nextQueued = .ok queue.nextPending.1

def Serving (queue : JobQueue) : Prop :=
  queue.pending.Pairwise (InTurn (fun id => id ∈ queue.tracked))

theorem popped_tracked (queue : JobQueue) (pops : Nat) :
    (queue.popped pops).tracked = queue.tracked := by
  induction pops generalizing queue with
  | zero => rfl
  | succ pops ih => exact (ih queue.nextPending.2).trans (nextPending_tracked queue)

theorem popped_pending (queue : JobQueue) (pops : Nat) :
    (queue.popped pops).pending = queue.pending.drop pops := by
  induction pops generalizing queue with
  | zero => rfl
  | succ pops ih =>
      rw [popped, ih, nextPending_pending, List.drop_tail]

variable {queue : JobQueue}

/-- What `next_pending` gives out when the front of the queue is the least tracked id. -/
theorem nextPending_least
    (least : LeastFirst (fun id => id ∈ queue.tracked) queue.pending) {id : JobId}
    (member : id ∈ queue.pending) (tracked : id ∈ queue.tracked) :
    ∃ first entry, queue.nextPending.1 = some (first, entry.job) ∧ first ∈ queue.pending ∧
      queue.tracked.lookup first = some entry ∧ first ≤ id := by
  obtain ⟨first, front, held, below⟩ := least id member tracked
  obtain ⟨rest, split⟩ := List.head?_eq_some_iff.mp front
  obtain ⟨entry, found⟩ := Option.isSome_iff_exists.mp (Finmap.lookup_isSome.mpr held)
  refine ⟨first, entry, ?_, ?_, found, below⟩
  · rw [nextPending_cons queue first rest split, found]
    rfl
  · rw [split]
    exact .head _

theorem leastFirst_of_oldest (oldest : ∀ id, id ∈ queue.pending → id ∈ queue.tracked →
      ∃ first entry, queue.nextPending.1 = some (first, entry.job) ∧ first ∈ queue.pending ∧
        queue.tracked.lookup first = some entry ∧ first ≤ id) :
    LeastFirst (fun id => id ∈ queue.tracked) queue.pending := by
  intro id member tracked
  obtain ⟨first, entry, given, _, found, below⟩ := oldest id member tracked
  cases split : queue.pending with
  | nil =>
      rw [split] at member
      cases member
  | cons head rest =>
      rw [nextPending_cons queue head rest split] at given
      obtain ⟨_, _, same⟩ := Option.map_eq_some_iff.mp given
      have front : head = first := congrArg Prod.fst same
      rw [front]
      exact ⟨first, rfl, Finmap.mem_of_lookup_eq_some found, below⟩

/-- With nothing tracked in the queue there is nothing to give out. -/
theorem nextPending_none (none_tracked : ∀ id, id ∈ queue.pending → id ∉ queue.tracked) :
    queue.nextPending.1 = none := by
  cases split : queue.pending with
  | nil => rw [nextPending_nil queue split]
  | cons head rest =>
      have absent := none_tracked head (by rw [split]; exact .head _)
      rw [nextPending_cons queue head rest split, Finmap.lookup_eq_none.mpr absent]
      rfl

/-- The table gives out the same job. -/
theorem nextQueued_eq {disk : DurableJobQueue} (settled : queue.Settled disk)
    (least : LeastFirst (fun id => id ∈ queue.tracked) queue.pending) :
    disk.nextQueued = .ok queue.nextPending.1 := by
  have ascending := disk.queuedIds_ascending
  unfold DurableJobQueue.nextQueued
  cases queued : disk.queuedIds with
  | nil =>
      have idle : queue.nextPending.1 = none := by
        apply nextPending_none
        intro id member tracked
        obtain ⟨entry, found⟩ := Option.isSome_iff_exists.mp (Finmap.lookup_isSome.mpr tracked)
        obtain ⟨row, held, state, _⟩ := settled.written id entry member found
        have listed := (disk.mem_queuedIds id).mpr ⟨row, held, state⟩
        rw [queued] at listed
        cases listed
      rw [idle]
  | cons id rest =>
      have listed : id ∈ disk.queuedIds := by
        rw [queued]
        exact .head _
      obtain ⟨row, held, state⟩ := (disk.mem_queuedIds id).mp listed
      obtain ⟨member, tracked⟩ := settled.waiting id row held state
      obtain ⟨first, entry, given, firstIn, found, below⟩ :=
        nextPending_least least member tracked
      obtain ⟨row', held', state', payload⟩ := settled.written first entry firstIn found
      have firstListed := (disk.mem_queuedIds first).mpr ⟨row', held', state'⟩
      rw [queued] at firstListed ascending
      have same : first = id := by
        rcases List.mem_cons.mp firstListed with here | later
        · exact here
        · have above := (List.pairwise_cons.mp ascending).1 first later
          exact absurd below (Nat.not_le_of_lt above)
      rw [← same]
      simp only [held', Option.bind_some, payload, given]

/-- A queue is in turn exactly when the oldest job is next, however many are popped. -/
theorem serving_iff (queue : JobQueue) (durable : Option DurableJobQueue) :
    (∀ pops, (queue.popped pops).OldestNext durable) ↔ queue.Serving := by
  unfold Serving
  rw [← leastFirst_drop_iff]
  constructor
  · intro all pops
    have least := leastFirst_of_oldest (all pops).oldest
    rw [popped_tracked, popped_pending] at least
    exact least
  · intro all pops
    have least : LeastFirst (fun id => id ∈ (queue.popped pops).tracked)
        (queue.popped pops).pending := by
      rw [popped_tracked, popped_pending]
      exact all pops
    constructor
    · intro id member tracked
      exact nextPending_least least member tracked
    · intro disk _ settled
      exact nextQueued_eq settled least

end JobQueue

namespace QueueCalls

/-- In this state, and in those that the router reaches from it by popping alone, the next
job is the oldest. -/
def OldestFirst (state : QueueCalls) : Prop :=
  ∀ pops, (state.queue.popped pops).OldestNext state.durable

/-- A call leaves the queue in turn: an accepted id is younger than all that wait, and none
of those is left over; a job that is completed while it waits is the youngest; a job that
is given back is older than those that wait; requeued jobs come in descending order and
are tracked and older than those that wait; recovered jobs are younger. -/
def KeepsTurn (state : QueueCalls) : QueueCall → Prop
  | .submit id _ _ _ =>
      state.queue.pending.length + state.queue.inFlight.keys.card < state.queue.maxPending →
        ∀ other ∈ state.queue.pending, (other = id ∨ other ∈ state.queue.tracked) ∧ other ≤ id
  | .returnPending id =>
      id ∈ state.queue.tracked →
        ∀ other ∈ state.queue.pending, other ∈ state.queue.tracked → id ≤ other
  | .complete id _ =>
      id ∈ state.queue.tracked → id ∈ state.queue.pending →
        ∀ other ∈ state.queue.pending, other ∈ state.queue.tracked → other ≤ id
  | .requeueWorker _ ids =>
      ids.reverse.Pairwise (InTurn (fun id => id ∈ state.queue.tracked)) ∧
        ∀ id ∈ ids, ∀ other ∈ state.queue.pending,
          InTurn (fun id => id ∈ state.queue.tracked) id other
  | .pushRows call =>
      ∀ id ∈ (state.rowsRead call).map RecoveredJob.id, ∀ other ∈ state.queue.pending,
        (other ∈ (state.rowsRead call).map RecoveredJob.id ∨ other ∈ state.queue.tracked) ∧
          other ≤ id
  | _ => True

instance (state : QueueCalls) : (call : QueueCall) → Decidable (state.KeepsTurn call)
  | .submit _ _ _ _ => inferInstanceAs (Decidable (_ → _))
  | .returnPending _ => inferInstanceAs (Decidable (_ → _))
  | .complete _ _ => inferInstanceAs (Decidable (_ → _))
  | .requeueWorker _ _ => inferInstanceAs (Decidable (_ ∧ _))
  | .pushRows _ => inferInstanceAs (Decidable (∀ id ∈ _, _))
  | .drawId | .nextPending | .markAssigned _ _ | .write _ _ | .flipRows | .readRows _ =>
      isTrue trivial

/-- The rows that a recovery has read are in ascending order. -/
def RowsAscend (state : QueueCalls) : Prop :=
  ∀ call, ((state.rowsRead call).map RecoveredJob.id).Pairwise
    (fun first second => first ≤ second)

def Ordered (state : QueueCalls) : Prop :=
  state.queue.Serving ∧ RowsAscend state

variable {after state : QueueCalls}

theorem rowsAscend_next {call : QueueCall}
    (ascend : RowsAscend state) (step : state.next call = some after) : RowsAscend after := by
  have set : ∀ (place : Nat) (changed : RecoveryCall),
      after.recoveries = state.recoveries.set place changed →
      (∀ rows, changed = .read rows →
        (rows.map RecoveredJob.id).Pairwise (fun first second => first ≤ second)) →
      RowsAscend after := by
    intro place changed recoveries sorted other
    by_cases here : other = place
    · unfold rowsRead
      rw [recoveries, here, List.getElem?_set_self']
      cases state.recoveries[place]? with
      | none => exact .nil
      | some old =>
          cases changed with
          | read rows => exact sorted rows rfl
          | flipped => exact .nil
          | returned => exact .nil
    · have same : after.rowsRead other = state.rowsRead other := by
        unfold rowsRead
        rw [recoveries, List.getElem?_set_ne (fun same => here same.symm)]
      rw [same]
      exact ascend other
  have kept : after.recoveries = state.recoveries → RowsAscend after := by
    intro recoveries other
    have same : after.rowsRead other = state.rowsRead other := by
      unfold rowsRead
      rw [recoveries]
    rw [same]
    exact ascend other
  cases taken_of_next step with
  | drawId => exact kept rfl
  | submit id job waker persisted drawn =>
      apply kept
      rcases submit_cases state id job waker persisted with same | ⟨_, same⟩
      · rw [same]
      · rw [same]
  | nextPending => exact kept rfl
  | markAssigned id worker => exact kept rfl
  | returnPending id => exact kept rfl
  | complete id outcome => exact kept rfl
  | requeueWorker worker ids order => exact kept rfl
  | write position done write found => exact kept rfl
  | flipRows disk attached =>
      intro other
      unfold rowsRead
      rw [List.getElem?_append]
      split
      · rename_i rows reached
        split at reached
        · have before := ascend other
          rw [rowsRead_of_read reached] at before
          exact before
        · cases beyond : other - state.recoveries.length with
          | zero =>
              rw [beyond] at reached
              cases reached
          | succ more =>
              rw [beyond] at reached
              cases reached
      · exact .nil
  | readRows call disk attached reached =>
      apply set call (.read disk.recoverQueued) rfl
      intro rows same
      cases same
      apply (disk.ids_ascending.sublist disk.recoverQueued_ids_sublist).imp
      exact Nat.le_of_lt
  | pushRows call rows reached =>
      apply set call .returned rfl
      intro other impossible
      cases impossible

/-! ### One step -/

theorem serving_same {before after : JobQueue} (pending : after.pending = before.pending)
    (tracked : ∀ id, id ∈ after.tracked ↔ id ∈ before.tracked) :
    after.Serving ↔ before.Serving := by
  unfold JobQueue.Serving
  rw [pending]
  exact pairwise_inTurn_congr tracked

variable {state : QueueCalls}

/-- A submission that finds room is queued. -/
theorem submit_queue_of_room (id : JobId) (job : Job) (waker : Option Waker) (persisted : Bool)
    (room : state.queue.pending.length + state.queue.inFlight.keys.card <
      state.queue.maxPending) :
    (state.submit id job waker persisted).queue = { state.queue with
      pending := state.queue.pending ++ [id]
      tracked := state.queue.tracked.insert id
        { job := job, assignedTo := none, waker := waker } } := by
  have accepted := (JobQueue.submit_ok_iff state.queue id job waker _).mpr ⟨room, rfl⟩
  unfold submit
  rw [accepted]

theorem serving_submit_iff (serving : state.queue.Serving) (id : JobId)
    (job : Job) (waker : Option Waker) (persisted : Bool) :
    (state.submit id job waker persisted).queue.Serving ↔
      state.KeepsTurn (.submit id job waker persisted) := by
  by_cases room : state.queue.pending.length + state.queue.inFlight.keys.card <
      state.queue.maxPending
  · have enters := pairwise_enter_iff serving (List.pairwise_singleton (fun first second => first ≤ second) id)
    have tracked : ∀ other : JobId, other ∈ state.queue.tracked.insert id
        { job := job, assignedTo := none, waker := waker } ↔
        other ∈ [id] ∨ other ∈ state.queue.tracked := by
      intro other
      rw [Finmap.mem_insert, List.mem_singleton]
    unfold JobQueue.Serving
    rw [submit_queue_of_room id job waker persisted room, pairwise_inTurn_congr tracked, enters]
    constructor
    · intro all _ other member
      have here := all id (List.mem_singleton_self id) other member
      rw [List.mem_singleton] at here
      exact here
    · intro all item only other member
      rw [List.mem_singleton] at only
      rw [only, List.mem_singleton]
      exact all room other member
  · rcases submit_cases state id job waker persisted with refused | ⟨accepted, _⟩
    · rw [refused]
      exact iff_of_true serving (fun accepted => absurd accepted room)
    · exact absurd accepted room

theorem serving_returnPending_iff (serving : state.queue.Serving) (id : JobId) :
    (state.queue.returnPending id).Serving ↔ state.KeepsTurn (.returnPending id) := by
  unfold JobQueue.Serving JobQueue.returnPending
  by_cases tracked : id ∈ state.queue.tracked
  · simp only [if_pos tracked]
    rw [pairwise_front_iff serving tracked]
    exact ⟨fun least _ => least, fun least => least tracked⟩
  · simp only [if_neg tracked]
    exact iff_of_true serving (fun present => absurd present tracked)

theorem serving_complete_iff (serving : state.queue.Serving) (id : JobId) (outcome : JobOutcome) :
    (state.complete id outcome).queue.Serving ↔ state.KeepsTurn (.complete id outcome) := by
  have retires := pairwise_retire_iff serving id
  have tracked : ∀ other : JobId, other ∈ state.queue.tracked.erase id ↔
      other ≠ id ∧ other ∈ state.queue.tracked := fun other => Finmap.mem_erase
  unfold JobQueue.Serving complete
  simp only [JobQueue.complete_pending, JobQueue.complete_tracked]
  rw [pairwise_inTurn_congr tracked]
  exact retires

theorem serving_requeueWorker_iff (serving : state.queue.Serving)
    (worker : String) (ids : List JobId) :
    (state.queue.requeueWorker ids).Serving ↔ state.KeepsTurn (.requeueWorker worker ids) := by
  unfold JobQueue.Serving
  rw [JobQueue.requeueWorker_pending,
    pairwise_inTurn_congr (fun id => state.queue.mem_requeueWorker_tracked ids id),
    List.pairwise_append]
  constructor
  · intro parts
    exact ⟨parts.1, fun id member => parts.2.2 id (List.mem_reverse.mpr member)⟩
  · intro parts
    exact ⟨parts.1, serving, fun id member => parts.2 id (List.mem_reverse.mp member)⟩

theorem serving_pushRows_iff (serving : state.queue.Serving)
    (ascend : RowsAscend state) {call : Nat} {rows : List RecoveredJob}
    (reached : state.recoveries[call]? = some (.read rows)) :
    (state.pushRows call rows).queue.Serving ↔ state.KeepsTurn (.pushRows call) := by
  have sorted := ascend call
  have enters := pairwise_enter_iff serving sorted
  rw [rowsRead_of_read reached] at enters
  unfold JobQueue.Serving pushRows
  simp only [JobQueue.recover_pending]
  rw [pairwise_inTurn_congr (fun id => state.queue.mem_recover_tracked rows id), enters,
    KeepsTurn, rowsRead_of_read reached]

theorem serving_step_iff {call : QueueCall}
    (serving : state.queue.Serving) (ascend : RowsAscend state)
    (step : state.next call = some after) : after.queue.Serving ↔ state.KeepsTurn call := by
  cases taken_of_next step with
  | drawId => exact iff_of_true serving trivial
  | submit id job waker persisted drawn => exact serving_submit_iff serving id job waker persisted
  | nextPending =>
      refine iff_of_true ?_ trivial
      unfold JobQueue.Serving
      rw [JobQueue.nextPending_pending, JobQueue.nextPending_tracked]
      exact List.Pairwise.tail serving
  | markAssigned id worker =>
      have kept := @serving_same state.queue (state.queue.markAssigned id worker) rfl
        (fun other => state.queue.mem_markAssigned_tracked id other worker)
      exact iff_of_true (kept.mpr serving) trivial
  | returnPending id => exact serving_returnPending_iff serving id
  | complete id outcome => exact serving_complete_iff serving id outcome
  | requeueWorker worker ids order => exact serving_requeueWorker_iff serving worker ids
  | write position done write found => exact iff_of_true serving trivial
  | flipRows disk attached => exact iff_of_true serving trivial
  | readRows call disk attached reached => exact iff_of_true serving trivial
  | pushRows call rows reached => exact serving_pushRows_iff serving ascend reached

theorem oldest_first_iff (maxPending previous : Nat) (durable : Option DurableJobQueue)
    {history : List (QueueCalls × QueueCall)} {final : QueueCalls}
    (run : Run next (start maxPending previous durable) history final) :
    Throughout OldestFirst history final ↔ Respects KeepsTurn history := by
  have exact_ : ∀ state : QueueCalls, OldestFirst state ↔ state.queue.Serving :=
    fun state => JobQueue.serving_iff state.queue state.durable
  have begins : Ordered (start maxPending previous durable) := ⟨.nil, fun call => .nil⟩
  have enough : ∀ state : QueueCalls, Ordered state → OldestFirst state :=
    fun state held => (exact_ state).mpr held.1
  refine run.throughout_iff_respects begins enough ?_ ?_
  · intro state call after held turn step
    exact ⟨(serving_step_iff held.1 held.2 step).mpr turn, rowsAscend_next held.2 step⟩
  · intro state call after held step good
    exact (serving_step_iff held.1 held.2 step).mp ((exact_ after).mp good)

/-- Two jobs of a dead worker come back in the order in which they were submitted. -/
theorem requeued_in_order :
    ∃ history final, Run next (start 4 0 (some .empty)) history final ∧
      history.length = 11 ∧ final.queue.pending = [1, 2] ∧
      Throughout OldestFirst history final := by
  obtain ⟨history, final, run, labels, passed⟩ := Run.of_trace next (start 4 0 (some .empty))
    [.drawId, .drawId, .submit 1 notes none true, .submit 2 notes none true, .nextPending,
      .markAssigned 1 "md-ingest-worker", .nextPending, .markAssigned 2 "md-ingest-worker",
      .write 0 true, .write 0 true, .requeueWorker "md-ingest-worker" [2, 1]]
    (fun history final => decide (Respects KeepsTurn history ∧ final.queue.pending = [1, 2]))
    (by decide +kernel)
  obtain ⟨respected, pending⟩ := of_decide_eq_true passed
  have long := congrArg List.length labels
  rw [List.length_map] at long
  exact ⟨history, final, run, long, pending,
    (oldest_first_iff 4 0 (some .empty) run).mpr respected⟩

/-- The map gives the same two jobs the other way round: the younger one is next, while the
table would choose the older one. -/
theorem requeued_reversed :
    ∃ history final, Run next (start 4 0 (some .empty)) history final ∧
      final.queue.nextPending.1 = some (2, notes) ∧
      (∃ disk, final.durable = some disk ∧ disk.nextQueued = .ok (some (1, notes))) ∧
      ¬ OldestFirst final := by
  have traced := Run.of_trace next (start 4 0 (some .empty))
    [.drawId, .drawId, .submit 1 notes none true, .submit 2 notes none true, .nextPending,
      .markAssigned 1 "md-ingest-worker", .nextPending, .markAssigned 2 "md-ingest-worker",
      .write 0 true, .write 0 true, .requeueWorker "md-ingest-worker" [1, 2],
      .write 0 true, .write 0 true]
    (fun _ final => decide (final.queue.nextPending.1 = some (2, notes) ∧
        1 ∈ final.queue.pending ∧ 1 ∈ final.queue.tracked) &&
      final.durable.any (fun disk =>
        decide (disk.nextQueued.toOption = some (some (1, notes)))))
    (by decide +kernel)
  obtain ⟨history, final, run, _, passed⟩ := traced
  rw [Bool.and_eq_true] at passed
  obtain ⟨given, pending, tracked⟩ := of_decide_eq_true passed.1
  obtain ⟨disk, attached, chosen⟩ := (Option.any_eq_true _ _).mp passed.2
  refine ⟨history, final, run, given, ⟨disk, attached, ?_⟩, ?_⟩
  · have ok := of_decide_eq_true chosen
    cases result : disk.nextQueued with
    | error fault =>
        rw [result] at ok
        cases ok
    | ok found =>
        rw [result] at ok
        cases ok
        rfl
  · intro oldest
    obtain ⟨first, entry, given', _, _, below⟩ := (oldest 0).oldest 1 pending tracked
    change final.queue.nextPending.1 = _ at given'
    rw [given] at given'
    have same : 2 = first := congrArg Prod.fst (Option.some.inj given')
    rw [← same] at below
    exact absurd below (by decide)

end QueueCalls

end Mneme.Supervisor
