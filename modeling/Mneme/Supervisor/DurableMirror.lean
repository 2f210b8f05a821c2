/-
When the table agrees with the queue in memory.

Both halves are read through one view: where a job stands.  Memory keeps the
standing of the write issued last, the table that of the write executed last,
so at a quiescent state the two agree exactly when these are one write.
-/

import Mneme.Supervisor.DurableQueue

namespace Mneme.Supervisor

open Common Transition

/-- Where a job stands: the part of a row that memory determines. -/
inductive Standing where
  | queued
  | inFlight (worker : Option String)
  | finished (ok : Bool) (error : Option String)
deriving DecidableEq

def Row.standing (row : Row) : Standing :=
  match row.state with
  | .queued => .queued
  | .inFlight => .inFlight row.assignedTo
  | .done => .finished true row.error
  | .failed => .finished false row.error

def DurableJobQueue.standing (disk : DurableJobQueue) (id : JobId) : Option Standing :=
  (disk.rows.lookup id).map Row.standing

def Write.standing : Write → Standing
  | .push _ _ => .queued
  | .markInFlight _ worker => .inFlight (some worker)
  | .requeue _ => .queued
  | .markDone _ outcome => .finished outcome.isOk outcome.message?

/-- Where memory has a job; a job it does not know stands where the session
found it. -/
def System.standing (boot : DurableJobQueue) (state : System) (id : JobId) : Option Standing :=
  match state.completed.lookup id with
  | some outcome => some (.finished outcome.isOk outcome.message?)
  | none =>
      if id ∈ state.queue.tracked then
        match state.queue.inFlight.lookup id with
        | some worker => some (.inFlight (some worker))
        | none => some .queued
      else boot.standing id

def writesTo (writes : List Write) (id : JobId) : List Write :=
  writes.filter (fun write => decide (write.key = id))

/-- The last of these writes to the row of a job. -/
def lastWrite (writes : List Write) (id : JobId) : Option Write :=
  (writesTo writes id).getLast?

theorem writesTo_append (earlier later : List Write) (id : JobId) :
    writesTo (earlier ++ later) id = writesTo earlier id ++ writesTo later id :=
  List.filter_append _ _

variable {id : JobId} {write : Write} {writes : List Write}

theorem mem_writesTo : write ∈ writesTo writes id ↔ write ∈ writes ∧ write.key = id := by
  unfold writesTo
  rw [List.mem_filter, decide_eq_true_iff]

theorem lastWrite_append (earlier later : List Write) (id : JobId) :
    lastWrite (earlier ++ later) id = (lastWrite later id).or (lastWrite earlier id) := by
  unfold lastWrite
  rw [writesTo_append, List.getLast?_append]

theorem lastWrite_singleton (write : Write) (id : JobId) :
    lastWrite [write] id = if write.key = id then some write else none := by
  unfold lastWrite writesTo
  by_cases same : write.key = id
  · simp [same]
  · simp [same]

theorem lastWrite_requeues (ids : List JobId) (id : JobId) :
    lastWrite (ids.map .requeue) id = if id ∈ ids then some (.requeue id) else none := by
  induction ids with
  | nil => rfl
  | cons head tail ih =>
      have split : (head :: tail).map Write.requeue = [.requeue head] ++ tail.map .requeue := rfl
      rw [split, lastWrite_append, ih, lastWrite_singleton]
      by_cases later : id ∈ tail
      · simp [later]
      · by_cases same : head = id
        · subst same
          simp [later, Write.key]
        · have different : ¬id = head := fun equal => same equal.symm
          simp [later, same, different, Write.key]

/-- A write that moves its own job, and only that, is the last write of each. -/
theorem standing_of_singleton {before after : JobId → Option Standing}
    (own : after write.key = some write.standing)
    (others : ∀ id, id ≠ write.key → after id = before id) (id : JobId) :
    after id = ((lastWrite [write] id).map Write.standing).or (before id) := by
  rw [lastWrite_singleton]
  by_cases same : write.key = id
  · subst same
    rw [if_pos rfl, own]
    rfl
  · rw [if_neg same]
    exact others id (fun equal => same equal.symm)

variable {right left : List Write}

theorem lastWrite_eq_none_of_perm (shuffled : left.Perm right)
    (silent : lastWrite left id = none) : lastWrite right id = none := by
  have both : (writesTo left id).Perm (writesTo right id) := shuffled.filter _
  rw [List.getLast?_eq_none_iff.mp silent] at both
  unfold lastWrite
  rw [List.nil_perm.mp both]
  rfl

/-- The only write of a row comes last in every order. -/
theorem lastWrite_of_alone (shuffled : left.Perm right)
    (alone : writesTo left id = [write]) : lastWrite right id = some write := by
  have both : (writesTo left id).Perm (writesTo right id) := shuffled.filter _
  rw [alone] at both
  unfold lastWrite
  rw [List.perm_singleton.mp both.symm]
  rfl

theorem lastWrite_mem (last : lastWrite writes id = some write) : write ∈ writes ∧ write.key = id :=
  mem_writesTo.mp (List.mem_of_getLast? last)

/-- The row is inserted before anything updates it. -/
def PushFirst (writes : List Write) : Prop :=
  ∀ write, write ∈ writes.tail → write.isPush = false

theorem PushFirst.append {writes later : List Write} (first : PushFirst writes)
    (updates : ∀ write, write ∈ later → write.isPush = false) : PushFirst (writes ++ later) := by
  intro write member
  cases writes with
  | nil => exact updates write (List.mem_of_mem_tail member)
  | cons head tail =>
      rcases List.mem_append.mp member with old | new
      · exact first write old
      · exact updates write new

/-- An insertion that comes last is alone. -/
theorem PushFirst.alone (first : PushFirst writes)
    (last : writes.getLast? = some write) (pushed : write.isPush = true) : writes = [write] := by
  cases writes with
  | nil => cases last
  | cons head tail =>
      cases tail with
      | nil =>
          rw [List.getLast?_singleton, Option.some.injEq] at last
          rw [last]
      | cons second rest =>
          rw [List.getLast?_cons_cons] at last
          have later := first write (List.mem_of_getLast? last)
          rw [pushed] at later
          cases later

variable (disk : DurableJobQueue)

theorem lookup_run_other (write : Write)
    (different : id ≠ write.key) : (write.run disk).rows.lookup id = disk.rows.lookup id := by
  cases write with
  | push key job => exact (DurableJobQueue.lookup_push _ _ _ _).trans (if_neg different)
  | markInFlight key worker => exact (DurableJobQueue.lookup_update _ _ _ _).trans (if_neg different)
  | requeue key => exact (DurableJobQueue.lookup_update _ _ _ _).trans (if_neg different)
  | markDone key outcome => exact (DurableJobQueue.lookup_update _ _ _ _).trans (if_neg different)

theorem update_standing {disk : DurableJobQueue} {key : JobId} (change : Row → Row)
    (standing : Standing) (changed : ∀ row, (change row).standing = standing)
    (member : key ∈ disk.rows) : (disk.update key change).standing key = some standing := by
  obtain ⟨row, found⟩ := Finmap.mem_iff.mp member
  unfold DurableJobQueue.standing
  rw [DurableJobQueue.lookup_update, if_pos rfl, found, Option.map_some, Option.map_some, changed]

theorem run_standing_self (write : Write) (present : write.isPush = true ∨ write.key ∈ disk.rows) :
    (write.run disk).standing write.key = some write.standing := by
  cases write with
  | push key job =>
      have pushed := DurableJobQueue.lookup_push disk key key job
      rw [if_pos rfl] at pushed
      exact congrArg (Option.map Row.standing) pushed
  | markInFlight key worker =>
      have member : key ∈ disk.rows := present.resolve_left (by simp [Write.isPush])
      exact update_standing _ _ (fun row => rfl) member
  | requeue key =>
      have member : key ∈ disk.rows := present.resolve_left (by simp [Write.isPush])
      exact update_standing _ _ (fun row => rfl) member
  | markDone key outcome =>
      have member : key ∈ disk.rows := present.resolve_left (by simp [Write.isPush])
      cases outcome with
      | ok payload durationMs stats => exact update_standing _ _ (fun row => rfl) member
      | err message durationMs stats => exact update_standing _ _ (fun row => rfl) member

theorem run_standing (write : Write) (id : JobId)
    (present : write.isPush = true ∨ write.key ∈ disk.rows) :
    (write.run disk).standing id =
      ((lastWrite [write] id).map Write.standing).or (disk.standing id) := by
  apply standing_of_singleton
  · exact run_standing_self disk write present
  · intro other different
    exact congrArg (Option.map Row.standing) (lookup_run_other disk write different)

theorem mem_run (write : Write) (member : id ∈ disk.rows) : id ∈ (write.run disk).rows := by
  cases write with
  | push key job => exact Finmap.mem_insert.mpr (Or.inr member)
  | markInFlight key worker => exact (DurableJobQueue.mem_update _ _ _ _).mpr member
  | requeue key => exact (DurableJobQueue.mem_update _ _ _ _).mpr member
  | markDone key outcome => exact (DurableJobQueue.mem_update _ _ _ _).mpr member

/-! ### Where an operation leaves the jobs in memory -/

namespace System

variable (boot : DurableJobQueue)

variable {after state : System}

theorem standing_congr {before : System}
    (completed : after.completed.lookup id = before.completed.lookup id)
    (tracked : id ∈ after.queue.tracked ↔ id ∈ before.queue.tracked)
    (flying : after.queue.inFlight.lookup id = before.queue.inFlight.lookup id) :
    after.standing boot id = before.standing boot id := by
  unfold standing
  rw [completed, flying]
  simp only [tracked]

variable {state : System}

theorem standing_waiting (uncompleted : id ∉ state.completed) (tracked : id ∈ state.queue.tracked)
    (grounded : id ∉ state.queue.inFlight) : state.standing boot id = some .queued := by
  unfold standing
  rw [Finmap.lookup_eq_none.mpr uncompleted, Finmap.lookup_eq_none.mpr grounded]
  simp only [if_pos tracked]

theorem standing_flying {worker : String}
    (uncompleted : id ∉ state.completed) (tracked : id ∈ state.queue.tracked)
    (flying : state.queue.inFlight.lookup id = some worker) :
    state.standing boot id = some (.inFlight (some worker)) := by
  unfold standing
  rw [Finmap.lookup_eq_none.mpr uncompleted, flying]
  simp only [if_pos tracked]

variable {outcome : JobOutcome}

theorem standing_completed (completed : state.completed.lookup id = some outcome) :
    state.standing boot id = some (.finished outcome.isOk outcome.message?) := by
  unfold standing
  rw [completed]

theorem standing_unknown
    (uncompleted : id ∉ state.completed) (untracked : id ∉ state.queue.tracked) :
    state.standing boot id = boot.standing id := by
  unfold standing
  rw [Finmap.lookup_eq_none.mpr uncompleted]
  simp only [if_neg untracked]

theorem lookup_complete_completed (state : System) (id : JobId) (outcome : JobOutcome)
    (tracked : id ∈ state.queue.tracked) :
    (state.complete id outcome).completed.lookup id = some outcome := by
  obtain ⟨entry, found⟩ := Finmap.mem_iff.mp tracked
  unfold complete
  simp only [JobQueue.complete_entry, found]
  exact Finmap.lookup_insert _

theorem lookup_complete_other (state : System) {id other : JobId} (outcome : JobOutcome)
    (different : other ≠ id ∨ id ∉ state.queue.tracked) :
    (state.complete id outcome).completed.lookup other = state.completed.lookup other := by
  unfold complete
  simp only [JobQueue.complete_entry]
  cases found : state.queue.tracked.lookup id with
  | none => rfl
  | some entry =>
      have tracked := Finmap.mem_of_lookup_eq_some found
      exact Finmap.lookup_insert_of_ne _ (different.resolve_right (fun untracked => untracked tracked))

/-- The router marks and returns only jobs that are still tracked. -/
def RouterTidy (state : System) : Event → Prop
  | .markAssigned => ∀ id ∈ state.router.job?, id ∈ state.queue.tracked
  | .returnPending => ∀ id ∈ state.router.job?, id ∈ state.queue.tracked
  | _ => True

instance (state : System) (event : Event) : Decidable (state.RouterTidy event) :=
  match event with
  | .markAssigned => inferInstanceAs (Decidable (∀ id ∈ state.router.job?, _))
  | .returnPending => inferInstanceAs (Decidable (∀ id ∈ state.router.job?, _))
  | .submit _ _ => .isTrue trivial
  | .nextPending => .isTrue trivial
  | .encodeFailed _ => .isTrue trivial
  | .dispatchOk _ => .isTrue trivial
  | .workerComplete _ _ => .isTrue trivial
  | .requeueWorker _ _ => .isTrue trivial

variable {event : Event}

theorem RouterTidy.marks (tidy : state.RouterTidy event)
    (id : JobId) (worker : String) (marking : event = .markAssigned)
    (router : state.router = .dispatched id worker) : id ∈ state.queue.tracked := by
  subst marking
  exact tidy id (congrArg RouterState.job? router)

theorem complete_standing (flying : ∀ id, id ∈ state.queue.inFlight →
    id ∈ state.queue.tracked) (done : JobId) (outcome : JobOutcome) (id : JobId) :
    (state.complete done outcome).standing boot id =
      ((lastWrite (state.completeWrites done outcome) id).map Write.standing).or
        (state.standing boot id) := by
  rw [DurableSystem.completeWrites_eq]
  by_cases tracked : done ∈ state.queue.tracked
  · rw [if_pos tracked]
    apply standing_of_singleton
    · exact standing_completed boot (lookup_complete_completed state done outcome tracked)
    · intro other different
      have apart : other ≠ done := different
      apply standing_congr
      · exact lookup_complete_other state outcome (Or.inl apart)
      · rw [complete_queue, JobQueue.complete_tracked, Finmap.mem_erase]
        simp [apart]
      · rw [complete_queue, JobQueue.complete_inFlight, Finmap.lookup_erase_ne apart]
  · rw [if_neg tracked]
    have grounded : done ∉ state.queue.inFlight := fun present => tracked (flying done present)
    apply standing_congr
    · exact lookup_complete_other state outcome (Or.inr tracked)
    · rw [complete_queue, JobQueue.complete_tracked, Finmap.mem_erase]
      constructor
      · exact fun both => both.2
      · exact fun present => ⟨fun same => tracked (same ▸ present), present⟩
    · rw [complete_queue, JobQueue.complete_inFlight]
      by_cases same : id = done
      · rw [same, Finmap.lookup_erase, Finmap.lookup_eq_none.mpr grounded]
      · rw [Finmap.lookup_erase_ne same]

/-- After an operation a job stands where the last of its own writes to the
job says, and where it stood if there is none. -/
theorem step_standing (accounting : Accounting state)
    (flying : ∀ id, id ∈ state.queue.inFlight → id ∈ state.queue.tracked)
    (tidy : state.RouterTidy event) (step : state.next event = some after) (id : JobId) :
    after.standing boot id =
      ((lastWrite (state.lockedWrites event ++ state.laterWrites event) id).map Write.standing).or
        (state.standing boot id) := by
  have unchanged : after.completed.lookup id = state.completed.lookup id →
      (id ∈ after.queue.tracked ↔ id ∈ state.queue.tracked) →
      after.queue.inFlight.lookup id = state.queue.inFlight.lookup id →
      state.lockedWrites event ++ state.laterWrites event = [] →
      after.standing boot id =
        ((lastWrite (state.lockedWrites event ++ state.laterWrites event) id).map
          Write.standing).or (state.standing boot id) := by
    intro completed tracked inFlight silent
    rw [silent]
    exact standing_congr boot completed tracked inFlight
  cases taken_of_next step with
  | submit job waker =>
      rcases DurableSystem.submit_writes state job waker with ⟨refused, silent⟩ | ⟨queued, pushed⟩
      · apply unchanged
        · rw [refused]
        · rw [refused]
        · rw [refused]
        · rw [silent]
          rfl
      · rw [queued, pushed]
        apply standing_of_singleton
        · have fresh : state.counter ∉ state.completed :=
            fun present => Nat.lt_irrefl _ (accounting.completedOld _ present)
          have grounded : state.counter ∉ state.queue.inFlight :=
            fun present => Nat.lt_irrefl _ (accounting.inFlightOld _ present)
          exact standing_waiting boot fresh (Finmap.mem_insert.mpr (Or.inl rfl)) grounded
        · intro other different
          have old : other ≠ state.counter := different
          apply standing_congr
          · rfl
          · simp only [Finmap.mem_insert, old, false_or]
          · rfl
  | nextPending idle =>
      refine unchanged rfl ?_ ?_ rfl
      · rw [nextPending_queue, JobQueue.nextPending_tracked]
      · rw [nextPending_queue, JobQueue.nextPending_inFlight]
  | encodeFailed error held job router =>
      have completed := complete_standing boot flying held (encodeError error) id
      have writes : state.laterWrites (.encodeFailed error) =
          state.completeWrites held (encodeError error) := by
        simp only [laterWrites, router]
      rw [writes]
      exact completed
  | dispatchOk worker held job router => exact unchanged rfl Iff.rfl rfl rfl
  | markAssigned held worker router =>
      have tracked := tidy held (congrArg RouterState.job? router)
      have writes : state.lockedWrites .markAssigned ++ state.laterWrites .markAssigned =
          [.markInFlight held worker] := by
        simp only [lockedWrites, laterWrites, router, List.nil_append]
      rw [writes]
      apply standing_of_singleton
      · exact standing_flying boot (accounting.apart held tracked)
          ((JobQueue.mem_markAssigned_tracked _ _ _ _).mpr tracked) (Finmap.lookup_insert _)
      · intro other different
        exact standing_congr boot rfl (JobQueue.mem_markAssigned_tracked _ _ _ _)
          (Finmap.lookup_insert_of_ne _ different)
  | returnPending held job router =>
      have tracked := tidy held (congrArg RouterState.job? router)
      have writes : state.lockedWrites .returnPending ++ state.laterWrites .returnPending =
          [.requeue held] := by
        simp only [lockedWrites, laterWrites, router, List.nil_append]
      rw [writes]
      apply standing_of_singleton
      · exact standing_waiting boot (accounting.apart held tracked) tracked
          Finmap.notMem_erase_self
      · intro other different
        exact standing_congr boot rfl Iff.rfl (Finmap.lookup_erase_ne different)
  | workerComplete done outcome => exact complete_standing boot flying done outcome id
  | requeueWorker worker ids order =>
      have writes : state.lockedWrites (.requeueWorker worker ids) ++
          state.laterWrites (.requeueWorker worker ids) = ids.map .requeue := rfl
      rw [writes, lastWrite_requeues]
      by_cases walked : id ∈ ids
      · have tracked := flying id (Finmap.mem_of_lookup_eq_some ((order.mem_iff id).mp walked))
        rw [if_pos walked]
        refine Eq.trans (standing_waiting boot (accounting.apart id tracked) ?_ ?_) ?_
        · exact (JobQueue.mem_requeueWorker_tracked _ _ _).mpr tracked
        · exact fun present =>
            ((JobQueue.mem_requeueWorker_inFlight _ _ _).mp present).1 walked
        · rfl
      · rw [if_neg walked]
        apply standing_congr
        · rfl
        · exact JobQueue.mem_requeueWorker_tracked _ _ _
        · exact (JobQueue.requeueWorker_inFlight _ _ _).trans (if_neg walked)

/-- Only a completion reports an outcome, and only the first one is kept. -/
theorem step_outcome (accounting : Accounting state) (step : state.next event = some after)
    (first : state.completed.lookup id = some outcome) :
    after.completed.lookup id = some outcome := by
  have untracked : id ∉ state.queue.tracked :=
    fun tracked => accounting.apart id tracked (Finmap.mem_of_lookup_eq_some first)
  have completing : ∀ done other,
      (state.complete done other).completed.lookup id = some outcome := by
    intro done other
    rw [lookup_complete_other, first]
    by_cases same : id = done
    · exact Or.inr (same ▸ untracked)
    · exact Or.inl same
  cases taken_of_next step with
  | submit job waker =>
      rcases submit_cases state job waker with refused | queued
      · rw [refused]
        exact first
      · rw [queued]
        exact first
  | encodeFailed error held job router => exact completing held _
  | workerComplete done other => exact completing done other
  | _ => exact first

end System

namespace DurableSystem

def Tidy (state : DurableSystem) : DurableEvent → Prop
  | .memory event => state.system.RouterTidy event
  | .disk _ => True

instance (state : DurableSystem) (event : DurableEvent) : Decidable (state.Tidy event) :=
  match event with
  | .memory event => inferInstanceAs (Decidable (state.system.RouterTidy event))
  | .disk _ => .isTrue trivial

/-- What holds along every tidy run: both copies follow their own order of the
writes, and the two orders are of the same writes. -/
structure Ledger (state : DurableSystem) : Prop where
  accounting : System.Accounting state.system
  flying : ∀ id, id ∈ state.system.queue.inFlight → id ∈ state.system.queue.tracked
  memory : ∀ id, state.system.standing state.boot id =
    ((lastWrite state.issued id).map Write.standing).or (state.boot.standing id)
  disk : ∀ id, state.disk.standing id =
    ((lastWrite state.executed id).map Write.standing).or (state.boot.standing id)
  rows : ∀ id, id ∈ state.system.queue.tracked → id ∈ state.disk.rows
  outstandingRows : ∀ write, write ∈ state.outstanding.flatten → write.key ∈ state.disk.rows
  outstandingPushed : ∀ write, write ∈ state.outstanding.flatten → write.isPush = false
  known : ∀ write, write ∈ state.issued →
    write.key ∈ state.system.queue.tracked ∨ write.key ∈ state.system.completed
  shuffled : state.issued.Perm (state.executed ++ state.outstanding.flatten)
  firstOutcome : ∀ id outcome, .markDone id outcome ∈ state.issued →
    state.system.completed.lookup id = some outcome
  pushIssued : ∀ id, PushFirst (writesTo state.issued id)
  pushExecuted : ∀ id, PushFirst (writesTo state.executed id)
  bootQueued : ∀ id, state.boot.standing id = some .queued →
    id ∈ state.system.queue.tracked ∨ id ∈ state.system.completed
  bootGrounded : ∀ id worker, state.boot.standing id ≠ some (.inFlight worker)
  bootOld : ∀ id, id ∈ state.boot.rows → id < state.system.counter
  bootOpen : ∀ id, id ∈ state.system.queue.tracked →
    ∀ ok error, state.boot.standing id ≠ some (.finished ok error)

/-! ### The table as the session finds it -/

variable (maxPending : Nat)

/-- The recovery tracks exactly the jobs whose rows it leaves queued. -/
theorem mem_start_tracked_iff (table : JobsTable) (id : JobId) :
    id ∈ (start maxPending table.disk).system.queue.tracked ↔
      table.disk.requeueAllInFlight.standing id = some .queued := by
  constructor
  · intro tracked
    obtain ⟨row, recovered, same⟩ :=
      List.mem_map.mp ((mem_start_tracked maxPending table.disk id).mp tracked)
    subst same
    rw [DurableJobQueue.mem_recoverQueued] at recovered
    obtain ⟨held, found, read⟩ := Option.bind_eq_some_iff.mp recovered
    by_cases queued : held.state = .queued
    · unfold DurableJobQueue.standing
      rw [found, Option.map_some, Row.standing, queued]
    · rw [if_neg queued] at read
      cases read
  · intro standing
    obtain ⟨row, found, queued⟩ := Option.map_eq_some_iff.mp standing
    obtain ⟨_, before, held, payload, _⟩ := DurableJobQueue.lookup_recovering found
    obtain ⟨job, decoded⟩ := table.decodable id before held
    rw [← payload] at decoded
    have waiting : row.state = .queued := by
      unfold Row.standing at queued
      cases state : row.state <;> simp only [state, reduceCtorEq] at queued
      rfl
    exact Finmap.mem_of_lookup_eq_some
      (start_recovers maxPending table.disk found waiting decoded).1

theorem recovered_grounded (disk : DurableJobQueue) (id : JobId) (worker : Option String) :
    disk.requeueAllInFlight.standing id ≠ some (.inFlight worker) := by
  intro standing
  obtain ⟨row, found, flying⟩ := Option.map_eq_some_iff.mp standing
  have grounded := (DurableJobQueue.lookup_recovering found).1
  unfold Row.standing at flying
  cases state : row.state <;> simp only [state, reduceCtorEq] at flying
  exact grounded state

theorem notMem_start_inFlight (disk : DurableJobQueue) (id : JobId) :
    id ∉ (start maxPending disk).system.queue.inFlight := by
  rw [start_inFlight]
  exact Finmap.notMem_empty

theorem start_ledger (table : JobsTable) : Ledger (start maxPending table.disk) := by
  have tracked := mem_start_tracked_iff maxPending table
  have grounded := notMem_start_inFlight maxPending table.disk
  refine
    { accounting := start_accounting maxPending table.disk
      flying := fun id member => absurd member (grounded id)
      memory := ?_
      disk := fun id => rfl
      rows := ?_
      outstandingRows := fun write member => absurd member List.not_mem_nil
      outstandingPushed := fun write member => absurd member List.not_mem_nil
      known := fun write member => absurd member List.not_mem_nil
      shuffled := List.Perm.refl _
      firstOutcome := fun id outcome member => absurd member List.not_mem_nil
      pushIssued := fun id write member => absurd member List.not_mem_nil
      pushExecuted := fun id write member => absurd member List.not_mem_nil
      bootQueued := fun id standing => Or.inl ((tracked id).mpr standing)
      bootGrounded := recovered_grounded table.disk
      bootOld := ?_
      bootOpen := ?_ }
  · intro id
    change _ = table.disk.requeueAllInFlight.standing id
    by_cases known : id ∈ (start maxPending table.disk).system.queue.tracked
    · rw [System.standing_waiting _ Finmap.notMem_empty known (grounded id),
        (tracked id).mp known]
    · exact System.standing_unknown _ Finmap.notMem_empty known
  · intro id known
    obtain ⟨row, found, _⟩ := Option.map_eq_some_iff.mp ((tracked id).mp known)
    exact Finmap.mem_of_lookup_eq_some found
  · intro id member
    exact lt_start_counter maxPending table.disk
      ((DurableJobQueue.mem_requeueAllInFlight _ _).mp member)
  · intro id known ok error finished
    have queued := (tracked id).mp known
    change table.disk.requeueAllInFlight.standing id = _ at finished
    rw [queued] at finished
    cases finished

/-! ### The first half of an operation -/

variable {state : DurableSystem}

/-- Every write an operation makes is to the row of a job it knows. -/
theorem memory_writes (ledger : Ledger state) {event : Event}
    {system : System} (tidy : state.system.RouterTidy event)
    (step : state.system.next event = some system)
    (member : write ∈ state.system.laterWrites event) :
    write.isPush = false ∧ write.key ∈ state.system.queue.tracked ∧
      (write.key ∈ system.queue.tracked ∨ write.key ∈ system.completed) ∧
      ∀ id outcome, write = .markDone id outcome → system.completed.lookup id = some outcome := by
  have completing : ∀ id outcome, id ∈ state.system.queue.tracked →
      (state.system.complete id outcome).completed.lookup id = some outcome :=
    fun id outcome tracked => System.lookup_complete_completed state.system id outcome tracked
  have left := left_of_mem member
  cases left with
  | failed error id job router tracked =>
      simp only [System.next, router, Option.some.injEq] at step
      subst step
      have kept := completing id (System.encodeError error) tracked
      refine ⟨rfl, tracked, Or.inr (Finmap.mem_of_lookup_eq_some kept), ?_⟩
      intro other outcome same
      cases same
      exact kept
  | completed id outcome tracked =>
      simp only [System.next, Option.some.injEq] at step
      subst step
      have kept := completing id outcome tracked
      refine ⟨rfl, tracked, Or.inr (Finmap.mem_of_lookup_eq_some kept), ?_⟩
      intro other last same
      cases same
      exact kept
  | marked id worker router =>
      simp only [System.next, router, Option.some.injEq] at step
      subst step
      have tracked := tidy id (congrArg RouterState.job? router)
      refine ⟨rfl, tracked, Or.inl ?_, by simp⟩
      exact (JobQueue.mem_markAssigned_tracked _ _ _ _).mpr tracked
  | returned id job router =>
      simp only [System.next, router, Option.some.injEq] at step
      subst step
      exact ⟨rfl, tidy id (congrArg RouterState.job? router), Or.inl (tidy id (congrArg RouterState.job? router)), by simp⟩
  | requeued worker ids id walked =>
      by_cases order : state.system.queue.RequeueOrder worker ids
      · simp only [System.next, order, if_true, Option.some.injEq] at step
        subst step
        have tracked := ledger.flying id
          (Finmap.mem_of_lookup_eq_some ((order.mem_iff id).mp walked))
        refine ⟨rfl, tracked, Or.inl ?_, by simp⟩
        exact (JobQueue.mem_requeueWorker_tracked _ _ _).mpr tracked
      · simp only [System.next, order, if_false, reduceCtorEq] at step

theorem Ledger.issued_old (ledger : Ledger state) (member : write ∈ state.issued) :
    write.key < state.system.counter := by
  rcases ledger.known write member with tracked | completed
  · exact ledger.accounting.trackedOld _ tracked
  · exact ledger.accounting.completedOld _ completed

theorem Ledger.executed_old (ledger : Ledger state)
    (member : write ∈ state.executed) : write.key < state.system.counter :=
  ledger.issued_old (ledger.shuffled.mem_iff.mpr (List.mem_append_left _ member))

theorem Ledger.outstanding_old (ledger : Ledger state)
    (member : write ∈ state.outstanding.flatten) : write.key < state.system.counter :=
  ledger.issued_old (ledger.shuffled.mem_iff.mpr (List.mem_append_right _ member))

section Locked

variable {before after : System} {event : Event}

theorem locked_inserts (step : before.next event = some after) {write : Write}
    (member : write ∈ before.lockedWrites event) :
    write.isPush = true ∧ write.key = before.counter ∧ write.key ∈ after.queue.tracked := by
  rcases locked_cases step with ⟨silent, _⟩ | ⟨job, pushed, _, _, tracked, _⟩
  · rw [silent] at member
    cases member
  · rw [pushed, List.mem_singleton] at member
    rw [member]
    exact ⟨rfl, rfl, tracked⟩

variable {disk : DurableJobQueue}

theorem mem_lockedRun (step : before.next event = some after)
    (member : id ∈ disk.rows) : id ∈ ((before.lockedWrites event).foldl Write.run disk).rows := by
  rcases locked_cases step with ⟨silent, _⟩ | ⟨job, pushed, _⟩
  · rw [silent]
    exact member
  · rw [pushed]
    exact mem_run disk (.push before.counter job) member

theorem lockedRun_standing (step : before.next event = some after) (disk : DurableJobQueue)
    (id : JobId) : ((before.lockedWrites event).foldl Write.run disk).standing id =
      ((lastWrite (before.lockedWrites event) id).map Write.standing).or (disk.standing id) := by
  rcases locked_cases step with ⟨silent, _⟩ | ⟨job, pushed, _⟩
  · rw [silent]
    rfl
  · rw [pushed]
    exact run_standing disk (.push before.counter job) id (Or.inl rfl)

theorem tracked_lockedRun (step : before.next event = some after)
    (rows : ∀ id, id ∈ before.queue.tracked → id ∈ disk.rows) (tracked : id ∈ after.queue.tracked) :
    id ∈ ((before.lockedWrites event).foldl Write.run disk).rows := by
  rcases locked_cases step with ⟨_, _, old⟩ | ⟨job, pushed, _, _, _, either⟩
  · exact mem_lockedRun step (rows id (old id tracked))
  · rcases either id tracked with new | old
    · rw [pushed, new]
      exact Finmap.mem_insert.mpr (Or.inl rfl)
    · exact mem_lockedRun step (rows id old)

variable {writes : List Write}

/-- A row inserted under the lock is fresh: no earlier write is for it. -/
theorem locked_apart (step : before.next event = some after)
    (old : ∀ write, write ∈ writes → write.key < before.counter) (id : JobId) :
    writesTo writes id = [] ∨ writesTo (before.lockedWrites event) id = [] := by
  by_cases fresh : id = before.counter
  · left
    rw [List.eq_nil_iff_forall_not_mem]
    intro write member
    obtain ⟨present, key⟩ := mem_writesTo.mp member
    exact Nat.ne_of_lt (old write present) (key.trans fresh)
  · right
    rw [List.eq_nil_iff_forall_not_mem]
    intro write member
    obtain ⟨present, key⟩ := mem_writesTo.mp member
    exact fresh (key.symm.trans (locked_inserts step present).2.1)

theorem locked_pushFirst (step : before.next event = some after) (id : JobId) :
    PushFirst (writesTo (before.lockedWrites event) id) := by
  intro write member
  rcases locked_cases step with ⟨silent, _⟩ | ⟨job, pushed, _⟩
  · rw [silent] at member
    cases member
  · rw [pushed] at member
    by_cases same : before.counter = id
    · simp [writesTo, Write.key, same] at member
    · simp [writesTo, Write.key, same] at member

theorem pushFirst_locked (step : before.next event = some after)
    (old : ∀ write, write ∈ writes → write.key < before.counter)
    (first : PushFirst (writesTo writes id)) :
    PushFirst (writesTo (writes ++ before.lockedWrites event) id) := by
  rw [writesTo_append]
  rcases locked_apart step old id with none | none
  · rw [none, List.nil_append]
    exact locked_pushFirst step id
  · rw [none, List.append_nil]
    exact first

end Locked

theorem afterMemory_shuffled (event : Event) (system : System)
    (shuffled : state.issued.Perm (state.executed ++ state.outstanding.flatten)) :
    (state.afterMemory event system).issued.Perm ((state.afterMemory event system).executed ++
      (state.afterMemory event system).outstanding.flatten) := by
  change (state.issued ++ (state.system.lockedWrites event ++
      state.system.laterWrites event)).Perm
    ((state.executed ++ state.system.lockedWrites event) ++
      (state.outstanding ++ [state.system.laterWrites event]).flatten)
  have swapped := List.perm_append_comm_assoc state.outstanding.flatten
    (state.system.lockedWrites event) (state.system.laterWrites event)
  have spread := (shuffled.append_right
    (state.system.lockedWrites event ++ state.system.laterWrites event))
  rw [List.append_assoc] at spread
  refine spread.trans ?_
  simp only [List.flatten_append, List.flatten_cons, List.flatten_nil, List.append_nil,
    List.append_assoc]
  exact swapped.append_left state.executed

theorem memory_ledger (ledger : Ledger state) {event : Event}
    {system : System} (tidy : state.system.RouterTidy event)
    (step : state.system.next event = some system) : Ledger (state.afterMemory event system) := by
  have later := fun write (member : write ∈ state.system.laterWrites event) =>
    memory_writes ledger tidy step member
  refine
    { accounting := System.step_accounting ledger.accounting step
      flying := System.step_flying ledger.flying tidy.marks step
      memory := ?_
      disk := ?_
      rows := fun id tracked => tracked_lockedRun step ledger.rows tracked
      outstandingRows := ?_
      outstandingPushed := ?_
      known := ?_
      shuffled := afterMemory_shuffled event system ledger.shuffled
      firstOutcome := ?_
      pushIssued := ?_
      pushExecuted := ?_
      bootQueued := fun id standing => System.step_known step (ledger.bootQueued id standing)
      bootGrounded := ledger.bootGrounded
      bootOld := fun id member =>
        Nat.lt_of_lt_of_le (ledger.bootOld id member) (System.step_counter_le step)
      bootOpen := ?_ }
  · intro id
    change system.standing state.boot id = _
    rw [System.step_standing state.boot ledger.accounting ledger.flying tidy step id,
      ledger.memory id]
    unfold afterMemory
    simp only [lastWrite_append, Option.map_or, Option.or_assoc]
  · intro id
    change ((state.system.lockedWrites event).foldl Write.run state.disk).standing id =
      ((lastWrite (state.executed ++ state.system.lockedWrites event) id).map Write.standing).or
        (state.boot.standing id)
    rw [lastWrite_append, Option.map_or, Option.or_assoc, ← ledger.disk id]
    exact lockedRun_standing step state.disk id
  · intro write member
    rcases (mem_afterMemory_outstanding state event system write).mp member with old | new
    · exact mem_lockedRun step (ledger.outstandingRows write old)
    · exact mem_lockedRun step (ledger.rows _ (later write new).2.1)
  · intro write member
    rcases (mem_afterMemory_outstanding state event system write).mp member with old | new
    · exact ledger.outstandingPushed write old
    · exact (later write new).1
  · intro write member
    rcases List.mem_append.mp member with old | new
    · exact System.step_known step (ledger.known write old)
    · rcases List.mem_append.mp new with inserted | updated
      · exact Or.inl (locked_inserts step inserted).2.2
      · exact (later write updated).2.2.1
  · intro id outcome member
    rcases List.mem_append.mp member with old | new
    · exact System.step_outcome ledger.accounting step (ledger.firstOutcome id outcome old)
    · rcases List.mem_append.mp new with inserted | updated
      · have pushed := (locked_inserts step inserted).1
        cases pushed
      · exact (later _ updated).2.2.2 id outcome rfl
  · intro id
    have inserted := pushFirst_locked step (fun _ => ledger.issued_old) (ledger.pushIssued id)
    have updates : ∀ write, write ∈ writesTo (state.system.laterWrites event) id →
        write.isPush = false :=
      fun write member => (later write (mem_writesTo.mp member).1).1
    have first := inserted.append updates
    rw [← writesTo_append, List.append_assoc] at first
    exact first
  · intro id
    exact pushFirst_locked step (fun _ => ledger.executed_old) (ledger.pushExecuted id)
  · intro id tracked ok error finished
    rcases locked_cases step with ⟨_, _, old⟩ | ⟨job, _, _, _, _, either⟩
    · exact ledger.bootOpen id (old id tracked) ok error finished
    · rcases either id tracked with new | old
      · obtain ⟨row, found, _⟩ := Option.map_eq_some_iff.mp finished
        have below := ledger.bootOld id (Finmap.mem_of_lookup_eq_some found)
        exact Nat.ne_of_lt below new
      · exact ledger.bootOpen id old ok error finished

/-! ### The later writes -/

theorem write_ledger (ledger : Ledger state) {operation : Nat} {rest : List Write}
    (found : state.outstanding[operation]? = some (write :: rest)) :
    Ledger (state.afterWrite operation write rest) := by
  have outstanding := mem_flatten_of_found found
  have present := ledger.outstandingRows write outstanding
  refine
    { ledger with
      disk := ?_
      rows := fun id tracked => mem_run state.disk write (ledger.rows id tracked)
      outstandingRows := ?_
      outstandingPushed := ?_
      shuffled := ?_
      pushExecuted := ?_ }
  · intro id
    change (write.run state.disk).standing id =
      ((lastWrite (state.executed ++ [write]) id).map Write.standing).or (state.boot.standing id)
    rw [lastWrite_append, Option.map_or, Option.or_assoc, ← ledger.disk id]
    exact run_standing state.disk write id (Or.inr present)
  · intro other member
    exact mem_run state.disk write (ledger.outstandingRows other (mem_of_mem_set found member))
  · intro other member
    exact ledger.outstandingPushed other (mem_of_mem_set found member)
  · change state.issued.Perm
      ((state.executed ++ [write]) ++ (state.outstanding.set operation rest).flatten)
    rw [List.append_assoc]
    exact ledger.shuffled.trans ((flatten_perm_of_found found).append_left state.executed)
  · intro id
    change PushFirst (writesTo (state.executed ++ [write]) id)
    rw [writesTo_append]
    apply (ledger.pushExecuted id).append
    intro other member
    have same := List.mem_singleton.mp (mem_writesTo.mp member).1
    rw [same]
    exact ledger.outstandingPushed write outstanding

theorem step_ledger {state after : DurableSystem} {event : DurableEvent} (ledger : Ledger state)
    (tidy : state.Tidy event) (step : state.next event = some after) : Ledger after := by
  cases taken_of_next step with
  | memory event system moved => exact memory_ledger ledger tidy moved
  | disk operation write rest found => exact write_ledger ledger found

theorem run_ledger {maxPending : Nat} {table : JobsTable}
    {history : List (DurableSystem × DurableEvent)} {final : DurableSystem}
    (run : Run next (start maxPending table.disk) history final)
    (tidy : Respects Tidy history) : Ledger final := by
  have throughout := run.throughout_of_respects (start_ledger maxPending table)
    (fun _ _ _ ledger allowed step => step_ledger ledger allowed step) tidy
  exact throughout.2

/-! ### Agreement at a quiescent state -/

/-- Every row agrees with memory. -/
structure MirrorsMemory (state : DurableSystem) : Prop where
  queued : ∀ id, state.disk.standing id = some .queued ↔
    id ∈ state.system.queue.tracked ∧ id ∉ state.system.queue.inFlight
  inFlight : ∀ id worker, state.disk.standing id = some (.inFlight (some worker)) ↔
    state.system.queue.inFlight.lookup id = some worker
  finished : ∀ id, (∃ ok error, state.disk.standing id = some (.finished ok error)) ↔
    id ∈ state.system.completed ∨ ∃ ok error, state.boot.standing id = some (.finished ok error)
  outcome : ∀ id outcome, state.system.completed.lookup id = some outcome →
    state.disk.standing id = some (.finished outcome.isOk outcome.message?)

/-- A job of this session stands in exactly one place in memory. -/
theorem Ledger.places (ledger : Ledger state) (id : JobId) :
    (∃ outcome, state.system.completed.lookup id = some outcome ∧
      id ∉ state.system.queue.tracked ∧ id ∉ state.system.queue.inFlight ∧
      state.system.standing state.boot id = some (.finished outcome.isOk outcome.message?)) ∨
    (∃ worker, id ∉ state.system.completed ∧ id ∈ state.system.queue.tracked ∧
      state.system.queue.inFlight.lookup id = some worker ∧
      state.system.standing state.boot id = some (.inFlight (some worker))) ∨
    (id ∉ state.system.completed ∧ id ∈ state.system.queue.tracked ∧
      id ∉ state.system.queue.inFlight ∧
      state.system.standing state.boot id = some .queued) ∨
    (id ∉ state.system.completed ∧ id ∉ state.system.queue.tracked ∧
      id ∉ state.system.queue.inFlight ∧
      state.system.standing state.boot id = state.boot.standing id) := by
  cases first : state.system.completed.lookup id with
  | some outcome =>
      left
      have untracked : id ∉ state.system.queue.tracked := fun tracked =>
        ledger.accounting.apart id tracked (Finmap.mem_of_lookup_eq_some first)
      exact ⟨outcome, rfl, untracked, fun flying => untracked (ledger.flying id flying),
        System.standing_completed _ first⟩
  | none =>
      right
      have uncompleted := Finmap.lookup_eq_none.mp first
      by_cases tracked : id ∈ state.system.queue.tracked
      · cases flying : state.system.queue.inFlight.lookup id with
        | some worker =>
            left
            exact ⟨worker, uncompleted, tracked, rfl,
              System.standing_flying _ uncompleted tracked flying⟩
        | none =>
            right
            left
            have grounded := Finmap.lookup_eq_none.mp flying
            exact ⟨uncompleted, tracked, grounded,
              System.standing_waiting _ uncompleted tracked grounded⟩
      · right
        right
        exact ⟨uncompleted, tracked, fun flying => tracked (ledger.flying id flying),
          System.standing_unknown _ uncompleted tracked⟩

/-- A row the session never wrote is finished, or there is none. -/
theorem Ledger.boot_cases (ledger : Ledger state) {id : JobId}
    (uncompleted : id ∉ state.system.completed) (untracked : id ∉ state.system.queue.tracked) :
    state.boot.standing id = none ∨
      ∃ ok error, state.boot.standing id = some (.finished ok error) := by
  cases standing : state.boot.standing id with
  | none => exact Or.inl rfl
  | some found =>
      cases found with
      | queued =>
          rcases ledger.bootQueued id standing with tracked | completed
          · exact absurd tracked untracked
          · exact absurd completed uncompleted
      | inFlight worker => exact absurd standing (ledger.bootGrounded id worker)
      | finished ok error => exact Or.inr ⟨ok, error, rfl⟩

theorem mirrors_of_standing (ledger : Ledger state)
    (same : ∀ id, state.disk.standing id = state.system.standing state.boot id) :
    state.MirrorsMemory := by
  constructor
  · intro id
    rw [same id]
    rcases ledger.places id with ⟨outcome, _, untracked, _, stands⟩ |
      ⟨worker, _, _, flying, stands⟩ | ⟨_, tracked, grounded, stands⟩ |
      ⟨uncompleted, untracked, _, stands⟩
    · simp [stands, untracked]
    · simp [stands, Finmap.mem_of_lookup_eq_some flying]
    · simp [stands, tracked, grounded]
    · rcases ledger.boot_cases uncompleted untracked with none | ⟨ok, error, finished⟩
      · simp [stands, none, untracked]
      · simp [stands, finished, untracked]
  · intro id worker
    rw [same id]
    rcases ledger.places id with ⟨outcome, _, _, grounded, stands⟩ |
      ⟨other, _, _, flying, stands⟩ | ⟨_, _, grounded, stands⟩ |
      ⟨uncompleted, untracked, grounded, stands⟩
    · simp [stands, Finmap.lookup_eq_none.mpr grounded]
    · simp [stands, flying]
    · simp [stands, Finmap.lookup_eq_none.mpr grounded]
    · rcases ledger.boot_cases uncompleted untracked with none | ⟨ok, error, finished⟩
      · simp [stands, none, Finmap.lookup_eq_none.mpr grounded]
      · simp [stands, finished, Finmap.lookup_eq_none.mpr grounded]
  · intro id
    rw [same id]
    rcases ledger.places id with ⟨outcome, first, _, _, stands⟩ |
      ⟨worker, uncompleted, tracked, flying, stands⟩ | ⟨uncompleted, tracked, _, stands⟩ |
      ⟨uncompleted, untracked, _, stands⟩
    · simp [stands, Finmap.mem_of_lookup_eq_some first]
    · have stillOpen := ledger.bootOpen id tracked
      simp [stands, uncompleted, stillOpen]
    · have stillOpen := ledger.bootOpen id tracked
      simp [stands, uncompleted, stillOpen]
    · simp [stands, uncompleted]
  · intro id outcome first
    rw [same id]
    exact System.standing_completed _ first

theorem standing_of_mirrors (ledger : Ledger state) (mirrors : state.MirrorsMemory) {id : JobId}
    (known : id ∈ state.system.queue.tracked ∨ id ∈ state.system.completed) :
    state.disk.standing id = state.system.standing state.boot id := by
  rcases ledger.places id with ⟨outcome, first, _, _, stands⟩ |
    ⟨worker, _, _, flying, stands⟩ | ⟨_, tracked, grounded, stands⟩ |
    ⟨uncompleted, untracked, _, _⟩
  · rw [stands]
    exact mirrors.outcome id outcome first
  · rw [stands]
    exact (mirrors.inFlight id worker).mpr flying
  · rw [stands]
    exact (mirrors.queued id).mpr ⟨tracked, grounded⟩
  · rcases known with tracked | completed
    · exact absurd tracked untracked
    · exact absurd completed uncompleted

/-- Two writes of a session to one row that leave it alike are the same write,
insertions apart. -/
theorem write_of_standing (ledger : Ledger state)
    {first second : Write} (one : first ∈ state.issued) (other : second ∈ state.issued)
    (row : first.key = second.key) (alike : first.standing = second.standing)
    (updates : first.isPush = false ∧ second.isPush = false) : first = second := by
  cases first with
  | push id job => cases updates.1
  | markInFlight id worker =>
      cases second with
      | markInFlight later name =>
          cases row
          cases alike
          rfl
      | _ => cases alike
  | requeue id =>
      cases second with
      | requeue later =>
          cases row
          rfl
      | push later job => cases updates.2
      | _ => cases alike
  | markDone id outcome =>
      cases second with
      | markDone later last =>
          cases row
          have kept := ledger.firstOutcome id outcome one
          rw [ledger.firstOutcome id last other] at kept
          cases kept
          rfl
      | _ => cases alike

/-- In a tidy run the table agrees with memory at a quiescent state exactly when
the write that reached each row last is the one issued last for it. -/
theorem mirrors_iff_lastWrites {maxPending : Nat} {table : JobsTable}
    {history : List (DurableSystem × DurableEvent)} {final : DurableSystem}
    (run : Run next (start maxPending table.disk) history final)
    (tidy : Respects Tidy history) (quiescent : final.Quiescent) :
    final.MirrorsMemory ↔
      ∀ id, lastWrite final.executed id = lastWrite final.issued id := by
  have ledger := run_ledger run tidy
  have shuffled : final.issued.Perm final.executed := by
    have spread := ledger.shuffled
    rw [quiescent, List.append_nil] at spread
    exact spread
  constructor
  · intro mirrors id
    cases lastIssued : lastWrite final.issued id with
    | none => exact lastWrite_eq_none_of_perm shuffled lastIssued
    | some issued =>
        obtain ⟨issuedMember, issuedKey⟩ := lastWrite_mem lastIssued
        have agree := standing_of_mirrors ledger mirrors (ledger.known issued issuedMember)
        rw [issuedKey, ledger.disk id, ledger.memory id, lastIssued] at agree
        cases lastExecuted : lastWrite final.executed id with
        | none =>
            have silent := lastWrite_eq_none_of_perm shuffled.symm lastExecuted
            rw [lastIssued] at silent
            cases silent
        | some executed =>
            rw [lastExecuted] at agree
            simp only [Option.map_some, Option.some_or, Option.some.injEq] at agree
            obtain ⟨executedMember, executedKey⟩ := lastWrite_mem lastExecuted
            -- An insertion that comes last in one order is the only write of the row.
            cases pushedLast : executed.isPush with
            | true =>
                have alone := (ledger.pushExecuted id).alone lastExecuted pushedLast
                exact (lastWrite_of_alone shuffled.symm alone).symm.trans lastIssued
            | false =>
                cases pushedIssued : issued.isPush with
                | true =>
                    have alone := (ledger.pushIssued id).alone lastIssued pushedIssued
                    exact lastExecuted.symm.trans (lastWrite_of_alone shuffled alone)
                | false =>
                    rw [write_of_standing ledger (shuffled.mem_iff.mpr executedMember)
                      issuedMember (executedKey.trans issuedKey.symm) agree
                      ⟨pushedLast, pushedIssued⟩]
  · intro sameLast
    apply mirrors_of_standing ledger
    intro id
    rw [ledger.disk id, ledger.memory id, sameLast id]

/-- One job whose disk steps follow its operations. -/
def orderlyTrace : List DurableEvent :=
  [.memory (.submit (.ingest "notes.md" "shard") none), .memory .nextPending,
    .memory (.dispatchOk "md-ingest-worker"), .memory .markAssigned, .disk 3,
    .memory (.workerComplete 1 (.ok none 0 .null)), .disk 4]

theorem mirrors_iff_lastWrites_orderly :
    ∃ history final, Run next (start 16 JobsTable.empty.disk) history final ∧
      (final.MirrorsMemory ↔
        ∀ id, lastWrite final.executed id = lastWrite final.issued id) := by
  obtain ⟨history, final, run, _, passed⟩ := Run.of_trace next
    (start 16 JobsTable.empty.disk) orderlyTrace
    (fun history state => decide (Respects Tidy history ∧ state.outstanding.flatten.length = 0))
    (by decide)
  obtain ⟨tidy, empty⟩ := of_decide_eq_true passed
  have quiescent : final.Quiescent := List.length_eq_zero_iff.mp empty
  exact ⟨history, final, run, mirrors_iff_lastWrites run tidy quiescent⟩

/-- The worker's report is written before the router's mark, which took the
lock first. -/
def overtakenWriteTrace : List DurableEvent :=
  [.memory (.submit (.ingest "notes.md" "shard") none), .memory .nextPending,
    .memory (.dispatchOk "md-ingest-worker"), .memory .markAssigned,
    .memory (.workerComplete 1 (.ok none 0 .null)), .disk 4, .disk 3]

theorem overtaken_write_disagrees :
    ¬ ∀ state, Reachable next (start 16 JobsTable.empty.disk) state →
        state.Quiescent → state.MirrorsMemory := by
  intro always
  obtain ⟨history, final, run, _, passed⟩ := Run.of_trace next
    (start 16 JobsTable.empty.disk) overtakenWriteTrace
    (fun _ state => decide (state.outstanding.flatten.length = 0 ∧
      state.disk.standing 1 = some (.inFlight (some "md-ingest-worker")) ∧
      1 ∉ state.system.queue.inFlight)) (by decide)
  obtain ⟨empty, stale, grounded⟩ := of_decide_eq_true passed
  have mirrors := always final ⟨history, run⟩ (List.length_eq_zero_iff.mp empty)
  have flying := (mirrors.inFlight 1 "md-ingest-worker").mp stale
  exact grounded (Finmap.mem_of_lookup_eq_some flying)

end DurableSystem

end Mneme.Supervisor
