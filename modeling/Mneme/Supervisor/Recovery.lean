/-
What a supervisor finds after a crash.

Memory is lost with the process and the table stays, so reopening is the boot
path run over the table of any reachable state, between any two writes.
-/

import Mneme.Supervisor.DurableMirror

namespace Mneme.Supervisor

open Common Transition

namespace DurableSystem

/-! ### What the table keeps, whatever the order of the steps -/

/-- A row that a restart puts back into the queue. -/
def Open (row : Row) : Prop :=
  row.state = .queued ∨ row.state = .inFlight

/-- Holds in every reachable state. -/
structure Kept (state : DurableSystem) : Prop where
  accounting : System.Accounting state.system
  rowsOld : ∀ id, id ∈ state.disk.rows → id < state.system.counter
  outstandingOld : ∀ write, write ∈ state.outstanding.flatten →
    write.key < state.system.counter ∧ write.isPush = false
  outstandingDone : ∀ id outcome, .markDone id outcome ∈ state.outstanding.flatten →
    id ∈ state.system.completed
  uncompleted : ∀ id job, (id, job) ∈ state.system.accepted → id ∉ state.system.completed →
    ∃ row, state.disk.rows.lookup id = some row ∧ Job.ofJson row.payload = some job ∧ Open row
  decodable : ∀ id row, state.disk.rows.lookup id = some row →
    ∃ job, Job.ofJson row.payload = some job

variable {disk : DurableJobQueue}

variable {after row : Row}

theorem update_row {key id : JobId} {change : Row → Row}
    (found : (disk.update key change).rows.lookup id = some after)
    (payload : ∀ row, (change row).payload = row.payload) :
    ∃ row, disk.rows.lookup id = some row ∧ after.payload = row.payload ∧
      (after = row ∨ (id = key ∧ after = change row)) := by
  rw [DurableJobQueue.lookup_update] at found
  by_cases same : id = key
  · rw [if_pos same] at found
    obtain ⟨row, held, changed⟩ := Option.map_eq_some_iff.mp found
    rw [← changed]
    exact ⟨row, held, payload row, Or.inr ⟨same, rfl⟩⟩
  · rw [if_neg same] at found
    exact ⟨after, found, rfl, Or.inl rfl⟩

variable {id : JobId} {write : Write}

/-- An update keeps every payload, and closes only the row it marks done. -/
theorem run_row
    (updates : write.isPush = false) (found : (write.run disk).rows.lookup id = some after) :
    ∃ row, disk.rows.lookup id = some row ∧ after.payload = row.payload ∧
      ((∀ outcome, write ≠ .markDone id outcome) → Open row → Open after) := by
  cases write with
  | push key job => cases updates
  | markInFlight key worker =>
      obtain ⟨row, held, payload, either⟩ := update_row found (fun row => rfl)
      refine ⟨row, held, payload, ?_⟩
      intro _ opened
      rcases either with same | ⟨_, changed⟩
      · rw [same]
        exact opened
      · rw [changed]
        exact Or.inr rfl
  | requeue key =>
      obtain ⟨row, held, payload, either⟩ := update_row found (fun row => rfl)
      refine ⟨row, held, payload, ?_⟩
      intro _ opened
      rcases either with same | ⟨_, changed⟩
      · rw [same]
        exact opened
      · rw [changed]
        exact Or.inl rfl
  | markDone key outcome =>
      obtain ⟨row, held, payload, either⟩ := update_row found (fun row => rfl)
      refine ⟨row, held, payload, ?_⟩
      intro notDone opened
      rcases either with same | ⟨key, _⟩
      · rw [same]
        exact opened
      · subst key
        exact absurd rfl (notDone outcome)

theorem start_kept (maxPending : Nat) (table : JobsTable) : Kept (start maxPending table.disk) := by
  refine
    { accounting := start_accounting maxPending table.disk
      rowsOld := ?_
      outstandingOld := fun write member => absurd member List.not_mem_nil
      outstandingDone := fun id outcome member => absurd member List.not_mem_nil
      uncompleted := ?_
      decodable := ?_ }
  · intro id member
    exact lt_start_counter maxPending table.disk
      ((DurableJobQueue.mem_requeueAllInFlight _ _).mp member)
  · intro id job accepted _
    obtain ⟨recovered, member, same⟩ := List.mem_map.mp accepted
    cases same
    rw [DurableJobQueue.mem_recoverQueued] at member
    obtain ⟨row, found, read⟩ := Option.bind_eq_some_iff.mp member
    by_cases queued : row.state = .queued
    · rw [if_pos queued] at read
      obtain ⟨job, decoded, built⟩ := Option.map_eq_some_iff.mp read
      rw [← built] at found ⊢
      exact ⟨row, found, decoded, Or.inl queued⟩
    · rw [if_neg queued] at read
      cases read
  · intro id row found
    obtain ⟨_, before, held, payload, _⟩ := DurableJobQueue.lookup_recovering found
    rw [payload]
    exact table.decodable id before held

variable {event : Event}

/-- Every write an operation leaves for later updates the row of a job the
queue has minted, and finishes it only if memory has. -/
theorem later_kept {before after : System} (accounting : System.Accounting before)
    (step : before.next event = some after) (member : write ∈ before.laterWrites event) :
    write.key < before.counter ∧ write.isPush = false ∧
      ∀ id outcome, write = .markDone id outcome → id ∈ after.completed := by
  have finishing : ∀ done outcome, done ∈ before.queue.tracked →
      done ∈ (before.complete done outcome).completed :=
    fun done outcome tracked => (System.mem_complete_completed _ _ _ _).mpr (Or.inr ⟨rfl, tracked⟩)
  cases left_of_mem member with
  | failed error id job router tracked =>
      simp only [System.next, router, Option.some.injEq] at step
      refine ⟨accounting.trackedOld id tracked, rfl, ?_⟩
      intro other outcome same
      cases same
      rw [← step]
      exact finishing id _ tracked
  | completed id outcome tracked =>
      simp only [System.next, Option.some.injEq] at step
      refine ⟨accounting.trackedOld id tracked, rfl, ?_⟩
      intro other last same
      cases same
      rw [← step]
      exact finishing id _ tracked
  | marked id worker router =>
      refine ⟨accounting.heldOld id ?_, rfl, by simp⟩
      rw [router]
      rfl
  | returned id job router =>
      refine ⟨accounting.heldOld id ?_, rfl, by simp⟩
      rw [router]
      rfl
  | requeued worker ids id walked =>
      by_cases order : before.queue.RequeueOrder worker ids
      · refine ⟨accounting.inFlightOld id ?_, rfl, by simp⟩
        exact Finmap.mem_of_lookup_eq_some ((order.mem_iff id).mp walked)
      · simp only [System.next, order, if_false, reduceCtorEq] at step

variable {system : System}

/-- What an operation does to the table under the lock: nothing, or the
insertion of a fresh row for the job it accepts. -/
theorem afterMemory_disk {state : DurableSystem} (step : state.system.next event = some system) :
    ((state.afterMemory event system).disk = state.disk ∧
      system.accepted = state.system.accepted) ∨
    ∃ job, (state.afterMemory event system).disk = state.disk.push state.system.counter job ∧
      system.accepted = state.system.accepted ++ [(state.system.counter, job)] ∧
      system.counter = state.system.counter + 1 := by
  unfold afterMemory
  dsimp only
  rcases locked_cases step with ⟨silent, same, _⟩ | ⟨job, pushed, extended, moved, _⟩
  · left
    rw [silent]
    exact ⟨rfl, same⟩
  · right
    rw [pushed]
    exact ⟨job, rfl, extended, moved⟩

variable {job : Job}

theorem accepted_old {state : System} (accounting : System.Accounting state)
    (member : (id, job) ∈ state.accepted) : id < state.counter := by
  rcases (accounting.accepted id).mp (List.mem_map_of_mem member) with tracked | done
  · exact accounting.trackedOld id tracked
  · exact accounting.completedOld id done

theorem memory_kept {state : DurableSystem} (kept : Kept state)
    (step : state.system.next event = some system) : Kept (state.afterMemory event system) := by
  have counter := System.step_counter_le step
  have completed : ∀ id, id ∈ state.system.completed → id ∈ system.completed :=
    fun id old => System.step_completed step old
  have later := fun write (member : write ∈ state.system.laterWrites event) =>
    later_kept kept.accounting step member
  refine
    { accounting := System.step_accounting kept.accounting step
      rowsOld := ?_
      outstandingOld := ?_
      outstandingDone := ?_
      uncompleted := ?_
      decodable := ?_ }
  · intro id member
    change id < system.counter
    rcases afterMemory_disk step with ⟨same, _⟩ | ⟨job, pushed, _, moved⟩
    · rw [same] at member
      exact Nat.lt_of_lt_of_le (kept.rowsOld id member) counter
    · rw [pushed] at member
      rw [moved]
      rcases Finmap.mem_insert.mp member with new | before
      · rw [new]
        exact Nat.lt_succ_self _
      · exact Nat.lt_succ_of_lt (kept.rowsOld id before)
  · intro write member
    rcases (mem_afterMemory_outstanding state event system write).mp member with before | new
    · have bound := kept.outstandingOld write before
      exact ⟨Nat.lt_of_lt_of_le bound.1 counter, bound.2⟩
    · have bound := later write new
      exact ⟨Nat.lt_of_lt_of_le bound.1 counter, bound.2.1⟩
  · intro id outcome member
    rcases (mem_afterMemory_outstanding state event system _).mp member with before | new
    · exact completed id (kept.outstandingDone id outcome before)
    · exact (later _ new).2.2 id outcome rfl
  · intro id accepted member uncompleted
    change (id, accepted) ∈ system.accepted at member
    have stillOpen : id ∉ state.system.completed := fun done => uncompleted (completed id done)
    rcases afterMemory_disk step with ⟨same, sameAccepted⟩ | ⟨job, pushed, extended, _⟩
    · rw [same]
      rw [sameAccepted] at member
      exact kept.uncompleted id accepted member stillOpen
    · rw [pushed, DurableJobQueue.lookup_push]
      rw [extended, List.mem_append, List.mem_singleton] at member
      rcases member with before | new
      · rw [if_neg (Nat.ne_of_lt (accepted_old kept.accounting before))]
        exact kept.uncompleted id accepted before stillOpen
      · cases new
        rw [if_pos rfl]
        exact ⟨_, rfl, Job.ofJson_toJson accepted, Or.inl rfl⟩
  · intro id row found
    rcases afterMemory_disk step with ⟨same, _⟩ | ⟨job, pushed, _⟩
    · rw [same] at found
      exact kept.decodable id row found
    · rw [pushed, DurableJobQueue.lookup_push] at found
      by_cases new : id = state.system.counter
      · rw [if_pos new] at found
        cases found
        exact ⟨job, Job.ofJson_toJson job⟩
      · rw [if_neg new] at found
        exact kept.decodable id row found

variable {operation maxPending : Nat}

theorem write_kept {state : DurableSystem} (kept : Kept state)
    {rest : List Write} (found : state.outstanding[operation]? = some (write :: rest)) :
    Kept (state.afterWrite operation write rest) := by
  have outstanding := mem_flatten_of_found found
  have updates := (kept.outstandingOld write outstanding).2
  have rowOf : ∀ id row, (write.run state.disk).rows.lookup id = some row →
      ∃ before, state.disk.rows.lookup id = some before ∧ row.payload = before.payload ∧
        ((∀ outcome, write ≠ .markDone id outcome) → Open before → Open row) :=
    fun id row held => run_row updates held
  refine
    { accounting := kept.accounting
      rowsOld := ?_
      outstandingOld := fun other member => kept.outstandingOld other (mem_of_mem_set found member)
      outstandingDone := fun id outcome member =>
        kept.outstandingDone id outcome (mem_of_mem_set found member)
      uncompleted := ?_
      decodable := ?_ }
  · intro id member
    obtain ⟨row, held⟩ := Finmap.mem_iff.mp member
    obtain ⟨before, earlier, _⟩ := rowOf id row held
    exact kept.rowsOld id (Finmap.mem_of_lookup_eq_some earlier)
  · intro id job accepted uncompleted
    obtain ⟨before, earlier, decoded, opened⟩ := kept.uncompleted id job accepted uncompleted
    obtain ⟨row, held⟩ := Finmap.mem_iff.mp
      (mem_run state.disk write (Finmap.mem_of_lookup_eq_some earlier))
    obtain ⟨other, same, payload, stays⟩ := rowOf id row held
    rw [earlier] at same
    cases same
    refine ⟨row, held, by rw [payload]; exact decoded, stays ?_ opened⟩
    intro outcome done
    subst done
    exact uncompleted (kept.outstandingDone id outcome outstanding)
  · intro id row held
    obtain ⟨before, earlier, payload, _⟩ := rowOf id row held
    rw [payload]
    exact kept.decodable id before earlier

theorem reachable_kept {table : JobsTable} {state : DurableSystem}
    (reachable : Reachable next (start maxPending table.disk) state) : Kept state := by
  refine reachable.invariant (start_kept maxPending table) ?_
  intro state event after kept step
  cases taken_of_next step with
  | memory event system moved => exact memory_kept kept moved
  | disk operation write rest found => exact write_kept kept found

/-- The table of a reachable state is one a supervisor may boot from. -/
def Kept.table {state : DurableSystem} (kept : Kept state) : JobsTable :=
  { disk := state.disk
    decodable := kept.decodable }

/-! ### What the table forgets when the writes come in order -/

/-- No write of an earlier operation to the same row is still outstanding. -/
def InOrder (state : DurableSystem) : DurableEvent → Prop
  | .memory _ => True
  | .disk operation =>
      ∀ write ∈ (state.outstanding[operation]?.getD []).head?,
        ∀ task ∈ state.outstanding.take operation, ∀ other ∈ task, other.key ≠ write.key

instance (state : DurableSystem) (event : DurableEvent) : Decidable (state.InOrder event) :=
  match event with
  | .memory _ => .isTrue trivial
  | .disk operation =>
      inferInstanceAs (Decidable (∀ write ∈ (state.outstanding[operation]?.getD []).head?,
        ∀ task ∈ state.outstanding.take operation, ∀ other ∈ task, other.key ≠ write.key))

/-- The steps that keep finished jobs finished: a tidy router, and disk steps
in the order of the operations on each job. -/
def Orderly (state : DurableSystem) (event : DurableEvent) : Prop :=
  state.Tidy event ∧ state.InOrder event

instance (state : DurableSystem) (event : DurableEvent) : Decidable (state.Orderly event) :=
  inferInstanceAs (Decidable (_ ∧ _))

/-- Along an orderly run the table receives the writes of each job in the order
they were issued, and nothing follows the one that finishes the job. -/
structure Sequenced (state : DurableSystem) : Prop where
  ledger : Ledger state
  fifo : ∀ id, writesTo state.issued id =
    writesTo state.executed id ++ writesTo state.outstanding.flatten id
  doneLast : ∀ id outcome, .markDone id outcome ∉ (writesTo state.issued id).dropLast

theorem start_sequenced (maxPending : Nat) (table : JobsTable) :
    Sequenced (start maxPending table.disk) := by
  refine ⟨start_ledger maxPending table, fun id => rfl, ?_⟩
  intro id outcome member
  cases member

/-- The writes of one operation to the row of a job it finishes. -/
theorem later_done {state : System} {outcome : JobOutcome}
    (member : .markDone id outcome ∈ state.laterWrites event) :
    state.lockedWrites event ++ state.laterWrites event = [.markDone id outcome] := by
  have writes := left_of_mem member
  cases writes with
  | failed error _ job router tracked =>
      simp only [System.lockedWrites, System.laterWrites, router, completeWrites_eq, if_pos tracked,
        List.nil_append]
  | completed _ _ tracked =>
      simp only [System.lockedWrites, System.laterWrites, completeWrites_eq, if_pos tracked,
        List.nil_append]

theorem finished_unwritten {state : DurableSystem} (ledger : Ledger state)
    (tidy : state.system.RouterTidy event) (step : state.system.next event = some system)
    (done : id ∈ state.system.completed) :
    writesTo (state.system.lockedWrites event ++ state.system.laterWrites event) id = [] := by
  rw [List.eq_nil_iff_forall_not_mem]
  intro write member
  obtain ⟨present, key⟩ := mem_writesTo.mp member
  rcases List.mem_append.mp present with inserted | updated
  · have fresh := (locked_inserts step inserted).2.1
    exact Nat.ne_of_lt (ledger.accounting.completedOld id done) (key.symm.trans fresh)
  · have tracked := (memory_writes ledger tidy step updated).2.1
    rw [key] at tracked
    exact ledger.accounting.apart id tracked done

theorem operation_doneLast {state after : System}
    (step : state.next event = some after) (id : JobId) (outcome : JobOutcome) :
    .markDone id outcome ∉
      (writesTo (state.lockedWrites event ++ state.laterWrites event) id).dropLast := by
  intro member
  have present := (mem_writesTo.mp (List.mem_of_mem_dropLast member)).1
  rcases List.mem_append.mp present with inserted | updated
  · have pushed := (locked_inserts step inserted).1
    cases pushed
  · rw [later_done updated] at member
    simp [writesTo, Write.key] at member

theorem memory_sequenced {state : DurableSystem} (sequenced : Sequenced state)
    (tidy : state.Tidy (.memory event)) (step : state.system.next event = some system) :
    Sequenced (state.afterMemory event system) := by
  have ledger := sequenced.ledger
  have taken : state.next (.memory event) = some (state.afterMemory event system) := by
    simp only [next, step, Option.map_some]
  refine ⟨step_ledger ledger tidy taken, ?_, ?_⟩
  · intro id
    change writesTo (state.issued ++ (state.system.lockedWrites event ++
        state.system.laterWrites event)) id =
      writesTo (state.executed ++ state.system.lockedWrites event) id ++
        writesTo (state.outstanding ++ [state.system.laterWrites event]).flatten id
    have swapped : writesTo state.outstanding.flatten id ++
        writesTo (state.system.lockedWrites event) id =
        writesTo (state.system.lockedWrites event) id ++
          writesTo state.outstanding.flatten id := by
      rcases locked_apart step (fun _ => ledger.outstanding_old) id with none | none
      · rw [none, List.append_nil, List.nil_append]
      · rw [none, List.append_nil, List.nil_append]
    simp only [List.flatten_append, List.flatten_cons, List.flatten_nil, List.append_nil,
      writesTo_append, sequenced.fifo id, List.append_assoc]
    rw [← List.append_assoc (writesTo state.outstanding.flatten id), swapped, List.append_assoc]
  · intro id outcome member
    change .markDone id outcome ∈ (writesTo (state.issued ++
      (state.system.lockedWrites event ++ state.system.laterWrites event)) id).dropLast at member
    rw [writesTo_append] at member
    by_cases silent : writesTo (state.system.lockedWrites event ++
        state.system.laterWrites event) id = []
    · rw [silent, List.append_nil] at member
      exact sequenced.doneLast id outcome member
    · rw [List.dropLast_append_of_ne_nil silent, List.mem_append] at member
      rcases member with before | new
      · have completed := ledger.firstOutcome id outcome (mem_writesTo.mp before).1
        exact silent (finished_unwritten ledger tidy step
          (Finmap.mem_of_lookup_eq_some completed))
      · exact operation_doneLast step id outcome new

theorem write_sequenced {state : DurableSystem} (sequenced : Sequenced state)
    {rest : List Write} (ordered : state.InOrder (.disk operation))
    (found : state.outstanding[operation]? = some (write :: rest)) :
    Sequenced (state.afterWrite operation write rest) := by
  have taken : state.next (.disk operation) = some (state.afterWrite operation write rest) := by
    simp only [next, found]
  have tidy : state.Tidy (.disk operation) := trivial
  refine ⟨step_ledger sequenced.ledger tidy taken, ?_, sequenced.doneLast⟩
  intro id
  have inBounds : operation < state.outstanding.length :=
    (List.getElem?_eq_some_iff.mp found).1
  have at_ : state.outstanding[operation] = write :: rest :=
    (List.getElem?_eq_some_iff.mp found).2
  have before : state.outstanding = state.outstanding.take operation ++
      (write :: rest) :: state.outstanding.drop (operation + 1) := by
    rw [← at_, List.getElem_cons_drop, List.take_append_drop]
  have after : state.outstanding.set operation rest = state.outstanding.take operation ++
      rest :: state.outstanding.drop (operation + 1) :=
    List.set_eq_take_append_cons_drop.trans (if_pos inBounds)
  have earlier : writesTo (state.outstanding.take operation).flatten write.key = [] := by
    rw [List.eq_nil_iff_forall_not_mem]
    intro other member
    obtain ⟨present, key⟩ := mem_writesTo.mp member
    obtain ⟨task, listed, inTask⟩ := List.mem_flatten.mp present
    refine ordered write ?_ task listed other inTask key
    rw [found]
    rfl
  change writesTo state.issued id = writesTo (state.executed ++ [write]) id ++
    writesTo (state.outstanding.set operation rest).flatten id
  have first : state.outstanding.flatten = (state.outstanding.take operation).flatten ++
      ([write] ++ (rest ++ (state.outstanding.drop (operation + 1)).flatten)) := by
    conv_lhs => rw [before]
    simp
  have second : (state.outstanding.set operation rest).flatten =
      (state.outstanding.take operation).flatten ++
        (rest ++ (state.outstanding.drop (operation + 1)).flatten) := by
    rw [after]
    simp
  rw [sequenced.fifo id, first, second]
  simp only [writesTo_append, List.append_assoc]
  by_cases same : write.key = id
  · rw [← same, earlier, List.nil_append, List.nil_append]
  · have other : writesTo [write] id = [] := by
      simp [writesTo, same]
    rw [other, List.nil_append, List.nil_append]

theorem run_sequenced {table : JobsTable}
    {history : List (DurableSystem × DurableEvent)} {final : DurableSystem}
    (run : Run next (start maxPending table.disk) history final)
    (orderly : Respects Orderly history) : Sequenced final := by
  have preserved : ∀ state event after, Sequenced state → state.Orderly event →
      state.next event = some after → Sequenced after := by
    intro state event after sequenced allowed step
    cases taken_of_next step with
    | memory event system moved => exact memory_sequenced sequenced allowed.1 moved
    | disk operation write rest found => exact write_sequenced sequenced allowed.2 found
  exact (run.throughout_of_respects (start_sequenced maxPending table) preserved orderly).2

theorem Sequenced.finished {state : DurableSystem} (sequenced : Sequenced state)
    {outcome : JobOutcome} (done : .markDone id outcome ∈ state.executed) :
    state.disk.standing id = some (.finished outcome.isOk outcome.message?) := by
  have executed : .markDone id outcome ∈ writesTo state.executed id :=
    mem_writesTo.mpr ⟨done, rfl⟩
  have last := sequenced.doneLast id outcome
  rw [sequenced.fifo id] at last
  have silent : writesTo state.outstanding.flatten id = [] := by
    by_contra more
    rw [List.dropLast_append_of_ne_nil more] at last
    exact last (List.mem_append_left _ executed)
  rw [silent, List.append_nil] at last
  have nonempty := List.ne_nil_of_mem executed
  have split := List.dropLast_append_getLast nonempty
  rw [← split, List.mem_append, List.mem_singleton] at executed
  have final := executed.resolve_left last
  rw [sequenced.ledger.disk id]
  unfold lastWrite
  rw [List.getLast?_eq_getLast_of_ne_nil nonempty, ← final]
  rfl

theorem finished_notPending (limit : Nat) {ok : Bool}
    {error : Option String} (finished : disk.standing id = some (.finished ok error)) :
    id ∉ (start limit disk).system.queue.pending := by
  intro member
  rw [start_pending] at member
  obtain ⟨recovered, read, same⟩ := List.mem_map.mp member
  subst same
  rw [DurableJobQueue.mem_recoverQueued] at read
  obtain ⟨row, found, decoded⟩ := Option.bind_eq_some_iff.mp read
  obtain ⟨_, before, held, _, origin⟩ := DurableJobQueue.lookup_recovering found
  unfold DurableJobQueue.standing at finished
  rw [held, Option.map_some, Option.some.injEq] at finished
  by_cases queued : row.state = .queued
  · rcases origin.mp queued with waiting | flying
    · rw [Row.standing, waiting] at finished
      cases finished
    · rw [Row.standing, flying] at finished
      cases finished
  · rw [if_neg queued] at decoded
    cases decoded

/-- Recovery queues an open row again. -/
theorem open_flipped
    (found : disk.rows.lookup id = some row) (decoded : Job.ofJson row.payload = some job)
    (opened : Open row) :
    ∃ after, disk.requeueAllInFlight.rows.lookup id = some after ∧ after.state = .queued ∧
      Job.ofJson after.payload = some job := by
  have flipped : disk.requeueAllInFlight.rows.lookup id = some (DurableJobQueue.flip row) := by
    rw [DurableJobQueue.lookup_requeueAllInFlight, found]
    rfl
  obtain ⟨_, before, held, payload, origin⟩ := DurableJobQueue.lookup_recovering flipped
  rw [found] at held
  cases held
  exact ⟨_, flipped, origin.mpr opened, by rw [payload]; exact decoded⟩

theorem open_recovered (limit : Nat)
    (found : disk.rows.lookup id = some row) (decoded : Job.ofJson row.payload = some job)
    (opened : Open row) :
    (start limit disk).system.queue.pending.count id = 1 ∧
      (start limit disk).system.queue.tracked.lookup id =
        some { job := job, assignedTo := none, waker := none } := by
  obtain ⟨_, flipped, queued, read⟩ := open_flipped found decoded opened
  exact (start_recovers limit disk flipped queued read).symm

/-- The supervisor dies while a worker has its only job. -/
def crashTrace : List DurableEvent :=
  [.memory (.submit (.ingest "notes.md" "shard") (some 7)), .memory .nextPending,
    .memory (.dispatchOk "md-ingest-worker"), .memory .markAssigned, .disk 3]

/-- The later supervisor booted from the table that the earlier one left. -/
def Relaunch (before after : DurableSystem) : Prop :=
  ∃ limit, Reachable next (start limit before.disk) after

theorem reachable_accepted {first last : DurableSystem} (reachable : Reachable next first last)
    {pair : JobId × Job} (accepted : pair ∈ first.system.accepted) :
    pair ∈ last.system.accepted := by
  obtain ⟨history, run⟩ := reachable
  induction run with
  | start => exact accepted
  | step _ step ih =>
      cases taken_of_next step with
      | disk operation write rest found => exact ih
      | memory event system moved =>
          change pair ∈ system.accepted
          rcases locked_cases moved with ⟨_, same, _⟩ | ⟨_, _, extended, _⟩
          · rw [same]
            exact ih
          · rw [extended]
            exact List.mem_append_left _ ih

theorem open_accepted (limit : Nat)
    (found : disk.rows.lookup id = some row) (decoded : Job.ofJson row.payload = some job)
    (opened : Open row) : (id, job) ∈ (start limit disk).system.accepted := by
  obtain ⟨_, flipped, queued, read⟩ := open_flipped found decoded opened
  have read := DurableJobQueue.recoverRow_eq_some flipped queued read
  exact List.mem_map.mpr ⟨RecoveredJob.mk id job _, DurableJobQueue.mem_recoverQueued.mpr read, rfl⟩

/-- However often the supervisor crashes and boots again, a job that one life accepted and none
completed is pending exactly once after the next boot. -/
theorem restarts_keep_jobs (limit : Nat) {table : JobsTable}
    {first : DurableSystem} {lives : List DurableSystem}
    (reachable : Reachable next (start maxPending table.disk) first)
    (chain : List.IsChain Relaunch (first :: lives)) (accepted : (id, job) ∈ first.system.accepted)
    (uncompleted : ∀ life ∈ first :: lives, id ∉ life.system.completed) :
    let queue := (start limit ((first :: lives).getLast (List.cons_ne_nil _ _)).disk).system.queue
    queue.pending.count id = 1 ∧
      queue.tracked.lookup id = some { job := job, assignedTo := none, waker := none } := by
  induction lives generalizing first maxPending table with
  | nil =>
      obtain ⟨row, found, decoded, opened⟩ := (reachable_kept reachable).uncompleted id job accepted
        (uncompleted first List.mem_cons_self)
      exact open_recovered limit found decoded opened
  | cons life lives ih =>
      have kept := reachable_kept reachable
      obtain ⟨row, found, decoded, opened⟩ := kept.uncompleted id job accepted
        (uncompleted first List.mem_cons_self)
      obtain ⟨⟨size, booted⟩, later⟩ := List.isChain_cons_cons.mp chain
      rw [List.getLast_cons_cons]
      exact @ih size kept.table life booted later
        (reachable_accepted booted (open_accepted size found decoded opened))
        (fun other member => uncompleted other (List.mem_cons_of_mem _ member))

theorem restarts_keep_jobs_crash :
    ∃ first, Reachable next (start 16 JobsTable.empty.disk) first ∧
      (start 16 (start 16 first.disk).disk).system.queue.pending.count 1 = 1 := by
  obtain ⟨history, final, run, _, passed⟩ := Run.of_trace next
    (start 16 JobsTable.empty.disk) crashTrace
    (fun _ state => decide ((1, Job.ingest "notes.md" "shard") ∈ state.system.accepted ∧
      1 ∉ state.system.completed)) (by decide)
  obtain ⟨accepted, uncompleted⟩ := of_decide_eq_true passed
  have chain : List.IsChain Relaunch [final, start 16 final.disk] :=
    List.isChain_cons_cons.mpr ⟨⟨16, Reachable.refl⟩, List.isChain_singleton _⟩
  refine ⟨final, ⟨history, run⟩, (restarts_keep_jobs 16 ⟨history, run⟩ chain accepted ?_).1⟩
  intro life member
  simp only [List.mem_cons, List.not_mem_nil, or_false] at member
  rcases member with rfl | rfl
  · exact uncompleted
  · exact Finmap.notMem_empty

end DurableSystem

end Mneme.Supervisor
