/-
Every accepted or recovered job is counted once, and a waker fires at most
once, with the first completion of its job.

The count is kept by every operation but one: a recovery that reads the row of
a job that is still tracked counts that job a second time.
-/

import Mneme.Supervisor.QueueCalls

namespace Mneme.Supervisor

open Common Transition

namespace JobQueue

/-- The completed jobs, the failed ones and the tracked ones. -/
def counted (queue : JobQueue) : Nat :=
  queue.completedCount + queue.failedCount + queue.tracked.keys.card

theorem counted_insert {queue : JobQueue} {id : JobId} (absent : id ∉ queue.tracked)
    (pending : List JobId) (entry : Tracked) :
    counted { queue with pending := pending, tracked := queue.tracked.insert id entry } =
      queue.counted + 1 := by
  have keys : (queue.tracked.insert id entry).keys = insert id queue.tracked.keys := by
    ext other
    rw [Finmap.mem_keys, Finmap.mem_insert, Finset.mem_insert, Finmap.mem_keys]
  unfold counted
  dsimp only
  rw [keys, Finset.card_insert_of_notMem (fun key => absent (Finmap.mem_keys.mp key))]
  omega

/-- Tracking the same jobs, with the same counters. -/
theorem counted_congr {queue changed : JobQueue}
    (tracked : ∀ id, id ∈ changed.tracked ↔ id ∈ queue.tracked)
    (completed : changed.completedCount = queue.completedCount)
    (failed : changed.failedCount = queue.failedCount) : changed.counted = queue.counted := by
  have keys : changed.tracked.keys = queue.tracked.keys := by
    ext id
    rw [Finmap.mem_keys, Finmap.mem_keys]
    exact tracked id
  unfold counted
  rw [keys, completed, failed]

variable (queue : JobQueue)

theorem complete_counted (id : JobId) (outcome : JobOutcome) :
    (queue.complete id outcome).2.counted = queue.counted := by
  unfold complete
  cases found : queue.tracked.lookup id with
  | none => rfl
  | some entry =>
      have present : id ∈ queue.tracked.keys :=
        Finmap.mem_keys.mpr (Finmap.mem_of_lookup_eq_some found)
      have taken := Finset.card_erase_add_one present
      unfold counted
      simp only [Finmap.keys_erase]
      cases outcome.isOk with
      | true =>
          simp only [if_true]
          omega
      | false =>
          simp only [Bool.false_eq_true, if_false]
          omega

theorem nextPending_counted : queue.nextPending.2.counted = queue.counted := by
  rw [nextPending_queue]
  rfl

theorem markAssigned_counted (id : JobId) (worker : String) :
    (queue.markAssigned id worker).counted = queue.counted :=
  counted_congr (fun other => queue.mem_markAssigned_tracked id other worker) rfl rfl

theorem requeueWorker_counted (ids : List JobId) :
    (queue.requeueWorker ids).counted = queue.counted := by
  induction ids generalizing queue with
  | nil => rfl
  | cons id ids ih =>
      have one : (queue.requeueOne id).counted = queue.counted :=
        counted_congr (queue.mem_requeueOne_tracked id) rfl rfl
      exact (ih (queue.requeueOne id)).trans one

theorem mem_recover_tracked (rows : List RecoveredJob) (id : JobId) :
    id ∈ (rows.foldl recoverOne queue).tracked ↔
      id ∈ rows.map RecoveredJob.id ∨ id ∈ queue.tracked := by
  induction rows generalizing queue with
  | nil => simp
  | cons row rows ih =>
      rw [List.foldl_cons, ih, List.map_cons, List.mem_cons]
      unfold recoverOne
      rw [Finmap.mem_insert]
      tauto

/-- Rows with different ids are all new exactly when each counts as one. -/
theorem recover_counted_le (rows : List RecoveredJob)
    (distinct : (rows.map RecoveredJob.id).Nodup) :
    (rows.foldl recoverOne queue).counted ≤ queue.counted + rows.length ∧
      ((rows.foldl recoverOne queue).counted = queue.counted + rows.length ↔
        ∀ row ∈ rows, row.id ∉ queue.tracked) := by
  induction rows generalizing queue with
  | nil => simp
  | cons row rows ih =>
      rw [List.map_cons, List.nodup_cons] at distinct
      obtain ⟨below, same⟩ := ih (queue.recoverOne row) distinct.2
      have later : (∀ other ∈ rows, other.id ∉ (queue.recoverOne row).tracked) ↔
          ∀ other ∈ rows, other.id ∉ queue.tracked := by
        apply forall₂_congr
        intro other member
        have different : other.id ≠ row.id := by
          intro equal
          rw [← equal] at distinct
          exact distinct.1 (List.mem_map_of_mem member)
        unfold recoverOne
        rw [Finmap.mem_insert]
        simp only [different, false_or]
      rw [later] at same
      rw [List.foldl_cons, List.length_cons, List.forall_mem_cons]
      by_cases known : row.id ∈ queue.tracked
      · have one : (queue.recoverOne row).counted = queue.counted := by
          refine counted_congr ?_ rfl rfl
          intro other
          unfold recoverOne
          rw [Finmap.mem_insert]
          constructor
          · rintro (equal | old)
            · rw [equal]
              exact known
            · exact old
          · exact Or.inr
        simp only [known, not_true_eq_false, false_and, iff_false]
        omega
      · have one : (queue.recoverOne row).counted = queue.counted + 1 :=
          counted_insert known _ _
        simp only [known, not_false_eq_true, true_and]
        rw [← same]
        omega

end JobQueue

namespace QueueCalls

def Balanced (state : QueueCalls) : Prop :=
  state.queue.counted = state.accepted.length + state.recovered

/-- A recovery finds none of its rows tracked. -/
def RecoversUntracked (state : QueueCalls) : QueueCall → Prop
  | .pushRows call => ∀ row ∈ state.rowsRead call, row.id ∉ state.queue.tracked
  | _ => True

instance (state : QueueCalls) : (call : QueueCall) → Decidable (state.RecoversUntracked call)
  | .pushRows _ => inferInstanceAs (Decidable (∀ _ ∈ _, _))
  | .drawId | .submit _ _ _ _ | .nextPending | .markAssigned _ _ | .returnPending _
  | .complete _ _ | .requeueWorker _ _ | .write _ _ | .flipRows | .readRows _ => isTrue trivial

/-- The outcome of the first completion of an accepted job. -/
def firstReport (state : QueueCalls) (id : JobId) : Option JobOutcome :=
  (state.reported.find? (fun report => report.1 = id)).map Prod.snd

/-- No job's waker has fired twice, and one that has fired is the waker of its
job and got the outcome of the first completion. -/
structure FiresOnce (state : QueueCalls) : Prop where
  once : (state.fired.map Prod.fst).Nodup
  first : ∀ id waker outcome, (id, waker, outcome) ∈ state.fired →
    (id, some waker) ∈ state.accepted ∧ state.firstReport id = some outcome

/-! ### Ids are used once -/

/-- The id is tracked, accepted, on the disk or in rows read from it. -/
def Used (state : QueueCalls) (id : JobId) : Prop :=
  id ∈ state.queue.tracked ∨ id ∈ state.accepted.map Prod.fst ∨
    (∃ disk, state.durable = some disk ∧ id ∈ disk.rows) ∨
    ∃ rows, .read rows ∈ state.recoveries ∧ id ∈ rows.map RecoveredJob.id

/-- The id counter is ahead of every id in use and of every id drawn, and a
drawn id is not in use. -/
structure Fresh (state : QueueCalls) : Prop where
  distinct : state.drawn.Nodup
  drawnOld : ∀ id ∈ state.drawn, id < state.counter
  used : ∀ id, state.Used id → id < state.counter ∧ id ∉ state.drawn
  rows : ∀ rows, .read rows ∈ state.recoveries → (rows.map RecoveredJob.id).Nodup
  updates : ∀ write ∈ state.outstanding, write.isPush = false

variable {id : JobId} {disk : DurableJobQueue}

theorem mem_run_update {write : Write} (update : write.isPush = false)
    (member : id ∈ (write.run disk).rows) : id ∈ disk.rows := by
  cases write with
  | push key job => cases update
  | markInFlight key worker => exact (DurableJobQueue.mem_update _ _ _ _).mp member
  | requeue key => exact (DurableJobQueue.mem_update _ _ _ _).mp member
  | markDone key outcome => exact (DurableJobQueue.mem_update _ _ _ _).mp member

theorem mem_of_recovered
    (member : id ∈ disk.recoverQueued.map RecoveredJob.id) : id ∈ disk.rows := by
  obtain ⟨row, read, same⟩ := List.mem_map.mp member
  rw [DurableJobQueue.mem_recoverQueued] at read
  obtain ⟨held, found, _⟩ := Option.bind_eq_some_iff.mp read
  rw [← same]
  exact Finmap.mem_of_lookup_eq_some found

/-- A step that only untracks jobs leaves no further id in use. -/
theorem used_of_tracked {state changed : QueueCalls} (used : changed.Used id)
    (tracked : id ∈ changed.queue.tracked → id ∈ state.queue.tracked)
    (accepted : changed.accepted = state.accepted) (durable : changed.durable = state.durable)
    (recoveries : changed.recoveries = state.recoveries) : state.Used id := by
  unfold Used at used ⊢
  rw [accepted, durable, recoveries] at used
  exact used.imp tracked (fun other => other)

theorem used_of_submit {state : QueueCalls} {id submitted : JobId} {job : Job}
    {waker : Option Waker} {persisted : Bool}
    (used : (state.submit submitted job waker persisted).Used id) :
    state.Used id ∨ id = submitted := by
  by_cases same : id = submitted
  · exact Or.inr same
  · left
    rcases state.submit_cases submitted job waker persisted with refused | ⟨_, queued⟩
    · rw [refused] at used
      exact used
    · rw [queued] at used
      rcases used with tracked | accepted | ⟨disk, attached, stored⟩ | read
      · rcases Finmap.mem_insert.mp tracked with equal | old
        · exact absurd equal same
        · exact Or.inl old
      · rw [List.map_append, List.mem_append] at accepted
        rcases accepted with old | new
        · exact Or.inr (Or.inl old)
        · exact absurd (List.mem_singleton.mp new) same
      · right; right; left
        cases persisted with
        | false => exact ⟨disk, attached, stored⟩
        | true =>
            obtain ⟨earlier, held, pushed⟩ := Option.map_eq_some_iff.mp attached
            refine ⟨earlier, held, ?_⟩
            rw [← pushed, ← Finmap.lookup_isSome, DurableJobQueue.lookup_push,
              if_neg same] at stored
            exact Finmap.lookup_isSome.mp stored
      · exact Or.inr (Or.inr (Or.inr read))

variable {state after : QueueCalls}

variable {call : QueueCall}

/-- Only a submission uses an id that was not in use. -/
theorem step_used (fresh : Fresh state)
    (step : state.next call = some after) (used : after.Used id) :
    state.Used id ∨ ∃ job waker persisted, call = .submit id job waker persisted := by
  cases taken_of_next step with
  | drawId => exact Or.inl used
  | submit submitted job waker persisted drawn =>
      refine (used_of_submit used).imp_right (fun same => ?_)
      rw [same]
      exact ⟨job, waker, persisted, rfl⟩
  | nextPending =>
      refine Or.inl (used_of_tracked used (fun tracked => ?_) rfl rfl rfl)
      change id ∈ state.queue.nextPending.2.tracked at tracked
      rw [JobQueue.nextPending_tracked] at tracked
      exact tracked
  | markAssigned marked worker =>
      exact Or.inl (used_of_tracked used (state.queue.mem_markAssigned_tracked marked id worker).mp
        rfl rfl rfl)
  | returnPending returned => exact Or.inl (used_of_tracked used (fun held => held) rfl rfl rfl)
  | complete done outcome =>
      refine Or.inl (used_of_tracked used (fun tracked => ?_) rfl rfl rfl)
      change id ∈ (state.queue.complete done outcome).2.tracked at tracked
      rw [JobQueue.complete_tracked] at tracked
      exact (Finmap.mem_erase.mp tracked).2
  | requeueWorker worker ids order =>
      exact Or.inl (used_of_tracked used (state.queue.mem_requeueWorker_tracked ids id).mp
        rfl rfl rfl)
  | write position done write found =>
      left
      rcases used with tracked | accepted | ⟨disk, attached, stored⟩ | read
      · exact Or.inl tracked
      · exact Or.inr (Or.inl accepted)
      · right; right; left
        cases done with
        | false => exact ⟨disk, attached, stored⟩
        | true =>
            obtain ⟨earlier, held, ran⟩ := Option.map_eq_some_iff.mp attached
            subst ran
            exact ⟨earlier, held,
              mem_run_update (fresh.updates write (List.mem_of_getElem? found)) stored⟩
      · exact Or.inr (Or.inr (Or.inr read))
  | flipRows disk attached =>
      left
      rcases used with tracked | accepted | ⟨flipped, same, stored⟩ | ⟨rows, read, member⟩
      · exact Or.inl tracked
      · exact Or.inr (Or.inl accepted)
      · right; right; left
        cases same
        exact ⟨disk, attached, (disk.mem_requeueAllInFlight id).mp stored⟩
      · right; right; right
        rcases List.mem_append.mp read with old | new
        · exact ⟨rows, old, member⟩
        · cases List.mem_singleton.mp new
  | readRows reading disk attached reached =>
      left
      rcases used with tracked | accepted | stored | ⟨rows, read, member⟩
      · exact Or.inl tracked
      · exact Or.inr (Or.inl accepted)
      · exact Or.inr (Or.inr (Or.inl stored))
      · rcases List.mem_or_eq_of_mem_set read with old | new
        · exact Or.inr (Or.inr (Or.inr ⟨rows, old, member⟩))
        · cases new
          exact Or.inr (Or.inr (Or.inl ⟨disk, attached, mem_of_recovered member⟩))
  | pushRows pushing rows reached =>
      left
      rcases used with tracked | accepted | stored | ⟨others, read, member⟩
      · rcases (state.queue.mem_recover_tracked rows id).mp tracked with new | old
        · exact Or.inr (Or.inr (Or.inr ⟨rows, List.mem_of_getElem? reached, new⟩))
        · exact Or.inl old
      · exact Or.inr (Or.inl accepted)
      · exact Or.inr (Or.inr (Or.inl stored))
      · rcases List.mem_or_eq_of_mem_set read with old | new
        · exact Or.inr (Or.inr (Or.inr ⟨others, old, member⟩))
        · cases new

theorem lt_start_counter (maxPending previous : Nat)
    (member : id ∈ disk.rows) : id < (start maxPending previous (some disk)).counter := by
  have below := disk.le_maxId member
  change id < if disk.maxId > 0 then JobId.seedTo (previous + 1) (disk.maxId + 1) else previous + 1
  unfold JobId.seedTo
  split
  · split
    · next ahead => exact Nat.lt_of_lt_of_le (Nat.lt_succ_of_le below) ahead
    · exact Nat.lt_succ_of_le below
  · exact Nat.lt_succ_of_le (Nat.le_trans below (by omega))

theorem fresh_start (maxPending previous : Nat) (durable : Option DurableJobQueue) :
    Fresh (start maxPending previous durable) := by
  refine ⟨List.nodup_nil, ?_, ?_, ?_, ?_⟩
  · intro id impossible
    cases impossible
  · intro id used
    refine ⟨?_, List.not_mem_nil⟩
    rcases used with tracked | accepted | ⟨disk, attached, stored⟩ | ⟨rows, read, _⟩
    · exact absurd tracked Finmap.notMem_empty
    · cases accepted
    · change durable = some disk at attached
      rw [attached]
      exact lt_start_counter maxPending previous stored
    · cases read
  · intro rows impossible
    cases impossible
  · intro write impossible
    cases impossible

/-- What a step does to the ids in hand. -/
theorem step_drawn (step : state.next call = some after) :
    state.counter ≤ after.counter ∧
      (after.drawn.Sublist state.drawn ∨
        (after.drawn = state.drawn ++ [state.counter] ∧ after.counter = state.counter + 1)) := by
  cases taken_of_next step with
  | drawId => exact ⟨Nat.le_succ _, Or.inr ⟨rfl, rfl⟩⟩
  | submit id job waker persisted drawn =>
      rcases state.submit_cases id job waker persisted with refused | ⟨_, queued⟩
      · rw [refused]
        exact ⟨Nat.le_refl _, Or.inl List.erase_sublist⟩
      · rw [queued]
        exact ⟨Nat.le_refl _, Or.inl List.erase_sublist⟩
  | _ => exact ⟨Nat.le_refl _, Or.inl (List.Sublist.refl _)⟩

theorem step_updates (fresh : Fresh state) (step : state.next call = some after) :
    ∀ write ∈ after.outstanding, write.isPush = false := by
  cases taken_of_next step with
  | drawId | nextPending | flipRows | readRows | pushRows => exact fresh.updates
  | submit id job waker persisted drawn =>
      rcases state.submit_cases id job waker persisted with refused | ⟨_, queued⟩
      · rw [refused]
        exact fresh.updates
      · rw [queued]
        exact fresh.updates
  | markAssigned | returnPending =>
      intro write member
      rcases List.mem_append.mp member with old | new
      · exact fresh.updates write old
      · rw [List.mem_singleton.mp new]
        rfl
  | complete id outcome =>
      intro write member
      unfold complete at member
      dsimp only at member
      split at member
      · exact fresh.updates write member
      · rcases List.mem_append.mp member with old | new
        · exact fresh.updates write old
        · rw [List.mem_singleton.mp new]
          rfl
  | requeueWorker worker ids order =>
      intro write member
      rcases List.mem_append.mp member with old | new
      · exact fresh.updates write old
      · obtain ⟨id, _, same⟩ := List.mem_map.mp new
        rw [← same]
        rfl
  | write position done write found =>
      intro other member
      exact fresh.updates other (List.mem_of_mem_eraseIdx member)

theorem step_rows (fresh : Fresh state) (step : state.next call = some after) :
    ∀ rows, .read rows ∈ after.recoveries → (rows.map RecoveredJob.id).Nodup := by
  cases taken_of_next step with
  | submit id job waker persisted drawn =>
      rcases state.submit_cases id job waker persisted with refused | ⟨_, queued⟩
      · rw [refused]
        exact fresh.rows
      · rw [queued]
        exact fresh.rows
  | flipRows disk attached =>
      intro rows read
      rcases List.mem_append.mp read with old | new
      · exact fresh.rows rows old
      · cases List.mem_singleton.mp new
  | readRows reading disk attached reached =>
      intro rows read
      rcases List.mem_or_eq_of_mem_set read with old | new
      · exact fresh.rows rows old
      · cases new
        exact disk.recoverQueued_ids_nodup
  | pushRows pushing rows reached =>
      intro others read
      rcases List.mem_or_eq_of_mem_set read with old | new
      · exact fresh.rows others old
      · cases new
  | _ => exact fresh.rows

theorem Fresh.next (fresh : Fresh state) (step : state.next call = some after) : Fresh after := by
  obtain ⟨later, drawn⟩ := step_drawn step
  refine ⟨?_, ?_, ?_, step_rows fresh step, step_updates fresh step⟩
  · rcases drawn with fewer | ⟨one, _⟩
    · exact fewer.nodup fresh.distinct
    · rw [one, List.nodup_append]
      refine ⟨fresh.distinct, List.nodup_singleton _, ?_⟩
      intro id member other new same
      have old := fresh.drawnOld id member
      rw [same, List.mem_singleton.mp new] at old
      exact absurd old (Nat.lt_irrefl _)
  · intro id member
    rcases drawn with fewer | ⟨one, counter⟩
    · exact Nat.lt_of_lt_of_le (fresh.drawnOld id (fewer.subset member)) later
    · rw [one] at member
      rcases List.mem_append.mp member with old | new
      · exact Nat.lt_of_lt_of_le (fresh.drawnOld id old) later
      · rw [List.mem_singleton.mp new, counter]
        exact Nat.lt_succ_self _
  · intro id used
    rcases step_used fresh step used with old | ⟨job, waker, persisted, submitted⟩
    · obtain ⟨below, undrawn⟩ := fresh.used id old
      refine ⟨Nat.lt_of_lt_of_le below later, ?_⟩
      intro member
      rcases drawn with fewer | ⟨one, _⟩
      · exact undrawn (fewer.subset member)
      · rw [one] at member
        rcases List.mem_append.mp member with held | new
        · exact undrawn held
        · rw [List.mem_singleton.mp new] at below
          exact absurd below (Nat.lt_irrefl _)
    · subst submitted
      cases taken_of_next step with
      | submit _ _ _ _ inHand =>
          refine ⟨Nat.lt_of_lt_of_le (fresh.drawnOld id inHand) later, ?_⟩
          have gone : id ∉ state.drawn.erase id := fresh.distinct.not_mem_erase
          rcases state.submit_cases id job waker persisted with refused | ⟨_, queued⟩
          · rw [refused]
            exact gone
          · rw [queued]
            exact gone

/-! ### The count -/

theorem balanced_step_iff (fresh : Fresh state)
    (balanced : state.Balanced) (step : state.next call = some after) :
    after.Balanced ↔ state.RecoversUntracked call := by
  unfold Balanced at balanced ⊢
  cases taken_of_next step with
  | drawId | write | flipRows | readRows | returnPending => exact iff_of_true balanced trivial
  | submit id job waker persisted drawn =>
      rcases state.submit_cases id job waker persisted with refused | ⟨_, queued⟩
      · rw [refused]
        exact iff_of_true balanced trivial
      · have untracked : id ∉ state.queue.tracked :=
          fun tracked => (fresh.used id (Or.inl tracked)).2 drawn
        have counted := JobQueue.counted_insert untracked (state.queue.pending ++ [id])
          { job := job, assignedTo := none, waker := waker }
        rw [queued]
        refine iff_of_true ?_ trivial
        dsimp only
        rw [counted, List.length_append, List.length_singleton]
        omega
  | nextPending => exact iff_of_true (state.queue.nextPending_counted.trans balanced) trivial
  | markAssigned id worker =>
      exact iff_of_true ((state.queue.markAssigned_counted id worker).trans balanced) trivial
  | complete id outcome =>
      exact iff_of_true ((state.queue.complete_counted id outcome).trans balanced) trivial
  | requeueWorker worker ids order =>
      exact iff_of_true ((state.queue.requeueWorker_counted ids).trans balanced) trivial
  | pushRows call rows reached =>
      obtain ⟨_, each⟩ := state.queue.recover_counted_le rows
        (fresh.rows rows (List.mem_of_getElem? reached))
      change (rows.foldl JobQueue.recoverOne state.queue).counted =
          state.accepted.length + (state.recovered + rows.length) ↔
        ∀ row ∈ state.rowsRead call, row.id ∉ state.queue.tracked
      rw [rowsRead_of_read reached, ← each]
      omega

/-! ### The wakers -/

end QueueCalls

namespace JobQueue

def wakerOf (queue : JobQueue) (id : JobId) : Option Waker :=
  (queue.tracked.lookup id).bind Tracked.waker

variable (queue : JobQueue)

theorem markAssigned_wakerOf (id other : JobId) (worker : String) :
    (queue.markAssigned id worker).wakerOf other = queue.wakerOf other := by
  unfold wakerOf markAssigned
  cases found : queue.tracked.lookup id with
  | none => rfl
  | some entry =>
      by_cases same : other = id
      · subst same
        simp only [Finmap.lookup_insert, found, Option.bind_some]
      · simp only [Finmap.lookup_insert_of_ne _ same]

theorem requeueWorker_wakerOf (ids : List JobId) (other : JobId) :
    (queue.requeueWorker ids).wakerOf other = queue.wakerOf other := by
  induction ids generalizing queue with
  | nil => rfl
  | cons id ids ih =>
      refine (ih (queue.requeueOne id)).trans ?_
      unfold wakerOf requeueOne
      cases found : queue.tracked.lookup id with
      | none => rfl
      | some entry =>
          by_cases same : other = id
          · subst same
            simp only [Finmap.lookup_insert, found, Option.bind_some]
          · simp only [Finmap.lookup_insert_of_ne _ same]

theorem complete_wakerOf (id other : JobId) (outcome : JobOutcome) :
    (queue.complete id outcome).2.wakerOf other =
      if other = id then none else queue.wakerOf other := by
  unfold wakerOf
  rw [complete_tracked]
  by_cases same : other = id
  · subst same
    rw [if_pos rfl, Finmap.lookup_erase]
    rfl
  · rw [if_neg same, Finmap.lookup_erase_ne same]

/-- A recovered job has no waker. -/
theorem wakerOf_of_recovered {queue : JobQueue} {rows : List RecoveredJob} {id : JobId}
    {waker : Waker} (waits : (rows.foldl recoverOne queue).wakerOf id = some waker) :
    queue.wakerOf id = some waker := by
  induction rows generalizing queue with
  | nil => exact waits
  | cons row rows ih =>
      have before : (queue.recoverOne row).wakerOf id = some waker := ih waits
      unfold wakerOf recoverOne at before
      by_cases same : id = row.id
      · subst same
        rw [Finmap.lookup_insert] at before
        cases before
      · rw [Finmap.lookup_insert_of_ne _ same] at before
        exact before

end JobQueue

namespace QueueCalls

variable {state after : QueueCalls} {call : QueueCall} {id : JobId}

/-- Only a submission makes a waker wait, and a completion ends the wait. -/
theorem step_waits (step : state.next call = some after) {waker : Waker}
    (waits : after.queue.wakerOf id = some waker) :
    (state.queue.wakerOf id = some waker ∧ ∀ outcome, call ≠ .complete id outcome) ∨
      ∃ job persisted, call = .submit id job (some waker) persisted := by
  cases taken_of_next step with
  | drawId | write | flipRows | readRows | returnPending =>
      exact Or.inl ⟨waits, fun outcome impossible => nomatch impossible⟩
  | submit submitted job given persisted drawn =>
      rcases state.submit_cases submitted job given persisted with refused | ⟨_, queued⟩
      · rw [refused] at waits
        exact Or.inl ⟨waits, fun outcome impossible => nomatch impossible⟩
      · rw [queued] at waits
        unfold JobQueue.wakerOf at waits
        dsimp only at waits
        by_cases same : id = submitted
        · subst same
          rw [Finmap.lookup_insert] at waits
          have held : given = some waker := waits
          subst held
          exact Or.inr ⟨job, persisted, rfl⟩
        · rw [Finmap.lookup_insert_of_ne _ same] at waits
          exact Or.inl ⟨waits, fun outcome impossible => nomatch impossible⟩
  | nextPending =>
      refine Or.inl ⟨?_, fun outcome impossible => nomatch impossible⟩
      unfold JobQueue.wakerOf at waits ⊢
      rw [← JobQueue.nextPending_tracked]
      exact waits
  | markAssigned marked worker =>
      change (state.queue.markAssigned marked worker).wakerOf id = some waker at waits
      rw [JobQueue.markAssigned_wakerOf] at waits
      exact Or.inl ⟨waits, fun outcome impossible => nomatch impossible⟩
  | complete done outcome =>
      change (state.queue.complete done outcome).2.wakerOf id = some waker at waits
      rw [JobQueue.complete_wakerOf] at waits
      split at waits
      · cases waits
      · next different =>
          refine Or.inl ⟨waits, ?_⟩
          intro other same
          cases same
          exact different rfl
  | requeueWorker worker ids order =>
      change (state.queue.requeueWorker ids).wakerOf id = some waker at waits
      rw [JobQueue.requeueWorker_wakerOf] at waits
      exact Or.inl ⟨waits, fun outcome impossible => nomatch impossible⟩
  | pushRows pushing rows reached =>
      exact Or.inl ⟨JobQueue.wakerOf_of_recovered waits, fun outcome impossible => nomatch impossible⟩

/-- A waker that waits is the one its job was accepted with, and the job was
not completed before. -/
structure Waking (state : QueueCalls) : Prop where
  waits : ∀ id waker, state.queue.wakerOf id = some waker →
    (id, some waker) ∈ state.accepted ∧ id ∉ state.reported.map Prod.fst
  reports : ∀ id ∈ state.reported.map Prod.fst, id ∈ state.accepted.map Prod.fst
  fires : FiresOnce state

theorem waking_start (maxPending previous : Nat) (durable : Option DurableJobQueue) :
    Waking (start maxPending previous durable) := by
  refine ⟨?_, ?_, ?_, ?_⟩
  · intro id waker impossible
    cases impossible
  · intro id impossible
    cases impossible
  · exact List.nodup_nil
  · intro id waker outcome impossible
    cases impossible

/-- What a step that is no completion does to the histories. -/
theorem step_histories
    (step : state.next call = some after) (other : ∀ id outcome, call ≠ .complete id outcome) :
    after.reported = state.reported ∧ after.fired = state.fired ∧
      ∀ entry ∈ state.accepted, entry ∈ after.accepted := by
  cases taken_of_next step with
  | submit id job waker persisted drawn =>
      rcases state.submit_cases id job waker persisted with refused | ⟨_, queued⟩
      · rw [refused]
        exact ⟨rfl, rfl, fun _ member => member⟩
      · rw [queued]
        exact ⟨rfl, rfl, fun _ member => List.mem_append_left _ member⟩
  | complete id outcome => exact absurd rfl (other id outcome)
  | _ => exact ⟨rfl, rfl, fun _ member => member⟩

variable {report : JobId × JobOutcome} {state changed : QueueCalls}

/-- The first completion of a job stays the first. -/
theorem firstReport_append (reported : changed.reported = state.reported ++ [report]) (id : JobId) :
    changed.firstReport id =
      (state.firstReport id).or (if report.1 = id then some report.2 else none) := by
  unfold firstReport
  rw [reported, List.find?_append, Option.map_or]
  congr 1
  by_cases same : report.1 = id
  · rw [if_pos same, List.find?_singleton, if_pos (decide_eq_true same)]
    rfl
  · rw [if_neg same, List.find?_singleton, if_neg (by simpa using same)]
    rfl

variable {state : QueueCalls}

theorem firstReport_eq_none
    (unreported : id ∉ state.reported.map Prod.fst) : state.firstReport id = none := by
  unfold firstReport
  rw [Option.map_eq_none_iff, List.find?_eq_none]
  intro report member same
  exact unreported (List.mem_map.mpr ⟨report, member, of_decide_eq_true same⟩)

variable {outcome : JobOutcome}

theorem firstReport_append_of_some (reported : changed.reported = state.reported ++ [report])
    (first : state.firstReport id = some outcome) : changed.firstReport id = some outcome := by
  rw [firstReport_append reported, first]
  rfl

theorem firstReport_append_self (reported : changed.reported = state.reported ++ [report])
    (unreported : report.1 ∉ state.reported.map Prod.fst) :
    changed.firstReport report.1 = some report.2 := by
  rw [firstReport_append reported, firstReport_eq_none unreported, if_pos rfl]
  rfl

/-- A completion, with the parts of the state it changes. -/
theorem complete_cases (state : QueueCalls) (id : JobId) (outcome : JobOutcome) :
    (state.complete id outcome).accepted = state.accepted ∧
      (state.complete id outcome).queue = (state.queue.complete id outcome).2 ∧
      (state.complete id outcome).reported =
        (if id ∈ state.accepted.map Prod.fst then state.reported ++ [(id, outcome)]
          else state.reported) ∧
      (state.complete id outcome).fired =
        match state.queue.wakerOf id with
        | none => state.fired
        | some waker => state.fired ++ [(id, waker, outcome)] := by
  have entry : (state.queue.complete id outcome).1.bind Tracked.waker =
      state.queue.wakerOf id := by
    rw [JobQueue.complete_entry]
    rfl
  have fires : ∀ found, (state.queue.complete id outcome).1.bind Tracked.waker = found →
      (state.complete id outcome).fired = match found with
        | none => state.fired
        | some waker => state.fired ++ [(id, waker, outcome)] := by
    intro found same
    subst same
    rfl
  exact ⟨rfl, rfl, rfl, fires _ entry⟩

/-- A completion reports at most the job that it completes. -/
theorem reported_of_complete {id other : JobId}
    (member : other ∈ (state.complete id outcome).reported.map Prod.fst) :
    other ∈ state.reported.map Prod.fst ∨
      (other = id ∧ other ∈ state.accepted.map Prod.fst) := by
  rw [(state.complete_cases id outcome).2.2.1] at member
  split at member
  · next known =>
      rw [List.map_append, List.mem_append] at member
      rcases member with old | new
      · exact Or.inl old
      · have same : other = id := List.mem_singleton.mp new
        rw [← same] at known
        exact Or.inr ⟨same, known⟩
  · exact Or.inl member

/-- A first report stays the first. -/
theorem firstReport_complete {other : JobId} {result : JobOutcome}
    (first : state.firstReport other = some result) (id : JobId) (outcome : JobOutcome) :
    (state.complete id outcome).firstReport other = some result := by
  have reported := (state.complete_cases id outcome).2.2.1
  by_cases known : id ∈ state.accepted.map Prod.fst
  · rw [if_pos known] at reported
    exact firstReport_append_of_some reported first
  · rw [if_neg known] at reported
    unfold firstReport at first ⊢
    rw [reported]
    exact first

theorem Waking.complete (waking : Waking state) (id : JobId)
    (outcome : JobOutcome) : Waking (state.complete id outcome) := by
  obtain ⟨accepted, queue, reported, fired⟩ := state.complete_cases id outcome
  refine ⟨?_, ?_, ?_⟩
  · intro other waker waits
    rw [queue, JobQueue.complete_wakerOf] at waits
    split at waits
    · cases waits
    · next different =>
        obtain ⟨submitted, unreported⟩ := waking.waits other waker waits
        rw [accepted]
        refine ⟨submitted, fun member => ?_⟩
        rcases reported_of_complete member with old | ⟨same, _⟩
        · exact unreported old
        · exact different same
  · intro other member
    rw [accepted]
    rcases reported_of_complete member with old | ⟨_, known⟩
    · exact waking.reports other old
    · exact known
  · cases waits : state.queue.wakerOf id with
    | none =>
        rw [waits] at fired
        refine ⟨?_, ?_⟩
        · rw [fired]
          exact waking.fires.once
        · intro other waker result member
          rw [fired] at member
          obtain ⟨submitted, first⟩ := waking.fires.first other waker result member
          rw [accepted]
          exact ⟨submitted, firstReport_complete first id outcome⟩
    | some waker =>
        rw [waits] at fired
        obtain ⟨submitted, unreported⟩ := waking.waits id waker waits
        have known : id ∈ state.accepted.map Prod.fst := List.mem_map.mpr ⟨_, submitted, rfl⟩
        rw [if_pos known] at reported
        have unfired : id ∉ state.fired.map Prod.fst := by
          intro member
          obtain ⟨⟨other, earlier, result⟩, old, same⟩ := List.mem_map.mp member
          subst same
          have first := (waking.fires.first _ _ _ old).2
          rw [firstReport_eq_none unreported] at first
          cases first
        refine ⟨?_, ?_⟩
        · rw [fired, List.map_append, List.nodup_append]
          refine ⟨waking.fires.once, List.nodup_singleton _, ?_⟩
          intro other old same new equal
          rw [List.mem_singleton.mp new] at equal
          rw [equal] at old
          exact unfired old
        · intro other held result member
          rw [fired] at member
          rw [accepted]
          rcases List.mem_append.mp member with old | new
          · obtain ⟨earlier, first⟩ := waking.fires.first other held result old
            exact ⟨earlier, firstReport_complete first id outcome⟩
          · cases List.mem_singleton.mp new
            exact ⟨submitted, firstReport_append_self reported unreported⟩

theorem Waking.next (fresh : Fresh state)
    (waking : Waking state) (step : state.next call = some after) : Waking after := by
  by_cases completes : ∃ id outcome, call = .complete id outcome
  · obtain ⟨id, outcome, same⟩ := completes
    subst same
    cases step
    exact waking.complete id outcome
  · have other : ∀ id outcome, call ≠ .complete id outcome :=
      fun id outcome same => completes ⟨id, outcome, same⟩
    obtain ⟨reported, fired, accepted⟩ := step_histories step other
    have first : ∀ id, after.firstReport id = state.firstReport id := by
      intro id
      unfold firstReport
      rw [reported]
    refine ⟨?_, ?_, ?_, ?_⟩
    · intro id waker waits
      rw [reported]
      rcases step_waits step waits with ⟨before, _⟩ | ⟨job, persisted, submitted⟩
      · obtain ⟨known, unreported⟩ := waking.waits id waker before
        exact ⟨accepted _ known, unreported⟩
      · -- The id was in hand, so it cannot have been reported.
        subst submitted
        cases taken_of_next step with
        | submit _ _ _ _ drawn =>
            have unused : ¬ state.Used id := fun used => (fresh.used id used).2 drawn
            rcases state.submit_cases id job (some waker) persisted with refused | ⟨_, queued⟩
            · rw [refused] at waits
              have tracked : id ∈ state.queue.tracked := by
                obtain ⟨entry, found, _⟩ := Option.bind_eq_some_iff.mp waits
                exact Finmap.mem_of_lookup_eq_some found
              exact absurd (Or.inl tracked) unused
            · refine ⟨?_, fun member => unused (Or.inr (Or.inl (waking.reports id member)))⟩
              rw [queued]
              exact List.mem_append_right _ (List.mem_singleton_self _)
    · intro id member
      rw [reported] at member
      obtain ⟨entry, old, same⟩ := List.mem_map.mp (waking.reports id member)
      exact List.mem_map.mpr ⟨entry, accepted entry old, same⟩
    · rw [fired]
      exact waking.fires.once
    · intro id waker outcome member
      rw [fired] at member
      obtain ⟨known, report⟩ := waking.fires.first id waker outcome member
      rw [first]
      exact ⟨accepted _ known, report⟩

/-- The invariants of every run, and of one whose recoveries find no row tracked. -/
structure Ledger (state : QueueCalls) : Prop where
  fresh : Fresh state
  waking : Waking state

structure Counting (state : QueueCalls) : Prop where
  fresh : Fresh state
  balanced : state.Balanced

theorem counts_and_fires_once (maxPending previous : Nat) (durable : Option DurableJobQueue)
    {history : List (QueueCalls × QueueCall)} {final : QueueCalls}
    (run : Run next (start maxPending previous durable) history final) :
    Throughout FiresOnce history final ∧
      (Throughout Balanced history final ↔ Respects RecoversUntracked history) := by
  have fresh := fresh_start maxPending previous durable
  constructor
  · have ledger : Ledger (start maxPending previous durable) :=
      ⟨fresh, waking_start maxPending previous durable⟩
    have any : Respects (fun _ _ => True) history := fun _ _ => trivial
    have held : Throughout Ledger history final := by
      refine run.throughout_of_respects ledger ?_ any
      intro state call after before _ step
      exact ⟨before.fresh.next step, before.waking.next before.fresh step⟩
    exact ⟨fun taken member => (held.1 taken member).waking.fires, held.2.waking.fires⟩
  · have counting : Counting (start maxPending previous durable) := ⟨fresh, rfl⟩
    refine run.throughout_iff_respects counting (fun _ held => held.balanced) ?_ ?_
    · intro state call after held untracked step
      exact ⟨held.fresh.next step, (balanced_step_iff held.fresh held.balanced step).mpr untracked⟩
    · intro state call after held step balanced
      exact (balanced_step_iff held.fresh held.balanced step).mp balanced

/-- A job completed twice, and a row of an earlier process recovered at boot. -/
theorem counts_and_fires_once_recovered :
    ∃ history final,
      Run next (start 4 0 (some (DurableJobQueue.empty.push 1 notes))) history final ∧
        history.length = 8 ∧ final.fired.map Prod.fst = [2] ∧
        Throughout FiresOnce history final ∧ Throughout Balanced history final := by
  obtain ⟨history, final, run, labels, passed⟩ :=
    Run.of_trace next (start 4 0 (some (DurableJobQueue.empty.push 1 notes)))
      [.flipRows, .readRows 0, .pushRows 0, .drawId, .submit 2 notes (some 7) true, .nextPending,
        .complete 2 (.ok none 0 .null), .complete 2 (.err "late" 0 .null)]
      (fun history state => decide (Respects RecoversUntracked history ∧
        state.fired.map Prod.fst = [2])) (by decide)
  obtain ⟨untracked, fired⟩ := of_decide_eq_true passed
  have long := congrArg List.length labels
  rw [List.length_map] at long
  obtain ⟨once, balanced⟩ := counts_and_fires_once 4 0 _ run
  exact ⟨history, final, run, long, fired, once, balanced.mpr untracked⟩

/-- A recovery while an accepted job waits reads the row of that job. -/
theorem tracked_job_recovered :
    ¬ ∀ (maxPending previous : Nat) (durable : Option DurableJobQueue)
      (history : List (QueueCalls × QueueCall)) (final : QueueCalls),
        Run next (start maxPending previous durable) history final →
          Throughout FiresOnce history final ∧ Throughout Balanced history final := by
  intro always
  obtain ⟨history, final, run, _, passed⟩ := Run.of_trace next (start 4 0 (some .empty))
    [.drawId, .submit 1 notes none true, .flipRows, .readRows 0, .pushRows 0]
    (fun _ state => decide (state.queue.counted = 1 ∧ state.accepted.length = 1 ∧
      state.recovered = 1)) (by decide)
  obtain ⟨counted, accepted, recovered⟩ := of_decide_eq_true passed
  have balanced : final.queue.counted = final.accepted.length + final.recovered :=
    (always 4 0 (some .empty) history final run).2.2
  omega

end QueueCalls

end Mneme.Supervisor
