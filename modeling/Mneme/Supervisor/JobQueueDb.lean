/-
The durable companion of the job queue: the `jobs` table.

The table is a finite map from the primary key to the rest of the row.  The
timestamps are left out, since no operation reads them back.
-/

import Mathlib.Order.Lattice.Nat
import Mneme.Supervisor.JobQueue

namespace Mneme.Supervisor

open Common

inductive RowState where
  | queued
  | inFlight
  | done
  | failed
deriving DecidableEq

structure Row where
  kind : String
  payload : Json
  state : RowState
  assignedTo : Option String
  error : Option String

structure DurableJobQueue where
  rows : Finmap (fun _ : JobId => Row)

structure RecoveredJob where
  id : JobId
  job : Job
  assignedTo : Option String

namespace DurableJobQueue

def empty : DurableJobQueue :=
  { rows := ∅ }

/-- `UPDATE jobs SET .. WHERE id = ..` -/
def update (disk : DurableJobQueue) (id : JobId) (change : Row → Row) : DurableJobQueue :=
  match disk.rows.lookup id with
  | none => disk
  | some row => { rows := disk.rows.insert id (change row) }

def push (disk : DurableJobQueue) (id : JobId) (job : Job) : DurableJobQueue :=
  { rows := disk.rows.insert id
      { kind := job.kindLabel
        payload := job.toJson
        state := .queued
        assignedTo := none
        error := none } }

def markInFlight (disk : DurableJobQueue) (id : JobId) (worker : String) : DurableJobQueue :=
  disk.update id (fun row => { row with state := .inFlight, assignedTo := some worker })

def requeue (disk : DurableJobQueue) (id : JobId) : DurableJobQueue :=
  disk.update id (fun row => { row with state := .queued, assignedTo := none })

def markDone (disk : DurableJobQueue) (id : JobId) (outcome : JobOutcome) : DurableJobQueue :=
  disk.update id (fun row =>
    { row with
      state := if outcome.isOk then .done else .failed
      error := outcome.message? })

def maxId (disk : DurableJobQueue) : Nat :=
  disk.rows.keys.sup (fun key => key)

/-- The keys of the table in ascending order. -/
def ids (disk : DurableJobQueue) : List JobId :=
  (List.range (disk.maxId + 1)).filter (fun id => id ∈ disk.rows)

/-- A row that was in flight is queued again; any other row stays. -/
def flip (row : Row) : Row :=
  if row.state = .inFlight then { row with state := .queued, assignedTo := none } else row

/-- The rows do not depend on each other, so the bulk update is a walk. -/
def requeueAllInFlight (disk : DurableJobQueue) : DurableJobQueue :=
  disk.ids.foldl (fun table id => table.update id flip) disk

/-- A row whose payload does not decode is skipped with a warning. -/
def recoverRow (disk : DurableJobQueue) (wanted : RowState) (id : JobId) : Option RecoveredJob :=
  (disk.rows.lookup id).bind (fun row =>
    if row.state = wanted then
      (Job.ofJson row.payload).map (fun job =>
        { id := id, job := job, assignedTo := row.assignedTo })
    else none)

def recoverQueued (disk : DurableJobQueue) : List RecoveredJob :=
  disk.ids.filterMap (disk.recoverRow .queued)

/-- `WHERE state = 'queued' ORDER BY id ASC` -/
def queuedIds (disk : DurableJobQueue) : List JobId :=
  disk.ids.filter (fun id => (disk.rows.lookup id).any (fun row => row.state = .queued))

/-- The first queued row; the reason for which its payload does not decode is left out. -/
def nextQueued (disk : DurableJobQueue) : Except String (Option (JobId × Job)) :=
  match disk.queuedIds with
  | [] => .ok none
  | id :: _ =>
      match (disk.rows.lookup id).bind (fun row => Job.ofJson row.payload) with
      | none => .error "decode job payload"
      | some job => .ok (some (id, job))

/-! ### What the statements do to one row -/

variable (disk : DurableJobQueue)

variable (id other : JobId)

theorem lookup_update (change : Row → Row) :
    (disk.update id change).rows.lookup other =
      if other = id then (disk.rows.lookup other).map change else disk.rows.lookup other := by
  unfold update
  cases found : disk.rows.lookup id with
  | none =>
      by_cases same : other = id
      · subst same
        rw [if_pos rfl, found]
        rfl
      · rw [if_neg same]
  | some row =>
      by_cases same : other = id
      · subst same
        rw [if_pos rfl, found]
        exact Finmap.lookup_insert _
      · rw [if_neg same]
        exact Finmap.lookup_insert_of_ne _ same

theorem lookup_push (job : Job) :
    (disk.push id job).rows.lookup other =
      if other = id then
        some { kind := job.kindLabel, payload := job.toJson, state := .queued,
               assignedTo := none, error := none }
      else disk.rows.lookup other := by
  unfold push
  by_cases same : other = id
  · subst same
    rw [if_pos rfl]
    exact Finmap.lookup_insert _
  · rw [if_neg same]
    exact Finmap.lookup_insert_of_ne _ same

theorem mem_update (change : Row → Row) :
    other ∈ (disk.update id change).rows ↔ other ∈ disk.rows := by
  rw [← Finmap.lookup_isSome, ← Finmap.lookup_isSome, lookup_update]
  by_cases same : other = id
  · rw [if_pos same, Option.isSome_map]
  · rw [if_neg same]

variable {id : JobId}

theorem le_maxId (member : id ∈ disk.rows) : id ≤ disk.maxId := by
  have key : id ∈ disk.rows.keys := Finmap.mem_keys.mpr member
  exact Finset.le_sup_of_le key (Nat.le_refl id)

theorem mem_ids (id : JobId) : id ∈ disk.ids ↔ id ∈ disk.rows := by
  unfold ids
  rw [List.mem_filter, List.mem_range]
  constructor
  · intro both
    exact of_decide_eq_true both.2
  · intro member
    have below := disk.le_maxId member
    exact ⟨Nat.lt_succ_of_le below, decide_eq_true member⟩

theorem ids_nodup : disk.ids.Nodup :=
  List.nodup_range.filter _

theorem ids_ascending : disk.ids.Pairwise (fun first second => first < second) :=
  List.pairwise_lt_range.filter _

theorem mem_queuedIds (id : JobId) :
    id ∈ disk.queuedIds ↔ ∃ row, disk.rows.lookup id = some row ∧ row.state = .queued := by
  unfold queuedIds
  rw [List.mem_filter, mem_ids, ← Finmap.lookup_isSome]
  cases disk.rows.lookup id with
  | none => simp
  | some row => simp

theorem queuedIds_ascending : disk.queuedIds.Pairwise (fun first second => first < second) :=
  disk.ids_ascending.filter _

theorem flip_flip (row : Row) : flip (flip row) = flip row := by
  unfold flip
  by_cases flying : row.state = .inFlight
  · simp [flying]
  · simp [flying]

theorem lookup_walk (table : DurableJobQueue) (walked : List JobId) (other : JobId) :
    (walked.foldl (fun current id => current.update id flip) table).rows.lookup other =
      if other ∈ walked then (table.rows.lookup other).map flip else table.rows.lookup other := by
  induction walked generalizing table with
  | nil => simp
  | cons head tail ih =>
      rw [List.foldl_cons, ih, lookup_update]
      by_cases later : other ∈ tail
      · rw [if_pos later, if_pos (List.mem_cons_of_mem _ later)]
        by_cases same : other = head
        · rw [if_pos same, Option.map_map]
          congr 1
          funext row
          exact flip_flip row
        · rw [if_neg same]
      · rw [if_neg later]
        by_cases same : other = head
        · rw [if_pos same, if_pos (by rw [same]; exact List.mem_cons_self)]
        · rw [if_neg same, if_neg]
          intro member
          exact (List.mem_cons.mp member).elim same later

theorem lookup_requeueAllInFlight (id : JobId) :
    disk.requeueAllInFlight.rows.lookup id = (disk.rows.lookup id).map flip := by
  unfold requeueAllInFlight
  rw [lookup_walk]
  by_cases present : id ∈ disk.rows
  · rw [if_pos ((disk.mem_ids id).mpr present)]
  · rw [if_neg (fun member => present ((disk.mem_ids id).mp member)),
      Finmap.lookup_eq_none.mpr present]
    rfl

theorem mem_requeueAllInFlight (id : JobId) :
    id ∈ disk.requeueAllInFlight.rows ↔ id ∈ disk.rows := by
  rw [← Finmap.lookup_isSome, ← Finmap.lookup_isSome, lookup_requeueAllInFlight,
    Option.isSome_map]

variable {disk : DurableJobQueue}

/-- No row is left in flight, and none changes its payload. -/
theorem lookup_recovering {row : Row} (found : disk.requeueAllInFlight.rows.lookup id = some row) :
    row.state ≠ .inFlight ∧
      ∃ before, disk.rows.lookup id = some before ∧ row.payload = before.payload ∧
        (row.state = .queued ↔ before.state = .queued ∨ before.state = .inFlight) := by
  rw [lookup_requeueAllInFlight] at found
  obtain ⟨before, held, same⟩ := Option.map_eq_some_iff.mp found
  subst same
  unfold flip
  by_cases flying : before.state = .inFlight
  · rw [if_pos flying]
    exact ⟨by simp, before, held, rfl, by simp [flying]⟩
  · rw [if_neg flying]
    exact ⟨flying, before, held, rfl, by simp [flying]⟩

variable {recovered : RecoveredJob}

theorem recoverRow_id {wanted : RowState} (found : disk.recoverRow wanted id = some recovered) :
    recovered.id = id := by
  unfold recoverRow at found
  obtain ⟨row, _, read⟩ := Option.bind_eq_some_iff.mp found
  split at read
  · obtain ⟨job, _, same⟩ := Option.map_eq_some_iff.mp read
    rw [← same]
  · cases read

theorem recoverRow_eq_some {row : Row} {job : Job}
    (found : disk.rows.lookup id = some row) (queued : row.state = .queued)
    (payload : Job.ofJson row.payload = some job) :
    disk.recoverRow .queued id =
      some { id := id, job := job, assignedTo := row.assignedTo } := by
  unfold recoverRow
  rw [found, Option.bind_some, if_pos queued, payload]
  rfl

theorem mem_recoverQueued :
    recovered ∈ disk.recoverQueued ↔ disk.recoverRow .queued recovered.id = some recovered := by
  unfold recoverQueued
  rw [List.mem_filterMap]
  constructor
  · intro found
    obtain ⟨id, _, read⟩ := found
    rw [recoverRow_id read]
    exact read
  · intro read
    refine ⟨recovered.id, ?_, read⟩
    rw [mem_ids]
    unfold recoverRow at read
    obtain ⟨row, held, _⟩ := Option.bind_eq_some_iff.mp read
    exact Finmap.mem_of_lookup_eq_some held

theorem recoverQueued_ids_sublist (disk : DurableJobQueue) :
    (disk.recoverQueued.map RecoveredJob.id).Sublist disk.ids := by
  unfold recoverQueued
  generalize disk.ids = order
  induction order with
  | nil => exact List.Sublist.slnil
  | cons head tail ih =>
      cases read : disk.recoverRow .queued head with
      | none =>
          rw [List.filterMap_cons_none read]
          exact ih.cons _
      | some recovered =>
          rw [List.filterMap_cons_some read, List.map_cons, recoverRow_id read]
          exact ih.cons_cons _

theorem recoverQueued_ids_nodup (disk : DurableJobQueue) :
    (disk.recoverQueued.map RecoveredJob.id).Nodup :=
  disk.recoverQueued_ids_sublist.nodup disk.ids_nodup

end DurableJobQueue

end Mneme.Supervisor
