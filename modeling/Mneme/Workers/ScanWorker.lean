/-
The scan worker process: a stdin reader, tasks that share one job channel, a
batcher that drains their results, and a tap from which the reports are sent.
-/

import Mneme.Workers.Pipeline

namespace Mneme.Workers

open Common Transition

/-- The result of one scan, with the findings and the failed scanners by their
numbers. -/
structure ScanResult where
  jobId : Nat
  findings : Nat
  scanDurationMs : Nat
  failedScanners : Nat

/-- What a scan task holds; a finished result is tapped first and then sent to
the batcher. -/
inductive ScanHand where
  | idle
  | working (job : ScanJob)
  | tapping (result : ScanResult)
  | sending (result : ScanResult)

structure ScanWorker where
  stdin : List Line
  /-- The first line may still switch the process to its one-shot mode. -/
  first : Bool
  sending : Option ScanJob
  jobs : List ScanJob
  tasks : List ScanHand
  tap : List ScanResult
  results : List ScanResult
  reports : List Report

inductive ScanEvent where
  | readLine
  | sendJob
  | recv (task : Nat)
  | scanned (task : Nat) (findings scanDurationMs failedScanners : Nat)
  | trySend (task : Nat)
  | sendResult (task : Nat)
  | batch
  | report

namespace ScanWorker

/-- `CHANNEL_CAP`, of the job, tap and result channels. -/
def channelCapacity : Nat := 1024

def start (tasks : Nat) (stdin : List Line) : ScanWorker :=
  { stdin := stdin
    first := true
    sending := none
    jobs := []
    tasks := List.replicate tasks .idle
    tap := []
    results := []
    reports := [] }

def outcome (result : ScanResult) : JobOutcome :=
  if result.failedScanners = 0 then
    .ok none result.scanDurationMs
      (.object [("findings", .nat result.findings),
        ("failed_scanners", .nat result.failedScanners)])
  else
    .err s!"{result.failedScanners} scanner(s) failed" result.scanDurationMs
      (.object [("findings", .nat result.findings),
        ("failed_scanners", .nat result.failedScanners)])

def reportsOf (result : ScanResult) : List Report :=
  if result.jobId = 0 then [] else [(result.jobId, outcome result)]

/-- In the one-shot mode the process scans a project and exits. -/
def oneShot (first : Bool) : Line → Bool
  | .json value => first && orchestrates value
  | _ => false

def step (state : ScanWorker) : ScanEvent → Option ScanWorker
  | .readLine =>
      match state.sending, state.stdin with
      | none, line :: rest =>
          if oneShot state.first line then none
          else
            match line.decode ScanJob.ofJson with
            | none => some { state with stdin := rest, first := false }
            | some job =>
                some { state with stdin := rest, first := false, sending := some job }
      | _, _ => none
  | .sendJob =>
      match state.sending with
      | none => none
      | some job =>
          if state.jobs.length < channelCapacity then
            some { state with sending := none, jobs := state.jobs ++ [job] }
          else none
  | .recv task =>
      match state.tasks[task]?, state.jobs with
      | some .idle, job :: rest =>
          some { state with jobs := rest, tasks := state.tasks.set task (.working job) }
      | _, _ => none
  | .scanned task findings scanDurationMs failedScanners =>
      match state.tasks[task]? with
      | some (.working job) =>
          some { state with
            tasks := state.tasks.set task
              (.tapping { jobId := job.jobId, findings, scanDurationMs, failedScanners }) }
      | _ => none
  | .trySend task =>
      match state.tasks[task]? with
      | some (.tapping result) =>
          -- A full tap drops the entry; the result goes on to the batcher.
          some { state with
            tasks := state.tasks.set task (.sending result)
            tap := if state.tap.length < channelCapacity then state.tap ++ [result]
              else state.tap }
      | _ => none
  | .sendResult task =>
      match state.tasks[task]? with
      | some (.sending result) =>
          if state.results.length < channelCapacity then
            some { state with
              tasks := state.tasks.set task .idle
              results := state.results ++ [result] }
          else none
      | _ => none
  | .batch =>
      match state.results with
      | _ :: rest => some { state with results := rest }
      | [] => none
  | .report =>
      match state.tap with
      | result :: rest =>
          some { state with tap := rest, reports := state.reports ++ reportsOf result }
      | [] => none

structure Quiescent (state : ScanWorker) : Prop where
  stdin : state.stdin = []
  sending : state.sending = none
  jobs : state.jobs = []
  tasks : ∀ hand, hand ∈ state.tasks → hand = .idle
  tap : state.tap = []
  results : state.results = []

/-! ### Where the job ids are -/

/-- A result that was tapped is no longer counted. -/
def ScanHand.ids : ScanHand → List Nat
  | .working job => [job.jobId]
  | .tapping result => [result.jobId]
  | _ => []

def ids (state : ScanWorker) : List Nat :=
  state.stdin.map Line.jobId ++ (state.sending.toList.map ScanJob.jobId ++
    (state.jobs.map ScanJob.jobId ++ (state.tasks.flatMap ScanHand.ids ++
      (state.tap.map ScanResult.jobId ++ state.reports.map Prod.fst))))

/-- The job ids a step lets go of: a line that does not decode, and a result
that finds the tap full. -/
def lost (state : ScanWorker) : ScanEvent → List Nat
  | .readLine =>
      match state.stdin with
      | line :: _ => if (line.decode ScanJob.ofJson).isSome then [] else [line.jobId]
      | [] => []
  | .trySend task =>
      match state.tasks[task]? with
      | some (.tapping result) =>
          if state.tap.length < channelCapacity then [] else [result.jobId]
      | _ => []
  | _ => []

theorem jobId_of_decoded {line : Line} {job : ScanJob}
    (decoded : line.decode ScanJob.ofJson = some job) : line.jobId = job.jobId := by
  cases line with
  | json value =>
      change ScanJob.ofJson value = some job at decoded
      unfold ScanJob.ofJson at decoded
      simp only [Option.bind_eq_bind, Option.bind_eq_some_iff] at decoded
      obtain ⟨fields, struct, jobId, read, _, _, _, _, _, _, _, _, built⟩ := decoded
      cases built
      exact memberJobId_of_required struct read
  | blank => cases decoded
  | malformed => cases decoded

theorem count_reportsOf (result : ScanResult) {id : Nat} (counted : id ≠ 0) :
    ((reportsOf result).map Prod.fst).count id = [result.jobId].count id := by
  unfold reportsOf
  rw [← ite_not]
  exact count_reported result.jobId (outcome result) counted

theorem conserved {state after : ScanWorker} {event : ScanEvent}
    (taken : state.step event = some after) (id : Nat) (counted : id ≠ 0) :
    after.ids.count id + (state.lost event).count id = state.ids.count id := by
  cases event with
  | readLine =>
      simp only [step] at taken
      split at taken
      · rename_i line rest free front
        split at taken
        · cases taken
        · split at taken
          · rename_i undecoded
            cases taken
            simp only [ids, lost, front, undecoded, free, List.map_cons, List.count_append,
              List.count_cons, List.count_nil, Option.isSome_none, Bool.false_eq_true, if_false]
            omega
          · rename_i job decoded
            cases taken
            have same := jobId_of_decoded decoded
            simp only [ids, lost, front, decoded, free, same, List.map_cons, List.map_nil,
              List.count_append, List.count_cons, List.count_nil, Option.isSome_some, if_true,
              Option.toList_some, Option.toList_none]
            omega
      · cases taken
  | sendJob =>
      simp only [step] at taken
      split at taken
      · cases taken
      · rename_i job held
        split at taken
        · cases taken
          simp only [ids, lost, held, List.map_append, List.map_cons, List.map_nil,
            List.count_append, List.count_nil, Option.toList_some, Option.toList_none]
          omega
        · cases taken
  | recv task =>
      simp only [step] at taken
      split at taken
      · rename_i job rest found front
        cases taken
        have moved := count_flatMap_set ScanHand.ids state.tasks task _ (.working job) found id
        simp only [ScanHand.ids, List.count_nil] at moved
        simp only [ids, lost, front, List.map_cons, List.count_append, List.count_cons,
          List.count_nil] at moved ⊢
        omega
      · cases taken
  | scanned task findings scanDurationMs failedScanners =>
      simp only [step] at taken
      split at taken
      · rename_i job found
        cases taken
        have moved := count_flatMap_set ScanHand.ids state.tasks task _
          (.tapping { jobId := job.jobId, findings, scanDurationMs, failedScanners }) found id
        simp only [ScanHand.ids] at moved
        simp only [ids, lost, List.count_append, List.count_nil]
        omega
      · cases taken
  | trySend task =>
      simp only [step] at taken
      split at taken
      · rename_i held found
        cases taken
        have moved := count_flatMap_set ScanHand.ids state.tasks task _ (.sending held) found id
        simp only [ScanHand.ids, List.count_nil] at moved
        by_cases room : state.tap.length < channelCapacity
        · simp only [ids, lost, found, room, if_true, List.map_append, List.map_cons,
            List.map_nil, List.count_append, List.count_nil]
          omega
        · simp only [ids, lost, found, room, if_false, List.count_append]
          omega
      · cases taken
  | sendResult task =>
      simp only [step] at taken
      split at taken
      · rename_i held found
        split at taken
        · cases taken
          have moved := count_flatMap_set ScanHand.ids state.tasks task _ .idle found id
          simp only [ScanHand.ids, List.count_nil] at moved
          simp only [ids, lost, List.count_append, List.count_nil]
          omega
        · cases taken
      · cases taken
  | batch =>
      simp only [step] at taken
      split at taken
      · cases taken
        simp only [ids, lost, List.count_nil]
        omega
      · cases taken
  | report =>
      simp only [step] at taken
      split at taken
      · rename_i held rest front
        cases taken
        have sent := count_reportsOf held counted
        simp only [ids, lost, front, List.map_append, List.map_cons, List.count_append,
          List.count_cons, List.count_nil] at sent ⊢
        omega
      · cases taken

theorem quiescent_ids {state : ScanWorker} (quiescent : state.Quiescent) :
    state.ids = state.reports.map Prod.fst := by
  have idle : state.tasks.flatMap ScanHand.ids = [] := by
    rw [List.flatMap_eq_nil_iff]
    intro hand member
    rw [quiescent.tasks hand member]
    rfl
  unfold ids
  rw [quiescent.stdin, quiescent.sending, quiescent.jobs, quiescent.tap, idle]
  rfl

theorem start_ids (tasks : Nat) (stdin : List Line) :
    (start tasks stdin).ids = stdin.map Line.jobId := by
  have idle : (List.replicate tasks ScanHand.idle).flatMap ScanHand.ids = [] := by
    rw [List.flatMap_eq_nil_iff]
    intro hand member
    rw [(List.mem_replicate.mp member).2]
    rfl
  unfold ids start
  rw [idle]
  simp

end ScanWorker

end Mneme.Workers
