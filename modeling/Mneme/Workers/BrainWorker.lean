/-
The brain worker process: a stdin reader, one task that runs the models, and a
task that forwards the results.
-/

import Mneme.Workers.Pipeline

namespace Mneme.Workers

open Common Transition

/-- A result by what its telemetry reads: the error message of a failed job,
and the statistics of any. -/
structure BrainResult where
  id : Nat
  error : Option String
  stats : Json

structure BrainWorker where
  stdin : List Line
  sending : Option BrainJob
  jobs : List BrainJob
  hand : Hand BrainJob BrainResult
  results : List BrainResult
  reports : List Report

inductive BrainEvent where
  | readLine
  | sendJob
  | recv
  | handled (error : Option String) (stats : Json)
  | sendResult
  /-- The result is serialised for stdout before it is reported. -/
  | forward (durationMs : Nat) (serialised : Bool)

namespace BrainWorker

/-- `channel_capacity`, of the job and result channels. -/
def channelCapacity : Nat := 256

def start (stdin : List Line) : BrainWorker :=
  { stdin := stdin
    sending := none
    jobs := []
    hand := .idle
    results := []
    reports := [] }

def outcome (durationMs : Nat) (result : BrainResult) : JobOutcome :=
  match result.error with
  | none => .ok none durationMs result.stats
  | some message => .err message durationMs result.stats

def reportsOf (durationMs : Nat) (result : BrainResult) : List Report :=
  if result.id ≠ 0 then [(result.id, outcome durationMs result)] else []

def step (state : BrainWorker) : BrainEvent → Option BrainWorker
  | .readLine =>
      match state.sending, state.stdin with
      | none, line :: rest =>
          match line.decode BrainJob.ofJson with
          | none => some { state with stdin := rest }
          -- A shutdown ends the process.
          | some .shutdown => none
          | some job => some { state with stdin := rest, sending := some job }
      | _, _ => none
  | .sendJob =>
      match state.sending with
      | none => none
      | some job =>
          if state.jobs.length < channelCapacity then
            some { state with sending := none, jobs := state.jobs ++ [job] }
          else none
  | .recv =>
      match state.hand, state.jobs with
      | .idle, job :: rest => some { state with jobs := rest, hand := .working job }
      | _, _ => none
  | .handled error stats =>
      match state.hand with
      | .working job => some { state with hand := .finished { id := job.id, error, stats } }
      | _ => none
  | .sendResult =>
      match state.hand with
      | .finished result =>
          if state.results.length < channelCapacity then
            some { state with hand := .idle, results := state.results ++ [result] }
          else none
      | _ => none
  | .forward durationMs serialised =>
      match state.results with
      | result :: rest =>
          some { state with
            results := rest
            reports := if serialised then state.reports ++ reportsOf durationMs result
              else state.reports }
      | [] => none

structure Quiescent (state : BrainWorker) : Prop where
  stdin : state.stdin = []
  sending : state.sending = none
  jobs : state.jobs = []
  hand : state.hand = .idle
  results : state.results = []

/-! ### Where the job ids are -/

/-- A line that decodes names its job inside the variant. -/
def lineId (line : Line) : Nat :=
  match line.decode BrainJob.ofJson with
  | some job => job.id
  | none => line.jobId

def ids (state : BrainWorker) : List Nat :=
  state.stdin.map lineId ++ (state.sending.toList.map BrainJob.id ++
    (state.jobs.map BrainJob.id ++ (state.hand.ids BrainJob.id BrainResult.id ++
      (state.results.map BrainResult.id ++ state.reports.map Prod.fst))))

/-- The job ids a step lets go of: a line that does not decode, and a result
that does not serialise. -/
def lost (state : BrainWorker) : BrainEvent → List Nat
  | .readLine =>
      match state.stdin with
      | line :: _ => if (line.decode BrainJob.ofJson).isSome then [] else [lineId line]
      | [] => []
  | .forward _ serialised =>
      match state.results with
      | result :: _ => if serialised then [] else [result.id]
      | [] => []
  | _ => []

theorem count_reportsOf (durationMs : Nat) (result : BrainResult) {id : Nat} (counted : id ≠ 0) :
    ((reportsOf durationMs result).map Prod.fst).count id = [result.id].count id := by
  exact count_reported result.id (outcome durationMs result) counted

theorem conserved {state after : BrainWorker} {event : BrainEvent}
    (taken : state.step event = some after) (id : Nat) (counted : id ≠ 0) :
    after.ids.count id + (state.lost event).count id = state.ids.count id := by
  cases event with
  | readLine =>
      simp only [step] at taken
      split at taken
      · rename_i line rest free front
        split at taken
        · rename_i undecoded
          cases taken
          simp only [ids, lost, front, undecoded, free, List.map_cons, List.count_append,
            List.count_cons, List.count_nil, Option.isSome_none, Bool.false_eq_true, if_false]
          omega
        · cases taken
        · rename_i job _ decoded
          cases taken
          have same : lineId line = job.id := by
            unfold lineId
            rw [decoded]
          simp only [ids, lost, front, decoded, free, same, List.map_cons, List.map_nil,
            List.count_append, List.count_cons, List.count_nil, Option.isSome_some, if_true,
            Option.toList_some, Option.toList_none]
          omega
      · cases taken
  | sendJob =>
      simp only [step] at taken
      split at taken
      · cases taken
      · rename_i job held
        split at taken
        · cases taken
          simp only [ids, lost, held, List.map_append, List.map_cons, List.map_nil,
            List.count_append, List.count_nil, Option.toList_some, Option.toList_none]
          omega
        · cases taken
  | recv =>
      simp only [step] at taken
      split at taken
      · rename_i job rest free front
        cases taken
        simp only [ids, lost, Hand.ids, free, front, List.map_cons, List.count_append,
          List.count_cons, List.count_nil]
        omega
      · cases taken
  | handled error stats =>
      simp only [step] at taken
      split at taken
      · rename_i job busy
        cases taken
        simp only [ids, lost, Hand.ids, busy, List.count_nil]
        omega
      · cases taken
  | sendResult =>
      simp only [step] at taken
      split at taken
      · rename_i held busy
        split at taken
        · cases taken
          simp only [ids, lost, Hand.ids, busy, List.map_append, List.map_cons, List.map_nil,
            List.count_append, List.count_nil]
          omega
        · cases taken
      · cases taken
  | forward durationMs serialised =>
      simp only [step] at taken
      split at taken
      · rename_i held rest front
        cases taken
        have sent := count_reportsOf durationMs held counted
        cases serialised with
        | true =>
            simp only [ids, lost, front, if_true, List.map_append, List.map_cons,
              List.count_append, List.count_cons, List.count_nil] at sent ⊢
            omega
        | false =>
            simp only [ids, lost, front, Bool.false_eq_true, if_false, List.map_cons,
              List.count_append, List.count_cons, List.count_nil]
            omega
      · cases taken

theorem quiescent_ids {state : BrainWorker} (quiescent : state.Quiescent) :
    state.ids = state.reports.map Prod.fst := by
  unfold ids
  rw [quiescent.stdin, quiescent.sending, quiescent.jobs, quiescent.hand, quiescent.results]
  rfl

theorem start_ids (stdin : List Line) : (start stdin).ids = stdin.map lineId := by
  unfold ids start
  simp [Hand.ids]

end BrainWorker

end Mneme.Workers
