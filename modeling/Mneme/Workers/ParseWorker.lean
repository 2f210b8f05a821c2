/-
The parse worker process: a stdin reader that deals jobs out round robin, one
task for each parser, and a task that emits the results.
-/

import Mneme.Workers.Pipeline

namespace Mneme.Workers

open Common Parsers Transition

/-- The result of one parse, with the extracted lists by their lengths. -/
structure ParseResult where
  jobId : Nat
  filePath : Path
  language : Language
  nodes : Nat
  edges : Nat
  syntaxErrors : Nat
  parseDurationMs : Nat
  incremental : Bool

/-- What parsing and extracting a job came to, whatever the file held. -/
structure Parsed where
  nodes : Nat
  edges : Nat
  syntaxErrors : Nat
  parseDurationMs : Nat
  incremental : Bool

structure Parser where
  queue : List ParseJob
  hand : Hand ParseJob (Except String ParseResult)

structure ParseWorker where
  stdin : List Line
  /-- The job the reader is sending, and to which parser. -/
  sending : Option (Nat × ParseJob)
  next : Nat
  parsers : List Parser
  results : List (Except String ParseResult)
  reports : List Report

inductive ParseEvent where
  | readLine
  | sendJob
  | recv (parser : Nat)
  | handled (parser : Nat) (outcome : Except String Parsed)
  | sendResult (parser : Nat)
  | emit

namespace ParseWorker

def jobCapacity : Nat := 64

def resultCapacity : Nat := 1024

def start (parsers : Nat) (stdin : List Line) : ParseWorker :=
  { stdin := stdin
    sending := none
    next := 0
    parsers := List.replicate parsers { queue := [], hand := .idle }
    results := []
    reports := [] }

def result (job : ParseJob) : Except String Parsed → Except String ParseResult
  | .error error => .error error
  | .ok parsed =>
      .ok
        { jobId := job.jobId
          filePath := job.filePath
          language := job.language
          nodes := parsed.nodes
          edges := parsed.edges
          syntaxErrors := parsed.syntaxErrors
          parseDurationMs := parsed.parseDurationMs
          incremental := parsed.incremental }

/-- An error carries no job id. -/
def resultId : Except String ParseResult → Nat
  | .ok result => result.jobId
  | .error _ => 0

def outcome : Except String ParseResult → JobOutcome
  | .ok result =>
      .ok
        (some (.object [("file_path", .string result.filePath),
          ("language", .string result.language.serdeName), ("nodes_len", .nat result.nodes),
          ("edges_len", .nat result.edges), ("syntax_errors_len", .nat result.syntaxErrors),
          ("incremental", .bool result.incremental)]))
        result.parseDurationMs
        (.object [("nodes", .nat result.nodes), ("edges", .nat result.edges),
          ("syntax_errors", .nat result.syntaxErrors), ("incremental", .bool result.incremental)])
  | .error error => .err error 0 .null

/-- A report is sent for a result with a job id of its own. -/
def reportsOf (result : Except String ParseResult) : List Report :=
  if resultId result ≠ 0 then [(resultId result, outcome result)] else []

def step (state : ParseWorker) : ParseEvent → Option ParseWorker
  | .readLine =>
      match state.sending, state.stdin with
      | none, line :: rest =>
          match line.decode ParseJob.ofJson with
          | none => some { state with stdin := rest }
          | some job =>
              some { state with
                stdin := rest
                sending := some (state.next % state.parsers.length, job)
                next := state.next + 1 }
      | _, _ => none
  | .sendJob =>
      match state.sending with
      | none => none
      | some (target, job) =>
          match state.parsers[target]? with
          | none => none
          | some parser =>
              if parser.queue.length < jobCapacity then
                some { state with
                  sending := none
                  parsers := state.parsers.set target
                    { parser with queue := parser.queue ++ [job] } }
              else none
  | .recv target =>
      match state.parsers[target]? with
      | some ⟨job :: rest, .idle⟩ =>
          some { state with
            parsers := state.parsers.set target { queue := rest, hand := .working job } }
      | _ => none
  | .handled target outcome =>
      match state.parsers[target]? with
      | some ⟨queue, .working job⟩ =>
          some { state with
            parsers := state.parsers.set target
              { queue := queue, hand := .finished (result job outcome) } }
      | _ => none
  | .sendResult target =>
      match state.parsers[target]? with
      | some ⟨queue, .finished result⟩ =>
          if state.results.length < resultCapacity then
            some { state with
              parsers := state.parsers.set target { queue := queue, hand := .idle }
              results := state.results ++ [result] }
          else none
      | _ => none
  | .emit =>
      match state.results with
      | result :: rest =>
          some { state with results := rest, reports := state.reports ++ reportsOf result }
      | [] => none

/-- All lines read, all channels empty, all tasks idle. -/
structure Quiescent (state : ParseWorker) : Prop where
  stdin : state.stdin = []
  sending : state.sending = none
  parsers : ∀ parser, parser ∈ state.parsers → parser.queue = [] ∧ parser.hand = .idle
  results : state.results = []

def Parser.idle (parser : Parser) : Bool :=
  match parser.queue, parser.hand with
  | [], .idle => true
  | _, _ => false

/-- The test for quiescence. -/
def idle (state : ParseWorker) : Bool :=
  state.stdin.isEmpty && state.sending.isNone && state.parsers.all Parser.idle &&
    state.results.isEmpty

theorem Parser.of_idle {parser : Parser} (idle : Parser.idle parser = true) :
    parser.queue = [] ∧ parser.hand = .idle := by
  unfold Parser.idle at idle
  split at idle
  · rename_i empty free
    exact ⟨empty, free⟩
  · cases idle

variable {state : ParseWorker}

theorem quiescent_of_idle (idle : state.idle = true) : state.Quiescent := by
  unfold ParseWorker.idle at idle
  simp only [Bool.and_eq_true] at idle
  obtain ⟨⟨⟨stdin, sending⟩, parsers⟩, results⟩ := idle
  refine ⟨?_, ?_, ?_, ?_⟩
  · exact List.isEmpty_iff.mp stdin
  · exact Option.isNone_iff_eq_none.mp sending
  · intro parser member
    exact Parser.of_idle (List.all_eq_true.mp parsers parser member)
  · exact List.isEmpty_iff.mp results

/-! ### Where the job ids are -/

def Parser.ids (parser : Parser) : List Nat :=
  parser.queue.map ParseJob.jobId ++ parser.hand.ids ParseJob.jobId resultId

/-- The job ids in the process and in the reports it has sent. -/
def ids (state : ParseWorker) : List Nat :=
  state.stdin.map Line.jobId ++ (state.sending.toList.map (fun held => held.2.jobId) ++
    (state.parsers.flatMap Parser.ids ++ (state.results.map resultId ++
      state.reports.map Prod.fst)))

/-- The job ids a step lets go of: a line that does not decode, and a job that
does not parse. -/
def lost (state : ParseWorker) : ParseEvent → List Nat
  | .readLine =>
      match state.stdin with
      | line :: _ => if (line.decode ParseJob.ofJson).isSome then [] else [line.jobId]
      | [] => []
  | .handled target (.error _) =>
      match state.parsers[target]? with
      | some ⟨_, .working job⟩ => [job.jobId]
      | _ => []
  | _ => []

theorem jobId_of_decoded {line : Line} {job : ParseJob}
    (decoded : line.decode ParseJob.ofJson = some job) : line.jobId = job.jobId := by
  cases line with
  | json value =>
      change ParseJob.ofJson value = some job at decoded
      unfold ParseJob.ofJson at decoded
      simp only [Option.bind_eq_bind, Option.bind_eq_some_iff] at decoded
      obtain ⟨fields, struct, _, _, _, _, _, _, _, _, jobId, read, built⟩ := decoded
      cases built
      exact memberJobId_of_defaulted struct read
  | blank => cases decoded
  | malformed => cases decoded

theorem count_reportsOf (result : Except String ParseResult) {id : Nat} (counted : id ≠ 0) :
    ((reportsOf result).map Prod.fst).count id = [resultId result].count id := by
  exact count_reported (resultId result) (outcome result) counted

theorem conserved {after : ParseWorker} {event : ParseEvent}
    (taken : state.step event = some after) (id : Nat) (counted : id ≠ 0) :
    after.ids.count id + (state.lost event).count id = state.ids.count id := by
  cases event with
  | readLine =>
      simp only [step] at taken
      split at taken
      · rename_i line rest free front
        split at taken
        · rename_i undecoded
          cases taken
          simp only [ids, lost, front, undecoded, free, List.map_cons, List.count_append,
            List.count_cons, List.count_nil, Option.isSome_none, Bool.false_eq_true, if_false]
          omega
        · rename_i job decoded
          cases taken
          have same := jobId_of_decoded decoded
          simp only [ids, lost, front, decoded, free, same, List.map_cons, List.map_nil,
            List.count_append, List.count_cons, List.count_nil, Option.isSome_some, if_true,
            Option.toList_some, Option.toList_none]
          omega
      · cases taken
  | sendJob =>
      simp only [step] at taken
      split at taken
      · cases taken
      · rename_i target job held
        split at taken
        · cases taken
        · rename_i parser found
          split at taken
          · cases taken
            have moved := count_flatMap_set Parser.ids state.parsers target parser
              { parser with queue := parser.queue ++ [job] } found id
            simp only [Parser.ids, List.map_append, List.map_cons, List.map_nil, List.count_append] at moved
            simp only [ids, lost, held, List.count_append, List.count_nil, Option.toList_some,
              Option.toList_none, List.map_cons, List.map_nil]
            omega
          · cases taken
  | recv target =>
      simp only [step] at taken
      split at taken
      · rename_i job rest found
        cases taken
        have moved := count_flatMap_set Parser.ids state.parsers target _
          { queue := rest, hand := .working job } found id
        simp only [Parser.ids, Hand.ids, List.map_cons, List.count_append, List.count_cons,
          List.count_nil] at moved
        simp only [ids, lost, List.count_append, List.count_nil]
        omega
      · cases taken
  | handled target outcome =>
      simp only [step] at taken
      split at taken
      · rename_i queue job found
        cases taken
        have moved := count_flatMap_set Parser.ids state.parsers target _
          { queue := queue, hand := .finished (result job outcome) } found id
        cases outcome with
        | error error =>
            simp only [Parser.ids, Hand.ids, result, resultId, List.count_append, List.count_cons,
              List.count_nil, beq_iff_eq, counted.symm, if_false] at moved
            simp only [ids, lost, result, found, List.count_append, List.count_cons,
              List.count_nil, beq_iff_eq]
            omega
        | ok parsed =>
            simp only [Parser.ids, Hand.ids, result, resultId, List.count_append] at moved
            simp only [ids, lost, result, List.count_append, List.count_nil]
            omega
      · cases taken
  | sendResult target =>
      simp only [step] at taken
      split at taken
      · rename_i queue held found
        split at taken
        · cases taken
          have moved := count_flatMap_set Parser.ids state.parsers target _
            { queue := queue, hand := .idle } found id
          simp only [Parser.ids, Hand.ids, List.count_append, List.count_nil] at moved
          simp only [ids, lost, List.map_append, List.map_cons, List.map_nil, List.count_append,
            List.count_nil]
          omega
        · cases taken
      · cases taken
  | emit =>
      simp only [step] at taken
      split at taken
      · rename_i held rest front
        cases taken
        have sent := count_reportsOf held counted
        simp only [ids, lost, front, List.map_append, List.map_cons, List.count_append,
          List.count_cons, List.count_nil] at sent ⊢
        omega
      · cases taken

theorem quiescent_ids (quiescent : state.Quiescent) : state.ids = state.reports.map Prod.fst := by
  have idle : state.parsers.flatMap Parser.ids = [] := by
    rw [List.flatMap_eq_nil_iff]
    intro parser member
    obtain ⟨empty, free⟩ := quiescent.parsers parser member
    unfold Parser.ids
    rw [empty, free]
    rfl
  unfold ids
  rw [quiescent.stdin, quiescent.sending, quiescent.results, idle]
  rfl

theorem start_ids (parsers : Nat) (stdin : List Line) :
    (start parsers stdin).ids = stdin.map Line.jobId := by
  have idle : (List.replicate parsers (Parser.mk [] .idle)).flatMap Parser.ids = [] := by
    rw [List.flatMap_eq_nil_iff]
    intro parser member
    rw [(List.mem_replicate.mp member).2]
    rfl
  unfold ids start
  rw [idle]
  simp

end ParseWorker

end Mneme.Workers
