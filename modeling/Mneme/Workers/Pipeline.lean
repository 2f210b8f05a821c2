/-
What the worker processes share: lines of stdin, channels and reports.  A line is one
JSON value, decoded by each worker into its own job type.

Each worker is a chain of tasks joined by bounded channels.  A send waits for
room, a receive waits for an item, and the tasks take their steps in any order.
The supervisor is reachable and the process stays alive, so stdout and the
report socket never fail.
-/

import Mneme.Common.Jobs
import Mneme.Library.Run
import Mneme.Parsers.Language

namespace Mneme.Workers

open Common Parsers

/-! ### The parse worker -/

structure ParseJob where
  filePath : Path
  language : Language
  content : String
  prevTreeId : Option Nat
  contentHash : Option (List Nat)
  jobId : Nat

/-- `JobWire` and its conversion. -/
def ParseJob.ofJson (line : Json) : Option ParseJob := do
  let fields ← line.struct? ["file_path", "language", "content", "prev_tree_id", "job_id"]
  let filePath ← Json.required fields "file_path" Json.string?
  let language ← Json.required fields "language" Language.ofJson
  let content ← Json.required fields "content" Json.string?
  let prevTreeId ← Json.optional fields "prev_tree_id" Json.nat?
  let jobId ← Json.defaulted fields "job_id" 0 Json.nat?
  return { filePath, language, content, prevTreeId, contentHash := none, jobId }

/-! ### The scan worker -/

structure ScanJob where
  filePath : Path
  content : String
  astId : Option Nat
  scannerFilter : List String
  jobId : Nat

/-- `StdinJob` and its conversion. -/
def ScanJob.ofJson (line : Json) : Option ScanJob := do
  let fields ← line.struct? ["job_id", "file_path", "content", "ast_id", "scanner_filter"]
  let jobId ← Json.required fields "job_id" Json.nat?
  let filePath ← Json.required fields "file_path" Json.string?
  let content ← Json.required fields "content" Json.string?
  let astId ← Json.optional fields "ast_id" Json.nat?
  let scannerFilter ← Json.defaulted fields "scanner_filter" [] Json.strings?
  return { filePath, content, astId, scannerFilter, jobId }

structure OrchestratorCommand where
  action : String
  projectRoot : Path
  scope : String
  scannerFilter : List String

def OrchestratorCommand.ofJson (line : Json) : Option OrchestratorCommand := do
  let fields ← line.struct? ["action", "project_root", "scope", "scanner_filter"]
  let action ← Json.required fields "action" Json.string?
  let projectRoot ← Json.required fields "project_root" Json.string?
  let scope ← Json.defaulted fields "scope" "full" Json.string?
  let scannerFilter ← Json.defaulted fields "scanner_filter" [] Json.strings?
  return { action, projectRoot, scope, scannerFilter }

/-- The worker's first line may switch it to the one-shot mode, in which it
reads no jobs. -/
def orchestrates (line : Json) : Bool :=
  match OrchestratorCommand.ofJson line with
  | some command => command.action == "scan_all"
  | none => false

def ScanJob.ofLine (first : Bool) (line : Json) : Option ScanJob :=
  if first && orchestrates line then none else ScanJob.ofJson line

/-! ### The brain worker -/

abbrev NodeId := Nat

inductive BrainJob where
  | embed (id : Nat) (node : Option NodeId) (text : String)
  | embedBatch (id : Nat) (items : List (Option NodeId × String))
  | cluster (id : Nat) (edges : List (NodeId × NodeId × Rat)) (seed : Option Nat)
  | extractConcepts (id : Nat) (node : Option NodeId) (kind text : String)
  | summarize (id : Nat) (node : Option NodeId) (signature body : String)
  | shutdown

def BrainJob.id : BrainJob → Nat
  | .embed id _ _ => id
  | .embedBatch id _ => id
  | .cluster id _ _ => id
  | .extractConcepts id _ _ _ => id
  | .summarize id _ _ _ => id
  | .shutdown => 0

private def batchItem : Json → Option (Option NodeId × String)
  | .array [.null, text] => text.string?.map (fun text => (none, text))
  | .array [node, text] => do
      let node ← node.nat?
      let text ← text.string?
      return (some node, text)
  | _ => none

private def edgeItem : Json → Option (NodeId × NodeId × Rat)
  | .array [source, target, weight] => do
      let source ← source.nat?
      let target ← target.nat?
      let weight ← weight.number?
      return (source, target, weight)
  | _ => none

/-- The fields of one variant. -/
private def BrainJob.ofVariant (content : Json) : String → Option BrainJob
  | "Embed" => do
      let fields ← content.struct? ["id", "node", "text"]
      let id ← Json.required fields "id" Json.nat?
      let node ← Json.optional fields "node" Json.nat?
      let text ← Json.required fields "text" Json.string?
      return .embed id node text
  | "EmbedBatch" => do
      let fields ← content.struct? ["id", "items"]
      let id ← Json.required fields "id" Json.nat?
      let items ← Json.required fields "items" Json.array?
      let items ← items.mapM batchItem
      return .embedBatch id items
  | "Cluster" => do
      let fields ← content.struct? ["id", "edges", "seed"]
      let id ← Json.required fields "id" Json.nat?
      let edges ← Json.required fields "edges" Json.array?
      let edges ← edges.mapM edgeItem
      let seed ← Json.optional fields "seed" Json.nat?
      return .cluster id edges seed
  | "ExtractConcepts" => do
      let fields ← content.struct? ["id", "node", "kind", "text"]
      let id ← Json.required fields "id" Json.nat?
      let node ← Json.optional fields "node" Json.nat?
      let kind ← Json.required fields "kind" Json.string?
      let text ← Json.required fields "text" Json.string?
      return .extractConcepts id node kind text
  | "Summarize" => do
      let fields ← content.struct? ["id", "node", "signature", "body"]
      let id ← Json.required fields "id" Json.nat?
      let node ← Json.optional fields "node" Json.nat?
      let signature ← Json.required fields "signature" Json.string?
      let body ← Json.required fields "body" Json.string?
      return .summarize id node signature body
  | "Shutdown" =>
      match content with
      | .null => some .shutdown
      | _ => none
  | _ => none

/-- Externally tagged: an object whose only member is the variant, or the bare
name of a variant without fields. -/
def BrainJob.ofJson : Json → Option BrainJob
  | .string "Shutdown" => some .shutdown
  | .object [(variant, content)] => BrainJob.ofVariant content variant
  | _ => none

/-! ### The ingest worker -/

structure IngestJob where
  jobId : Nat
  mdFile : Path

def IngestJob.ofJson (line : Json) : Option IngestJob := do
  let fields ← line.struct? ["job_id", "md_file"]
  let jobId ← Json.defaulted fields "job_id" 0 Json.nat?
  let mdFile ← Json.required fields "md_file" Json.string?
  return { jobId, mdFile }

/-! ### A line at the worker of a pool -/

inductive Received where
  | parse (job : ParseJob)
  | scan (job : ScanJob)
  | brain (job : BrainJob)
  | ingest (job : IngestJob)

/-- The stdin decoder of the worker a pool prefix selects; `first` tells the
first line of the worker's stdin. -/
def receive (poolPrefix : String) (first : Bool) (line : Json) : Option Received :=
  match poolPrefix with
  | "parser-worker-" => (ParseJob.ofJson line).map .parse
  | "scanner-worker-" => (ScanJob.ofLine first line).map .scan
  | "brain-worker" => (BrainJob.ofJson line).map .brain
  | "md-ingest-worker" => (IngestJob.ofJson line).map .ingest
  | _ => none

end Mneme.Workers

namespace Mneme.Workers

open Common

/-- A line of stdin: only white space, no JSON at all, or a JSON value. -/
inductive Line where
  | blank
  | malformed
  | json (value : Json)

def Line.decode {α : Type} (ofJson : Json → Option α) : Line → Option α
  | .json value => ofJson value
  | _ => none

/-- The `job_id` member the router puts into a line. -/
def memberJobId : Json → Nat
  | .object fields => ((fields.lookup "job_id").bind Json.nat?).getD 0
  | _ => 0

/-- The job a line was written for, 0 when it names none. -/
def Line.jobId : Line → Nat
  | .json value => memberJobId value
  | _ => 0

/-- What a worker task holds between two steps. -/
inductive Hand (Job Result : Type) where
  | idle
  | working (job : Job)
  | finished (result : Result)

def Hand.ids {Job Result : Type} (job : Job → Nat) (result : Result → Nat) :
    Hand Job Result → List Nat
  | .idle => []
  | .working held => [job held]
  | .finished held => [result held]

/-- A report sent to the supervisor. -/
abbrev Report := JobId × JobOutcome

/-- A worker reports a result unless its job id is 0. -/
theorem count_reported (jobId : Nat) (outcome : JobOutcome) {id : Nat} (counted : id ≠ 0) :
    ((if jobId ≠ 0 then [(jobId, outcome)] else []).map Prod.fst).count id = [jobId].count id := by
  by_cases nonzero : jobId ≠ 0
  · rw [if_pos nonzero]
    rfl
  · rw [if_neg nonzero]
    have zero : jobId = 0 := by omega
    rw [zero]
    simp [counted.symm]

theorem count_flatMap_set {α : Type} (ids : α → List Nat) (items : List α) (index : Nat)
    (old new : α) (found : items[index]? = some old) (id : Nat) :
    ((items.set index new).flatMap ids).count id + (ids old).count id =
      (items.flatMap ids).count id + (ids new).count id := by
  induction items generalizing index with
  | nil => cases found
  | cons head tail ih =>
      cases index with
      | zero =>
          simp only [List.getElem?_cons_zero, Option.some.injEq] at found
          subst found
          simp only [List.set_cons_zero, List.flatMap_cons, List.count_append]
          omega
      | succ index =>
          rw [List.getElem?_cons_succ] at found
          have rest := ih index found
          simp only [List.set_cons_succ, List.flatMap_cons, List.count_append]
          omega

variable {fields : List (String × Json)}

variable {known : List String}

/-- A struct decoder that defaults an absent `job_id` to 0 reads the router's
member. -/
theorem memberJobId_of_defaulted {value : Json}
    {jobId : Nat} (struct : value.struct? known = some fields)
    (read : Json.defaulted fields "job_id" 0 Json.nat? = some jobId) :
    memberJobId value = jobId := by
  cases value with
  | object members =>
      rw [Json.struct?_object] at struct
      split at struct
      · cases struct
        unfold Json.defaulted at read
        unfold memberJobId
        cases found : fields.lookup "job_id" with
        | none =>
            simp only [found, Option.some.injEq] at read
            simp only [found, Option.bind_none, Option.getD_none]
            exact read
        | some member =>
            simp only [found] at read
            simp only [found, Option.bind_some, read, Option.getD_some]
      · cases struct
  | _ => cases struct

theorem memberJobId_of_required {value : Json}
    {jobId : Nat} (struct : value.struct? known = some fields)
    (read : Json.required fields "job_id" Json.nat? = some jobId) : memberJobId value = jobId := by
  cases value with
  | object members =>
      rw [Json.struct?_object] at struct
      split at struct
      · cases struct
        unfold Json.required at read
        unfold memberJobId
        simp only [read, Option.getD_some]
      · cases struct
  | _ => cases struct

end Mneme.Workers
