/-
The cross-process job schema: what the CLI submits, what a worker reports.
-/

import Mneme.Library.Json
import Mneme.Common.Path

namespace Mneme.Common

/-- Job ids are machine words drawn from one counter, which starts at 1 and
never comes near its bound. -/
abbrev JobId := Nat

/-- `JobId::next`: the id handed out and the counter after it. -/
def JobId.next (counter : Nat) : JobId × Nat :=
  (counter, counter + 1)

/-- `JobId::seed_to`: the counter is only ever moved forward. -/
def JobId.seedTo (counter value : Nat) : Nat :=
  if value ≤ counter then counter else value

inductive Job where
  | parse (filePath shardRoot : Path)
  | scan (filePath : Path) (astId : Option Nat) (shardRoot : Path)
  | embed (nodeQualified text : String) (shardRoot : Path)
  | ingest (mdFile shardRoot : Path)
deriving DecidableEq, Repr

def Job.poolPrefix : Job → String
  | .parse .. => "parser-worker-"
  | .scan .. => "scanner-worker-"
  | .embed .. => "brain-worker"
  | .ingest .. => "md-ingest-worker"

def Job.kindLabel : Job → String
  | .parse .. => "parse"
  | .scan .. => "scan"
  | .embed .. => "embed"
  | .ingest .. => "ingest"

inductive JobOutcome where
  | ok (payload : Option Json) (durationMs : Nat) (stats : Json)
  | err (message : String) (durationMs : Nat) (stats : Json)

def JobOutcome.isOk : JobOutcome → Bool
  | .ok .. => true
  | .err .. => false

/-- The message of a failed outcome. -/
def JobOutcome.message? : JobOutcome → Option String
  | .ok .. => none
  | .err message .. => some message

/-! ### The serialised form of a job -/

/-- Internally tagged by `kind`, with the field names of the variant. -/
def Job.toJson : Job → Json
  | .parse filePath shardRoot =>
      .object [("kind", .string "parse"), ("file_path", .string filePath),
        ("shard_root", .string shardRoot)]
  | .scan filePath astId shardRoot =>
      .object [("kind", .string "scan"), ("file_path", .string filePath),
        ("ast_id", .option .nat astId), ("shard_root", .string shardRoot)]
  | .embed nodeQualified text shardRoot =>
      .object [("kind", .string "embed"), ("node_qualified", .string nodeQualified),
        ("text", .string text), ("shard_root", .string shardRoot)]
  | .ingest mdFile shardRoot =>
      .object [("kind", .string "ingest"), ("md_file", .string mdFile),
        ("shard_root", .string shardRoot)]

private def Job.ofFields (fields : List (String × Json)) : String → Option Job
  | "parse" => do
      let filePath ← Json.required fields "file_path" Json.string?
      let shardRoot ← Json.required fields "shard_root" Json.string?
      return .parse filePath shardRoot
  | "scan" => do
      let filePath ← Json.required fields "file_path" Json.string?
      let astId ← Json.optional fields "ast_id" Json.nat?
      let shardRoot ← Json.required fields "shard_root" Json.string?
      return .scan filePath astId shardRoot
  | "embed" => do
      let nodeQualified ← Json.required fields "node_qualified" Json.string?
      let text ← Json.required fields "text" Json.string?
      let shardRoot ← Json.required fields "shard_root" Json.string?
      return .embed nodeQualified text shardRoot
  | "ingest" => do
      let mdFile ← Json.required fields "md_file" Json.string?
      let shardRoot ← Json.required fields "shard_root" Json.string?
      return .ingest mdFile shardRoot
  | _ => none

def Job.ofJson (value : Json) : Option Job := do
  let fields ← value.struct?
    ["kind", "file_path", "shard_root", "ast_id", "node_qualified", "text", "md_file"]
  let kind ← Json.required fields "kind" Json.string?
  Job.ofFields fields kind

theorem Job.ofJson_toJson (job : Job) : Job.ofJson job.toJson = some job := by
  cases job with
  | parse filePath shardRoot => rfl
  | scan filePath astId shardRoot =>
      cases astId with
      | none => rfl
      | some astId => rfl
  | embed nodeQualified text shardRoot => rfl
  | ingest mdFile shardRoot => rfl

end Mneme.Common
