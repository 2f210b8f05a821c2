/-
The control commands the supervisor decodes and the responses it encodes.
-/

import Mneme.Common.Query
import Mneme.Supervisor.JobQueue

namespace Mneme.Supervisor

open Common

/-- Lifecycle state of a child. -/
inductive ChildStatus where
  | pending
  | running
  | restarting
  | degraded
  | stopped
deriving DecidableEq, Repr

inductive ControlCommand where
  | ping
  | status
  | logs (child : Option String) (n : Nat)
  | restart (child : String)
  | restartAll
  | stop
  | heartbeat (child : String)
  | dispatch (pool payload : String)
  | dispatchJob (job : Job)
  | workerCompleteJob (jobId : JobId) (outcome : JobOutcome)
  | jobQueueStatus
  | recall (project : Path) (query : String) (limit : Nat) (filterType : Option String)
  | blast (project : Path) (target : String) (depth : Nat)
  | godNodes (project : Path) (n : Nat)

/-- Times are written as texts. -/
structure ChildSnapshot where
  name : String
  status : ChildStatus
  pid : Option Nat
  restartCount : Nat
  currentUptimeMs : Nat
  totalUptimeMs : Nat
  lastExitCode : Option Int
  lastStartedAt : Option String
  lastRestartAt : Option String
  p50Us : Option Nat
  p95Us : Option Nat
  p99Us : Option Nat
  lastJobId : Option Nat
  lastJobDurationMs : Option Nat
  lastJobStatus : Option String
  lastJobCompletedAt : Option String
  avgJobMs : Option Nat
  totalJobsCompleted : Nat
  totalJobsFailed : Nat

inductive LogLevel where
  | trace
  | debug
  | info
  | warn
  | error
  | fatal

structure LogEntry where
  timestamp : String
  child : String
  level : LogLevel
  message : String
  fields : Option Json

inductive ControlResponse where
  | pong
  | status (children : List ChildSnapshot)
  | logs (entries : List LogEntry)
  | dispatched (worker : String)
  | jobQueued (jobId : JobId)
  | jobQueue (snapshot : JobQueueSnapshot)
  | ok (message : Option String)
  | recallResults (hits : List RecallHit)
  | blastResults (impacted : List BlastItem)
  | godNodesResults (nodes : List GodNode)
  | error (message : String)

/-! ### Decoding a command -/

/-- Internally tagged by `outcome`. -/
def outcomeOfJson (value : Json) : Option JobOutcome := do
  let (outcome, members) ← value.tagged? "outcome"
  match outcome with
  | "ok" =>
      let fields ← (Json.object members).struct? ["payload", "duration_ms", "stats"]
      let payload ← Json.optional fields "payload" some
      let durationMs ← Json.defaulted fields "duration_ms" 0 Json.nat?
      let stats ← Json.defaulted fields "stats" .null some
      return .ok payload durationMs stats
  | "err" =>
      let fields ← (Json.object members).struct? ["message", "duration_ms", "stats"]
      let message ← Json.required fields "message" Json.string?
      let durationMs ← Json.defaulted fields "duration_ms" 0 Json.nat?
      let stats ← Json.defaulted fields "stats" .null some
      return .err message durationMs stats
  | _ => none

/-- Internally tagged by `command`; an unknown tag is refused. -/
def ControlCommand.ofJson (value : Json) : Option ControlCommand := do
  let (command, members) ← value.tagged? "command"
  match command with
  | "ping" => return .ping
  | "status" => return .status
  | "logs" =>
      let fields ← (Json.object members).struct? ["child", "n"]
      let child ← Json.optional fields "child" Json.string?
      let n ← Json.required fields "n" Json.nat?
      return .logs child n
  | "restart" =>
      let fields ← (Json.object members).struct? ["child"]
      let child ← Json.required fields "child" Json.string?
      return .restart child
  | "restart_all" => return .restartAll
  | "stop" => return .stop
  | "heartbeat" =>
      let fields ← (Json.object members).struct? ["child"]
      let child ← Json.required fields "child" Json.string?
      return .heartbeat child
  | "dispatch" =>
      let fields ← (Json.object members).struct? ["pool", "payload"]
      let pool ← Json.required fields "pool" Json.string?
      let payload ← Json.required fields "payload" Json.string?
      return .dispatch pool payload
  | "dispatch_job" =>
      let fields ← (Json.object members).struct? ["job"]
      let job ← Json.required fields "job" Job.ofJson
      return .dispatchJob job
  | "worker_complete_job" =>
      let fields ← (Json.object members).struct? ["job_id", "outcome"]
      let jobId ← Json.required fields "job_id" Json.nat?
      let outcome ← Json.required fields "outcome" outcomeOfJson
      return .workerCompleteJob jobId outcome
  | "job_queue_status" => return .jobQueueStatus
  | "recall" =>
      let fields ← (Json.object members).struct? ["project", "query", "limit", "filter_type"]
      let project ← Json.required fields "project" Json.string?
      let query ← Json.required fields "query" Json.string?
      let limit ← Json.required fields "limit" Json.nat?
      let filterType ← Json.optional fields "filter_type" Json.string?
      return .recall project query limit filterType
  | "blast" =>
      let fields ← (Json.object members).struct? ["project", "target", "depth"]
      let project ← Json.required fields "project" Json.string?
      let target ← Json.required fields "target" Json.string?
      let depth ← Json.required fields "depth" Json.nat?
      return .blast project target depth
  | "god_nodes" =>
      let fields ← (Json.object members).struct? ["project", "n"]
      let project ← Json.required fields "project" Json.string?
      let n ← Json.required fields "n" Json.nat?
      return .godNodes project n
  | _ => none

/-! ### Encoding a response -/

def ChildStatus.toJson : ChildStatus → Json
  | .pending => .string "pending"
  | .running => .string "running"
  | .restarting => .string "restarting"
  | .degraded => .string "degraded"
  | .stopped => .string "stopped"

def ChildSnapshot.toJson (snapshot : ChildSnapshot) : Json :=
  .object ([("name", .string snapshot.name), ("status", snapshot.status.toJson),
      ("pid", .option .nat snapshot.pid), ("restart_count", .nat snapshot.restartCount),
      ("current_uptime_ms", .nat snapshot.currentUptimeMs),
      ("total_uptime_ms", .nat snapshot.totalUptimeMs),
      ("last_exit_code", .option .int snapshot.lastExitCode)] ++
    Json.present "last_started_at" .string snapshot.lastStartedAt ++
    Json.present "last_restart_at" .string snapshot.lastRestartAt ++
    [("p50_us", .option .nat snapshot.p50Us), ("p95_us", .option .nat snapshot.p95Us),
      ("p99_us", .option .nat snapshot.p99Us)] ++
    Json.present "last_job_id" .nat snapshot.lastJobId ++
    Json.present "last_job_duration_ms" .nat snapshot.lastJobDurationMs ++
    Json.present "last_job_status" .string snapshot.lastJobStatus ++
    Json.present "last_job_completed_at" .string snapshot.lastJobCompletedAt ++
    Json.present "avg_job_ms" .nat snapshot.avgJobMs ++
    [("total_jobs_completed", .nat snapshot.totalJobsCompleted),
      ("total_jobs_failed", .nat snapshot.totalJobsFailed)])

def LogLevel.toJson : LogLevel → Json
  | .trace => .string "trace"
  | .debug => .string "debug"
  | .info => .string "info"
  | .warn => .string "warn"
  | .error => .string "error"
  | .fatal => .string "fatal"

def LogEntry.toJson (entry : LogEntry) : Json :=
  .object [("timestamp", .string entry.timestamp), ("child", .string entry.child),
    ("level", entry.level.toJson), ("message", .string entry.message),
    ("fields", .option id entry.fields)]

def JobQueueSnapshot.toJson (snapshot : JobQueueSnapshot) : Json :=
  .object [("pending", .nat snapshot.pending), ("in_flight", .nat snapshot.inFlight),
    ("completed", .nat snapshot.completed), ("failed", .nat snapshot.failed),
    ("requeued", .nat snapshot.requeued)]

/-- Internally tagged by `response`. -/
def ControlResponse.toJson : ControlResponse → Json
  | .pong => .object [("response", .string "pong")]
  | .status children =>
      .object [("response", .string "status"), ("children", .list ChildSnapshot.toJson children)]
  | .logs entries =>
      .object [("response", .string "logs"), ("entries", .list LogEntry.toJson entries)]
  | .dispatched worker =>
      .object [("response", .string "dispatched"), ("worker", .string worker)]
  | .jobQueued jobId => .object [("response", .string "job_queued"), ("job_id", .nat jobId)]
  | .jobQueue snapshot =>
      .object [("response", .string "job_queue"), ("snapshot", snapshot.toJson)]
  | .ok message => .object [("response", .string "ok"), ("message", .option .string message)]
  | .recallResults hits =>
      .object [("response", .string "recall_results"), ("hits", .list RecallHit.toJson hits)]
  | .blastResults impacted =>
      .object [("response", .string "blast_results"),
        ("impacted", .list BlastItem.toJson impacted)]
  | .godNodesResults nodes =>
      .object [("response", .string "god_nodes_results"), ("nodes", .list GodNode.toJson nodes)]
  | .error message => .object [("response", .string "error"), ("message", .string message)]

end Mneme.Supervisor
