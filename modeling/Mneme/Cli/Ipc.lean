/-
The CLI's copy of the control protocol and its agreement with the supervisor's.

The requests are encoded from one enum and decoded into another, and the
responses the other way round; a value gets across when the other end decodes
a value that says the same.
-/

import Mneme.Supervisor.Control

namespace Mneme.Cli

open Common Supervisor

inductive IpcRequest where
  | ping
  | status (project : Option Path)
  | build (project : Path) (incremental : Bool)
  | update (project : Path)
  | graphify (project : Path)
  | recall (project : Path) (query : String) (limit : Nat) (filterType : Option String)
  | blast (project : Path) (target : String) (depth : Nat)
  | godNodes (project : Path) (n : Nat)
  | drift (severity : Option String)
  | history (query : String) (since : Option String)
  | snapshot (project : Option Path)
  | doctor
  | rebuild (project : Path)
  | audit (scope : String)
  | step (op : String) (arg : Option String)
  | sessionPrime (project : Path) (sessionId : String)
  | inject (prompt sessionId : String) (cwd : Path)
  | preTool (tool params sessionId : String)
  | postTool (tool : String) (resultFile : Path) (sessionId : String)
  | turnEnd (sessionId : String)
  | sessionEnd (sessionId : String)
  | daemon (op : String)
  | stop
  | logs (child : Option String) (n : Nat)
  | restart (child : String)
  | restartAll
  | heartbeat (child : String)
  | raw (channel : String) (payload : Json)
  | dispatchJob (job : Job)
  | jobQueueStatus

/-- The CLI keeps the parts it only prints as plain JSON. -/
inductive IpcResponse where
  | pong
  | status (children : List Json)
  | logs (entries : List Json)
  | ok (message : Option String)
  | jobQueued (jobId : JobId)
  | jobQueue (snapshot : Json)
  | recallResults (hits : List RecallHit)
  | blastResults (impacted : List BlastItem)
  | godNodesResults (nodes : List GodNode)
  | error (message : String)

namespace IpcRequest

/-- Internally tagged by `command`. -/
def toJson : IpcRequest → Json
  | .ping => .object [("command", .string "ping")]
  | .status project =>
      .object [("command", .string "status"), ("project", .option .string project)]
  | .build project incremental =>
      .object [("command", .string "build"), ("project", .string project),
        ("incremental", .bool incremental)]
  | .update project => .object [("command", .string "update"), ("project", .string project)]
  | .graphify project => .object [("command", .string "graphify"), ("project", .string project)]
  | .recall project query limit filterType =>
      .object [("command", .string "recall"), ("project", .string project),
        ("query", .string query), ("limit", .nat limit),
        ("filter_type", .option .string filterType)]
  | .blast project target depth =>
      .object [("command", .string "blast"), ("project", .string project),
        ("target", .string target), ("depth", .nat depth)]
  | .godNodes project n =>
      .object [("command", .string "god_nodes"), ("project", .string project), ("n", .nat n)]
  | .drift severity =>
      .object [("command", .string "drift"), ("severity", .option .string severity)]
  | .history query since =>
      .object [("command", .string "history"), ("query", .string query),
        ("since", .option .string since)]
  | .snapshot project =>
      .object [("command", .string "snapshot"), ("project", .option .string project)]
  | .doctor => .object [("command", .string "doctor")]
  | .rebuild project => .object [("command", .string "rebuild"), ("project", .string project)]
  | .audit scope => .object [("command", .string "audit"), ("scope", .string scope)]
  | .step op arg =>
      .object [("command", .string "step"), ("op", .string op), ("arg", .option .string arg)]
  | .sessionPrime project sessionId =>
      .object [("command", .string "session_prime"), ("project", .string project),
        ("session_id", .string sessionId)]
  | .inject prompt sessionId cwd =>
      .object [("command", .string "inject"), ("prompt", .string prompt),
        ("session_id", .string sessionId), ("cwd", .string cwd)]
  | .preTool tool params sessionId =>
      .object [("command", .string "pre_tool"), ("tool", .string tool),
        ("params", .string params), ("session_id", .string sessionId)]
  | .postTool tool resultFile sessionId =>
      .object [("command", .string "post_tool"), ("tool", .string tool),
        ("result_file", .string resultFile), ("session_id", .string sessionId)]
  | .turnEnd sessionId =>
      .object [("command", .string "turn_end"), ("session_id", .string sessionId)]
  | .sessionEnd sessionId =>
      .object [("command", .string "session_end"), ("session_id", .string sessionId)]
  | .daemon op => .object [("command", .string "daemon"), ("op", .string op)]
  | .stop => .object [("command", .string "stop")]
  | .logs child n =>
      .object [("command", .string "logs"), ("child", .option .string child), ("n", .nat n)]
  | .restart child => .object [("command", .string "restart"), ("child", .string child)]
  | .restartAll => .object [("command", .string "restart_all")]
  | .heartbeat child => .object [("command", .string "heartbeat"), ("child", .string child)]
  | .raw channel payload =>
      .object [("command", .string "raw"), ("channel", .string channel), ("payload", payload)]
  | .dispatchJob job => .object [("command", .string "dispatch_job"), ("job", job.toJson)]
  | .jobQueueStatus => .object [("command", .string "job_queue_status")]

/-- A request and a command that ask for the same, with the same field values. -/
inductive SameMeaning : IpcRequest → ControlCommand → Prop
  | ping : SameMeaning .ping .ping
  | status : SameMeaning (.status none) .status
  | logs (child : Option String) (n : Nat) : SameMeaning (.logs child n) (.logs child n)
  | restart (child : String) : SameMeaning (.restart child) (.restart child)
  | restartAll : SameMeaning .restartAll .restartAll
  | stop : SameMeaning .stop .stop
  | heartbeat (child : String) : SameMeaning (.heartbeat child) (.heartbeat child)
  | dispatchJob (job : Job) : SameMeaning (.dispatchJob job) (.dispatchJob job)
  | jobQueueStatus : SameMeaning .jobQueueStatus .jobQueueStatus
  | recall (project : Path) (query : String) (limit : Nat) (filterType : Option String) :
      SameMeaning (.recall project query limit filterType) (.recall project query limit filterType)
  | blast (project : Path) (target : String) (depth : Nat) :
      SameMeaning (.blast project target depth) (.blast project target depth)
  | godNodes (project : Path) (n : Nat) : SameMeaning (.godNodes project n) (.godNodes project n)

def Understood (request : IpcRequest) : Prop :=
  ∃ command, ControlCommand.ofJson request.toJson = some command ∧ SameMeaning request command

/-- The requests the supervisor has a command for.  Its status command has no
project. -/
def shared : IpcRequest → Bool
  | .ping => true
  | .status project => project.isNone
  | .logs .. => true
  | .restart .. => true
  | .restartAll => true
  | .stop => true
  | .heartbeat .. => true
  | .dispatchJob .. => true
  | .jobQueueStatus => true
  | .recall .. => true
  | .blast .. => true
  | .godNodes .. => true
  | _ => false

variable {request : IpcRequest}

theorem not_understood
    (refused : ControlCommand.ofJson request.toJson = none) : ¬ request.Understood := by
  rintro ⟨command, decoded, _⟩
  rw [refused] at decoded
  cases decoded

theorem understood_dispatchJob (job : Job) : (IpcRequest.dispatchJob job).Understood := by
  refine ⟨.dispatchJob job, ?_, .dispatchJob job⟩
  change (Job.ofJson job.toJson).bind (fun decoded => some (ControlCommand.dispatchJob decoded)) = _
  rw [Job.ofJson_toJson]
  rfl

theorem understood_of_shared (isShared : request.shared = true) : request.Understood := by
  cases request with
  | ping => exact ⟨_, rfl, .ping⟩
  | status project =>
      cases project with
      | none => exact ⟨_, rfl, .status⟩
      | some path => cases isShared
  | logs child n => cases child <;> exact ⟨_, rfl, .logs _ n⟩
  | restart child => exact ⟨_, rfl, .restart child⟩
  | restartAll => exact ⟨_, rfl, .restartAll⟩
  | stop => exact ⟨_, rfl, .stop⟩
  | heartbeat child => exact ⟨_, rfl, .heartbeat child⟩
  | dispatchJob job => exact understood_dispatchJob job
  | jobQueueStatus => exact ⟨_, rfl, .jobQueueStatus⟩
  | «recall» project query limit filterType =>
      cases filterType <;> exact ⟨_, rfl, .recall project query limit _⟩
  | blast project target depth => exact ⟨_, rfl, .blast project target depth⟩
  | godNodes project n => exact ⟨_, rfl, .godNodes project n⟩
  | _ => cases isShared

theorem shared_of_understood (understood : request.Understood) : request.shared = true := by
  cases request with
  | status project =>
      -- the unit variant accepts the member and drops it
      obtain ⟨command, _, same⟩ := understood
      cases same
      rfl
  | ping | logs | restart | restartAll | stop | heartbeat | dispatchJob | jobQueueStatus
  | «recall» | blast | godNodes => rfl
  | _ => exact absurd understood (not_understood rfl)

end IpcRequest

namespace IpcResponse

/-- Internally tagged by `response`. -/
def ofJson (value : Json) : Option IpcResponse := do
  let (response, members) ← value.tagged? "response"
  match response with
  | "pong" => return .pong
  | "status" =>
      let fields ← (Json.object members).struct? ["children"]
      let children ← Json.required fields "children" Json.array?
      return .status children
  | "logs" =>
      let fields ← (Json.object members).struct? ["entries"]
      let entries ← Json.required fields "entries" Json.array?
      return .logs entries
  | "ok" =>
      let fields ← (Json.object members).struct? ["message"]
      let message ← Json.optional fields "message" Json.string?
      return .ok message
  | "job_queued" =>
      let fields ← (Json.object members).struct? ["job_id"]
      let jobId ← Json.required fields "job_id" Json.nat?
      return .jobQueued jobId
  | "job_queue" =>
      let fields ← (Json.object members).struct? ["snapshot"]
      let snapshot ← Json.required fields "snapshot" some
      return .jobQueue snapshot
  | "recall_results" =>
      let fields ← (Json.object members).struct? ["hits"]
      let hits ← Json.required fields "hits" (Json.list? RecallHit.ofJson)
      return .recallResults hits
  | "blast_results" =>
      let fields ← (Json.object members).struct? ["impacted"]
      let impacted ← Json.required fields "impacted" (Json.list? BlastItem.ofJson)
      return .blastResults impacted
  | "god_nodes_results" =>
      let fields ← (Json.object members).struct? ["nodes"]
      let nodes ← Json.required fields "nodes" (Json.list? GodNode.ofJson)
      return .godNodesResults nodes
  | "error" =>
      let fields ← (Json.object members).struct? ["message"]
      let message ← Json.required fields "message" Json.string?
      return .error message
  | _ => none

/-- A response and the reply the CLI makes of it, with the same field values. -/
inductive SameReply : ControlResponse → IpcResponse → Prop
  | pong : SameReply .pong .pong
  | status (children : List ChildSnapshot) :
      SameReply (.status children) (.status (children.map ChildSnapshot.toJson))
  | logs (entries : List LogEntry) :
      SameReply (.logs entries) (.logs (entries.map LogEntry.toJson))
  | jobQueued (jobId : JobId) : SameReply (.jobQueued jobId) (.jobQueued jobId)
  | jobQueue (snapshot : JobQueueSnapshot) :
      SameReply (.jobQueue snapshot) (.jobQueue snapshot.toJson)
  | ok (message : Option String) : SameReply (.ok message) (.ok message)
  | recallResults (hits : List RecallHit) : SameReply (.recallResults hits) (.recallResults hits)
  | blastResults (impacted : List BlastItem) :
      SameReply (.blastResults impacted) (.blastResults impacted)
  | godNodesResults (nodes : List GodNode) :
      SameReply (.godNodesResults nodes) (.godNodesResults nodes)
  | error (message : String) : SameReply (.error message) (.error message)

def Understood (response : ControlResponse) : Prop :=
  ∃ reply, ofJson response.toJson = some reply ∧ SameReply response reply

/-- The CLI has no variant for the reply to a raw dispatch. -/
def shared : ControlResponse → Bool
  | .dispatched _ => false
  | _ => true

variable {response : ControlResponse}

theorem understood_of_shared (isShared : shared response = true) : Understood response := by
  cases response with
  | pong => exact ⟨_, rfl, .pong⟩
  | status children => exact ⟨_, rfl, .status children⟩
  | logs entries => exact ⟨_, rfl, .logs entries⟩
  | dispatched worker => cases isShared
  | jobQueued jobId => exact ⟨_, rfl, .jobQueued jobId⟩
  | jobQueue snapshot => exact ⟨_, rfl, .jobQueue snapshot⟩
  | ok message => cases message <;> exact ⟨_, rfl, .ok _⟩
  | recallResults hits =>
      refine ⟨_, ?_, .recallResults hits⟩
      change ((Json.list RecallHit.toJson hits).list? RecallHit.ofJson).bind
        (fun decoded => some (IpcResponse.recallResults decoded)) = _
      rw [Json.list?_list RecallHit.ofJson_toJson]
      rfl
  | blastResults impacted =>
      refine ⟨_, ?_, .blastResults impacted⟩
      change ((Json.list BlastItem.toJson impacted).list? BlastItem.ofJson).bind
        (fun decoded => some (IpcResponse.blastResults decoded)) = _
      rw [Json.list?_list BlastItem.ofJson_toJson]
      rfl
  | godNodesResults nodes =>
      refine ⟨_, ?_, .godNodesResults nodes⟩
      change ((Json.list GodNode.toJson nodes).list? GodNode.ofJson).bind
        (fun decoded => some (IpcResponse.godNodesResults decoded)) = _
      rw [Json.list?_list GodNode.ofJson_toJson]
      rfl
  | error message => exact ⟨_, rfl, .error message⟩

theorem shared_of_understood (understood : Understood response) : shared response = true := by
  cases response with
  | dispatched worker =>
      obtain ⟨reply, decoded, _⟩ := understood
      cases decoded
  | _ => rfl

end IpcResponse

/-- Which values get across the control connection, in either direction. -/
theorem understood_iff_shared (request : IpcRequest) (response : ControlResponse) :
    (request.Understood ↔ request.shared = true) ∧
      (IpcResponse.Understood response ↔ IpcResponse.shared response = true) :=
  ⟨⟨IpcRequest.shared_of_understood, IpcRequest.understood_of_shared⟩,
    ⟨IpcResponse.shared_of_understood, IpcResponse.understood_of_shared⟩⟩

/-- A rebuild is refused as unknown, a status request loses its project, and
the reply to a raw dispatch is refused. -/
theorem wire_disagreements :
    ControlCommand.ofJson (IpcRequest.rebuild "/home/p").toJson = none ∧
      ControlCommand.ofJson (IpcRequest.status (some "/home/p")).toJson = some .status ∧
      IpcResponse.ofJson (ControlResponse.dispatched "brain-worker").toJson = none ∧
      ¬ (IpcRequest.rebuild "/home/p").Understood ∧
      ¬ IpcResponse.Understood (.dispatched "brain-worker") := by
  refine ⟨rfl, rfl, rfl, IpcRequest.not_understood rfl, ?_⟩
  rintro ⟨reply, decoded, _⟩
  cases decoded

end Mneme.Cli
