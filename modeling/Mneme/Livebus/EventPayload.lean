/-
Typed payloads: what an event stores of one, and what is read back from it, also from the
line of text that the event is sent as.

A payload stands in its event as a value tagged by `kind`.  The texts of instants and what a
float is after it was printed and read again are parameters.
-/

import Mathlib.Algebra.GroupWithZero.Nat
import Mneme.Livebus.Topic

namespace Mneme.Livebus

/-! ### Payloads -/

inductive FileChangeKind where
  | created
  | modified
  | deleted
  | renamed

structure FileChanged where
  path : String
  changeKind : FileChangeKind
  bytes : Option UInt64
  contentHash : Option String

inductive TestState where
  | running
  | passed
  | failed
  | errored
  | skipped

structure TestStatus where
  suite : String
  status : TestState
  passed : Option UInt32
  failed : Option UInt32
  durationMs : Option UInt64
  failingTests : Option (List String)

inductive DriftSeverity where
  | info
  | low
  | medium
  | high
  | critical

structure DriftFinding where
  findingId : String
  severity : DriftSeverity
  category : String
  summary : String
  affectedFiles : List String
  suggestedFix : Option String

structure SubagentEvent where
  agentName : String
  phase : String
  message : Option String
  tokensUsed : Option UInt64

structure CompactionDetected where
  sessionId : String
  trigger : String
  previousTokenCount : UInt64
  currentTokenCount : UInt64
  recoveryHandle : Option String

structure StepAdvanced where
  sessionId : String
  stepIndex : UInt32
  stepLabel : String
  roadmapId : Option String

structure HealthUpdate where
  component : String
  status : String
  uptimeSeconds : UInt64
  metrics : Option Json

structure DegradedMode where
  reason : String
  subscriberId : Option String
  droppedCount : Option UInt64

inductive EventPayload where
  | fileChanged (payload : FileChanged)
  | testStatus (payload : TestStatus)
  | driftFinding (payload : DriftFinding)
  | subagentEvent (payload : SubagentEvent)
  | compactionDetected (payload : CompactionDetected)
  | stepAdvanced (payload : StepAdvanced)
  | healthUpdate (payload : HealthUpdate)
  | degradedMode (payload : DegradedMode)
  | raw (payload : Json)

/-! ### Writing -/

def u64 (value : UInt64) : Json := .nat value.toNat

def u32 (value : UInt32) : Json := .nat value.toNat

def FileChangeKind.asStr : FileChangeKind → String
  | .created => "created"
  | .modified => "modified"
  | .deleted => "deleted"
  | .renamed => "renamed"

def TestState.asStr : TestState → String
  | .running => "running"
  | .passed => "passed"
  | .failed => "failed"
  | .errored => "errored"
  | .skipped => "skipped"

def DriftSeverity.asStr : DriftSeverity → String
  | .info => "info"
  | .low => "low"
  | .medium => "medium"
  | .high => "high"
  | .critical => "critical"

def FileChanged.fields (payload : FileChanged) : List (String × Json) :=
  [("path", .string payload.path), ("change_kind", .string payload.changeKind.asStr)] ++
    Json.present "bytes" u64 payload.bytes ++
    Json.present "content_hash" .string payload.contentHash

def TestStatus.fields (payload : TestStatus) : List (String × Json) :=
  [("suite", .string payload.suite), ("status", .string payload.status.asStr)] ++
    Json.present "passed" u32 payload.passed ++
    Json.present "failed" u32 payload.failed ++
    Json.present "duration_ms" u64 payload.durationMs ++
    Json.present "failing_tests" (Json.list .string) payload.failingTests

/-- No list of files is written when it is empty. -/
def DriftFinding.affected (payload : DriftFinding) : Option (List String) :=
  if payload.affectedFiles.isEmpty then none else some payload.affectedFiles

def DriftFinding.fields (payload : DriftFinding) : List (String × Json) :=
  [("finding_id", .string payload.findingId), ("severity", .string payload.severity.asStr),
      ("category", .string payload.category), ("summary", .string payload.summary)] ++
    Json.present "affected_files" (Json.list .string) payload.affected ++
    Json.present "suggested_fix" .string payload.suggestedFix

def SubagentEvent.fields (payload : SubagentEvent) : List (String × Json) :=
  [("agent_name", .string payload.agentName), ("phase", .string payload.phase)] ++
    Json.present "message" .string payload.message ++
    Json.present "tokens_used" u64 payload.tokensUsed

def CompactionDetected.fields (payload : CompactionDetected) : List (String × Json) :=
  [("session_id", .string payload.sessionId), ("trigger", .string payload.trigger),
      ("previous_token_count", u64 payload.previousTokenCount),
      ("current_token_count", u64 payload.currentTokenCount)] ++
    Json.present "recovery_handle" .string payload.recoveryHandle

def StepAdvanced.fields (payload : StepAdvanced) : List (String × Json) :=
  [("session_id", .string payload.sessionId), ("step_index", u32 payload.stepIndex),
      ("step_label", .string payload.stepLabel)] ++
    Json.present "roadmap_id" .string payload.roadmapId

def HealthUpdate.fields (payload : HealthUpdate) : List (String × Json) :=
  [("component", .string payload.component), ("status", .string payload.status),
      ("uptime_seconds", u64 payload.uptimeSeconds)] ++
    Json.present "metrics" id payload.metrics

def DegradedMode.fields (payload : DegradedMode) : List (String × Json) :=
  [("reason", .string payload.reason)] ++
    Json.present "subscriber_id" .string payload.subscriberId ++
    Json.present "dropped_count" u64 payload.droppedCount

def EventPayload.kind : EventPayload → String
  | .fileChanged _ => "file_changed"
  | .testStatus _ => "test_status"
  | .driftFinding _ => "drift_finding"
  | .subagentEvent _ => "subagent_event"
  | .compactionDetected _ => "compaction_detected"
  | .stepAdvanced _ => "step_advanced"
  | .healthUpdate _ => "health_update"
  | .degradedMode _ => "degraded_mode"
  | .raw _ => "raw"

/-- The value without its tag. -/
def EventPayload.content : EventPayload → Json
  | .fileChanged payload => .object payload.fields
  | .testStatus payload => .object payload.fields
  | .driftFinding payload => .object payload.fields
  | .subagentEvent payload => .object payload.fields
  | .compactionDetected payload => .object payload.fields
  | .stepAdvanced payload => .object payload.fields
  | .healthUpdate payload => .object payload.fields
  | .degradedMode payload => .object payload.fields
  | .raw payload => payload

def EventPayload.toValue (payload : EventPayload) : Option Json :=
  payload.content.tagNewtype "kind" payload.kind

def Event.fromTyped (topic : String) (sessionId projectHash : Option String)
    (payload : EventPayload) (now : Int) : Event :=
  { topic, sessionId, projectHash
    timestamp := now
    payload := payload.toValue.getD .null }

/-! ### Reading -/

def u64? (value : Json) : Option UInt64 :=
  value.nat?.bind (fun number =>
    if small : number < 2 ^ 64 then some (UInt64.ofNatLT number small) else none)

def u32? (value : Json) : Option UInt32 :=
  value.nat?.bind (fun number =>
    if small : number < 2 ^ 32 then some (UInt32.ofNatLT number small) else none)

/-- The case of an enumeration that bears this name. -/
def enum? {Case : Type} (cases : List Case) (asStr : Case → String) (value : Json) : Option Case :=
  value.string?.bind (fun text => cases.find? (fun item => asStr item = text))

def FileChangeKind.ofJson : Json → Option FileChangeKind :=
  enum? [.created, .modified, .deleted, .renamed] asStr

def TestState.ofJson : Json → Option TestState :=
  enum? [.running, .passed, .failed, .errored, .skipped] asStr

def DriftSeverity.ofJson : Json → Option DriftSeverity :=
  enum? [.info, .low, .medium, .high, .critical] asStr

def FileChanged.ofJson (value : Json) : Option FileChanged := do
  let fields ← value.struct? ["path", "change_kind", "bytes", "content_hash"]
  let path ← Json.required fields "path" Json.string?
  let changeKind ← Json.required fields "change_kind" FileChangeKind.ofJson
  let bytes ← Json.optional fields "bytes" u64?
  let contentHash ← Json.optional fields "content_hash" Json.string?
  return { path, changeKind, bytes, contentHash }

def TestStatus.ofJson (value : Json) : Option TestStatus := do
  let fields ← value.struct?
    ["suite", "status", "passed", "failed", "duration_ms", "failing_tests"]
  let suite ← Json.required fields "suite" Json.string?
  let status ← Json.required fields "status" TestState.ofJson
  let passed ← Json.optional fields "passed" u32?
  let failed ← Json.optional fields "failed" u32?
  let durationMs ← Json.optional fields "duration_ms" u64?
  let failingTests ← Json.optional fields "failing_tests" (Json.list? Json.string?)
  return { suite, status, passed, failed, durationMs, failingTests }

def DriftFinding.ofJson (value : Json) : Option DriftFinding := do
  let fields ← value.struct?
    ["finding_id", "severity", "category", "summary", "affected_files", "suggested_fix"]
  let findingId ← Json.required fields "finding_id" Json.string?
  let severity ← Json.required fields "severity" DriftSeverity.ofJson
  let category ← Json.required fields "category" Json.string?
  let summary ← Json.required fields "summary" Json.string?
  let affectedFiles ← Json.defaulted fields "affected_files" [] (Json.list? Json.string?)
  let suggestedFix ← Json.optional fields "suggested_fix" Json.string?
  return { findingId, severity, category, summary, affectedFiles, suggestedFix }

def SubagentEvent.ofJson (value : Json) : Option SubagentEvent := do
  let fields ← value.struct? ["agent_name", "phase", "message", "tokens_used"]
  let agentName ← Json.required fields "agent_name" Json.string?
  let phase ← Json.required fields "phase" Json.string?
  let message ← Json.optional fields "message" Json.string?
  let tokensUsed ← Json.optional fields "tokens_used" u64?
  return { agentName, phase, message, tokensUsed }

def CompactionDetected.ofJson (value : Json) : Option CompactionDetected := do
  let fields ← value.struct? ["session_id", "trigger", "previous_token_count",
    "current_token_count", "recovery_handle"]
  let sessionId ← Json.required fields "session_id" Json.string?
  let trigger ← Json.required fields "trigger" Json.string?
  let previousTokenCount ← Json.required fields "previous_token_count" u64?
  let currentTokenCount ← Json.required fields "current_token_count" u64?
  let recoveryHandle ← Json.optional fields "recovery_handle" Json.string?
  return { sessionId, trigger, previousTokenCount, currentTokenCount, recoveryHandle }

def StepAdvanced.ofJson (value : Json) : Option StepAdvanced := do
  let fields ← value.struct? ["session_id", "step_index", "step_label", "roadmap_id"]
  let sessionId ← Json.required fields "session_id" Json.string?
  let stepIndex ← Json.required fields "step_index" u32?
  let stepLabel ← Json.required fields "step_label" Json.string?
  let roadmapId ← Json.optional fields "roadmap_id" Json.string?
  return { sessionId, stepIndex, stepLabel, roadmapId }

def HealthUpdate.ofJson (value : Json) : Option HealthUpdate := do
  let fields ← value.struct? ["component", "status", "uptime_seconds", "metrics"]
  let component ← Json.required fields "component" Json.string?
  let status ← Json.required fields "status" Json.string?
  let uptimeSeconds ← Json.required fields "uptime_seconds" u64?
  let metrics ← Json.optional fields "metrics" some
  return { component, status, uptimeSeconds, metrics }

def DegradedMode.ofJson (value : Json) : Option DegradedMode := do
  let fields ← value.struct? ["reason", "subscriber_id", "dropped_count"]
  let reason ← Json.required fields "reason" Json.string?
  let subscriberId ← Json.optional fields "subscriber_id" Json.string?
  let droppedCount ← Json.optional fields "dropped_count" u64?
  return { reason, subscriberId, droppedCount }

def EventPayload.ofContent (kind : String) (content : Json) : Option EventPayload :=
  match kind with
  | "file_changed" => (FileChanged.ofJson content).map .fileChanged
  | "test_status" => (TestStatus.ofJson content).map .testStatus
  | "drift_finding" => (DriftFinding.ofJson content).map .driftFinding
  | "subagent_event" => (SubagentEvent.ofJson content).map .subagentEvent
  | "compaction_detected" => (CompactionDetected.ofJson content).map .compactionDetected
  | "step_advanced" => (StepAdvanced.ofJson content).map .stepAdvanced
  | "health_update" => (HealthUpdate.ofJson content).map .healthUpdate
  | "degraded_mode" => (DegradedMode.ofJson content).map .degradedMode
  | "raw" => some (.raw content)
  | _ => none

/-- An array, with the tag in front, is not read here; no typed payload is stored as one. -/
def EventPayload.ofJson (value : Json) : Option EventPayload := do
  let (kind, members) ← value.tagged? "kind"
  ofContent kind (.object members)

/-! ### One struct -/

@[simp] theorem u64?_u64 (value : UInt64) : u64? (u64 value) = some value := by
  have small : value.toNat < 2 ^ 64 := value.toNat_lt
  change (if small : value.toNat < 2 ^ 64 then some (UInt64.ofNatLT value.toNat small)
    else none) = _
  rw [dif_pos small, UInt64.ofNatLT_toNat]

@[simp] theorem u32?_u32 (value : UInt32) : u32? (u32 value) = some value := by
  have small : value.toNat < 2 ^ 32 := value.toNat_lt
  change (if small : value.toNat < 2 ^ 32 then some (UInt32.ofNatLT value.toNat small)
    else none) = _
  rw [dif_pos small, UInt32.ofNatLT_toNat]

@[simp] theorem fileChangeKind_asStr (kind : FileChangeKind) :
    FileChangeKind.ofJson (.string kind.asStr) = some kind := by
  cases kind <;> rfl

@[simp] theorem testState_asStr (state : TestState) :
    TestState.ofJson (.string state.asStr) = some state := by
  cases state <;> rfl

@[simp] theorem driftSeverity_asStr (severity : DriftSeverity) :
    DriftSeverity.ofJson (.string severity.asStr) = some severity := by
  cases severity <;> rfl

section Optional

variable {fields : List (String × Json)} {name : String}

theorem optional_string {value : Option String} (there : fields.lookup name = value.map .string) :
    Json.optional fields name Json.string? = some value :=
  Json.optional_of_lookup .string there (fun _ _ => rfl) (fun _ _ => nofun)

theorem optional_strings {value : Option (List String)}
    (there : fields.lookup name = value.map (Json.list .string)) :
    Json.optional fields name (Json.list? Json.string?) = some value :=
  Json.optional_of_lookup _ there (fun items _ => Json.list?_list Json.string?_string items)
    (fun _ _ => nofun)

theorem optional_u64 {value : Option UInt64} (there : fields.lookup name = value.map u64) :
    Json.optional fields name u64? = some value :=
  Json.optional_of_lookup u64 there (fun number _ => u64?_u64 number) (fun _ _ => nofun)

theorem optional_u32 {value : Option UInt32} (there : fields.lookup name = value.map u32) :
    Json.optional fields name u32? = some value :=
  Json.optional_of_lookup u32 there (fun number _ => u32?_u32 number) (fun _ _ => nofun)

end Optional

theorem FileChanged.names (payload : FileChanged) :
    (payload.fields.map Prod.fst).Sublist ["path", "change_kind", "bytes", "content_hash"] := by
  rw [fields, List.map_append, List.map_append]
  exact ((List.Sublist.refl _).append (Json.names_present _ _ _)).append (Json.names_present _ _ _)

theorem FileChanged.ofJson_fields (payload : FileChanged) :
    ofJson (.object payload.fields) = some payload := by
  have path : Json.required payload.fields "path" Json.string? = some payload.path := rfl
  have changeKind : Json.required payload.fields "change_kind" FileChangeKind.ofJson =
      some payload.changeKind :=
    Json.required_of_lookup (fun item => .string item.asStr) rfl (fileChangeKind_asStr _)
  have bytes := @optional_u64 payload.fields "bytes" payload.bytes
    (by simp [fields, List.lookup_append, List.lookup_cons])
  have contentHash := @optional_string payload.fields "content_hash" payload.contentHash
    (by simp [fields, List.lookup_append, List.lookup_cons])
  rw [ofJson, Json.struct?_of_sublist payload.names (by decide)]
  simp only [path, changeKind, bytes, contentHash, Option.bind_eq_bind,
    Option.bind_some, Option.pure_def]

theorem TestStatus.names (payload : TestStatus) :
    (payload.fields.map Prod.fst).Sublist
      ["suite", "status", "passed", "failed", "duration_ms", "failing_tests"] := by
  rw [fields, List.map_append, List.map_append, List.map_append, List.map_append]
  exact ((((List.Sublist.refl _).append (Json.names_present _ _ _)).append
    (Json.names_present _ _ _)).append (Json.names_present _ _ _)).append (Json.names_present _ _ _)

theorem TestStatus.ofJson_fields (payload : TestStatus) :
    ofJson (.object payload.fields) = some payload := by
  have suite : Json.required payload.fields "suite" Json.string? = some payload.suite := rfl
  have status : Json.required payload.fields "status" TestState.ofJson = some payload.status :=
    Json.required_of_lookup (fun item => .string item.asStr) rfl (testState_asStr _)
  have passed := @optional_u32 payload.fields "passed" payload.passed
    (by simp [fields, List.lookup_append, List.lookup_cons])
  have failed := @optional_u32 payload.fields "failed" payload.failed
    (by simp [fields, List.lookup_append, List.lookup_cons])
  have durationMs := @optional_u64 payload.fields "duration_ms" payload.durationMs
    (by simp [fields, List.lookup_append, List.lookup_cons])
  have failingTests := @optional_strings payload.fields "failing_tests" payload.failingTests
    (by simp [fields, List.lookup_append, List.lookup_cons])
  rw [ofJson, Json.struct?_of_sublist payload.names (by decide)]
  simp only [suite, status, passed, failed, durationMs, failingTests, Option.bind_eq_bind,
    Option.bind_some, Option.pure_def]

theorem DriftFinding.names (payload : DriftFinding) :
    (payload.fields.map Prod.fst).Sublist
      ["finding_id", "severity", "category", "summary", "affected_files", "suggested_fix"] := by
  rw [fields, List.map_append, List.map_append]
  exact ((List.Sublist.refl _).append (Json.names_present _ _ _)).append (Json.names_present _ _ _)

theorem DriftFinding.ofJson_fields (payload : DriftFinding) :
    ofJson (.object payload.fields) = some payload := by
  have findingId : Json.required payload.fields "finding_id" Json.string? =
      some payload.findingId := rfl
  have severity : Json.required payload.fields "severity" DriftSeverity.ofJson =
      some payload.severity :=
    Json.required_of_lookup (fun item => .string item.asStr) rfl (driftSeverity_asStr _)
  have category : Json.required payload.fields "category" Json.string? =
      some payload.category := rfl
  have summary : Json.required payload.fields "summary" Json.string? = some payload.summary := rfl
  have affectedFiles : Json.defaulted payload.fields "affected_files" [] (Json.list? Json.string?) =
      some payload.affectedFiles := by
    have there : payload.fields.lookup "affected_files" =
        payload.affected.map (Json.list .string) := by
      simp [fields, List.lookup_append, List.lookup_cons]
    rw [Json.defaulted, there, affected]
    by_cases empty : payload.affectedFiles = []
    · rw [empty]
      rfl
    · rw [if_neg (by simpa using empty)]
      exact Json.list?_list Json.string?_string _
  have suggestedFix := @optional_string payload.fields "suggested_fix" payload.suggestedFix
    (by simp [fields, List.lookup_append, List.lookup_cons])
  rw [ofJson, Json.struct?_of_sublist payload.names (by decide)]
  simp only [findingId, severity, category, summary, affectedFiles, suggestedFix,
    Option.bind_eq_bind, Option.bind_some, Option.pure_def]

theorem SubagentEvent.names (payload : SubagentEvent) :
    (payload.fields.map Prod.fst).Sublist ["agent_name", "phase", "message", "tokens_used"] := by
  rw [fields, List.map_append, List.map_append]
  exact ((List.Sublist.refl _).append (Json.names_present _ _ _)).append (Json.names_present _ _ _)

theorem SubagentEvent.ofJson_fields (payload : SubagentEvent) :
    ofJson (.object payload.fields) = some payload := by
  have agentName : Json.required payload.fields "agent_name" Json.string? =
      some payload.agentName := rfl
  have phase : Json.required payload.fields "phase" Json.string? = some payload.phase := rfl
  have message := @optional_string payload.fields "message" payload.message
    (by simp [fields, List.lookup_append, List.lookup_cons])
  have tokensUsed := @optional_u64 payload.fields "tokens_used" payload.tokensUsed
    (by simp [fields, List.lookup_append, List.lookup_cons])
  rw [ofJson, Json.struct?_of_sublist payload.names (by decide)]
  simp only [agentName, phase, message, tokensUsed, Option.bind_eq_bind,
    Option.bind_some, Option.pure_def]

variable (payload : CompactionDetected)

theorem CompactionDetected.names :
    (payload.fields.map Prod.fst).Sublist ["session_id", "trigger", "previous_token_count",
      "current_token_count", "recovery_handle"] := by
  rw [fields, List.map_append]
  exact (List.Sublist.refl _).append (Json.names_present _ _ _)

theorem CompactionDetected.ofJson_fields : ofJson (.object payload.fields) = some payload := by
  have sessionId : Json.required payload.fields "session_id" Json.string? =
      some payload.sessionId := rfl
  have trigger : Json.required payload.fields "trigger" Json.string? = some payload.trigger := rfl
  have previousTokenCount : Json.required payload.fields "previous_token_count" u64? =
      some payload.previousTokenCount :=
    Json.required_of_lookup u64 rfl (u64?_u64 _)
  have currentTokenCount : Json.required payload.fields "current_token_count" u64? =
      some payload.currentTokenCount :=
    Json.required_of_lookup u64 rfl (u64?_u64 _)
  have recoveryHandle := @optional_string payload.fields "recovery_handle" payload.recoveryHandle
    (by simp [fields, List.lookup_cons])
  rw [ofJson, Json.struct?_of_sublist payload.names (by decide)]
  simp only [sessionId, trigger, previousTokenCount, currentTokenCount, recoveryHandle,
    Option.bind_eq_bind, Option.bind_some, Option.pure_def]

theorem StepAdvanced.names (payload : StepAdvanced) :
    (payload.fields.map Prod.fst).Sublist
      ["session_id", "step_index", "step_label", "roadmap_id"] := by
  rw [fields, List.map_append]
  exact (List.Sublist.refl _).append (Json.names_present _ _ _)

theorem StepAdvanced.ofJson_fields (payload : StepAdvanced) :
    ofJson (.object payload.fields) = some payload := by
  have sessionId : Json.required payload.fields "session_id" Json.string? =
      some payload.sessionId := rfl
  have stepIndex : Json.required payload.fields "step_index" u32? = some payload.stepIndex :=
    Json.required_of_lookup u32 rfl (u32?_u32 _)
  have stepLabel : Json.required payload.fields "step_label" Json.string? =
      some payload.stepLabel := rfl
  have roadmapId := @optional_string payload.fields "roadmap_id" payload.roadmapId
    (by simp [fields, List.lookup_cons])
  rw [ofJson, Json.struct?_of_sublist payload.names (by decide)]
  simp only [sessionId, stepIndex, stepLabel, roadmapId, Option.bind_eq_bind,
    Option.bind_some, Option.pure_def]

theorem DegradedMode.names (payload : DegradedMode) :
    (payload.fields.map Prod.fst).Sublist ["reason", "subscriber_id", "dropped_count"] := by
  rw [fields, List.map_append, List.map_append]
  exact ((List.Sublist.refl _).append (Json.names_present _ _ _)).append (Json.names_present _ _ _)

theorem DegradedMode.ofJson_fields (payload : DegradedMode) :
    ofJson (.object payload.fields) = some payload := by
  have reason : Json.required payload.fields "reason" Json.string? = some payload.reason := rfl
  have subscriberId := @optional_string payload.fields "subscriber_id" payload.subscriberId
    (by simp [fields, List.lookup_append, List.lookup_cons])
  have droppedCount := @optional_u64 payload.fields "dropped_count" payload.droppedCount
    (by simp [fields, List.lookup_append, List.lookup_cons])
  rw [ofJson, Json.struct?_of_sublist payload.names (by decide)]
  simp only [reason, subscriberId, droppedCount, Option.bind_eq_bind,
    Option.bind_some, Option.pure_def]

/-- An optional value cannot be null. -/
def nonNull : Json → Option Json
  | .null => none
  | value => some value

theorem nonNull_eq_some_iff (value other : Json) :
    nonNull value = some other ↔ value = other ∧ other ≠ .null := by
  cases value with
  | null =>
      exact iff_of_false (fun impossible => nomatch impossible) (fun both => both.2 both.1.symm)
  | _ =>
      constructor
      · intro same
        cases same
        exact ⟨rfl, nofun⟩
      · intro both
        exact congrArg some both.1

theorem HealthUpdate.names (payload : HealthUpdate) :
    (payload.fields.map Prod.fst).Sublist ["component", "status", "uptime_seconds", "metrics"] := by
  rw [fields, List.map_append]
  exact (List.Sublist.refl _).append (Json.names_present _ _ _)

theorem HealthUpdate.ofJson_fields (payload : HealthUpdate) :
    ofJson (.object payload.fields) =
      some { payload with metrics := payload.metrics.bind nonNull } := by
  have component : Json.required payload.fields "component" Json.string? =
      some payload.component := rfl
  have status : Json.required payload.fields "status" Json.string? = some payload.status := rfl
  have uptimeSeconds : Json.required payload.fields "uptime_seconds" u64? =
      some payload.uptimeSeconds :=
    Json.required_of_lookup u64 rfl (u64?_u64 _)
  have metrics : Json.optional payload.fields "metrics" some =
      some (payload.metrics.bind nonNull) := by
    have there : payload.fields.lookup "metrics" = payload.metrics := by
      simp [fields, List.lookup_cons]
    rw [Json.optional, there]
    cases payload.metrics with
    | none => rfl
    | some value => cases value <;> rfl
  rw [ofJson, Json.struct?_of_sublist payload.names (by decide)]
  simp only [component, status, uptimeSeconds, metrics, Option.bind_eq_bind, Option.bind_some,
    Option.pure_def]

/-! ### What is stored -/

/-- A map has each key once. -/
def EventPayload.KeysOnce : EventPayload → Prop
  | .raw (.object fields) => (fields.map Prod.fst).Nodup
  | _ => True

variable {fields : List (String × Json)}

theorem ofJson_tagged {kind : String} (free : "kind" ∉ fields.map Prod.fst) :
    EventPayload.ofJson (.object (("kind", .string kind) :: fields)) =
      EventPayload.ofContent kind (.object fields) := by
  rw [EventPayload.ofJson, Json.tagged?_cons free]
  rfl

/-! ### Over a line of text -/

def Event.toJson (printStamp : Int → String) (event : Event) : Json :=
  .object ([("topic", .string event.topic), ("timestamp", .string (printStamp event.timestamp))] ++
    Json.present "session_id" .string event.sessionId ++
    Json.present "project_hash" .string event.projectHash ++ [("payload", event.payload)])

/-- An event without a stamp is stamped when it is read. -/
def Event.ofJson (parseStamp : String → Option Int) (now : Int) (value : Json) : Option Event := do
  let fields ← value.struct? ["topic", "timestamp", "session_id", "project_hash", "payload"]
  let topic ← Json.required fields "topic" Json.string?
  let timestamp ← Json.defaulted fields "timestamp" now (fun stamp => stamp.string?.bind parseStamp)
  let sessionId ← Json.optional fields "session_id" Json.string?
  let projectHash ← Json.optional fields "project_hash" Json.string?
  let payload ← Json.required fields "payload" some
  return { topic, timestamp, sessionId, projectHash, payload }

/-- `to_json_line` and the line parsed again; the reader refuses the 128th array or object within
one another. -/
def Event.reparse (refloat : Rat → Rat) (printStamp : Int → String)
    (parseStamp : String → Option Int) (now : Int) (event : Event) : Option Event :=
  ((event.toJson printStamp).reread refloat 127).bind (ofJson parseStamp now)

section Line

variable {refloat : Rat → Rat} {printStamp : Int → String} {parseStamp : String → Option Int}

theorem Event.ofJson_toJson (now : Int) (event : Event)
    (parsed : parseStamp (printStamp event.timestamp) = some event.timestamp) :
    ofJson parseStamp now (event.toJson printStamp) = some event := by
  obtain ⟨fields, written⟩ : ∃ fields, event.toJson printStamp = .object fields := ⟨_, rfl⟩
  have same : _ = fields := Json.object.inj written
  have names : (fields.map Prod.fst).Sublist
      ["topic", "timestamp", "session_id", "project_hash", "payload"] := by
    rw [← same, List.map_append, List.map_append, List.map_append]
    exact (((List.Sublist.refl _).append (Json.names_present _ _ _)).append
      (Json.names_present _ _ _)).append (List.Sublist.refl _)
  have topic : Json.required fields "topic" Json.string? = some event.topic := by
    rw [← same]
    rfl
  have timestamp : Json.defaulted fields "timestamp" now
      (fun stamp => stamp.string?.bind parseStamp) = some event.timestamp := by
    rw [← same]
    exact parsed
  have sessionId := @optional_string fields "session_id" event.sessionId
    (by simp [← same, List.lookup_append, List.lookup_cons])
  have projectHash := @optional_string fields "project_hash" event.projectHash
    (by simp [← same, List.lookup_append, List.lookup_cons])
  have payload : Json.required fields "payload" some = some event.payload := by
    simp [Json.required, ← same, List.lookup_append, List.lookup_cons]
  rw [ofJson, written, Json.struct?_of_sublist names (by decide)]
  simp only [topic, timestamp, sessionId, projectHash, payload, Option.bind_eq_bind,
    Option.bind_some, Option.pure_def]

theorem Event.reread_toJson (levels : Nat) (event : Event) :
    (event.toJson printStamp).reread refloat (levels + 1) =
      (event.payload.reread refloat levels).map (fun payload =>
        { event with payload }.toJson printStamp) := by
  have texts : ∀ field ∈ [("topic", Json.string event.topic),
      ("timestamp", .string (printStamp event.timestamp))] ++
      Json.present "session_id" .string event.sessionId ++
      Json.present "project_hash" .string event.projectHash, field.2.Rereads refloat levels := by
    simp only [List.forall_mem_append, List.forall_mem_cons, List.not_mem_nil,
      Json.forall_mem_present, Json.rereads_string, false_implies, implies_true, and_self]
  rw [toJson, Json.reread_object, Json.rereadFields_append,
    (Json.rereadFields_eq_self_iff _).mpr texts, Option.bind_some, Json.rereadFields_single]
  cases event.payload.reread refloat levels <;> rfl

/-- The line brings back the event with its payload read again. -/
theorem Event.reparse_eq (now : Int) (event : Event)
    (parsed : parseStamp (printStamp event.timestamp) = some event.timestamp) :
    event.reparse refloat printStamp parseStamp now =
      (event.payload.reread refloat 126).map (fun payload => { event with payload }) := by
  rw [reparse, reread_toJson]
  cases event.payload.reread refloat 126 with
  | none => rfl
  | some payload => exact ofJson_toJson now { event with payload } parsed

end Line

/-! ### Payloads that come back -/

/-- An object that does not name the tag; metrics that are not null; and what is held as JSON is
read again as it is, below the envelope and the payload. -/
def EventPayload.Kept (refloat : Rat → Rat) : EventPayload → Prop
  | .raw (.object fields) =>
      "kind" ∉ fields.map Prod.fst ∧ ∀ field ∈ fields, field.2.Rereads refloat 125
  | .raw _ => False
  | .healthUpdate payload => ∀ metrics ∈ payload.metrics,
      metrics ≠ .null ∧ metrics.Rereads refloat 125
  | _ => True

/-- Fields that are read as they were written: texts, numbers and lists of texts. -/
structure Plain (payload : EventPayload) (fields : List (String × Json)) : Prop where
  content : payload.content = .object fields
  once : (fields.map Prod.fst).Nodup
  free : "kind" ∉ fields.map Prod.fst
  decoded : EventPayload.ofContent payload.kind (.object fields) = some payload
  rereads : ∀ refloat levels, ∀ field ∈ fields, field.2.Rereads refloat (levels + 1)

theorem plain_of {payload : EventPayload} {known : List String}
    (content : payload.content = .object fields)
    (names : (fields.map Prod.fst).Sublist known) (distinct : known.Nodup) (free : "kind" ∉ known)
    (decoded : EventPayload.ofContent payload.kind (.object fields) = some payload)
    (rereads : ∀ refloat levels, ∀ field ∈ fields, field.2.Rereads refloat (levels + 1)) :
    Plain payload fields :=
  ⟨content, distinct.sublist names, fun member => free (names.subset member), decoded, rereads⟩

theorem FileChanged.plain (payload : FileChanged) : Plain (.fileChanged payload) payload.fields :=
  plain_of rfl payload.names (by decide) (by decide) (congrArg (Option.map _) payload.ofJson_fields)
    (by simp [fields, u64, Json.forall_mem_present, or_imp, forall_and, -Prod.forall])

theorem TestStatus.plain (payload : TestStatus) : Plain (.testStatus payload) payload.fields :=
  plain_of rfl payload.names (by decide) (by decide) (congrArg (Option.map _) payload.ofJson_fields)
    (by simp [fields, u64, u32, Json.forall_mem_present, or_imp, forall_and, -Prod.forall])

theorem DriftFinding.plain (payload : DriftFinding) :
    Plain (.driftFinding payload) payload.fields :=
  plain_of rfl payload.names (by decide) (by decide) (congrArg (Option.map _) payload.ofJson_fields)
    (by simp [fields, Json.forall_mem_present, or_imp, forall_and, -Prod.forall])

theorem SubagentEvent.plain (payload : SubagentEvent) :
    Plain (.subagentEvent payload) payload.fields :=
  plain_of rfl payload.names (by decide) (by decide) (congrArg (Option.map _) payload.ofJson_fields)
    (by simp [fields, u64, Json.forall_mem_present, or_imp, forall_and, -Prod.forall])

theorem CompactionDetected.plain : Plain (.compactionDetected payload) payload.fields :=
  plain_of rfl payload.names (by decide) (by decide) (congrArg (Option.map _) payload.ofJson_fields)
    (by simp [fields, u64, Json.forall_mem_present, or_imp, forall_and, -Prod.forall])

theorem StepAdvanced.plain (payload : StepAdvanced) :
    Plain (.stepAdvanced payload) payload.fields :=
  plain_of rfl payload.names (by decide) (by decide) (congrArg (Option.map _) payload.ofJson_fields)
    (by simp [fields, u32, Json.forall_mem_present, or_imp, forall_and, -Prod.forall])

theorem DegradedMode.plain (payload : DegradedMode) :
    Plain (.degradedMode payload) payload.fields :=
  plain_of rfl payload.names (by decide) (by decide) (congrArg (Option.map _) payload.ofJson_fields)
    (by simp [fields, u64, Json.forall_mem_present, or_imp, forall_and, -Prod.forall])

/-- The payload is decoded as it stands in the event, and from the line. -/
def ComesBack (refloat : Rat → Rat) (printStamp : Int → String) (parseStamp : String → Option Int)
    (later : Int) (payload : EventPayload) (event : Event) : Prop :=
  EventPayload.ofJson event.payload = some payload ∧
    (event.reparse refloat printStamp parseStamp later).bind
      (fun again => EventPayload.ofJson again.payload) = some payload

section Survival

variable {refloat : Rat → Rat} {printStamp : Int → String} {parseStamp : String → Option Int}
  {later : Int} {payload : EventPayload} {fields : List (String × Json)} {event : Event}

/-- Of a payload stored as an object, the tag comes back and the content is read. -/
theorem comesBack_object_iff (content : payload.content = .object fields)
    (once : (fields.map Prod.fst).Nodup) (free : "kind" ∉ fields.map Prod.fst)
    (stored : event.payload = payload.toValue.getD .null)
    (parsed : parseStamp (printStamp event.timestamp) = some event.timestamp) :
    ComesBack refloat printStamp parseStamp later payload event ↔
      EventPayload.ofContent payload.kind (.object fields) = some payload ∧
      (Json.rereadFields refloat 125 fields).bind (fun again =>
        EventPayload.ofContent payload.kind (.object again)) = some payload := by
  have object : event.payload = .object (("kind", .string payload.kind) :: fields) := by
    rw [stored, EventPayload.toValue, content, Json.tagNewtype_object once free]
    rfl
  have line : (event.reparse refloat printStamp parseStamp later).bind
      (fun again => EventPayload.ofJson again.payload) =
      (Json.rereadFields refloat 125 fields).bind (fun again =>
        EventPayload.ofContent payload.kind (.object again)) := by
    rw [Event.reparse_eq later event parsed, object, Json.reread_object,
      Json.rereadFields_cons_string]
    cases read : Json.rereadFields refloat 125 fields with
    | none => rfl
    | some again =>
        apply ofJson_tagged
        rw [Json.names_rereadFields read]
        exact free
  rw [ComesBack, line, object, ofJson_tagged free]

theorem Plain.comesBack (plain : Plain payload fields)
    (stored : event.payload = payload.toValue.getD .null)
    (parsed : parseStamp (printStamp event.timestamp) = some event.timestamp) :
    ComesBack refloat printStamp parseStamp later payload event := by
  rw [comesBack_object_iff plain.content plain.once plain.free stored parsed,
    (Json.rereadFields_eq_self_iff fields).mpr (plain.rereads refloat 124), Option.bind_some]
  exact ⟨plain.decoded, plain.decoded⟩

theorem HealthUpdate.kept_iff (update : HealthUpdate)
    (stored : event.payload = (EventPayload.healthUpdate update).toValue.getD .null)
    (parsed : parseStamp (printStamp event.timestamp) = some event.timestamp) :
    ComesBack refloat printStamp parseStamp later (.healthUpdate update) event ↔
      (EventPayload.healthUpdate update).Kept refloat := by
  have decoded : ∀ other : HealthUpdate,
      EventPayload.ofContent "health_update" (.object other.fields) =
        some (.healthUpdate { other with metrics := other.metrics.bind nonNull }) := by
    intro other
    rw [EventPayload.ofContent, other.ofJson_fields]
    rfl
  have front : Json.rereadFields refloat 125
      [("component", .string update.component), ("status", .string update.status),
        ("uptime_seconds", u64 update.uptimeSeconds)] = some _ :=
    (Json.rereadFields_eq_self_iff _).mpr (by simp [u64])
  rw [comesBack_object_iff rfl (List.Nodup.sublist update.names (by decide))
    (fun member => absurd (update.names.subset member) (by decide)) stored parsed]
  change EventPayload.ofContent "health_update" _ = _ ∧
    Option.bind _ (fun again => EventPayload.ofContent "health_update" _) = _ ↔ _
  rw [decoded, fields, Json.rereadFields_append, front, Option.bind_some]
  obtain ⟨component, status, uptimeSeconds, metrics⟩ := update
  cases metrics with
  | none => exact iff_of_true ⟨rfl, decoded ⟨component, status, uptimeSeconds, none⟩⟩ nofun
  | some value =>
      have kept : (EventPayload.healthUpdate ⟨component, status, uptimeSeconds, some value⟩).Kept
          refloat ↔ value ≠ .null ∧ value.Rereads refloat 125 := by
        simp [EventPayload.Kept]
      rw [kept, ← Json.reread_eq_self_iff, Json.present, Json.rereadFields_single, id]
      cases value.reread refloat 125 with
      | none => simp
      | some again =>
          change _ ∧ EventPayload.ofContent "health_update"
            (.object (HealthUpdate.fields ⟨component, status, uptimeSeconds, some again⟩)) = _ ↔ _
          rw [decoded]
          simp [nonNull_eq_some_iff, and_comm]

/-- What is read as a raw payload is an object without a tag. -/
theorem raw_of_ofJson {value inner : Json}
    (decoded : EventPayload.ofJson value = some (.raw inner)) :
    ∃ members, inner = .object members ∧ "kind" ∉ members.map Prod.fst := by
  obtain ⟨⟨kind, members⟩, tagged, content⟩ := Option.bind_eq_some_iff.mp decoded
  have free : "kind" ∉ members.map Prod.fst := by
    cases value with
    | object fields =>
        rw [Json.tagged?] at tagged
        split at tagged
        · obtain ⟨name, _, same⟩ := Option.map_eq_some_iff.mp tagged
          cases same
          simp
        · cases tagged
    | _ => cases tagged
  dsimp only at content
  unfold EventPayload.ofContent at content
  split at content
  case h_9 =>
    cases content
    exact ⟨members, rfl, free⟩
  case h_10 => cases content
  all_goals
    obtain ⟨_, _, impossible⟩ := Option.map_eq_some_iff.mp content
    cases impossible

theorem raw_comesBack_iff (value : Json) (once : (EventPayload.raw value).KeysOnce)
    (stored : event.payload = (EventPayload.raw value).toValue.getD .null)
    (parsed : parseStamp (printStamp event.timestamp) = some event.timestamp) :
    ComesBack refloat printStamp parseStamp later (.raw value) event ↔
      (EventPayload.raw value).Kept refloat := by
  by_cases tagless : ∃ fields, value = .object fields ∧ "kind" ∉ fields.map Prod.fst
  · obtain ⟨fields, rfl, free⟩ := tagless
    have read : ∀ members, EventPayload.ofContent (EventPayload.raw (.object fields)).kind
        (.object members) = some (.raw (.object members)) := fun _ => rfl
    rw [comesBack_object_iff rfl once free stored parsed, EventPayload.Kept,
      ← Json.rereadFields_eq_self_iff, and_iff_right (read fields), and_iff_right free]
    cases Json.rereadFields refloat 125 fields with
    | none => exact iff_of_false nofun nofun
    | some again =>
        rw [Option.bind_some, read]
        simp
  · apply iff_of_false
    · intro back
      exact tagless (raw_of_ofJson back.1)
    · intro kept
      cases value with
      | object fields => exact tagless ⟨fields, rfl, kept.1⟩
      | _ => exact kept

/-- The payload comes back exactly when it is no raw value but an object without a tag, no null
among metrics, and nothing that its line cannot hold. -/
theorem comesBack_iff (topic : String) (sessionId projectHash : Option String) (now : Int)
    (payload : EventPayload) (once : payload.KeysOnce)
    (parsed : parseStamp (printStamp now) = some now) :
    ComesBack refloat printStamp parseStamp later payload
        (Event.fromTyped topic sessionId projectHash payload now) ↔
      payload.Kept refloat := by
  cases payload with
  | fileChanged payload => exact iff_of_true (payload.plain.comesBack rfl parsed) trivial
  | testStatus payload => exact iff_of_true (payload.plain.comesBack rfl parsed) trivial
  | driftFinding payload => exact iff_of_true (payload.plain.comesBack rfl parsed) trivial
  | subagentEvent payload => exact iff_of_true (payload.plain.comesBack rfl parsed) trivial
  | compactionDetected payload => exact iff_of_true (payload.plain.comesBack rfl parsed) trivial
  | stepAdvanced payload => exact iff_of_true (payload.plain.comesBack rfl parsed) trivial
  | healthUpdate payload => exact payload.kept_iff rfl parsed
  | degradedMode payload => exact iff_of_true (payload.plain.comesBack rfl parsed) trivial
  | raw value => exact raw_comesBack_iff value once rfl parsed

end Survival

theorem comesBack_raw_object :
    ComesBack id (fun _ => "1970-01-01T00:00:00Z") (fun _ => some 0) 0
      (.raw (.object [("hello", .string "world")]))
      (Event.fromTyped "system.health" none none
        (.raw (.object [("hello", .string "world")])) 0) := by
  have once : (EventPayload.raw (.object [("hello", .string "world")])).KeysOnce :=
    List.nodup_singleton "hello"
  exact (comesBack_iff "system.health" none none 0 _ once rfl).mpr ⟨by simp, by simp⟩

/-- A text that is sent raw is stored as null; an object that names its kind loses the tag. -/
theorem raw_lost :
    EventPayload.ofJson
        (Event.fromTyped "system.health" none none (.raw (.string "hello")) 0).payload = none ∧
      EventPayload.ofJson (Event.fromTyped "system.health" none none
        (.raw (.object [("kind", .string "user")])) 0).payload = none :=
  ⟨rfl, rfl⟩

end Mneme.Livebus
