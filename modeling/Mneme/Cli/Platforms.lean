/-
The platforms of `mneme install`: where their manifests, MCP configs and hooks are,
and how each is written.

JSON and TOML texts, the digest and the clock are parameters.  A file is read and
written as a whole, and no file operation fails but the reading of what is absent or
is not UTF-8.
-/

import Mathlib.Data.List.AList
import Mneme.Cli.Markers
import Mneme.Common.CivilDate
import Mneme.Common.Path
import Mneme.Library.Json

namespace Mneme.Cli.Platforms

open Mneme.Common

inductive InstallScope where
  | project
  | user
  | global
deriving DecidableEq

inductive Platform where
  | claudeCode
  | codex
  | cursor
  | windsurf
  | zed
  | continueDev
  | openCode
  | antigravity
  | geminiCli
  | aider
  | copilot
  | factoryDroid
  | trae
  | kiro
  | qoder
  | openClaw
  | hermes
  | qwen
  | vsCode
deriving DecidableEq

namespace Platform

def id : Platform → String
  | claudeCode => "claude-code"
  | codex => "codex"
  | cursor => "cursor"
  | windsurf => "windsurf"
  | zed => "zed"
  | continueDev => "continue"
  | openCode => "opencode"
  | antigravity => "antigravity"
  | geminiCli => "gemini-cli"
  | aider => "aider"
  | copilot => "copilot"
  | factoryDroid => "factory-droid"
  | trae => "trae"
  | kiro => "kiro"
  | qoder => "qoder"
  | openClaw => "openclaw"
  | hermes => "hermes"
  | qwen => "qwen"
  | vsCode => "vscode"

def allKnown : List Platform :=
  [claudeCode, codex, cursor, windsurf, zed, continueDev, openCode, antigravity, geminiCli,
    aider, copilot, factoryDroid, trae, kiro, qoder, openClaw, hermes, qwen, vsCode]

/-- Ids are compared without regard to case. -/
def fromId (id : String) : Option Platform :=
  allKnown.find? (fun platform => toAsciiLowercase platform.id = toAsciiLowercase id)

theorem fromId_id (platform : Platform) : fromId platform.id = some platform := by
  cases platform <;> decide +kernel

end Platform

inductive McpFormat where
  | jsonObject
  | jsonArray
  | toml
deriving DecidableEq

/-! ### Files -/

/-- The path of a file: the components of its directory and its name. -/
structure Place where
  directory : List String
  name : String
deriving DecidableEq

def Place.extension (place : Place) : Option String :=
  (extensionOf place.name.toList).map String.ofList

/-- The name up to the dot of its extension. -/
def Place.fileStem (place : Place) : String :=
  match extensionOf place.name.toList with
  | none => place.name
  | some ext => String.ofList (place.name.toList.take (place.name.length - (ext.length + 1)))

def Place.withExtension (place : Place) (extension : String) : Place :=
  { place with name := place.fileStem ++ "." ++ extension }

abbrev Files := AList (fun _ : Place => ByteArray)

inductive FileOperation where
  | write (path : Place) (contents : ByteArray)
  | remove (path : Place)

def FileOperation.apply (files : Files) : FileOperation → Files
  | .write path contents => files.insert path contents
  | .remove path => files.erase path

/-- The files, how often the clock was read and what was done to the files so far. -/
structure Machine where
  files : Files
  reads : Nat
  operations : List FileOperation

def Machine.carryOut (machine : Machine) (operation : FileOperation) : Machine :=
  { machine with
    files := operation.apply machine.files
    operations := machine.operations ++ [operation] }

@[simp] theorem Machine.carryOut_write (machine : Machine) (path : Place)
    (contents : ByteArray) :
    (machine.carryOut (.write path contents)).files = machine.files.insert path contents := rfl

inductive CliError where
  | io (path : Place)
  | json
  | tomlDe
  | tomlSer
  | markerEdited (path : Place)
  | other (message : String)
deriving DecidableEq

/-- A TOML value; floats and dates are what they are written as. -/
inductive Toml where
  | string (text : String)
  | integer (value : Int)
  | boolean (value : Bool)
  | other (text : String)
  | array (items : List Toml)
  | table (entries : List (String × Toml))

/-- What the program finds around it. -/
structure Host where
  fromStr : String → Option Json
  toStringPretty : Json → String
  parseToml : String → Option Toml
  tomlToStringPretty : Toml → Option String
  sha256 : ByteArray → String
  clock : Nat → Nat
  home : List String
  currentDir : List String
  codeUserConfigDir : List String
  version : String

structure AdapterContext where
  scope : InstallScope
  projectRoot : List String
  force : Bool

/-- The project root in project scope, else the home directory. -/
def scopeRoot (host : Host) (ctx : AdapterContext) : List String :=
  match ctx.scope with
  | .project => ctx.projectRoot
  | .user => host.home
  | .global => host.home

def readToString (machine : Machine) (path : Place) : Except CliError String :=
  match (machine.files.lookup path).bind String.fromUTF8? with
  | none => .error (.io path)
  | some text => .ok text

/-- A file that is absent is read as the given text. -/
def readOr (machine : Machine) (path : Place) (absent : String) : Except CliError String :=
  if (machine.files.lookup path).isSome then readToString machine path else .ok absent

def extensionWithBak (path : Place) : String :=
  match path.extension with
  | some ext => if ext = "" then "bak" else ext ++ ".bak"
  | none => "bak"

def extensionWithMnemeBak (path : Place) (now : String) : String :=
  match path.extension with
  | some ext =>
      if ext = "" then "mneme-" ++ now ++ ".bak" else ext ++ ".mneme-" ++ now ++ ".bak"
  | none => "mneme-" ++ now ++ ".bak"

/-- The timestamped snapshot of a file. -/
def snapshotOf (path : Place) (now : String) : Place :=
  path.withExtension (extensionWithMnemeBak path now)

/-- The alias of the latest snapshot. -/
def aliasOf (path : Place) : Place :=
  path.withExtension (extensionWithBak path)

def backupThenWrite (host : Host) (machine : Machine) (path : Place) (contents : String) :
    Machine :=
  match machine.files.lookup path with
  | none => machine.carryOut (.write path contents.toUTF8)
  | some current =>
      let snapshot := snapshotOf path (chronoLikeUtcStamp (host.clock machine.reads))
      let backedUp := (machine.carryOut (.write snapshot current)).carryOut
        (.write (aliasOf path) current)
      { backedUp.carryOut (.write path contents.toUTF8) with reads := machine.reads + 1 }

/-- Written without a backup. -/
def writeFile (machine : Machine) (path : Place) (contents : String) : Machine :=
  machine.carryOut (.write path contents.toUTF8)

/-! ### Manifests -/

def agentsMdBody (version : String) : String :=
  "## Mneme (the AI superbrain)\n\n" ++
  "- Persistent per-project memory across sessions and compactions.\n" ++
  "- 30+ MCP tools: see `mneme --help` or run `/mn-recall`, `/mn-blast`, `/mn-graphify`, `/mn-step`.\n" ++
  "- Step Ledger guarantees Claude resumes the *correct* step after compaction.\n" ++
  "- Drift detector enforces this project's rules from CLAUDE.md / .claude/rules.\n" ++
  "- Local-only: zero network egress in the hot path.\n" ++
  "- Vision app: `mneme view`\n" ++
  "- Daemon: `mneme daemon status`\n\n" ++
  "v" ++ version ++ " — see https://github.com/anishtrivedi/mneme\n"

def manifestPath (host : Host) (ctx : AdapterContext) (platform : Platform) : Place :=
  let root := scopeRoot host ctx
  match platform with
  | .claudeCode =>
      match ctx.scope with
      | .project => ⟨root, "CLAUDE.md"⟩
      | .user => ⟨root ++ [".claude"], "CLAUDE.md"⟩
      | .global => ⟨root ++ [".claude"], "CLAUDE.md"⟩
  | .windsurf => ⟨root, ".windsurfrules"⟩
  | .geminiCli => ⟨root, "GEMINI.md"⟩
  | .aider => ⟨root, "CONVENTIONS.md"⟩
  | .copilot =>
      match ctx.scope with
      | .project => ⟨root ++ [".github"], "copilot-instructions.md"⟩
      | .user => ⟨root ++ [".config", "github-copilot"], "copilot-instructions.md"⟩
      | .global => ⟨root ++ [".config", "github-copilot"], "copilot-instructions.md"⟩
  | .kiro => ⟨root ++ [".kiro", "steering"], "mneme.md"⟩
  | .qoder => ⟨root, "QODER.md"⟩
  | .qwen => ⟨root, "QWEN.md"⟩
  | .codex => ⟨root, "AGENTS.md"⟩
  | .cursor => ⟨root, "AGENTS.md"⟩
  | .zed => ⟨root, "AGENTS.md"⟩
  | .continueDev => ⟨root, "AGENTS.md"⟩
  | .openCode => ⟨root, "AGENTS.md"⟩
  | .antigravity => ⟨root, "AGENTS.md"⟩
  | .factoryDroid => ⟨root, "AGENTS.md"⟩
  | .trae => ⟨root, "AGENTS.md"⟩
  | .openClaw => ⟨root, "AGENTS.md"⟩
  | .hermes => ⟨root, "AGENTS.md"⟩
  | .vsCode => ⟨root, "AGENTS.md"⟩

def writeManifest (host : Host) (ctx : AdapterContext) (platform : Platform)
    (machine : Machine) : Except CliError Machine := do
  let path := manifestPath host ctx platform
  let existing ← readOr machine path ""
  match Markers.inject host.sha256 existing (agentsMdBody host.version) ctx.force with
  | none => .error (.markerEdited path)
  | some newText => .ok (backupThenWrite host machine path newText)

/-! ### MCP configs -/

def mcpConfigPath (host : Host) (ctx : AdapterContext) (platform : Platform) : Place :=
  let root := scopeRoot host ctx
  match platform with
  | .claudeCode =>
      match ctx.scope with
      | .project => ⟨root, ".mcp.json"⟩
      | .user => ⟨root, ".claude.json"⟩
      | .global => ⟨root, ".claude.json"⟩
  | .codex => ⟨host.home ++ [".codex"], "config.toml"⟩
  | .cursor => ⟨root ++ [".cursor"], "mcp.json"⟩
  | .windsurf => ⟨host.home ++ [".codeium", "windsurf"], "mcp_config.json"⟩
  | .zed => ⟨host.home ++ [".config", "zed"], "settings.json"⟩
  | .continueDev => ⟨host.home ++ [".continue"], "config.json"⟩
  | .openCode => ⟨root, ".opencode.json"⟩
  | .antigravity => ⟨host.home ++ [".gemini", "antigravity"], "mcp_config.json"⟩
  | .geminiCli => ⟨host.home ++ [".gemini"], "settings.json"⟩
  | .aider => ⟨root, ".aider.conf.yml"⟩
  | .copilot =>
      match ctx.scope with
      | .project => ⟨root ++ [".vscode"], "mcp.json"⟩
      | .user => ⟨root ++ [".config", "github-copilot"], "mcp.json"⟩
      | .global => ⟨root ++ [".config", "github-copilot"], "mcp.json"⟩
  | .factoryDroid => ⟨host.home ++ [".factory"], "mcp.json"⟩
  | .trae => ⟨host.home ++ [".trae"], "mcp.json"⟩
  | .kiro => ⟨root ++ [".kiro", "settings"], "mcp.json"⟩
  | .qoder => ⟨root ++ [".qoder"], "mcp.json"⟩
  | .openClaw => ⟨root, ".mcp.json"⟩
  | .hermes =>
      match ctx.scope with
      | .project => ⟨root, ".mcp.json"⟩
      | .user => ⟨root ++ [".hermes"], "mcp.json"⟩
      | .global => ⟨root ++ [".hermes"], "mcp.json"⟩
  | .qwen => ⟨host.home ++ [".qwen"], "settings.json"⟩
  | .vsCode =>
      match ctx.scope with
      | .project => ⟨root ++ [".vscode"], "mcp.json"⟩
      | .user => ⟨host.codeUserConfigDir, "mcp.json"⟩
      | .global => ⟨host.codeUserConfigDir, "mcp.json"⟩

def mcpFormat : Platform → McpFormat
  | .codex => .toml
  | .continueDev => .jsonArray
  | _ => .jsonObject

/-- A member is put in its place, or behind the others. -/
def setField {Value : Type} (fields : List (String × Value)) (key : String) (value : Value) :
    List (String × Value) :=
  if fields.any (fun field => field.1 = key) then
    fields.map (fun field => if field.1 = key then (key, value) else field)
  else fields ++ [(key, value)]

def removeField {Value : Type} (fields : List (String × Value)) (key : String) :
    List (String × Value) :=
  fields.filter (fun field => field.1 ≠ key)

def getField (value : Json) (key : String) : Option Json :=
  match value with
  | .object fields => fields.lookup key
  | _ => none

def mnemeMcpEntryFields : List (String × Json) :=
  [("command", .string "mneme"),
    ("args", .array [.string "mcp", .string "stdio"]),
    ("env", .object [("MNEME_LOG", .string "info")]),
    ("transport", .string "stdio")]

def mnemeMcpEntry : Json :=
  .object mnemeMcpEntryFields

def stripBom (text : String) : String :=
  (Markers.stripPrefix "\ufeff" text).getD text

def parseJson (host : Host) (text : String) : Except CliError Json :=
  match host.fromStr text with
  | none => .error .json
  | some value => .ok value

/-- A blank text stands for the given value. -/
def parseJsonOr (host : Host) (blank : Json) (text : String) : Except CliError Json :=
  if trim text = "" then .ok blank else parseJson host text

def asObject (value : Json) (message : String) : Except CliError (List (String × Json)) :=
  match value with
  | .object fields => .ok fields
  | _ => .error (.other message)

def asArray (value : Json) (message : String) : Except CliError (List Json) :=
  match value with
  | .array items => .ok items
  | _ => .error (.other message)

def namedMneme (server : Json) : Bool :=
  (getField server "name").bind Json.string? = some "mneme"

def mergeMcpJsonObject (host : Host) (existing : String) : Except CliError String := do
  let value ← parseJsonOr host (.object []) (stripBom existing)
  let root ← asObject value "MCP config root is not a JSON object"
  let servers ← asObject ((root.lookup "mcpServers").getD (.object []))
    "`mcpServers` is not a JSON object"
  let merged := setField root "mcpServers" (.object (setField servers "mneme" mnemeMcpEntry))
  return host.toStringPretty (.object merged) ++ "\n"

def stripMcpJsonObject (host : Host) (existing : String) : Except CliError String := do
  let value ← parseJson host (stripBom existing)
  let stripped :=
    match value with
    | .object root =>
        match root.lookup "mcpServers" with
        | some (.object servers) =>
            .object (setField root "mcpServers" (.object (removeField servers "mneme")))
        | _ => value
    | _ => value
  return host.toStringPretty stripped ++ "\n"

def mergeMcpJsonArray (host : Host) (existing : String) : Except CliError String := do
  let value ← parseJsonOr host (.object [("mcpServers", .array [])]) (stripBom existing)
  let root ← asObject value "MCP config root is not a JSON object"
  let servers ← asArray ((root.lookup "mcpServers").getD (.array []))
    "`mcpServers` is not a JSON array"
  let entry := Json.object (setField mnemeMcpEntryFields "name" (.string "mneme"))
  let kept := servers.filter (fun server => !namedMneme server)
  let merged := setField root "mcpServers" (.array (kept ++ [entry]))
  return host.toStringPretty (.object merged) ++ "\n"

def stripMcpJsonArray (host : Host) (existing : String) : Except CliError String := do
  let value ← parseJson host (stripBom existing)
  let stripped :=
    match value with
    | .object root =>
        match root.lookup "mcpServers" with
        | some (.array servers) =>
            .object (setField root "mcpServers"
              (.array (servers.filter (fun server => !namedMneme server))))
        | _ => value
    | _ => value
  return host.toStringPretty stripped ++ "\n"

def parseTomlText (host : Host) (text : String) : Except CliError Toml :=
  match host.parseToml text with
  | none => .error .tomlDe
  | some doc => .ok doc

def printTomlText (host : Host) (doc : Toml) : Except CliError String :=
  match host.tomlToStringPretty doc with
  | none => .error .tomlSer
  | some text => .ok text

def asTable (value : Toml) (message : String) : Except CliError (List (String × Toml)) :=
  match value with
  | .table entries => .ok entries
  | _ => .error (.other message)

def mergeMcpToml (host : Host) (existing : String) : Except CliError String := do
  let doc ← if trim existing = "" then .ok (Toml.table []) else parseTomlText host existing
  let root ← asTable doc "TOML root is not a table"
  let servers ← asTable ((root.lookup "mcp_servers").getD (.table []))
    "`mcp_servers` is not a TOML table"
  let entry := Toml.table
    [("command", .string "mneme"),
      ("args", .array [.string "mcp", .string "stdio"]),
      ("env", .table [("MNEME_LOG", .string "info")])]
  printTomlText host
    (.table (setField root "mcp_servers" (.table (setField servers "mneme" entry))))

def stripMcpToml (host : Host) (existing : String) : Except CliError String := do
  let doc ← parseTomlText host existing
  let stripped :=
    match doc with
    | .table root =>
        match root.lookup "mcp_servers" with
        | some (.table servers) =>
            .table (setField root "mcp_servers" (.table (removeField servers "mneme")))
        | _ => doc
    | _ => doc
  printTomlText host stripped

def mergeMcp (host : Host) : McpFormat → String → Except CliError String
  | .jsonObject => mergeMcpJsonObject host
  | .jsonArray => mergeMcpJsonArray host
  | .toml => mergeMcpToml host

def stripMcp (host : Host) : McpFormat → String → Except CliError String
  | .jsonObject => stripMcpJsonObject host
  | .jsonArray => stripMcpJsonArray host
  | .toml => stripMcpToml host

/-- What an absent config is read as. -/
def emptyConfig : McpFormat → String
  | .jsonObject => "\x7b\x7d"
  | .jsonArray => "\x7b\"mcpServers\": []\x7d"
  | .toml => ""

def writeMcpConfigDefault (host : Host) (path : Place) (format : McpFormat)
    (machine : Machine) : Except CliError Machine := do
  let existing ← readOr machine path (emptyConfig format)
  let merged ← mergeMcp host format existing
  return backupThenWrite host machine path merged

def removeMcpEntry (host : Host) (path : Place) (format : McpFormat) (machine : Machine) :
    Except CliError Machine := do
  let existing ← readToString machine path
  let stripped ← stripMcp host format existing
  return backupThenWrite host machine path stripped

def aiderMarker : String := "# mneme MCP server"

def aiderSnippet : String :=
  "\n# mneme MCP server (added by `mneme install`)\nmcp_servers:\n  mneme:\n    " ++
  "command: mneme\n    args: [mcp, stdio]\n    env:\n      MNEME_LOG: info\n"

/-- A config that has the section is left as it is. -/
def aiderWriteMcpConfig (host : Host) (path : Place) (machine : Machine) :
    Except CliError Machine := do
  let existing ← readOr machine path ""
  if (Library.cutAt aiderMarker.toList existing.toList).isSome then return machine
  else return backupThenWrite host machine path (existing ++ aiderSnippet)

def zedWriteMcpConfig (host : Host) (path : Place) (machine : Machine) :
    Except CliError Machine := do
  let existing ← readOr machine path "\x7b\x7d"
  let value ← parseJson host (if trim existing = "" then "\x7b\x7d" else existing)
  let root ← asObject value "settings.json not object"
  let servers ← asObject ((root.lookup "context_servers").getD (.object []))
    "`context_servers` is not an object"
  let entry := Json.object
    [("command", .object [("path", .string "mneme"),
        ("args", .array [.string "mcp", .string "stdio"])]),
      ("settings", .object [])]
  let merged := setField root "context_servers" (.object (setField servers "mneme" entry))
  return backupThenWrite host machine path (host.toStringPretty (.object merged) ++ "\n")

def writeMcpConfig (host : Host) (ctx : AdapterContext) (platform : Platform)
    (machine : Machine) : Except CliError Machine :=
  let path := mcpConfigPath host ctx platform
  match platform with
  | .aider => aiderWriteMcpConfig host path machine
  | .zed => zedWriteMcpConfig host path machine
  | other => writeMcpConfigDefault host path (mcpFormat other) machine

end Mneme.Cli.Platforms
