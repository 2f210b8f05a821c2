/-
The hook files that some platforms get, and the install receipts: what an install run
records, and how a rollback undoes it.

The receipt is read back as it was written.  A dry run writes nothing and is left out.
-/

import Mneme.Cli.Platforms
import Mneme.Library.Run

namespace Mneme.Cli.Platforms

open Mneme.Common

def hookPath (host : Host) (ctx : AdapterContext) : Platform → Option Place
  | .cursor => some ⟨host.home ++ [".cursor"], "hooks.json"⟩
  | .qoder => some ⟨scopeRoot host ctx ++ [".qoder"], "settings.json"⟩
  | .geminiCli => some ⟨host.home ++ [".gemini", "commands"], "mneme.toml"⟩
  | .kiro => some ⟨scopeRoot host ctx ++ [".kiro", "hooks"], "mneme.kiro.hook"⟩
  | .openCode => some ⟨scopeRoot host ctx ++ [".opencode", "plugins"], "mneme.ts"⟩
  | .windsurf => some ⟨scopeRoot host ctx ++ [".windsurf", "workflows"], "mneme.md"⟩
  | _ => none

def ownedByMneme (entry : Json) : Bool :=
  (getField entry "owner").bind Json.string? = some "mneme"

def mnemeHook (command : String) : Json :=
  .object [("command", .string command), ("owner", .string "mneme")]

/-- The entry of one event takes the place of earlier ones. -/
def setCursorEvent (root : List (String × Json)) (event command : String) :
    Except CliError (List (String × Json)) := do
  let entries ← asArray ((root.lookup event).getD (.array [])) (event ++ " is not an array")
  let kept := entries.filter (fun entry => !ownedByMneme entry)
  return setField root event (.array (kept ++ [mnemeHook command]))

def cursorWriteHooks (host : Host) (path : Place) (machine : Machine) :
    Except CliError Machine := do
  let existing ← readOr machine path "\x7b\x7d"
  let value ← parseJson host (if trim existing = "" then "\x7b\x7d" else existing)
  let root ← asObject value "hooks.json root is not object"
  let edited ← setCursorEvent root "afterFileEdit" "mneme post-tool"
  let run ← setCursorEvent edited "beforeShellExecution" "mneme pre-tool"
  let started ← setCursorEvent run "sessionStart" "mneme session-prime"
  return backupThenWrite host machine path (host.toStringPretty (.object started) ++ "\n")

def qoderWriteHooks (host : Host) (path : Place) (machine : Machine) :
    Except CliError Machine := do
  let existing ← readOr machine path "\x7b\x7d"
  let value ← parseJson host (if trim existing = "" then "\x7b\x7d" else existing)
  let root ← asObject value "settings.json not object"
  let hooks ← asObject ((root.lookup "hooks").getD (.object [])) "`hooks` is not an object"
  let set := setField (setField hooks "onTurnEnd" (mnemeHook "mneme turn-end"))
    "onSessionStart" (mnemeHook "mneme session-prime")
  let merged := setField root "hooks" (.object set)
  return backupThenWrite host machine path (host.toStringPretty (.object merged) ++ "\n")

def geminiCommand : String :=
  "name = mneme\"\ndescription = \"Run a mneme command (status / recall / blast / step ...)\"\n" ++
  "command = mneme\"\nargs = [\"$@\"]\n"

def kiroHook : Json :=
  .object
    [("name", .string "mneme"),
      ("events", .array
        [.string "onSessionStart", .string "onFileEdited", .string "onTurnEnd"]),
      ("command", .string "mneme"),
      ("argTemplate", .array [.string "session-prime"])]

def openCodePlugin : String :=
  "// Auto-generated by `mneme install`. Re-run install to refresh.\n" ++
  "import \x7b execFileSync \x7d from \"node:child_process\";\n\n" ++
  "// Safe: execFileSync passes args as a vector, never to a shell.\n" ++
  "function dt(args: string[]) \x7b\n" ++
  "execFileSync(mneme\", args, \x7b stdio: \"inherit\" \x7d);\n\x7d\n\n" ++
  "export default \x7b\nname: mneme\",\nevents: \x7b\n" ++
  "\"session.created\": (c: any) => dt([\"session-prime\", \"--project\", String(c.cwd), " ++
  "\"--session-id\", String(c.id)]),\n" ++
  "\"tool.execute.before\": (c: any) => dt([\"pre-tool\", \"--tool\", String(c.tool), " ++
  "\"--params\", JSON.stringify(c.params), \"--session-id\", String(c.session)]),\n" ++
  "\"tool.execute.after\":  (c: any) => dt([\"post-tool\", \"--tool\", String(c.tool), " ++
  "\"--result-file\", String(c.resultPath), \"--session-id\", String(c.session)]),\n" ++
  "\"file.edited\":         (c: any) => dt([\"post-tool\", \"--tool\", \"Edit\", " ++
  "\"--result-file\", String(c.path), \"--session-id\", String(c.session)]),\n" ++
  "\x7d,\n\x7d;\n"

def windsurfWorkflow : String :=
  "# Mneme Quick Status\n\nRun `mneme status` from this workflow to refresh the cached " ++
  "project graph and surface drift findings without leaving Windsurf.\n"

/-- The hook file is given with what became of the files; most platforms have none. -/
def writeHooks (host : Host) (ctx : AdapterContext) (platform : Platform) (machine : Machine) :
    Except CliError (Option (Place × Machine)) :=
  match hookPath host ctx platform with
  | none => .ok none
  | some path =>
      match platform with
      | .cursor => (cursorWriteHooks host path machine).map (fun after => some (path, after))
      | .qoder => (qoderWriteHooks host path machine).map (fun after => some (path, after))
      | .geminiCli => .ok (some (path, writeFile machine path geminiCommand))
      | .kiro =>
          .ok (some (path, writeFile machine path (host.toStringPretty kiroHook ++ "\n")))
      | .openCode => .ok (some (path, writeFile machine path openCodePlugin))
      | .windsurf => .ok (some (path, writeFile machine path windsurfWorkflow))
      | _ => .ok none

end Mneme.Cli.Platforms

namespace Mneme.Cli.Receipts

open Platforms

inductive ReceiptAction where
  | fileModified (path backupPath : Place) (sha256Before sha256After : String)
  | fileCreated (path : Place) (sha256After : String)
  | pathAdded (entry : String)
  | defenderExcluded (path : String)
  | mcpRegistered (platform : String) (hostFile : Place)
deriving DecidableEq

/-- The digest of a file; of an absent one, nothing. -/
def sha256OfFile (host : Host) (machine : Machine) (path : Place) : String :=
  match machine.files.lookup path with
  | none => ""
  | some bytes => host.sha256 bytes

def startsWith (lead text : String) : Bool :=
  lead.toList.isPrefixOf text.toList

/-- The greatest name among the backups of the target. -/
def findLatestMnemeBak (machine : Machine) (target : Place) : Option Place :=
  let candidates := machine.files.keys.filter (fun place =>
    place.directory = target.directory ∧
      (startsWith (target.name ++ ".mneme-") place.name ||
        startsWith (target.fileStem ++ ".mneme-") place.name))
  (candidates.mergeSort (fun left right => decide (right.name ≤ left.name))).head?

/-! ### An install run -/

/-- What an install run has done so far. -/
structure Progress where
  machine : Machine
  actions : List ReceiptAction

/-- The action for a file that was written: a modification names the latest backup. -/
def recordWrite (host : Host) (before after : Machine) (target : Place) : List ReceiptAction :=
  if (before.files.lookup target).isSome then
    match findLatestMnemeBak after target with
    | some backup =>
        [.fileModified target backup (sha256OfFile host before target)
          (sha256OfFile host after target)]
    | none => []
  else [.fileCreated target (sha256OfFile host after target)]

def installManifest (host : Host) (ctx : AdapterContext) (platform : Platform)
    (progress : Progress) : Except CliError Progress := do
  let machine ← writeManifest host ctx platform progress.machine
  return {
    machine
    actions := progress.actions ++
      recordWrite host progress.machine machine (manifestPath host ctx platform) }

def installMcp (host : Host) (ctx : AdapterContext) (platform : Platform)
    (progress : Progress) : Except CliError Progress := do
  let machine ← writeMcpConfig host ctx platform progress.machine
  let path := mcpConfigPath host ctx platform
  return {
    machine
    actions := progress.actions ++ (recordWrite host progress.machine machine path ++
      [.mcpRegistered platform.id path]) }

/-- A hook file is recorded only where a backup of it is found. -/
def recordHooks (host : Host) (after : Machine) (target : Place) : List ReceiptAction :=
  match findLatestMnemeBak after target with
  | some backup => [.fileModified target backup "" (sha256OfFile host after target)]
  | none => []

def installHooks (host : Host) (ctx : AdapterContext) (platform : Platform)
    (progress : Progress) : Except CliError Progress := do
  match ← writeHooks host ctx platform progress.machine with
  | none => return progress
  | some (path, machine) =>
      return { machine, actions := progress.actions ++ recordHooks host machine path }

inductive Piece where
  | manifest
  | mcp
  | hooks
deriving DecidableEq

structure Part where
  platform : Platform
  piece : Piece
deriving DecidableEq

def installPart (host : Host) (ctx : AdapterContext) (progress : Progress) (part : Part) :
    Except CliError Progress :=
  match part.piece with
  | .manifest => installManifest host ctx part.platform progress
  | .mcp => installMcp host ctx part.platform progress
  | .hooks => installHooks host ctx part.platform progress

structure Skips where
  manifest : Bool
  mcp : Bool
  hooks : Bool

def partsOf (skips : Skips) (platform : Platform) : List Part :=
  (if skips.manifest then [] else [⟨platform, .manifest⟩]) ++
    ((if skips.mcp then [] else [⟨platform, .mcp⟩]) ++
      (if skips.hooks then [] else [⟨platform, .hooks⟩]))

/-- The parts of one platform, up to the first that fails; what is done stays done. -/
def installParts (host : Host) (ctx : AdapterContext) : List Part → Progress → Progress
  | [], progress => progress
  | part :: rest, progress =>
      match installPart host ctx progress part with
      | .error _ => progress
      | .ok after => installParts host ctx rest after

def installOne (host : Host) (ctx : AdapterContext) (skips : Skips) (platform : Platform)
    (progress : Progress) : Progress :=
  installParts host ctx (partsOf skips platform) progress

/-- The platform that was asked for, or those that are found. -/
def targets (asked : Option Platform) (detect : Platform → Bool) : List Platform :=
  match asked with
  | some platform => [platform]
  | none =>
      Platform.allKnown.filter (fun platform =>
        platform = .claudeCode || platform = .qoder || detect platform)

def install (host : Host) (ctx : AdapterContext) (skips : Skips) (platforms : List Platform)
    (progress : Progress) : Progress :=
  platforms.foldl (fun progress platform => installOne host ctx skips platform progress) progress

/-! ### Rollback -/

inductive RollbackError where
  | changedSinceInstall (target backup : Place)
  | backupMissing (backup : Place)
  | modifiedAfterCreation (target : Place)
  | pathCleanup
  | unknownPlatform (platform : String)
  | mcp (error : CliError)
deriving DecidableEq

/-- The error says that the file is not as the install left it. -/
def RollbackError.drifted : RollbackError → Bool
  | .changedSinceInstall _ _ => true
  | .modifiedAfterCreation _ => true
  | _ => false

structure RollbackSummary where
  reversed : List ReceiptAction
  skipped : List (ReceiptAction × RollbackError)
  manual : List ReceiptAction

/-- An absent file has not drifted. -/
def hasDrifted (host : Host) (machine : Machine) (target : Place) (shaAfter : String) : Bool :=
  let current := sha256OfFile host machine target
  shaAfter ≠ "" && current ≠ shaAfter && current ≠ ""

def rollbackFileModified (host : Host) (target backup : Place) (shaAfter : String)
    (machine : Machine) : Except RollbackError Machine :=
  if hasDrifted host machine target shaAfter then .error (.changedSinceInstall target backup)
  else
    match machine.files.lookup backup with
    | none => .error (.backupMissing backup)
    | some content => .ok (machine.carryOut (.write target content))

def rollbackFileCreated (host : Host) (target : Place) (shaAfter : String)
    (machine : Machine) : Except RollbackError Machine :=
  if (machine.files.lookup target).isNone then .ok machine
  else if hasDrifted host machine target shaAfter then .error (.modifiedAfterCreation target)
  else .ok (machine.carryOut (.remove target))

/-- The config of the platform in user scope, whatever the scope of the install was. -/
def userConfigPath (host : Host) (platform : Platform) : Place :=
  mcpConfigPath host { scope := .user, projectRoot := host.currentDir, force := false } platform

def rollbackMcpEntry (host : Host) (platform : String) (machine : Machine) :
    Except RollbackError Machine :=
  match Platform.fromId platform with
  | none => .error (.unknownPlatform platform)
  | some known =>
      match removeMcpEntry host (userConfigPath host known) (mcpFormat known) machine with
      | .error error => .error (.mcp error)
      | .ok after => .ok after

/-- A reversed action takes the files on; a skipped one leaves them. -/
def settle (action : ReceiptAction) (done : Machine × RollbackSummary) :
    Except RollbackError Machine → Machine × RollbackSummary
  | .ok machine => (machine, { done.2 with reversed := done.2.reversed ++ [action] })
  | .error error => (done.1, { done.2 with skipped := done.2.skipped ++ [(action, error)] })

def undoAction (host : Host) (done : Machine × RollbackSummary) (action : ReceiptAction) :
    Machine × RollbackSummary :=
  match action with
  | .fileModified path backup _ shaAfter =>
      settle action done (rollbackFileModified host path backup shaAfter done.1)
  | .fileCreated path shaAfter =>
      settle action done (rollbackFileCreated host path shaAfter done.1)
  | .pathAdded _ => settle action done (.error .pathCleanup)
  | .defenderExcluded _ => (done.1, { done.2 with manual := done.2.manual ++ [action] })
  | .mcpRegistered platform _ =>
      settle action done (rollbackMcpEntry host platform done.1)

/-- The newest action is undone first. -/
def rollback (host : Host) (actions : List ReceiptAction) (machine : Machine) :
    Machine × RollbackSummary :=
  actions.reverse.foldl (undoAction host) (machine, { reversed := [], skipped := [], manual := [] })

end Mneme.Cli.Receipts
