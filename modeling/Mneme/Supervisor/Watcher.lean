/-
The watcher: the delete and the upsert of the rows of one file, what it makes of a
file-system event, the paths it cares about and the kind of change, and its statistics
with the lock that guards them.

The guards of one statement are temporaries: each of them lives until the statement ends.
-/

import Mathlib.Algebra.GroupWithZero.Nat
import Mneme.Common.FileTree
import Mneme.Library.Mutex
import Mneme.Store.Graph

namespace Mneme.Supervisor

open Common Parsers Store

inductive ChangeKind where
  | upsert
  | delete
deriving DecidableEq, Repr

/-- How a re-index ends. -/
inductive Reindex where
  /-- The call to `bump_ignored`, which locks the statistics a second time
  while its first guard is still alive, so that it never returns. -/
  | ignored
  | unread
  | deleted (nodes : Nat)
  | upserted (nodes edges : Nat)
  | failed (message : String)
deriving DecidableEq, Repr

/-- The watcher's own copy of the test. -/
def looksBinary (bytes : ByteArray) : Bool :=
  (bytes.data.toList.take 512).any (fun byte => byte == 0)

def deleteFile (path : Path) (shard : GraphShard) : Reindex × GraphShard :=
  let qualifiedNames := shard.qualifiedNamesOf path
  let cleared := qualifiedNames.foldl (fun shard id => shard.deleteEdgesAt id) shard
  (.deleted qualifiedNames.length, cleared.deleteNodesOf path)

/-- Wipe the edges that start at the file's old nodes, then insert the new
nodes and edges. -/
def upsertGraph (path : Path) (graph : ExtractedGraph) (shard : GraphShard) :
    Reindex × GraphShard :=
  let wiped := (shard.qualifiedNamesOf path).foldl (fun shard id => shard.deleteEdgesFrom id) shard
  (.upserted graph.nodes.length graph.edges.length, persist "watcher" graph wiped)

def upsertFile (treeSitter : TreeSitter) (path : Path) (content : Option ByteArray)
    (shard : GraphShard) : Reindex × GraphShard :=
  match Language.fromFilename path with
  | none => (.ignored, shard)
  | some language =>
      if language.isEnabled then
        match content with
        | none => (.unread, shard)
        | some bytes =>
            if looksBinary bytes then (.ignored, shard)
            else
              match treeSitter.parse language bytes with
              | none => (.failed s!"parse {path}: {(ParserError.parseFailed path).text}", shard)
              | some tree =>
                  let source : Extraction := { treeSitter, language, tree, bytes, filePath := path }
                  match source.extract with
                  | .error error => (.failed s!"extract {path}: {error.text}", shard)
                  | .ok graph => upsertGraph path graph shard
      else (.ignored, shard)

def reindexOne (treeSitter : TreeSitter) (path : Path) (content : Option ByteArray) :
    ChangeKind → GraphShard → Reindex × GraphShard
  | .delete => deleteFile path
  | .upsert => upsertFile treeSitter path content

/-! ### Events -/

/-- The names of the watcher's `is_ignored`. -/
def watcherIgnoredNames : List String :=
  ["target", "node_modules", ".git", ".mneme", "dist", "build", ".next", ".nuxt", ".svelte-kit",
    ".venv", "venv", "__pycache__", ".pytest_cache", ".mypy_cache", ".ruff_cache", ".idea",
    ".vscode"]

/-- `strip_prefix(root).unwrap_or(path)` -/
def belowRoot (root path : Names) : Names :=
  if root <+: path then path.drop root.length else path

/-- Names that editors give to swap files. -/
def isSwapName (name : String) : Bool :=
  "~".toList.isSuffixOf name.toList || ".swp".toList.isSuffixOf name.toList ||
    ".tmp".toList.isSuffixOf name.toList || ".#".toList.isPrefixOf name.toList

def isIgnored (path root : Names) : Bool :=
  path.fileName ∈ watcherIgnoredNames ||
    (belowRoot root path).any (fun name => name.text ∈ watcherIgnoredNames) ||
      isSwapName path.fileName

inductive RemoveKind where
  | file
  | folder
  | any
  | other
deriving DecidableEq, Repr

inductive RenameMode where
  | any
  | to
  | «from»
  | both
  | other
deriving DecidableEq, Repr

/-- `data`, `metadata` and the rest of the modifications are not told apart. -/
inductive ModifyKind where
  | name (mode : RenameMode)
  | other
deriving DecidableEq, Repr

/-- The kinds of an event, as far as the watcher tells them apart. -/
inductive EventKind where
  | create
  | modify (kind : ModifyKind)
  | remove (kind : RemoveKind)
  | other
deriving DecidableEq, Repr

structure FsEvent where
  kind : EventKind
  paths : List Names

def classifyEvent (root : Names) (event : FsEvent) : List Names :=
  event.paths.filter (fun path => !isIgnored path root)

def eventKind (event : FsEvent) : ChangeKind :=
  match event.kind with
  | .remove .file | .remove .any => .delete
  | .modify (.name .from) => .delete
  | _ => .upsert

/-- A change of the file's content is not filtered out, and the re-index
writes its rows. -/
def WatcherReindexes (treeSitter : TreeSitter) (root : Names)
    (file : Names × Option ByteArray) : Prop :=
  root ++ file.1 ∈ classifyEvent root { kind := .modify .other, paths := [root ++ file.1] } ∧
    ∃ nodes edges,
      (reindexOne treeSitter (displayAbsolute (root ++ file.1)) file.2 .upsert .empty).1 =
        .upserted nodes edges

end Mneme.Supervisor

namespace Mneme.Supervisor

open Common Library

/-- The counter that is raised for an ignored path, and the other statistics. -/
structure WatcherStats (Rest : Type) where
  totalIgnored : UInt64
  rest : Rest
deriving DecidableEq

def saturatingAdd (left right : UInt64) : UInt64 :=
  if left.toNat + right.toNat < 2 ^ 64 then left + right else 18446744073709551615

namespace WatcherStats

variable {Rest : Type}

/-- One assignment: the guard of its right side is still alive when the left side locks. -/
def bumpIgnored : Locking (WatcherStats Rest) Unit := do
  Locking.lock
  let bumped ← Locking.read (fun stats => saturatingAdd stats.totalIgnored 1)
  Locking.lock
  Locking.write (fun stats => { stats with totalIgnored := bumped })
  Locking.unlock
  Locking.unlock

/-- `classify_event`: one turn of its loop. -/
def classifyPath (root : Names) (out : List Names) (path : Names) :
    Locking (WatcherStats Rest) (List Names) :=
  if isIgnored path root then do
    bumpIgnored
    return out
  else return out ++ [path]

def classifyEvent (root : Names) (event : FsEvent) : Locking (WatcherStats Rest) (List Names) :=
  event.paths.foldlM (classifyPath root) []

/-- The paths of an event with the kind that the debounce loop gives each of them. -/
def changes (root : Names) (event : FsEvent) :
    Locking (WatcherStats Rest) (List (Names × ChangeKind)) := do
  let out ← classifyEvent root event
  return out.map (fun path => (path, eventKind event))

/-- What is expected of an event: its kept paths in order, one more ignored path for each
ignored one, and the lock free at the end. -/
def Classifies (root : Names) (event : FsEvent) (stats : WatcherStats Rest) : Prop :=
  let kept := event.paths.filter (fun path => !isIgnored path root)
  let ignored := event.paths.countP (fun path => isIgnored path root)
  ∃ after, (changes root event) { data := stats, held := false } =
      .ok (kept.map (fun path => (path, eventKind event)), { data := after, held := false }) ∧
    after.rest = stats.rest ∧
    after.totalIgnored.toNat = min (stats.totalIgnored.toNat + ignored) (2 ^ 64 - 1)

/-- The second guard of the statement is never given out. -/
theorem bumpIgnored_waits (state : Guarded (WatcherStats Rest)) :
    bumpIgnored state = .error .waiting := by
  unfold bumpIgnored
  cases state with
  | mk stats held =>
      cases held with
      | true => exact Locking.lock_bind_held stats _
      | false =>
          rw [Locking.lock_bind_free, Locking.read_bind]
          exact Locking.lock_bind_held stats _

variable {root path : Names}

theorem classifyPath_ignored (ignored : isIgnored path root = true)
    (out : List Names) (state : Guarded (WatcherStats Rest)) :
    classifyPath root out path state = .error .waiting := by
  unfold classifyPath
  rw [if_pos ignored]
  exact Locking.bind_of_error (bumpIgnored_waits state) _

theorem classifyPath_kept (kept : isIgnored path root = false)
    (out : List Names) (state : Guarded (WatcherStats Rest)) :
    classifyPath root out path state = .ok (out ++ [path], state) := by
  unfold classifyPath
  rw [if_neg (Bool.eq_false_iff.mp kept)]
  rfl

theorem foldlM_ignored {paths : List Names} (inside : path ∈ paths)
    (ignored : isIgnored path root = true) (out : List Names)
    (state : Guarded (WatcherStats Rest)) :
    paths.foldlM (classifyPath root) out state = .error .waiting := by
  induction paths generalizing out state with
  | nil => cases inside
  | cons first rest ih =>
      rw [List.foldlM_cons]
      cases here : isIgnored first root with
      | true => exact Locking.bind_of_error (classifyPath_ignored here out state) _
      | false =>
          change (classifyPath root out first state).bind _ = _
          rw [classifyPath_kept here]
          cases List.mem_cons.mp inside with
          | inl same =>
              rw [← same, ignored] at here
              cases here
          | inr later => exact ih later _ _

theorem foldlM_kept {paths : List Names}
    (kept : ∀ path, path ∈ paths → isIgnored path root = false) (out : List Names)
    (state : Guarded (WatcherStats Rest)) :
    paths.foldlM (classifyPath root) out state = .ok (out ++ paths, state) := by
  induction paths generalizing out with
  | nil =>
      rw [List.append_nil]
      rfl
  | cons first rest ih =>
      rw [List.foldlM_cons]
      change (classifyPath root out first state).bind _ = _
      rw [classifyPath_kept (kept first List.mem_cons_self)]
      have later := ih (fun path inside => kept path (List.mem_cons_of_mem first inside))
        (out ++ [first])
      rw [List.append_assoc] at later
      exact later

/-- An event with an ignored path is never classified; one without is, and the lock is not
touched. -/
theorem classifyEvent_eq (root : Names) (event : FsEvent) (state : Guarded (WatcherStats Rest)) :
    classifyEvent root event state =
      if ∃ path, path ∈ event.paths ∧ isIgnored path root = true then .error .waiting
      else .ok (Supervisor.classifyEvent root event, state) := by
  unfold classifyEvent
  by_cases found : ∃ path, path ∈ event.paths ∧ isIgnored path root = true
  · obtain ⟨path, inside, ignored⟩ := found
    rw [if_pos ⟨path, inside, ignored⟩]
    exact foldlM_ignored inside ignored [] state
  · rw [if_neg found]
    have kept : ∀ path, path ∈ event.paths → isIgnored path root = false := by
      intro path inside
      exact Bool.eq_false_iff.mpr (fun ignored => found ⟨path, inside, ignored⟩)
    have all : Supervisor.classifyEvent root event = event.paths := by
      apply List.filter_eq_self.mpr
      intro path inside
      rw [kept path inside]
      rfl
    rw [foldlM_kept kept, all]
    rfl

theorem changes_classifies_iff (root : Names) (event : FsEvent) (stats : WatcherStats Rest) :
    Classifies root event stats ↔ ∀ path, path ∈ event.paths → isIgnored path root = false := by
  unfold Classifies changes
  constructor
  · intro classifies path inside
    obtain ⟨after, ran, _⟩ := classifies
    cases ignored : isIgnored path root with
    | false => rfl
    | true =>
        have waits := classifyEvent_eq root event { data := stats, held := false }
        rw [if_pos ⟨path, inside, ignored⟩] at waits
        rw [Locking.bind_of_error waits] at ran
        cases ran
  · intro kept
    have none : ¬ ∃ path, path ∈ event.paths ∧ isIgnored path root = true := by
      intro found
      obtain ⟨path, inside, ignored⟩ := found
      rw [kept path inside] at ignored
      cases ignored
    have ran := classifyEvent_eq root event { data := stats, held := false }
    rw [if_neg none] at ran
    have count : event.paths.countP (fun path => isIgnored path root) = 0 := by
      apply List.countP_eq_zero.mpr
      intro path inside
      rw [kept path inside]
      exact Bool.false_ne_true
    refine ⟨stats, ?_, rfl, ?_⟩
    · change (classifyEvent root event _).bind _ = _
      rw [ran]
      rfl
    · have bound := stats.totalIgnored.toNat_lt
      rw [count]
      omega

/-! ### One event -/

def targetName : FileName := ⟨"target", by decide⟩

theorem target_hangs :
    ¬ Classifies [] { kind := .create, paths := [[targetName]] }
        { totalIgnored := 0, rest := () } := by
  intro classifies
  obtain ⟨after, ran, _⟩ := classifies
  have waits : changes [] { kind := .create, paths := [[targetName]] }
      { data := { totalIgnored := 0, rest := () }, held := false } = .error .waiting := by
    decide +kernel
  rw [waits] at ran
  cases ran

end WatcherStats

end Mneme.Supervisor
