/-
The orchestrator mode of the scanners, the walk of an audit and the files it gives to the
scan worker; and which files belong to a project: the build, the watcher and the audit.

The build and the audit share one list of names and ask it of the root as well;
the watcher has a shorter list of its own and a test for swap files.  The build
asks the ignore file about every directory on the way, the audit about the file
alone, and the watcher not at all.  So the root's own name decides whether anything
is visited, and no other part of the location matters.
-/

import Mneme.Cli.Walk

namespace Mneme.Scanners

open Common

/-- The names of `is_hard_ignored`. -/
def hardIgnoredNames : List String :=
  ["target", "node_modules", ".git", ".hg", ".svn", "dist", "dist-electron", "release", "out",
    "build", "bin", "obj", ".next", ".nuxt", ".vite", ".parcel-cache", ".turbo", ".svelte-kit",
    ".astro", ".venv", "venv", "__pycache__", ".pytest_cache", ".mypy_cache", ".ruff_cache",
    ".tox", "site-packages", ".idea", ".vscode", ".vs", ".DS_Store", ".cache", ".yarn",
    ".pnpm-store", "AppData", "OneDrive", "$Recycle.Bin", "NTUSER.DAT", "Library", ".Trash",
    "Applications", ".mneme", ".claude"]

def isHardIgnored (path : Names) : Bool :=
  path.fileName ∈ hardIgnoredNames

/-- The extensions of `is_scannable_extension`. -/
def scannableExtensions : List String :=
  ["ts", "tsx", "js", "jsx", "mjs", "cjs", "html", "htm", "css", "scss", "sass", "less", "rs",
    "go", "c", "h", "cpp", "cc", "cxx", "hpp", "hh", "java", "kt", "kts", "scala", "py", "rb",
    "lua", "sh", "bash", "zsh", "fish", "ps1", "json", "yaml", "yml", "toml", "ini", "md",
    "markdown", "mdx", "rst", "txt", "swift", "dart", "ex", "exs", "elm", "vue", "svelte",
    "astro", "sol", "zig", "cs", "fs", "fsx", "vb", "php"]

def isScannableExtension (path : Path) : Bool :=
  match extension path with
  | some text => toAsciiLowercase text ∈ scannableExtensions
  | none => false

/-- What an audit is asked and what it finds on the machine. -/
structure Audit where
  scope : String
  builder : IgnoreBuilder
  root : Names
  /-- `was_modified_recently`, of a path below the root. -/
  recent : Names → Bool

/-- The walk is filtered by name only. -/
def walkProject (root : Names) (tree : FileTree) : List (Names × Option ByteArray) :=
  tree.walk (fun below _ => isHardIgnored (root ++ below)) []

/-- `read_to_string`, which fails for bytes that are no UTF-8. -/
def readToString (content : Option ByteArray) : Option String :=
  content.bind String.fromUTF8?

/-- A zero byte among the first 512. -/
def hasNul (text : String) : Bool :=
  (text.toUTF8.data.toList.take 512).any (fun byte => byte == 0)

/-- The files given to the scan worker, and how many could not be read. -/
structure Orchestrated where
  jobs : List (Names × String) := []
  errors : Nat := 0

/-- The body of the walk. -/
def orchestrateFile (audit : Audit) (matcher : Option Gitignore) (out : Orchestrated)
    (file : Names × Option ByteArray) : Orchestrated :=
  -- The ignore file is asked about the file alone, not about its directories.
  if matcher.any (fun matcher => matcher.ignores file.1 false) then out
  else if !isScannableExtension (displayAbsolute (audit.root ++ file.1)) then out
  else if audit.scope = "diff" ∧ audit.recent file.1 = false then out
  else
    match readToString file.2 with
    | none => { out with errors := out.errors + 1 }
    | some text => if hasNul text then out else { out with jobs := out.jobs ++ [(file.1, text)] }

def runOrchestrator (audit : Audit) (tree : FileTree) : Orchestrated :=
  (walkProject audit.root tree).foldl
    (orchestrateFile audit (loadProjectIgnore audit.builder tree)) { }

/-- The file is given to the scan worker. -/
def AuditScans (audit : Audit) (tree : FileTree) (file : Names × Option ByteArray) : Prop :=
  ∃ text, readToString file.2 = some text ∧ (file.1, text) ∈ (runOrchestrator audit tree).jobs

/-! ### The walkers beside one another -/

open Parsers Store Supervisor

/-- The two copies of the list of names agree. -/
theorem hardIgnoredNames_eq : hardIgnoredNames = Cli.ignoredNames := rfl

/-! ### What each side asks of a file -/

/-- The root or an entry on the way to the file has a listed name. -/
def OnBuildList (root below : Names) : Prop :=
  root.fileName ∈ Cli.ignoredNames ∨ ∃ name ∈ below, name.text ∈ Cli.ignoredNames

/-- The ignore file ignores the file itself. -/
def FileMatched (matcher : Option Gitignore) (below : Names) : Prop :=
  Cli.projectIgnoreMatches matcher below false = true

/-- The ignore file ignores a directory on the way to the file, the root
included. -/
def DirectoryMatched (matcher : Option Gitignore) (below : Names) : Prop :=
  ∃ inner rest, below = inner ++ rest ∧ rest ≠ [] ∧
    Cli.projectIgnoreMatches matcher inner true = true

def OnWatcherList (below : Names) : Prop :=
  (∃ name ∈ below, name.text ∈ watcherIgnoredNames) ∨ isSwapName below.fileName = true

/-- The content can be read, parsed and extracted. -/
def Extractable (treeSitter : TreeSitter) (path : Path) (content : Option ByteArray) : Prop :=
  (extractedGraph treeSitter path content).isSome = true

/-- The content is UTF-8 without a zero byte near its start. -/
def PlainText (content : Option ByteArray) : Prop :=
  ∃ text, readToString content = some text ∧ hasNul text = false

def InScope (audit : Audit) (below : Names) : Prop :=
  audit.scope = "diff" → audit.recent below = true

variable {file : Names × Option ByteArray}

theorem walked_iff (builder : IgnoreBuilder) (root : Names) (tree : FileTree)
    (there : file ∈ tree.files) :
    file ∈ Cli.walkProject builder root tree ↔
      ¬ OnBuildList root file.1 ∧ ¬ DirectoryMatched (loadProjectIgnore builder tree) file.1 ∧
        ¬ FileMatched (loadProjectIgnore builder tree) file.1 := by
  have names := pruned_listed (fun text => text ∈ Cli.ignoredNames) root [] file.1
  have ignores := pruned_iff (Cli.projectIgnoreMatches (loadProjectIgnore builder tree)) [] file.1
  rw [List.append_nil] at names
  simp only [decide_eq_true_eq] at names
  unfold Cli.walkProject
  rw [mem_walk_iff]
  unfold Cli.walkSkips
  rw [pruned_or, Bool.or_eq_false_iff, ← Bool.not_eq_true, ← Bool.not_eq_true]
  change _ ∧ ¬ pruned (fun path _ => decide (Names.fileName (root ++ path) ∈ Cli.ignoredNames))
    [] file.1 = true ∧ _ ↔ _
  rw [names, ignores]
  exact (and_iff_right there).trans (and_congr_right fun _ => not_or)

theorem buildIndexes_iff (treeSitter : TreeSitter) (builder : IgnoreBuilder) (root : Names)
    (tree : FileTree) (there : file ∈ tree.files) :
    Cli.BuildIndexes treeSitter builder root tree file ↔
      (¬ OnBuildList root file.1 ∧ ¬ DirectoryMatched (loadProjectIgnore builder tree) file.1 ∧
        ¬ FileMatched (loadProjectIgnore builder tree) file.1) ∧
        Extractable treeSitter (displayAbsolute (root ++ file.1)) file.2 := by
  unfold Cli.BuildIndexes
  rw [walked_iff builder root tree there, indexed_iff]
  exact Iff.rfl

theorem belowRoot_append (root below : Names) : belowRoot root (root ++ below) = below := by
  unfold belowRoot
  rw [if_pos (List.prefix_append root below), List.drop_left]

/-- A file of a project has a name of its own. -/
theorem below_ne_nil {entries : Entries} (there : file ∈ (FileTree.dir entries).files) :
    file.1 ≠ [] := by
  have walked : file ∈ entries.walk (fun _ _ => false) [] := there
  obtain ⟨name, below, under, _, _⟩ := (Entries.mem_walk _ entries [] file).mp walked
  rw [under]
  exact List.cons_ne_nil _ _

variable {root below : Names}

theorem fileName_below (named : below ≠ []) : Names.fileName (root ++ below) = below.fileName := by
  unfold Names.fileName
  rw [List.getLast?_append_of_ne_nil root named]

theorem watcherIgnores_iff (named : below ≠ []) :
    isIgnored (root ++ below) root = true ↔ OnWatcherList below := by
  unfold isIgnored OnWatcherList
  rw [fileName_below named, belowRoot_append, Bool.or_eq_true, Bool.or_eq_true, List.any_eq_true]
  simp only [decide_eq_true_eq]
  constructor
  · rintro ((last | inside) | swap)
    · left
      unfold Names.fileName at last
      rw [List.getLast?_eq_some_getLast named] at last
      exact ⟨below.getLast named, List.getLast_mem named, last⟩
    · exact Or.inl inside
    · exact Or.inr swap
  · rintro (inside | swap)
    · exact Or.inl (Or.inr inside)
    · exact Or.inr swap

theorem watcherReindexes_iff (treeSitter : TreeSitter) (root : Names) (named : file.1 ≠ []) :
    WatcherReindexes treeSitter root file ↔
      ¬ OnWatcherList file.1 ∧
        Extractable treeSitter (displayAbsolute (root ++ file.1)) file.2 := by
  unfold WatcherReindexes classifyEvent
  rw [List.mem_filter, Bool.not_eq_true', ← Bool.not_eq_true, watcherIgnores_iff named,
    and_iff_right (List.mem_singleton_self _)]
  exact and_congr_right fun _ => upserted_iff _ _ _ _

/-- What the audit asks of a file that its walk yields. -/
structure Kept (audit : Audit) (matcher : Option Gitignore) (below : Names) (text : String) :
    Prop where
  unmatched : ¬ FileMatched matcher below
  scannable : isScannableExtension (displayAbsolute (audit.root ++ below)) = true
  inScope : InScope audit below
  plain : hasNul text = false

variable (audit : Audit)

theorem mem_orchestrateFile (matcher : Option Gitignore) (out : Orchestrated)
    (file : Names × Option ByteArray) (job : Names × String) :
    job ∈ (orchestrateFile audit matcher out file).jobs ↔
      job ∈ out.jobs ∨ (job.1 = file.1 ∧ readToString file.2 = some job.2 ∧
        Kept audit matcher job.1 job.2) := by
  have matched : matcher.any (fun matcher => matcher.ignores file.1 false) = true ↔
      FileMatched matcher file.1 := by
    cases matcher with
    | none => exact Iff.rfl
    | some matcher => exact Iff.rfl
  unfold orchestrateFile
  split
  · next ignored =>
      refine (or_iff_left ?_).symm
      rintro ⟨same, _, kept⟩
      rw [same] at kept
      exact kept.unmatched (matched.mp ignored)
  · next unmatched =>
      rw [matched] at unmatched
      split
      · next unscannable =>
          refine (or_iff_left ?_).symm
          rintro ⟨same, _, kept⟩
          have scannable := kept.scannable
          rw [same] at scannable
          rw [scannable] at unscannable
          cases unscannable
      · next scannable =>
          split
          · next outside =>
              refine (or_iff_left ?_).symm
              rintro ⟨same, _, kept⟩
              have recent := kept.inScope outside.1
              rw [same, outside.2] at recent
              cases recent
          · next inside =>
              split
              · next unread =>
                  refine (or_iff_left ?_).symm
                  rintro ⟨_, read, _⟩
                  rw [unread] at read
                  cases read
              · next text read =>
                  split
                  · next binary =>
                      refine (or_iff_left ?_).symm
                      rintro ⟨_, other, kept⟩
                      rw [read] at other
                      cases other
                      rw [kept.plain] at binary
                      cases binary
                  · next plain =>
                      rw [List.mem_append, List.mem_singleton]
                      refine or_congr_right ⟨?_, ?_⟩
                      · rintro rfl
                        refine ⟨rfl, read, unmatched, ?_, ?_, Bool.eq_false_iff.mpr plain⟩
                        · exact by simpa using scannable
                        · intro diff
                          exact Bool.of_not_eq_false fun old => inside ⟨diff, old⟩
                      · rintro ⟨same, other, _⟩
                        rw [read] at other
                        exact Prod.ext same (Option.some.inj other).symm

theorem mem_jobs (matcher : Option Gitignore)
    (files : List (Names × Option ByteArray)) (out : Orchestrated) (job : Names × String) :
    job ∈ (files.foldl (orchestrateFile audit matcher) out).jobs ↔
      job ∈ out.jobs ∨ ∃ file ∈ files, job.1 = file.1 ∧ readToString file.2 = some job.2 ∧
        Kept audit matcher job.1 job.2 := by
  induction files generalizing out with
  | nil => simp
  | cons file files ih =>
      rw [List.foldl_cons, ih, mem_orchestrateFile, or_assoc, List.exists_mem_cons_iff]

theorem scanned_iff (root : Names) (tree : FileTree) (there : file ∈ tree.files) :
    file ∈ walkProject root tree ↔ ¬ OnBuildList root file.1 := by
  have names := pruned_listed (fun text => text ∈ hardIgnoredNames) root [] file.1
  rw [List.append_nil] at names
  simp only [decide_eq_true_eq] at names
  unfold walkProject
  rw [mem_walk_iff, ← Bool.not_eq_true]
  change _ ∧ ¬ pruned (fun path _ => decide (Names.fileName (root ++ path) ∈ hardIgnoredNames))
    [] file.1 = true ↔ _
  rw [names, hardIgnoredNames_eq]
  exact and_iff_right there

theorem auditScans_iff (tree : FileTree) (there : file ∈ tree.files) :
    AuditScans audit tree file ↔
      (¬ OnBuildList audit.root file.1 ∧
          ¬ FileMatched (loadProjectIgnore audit.builder tree) file.1) ∧
        isScannableExtension (displayAbsolute (audit.root ++ file.1)) = true ∧
        InScope audit file.1 ∧ PlainText file.2 := by
  unfold AuditScans runOrchestrator
  simp only [mem_jobs, List.not_mem_nil, false_or]
  constructor
  · rintro ⟨text, read, other, walked, same, alsoRead, kept⟩
    have otherThere : other ∈ tree.files := by
      unfold walkProject at walked
      exact ((mem_walk_iff _ tree other).mp walked).1
    have unlisted := (scanned_iff audit.root tree otherThere).mp walked
    rw [← same] at unlisted
    exact ⟨⟨unlisted, kept.unmatched⟩, kept.scannable, kept.inScope, text, read, kept.plain⟩
  · rintro ⟨⟨unlisted, unmatched⟩, scannable, inScope, text, read, plain⟩
    exact ⟨text, read, file, (scanned_iff audit.root tree there).mpr unlisted, rfl, read,
      unmatched, scannable, inScope, plain⟩

/-! ### Agreement -/

/-- A language that the parsers have enabled and that the audit's list of
extensions knows. -/
structure SupportedByAll (path : Path) : Prop where
  enabled : ∃ language, Language.fromFilename path = some language ∧ language.isEnabled = true
  scannable : isScannableExtension path = true

def SidesAgree (treeSitter : TreeSitter) (audit : Audit) (tree : FileTree)
    (file : Names × Option ByteArray) : Prop :=
  (Cli.BuildIndexes treeSitter audit.builder audit.root tree file ↔
      WatcherReindexes treeSitter audit.root file) ∧
    (Cli.BuildIndexes treeSitter audit.builder audit.root tree file ↔ AuditScans audit tree file)

/-- No list, no ignore file and nothing about the content keeps the file out. -/
structure Unexcluded (treeSitter : TreeSitter) (audit : Audit) (tree : FileTree)
    (file : Names × Option ByteArray) : Prop where
  buildList : ¬ OnBuildList audit.root file.1
  watcherList : ¬ OnWatcherList file.1
  directories : ¬ DirectoryMatched (loadProjectIgnore audit.builder tree) file.1
  unmatched : ¬ FileMatched (loadProjectIgnore audit.builder tree) file.1
  extractable : Extractable treeSitter (displayAbsolute (audit.root ++ file.1)) file.2
  inScope : InScope audit file.1
  plain : PlainText file.2

/-- Each side has a reason of its own to keep the file out. -/
structure ExcludedThrice (treeSitter : TreeSitter) (audit : Audit) (tree : FileTree)
    (file : Names × Option ByteArray) : Prop where
  build : OnBuildList audit.root file.1 ∨
    DirectoryMatched (loadProjectIgnore audit.builder tree) file.1 ∨
    FileMatched (loadProjectIgnore audit.builder tree) file.1 ∨
    ¬ Extractable treeSitter (displayAbsolute (audit.root ++ file.1)) file.2
  watcher : OnWatcherList file.1 ∨
    ¬ Extractable treeSitter (displayAbsolute (audit.root ++ file.1)) file.2
  audit : OnBuildList audit.root file.1 ∨
    FileMatched (loadProjectIgnore audit.builder tree) file.1 ∨
    ¬ InScope audit file.1 ∨ ¬ PlainText file.2

theorem sidesAgree_iff (treeSitter : TreeSitter) (audit : Audit) (entries : Entries)
    {file : Names × Option ByteArray} (there : file ∈ (FileTree.dir entries).files)
    (supported : SupportedByAll (displayAbsolute (audit.root ++ file.1))) :
    SidesAgree treeSitter audit (.dir entries) file ↔
      Unexcluded treeSitter audit (.dir entries) file ∨
        ExcludedThrice treeSitter audit (.dir entries) file := by
  have build := buildIndexes_iff treeSitter audit.builder audit.root (.dir entries) there
  have watcher := watcherReindexes_iff treeSitter audit.root (below_ne_nil there)
  have scanned := auditScans_iff audit (.dir entries) there
  rw [and_iff_right supported.scannable] at scanned
  unfold SidesAgree
  rw [build, watcher, scanned]
  constructor
  · intro agree
    by_cases indexed : (¬ OnBuildList audit.root file.1 ∧
        ¬ DirectoryMatched (loadProjectIgnore audit.builder (.dir entries)) file.1 ∧
        ¬ FileMatched (loadProjectIgnore audit.builder (.dir entries)) file.1) ∧
        Extractable treeSitter (displayAbsolute (audit.root ++ file.1)) file.2
    · obtain ⟨⟨listed, directories, unmatched⟩, extractable⟩ := indexed
      obtain ⟨watched, _⟩ := agree.1.mp ⟨⟨listed, directories, unmatched⟩, extractable⟩
      obtain ⟨_, inScope, plain⟩ := agree.2.mp ⟨⟨listed, directories, unmatched⟩, extractable⟩
      exact Or.inl ⟨listed, watched, directories, unmatched, extractable, inScope, plain⟩
    · have unwatched := mt agree.1.mpr indexed
      have unscanned := mt agree.2.mpr indexed
      right
      refine ⟨?_, ?_, ?_⟩
      · by_contra none
        simp only [not_or, not_not] at none
        exact indexed ⟨⟨none.1, none.2.1, none.2.2.1⟩, none.2.2.2⟩
      · by_contra none
        simp only [not_or, not_not] at none
        exact unwatched none
      · by_contra none
        simp only [not_or, not_not] at none
        exact unscanned ⟨⟨none.1, none.2.1⟩, none.2.2⟩
  · rintro (seen | ⟨byBuild, byWatcher, byAudit⟩)
    · exact ⟨iff_of_true ⟨⟨seen.buildList, seen.directories, seen.unmatched⟩, seen.extractable⟩
          ⟨seen.watcherList, seen.extractable⟩,
        iff_of_true ⟨⟨seen.buildList, seen.directories, seen.unmatched⟩, seen.extractable⟩
          ⟨⟨seen.buildList, seen.unmatched⟩, seen.inScope, seen.plain⟩⟩
    · have unindexed : ¬ ((¬ OnBuildList audit.root file.1 ∧
          ¬ DirectoryMatched (loadProjectIgnore audit.builder (.dir entries)) file.1 ∧
          ¬ FileMatched (loadProjectIgnore audit.builder (.dir entries)) file.1) ∧
          Extractable treeSitter (displayAbsolute (audit.root ++ file.1)) file.2) := by
        rintro ⟨⟨listed, directories, unmatched⟩, extractable⟩
        rcases byBuild with reason | reason | reason | reason
        · exact listed reason
        · exact directories reason
        · exact unmatched reason
        · exact reason extractable
      refine ⟨iff_of_false unindexed ?_, iff_of_false unindexed ?_⟩
      · rintro ⟨watched, extractable⟩
        rcases byWatcher with reason | reason
        · exact watched reason
        · exact reason extractable
      · rintro ⟨⟨listed, unmatched⟩, inScope, plain⟩
        rcases byAudit with reason | reason | reason | reason
        · exact listed reason
        · exact unmatched reason
        · exact reason inScope
        · exact reason plain

/-! ### Two small projects -/

theorem normal_p : NormalName "p" := by decide
theorem normal_out : NormalName "out" := by decide
theorem normal_a : NormalName "a.rs" := by decide

def projectName : FileName := ⟨"p", normal_p⟩
def outName : FileName := ⟨"out", normal_out⟩
def rustName : FileName := ⟨"a.rs", normal_a⟩

def rustFile : Option ByteArray := some "fn a() {}".toUTF8

/-- A full audit of a project at `/p` without an ignore file. -/
def fullAudit : Audit :=
  { scope := "full", builder := fun _ => none, root := [projectName], recent := fun _ => false }

theorem sidesAgree_iff_plain :
    SidesAgree emptiedFile fullAudit (.dir (.cons rustName (.file rustFile) .nil))
      ([rustName], rustFile) := by
  refine (sidesAgree_iff emptiedFile fullAudit _ (List.mem_singleton_self _) ?_).mpr (Or.inl ?_)
  · exact ⟨⟨.rust, by decide, by decide⟩, by decide⟩
  · refine ⟨?_, ?_, ?_, ?_, ?_, ?_, ?_⟩
    · rintro (listed | ⟨name, member, listed⟩)
      · revert listed
        decide
      · rw [List.mem_singleton.mp member] at listed
        revert listed
        decide
    · rintro (⟨name, member, listed⟩ | swap)
      · rw [List.mem_singleton.mp member] at listed
        revert listed
        decide
      · revert swap
        decide
    · rintro ⟨inner, rest, _, _, matched⟩
      cases matched
    · intro matched
      cases matched
    · unfold Extractable
      decide
    · intro diff
      revert diff
      decide
    · exact ⟨"fn a() {}", by decide, by decide⟩

/-- The build and the audit do not enter `out`, the watcher does. -/
theorem out_directory_disagrees :
    ¬ ∀ (treeSitter : TreeSitter) (audit : Audit) (entries : Entries)
      (file : Names × Option ByteArray), file ∈ (FileTree.dir entries).files →
        SupportedByAll (displayAbsolute (audit.root ++ file.1)) →
          SidesAgree treeSitter audit (.dir entries) file := by
  intro always
  have there : ([outName, rustName], rustFile) ∈
      (FileTree.dir (.cons outName (.dir (.cons rustName (.file rustFile) .nil)) .nil)).files :=
    List.mem_singleton_self _
  have agree := always emptiedFile fullAudit _ _ there
    ⟨⟨.rust, by decide, by decide⟩, by decide⟩
  have indexed := agree.1.mpr ((watcherReindexes_iff emptiedFile fullAudit.root
    (below_ne_nil there)).mpr ⟨?_, ?_⟩)
  · have unlisted := ((buildIndexes_iff emptiedFile fullAudit.builder fullAudit.root _ there).mp
      indexed).1.1
    exact unlisted (Or.inr ⟨outName, List.mem_cons_self, by decide⟩)
  · rintro (⟨name, member, listed⟩ | swap)
    · revert name
      decide
    · revert swap
      decide
  · unfold Extractable
    decide

/-! ### Where a project lies -/

/-- The files, below the root, that a build visits. -/
def buildVisits (builder : IgnoreBuilder) (tree : FileTree) (root : Names) : List Names :=
  (Cli.walkProject builder root tree).map Prod.fst

/-- The files, below the root, that an audit visits. -/
def auditVisits (tree : FileTree) (root : Names) : List Names :=
  (walkProject root tree).map Prod.fst

/-- Both walks visit the same files at both places. -/
def VisitsSame (builder : IgnoreBuilder) (tree : FileTree) (first second : Names) : Prop :=
  (∀ below, below ∈ buildVisits builder tree first ↔ below ∈ buildVisits builder tree second) ∧
    ∀ below, below ∈ auditVisits tree first ↔ below ∈ auditVisits tree second

/-- The name of the root is on the list. -/
def ListedRoot (root : Names) : Prop :=
  root.fileName ∈ Cli.ignoredNames

instance (root : Names) : Decidable (ListedRoot root) :=
  inferInstanceAs (Decidable (_ ∈ _))

/-- A name on the way from the root to the file is on the list. -/
def ListedBelow (below : Names) : Prop :=
  ∃ name ∈ below, name.text ∈ Cli.ignoredNames

theorem onBuildList_iff (root below : Names) :
    OnBuildList root below ↔ ListedRoot root ∨ ListedBelow below :=
  Iff.rfl

theorem mem_auditVisits (tree : FileTree) (root below : Names) :
    below ∈ auditVisits tree root ↔
      (∃ content, (below, content) ∈ tree.files) ∧ ¬ OnBuildList root below := by
  unfold auditVisits
  rw [List.mem_map]
  constructor
  · rintro ⟨⟨path, content⟩, walked, rfl⟩
    have there : (path, content) ∈ tree.files := by
      unfold walkProject at walked
      exact ((mem_walk_iff _ tree _).mp walked).1
    exact ⟨⟨content, there⟩, (scanned_iff root tree there).mp walked⟩
  · rintro ⟨⟨content, there⟩, unlisted⟩
    exact ⟨(below, content), (scanned_iff root tree there).mpr unlisted, rfl⟩

theorem mem_buildVisits (builder : IgnoreBuilder) (tree : FileTree) (root below : Names) :
    below ∈ buildVisits builder tree root ↔
      (∃ content, (below, content) ∈ tree.files) ∧ ¬ OnBuildList root below ∧
        ¬ DirectoryMatched (loadProjectIgnore builder tree) below ∧
        ¬ FileMatched (loadProjectIgnore builder tree) below := by
  unfold buildVisits
  rw [List.mem_map]
  constructor
  · rintro ⟨⟨path, content⟩, walked, rfl⟩
    have there : (path, content) ∈ tree.files := by
      unfold Cli.walkProject at walked
      exact ((mem_walk_iff _ tree _).mp walked).1
    exact ⟨⟨content, there⟩, (walked_iff builder root tree there).mp walked⟩
  · rintro ⟨⟨content, there⟩, passed⟩
    exact ⟨(below, content), (walked_iff builder root tree there).mpr passed, rfl⟩

variable {tree : FileTree} {builder : IgnoreBuilder}

/-- What the build visits the audit visits too. -/
theorem auditVisits_of_buildVisits
    (visited : below ∈ buildVisits builder tree root) : below ∈ auditVisits tree root := by
  obtain ⟨there, unlisted, _⟩ := (mem_buildVisits builder tree root below).mp visited
  exact (mem_auditVisits tree root below).mpr ⟨there, unlisted⟩

/-- At a listed root nothing is visited. -/
theorem no_visits_of_listed {root : Names} (listed : ListedRoot root)
    (below : Names) : below ∉ auditVisits tree root := by
  intro visited
  exact ((mem_auditVisits tree root below).mp visited).2 (Or.inl listed)

variable {first second : Names}

theorem onBuildList_congr (same : ListedRoot first ↔ ListedRoot second)
    (below : Names) : OnBuildList first below ↔ OnBuildList second below := by
  rw [onBuildList_iff, onBuildList_iff, same]

/-- With one root listed and the other not, the audits agree when every file
lies under a listed name. -/
theorem auditVisits_same_iff (listed : ListedRoot first) (unlisted : ¬ ListedRoot second) :
    (∀ below, below ∈ auditVisits tree first ↔ below ∈ auditVisits tree second) ↔
      ∀ file ∈ tree.files, ListedBelow file.1 := by
  constructor
  · rintro same ⟨below, content⟩ there
    by_contra free
    have visited : below ∈ auditVisits tree second := by
      rw [mem_auditVisits, onBuildList_iff, not_or]
      exact ⟨⟨content, there⟩, unlisted, free⟩
    exact no_visits_of_listed listed below ((same below).mpr visited)
  · intro covered below
    refine iff_of_false (no_visits_of_listed listed below) ?_
    intro visited
    obtain ⟨⟨content, there⟩, free⟩ := (mem_auditVisits tree second below).mp visited
    exact free (Or.inr (covered _ there))

theorem visitsSame_symm :
    VisitsSame builder tree first second ↔ VisitsSame builder tree second first :=
  ⟨fun same => ⟨fun below => (same.1 below).symm, fun below => (same.2 below).symm⟩,
    fun same => ⟨fun below => (same.1 below).symm, fun below => (same.2 below).symm⟩⟩

theorem visitsSame_of_listed (listed : ListedRoot first) (unlisted : ¬ ListedRoot second) :
    VisitsSame builder tree first second ↔ ∀ file ∈ tree.files, ListedBelow file.1 := by
  rw [← auditVisits_same_iff listed unlisted]
  refine ⟨fun same => same.2, fun audits => ⟨fun below => ?_, audits⟩⟩
  have unvisited : below ∉ auditVisits tree first := no_visits_of_listed listed below
  refine iff_of_false (fun visited => unvisited (auditVisits_of_buildVisits visited)) ?_
  intro visited
  exact unvisited ((audits below).mpr (auditVisits_of_buildVisits visited))

end Mneme.Scanners
