/-
The walk of a build over a project: the hard-coded names and the ignore file,
asked of every entry.
-/

import Mneme.Cli.RunInline

namespace Mneme.Cli

open Common Library Parsers Store

/-- The names of `is_ignored`. -/
def ignoredNames : List String :=
  ["target", "node_modules", ".git", ".hg", ".svn", "dist", "dist-electron", "release", "out",
    "build", "bin", "obj", ".next", ".nuxt", ".vite", ".parcel-cache", ".turbo", ".svelte-kit",
    ".astro", ".venv", "venv", "__pycache__", ".pytest_cache", ".mypy_cache", ".ruff_cache",
    ".tox", "site-packages", ".idea", ".vscode", ".vs", ".DS_Store", ".cache", ".yarn",
    ".pnpm-store", "AppData", "OneDrive", "$Recycle.Bin", "NTUSER.DAT", "Library", ".Trash",
    "Applications", ".mneme", ".claude"]

def isIgnored (path : Names) : Bool :=
  path.fileName ∈ ignoredNames

def projectIgnoreMatches (matcher : Option Gitignore) (below : Names) (isDir : Bool) : Bool :=
  match matcher with
  | none => false
  | some matcher => matcher.ignores below isDir

/-- The filter of the walk, asked of the root itself too. -/
def walkSkips (matcher : Option Gitignore) (root below : Names) (isDir : Bool) : Bool :=
  isIgnored (root ++ below) || projectIgnoreMatches matcher below isDir

/-- The regular files that the walk of a project yields. -/
def walkProject (builder : IgnoreBuilder) (root : Names) (tree : FileTree) :
    List (Names × Option ByteArray) :=
  tree.walk (walkSkips (loadProjectIgnore builder tree) root) []

/-- A build of the project at a root. -/
def buildProject (treeSitter : TreeSitter) (registry : Registry) (builder : IgnoreBuilder)
    (limit : Nat) (root : Names) (tree : FileTree) (shard : GraphShard) :
    BuildSummary × GraphShard :=
  let files := (walkProject builder root tree).map
    (fun file => (displayAbsolute (root ++ file.1), file.2))
  runInline
    { treeSitter
      registry
      read := fun path => (files.find? (fun file => file.1 = path)).bind Prod.snd }
    limit (files.map Prod.fst) shard

/-- A build, without a limit, comes to the file and writes its rows. -/
def BuildIndexes (treeSitter : TreeSitter) (builder : IgnoreBuilder) (root : Names)
    (tree : FileTree) (file : Names × Option ByteArray) : Prop :=
  file ∈ walkProject builder root tree ∧ ∃ nodes edges,
    (indexFile treeSitter (displayAbsolute (root ++ file.1)) file.2 .empty).1 =
      .indexed nodes edges

end Mneme.Cli
