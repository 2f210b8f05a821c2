/-
The shard a component opens for a working directory: the server, the hook of the
command line and the finder of the store.

A working directory is given by its absolute path, which may lead through symbolic
links.  The server hashes that path as it stands, the others hash the canonical one.
-/

import Mneme.Mcp.RefactorApply
import Mneme.Store.Finder

namespace Mneme.Mcp.ProjectShard

open Common Store

/-- The part of a disk that the searches use. -/
def layout (disk : Disk) : Finder.Layout :=
  { exists? := disk.exists?, real := disk.real }

/-! ### The three ways -/

section Ids

variable (sha256 : String → String)

/-- The hash of a path, as it is given. -/
def projectIdForPath (path : Names) : String :=
  sha256 (displayAbsolute path)

def serverId (disk : Disk) (cwd : Names) : Option String :=
  (findProjectRoot disk cwd).map (projectIdForPath sha256)

/-- The root for the hook: forty levels, like the server. -/
def findProjectRootForCwd (layout : Finder.Layout) (cwd : Names) : Option Names :=
  Finder.findUp (Finder.isProjectRoot layout) 40 cwd

def hookId (layout : Finder.Layout) (cwd : Names) : Option String :=
  (findProjectRootForCwd layout cwd).map (Finder.fromPath sha256 layout)

def finderId (layout : Finder.Layout) (rows : List Finder.ProjectRow) (cwd : Names) :
    Option String :=
  (Finder.findByCwd sha256 layout rows cwd).map Finder.ProjectRow.id

/-- The project of a directory has been built: its root is registered. -/
def Built (layout : Finder.Layout) (rows : List Finder.ProjectRow) (root : Names) : Prop :=
  ∃ row ∈ rows, row.id = Finder.fromPath sha256 layout root

/-- All three open the same shard, whenever the project of the directory is built. -/
def SameShard (disk : Disk) (rows : List Finder.ProjectRow) (cwd : Names) : Prop :=
  ∀ root, Finder.nearestRoot (layout disk) cwd = some root →
    Built sha256 (layout disk) rows root →
      serverId sha256 disk cwd = hookId sha256 (layout disk) cwd ∧
        hookId sha256 (layout disk) cwd = finderId sha256 (layout disk) rows cwd

/-- The root of a built project is near enough, and its path leads through no link. -/
def ReachedAlike (disk : Disk) (rows : List Finder.ProjectRow) (cwd : Names) : Prop :=
  ∀ root, Finder.nearestRoot (layout disk) cwd = some root →
    Built sha256 (layout disk) rows root →
      cwd.length < root.length + 40 ∧ displayAbsolute (disk.real root) = displayAbsolute root

/-- The hash tells the path of the root from its canonical path. -/
def HashSeparates (disk : Disk) (cwd : Names) : Prop :=
  ∀ root, Finder.nearestRoot (layout disk) cwd = some root →
    sha256 (displayAbsolute root) = sha256 (displayAbsolute (disk.real root)) →
      displayAbsolute root = displayAbsolute (disk.real root)

end Ids

/-! ### One search -/

theorem climb_eq_findUp (disk : Disk) (levels : Nat) (dir : Names) :
    climb disk levels dir = Finder.findUp (Finder.isProjectRoot (layout disk)) levels dir := by
  induction levels generalizing dir with
  | zero => rfl
  | succ levels ih =>
      unfold climb Finder.findUp
      rw [ih]
      rfl

section Found

variable {sha256 : String → String} {disk : Disk} {rows : List Finder.ProjectRow}
variable {cwd root : Names}

theorem finderId_built (found : Finder.nearestRoot (layout disk) cwd = some root)
    (built : Built sha256 (layout disk) rows root) :
    finderId sha256 (layout disk) rows cwd =
      some (Finder.fromPath sha256 (layout disk) root) := by
  obtain ⟨row, registered, same⟩ := built
  unfold finderId Finder.findByCwd Finder.findByPath Finder.findByHash
  rw [found, Option.bind_some]
  cases row_found : rows.find?
      (fun row => row.id = Finder.fromPath sha256 (layout disk) root) with
  | none =>
      have none_ := List.find?_eq_none.mp row_found row registered
      exact absurd (decide_eq_true same) none_
  | some other =>
      have matches_ := List.find?_some row_found
      rw [Option.map_some, Option.some.injEq]
      exact of_decide_eq_true matches_

theorem bounded_root (found : Finder.nearestRoot (layout disk) cwd = some root) :
    Finder.findUp (Finder.isProjectRoot (layout disk)) 40 cwd =
      if cwd.length < root.length + 40 then some root else none := by
  unfold Finder.nearestRoot at found
  rw [Finder.findUp_bounded, found, Option.filter_some]
  simp

end Found

/-- The three open the same shard exactly where the root is within forty levels and
its path is the canonical one. -/
theorem same_shard_iff (sha256 : String → String) (disk : Disk)
    (rows : List Finder.ProjectRow) (cwd : Names)
    (separates : HashSeparates sha256 disk cwd) :
    SameShard sha256 disk rows cwd ↔ ReachedAlike sha256 disk rows cwd := by
  unfold SameShard ReachedAlike
  apply forall_congr'
  intro root
  apply forall_congr'
  intro found
  apply forall_congr'
  intro built
  unfold serverId hookId findProjectRoot findProjectRootForCwd
  rw [finderId_built found built, climb_eq_findUp, bounded_root found]
  by_cases near : cwd.length < root.length + 40
  · rw [if_pos near, Option.map_some, Option.map_some, Option.some.injEq, and_iff_left rfl,
      and_iff_right near]
    unfold projectIdForPath Finder.fromPath
    constructor
    · intro same
      exact (separates root found same).symm
    · intro canonical
      exact congrArg sha256 canonical.symm
  · rw [if_neg near]
    apply iff_of_false
    · intro both
      cases both.2
    · intro both
      exact near both.1

/-! ### Two layouts -/

/-- The digests of the paths below. -/
def digest (text : String) : String :=
  if text = "/srv/app" then "dae668e4084f07b6cb946fb2809f0f82649266bce36b42044235bb9026afa80d"
  else if text = "/home/work/link" then
    "19ebf6927e2255b36e74a8334be269d5a8f58669ad3e18512efa7b6b4419a264"
  else if text = "/home/work/demo" then
    "48d35215fde9c81cdb49c8d4dd021f45cdf8f413c4e72ec05e8b3c7eff182871"
  else ""

def namesOf (texts : List String) : Names :=
  texts.filterMap FileName.ofText

/-- A disk with these entries, where one path is a link to another. -/
def linkedDisk (entries : List Names) (link target : Names) : Disk :=
  { exists? := fun path => entries.contains path
    read := fun _ => .error "ENOENT"
    real := fun path => if path = link then target else path
    write := fun _ => .error "EACCES"
    rename := fun _ => .error "EACCES"
    home := namesOf ["home", "work"] }

def demo : Names :=
  namesOf ["home", "work", "demo"]

def demoDisk : Disk :=
  linkedDisk [namesOf ["home", "work", "demo", ".git"]] [] []

def demoRows : List Finder.ProjectRow :=
  [{ id := digest "/home/work/demo", root := "/home/work/demo", name := "demo",
     schemaVersion := 1 }]

theorem demo_same_shard :
    SameShard digest demoDisk demoRows (namesOf ["home", "work", "demo", "src"]) := by
  have root : Finder.nearestRoot (layout demoDisk) (namesOf ["home", "work", "demo", "src"]) =
      some demo := by decide +kernel
  have canonical : demoDisk.real demo = demo := by decide +kernel
  refine (same_shard_iff digest demoDisk demoRows _ ?_).mpr ?_
  · intro other found _
    rw [root, Option.some.injEq] at found
    rw [← found, canonical]
  · intro other found _
    rw [root, Option.some.injEq] at found
    rw [← found, canonical]
    exact ⟨by decide +kernel, rfl⟩

/-- A project below `/srv`, with a link to it from the home directory. -/
def linkDisk : Disk :=
  linkedDisk [namesOf ["home", "work", "link", ".git"], namesOf ["srv", "app", ".git"]]
    (namesOf ["home", "work", "link"]) (namesOf ["srv", "app"])

def linkRows : List Finder.ProjectRow :=
  [{ id := digest "/srv/app", root := "/srv/app", name := "app", schemaVersion := 1 }]

theorem link_other_shard :
    ¬ SameShard digest linkDisk linkRows (namesOf ["home", "work", "link"]) := by
  intro same
  have ids := (same (namesOf ["home", "work", "link"]) (by decide +kernel)
    ⟨_, List.mem_cons_self, by decide +kernel⟩).1
  revert ids
  decide +kernel

end Mneme.Mcp.ProjectShard
