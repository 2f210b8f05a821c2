/-
From a directory to the shard of its project.

A project is known by the hash of its canonical path.  The search for its root goes
up from a directory to the first one with a marker; a bounded search finds what an
unbounded one finds within so many levels.
-/

import Mneme.Common.FileTree

namespace Mneme.Store.Finder

open Common

/-- What the file system answers about paths.  `real` follows symbolic links. -/
structure Layout where
  exists? : Names → Bool
  real : Names → Names

def markerName (text : String) : Option FileName :=
  if normal : NormalName text then some ⟨text, normal⟩ else none

def markers : List FileName :=
  [".git", ".claude", "package.json", "Cargo.toml", "pyproject.toml"].filterMap markerName

def isProjectRoot (layout : Layout) (dir : Names) : Bool :=
  markers.any (fun marker => layout.exists? (dir ++ [marker]))

/-- The first directory with a marker, going up so many times at most. -/
def findUp (isRoot : Names → Bool) : Nat → Names → Option Names
  | 0, _ => none
  | levels + 1, dir =>
      if isRoot dir then some dir
      else if dir = [] then none
      else findUp isRoot levels dir.dropLast

/-! ### Shards -/

structure ProjectRow where
  id : String
  root : String
  name : String
  schemaVersion : Nat

/-- `ProjectId::from_path`; a directory in which something exists can be canonicalised. -/
def fromPath (sha256 : String → String) (layout : Layout) (path : Names) : String :=
  sha256 (displayAbsolute (layout.real path))

def findByHash (rows : List ProjectRow) (hash : String) : Option ProjectRow :=
  rows.find? (fun row => row.id = hash)

def findByPath (sha256 : String → String) (layout : Layout) (rows : List ProjectRow)
    (root : Names) : Option ProjectRow :=
  findByHash rows (fromPath sha256 layout root)

/-- The nearest root above a directory; every step up takes a name away. -/
def nearestRoot (layout : Layout) (cwd : Names) : Option Names :=
  findUp (isProjectRoot layout) (cwd.length + 1) cwd

def findByCwd (sha256 : String → String) (layout : Layout) (rows : List ProjectRow)
    (cwd : Names) : Option ProjectRow :=
  (nearestRoot layout cwd).bind (findByPath sha256 layout rows)

/-! ### Bounded searches -/

section Search

variable {isRoot : Names → Bool}

theorem findUp_ancestor {levels : Nat} {dir root : Names}
    (found : findUp isRoot levels dir = some root) : root <+: dir := by
  induction levels generalizing dir with
  | zero => cases found
  | succ levels ih =>
      unfold findUp at found
      split at found
      · cases found
        exact List.prefix_refl _
      · split at found
        · cases found
        · exact (ih found).trans (List.dropLast_prefix dir)

theorem findUp_nearest {levels : Nat} {dir : Names} (enough : dir.length < levels) (root : Names) :
    findUp isRoot levels dir = some root ↔ root <+: dir ∧ isRoot root = true ∧
      ∀ other, other <+: dir → isRoot other = true → other <+: root := by
  induction levels generalizing dir with
  | zero => exact absurd enough (Nat.not_lt_zero _)
  | succ levels ih =>
      unfold findUp
      split
      · next here =>
          constructor
          · intro found
            cases found
            exact ⟨List.prefix_refl _, here, fun other above _ => above⟩
          · intro ⟨above, _, nearest⟩
            have same := (nearest dir (List.prefix_refl _) here).eq_of_length_le above.length_le
            rw [same]
      · next unmarked =>
          rcases List.eq_nil_or_concat dir with rfl | ⟨parent, name, rfl⟩
          · rw [if_pos rfl]
            refine iff_of_false (fun impossible => nomatch impossible) ?_
            intro ⟨above, marked, _⟩
            rw [List.prefix_nil.mp above] at marked
            exact unmarked marked
          · rw [List.concat_eq_append] at enough unmarked ⊢
            rw [List.length_append, List.length_singleton] at enough
            have step : ∀ other, isRoot other = true →
                (other <+: parent ++ [name] ↔ other <+: parent) := by
              intro other marked
              rw [List.prefix_concat_iff]
              refine or_iff_right fun same => unmarked ?_
              rw [← same]
              exact marked
            rw [if_neg (by simp), List.dropLast_concat, ih (by omega)]
            constructor
            · intro ⟨above, marked, nearest⟩
              exact ⟨(step root marked).mpr above, marked,
                fun other inside there => nearest other ((step other there).mp inside) there⟩
            · intro ⟨above, marked, nearest⟩
              exact ⟨(step root marked).mp above, marked,
                fun other inside there => nearest other ((step other there).mpr inside) there⟩

/-- A bounded search finds the nearest root exactly where it is within the bound. -/
theorem findUp_bounded (levels : Nat) (dir : Names) :
    findUp isRoot levels dir =
      (findUp isRoot (dir.length + 1) dir).filter
        (fun root => dir.length < root.length + levels) := by
  induction levels generalizing dir with
  | zero =>
      cases found : findUp isRoot (dir.length + 1) dir with
      | none => rfl
      | some root =>
          have shorter := (findUp_ancestor found).length_le
          rw [Option.filter_some, if_neg (by simpa using shorter)]
          rfl
  | succ levels ih =>
      have whole : findUp isRoot (dir.length + 1) dir =
          if isRoot dir = true then some dir
          else if dir = [] then none
          else findUp isRoot (dir.dropLast.length + 1) dir.dropLast := by
        conv => lhs; unfold findUp
        by_cases top : dir = []
        · rw [if_pos top, if_pos top]
        · have one := List.length_pos_of_ne_nil top
          have length : dir.dropLast.length + 1 = dir.length := by
            rw [List.length_dropLast]
            omega
          rw [length]
      rw [whole]
      conv => lhs; unfold findUp
      split
      · rw [Option.filter_some, if_pos (by simp)]
      · split
        · rfl
        · next inner =>
            rw [ih dir.dropLast]
            have one := List.length_pos_of_ne_nil inner
            have shorter : ∀ root : Names,
                decide (dir.dropLast.length < root.length + levels) =
                  decide (dir.length < root.length + (levels + 1)) := by
              intro root
              rw [List.length_dropLast]
              congr 1
              apply propext
              omega
            rw [funext shorter]

end Search

/-- The root of a directory is the marked directory at or above it that lies nearest. -/
theorem nearestRoot_iff (layout : Layout) (cwd root : Names) :
    nearestRoot layout cwd = some root ↔ root <+: cwd ∧ isProjectRoot layout root = true ∧
      ∀ other, other <+: cwd → isProjectRoot layout other = true → other <+: root :=
  findUp_nearest (Nat.lt_succ_self _) root

end Mneme.Store.Finder
