/-
Files with names and inodes.

A name leads to at most one inode and no two names lead to the same one.  A
handle is an inode: it keeps its contents when the name is removed or made to
lead elsewhere.
-/

import Mathlib.Logic.Function.Basic

namespace Mneme.Library.Files

abbrev Inode := Nat

structure Disk (Name Contents : Type) where
  files : Name → Option Inode
  contents : Inode → Contents
  fresh : Inode
  bounded : ∀ name inode, files name = some inode → inode < fresh
  distinct : ∀ first second inode,
    files first = some inode → files second = some inode → first = second

namespace Disk

variable {Name Contents : Type} [DecidableEq Name]

def empty (blank : Contents) : Disk Name Contents :=
  { files := fun _ => none
    contents := fun _ => blank
    fresh := 0
    bounded := by intro name inode impossible; cases impossible
    distinct := by intro first second inode impossible; cases impossible }

/-- Make the name lead to a new file; an old one loses its name. -/
def install (disk : Disk Name Contents) (name : Name) (contents : Contents) :
    Disk Name Contents :=
  { files := Function.update disk.files name (some disk.fresh)
    contents := Function.update disk.contents disk.fresh contents
    fresh := disk.fresh + 1
    bounded := by
      intro other inode leads
      by_cases same : other = name
      · subst same
        rw [Function.update_self] at leads
        cases leads
        exact Nat.lt_succ_self _
      · rw [Function.update_of_ne same] at leads
        exact Nat.lt_succ_of_lt (disk.bounded other inode leads)
    distinct := by
      have old : ∀ other inode, other ≠ name →
          Function.update disk.files name (some disk.fresh) other = some inode →
            disk.files other = some inode ∧ inode ≠ disk.fresh := by
        intro other inode different leads
        rw [Function.update_of_ne different] at leads
        exact ⟨leads, Nat.ne_of_lt (disk.bounded other inode leads)⟩
      intro first second inode left right
      by_cases isFirst : first = name
      · by_cases isSecond : second = name
        · rw [isFirst, isSecond]
        · rw [isFirst, Function.update_self] at left
          exact absurd (Option.some.inj left).symm (old second inode isSecond right).2
      · by_cases isSecond : second = name
        · rw [isSecond, Function.update_self] at right
          exact absurd (Option.some.inj right).symm (old first inode isFirst left).2
        · exact disk.distinct first second inode (old first inode isFirst left).1
            (old second inode isSecond right).1 }

def remove (disk : Disk Name Contents) (name : Name) : Disk Name Contents :=
  { disk with
    files := Function.update disk.files name none
    bounded := by
      intro other inode leads
      by_cases same : other = name
      · subst same
        rw [Function.update_self] at leads
        cases leads
      · rw [Function.update_of_ne same] at leads
        exact disk.bounded other inode leads
    distinct := by
      intro first second inode left right
      by_cases isFirst : first = name
      · subst isFirst
        rw [Function.update_self] at left
        cases left
      · by_cases isSecond : second = name
        · subst isSecond
          rw [Function.update_self] at right
          cases right
        · rw [Function.update_of_ne isFirst] at left
          rw [Function.update_of_ne isSecond] at right
          exact disk.distinct first second inode left right }

/-- Open a file, creating it with the given contents when it is missing. -/
def openFile (blank : Contents) (disk : Disk Name Contents) (name : Name) :
    Disk Name Contents × Inode :=
  match disk.files name with
  | some inode => (disk, inode)
  | none => (disk.install name blank, disk.fresh)

/-- Change the contents behind a handle. -/
def modify (disk : Disk Name Contents) (inode : Inode) (change : Contents → Contents) :
    Disk Name Contents :=
  { disk with contents := Function.update disk.contents inode (change (disk.contents inode)) }

/-- What a handle opened now would see. -/
def seen (blank : Contents) (disk : Disk Name Contents) (name : Name) : Contents :=
  match disk.files name with
  | some inode => disk.contents inode
  | none => blank

section Lemmas

variable {blank : Contents} {disk : Disk Name Contents} {name other : Name}

variable {inode : Inode}

omit [DecidableEq Name] in
theorem seen_of_file (leads : disk.files name = some inode) :
    disk.seen blank name = disk.contents inode := by
  unfold seen
  rw [leads]

omit [DecidableEq Name] in
theorem seen_of_missing (missing : disk.files name = none) : disk.seen blank name = blank := by
  unfold seen
  rw [missing]

theorem install_files_self (contents : Contents) :
    (disk.install name contents).files name = some disk.fresh :=
  Function.update_self _ _ _

theorem install_files_other (different : other ≠ name) (contents : Contents) :
    (disk.install name contents).files other = disk.files other :=
  Function.update_of_ne different _ _

theorem seen_install_self (contents : Contents) :
    (disk.install name contents).seen blank name = contents := by
  rw [seen_of_file (install_files_self contents)]
  exact Function.update_self _ _ _

theorem seen_install_other (different : other ≠ name) (contents : Contents) :
    (disk.install name contents).seen blank other = disk.seen blank other := by
  cases leads : disk.files other with
  | none =>
      rw [seen_of_missing leads]
      exact seen_of_missing ((install_files_other different contents).trans leads)
  | some inode =>
      rw [seen_of_file leads, seen_of_file ((install_files_other different contents).trans leads)]
      exact Function.update_of_ne (Nat.ne_of_lt (disk.bounded other inode leads)) _ _

theorem openFile_files_self :
    (disk.openFile blank name).1.files name = some (disk.openFile blank name).2 := by
  unfold openFile
  cases leads : disk.files name with
  | none => exact install_files_self blank
  | some inode => exact leads

/-- Opening a file changes no other name and moves none that leads somewhere. -/
theorem openFile_files (leads : disk.files other = some inode) :
    (disk.openFile blank name).1.files other = some inode := by
  unfold openFile
  cases opened : disk.files name with
  | some held => exact leads
  | none =>
      have different : other ≠ name := by
        intro same
        rw [same, opened] at leads
        cases leads
      exact (install_files_other different blank).trans leads

theorem seen_openFile : (disk.openFile blank name).1.seen blank other = disk.seen blank other := by
  unfold openFile
  cases opened : disk.files name with
  | some held => rfl
  | none =>
      by_cases same : other = name
      · subst same
        rw [seen_install_self, seen_of_missing opened]
      · exact seen_install_other same blank

/-- Writing through a handle is seen under the name that leads to it only. -/
theorem seen_modify (leads : disk.files name = some inode) (change : Contents → Contents) :
    (disk.modify inode change).seen blank other =
      if other = name then change (disk.seen blank name) else disk.seen blank other := by
  by_cases same : other = name
  · subst same
    have kept : (disk.modify inode change).files other = some inode := leads
    rw [if_pos rfl, seen_of_file leads, seen_of_file kept]
    exact Function.update_self _ _ _
  · rw [if_neg same]
    cases found : disk.files other with
    | none =>
        have kept : (disk.modify inode change).files other = none := found
        rw [seen_of_missing found, seen_of_missing kept]
    | some held =>
        have kept : (disk.modify inode change).files other = some held := found
        have apart : held ≠ inode := by
          intro equal
          rw [equal] at found
          exact same (disk.distinct other name inode found leads)
        rw [seen_of_file found, seen_of_file kept]
        exact Function.update_of_ne apart _ _

end Lemmas

end Disk

end Mneme.Library.Files
