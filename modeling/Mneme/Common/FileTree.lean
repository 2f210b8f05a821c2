/-
File trees and the walk over them: a directory before its entries, and no
entry below a directory that the filter rejects.  Then the operations on the
entries: making, writing, removing and renaming files and whole directories.
-/

import Mathlib.Data.List.Infix
import Mneme.Common.Path

namespace Mneme.Common

def NormalName (text : String) : Prop :=
  text ≠ "" ∧ text ≠ "." ∧ text ≠ ".." ∧ '/' ∉ text.toList

instance (text : String) : Decidable (NormalName text) :=
  inferInstanceAs (Decidable (_ ∧ _ ∧ _ ∧ _))

/-- The name of a directory entry. -/
structure FileName where
  text : String
  normal : NormalName text

instance : DecidableEq FileName := fun left right =>
  if same : left.text = right.text then
    isTrue (by cases left; cases right; cases same; rfl)
  else isFalse (fun equal => same (congrArg FileName.text equal))

/-- An absolute path, or one relative to a root, as its names from the top. -/
abbrev Names := List FileName

def displayAbsolute (names : Names) : Path :=
  if names = [] then "/" else String.join (names.map (fun name => "/" ++ name.text))

mutual

inductive FileTree where
  /-- A regular file; the content is absent when it cannot be read. -/
  | file (content : Option ByteArray)
  /-- A symbolic link or a device, with what a read through it gives. -/
  | other (content : Option ByteArray)
  | dir (entries : Entries)

inductive Entries where
  | nil
  | cons (name : FileName) (tree : FileTree) (rest : Entries)

end

namespace FileTree

def isDir : FileTree → Bool
  | .dir _ => true
  | _ => false

/-- What a read of the entry gives. -/
def content? : FileTree → Option ByteArray
  | .file content => content
  | .other content => content
  | .dir _ => none

end FileTree

/-- The entry with a name. -/
def Entries.find? (text : String) : Entries → Option FileTree
  | .nil => none
  | .cons name tree rest => if name.text = text then some tree else rest.find? text

def FileTree.child? (text : String) : FileTree → Option FileTree
  | .dir entries => entries.find? text
  | _ => none

mutual

/-- The regular files that a walk without following links yields at and below
an entry.  `skip` is the filter that every entry must pass: it sees the path
below the root and whether the entry is a directory. -/
def FileTree.walk (skip : Names → Bool → Bool) (path : Names) :
    FileTree → List (Names × Option ByteArray)
  | .file content => if skip path false then [] else [(path, content)]
  | .other _ => []
  | .dir entries => if skip path true then [] else entries.walk skip path

def Entries.walk (skip : Names → Bool → Bool) (path : Names) :
    Entries → List (Names × Option ByteArray)
  | .nil => []
  | .cons name tree rest => tree.walk skip (path ++ [name]) ++ rest.walk skip path

end

/-- Every regular file of a tree. -/
def FileTree.files (tree : FileTree) : List (Names × Option ByteArray) :=
  tree.walk (fun _ _ => false) []

/-- The file name of a path, empty for the root of the file system. -/
def Names.fileName (path : Names) : String :=
  (path.getLast?.map FileName.text).getD ""

/-- The matcher that the `ignore` crate makes of an ignore file: whether a path
below the root, of a directory or of something else, is ignored. -/
structure Gitignore where
  ignores : Names → Bool → Bool

/-- What the crate makes of the content of an ignore file; nothing when it
cannot be read or has a line that is no pattern. -/
abbrev IgnoreBuilder := Option ByteArray → Option Gitignore

/-- The first of the two ignore files that exists and builds. -/
def loadProjectIgnore (builder : IgnoreBuilder) (tree : FileTree) : Option Gitignore :=
  [".mnemeignore", ".gitignore"].findSome? (fun name =>
    (tree.child? name).bind (fun entry => builder entry.content?))

/-- The filter rejects a directory on the way to a file, or the file. -/
def pruned (skip : Names → Bool → Bool) (above : Names) : Names → Bool
  | [] => skip above false
  | name :: below => skip above true || pruned skip (above ++ [name]) below

mutual

theorem FileTree.mem_walk (skip : Names → Bool → Bool) :
    ∀ (tree : FileTree) (path : Names) (file : Names × Option ByteArray),
      file ∈ tree.walk skip path ↔
        ∃ below, file.1 = path ++ below ∧ pruned skip path below = false ∧
          file ∈ tree.walk (fun _ _ => false) path
  | .file content, path, file => by
      unfold FileTree.walk
      rw [if_neg Bool.false_ne_true]
      constructor
      · intro member
        split at member
        · cases member
        · next kept =>
            have same : file = (path, content) := List.mem_singleton.mp member
            subst same
            exact ⟨[], (List.append_nil path).symm, Bool.eq_false_iff.mpr kept, member⟩
      · rintro ⟨below, under, kept, member⟩
        have same : file = (path, content) := List.mem_singleton.mp member
        subst same
        have empty : below = [] := List.self_eq_append_right.mp under
        subst empty
        have passed : skip path false = false := kept
        rw [passed]
        exact member
  | .other content, path, file => by
      constructor
      · intro member
        cases member
      · rintro ⟨below, _, _, member⟩
        cases member
  | .dir entries, path, file => by
      unfold FileTree.walk
      rw [if_neg Bool.false_ne_true]
      have inside := Entries.mem_walk skip entries path file
      constructor
      · intro member
        split at member
        · cases member
        · next kept =>
            obtain ⟨name, below, under, passed, plain⟩ := inside.mp member
            refine ⟨name :: below, under, ?_, plain⟩
            rw [pruned, passed, Bool.or_false]
            exact Bool.eq_false_iff.mpr kept
      · rintro ⟨below, under, kept, plain⟩
        have deeper := (Entries.mem_walk (fun _ _ => false) entries path file).mp plain
        obtain ⟨name, rest, named, _, _⟩ := deeper
        have same : below = name :: rest := List.append_cancel_left (under.symm.trans named)
        subst same
        rw [pruned, Bool.or_eq_false_iff] at kept
        rw [kept.1, if_neg Bool.false_ne_true]
        exact inside.mpr ⟨name, rest, under, kept.2, plain⟩

theorem Entries.mem_walk (skip : Names → Bool → Bool) :
    ∀ (entries : Entries) (path : Names) (file : Names × Option ByteArray),
      file ∈ entries.walk skip path ↔
        ∃ name below, file.1 = path ++ name :: below ∧
          pruned skip (path ++ [name]) below = false ∧
            file ∈ entries.walk (fun _ _ => false) path
  | .nil, path, file => by
      constructor
      · intro member
        cases member
      · rintro ⟨name, below, _, _, member⟩
        cases member
  | .cons name tree rest, path, file => by
      unfold Entries.walk
      rw [List.mem_append, List.mem_append, FileTree.mem_walk skip tree (path ++ [name]) file,
        Entries.mem_walk skip rest path file]
      constructor
      · rintro (⟨below, under, kept, plain⟩ | ⟨other, below, under, kept, plain⟩)
        · rw [List.append_assoc] at under
          exact ⟨name, below, under, kept, Or.inl plain⟩
        · exact ⟨other, below, under, kept, Or.inr plain⟩
      · rintro ⟨other, below, under, kept, plain | plain⟩
        · left
          obtain ⟨deeper, named, _, _⟩ :=
            (FileTree.mem_walk (fun _ _ => false) tree (path ++ [name]) file).mp plain
          rw [List.append_assoc] at named
          obtain ⟨sameName, sameBelow⟩ :=
            List.cons.inj (List.append_cancel_left (under.symm.trans named))
          rw [sameName] at kept under
          refine ⟨below, ?_, kept, plain⟩
          rw [List.append_assoc]
          exact under
        · exact Or.inr ⟨other, below, under, kept, plain⟩

end

/-- The walk of a project yields the files that the filter does not cut off. -/
theorem mem_walk_iff (skip : Names → Bool → Bool) (tree : FileTree)
    (file : Names × Option ByteArray) :
    file ∈ tree.walk skip [] ↔ file ∈ tree.files ∧ pruned skip [] file.1 = false := by
  rw [FileTree.mem_walk]
  constructor
  · rintro ⟨below, under, kept, plain⟩
    rw [under]
    exact ⟨plain, kept⟩
  · rintro ⟨plain, kept⟩
    exact ⟨file.1, rfl, kept, plain⟩

/-! ### Filters -/

theorem pruned_or (first second : Names → Bool → Bool) (above below : Names) :
    pruned (fun path isDir => first path isDir || second path isDir) above below =
      (pruned first above below || pruned second above below) := by
  induction below generalizing above with
  | nil => rfl
  | cons name below ih =>
      rw [pruned, pruned, pruned, ih, Bool.or_assoc, Bool.or_assoc]
      congr 1
      rw [← Bool.or_assoc, ← Bool.or_assoc, Bool.or_comm (second above true)]

theorem fileName_snoc (path : Names) (name : FileName) :
    Names.fileName (path ++ [name]) = name.text := by
  unfold Names.fileName
  rw [List.getLast?_append]
  rfl

/-- A filter by name cuts off what lies under a listed name, the root's own
included. -/
theorem pruned_listed (listed : String → Bool) (root above below : Names) :
    pruned (fun path _ => listed (Names.fileName (root ++ path))) above below = true ↔
      listed (Names.fileName (root ++ above)) = true ∨ ∃ name ∈ below, listed name.text = true := by
  induction below generalizing above with
  | nil =>
      unfold pruned
      simp only [List.not_mem_nil, false_and, exists_false, or_false]
  | cons name below ih =>
      unfold pruned
      rw [Bool.or_eq_true, ih, ← List.append_assoc, fileName_snoc, List.exists_mem_cons_iff]

theorem pruned_iff (skip : Names → Bool → Bool) (above below : Names) :
    pruned skip above below = true ↔
      (∃ inner rest, below = inner ++ rest ∧ rest ≠ [] ∧ skip (above ++ inner) true = true) ∨
        skip (above ++ below) false = true := by
  induction below generalizing above with
  | nil =>
      unfold pruned
      rw [List.append_nil]
      constructor
      · exact Or.inr
      · rintro (⟨inner, rest, empty, more, _⟩ | matched)
        · exact absurd (List.append_eq_nil_iff.mp empty.symm).2 more
        · exact matched
  | cons name below ih =>
      unfold pruned
      rw [Bool.or_eq_true, ih, List.append_assoc, List.singleton_append]
      constructor
      · rintro (here | ⟨inner, rest, split, more, matched⟩ | matched)
        · refine Or.inl ⟨[], name :: below, rfl, List.cons_ne_nil _ _, ?_⟩
          rw [List.append_nil]
          exact here
        · refine Or.inl ⟨name :: inner, rest, congrArg (List.cons name) split, more, ?_⟩
          rw [List.append_assoc] at matched
          exact matched
        · exact Or.inr matched
      · rintro (⟨inner, rest, split, more, matched⟩ | matched)
        · cases inner with
          | nil =>
              rw [List.append_nil] at matched
              exact Or.inl matched
          | cons first inner =>
              obtain ⟨same, deeper⟩ := List.cons.inj split
              refine Or.inr (Or.inl ⟨inner, rest, deeper, more, ?_⟩)
              rw [List.append_assoc, List.singleton_append, same]
              exact matched
        · exact Or.inr (Or.inr matched)

/-! ### Displayed paths -/

/-- A path as characters, without the special case of the root. -/
def spelled (names : Names) : List Char :=
  names.flatMap (fun name => '/' :: name.text.toList)

/-- A name ends where the next separator stands. -/
theorem takeWhile_spelled (name : FileName) (names : Names) :
    (name.text.toList ++ spelled names).takeWhile (fun char => char ≠ '/') = name.text.toList := by
  have inside : ∀ char ∈ name.text.toList, decide (char ≠ '/') = true := by
    intro char member
    have noSlash := name.normal.2.2.2
    exact decide_eq_true (fun slash => noSlash (slash ▸ member))
  have behind : (spelled names).takeWhile (fun char => char ≠ '/') = [] := by
    cases names with
    | nil => rfl
    | cons next rest => rfl
  rw [List.takeWhile_append_of_pos inside, behind, List.append_nil]

theorem spelled_injective {left right : Names} (same : spelled left = spelled right) :
    left = right := by
  induction left generalizing right with
  | nil =>
      cases right with
      | nil => rfl
      | cons name names => cases same
  | cons name names ih =>
      cases right with
      | nil => cases same
      | cons other others =>
          have tails := (List.cons.inj same).2
          have texts : name.text.toList = other.text.toList := by
            rw [← takeWhile_spelled name names, ← takeWhile_spelled other others]
            exact congrArg _ tails
          have first : name = other := by
            cases name
            cases other
            cases String.toList_inj.mp texts
            rfl
          subst first
          rw [ih (List.append_cancel_left tails)]

theorem toList_displayAbsolute (names : Names) :
    (displayAbsolute names).toList = if names = [] then ['/'] else spelled names := by
  unfold displayAbsolute spelled
  split
  · rfl
  · rw [String.toList_join, List.flatMap_map]
    congr 1
    funext name
    rw [String.toList_append]
    rfl

/-- No path but the root is spelled by the separator alone. -/
theorem spelled_ne_root (names : Names) : spelled names ≠ ['/'] := by
  cases names with
  | nil =>
      intro root
      cases root
  | cons name names =>
      intro root
      have empty := (List.append_eq_nil_iff.mp (List.cons.inj root).2).1
      exact name.normal.1 (String.toList_inj.mp empty)

theorem displayAbsolute_injective {left right : Names}
    (same : displayAbsolute left = displayAbsolute right) : left = right := by
  have spellings := congrArg String.toList same
  rw [toList_displayAbsolute, toList_displayAbsolute] at spellings
  split at spellings
  · next rootLeft =>
      split at spellings
      · next rootRight => rw [rootLeft, rootRight]
      · exact absurd spellings.symm (spelled_ne_root right)
  · split at spellings
    · exact absurd spellings (spelled_ne_root left)
    · exact spelled_injective spellings

/-! ### Operations -/

/-- The entry at a path below the root. -/
def FileTree.lookup : Names → FileTree → Option FileTree
  | [], tree => some tree
  | name :: below, tree => (tree.child? name.text).bind (lookup below)

/-- What a read of the path gives. -/
def FileTree.read (below : Names) (tree : FileTree) : Option ByteArray :=
  (tree.lookup below).bind FileTree.content?

/-- An entry under a name, in the place of the one that has it. -/
def Entries.put (name : FileName) (entry : FileTree) : Entries → Entries
  | .nil => .cons name entry .nil
  | .cons other tree rest =>
      if other.text = name.text then .cons name entry rest
      else .cons other tree (rest.put name entry)

def Entries.erase (text : String) : Entries → Entries
  | .nil => .nil
  | .cons name tree rest =>
      if name.text = text then rest else .cons name tree (rest.erase text)

/-- Change the entries of the directory that a path lies in; without that
directory nothing can be changed. -/
def FileTree.inParent (change : FileName → Entries → Option Entries) :
    Names → FileTree → Option FileTree
  | [], _ => none
  | name :: below, tree =>
      match tree with
      | .dir entries =>
          if below = [] then (change name entries).map FileTree.dir
          else
            (entries.find? name.text).bind (fun child =>
              (inParent change below child).map (fun changed => .dir (entries.put name changed)))
      | _ => none

def FileTree.place (tree : FileTree) (path : Names) (entry : FileTree) : Option FileTree :=
  tree.inParent (fun name entries => some (entries.put name entry)) path

def FileTree.remove (tree : FileTree) (path : Names) : Option FileTree :=
  tree.inParent (fun name entries =>
    (entries.find? name.text).map (fun _ => entries.erase name.text)) path

inductive Operation where
  /-- A file is made or written, or an entry comes in from elsewhere. -/
  | put (path : Names) (entry : FileTree)
  | remove (path : Names)
  | rename (source target : Names)

/-- The tree after an operation, unless it fails. -/
def Operation.apply (tree : FileTree) : Operation → Option FileTree
  | .put path entry => tree.place path entry
  | .remove path => tree.remove path
  | .rename source target =>
      (tree.lookup source).bind (fun entry =>
        (tree.remove source).bind (fun without => without.place target entry))

end Mneme.Common
