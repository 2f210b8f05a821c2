/-
File names and extensions of slash-separated paths.
-/

import Mathlib.Data.List.Basic
import Mathlib.Data.List.TakeWhile

namespace Mneme.Common

/-- A path is the text it displays as. -/
abbrev Path := String

def toAsciiLowercase (text : String) : String :=
  String.ofList (text.toList.map Char.toLower)

/-- The components of a path: repeated separators and inner `.` components
vanish, and a leading `.` stays. -/
def components (path : Path) : List (List Char) :=
  match path.toList.splitOn '/' with
  | [] => []
  | first :: rest =>
      (if first = [] then [] else [first]) ++ rest.filter (fun part => part ≠ [] ∧ part ≠ ['.'])

/-- The last component, when it is a normal one. -/
def fileName (path : Path) : Option String :=
  match (components path).getLast? with
  | none => none
  | some last => if last = ['.'] ∨ last = ['.', '.'] then none else some (String.ofList last)

/-- The text after the last dot of a file name, unless that dot is its first
character. -/
def extensionOf (name : List Char) : Option (List Char) :=
  let tail := name.reverse.takeWhile (fun char => char ≠ '.')
  if tail.length + 1 < name.length then some tail.reverse else none

variable {ext name : List Char}

/-- The name is what stands before the last dot, the dot and the extension. -/
theorem extensionOf_split (found : extensionOf name = some ext) :
    name.take (name.length - (ext.length + 1)) ++ '.' :: ext = name := by
  unfold extensionOf at found
  simp only [Option.ite_none_right_eq_some, Option.some.injEq] at found
  obtain ⟨short, same⟩ := found
  have parts : name.reverse.takeWhile (fun char => decide (char ≠ '.')) ++
      name.reverse.dropWhile (fun char => decide (char ≠ '.')) = name.reverse :=
    List.takeWhile_append_dropWhile
  have fails := List.head?_dropWhile_not (fun char => decide (char ≠ '.')) name.reverse
  revert short same parts fails
  generalize name.reverse.takeWhile (fun char => decide (char ≠ '.')) = tail
  generalize name.reverse.dropWhile (fun char => decide (char ≠ '.')) = rest
  intro short same parts fails
  subst same
  have whole := congrArg List.reverse parts
  rw [List.reverse_append, List.reverse_reverse] at whole
  subst whole
  cases rest with
  | nil =>
      rw [List.reverse_nil, List.nil_append, List.length_reverse] at short
      omega
  | cons head more =>
      have dot : head = '.' := by simpa using fails
      rw [dot, List.reverse_cons, List.append_assoc, List.singleton_append]
      congr 1
      apply List.take_left'
      simp only [List.length_append, List.length_reverse, List.length_cons]
      omega

def extension (path : Path) : Option String :=
  (fileName path).bind (fun name => (extensionOf name.toList).map String.ofList)

/-- A character map that neither makes nor destroys dots commutes with taking
the extension. -/
theorem extensionOf_map (change : Char → Char)
    (dots : ∀ char, change char = '.' ↔ char = '.') (name : List Char) :
    extensionOf (name.map change) = (extensionOf name).map (List.map change) := by
  have keeps : (fun char => decide (char ≠ '.')) ∘ change = fun char => decide (char ≠ '.') := by
    funext char
    simp [dots]
  unfold extensionOf
  simp only [← List.map_reverse, List.takeWhile_map, keeps, List.length_map]
  split
  · rfl
  · rfl

theorem toLower_eq_dot (char : Char) : char.toLower = '.' ↔ char = '.' := by
  unfold Char.toLower
  split
  · rename_i upper
    have low := UInt32.le_iff_toNat_le.mp upper.1
    have high := UInt32.le_iff_toNat_le.mp upper.2
    have first : 'A'.val.toNat = 65 := rfl
    have last : 'Z'.val.toNat = 90 := rfl
    constructor
    · intro same
      have moved := congrArg (fun char => char.val.toNat) same
      have gap : ('a'.val - 'A'.val).toNat = 32 := rfl
      have dot : '.'.val.toNat = 46 := rfl
      simp only [UInt32.toNat_add, gap, dot] at moved
      omega
    · intro same
      subst same
      have dot : '.'.val.toNat = 46 := rfl
      omega
  · exact Iff.rfl

theorem extensionOf_noDot (found : extensionOf name = some ext) : '.' ∉ ext := by
  unfold extensionOf at found
  simp only [Option.ite_none_right_eq_some, Option.some.injEq] at found
  rw [← found.2, List.mem_reverse]
  intro member
  have kept := List.mem_takeWhile_imp member
  simp at kept

example : extension "/src/app.test.TSX" = some "TSX" := by decide

end Mneme.Common
