/-
The edit that leads from one text to another: the stretch between the longest common
prefix and the longest common suffix of the rest.  It is exact: it is spliced into the
old text to give the new one, and what is kept before it and behind it is as long as it
can be.
-/

import Mathlib.Data.List.Induction
import Mathlib.Data.List.TakeWhile

namespace Mneme.Parsers

abbrev Bytes := List UInt8

structure Point where
  row : Nat
  column : Nat
deriving DecidableEq

structure InputEdit where
  startByte : Nat
  oldEndByte : Nat
  newEndByte : Nat
  startPosition : Point
  oldEndPosition : Point
  newEndPosition : Point
deriving DecidableEq

def commonPrefixLen : Bytes → Bytes → Nat
  | left :: lefts, right :: rights =>
      if left = right then commonPrefixLen lefts rights + 1 else 0
  | _, _ => 0

def commonSuffixLen (left right : Bytes) : Nat :=
  commonPrefixLen left.reverse right.reverse

def newline : UInt8 := 10

def byteToPoint (bytes : Bytes) (offset : Nat) : Point :=
  (bytes.take offset).foldl
    (fun point byte =>
      if byte = newline then { row := point.row + 1, column := 0 }
      else { point with column := point.column + 1 })
    { row := 0, column := 0 }

def computeInputEdit (old new : Bytes) : InputEdit :=
  let common := commonPrefixLen old new
  let suffix := commonSuffixLen (old.drop common) (new.drop common)
  let oldEnd := old.length - suffix
  let newEnd := new.length - suffix
  { startByte := common
    oldEndByte := oldEnd
    newEndByte := newEnd
    startPosition := byteToPoint old common
    oldEndPosition := byteToPoint old oldEnd
    newEndPosition := byteToPoint new newEnd }

/-- The point lies behind so many newlines, and so far behind the last of them. -/
def IsPoint (bytes : Bytes) (offset : Nat) (point : Point) : Prop :=
  point.row = (bytes.take offset).count newline ∧
    point.column = ((bytes.take offset).reverse.takeWhile (fun byte => byte ≠ newline)).length

/-- The texts agree before the edit and behind it, and its points lie where its bytes are. -/
structure CorrectEdit (old new : Bytes) (edit : InputEdit) : Prop where
  oldRange : edit.startByte ≤ edit.oldEndByte ∧ edit.oldEndByte ≤ old.length
  newRange : edit.startByte ≤ edit.newEndByte ∧ edit.newEndByte ≤ new.length
  before : old.take edit.startByte = new.take edit.startByte
  behind : old.drop edit.oldEndByte = new.drop edit.newEndByte
  start : IsPoint old edit.startByte edit.startPosition
  oldEnd : IsPoint old edit.oldEndByte edit.oldEndPosition
  newEnd : IsPoint new edit.newEndByte edit.newEndPosition

variable (left right : Bytes)

theorem take_commonPrefixLen :
    left.take (commonPrefixLen left right) = right.take (commonPrefixLen left right) := by
  induction left generalizing right with
  | nil => simp [commonPrefixLen]
  | cons byte rest ih =>
      cases right with
      | nil => simp [commonPrefixLen]
      | cons other others =>
          unfold commonPrefixLen
          split
          · rename_i same
            rw [List.take_succ_cons, List.take_succ_cons, ih, same]
          · rfl

theorem commonPrefixLen_le :
    commonPrefixLen left right ≤ left.length ∧ commonPrefixLen left right ≤ right.length := by
  induction left generalizing right with
  | nil => simp [commonPrefixLen]
  | cons byte rest ih =>
      cases right with
      | nil => simp [commonPrefixLen]
      | cons other others =>
          have bounds := ih others
          unfold commonPrefixLen
          rw [List.length_cons, List.length_cons]
          split <;> omega

theorem commonSuffixLen_le :
    commonSuffixLen left right ≤ left.length ∧ commonSuffixLen left right ≤ right.length := by
  have bounds := commonPrefixLen_le left.reverse right.reverse
  rw [List.length_reverse, List.length_reverse] at bounds
  exact bounds

theorem drop_commonSuffixLen :
    left.drop (left.length - commonSuffixLen left right) =
      right.drop (right.length - commonSuffixLen left right) := by
  have same := congrArg List.reverse (take_commonPrefixLen left.reverse right.reverse)
  rw [List.take_reverse, List.take_reverse, List.reverse_reverse, List.reverse_reverse] at same
  exact same

theorem byteToPoint_isPoint (bytes : Bytes) (offset : Nat) :
    IsPoint bytes offset (byteToPoint bytes offset) := by
  unfold IsPoint byteToPoint
  induction bytes.take offset using List.reverseRecOn with
  | nil => exact ⟨rfl, rfl⟩
  | append_singleton initial byte ih =>
      rw [List.foldl_append, List.foldl_cons, List.foldl_nil, List.count_append,
        List.reverse_append, List.reverse_singleton, List.singleton_append]
      by_cases ends : byte = newline
      · rw [if_pos ends, ends, List.takeWhile_cons_of_neg (by simp)]
        exact ⟨by simp [ih.1], rfl⟩
      · rw [if_neg ends, List.takeWhile_cons_of_pos (by simpa using ends)]
        refine ⟨?_, ?_⟩
        · simp [ih.1, ends]
        · simp [ih.2]

variable (old new : Bytes)

theorem computeInputEdit_correct : CorrectEdit old new (computeInputEdit old new) := by
  have common := commonPrefixLen_le old new
  have suffix := commonSuffixLen_le (old.drop (commonPrefixLen old new))
    (new.drop (commonPrefixLen old new))
  have behind := drop_commonSuffixLen (old.drop (commonPrefixLen old new))
    (new.drop (commonPrefixLen old new))
  have before := take_commonPrefixLen old new
  unfold computeInputEdit
  dsimp only
  generalize commonSuffixLen (old.drop (commonPrefixLen old new))
    (new.drop (commonPrefixLen old new)) = tail at suffix behind ⊢
  generalize commonPrefixLen old new = lead at common suffix behind before ⊢
  rw [List.length_drop, List.length_drop] at suffix
  rw [List.drop_drop, List.drop_drop, List.length_drop, List.length_drop,
    show lead + (old.length - lead - tail) = old.length - tail by omega,
    show lead + (new.length - lead - tail) = new.length - tail by omega] at behind
  exact {
    oldRange := by dsimp only; omega
    newRange := by dsimp only; omega
    before
    behind
    start := byteToPoint_isPoint old lead
    oldEnd := byteToPoint_isPoint old _
    newEnd := byteToPoint_isPoint new _ }

/-! ### Checked arithmetic -/

/-- `&bytes[start..]` -/
def sliceFrom (bytes : Bytes) (start : Nat) : Option Bytes :=
  if start ≤ bytes.length then some (bytes.drop start) else none

def checkedSub (left right : Nat) : Option Nat :=
  if right ≤ left then some (left - right) else none

/-- `compute_input_edit`, none where a slice or a subtraction would panic. -/
def checkedInputEdit (old new : Bytes) : Option InputEdit := do
  let common := commonPrefixLen old new
  let oldRest ← sliceFrom old common
  let newRest ← sliceFrom new common
  let suffix := commonSuffixLen oldRest newRest
  let oldEnd ← checkedSub old.length suffix
  let newEnd ← checkedSub new.length suffix
  return {
    startByte := common
    oldEndByte := oldEnd
    newEndByte := newEnd
    startPosition := byteToPoint old common
    oldEndPosition := byteToPoint old oldEnd
    newEndPosition := byteToPoint new newEnd }

theorem suffix_le_length :
    commonSuffixLen (old.drop (commonPrefixLen old new)) (new.drop (commonPrefixLen old new)) ≤
        old.length - commonPrefixLen old new ∧
      commonSuffixLen (old.drop (commonPrefixLen old new)) (new.drop (commonPrefixLen old new)) ≤
        new.length - commonPrefixLen old new := by
  have suffix := commonSuffixLen_le (old.drop (commonPrefixLen old new))
    (new.drop (commonPrefixLen old new))
  rw [List.length_drop, List.length_drop] at suffix
  exact suffix

theorem checkedInputEdit_eq : checkedInputEdit old new = some (computeInputEdit old new) := by
  have common := commonPrefixLen_le old new
  have suffix := suffix_le_length old new
  unfold checkedInputEdit sliceFrom checkedSub
  dsimp only
  rw [if_pos common.1, if_pos common.2]
  dsimp only [Option.bind_eq_bind, Option.bind_some]
  rw [if_pos (Nat.le_trans suffix.1 (Nat.sub_le _ _)),
    if_pos (Nat.le_trans suffix.2 (Nat.sub_le _ _))]
  rfl

/-! ### The longest common ends -/

theorem commonPrefixLen_greatest {left right : Bytes} {first : Nat} (inLeft : first ≤ left.length)
    (inRight : first ≤ right.length) (same : left.take first = right.take first) :
    first ≤ commonPrefixLen left right := by
  induction first generalizing left right with
  | zero => exact Nat.zero_le _
  | succ first ih =>
      cases left with
      | nil => exact absurd inLeft (Nat.not_succ_le_zero _)
      | cons byte rest =>
          cases right with
          | nil => exact absurd inRight (Nat.not_succ_le_zero _)
          | cons other others =>
              rw [List.take_succ_cons, List.take_succ_cons, List.cons.injEq] at same
              unfold commonPrefixLen
              rw [if_pos same.1]
              exact Nat.succ_le_succ
                (ih (Nat.le_of_succ_le_succ inLeft) (Nat.le_of_succ_le_succ inRight) same.2)

theorem commonSuffixLen_greatest {left right : Bytes} {count : Nat} (inLeft : count ≤ left.length)
    (inRight : count ≤ right.length)
    (same : left.drop (left.length - count) = right.drop (right.length - count)) :
    count ≤ commonSuffixLen left right := by
  have turned : left.reverse.take count = right.reverse.take count := by
    rw [List.take_reverse, List.take_reverse, same]
  unfold commonSuffixLen
  exact commonPrefixLen_greatest (by rw [List.length_reverse]; exact inLeft)
    (by rw [List.length_reverse]; exact inRight) turned

/-- No longer prefix is common, and behind the prefix no longer suffix. -/
structure LongestEnds (old new : Bytes) (edit : InputEdit) : Prop where
  lead : ∀ first, first ≤ old.length → first ≤ new.length →
    old.take first = new.take first → first ≤ edit.startByte
  tail : ∀ oldEnd newEnd, edit.startByte ≤ oldEnd → oldEnd ≤ old.length →
    edit.startByte ≤ newEnd → newEnd ≤ new.length → old.drop oldEnd = new.drop newEnd →
      edit.oldEndByte ≤ oldEnd ∧ edit.newEndByte ≤ newEnd

theorem computeInputEdit_longest : LongestEnds old new (computeInputEdit old new) := by
  have common := commonPrefixLen_le old new
  refine ⟨fun first inOld inNew same => commonPrefixLen_greatest inOld inNew same, ?_⟩
  intro oldEnd newEnd afterOld inOld afterNew inNew same
  change commonPrefixLen old new ≤ oldEnd at afterOld
  change commonPrefixLen old new ≤ newEnd at afterNew
  have counts : old.length - oldEnd = new.length - newEnd := by
    have lengths := congrArg List.length same
    rw [List.length_drop, List.length_drop] at lengths
    exact lengths
  have longest : old.length - oldEnd ≤ commonSuffixLen (old.drop (commonPrefixLen old new))
      (new.drop (commonPrefixLen old new)) := by
    apply commonSuffixLen_greatest
    · rw [List.length_drop]
      omega
    · rw [List.length_drop]
      omega
    · rw [List.drop_drop, List.drop_drop, List.length_drop, List.length_drop]
      have atOld : commonPrefixLen old new +
          (old.length - commonPrefixLen old new - (old.length - oldEnd)) = oldEnd := by omega
      have atNew : commonPrefixLen old new +
          (new.length - commonPrefixLen old new - (old.length - oldEnd)) = newEnd := by omega
      rw [atOld, atNew, same]
  change old.length - commonSuffixLen _ _ ≤ oldEnd ∧ new.length - commonSuffixLen _ _ ≤ newEnd
  omega

/-! ### The splice -/

/-- The old text with the stretch of the edit replaced by the new bytes. -/
def splice (old new : Bytes) (edit : InputEdit) : Bytes :=
  old.take edit.startByte ++ ((new.take edit.newEndByte).drop edit.startByte ++
    old.drop edit.oldEndByte)

theorem splice_of_correct {old new : Bytes} {edit : InputEdit} (correct : CorrectEdit old new edit) :
    splice old new edit = new := by
  unfold splice
  rw [correct.behind, correct.before]
  have front : new.take edit.startByte = (new.take edit.newEndByte).take edit.startByte := by
    rw [List.take_take, Nat.min_eq_left correct.newRange.1]
  rw [front, ← List.append_assoc, List.take_append_drop, List.take_append_drop]

/-- The edit is correct, gives the new text, keeps as much as it can, and neither a
slice nor a subtraction leaves its range. -/
theorem computeInputEdit_exact (old new : Bytes) :
    checkedInputEdit old new = some (computeInputEdit old new) ∧
      CorrectEdit old new (computeInputEdit old new) ∧
      splice old new (computeInputEdit old new) = new ∧
      LongestEnds old new (computeInputEdit old new) :=
  ⟨checkedInputEdit_eq old new, computeInputEdit_correct old new,
    splice_of_correct (computeInputEdit_correct old new), computeInputEdit_longest old new⟩

end Mneme.Parsers
