/-
Slices of a text by the offsets of its bytes.

A slice is there only where both ends lie between characters, inside the text
and in order; elsewhere the program that takes it comes to a panic.
-/

import Mneme.Library.Encodings

namespace Mneme.Library

/-- The offset lies between two characters, or at an end of the text. -/
def IsBoundary (text : List Char) (offset : Nat) : Prop :=
  ∃ before after, text = before ++ after ∧ (utf8 before).length = offset

/-- The text before the offset and the text behind it. -/
def cutBytes : List Char → Nat → Option (List Char × List Char)
  | [], offset => if offset = 0 then some ([], []) else none
  | char :: rest, offset =>
      if offset = 0 then some ([], char :: rest)
      else if (String.utf8EncodeChar char).length ≤ offset then
        (cutBytes rest (offset - (String.utf8EncodeChar char).length)).map
          (fun parts => (char :: parts.1, parts.2))
      else none

def textSlice (text : List Char) (start stop : Nat) : Option (List Char) :=
  if start ≤ stop then
    (cutBytes text stop).bind (fun parts => (cutBytes parts.1 start).map Prod.snd)
  else none

def byteSlice (bytes : List UInt8) (start stop : Nat) : Option (List UInt8) :=
  if start ≤ stop ∧ stop ≤ bytes.length then some ((bytes.take stop).drop start) else none

/-- Where the part begins for the first time. -/
def findText (part : List Char) : List Char → Option Nat
  | [] => if part = [] then some 0 else none
  | char :: rest =>
      if part.isPrefixOf (char :: rest) then some 0
      else (findText part rest).map (· + (String.utf8EncodeChar char).length)

/-! ### Boundaries -/

theorem utf8_cons (char : Char) (text : List Char) :
    utf8 (char :: text) = String.utf8EncodeChar char ++ utf8 text :=
  List.flatMap_cons

variable {text : List Char}

theorem utf8_length_eq_zero (empty : (utf8 text).length = 0) : text = [] := by
  cases text with
  | nil => rfl
  | cons char text =>
      have some_byte := List.length_pos_of_ne_nil (@String.utf8EncodeChar_ne_nil char)
      rw [utf8_cons, List.length_append] at empty
      omega

theorem isBoundary_zero (text : List Char) : IsBoundary text 0 :=
  ⟨[], text, rfl, rfl⟩

theorem isBoundary_length (text : List Char) : IsBoundary text (utf8 text).length :=
  ⟨text, [], (List.append_nil text).symm, rfl⟩

variable {offset : Nat}

variable {text front rest : List Char}

theorem isBoundary_append :
    IsBoundary text offset → IsBoundary (front ++ text) ((utf8 front).length + offset) := by
  rintro ⟨before, after, rfl, rfl⟩
  refine ⟨front ++ before, after, (List.append_assoc _ _ _).symm, ?_⟩
  rw [utf8_append, List.length_append]

theorem isBoundary_before : IsBoundary text offset → IsBoundary (text ++ rest) offset := by
  rintro ⟨before, after, rfl, rfl⟩
  exact ⟨before, after ++ rest, List.append_assoc _ _ _, rfl⟩

theorem isBoundary_append_iff :
    IsBoundary (front ++ text) ((utf8 front).length + offset) ↔ IsBoundary text offset := by
  constructor
  · rintro ⟨before, after, split, size⟩
    rcases List.append_eq_append_iff.mp split with ⟨more, rfl, back⟩ | ⟨more, rfl, back⟩
    · rw [utf8_append, List.length_append] at size
      exact ⟨more, after, back, by omega⟩
    · rw [utf8_append, List.length_append] at size
      have none : offset = 0 := by omega
      rw [none]
      exact isBoundary_zero _
  · exact isBoundary_append

theorem isBoundary_before_iff (inside : offset ≤ (utf8 text).length) :
    IsBoundary (text ++ rest) offset ↔ IsBoundary text offset := by
  constructor
  · rintro ⟨before, after, split, rfl⟩
    rcases List.append_eq_append_iff.mp split with ⟨more, rfl, _⟩ | ⟨more, rfl, _⟩
    · rw [utf8_append, List.length_append] at inside
      have none : more = [] := utf8_length_eq_zero (by omega)
      rw [none, List.append_nil]
      exact isBoundary_length text
    · exact ⟨before, more, rfl, rfl⟩
  · exact isBoundary_before

theorem cutBytes_eq_some_iff {before after : List Char} :
    cutBytes text offset = some (before, after) ↔
      text = before ++ after ∧ (utf8 before).length = offset := by
  induction text generalizing offset before with
  | nil =>
      unfold cutBytes
      constructor
      · intro found
        split at found
        · next start =>
            cases found
            exact ⟨rfl, start.symm⟩
        · cases found
      · rintro ⟨split, size⟩
        obtain ⟨rfl, rfl⟩ := List.append_eq_nil_iff.mp split.symm
        rw [← size]
        rfl
  | cons char text ih =>
      have some_byte := List.length_pos_of_ne_nil (@String.utf8EncodeChar_ne_nil char)
      unfold cutBytes
      constructor
      · intro found
        split at found
        · next start =>
            cases found
            exact ⟨rfl, start.symm⟩
        · split at found
          · next fits =>
              obtain ⟨⟨front, back⟩, inner, same⟩ := Option.map_eq_some_iff.mp found
              cases same
              obtain ⟨split, size⟩ := ih.mp inner
              refine ⟨congrArg (char :: ·) split, ?_⟩
              rw [utf8_cons, List.length_append, size]
              omega
          · cases found
      · rintro ⟨split, size⟩
        cases before with
        | nil =>
            rw [List.nil_append] at split
            subst split
            exact if_pos size.symm
        | cons first before =>
            rw [List.cons_append, List.cons.injEq] at split
            obtain ⟨rfl, split⟩ := split
            rw [utf8_cons, List.length_append] at size
            rw [if_neg (by omega), if_pos (by omega), Option.map_eq_some_iff]
            exact ⟨(before, after), ih.mpr ⟨split, by omega⟩, rfl⟩

/-! ### Slices -/

variable {start stop : Nat} {text part : List Char}

theorem textSlice_eq_some_iff :
    textSlice text start stop = some part ↔
      ∃ before after, text = before ++ (part ++ after) ∧ (utf8 before).length = start ∧
        start + (utf8 part).length = stop := by
  unfold textSlice
  constructor
  · intro found
    split at found
    · obtain ⟨⟨front, after⟩, outer, inner⟩ := Option.bind_eq_some_iff.mp found
      obtain ⟨⟨before, middle⟩, cut, same⟩ := Option.map_eq_some_iff.mp inner
      cases same
      obtain ⟨rfl, size⟩ := cutBytes_eq_some_iff.mp outer
      obtain ⟨rfl, first⟩ := cutBytes_eq_some_iff.mp cut
      refine ⟨before, after, List.append_assoc _ _ _, first, ?_⟩
      rw [← size, utf8_append, List.length_append, first]
    · cases found
  · rintro ⟨before, after, rfl, rfl, rfl⟩
    rw [if_pos (Nat.le_add_right _ _), Option.bind_eq_some_iff]
    refine ⟨(before ++ part, after), cutBytes_eq_some_iff.mpr ⟨?_, ?_⟩, ?_⟩
    · exact (List.append_assoc _ _ _).symm
    · rw [utf8_append, List.length_append]
    · rw [Option.map_eq_some_iff]
      exact ⟨(before, part), cutBytes_eq_some_iff.mpr ⟨rfl, rfl⟩, rfl⟩

theorem textSlice_isSome_iff :
    (textSlice text start stop).isSome = true ↔
      start ≤ stop ∧ IsBoundary text start ∧ IsBoundary text stop := by
  rw [Option.isSome_iff_exists]
  constructor
  · rintro ⟨part, found⟩
    obtain ⟨before, after, rfl, rfl, rfl⟩ := textSlice_eq_some_iff.mp found
    refine ⟨Nat.le_add_right _ _, ⟨before, part ++ after, rfl, rfl⟩, before ++ part, after, ?_, ?_⟩
    · exact (List.append_assoc _ _ _).symm
    · rw [utf8_append, List.length_append]
  · rintro ⟨ordered, ⟨before, rest, split, rfl⟩, ⟨front, after, also, rfl⟩⟩
    rcases List.append_eq_append_iff.mp (split.symm.trans also) with
      ⟨part, longer, back⟩ | ⟨part, shorter, back⟩
    · refine ⟨part, textSlice_eq_some_iff.mpr ⟨before, after, ?_, rfl, ?_⟩⟩
      · rw [split, back]
      · rw [longer, utf8_append, List.length_append]
    · -- The second cut is not before the first, so nothing is between them.
      rw [shorter, utf8_append, List.length_append] at ordered
      have empty := utf8_length_eq_zero (Nat.le_zero.mp (Nat.le_of_add_le_add_left
        (Nat.le_trans ordered (Nat.le_add_right _ 0))))
      rw [empty, List.append_nil] at shorter
      refine ⟨[], textSlice_eq_some_iff.mpr ⟨before, rest, split, rfl, ?_⟩⟩
      rw [shorter]
      rfl

theorem textSlice_bytes (found : textSlice text start stop = some part) :
    utf8 part = ((utf8 text).take stop).drop start := by
  obtain ⟨before, after, rfl, rfl, rfl⟩ := textSlice_eq_some_iff.mp found
  rw [utf8_append, utf8_append, List.take_length_add_append, List.drop_left, List.take_left]

/-- A boundary of a slice is one of the text. -/
theorem textSlice_boundary_iff {start stop offset : Nat}
    (found : textSlice text start stop = some part) (inside : offset ≤ (utf8 part).length) :
    IsBoundary part offset ↔ IsBoundary text (start + offset) := by
  obtain ⟨before, after, rfl, rfl, rfl⟩ := textSlice_eq_some_iff.mp found
  rw [isBoundary_append_iff, isBoundary_before_iff inside]

theorem byteSlice_isSome_iff {bytes : List UInt8} :
    (byteSlice bytes start stop).isSome = true ↔ start ≤ stop ∧ stop ≤ bytes.length := by
  unfold byteSlice
  split
  · next inside => exact iff_of_true rfl inside
  · next outside => exact iff_of_false Bool.false_ne_true outside

/-! ### Places found in a text -/

theorem isBoundary_ascii {place : Nat} {byte : UInt8}
    (there : (utf8 text)[place]? = some byte) (ascii : byte.toNat < 0x80) :
    IsBoundary text place := by
  induction text generalizing place with
  | nil => cases there
  | cons char text ih =>
      rw [utf8_cons] at there
      by_cases first : place < (String.utf8EncodeChar char).length
      · rw [List.getElem?_append_left first] at there
        -- A character with a byte of ASCII in it is no longer than that byte.
        rw [(utf8Char_ascii (List.mem_of_getElem? there) ascii).1] at first
        rw [Nat.lt_one_iff.mp first]
        exact isBoundary_zero _
      · rw [List.getElem?_append_right (Nat.le_of_not_lt first)] at there
        obtain ⟨before, after, split, size⟩ := ih there
        refine ⟨char :: before, after, congrArg (char :: ·) split, ?_⟩
        rw [utf8_cons, List.length_append, size]
        omega

theorem isBoundary_findText {part : List Char} {place : Nat}
    (found : findText part text = some place) : IsBoundary text place := by
  induction text generalizing place with
  | nil =>
      unfold findText at found
      split at found
      · cases found
        exact isBoundary_zero _
      · cases found
  | cons char text ih =>
      unfold findText at found
      split at found
      · cases found
        exact isBoundary_zero _
      · obtain ⟨later, there, rfl⟩ := Option.map_eq_some_iff.mp found
        obtain ⟨before, after, split, size⟩ := ih there
        refine ⟨char :: before, after, congrArg (char :: ·) split, ?_⟩
        rw [utf8_cons, List.length_append, size, Nat.add_comm]

end Mneme.Library
