/-
A text in two encodings: the bytes of UTF-8 and the code units of UTF-16.

Both write a line feed as itself and nothing else with it, so a text splits into
lines alike; a character that is not ASCII takes more bytes than units.  Either
is decoded back, with a replacement for what is no character.
-/

import Mathlib.Data.List.DropRight

namespace Mneme.Library

/-- The code units of one character: one unit, or a surrogate pair. -/
def utf16Char (char : Char) : List UInt16 :=
  if char.toNat < 0x10000 then [UInt16.ofNat char.toNat]
  else
    [UInt16.ofNat (0xD800 + (char.toNat - 0x10000) / 0x400),
      UInt16.ofNat (0xDC00 + (char.toNat - 0x10000) % 0x400)]

def utf16 (text : List Char) : List UInt16 :=
  text.flatMap utf16Char

def utf8 (text : List Char) : List UInt8 :=
  text.flatMap String.utf8EncodeChar

/-- The characters written in one byte. -/
def IsAscii (char : Char) : Prop :=
  char.toNat < 0x80

instance (char : Char) : Decidable (IsAscii char) :=
  inferInstanceAs (Decidable (char.toNat < 0x80))

/-! ### One character -/

variable (char : Char)

theorem char_toNat_lt : char.toNat < 0x110000 := by
  have valid := char.valid
  change char.val.toNat < 0xd800 ∨ 0xdfff < char.val.toNat ∧ char.val.toNat < 0x110000 at valid
  change char.val.toNat < 0x110000
  omega

variable {char : Char}

theorem char_eq_newline (code : char.toNat = 10) : char = '\n' :=
  Char.toNat_inj.mp code

theorem newline_mem_utf16Char : 10 ∈ utf16Char char ↔ char = '\n' := by
  have bounded := char_toNat_lt char
  constructor
  · intro member
    unfold utf16Char at member
    split at member
    · next small =>
        have code := congrArg UInt16.toNat (List.mem_singleton.mp member)
        rw [UInt16.toNat_ofNat_of_lt' (by simpa using small)] at code
        exact char_eq_newline code.symm
    · next large =>
        simp only [List.mem_cons, List.not_mem_nil, or_false] at member
        cases member with
        | inl high =>
            have code := congrArg UInt16.toNat high
            rw [UInt16.toNat_ofNat_of_lt' (by change _ < 65536; omega)] at code
            change 10 = _ at code
            omega
        | inr low =>
            have code := congrArg UInt16.toNat low
            rw [UInt16.toNat_ofNat_of_lt' (by change _ < 65536; omega)] at code
            change 10 = _ at code
            omega
  · rintro rfl
    decide

theorem byte_toNat {number : Nat} (small : number < 256) : (UInt8.ofNat number).toNat = number :=
  UInt8.toNat_ofNat_of_lt' small

/-- A byte of ASCII is written for the character that it is the code of, alone. -/
theorem utf8Char_ascii {byte : UInt8}
    (member : byte ∈ String.utf8EncodeChar char) (ascii : byte.toNat < 0x80) :
    String.utf8EncodeChar char = [byte] ∧ char.toNat = byte.toNat := by
  have bounded := char_toNat_lt char
  change char.val.toNat < _ at bounded
  have high : ∀ number, 0x80 ≤ number → number < 256 → byte ≠ UInt8.ofNat number := by
    intro number large small same
    rw [same, byte_toNat small] at ascii
    omega
  unfold String.utf8EncodeChar at member ⊢
  dsimp only at member ⊢
  split at member
  · next one =>
      rw [if_pos one, List.mem_singleton.mp member, byte_toNat (by omega)]
      exact ⟨rfl, rfl⟩
  · exfalso
    split at member
    · simp only [List.mem_cons, List.not_mem_nil, or_false] at member
      rcases member with same | same
      all_goals exact high _ (by omega) (by omega) same
    · split at member
      · simp only [List.mem_cons, List.not_mem_nil, or_false] at member
        rcases member with same | same | same
        all_goals exact high _ (by omega) (by omega) same
      · simp only [List.mem_cons, List.not_mem_nil, or_false] at member
        rcases member with same | same | same | same
        all_goals exact high _ (by omega) (by omega) same

theorem newline_mem_utf8Char : 10 ∈ String.utf8EncodeChar char ↔ char = '\n' := by
  constructor
  · intro member
    exact char_eq_newline (utf8Char_ascii member (by decide)).2
  · rintro rfl
    decide

theorem ascii_lengths (ascii : IsAscii char) :
    (String.utf8EncodeChar char).length = (utf16Char char).length := by
  unfold IsAscii at ascii
  have one : char.val.toNat ≤ 0x7f := Nat.le_of_lt_succ ascii
  unfold utf16Char String.utf8EncodeChar
  dsimp only
  rw [if_pos one, if_pos (by omega)]
  rfl

theorem nonascii_lengths (wide : ¬ IsAscii char) :
    (utf16Char char).length < (String.utf8EncodeChar char).length := by
  unfold IsAscii at wide
  have many : ¬ char.val.toNat ≤ 0x7f := by
    change ¬ char.toNat ≤ 0x7f
    omega
  unfold utf16Char String.utf8EncodeChar
  dsimp only
  rw [if_neg many]
  split
  · split
    · simp
    · split
      · simp
      · next small _ large =>
          change ¬ char.toNat ≤ 0xffff at large
          omega
  · next pair =>
      change ¬ char.val.toNat < 0x10000 at pair
      rw [if_neg (by omega), if_neg (by omega)]
      simp

/-! ### Separated lists under an encoding

An encoding that writes the separator as one mark, and the mark for nothing else,
keeps the number of separators and the part before the first of them. -/

section Separated

variable {α β : Type} [DecidableEq α] [DecidableEq β]
variable {encode : α → List β} {separator : α} {mark : β}

theorem encoded_count (alone : encode separator = [mark])
    (only : ∀ item, mark ∈ encode item → item = separator) (items : List α) :
    (items.flatMap encode).count mark = items.count separator := by
  induction items with
  | nil => rfl
  | cons item items ih =>
      rw [List.flatMap_cons, List.count_append, ih]
      by_cases same : item = separator
      · rw [same, alone, List.count_cons_self, List.count_cons_self, List.count_nil]
        omega
      · rw [List.count_cons_of_ne same,
          List.count_eq_zero_of_not_mem (fun written => same (only item written)), Nat.zero_add]

theorem encoded_takeWhile (alone : encode separator = [mark])
    (only : ∀ item, mark ∈ encode item → item = separator) (items : List α) :
    (items.flatMap encode).takeWhile (· ≠ mark) =
      (items.takeWhile (· ≠ separator)).flatMap encode := by
  induction items with
  | nil => rfl
  | cons item items ih =>
      by_cases same : item = separator
      · rw [same, List.flatMap_cons, alone, List.takeWhile_cons_of_neg (by simp)]
        exact List.takeWhile_cons_of_neg (by simp)
      · have whole : ∀ unit ∈ encode item, decide (unit ≠ mark) = true := by
          intro unit written
          apply decide_eq_true
          rintro rfl
          exact same (only item written)
        rw [List.flatMap_cons, List.takeWhile_append_of_pos whole, ih,
          List.takeWhile_cons_of_pos (by simpa using same), List.flatMap_cons]

end Separated

/-! ### Texts -/

theorem utf16_append (first second : List Char) :
    utf16 (first ++ second) = utf16 first ++ utf16 second :=
  List.flatMap_append

theorem utf8_append (first second : List Char) :
    utf8 (first ++ second) = utf8 first ++ utf8 second :=
  List.flatMap_append

theorem utf16_count_newline (text : List Char) : (utf16 text).count 10 = text.count '\n' :=
  @encoded_count Char UInt16 _ _ utf16Char '\n' 10 rfl (fun _ => newline_mem_utf16Char.mp) text

theorem utf16_takeWhile_newline (text : List Char) :
    (utf16 text).takeWhile (· ≠ 10) = utf16 (text.takeWhile (· ≠ '\n')) :=
  @encoded_takeWhile Char UInt16 _ _ utf16Char '\n' 10 rfl (fun _ => newline_mem_utf16Char.mp)
    text

variable {text : List Char}

theorem newline_mem_utf16 : 10 ∈ utf16 text ↔ '\n' ∈ text := by
  rw [← List.count_pos_iff, utf16_count_newline, List.count_pos_iff]

theorem utf8_count_newline (text : List Char) : (utf8 text).count 10 = text.count '\n' :=
  @encoded_count Char UInt8 _ _ String.utf8EncodeChar '\n' 10 rfl
    (fun _ => newline_mem_utf8Char.mp) text

theorem utf16_length_le (text : List Char) : (utf16 text).length ≤ (utf8 text).length := by
  induction text with
  | nil => exact Nat.le_refl _
  | cons char text ih =>
      have first : (utf16Char char).length ≤ (String.utf8EncodeChar char).length := by
        by_cases ascii : IsAscii char
        · exact (ascii_lengths ascii).ge
        · exact (nonascii_lengths ascii).le
      unfold utf16 utf8 at *
      rw [List.flatMap_cons, List.flatMap_cons, List.length_append, List.length_append]
      omega

theorem length_le_utf16 (text : List Char) : text.length ≤ (utf16 text).length := by
  induction text with
  | nil => exact Nat.le_refl _
  | cons char text ih =>
      have one : 1 ≤ (utf16Char char).length := by
        unfold utf16Char
        split
        · exact Nat.le_refl _
        · exact Nat.le_succ _
      unfold utf16 at *
      rw [List.flatMap_cons, List.length_append, List.length_cons]
      omega

/-- The characters written in one code unit. -/
def IsBasic (char : Char) : Prop :=
  char.toNat < 0x10000

instance (char : Char) : Decidable (IsBasic char) :=
  inferInstanceAs (Decidable (char.toNat < 0x10000))

theorem utf16Char_length_basic (basic : IsBasic char) : (utf16Char char).length = 1 := by
  unfold IsBasic at basic
  unfold utf16Char
  rw [if_pos basic]
  rfl

theorem utf16Char_length_pair (pair : ¬ IsBasic char) : (utf16Char char).length = 2 := by
  unfold IsBasic at pair
  unfold utf16Char
  rw [if_neg pair]
  rfl

/-- As many units as characters, exactly where every character is basic. -/
theorem utf16_length_eq_iff (text : List Char) :
    (utf16 text).length = text.length ↔ ∀ char ∈ text, IsBasic char := by
  induction text with
  | nil => simp [utf16]
  | cons char text ih =>
      have more := length_le_utf16 text
      rw [List.forall_mem_cons, ← ih]
      unfold utf16 at *
      rw [List.flatMap_cons, List.length_append, List.length_cons]
      by_cases basic : IsBasic char
      · rw [utf16Char_length_basic basic, and_iff_right basic]
        omega
      · rw [utf16Char_length_pair basic]
        constructor
        · intro equal
          omega
        · intro both
          exact absurd both.1 basic

/-- The last unit is that of a basic character only where this is the last character. -/
theorem utf16_getLast_iff {last : Char} (basic : IsBasic last) (text : List Char) :
    (utf16 text).getLast? = some (UInt16.ofNat last.toNat) ↔ text.getLast? = some last := by
  unfold IsBasic at basic
  have code : (UInt16.ofNat last.toNat).toNat = last.toNat :=
    UInt16.toNat_ofNat_of_lt' (by simpa using basic)
  induction text using List.reverseRecOn with
  | nil => simp [utf16]
  | append_singleton before char _ =>
      have bounded := char_toNat_lt char
      have one : utf16 [char] = utf16Char char := by
        unfold utf16
        rw [List.flatMap_cons, List.flatMap_nil, List.append_nil]
      rw [utf16_append, List.getLast?_concat, Option.some.injEq, one]
      unfold utf16Char
      split
      · next small =>
          rw [List.getLast?_concat, Option.some.injEq]
          constructor
          · intro unit
            have codes := congrArg UInt16.toNat unit
            rw [code, UInt16.toNat_ofNat_of_lt' (by simpa using small)] at codes
            exact Char.toNat_inj.mp codes
          · intro same
            rw [same]
      · next large =>
          -- A low surrogate is not the code of a character.
          have valid := last.valid
          change last.toNat < 0xd800 ∨ 0xdfff < last.toNat ∧ last.toNat < 0x110000 at valid
          rw [List.append_cons, List.getLast?_concat, Option.some.injEq]
          constructor
          · intro unit
            have codes := congrArg UInt16.toNat unit
            rw [code, UInt16.toNat_ofNat_of_lt' (by change _ < 65536; omega)] at codes
            omega
          · intro same
            subst same
            exact absurd basic large

/-- As many units as bytes, exactly where every character is ASCII. -/
theorem lengths_eq_iff (text : List Char) :
    (utf8 text).length = (utf16 text).length ↔ ∀ char ∈ text, IsAscii char := by
  induction text with
  | nil => simp [utf8, utf16]
  | cons char text ih =>
      have rest := utf16_length_le text
      rw [List.forall_mem_cons, ← ih]
      unfold utf16 utf8 at *
      rw [List.flatMap_cons, List.flatMap_cons, List.length_append, List.length_append]
      by_cases ascii : IsAscii char
      · rw [ascii_lengths ascii, Nat.add_left_cancel_iff, and_iff_right ascii]
      · have more := nonascii_lengths ascii
        constructor
        · intro equal
          omega
        · intro both
          exact absurd both.1 ascii

/-! ### Decoding with replacement -/

/-- What stands for bytes or units that are no character. -/
def replacement : Char := '\uFFFD'

/-- A character begun: the bits so far, how many bytes it lacks, and the least
and the greatest that its next byte may be. -/
structure Begun where
  bits : Nat
  lacks : Nat
  low : Nat
  high : Nat

/-- A byte between two characters. -/
def leadByte (byte : Nat) : List Char × Option Begun :=
  if byte < 0x80 then ([Char.ofNat byte], none)
  else if byte < 0xC2 then ([replacement], none)
  else if byte < 0xE0 then ([], some ⟨byte - 0xC0, 1, 0x80, 0xBF⟩)
  else if byte < 0xF0 then
    ([], some ⟨byte - 0xE0, 2, if byte = 0xE0 then 0xA0 else 0x80,
      if byte = 0xED then 0x9F else 0xBF⟩)
  else if byte < 0xF5 then
    ([], some ⟨byte - 0xF0, 3, if byte = 0xF0 then 0x90 else 0x80,
      if byte = 0xF4 then 0x8F else 0xBF⟩)
  else ([replacement], none)

def decodeByte (begun : Option Begun) (byte : Nat) : List Char × Option Begun :=
  match begun with
  | none => leadByte byte
  | some begun =>
      if begun.low ≤ byte ∧ byte ≤ begun.high then
        if begun.lacks = 1 then ([Char.ofNat (begun.bits * 64 + (byte - 0x80))], none)
        else ([], some ⟨begun.bits * 64 + (byte - 0x80), begun.lacks - 1, 0x80, 0xBF⟩)
      else (replacement :: (leadByte byte).1, (leadByte byte).2)

def decodeFrom : Option Begun → List UInt8 → List Char
  | none, [] => []
  | some _, [] => [replacement]
  | begun, byte :: rest =>
      (decodeByte begun byte.toNat).1 ++ decodeFrom (decodeByte begun byte.toNat).2 rest

/-- A byte that cannot go on ends the character before it, which is then
replaced as a whole. -/
def utf8Lossy (bytes : List UInt8) : List Char :=
  decodeFrom none bytes

variable {chars text : List Char}

theorem decodeFrom_lead {byte : Nat} {begun : Option Begun}
    (small : byte < 256) (lead : leadByte byte = (chars, begun)) (rest : List UInt8) :
    decodeFrom none (UInt8.ofNat byte :: rest) = chars ++ decodeFrom begun rest := by
  rw [decodeFrom, byte_toNat small]
  unfold decodeByte
  rw [lead]

/-- A further byte, of six bits more. -/
theorem decodeFrom_next {begun : Begun} {six : Nat} (small : six < 0x40)
    (low : begun.low ≤ six + 0x80) (high : six + 0x80 ≤ begun.high) (rest : List UInt8) :
    decodeFrom (some begun) (UInt8.ofNat (six + 0x80) :: rest) =
      if begun.lacks = 1 then Char.ofNat (begun.bits * 64 + six) :: decodeFrom none rest
      else decodeFrom (some ⟨begun.bits * 64 + six, begun.lacks - 1, 0x80, 0xBF⟩) rest := by
  rw [decodeFrom, byte_toNat (by omega)]
  unfold decodeByte
  dsimp only
  rw [if_pos ⟨low, high⟩, Nat.add_sub_cancel]
  split
  · rfl
  · rfl

variable {code : Nat}

theorem decodeFrom_two (low : 0x7f < code) (high : code ≤ 0x7ff) (rest : List UInt8) :
    decodeFrom none (UInt8.ofNat (code / 64 % 0x20 + 0xc0) ::
        UInt8.ofNat (code % 0x40 + 0x80) :: rest) = Char.ofNat code :: decodeFrom none rest := by
  have lead : leadByte (code / 64 % 0x20 + 0xc0) =
      ([], some ⟨code / 64 % 0x20 + 0xc0 - 0xC0, 1, 0x80, 0xBF⟩) := by
    unfold leadByte
    rw [if_neg (by omega), if_neg (by omega), if_pos (by omega)]
  have whole : (code / 64 % 0x20 + 0xc0 - 0xC0) * 64 + code % 0x40 = code := by
    omega
  rw [decodeFrom_lead (by omega) lead, List.nil_append,
    decodeFrom_next (by omega) (by dsimp only; omega) (by dsimp only; omega)]
  dsimp only
  rw [if_pos rfl, whole]

theorem decodeFrom_three (low : 0x7ff < code) (high : code ≤ 0xffff)
    (valid : code < 0xd800 ∨ 0xdfff < code) (rest : List UInt8) :
    decodeFrom none (UInt8.ofNat (code / 4096 % 0x10 + 0xe0) ::
        UInt8.ofNat (code / 64 % 0x40 + 0x80) :: UInt8.ofNat (code % 0x40 + 0x80) :: rest) =
      Char.ofNat code :: decodeFrom none rest := by
  have lead : leadByte (code / 4096 % 0x10 + 0xe0) =
      ([], some ⟨code / 4096 % 0x10 + 0xe0 - 0xE0, 2,
        if code / 4096 % 0x10 + 0xe0 = 0xE0 then 0xA0 else 0x80,
        if code / 4096 % 0x10 + 0xe0 = 0xED then 0x9F else 0xBF⟩) := by
    unfold leadByte
    rw [if_neg (by omega), if_neg (by omega), if_neg (by omega), if_pos (by omega)]
  have whole : ((code / 4096 % 0x10 + 0xe0 - 0xE0) * 64 + code / 64 % 0x40) * 64 +
      code % 0x40 = code := by
    omega
  rw [decodeFrom_lead (by omega) lead, List.nil_append,
    decodeFrom_next (by omega) (by dsimp only; split <;> omega) (by dsimp only; split <;> omega)]
  dsimp only
  rw [if_neg (by omega),
    decodeFrom_next (by omega) (by dsimp only; omega) (by dsimp only; omega)]
  dsimp only
  rw [if_pos rfl, whole]

theorem decodeFrom_four (low : 0xffff < code) (high : code < 0x110000) (rest : List UInt8) :
    decodeFrom none (UInt8.ofNat (code / 262144 % 0x08 + 0xf0) ::
        UInt8.ofNat (code / 4096 % 0x40 + 0x80) :: UInt8.ofNat (code / 64 % 0x40 + 0x80) ::
          UInt8.ofNat (code % 0x40 + 0x80) :: rest) =
      Char.ofNat code :: decodeFrom none rest := by
  have lead : leadByte (code / 262144 % 0x08 + 0xf0) =
      ([], some ⟨code / 262144 % 0x08 + 0xf0 - 0xF0, 3,
        if code / 262144 % 0x08 + 0xf0 = 0xF0 then 0x90 else 0x80,
        if code / 262144 % 0x08 + 0xf0 = 0xF4 then 0x8F else 0xBF⟩) := by
    unfold leadByte
    rw [if_neg (by omega), if_neg (by omega), if_neg (by omega), if_neg (by omega),
      if_pos (by omega)]
  have whole : (((code / 262144 % 0x08 + 0xf0 - 0xF0) * 64 + code / 4096 % 0x40) * 64 +
      code / 64 % 0x40) * 64 + code % 0x40 = code := by
    omega
  rw [decodeFrom_lead (by omega) lead, List.nil_append,
    decodeFrom_next (by omega) (by dsimp only; split <;> omega) (by dsimp only; split <;> omega)]
  dsimp only
  rw [if_neg (by omega),
    decodeFrom_next (by omega) (by dsimp only; omega) (by dsimp only; omega)]
  dsimp only
  rw [if_neg (by omega),
    decodeFrom_next (by omega) (by dsimp only; omega) (by dsimp only; omega)]
  dsimp only
  rw [if_pos rfl, whole]

theorem decodeFrom_char (char : Char) (rest : List UInt8) :
    decodeFrom none (String.utf8EncodeChar char ++ rest) = char :: decodeFrom none rest := by
  have bounded := char_toNat_lt char
  have valid := char.valid
  change char.toNat < 0xd800 ∨ 0xdfff < char.toNat ∧ char.toNat < 0x110000 at valid
  have same : ∀ chars : List Char, char :: chars = Char.ofNat char.toNat :: chars := by
    intro chars
    rw [Char.ofNat_toNat]
  rw [same]
  unfold String.utf8EncodeChar
  dsimp only
  change decodeFrom none ((if char.toNat ≤ 0x7f then _ else _) ++ rest) = _
  split
  · next one =>
      have lead : leadByte char.toNat = ([Char.ofNat char.toNat], none) := by
        unfold leadByte
        rw [if_pos (by omega)]
      exact decodeFrom_lead (by omega) lead rest
  · next many =>
      change decodeFrom none ((if char.toNat ≤ 0x7ff then _ else _) ++ rest) = _
      split
      · next two => exact decodeFrom_two (by omega) two rest
      · next more =>
          change decodeFrom none ((if char.toNat ≤ 0xffff then _ else _) ++ rest) = _
          split
          · next three => exact decodeFrom_three (by omega) three (by omega) rest
          · next four => exact decodeFrom_four (by omega) bounded rest

theorem utf8Lossy_utf8 (text : List Char) : utf8Lossy (utf8 text) = text := by
  unfold utf8Lossy
  induction text with
  | nil => rfl
  | cons char text ih =>
      unfold utf8 at *
      rw [List.flatMap_cons, decodeFrom_char, ih]

/-! ### Code units -/

def IsLead (unit : UInt16) : Prop :=
  0xD800 ≤ unit.toNat ∧ unit.toNat < 0xDC00

def IsTrail (unit : UInt16) : Prop :=
  0xDC00 ≤ unit.toNat ∧ unit.toNat < 0xE000

instance (unit : UInt16) : Decidable (IsLead unit) :=
  inferInstanceAs (Decidable (_ ∧ _))

instance (unit : UInt16) : Decidable (IsTrail unit) :=
  inferInstanceAs (Decidable (_ ∧ _))

/-- The characters of the units; half a pair is replaced. -/
def utf16Lossy : List UInt16 → List Char
  | [] => []
  | [unit] => [if IsLead unit ∨ IsTrail unit then replacement else Char.ofNat unit.toNat]
  | unit :: next :: rest =>
      if IsLead unit ∧ IsTrail next then
        Char.ofNat (0x10000 + (unit.toNat - 0xD800) * 0x400 + (next.toNat - 0xDC00)) ::
          utf16Lossy rest
      else if IsLead unit ∨ IsTrail unit then replacement :: utf16Lossy (next :: rest)
      else Char.ofNat unit.toNat :: utf16Lossy (next :: rest)

theorem utf16Lossy_char (char : Char) (rest : List UInt16) :
    utf16Lossy (utf16Char char ++ rest) = char :: utf16Lossy rest := by
  have bounded := char_toNat_lt char
  have valid := char.valid
  change char.toNat < 0xd800 ∨ 0xdfff < char.toNat ∧ char.toNat < 0x110000 at valid
  unfold utf16Char
  split
  · next small =>
      have code : (UInt16.ofNat char.toNat).toNat = char.toNat :=
        UInt16.toNat_ofNat_of_lt' (by simpa using small)
      have noLead : ¬ IsLead (UInt16.ofNat char.toNat) := by
        unfold IsLead
        omega
      have noTrail : ¬ IsTrail (UInt16.ofNat char.toNat) := by
        unfold IsTrail
        omega
      cases rest with
      | nil =>
          change [_] = [char]
          rw [if_neg (not_or.mpr ⟨noLead, noTrail⟩), code, Char.ofNat_toNat]
      | cons next rest =>
          change utf16Lossy (_ :: next :: rest) = _
          rw [utf16Lossy, if_neg (fun both => noLead both.1),
            if_neg (not_or.mpr ⟨noLead, noTrail⟩), code, Char.ofNat_toNat]
  · next large =>
      have lead : (UInt16.ofNat (0xD800 + (char.toNat - 0x10000) / 0x400)).toNat =
          0xD800 + (char.toNat - 0x10000) / 0x400 :=
        UInt16.toNat_ofNat_of_lt' (by change _ < 65536; omega)
      have trail : (UInt16.ofNat (0xDC00 + (char.toNat - 0x10000) % 0x400)).toNat =
          0xDC00 + (char.toNat - 0x10000) % 0x400 :=
        UInt16.toNat_ofNat_of_lt' (by change _ < 65536; omega)
      have whole : 0x10000 + (0xD800 + (char.toNat - 0x10000) / 0x400 - 0xD800) * 0x400 +
          (0xDC00 + (char.toNat - 0x10000) % 0x400 - 0xDC00) = char.toNat := by
        omega
      change utf16Lossy (_ :: _ :: rest) = _
      rw [utf16Lossy, if_pos, lead, trail, whole, Char.ofNat_toNat]
      unfold IsLead IsTrail
      omega

theorem utf16Lossy_append (text : List Char) (rest : List UInt16) :
    utf16Lossy (utf16 text ++ rest) = text ++ utf16Lossy rest := by
  induction text with
  | nil => rfl
  | cons char text ih =>
      unfold utf16 at *
      rw [List.flatMap_cons, List.append_assoc, utf16Lossy_char, ih, List.cons_append]

theorem utf16Lossy_utf16 (text : List Char) : utf16Lossy (utf16 text) = text := by
  have whole := utf16Lossy_append text []
  rwa [List.append_nil, utf16Lossy, List.append_nil] at whole

/-! ### Cutting a text by its units -/

theorem utf16_head_whole {unit : UInt16}
    (first : (utf16 text).head? = some unit) : ¬ IsTrail unit := by
  cases text with
  | nil => cases first
  | cons char text =>
      have bounded := char_toNat_lt char
      have valid := char.valid
      change char.toNat < 0xd800 ∨ 0xdfff < char.toNat ∧ char.toNat < 0x110000 at valid
      unfold utf16 at first
      rw [List.flatMap_cons] at first
      unfold utf16Char at first
      unfold IsTrail
      split at first
      · next small =>
          cases first
          rw [UInt16.toNat_ofNat_of_lt' (by simpa using small)]
          omega
      · next large =>
          cases first
          rw [UInt16.toNat_ofNat_of_lt' (by change _ < 65536; omega)]
          omega

/-- A cut that leaves no pair in two is one between characters. -/
theorem utf16_cut {offset : Nat}
    (whole : ∀ unit, (utf16 text)[offset]? = some unit → ¬ IsTrail unit) :
    ∃ before after, text = before ++ after ∧ utf16 before = (utf16 text).take offset ∧
      utf16 after = (utf16 text).drop offset := by
  induction text generalizing offset with
  | nil =>
      refine ⟨[], [], rfl, ?_, ?_⟩
      · exact List.take_nil.symm
      · exact List.drop_nil.symm
  | cons char text ih =>
      have split : utf16 (char :: text) = utf16Char char ++ utf16 text := List.flatMap_cons
      by_cases past : (utf16Char char).length ≤ offset
      · rw [split, List.getElem?_append_right past] at whole
        obtain ⟨before, after, same, front, back⟩ := ih whole
        refine ⟨char :: before, after, congrArg (char :: ·) same, ?_, ?_⟩
        · rw [split, List.take_append, List.take_of_length_le past, ← front]
          exact List.flatMap_cons
        · rw [split, List.drop_append, List.drop_of_length_le past, back, List.nil_append]
      · rcases Nat.eq_zero_or_pos offset with none | some
        · exact ⟨[], char :: text, rfl, by rw [none]; rfl, by rw [none]; rfl⟩
        · exfalso
          have bounded := char_toNat_lt char
          rw [split] at whole
          unfold utf16Char at past whole
          split at past
          · exact past some
          · next large =>
              rw [if_neg large] at whole
              have one : offset = 1 := by
                simp only [List.length_cons, List.length_nil] at past
                omega
              rw [one] at whole
              apply whole _ rfl
              unfold IsTrail
              rw [UInt16.toNat_ofNat_of_lt' (by change _ < 65536; omega)]
              omega

/-- The characters that a run of units begins with are told by the units. -/
theorem utf16_front {rest : List UInt16} (same : utf16 text ++ rest = utf16 chars) :
    ∃ after, chars = text ++ after ∧ rest = utf16 after := by
  have decoded := congrArg utf16Lossy same
  rw [utf16Lossy_append, utf16Lossy_utf16] at decoded
  refine ⟨utf16Lossy rest, decoded.symm, ?_⟩
  rw [← decoded, utf16_append] at same
  exact List.append_cancel_left same

/-- A slice that is a text is that text between the characters around it, if it
is not an empty one inside a pair. -/
theorem utf16_slice {start stop : Nat} (ordered : start ≤ stop)
    (same : ((utf16 chars).take stop).drop start = utf16 text)
    (apart : text = [] → ∀ unit, (utf16 chars)[start]? = some unit → ¬ IsTrail unit) :
    ∃ before after, chars = before ++ text ++ after ∧
      utf16 before = (utf16 chars).take start ∧ utf16 after = (utf16 chars).drop stop := by
  have whole : ∀ unit, (utf16 chars)[start]? = some unit → ¬ IsTrail unit := by
    intro unit there
    by_cases empty : text = []
    · exact apart empty unit there
    · have first : (utf16 text).head? = some unit := by
        have some_unit : 0 < (((utf16 chars).take stop).drop start).length := by
          rw [same]
          exact Nat.lt_of_lt_of_le (List.length_pos_iff.mpr empty) (length_le_utf16 text)
        rw [List.length_drop, List.length_take] at some_unit
        rw [← same, List.head?_drop, List.getElem?_take_of_lt (by omega)]
        exact there
      exact utf16_head_whole first
  obtain ⟨before, rest, split, front, back⟩ := utf16_cut whole
  rw [List.drop_take, ← back] at same
  obtain ⟨after, more, behind⟩ := utf16_front
    (show utf16 text ++ (utf16 rest).drop (stop - start) = utf16 rest by
      rw [← same, List.take_append_drop])
  refine ⟨before, after, ?_, front, ?_⟩
  · rw [split, more, List.append_assoc]
  · rw [← behind, back, List.drop_drop, Nat.add_sub_cancel' ordered]

end Mneme.Library
