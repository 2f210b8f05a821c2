/-
The fingerprint of a snippet as the server computes it.

The server's copy of tokens, hashes, sketches and silhouette is compared with the
brain's.  Its characters of words are those of ASCII, so the two part exactly at a
letter or digit beyond ASCII.
-/

import Mneme.Brain.Federated

namespace Mneme.Mcp.FederatedSimilar

open Library Brain

/-- A text as the server holds it: a string has fewer than 2^31 code units. -/
structure SourceText where
  chars : List Char
  held : (utf16 chars).length < 2 ^ 31

def MINHASH_K : Nat := 128

def isAlnum (char : Char) : Bool :=
  Federated.asciiAlphanumeric char || char = '_'

def tokenize (content : List Char) : List Federated.Token :=
  wordsOf isAlnum (fun char => [char.toLower]) content

section Hashes

variable (sha256 : List UInt8 → Federated.Digest)

def hash64 (input : List Char) : Nat :=
  let hash := (sha256 (utf8 input)).toList
  (List.range 8).foldl
    (fun out index => out ||| (hash[index]?.getD 0).toNat <<< (8 * index)) 0

def hash32Salted (input : List Char) (salt : Nat) : Nat :=
  leAt 4 0 (sha256 (leBytes 4 (salt % 2 ^ 32) ++ utf8 input)).toList

def countBits (bits : Vector Int 64) (token : Federated.Token) : Vector Int 64 :=
  let hash := hash64 sha256 token
  bits.mapIdx fun index bit => bit + if (hash >>> index) &&& 1 = 1 then 1 else -1

def thresholdBits (bits : Vector Int 64) : Nat :=
  (List.finRange 64).foldl
    (fun (out : Nat) (index : Fin 64) =>
      if 0 < bits.get index then out ||| 1 <<< index.val else out) 0

def simhash64 (tokens : List Federated.Token) : Nat :=
  if tokens = [] then 0
  else thresholdBits (tokens.foldl (countBits sha256) (Vector.replicate 64 0))

def lowerSlots (sketch : List UInt32) (token : Federated.Token) : List UInt32 :=
  sketch.mapIdx fun index slot =>
    let hash := hash32Salted sha256 token index
    if hash < slot.toNat then UInt32.ofNat hash else slot

def minhashK (tokens : List Federated.Token) (k : Nat) : List UInt32 :=
  let sketch := List.replicate k (UInt32.ofNat 0xFFFFFFFF)
  if tokens = [] then sketch else tokens.foldl (lowerSlots sha256) sketch

end Hashes

def KEEP : List String :=
  ["fn", "function", "def", "class", "impl", "trait", "struct", "enum", "pub", "async",
    "await", "return", "if", "else", "for", "while", "match", "try", "catch", "throw",
    "Result", "Option", "Vec", "String", "self", "let", "const", "var", "use", "import"]

def normaliseShape (content : List Char) : List Char :=
  Federated.shapeWith isAlnum KEEP "()[]{}<>,;:&*?!|-=".toList (fun out => (utf16 out).length)
    content

/-- The numbers of a stored sketch.  A length beyond the exact numbers is longer
than any buffer, so rounding does not change the answer. -/
def decodeMinhashBlob (blob : List UInt8) : List UInt32 :=
  if blob.length < 8 then []
  else
    let length := leAt 4 0 blob + leAt 4 4 blob * 0x100000000
    if blob.length < 8 + length * 4 then []
    else (List.range length).map fun index => UInt32.ofNat (leAt 4 (8 + index * 4) blob)

/-! ### Hashes and sketches -/

section Hashes

variable (sha256 : List UInt8 → Federated.Digest)

theorem hash64_eq (token : Federated.Token) :
    (Federated.hash64 sha256 (utf8 token)).toNat = hash64 sha256 token := by
  rw [Federated.hash64_toNat]
  exact (shifted_bytes _ 8).symm

theorem hash32Salted_eq (token : Federated.Token) (index : Nat) :
    (Federated.hash32Salted sha256 (utf8 token) (UInt32.ofNat index)).toNat =
      hash32Salted sha256 token index := by
  rw [Federated.hash32Salted_toNat, UInt32.toNat_ofNat']
  rfl

theorem lowerSlots_eq (sketch : List UInt32) (token : Federated.Token) :
    Federated.lowerSlots sha256 sketch token = lowerSlots sha256 sketch token := by
  unfold Federated.lowerSlots lowerSlots
  congr
  funext index slot
  dsimp only
  rw [← hash32Salted_eq, UInt32.ofNat_toNat]
  exact if_congr UInt32.lt_iff_toNat_lt rfl rfl

theorem minhashK_eq (tokens : List Federated.Token) (k : Nat) :
    Federated.minhashK sha256 tokens k = minhashK sha256 tokens k := by
  have steps : Federated.lowerSlots sha256 = lowerSlots sha256 := by
    funext sketch token
    exact lowerSlots_eq sha256 sketch token
  unfold Federated.minhashK minhashK
  rw [steps]

end Hashes

/-! ### Counters -/

theorem get_eq {α : Type} {n : Nat} (values : Vector α n) (index : Fin n) :
    values.get index = values[index.val] := rfl

/-- A 32-bit counter and an exact one agree while they stay within a bound. -/
def Counts (bound : Nat) (bits : Vector Int32 64) (counts : Vector Int 64) : Prop :=
  ∀ index : Fin 64, (bits.get index).toInt = counts.get index ∧ (counts.get index).natAbs ≤ bound

theorem counts_start : Counts 0 (Vector.replicate 64 0) (Vector.replicate 64 0) := by
  intro index
  simp [get_eq]

theorem bit_eq (hash : UInt64) (index : Fin 64) :
    (hash >>> UInt64.ofNat index) &&& 1 = 1 ↔ (hash.toNat >>> index.val) &&& 1 = 1 := by
  have place : (UInt64.ofNat index.val).toNat % 64 = index.val := by
    rw [UInt64.toNat_ofNat']
    omega
  rw [← UInt64.toNat_inj, UInt64.toNat_and, UInt64.toNat_shiftRight, place]
  rfl

variable {bits : Vector Int32 64} {counts : Vector Int 64} {bound : Nat}

variable (sha256 : List UInt8 → Federated.Digest)

/-- No counter passes its width while fewer than 2^31 tokens were counted. -/
theorem counts_step (token : Federated.Token)
    (room : bound + 1 < 2 ^ 31) (same : Counts bound bits counts) :
    Counts (bound + 1) (Federated.countBits sha256 bits token)
      (countBits sha256 counts token) := by
  intro index
  obtain ⟨equal, small⟩ := same index
  unfold Federated.countBits countBits
  dsimp only
  simp only [get_eq, Vector.getElem_mapIdx] at equal small ⊢
  rw [← hash64_eq]
  by_cases set : (Federated.hash64 sha256 (utf8 token) >>> UInt64.ofNat index) &&& 1 = 1
  · rw [if_pos set, if_pos ((bit_eq _ index).mp set), Int32.toInt_add, equal]
    have one : (1 : Int32).toInt = 1 := by decide
    rw [one, Int.bmod_eq_of_le (by omega) (by omega)]
    exact ⟨rfl, by omega⟩
  · rw [if_neg set, if_neg (fun bit => set ((bit_eq _ index).mpr bit)), Int32.toInt_sub, equal]
    have one : (1 : Int32).toInt = 1 := by decide
    rw [one, Int.bmod_eq_of_le (by omega) (by omega)]
    exact ⟨rfl, by omega⟩

theorem counts_fold (tokens : List Federated.Token)
    (room : bound + tokens.length < 2 ^ 31) (same : Counts bound bits counts) :
    Counts (bound + tokens.length) (tokens.foldl (Federated.countBits sha256) bits)
      (tokens.foldl (countBits sha256) counts) := by
  induction tokens generalizing bound bits counts with
  | nil => exact same
  | cons token tokens ih =>
      rw [List.length_cons] at room ⊢
      have next := ih (by omega) (counts_step sha256 token (by omega) same)
      rw [List.foldl_cons, List.foldl_cons, ← Nat.add_assoc, Nat.add_right_comm]
      exact next

theorem thresholdBits_eq (same : Counts bound bits counts) :
    (Federated.thresholdBits bits).toNat = thresholdBits counts := by
  unfold Federated.thresholdBits thresholdBits
  apply @List.foldl_rel _ _ _ _ _ _ _ _ (fun (out : UInt64) (number : Nat) => out.toNat = number)
    (by rfl)
  intro index _ out number equal
  have sign : 0 < bits[index] ↔ 0 < counts.get index := by
    rw [← (same index).1, Int32.lt_iff_toInt_lt]
    rfl
  have place : (UInt64.ofNat index.val).toNat % 64 = index.val := by
    rw [UInt64.toNat_ofNat']
    omega
  have below : 1 <<< index.val < 2 ^ 64 := by
    rw [Nat.one_shiftLeft]
    exact Nat.pow_lt_pow_right (by decide) index.isLt
  by_cases positive : 0 < counts.get index
  · rw [if_pos positive, if_pos (sign.mpr positive), UInt64.toNat_or, UInt64.toNat_shiftLeft,
      place, equal, UInt64.toNat_one, Nat.mod_eq_of_lt below]
  · rw [if_neg positive, if_neg (fun above => positive (sign.mp above)), equal]

theorem simhash64_eq {tokens : List Federated.Token} (few : tokens.length < 2 ^ 31) :
    (Federated.simhash64 sha256 tokens).toNat = simhash64 sha256 tokens := by
  unfold Federated.simhash64 simhash64
  split
  · rfl
  · exact thresholdBits_eq (counts_fold sha256 tokens (by omega) counts_start)

/-! ### The stored sketch -/

theorem serialize_eq (sketch : List UInt32) :
    Federated.serialize sketch =
      leBytes 8 sketch.length ++ (sketch.map UInt32.toNat).flatMap (leBytes 4) := by
  unfold Federated.serialize
  rw [List.flatMap_map]

/-- The server reads back every sketch the brain stores. -/
theorem decode_serialize {sketch : List UInt32} (fits : sketch.length < 2 ^ 64) :
    decodeMinhashBlob (Federated.serialize sketch) = sketch := by
  have size : (Federated.serialize sketch).length = 8 + sketch.length * 4 := by
    rw [serialize_eq, List.length_append, leBytes_length, leBytes_flatMap_length, List.length_map]
  have halves : leBytes 8 sketch.length =
      leBytes 4 sketch.length ++ leBytes 4 (sketch.length / 256 ^ 4) := leBytes_add 4 4 _
  have low : leAt 4 0 (Federated.serialize sketch) = sketch.length % 256 ^ 4 := by
    rw [serialize_eq, halves, List.append_assoc]
    exact @leAt_append 4 0 [] rfl _ _
  have high : leAt 4 4 (Federated.serialize sketch) = sketch.length / 256 ^ 4 % 256 ^ 4 := by
    rw [serialize_eq, halves, List.append_assoc]
    exact leAt_append (leBytes_length 4 _) _ _
  have length : leAt 4 0 (Federated.serialize sketch) +
      leAt 4 4 (Federated.serialize sketch) * 0x100000000 = sketch.length := by
    rw [low, high]
    omega
  unfold decodeMinhashBlob
  dsimp only
  rw [length, size, if_neg (by omega), if_neg (by omega)]
  apply List.ext_getElem
  · rw [List.length_map, List.length_range]
  · intro index _ within
    rw [List.getElem_map, List.getElem_range, serialize_eq,
      @leAt_flatMap 4 index _ _ _ (by rwa [List.length_map]) (by rw [leBytes_length]),
      List.getElem_map]
    have word : sketch[index].toNat % 256 ^ 4 = sketch[index].toNat :=
      Nat.mod_eq_of_lt sketch[index].toNat_lt
    rw [word, UInt32.ofNat_toNat]

/-! ### Tokens and silhouettes -/

section Agreement

variable (tables : Federated.UnicodeTables)

/-- No letter or digit beyond ASCII. -/
def PlainText (content : List Char) : Prop :=
  ∀ char ∈ content, tables.alphanumeric char = true → IsAscii char

theorem isAlnum_ascii {char : Char} (inside : isAlnum char = true) : IsAscii char := by
  unfold isAlnum Federated.asciiAlphanumeric at inside
  simp only [Bool.or_eq_true, Bool.and_eq_true, decide_eq_true_eq, Char.le_def] at inside
  rcases inside with ((⟨_, high⟩ | ⟨_, high⟩) | ⟨_, high⟩) | underscore
  · exact Nat.lt_of_le_of_lt (UInt32.le_iff_toNat_le.mp high) (by decide)
  · exact Nat.lt_of_le_of_lt (UInt32.le_iff_toNat_le.mp high) (by decide)
  · exact Nat.lt_of_le_of_lt (UInt32.le_iff_toNat_le.mp high) (by decide)
  · rw [underscore]
    decide

theorem wordChar_ascii {char : Char} (ascii : IsAscii char) :
    Federated.wordChar tables char = isAlnum char := by
  unfold Federated.wordChar isAlnum
  rw [tables.alphanumeric_ascii char ascii]

variable {tables}

variable {content : List Char}

theorem wordChar_plain (plain : PlainText tables content) :
    ∀ char ∈ content, Federated.wordChar tables char = isAlnum char := by
  intro char member
  by_cases ascii : IsAscii char
  · exact wordChar_ascii tables ascii
  · have outside : isAlnum char = false := by
      cases inside : isAlnum char with
      | false => rfl
      | true => exact absurd (isAlnum_ascii inside) ascii
    have unlisted : tables.alphanumeric char = false := by
      cases listed : tables.alphanumeric char with
      | false => rfl
      | true => exact absurd (plain char member listed) ascii
    rw [outside]
    unfold isAlnum at outside
    unfold Federated.wordChar
    rw [unlisted, Bool.false_or]
    exact (Bool.or_eq_false_iff.mp outside).2

theorem tokenize_plain (plain : PlainText tables content) :
    Federated.tokenize tables content = tokenize content := by
  apply wordsOf_congr (wordChar_plain plain)
  intro char member inside
  rw [wordChar_plain plain char member] at inside
  exact tables.lowercase_ascii char (isAlnum_ascii inside)

theorem normaliseShape_plain (plain : PlainText tables content) :
    Federated.normaliseShape tables content = normaliseShape content := by
  apply Federated.shapeWith_congr Federated.KEEP_ascii Federated.delimiters_ascii
  · intro out ascii
    exact (lengths_eq_iff out).mpr ascii
  · exact wordChar_plain plain

variable (tables)

/-- The brain spells every character the server spells, and those beyond ASCII too. -/
theorem spelled_char (char : Char) :
    (if isAlnum char = true then 1 else 0) +
        (if tables.alphanumeric char = true ∧ ¬ IsAscii char then 1 else 0) ≤
      if Federated.wordChar tables char = true then (tables.lowercase char).length else 0 := by
  have spelled := List.length_pos_of_ne_nil (tables.lowercase_nonempty char)
  by_cases ascii : IsAscii char
  · have known : ¬ (tables.alphanumeric char = true ∧ ¬ IsAscii char) := fun both => both.2 ascii
    rw [wordChar_ascii tables ascii, if_neg known]
    split
    · exact spelled
    · exact Nat.le_refl _
  · rw [if_neg (fun inside => ascii (isAlnum_ascii inside))]
    split
    · next listed =>
        have inside : Federated.wordChar tables char = true := by
          unfold Federated.wordChar
          rw [listed.1, Bool.true_or]
        rw [if_pos inside]
        omega
    · omega

theorem filter_flatMap_length {test : Char → Bool} {spell : Char → List Char} (char : Char)
    (content : List Char) :
    (((char :: content).filter test).flatMap spell).length =
      (if test char = true then (spell char).length else 0) +
        ((content.filter test).flatMap spell).length := by
  rw [List.filter_cons]
  split
  · rw [List.flatMap_cons, List.length_append]
  · rw [Nat.zero_add]

theorem spelled_le (content : List Char) :
    ((content.filter isAlnum).flatMap fun char => [char.toLower]).length ≤
      ((content.filter (Federated.wordChar tables)).flatMap tables.lowercase).length := by
  induction content with
  | nil => exact Nat.le_refl _
  | cons char content ih =>
      have here := spelled_char tables char
      rw [filter_flatMap_length, filter_flatMap_length]
      exact Nat.add_le_add (Nat.le_trans (Nat.le_add_right _ _) here) ih

/-- Where both spell as many characters, the text is plain. -/
theorem plain_of_spelled
    (equal : ((content.filter isAlnum).flatMap fun char => [char.toLower]).length =
      ((content.filter (Federated.wordChar tables)).flatMap tables.lowercase).length) :
    PlainText tables content := by
  induction content with
  | nil => exact fun char member => absurd member List.not_mem_nil
  | cons char content ih =>
      have here := spelled_char tables char
      have rest := spelled_le tables content
      rw [filter_flatMap_length, filter_flatMap_length] at equal
      have one : [char.toLower].length = 1 := rfl
      rw [one] at equal
      intro other member listed
      cases member with
      | head =>
          by_contra wide
          rw [if_pos (And.intro listed wide)] at here
          omega
      | tail _ later => exact ih (by omega) other later listed

theorem tokenize_eq_iff (content : List Char) :
    Federated.tokenize tables content = tokenize content ↔ PlainText tables content := by
  constructor
  · intro same
    have spelled := congrArg (fun tokens => (List.flatten tokens).length) same
    rw [Federated.tokenize_flatten] at spelled
    unfold tokenize at spelled
    rw [wordsOf_flatten] at spelled
    exact plain_of_spelled tables spelled.symm
  · exact tokenize_plain

theorem tokenize_length (content : SourceText) : (tokenize content.chars).length < 2 ^ 31 := by
  have words : (tokenize content.chars).length ≤ content.chars.length := wordsOf_length _
  have units : content.chars.length ≤ (utf16 content.chars).length :=
    length_le_utf16 content.chars
  have held := content.held
  omega

end Agreement

/-! ### Bit-identical fingerprints -/

/-- What both sides compute from one text, and the sketch as it is read back. -/
structure BitIdentical (tables : Federated.UnicodeTables)
    (sha256 : List UInt8 → Federated.Digest) (text : SourceText) : Prop where
  tokens : Federated.tokenize tables text.chars = tokenize text.chars
  simhash : (Federated.simhash64 sha256 (Federated.tokenize tables text.chars)).toNat =
    simhash64 sha256 (tokenize text.chars)
  minhash : Federated.minhashK sha256 (Federated.tokenize tables text.chars)
      Federated.MINHASH_K =
    minhashK sha256 (tokenize text.chars) MINHASH_K
  shape : Federated.normaliseShape tables text.chars = normaliseShape text.chars
  stored : decodeMinhashBlob (Federated.serialize (Federated.minhashK sha256
      (Federated.tokenize tables text.chars) Federated.MINHASH_K)) =
    Federated.minhashK sha256 (Federated.tokenize tables text.chars) Federated.MINHASH_K

/-- The two fingerprints are the same exactly for a text without letters or digits
beyond ASCII. -/
theorem bit_identical_iff (tables : Federated.UnicodeTables)
    (sha256 : List UInt8 → Federated.Digest) (text : SourceText) :
    BitIdentical tables sha256 text ↔ PlainText tables text.chars := by
  constructor
  · intro same
    exact (tokenize_eq_iff tables text.chars).mp same.tokens
  · intro plain
    have tokens := tokenize_plain plain
    have sketch := Federated.minhashK_length sha256
      (Federated.tokenize tables text.chars) Federated.MINHASH_K
    refine { tokens := tokens, simhash := ?_, minhash := ?_, shape := ?_, stored := ?_ }
    · rw [tokens]
      exact simhash64_eq sha256 (tokenize_length text)
    · rw [tokens]
      exact minhashK_eq sha256 _ _
    · exact normaliseShape_plain plain
    · apply decode_serialize
      rw [sketch]
      decide

/-- Tables in which one letter lies beyond ASCII. -/
def accentTables : Federated.UnicodeTables where
  alphanumeric char := Federated.asciiAlphanumeric char || char = 'é'
  lowercase char := [char.toLower]
  alphanumeric_ascii := by
    intro char ascii
    have other : char ≠ 'é' := by
      rintro rfl
      exact absurd ascii (by decide)
    rw [decide_eq_false other, Bool.or_false]
  lowercase_ascii := fun _ _ => rfl
  lowercase_nonempty := fun _ => List.cons_ne_nil _ _

/-- In `café` the brain reads one word to its end, the server up to the accent. -/
theorem accent_separates :
    ¬ ∃ sha256 : List UInt8 → Federated.Digest,
      BitIdentical accentTables sha256 { chars := "café".toList, held := by decide } := by
  intro ⟨_, same⟩
  have tokens := same.tokens
  revert tokens
  decide

end Mneme.Mcp.FederatedSimilar
