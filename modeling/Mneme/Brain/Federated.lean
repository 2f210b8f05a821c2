/-
Fingerprints of source text: tokens, SimHash, MinHash and the silhouette.

Which characters are alphanumeric, and their lower case, is decided by the tables
of Unicode; the hash function is a parameter.  A sketch is stored as its length
and its words, lowest byte first.
-/

import Mneme.Library.Encodings
import Mneme.Library.LittleEndian
import Mneme.Library.Words

namespace Mneme.Brain.Federated

open Library

abbrev Token := List Char

/-- The letters and digits of ASCII. -/
def asciiAlphanumeric (char : Char) : Bool :=
  ('A' ≤ char && char ≤ 'Z') || ('a' ≤ char && char ≤ 'z') || ('0' ≤ char && char ≤ '9')

/-- The tables behind `is_alphanumeric` and `to_lowercase`; on ASCII they are fixed. -/
structure UnicodeTables where
  alphanumeric : Char → Bool
  lowercase : Char → List Char
  alphanumeric_ascii : ∀ char, IsAscii char → alphanumeric char = asciiAlphanumeric char
  lowercase_ascii : ∀ char, IsAscii char → lowercase char = [char.toLower]
  lowercase_nonempty : ∀ char, lowercase char ≠ []

theorem toLower_ascii (char : Char) (_ : IsAscii char) : [char.toLower] = [char.toLower] :=
  rfl

theorem toLower_spelled (char : Char) : [char.toLower] ≠ [] :=
  List.cons_ne_nil _ _

/-- Letters and digits of ASCII alone. -/
def englishTables : UnicodeTables where
  alphanumeric := asciiAlphanumeric
  lowercase char := [char.toLower]
  alphanumeric_ascii := fun _ _ => rfl
  lowercase_ascii := toLower_ascii
  lowercase_nonempty := toLower_spelled

abbrev Digest := Vector UInt8 32

def MINHASH_K : Nat := 128

/-! ### Tokens -/

def wordChar (tables : UnicodeTables) (char : Char) : Bool :=
  tables.alphanumeric char || char = '_'

def tokenize (tables : UnicodeTables) (content : List Char) : List Token :=
  wordsOf (wordChar tables) tables.lowercase content

/-! ### Hashes -/

section Hashes

variable (sha256 : List UInt8 → Digest)

def hash64 (bytes : List UInt8) : UInt64 :=
  UInt64.ofNat (leValue ((sha256 bytes).toList.take 8))

def hash32Salted (bytes : List UInt8) (salt : UInt32) : UInt32 :=
  UInt32.ofNat (leValue ((sha256 (leBytes 4 salt.toNat ++ bytes)).toList.take 4))

/-- One token moves every counter up or down. -/
def countBits (bits : Vector Int32 64) (token : Token) : Vector Int32 64 :=
  let hash := hash64 sha256 (utf8 token)
  bits.mapIdx fun index bit =>
    if (hash >>> UInt64.ofNat index) &&& 1 = 1 then bit + 1 else bit - 1

/-- The bits whose counter is positive. -/
def thresholdBits (bits : Vector Int32 64) : UInt64 :=
  (List.finRange 64).foldl
    (fun (out : UInt64) (index : Fin 64) =>
      if 0 < bits[index] then out ||| 1 <<< UInt64.ofNat index else out) 0

def simhash64 (tokens : List Token) : UInt64 :=
  if tokens = [] then 0
  else thresholdBits (tokens.foldl (countBits sha256) (Vector.replicate 64 0))

/-- Each slot keeps the least hash under its own salt. -/
def lowerSlots (sketch : List UInt32) (token : Token) : List UInt32 :=
  sketch.mapIdx fun index slot =>
    let hash := hash32Salted sha256 (utf8 token) (UInt32.ofNat index)
    if hash < slot then hash else slot

def minhashK (tokens : List Token) (k : Nat) : List UInt32 :=
  let sketch := List.replicate k (UInt32.ofNat 0xFFFFFFFF)
  if tokens = [] then sketch else tokens.foldl (lowerSlots sha256) sketch

end Hashes

/-- The stored form of a sketch: its length, then its words. -/
def serialize (sketch : List UInt32) : List UInt8 :=
  leBytes 8 sketch.length ++ sketch.flatMap fun slot => leBytes 4 slot.toNat

/-! ### The silhouette -/

/-- A word that is kept follows a blank, except at the start. -/
def keepWord (keep : List String) (out current : List Char) : List Char :=
  if String.ofList current ∈ keep then
    (if out = [] then out else out ++ [' ']) ++ current
  else out

/-- Words and delimiters up to the length limit, with the word that is open there. -/
def shapeLoop (word : Char → Bool) (keep : List String) (delimiters : List Char)
    (length : List Char → Nat) (out current : List Char) :
    List Char → List Char × List Char
  | [] => (out, current)
  | char :: rest =>
      let out' :=
        if word char = true then out
        else
          (if current = [] then out else keepWord keep out current) ++
            if char ∈ delimiters then [char] else []
      let current' := if word char = true then current ++ [char] else []
      -- The word that is open here is still looked at after the loop.
      if 512 < length out' then (out', current')
      else shapeLoop word keep delimiters length out' current' rest

def shapeWith (word : Char → Bool) (keep : List String) (delimiters : List Char)
    (length : List Char → Nat) (content : List Char) : List Char :=
  let last := shapeLoop word keep delimiters length [] [] content
  if last.2 = [] then last.1 else keepWord keep last.1 last.2

def KEEP : List String :=
  ["fn", "function", "def", "class", "impl", "trait", "struct", "enum", "pub", "async",
    "await", "return", "if", "else", "for", "while", "match", "try", "catch", "throw",
    "Result", "Option", "Vec", "String", "self", "let", "const", "var", "use", "import"]

def delimiters : List Char :=
  ['(', ')', '[', ']', '{', '}', '<', '>', ',', ';', ':', '&', '*', '?', '!', '|', '-', '=']

def normaliseShape (tables : UnicodeTables) (content : List Char) : List Char :=
  shapeWith (wordChar tables) KEEP delimiters (fun out => (utf8 out).length) content

/-! ### The fingerprint of a text -/

structure PatternFingerprint where
  patternKind : String
  simhash : UInt64
  minhash : List UInt32
  astShape : List Char
  spanTokens : UInt32
  createdAt : Int

def computeFingerprint (tables : UnicodeTables) (sha256 : List UInt8 → Digest) (now : Int)
    (content : List Char) (patternKind : String) : PatternFingerprint :=
  let tokens := tokenize tables content
  { patternKind := patternKind
    simhash := simhash64 sha256 tokens
    minhash := minhashK sha256 tokens MINHASH_K
    astShape := normaliseShape tables content
    spanTokens := UInt32.ofNat tokens.length
    createdAt := now }

/-! ### Facts about the parts -/

/-- Every character of a token stems from a character of the text, at least one from each. -/
theorem tokenize_flatten (tables : UnicodeTables) (content : List Char) :
    (tokenize tables content).flatten =
      (content.filter (wordChar tables)).flatMap tables.lowercase :=
  wordsOf_flatten content

variable (sha256 : List UInt8 → Digest)

theorem hash64_toNat (bytes : List UInt8) :
    (hash64 sha256 bytes).toNat = leValue ((sha256 bytes).toList.take 8) := by
  have small := leValue_lt ((sha256 bytes).toList.take 8)
  have width : ((sha256 bytes).toList.take 8).length = 8 := by simp
  rw [width] at small
  exact UInt64.toNat_ofNat_of_lt' small

theorem hash32Salted_toNat (bytes : List UInt8) (salt : UInt32) :
    (hash32Salted sha256 bytes salt).toNat =
      leValue ((sha256 (leBytes 4 salt.toNat ++ bytes)).toList.take 4) := by
  have small := leValue_lt ((sha256 (leBytes 4 salt.toNat ++ bytes)).toList.take 4)
  have width : ((sha256 (leBytes 4 salt.toNat ++ bytes)).toList.take 4).length = 4 := by simp
  rw [width] at small
  exact UInt32.toNat_ofNat_of_lt' small

/-! ### What a silhouette depends on -/

section Silhouette

variable {keep : List String} {delimiters : List Char}

variable {current out content : List Char}

theorem keepWord_ascii (words : ∀ text ∈ keep, ∀ char ∈ text.toList, IsAscii char)
    (before : ∀ char ∈ out, IsAscii char) : ∀ char ∈ keepWord keep out current, IsAscii char := by
  unfold keepWord
  split
  · next kept =>
      intro char member
      rcases List.mem_append.mp member with earlier | inside
      · split at earlier
        · exact before char earlier
        · rcases List.mem_append.mp earlier with old | blank
          · exact before char old
          · rw [List.mem_singleton.mp blank]
            decide
      · apply words _ kept char
        rwa [String.toList_ofList]
  · exact before

variable {length size : List Char → Nat}

variable {word other : Char → Bool}

theorem shapeLoop_congr (words : ∀ text ∈ keep, ∀ char ∈ text.toList, IsAscii char)
    (marks : ∀ char ∈ delimiters, IsAscii char)
    (lengths : ∀ out, (∀ char ∈ out, IsAscii char) → length out = size out)
    (tests : ∀ char ∈ content, word char = other char) (before : ∀ char ∈ out, IsAscii char) :
    shapeLoop word keep delimiters length out current content =
      shapeLoop other keep delimiters size out current content := by
  induction content generalizing out current with
  | nil => rfl
  | cons char content ih =>
      have after : ∀ added ∈ (if other char = true then out
          else (if current = [] then out else keepWord keep out current) ++
            if char ∈ delimiters then [char] else []), IsAscii added := by
        intro added member
        split at member
        · exact before added member
        · rcases List.mem_append.mp member with earlier | mark
          · split at earlier
            · exact before added earlier
            · exact keepWord_ascii words before added earlier
          · split at mark
            · next delimiter =>
                rw [List.mem_singleton.mp mark]
                exact marks char delimiter
            · exact absurd mark List.not_mem_nil
      unfold shapeLoop
      dsimp only
      rw [tests char List.mem_cons_self, lengths _ after,
        ih (fun later member => tests later (List.mem_cons_of_mem _ member)) after]

theorem shapeWith_congr (words : ∀ text ∈ keep, ∀ char ∈ text.toList, IsAscii char)
    (marks : ∀ char ∈ delimiters, IsAscii char)
    (lengths : ∀ out, (∀ char ∈ out, IsAscii char) → length out = size out)
    (tests : ∀ char ∈ content, word char = other char) :
    shapeWith word keep delimiters length content =
      shapeWith other keep delimiters size content := by
  unfold shapeWith
  rw [shapeLoop_congr words marks lengths tests (by simp)]

end Silhouette

theorem KEEP_ascii : ∀ text ∈ KEEP, ∀ char ∈ text.toList, IsAscii char := by
  intro text inside char member
  have all : (KEEP.all fun text => text.toList.all fun char => decide (IsAscii char)) = true := by
    decide
  have ascii := List.all_eq_true.mp (List.all_eq_true.mp all text inside) char member
  exact of_decide_eq_true ascii

theorem delimiters_ascii : ∀ char ∈ delimiters, IsAscii char := by
  have all : (delimiters.all fun char => decide (IsAscii char)) = true := by
    decide
  intro char inside
  exact of_decide_eq_true (List.all_eq_true.mp all char inside)

/-! ### Sketches -/

theorem lowerSlots_length (sketch : List UInt32) (token : Token) :
    (lowerSlots sha256 sketch token).length = sketch.length :=
  List.length_mapIdx

theorem minhashK_length (tokens : List Token) (k : Nat) :
    (minhashK sha256 tokens k).length = k := by
  have folded : ∀ sketch : List UInt32,
      (tokens.foldl (lowerSlots sha256) sketch).length = sketch.length := by
    induction tokens with
    | nil => exact fun _ => rfl
    | cons token tokens ih =>
        intro sketch
        rw [List.foldl_cons, ih, lowerSlots_length]
  unfold minhashK
  dsimp only
  split
  · exact List.length_replicate
  · rw [folded, List.length_replicate]

end Mneme.Brain.Federated
