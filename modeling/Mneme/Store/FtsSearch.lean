/-
Full-text search: the sanitisers of a query and the queries they make of it.

The recall sanitisers keep the words of the query between single spaces.  The
ledger's stars each word and joins them with an operator of its own.
-/

import Mneme.Brain.Federated
import Mneme.Common.Text
import Mneme.Library.FtsQuery
import Mneme.Library.Pieces

namespace Mneme.Store

open Brain.Federated Common Library

/-- Letters and digits are no white space. -/
structure LetterTables extends UnicodeTables where
  visible : ∀ char, alphanumeric char = true → isWhitespace char = false

theorem asciiAlphanumeric_visible (char : Char) (letter : asciiAlphanumeric char = true) :
    isWhitespace char = false := by
  simp only [asciiAlphanumeric, Bool.or_eq_true, Bool.and_eq_true, decide_eq_true_eq, Char.le_def,
    UInt32.le_iff_toNat_le] at letter
  have low : 48 ≤ char.toNat ∧ char.toNat ≤ 122 := by
    change (65 ≤ char.toNat ∧ char.toNat ≤ 90 ∨ 97 ≤ char.toNat ∧ char.toNat ≤ 122) ∨
      48 ≤ char.toNat ∧ char.toNat ≤ 57 at letter
    omega
  simp only [isWhitespace, Bool.or_eq_false_iff, Bool.and_eq_false_iff, decide_eq_false_iff_not]
  omega

/-! ### Recall -/

/-- The loop of `fts5_sanitize`: the text so far and whether it ends in a space. -/
def sanitizeChar (tables : LetterTables) (state : List Char × Bool) (char : Char) :
    List Char × Bool :=
  if wordChar tables.toUnicodeTables char = true then (state.1 ++ [char], false)
  else if state.2 = false then (state.1 ++ [' '], true)
  else state

def fts5Sanitize (tables : LetterTables) (query : String) : String :=
  trim (String.ofList (query.toList.foldl (sanitizeChar tables) ([], true)).1)

/-- The words of a query for recall: runs of letters, digits and underscores. -/
def recallWords (tables : LetterTables) (query : String) : List (List Char) :=
  wordsOf (wordChar tables.toUnicodeTables) (fun char => [char]) query.toList

/-- `recall_fts`: an empty query is not executed, and where the index finds
nothing the substring search answers. -/
def searchOrLike {Hit Error : Type} (matchRows : String → Except Error (List Hit))
    (like : List Hit) (sanitized : String) : Except Error (List Hit) :=
  if sanitized.isEmpty then .ok like
  else
    match matchRows sanitized with
    | .error error => .error error
    | .ok hits => if hits.isEmpty then .ok like else .ok hits

/-! ### The ledger -/

/-- `split_whitespace` -/
def splitSpaces (text : List Char) : List (List Char) :=
  wordsOf (fun char => !isWhitespace char) (fun char => [char]) text

def cleanChar (tables : LetterTables) (char : Char) : Char :=
  if tables.alphanumeric char || char = ' ' then char else ' '

def sanitizeFts (tables : LetterTables) (input : String) : String :=
  let words := splitSpaces (input.toList.map (cleanChar tables))
  if words.isEmpty then "*"
  else String.ofList ([' ', 'O', 'R', ' '].intercalate (words.map (fun word => word ++ ['*'])))

/-- The words of a query for the ledger: runs of letters and digits. -/
def ledgerWords (tables : LetterTables) (query : String) : List (List Char) :=
  wordsOf tables.alphanumeric (fun char => [char]) query.toList

/-! ### Words are bare -/

variable {char : Char}

theorem asciiAlphanumeric_isAlphanum (letter : asciiAlphanumeric char = true) :
    char.isAlphanum = true := by
  simp only [asciiAlphanumeric, Bool.or_eq_true, Bool.and_eq_true, decide_eq_true_eq] at letter
  change (char.isUpper || char.isLower || char.isDigit) = true
  rcases letter with (upper | lower) | digit
  · have isUpper : char.isUpper = true := decide_eq_true upper
    rw [isUpper]
    rfl
  · have isLower : char.isLower = true :=
      Bool.and_eq_true_iff.mpr ⟨decide_eq_true lower.1, decide_eq_true lower.2⟩
    rw [isLower, Bool.or_true]
    rfl
  · have isDigit : char.isDigit = true :=
      Bool.and_eq_true_iff.mpr ⟨decide_eq_true digit.1, decide_eq_true digit.2⟩
    rw [isDigit, Bool.or_true]

variable (tables : LetterTables)

theorem alphanumeric_bareword
    (letter : tables.alphanumeric char = true) : Fts.bareword char = true := by
  unfold Fts.bareword
  by_cases ascii : IsAscii char
  · rw [tables.alphanumeric_ascii char ascii] at letter
    rw [asciiAlphanumeric_isAlphanum letter]
    rfl
  · have high : 128 ≤ char.toNat := by
      unfold IsAscii at ascii
      omega
    rw [decide_eq_true high, Bool.or_true]

theorem wordChar_bareword
    (letter : wordChar tables.toUnicodeTables char = true) : Fts.bareword char = true := by
  unfold wordChar at letter
  rw [Bool.or_eq_true, decide_eq_true_eq] at letter
  rcases letter with letter | underscore
  · exact alphanumeric_bareword tables letter
  · rw [underscore]
    rfl

theorem recallWords_bare (query : String) : ∀ word ∈ recallWords tables query, Fts.Bare word := by
  intro word member
  obtain ⟨nonempty, passes⟩ := wordsOf_sound word member
  exact ⟨nonempty, fun char inside => wordChar_bareword tables (passes char inside)⟩

theorem ledgerWords_bare (query : String) : ∀ word ∈ ledgerWords tables query, Fts.Bare word := by
  intro word member
  obtain ⟨nonempty, passes⟩ := wordsOf_sound word member
  exact ⟨nonempty, fun char inside => alphanumeric_bareword tables (passes char inside)⟩

/-! ### What the sanitisers make of the words -/

/-- Each finished word with a space behind it, and the open one. -/
def rendered (words : Words) : List Char :=
  words.read.flatMap (fun word => word ++ [' ']) ++ words.current

theorem sanitizeChar_rendered (words : Words) (char : Char) :
    sanitizeChar tables (rendered words, decide (words.current = [])) char =
      (rendered (words.next (wordChar tables.toUnicodeTables) (fun char => [char]) char),
        decide ((words.next (wordChar tables.toUnicodeTables) (fun char => [char]) char).current =
          [])) := by
  unfold sanitizeChar Words.next
  by_cases letter : wordChar tables.toUnicodeTables char = true
  · rw [if_pos letter, if_pos letter]
    refine Prod.ext (List.append_assoc _ _ _) ?_
    exact (decide_eq_false (List.append_ne_nil_of_right_ne_nil _ (List.cons_ne_nil _ _))).symm
  · rw [if_neg letter, if_neg letter]
    by_cases closed : words.current = []
    · rw [if_neg (by rw [decide_eq_true closed]; exact Bool.noConfusion), if_pos closed]
    · rw [if_pos (decide_eq_false closed), if_neg closed]
      refine Prod.ext ?_ rfl
      change rendered words ++ [' '] = _
      unfold rendered
      rw [List.flatMap_append, List.flatMap_singleton, List.append_nil, List.append_assoc]

theorem foldl_sanitizeChar (text : List Char) (words : Words) :
    text.foldl (sanitizeChar tables) (rendered words, decide (words.current = [])) =
      (rendered (text.foldl (Words.next (wordChar tables.toUnicodeTables) (fun char => [char])) words),
        decide ((text.foldl (Words.next (wordChar tables.toUnicodeTables) (fun char => [char]))
          words).current = [])) := by
  induction text generalizing words with
  | nil => rfl
  | cons char text ih => rw [List.foldl_cons, List.foldl_cons, sanitizeChar_rendered, ih]

/-- Words with a space before each but the first. -/
def spaced : List (List Char) → List Char
  | [] => []
  | first :: rest => first ++ rest.flatMap (fun word => ' ' :: word)

theorem flatMap_spaced (first : List Char) (rest : List (List Char)) :
    (first :: rest).flatMap (fun word => word ++ [' ']) = spaced (first :: rest) ++ [' '] := by
  induction rest generalizing first with
  | nil => rw [List.flatMap_singleton, spaced, List.flatMap_nil, List.append_nil]
  | cons word rest ih =>
      rw [List.flatMap_cons, ih, spaced, spaced, List.flatMap_cons]
      simp only [List.append_assoc, List.cons_append, List.nil_append]

theorem spaced_append_singleton (first : List Char) (rest : List (List Char)) (last : List Char) :
    spaced (first :: (rest ++ [last])) = spaced (first :: rest) ++ ' ' :: last := by
  rw [spaced, spaced, List.flatMap_append, List.flatMap_singleton, List.append_assoc]

/-- What the loop renders are the words with single spaces, and one behind them
where no word is open. -/
theorem rendered_close (words : Words) :
    ∃ back, rendered words = spaced words.close ++ back ∧ ∀ char ∈ back, char = ' ' := by
  obtain ⟨read, current⟩ := words
  unfold rendered Words.close
  by_cases closed : current = []
  · rw [if_pos closed]
    subst closed
    cases read with
    | nil => exact ⟨[], rfl, fun _ impossible => absurd impossible List.not_mem_nil⟩
    | cons first rest =>
        exact ⟨[' '], by rw [List.append_nil, flatMap_spaced], fun _ => List.mem_singleton.mp⟩
  · rw [if_neg closed]
    refine ⟨[], ?_, fun _ impossible => absurd impossible List.not_mem_nil⟩
    rw [List.append_nil]
    cases read with
    | nil => exact (List.append_nil _).symm
    | cons first rest =>
        rw [flatMap_spaced, List.cons_append, spaced_append_singleton, List.append_assoc]
        rfl

variable {words : List (List Char)}

theorem head?_spaced (nonempty : ∀ word ∈ words, word ≠ [])
    (head : (spaced words).head? = some char) : ∃ word ∈ words, char ∈ word := by
  cases words with
  | nil => cases head
  | cons first rest =>
      refine ⟨first, List.mem_cons_self, ?_⟩
      cases first with
      | nil => exact absurd rfl (nonempty [] List.mem_cons_self)
      | cons start more =>
          cases head
          exact List.mem_cons_self

theorem getLast?_spaced (nonempty : ∀ word ∈ words, word ≠ [])
    (last : (spaced words).getLast? = some char) : ∃ word ∈ words, char ∈ word := by
  induction words with
  | nil => cases last
  | cons first rest ih =>
      cases rest with
      | nil =>
          rw [spaced, List.flatMap_nil, List.append_nil] at last
          exact ⟨first, List.mem_cons_self, List.mem_of_getLast? last⟩
      | cons word rest =>
          have split : spaced (first :: word :: rest) = (first ++ [' ']) ++ spaced (word :: rest) := by
            rw [spaced, spaced, List.flatMap_cons]
            simp only [List.append_assoc, List.cons_append, List.nil_append]
          have some_char : spaced (word :: rest) ≠ [] :=
            List.append_ne_nil_of_left_ne_nil
              (nonempty word (List.mem_cons_of_mem _ List.mem_cons_self)) _
          rw [split, List.getLast?_append_of_ne_nil _ some_char] at last
          obtain ⟨found, member, inside⟩ :=
            ih (fun other member => nonempty other (List.mem_cons_of_mem _ member)) last
          exact ⟨found, List.mem_cons_of_mem _ member, inside⟩

variable {query : String}

theorem recallWords_visible {word : List Char} (member : word ∈ recallWords tables query) :
    ∀ char ∈ word, isWhitespace char = false := by
  intro char inside
  have letter := (wordsOf_sound word member).2 char inside
  unfold wordChar at letter
  rw [Bool.or_eq_true, decide_eq_true_eq] at letter
  rcases letter with letter | underscore
  · exact tables.visible char letter
  · rw [underscore]
    rfl

/-- The recall sanitiser keeps the words of the query, between single spaces. -/
theorem fts5Sanitize_words (query : String) :
    (fts5Sanitize tables query).toList = spaced (recallWords tables query) := by
  have loop := foldl_sanitizeChar tables query.toList {}
  change query.toList.foldl (sanitizeChar tables) ([], true) = _ at loop
  obtain ⟨back, split, spaces⟩ := rendered_close
    (query.toList.foldl (Words.next (wordChar tables.toUnicodeTables) (fun char => [char])) {})
  have nonempty : ∀ word ∈ recallWords tables query, word ≠ [] :=
    fun word member => (recallWords_bare tables query word member).1
  have whole : trimmed isWhitespace ([] ++ (spaced (recallWords tables query) ++ back)) =
      spaced (recallWords tables query) := by
    apply trimmed_block
    · intro char impossible
      cases impossible
    · intro char member
      rw [spaces char member]
      rfl
    · intro char head
      obtain ⟨word, member, inside⟩ := head?_spaced nonempty head
      exact recallWords_visible tables member char inside
    · intro char last
      obtain ⟨word, member, inside⟩ := getLast?_spaced nonempty last
      exact recallWords_visible tables member char inside
  unfold fts5Sanitize trim trimMatches
  rw [String.toList_ofList, String.toList_ofList, loop]
  change trimmed isWhitespace (rendered _) = _
  rw [split]
  exact whole

/-! ### The ledger's words -/

theorem next_cleanChar (words : Words) (char : Char) :
    words.next (fun char => !isWhitespace char) (fun char => [char]) (cleanChar tables char) =
      words.next tables.alphanumeric (fun char => [char]) char := by
  unfold Words.next cleanChar
  by_cases letter : tables.alphanumeric char = true
  · have shown : (!isWhitespace char) = true := by
      rw [tables.visible char letter]
      rfl
    rw [if_pos letter, letter, Bool.true_or, if_pos rfl]
    exact if_pos shown
  · have blank : (if (tables.alphanumeric char || decide (char = ' ')) = true then char else ' ') =
        ' ' := by
      rw [Bool.eq_false_iff.mpr letter, Bool.false_or]
      split
      · next space => exact of_decide_eq_true space
      · rfl
    rw [if_neg letter, blank]
    rfl

/-- Cleaning and splitting leaves the runs of letters and digits. -/
theorem splitSpaces_cleaned (query : String) :
    splitSpaces (query.toList.map (cleanChar tables)) = ledgerWords tables query := by
  have together : ∀ (text : List Char) (words : Words),
      (text.map (cleanChar tables)).foldl
          (Words.next (fun char => !isWhitespace char) (fun char => [char])) words =
        text.foldl (Words.next tables.alphanumeric (fun char => [char])) words := by
    intro text
    induction text with
    | nil => exact fun _ => rfl
    | cons char text ih =>
        intro words
        rw [List.map_cons, List.foldl_cons, List.foldl_cons, next_cleanChar, ih]
  unfold splitSpaces ledgerWords wordsOf
  rw [together]

theorem intercalate_cons_flatMap (separator first : List Char) (rest : List (List Char)) :
    separator.intercalate (first :: rest) = first ++ rest.flatMap (fun word => separator ++ word) := by
  induction rest generalizing first with
  | nil => rw [List.intercalate_singleton, List.flatMap_nil, List.append_nil]
  | cons word rest ih =>
      rw [List.intercalate_cons_cons, ih, List.flatMap_cons, List.append_assoc, List.append_assoc]

theorem sanitizeFts_words {first : List Char}
    {rest : List (List Char)} (words : ledgerWords tables query = first :: rest) :
    (sanitizeFts tables query).toList =
      first ++ ['*'] ++ rest.flatMap (fun word => [' ', 'O', 'R', ' '] ++ (word ++ ['*'])) := by
  unfold sanitizeFts
  dsimp only
  rw [splitSpaces_cleaned, words, List.isEmpty_cons, if_neg Bool.false_ne_true,
    String.toList_ofList, List.map_cons, intercalate_cons_flatMap, List.flatMap_map]

theorem sanitizeFts_empty
    (none : ledgerWords tables query = []) : sanitizeFts tables query = "*" := by
  unfold sanitizeFts
  dsimp only
  rw [splitSpaces_cleaned, none]
  rfl

/-! ### Plain queries -/

/-- An empty text, or a query whose leaves are these words. -/
def PlainOrEmpty (words : List (List Char)) (text : String) : Prop :=
  text = "" ∨ Fts.PlainQuery words text.toList

theorem fts5Sanitize_plain_iff (query : String) :
    PlainOrEmpty (recallWords tables query) (fts5Sanitize tables query) ↔
      ∀ word ∈ recallWords tables query, ¬ Fts.Reserved word := by
  have kept := fts5Sanitize_words tables query
  have bare := recallWords_bare tables query
  unfold PlainOrEmpty
  cases words : recallWords tables query with
  | nil =>
      rw [words] at kept
      refine iff_of_true (Or.inl (String.toList_injective kept)) ?_
      exact fun _ impossible => absurd impossible List.not_mem_nil
  | cons first rest =>
      rw [words] at kept bare
      have isFirst := bare first List.mem_cons_self
      have some_char : fts5Sanitize tables query ≠ "" := by
        intro empty
        rw [empty] at kept
        exact isFirst.1 (List.append_eq_nil_iff.mp kept.symm).1
      rw [or_iff_right some_char, kept]
      exact Fts.plainQuery_spaced_iff isFirst
        (fun word member => bare word (List.mem_cons_of_mem _ member))

theorem sanitizeFts_plain_iff (query : String) :
    Fts.PlainQuery (ledgerWords tables query) (sanitizeFts tables query).toList ↔
      ledgerWords tables query ≠ [] ∧ ∀ word ∈ ledgerWords tables query, ¬ Fts.Reserved word := by
  have bare := ledgerWords_bare tables query
  cases words : ledgerWords tables query with
  | nil =>
      rw [sanitizeFts_empty tables words]
      exact iff_of_false (Fts.not_plainQuery_star _) (fun both => both.1 rfl)
  | cons first rest =>
      rw [words] at bare
      rw [sanitizeFts_words tables words, and_iff_right (List.cons_ne_nil _ _)]
      exact Fts.plainQuery_starred_iff (bare first List.mem_cons_self)
        (fun word member => bare word (List.mem_cons_of_mem _ member))

end Mneme.Store
