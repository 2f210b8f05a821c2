/-
What the silhouette of a text shows: its kept keywords and its delimiters.

The length of the silhouette is looked at after each character of the text, so
where it is cut can depend on whether a delimiter follows a keyword directly.
-/

import Mneme.Brain.Federated

namespace Mneme.Brain.Federated

open Library

/-- What a silhouette can tell of a text. -/
inductive Piece where
  /-- A kept keyword, and whether a delimiter follows it directly. -/
  | keyword (text : List Char) (glued : Bool)
  | delimiter (char : Char)
  /-- Any other word. -/
  | other
deriving DecidableEq

/-- A piece without what follows it. -/
def Piece.plain : Piece → Piece
  | .keyword text _ => .keyword text false
  | .delimiter char => .delimiter char
  | .other => .other

section Pieces

variable (word : Char → Bool) (keep : List String) (delimiters : List Char)

/-- A word that has ended. -/
def pieceOf (current : List Char) (glued : Bool) : List Piece :=
  if current = [] then []
  else if String.ofList current ∈ keep then [.keyword current glued]
  else [.other]

/-- The pieces of a text behind the word that is open. -/
def piecesFrom (current : List Char) : List Char → List Piece
  | [] => pieceOf keep current false
  | char :: rest =>
      if word char = true then piecesFrom (current ++ [char]) rest
      else
        pieceOf keep current (decide (char ∈ delimiters)) ++
          (if char ∈ delimiters then [.delimiter char] else []) ++ piecesFrom [] rest

end Pieces

/-- The pieces of a text. -/
def pieces (tables : UnicodeTables) (content : List Char) : List Piece :=
  piecesFrom (wordChar tables) KEEP delimiters [] content

/-- The kept keywords, delimiters and other words of a text in their order. -/
def sequence (tables : UnicodeTables) (content : List Char) : List Piece :=
  (pieces tables content).map Piece.plain

/-- A silhouette with one more piece. -/
def showPiece (out : List Char) : Piece → List Char
  | .keyword text _ => (if out = [] then out else out ++ [' ']) ++ text
  | .delimiter char => out ++ [char]
  | .other => out

/-- The silhouette of some pieces, which ends beyond the limit. -/
def silhouette (length : List Char → Nat) (out : List Char) : List Piece → List Char
  | [] => out
  | .keyword text glued :: rest =>
      if glued = false ∧ 512 < length (showPiece out (.keyword text glued)) then
        showPiece out (.keyword text glued)
      else silhouette length (showPiece out (.keyword text glued)) rest
  | .delimiter char :: rest =>
      if 512 < length (out ++ [char]) then out ++ [char] else silhouette length (out ++ [char]) rest
  | .other :: rest => silhouette length out rest

/-! ### The loop -/

section Loop

variable {word : Char → Bool} {keep : List String} {delimiters : List Char}
  {length : List Char → Nat}

/-- What the loop leaves and the word that is looked at behind it. -/
def finished (keep : List String) (last : List Char × List Char) : List Char :=
  if last.2 = [] then last.1 else keepWord keep last.1 last.2

variable (out text : List Char)

theorem silhouette_glued (rest : List Piece) :
    silhouette length out (.keyword text true :: rest) =
      silhouette length (showPiece out (.keyword text true)) rest :=
  if_neg (fun cut => Bool.false_ne_true cut.1.symm)

theorem silhouette_last :
    silhouette length out [.keyword text false] = showPiece out (.keyword text false) := by
  rw [silhouette]
  split
  · rfl
  · rfl

theorem silhouette_loose (rest : List Piece) :
    silhouette length out (.keyword text false :: rest) =
      if 512 < length (showPiece out (.keyword text false)) then showPiece out (.keyword text false)
      else silhouette length (showPiece out (.keyword text false)) rest := by
  rw [silhouette]
  apply if_congr
  · exact and_iff_right rfl
  · rfl
  · rfl

variable (out : List Char)

theorem finished_nil : finished keep (out, []) = out :=
  if_pos rfl

theorem finished_loop {out current : List Char} (content : List Char) (within : length out ≤ 512) :
    finished keep (shapeLoop word keep delimiters length out current content) =
      silhouette length out (piecesFrom word keep delimiters current content) := by
  induction content generalizing out current with
  | nil =>
      unfold shapeLoop finished piecesFrom pieceOf keepWord
      dsimp only
      by_cases nothing : current = []
      · rw [if_pos nothing, if_pos nothing]
        rfl
      · rw [if_neg nothing, if_neg nothing]
        by_cases kept : String.ofList current ∈ keep
        · rw [if_pos kept, if_pos kept, silhouette_last]
          rfl
        · rw [if_neg kept, if_neg kept]
          rfl
  | cons char rest ih =>
      unfold shapeLoop piecesFrom
      dsimp only
      by_cases inside : word char = true
      · rw [if_pos inside, if_pos inside, if_pos inside, if_neg (Nat.not_lt.mpr within)]
        exact ih within
      · rw [if_neg inside, if_neg inside, if_neg inside]
        -- What has been shown with the word that ends here, and with the delimiter.
        have marked : ∀ shown, finished keep
            (if 512 < length (shown ++ [char]) then (shown ++ [char], [])
              else shapeLoop word keep delimiters length (shown ++ [char]) [] rest) =
            silhouette length shown (.delimiter char :: piecesFrom word keep delimiters [] rest) := by
          intro shown
          rw [silhouette]
          split
          · exact finished_nil _
          · next short => exact ih (Nat.not_lt.mp short)
        unfold pieceOf keepWord
        by_cases mark : char ∈ delimiters
        · rw [if_pos mark, if_pos mark, decide_eq_true mark]
          by_cases nothing : current = []
          · rw [if_pos nothing, if_pos nothing]
            exact marked out
          · rw [if_neg nothing, if_neg nothing]
            by_cases kept : String.ofList current ∈ keep
            · rw [if_pos kept, if_pos kept, marked]
              exact (silhouette_glued _ _ _).symm
            · rw [if_neg kept, if_neg kept, marked]
              rfl
        · rw [if_neg mark, if_neg mark, decide_eq_false mark, List.append_nil, List.append_nil]
          by_cases nothing : current = []
          · rw [if_pos nothing, if_pos nothing, if_neg (Nat.not_lt.mpr within)]
            exact ih within
          · rw [if_neg nothing, if_neg nothing]
            by_cases kept : String.ofList current ∈ keep
            · rw [if_pos kept, if_pos kept, List.singleton_append, silhouette_loose]
              change finished keep (if 512 < length (showPiece out (.keyword current false)) then _
                else _) = _
              split
              · exact finished_nil _
              · next short => exact ih (Nat.not_lt.mp short)
            · rw [if_neg kept, if_neg kept, if_neg (Nat.not_lt.mpr within)]
              exact ih within

/-- The silhouette of a text is that of its pieces. -/
theorem normaliseShape_pieces (tables : UnicodeTables) (content : List Char) :
    normaliseShape tables content =
      silhouette (fun out => (utf8 out).length) [] (pieces tables content) :=
  finished_loop content (Nat.zero_le _)

/-! ### Silhouettes within the limit -/

variable (shown : List Piece)

/-- Showing more makes a silhouette longer. -/
theorem shown_length :
    (utf8 out).length ≤ (utf8 (shown.foldl showPiece out)).length := by
  induction shown generalizing out with
  | nil => exact Nat.le_refl _
  | cons piece rest ih =>
      refine Nat.le_trans ?_ (ih (showPiece out piece))
      cases piece with
      | other => exact Nat.le_refl _
      | delimiter char =>
          change _ ≤ (utf8 (out ++ [char])).length
          rw [utf8_append, List.length_append]
          exact Nat.le_add_right _ _
      | keyword text glued =>
          change _ ≤ (utf8 ((if out = [] then out else out ++ [' ']) ++ text)).length
          split
          · next nothing =>
              rw [nothing]
              exact Nat.zero_le _
          · rw [utf8_append, utf8_append, List.length_append, List.length_append, Nat.add_assoc]
            exact Nat.le_add_right _ _

/-- A silhouette of some pieces shows a front of them. -/
theorem silhouette_front :
    ∃ front, front <+: shown ∧ silhouette length out shown = front.foldl showPiece out := by
  induction shown generalizing out with
  | nil => exact ⟨[], List.prefix_refl _, rfl⟩
  | cons piece rest ih =>
      have later : ∃ front, front <+: piece :: rest ∧
          silhouette length (showPiece out piece) rest = front.foldl showPiece out := by
        obtain ⟨front, before, same⟩ := ih (showPiece out piece)
        exact ⟨piece :: front, (List.prefix_cons_inj piece).mpr before, same⟩
      have here : ∃ front, front <+: piece :: rest ∧
          showPiece out piece = front.foldl showPiece out :=
        ⟨[piece], (List.prefix_cons_inj piece).mpr List.nil_prefix, rfl⟩
      cases piece with
      | other => exact later
      | delimiter char =>
          rw [silhouette]
          split
          · exact here
          · exact later
      | keyword text glued =>
          rw [silhouette]
          split
          · exact here
          · exact later

/-- One that ends within the limit shows all of them. -/
theorem silhouette_whole (within : length (silhouette length out shown) ≤ 512) :
    silhouette length out shown = shown.foldl showPiece out := by
  induction shown generalizing out with
  | nil => rfl
  | cons piece rest ih =>
      cases piece with
      | other => exact ih out within
      | delimiter char =>
          rw [silhouette] at within ⊢
          split at within
          · next beyond => exact absurd within (Nat.not_le.mpr beyond)
          · next short =>
              rw [if_neg short]
              exact ih _ within
      | keyword text glued =>
          rw [silhouette] at within ⊢
          split at within
          · next beyond => exact absurd within (Nat.not_le.mpr beyond.2)
          · next short =>
              rw [if_neg short]
              exact ih _ within

/-- Pieces that can be shown within the limit are all shown. -/
theorem silhouette_of_short (within : (utf8 (shown.foldl showPiece out)).length ≤ 512) :
    silhouette (fun out => (utf8 out).length) out shown = shown.foldl showPiece out := by
  induction shown generalizing out with
  | nil => rfl
  | cons piece rest ih =>
      have short := Nat.le_trans (shown_length (showPiece out piece) rest) within
      cases piece with
      | other => exact ih out within
      | delimiter char =>
          change (utf8 (out ++ [char])).length ≤ 512 at short
          rw [silhouette, if_neg (Nat.not_lt.mpr short)]
          exact ih _ within
      | keyword text glued =>
          rw [silhouette, if_neg (fun beyond => absurd short (Nat.not_le.mpr beyond.2))]
          exact ih _ within

theorem foldl_plain :
    (shown.map Piece.plain).foldl showPiece out = shown.foldl showPiece out := by
  induction shown generalizing out with
  | nil => rfl
  | cons piece rest ih =>
      rw [List.map_cons, List.foldl_cons, List.foldl_cons, ih]
      cases piece with
      | keyword text glued => rfl
      | delimiter char => rfl
      | other => rfl

/-- A silhouette within the limit is decided by the sequence. -/
theorem normaliseShape_of_sequence {tables : UnicodeTables} {left right : List Char}
    (same : sequence tables left = sequence tables right)
    (short : (utf8 (normaliseShape tables left)).length ≤ 512) :
    normaliseShape tables left = normaliseShape tables right := by
  rw [normaliseShape_pieces] at short
  have shown := @silhouette_whole (fun out => (utf8 out).length) [] _ short
  have alike : (pieces tables left).foldl showPiece [] =
      (pieces tables right).foldl showPiece [] := by
    rw [← foldl_plain, ← foldl_plain [] (pieces tables right)]
    exact congrArg (List.foldl showPiece []) same
  rw [shown, alike] at short
  rw [normaliseShape_pieces, normaliseShape_pieces, shown, silhouette_of_short _ _ short, alike]

/-! ### What a silhouette consists of -/

/-- A kept keyword or a delimiter, if it shows at all. -/
def Piece.Allowed : Piece → Prop
  | .keyword text _ => String.ofList text ∈ KEEP
  | .delimiter char => char ∈ Federated.delimiters
  | .other => True

theorem pieces_allowed (tables : UnicodeTables) (content : List Char) :
    ∀ piece ∈ pieces tables content, piece.Allowed := by
  have ended : ∀ current glued, ∀ piece ∈ pieceOf KEEP current glued, piece.Allowed := by
    intro current glued piece member
    unfold pieceOf at member
    split at member
    · cases member
    · split at member
      · next kept =>
          rw [List.mem_singleton.mp member]
          exact kept
      · rw [List.mem_singleton.mp member]
        exact trivial
  have all : ∀ current, ∀ piece ∈ piecesFrom (wordChar tables) KEEP Federated.delimiters current content,
      piece.Allowed := by
    induction content with
    | nil => exact fun current => ended current false
    | cons char rest ih =>
        intro current piece member
        rw [piecesFrom] at member
        split at member
        · exact ih _ piece member
        · rcases List.mem_append.mp member with first | later
          · rcases List.mem_append.mp first with word | mark
            · exact ended _ _ piece word
            · split at mark
              · next delimiter =>
                  rw [List.mem_singleton.mp mark]
                  exact delimiter
              · cases mark
          · exact ih [] piece later
  exact all []

end Loop

/-- Every word is a kept keyword, and every other character a delimiter or a
blank. -/
structure Clean (tables : UnicodeTables) (out : List Char) : Prop where
  words : ∀ run ∈ wordsOf (wordChar tables) (fun char => [char]) out, String.ofList run ∈ KEEP
  marks : ∀ char ∈ out, wordChar tables char = true ∨ char ∈ delimiters ∨ char = ' '

section Clean

variable {tables : UnicodeTables}

theorem keep_word {text : List Char} (kept : String.ofList text ∈ KEEP) :
    text ≠ [] ∧ ∀ char ∈ text, wordChar tables char = true := by
  have all : (KEEP.all fun text => text.toList ≠ [] && text.toList.all fun char =>
      decide (IsAscii char) && asciiAlphanumeric char) = true := by decide
  have own := List.all_eq_true.mp all _ kept
  rw [String.toList_ofList, Bool.and_eq_true, List.all_eq_true] at own
  refine ⟨of_decide_eq_true own.1, ?_⟩
  intro char member
  have letter := Bool.and_eq_true_iff.mp (own.2 char member)
  unfold wordChar
  rw [tables.alphanumeric_ascii char (of_decide_eq_true letter.1), letter.2]
  rfl

theorem mark_apart {char : Char} (mark : char ∈ delimiters ∨ char = ' ') :
    wordChar tables char = false := by
  have all : ((' ' :: delimiters).all fun char =>
      decide (IsAscii char) && !(asciiAlphanumeric char || decide (char = '_'))) = true := by decide
  have own := List.all_eq_true.mp all char (by
    rcases mark with delimiter | blank
    · exact List.mem_cons_of_mem _ delimiter
    · rw [blank]
      exact List.mem_cons_self)
  have plain := Bool.and_eq_true_iff.mp own
  unfold wordChar
  have apart := plain.2
  rw [Bool.not_eq_true'] at apart
  rw [tables.alphanumeric_ascii char (of_decide_eq_true plain.1)]
  exact apart

theorem Clean.mark {out : List Char} (clean : Clean tables out) {char : Char}
    (mark : char ∈ delimiters ∨ char = ' ') : Clean tables (out ++ [char]) := by
  constructor
  · rw [wordsOf_break out (mark_apart mark)]
    exact clean.words
  · intro other member
    rcases List.mem_append.mp member with before | last
    · exact clean.marks other before
    · rw [List.mem_singleton.mp last]
      exact Or.inr mark

theorem Clean.showPiece {out : List Char} (clean : Clean tables out) {piece : Piece}
    (allowed : piece.Allowed) : Clean tables (showPiece out piece) := by
  cases piece with
  | other => exact clean
  | delimiter char => exact clean.mark (Or.inl allowed)
  | keyword text glued =>
      obtain ⟨some_char, inside⟩ := @keep_word tables text allowed
      change Clean tables ((if out = [] then out else out ++ [' ']) ++ text)
      have marks : ∀ char ∈ (if out = [] then out else out ++ [' ']) ++ text,
          wordChar tables char = true ∨ char ∈ delimiters ∨ char = ' ' := by
        intro char member
        rcases List.mem_append.mp member with before | own
        · split at before
          · exact clean.marks char before
          · exact (clean.mark (Or.inr rfl)).marks char before
        · exact Or.inl (inside char own)
      refine ⟨?_, marks⟩
      by_cases nothing : out = []
      · rw [if_pos nothing, nothing, List.nil_append, wordsOf_word inside some_char]
        intro run member
        rw [List.mem_singleton.mp member]
        exact allowed
      · rw [if_neg nothing, wordsOf_append_word out (mark_apart (Or.inr rfl)) inside some_char]
        intro run member
        rcases List.mem_append.mp member with before | own
        · exact clean.words run before
        · rw [List.mem_singleton.mp own]
          exact allowed

theorem normaliseShape_clean (tables : UnicodeTables) (content : List Char) :
    Clean tables (normaliseShape tables content) := by
  rw [normaliseShape_pieces]
  obtain ⟨front, before, same⟩ := @silhouette_front (fun out => (utf8 out).length) []
    (pieces tables content)
  rw [same]
  have allowed : ∀ piece ∈ front, piece.Allowed := fun piece member =>
    pieces_allowed tables content piece (before.subset member)
  have start : Clean tables [] :=
    ⟨fun _ member => absurd member List.not_mem_nil, fun _ member => absurd member List.not_mem_nil⟩
  clear same before
  generalize ([] : List Char) = out at start
  induction front generalizing out with
  | nil => exact start
  | cons piece rest ih =>
      rw [List.foldl_cons]
      exact ih (fun later member => allowed later (List.mem_cons_of_mem _ member)) _
        (start.showPiece (allowed piece List.mem_cons_self))

end Clean

/-- The silhouette is decided by the pieces, within its limit by the sequence
alone, and shows nothing but keywords, delimiters and blanks. -/
theorem normaliseShape_private (tables : UnicodeTables) :
    (∀ left right, pieces tables left = pieces tables right →
        normaliseShape tables left = normaliseShape tables right) ∧
      (∀ left right, sequence tables left = sequence tables right →
        (utf8 (normaliseShape tables left)).length ≤ 512 →
          normaliseShape tables left = normaliseShape tables right) ∧
      ∀ content, Clean tables (normaliseShape tables content) := by
  refine ⟨?_, fun _ _ => normaliseShape_of_sequence, normaliseShape_clean tables⟩
  intro left right same
  rw [normaliseShape_pieces, normaliseShape_pieces, same]

theorem normaliseShape_private_shown :
    normaliseShape englishTables "if a (".toList = normaliseShape englishTables "if bc (".toList ∧
      normaliseShape englishTables "fn a(b: Vec)".toList =
        normaliseShape englishTables "fn \"x\" (y:Vec)".toList := by
  obtain ⟨byPieces, bySequence, _⟩ := normaliseShape_private englishTables
  constructor
  · apply byPieces
    decide
  · apply bySequence
    · decide
    · decide

/-! ### A blank at the limit -/

/-- As many opening parentheses, and a keyword that one more follows. -/
def fnBehind (parentheses : Nat) (gap : List Char) : List Char :=
  List.replicate parentheses '(' ++ ("fn".toList ++ gap ++ ['('])

theorem pieces_fnBehind (parentheses : Nat) (gap : List Char) :
    pieces englishTables (fnBehind parentheses gap) =
      List.replicate parentheses (.delimiter '(') ++ pieces englishTables (fnBehind 0 gap) := by
  induction parentheses with
  | zero => rfl
  | succ count ih =>
      rw [List.replicate_succ, List.cons_append, ← ih]
      rfl

theorem silhouette_parentheses (count : Nat) (out : List Char) (rest : List Piece)
    (within : (utf8 out).length + count ≤ 512) :
    silhouette (fun out => (utf8 out).length) out (List.replicate count (.delimiter '(') ++ rest) =
      silhouette (fun out => (utf8 out).length) (out ++ List.replicate count '(') rest := by
  induction count generalizing out with
  | zero => rw [List.replicate_zero, List.replicate_zero, List.append_nil, List.nil_append]
  | succ count ih =>
      have longer : (utf8 (out ++ ['('])).length = (utf8 out).length + 1 := by
        rw [utf8_append, List.length_append]
        rfl
      rw [List.replicate_succ, List.cons_append, silhouette, if_neg (by omega), ih _ (by omega),
        List.append_assoc]
      rfl

/-- A blank behind the keyword that passes the limit hides the delimiter. -/
theorem blank_cuts :
    ¬ ∀ (tables : UnicodeTables) (left right : List Char),
      sequence tables left = sequence tables right →
        normaliseShape tables left = normaliseShape tables right := by
  intro always
  have alike : sequence englishTables (fnBehind 510 []) = sequence englishTables (fnBehind 510 [' ']) := by
    unfold sequence
    rw [pieces_fnBehind, pieces_fnBehind 510 [' '], List.map_append, List.map_append]
    rfl
  have same := always englishTables _ _ alike
  rw [normaliseShape_pieces, normaliseShape_pieces, pieces_fnBehind, pieces_fnBehind 510 [' '],
    silhouette_parentheses _ _ _ (by decide), silhouette_parentheses _ _ _ (by decide)] at same
  change silhouette _ _ [.keyword "fn".toList true, .delimiter '('] =
    silhouette _ _ [.keyword "fn".toList false, .delimiter '('] at same
  have beyond : 512 < (utf8 (showPiece (List.replicate 510 '(') (.keyword "fn".toList false))).length := by
    decide +kernel
  rw [silhouette_glued, silhouette_loose, List.nil_append, if_pos beyond, silhouette, silhouette,
    ite_self] at same
  exact absurd (List.append_right_eq_self.mp same) (List.cons_ne_nil _ _)

end Mneme.Brain.Federated
