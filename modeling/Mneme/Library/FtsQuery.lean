/-
The query language of the full-text engine: its tokens and its grammar.

A bare word is a token of its own unless it is one of three operators in capital
letters.  The grammar has three operators of their own precedence, phrases,
prefixes, column filters and `NEAR` groups; the plain queries are those whose
leaves are single terms.
-/

import Mathlib.Data.List.Basic

namespace Mneme.Library

/-! ### Tokens -/

inductive FtsToken where
  | leftParen
  | rightParen
  | leftBrace
  | rightBrace
  | colon
  | comma
  | plus
  | star
  | minus
  | caret
  | or
  | not
  | and
  | string (text : List Char)
deriving DecidableEq

namespace Fts

/-- Letters and digits of ASCII, the underscore, the substitute character and
everything outside ASCII. -/
def bareword (char : Char) : Bool :=
  char.isAlphanum || char = '_' || char.toNat = 26 || 128 ≤ char.toNat

def isSpace (char : Char) : Bool :=
  char = ' ' || char = '\t' || char = '\n' || char = '\r'

def operator : Char → Option FtsToken
  | '(' => some .leftParen
  | ')' => some .rightParen
  | '{' => some .leftBrace
  | '}' => some .rightBrace
  | ':' => some .colon
  | ',' => some .comma
  | '+' => some .plus
  | '*' => some .star
  | '-' => some .minus
  | '^' => some .caret
  | _ => none

/-- The token of a word without quotes. -/
def wordToken (word : List Char) : FtsToken :=
  if word = ['O', 'R'] then .or
  else if word = ['N', 'O', 'T'] then .not
  else if word = ['A', 'N', 'D'] then .and
  else .string word

/-- Where the reader stands: in a bare word that may be empty, in a quoted
string, after a quote that may be doubled, at the end, or lost. -/
inductive Mode where
  | bare (word : List Char)
  | quoted (text : List Char)
  | closed (text : List Char)
  | ended
  | failed

structure Lexer where
  read : List FtsToken
  mode : Mode

namespace Lexer

def flush (word : List Char) : List FtsToken :=
  if word = [] then [] else [wordToken word]

/-- One character outside of quotes; a null character ends the query. -/
def nextBare (read : List FtsToken) (word : List Char) (char : Char) : Lexer :=
  if bareword char then { read := read, mode := .bare (word ++ [char]) }
  else if isSpace char then { read := read ++ flush word, mode := .bare [] }
  else if char = '"' then { read := read ++ flush word, mode := .quoted [] }
  else if char.toNat = 0 then { read := read ++ flush word, mode := .ended }
  else
    match operator char with
    | some token => { read := read ++ flush word ++ [token], mode := .bare [] }
    | none => { read := read, mode := .failed }

def next (lexer : Lexer) (char : Char) : Lexer :=
  match lexer.mode with
  | .bare word => nextBare lexer.read word char
  | .quoted text =>
      if char = '"' then { lexer with mode := .closed text }
      else if char.toNat = 0 then { lexer with mode := .failed }
      else { lexer with mode := .quoted (text ++ [char]) }
  | .closed text =>
      if char = '"' then { lexer with mode := .quoted (text ++ [char]) }
      else nextBare (lexer.read ++ [.string text]) [] char
  | .ended => lexer
  | .failed => lexer

def close (lexer : Lexer) : Option (List FtsToken) :=
  match lexer.mode with
  | .bare word => some (lexer.read ++ flush word)
  | .quoted _ => none
  | .closed text => some (lexer.read ++ [.string text])
  | .ended => some lexer.read
  | .failed => none

def start : Lexer :=
  { read := [], mode := .bare [] }

end Lexer

def lex (text : List Char) : Option (List FtsToken) :=
  (text.foldl Lexer.next Lexer.start).close

/-! ### Grammar -/

/-- A string of a phrase, with the star that makes a prefix of it. -/
structure Term where
  text : List Char
  starred : Bool
deriving DecidableEq

/-- The columns of a filter, or all others. -/
structure Columns where
  names : List (List Char)
  excluded : Bool
deriving DecidableEq

inductive Expr where
  | phrase (columns : Option Columns) (first : Bool) (terms : List Term)
  | near (columns : Option Columns) (phrases : List (List Term)) (distance : Option (List Char))
  | within (columns : Columns) (inner : Expr)
  | and (left right : Expr)
  | or (left right : Expr)
  | not (left right : Expr)

inductive IsPhrase : List FtsToken → List Term → Prop
  | string (text : List Char) : IsPhrase [.string text] [⟨text, false⟩]
  | star (text : List Char) : IsPhrase [.string text, .star] [⟨text, true⟩]
  | plus {tokens : List FtsToken} {terms : List Term} (text : List Char)
      (phrase : IsPhrase tokens terms) :
      IsPhrase (tokens ++ [.plus, .string text]) (terms ++ [⟨text, false⟩])
  | plusStar {tokens : List FtsToken} {terms : List Term} (text : List Char)
      (phrase : IsPhrase tokens terms) :
      IsPhrase (tokens ++ [.plus, .string text, .star]) (terms ++ [⟨text, true⟩])

inductive IsPhrases : List FtsToken → List (List Term) → Prop
  | one {tokens : List FtsToken} {terms : List Term} (phrase : IsPhrase tokens terms) :
      IsPhrases tokens [terms]
  | more {front back : List FtsToken} {phrases : List (List Term)} {terms : List Term}
      (before : IsPhrases front phrases) (phrase : IsPhrase back terms) :
      IsPhrases (front ++ back) (phrases ++ [terms])

inductive IsColumns : List FtsToken → Columns → Prop
  | one (name : List Char) : IsColumns [.string name] ⟨[name], false⟩
  | notOne (name : List Char) : IsColumns [.minus, .string name] ⟨[name], true⟩
  | some (names : List (List Char)) (given : names ≠ []) :
      IsColumns (.leftBrace :: names.map .string ++ [.rightBrace]) ⟨names, false⟩
  | notSome (names : List (List Char)) (given : names ≠ []) :
      IsColumns (.minus :: .leftBrace :: names.map .string ++ [.rightBrace]) ⟨names, true⟩

/-- A phrase or a `NEAR` group under a filter that may be absent. -/
inductive IsNear (columns : Option Columns) : List FtsToken → Expr → Prop
  | phrase {tokens : List FtsToken} {terms : List Term} (phrase : IsPhrase tokens terms) :
      IsNear columns tokens (.phrase columns false terms)
  | first {tokens : List FtsToken} {terms : List Term} (phrase : IsPhrase tokens terms) :
      IsNear columns (.caret :: tokens) (.phrase columns true terms)
  | near {tokens : List FtsToken} {phrases : List (List Term)} (group : IsPhrases tokens phrases) :
      IsNear columns (.string ['N', 'E', 'A', 'R'] :: .leftParen :: tokens ++ [.rightParen])
        (.near columns phrases none)
  | nearWithin {tokens : List FtsToken} {phrases : List (List Term)} (distance : List Char)
      (group : IsPhrases tokens phrases) :
      IsNear columns
        (.string ['N', 'E', 'A', 'R'] :: .leftParen :: tokens ++
          [.comma, .string distance, .rightParen])
        (.near columns phrases (Option.some distance))

/-- `OR` binds less than `AND`, `AND` less than `NOT`, and a list, whose members
stand for an `AND`, most of all. -/
inductive Level where
  | disjunction
  | conjunction
  | negation
  | operand
  | sequence

inductive Derives : Level → List FtsToken → Expr → Prop
  | or {left right : List FtsToken} {first second : Expr} (before : Derives .disjunction left first)
      (after : Derives .conjunction right second) :
      Derives .disjunction (left ++ .or :: right) (.or first second)
  | conjunction {tokens : List FtsToken} {expr : Expr} (inner : Derives .conjunction tokens expr) :
      Derives .disjunction tokens expr
  | and {left right : List FtsToken} {first second : Expr} (before : Derives .conjunction left first)
      (after : Derives .negation right second) :
      Derives .conjunction (left ++ .and :: right) (.and first second)
  | negation {tokens : List FtsToken} {expr : Expr} (inner : Derives .negation tokens expr) :
      Derives .conjunction tokens expr
  | not {left right : List FtsToken} {first second : Expr} (before : Derives .negation left first)
      (after : Derives .operand right second) :
      Derives .negation (left ++ .not :: right) (.not first second)
  | operand {tokens : List FtsToken} {expr : Expr} (inner : Derives .operand tokens expr) :
      Derives .negation tokens expr
  | parens {tokens : List FtsToken} {expr : Expr} (inner : Derives .disjunction tokens expr) :
      Derives .operand (.leftParen :: tokens ++ [.rightParen]) expr
  | within {filter tokens : List FtsToken} {columns : Columns} {expr : Expr}
      (named : IsColumns filter columns) (inner : Derives .disjunction tokens expr) :
      Derives .operand (filter ++ .colon :: .leftParen :: tokens ++ [.rightParen])
        (.within columns expr)
  | sequence {tokens : List FtsToken} {expr : Expr} (inner : Derives .sequence tokens expr) :
      Derives .operand tokens expr
  | one {tokens : List FtsToken} {expr : Expr} (near : IsNear none tokens expr) :
      Derives .sequence tokens expr
  | oneWithin {filter tokens : List FtsToken} {columns : Columns} {expr : Expr}
      (named : IsColumns filter columns) (near : IsNear (some columns) tokens expr) :
      Derives .sequence (filter ++ .colon :: tokens) expr
  | more {left right : List FtsToken} {first second : Expr} (before : Derives .sequence left first)
      (near : IsNear none right second) :
      Derives .sequence (left ++ right) (.and first second)
  | moreWithin {left filter right : List FtsToken} {columns : Columns} {first second : Expr}
      (before : Derives .sequence left first) (named : IsColumns filter columns)
      (near : IsNear (some columns) right second) :
      Derives .sequence (left ++ (filter ++ .colon :: right)) (.and first second)

/-- The text is a query of the language, with this meaning. -/
def Parses (text : List Char) (expr : Expr) : Prop :=
  ∃ tokens, lex text = some tokens ∧ Derives .disjunction tokens expr

/-! ### Plain queries -/

/-- The leaves of an expression of single terms, joined by `AND` and `OR`. -/
def Expr.plainTerms : Expr → Option (List (List Char))
  | .phrase columns first [term] =>
      if columns = none ∧ first = false then some [term.text] else none
  | .and left right =>
      left.plainTerms.bind (fun first => right.plainTerms.map (fun second => first ++ second))
  | .or left right =>
      left.plainTerms.bind (fun first => right.plainTerms.map (fun second => first ++ second))
  | _ => none

/-- A query whose leaves are these words, each a term of its own. -/
def PlainQuery (words : List (List Char)) (text : List Char) : Prop :=
  ∃ expr, Parses text expr ∧ expr.plainTerms = some words

def tokenText : FtsToken → Option (List Char)
  | .string text => some text
  | _ => none

def texts (tokens : List FtsToken) : List (List Char) :=
  tokens.filterMap tokenText

theorem texts_append (left right : List FtsToken) :
    texts (left ++ right) = texts left ++ texts right :=
  List.filterMap_append

variable {words : List (List Char)}

theorem plain_join {first second : Option (List (List Char))}
    (joined : first.bind (fun left => second.map (fun right => left ++ right)) = some words) :
    ∃ left right, first = some left ∧ second = some right ∧ words = left ++ right := by
  obtain ⟨left, isFirst, rest⟩ := Option.bind_eq_some_iff.mp joined
  obtain ⟨right, isSecond, same⟩ := Option.map_eq_some_iff.mp rest
  exact ⟨left, right, isFirst, isSecond, same.symm⟩

variable {tokens : List FtsToken}

theorem texts_phrase {terms : List Term} (phrase : IsPhrase tokens terms) :
    texts tokens = terms.map Term.text := by
  induction phrase with
  | string text => rfl
  | star text => rfl
  | plus text phrase ih => rw [texts_append, ih, List.map_append]; rfl
  | plusStar text phrase ih => rw [texts_append, ih, List.map_append]; rfl

variable {columns : Option Columns}

theorem plain_phrase {first : Bool} {terms : List Term}
    (plain : (Expr.phrase columns first terms).plainTerms = some words) :
    columns = none ∧ first = false ∧ terms.map Term.text = words ∧ words ≠ [] := by
  match terms with
  | [] => cases plain
  | [term] =>
      obtain ⟨⟨unfiltered, anywhere⟩, same⟩ := Option.ite_none_right_eq_some.mp plain
      cases same
      exact ⟨unfiltered, anywhere, rfl, List.cons_ne_nil _ _⟩
  | _ :: _ :: _ => cases plain

variable {expr : Expr}

theorem texts_near (near : IsNear columns tokens expr) (plain : expr.plainTerms = some words) :
    columns = none ∧ texts tokens = words ∧ words ≠ [] := by
  cases near with
  | phrase phrase =>
      obtain ⟨unfiltered, _, same, nonempty⟩ := plain_phrase plain
      exact ⟨unfiltered, (texts_phrase phrase).trans same, nonempty⟩
  | first phrase =>
      obtain ⟨_, impossible, _⟩ := plain_phrase plain
      cases impossible
  | near group => cases plain
  | nearWithin distance group => cases plain

/-- The leaves of a plain query are the strings of its tokens. -/
theorem texts_derives {level : Level} (derived : Derives level tokens expr)
    (plain : expr.plainTerms = some words) : texts tokens = words ∧ words ≠ [] := by
  induction derived generalizing words with
  | or before after first second =>
      obtain ⟨left, right, isFirst, isSecond, rfl⟩ := plain_join plain
      rw [texts_append, (first isFirst).1, ← (second isSecond).1]
      exact ⟨rfl, List.append_ne_nil_of_left_ne_nil (first isFirst).2 _⟩
  | conjunction inner ih => exact ih plain
  | and before after first second =>
      obtain ⟨left, right, isFirst, isSecond, rfl⟩ := plain_join plain
      rw [texts_append, (first isFirst).1, ← (second isSecond).1]
      exact ⟨rfl, List.append_ne_nil_of_left_ne_nil (first isFirst).2 _⟩
  | negation inner ih => exact ih plain
  | not before after first second => cases plain
  | operand inner ih => exact ih plain
  | parens inner ih =>
      rw [← (ih plain).1]
      refine ⟨?_, by rw [(ih plain).1]; exact (ih plain).2⟩
      rw [texts_append]
      exact List.append_nil _
  | within named inner ih => cases plain
  | sequence inner ih => exact ih plain
  | one near => exact (texts_near near plain).2
  | oneWithin named near => exact absurd (texts_near near plain).1 (Option.some_ne_none _)
  | more before near first =>
      obtain ⟨left, right, isFirst, isSecond, rfl⟩ := plain_join plain
      rw [texts_append, (first isFirst).1, (texts_near near isSecond).2.1]
      exact ⟨rfl, List.append_ne_nil_of_left_ne_nil (first isFirst).2 _⟩
  | moreWithin before named near first =>
      obtain ⟨left, right, isFirst, isSecond, rfl⟩ := plain_join plain
      exact absurd (texts_near near isSecond).1 (Option.some_ne_none _)

/-! ### The tokens of words -/

def Reserved (word : List Char) : Prop :=
  word = ['O', 'R'] ∨ word = ['N', 'O', 'T'] ∨ word = ['A', 'N', 'D']

variable {word : List Char}

theorem wordToken_string (free : ¬ Reserved word) : wordToken word = .string word := by
  unfold wordToken
  rw [if_neg (fun same => free (Or.inl same)), if_neg (fun same => free (Or.inr (Or.inl same))),
    if_neg (fun same => free (Or.inr (Or.inr same)))]

instance (word : List Char) : Decidable (Reserved word) :=
  inferInstanceAs (Decidable (_ ∨ _ ∨ _))

theorem tokenText_reserved (reserved : Reserved word) : tokenText (wordToken word) = none := by
  rcases reserved with same | same | same
  · rw [same]
    rfl
  · rw [same]
    rfl
  · rw [same]
    rfl

/-- The strings among the tokens of words are the words that are no operators. -/
theorem texts_words (words : List (List Char)) :
    texts (words.map wordToken) = words.filter (fun word => ¬ Reserved word) := by
  induction words with
  | nil => rfl
  | cons word words ih =>
      unfold texts at ih ⊢
      by_cases reserved : Reserved word
      · rw [List.map_cons, List.filterMap_cons_none (tokenText_reserved reserved), ih,
          List.filter_cons_of_neg]
        exact fun free => absurd reserved (of_decide_eq_true free)
      · have read : tokenText (wordToken word) = some word := by
          rw [wordToken_string reserved]
          rfl
        have kept : decide (¬ Reserved word) = true := decide_eq_true reserved
        rw [List.map_cons, List.filterMap_cons_some read, ih, List.filter_cons, if_pos kept]

theorem free_of_texts (same : texts (words.map wordToken) = words) :
    ∀ word ∈ words, ¬ Reserved word := by
  rw [texts_words, List.filter_eq_self] at same
  intro word member
  exact of_decide_eq_true (same word member)

/-! ### Reading words -/

theorem fold_word (bare : ∀ char ∈ word, bareword char = true)
    (read : List FtsToken) (pending : List Char) :
    word.foldl Lexer.next { read := read, mode := .bare pending } =
      { read := read, mode := .bare (pending ++ word) } := by
  induction word generalizing pending with
  | nil => rw [List.append_nil]; rfl
  | cons char word ih =>
      have first := bare char List.mem_cons_self
      have taken : Lexer.next { read := read, mode := .bare pending } char =
          { read := read, mode := .bare (pending ++ [char]) } := if_pos first
      rw [List.foldl_cons, taken, ih (fun other member => bare other (List.mem_cons_of_mem _ member)),
        List.append_assoc, List.singleton_append]

/-- A word that the sanitisers hand over: not empty, of bare characters. -/
def Bare (word : List Char) : Prop :=
  word ≠ [] ∧ ∀ char ∈ word, bareword char = true

theorem flush_bare (bare : Bare word) : Lexer.flush word = [wordToken word] :=
  if_neg bare.1

variable {first : List Char}

theorem close_spaced (bare : ∀ word ∈ words, Bare word)
    (isFirst : Bare first) (read : List FtsToken) :
    ((words.flatMap (fun word => ' ' :: word)).foldl Lexer.next
        { read := read, mode := .bare first }).close =
      some (read ++ (first :: words).map wordToken) := by
  induction words generalizing first read with
  | nil =>
      change some (read ++ Lexer.flush first) = _
      rw [flush_bare isFirst]
      rfl
  | cons word words ih =>
      have isWord := bare word List.mem_cons_self
      have spaced : Lexer.next { read := read, mode := .bare first } ' ' =
          { read := read ++ [wordToken first], mode := .bare [] } := by
        rw [← flush_bare isFirst]
        rfl
      rw [List.flatMap_cons, List.foldl_append, List.foldl_cons, spaced, fold_word isWord.2,
        List.nil_append, ih (fun other member => bare other (List.mem_cons_of_mem _ member)) isWord,
        List.append_assoc]
      rfl

/-- Words between single spaces are read as their tokens. -/
theorem lex_spaced (isFirst : Bare first) (bare : ∀ word ∈ words, Bare word) :
    lex (first ++ words.flatMap (fun word => ' ' :: word)) =
      some ((first :: words).map wordToken) := by
  unfold lex Lexer.start
  rw [List.foldl_append, fold_word isFirst.2, List.nil_append, close_spaced bare isFirst]
  rfl

/-- The tokens of the starred words that follow one. -/
def starredTokens (words : List (List Char)) : List FtsToken :=
  words.flatMap (fun word => [.or, wordToken word, .star])

theorem fold_starred (bare : Bare word) (read : List FtsToken) :
    (word ++ ['*']).foldl Lexer.next { read := read, mode := .bare [] } =
      { read := read ++ [wordToken word, .star], mode := .bare [] } := by
  have star : Lexer.next { read := read, mode := .bare word } '*' =
      { read := read ++ Lexer.flush word ++ [.star], mode := .bare [] } := rfl
  rw [List.foldl_append, fold_word bare.2, List.nil_append, List.foldl_cons, List.foldl_nil, star,
    flush_bare bare, List.append_assoc]
  rfl

theorem starredTokens_cons (word : List Char) (words : List (List Char)) :
    starredTokens (word :: words) = [.or] ++ ([wordToken word, .star] ++ starredTokens words) := rfl

theorem close_starred (bare : ∀ word ∈ words, Bare word) (read : List FtsToken) :
    ((words.flatMap (fun word => [' ', 'O', 'R', ' '] ++ (word ++ ['*']))).foldl Lexer.next
        { read := read, mode := .bare [] }).close =
      some (read ++ starredTokens words) := by
  induction words generalizing read with
  | nil => rfl
  | cons word words ih =>
      have joined : [' ', 'O', 'R', ' '].foldl Lexer.next { read := read, mode := .bare [] } =
          { read := read ++ [] ++ [.or], mode := .bare [] } := rfl
      rw [List.flatMap_cons, List.foldl_append, List.foldl_append, joined, List.append_nil,
        fold_starred (bare word List.mem_cons_self),
        ih (fun other member => bare other (List.mem_cons_of_mem _ member)), starredTokens_cons,
        List.append_assoc, List.append_assoc]

theorem lex_starred (isFirst : Bare first) (bare : ∀ word ∈ words, Bare word) :
    lex (first ++ ['*'] ++ words.flatMap (fun word => [' ', 'O', 'R', ' '] ++ (word ++ ['*']))) =
      some ([wordToken first, .star] ++ starredTokens words) := by
  unfold lex Lexer.start
  rw [List.foldl_append, fold_starred isFirst, close_starred bare]
  rfl

theorem texts_star (token : FtsToken) (tokens : List FtsToken) :
    texts ([token, .star] ++ tokens) = texts [token] ++ texts tokens := by
  have alone : texts [token, .star] = texts [token] := by
    rw [← List.singleton_append, texts_append]
    exact List.append_nil _
  rw [texts_append, alone]

theorem texts_starred (first : List Char) (words : List (List Char)) :
    texts ([wordToken first, .star] ++ starredTokens words) =
      texts ((first :: words).map wordToken) := by
  induction words generalizing first with
  | nil =>
      rw [texts_star]
      exact List.append_nil _
  | cons word words ih =>
      have split : texts ((first :: word :: words).map wordToken) =
          texts [wordToken first] ++ texts ((word :: words).map wordToken) := texts_append [_] _
      rw [texts_star, starredTokens_cons, texts_append, ih word, split]
      rfl

/-! ### Words without operators are plain queries -/

variable {texts : List (List Char)}

variable {left : List FtsToken}

theorem derives_strings
    (before : Derives .sequence left expr) (plain : expr.plainTerms = some texts)
    (words : List (List Char)) :
    ∃ whole, Derives .sequence (left ++ words.map .string) whole ∧
      whole.plainTerms = some (texts ++ words) := by
  induction words generalizing left expr texts with
  | nil =>
      rw [List.map_nil, List.append_nil, List.append_nil]
      exact ⟨expr, before, plain⟩
  | cons word words ih =>
      have joined : (Expr.and expr (.phrase none false [⟨word, false⟩])).plainTerms =
          some (texts ++ [word]) := by
        change expr.plainTerms.bind _ = _
        rw [plain]
        rfl
      obtain ⟨whole, derived, leaves⟩ := ih (before.more (.phrase (.string word))) joined
      rw [List.append_assoc, List.singleton_append] at derived leaves
      exact ⟨whole, derived, leaves⟩

theorem derives_starred
    (before : Derives .disjunction left expr) (plain : expr.plainTerms = some texts)
    (words : List (List Char)) (free : ∀ word ∈ words, ¬ Reserved word) :
    ∃ whole, Derives .disjunction (left ++ starredTokens words) whole ∧
      whole.plainTerms = some (texts ++ words) := by
  induction words generalizing left expr texts with
  | nil =>
      rw [List.append_nil, starredTokens, List.flatMap_nil, List.append_nil]
      exact ⟨expr, before, plain⟩
  | cons word words ih =>
      have joined : (Expr.or expr (.phrase none false [⟨word, true⟩])).plainTerms =
          some (texts ++ [word]) := by
        change expr.plainTerms.bind _ = _
        rw [plain]
        rfl
      have term : Derives .conjunction [.string word, .star] (.phrase none false [⟨word, true⟩]) :=
        .negation (.operand (.sequence (.one (.phrase (.star word)))))
      obtain ⟨whole, derived, leaves⟩ := ih (before.or term) joined
        (fun other member => free other (List.mem_cons_of_mem _ member))
      rw [starredTokens, List.flatMap_cons, wordToken_string (free word List.mem_cons_self)]
      rw [List.append_assoc] at derived leaves
      exact ⟨whole, derived, leaves⟩

theorem map_wordToken (free : ∀ word ∈ words, ¬ Reserved word) :
    words.map wordToken = words.map .string :=
  List.map_congr_left (fun word member => wordToken_string (free word member))

/-- Words between single spaces are a plain query of theirs, exactly where none
of them is an operator. -/
theorem plainQuery_spaced_iff (isFirst : Bare first) (bare : ∀ word ∈ words, Bare word) :
    PlainQuery (first :: words) (first ++ words.flatMap (fun word => ' ' :: word)) ↔
      ∀ word ∈ first :: words, ¬ Reserved word := by
  constructor
  · intro query
    obtain ⟨expr, ⟨tokens, read, derived⟩, plain⟩ := query
    rw [lex_spaced isFirst bare, Option.some.injEq] at read
    have leaves := (texts_derives derived plain).1
    rw [← read] at leaves
    exact free_of_texts leaves
  · intro free
    have one : Derives .sequence [.string first] (.phrase none false [⟨first, false⟩]) :=
      .one (.phrase (.string first))
    obtain ⟨whole, derived, plain⟩ := derives_strings one rfl words
    refine ⟨whole, ⟨_, lex_spaced isFirst bare, ?_⟩, plain⟩
    rw [map_wordToken free]
    exact .conjunction (.negation (.operand (.sequence derived)))

theorem plainQuery_starred_iff (isFirst : Bare first) (bare : ∀ word ∈ words, Bare word) :
    PlainQuery (first :: words)
        (first ++ ['*'] ++ words.flatMap (fun word => [' ', 'O', 'R', ' '] ++ (word ++ ['*']))) ↔
      ∀ word ∈ first :: words, ¬ Reserved word := by
  constructor
  · intro query
    obtain ⟨expr, ⟨tokens, read, derived⟩, plain⟩ := query
    rw [lex_starred isFirst bare, Option.some.injEq] at read
    have leaves := (texts_derives derived plain).1
    rw [← read, texts_starred] at leaves
    exact free_of_texts leaves
  · intro free
    have one : Derives .disjunction [.string first, .star] (.phrase none false [⟨first, true⟩]) :=
      .conjunction (.negation (.operand (.sequence (.one (.phrase (.star first))))))
    obtain ⟨whole, derived, plain⟩ := derives_starred one rfl words
      (fun word member => free word (List.mem_cons_of_mem _ member))
    refine ⟨whole, ⟨_, lex_starred isFirst bare, ?_⟩, plain⟩
    rw [wordToken_string (free first List.mem_cons_self)]
    exact derived

/-- A star alone is no query of words. -/
theorem not_plainQuery_star (words : List (List Char)) : ¬ PlainQuery words ['*'] := by
  intro query
  obtain ⟨expr, ⟨tokens, read, derived⟩, plain⟩ := query
  obtain ⟨leaves, some_word⟩ := texts_derives derived plain
  cases read
  exact some_word leaves.symm

end Fts

end Mneme.Library
