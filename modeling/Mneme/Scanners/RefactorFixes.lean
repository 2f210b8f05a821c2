/-
The fixes that the scanner of refactorings offers: what each of them cuts out, and when a fix
is one that can be applied unread.

The expressions of the scanner are those of the source.  Whether the engine compiles the
expression for an identifier is taken as it is: one of many megabytes is refused.
-/

import Mneme.Scanners.Panics
import Mneme.Scanners.SecretsKept

namespace Mneme.Scanners.RefactorFixes

open Common Library Expression
open Secrets (Unicode set sequence choice least matchAt lastLine_more asciiTables)

/-! ### The expressions -/

/-- An expression that begins where a line does, with a group. -/
structure Grouped where
  front : Expression
  group : Expression
  back : Expression
  /-- It ends where a line does. -/
  toLineEnd : Bool

def atLine (text : List Char) : Bool :=
  text.head?.all (· = '\n')

/-- The lengths of the three parts, the preferred ways first. -/
def Grouped.ways (word : Char → Bool) (grouped : Grouped) (behind ahead : List Char) :
    List (Nat × Nat × Nat) :=
  (grouped.front.readings word behind ahead).flatMap (fun front =>
    let behind := (ahead.take front).reverse ++ behind
    let ahead := ahead.drop front
    (grouped.group.readings word behind ahead).flatMap (fun group =>
      let behind := (ahead.take group).reverse ++ behind
      let ahead := ahead.drop group
      ((grouped.back.readings word behind ahead).filter (fun back =>
        !grouped.toLineEnd || atLine (ahead.drop back))).map (fun back => (front, group, back))))

def Grouped.first (word : Char → Bool) (grouped : Grouped) (behind ahead : List Char) :
    Option (Nat × Nat × Nat) :=
  if atLine behind then (grouped.ways word behind ahead).head? else none

def Grouped.find (word : Char → Bool) (grouped : Grouped) (behind ahead : List Char) :
    Option Nat :=
  (grouped.first word behind ahead).map (fun parts => parts.1 + (parts.2.1 + parts.2.2))

def Grouped.pattern (word : Char → Bool) (grouped : Grouped) : GroupPattern where
  capturesIter := fun content =>
    (Search.findIter (grouped.find word) 0 [] content).filterMap (fun found =>
      (grouped.first word (content.take found.1).reverse (content.drop found.1)).map (fun parts =>
        { full := matchAt content found
          group := matchAt content (found.1 + parts.1, parts.2.1) }))

def blanks : Expression :=
  least isWhitespace 0

def gap : Expression :=
  least isWhitespace 1

/-- `from` and the name of a module, up to the end of the statement. -/
def fromModule : Expression :=
  sequence [literal "from", blanks, one (set "'\""), least (fun char => !set "'\"" char) 1,
    one (set "'\""), blanks, option (literal ";"), blanks]

def identifier : Expression :=
  seq (one (set "A-Za-z_$")) (least (set "A-Za-z0-9_$") 0)

def exported : Expression :=
  option (seq (literal "export") gap)

def importNamed : Grouped where
  front := sequence [blanks, literal "import", blanks, literal "\x7b", blanks]
  group := least (fun char => char ≠ '\x7d') 1
  back := sequence [blanks, literal "\x7d", blanks, fromModule]
  toLineEnd := true

def importDefault : Grouped where
  front := sequence [blanks, literal "import", gap]
  group := identifier
  back := seq gap fromModule
  toLineEnd := true

def fnDecl : Grouped where
  front := sequence [exported, option (seq (literal "async") gap), literal "function", gap]
  group := identifier
  back := seq blanks (literal "(")
  toLineEnd := false

def varDecl : Grouped where
  front := sequence [exported, choice "const" ["let"], gap]
  group := identifier
  back := seq blanks (one (set ":="))
  toLineEnd := false

def typeDecl : Grouped where
  front := sequence [exported, choice "class" ["interface", "type"], gap]
  group := identifier
  back := nothing
  toLineEnd := false

/-- The identifier between two boundaries of words. -/
def asWord (ident : List Char) : Expression :=
  seq boundary (seq (literal (String.ofList ident)) boundary)

variable (unicode : Unicode) (compiles : List Char → Bool)

def refactorPatterns : RefactorPatterns where
  importNamed := importNamed.pattern unicode.word
  importDefault := importDefault.pattern unicode.word
  fnDecl := fnDecl.pattern unicode.word
  varDecl := varDecl.pattern unicode.word
  typeDecl := typeDecl.pattern unicode.word
  word := fun ident =>
    if compiles ident then
      some { findIter := fun content =>
        (Search.findIter ((asWord ident).find unicode.word) 0 [] content).map (matchAt content) }
    else none

/-! ### What a fix is for -/

variable {content : List Char}

/-- The match without the blanks at its ends. -/
def statement (place : Match content) : Match content where
  before := place.before ++ place.matched.takeWhile isWhitespace
  matched := trimmed place.matched
  after := (place.matched.dropWhile isWhitespace).rtakeWhile isWhitespace ++ place.after
  whole := by
    have inner : trimmed place.matched ++
        (place.matched.dropWhile isWhitespace).rtakeWhile isWhitespace =
          place.matched.dropWhile isWhitespace := List.rdropWhile_append_rtakeWhile
    rw [List.append_assoc, ← List.append_assoc (trimmed _), inner,
      ← List.append_assoc (place.matched.takeWhile _), List.takeWhile_append_dropWhile]
    exact place.whole

/-- A character that an identifier goes on with. -/
def continues (char : Char) : Bool :=
  unicode.word char || char = '$'

/-- The match with the rest of the identifier that it is in. -/
def wholeName (place : Match content) : Match content where
  before := place.before
  matched := place.matched ++ place.after.takeWhile (continues unicode)
  after := place.after.dropWhile (continues unicode)
  whole := by
    rw [List.append_assoc, List.takeWhile_append_dropWhile]
    exact place.whole

/-- The text has the name as an identifier. -/
def Stands (name text : List Char) : Prop :=
  ∃ before after, text = before ++ (name ++ after) ∧
    before.getLast?.any (continues unicode) = false ∧
    after.head?.any (continues unicode) = false

/-- The names that an import of several gives. -/
def specifiers (body : List Char) : List (List Char) :=
  ((body.splitOn ',').filter (fun raw => trimmed raw ≠ [])).map (fun raw =>
    localIdent (trimmed raw))

inductive Report (content : List Char) where
  | unusedNamed (captures : Captures content) (ident : List Char)
  | unusedDefault (captures : Captures content)
  | misnamed (ruleId kind convention : String) (ident : Match content) (suggested : List Char)

namespace Report

/-- What the expression found, and the finding is made of. -/
def matched : Report content → Match content
  | unusedNamed captures _ => captures.full
  | unusedDefault captures => captures.full
  | misnamed _ _ _ ident _ => ident

/-- What is reported. -/
def construct : Report content → Match content
  | unusedNamed captures _ => statement captures.full
  | unusedDefault captures => statement captures.full
  | misnamed _ _ _ ident _ => wholeName unicode ident

def rule : Report content → Rule
  | unusedNamed _ ident =>
      { ruleId := "refactor.unused-import"
        severity := .info
        message := s!"Unused named import `{String.ofList ident}` — safe to remove."
        suggestion := some "" }
  | unusedDefault captures =>
      { ruleId := "refactor.unused-import"
        severity := .info
        message := s!"Unused default import `{captures.group.text}` — safe to remove."
        suggestion := some "" }
  | misnamed ruleId kind convention ident suggested =>
      { ruleId
        severity := .info
        message := s!"{kind} `{ident.text}` violates {convention} convention — suggest " ++
          s!"`{String.ofList suggested}`."
        suggestion := some (String.ofList suggested) }

def finding (file : String) (report : Report content) : Finding :=
  report.matched.finding file report.rule

/-- The name that it is about. -/
def name : Report content → List Char
  | unusedNamed _ ident => ident
  | unusedDefault captures => captures.group.matched
  | misnamed _ _ _ ident _ => (wholeName unicode ident).matched

/-- The names that are bound by the construct and not by what the fix puts there. -/
def lost : Report content → List (List Char)
  | unusedNamed captures _ => specifiers captures.group.matched
  | unusedDefault captures => [captures.group.matched]
  | misnamed _ _ _ ident suggested =>
      if suggested = (wholeName unicode ident).matched then []
      else [(wholeName unicode ident).matched]

end Report

/-- The line from 1 on and the byte from 0 on where a text ends. -/
def position (text : List Char) : Nat × Nat :=
  (1 + text.count '\n', (utf8 (lastLine text)).length)

/-- The span of the finding is this place. -/
def Covers (finding : Finding) (place : Match content) : Prop :=
  (finding.lineStart.toNat, finding.columnStart.toNat) = position place.before ∧
    (finding.lineEnd.toNat, finding.columnEnd.toNat) = position (place.before ++ place.matched)

/-- The fix can be applied unread: it takes the construct, with it no name but the one that is
reported, and this name stands nowhere else. -/
structure Report.Safe (file : String) (report : Report content) : Prop where
  covers : Covers (report.finding file) (report.construct unicode)
  only : ∀ name ∈ report.lost unicode, name = report.name unicode
  free : ∀ name ∈ report.lost unicode,
    ¬ Stands unicode name report.matched.before ∧ ¬ Stands unicode name report.matched.after

/-! ### The reports of a text -/

section Reports

variable (patterns : RefactorPatterns) (content)

def unusedNamed : List (Report content) :=
  (patterns.importNamed.capturesIter content).flatMap (fun captures =>
    (captures.group.matched.splitOn ',').flatMap (fun raw =>
      let ident := localIdent (trimmed raw)
      if trimmed raw = [] || !ident.all isIdentChar ||
          countOccurrences patterns captures.full.after ident ≠ 0 then []
      else [.unusedNamed captures ident]))

def unusedDefault : List (Report content) :=
  (patterns.importDefault.capturesIter content).flatMap (fun captures =>
    if countOccurrences patterns captures.full.after captures.group.matched = 0 then
      [.unusedDefault captures]
    else [])

/-- The declared names that a test refuses. -/
def misnamed (pattern : GroupPattern) (accepts : List Char → Bool)
    (ruleId kind convention : String) (suggest : List Char → List Char) : List (Report content) :=
  (pattern.capturesIter content).flatMap (fun captures =>
    if accepts captures.group.matched then []
    else
      [.misnamed ruleId kind convention captures.group (suggest captures.group.matched)])

def reported : List (Report content) :=
  unusedNamed content patterns ++ unusedDefault content patterns ++
    misnamed content patterns.fnDecl isCamelCase "refactor.rename-function" "Function" "camelCase"
      toCamelCase ++
    misnamed content patterns.varDecl (fun name => isCamelCase name || isUpperSnake name)
      "refactor.rename-variable" "Top-level binding" "camelCase" toCamelCase ++
    misnamed content patterns.typeDecl isPascalCase "refactor.rename-type" "Type" "PascalCase"
      toPascalCase

end Reports

/-! ### Spans -/

theorem finding_toNat (place : Match content) (file : String) (rule : Rule) :
    (place.finding file rule).lineStart.toNat = (1 + place.before.count '\n') % 2 ^ 32 ∧
      (place.finding file rule).lineEnd = (place.finding file rule).lineStart ∧
      (place.finding file rule).columnStart.toNat =
        (utf8 (lastLine place.before)).length % 2 ^ 32 ∧
      (place.finding file rule).columnEnd.toNat =
        ((utf8 (lastLine place.before)).length + place.width) % 2 ^ 32 := by
  have position := lineColOf_boundary place.before (place.matched ++ place.after)
  rw [← place.whole] at position
  have start : place.start = (utf8 place.before).length := rfl
  have sum : (UInt32.ofNat (utf8 (lastLine place.before)).length +
      UInt32.ofNat place.width).toNat =
        ((utf8 (lastLine place.before)).length + place.width) % 2 ^ 32 := by
    rw [← UInt32.ofNat_add]
    exact UInt32.toNat_ofNat'
  unfold Match.finding Rule.finding
  rw [start, position]
  cases rule.suggestion with
  | none => exact ⟨UInt32.toNat_ofNat', rfl, UInt32.toNat_ofNat', sum⟩
  | some suggestion => exact ⟨UInt32.toNat_ofNat', rfl, UInt32.toNat_ofNat', sum⟩

/-- A place that begins with the match or behind some of it is covered only from its start on,
and only in one line. -/
theorem covers_iff (matched construct : Match content) {lead : List Char}
    (start : construct.before = matched.before ++ lead) (file : String) (rule : Rule) :
    Covers (matched.finding file rule) construct ↔
      lead = [] ∧ '\n' ∉ construct.matched ∧ 1 + matched.before.count '\n' < 2 ^ 32 ∧
        ((utf8 (lastLine matched.before)).length + matched.width) % 2 ^ 32 =
          (utf8 (lastLine matched.before)).length + construct.width := by
  obtain ⟨line, sameLine, column, column'⟩ := finding_toNat matched file rule
  unfold Covers position
  rw [sameLine, line, column, column', start, Prod.mk.injEq, Prod.mk.injEq]
  constructor
  · rintro ⟨⟨atLine, atColumn⟩, toLine, toColumn⟩
    have below := Nat.mod_le (1 + matched.before.count '\n') (2 ^ 32)
    have small := Nat.mod_lt (1 + matched.before.count '\n') (show 2 ^ 32 > 0 by decide)
    rw [List.count_append] at atLine
    have noLead : '\n' ∉ lead := List.count_eq_zero.mp (by omega)
    rw [lastLine_more _ noLead, utf8_append, List.length_append] at atColumn
    have below' := Nat.mod_le (utf8 (lastLine matched.before)).length (2 ^ 32)
    have none : lead = [] := utf8_length_eq_zero (by omega)
    rw [none, List.append_nil] at toLine toColumn
    rw [List.count_append] at toLine
    have oneLine : '\n' ∉ construct.matched := List.count_eq_zero.mp (by omega)
    rw [lastLine_more _ oneLine, utf8_append, List.length_append] at toColumn
    exact ⟨none, oneLine, by omega, toColumn⟩
  · rintro ⟨rfl, oneLine, numbered, width⟩
    have small := Nat.mod_lt ((utf8 (lastLine matched.before)).length + matched.width)
      (show 2 ^ 32 > 0 by decide)
    rw [List.append_nil, Nat.mod_eq_of_lt numbered, Nat.mod_eq_of_lt (by omega), List.count_append,
      List.count_eq_zero_of_not_mem oneLine, lastLine_more _ oneLine, utf8_append,
      List.length_append]
    exact ⟨⟨rfl, rfl⟩, rfl, width⟩

/-- What the finding has to say of the statement that was matched: it begins the match, it is on
one line, and the blanks behind it are none or fill the 32 bits of a column. -/
structure Tight (place : Match content) : Prop where
  lead : place.matched.takeWhile isWhitespace = []
  trail : 2 ^ 32 ∣ (utf8 ((place.matched.dropWhile isWhitespace).rtakeWhile isWhitespace)).length
  oneLine : '\n' ∉ trimmed place.matched
  numbered : 1 + place.before.count '\n' < 2 ^ 32
  column : (utf8 (lastLine place.before)).length + (utf8 (trimmed place.matched)).length < 2 ^ 32

theorem covers_statement_iff (place : Match content) (file : String) (rule : Rule) :
    Covers (place.finding file rule) (statement place) ↔ Tight place := by
  rw [covers_iff place (statement place) rfl]
  have width : place.width = (utf8 (place.matched.takeWhile isWhitespace)).length +
      ((utf8 (trimmed place.matched)).length +
        (utf8 ((place.matched.dropWhile isWhitespace).rtakeWhile isWhitespace)).length) := by
    have inner : trimmed place.matched ++
        (place.matched.dropWhile isWhitespace).rtakeWhile isWhitespace =
          place.matched.dropWhile isWhitespace := List.rdropWhile_append_rtakeWhile
    rw [← List.length_append, ← utf8_append, inner, ← List.length_append, ← utf8_append,
      List.takeWhile_append_dropWhile]
    rfl
  have nothingThere : (utf8 []).length = 0 := rfl
  constructor
  · rintro ⟨lead, oneLine, numbered, column⟩
    have small := Nat.mod_lt ((utf8 (lastLine place.before)).length + place.width)
      (show 2 ^ 32 > 0 by decide)
    rw [lead, nothingThere, Nat.zero_add] at width
    change _ = _ + (utf8 (trimmed place.matched)).length at column
    exact ⟨lead, by omega, oneLine, numbered, by omega⟩
  · rintro ⟨lead, trail, oneLine, numbered, column⟩
    rw [lead, nothingThere, Nat.zero_add] at width
    refine ⟨lead, oneLine, numbered, ?_⟩
    change _ = _ + (utf8 (trimmed place.matched)).length
    omega

/-- What the finding has to say of a name: the identifier ends with it, and its columns are
those of the text. -/
structure Exact (place : Match content) : Prop where
  ends : place.after.head?.any (continues unicode) = false
  numbered : 1 + place.before.count '\n' < 2 ^ 32
  column : (utf8 (lastLine place.before)).length + place.width < 2 ^ 32

variable {text name : List Char}

theorem takeWhile_eq_nil_iff {accept : Char → Bool} :
    text.takeWhile accept = [] ↔ text.head?.any accept = false := by
  cases text with
  | nil => exact iff_of_true rfl rfl
  | cons char rest =>
      rw [List.takeWhile_cons, List.head?_cons, Option.any_some]
      cases accept char <;> simp

theorem covers_name_iff {place : Match content} (oneLine : '\n' ∉ place.matched) (file : String)
    (rule : Rule) :
    Covers (place.finding file rule) (wholeName unicode place) ↔ Exact unicode place := by
  rw [covers_iff place (wholeName unicode place) (List.append_nil _).symm]
  have width : (wholeName unicode place).width =
      place.width + (utf8 (place.after.takeWhile (continues unicode))).length := by
    rw [Match.width, wholeName, utf8_append, List.length_append]
    rfl
  rw [width]
  constructor
  · rintro ⟨-, -, numbered, column⟩
    have below := Nat.mod_le ((utf8 (lastLine place.before)).length + place.width) (2 ^ 32)
    have small := Nat.mod_lt ((utf8 (lastLine place.before)).length + place.width)
      (show 2 ^ 32 > 0 by decide)
    exact ⟨takeWhile_eq_nil_iff.mp (utf8_length_eq_zero (by omega)), numbered, by omega⟩
  · rintro ⟨ends, numbered, column⟩
    rw [← takeWhile_eq_nil_iff] at ends
    refine ⟨rfl, ?_, numbered, ?_⟩
    · change '\n' ∉ place.matched ++ place.after.takeWhile (continues unicode)
      rw [ends, List.append_nil]
      exact oneLine
    · rw [ends, Nat.mod_eq_of_lt column]
      rfl

/-! ### Counting -/

/-- A name that the count of the scanner finds wherever it stands. -/
structure Countable (name : List Char) : Prop where
  compiles : compiles name = true
  first : name.head?.any unicode.word = true
  last : name.getLast?.any unicode.word = true

variable {unicode compiles} in
theorem notWord_of_notContinues {neighbour : Option Char}
    (apart : neighbour.any (continues unicode) = false) : neighbour.any unicode.word = false := by
  cases neighbour with
  | none => rfl
  | some char =>
      rw [Option.any_some, continues, Bool.or_eq_false_iff] at apart
      exact apart.1

variable {unicode compiles} in
/-- An identifier that begins and ends with a character of a word is read where it stands. -/
theorem asWord_reads {before after : List Char} (countable : Countable unicode compiles name)
    (left : before.getLast?.any (continues unicode) = false)
    (right : after.head?.any (continues unicode) = false) :
    (asWord name).find unicode.word before.reverse (name ++ after) ≠ none := by
  have some_ : name ≠ [] := by
    rintro rfl
    cases countable.first
  have opens : atBoundary unicode.word before.reverse (name ++ after) = true := by
    rw [atBoundary, List.head?_reverse, notWord_of_notContinues left,
      List.head?_append_of_ne_nil _ some_, countable.first]
    rfl
  have closes : atBoundary unicode.word (name.reverse ++ before.reverse) after = true := by
    rw [atBoundary, notWord_of_notContinues right,
      List.head?_append_of_ne_nil _ (List.reverse_ne_nil_iff.mpr some_), List.head?_reverse,
      countable.last]
    rfl
  have middle := @literal_reads unicode.word (String.ofList name) before.reverse after
  rw [String.toList_ofList] at middle
  have member : 0 + (name.length + 0) ∈
      (asWord name).readings unicode.word before.reverse (name ++ after) := by
    refine mem_readings_seq.mpr ⟨0, _, ?_, mem_readings_seq.mpr ⟨name.length, 0, middle, ?_, rfl⟩, rfl⟩
    · rw [readings, if_pos opens]
      exact List.mem_singleton_self 0
    · rw [List.drop_zero, List.take_left, List.drop_left, readings]
      change 0 ∈ if atBoundary unicode.word (name.reverse ++ before.reverse) after then [0] else []
      rw [if_pos closes]
      exact List.mem_singleton_self 0
  intro none
  rw [Expression.find, List.head?_eq_none_iff] at none
  rw [none] at member
  cases member

variable {unicode compiles} in
/-- A name that is counted nowhere stands nowhere. -/
theorem not_stands (countable : Countable unicode compiles name)
    (none : countOccurrences (refactorPatterns unicode compiles) text name = 0) :
    ¬ Stands unicode name text := by
  rintro ⟨before, after, split, left, right⟩
  have some_ : name ≠ [] := by
    rintro rfl
    cases countable.first
  have empty : Search.findIter ((asWord name).find unicode.word) 0 [] text = [] := by
    unfold countOccurrences refactorPatterns at none
    dsimp only at none
    rw [if_neg some_, if_pos countable.compiles] at none
    exact List.map_eq_nil_iff.mp (List.length_eq_zero_iff.mp none)
  have unread := Search.none_of_findIter empty split
    (fun nothing => some_ (List.append_eq_nil_iff.mp nothing).1)
  rw [List.append_nil] at unread
  exact asWord_reads countable left right unread

/-! ### The findings that can be applied -/

theorem eachItem_some {Item : Type} {items : List Item} {body : Item → Option (List Finding)}
    {found : Item → List Finding} (each : ∀ item, body item = some (found item)) :
    eachItem items body = some (items.flatMap found) := by
  have all : items.mapM body = some (items.map found) := by
    induction items with
    | nil => rfl
    | cons item items ih =>
        rw [List.mapM_cons, each, ih]
        rfl
  rw [eachItem, all]
  rfl

theorem rest_eq (place : Match content) :
    textSlice content place.stop (utf8 content).length = some place.after := by
  have size := congrArg (fun text => (utf8 text).length) place.whole
  rw [utf8_append, utf8_append, List.length_append, List.length_append] at size
  refine textSlice_eq_some_iff.mpr ⟨place.before ++ place.matched, [], ?_, ?_, ?_⟩
  · rw [List.append_nil, List.append_assoc]
    exact place.whole
  · rw [utf8_append, List.length_append]
    rfl
  · rw [size, ← Nat.add_assoc]
    rfl

theorem Report.finding_autoFixable (file : String) (report : Report content) :
    (report.finding file).autoFixable = true := by
  cases report <;> rfl

section Findings

variable (patterns : RefactorPatterns) (file : String) (content : List Char)

theorem unusedNamed_findings : patterns.unusedNamed file content =
    some ((unusedNamed content patterns).map (Report.finding file)) := by
  unfold RefactorPatterns.unusedNamed unusedNamed
  rw [List.map_flatMap]
  apply eachItem_some
  intro captures
  rw [rest_eq, Option.bind_eq_bind, Option.bind_some, List.map_flatMap]
  congr 1
  apply List.flatMap_congr
  intro raw _
  dsimp only
  split <;> rfl

theorem unusedDefault_findings : patterns.unusedDefault file content =
    some ((unusedDefault content patterns).map (Report.finding file)) := by
  unfold RefactorPatterns.unusedDefault unusedDefault
  rw [List.map_flatMap]
  apply eachItem_some
  intro captures
  rw [rest_eq, Option.bind_eq_bind, Option.bind_some]
  congr 1
  split <;> rfl

theorem unreferenced_fixes (ident : Match content) (ruleId kind : String) :
    (patterns.unreferenced file content ident ruleId kind).filter Finding.autoFixable = [] := by
  unfold RefactorPatterns.unreferenced
  split <;> rfl

theorem functions_fixes : (patterns.functions file content).filter Finding.autoFixable =
    (misnamed content patterns.fnDecl isCamelCase "refactor.rename-function" "Function"
      "camelCase" toCamelCase).map (Report.finding file) := by
  unfold RefactorPatterns.functions misnamed
  rw [List.filter_flatMap, List.map_flatMap]
  apply List.flatMap_congr
  intro captures _
  dsimp only
  rw [List.filter_append, unreferenced_fixes, List.nil_append]
  split <;> rfl

theorem bindings_fixes : (patterns.bindings file content).filter Finding.autoFixable =
    (misnamed content patterns.varDecl (fun name => isCamelCase name || isUpperSnake name)
      "refactor.rename-variable" "Top-level binding" "camelCase" toCamelCase).map
        (Report.finding file) := by
  unfold RefactorPatterns.bindings misnamed
  rw [List.filter_flatMap, List.map_flatMap]
  apply List.flatMap_congr
  intro captures _
  dsimp only
  split <;> rfl

theorem types_fixes : (patterns.types file content).filter Finding.autoFixable =
    (misnamed content patterns.typeDecl isPascalCase "refactor.rename-type" "Type" "PascalCase"
      toPascalCase).map (Report.finding file) := by
  unfold RefactorPatterns.types misnamed
  rw [List.filter_flatMap, List.map_flatMap]
  apply List.flatMap_congr
  intro captures _
  dsimp only
  rw [List.filter_append, unreferenced_fixes, List.append_nil]
  split <;> rfl

/-- The findings with a fix are those of the reports, in their order. -/
theorem scan_fixes : (patterns.scan file content).map (List.filter Finding.autoFixable) =
    some ((reported content patterns).map (Report.finding file)) := by
  have all : ∀ reports : List (Report content), (reports.map (Report.finding file)).filter
      Finding.autoFixable = reports.map (Report.finding file) := by
    intro reports
    rw [List.filter_eq_self]
    intro finding member
    obtain ⟨report, _, rfl⟩ := List.mem_map.mp member
    exact report.finding_autoFixable file
  unfold RefactorPatterns.scan reported
  rw [unusedNamed_findings, unusedDefault_findings]
  simp only [Option.bind_eq_bind, Option.bind_some, Option.map_some, List.filter_append, all,
    functions_fixes, bindings_fixes, types_fixes, List.map_append]

end Findings

/-! ### When a fix is safe -/

variable {captures : Captures content}

theorem group_uses {word : Char → Bool} {grouped : Grouped}
    (member : captures ∈ (grouped.pattern word).capturesIter content) :
    ∀ char ∈ captures.group.matched, grouped.group.uses char = true := by
  obtain ⟨found, _, taken⟩ := List.mem_filterMap.mp member
  obtain ⟨⟨front, group, back⟩, first, rfl⟩ := Option.map_eq_some_iff.mp taken
  unfold Grouped.first at first
  split at first
  · obtain ⟨front', _, inner⟩ := List.mem_flatMap.mp (List.mem_of_mem_head? first)
    obtain ⟨group', reading, same⟩ := List.mem_flatMap.mp inner
    obtain ⟨back', _, same⟩ := List.mem_map.mp same
    cases same
    change ∀ char ∈ (content.drop (found.1 + front)).take group, _
    rw [← List.drop_drop]
    exact (used_of_mem reading).2
  · cases first

/-- The name stands nowhere before the place, and where the count does not find it, not behind
it either. -/
def Unmentioned (name : List Char) (place : Match content) : Prop :=
  ¬ Stands unicode name place.before ∧
    (Countable unicode compiles name ∨ ¬ Stands unicode name place.after)

/-- When a fix can be applied unread. -/
def Report.Harmless : Report content → Prop
  | .unusedNamed captures ident =>
      Tight captures.full ∧ (∀ name ∈ specifiers captures.group.matched, name = ident) ∧
        Unmentioned unicode compiles ident captures.full
  | .unusedDefault captures =>
      Tight captures.full ∧ Unmentioned unicode compiles captures.group.matched captures.full
  | .misnamed _ _ _ ident suggested =>
      Exact unicode ident ∧ (suggested = ident.matched ∨
        ¬ Stands unicode ident.matched ident.before ∧ ¬ Stands unicode ident.matched ident.after)

variable {unicode compiles} {file : String}

theorem named_safe_iff {ident : List Char} (inside : ident ∈ specifiers captures.group.matched)
    (none : countOccurrences (refactorPatterns unicode compiles) captures.full.after ident = 0) :
    (Report.unusedNamed captures ident).Safe unicode file ↔
      (Report.unusedNamed captures ident).Harmless unicode compiles := by
  constructor
  · rintro ⟨covers, only, free⟩
    obtain ⟨before, after⟩ := free ident inside
    exact ⟨(covers_statement_iff _ _ _).mp covers, only, before, Or.inr after⟩
  · rintro ⟨tight, only, before, after⟩
    refine ⟨(covers_statement_iff _ _ _).mpr tight, only, ?_⟩
    intro name member
    rw [only name member]
    exact ⟨before, after.elim (fun countable => not_stands countable none) id⟩

theorem default_safe_iff
    (none : countOccurrences (refactorPatterns unicode compiles) captures.full.after
      captures.group.matched = 0) :
    (Report.unusedDefault captures).Safe unicode file ↔
      (Report.unusedDefault captures).Harmless unicode compiles := by
  constructor
  · rintro ⟨covers, -, free⟩
    obtain ⟨before, after⟩ := free _ (List.mem_singleton_self _)
    exact ⟨(covers_statement_iff _ _ _).mp covers, before, Or.inr after⟩
  · rintro ⟨tight, before, after⟩
    refine ⟨(covers_statement_iff _ _ _).mpr tight, fun _ => List.mem_singleton.mp, ?_⟩
    intro name member
    rw [List.mem_singleton.mp member]
    exact ⟨before, after.elim (fun countable => not_stands countable none) id⟩

theorem misnamed_safe_iff {ident : Match content} (oneLine : '\n' ∉ ident.matched)
    (ruleId kind convention : String) (suggested : List Char) :
    (Report.misnamed ruleId kind convention ident suggested).Safe unicode file ↔
      (Report.misnamed ruleId kind convention ident suggested).Harmless unicode compiles := by
  have whole : Exact unicode ident → (wholeName unicode ident).matched = ident.matched := by
    intro exactly
    change ident.matched ++ ident.after.takeWhile (continues unicode) = ident.matched
    rw [takeWhile_eq_nil_iff.mpr exactly.ends, List.append_nil]
  constructor
  · rintro ⟨covers, -, free⟩
    have exactly := (covers_name_iff unicode oneLine _ _).mp covers
    refine ⟨exactly, or_iff_not_imp_left.mpr (fun changed => ?_)⟩
    apply free
    rw [← whole exactly] at changed ⊢
    rw [Report.lost, if_neg changed]
    exact List.mem_singleton_self _
  · rintro ⟨exactly, kept⟩
    have lost : ∀ name ∈ (Report.misnamed ruleId kind convention ident suggested).lost unicode,
        suggested ≠ ident.matched ∧ name = ident.matched := by
      intro name member
      rw [Report.lost, whole exactly] at member
      split at member
      · cases member
      · exact ⟨‹_›, List.mem_singleton.mp member⟩
    refine ⟨(covers_name_iff unicode oneLine _ _).mpr exactly, ?_, ?_⟩
    · intro name member
      exact (lost name member).2.trans (whole exactly).symm
    · intro name member
      obtain ⟨changed, rfl⟩ := lost name member
      exact kept.resolve_left changed

variable {suggest : List Char → List Char}

variable {accepts : List Char → Bool}

variable {report : Report content}

theorem mem_misnamed {patterns : GroupPattern} {ruleId kind convention : String}
    (member : report ∈ misnamed content patterns accepts ruleId kind convention suggest) :
    ∃ captures ∈ patterns.capturesIter content, report =
      .misnamed ruleId kind convention captures.group (suggest captures.group.matched) := by
  obtain ⟨captures, found, inside⟩ := List.mem_flatMap.mp member
  refine ⟨captures, found, ?_⟩
  split at inside
  · cases inside
  · exact List.mem_singleton.mp inside

theorem declared_safe_iff {grouped : Grouped} (named : grouped.group = identifier)
    {ruleId kind convention : String}
    (member : report ∈ misnamed content (grouped.pattern unicode.word) accepts ruleId kind
      convention suggest) : report.Safe unicode file ↔ report.Harmless unicode compiles := by
  obtain ⟨captures, found, rfl⟩ := mem_misnamed member
  refine misnamed_safe_iff ?_ ruleId kind convention _
  intro inside
  have used := group_uses found '\n' inside
  rw [named] at used
  exact absurd used (by decide)

variable (unicode compiles file content)

/-- The findings with a fix, and which of these fixes can be applied unread. -/
theorem fixes_safe_iff :
    ((refactorScanner (refactorPatterns unicode compiles)).scan file content).map
        (List.filter Finding.autoFixable) =
      some ((reported content (refactorPatterns unicode compiles)).map (Report.finding file)) ∧
    ∀ report ∈ reported content (refactorPatterns unicode compiles),
      report.Safe unicode file ↔ report.Harmless unicode compiles := by
  refine ⟨scan_fixes _ file content, ?_⟩
  intro report member
  unfold reported at member
  simp only [List.mem_append] at member
  rcases member with (((named | default) | function) | binding) | type
  · obtain ⟨captures, _, member⟩ := List.mem_flatMap.mp named
    obtain ⟨raw, piece, member⟩ := List.mem_flatMap.mp member
    dsimp only at member
    split at member
    · cases member
    · rename_i reports
      rw [List.mem_singleton.mp member]
      simp only [Bool.or_eq_true, decide_eq_true_eq, not_or, not_not] at reports
      exact named_safe_iff (List.mem_map.mpr ⟨raw, List.mem_filter.mpr
        ⟨piece, decide_eq_true reports.1.1⟩, rfl⟩) reports.2
  · obtain ⟨captures, _, member⟩ := List.mem_flatMap.mp default
    split at member
    · rw [List.mem_singleton.mp member]
      exact default_safe_iff ‹_›
    · cases member
  · exact declared_safe_iff rfl function
  · exact declared_safe_iff rfl binding
  · exact declared_safe_iff rfl type

/-- The statement is removed for one of its names, with the one that the next line uses. -/
theorem used_specifier_removed : ∃ (content : List Char) (found : List Finding),
    (refactorScanner (refactorPatterns asciiTables (fun _ => true))).scan "a.ts" content =
      some found ∧
    ∃ report : Report content, report.finding "a.ts" ∈ found ∧
      (report.finding "a.ts").autoFixable = true ∧ ¬ report.Safe asciiTables "a.ts" := by
  let text := "import \x7b Used, Unused \x7d from \"x\";\nconsole.log(Used);\n".toList
  obtain ⟨found, scanned, fixes⟩ := Option.map_eq_some_iff.mp
    (scan_fixes (refactorPatterns asciiTables (fun _ => true)) "a.ts" text)
  have wide : ∃ report ∈ reported text (refactorPatterns asciiTables (fun _ => true)),
      ∃ name ∈ report.lost asciiTables, name ≠ report.name asciiTables := by decide
  obtain ⟨report, member, name, lost, other⟩ := wide
  have inside := List.mem_map_of_mem (f := Report.finding "a.ts") member
  rw [← fixes, List.mem_filter] at inside
  exact ⟨text, found, scanned, report, inside.1, inside.2, fun safe => other (safe.only name lost)⟩

end Mneme.Scanners.RefactorFixes
