/-
The editor's parsers of what recall and blast print, and the lines of a printed text as
it splits them.

Texts are lists of characters: no class of these patterns tells the two halves of a
surrogate pair apart, and none of them ends a match between the two.
-/

import Mneme.Cli.Blast
import Mneme.Library.Pieces
import Mneme.Library.Regex

namespace Mneme.Vscode

open Library

/-! ### Characters -/

/-- White space and line terminators: what `\s` matches and trimming drops. -/
def isSpace (char : Char) : Bool :=
  (9 ≤ char.toNat && char.toNat ≤ 13) || char.toNat = 0x20 || char.toNat = 0xA0 ||
    char.toNat = 0x1680 || (0x2000 ≤ char.toNat && char.toNat ≤ 0x200A) ||
    char.toNat = 0x2028 || char.toNat = 0x2029 || char.toNat = 0x202F || char.toNat = 0x205F ||
    char.toNat = 0x3000 || char.toNat = 0xFEFF

def isSolid (char : Char) : Bool :=
  !isSpace char

def isDigit (char : Char) : Bool :=
  48 ≤ char.toNat && char.toNat ≤ 57

/-- What the dot matches. -/
def isInLine (char : Char) : Bool :=
  !(char.toNat = 10 || char.toNat = 13 || char.toNat = 0x2028 || char.toNat = 0x2029)

def isChar (expected : Char) (char : Char) : Bool :=
  char = expected

def trim (text : List Char) : List Char :=
  trimmed isSpace text

/-- Split at `\r?\n`. -/
def splitLines : List Char → List (List Char)
  | [] => [[]]
  | '\r' :: '\n' :: rest => [] :: splitLines rest
  | '\n' :: rest => [] :: splitLines rest
  | char :: rest =>
      match splitLines rest with
      | [] => [[char]]
      | line :: lines => (char :: line) :: lines

/-! ### Numbers -/

/-- The number nearest to an integer, ties to the even one; none where it is infinite. -/
def toNumber (value : Nat) : Option Nat :=
  let unit := 2 ^ (value.log2 - 52)
  let below := value / unit
  let excess := value % unit
  let nearest := if 2 * excess < unit ∨ (2 * excess = unit ∧ below % 2 = 0) then below else below + 1
  if nearest * unit < 2 ^ 1024 then some (nearest * unit) else none

/-- `parseInt` of decimal digits, where it is finite. -/
def parseInt (digits : List Char) : Option Nat :=
  toNumber (digits.foldl (fun value digit => value * 10 + (digit.toNat - 48)) 0)

def clampNonNegative (number : Option Nat) : Nat :=
  number.getD 0

/-! ### Recall -/

structure RecallHit where
  kind : String
  name : String
  file : Option String
  line : Option Int
  raw : String
deriving DecidableEq

/-- `^\s*\[([^\]]+)\]\s+(\S.*?)\s*$` -/
def lineRegex : Regex :=
  .seq (.many 0 isSpace) (.seq (.one (isChar '['))
    (.seq (.group (.many 1 (fun char => !isChar ']' char))) (.seq (.one (isChar ']'))
      (.seq (.many 1 isSpace) (.seq (.group (.seq (.one isSolid) (.few 0 isInLine)))
        (.seq (.many 0 isSpace) .stop))))))

/-- What follows the file in `(\S+?):(\d+)(?::\d+)?\s*$`. -/
def afterFile : Regex :=
  .seq (.one (isChar ':')) (.seq (.group (.many 1 isDigit))
    (.seq (.option (.seq (.one (isChar ':')) (.many 1 isDigit)))
      (.seq (.many 0 isSpace) .stop)))

def locRegex : Regex :=
  .seq (.group (.few 1 isSolid)) afterFile

def nonEmptyName (text : List Char) : String :=
  if text = [] then "(unnamed)" else String.ofList text

/-- The hit of a line with this kind and the rest of it, both trimmed. -/
def hitOf (raw kind nameAndLoc : List Char) : RecallHit :=
  match locRegex.exec nameAndLoc with
  | some (before, ⟨[file, line], _⟩) =>
      { kind := String.ofList kind
        name := nonEmptyName (trim before)
        file := some (String.ofList file)
        line := (parseInt line).map Int.ofNat
        raw := String.ofList (trim raw) }
  | _ =>
      { kind := String.ofList kind
        name := nonEmptyName nameAndLoc
        file := none
        line := none
        raw := String.ofList (trim raw) }

/-- One turn of the loop over the lines. -/
def recallHit? (raw : List Char) : Option RecallHit :=
  match lineRegex.first raw with
  | some ⟨[kind, text], _⟩ => some (hitOf raw (trim kind) (trim text))
  | _ => none

def parseRecallHits (stdout : String) : List RecallHit :=
  (splitLines stdout.toList).filterMap recallHit?

/-! ### Blast -/

structure BlastSite where
  file : String
  line : Nat
  symbol : String
deriving DecidableEq

structure BlastResult where
  directCallers : Nat
  transitiveCallers : Nat
  sites : List BlastSite
deriving DecidableEq

/-- Letters in either case. -/
def spelled (letters : List Char) (next : Regex) : Regex :=
  letters.foldr (fun letter rest => .seq (.one (fun char => isChar letter char.toLower)) rest) next

/-- `\s*:\s*(\d+)` -/
def countThen (next : Regex) : Regex :=
  .seq (.many 0 isSpace) (.seq (.one (isChar ':')) (.seq (.many 0 isSpace)
    (.seq (.group (.many 1 isDigit)) next)))

/-- `callers\s*:\s*(\d+).*?transitive\s*:\s*(\d+)`, in either case. -/
def headerRegex : Regex :=
  spelled "callers".toList (countThen (.seq (.few 0 isInLine)
    (spelled "transitive".toList (countThen .empty))))

/-- `^\s*-\s+(\S+?):(\d+)\s+(.+?)\s*$` -/
def siteRegex : Regex :=
  .seq (.many 0 isSpace) (.seq (.one (isChar '-')) (.seq (.many 1 isSpace)
    (.seq (.group (.few 1 isSolid)) (.seq (.one (isChar ':')) (.seq (.group (.many 1 isDigit))
      (.seq (.many 1 isSpace) (.seq (.group (.few 1 isInLine))
        (.seq (.many 0 isSpace) .stop))))))))

/-- The two numbers of a header line. -/
def headerCounts (raw : List Char) : Option (Nat × Nat) :=
  match headerRegex.exec raw with
  | some (_, ⟨[direct, transitive], _⟩) =>
      some (clampNonNegative (parseInt direct), clampNonNegative (parseInt transitive))
  | _ => none

def blastSite? (raw : List Char) : Option BlastSite :=
  match siteRegex.first raw with
  | some ⟨[file, digits, symbol], _⟩ =>
      (parseInt digits).map (fun line =>
        { file := String.ofList file, line, symbol := String.ofList (trim symbol) })
  | _ => none

/-- One turn of the loop over the lines. -/
def blastLine (result : BlastResult) (raw : List Char) : BlastResult :=
  match headerCounts raw with
  | some (direct, transitive) =>
      { result with directCallers := direct, transitiveCallers := transitive }
  | none =>
      match blastSite? raw with
      | some site => { result with sites := result.sites ++ [site] }
      | none => result

def parseBlast (stdout : String) : BlastResult :=
  (splitLines stdout.toList).foldl blastLine
    { directCallers := 0, transitiveCallers := 0, sites := [] }

end Mneme.Vscode

namespace Mneme.Vscode

open Library

/-! ### Lines -/

/-- Without the carriage return that splitting takes for part of the line ending. -/
def chop : List Char → List Char
  | [] => []
  | ['\r'] => []
  | char :: rest => char :: chop rest

/-- Put a character in front of the first line. -/
def onFirst (char : Char) (lines : List (List Char)) : List (List Char) :=
  match lines with
  | [] => [[char]]
  | line :: others => (char :: line) :: others

variable {char : Char}

variable {rest line : List Char}

theorem splitLines_cons (inside : char ≠ '\n') (unpaired : char = '\r' → rest.head? ≠ some '\n') :
    splitLines (char :: rest) = onFirst char (splitLines rest) := by
  rw [splitLines]
  · rfl
  · intro later return_ newline
    rw [newline] at unpaired
    exact unpaired return_ rfl
  · exact inside

theorem chop_cons (more : char = '\r' → rest ≠ []) : chop (char :: rest) = char :: chop rest := by
  rw [chop]
  exact more

theorem splitLines_ne_nil (text : List Char) : splitLines text ≠ [] := by
  induction text using splitLines.induct with
  | case1 => exact List.cons_ne_nil _ _
  | case2 rest ih => exact List.cons_ne_nil _ _
  | case3 rest ih => exact List.cons_ne_nil _ _
  | case4 char rest unpaired inside empty ih => exact absurd empty ih
  | case5 char rest unpaired inside line lines split ih =>
      rw [splitLines, split]
      · exact List.cons_ne_nil _ _
      · exact unpaired
      · exact inside

theorem onFirst_append {lines others : List (List Char)} (some : lines ≠ []) :
    onFirst char (lines ++ others) = onFirst char lines ++ others := by
  cases lines with
  | nil => exact absurd rfl some
  | cons line rest => rfl

theorem head?_chop {text : List Char} (starts : (chop text).head? = some char) :
    text.head? = some char := by
  induction text using chop.induct with
  | case1 => exact starts
  | case2 => cases starts
  | case3 first rest more ih =>
      rw [chop] at starts
      · exact starts
      · exact more

/-- A line ending ends the last line of what is before it. -/
theorem splitLines_newline (text rest : List Char) :
    splitLines (text ++ '\n' :: rest) = splitLines (chop text) ++ splitLines rest := by
  induction text using splitLines.induct with
  | case1 => rfl
  | case2 text ih =>
      rw [chop_cons (by simp), chop_cons (by simp)]
      change [] :: splitLines (text ++ '\n' :: rest) = ([] :: splitLines (chop text)) ++ _
      rw [ih]
      rfl
  | case3 text ih =>
      rw [chop_cons (by simp)]
      change [] :: splitLines (text ++ '\n' :: rest) = ([] :: splitLines (chop text)) ++ _
      rw [ih]
      rfl
  | case4 char text unpaired inside empty ih => exact absurd empty (splitLines_ne_nil text)
  | case5 char text unpaired inside line lines split ih =>
      by_cases alone : char = '\r' ∧ text = []
      · obtain ⟨rfl, rfl⟩ := alone
        rfl
      · have more : char = '\r' → text ≠ [] := fun return_ empty => alone ⟨return_, empty⟩
        have apart : char = '\r' → (text ++ '\n' :: rest).head? ≠ some '\n' := by
          intro return_ newline
          cases text with
          | nil => exact more return_ rfl
          | cons next text =>
              have same : next = '\n' := Option.some.inj newline
              exact unpaired text return_ (by rw [same])
        have apartChopped : char = '\r' → (chop text).head? ≠ some '\n' := by
          intro return_ newline
          cases text with
          | nil => exact more return_ rfl
          | cons next text =>
              have same : next = '\n' := Option.some.inj (head?_chop newline)
              exact unpaired text return_ (by rw [same])
        rw [List.cons_append, splitLines_cons inside apart, ih, chop_cons more,
          splitLines_cons inside apartChopped, onFirst_append (splitLines_ne_nil _)]

theorem splitLines_free (free : '\n' ∉ line) : splitLines line = [line] := by
  induction line with
  | nil => rfl
  | cons char rest ih =>
      rw [List.mem_cons, not_or] at free
      rw [splitLines_cons (fun newline => free.1 newline.symm), ih free.2]
      · rfl
      · intro _ newline
        exact free.2 (List.mem_of_head? newline)

theorem chop_split (line : List Char) :
    ∃ back, line = chop line ++ back ∧ ∀ char ∈ back, isSpace char = true := by
  induction line using chop.induct with
  | case1 => exact ⟨[], rfl, by simp⟩
  | case2 => exact ⟨['\r'], rfl, List.all_eq_true.mp rfl⟩
  | case3 char rest more ih =>
      obtain ⟨back, split, spaces⟩ := ih
      rw [chop_cons more]
      exact ⟨back, congrArg (List.cons char) split, spaces⟩

theorem chop_free (free : '\n' ∉ line) : '\n' ∉ chop line := by
  obtain ⟨back, split, _⟩ := chop_split line
  intro inside
  apply free
  rw [split]
  exact List.mem_append_left back inside

theorem splitLines_stdout (lines : List String) :
    splitLines (Cli.stdout lines).toList =
      lines.flatMap (fun line => splitLines (chop line.toList)) ++ [[]] := by
  induction lines with
  | nil => rfl
  | cons line rest ih =>
      have ends : (Cli.stdout (line :: rest)).toList =
          line.toList ++ '\n' :: (Cli.stdout rest).toList := by
        change (line ++ "\n" ++ Cli.stdout rest).toList = _
        rw [String.toList_append, String.toList_append, List.append_assoc]
        rfl
      rw [ends, splitLines_newline, ih, List.flatMap_cons, List.append_assoc]

end Mneme.Vscode
