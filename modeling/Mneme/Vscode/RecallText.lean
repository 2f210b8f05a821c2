/-
What the parser of recall makes of the text that recall prints: the place that it reads
off the end of a name first, then the whole text.
-/

import Mneme.Vscode.RecallLine

namespace Mneme.Vscode

open Library

def IsFile (file : List Char) : Prop :=
  file ≠ [] ∧ ∀ char ∈ file, isSolid char = true

def IsNumber (digits : List Char) : Prop :=
  digits ≠ [] ∧ ∀ char ∈ digits, isDigit char = true

/-- `:line` or `:line:column`, and blanks. -/
def AfterFile (text line : List Char) : Prop :=
  ∃ column blanks, text = ':' :: (line ++ (column ++ blanks)) ∧ IsNumber line ∧
    (column = [] ∨ ∃ digits, column = ':' :: digits ∧ IsNumber digits) ∧
    ∀ char ∈ blanks, isSpace char = true

/-- A text that ends in a place: `file:line`, or `file:line:column`.  The place begins as
far left, and its file is as short, as there is one. -/
def EndsInPlace (text before file line : List Char) : Prop :=
  ∃ after, text = before ++ (file ++ after) ∧ IsFile file ∧ AfterFile after line ∧
    (∀ before' file' after' line', text = before' ++ (file' ++ after') → IsFile file' →
      AfterFile after' line' → before.length ≤ before'.length) ∧
    ∀ file' after' line', file ++ after = file' ++ after' → IsFile file' →
      AfterFile after' line' → file.length ≤ file'.length

variable {text line : List Char}

theorem afterFile_reads {rest : List Char} {groups : List (List Char)} :
    afterFile.Reads text groups rest ↔
      ∃ line, groups = [line] ∧ rest = [] ∧ AfterFile text line := by
  unfold afterFile
  simp only [Regex.reads_one, Regex.reads_group_many, Regex.reads_option, Regex.reads_assoc,
    Regex.reads_many, Regex.reads_stop, isChar_iff]
  constructor
  · rintro ⟨_, _, rfl, rfl, line, _, _, rfl, digits, long, ends, rfl⟩
    have number : IsNumber line := ⟨fun empty => by simp [empty] at long, digits⟩
    rcases ends with ⟨_, _, rfl, rfl, column, _, rfl, columnDigits, columnLong, blanks, _, rfl,
      spaces, _, rfl, rfl, rfl⟩ | ⟨blanks, _, rfl, spaces, _, rfl, rfl, rfl⟩
    · refine ⟨line, rfl, rfl, ':' :: column, blanks, by simp, number, Or.inr ?_, spaces⟩
      exact ⟨column, rfl, fun empty => by simp [empty] at columnLong, columnDigits⟩
    · exact ⟨line, rfl, rfl, [], blanks, by simp, number, Or.inl rfl, spaces⟩
  · rintro ⟨line, rfl, rfl, column, blanks, rfl, number, ends, spaces⟩
    refine ⟨':', _, rfl, rfl, line, _, [], rfl, number.2, List.length_pos_iff.mpr number.1, ?_, rfl⟩
    rcases ends with rfl | ⟨column, rfl, columnNumber⟩
    · exact Or.inr ⟨blanks, [], by simp, spaces, Nat.zero_le _, rfl, rfl, rfl⟩
    · exact Or.inl ⟨':', _, rfl, rfl, column, _, rfl, columnNumber.2,
        List.length_pos_iff.mpr columnNumber.1, blanks, [], by simp, spaces, Nat.zero_le _, rfl,
        rfl, rfl⟩

variable {text : List Char}

theorem afterFile_unread : afterFile.first text = none ↔ ∀ line, ¬ AfterFile text line := by
  rw [Regex.first_eq_none]
  constructor
  · intro unread line after
    exact unread [line] [] (Iff.mpr afterFile_reads ⟨line, rfl, rfl, after⟩)
  · intro unread groups rest reads
    obtain ⟨line, _, _, after⟩ := Iff.mp afterFile_reads reads
    exact unread line after

theorem isDigit_of_isSpace {char : Char} (space : isSpace char = true) : isDigit char = false := by
  unfold isSpace at space
  unfold isDigit
  simp only [Bool.or_eq_true, Bool.and_eq_true, decide_eq_true_eq, Bool.and_eq_false_iff,
    decide_eq_false_iff_not] at space ⊢
  omega

theorem afterFile_line (after : AfterFile text line) : text.tail.takeWhile isDigit = line := by
  obtain ⟨column, blanks, rfl, number, ends, spaces⟩ := after
  rw [List.tail_cons, List.takeWhile_append_of_pos number.2]
  have stops : (column ++ blanks).takeWhile isDigit = [] := by
    rcases ends with rfl | ⟨digits, rfl, _⟩
    · cases blanks with
      | nil => rfl
      | cons blank blanks =>
          rw [List.nil_append, List.takeWhile_cons_of_neg]
          rw [isDigit_of_isSpace (spaces blank (List.mem_cons_self ..))]
          exact Bool.false_ne_true
    · rfl
  rw [stops, List.append_nil]

variable {reading : Reading}

theorem afterFile_first :
    afterFile.first text = some reading ↔
      ∃ line, AfterFile text line ∧ reading = ⟨[line], []⟩ := by
  constructor
  · intro preferred
    obtain ⟨line, groups, rest, after⟩ := Iff.mp afterFile_reads (Regex.reads_of_first preferred)
    refine ⟨line, after, ?_⟩
    cases reading
    cases groups
    cases rest
    rfl
  · rintro ⟨line, after, rfl⟩
    obtain ⟨⟨groups, rest⟩, preferred⟩ :=
      Regex.exists_first (Iff.mpr afterFile_reads ⟨line, rfl, rfl, after⟩)
    obtain ⟨line', rfl, rfl, after'⟩ := Iff.mp afterFile_reads (Regex.reads_of_first preferred)
    rw [preferred, ← afterFile_line after, ← afterFile_line after']

/-! ### The place of a name -/

theorem locRegex_first :
    locRegex.first text = some reading ↔
      ∃ file after line, text = file ++ after ∧ IsFile file ∧ AfterFile after line ∧
        reading = ⟨[file, line], []⟩ ∧
        ∀ file' after' line', text = file' ++ after' → IsFile file' → AfterFile after' line' →
          file.length ≤ file'.length := by
  unfold locRegex
  rw [Regex.first_group_few]
  constructor
  · rintro ⟨file, after, later, split, solid, long, preferred, rfl, unread⟩
    obtain ⟨line, ends, rfl⟩ := Iff.mp afterFile_first preferred
    refine ⟨file, after, line, split, ⟨List.length_pos_iff.mp long, solid⟩, ends, rfl, ?_⟩
    intro file' after' line' split' isFile' ends'
    by_contra shorter
    have none := unread file' after' split' isFile'.2 (List.length_pos_iff.mpr isFile'.1)
      (Nat.lt_of_not_le shorter)
    exact Iff.mp afterFile_unread none line' ends'
  · rintro ⟨file, after, line, split, isFile, ends, rfl, least⟩
    refine ⟨file, after, ⟨[line], []⟩, split, isFile.2, List.length_pos_iff.mpr isFile.1,
      Iff.mpr afterFile_first ⟨line, ends, rfl⟩, rfl, ?_⟩
    intro file' after' split' solid' long' shorter
    apply Iff.mpr afterFile_unread
    intro line' ends'
    have longer := least file' after' line' split' ⟨List.length_pos_iff.mp long', solid'⟩ ends'
    omega

theorem locRegex_unread :
    locRegex.first text = none ↔
      ∀ file after line, text = file ++ after → IsFile file → ¬ AfterFile after line := by
  unfold locRegex
  rw [Regex.first_eq_none]
  constructor
  · intro unread file after line split isFile ends
    apply unread [file, line] []
    exact Regex.reads_group_few.mpr ⟨file, after, [line], split, isFile.2,
      List.length_pos_iff.mpr isFile.1, Iff.mpr afterFile_reads ⟨line, rfl, rfl, ends⟩, rfl⟩
  · intro unread groups rest reads
    obtain ⟨file, after, later, split, solid, long, reads, _⟩ := Regex.reads_group_few.mp reads
    obtain ⟨line, _, _, ends⟩ := Iff.mp afterFile_reads reads
    exact unread file after line split ⟨List.length_pos_iff.mp long, solid⟩ ends

theorem locRegex_exec {before : List Char} :
    locRegex.exec text = some (before, reading) ↔
      ∃ file line, EndsInPlace text before file line ∧ reading = ⟨[file, line], []⟩ := by
  rw [Regex.exec_eq_some]
  constructor
  · rintro ⟨_, rfl, preferred, unread⟩
    obtain ⟨file, after, line, rfl, isFile, ends, rfl, least⟩ := Iff.mp locRegex_first preferred
    refine ⟨file, line, ⟨after, rfl, isFile, ends, ?_, least⟩, rfl⟩
    intro before' file' after' line' split' isFile' ends'
    by_contra shorter
    have none := unread before' (file' ++ after') split' (Nat.lt_of_not_le shorter)
    exact Iff.mp locRegex_unread none file' after' line' rfl isFile' ends'
  · rintro ⟨file, line, ⟨after, rfl, isFile, ends, leftmost, least⟩, rfl⟩
    refine ⟨file ++ after, rfl,
      Iff.mpr locRegex_first ⟨file, after, line, rfl, isFile, ends, rfl, least⟩, ?_⟩
    intro before' after' split' shorter
    apply Iff.mpr locRegex_unread
    rintro file' after'' line' rfl isFile' ends'
    have longer := leftmost before' file' after'' line' split' isFile' ends'
    omega

theorem locRegex_exec_none :
    locRegex.exec text = none ↔
      ∀ before file after line, text = before ++ (file ++ after) → IsFile file →
        ¬ AfterFile after line := by
  rw [Regex.exec_eq_none]
  constructor
  · intro unread before file after line split
    exact Iff.mp locRegex_unread (unread before (file ++ after) split) file after line rfl
  · intro unread before after split
    apply Iff.mpr locRegex_unread
    rintro file after' line rfl
    exact unread before file after' line split

theorem hitOf_placed {raw kind before file : List Char}
    (place : EndsInPlace text before file line) :
    hitOf raw kind text =
      { kind := String.ofList kind, name := nonEmptyName (trim before)
        file := some (String.ofList file), line := (parseInt line).map Int.ofNat
        raw := String.ofList (trim raw) } := by
  have found := Iff.mpr locRegex_exec ⟨file, line, place, rfl⟩
  unfold hitOf
  rw [found]

theorem hitOf_unplaced {raw kind : List Char} (unplaced : locRegex.exec text = none) :
    hitOf raw kind text =
      { kind := String.ofList kind, name := nonEmptyName text, file := none, line := none
        raw := String.ofList (trim raw) } := by
  unfold hitOf
  rw [unplaced]

end Mneme.Vscode

namespace Mneme.Vscode

open Library

/-! ### Printed numbers -/

variable {char : Char}

theorem isDigit_of_core (digit : char.isDigit = true) : isDigit char = true := by
  unfold Char.isDigit at digit
  unfold isDigit
  simp only [Bool.and_eq_true, decide_eq_true_eq, ge_iff_le, UInt32.le_iff_toNat_le] at digit ⊢
  exact digit

theorem isSolid_of_isDigit (digit : isDigit char = true) : isSolid char = true := by
  rw [isSolid_iff]
  cases space : isSpace char with
  | false => rfl
  | true =>
      rw [isDigit_of_isSpace space] at digit
      cases digit

theorem isDigit_of_printed {number : Nat} (inside : char ∈ (toString number).toList) :
    isDigit char = true := by
  change char ∈ number.repr.toList at inside
  rw [Nat.toList_repr] at inside
  exact isDigit_of_core (Nat.isDigit_of_mem_toDigits (by decide) (by decide) inside)

theorem isDigit_of_positive {number : Int} (positive : 0 < number)
    (inside : char ∈ (toString number).toList) : isDigit char = true := by
  rw [Int.toString_eq_repr, Int.repr_eq_if, if_pos (Int.le_of_lt positive)] at inside
  exact isDigit_of_printed inside

/-! ### The hits of a line -/

def lineHits (line : String) : List RecallHit :=
  (splitLines (chop line.toList)).filterMap recallHit?

theorem untitled_of_first {raw : List Char} {first : Char}
    (starts : (raw.dropWhile isSpace).head? = some first) (other : first ≠ '[')
    (kind body : List Char) : ¬ Titled raw kind body := by
  rintro ⟨lead, space, rest, rfl, spaces, _⟩
  rw [dropWhile_opening _ spaces] at starts
  exact other (Option.some.inj starts).symm

theorem untitled_blank (kind body : List Char) : ¬ Titled [] kind body := by
  rintro ⟨lead, space, rest, split, _⟩
  have impossible := (List.append_eq_nil_iff.mp split.symm).2
  cases impossible

variable {text : List Char}

/-- A line of blanks and then none is no title. -/
theorem untitled_solid (solid : ∀ char ∈ text, isSolid char = true)
    (kind body : List Char) : ¬ Titled ("      ".toList ++ text) kind body := by
  rintro ⟨lead, space, rest, split, spaces, _, _, blank, _⟩
  have dropped := dropWhile_opening (kind ++ ']' :: space :: rest) spaces
  rw [← split, dropWhile_block (List.all_eq_true.mp rfl)] at dropped
  · have inside : space ∈ text := by
      rw [dropped]
      simp
    have apart := solid space inside
    rw [isSolid_iff, blank] at apart
    cases apart
  · intro char first
    exact isSolid_iff.mp (solid char (List.mem_of_mem_head? first))

theorem lineHits_free {line : String} (free : '\n' ∉ line.toList) :
    lineHits line = (recallHit? line.toList).toList := by
  unfold lineHits
  rw [splitLines_free (chop_free free), List.filterMap_cons, List.filterMap_nil,
    recallHit?_congr (trim_chop line.toList)]
  cases recallHit? line.toList with
  | none => rfl
  | some hit => rfl

theorem lineHits_blank : lineHits "" = [] := by
  rw [lineHits_free (by decide)]
  change (recallHit? []).toList = []
  rw [recallHit?_none untitled_blank]
  rfl

theorem parseRecallHits_stdout (lines : List String) :
    parseRecallHits (Cli.stdout lines) = lines.flatMap lineHits := by
  unfold parseRecallHits
  rw [splitLines_stdout, List.filterMap_append, List.filterMap_flatMap]
  have blank : [[]].filterMap recallHit? = [] := by
    rw [List.filterMap_cons, recallHit?_none untitled_blank]
    rfl
  rw [blank, List.append_nil]
  rfl

/-! ### The hits of a printed hit -/

/-- A hit as the editor holds it, with the line of its title. -/
def ownHit (hit : Common.RecallHit) : RecallHit :=
  { kind := hit.kind, name := hit.name, file := hit.filePath, line := hit.lineStart
    raw := String.ofList (trim (Cli.hitTitle hit).toList) }

/-- The qualified name spells the name and the place of the hit. -/
def SpellsHit (hit : Common.RecallHit) : Prop :=
  (hit.filePath = none ∧ hit.lineStart = none ∧
    hit.name.toList = trim hit.qualifiedName.toList ∧
    ∀ before file after line, trim hit.qualifiedName.toList = before ++ (file ++ after) →
      IsFile file → ¬ AfterFile after line) ∨
  ∃ before file line, EndsInPlace (trim hit.qualifiedName.toList) before file line ∧
    hit.filePath = some (String.ofList file) ∧ hit.lineStart = (parseInt line).map Int.ofNat ∧
    hit.name = nonEmptyName (trim before)

structure Legible (hit : Common.RecallHit) : Prop where
  kindFilled : hit.kind.toList ≠ []
  kindFree : ']' ∉ hit.kind.toList
  kindTrimmed : trim hit.kind.toList = hit.kind.toList
  nameFilled : trim hit.qualifiedName.toList ≠ []
  nameInLine : ∀ char ∈ trim hit.qualifiedName.toList, isInLine char = true
  spells : SpellsHit hit

theorem hitTitle_toList (hit : Common.RecallHit) : (Cli.hitTitle hit).toList =
    [' ', ' '] ++ '[' :: (hit.kind.toList ++ ']' :: ' ' :: hit.qualifiedName.toList) := by
  unfold Cli.hitTitle
  simp only [String.toList_append, List.append_assoc]
  rfl

theorem titleLead : ∀ char ∈ [' ', ' '], isSpace char = true :=
  List.all_eq_true.mp rfl

variable {hit : Common.RecallHit}

theorem Legible.titled (legible : Legible hit) :
    Titled (Cli.hitTitle hit).toList hit.kind.toList (trim hit.qualifiedName.toList) :=
  ⟨[' ', ' '], ' ', hit.qualifiedName.toList, hitTitle_toList hit, titleLead, legible.kindFilled,
    legible.kindFree, by decide, rfl, legible.nameFilled, legible.nameInLine⟩

theorem titled_hitTitle {kind body : List Char}
    (titled : Titled (Cli.hitTitle hit).toList kind body) (free : ']' ∉ hit.kind.toList) :
    kind = hit.kind.toList ∧ body = trim hit.qualifiedName.toList := by
  obtain ⟨lead, space, rest, split, spaces, _, kindFree, _, rfl, _⟩ := titled
  have dropped := dropWhile_opening (kind ++ ']' :: space :: rest) spaces
  rw [← split, hitTitle_toList, dropWhile_opening _ titleLead] at dropped
  injection dropped with _ same
  obtain ⟨kinds, rests⟩ := cut_unique free kindFree same
  injection rests with _ rests
  exact ⟨kinds.symm, by rw [rests]⟩

theorem nonEmptyName_filled (filled : text ≠ []) : nonEmptyName text = String.ofList text :=
  if_neg filled

theorem Legible.read (legible : Legible hit) :
    recallHit? (Cli.hitTitle hit).toList = some (ownHit hit) := by
  rw [recallHit?_of_titled legible.titled, legible.kindTrimmed]
  congr 1
  unfold ownHit
  rcases legible.spells with ⟨file, line, name, unplaced⟩ | ⟨before, text, digits, place, file, line,
    name⟩
  · rw [hitOf_unplaced (locRegex_exec_none.mpr unplaced), file, line,
      nonEmptyName_filled legible.nameFilled, ← name, String.ofList_toList, String.ofList_toList]
  · rw [hitOf_placed place, file, line, name, String.ofList_toList]

theorem hitOf_kind (raw kind text : List Char) :
    (hitOf raw kind text).kind = String.ofList kind := by
  unfold hitOf
  split
  · rfl
  · rfl

theorem legible_of_read {read : RecallHit}
    (found : recallHit? (Cli.hitTitle hit).toList = some read) (kind : read.kind = hit.kind)
    (name : read.name = hit.name) (file : read.file = hit.filePath)
    (line : read.line = hit.lineStart) : Legible hit := by
  obtain ⟨kind', body, titled, rfl⟩ := titled_of_recallHit? found
  rw [hitOf_kind] at kind
  have kindList : hit.kind.toList = trim kind' := by
    rw [← kind, String.toList_ofList]
  have free : ']' ∉ hit.kind.toList := by
    rw [kindList]
    intro inside
    obtain ⟨_, _, _, _, _, _, kindFree, _⟩ := titled
    exact kindFree (mem_of_mem_trim inside)
  obtain ⟨rfl, rfl⟩ := titled_hitTitle titled free
  obtain ⟨_, _, _, _, _, filled, _, _, _, nameFilled, inLine⟩ := titled
  refine ⟨filled, free, kindList.symm, nameFilled, inLine, ?_⟩
  cases place : locRegex.exec (trim hit.qualifiedName.toList) with
  | none =>
      rw [hitOf_unplaced place] at name file line
      refine Or.inl ⟨file.symm, line.symm, ?_, locRegex_exec_none.mp place⟩
      rw [← name, nonEmptyName_filled nameFilled, String.toList_ofList]
  | some found =>
      obtain ⟨before, reading⟩ := found
      obtain ⟨text, digits, ends, rfl⟩ := locRegex_exec.mp place
      rw [hitOf_placed ends] at name file line
      simp only at name file line
      exact Or.inr ⟨before, text, digits, ends, file.symm, line.symm, name.symm⟩

/-! ### The whole text -/

/-- Newlines are in none of the texts of the hit. -/
structure Plain (hit : Common.RecallHit) : Prop where
  kind : '\n' ∉ hit.kind.toList
  name : '\n' ∉ hit.name.toList
  qualifiedName : '\n' ∉ hit.qualifiedName.toList
  filePath : ∀ file ∈ hit.filePath, '\n' ∉ file.toList

theorem newline_not_digit (digits : ∀ char ∈ text, isDigit char = true) : '\n' ∉ text := by
  intro inside
  have impossible := digits '\n' inside
  cases impossible

theorem newline_not_printed (number : Int) : '\n' ∉ (toString number).toList := by
  rw [Int.toString_eq_repr, Int.repr_eq_if]
  split
  · exact newline_not_digit (fun char inside => isDigit_of_printed inside)
  · rw [String.toList_append, List.mem_append, not_or]
    exact ⟨by decide, newline_not_digit (fun char inside => isDigit_of_printed inside)⟩

def locationLine (hit : Common.RecallHit) : String :=
  "      " ++ Cli.hitLocation hit

namespace Plain

theorem title (plain : Plain hit) : '\n' ∉ (Cli.hitTitle hit).toList := by
  rw [hitTitle_toList]
  simp [plain.kind, plain.qualifiedName]

theorem location (plain : Plain hit) : '\n' ∉ (locationLine hit).toList := by
  unfold locationLine
  rw [String.toList_append, List.mem_append, not_or]
  refine ⟨by decide, ?_⟩
  unfold Cli.hitLocation
  split
  · rename_i file line path _
    split
    · rw [String.toList_append, String.toList_append, List.mem_append, List.mem_append]
      rintro ((inFile | colon) | inLine)
      · exact plain.filePath file path inFile
      · exact absurd colon (by decide)
      · exact newline_not_printed line inLine
    · exact plain.filePath file path
  · rename_i file path _
    exact plain.filePath file path
  · decide

/-- The line of the name is never taken for a hit. -/
theorem named (plain : Plain hit) : lineHits ("      name: " ++ hit.name) = [] := by
  have free : '\n' ∉ ("      name: " ++ hit.name).toList := by
    rw [String.toList_append, List.mem_append, not_or]
    exact ⟨by decide, plain.name⟩
  have untitled : ∀ kind body, ¬ Titled ("      name: " ++ hit.name).toList kind body := by
    rw [String.toList_append]
    exact untitled_of_first rfl (by decide)
  rw [lineHits_free free, recallHit?_none untitled]
  rfl

end Plain

/-- What the editor takes from the lines of one hit. -/
def blockHits (hit : Common.RecallHit) : List RecallHit :=
  (recallHit? (Cli.hitTitle hit).toList).toList ++ (recallHit? (locationLine hit).toList).toList

theorem hitLines_hits (plain : Plain hit) :
    (Cli.hitLines hit).flatMap lineHits = blockHits hit := by
  have names : (if hit.name ≠ hit.qualifiedName then ["      name: " ++ hit.name]
      else []).flatMap lineHits = [] := by
    split
    · rw [List.flatMap_cons, plain.named]
      rfl
    · rfl
  unfold Cli.hitLines blockHits
  rw [List.flatMap_append, List.flatMap_append, names, List.append_nil, List.flatMap_cons,
    List.flatMap_cons, List.flatMap_cons, lineHits_blank, lineHits_free plain.title]
  change _ ++ (lineHits (locationLine hit) ++ _) = _
  rw [lineHits_free plain.location]
  simp

theorem printHits_hits {hits : List Common.RecallHit} (plain : ∀ hit ∈ hits, Plain hit)
    (query : String) : parseRecallHits (Cli.stdout (Cli.printHits hits query)) =
      lineHits (Cli.hitsHeading hits query) ++ hits.flatMap blockHits := by
  have blocks : (hits.flatMap Cli.hitLines).flatMap lineHits = hits.flatMap blockHits := by
    rw [List.flatMap_assoc]
    exact List.flatMap_congr (fun hit member => hitLines_hits (plain hit member))
  rw [parseRecallHits_stdout]
  unfold Cli.printHits
  rw [List.flatMap_cons]
  cases hits with
  | nil => rfl
  | cons hit rest =>
      rw [← blocks]
      change _ ++ (lineHits "" ++ _) = _
      rw [lineHits_blank]
      rfl

end Mneme.Vscode
