/-
What the parser of blast makes of the text that blast prints.
-/

import Mneme.Vscode.RecallText

namespace Mneme.Vscode

open Library

/-! ### Lines of a site -/

/-- A line `- file:line symbol` whose line is a finite number. -/
def SpellsSite (raw : List Char) : Prop :=
  ∃ lead gap file digits space symbol blanks,
    raw = lead ++ '-' :: (gap ++ (file ++ ':' :: (digits ++ (space ++ (symbol ++ blanks))))) ∧
    (∀ char ∈ lead, isSpace char = true) ∧ gap ≠ [] ∧ (∀ char ∈ gap, isSpace char = true) ∧
    IsFile file ∧ IsNumber digits ∧ space ≠ [] ∧ (∀ char ∈ space, isSpace char = true) ∧
    symbol ≠ [] ∧ (∀ char ∈ symbol, isInLine char = true) ∧
    (∀ char ∈ blanks, isSpace char = true) ∧ parseInt digits ≠ none

theorem siteRegex_reads {raw rest : List Char} {groups : List (List Char)} :
    siteRegex.Reads raw groups rest ↔ rest = [] ∧ ∃ lead gap file digits space symbol blanks,
      raw = lead ++ '-' :: (gap ++ (file ++ ':' :: (digits ++ (space ++ (symbol ++ blanks))))) ∧
      groups = [file, digits, symbol] ∧ (∀ char ∈ lead, isSpace char = true) ∧ gap ≠ [] ∧
      (∀ char ∈ gap, isSpace char = true) ∧ IsFile file ∧ IsNumber digits ∧ space ≠ [] ∧
      (∀ char ∈ space, isSpace char = true) ∧ symbol ≠ [] ∧
      (∀ char ∈ symbol, isInLine char = true) ∧ ∀ char ∈ blanks, isSpace char = true := by
  unfold siteRegex
  rw [Regex.reads_many]
  simp only [Regex.reads_one, Regex.reads_group_many, Regex.reads_group_few, Regex.reads_many,
    Regex.reads_stop, isChar_iff, Nat.one_le_iff_ne_zero, ne_eq, List.length_eq_zero_iff]
  constructor
  · rintro ⟨lead, _, rfl, leadSpaces, _, _, _, rfl, rfl, gap, _, rfl, gapSpaces, gapFilled, file, _,
      _, rfl, solid, fileFilled, ⟨_, _, rfl, rfl, digits, _, _, rfl, isDigits, digitsFilled,
      ⟨space, _, rfl, spaces, spaceFilled, symbol, _, _, rfl, inLine, symbolFilled, ⟨blanks, _, rfl,
      tailSpaces, _, rfl, rfl, rfl⟩, rfl⟩, rfl⟩, rfl⟩
    refine ⟨rfl, lead, gap, file, digits, space, symbol, blanks, ?_, rfl, leadSpaces, gapFilled,
      gapSpaces, ⟨fileFilled, solid⟩, ⟨digitsFilled, isDigits⟩, spaceFilled, spaces, symbolFilled,
      inLine, tailSpaces⟩
    rw [List.append_nil]
  · rintro ⟨rfl, lead, gap, file, digits, space, symbol, blanks, rfl, rfl, leadSpaces, gapFilled,
      gapSpaces, isFile, isNumber, spaceFilled, spaces, symbolFilled, inLine, tailSpaces⟩
    exact ⟨lead, _, rfl, leadSpaces, Nat.zero_le _, _, _, rfl, rfl, gap, _, rfl, gapSpaces,
      gapFilled, file, _, _, rfl, isFile.2, isFile.1, ⟨_, _, rfl, rfl, digits, _, _, rfl,
      isNumber.2, isNumber.1, ⟨space, _, rfl, spaces, spaceFilled, symbol, _, _, rfl, inLine,
      symbolFilled, ⟨blanks, [], (List.append_nil blanks).symm, tailSpaces, Nat.zero_le _, rfl, rfl,
      rfl⟩, rfl⟩, rfl⟩, rfl⟩

variable {lead digits : List Char}

theorem dropWhile_dash (rest : List Char) (spaces : ∀ char ∈ lead, isSpace char = true) :
    (lead ++ '-' :: rest).dropWhile isSpace = '-' :: rest := by
  apply dropWhile_block spaces
  intro char first
  cases Option.some.inj first
  rfl

/-- What stands up to the first blank after the dash. -/
def siteToken (raw : List Char) : List Char :=
  (((raw.dropWhile isSpace).drop 1).dropWhile isSpace).takeWhile isSolid

theorem siteToken_of_split {gap file space rest : List Char}
    (leadSpaces : ∀ char ∈ lead, isSpace char = true) (gapSpaces : ∀ char ∈ gap, isSpace char = true)
    (isFile : IsFile file) (isNumber : IsNumber digits) (spaceFilled : space ≠ [])
    (spaces : ∀ char ∈ space, isSpace char = true) :
    siteToken (lead ++ '-' :: (gap ++ (file ++ ':' :: (digits ++ (space ++ rest))))) =
      file ++ ':' :: digits := by
  unfold siteToken
  rw [dropWhile_dash _ leadSpaces, List.drop_succ_cons, List.drop_zero, dropWhile_block gapSpaces]
  · have regroup : file ++ ':' :: (digits ++ (space ++ rest)) =
        (file ++ ':' :: digits) ++ (space ++ rest) := by
      simp only [List.append_assoc, List.cons_append]
    have solid : ∀ char ∈ file ++ ':' :: digits, isSolid char = true := by
      intro char inside
      rcases List.mem_append.mp inside with inFile | later
      · exact isFile.2 char inFile
      · rcases List.mem_cons.mp later with rfl | inDigits
        · rfl
        · exact isSolid_of_isDigit (isNumber.2 char inDigits)
    rw [regroup, List.takeWhile_append_of_pos solid]
    cases space with
    | nil => exact absurd rfl spaceFilled
    | cons blank space =>
        have stops : ¬ isSolid blank = true := by
          rw [isSolid_iff, spaces blank (List.mem_cons_self ..)]
          exact Bool.noConfusion
        rw [List.cons_append, List.takeWhile_cons_of_neg stops, List.append_nil]
  · intro char first
    cases file with
    | nil => exact absurd rfl isFile.1
    | cons head file =>
        cases Option.some.inj first
        exact isSolid_iff.mp (isFile.2 char (List.mem_cons_self ..))

theorem colon_not_number (isNumber : IsNumber digits) : ':' ∉ digits := by
  intro inside
  have impossible := isNumber.2 ':' inside
  cases impossible

theorem last_colon {file file' digits' : List Char} (free : ':' ∉ digits)
    (free' : ':' ∉ digits') (same : file ++ ':' :: digits = file' ++ ':' :: digits') :
    digits = digits' := by
  have mirrored := congrArg List.reverse same
  simp only [List.reverse_append, List.reverse_cons, List.append_assoc, List.singleton_append]
    at mirrored
  have cut := cut_unique (fun inside => free (List.mem_reverse.mp inside))
    (fun inside => free' (List.mem_reverse.mp inside)) mirrored
  exact List.reverse_injective cut.1

variable {raw : List Char}

theorem blastSite?_isSome : (blastSite? raw).isSome = true ↔ SpellsSite raw := by
  unfold blastSite?
  constructor
  · intro found
    split at found
    · rename_i file digits symbol rest preferred
      obtain ⟨_, lead, gap, file', digits', space, symbol', blanks, split, groups, leadSpaces,
        gapFilled, gapSpaces, isFile, isNumber, spaceFilled, spaces, symbolFilled, inLine,
        tailSpaces⟩ := Iff.mp siteRegex_reads (Regex.reads_of_first preferred)
      cases groups
      refine ⟨lead, gap, file, digits, space, symbol, blanks, split, leadSpaces, gapFilled,
        gapSpaces, isFile, isNumber, spaceFilled, spaces, symbolFilled, inLine, tailSpaces, ?_⟩
      intro infinite
      rw [infinite] at found
      cases found
    · cases found
  · rintro ⟨lead, gap, file, digits, space, symbol, blanks, rfl, leadSpaces, gapFilled, gapSpaces,
      isFile, isNumber, spaceFilled, spaces, symbolFilled, inLine, tailSpaces, finite⟩
    obtain ⟨⟨groups, rest⟩, preferred⟩ := Regex.exists_first (Iff.mpr siteRegex_reads ⟨rfl, lead, gap,
      file, digits, space, symbol, blanks, rfl, rfl, leadSpaces, gapFilled, gapSpaces, isFile,
      isNumber, spaceFilled, spaces, symbolFilled, inLine, tailSpaces⟩)
    obtain ⟨_, lead', gap', file', digits', space', symbol', blanks', split', rfl, leadSpaces', _,
      gapSpaces', isFile', isNumber', spaceFilled', spaces', _⟩ :=
      Iff.mp siteRegex_reads (Regex.reads_of_first preferred)
    have token : siteToken (lead ++ '-' :: (gap ++ (file ++ ':' :: (digits ++ (space ++
        (symbol ++ blanks)))))) = file ++ ':' :: digits :=
      siteToken_of_split leadSpaces gapSpaces isFile isNumber spaceFilled spaces
    rw [split', siteToken_of_split leadSpaces' gapSpaces' isFile' isNumber' spaceFilled' spaces']
      at token
    have same := last_colon (colon_not_number isNumber') (colon_not_number isNumber) token
    rw [preferred, same]
    change ((parseInt digits).map _).isSome = true
    rw [Option.isSome_map]
    exact Option.isSome_iff_ne_none.mpr finite

theorem unsited {first : Char}
    (starts : (raw.dropWhile isSpace).head? = some first) (other : first ≠ '-') :
    blastSite? raw = none := by
  rw [← Option.not_isSome_iff_eq_none, blastSite?_isSome]
  rintro ⟨lead, gap, file, digits, space, symbol, blanks, rfl, spaces, _⟩
  rw [dropWhile_dash _ spaces] at starts
  exact other (Option.some.inj starts).symm

/-! ### Lines without counts -/

theorem uncounted (free : ∀ char ∈ raw, char.toLower ≠ 'c') : headerCounts raw = none := by
  have unread : headerRegex.exec raw = none := by
    rw [Regex.exec_eq_none]
    intro before after split
    rw [Regex.first_eq_none]
    intro groups rest reads
    obtain ⟨char, later, starts, letter, _⟩ := Regex.reads_one.mp reads
    apply free char _ (isChar_iff.mp letter)
    rw [split, starts]
    simp
  unfold headerCounts
  rw [unread]

/-! ### The fold over the lines -/

/-- A line that adds a site. -/
def SiteLine (raw : List Char) : Prop :=
  headerCounts raw = none ∧ SpellsSite raw

instance (raw : List Char) : Decidable (SiteLine raw) :=
  decidable_of_iff (headerCounts raw = none ∧ (blastSite? raw).isSome = true)
    (and_congr Iff.rfl blastSite?_isSome)

theorem blastLine_sites (result : BlastResult) (raw : List Char) :
    (blastLine result raw).sites.length =
      result.sites.length + if SiteLine raw then 1 else 0 := by
  unfold blastLine
  cases counted : headerCounts raw with
  | some counts =>
      have none : ¬ SiteLine raw := by
        rintro ⟨plain, _⟩
        rw [counted] at plain
        cases plain
      rw [if_neg none]
      rfl
  | none =>
      cases sited : blastSite? raw with
      | none =>
          have none : ¬ SiteLine raw := by
            rintro ⟨_, spelled⟩
            rw [← blastSite?_isSome, sited] at spelled
            cases spelled
          rw [if_neg none]
          rfl
      | some site =>
          have one : SiteLine raw := by
            refine ⟨counted, blastSite?_isSome.mp ?_⟩
            rw [sited]
            rfl
          rw [if_pos one]
          exact List.length_append

theorem foldl_sites (lines : List (List Char)) (result : BlastResult) :
    (lines.foldl blastLine result).sites.length =
      result.sites.length + (lines.filter (fun line => decide (SiteLine line))).length := by
  induction lines generalizing result with
  | nil => rfl
  | cons line rest ih =>
      rw [List.foldl_cons, ih, blastLine_sites, List.filter_cons]
      by_cases site : SiteLine line
      · rw [if_pos site, if_pos (decide_eq_true site), List.length_cons]
        omega
      · rw [if_neg site, if_neg (by simpa using site)]
        omega

def counts (result : BlastResult) : Nat × Nat :=
  (result.directCallers, result.transitiveCallers)

theorem foldl_counts {lines : List (List Char)}
    (plain : ∀ line ∈ lines, headerCounts line = none) (result : BlastResult) :
    counts (lines.foldl blastLine result) = counts result := by
  induction lines generalizing result with
  | nil => rfl
  | cons line rest ih =>
      rw [List.forall_mem_cons] at plain
      rw [List.foldl_cons, ih plain.2]
      unfold blastLine
      rw [plain.1]
      cases blastSite? line with
      | none => rfl
      | some site => rfl

end Mneme.Vscode
