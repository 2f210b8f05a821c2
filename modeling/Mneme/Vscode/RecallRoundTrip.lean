/-
The hits that the editor reads are the printed ones where every title spells its own hit.
-/

import Mneme.Vscode.RecallText

namespace Mneme.Vscode

open Library

/-! ### The lines of a place -/

variable {hit : Common.RecallHit}

theorem untitled_location
    (solid : ∀ file ∈ hit.filePath, ∀ char ∈ file.toList, isSolid char = true) :
    recallHit? (locationLine hit).toList = none := by
  have chars : ∀ char ∈ (Cli.hitLocation hit).toList, isSolid char = true := by
    intro char inside
    unfold Cli.hitLocation at inside
    split at inside
    · rename_i file line path _
      split at inside
      · rename_i positive
        rw [String.toList_append, String.toList_append, List.mem_append, List.mem_append] at inside
        rcases inside with (inFile | colon) | inLine
        · exact solid file path char inFile
        · cases List.mem_singleton.mp colon
          rfl
        · exact isSolid_of_isDigit (isDigit_of_positive positive inLine)
      · exact solid file path char inside
    · rename_i file path _
      exact solid file path char inside
    · cases List.mem_singleton.mp inside
      rfl
  unfold locationLine
  rw [String.toList_append]
  exact recallHit?_none (untitled_solid chars)

theorem Legible.solid (legible : Legible hit) :
    ∀ file ∈ hit.filePath, ∀ char ∈ file.toList, isSolid char = true := by
  intro file path
  rcases legible.spells with ⟨none, _⟩ | ⟨before, text, line, place, some, _⟩
  · rw [none] at path
    cases path
  · rw [some] at path
    cases path
    obtain ⟨_, _, isFile, _⟩ := place
    rw [String.toList_ofList]
    exact isFile.2

theorem Legible.block (legible : Legible hit) : blockHits hit = [ownHit hit] := by
  unfold blockHits
  rw [legible.read, untitled_location legible.solid]
  rfl

/-! ### The heading -/

/-- No line of the heading, which quotes the query, is a title. -/
def Quiet (heading : String) : Prop :=
  ∀ line ∈ splitLines heading.toList, ∀ kind body, ¬ Titled line kind body

theorem chop_append {front back : List Char} (filled : back ≠ []) (kept : chop back = back) :
    chop (front ++ back) = front ++ back := by
  induction front with
  | nil => exact kept
  | cons char rest ih =>
      rw [List.cons_append, chop_cons (fun _ => List.append_ne_nil_of_right_ne_nil rest filled), ih]

theorem chop_hitsHeading (hits : List Common.RecallHit) (query : String) :
    chop (Cli.hitsHeading hits query).toList = (Cli.hitsHeading hits query).toList := by
  unfold Cli.hitsHeading
  split
  · rw [String.toList_append]
    exact chop_append (by decide) rfl
  · rw [String.toList_append]
    exact chop_append (by decide) rfl

variable {hits : List Common.RecallHit} {query : String}

theorem lineHits_heading :
    lineHits (Cli.hitsHeading hits query) = [] ↔ Quiet (Cli.hitsHeading hits query) := by
  unfold lineHits Quiet
  rw [chop_hitsHeading, List.filterMap_eq_nil_iff]
  constructor
  · intro unread line member kind body titled
    have none := unread line member
    rw [recallHit?_of_titled titled] at none
    cases none
  · intro quiet line member
    exact recallHit?_none (quiet line member)

/-! ### The round trip -/

theorem hitOf_raw (raw kind text : List Char) :
    (hitOf raw kind text).raw = String.ofList (trim raw) := by
  unfold hitOf
  split
  · rfl
  · rfl

theorem hitOf_solid (raw kind text : List Char) :
    ∀ file ∈ (hitOf raw kind text).file, ∀ char ∈ file.toList, isSolid char = true := by
  intro file path
  cases place : locRegex.exec text with
  | none =>
      rw [hitOf_unplaced place] at path
      cases path
  | some found =>
      obtain ⟨before, reading⟩ := found
      obtain ⟨name, line, ends, rfl⟩ := locRegex_exec.mp place
      rw [hitOf_placed ends] at path
      cases path
      obtain ⟨_, _, isFile, _⟩ := ends
      rw [String.toList_ofList]
      exact isFile.2

/-- The line a hit was read from is the line of its title, so the title itself reads so. -/
theorem legible_of_mem {text : String} (member : ownHit hit ∈ parseRecallHits text) :
    Legible hit := by
  obtain ⟨piece, _, read⟩ := List.mem_filterMap.mp member
  obtain ⟨kind, body, titled, same⟩ := titled_of_recallHit? read
  have raws : trim piece = trim (Cli.hitTitle hit).toList := by
    have equal := congrArg RecallHit.raw same
    rw [hitOf_raw] at equal
    exact (String.ofList_injective equal).symm
  rw [recallHit?_congr raws] at read
  exact legible_of_read read rfl rfl rfl rfl

theorem recall_undone_iff (plain : ∀ hit ∈ hits, Plain hit) (query : String) :
    parseRecallHits (Cli.stdout (Cli.printHits hits query)) = hits.map ownHit ↔
      Quiet (Cli.hitsHeading hits query) ∧ ∀ hit ∈ hits, Legible hit := by
  have blocks : (∀ hit ∈ hits, Legible hit) → hits.flatMap blockHits = hits.map ownHit := by
    intro legible
    rw [List.flatMap_congr (fun hit member => (legible hit member).block), List.map_eq_flatMap]
  constructor
  · intro undone
    have legible : ∀ hit ∈ hits, Legible hit := by
      intro hit member
      apply legible_of_mem
      rw [undone]
      exact List.mem_map_of_mem member
    refine ⟨Iff.mp lineHits_heading ?_, legible⟩
    rw [printHits_hits plain, blocks legible] at undone
    exact List.append_left_eq_self.mp undone
  · rintro ⟨quiet, legible⟩
    rw [printHits_hits plain, blocks legible, Iff.mpr lineHits_heading quiet]
    rfl

/-! ### A query of one line -/

def fields (hit : RecallHit) : String × String × Option String × Option Int :=
  (hit.kind, hit.name, hit.file, hit.line)

def ownFields (hit : Common.RecallHit) : String × String × Option String × Option Int :=
  (hit.kind, hit.name, hit.filePath, hit.lineStart)

theorem printed_cons (number : Nat) :
    ∃ digit rest, (toString number).toList = digit :: rest ∧ isDigit digit = true := by
  cases digits : (toString number).toList with
  | nil =>
      change number.repr.toList = [] at digits
      rw [Nat.toList_repr] at digits
      exact absurd digits Nat.toDigits_ne_nil
  | cons digit rest =>
      have inside : digit ∈ (toString number).toList := by
        rw [digits]
        exact List.mem_cons_self ..
      exact ⟨digit, rest, rfl, isDigit_of_printed inside⟩

theorem heading_first (hits : List Common.RecallHit) (query : String) :
    ∃ first, ((Cli.hitsHeading hits query).toList.dropWhile isSpace).head? = some first ∧
      first ≠ '[' := by
  unfold Cli.hitsHeading
  split
  · simp only [String.toList_append]
    exact ⟨'n', rfl, by decide⟩
  · obtain ⟨digit, rest, digits, isNumber⟩ := printed_cons hits.length
    have solid := isSolid_of_isDigit isNumber
    rw [isSolid_iff] at solid
    simp only [String.toList_append, digits, List.cons_append]
    refine ⟨digit, ?_, ?_⟩
    · rw [List.dropWhile_cons_of_neg]
      · rfl
      · rw [solid]
        exact Bool.false_ne_true
    · rintro rfl
      cases isNumber

theorem quiet_heading (hits : List Common.RecallHit)
    (oneLine : '\n' ∉ query.toList) : Quiet (Cli.hitsHeading hits query) := by
  have free : '\n' ∉ (Cli.hitsHeading hits query).toList := by
    unfold Cli.hitsHeading
    split
    · simp [String.toList_append, oneLine]
    · have number : '\n' ∉ (toString hits.length).toList :=
        newline_not_digit (fun char inside => isDigit_of_printed inside)
      simp only [String.toList_append, List.mem_append, not_or]
      exact ⟨⟨⟨number, by decide⟩, oneLine⟩, by decide⟩
  intro line member
  rw [splitLines_free free, List.mem_singleton] at member
  obtain ⟨first, starts, other⟩ := heading_first hits query
  rw [member]
  exact untitled_of_first starts other

theorem filterMap_aligned {Item Read Field : Type} {read : Item → Option Read}
    {field : Read → Field} {own : Item → Field} {items : List Item}
    (same : (items.filterMap read).map field = items.map own) :
    ∀ item ∈ items, ∃ found, read item = some found ∧ field found = own item := by
  induction items with
  | nil =>
      intro item impossible
      cases impossible
  | cons item rest ih =>
      cases found : read item with
      | none =>
          rw [List.filterMap_cons_none found] at same
          have lengths := congrArg List.length same
          have shorter := List.length_filterMap_le read rest
          rw [List.length_map, List.length_map, List.length_cons] at lengths
          omega
      | some value =>
          rw [List.filterMap_cons_some found, List.map_cons, List.map_cons] at same
          injection same with first later
          exact List.forall_mem_cons.mpr ⟨⟨value, found, first⟩, ih later⟩

/-- Under a query of one line the fields alone decide. -/
theorem fields_undone_iff (plain : ∀ hit ∈ hits, Plain hit) (oneLine : '\n' ∉ query.toList) :
    (parseRecallHits (Cli.stdout (Cli.printHits hits query))).map fields = hits.map ownFields ↔
      parseRecallHits (Cli.stdout (Cli.printHits hits query)) = hits.map ownHit := by
  constructor
  · intro same
    have solid : ∀ hit ∈ hits, ∀ file ∈ hit.filePath, ∀ char ∈ file.toList,
        isSolid char = true := by
      intro hit member file path
      have held : ownFields hit ∈ hits.map ownFields := List.mem_map_of_mem member
      rw [← same] at held
      obtain ⟨parsed, found, equal⟩ := List.mem_map.mp held
      obtain ⟨piece, _, read⟩ := List.mem_filterMap.mp found
      obtain ⟨kind, body, _, rfl⟩ := titled_of_recallHit? read
      have files : (hitOf piece (trim kind) body).file = hit.filePath :=
        congrArg (fun field => field.2.2.1) equal
      rw [← files] at path
      exact hitOf_solid piece (trim kind) body file path
    have blocks : hits.flatMap blockHits =
        hits.filterMap (fun hit => recallHit? (Cli.hitTitle hit).toList) := by
      rw [List.filterMap_eq_flatMap_toList]
      apply List.flatMap_congr
      intro hit member
      unfold blockHits
      rw [untitled_location (solid hit member)]
      exact List.append_nil _
    rw [printHits_hits plain, Iff.mpr lineHits_heading (quiet_heading hits oneLine), List.nil_append,
      blocks] at same
    apply (recall_undone_iff plain query).mpr
    refine ⟨quiet_heading hits oneLine, ?_⟩
    intro hit member
    obtain ⟨found, read, equal⟩ := filterMap_aligned same hit member
    exact legible_of_read read (congrArg (fun field => field.1) equal)
      (congrArg (fun field => field.2.1) equal) (congrArg (fun field => field.2.2.1) equal)
      (congrArg (fun field => field.2.2.2) equal)
  · intro undone
    rw [undone, List.map_map]
    rfl

end Mneme.Vscode
