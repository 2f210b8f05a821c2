/-
Marker-based injection into text manifests, and the removal of what was injected.

The digest of a text is a parameter; the offsets of a block are the texts before and
after it.  The injection puts a blank line between the text and its block; the removal takes
the block and the newline behind it, and leaves the blank line.
-/

import Mneme.Common.Text
import Mneme.Library.Occurrences

namespace Mneme.Cli.Markers

open Mneme.Common Mneme.Library

def markerVersion : String := "1.0"

def markerStartPrefix : String := "<!-- mneme-start "

def markerEnd : String := "<!-- mneme-end -->"

/-- One block of a manifest, between the text before it and the text after it. -/
structure MarkerBlock where
  before : String
  body : String
  after : String
  version : String
  recordedHash : Option String

section

variable (sha256 : ByteArray → String)

def computeBodyHash (body : String) : String :=
  sha256 body.toUTF8

def MarkerBlock.bodyMatchesRecordedHash (block : MarkerBlock) : Bool :=
  match block.recordedHash with
  | none => true
  | some expected => computeBodyHash sha256 block.body == expected

/-- Repeated patterns at the head are dropped; the first argument bounds how many. -/
def trimStartMatches (pattern : List Char) : Nat → List Char → List Char
  | 0, text => text
  | more + 1, text =>
      if pattern.isPrefixOf text then trimStartMatches pattern more (text.drop pattern.length)
      else text

def trimEndMatches (pattern : List Char) (text : List Char) : List Char :=
  (trimStartMatches pattern.reverse text.length text.reverse).reverse

def stripPrefix (lead text : String) : Option String :=
  if lead.toList.isPrefixOf text.toList then
    some (String.ofList (text.toList.drop lead.length))
  else none

def splitWhitespace (text : String) : List String :=
  ((text.toList.splitOnP isWhitespace).filter (fun piece => piece ≠ [])).map String.ofList

/-- The version and the hash that a start sentinel carries. -/
def parseStartHeader (header : List Char) : String × Option String :=
  let inner := trim (String.ofList (trimEndMatches "-->".toList
    (trimStartMatches "<!--".toList header.length header)))
  let tokens := (splitWhitespace inner).tail
  let version := (tokens.head?.bind (stripPrefix "v")).getD markerVersion
  (version, (tokens.tail.filterMap (stripPrefix "sha256=")).getLast?)

def find (text : String) : Option MarkerBlock := do
  let start ← cutAt markerStartPrefix.toList text.toList
  let closed ← cutAt "-->".toList start.2
  let ended ← cutAt markerEnd.toList closed.2
  let header := parseStartHeader (markerStartPrefix.toList ++ closed.1 ++ "-->".toList)
  return {
    before := String.ofList start.1
    body := String.ofList ended.1
    after := String.ofList ended.2
    version := header.1
    recordedHash := header.2 }

def ensureSurroundingNewlines (body : String) : String :=
  let opened := if body.toList.head? = some '\n' then body else "\n" ++ body
  if opened.toList.getLast? = some '\n' then opened else opened ++ "\n"

def renderBlock (body : String) : String :=
  let normalized := ensureSurroundingNewlines body
  markerStartPrefix ++ "v" ++ markerVersion ++ " sha256=" ++ computeBodyHash sha256 normalized ++
    " -->" ++ normalized ++ markerEnd

/-- Nothing is given where the block was edited and no force is used. -/
def inject (existing newBody : String) (force : Bool) : Option String :=
  let newBlock := renderBlock sha256 newBody
  match find existing with
  | some found =>
      if !found.bodyMatchesRecordedHash sha256 && !force then none
      else some (found.before ++ newBlock ++ found.after)
  | none =>
      let gap :=
        if "\n\n".toList.isSuffixOf existing.toList then ""
        else if existing.toList.getLast? = some '\n' then "\n"
        else if existing = "" then ""
        else "\n\n"
      let out := existing ++ gap ++ newBlock
      some (if out.toList.getLast? = some '\n' then out else out ++ "\n")

def remove (existing : String) : String :=
  match find existing with
  | none => existing
  | some found =>
      let after := found.after
      found.before ++ (stripPrefix "\n" after).getD after

end

/-! ### The recorded hash -/

def hexDigits : List Char :=
  "0123456789abcdef".toList

def hexDigit (nibble : UInt8) : Char :=
  (hexDigits[nibble.toNat]?).getD '0'

def hexByte (byte : UInt8) : List Char :=
  [hexDigit (byte >>> 4), hexDigit (byte &&& 0x0f)]

/-- `hex_lower` -/
def hexLower (bytes : List UInt8) : String :=
  String.ofList (bytes.flatMap hexByte)

theorem hexDigit_member (nibble : UInt8) : hexDigit nibble ∈ hexDigits := by
  unfold hexDigit
  cases found : hexDigits[nibble.toNat]? with
  | none => exact List.mem_cons_self
  | some digit => exact List.mem_of_getElem? found

theorem hexLower_digits (bytes : List UInt8) : ∀ char ∈ (hexLower bytes).toList, char ∈ hexDigits := by
  intro char member
  unfold hexLower at member
  rw [String.toList_ofList] at member
  obtain ⟨byte, _, inside⟩ := List.mem_flatMap.mp member
  rcases List.mem_cons.mp inside with same | rest
  · rw [same]
    exact hexDigit_member _
  · rw [List.mem_singleton.mp rest]
    exact hexDigit_member _

/-! ### The block that is found -/

/-- What the injection puts between a text and its block. -/
def gapAfter (existing : String) : String :=
  if "\n\n".toList.isSuffixOf existing.toList then ""
  else if existing.toList.getLast? = some '\n' then "\n"
  else if existing = "" then ""
  else "\n\n"

theorem gapAfter_eq_empty (existing : String) :
    gapAfter existing = "" ↔ existing = "" ∨ "\n\n".toList <:+ existing.toList := by
  unfold gapAfter
  by_cases blank : "\n\n".toList.isSuffixOf existing.toList = true
  · rw [if_pos blank]
    exact iff_of_true rfl (Or.inr (List.isSuffixOf_iff_suffix.mp blank))
  · rw [if_neg blank]
    have noSuffix : ¬ "\n\n".toList <:+ existing.toList :=
      fun suffix => blank (List.isSuffixOf_iff_suffix.mpr suffix)
    by_cases line : existing.toList.getLast? = some '\n'
    · rw [if_pos line]
      refine iff_of_false (by decide) ?_
      intro either
      rcases either with empty | suffix
      · rw [empty] at line
        cases line
      · exact noSuffix suffix
    · rw [if_neg line]
      by_cases empty : existing = ""
      · rw [if_pos empty]
        exact iff_of_true rfl (Or.inl empty)
      · rw [if_neg empty]
        exact iff_of_false (by decide) (fun either => either.elim empty noSuffix)

/-- The start sentinel between its lead and its close. -/
def headerText (hash : String) : List Char :=
  ("v" ++ markerVersion ++ " sha256=" ++ hash ++ " ").toList

theorem dash_not_in_header (bytes : List UInt8) : '-' ∉ headerText (hexLower bytes) := by
  unfold headerText
  rw [String.toList_append, String.toList_append, List.append_assoc, List.mem_append,
    List.mem_append]
  intro member
  rcases member with lead | hash | space
  · exact absurd lead (by decide)
  · exact absurd (hexLower_digits bytes '-' hash) (by decide)
  · exact absurd space (by decide)

variable (sha256 : ByteArray → String)

theorem renderBlock_toList (body : String) :
    (renderBlock sha256 body).toList =
      markerStartPrefix.toList ++
        (headerText (computeBodyHash sha256 (ensureSurroundingNewlines body)) ++
          ("-->".toList ++ ((ensureSurroundingNewlines body).toList ++ markerEnd.toList))) := by
  unfold renderBlock headerText
  have close : " -->".toList = " ".toList ++ "-->".toList := rfl
  simp only [String.toList_append, close, List.append_assoc]

variable {after inside : List Char}

variable {text body : String}

/-- A text with no start sentinel before its block has the block found. -/
theorem find_block {front header rest body : List Char} (split : text.toList =
      front ++ (markerStartPrefix.toList ++ (header ++ ("-->".toList ++ rest))))
    (unmarked : cutAt markerStartPrefix.toList front = none) (fresh : '-' ∉ header)
    (ended : cutAt markerEnd.toList rest = some (body, after)) :
    find text = some
      { before := String.ofList front
        body := String.ofList body
        after := String.ofList after
        version := (parseStartHeader (markerStartPrefix.toList ++ header ++ "-->".toList)).1
        recordedHash :=
          (parseStartHeader (markerStartPrefix.toList ++ header ++ "-->".toList)).2 } := by
  have started : cutAt markerStartPrefix.toList text.toList =
      some (front, header ++ ("-->".toList ++ rest)) := by
    rw [split]
    exact cutAt_separator (by decide) unmarked _
  have closed : cutAt "-->".toList (header ++ ("-->".toList ++ rest)) = some (header, rest) :=
    cutAt_fresh fresh rest
  unfold find
  simp only [started, closed, ended, Option.bind_eq_bind, Option.bind_some]
  rfl

/-! ### What is injected -/

theorem find_unmarked
    (unmarked : cutAt markerStartPrefix.toList text.toList = none) : find text = none := by
  unfold find
  rw [unmarked]
  rfl

variable {existing : String}

theorem inject_absent (body : String) (force : Bool) (absent : find existing = none) :
    inject sha256 existing body force =
      some (existing ++ gapAfter existing ++ renderBlock sha256 body ++ "\n") := by
  have last : (existing ++ gapAfter existing ++ renderBlock sha256 body).toList.getLast? =
      some '>' := by
    have nonempty : markerEnd.toList ≠ [] := by decide
    rw [String.toList_append, renderBlock_toList]
    simp only [← List.append_assoc]
    rw [List.getLast?_append_of_ne_nil _ nonempty]
    rfl
  have open_line : ¬ (existing ++ gapAfter existing ++ renderBlock sha256 body).toList.getLast? =
      some '\n' := by
    rw [last]
    decide
  unfold inject
  dsimp only
  rw [absent]
  exact congrArg some (if_neg open_line)

theorem inject_unmarked (body : String)
    (force : Bool) (unmarked : cutAt markerStartPrefix.toList existing.toList = none) :
    inject sha256 existing body force =
      some (existing ++ gapAfter existing ++ renderBlock sha256 body ++ "\n") :=
  inject_absent sha256 body force (find_unmarked unmarked)

/-- The newlines around a body hold no marker. -/
theorem marker_in_normalized (body : String) :
    cutAt markerEnd.toList (ensureSurroundingNewlines body).toList = none ↔
      cutAt markerEnd.toList body.toList = none := by
  have line : '\n' ∉ markerEnd.toList := by decide
  have nonempty : markerEnd.toList ≠ [] := by decide
  have opens : ∀ text : String, markerEnd.toList <:+: ("\n" ++ text).toList ↔
      markerEnd.toList <:+: text.toList := by
    intro text
    rw [String.toList_append]
    exact infix_cons_mark line nonempty
  have closes : ∀ text : String, markerEnd.toList <:+: (text ++ "\n").toList ↔
      markerEnd.toList <:+: text.toList := by
    intro text
    rw [String.toList_append]
    exact infix_concat_mark line nonempty
  rw [cutAt_eq_none, cutAt_eq_none, not_iff_not]
  unfold ensureSurroundingNewlines
  dsimp only
  by_cases opened : body.toList.head? = some '\n'
  · rw [if_pos opened]
    split
    · exact Iff.rfl
    · exact closes body
  · rw [if_neg opened]
    split
    · exact opens body
    · rw [closes]
      exact opens body

theorem unmarked_gap (unmarked : cutAt markerStartPrefix.toList existing.toList = none) :
    cutAt markerStartPrefix.toList (existing ++ gapAfter existing).toList = none := by
  have line : '\n' ∉ markerStartPrefix.toList := by decide
  have nonempty : markerStartPrefix.toList ≠ [] := by decide
  have closes : ∀ text : String, markerStartPrefix.toList <:+: (text ++ "\n").toList ↔
      markerStartPrefix.toList <:+: text.toList := by
    intro text
    rw [String.toList_append]
    exact infix_concat_mark line nonempty
  have two : existing ++ "\n\n" = existing ++ "\n" ++ "\n" := by
    rw [String.append_assoc]
    rfl
  rw [cutAt_eq_none] at unmarked ⊢
  unfold gapAfter
  split
  · rw [String.append_empty]
    exact unmarked
  · split
    · rw [closes]
      exact unmarked
    · split
      · rw [String.append_empty]
        exact unmarked
      · rw [two, closes, closes]
        exact unmarked

/-! ### Removal -/

/-- Without the one newline that the injection puts behind its block. -/
def withoutNewline (after : List Char) : String :=
  (stripPrefix "\n" (String.ofList after)).getD (String.ofList after)

theorem withoutNewline_line (rest : List Char) :
    withoutNewline ('\n' :: rest) = String.ofList rest := by
  have chars : (String.ofList ('\n' :: rest)).toList = '\n' :: rest := String.toList_ofList
  have starts : "\n".toList.isPrefixOf ('\n' :: rest) = true :=
    List.isPrefixOf_iff_prefix.mpr ⟨rest, rfl⟩
  unfold withoutNewline stripPrefix
  rw [chars, if_pos starts]
  rfl

theorem withoutNewline_other {first : Char} (other : first ≠ '\n') (rest : List Char) :
    withoutNewline (first :: rest) = String.ofList (first :: rest) := by
  have chars : (String.ofList (first :: rest)).toList = first :: rest := String.toList_ofList
  have kept : ¬ "\n".toList.isPrefixOf (first :: rest) = true := by
    intro starts
    exact other (List.cons_prefix_cons.mp (List.isPrefixOf_iff_prefix.mp starts)).1.symm
  unfold withoutNewline stripPrefix
  rw [chars, if_neg kept]
  rfl

theorem withoutNewline_eq_empty (after : List Char) :
    withoutNewline after = "" ↔ after = [] ∨ after = ['\n'] := by
  cases after with
  | nil => exact iff_of_true rfl (Or.inl rfl)
  | cons first rest =>
      rw [or_iff_right (List.cons_ne_nil _ _)]
      by_cases line : first = '\n'
      · rw [line, withoutNewline_line, ← String.toList_inj, String.toList_ofList, List.cons.injEq]
        exact (and_iff_right rfl).symm
      · rw [withoutNewline_other line, ← String.toList_inj, String.toList_ofList]
        exact iff_of_false (List.cons_ne_nil _ _) (fun same => line (List.cons.inj same).1)

/-- The removal leaves the text, the gap, and what stands behind the first end
sentinel. -/
theorem remove_injected (digest : ByteArray → List UInt8) {existing : String}
    (unmarked : cutAt markerStartPrefix.toList existing.toList = none)
    (ended : cutAt markerEnd.toList
      ((ensureSurroundingNewlines body).toList ++ (markerEnd.toList ++ ['\n'])) =
        some (inside, after)) :
    remove (existing ++ gapAfter existing ++
        renderBlock (fun bytes => hexLower (digest bytes)) body ++ "\n") =
      existing ++ gapAfter existing ++ withoutNewline after := by
  have split : (existing ++ gapAfter existing ++
      renderBlock (fun bytes => hexLower (digest bytes)) body ++ "\n").toList =
        (existing ++ gapAfter existing).toList ++ (markerStartPrefix.toList ++
          (headerText (hexLower (digest (ensureSurroundingNewlines body).toUTF8)) ++
            ("-->".toList ++
              ((ensureSurroundingNewlines body).toList ++ (markerEnd.toList ++ ['\n']))))) := by
    rw [String.toList_append, String.toList_append, renderBlock_toList]
    simp only [List.append_assoc]
    rfl
  have found := find_block split (unmarked_gap unmarked) (dash_not_in_header _) ended
  unfold remove
  rw [found]
  change String.ofList (existing ++ gapAfter existing).toList ++ withoutNewline after = _
  rw [String.ofList_toList]

/-- The first end sentinel is the block's own where the body has none. -/
theorem ended_after_body (ended : cutAt markerEnd.toList
      ((ensureSurroundingNewlines body).toList ++ (markerEnd.toList ++ ['\n'])) =
        some (inside, after)) :
    (after = [] ∨ after = ['\n']) ↔ cutAt markerEnd.toList body.toList = none := by
  obtain ⟨split, first⟩ := cutAt_eq_some ended
  rw [← marker_in_normalized]
  constructor
  · intro short
    rcases short with empty | line
    · rw [empty, List.append_nil] at split
      have lasts := congrArg List.getLast? split
      have nonempty : markerEnd.toList ≠ [] := by decide
      rw [← List.append_assoc, List.getLast?_concat, List.getLast?_append_of_ne_nil _ nonempty] at lasts
      exact absurd lasts (by decide)
    · rw [line] at split
      have same := List.append_cancel_right split
      rw [cutAt_eq_none]
      intro within
      obtain ⟨before, rest, shape⟩ := within
      rw [List.append_assoc] at shape
      have earlier := first before (rest ++ (markerEnd.toList ++ ['\n'])) (by
        rw [← shape]
        simp only [List.append_assoc])
      have lengths := congrArg List.length shape
      have total : markerEnd.toList.length = 18 := rfl
      rw [← same] at earlier
      rw [List.length_append, List.length_append, total] at lengths
      omega
  · intro free
    have own : cutAt markerEnd.toList
        ((ensureSurroundingNewlines body).toList ++ (markerEnd.toList ++ ['\n'])) =
          some ((ensureSurroundingNewlines body).toList, ['\n']) :=
      cutAt_separator (by decide) free _
    rw [own] at ended
    cases ended
    exact Or.inr rfl

/-- Removing what was injected gives the text back exactly where nothing was put
before the block and the body has no end sentinel. -/
theorem remove_inject_iff (digest : ByteArray → List UInt8) {existing : String} (body : String)
    (force : Bool) (unmarked : cutAt markerStartPrefix.toList existing.toList = none) :
    ∃ injected, inject (fun bytes => hexLower (digest bytes)) existing body force = some injected ∧
      (remove injected = existing ↔
        (existing = "" ∨ "\n\n".toList <:+ existing.toList) ∧
          cutAt markerEnd.toList body.toList = none) := by
  refine ⟨_, inject_unmarked _ body force unmarked, ?_⟩
  obtain ⟨⟨inside, after⟩, ended⟩ := Option.isSome_iff_exists.mp
    (cutAt_isSome markerEnd.toList (ensureSurroundingNewlines body).toList ['\n'])
  rw [remove_injected digest unmarked ended, ← gapAfter_eq_empty, ← ended_after_body ended,
    ← withoutNewline_eq_empty]
  constructor
  · intro same
    have lengths := congrArg (fun text => text.toList.length) same
    simp only [String.toList_append, List.length_append] at lengths
    refine ⟨String.toList_eq_nil_iff.mp (List.length_eq_zero_iff.mp ?_),
      String.toList_eq_nil_iff.mp (List.length_eq_zero_iff.mp ?_)⟩
    · omega
    · omega
  · intro nothing
    rw [nothing.1, nothing.2, String.append_empty, String.append_empty]

/-- A digest of one byte, for texts that differ in their length. -/
def lengthDigest (bytes : ByteArray) : List UInt8 :=
  [UInt8.ofNat bytes.size]

/-- A text that ends with a blank line comes back. -/
theorem blankLine_returns :
    ∃ injected, inject (fun bytes => hexLower (lengthDigest bytes)) "# Doc\n\n" "BODY" false =
        some injected ∧ remove injected = "# Doc\n\n" := by
  obtain ⟨injected, done, undone⟩ := remove_inject_iff lengthDigest "BODY" false
    (show cutAt markerStartPrefix.toList "# Doc\n\n".toList = none by decide)
  exact ⟨injected, done, undone.mpr ⟨Or.inr ⟨"# Doc".toList, rfl⟩, by decide⟩⟩

/-- The text of the test keeps the newline that the injection put behind it. -/
theorem notes_keep_newline :
    ∃ injected,
      inject (fun bytes => hexLower (lengthDigest bytes)) "# Doc\n\nNotes\n" "BODY" false =
        some injected ∧ remove injected = "# Doc\n\nNotes\n\n" ∧
          remove injected ≠ "# Doc\n\nNotes\n" := by
  have removed : remove ("# Doc\n\nNotes\n" ++ gapAfter "# Doc\n\nNotes\n" ++
      renderBlock (fun bytes => hexLower (lengthDigest bytes)) "BODY" ++ "\n") =
        "# Doc\n\nNotes\n\n" := rfl
  refine ⟨_, inject_unmarked _ "BODY" false (by decide), removed, ?_⟩
  rw [removed]
  decide

end Mneme.Cli.Markers
