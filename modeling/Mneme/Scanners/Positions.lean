/-
The positions of findings, read by the tool that applies a refactoring: which of
them name the place the scanner meant, and which cut out what it matched.

The scanner counts bytes, the tool counts UTF-16 code units, and a finding ends on
the line it starts on.
-/

import Mathlib.Algebra.GroupWithZero.Nat
import Mneme.Mcp.RefactorApply
import Mneme.Scanners.Finding

namespace Mneme.Scanners

open Library Mcp

/-! ### The tool's reading of a position -/

theorem skipColumns_eq (text : Units) (columns : Nat) :
    skipColumns text columns = min columns (text.takeWhile (· ≠ newline)).length := by
  induction text generalizing columns with
  | nil => simp [skipColumns]
  | cons unit text ih =>
      cases columns with
      | zero => simp [skipColumns]
      | succ columns =>
          unfold skipColumns
          by_cases same : unit = newline
          · rw [if_pos same, List.takeWhile_cons_of_neg (by simpa using same)]
            rfl
          · rw [if_neg same, ih, List.takeWhile_cons_of_pos (by simpa using same), List.length_cons]
            omega

/-- The units of the line of a number, without the line feed. -/
def lineAt (text : Units) (line : Int) : Units :=
  if line ≤ 0 then []
  else (text.drop (skipLines text (line - 1).toNat)).takeWhile (· ≠ newline)

/-- Columns beyond the end of a line are its end. -/
theorem clamped_columns (line tail : Units) (start stop : Nat) :
    ((line ++ tail).take (min stop line.length)).drop (min start line.length) =
      (line.take stop).drop start := by
  have taken : (line ++ tail).take (min stop line.length) = line.take stop := by
    rw [List.take_append_of_le_length (Nat.min_le_right _ _), List.take_eq_take_iff]
    omega
  rw [taken]
  by_cases inside : start ≤ line.length
  · rw [Nat.min_eq_left inside]
  · have beyond : (line.take stop).length ≤ line.length := by
      rw [List.length_take]
      omega
    rw [List.drop_eq_nil_of_le (by omega), List.drop_eq_nil_of_le (by omega)]

/-- Between two columns of one line lies a part of that line. -/
theorem slice_line (text : Units) (line : Int) (start stop : Nat) :
    slice text (offsetForLineColumn text line start) (offsetForLineColumn text line stop) =
      ((lineAt text line).take stop).drop start := by
  unfold offsetForLineColumn lineAt slice
  by_cases none : line ≤ 0
  · rw [if_pos none, if_pos none, if_pos none, List.take_nil, List.drop_nil, List.take_zero,
      List.drop_nil]
  · rw [if_neg none, if_neg none, if_neg none]
    dsimp only
    generalize skipLines text (line - 1).toNat = offset
    have width : ∀ first second : Nat, offset + first - (offset + second) = first - second := by
      intro first second
      omega
    rw [skipColumns_eq, skipColumns_eq, Int.toNat_natCast, Int.toNat_natCast, List.drop_take,
      ← List.drop_drop, width, ← List.drop_take]
    have clamped := clamped_columns ((text.drop offset).takeWhile (· ≠ newline))
      ((text.drop offset).dropWhile (· ≠ newline)) start stop
    rw [List.takeWhile_append_dropWhile] at clamped
    exact clamped

/-- The start of a line, from the text before it. -/
theorem skipLines_before {heads : Units} (ended : heads = [] ∨ heads.getLast? = some newline)
    (rest : Units) : skipLines (heads ++ rest) (heads.count newline) = heads.length := by
  induction heads with
  | nil =>
      rw [List.nil_append, List.count_nil]
      cases rest with
      | nil => rfl
      | cons unit rest => rfl
  | cons unit heads ih =>
      have last : heads = [] ∨ heads.getLast? = some newline := by
        cases heads with
        | nil => exact Or.inl rfl
        | cons next heads => simpa [List.getLast?_cons_cons] using ended
      have some : 0 < (unit :: heads).count newline := by
        rw [List.count_pos_iff]
        cases ended with
        | inl nothing => cases nothing
        | inr last => exact List.mem_of_getLast? last
      rw [List.cons_append, List.length_cons]
      by_cases same : unit = newline
      · rw [same, List.count_cons_self, skipLines, if_pos rfl, ih last, Nat.add_comm]
      · rw [List.count_cons_of_ne same] at some ⊢
        obtain ⟨lines, count⟩ := Nat.exists_eq_add_of_lt some
        rw [Nat.zero_add] at count
        rw [count, skipLines, if_neg same, ← count, ih last, Nat.add_comm]

/-- Skipping so many line ends passes no more of them. -/
theorem skipLines_count (text : Units) (lines : Nat) :
    (text.take (skipLines text lines)).count newline ≤ lines := by
  induction text generalizing lines with
  | nil => simp [skipLines]
  | cons unit text ih =>
      cases lines with
      | zero => simp [skipLines]
      | succ lines =>
          rw [skipLines, Nat.add_comm, List.take_succ_cons]
          by_cases same : unit = newline
          · rw [if_pos same, same, List.count_cons_self]
            have := ih lines
            omega
          · rw [if_neg same, List.count_cons_of_ne same]
            exact ih (lines + 1)

/-- Nothing before a position stands on a later line. -/
theorem offset_count (text : Units) (line column : Int) :
    (text.take (offsetForLineColumn text line column)).count newline ≤ (line - 1).toNat := by
  unfold offsetForLineColumn
  by_cases none : line ≤ 0
  · rw [if_pos none]
    simp
  · rw [if_neg none]
    dsimp only
    have lines := skipLines_count text (line - 1).toNat
    generalize skipLines text (line - 1).toNat = offset at lines ⊢
    have taken : text.take (offset + skipColumns (text.drop offset) column.toNat) =
        text.take offset ++ (text.drop offset).take (skipColumns (text.drop offset) column.toNat) :=
      List.take_add
    rw [taken, List.count_append]
    generalize text.drop offset = rest
    have free : (rest.take (skipColumns rest column.toNat)).count newline = 0 := by
      have clamped := clamped_columns (rest.takeWhile (· ≠ newline))
        (rest.dropWhile (· ≠ newline)) 0 column.toNat
      rw [List.takeWhile_append_dropWhile, Nat.zero_min, List.drop_zero, List.drop_zero] at clamped
      rw [skipColumns_eq, clamped, List.count_eq_zero]
      intro member
      have other := List.mem_takeWhile_imp (List.mem_of_mem_take member)
      simp at other
    rw [free]
    exact lines

/-! ### Positions -/

/-- The position between two parts of a text, as the scanner writes it and the
tool reads it. -/
def Designates (before after : List Char) : Prop :=
  let position := lineColOf (utf8 (before ++ after)) (utf8 before).length
  offsetForLineColumn (utf16 (before ++ after)) position.1.toNat position.2.toNat =
    (utf16 before).length

/-- The line has a number, and its bytes up to the position are as many as its
units, or the position is where the line ends. -/
structure ColumnHolds (before after : List Char) : Prop where
  numbered : before.count '\n' + 1 < 2 ^ 32
  column : (utf8 (lastLine before)).length % 2 ^ 32 = (utf16 (lastLine before)).length ∨
    (utf16 (lastLine before)).length ≤ (utf8 (lastLine before)).length % 2 ^ 32 ∧
      after.takeWhile (· ≠ '\n') = []

/-- The text before a position ends with its last line. -/
theorem lastLine_split (text : List Char) : ∃ heads, text = heads ++ lastLine text ∧
    (heads = [] ∨ heads.getLast? = some '\n') := by
  refine ⟨text.rdropWhile (fun char => decide (char ≠ '\n')),
    (List.rdropWhile_append_rtakeWhile).symm, ?_⟩
  by_cases nothing : text.rdropWhile (fun char => decide (char ≠ '\n')) = []
  · exact Or.inl nothing
  · have last := List.rdropWhile_last_not (fun char => decide (char ≠ '\n')) text nothing
    rw [decide_eq_true_eq, not_not] at last
    exact Or.inr (by rw [List.getLast?_eq_some_getLast nothing, last])

theorem utf16_ended {heads : List Char} (ended : heads = [] ∨ heads.getLast? = some '\n') :
    utf16 heads = [] ∨ (utf16 heads).getLast? = some newline := by
  cases ended with
  | inl nothing => exact Or.inl (by rw [nothing]; rfl)
  | inr last =>
      obtain ⟨front, split⟩ := List.getLast?_eq_some_iff.mp last
      rw [split, utf16_append]
      exact Or.inr List.getLast?_concat

/-- The line of a position whose number fits. -/
theorem lineAt_before (before after : List Char) (numbered : before.count '\n' + 1 < 2 ^ 32) :
    lineAt (utf16 (before ++ after)) ((1 + before.count '\n') % 2 ^ 32 : Nat) =
        utf16 (lastLine before ++ after.takeWhile (· ≠ '\n')) ∧
      skipLines (utf16 (before ++ after)) (((1 + before.count '\n') % 2 ^ 32 : Nat) - 1 : Int).toNat +
        (utf16 (lastLine before)).length = (utf16 before).length := by
  obtain ⟨heads, split, ended⟩ := lastLine_split before
  have free := lastLine_free before
  generalize lastLine before = line at split free ⊢
  have same : before.count '\n' = heads.count '\n' := by
    rw [split, List.count_append, List.count_eq_zero_of_not_mem free, Nat.add_zero]
  have skipped : skipLines (utf16 (before ++ after)) (heads.count '\n') = (utf16 heads).length := by
    rw [split, List.append_assoc, utf16_append, ← utf16_count_newline]
    exact skipLines_before (utf16_ended ended) _
  have number : ((((1 + before.count '\n') % 2 ^ 32 : Nat) : Int) - 1).toNat = heads.count '\n' := by
    rw [Nat.mod_eq_of_lt (by omega)]
    omega
  rw [number, skipped]
  constructor
  · unfold lineAt
    have positive : ¬ (((1 + before.count '\n') % 2 ^ 32 : Nat) : Int) ≤ 0 := by
      rw [Nat.mod_eq_of_lt (by omega)]
      omega
    rw [if_neg positive, number, skipped, split, List.append_assoc, utf16_append, List.drop_left]
    change (utf16 _).takeWhile (· ≠ 10) = _
    rw [utf16_takeWhile_newline]
    congr 1
    refine List.takeWhile_append_of_pos ?_
    intro char member
    exact decide_eq_true (fun bad => free (bad ▸ member))
  · rw [split, utf16_append, List.length_append]

theorem lineColOf_toNat (before after : List Char) :
    (lineColOf (utf8 (before ++ after)) (utf8 before).length).1.toNat =
        (1 + before.count '\n') % 2 ^ 32 ∧
      (lineColOf (utf8 (before ++ after)) (utf8 before).length).2.toNat =
        (utf8 (lastLine before)).length % 2 ^ 32 := by
  rw [lineColOf_boundary]
  exact ⟨UInt32.toNat_ofNat', UInt32.toNat_ofNat'⟩

theorem offset_of_positive (text : Units) {line : Int} (positive : 0 < line) (column : Nat) :
    offsetForLineColumn text line column =
      skipLines text (line - 1).toNat + min column (lineAt text line).length := by
  unfold offsetForLineColumn lineAt
  rw [if_neg (by omega), if_neg (by omega)]
  dsimp only
  rw [skipColumns_eq, Int.toNat_natCast]

theorem utf16_eq_nil {text : List Char} : utf16 text = [] ↔ text = [] := by
  cases text with
  | nil => simp [utf16]
  | cons char text =>
      have unit : utf16Char char ≠ [] := by
        unfold utf16Char
        split <;> simp
      simp [utf16, unit]

theorem designates_iff (before after : List Char) :
    Designates before after ↔ ColumnHolds before after := by
  unfold Designates
  obtain ⟨line, column⟩ := lineColOf_toNat before after
  dsimp only
  rw [line, column]
  by_cases numbered : before.count '\n' + 1 < 2 ^ 32
  · obtain ⟨row, start⟩ := lineAt_before before after numbered
    have positive : (0 : Int) < ((1 + before.count '\n') % 2 ^ 32 : Nat) := by
      rw [Nat.mod_eq_of_lt (by omega)]
      omega
    rw [offset_of_positive _ positive, row, utf16_append (lastLine before), List.length_append]
    have ends : after.takeWhile (· ≠ '\n') = [] ↔
        (utf16 (after.takeWhile (· ≠ '\n'))).length = 0 := by
      rw [List.length_eq_zero_iff, utf16_eq_nil]
    constructor
    · intro designates
      refine ⟨numbered, ?_⟩
      rw [ends]
      omega
    · intro holds
      have columns := holds.column
      rw [ends] at columns
      omega
  · constructor
    · intro designates
      exfalso
      have passed := offset_count (utf16 (before ++ after))
        ((1 + before.count '\n') % 2 ^ 32 : Nat) ((utf8 (lastLine before)).length % 2 ^ 32 : Nat)
      rw [designates, utf16_append, List.take_left] at passed
      change (utf16 before).count 10 ≤ _ at passed
      rw [utf16_count_newline] at passed
      omega
    · intro holds
      exact absurd holds.numbered numbered

/-! ### Spans -/

structure Rule where
  ruleId : String
  severity : Severity
  message : String
  suggestion : Option String

/-- The part of a text that a scanner reports, found anywhere by an expression of
its own. -/
inductive Reported where
  /-- Reported from its first to its last byte, as all rules do but two. -/
  | whole (rule : Rule) (before matched after : List Char)
  /-- `ipc.unknown-channel`: the call, of which the name is a part. -/
  | channel (before lead name tail after : List Char)
  /-- `perf.unbatched-setstate`: the first of three setters. -/
  | firstSetter (before : List Char) (setter : Char) (rest after : List Char)

namespace Reported

def rule : Reported → Rule
  | whole rule _ _ _ => rule
  | channel _ _ name _ _ =>
      { ruleId := "ipc.unknown-channel"
        severity := .error
        message := s!"IPC channel '{String.ofList name}' invoked from renderer is not declared " ++
          "in preload bridge or types file."
        suggestion := none }
  | firstSetter _ _ _ _ =>
      { ruleId := "perf.unbatched-setstate"
        severity := .info
        message := "Three or more sequential setState-style calls — consider " ++
          "unstable_batchedUpdates / React 18 auto-batching, or merge state."
        suggestion := none }

def before : Reported → List Char
  | whole _ before _ _ => before
  | channel before _ _ _ _ => before
  | firstSetter before _ _ _ => before

def matched : Reported → List Char
  | whole _ _ matched _ => matched
  | channel _ lead name tail _ => lead ++ name ++ tail
  | firstSetter _ setter rest _ => setter :: rest

def after : Reported → List Char
  | whole _ _ _ after => after
  | channel _ _ _ _ after => after
  | firstSetter _ _ _ after => after

def text (found : Reported) : List Char :=
  found.before ++ (found.matched ++ found.after)

/-- How far the end column is from the start column. -/
def width : Reported → Nat
  | whole _ _ matched _ => (utf8 matched).length
  | channel _ _ name _ _ => (utf8 name).length
  | firstSetter _ _ _ _ => 1

def finding (file : String) (found : Reported) : Finding :=
  let position := lineColOf (utf8 found.text) (utf8 found.before).length
  let finding := Finding.newLine found.rule.ruleId found.rule.severity file position.1 position.2
    (position.2 + UInt32.ofNat found.width) found.rule.message
  match found.rule.suggestion with
  | some suggestion => finding.withFix suggestion
  | none => finding

end Reported

/-- What the tool cuts out of the text for a finding. -/
def cutOut (text : List Char) (finding : Finding) : Units :=
  slice (utf16 text)
    (offsetForLineColumn (utf16 text) finding.lineStart.toNat finding.columnStart.toNat)
    (offsetForLineColumn (utf16 text) finding.lineEnd.toNat finding.columnEnd.toNat)

/-- How many bytes more than units stand before a position on its line. -/
def surplus (before : List Char) : Nat :=
  (utf8 (lastLine before)).length - (utf16 (lastLine before)).length

/-- The rest of the line spells the match once more after so many units, and the
width ends it. -/
structure OnOneLine (found : Reported) : Prop where
  single : '\n' ∉ found.matched
  landed : ((utf16 (found.matched ++ found.after.takeWhile (· ≠ '\n'))).drop
    (surplus found.before)).take found.width = utf16 found.matched

/-- What is on the line with the number of the match, between its columns, when
lines and columns are counted in 32 bits. -/
def wrappedColumns (found : Reported) : Units :=
  let column := (utf8 (lastLine found.before)).length
  ((lineAt (utf16 found.text) ((1 + found.before.count '\n') % 2 ^ 32 : Nat)).take
    ((column + found.width) % 2 ^ 32)).drop (column % 2 ^ 32)

/-- No line number and no column of the text wraps. -/
def Fits (text : List Char) : Prop :=
  (utf8 text).length + 1 < 2 ^ 32

/-- In a text that fits, the match is on one line; in a longer one it is wherever
the wrapped columns are. -/
def CutsMatch (found : Reported) : Prop :=
  (Fits found.text ∧ OnOneLine found) ∨
    (¬ Fits found.text ∧ wrappedColumns found = utf16 found.matched)

theorem cutOut_finding (file : String) (found : Reported) :
    cutOut found.text (found.finding file) = wrappedColumns found := by
  obtain ⟨line, column⟩ := lineColOf_toNat found.before (found.matched ++ found.after)
  have span : cutOut found.text (found.finding file) =
      ((lineAt (utf16 found.text) (lineColOf (utf8 found.text)
        (utf8 found.before).length).1.toNat).take ((lineColOf (utf8 found.text)
          (utf8 found.before).length).2 + UInt32.ofNat found.width).toNat).drop
            (lineColOf (utf8 found.text) (utf8 found.before).length).2.toNat := by
    unfold cutOut Reported.finding
    dsimp only
    cases found.rule.suggestion with
    | none => exact slice_line _ _ _ _
    | some suggestion => exact slice_line _ _ _ _
  rw [span]
  unfold wrappedColumns Reported.text
  dsimp only
  rw [UInt32.toNat_add, line, column, UInt32.toNat_ofNat', ← Nat.add_mod]

theorem width_le (found : Reported) : found.width ≤ (utf8 found.matched).length := by
  cases found with
  | whole rule before matched after => exact Nat.le_refl _
  | channel before lead name tail after =>
      change (utf8 name).length ≤ (utf8 (lead ++ name ++ tail)).length
      rw [utf8_append, utf8_append, List.length_append, List.length_append]
      omega
  | firstSetter before setter rest after =>
      change 1 ≤ (utf8 (setter :: rest)).length
      have some : 0 < (String.utf8EncodeChar setter).length :=
        List.length_pos_of_ne_nil String.utf8EncodeChar_ne_nil
      unfold utf8
      rw [List.flatMap_cons, List.length_append]
      omega

theorem count_newline_le (text : List Char) : text.count '\n' ≤ (utf8 text).length := by
  rw [← utf8_count_newline]
  exact List.count_le_length

theorem lastLine_length_le (text : List Char) :
    (utf8 (lastLine text)).length ≤ (utf8 text).length := by
  obtain ⟨heads, split, _⟩ := lastLine_split text
  calc
    (utf8 (lastLine text)).length ≤ (utf8 heads).length + (utf8 (lastLine text)).length :=
      Nat.le_add_left _ _
    _ = (utf8 (heads ++ lastLine text)).length := by rw [utf8_append, List.length_append]
    _ = (utf8 text).length := by rw [← split]

theorem takeWhile_free {chars rest : List Char} (free : '\n' ∉ chars) :
    (chars ++ rest).takeWhile (· ≠ '\n') = chars ++ rest.takeWhile (· ≠ '\n') := by
  refine List.takeWhile_append_of_pos ?_
  intro char member
  exact decide_eq_true (fun bad => free (bad ▸ member))

/-- The columns of a match in a text that fits. -/
theorem wrappedColumns_of_fits {found : Reported} (fit : Fits found.text) :
    wrappedColumns found =
      ((utf16 ((found.matched ++ found.after).takeWhile (· ≠ '\n'))).drop
        (surplus found.before)).take found.width := by
  have widths := width_le found
  have lines := count_newline_le found.before
  have columns := lastLine_length_le found.before
  have units := utf16_length_le (lastLine found.before)
  unfold Fits Reported.text at fit
  rw [utf8_append, utf8_append, List.length_append, List.length_append] at fit
  have some : found.before.count '\n' + 1 < 2 ^ 32 := by
    omega
  unfold wrappedColumns surplus
  dsimp only
  unfold Reported.text
  rw [(lineAt_before found.before (found.matched ++ found.after) some).1, utf16_append,
    Nat.mod_eq_of_lt (by omega), Nat.mod_eq_of_lt (by omega), List.drop_take, List.drop_append,
    List.drop_eq_nil_of_le units, List.nil_append, Nat.add_sub_cancel_left]

theorem cutsMatch_iff (file : String) (found : Reported) :
    cutOut found.text (found.finding file) = utf16 found.matched ↔ CutsMatch found := by
  rw [cutOut_finding]
  unfold CutsMatch
  by_cases fit : Fits found.text
  · rw [and_iff_right fit, or_iff_left (fun both => both.1 fit), wrappedColumns_of_fits fit]
    constructor
    · intro same
      have single : '\n' ∉ found.matched := by
        intro member
        rw [← newline_mem_utf16, ← same] at member
        have inside := List.mem_of_mem_drop (List.mem_of_mem_take member)
        have other := List.mem_takeWhile_imp (newline_mem_utf16.mp inside)
        simp at other
      rw [takeWhile_free single] at same
      exact ⟨single, same⟩
    · intro line
      rw [takeWhile_free line.single]
      exact line.landed
  · rw [and_iff_right fit, or_iff_right (fun both => fit both.1)]

theorem columnHolds_of_fits {before after : List Char} (fit : Fits (before ++ after)) :
    ColumnHolds before after ↔
      (∀ char ∈ lastLine before, IsAscii char) ∨ after.takeWhile (· ≠ '\n') = [] := by
  have lines := count_newline_le before
  have columns := lastLine_length_le before
  have units := utf16_length_le (lastLine before)
  unfold Fits at fit
  rw [utf8_append, List.length_append] at fit
  have whole : (utf8 (lastLine before)).length % 2 ^ 32 = (utf8 (lastLine before)).length :=
    Nat.mod_eq_of_lt (by omega)
  rw [← lengths_eq_iff]
  constructor
  · intro holds
    have column := holds.column
    rw [whole] at column
    exact column.imp id And.right
  · intro either
    refine ⟨by omega, ?_⟩
    rw [whole]
    exact either.imp id (fun ends => ⟨units, ends⟩)

/-- Which positions mean the same on both sides, and which matches the tool finds
between the positions of their finding. -/
theorem positions_agree_iff (file : String) :
    (∀ before after, Designates before after ↔ ColumnHolds before after) ∧
      (∀ before after, Fits (before ++ after) → (ColumnHolds before after ↔
        (∀ char ∈ lastLine before, IsAscii char) ∨ after.takeWhile (· ≠ '\n') = [])) ∧
      ∀ found : Reported, cutOut found.text (found.finding file) = utf16 found.matched ↔
        CutsMatch found :=
  ⟨designates_iff, fun _ _ fit => columnHolds_of_fits fit, cutsMatch_iff file⟩

/-- Found by an expression that lets any white space stand between the words. -/
def asAny : Rule :=
  { ruleId := "ts.as-any"
    severity := .error
    message := "`as any` is forbidden — narrow with a type predicate or refine the source type."
    suggestion := some "as unknown" }

/-- After one accented letter the columns differ, and a match with a line feed ends
on another line than its finding. -/
theorem positions_differ :
    (¬ ∀ before after, Designates before after) ∧
      ¬ ∀ (file : String) (found : Reported),
        cutOut found.text (found.finding file) = utf16 found.matched := by
  constructor
  · intro always
    have same := always ['é'] ['a']
    revert same
    unfold Designates
    decide
  · intro always
    have same := always "a.ts" (.whole asAny ['x', ' '] ['a', 's', '\n', 'a', 'n', 'y'] [';'])
    revert same
    decide

end Mneme.Scanners
