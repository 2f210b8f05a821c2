/-
The tool drift_findings: the query over the open findings and the severities it
shows them with.
-/

import Mneme.Library.Ordering
import Mneme.Scanners.Finding

namespace Mneme.Mcp

open Library Scanners

/-- `SeverityEnum`, from the lowest to the highest. -/
inductive ShownSeverity where
  | info
  | low
  | medium
  | high
  | critical
deriving DecidableEq

def ShownSeverity.text : ShownSeverity → String
  | .info => "info"
  | .low => "low"
  | .medium => "medium"
  | .high => "high"
  | .critical => "critical"

def ShownSeverity.rank : ShownSeverity → Nat
  | .info => 0
  | .low => 1
  | .medium => 2
  | .high => 3
  | .critical => 4

/-- `ALLOWED_SEVERITY` -/
def allowedSeverities : List ShownSeverity :=
  [.info, .low, .medium, .high, .critical]

/-- A word that is not among the allowed ones is shown as information. -/
def coerceSeverity (word : String) : ShownSeverity :=
  (allowedSeverities.find? (fun severity => severity.text = word)).getD .info

def lowerAscii (char : Char) : Char :=
  if 'A' ≤ char ∧ char ≤ 'Z' then Char.ofNat (char.toNat + 32) else char

/-- `LIKE`, by the pattern: any text for a percent sign, any character for an
underscore, and ASCII letters in either case. -/
def sqlLike : List Char → List Char → Bool
  | [], text => text.isEmpty
  | '%' :: pattern, text => text.tails.any (sqlLike pattern)
  | '_' :: pattern, text =>
      match text with
      | [] => false
      | _ :: rest => sqlLike pattern rest
  | char :: pattern, text =>
      match text with
      | [] => false
      | first :: rest => lowerAscii char = lowerAscii first && sqlLike pattern rest

/-- The scope as a part of the path of a file; the words of the schema select
nothing. -/
def scopeToFileFilter : Option String → Option String
  | none => none
  | some scope =>
      if scope = "" ∨ scope = "project" ∨ scope = "diff" ∨ scope = "file" then none else some scope

def inFileScope (filter : Option String) (row : FindingRow) : Bool :=
  match filter with
  | none => true
  | some scope => sqlLike ('%' :: scope.toList ++ ['%']) row.columns.file.toList

/-- `ORDER BY created_at DESC, id DESC` -/
def newerFirst (left right : FindingRow) : Prop :=
  right.createdAt < left.createdAt ∨ right.createdAt = left.createdAt ∧ right.id ≤ left.id

instance (left right : FindingRow) : Decidable (newerFirst left right) :=
  inferInstanceAs (Decidable (_ ∨ _))

def clampLimit (limit : Nat) : Nat :=
  max 1 (min 500 limit)

/-- The rows of `driftFindingsExtended` before its `LIMIT`. -/
def selectedRows (severity : Option String) (filter : Option String) (shard : FindingsShard) :
    List FindingRow :=
  (shard.openRows.filter (fun row =>
    severity.all (fun word => row.columns.severity = word) && inFileScope filter row)).insertionSort
      newerFirst

def driftFindingsExtended (severity : Option String) (filter : Option String) (limit : Nat)
    (shard : FindingsShard) : List FindingRow × Nat :=
  ((selectedRows severity filter shard).take (clampLimit limit), shard.openRows.length)

structure ExtendedFinding where
  id : String
  scanner : String
  severity : ShownSeverity
  file : String
  line : Nat
  rule : String
  message : String
  suggestion : Option String
  detectedAt : Nat
  column : Nat
  scopeSnippet : String
  firstSeen : Nat
  lastSeen : Option Nat
deriving DecidableEq

def extendedFinding (row : FindingRow) : ExtendedFinding :=
  { id := toString row.id
    scanner := row.columns.scanner
    severity := coerceSeverity row.columns.severity
    file := row.columns.file
    line := row.columns.lineStart
    rule := row.columns.ruleId
    message := row.columns.message
    suggestion := row.columns.suggestion
    detectedAt := row.createdAt
    column := row.columns.columnStart
    scopeSnippet :=
      if row.columns.lineStart = row.columns.lineEnd then
        s!"{row.columns.file}:{row.columns.lineStart}"
      else s!"{row.columns.file}:{row.columns.lineStart}-{row.columns.lineEnd}"
    firstSeen := row.createdAt
    lastSeen := row.resolvedAt }

structure DriftFindings where
  findings : List ExtendedFinding
  totalCount : Nat
  filteredBy : Option ShownSeverity × Option String

/-- The handler, over a shard that is there. -/
def driftFindings (severity : Option ShownSeverity) (scope : Option String) (limit : Nat)
    (shard : FindingsShard) : DriftFindings :=
  let selected := driftFindingsExtended (severity.map ShownSeverity.text)
    (scopeToFileFilter scope) limit shard
  { findings := selected.1.map extendedFinding
    totalCount := selected.2
    filteredBy := (severity, scope) }

/-! ### What survives the shard -/

/-- What calls without a severity list, their limit aside. -/
def shownFindings (scope : Option String) (shard : FindingsShard) : List ExtendedFinding :=
  (selectedRows none (scopeToFileFilter scope) shard).map extendedFinding

/-- An open finding with the severity that its scanner gave it. -/
def OpenFinding (shard : FindingsShard) (severity : Severity) (shown : ExtendedFinding) : Prop :=
  ∃ row ∈ shard.openRows, ∃ finding : Finding, row.columns = columns finding ∧
    finding.severity = severity ∧ extendedFinding row = shown

structure SeveritySurvives (shard : FindingsShard) : Prop where
  filtered : ∀ severity scope limit,
    (driftFindings (some severity) scope limit shard).findings =
      ((shownFindings scope shard).filter (fun shown => shown.severity = severity)).take
        (clampLimit limit)
  ordered : ∀ high low shownHigh shownLow, OpenFinding shard high shownHigh →
    OpenFinding shard low shownLow → low.urgency < high.urgency →
      shownLow.severity.rank ≤ shownHigh.severity.rank
  distinct : ∀ one other shownOne shownOther, OpenFinding shard one shownOne →
    OpenFinding shard other shownOther → one ≠ other → shownOne.severity ≠ shownOther.severity

/-- Every list of findings, batch by batch. -/
def writeBatches (batches : List (List (Nat × Finding))) : FindingsShard :=
  batches.foldl (fun shard batch => shard.writeFindings batch) { }

theorem writeBatches_openColumns (batches : List (List (Nat × Finding))) :
    (writeBatches batches).openColumns = (batches.flatten.map Prod.snd).map columns := by
  have all : ∀ shard : FindingsShard,
      (batches.foldl (fun shard batch => shard.writeFindings batch) shard).openColumns =
        shard.openColumns ++ (batches.flatten.map Prod.snd).map columns := by
    induction batches with
    | nil => simp
    | cons batch batches ih =>
        intro shard
        rw [List.foldl_cons, ih, FindingsShard.writeFindings_openColumns, List.append_assoc,
          List.flatten_cons, List.map_append, List.map_append]
  exact all { }

instance : IsTrans FindingRow newerFirst where
  trans := by
    intro first second third early late
    unfold newerFirst at *
    omega

instance : Std.Total newerFirst where
  total := by
    intro left right
    unfold newerFirst
    omega

variable {shard : FindingsShard}

/-- Selecting by the stored word is selecting by the shown severity, if no open row
tells them apart. -/
theorem filtered_of_words {severity : ShownSeverity} (agree : ∀ row ∈ shard.openRows,
      row.columns.severity = severity.text ↔ coerceSeverity row.columns.severity = severity)
    (scope : Option String) (limit : Nat) :
    (driftFindings (some severity) scope limit shard).findings =
      ((shownFindings scope shard).filter (fun shown => shown.severity = severity)).take
        (clampLimit limit) := by
  unfold driftFindings driftFindingsExtended shownFindings selectedRows
  dsimp only
  rw [List.filter_map, filter_insertionSort, List.map_take, List.filter_filter]
  congr 3
  apply List.filter_congr
  intro row stored
  change (decide (row.columns.severity = severity.text) && _) =
    (decide (coerceSeverity row.columns.severity = severity) && (true && _))
  rw [decide_eq_decide.mpr (agree row stored), Bool.true_and]

/-- The two words that the scanners and the tools share. -/
def SharedWord (severity : Severity) : Prop :=
  severity = .critical ∨ severity = .info

variable {severity : Severity}

/-- Every other severity is shown as information. -/
theorem shown_info (other : severity ≠ .critical) :
    coerceSeverity (severityLabel severity) = .info := by
  cases severity with
  | critical => exact absurd rfl other
  | error => decide
  | warning => decide
  | info => decide

theorem word_iff (shared : SharedWord severity) (shown : ShownSeverity) :
    severityLabel severity = shown.text ↔ coerceSeverity (severityLabel severity) = shown := by
  rcases shared with same | same
  all_goals
    rw [same]
    cases shown <;> decide

theorem OpenFinding.shown {shown : ExtendedFinding} (listed : OpenFinding shard severity shown) :
    shown.severity = coerceSeverity (severityLabel severity) := by
  obtain ⟨row, _, finding, same, severity, rfl⟩ := listed
  change coerceSeverity row.columns.severity = _
  rw [same, ← severity]
  rfl

section Written

variable {batches : List (List (Nat × Finding))}

theorem written_of_open {row : FindingRow} (stored : row ∈ (writeBatches batches).openRows) :
    ∃ batch ∈ batches, ∃ written ∈ batch, row.columns = columns written.2 := by
  have member : row.columns ∈ (writeBatches batches).openColumns := List.mem_map_of_mem stored
  rw [writeBatches_openColumns] at member
  obtain ⟨finding, inBatches, same⟩ := List.mem_map.mp member
  obtain ⟨written, inFlat, rfl⟩ := List.mem_map.mp inBatches
  obtain ⟨batch, given, inBatch⟩ := List.mem_flatten.mp inFlat
  exact ⟨batch, given, written, inBatch, same.symm⟩

theorem open_of_written {batch : List (Nat × Finding)} (given : batch ∈ batches)
    {written : Nat × Finding} (inBatch : written ∈ batch) :
    ∃ row ∈ (writeBatches batches).openRows, row.columns = columns written.2 := by
  have member : columns written.2 ∈ (writeBatches batches).openColumns := by
    rw [writeBatches_openColumns]
    exact List.mem_map_of_mem (List.mem_map_of_mem (List.mem_flatten.mpr ⟨batch, given, inBatch⟩))
  obtain ⟨row, stored, same⟩ := List.mem_map.mp member
  exact ⟨row, stored, same⟩

theorem severityLabel_injective {one other : Severity}
    (same : severityLabel one = severityLabel other) : one = other := by
  revert same
  cases one <;> cases other <;> decide

theorem survives_of_shared
    (shared : ∀ batch ∈ batches, ∀ written ∈ batch, SharedWord written.2.severity) :
    SeveritySurvives (writeBatches batches) := by
  have each : ∀ severity shown, OpenFinding (writeBatches batches) severity shown →
      SharedWord severity := by
    intro severity shown listed
    obtain ⟨row, stored, finding, same, severe, _⟩ := listed
    obtain ⟨batch, given, written, inBatch, alsoSame⟩ := written_of_open stored
    have labels := congrArg FindingColumns.severity (same.symm.trans alsoSame)
    rw [← severe, severityLabel_injective labels]
    exact shared batch given written inBatch
  refine ⟨?_, ?_, ?_⟩
  · intro severity scope limit
    refine filtered_of_words ?_ scope limit
    intro row stored
    obtain ⟨batch, given, written, inBatch, same⟩ := written_of_open stored
    rw [same]
    exact word_iff (shared batch given written inBatch) severity
  · intro high low shownHigh shownLow upper lower less
    rw [upper.shown, lower.shown]
    have atMost : low = .info := by
      rcases each low shownLow lower with same | same
      · -- Nothing is more urgent than a critical finding.
        rw [same] at less
        cases high <;> exact absurd less (by decide)
      · exact same
    rw [atMost, shown_info (by decide)]
    exact Nat.zero_le _
  · intro one other shownOne shownOther first second different
    rw [first.shown, second.shown]
    rcases each one shownOne first with same | same
    · rcases each other shownOther second with alsoSame | alsoSame
      · exact absurd (same.trans alsoSame.symm) different
      · rw [same, alsoSame]
        decide
    · rcases each other shownOther second with alsoSame | alsoSame
      · rw [same, alsoSame]
        decide
      · exact absurd (same.trans alsoSame.symm) different

/-- A finding with a word of the scanners alone is shown as information, beside those
that are, or with none of them for the filter to find. -/
theorem shared_of_survives (survives : SeveritySurvives (writeBatches batches)) :
    ∀ batch ∈ batches, ∀ written ∈ batch, SharedWord written.2.severity := by
  intro batch given written inBatch
  by_contra alone
  obtain ⟨notCritical, notInfo⟩ := not_or.mp alone
  obtain ⟨row, stored, same⟩ := open_of_written given inBatch
  have shown : (extendedFinding row).severity = .info := by
    change coerceSeverity row.columns.severity = _
    rw [same]
    exact shown_info notCritical
  by_cases beside : ∃ other ∈ (writeBatches batches).openRows, other.columns.severity = "info"
  · obtain ⟨other, otherStored, word⟩ := beside
    obtain ⟨_, _, otherWritten, _, otherSame⟩ := written_of_open otherStored
    have info : otherWritten.2.severity = .info := by
      apply severityLabel_injective
      rw [otherSame] at word
      exact word
    refine survives.distinct _ _ (extendedFinding row) (extendedFinding other)
      ⟨row, stored, written.2, same, rfl, rfl⟩
      ⟨other, otherStored, otherWritten.2, otherSame, rfl, rfl⟩ ?_ ?_
    · rw [info]
      exact notInfo
    · rw [shown]
      change _ = coerceSeverity other.columns.severity
      rw [word]
      decide
  · have calls := survives.filtered .info none 1
    have listed : extendedFinding row ∈ (shownFindings none (writeBatches batches)).filter
        (fun other => other.severity = .info) := by
      refine List.mem_filter.mpr ⟨List.mem_map_of_mem ?_, decide_eq_true shown⟩
      exact (List.mem_insertionSort _).mpr (List.mem_filter.mpr ⟨stored, rfl⟩)
    obtain ⟨first, rest, split⟩ := List.exists_cons_of_ne_nil (List.ne_nil_of_mem listed)
    have member : first ∈ (driftFindings (some .info) none 1 (writeBatches batches)).findings := by
      rw [calls, split]
      exact List.mem_cons_self
    obtain ⟨other, selected, _⟩ := List.mem_map.mp member
    have chosen := List.mem_filter.mp ((List.mem_insertionSort _).mp (List.mem_of_mem_take selected))
    exact beside ⟨other, chosen.1, of_decide_eq_true (Bool.and_eq_true_iff.mp chosen.2).1⟩

end Written

/-- Severities survive exactly where no finding has a word that only the scanners
have. -/
theorem severity_survives_iff (batches : List (List (Nat × Finding))) :
    SeveritySurvives (writeBatches batches) ↔
      ∀ batch ∈ batches, ∀ written ∈ batch, SharedWord written.2.severity :=
  ⟨shared_of_survives, survives_of_shared⟩

def hexWarning : Finding :=
  Finding.newLine "theme.hardcoded-hex" .warning "/a.css" 1 0 4 "m"

/-- A warning is shown as information, and the filter for information misses it. -/
theorem warnings_hidden :
    ¬ ∀ batches : List (List (Nat × Finding)), SeveritySurvives (writeBatches batches) := by
  intro always
  have calls := (always [[(0, hexWarning)]]).filtered .info none 1
  revert calls
  decide

end Mneme.Mcp
