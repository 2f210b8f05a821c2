/-
A finding of a scanner and its position: the line and the column that are
computed from a byte offset, in the 32 bits the finding has for them.  Then the
table of findings of a shard and the one writer it has: rows are inserted, each
open and with the second of its insert.
-/

import Mneme.Library.Encodings

namespace Mneme.Scanners

open Library

inductive Severity where
  | critical
  | error
  | warning
  | info
deriving DecidableEq

def Severity.label : Severity → String
  | .critical => "critical"
  | .error => "error"
  | .warning => "warning"
  | .info => "info"

/-- The declaration goes from the most to the least urgent. -/
def Severity.urgency : Severity → Nat
  | .critical => 3
  | .error => 2
  | .warning => 1
  | .info => 0

structure Finding where
  ruleId : String
  severity : Severity
  file : String
  lineStart : UInt32
  lineEnd : UInt32
  columnStart : UInt32
  columnEnd : UInt32
  message : String
  suggestion : Option String := none
  autoFixable : Bool := false
deriving DecidableEq

/-- A finding on a single line, without a fix. -/
def Finding.newLine (ruleId : String) (severity : Severity) (file : String)
    (line columnStart columnEnd : UInt32) (message : String) : Finding :=
  { ruleId, severity, file, lineStart := line, lineEnd := line, columnStart, columnEnd, message }

def Finding.withFix (finding : Finding) (suggestion : String) : Finding :=
  { finding with suggestion := some suggestion, autoFixable := true }

/-- The line and the column after one more byte.  The additions wrap, as they do
in a release build. -/
def countByte (position : UInt32 × UInt32) (byte : UInt8) : UInt32 × UInt32 :=
  if byte = 10 then (position.1 + 1, 0) else (position.1, position.2 + 1)

def lineColOf (content : List UInt8) (byteOffset : Nat) : UInt32 × UInt32 :=
  (content.take (min byteOffset content.length)).foldl countByte (1, 0)

/-! ### The position that the loop computes -/

/-- What stands on the last line. -/
def lastLine (text : List Char) : List Char :=
  text.rtakeWhile (· ≠ '\n')

variable (text : List Char)

theorem lastLine_newline : lastLine (text ++ ['\n']) = [] :=
  List.rtakeWhile_concat_neg (fun other => decide (other ≠ '\n')) text '\n' (by decide)

theorem lastLine_char {char : Char} (other : char ≠ '\n') :
    lastLine (text ++ [char]) = lastLine text ++ [char] :=
  List.rtakeWhile_concat_pos (fun other => decide (other ≠ '\n')) text char
    (decide_eq_true other)

theorem lastLine_free : '\n' ∉ lastLine text := by
  intro member
  have other := List.mem_rtakeWhile_imp member
  simp at other

theorem countByte_line {bytes : List UInt8} (free : 10 ∉ bytes) (position : UInt32 × UInt32) :
    bytes.foldl countByte position = (position.1, position.2 + UInt32.ofNat bytes.length) := by
  induction bytes generalizing position with
  | nil => simp
  | cons byte bytes ih =>
      have other : byte ≠ 10 := fun same => free (same ▸ List.mem_cons_self)
      rw [List.foldl_cons, ih (fun member => free (List.mem_cons_of_mem _ member))]
      unfold countByte
      rw [if_neg other, List.length_cons, Nat.add_comm, UInt32.ofNat_add, UInt32.add_assoc]
      rfl

/-- Over a whole text: its line feeds, and the bytes of its last line. -/
theorem countByte_text :
    (utf8 text).foldl countByte (1, 0) =
      (UInt32.ofNat (1 + text.count '\n'), UInt32.ofNat (utf8 (lastLine text)).length) := by
  induction text using List.reverseRecOn with
  | nil => rfl
  | append_singleton text char ih =>
      rw [utf8_append, List.foldl_append, ih]
      by_cases same : char = '\n'
      · rw [same, lastLine_newline, List.count_append]
        change countByte _ 10 = _
        unfold countByte
        rw [if_pos rfl, List.count_singleton_self, ← Nat.add_assoc,
          UInt32.ofNat_add (1 + text.count '\n')]
        rfl
      · have free : 10 ∉ utf8 [char] := by
          intro member
          rw [← List.count_pos_iff, utf8_count_newline, List.count_pos_iff] at member
          exact same (List.mem_singleton.mp member).symm
        rw [countByte_line free, lastLine_char text same, utf8_append, List.length_append,
          List.count_append,
          List.count_eq_zero_of_not_mem (fun member => same (List.mem_singleton.mp member).symm),
          Nat.add_zero, UInt32.ofNat_add (utf8 (lastLine text)).length]

theorem lineColOf_boundary (before after : List Char) :
    lineColOf (utf8 (before ++ after)) (utf8 before).length =
      (UInt32.ofNat (1 + before.count '\n'), UInt32.ofNat (utf8 (lastLine before)).length) := by
  unfold lineColOf
  rw [utf8_append, Nat.min_eq_left (by simp), List.take_left, countByte_text]

/-! ### The table of findings -/

/-- The prefix of a rule before its first dot. -/
def scannerNameForRule (ruleId : String) : String :=
  let scanner := ruleId.toList.takeWhile (· ≠ '.')
  if '.' ∈ ruleId.toList ∧ scanner ≠ [] then String.ofList scanner else "unknown"

def severityLabel : Severity → String
  | .critical => "critical"
  | .error => "error"
  | .warning => "warning"
  | .info => "info"

/-- The columns that the insert gives. -/
structure FindingColumns where
  ruleId : String
  scanner : String
  severity : String
  file : String
  lineStart : Nat
  lineEnd : Nat
  columnStart : Nat
  columnEnd : Nat
  message : String
  suggestion : Option String
  autoFixable : Nat
deriving DecidableEq

def columns (finding : Finding) : FindingColumns :=
  { ruleId := finding.ruleId
    scanner := scannerNameForRule finding.ruleId
    severity := severityLabel finding.severity
    file := finding.file
    lineStart := finding.lineStart.toNat
    lineEnd := finding.lineEnd.toNat
    columnStart := finding.columnStart.toNat
    columnEnd := finding.columnEnd.toNat
    message := finding.message
    suggestion := finding.suggestion
    autoFixable := if finding.autoFixable then 1 else 0 }

/-- A row of `findings`; the moments are seconds. -/
structure FindingRow where
  id : Nat
  columns : FindingColumns
  createdAt : Nat
  resolvedAt : Option Nat := none
deriving DecidableEq

/-- The table and the id that the next row gets. -/
structure FindingsShard where
  rows : List FindingRow := []
  nextId : Nat := 1

namespace FindingsShard

/-- `INSERT INTO findings`, at a moment. -/
def insert (now : Nat) (finding : Finding) (shard : FindingsShard) : FindingsShard :=
  { rows := shard.rows ++ [{ id := shard.nextId, columns := columns finding, createdAt := now }]
    nextId := shard.nextId + 1 }

/-- `write_findings`, with the moment of each insert. -/
def writeFindings (batch : List (Nat × Finding)) (shard : FindingsShard) : FindingsShard :=
  batch.foldl (fun shard written => shard.insert written.1 written.2) shard

/-- `WHERE resolved_at IS NULL` -/
def openRows (shard : FindingsShard) : List FindingRow :=
  shard.rows.filter (fun row => row.resolvedAt = none)

def openColumns (shard : FindingsShard) : List FindingColumns :=
  shard.openRows.map FindingRow.columns

theorem insert_openRows (now : Nat) (finding : Finding) (shard : FindingsShard) :
    (shard.insert now finding).openRows =
      shard.openRows ++ [{ id := shard.nextId, columns := columns finding, createdAt := now }] :=
  List.filter_append _ _

theorem writeFindings_openColumns (batch : List (Nat × Finding)) (shard : FindingsShard) :
    (shard.writeFindings batch).openColumns =
      shard.openColumns ++ (batch.map Prod.snd).map columns := by
  induction batch generalizing shard with
  | nil => simp [writeFindings]
  | cons written batch ih =>
      change ((shard.insert written.1 written.2).writeFindings batch).openColumns = _
      rw [ih]
      unfold openColumns
      rw [insert_openRows, List.map_append, List.append_assoc]
      rfl

end FindingsShard

end Mneme.Scanners
