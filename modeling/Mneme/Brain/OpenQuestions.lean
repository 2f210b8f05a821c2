/-
The open questions of the ledger, in the library and in the resume tool.

Both read the 50 newest questions and drop the resolved ones afterwards.  Rows
stand in the order in which they are scanned, so that rows of one time keep it.
The resume tool reads the rows itself, since no supervisor answers
`ledger.resume_summary`; a time in ISO form is its milliseconds.
-/

import Mneme.Brain.Ledger
import Mneme.Library.Selection

namespace Mneme.Brain.Ledger

open Common Library

variable {calendar : Calendar}

/-- `WHERE kind = 'open_question' ORDER BY timestamp DESC` -/
def questions (rows : List LedgerRow) : List LedgerRow :=
  (rows.filter (fun row => row.kind = "open_question")).insertionSort newer

/-- The limit of the statement. -/
def questionLimit : Nat := 50

/-- A question that nobody has resolved. -/
def StepKind.isOpen : StepKind → Bool
  | .openQuestion _ none => true
  | _ => false

/-- `SqliteLedger::open_questions` -/
def openQuestions (now : DateTime calendar) (rows : List LedgerRow) : List (StepEntry calendar) :=
  (((questions rows).take questionLimit).filterMap (fun row => (rowToEntry now row).toOption)).filter
    (fun entry => entry.kind.isOpen)

/-! ### The resume tool -/

structure LedgerEntry where
  id : String
  sessionId : String
  timestamp : Int
  kind : String
  summary : String
  rationale : Option String
  touchedFiles : Json
  touchedConcepts : Json
  transcriptRef : Json
  kindPayload : Json

def safeParse (text : Option JsonText) (fallback : Json) : Json :=
  (text.bind JsonText.fromStr).getD fallback

/-- `new Date(millis).toISOString()`, which throws outside of what a `Date` holds. -/
def isoTime (millis : Int) : Option Int :=
  if millis.natAbs ≤ 8640000000000000 then some millis else none

/-- `rowToEntry` of the resume tool. -/
def rowToLedgerEntry (row : LedgerRow) : Option LedgerEntry :=
  (isoTime row.timestamp).map (fun timestamp =>
    { id := row.id
      sessionId := row.sessionId
      timestamp
      kind := row.kind
      summary := row.summary
      rationale := row.rationale
      touchedFiles := safeParse (some row.touchedFiles) (.array [])
      touchedConcepts := safeParse (some row.touchedConcepts) (.array [])
      transcriptRef := safeParse row.transcriptRef .null
      kindPayload := safeParse (some row.kindPayload) (.object []) })

/-- `payload.resolved_by == null`; the last member of a name counts. -/
def unresolvedPayload : Json → Bool
  | .object fields =>
      match fields.reverse.lookup "resolved_by" with
      | none => true
      | some .null => true
      | some _ => false
  | _ => true

/-- The open questions of `localResume`, from the rows of `ledgerResumeBundle`. -/
def localOpenQuestions (rows : List LedgerRow) : Option (List LedgerEntry) :=
  (((questions rows).take questionLimit).mapM rowToLedgerEntry).map (fun entries =>
    entries.filter (fun entry => unresolvedPayload entry.kindPayload))

/-! ### Completeness -/

/-- The payload of a row is a question that nobody has resolved. -/
def LedgerRow.pending (row : LedgerRow) : Bool :=
  ((row.kindPayload.fromStr.bind StepKind.ofJson).map StepKind.isOpen).getD false

/-- Both answers are the newest unresolved questions of all rows, 50 of them if
there are more. -/
def Complete (now : DateTime calendar) (rows : List LedgerRow) : Prop :=
  ∃ chosen, Selection.TopOf newer questionLimit (rows.filter LedgerRow.pending) chosen ∧
    chosen.map (rowToEntry now) = (openQuestions now rows).map .ok ∧
    (localOpenQuestions rows).map (List.map LedgerEntry.id) = some (chosen.map LedgerRow.id)

/-- While an unresolved question is beyond the 50 newest questions, none of these
is resolved. -/
def NoneHidden (rows : List LedgerRow) : Prop :=
  ∀ other ∈ (questions rows).drop questionLimit, other.pending = true →
    ∀ kept ∈ (questions rows).take questionLimit, kept.pending = true

/-- The rows are those of entries. -/
def Written (rows : List LedgerRow) : Prop :=
  ∀ row ∈ rows, ∃ entry : StepEntry proleptic, toRow entry = .ok row

section Written

variable {entry : StepEntry calendar} {row : LedgerRow}

theorem toRow_columns (stored : toRow entry = .ok row) :
    row.kindPayload = .printed entry.kind.toJson ∧
      row.timestamp = entry.timestamp.timestampMillis := by
  unfold toRow at stored
  split at stored
  · cases stored
  · cases stored
    exact ⟨rfl, rfl⟩

theorem pending_stored (stored : toRow entry = .ok row) : row.pending = entry.kind.isOpen := by
  unfold LedgerRow.pending
  rw [(toRow_columns stored).1]
  change ((StepKind.ofJson entry.kind.toJson).map StepKind.isOpen).getD false = _
  rw [StepKind.ofJson_toJson]
  rfl

theorem tag_of_isOpen {kind : StepKind} (isOpen : kind.isOpen = true) :
    kind.tag = "open_question" := by
  cases kind with
  | openQuestion text resolvedBy => rfl
  | decision chosen rejected => cases isOpen
  | implementation => cases isOpen
  | bug symptom rootCause => cases isOpen
  | refactor before after => cases isOpen
  | experiment outcome => cases isOpen

/-- For a question, the tool's test on the payload is whether it is open. -/
theorem unresolvedPayload_toJson {kind : StepKind} (question : kind.tag = "open_question") :
    unresolvedPayload kind.toJson = kind.isOpen := by
  cases kind with
  | openQuestion text resolvedBy =>
      cases resolvedBy with
      | none => rfl
      | some step => rfl
  | decision chosen rejected =>
      exact absurd question (show "decision" ≠ "open_question" by decide)
  | implementation =>
      exact absurd question (show "impl" ≠ "open_question" by decide)
  | bug symptom rootCause =>
      exact absurd question (show "bug" ≠ "open_question" by decide)
  | refactor before after =>
      exact absurd question (show "refactor" ≠ "open_question" by decide)
  | experiment outcome =>
      exact absurd question (show "experiment" ≠ "open_question" by decide)

theorem isoTime_of_date (time : DateTime proleptic) :
    isoTime time.timestampMillis = some time.timestampMillis := by
  have within := time.within
  have small := time.small
  have first : proleptic.first = -8334601228800 := rfl
  have last : proleptic.last = 8210266876799 := rfl
  rw [first, last] at within
  unfold isoTime
  apply if_pos
  unfold DateTime.timestampMillis
  omega

theorem rowToLedgerEntry_stored {entry : StepEntry proleptic} {row : LedgerRow}
    (stored : toRow entry = .ok row) :
    ∃ listed, rowToLedgerEntry row = some listed ∧ listed.id = row.id ∧
      listed.kindPayload = entry.kind.toJson := by
  obtain ⟨payload, time⟩ := toRow_columns stored
  unfold rowToLedgerEntry
  rw [time, isoTime_of_date, payload]
  exact ⟨_, rfl, rfl, rfl⟩

variable {rows : List LedgerRow}

/-- The entries that `open_questions` keeps of some rows. -/
theorem openQuestions_rows (now : DateTime proleptic) (written : Written rows) :
    (((rows.filterMap (fun row => (rowToEntry now row).toOption)).filter
        (fun entry => entry.kind.isOpen)).map Except.ok) =
      (rows.filter LedgerRow.pending).map (rowToEntry now) := by
  induction rows with
  | nil => rfl
  | cons row rest ih =>
      obtain ⟨entry, stored⟩ := written row List.mem_cons_self
      have later := ih (fun other member => written other (List.mem_cons_of_mem _ member))
      have read := rowToEntry_stored now stored
      have shown : (rowToEntry now row).toOption = some { entry with
          timestamp := (DateTime.fromTimestampMillis entry.timestamp.timestampMillis).getD now } := by
        rw [read]
        rfl
      rw [@List.filterMap_cons_some _ _ (fun row => (rowToEntry now row).toOption) _ _ _ shown, List.filter_cons, List.filter_cons, pending_stored stored]
      by_cases isOpen : entry.kind.isOpen = true
      · rw [if_pos isOpen, if_pos isOpen, List.map_cons, List.map_cons, later, read]
      · rw [if_neg isOpen, if_neg isOpen, later]

/-- The ids that the resume tool keeps of some questions. -/
theorem localOpenQuestions_rows (written : Written rows)
    (asked : ∀ row ∈ rows, row.kind = "open_question") :
    ((rows.mapM rowToLedgerEntry).map (fun entries =>
        entries.filter (fun entry => unresolvedPayload entry.kindPayload))).map
          (List.map LedgerEntry.id) =
      some ((rows.filter LedgerRow.pending).map LedgerRow.id) := by
  induction rows with
  | nil => rfl
  | cons row rest ih =>
      obtain ⟨entry, stored⟩ := written row List.mem_cons_self
      have later := ih (fun other member => written other (List.mem_cons_of_mem _ member))
        (fun other member => asked other (List.mem_cons_of_mem _ member))
      obtain ⟨listed, read, named, payload⟩ := rowToLedgerEntry_stored stored
      have question : entry.kind.tag = "open_question" := by
        rw [← (toRow_id stored).2]
        exact asked row List.mem_cons_self
      rw [List.mapM_cons, read, List.filter_cons, pending_stored stored]
      cases all : rest.mapM rowToLedgerEntry with
      | none =>
          rw [all] at later
          cases later
      | some entries =>
          rw [all] at later
          have rests := Option.some.inj later
          change some (((listed :: entries).filter
            (fun entry => unresolvedPayload entry.kindPayload)).map LedgerEntry.id) = _
          rw [List.filter_cons, payload, unresolvedPayload_toJson question]
          by_cases isOpen : entry.kind.isOpen = true
          · rw [if_pos isOpen, if_pos isOpen, List.map_cons, List.map_cons, rests, named]
          · rw [if_neg isOpen, if_neg isOpen, rests]

end Written

/-- Both answers are complete exactly when no unresolved question is hidden by
newer ones of which one is resolved. -/
theorem complete_iff_noneHidden (now : DateTime proleptic) {rows : List LedgerRow}
    (written : Written rows) : Complete now rows ↔ NoneHidden rows := by
  have permuted : (questions rows).Perm (rows.filter (fun row => row.kind = "open_question")) :=
    List.perm_insertionSort _ _
  have sorted : (questions rows).Pairwise newer := List.pairwise_insertionSort _ _
  have asked : ∀ row ∈ (questions rows).take questionLimit,
      row ∈ rows ∧ row.kind = "open_question" := by
    intro row member
    obtain ⟨held, kind⟩ := List.mem_filter.mp (permuted.subset (List.mem_of_mem_take member))
    exact ⟨held, of_decide_eq_true kind⟩
  have listed := openQuestions_rows now (fun row member => written row (asked row member).1)
  have listedLocally := localOpenQuestions_rows (fun row member => written row (asked row member).1)
    (fun row member => (asked row member).2)
  have unresolved : (rows.filter (fun row => row.kind = "open_question")).filter LedgerRow.pending =
      rows.filter LedgerRow.pending := by
    rw [List.filter_filter]
    apply List.filter_congr
    intro row member
    obtain ⟨entry, stored⟩ := written row member
    rw [pending_stored stored, (toRow_id stored).2]
    cases isOpen : entry.kind.isOpen with
    | false => rfl
    | true => exact decide_eq_true (tag_of_isOpen isOpen)
  have cut := Selection.topOf_filter_take_iff permuted sorted questionLimit LedgerRow.pending
  rw [unresolved] at cut
  constructor
  · intro complete
    obtain ⟨chosen, top, same, _⟩ := complete
    have lengths := congrArg List.length (same.trans listed)
    rw [List.length_map, List.length_map] at lengths
    have count := top.length
    rw [lengths, ← unresolved] at count
    exact Selection.front_passes permuted questionLimit LedgerRow.pending count
  · intro noneHidden
    exact ⟨_, cut.mpr noneHidden, listed.symm, listedLocally⟩

/-! ### Fifty resolved questions -/

/-- One question a second; only the first has not been resolved. -/
def asked (index : Fin 51) : StepEntry proleptic :=
  { id := index.val.repr
    sessionId := "s"
    timestamp :=
      { second := index.val
        nano := 0
        within := ⟨by change (-8334601228800 : Int) ≤ _; omega,
          by change _ ≤ (8210266876799 : Int); omega⟩
        small := by decide
        leap := fun late => absurd late (by decide) }
    kind := .openQuestion "why" (if index.val = 0 then none else some "step")
    summary := "why"
    rationale := none
    touchedFiles := []
    touchedConcepts := []
    transcriptSpan := none
    embedding := none }

def askedRows (indices : List (Fin 51)) : List LedgerRow :=
  indices.filterMap (fun index => (toRow (asked index)).toOption)

theorem written_askedRows (indices : List (Fin 51)) : Written (askedRows indices) := by
  intro row member
  obtain ⟨index, _, stored⟩ := List.mem_filterMap.mp member
  refine ⟨asked index, ?_⟩
  cases read : toRow (asked index) with
  | error failure =>
      rw [read] at stored
      cases stored
  | ok other =>
      rw [read] at stored
      exact congrArg Except.ok (Option.some.inj stored)

theorem complete_iff_noneHidden_asked :
    Complete (endOf2016 0) (askedRows (List.finRange 51)) ↔
      NoneHidden (askedRows (List.finRange 51)) :=
  complete_iff_noneHidden _ (written_askedRows _)

/-- The first question is hidden by fifty later ones that have been resolved. -/
theorem asked_hidden :
    ¬ ∀ (now : DateTime proleptic) (rows : List LedgerRow), Written rows → Complete now rows := by
  intro always
  obtain ⟨chosen, top, same, _⟩ := always (endOf2016 0) (askedRows (List.finRange 51))
    (written_askedRows _)
  have waiting : ((askedRows (List.finRange 51)).filter LedgerRow.pending).length = 1 := by
    decide +kernel
  have answered : (openQuestions (endOf2016 0) (askedRows (List.finRange 51))).length = 0 := by
    decide +kernel
  have lengths := congrArg List.length same
  rw [List.length_map, List.length_map, answered, top.length, waiting] at lengths
  exact absurd lengths (by decide)

end Mneme.Brain.Ledger
