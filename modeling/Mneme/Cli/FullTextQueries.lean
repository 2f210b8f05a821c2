/-
What the command line searches with: the sanitisers of a full-text query, and the pattern of
`history`.

The sanitisers strip what is no letter or digit, but a word in capitals that is an
operator passes, and the ledger's makes a star of no words at all.  The pattern takes what
contains the query, where the query has no backslash.
-/

import Mneme.Brain.Ledger
import Mneme.Brain.LedgerSearch
import Mneme.Supervisor.Recall

namespace Mneme.Cli

open Brain.Ledger Common Library Store

variable {calendar : Calendar}

/-- What each sanitiser hands to `MATCH` for a text is a query of the words of
the text alone; the recalls do not execute an empty one. -/
structure SanitisesPlainly (tables : LetterTables) (query : RecallQuery calendar) : Prop where
  cli : PlainOrEmpty (recallWords tables query.text) (fts5Sanitize tables query.text)
  cliSkips : fts5Sanitize tables query.text = "" →
    ∀ (Error : Type) (matchRows : String → UInt64 → Except Error (List RecallHit)) hash ties limit
      shard, recallFts tables matchRows hash ties query.text limit shard =
        .ok (recallLike hash ties query.text limit shard)
  supervisor : PlainOrEmpty (recallWords tables query.text)
    (Supervisor.fts5Sanitize tables query.text)
  supervisorSkips : Supervisor.fts5Sanitize tables query.text = "" →
    ∀ matchRows hash ties limit shard,
      Supervisor.recallFts tables matchRows hash ties query.text limit shard =
        .ok (Supervisor.recallLike hash ties query.text limit shard)
  ledger : ∀ handed, query.matchText tables = some handed →
    Fts.PlainQuery (ledgerWords tables query.text) handed.toList

/-- A text of words that are no operators, at least one of them unless the text
is blank. -/
structure PlainWords (tables : LetterTables) (query : RecallQuery calendar) : Prop where
  recallFree : ∀ word ∈ recallWords tables query.text, ¬ Fts.Reserved word
  ledgerFree : ∀ word ∈ ledgerWords tables query.text, ¬ Fts.Reserved word
  someWord : trim query.text ≠ "" → ledgerWords tables query.text ≠ []

theorem searchOrLike_empty {Hit Error : Type} (matchRows : String → Except Error (List Hit))
    (like : List Hit) : searchOrLike matchRows like "" = .ok like :=
  if_pos rfl

/-- The words of a blank text are none. -/
theorem ledgerWords_blank (tables : LetterTables) {query : String} (blank : trim query = "") :
    ledgerWords tables query = [] := by
  have nothing : trimmed isWhitespace query.toList = [] := by
    have same := congrArg String.toList blank
    unfold trim trimMatches at same
    rw [String.toList_ofList] at same
    exact same
  apply wordsOf_none
  intro char member
  have space := trimmed_eq_nil.mp nothing char member
  cases letter : tables.alphanumeric char with
  | false => rfl
  | true => exact absurd space (Bool.eq_false_iff.mp (tables.visible char letter))

/-- The sanitisers hand over plain queries exactly for texts of plain words. -/
theorem sanitisesPlainly_iff (tables : LetterTables) (query : RecallQuery calendar) :
    SanitisesPlainly tables query ↔ PlainWords tables query := by
  constructor
  · intro sanitises
    have recallFree := (fts5Sanitize_plain_iff tables query.text).mp sanitises.cli
    by_cases blank : trim query.text = ""
    · have none := ledgerWords_blank tables blank
      refine ⟨recallFree, ?_, fun visible => absurd blank visible⟩
      rw [none]
      exact fun _ impossible => absurd impossible List.not_mem_nil
    · have matched := (RecallQuery.matchText_eq_some tables query _).mpr ⟨blank, rfl⟩
      have plain := (sanitizeFts_plain_iff tables query.text).mp (sanitises.ledger _ matched)
      exact ⟨recallFree, plain.2, fun _ => plain.1⟩
  · intro plain
    have searched := (fts5Sanitize_plain_iff tables query.text).mpr plain.recallFree
    constructor
    · exact searched
    · intro empty Error matchRows hash ties limit shard
      unfold recallFts
      rw [empty, searchOrLike_empty]
    · exact searched
    · intro empty matchRows hash ties limit shard
      unfold Supervisor.recallFts
      rw [empty, searchOrLike_empty]
    · intro handed matched
      obtain ⟨visible, same⟩ := (RecallQuery.matchText_eq_some tables query handed).mp matched
      rw [← same]
      exact (sanitizeFts_plain_iff tables query.text).mpr
        ⟨plain.someWord visible, plain.ledgerFree⟩

/-- The tables of ASCII alone. -/
def asciiTables : LetterTables where
  alphanumeric := Brain.Federated.asciiAlphanumeric
  lowercase char := [char.toLower]
  alphanumeric_ascii := Brain.Federated.englishTables.alphanumeric_ascii
  lowercase_ascii := Brain.Federated.toLower_ascii
  lowercase_nonempty := Brain.Federated.toLower_spelled
  visible := asciiAlphanumeric_visible

def gateQuery : RecallQuery ⟨0, 0⟩ :=
  { text := "AND gate", kinds := [], limit := 10, since := none, sessionId := none }

/-- `AND gate` is handed over as it stands, and its first word is an operator. -/
theorem andGate_handed :
    fts5Sanitize asciiTables "AND gate" = "AND gate" ∧ ¬ SanitisesPlainly asciiTables gateQuery := by
  refine ⟨rfl, ?_⟩
  intro sanitises
  have free := (fts5Sanitize_plain_iff asciiTables "AND gate").mp sanitises.cli
  have words : recallWords asciiTables "AND gate" = ["AND".toList, "gate".toList] := rfl
  rw [words] at free
  exact free _ List.mem_cons_self (Or.inr (Or.inr rfl))

/-! ### The step ledger -/

open Parsers

structure HistoryRow where
  timestampMs : Int
  kind : String
  summary : String
  rationale : Option String

def historyRow (row : LedgerRow) : HistoryRow :=
  { timestampMs := row.timestamp, kind := row.kind, summary := row.summary
    rationale := row.rationale }

/-- The parenthesis of the `WHERE`; a `NULL` is like nothing. -/
def likeEntry (query : String) (row : LedgerRow) : Bool :=
  takesLike query row.summary || row.rationale.any (takesLike query) || takesLike query row.kind

/-- `AND timestamp >= ?2`, where a bound is given -/
def recentEnough (since : Option Int) (row : LedgerRow) : Bool :=
  since.all (fun bound => decide (bound ≤ row.timestamp))

def historyRows (query : String) (since : Option Int) (rows : List LedgerRow) : List LedgerRow :=
  rows.filter (fun row => likeEntry query row && recentEnough since row)

/-- `ORDER BY timestamp DESC LIMIT ?` -/
def history (ties : RowOrder LedgerRow) (query : String) (since : Option Int) (limit : UInt64)
    (rows : List LedgerRow) : List HistoryRow :=
  (GraphShard.limited limit
    ((ties.arrange (historyRows query since rows)).insertionSort
      (fun left right => right.timestamp ≤ left.timestamp))).map historyRow

theorem likeEntry_iff (query : String) (row : LedgerRow) :
    likeEntry query row = true ↔ takesLike query row.summary = true ∨
      (∃ rationale, row.rationale = some rationale ∧ takesLike query rationale = true) ∨
        takesLike query row.kind = true := by
  unfold likeEntry
  rw [Bool.or_eq_true, Bool.or_eq_true, or_assoc, Option.any_eq_true]

/-! ### The searches and the query -/

/-- The three searches select what contains the query. -/
structure SearchesSubstring (query : String) : Prop where
  nodes : ∀ hash shard row, row ∈ recallLikeRows hash query shard ↔
    row ∈ shard.nodes.rows ∧ (ContainsIgnoringCase query row.name ∨
      ContainsIgnoringCase query (row.qualifiedName.column hash))
  supervisor : ∀ hash shard,
    Supervisor.recallLikeRows hash query shard = recallLikeRows hash query shard
  history : ∀ since rows row, row ∈ historyRows query since rows ↔
    row ∈ rows ∧ recentEnough since row = true ∧ (ContainsIgnoringCase query row.summary ∨
      (∃ rationale, row.rationale = some rationale ∧ ContainsIgnoringCase query rationale) ∨
        ContainsIgnoringCase query row.kind)

/-- A node whose names are one text. -/
def namedNode (name : String) : NodeRow :=
  { kind := "function", name := name, qualifiedName := .text name, filePath := none
    lineStart := none, lineEnd := none, language := none, extra := .object [] }

def oneNode (name : String) : GraphShard :=
  { nodes := { rows := [namedNode name], unique := List.nodup_singleton _ }, edges := [] }

variable {query : String}

theorem recallLikeRows_iff (free : '\\' ∉ query.toList) (hash : StableHash)
    (shard : GraphShard) (row : NodeRow) :
    row ∈ recallLikeRows hash query shard ↔ row ∈ shard.nodes.rows ∧
      (ContainsIgnoringCase query row.name ∨
        ContainsIgnoringCase query (row.qualifiedName.column hash)) := by
  unfold recallLikeRows
  rw [GraphShard.mem_likeRows, takesLike_iff free, takesLike_iff free]

theorem historyRows_iff (free : '\\' ∉ query.toList) (since : Option Int)
    (rows : List LedgerRow) (row : LedgerRow) :
    row ∈ historyRows query since rows ↔ row ∈ rows ∧ recentEnough since row = true ∧
      (ContainsIgnoringCase query row.summary ∨
        (∃ rationale, row.rationale = some rationale ∧ ContainsIgnoringCase query rationale) ∨
          ContainsIgnoringCase query row.kind) := by
  unfold historyRows
  rw [List.mem_filter, Bool.and_eq_true, likeEntry_iff]
  simp only [takesLike_iff free]
  exact and_congr_right' and_comm

/-- A query that a search reads as a part of a text has no backslash. -/
theorem free_of_recall (nodes : ∀ hash shard row, row ∈ recallLikeRows hash query shard ↔
      row ∈ shard.nodes.rows ∧ (ContainsIgnoringCase query row.name ∨
        ContainsIgnoringCase query (row.qualifiedName.column hash))) : '\\' ∉ query.toList := by
  rw [← takesLike_contains_iff]
  intro text
  have searched := nodes (fun _ _ _ => "") (oneNode text) (namedNode text)
  unfold recallLikeRows at searched
  rw [GraphShard.mem_likeRows, and_congr_right_iff] at searched
  have same := searched List.mem_cons_self
  change takesLike query text = true ∨ takesLike query text = true ↔
    ContainsIgnoringCase query text ∨ ContainsIgnoringCase query text at same
  rw [or_self, or_self] at same
  exact same

end Mneme.Cli
