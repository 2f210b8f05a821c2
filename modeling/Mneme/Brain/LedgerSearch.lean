/-
The ledger's recall: the candidates that its one statement selects, and their
ranking by an embedding.

A query that the full-text engine rejects leaves no candidates.  The arithmetic of
f32 is an input, on an ordered type: no score is NaN.
-/

import Mathlib.Algebra.Order.Ring.Rat
import Mneme.Brain.Ledger
import Mneme.Library.Selection
import Mneme.Store.FtsSearch

namespace Mneme.Brain.Ledger

open Common Library Store

variable {calendar : Calendar}

/-- The query without the embedding that ranks the candidates. -/
structure RecallQuery (calendar : Calendar) where
  text : String
  kinds : List String
  limit : UInt64
  since : Option (DateTime calendar)
  sessionId : Option String

namespace RecallQuery

/-- The text for `MATCH`, where the statement has one. -/
def matchText (tables : LetterTables) (query : RecallQuery calendar) : Option String :=
  if (trim query.text).isEmpty then none else some (sanitizeFts tables query.text)

/-- The conditions on the session, the time and the kind. -/
def admits (query : RecallQuery calendar) (row : LedgerRow) : Bool :=
  query.sessionId.all (fun session => row.sessionId = session) &&
    query.since.all (fun since => decide (since.timestampMillis ≤ row.timestamp)) &&
    (query.kinds.isEmpty || query.kinds.contains row.kind)

/-- `(query.limit * 4).max(query.limit).max(20)` -/
def pool (query : RecallQuery calendar) : UInt64 :=
  max (max (query.limit * 4) query.limit) 20

/-- The rows the statement selects; `matchIds` executes a `MATCH`. -/
def selected (tables : LetterTables) (matchIds : String → Except LedgerError (List String))
    (query : RecallQuery calendar) (rows : List LedgerRow) : List LedgerRow :=
  match query.matchText tables with
  | none => rows.filter query.admits
  | some text =>
      match matchIds text with
      | .error _ => []
      | .ok ids => rows.filter (fun row => query.admits row && ids.contains row.id)

/-- `ORDER BY timestamp DESC LIMIT ?`; rows that cannot be read are skipped. -/
def candidates (tables : LetterTables) (matchIds : String → Except LedgerError (List String))
    (now : DateTime calendar) (query : RecallQuery calendar) (rows : List LedgerRow) :
    List (StepEntry calendar) :=
  (((query.selected tables matchIds rows).mergeSort
    (fun left right => decide (right.timestamp ≤ left.timestamp))).take query.pool.toNat).filterMap
      (fun row => (rowToEntry now row).toOption)

/-- Only a text with something visible is matched. -/
theorem matchText_eq_some (tables : LetterTables) (query : RecallQuery calendar) (text : String) :
    query.matchText tables = some text ↔
      trim query.text ≠ "" ∧ sanitizeFts tables query.text = text := by
  unfold matchText
  by_cases blank : trim query.text = ""
  · rw [if_pos (String.isEmpty_iff.mpr blank)]
    exact iff_of_false (fun impossible => nomatch impossible) (fun both => both.1 blank)
  · rw [if_neg (fun empty => blank (String.isEmpty_iff.mp empty)), Option.some.injEq]
    exact (and_iff_right blank).symm

end RecallQuery

/-! ### Ranking -/

/-- The arithmetic of f32. -/
structure FloatOps (Score : Type) where
  value : F32 → Score
  zero : Score
  epsilon : Score
  add : Score → Score → Score
  mul : Score → Score → Score
  div : Score → Score → Score
  sqrt : Score → Score

section Ranking

variable {Score : Type} [LinearOrder Score] (ops : FloatOps Score)

def FloatOps.dot (pairs : List (F32 × F32)) : Score :=
  pairs.foldl (fun sum pair => ops.add sum (ops.mul (ops.value pair.1) (ops.value pair.2))) ops.zero

/-- Over the components that both vectors have. -/
def cosine (left right : List F32) : Score :=
  let pairs := left.zip right
  if pairs.length = 0 then ops.zero
  else
    let leftSquare := ops.dot (pairs.map (fun pair => (pair.1, pair.1)))
    let rightSquare := ops.dot (pairs.map (fun pair => (pair.2, pair.2)))
    if leftSquare ≤ ops.epsilon ∨ rightSquare ≤ ops.epsilon then ops.zero
    else ops.div (ops.dot pairs) (ops.mul (ops.sqrt leftSquare) (ops.sqrt rightSquare))

/-- An entry without embedding counts as zero. -/
def similarity (embedding : List F32) (entry : StepEntry calendar) : Score :=
  (entry.embedding.map (fun vector => cosine ops vector embedding)).getD ops.zero

/-- By descending similarity. -/
def moreSimilar (embedding : List F32) (left right : StepEntry calendar) : Prop :=
  similarity ops embedding right ≤ similarity ops embedding left

instance (embedding : List F32) : DecidableRel (@moreSimilar calendar _ _ ops embedding) :=
  fun left right =>
    inferInstanceAs (Decidable (similarity ops embedding right ≤ similarity ops embedding left))

instance (embedding : List F32) : Std.Total (@moreSimilar calendar _ _ ops embedding) :=
  ⟨fun left right => le_total (similarity ops embedding right) (similarity ops embedding left)⟩

instance (embedding : List F32) :
    IsTrans (StepEntry calendar) (moreSimilar ops embedding) :=
  ⟨fun _ _ _ first second => le_trans second first⟩

/-- `SqliteLedger::recall` -/
def RecallQuery.recall (tables : LetterTables) (matchIds : String → Except LedgerError (List String))
    (now : DateTime calendar) (query : RecallQuery calendar) (embedding : Option (List F32))
    (rows : List LedgerRow) : List (StepEntry calendar) :=
  let entries := query.candidates tables matchIds now rows
  let ranked := match embedding with
    | none => entries
    | some embedding => entries.insertionSort (moreSimilar ops embedding)
  ranked.take query.limit.toNat

/-- A limit below 2 ^ 62 is multiplied without overflow. -/
theorem pool_of_small (query : RecallQuery calendar) (small : query.limit.toNat < 2 ^ 62) :
    (query.limit * 4).toNat = query.limit.toNat * 4 ∧
      query.pool.toNat = max (query.limit.toNat * 4) 20 := by
  have product : (query.limit * 4).toNat = query.limit.toNat * 4 := by
    rw [UInt64.toNat_mul]
    exact Nat.mod_eq_of_lt (by change query.limit.toNat * 4 < 2 ^ 64; omega)
  have larger : ∀ left right : UInt64, (max left right).toNat = max left.toNat right.toNat := by
    intro left right
    change (if left ≤ right then right else left).toNat = _
    split
    · rename_i below
      exact (Nat.max_eq_right (UInt64.le_iff_toNat_le.mp below)).symm
    · rename_i above
      rw [UInt64.not_le] at above
      exact (Nat.max_eq_left (Nat.le_of_lt (UInt64.lt_iff_toNat_lt.mp above))).symm
  refine ⟨product, ?_⟩
  unfold RecallQuery.pool
  rw [larger, larger, product]
  change max (max (query.limit.toNat * 4) query.limit.toNat) 20 = _
  omega

end Ranking

/-! ### An old match -/

/-- Exact arithmetic; the root of a square is its root. -/
def exactOps : FloatOps Rat :=
  { value := f32Value
    zero := 0
    epsilon := 1 / 2 ^ 23
    add := fun left right => left + right
    mul := fun left right => left * right
    div := fun left right => left / right
    sqrt := fun square => (Nat.sqrt square.num.toNat : Rat) / (Nat.sqrt square.den : Rat) }

/-- The bits of 1. -/
def oneF32 : F32 := 0x3F800000

/-- A row of some second; only the first has an embedding. -/
def datedRow (second : Nat) : LedgerRow :=
  { id := second.repr
    sessionId := "s"
    timestamp := second * 1000
    kind := "impl"
    summary := "work"
    rationale := none
    touchedFiles := .printed (.array [])
    touchedConcepts := .printed (.array [])
    transcriptRef := none
    kindPayload := .printed StepKind.implementation.toJson
    embedding := if second = 0 then some (encodeVecF32 [oneF32]) else none }

def englishLetters : LetterTables :=
  { Federated.englishTables with visible := asciiAlphanumeric_visible }

/-- Any entries, at most so many. -/
def anyEntry (limit : UInt64) : RecallQuery proleptic :=
  { text := "", kinds := [], limit, since := none, sessionId := none }

end Mneme.Brain.Ledger
