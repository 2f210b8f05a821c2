/-
The active constraints of a scope: the newest rows up to a limit, and for a file those of
them whose globs are taken to match its path.

The limit is applied before the globs are, and a glob is tested by what is left of it without
its stars.  So the answer is the one that is asked for just where, among the newest rows, the
test and the globs agree, and where either all of these rows apply or none behind them does.
-/

import Mathlib.Data.String.Basic
import Mneme.Library.Ordering
import Mneme.Supervisor.Blast

namespace Mneme.Mcp.Constraints

open Library
open Store (RowOrder)

inductive Scope where
  | global
  | project
  | file

def Scope.allowed : Scope → List String
  | .global => ["global"]
  | .project => ["global", "project"]
  | .file => ["global", "project", "file"]

structure ConstraintRow where
  id : Nat
  scope : String
  ruleId : String
  rule : String
  why : String
  howToApply : String
  appliesTo : String
  source : Option String
  createdAt : String

/-- `ORDER BY created_at DESC` -/
def Newer (left right : ConstraintRow) : Prop :=
  right.createdAt ≤ left.createdAt

instance : DecidableRel Newer := fun left right =>
  inferInstanceAs (Decidable (right.createdAt ≤ left.createdAt))

instance : Std.Total Newer := ⟨fun left right => le_total right.createdAt left.createdAt⟩

instance : IsTrans ConstraintRow Newer := ⟨fun _ _ _ first second => le_trans second first⟩

/-- `very light glob` -/
def lightGlob (glob file : List Char) : Bool :=
  glob = ['*'] || (['*', '.'].isPrefixOf glob && glob.tail.isSuffixOf file) ||
    decide (glob.filter (· ≠ '*') <:+: file)

section Parse

variable (parse : String → Option Json)

/-- A row whose globs cannot be read is kept. -/
def keepsRow (file : String) (row : ConstraintRow) : Bool :=
  if row.scope ≠ "file" then true
  else
    match parse row.appliesTo with
    | some (.array globs) => globs.any (fun glob =>
        match glob with
        | .string glob => lightGlob glob.toList file.toList
        | _ => false)
    | _ => true

def sortedRows (ties : RowOrder ConstraintRow) (scope : Scope) (table : List ConstraintRow) :
    List ConstraintRow :=
  (ties.arrange (table.filter (fun row => row.scope ∈ scope.allowed))).insertionSort Newer

/-- No table stands for a shard that cannot be opened or read. -/
def activeConstraints (ties : RowOrder ConstraintRow) (scope : Scope) (file : Option String)
    (limit : Int) (table : Option (List ConstraintRow)) : List ConstraintRow :=
  match table with
  | none => []
  | some table =>
      let rows := firstRows limit (sortedRows ties scope table)
      match scope, file with
      | .file, some file => if file = "" then rows else rows.filter (keepsRow parse file)
      | _, _ => rows

/-! ### What applies to a file -/

/-- A star stands for any run of characters, and the rest for itself. -/
def globMatches : List Char → List Char → Bool
  | [], file => file.isEmpty
  | '*' :: glob, file => file.tails.any (globMatches glob)
  | _ :: _, [] => false
  | char :: glob, first :: file => char = first && globMatches glob file

def applies (file : String) (row : ConstraintRow) : Bool :=
  if row.scope ≠ "file" then true
  else
    match parse row.appliesTo with
    | some (.array globs) => globs.any (fun glob =>
        match glob with
        | .string glob => globMatches glob.toList file.toList
        | _ => false)
    | _ => false

/-- The newest of all rows that apply, up to the limit. -/
def Exact (file : String) (limit : Int) (table result : List ConstraintRow) : Prop :=
  FirstOf Newer limit
    ((table.filter (fun row => row.scope ∈ Scope.file.allowed)).filter (applies parse file)) result

/-- Every row is kept for the empty path. -/
def keepsFor (file : String) (row : ConstraintRow) : Bool :=
  file = "" || keepsRow parse file row

/-- The answer is exact just where the newest rows are kept as they apply, and either all of
them apply or none of the older ones does. -/
theorem activeConstraints_exact_iff (ties : RowOrder ConstraintRow) (file : String) (limit : Int)
    (table : List ConstraintRow) :
    Exact parse file limit table
        (activeConstraints parse ties .file (some file) limit (some table)) ↔
      (∀ row ∈ firstRows limit (sortedRows ties .file table),
        keepsFor parse file row = applies parse file row) ∧
      ((∀ row ∈ firstRows limit (sortedRows ties .file table), applies parse file row = true) ∨
        ∀ row ∈ laterRows limit (sortedRows ties .file table), applies parse file row = false) := by
  have perm : (sortedRows ties .file table).Perm
      (table.filter (fun row => row.scope ∈ Scope.file.allowed)) :=
    (List.perm_insertionSort _ _).trans (ties.perm _)
  have ordered := List.pairwise_insertionSort Newer
    (ties.arrange (table.filter (fun row => row.scope ∈ Scope.file.allowed)))
  have answer : activeConstraints parse ties .file (some file) limit (some table) =
      (firstRows limit (sortedRows ties .file table)).filter (keepsFor parse file) := by
    unfold activeConstraints keepsFor
    dsimp only
    split
    · rename_i empty
      rw [empty]
      exact (List.filter_eq_self.mpr (fun _ _ => rfl)).symm
    · rename_i path
      apply List.filter_congr
      intro row _
      rw [decide_eq_false path, Bool.false_or]
  unfold Exact
  rw [answer]
  exact firstOf_filter_iff perm ordered limit (keepsFor parse file) (applies parse file)

end Parse

/-! ### A rule that is hidden, and one too many -/

/-- `JSON.parse` on the lists of one glob below. -/
def parseGlob (text : String) : Option Json :=
  if text = "[\"main.ts\"]" then some (.array [.string "main.ts"])
  else if text = "[\"view.ts\"]" then some (.array [.string "view.ts"])
  else if text = "[\"*.ts\"]" then some (.array [.string "*.ts"])
  else none

def rowFor (id : Nat) (glob createdAt : String) : ConstraintRow :=
  { id
    scope := "file"
    ruleId := toString id
    rule := "No default export"
    why := ""
    howToApply := ""
    appliesTo := "[\"" ++ glob ++ "\"]"
    source := none
    createdAt }

def asStored : RowOrder ConstraintRow where
  arrange := id
  perm := fun rows => List.Perm.refl rows

/-- With room for one row the newer row of another file hides the rule of `main.ts`; and the
glob `*.ts` is taken to match `view.tsx`. -/
theorem hidden_and_surplus :
    ¬ Exact parseGlob "main.ts" 1 [rowFor 1 "main.ts" "2024", rowFor 2 "view.ts" "2025"]
      (activeConstraints parseGlob asStored .file (some "main.ts") 1
        (some [rowFor 1 "main.ts" "2024", rowFor 2 "view.ts" "2025"])) ∧
    ¬ Exact parseGlob "view.tsx" 50 [rowFor 1 "*.ts" "2024"]
      (activeConstraints parseGlob asStored .file (some "view.tsx") 50
        (some [rowFor 1 "*.ts" "2024"])) := by
  rw [activeConstraints_exact_iff, activeConstraints_exact_iff]
  decide

end Mneme.Mcp.Constraints
