/-
The step ledger as a roadmap fills it: the lines of the roadmap, the rows written for
them when nothing else can write, what is read back of a session, and when it is read back
in its own order: the identifiers have to be new, distinct, and ascending among the steps
of one parent.

Texts are lists of characters, as in the editor's parsers.  A step that is read under a
heading has no steps of its own.  The supervisor's way of writing a plan is left out: no
call is routed to it.
-/

import Mathlib.Data.Char
import Mathlib.Data.List.Lex
import Mathlib.Data.Nat.Digits.Defs
import Mneme.Library.Ordering
import Mneme.Vscode.Parse

namespace Mneme.Mcp.StepPlan

open Library
open Vscode (isSpace isDigit isInLine isChar trim splitLines)

abbrev Text := List Char

/-! ### The roadmap -/

inductive StepStatus where
  | notStarted
  | completed
deriving DecidableEq

structure Child where
  description : Text
  status : StepStatus
deriving DecidableEq

structure ParsedStep extends Child where
  children : List Child
deriving DecidableEq

/-- What one line of a roadmap is read as. -/
inductive Line where
  | heading (description : Text)
  | item (step : Child)
deriving DecidableEq

def isMark (char : Char) : Bool :=
  char = ' ' || char = 'x' || char = 'X'

/-- `^-\s+\[( |x|X)\]\s+(.*)$` -/
def bulletRegex : Regex :=
  .seq (.one (isChar '-')) (.seq (.many 1 isSpace) (.seq (.one (isChar '['))
    (.seq (.group (.one isMark)) (.seq (.one (isChar ']')) (.seq (.many 1 isSpace)
      (.seq (.group (.many 0 isInLine)) .stop))))))

/-- `^\d+\.\s+(.*)$` -/
def numberRegex : Regex :=
  .seq (.many 1 isDigit) (.seq (.one (isChar '.')) (.seq (.many 1 isSpace)
    (.seq (.group (.many 0 isInLine)) .stop)))

def headingMark : Text :=
  ['#', '#', ' ']

def markStatus (mark : Text) : StepStatus :=
  if mark = ['x'] ∨ mark = ['X'] then .completed else .notStarted

def recogniseBullet (line : Text) : Option Line :=
  match bulletRegex.first line with
  | some ⟨[mark, desc], _⟩ => some (.item ⟨trim desc, markStatus mark⟩)
  | _ => none

def recogniseNumber (line : Text) : Option Line :=
  match numberRegex.first line with
  | some ⟨[desc], _⟩ => if desc = [] then none else some (.item ⟨trim desc, .notStarted⟩)
  | _ => none

/-- How the loop reads a line that it has trimmed. -/
def recogniseTrimmed (line : Text) : Option Line :=
  if headingMark.isPrefixOf line then some (.heading (trim (line.drop 3)))
  else (recogniseBullet line).or (recogniseNumber line)

def recognise (raw : Text) : Option Line :=
  recogniseTrimmed (trim raw)

/-- The steps behind which no line can be added any more, and the last heading. -/
structure Outline where
  parents : List ParsedStep
  current : Option ParsedStep

def Outline.steps (outline : Outline) : List ParsedStep :=
  outline.parents ++ outline.current.toList

/-- One turn of the loop, for a line that is read. -/
def Outline.add (outline : Outline) : Line → Outline
  | .heading description => ⟨outline.steps, some ⟨⟨description, .notStarted⟩, []⟩⟩
  | .item child =>
      match outline.current with
      | some parent =>
          ⟨outline.parents, some { parent with children := parent.children ++ [child] }⟩
      | none => ⟨outline.parents ++ [⟨child, []⟩], none⟩

def recognised (md : Text) : List Line :=
  (splitLines md).filterMap recognise

def parseRoadmap (md : Text) : List ParsedStep :=
  ((recognised md).foldl Outline.add ⟨[], none⟩).steps

def countSteps (steps : List ParsedStep) : Nat :=
  (steps.map (fun step => 1 + step.children.length)).sum

/-! ### Identifiers -/

def base36Digit (digit : Nat) : Char :=
  if digit < 10 then Char.ofNat (48 + digit) else Char.ofNat (87 + digit)

/-- `toString(36)` of a whole number. -/
def base36 (number : Nat) : Text :=
  if number = 0 then ['0'] else ((Nat.digits 36 number).reverse).map base36Digit

/-- The identifier that a call of `newId` makes of the clock and of the text of the random
number in base 36. -/
def newId (clock : Nat → Nat) (random : Nat → Text) (call : Nat) : Text :=
  ['s', 't', 'e', 'p', '_'] ++ (base36 (clock call) ++ ('_' :: ((random call).drop 2).take 8))

/-! ### Rows -/

structure StepRow where
  stepId : Text
  parentStepId : Option Text
  sessionId : Text
  description : Text
  acceptanceCmd : Option Text
  acceptanceCheck : Text
  status : StepStatus
  startedAt : Option Text
  completedAt : Option Text
  verificationProof : Option Text
  artifacts : Text
  notes : Text
  blocker : Option Text
  driftScore : Int
deriving DecidableEq

def newRow (session stepId : Text) (parent : Option Text) (child : Child) : StepRow where
  stepId := stepId
  parentStepId := parent
  sessionId := session
  description := child.description
  acceptanceCmd := none
  acceptanceCheck := ['n', 'u', 'l', 'l']
  status := child.status
  startedAt := none
  completedAt := none
  verificationProof := none
  artifacts := ['{', '}']
  notes := []
  blocker := none
  driftScore := 0

section Write

variable (mint : Nat → Text) (session : Text)

/-- The rows of the steps under one heading, from this call of `newId` on. -/
def childRows (parentId : Text) : Nat → List Child → List StepRow
  | _, [] => []
  | call, child :: rest =>
      newRow session (mint call) (some parentId) child :: childRows parentId (call + 1) rest

def planRows : Nat → List ParsedStep → List StepRow
  | _, [] => []
  | call, parent :: rest =>
      newRow session (mint call) none parent.toChild ::
        (childRows mint session (mint call) (call + 1) parent.children ++
          planRows (call + 1 + parent.children.length) rest)

end Write

/-- Insert the rows one by one; the identifier is the primary key. -/
def insertAll (table : List StepRow) : List StepRow → Option (List StepRow)
  | [] => some table
  | row :: rest =>
      if ∃ old ∈ table, old.stepId = row.stepId then none else insertAll (table ++ [row]) rest

structure Reply where
  stepsCreated : Nat
  rootStepId : Text
  note : String

/-- The transaction: all the rows, or none where one cannot be inserted. -/
def stepPlanDirectWrite (mint : Nat → Text) (session : Text) (parsed : List ParsedStep)
    (table : List StepRow) : Option (List StepRow × Nat × Text) :=
  let rows := planRows mint session 0 parsed
  (insertAll table rows).map (fun table =>
    (table, rows.length, ((rows.head?).map StepRow.stepId).getD []))

inductive Source where
  | missing
  | unreadable
  | text (md : Text)

/-- The handler, and the table of steps after it; no table where there is no shard. -/
def stepPlanFrom (mint : Nat → Text) (session : Text) (source : Source)
    (shard : Option (List StepRow)) : Reply × Option (List StepRow) :=
  match source with
  | .missing => (⟨0, [], "fallback:missing-file"⟩, shard)
  | .unreadable => (⟨0, [], "fallback:read-error"⟩, shard)
  | .text md =>
      let parsed := parseRoadmap md
      if parsed = [] then (⟨0, [], "fallback:empty-plan"⟩, shard)
      else
        match shard.bind (stepPlanDirectWrite mint session parsed) with
        | some (table, created, rootId) =>
            (⟨created, rootId, "fallback:direct-write (dev-tool; bypasses single-writer)"⟩,
              some table)
        | none => (⟨countSteps parsed, [], "fallback:parsed-only"⟩, shard)

/-! ### Reading back -/

def isTop (row : StepRow) : Bool :=
  row.parentStepId = none

/-- `ORDER BY CASE WHEN parent_step_id IS NULL THEN 0 ELSE 1 END, step_id ASC` -/
def Listed (left right : StepRow) : Prop :=
  (isTop left = true ∧ isTop right = false) ∨
    (isTop left = isTop right ∧ left.stepId ≤ right.stepId)

instance : DecidableRel Listed := fun left right =>
  inferInstanceAs (Decidable ((isTop left = true ∧ isTop right = false) ∨
    (isTop left = isTop right ∧ left.stepId ≤ right.stepId)))

def sessionSteps (session : Text) (table : List StepRow) : List StepRow :=
  (table.filter (fun row => row.sessionId = session)).insertionSort Listed

structure LedgerEntry where
  sessionId : Text
  timestamp : Int
  kind : Text
  summary : Text

/-- `ORDER BY timestamp DESC LIMIT 1` -/
def latest (entries : List LedgerEntry) : Option LedgerEntry :=
  (entries.insertionSort (fun left right => right.timestamp ≤ left.timestamp)).head?

/-- What the ledger has to say where no step names a goal. -/
def recordedGoal (session : Text) (ledger : List LedgerEntry) : Option Text :=
  let entries := ledger.filter (fun entry => entry.sessionId = session)
  let decision := latest (entries.filter (fun entry =>
    entry.kind = ['d', 'e', 'c', 'i', 's', 'i', 'o', 'n']))
  match decision.filter (fun entry => entry.summary ≠ []) with
  | some entry => some entry.summary
  | none => (latest entries).map LedgerEntry.summary

def goalForSession (session : Text) (ledger : List LedgerEntry) (table : List StepRow) :
    Option Text :=
  let roots := table.filter (fun row => row.sessionId = session ∧ isTop row)
  let root := (roots.insertionSort (fun left right => left.stepId ≤ right.stepId)).head?
  match root.filter (fun row => row.description ≠ []) with
  | some row => some row.description
  | none => recordedGoal session ledger

/-! ### Headings -/

def Line.isHeading : Line → Bool
  | .heading _ => true
  | .item _ => false

/-- What a step of this line holds. -/
def Line.step : Line → Child
  | .heading description => ⟨description, .notStarted⟩
  | .item child => child

/-- The place of the last heading. -/
def lastHeading (lines : List Line) : Option Nat :=
  (lines.zipIdx.filter (fun entry => entry.1.isHeading)).getLast?.map Prod.snd

/-- The place of the heading that a line stands under. -/
def headingOf (before : List Line) (line : Line) : Option Nat :=
  if line.isHeading then none else lastHeading before

theorem lastHeading_snoc (lines : List Line) (line : Line) :
    lastHeading (lines ++ [line]) =
      if line.isHeading then some lines.length else lastHeading lines := by
  unfold lastHeading
  rw [List.zipIdx_append, List.filter_append]
  cases heading : line.isHeading with
  | true => simp [heading]
  | false => simp [heading]

theorem lastHeading_lt {lines : List Line} {place : Nat} (found : lastHeading lines = some place) :
    place < lines.length := by
  obtain ⟨entry, last, same⟩ := Option.map_eq_some_iff.mp found
  have member := (List.mem_filter.mp (List.mem_of_getLast? last)).1
  have bound := List.snd_lt_of_mem_zipIdx member
  rw [same] at bound
  simpa using bound

/-! ### The rows of a roadmap -/

section Rows

variable (mint : Nat → Text) (session : Text)

def rowFor (before : List Line) (line : Line) : StepRow :=
  newRow session (mint before.length) ((headingOf before line).map mint) line.step

/-- The rows of the lines that follow these. -/
def rowsFrom : List Line → List Line → List StepRow
  | _, [] => []
  | before, line :: rest => rowFor mint session before line :: rowsFrom (before ++ [line]) rest

variable {mint session}

theorem rowsFrom_append (before front back : List Line) :
    rowsFrom mint session before (front ++ back) =
      rowsFrom mint session before front ++ rowsFrom mint session (before ++ front) back := by
  induction front generalizing before with
  | nil => rw [List.append_nil]; rfl
  | cons line front ih =>
      rw [List.cons_append, rowsFrom, rowsFrom, ih, List.cons_append, List.append_assoc]
      rfl

theorem rowsFrom_length (before lines : List Line) :
    (rowsFrom mint session before lines).length = lines.length := by
  induction lines generalizing before with
  | nil => rfl
  | cons line lines ih => rw [rowsFrom, List.length_cons, List.length_cons, ih]

theorem rowsFrom_getElem? (before lines : List Line) (place : Nat) :
    (rowsFrom mint session before lines)[place]? =
      (lines[place]?).map (rowFor mint session (before ++ lines.take place)) := by
  induction lines generalizing before place with
  | nil => rfl
  | cons line lines ih =>
      cases place with
      | zero => rw [List.take_zero, List.append_nil]; rfl
      | succ place =>
          rw [rowsFrom, List.getElem?_cons_succ, ih, List.getElem?_cons_succ, List.take_succ_cons,
            List.append_assoc]
          rfl

/-! ### The rows that are planned -/

theorem childRows_snoc (parentId : Text) (call : Nat) (children : List Child) (child : Child) :
    childRows mint session parentId call (children ++ [child]) =
      childRows mint session parentId call children ++
        [newRow session (mint (call + children.length)) (some parentId) child] := by
  induction children generalizing call with
  | nil => rfl
  | cons first children ih =>
      rw [List.cons_append, childRows, ih, childRows, List.cons_append, List.length_cons,
        Nat.add_right_comm, Nat.add_assoc call]

theorem countSteps_append (front back : List ParsedStep) :
    countSteps (front ++ back) = countSteps front + countSteps back := by
  unfold countSteps
  rw [List.map_append, List.sum_append]

theorem countSteps_one (parent : ParsedStep) : countSteps [parent] = 1 + parent.children.length :=
  rfl

theorem planRows_append (call : Nat) (front back : List ParsedStep) :
    planRows mint session call (front ++ back) =
      planRows mint session call front ++ planRows mint session (call + countSteps front) back := by
  induction front generalizing call with
  | nil => rfl
  | cons parent front ih =>
      have count : countSteps (parent :: front) =
          1 + parent.children.length + countSteps front := rfl
      rw [List.cons_append, planRows, planRows, ih, count, List.cons_append, List.append_assoc]
      simp only [Nat.add_assoc]

theorem planRows_one (call : Nat) (parent : ParsedStep) :
    planRows mint session call [parent] =
      newRow session (mint call) none parent.toChild ::
        childRows mint session (mint call) (call + 1) parent.children :=
  congrArg (List.cons _) (List.append_nil _)

variable (mint session) in
/-- The outline holds the lines read so far, and its current step is their last heading. -/
structure Outlines (outline : Outline) (before : List Line) : Prop where
  rows : planRows mint session 0 outline.steps = rowsFrom mint session [] before
  count : countSteps outline.steps = before.length
  heading : lastHeading before = outline.current.map (fun _ => countSteps outline.parents)

theorem outlines_add {outline : Outline} {before : List Line}
    (outlines : Outlines mint session outline before) (line : Line) :
    Outlines mint session (outline.add line) (before ++ [line]) := by
  obtain ⟨rows, count, heading⟩ := outlines
  have next : rowsFrom mint session [] (before ++ [line]) =
      planRows mint session 0 outline.steps ++ [rowFor mint session before line] := by
    rw [rowsFrom_append, rows]
    rfl
  cases line with
  | heading description =>
      refine ⟨?_, ?_, ?_⟩
      · rw [next]
        change planRows mint session 0 (outline.steps ++ [⟨⟨description, .notStarted⟩, []⟩]) = _
        rw [planRows_append, Nat.zero_add, count]
        rfl
      · change countSteps (outline.steps ++ [⟨⟨description, .notStarted⟩, []⟩]) = _
        rw [countSteps_append, count, List.length_append]
        rfl
      · rw [lastHeading_snoc, ← count]
        rfl
  | item child =>
      have parent : rowFor mint session before (.item child) =
          newRow session (mint before.length) ((lastHeading before).map mint) child := rfl
      cases open_ : outline.current with
      | some current =>
          have steps : outline.steps = outline.parents ++ [current] := by
            unfold Outline.steps
            rw [open_]
            rfl
          have added : outline.add (.item child) =
              ⟨outline.parents, some { current with children := current.children ++ [child] }⟩ := by
            unfold Outline.add
            rw [open_]
          have size : before.length = countSteps outline.parents + 1 + current.children.length := by
            rw [← count, steps, countSteps_append, countSteps_one, Nat.add_assoc]
          rw [open_] at heading
          refine ⟨?_, ?_, ?_⟩
          · rw [next, parent, added, heading, steps]
            change planRows mint session 0 (outline.parents ++ [_]) = _
            rw [planRows_append, planRows_one, planRows_append, planRows_one, childRows_snoc,
              Nat.zero_add, size]
            simp
          · rw [added]
            change countSteps (outline.parents ++ [_]) = _
            rw [countSteps_append, countSteps_one, List.length_append, List.length_append, size]
            simp only [List.length_singleton]
            omega
          · rw [added, lastHeading_snoc, heading]
            rfl
      | none =>
          have steps : outline.steps = outline.parents := by
            unfold Outline.steps
            rw [open_]
            exact List.append_nil _
          have added : outline.add (.item child) = ⟨outline.parents ++ [⟨child, []⟩], none⟩ := by
            unfold Outline.add
            rw [open_]
          have grown : Outline.steps ⟨outline.parents ++ [⟨child, []⟩], none⟩ =
              outline.parents ++ [⟨child, []⟩] :=
            List.append_nil _
          rw [open_] at heading
          rw [steps] at count
          refine ⟨?_, ?_, ?_⟩
          · rw [next, parent, added, heading, steps, grown, planRows_append, Nat.zero_add, count]
            rfl
          · rw [added, grown, countSteps_append, count, List.length_append]
            rfl
          · rw [added, lastHeading_snoc, heading]
            rfl

theorem outlines_lines (lines : List Line) :
    Outlines mint session (lines.foldl Outline.add ⟨[], none⟩) lines := by
  induction lines using List.reverseRecOn with
  | nil => exact ⟨rfl, rfl, rfl⟩
  | append_singleton lines line ih =>
      rw [List.foldl_append]
      exact outlines_add ih line

/-- One row a line, in the order of the lines. -/
theorem planRows_roadmap (md : Text) :
    planRows mint session 0 (parseRoadmap md) = rowsFrom mint session [] (recognised md) :=
  (outlines_lines (recognised md)).rows

theorem countSteps_roadmap (md : Text) : countSteps (parseRoadmap md) = (recognised md).length :=
  (@outlines_lines (fun _ => []) [] (recognised md)).count

end Rows

/-! ### Inserting -/

theorem insertAll_eq_some {table rows after : List StepRow} :
    insertAll table rows = some after ↔
      after = table ++ rows ∧ (∀ row ∈ rows, row.stepId ∉ table.map StepRow.stepId) ∧
        (rows.map StepRow.stepId).Nodup := by
  induction rows generalizing table with
  | nil =>
      rw [insertAll, Option.some.injEq, List.append_nil]
      constructor
      · rintro rfl
        exact ⟨rfl, by simp, List.nodup_nil⟩
      · rintro ⟨rfl, _⟩
        rfl
  | cons row rest ih =>
      have exists_ : (∃ old ∈ table, old.stepId = row.stepId) ↔
          row.stepId ∈ table.map StepRow.stepId := List.mem_map.symm
      rw [insertAll, List.forall_mem_cons, List.map_cons, List.nodup_cons]
      by_cases taken : row.stepId ∈ table.map StepRow.stepId
      · rw [if_pos (exists_.mpr taken)]
        constructor
        · intro impossible
          cases impossible
        · rintro ⟨_, ⟨fresh, _⟩, _⟩
          exact absurd taken fresh
      · rw [if_neg (fun found => taken (exists_.mp found)), ih, List.append_assoc,
          List.singleton_append]
        have others : (∀ other ∈ rest, other.stepId ∉ (table ++ [row]).map StepRow.stepId) ↔
            (∀ other ∈ rest, other.stepId ∉ table.map StepRow.stepId) ∧
              row.stepId ∉ rest.map StepRow.stepId := by
          simp only [List.map_append, List.mem_append, List.map_cons, List.map_nil,
            List.mem_singleton, not_or, List.mem_map, not_exists, not_and]
          constructor
          · intro free
            exact ⟨fun other member => (free other member).1,
              fun other member same => (free other member).2 same⟩
          · rintro ⟨free, apart⟩ other member
            exact ⟨free other member, fun same => apart other member same⟩
        rw [others]
        constructor
        · rintro ⟨whole, ⟨fresh, apart⟩, distinct⟩
          exact ⟨whole, ⟨taken, fresh⟩, apart, distinct⟩
        · rintro ⟨whole, ⟨_, fresh⟩, apart, distinct⟩
          exact ⟨whole, ⟨fresh, apart⟩, distinct⟩

/-! ### Listing -/

instance : Std.Total Listed where
  total left right := by
    unfold Listed
    rcases le_total left.stepId right.stepId with below | above
    · cases isTop left <;> cases isTop right <;> simp [below]
    · cases isTop left <;> cases isTop right <;> simp [above]

instance : IsTrans StepRow Listed where
  trans first second third := by
    rintro (⟨top, under⟩ | ⟨level, below⟩) (⟨top', under'⟩ | ⟨level', below'⟩)
    · rw [under] at top'
      cases top'
    · exact Or.inl ⟨top, level' ▸ under⟩
    · exact Or.inl ⟨level ▸ top', under'⟩
    · exact Or.inr ⟨level.trans level', le_trans below below'⟩

section Groups

variable {session : Text} {table added : List StepRow} {group : StepRow → Bool}

/-- The new rows of one group are listed in their own order just where their identifiers
ascend. -/
theorem group_listed (fresh : ∀ row ∈ added, row.stepId ∉ table.map StepRow.stepId)
    (distinct : (added.map StepRow.stepId).Nodup) (own : ∀ row ∈ added, row.sessionId = session)
    (level : ∀ row other, group row = true → group other = true → isTop row = isTop other) :
    (added.filter group).Sublist (sessionSteps session (table ++ added)) ↔
      (added.filter group).Pairwise (fun left right => left.stepId < right.stepId) := by
  have apart : (added.filter group).Pairwise (fun left right => left.stepId ≠ right.stepId) :=
    (List.pairwise_map.mp distinct).filter group
  constructor
  · intro listed
    have sorted : (sessionSteps session (table ++ added)).Pairwise Listed :=
      List.pairwise_insertionSort _ _
    apply ((sorted.sublist listed).and apart).imp_of_mem
    intro left right inLeft inRight both
    have same := level left right (List.mem_filter.mp inLeft).2 (List.mem_filter.mp inRight).2
    rcases both.1 with ⟨top, under⟩ | ⟨_, below⟩
    · rw [same, under] at top
      cases top
    · exact lt_of_le_of_ne below both.2
  · intro ascending
    have sorted : (added.filter group).Pairwise Listed := by
      apply ascending.imp_of_mem
      intro left right inLeft inRight below
      exact Or.inr ⟨level left right (List.mem_filter.mp inLeft).2 (List.mem_filter.mp inRight).2,
        le_of_lt below⟩
    -- the new rows of the group, selected out of everything that is listed
    have selected : (sessionSteps session (table ++ added)).filter
        (fun row => group row && decide (row.stepId ∈ added.map StepRow.stepId)) =
          added.filter group := by
      unfold sessionSteps
      rw [filter_insertionSort, List.filter_filter, List.filter_append]
      have old : table.filter (fun row => (group row &&
          decide (row.stepId ∈ added.map StepRow.stepId)) && decide (row.sessionId = session)) =
            [] := by
        rw [List.filter_eq_nil_iff]
        intro row inside kept
        simp only [Bool.and_eq_true, decide_eq_true_eq, List.mem_map] at kept
        obtain ⟨⟨_, other, inAdded, same⟩, _⟩ := kept
        exact fresh other inAdded (same ▸ List.mem_map_of_mem inside)
      have new : added.filter (fun row => (group row &&
          decide (row.stepId ∈ added.map StepRow.stepId)) && decide (row.sessionId = session)) =
            added.filter group := by
        apply List.filter_congr
        intro row inside
        rw [decide_eq_true (own row inside), decide_eq_true (List.mem_map_of_mem inside),
          Bool.and_true, Bool.and_true]
      rw [old, new, List.nil_append]
      exact sorted.insertionSort_eq
    rw [← selected]
    exact List.filter_sublist

end Groups

/-! ### Descriptions -/

variable {raw session : Text}

theorem trim_ne_nil {front blanks desc : Text} (split : trim raw = front ++ (blanks ++ desc))
    (blank : ∀ char ∈ blanks, isSpace char = true) (some_ : blanks ≠ []) : trim desc ≠ [] := by
  intro empty
  have within : ∀ char ∈ blanks ++ desc, isSpace char = true := by
    intro char inside
    rcases List.mem_append.mp inside with before | behind
    · exact blank char before
    · exact trimmed_eq_nil.mp empty char behind
  have nonempty : blanks ++ desc ≠ [] := fun none => some_ (List.append_eq_nil_iff.mp none).1
  have last : (trim raw).getLast? = some ((blanks ++ desc).getLast nonempty) := by
    rw [split, List.getLast?_append_of_ne_nil _ nonempty, List.getLast?_eq_getLast_of_ne_nil nonempty]
  have solid := getLast?_trimmed last
  rw [within _ (List.getLast_mem nonempty)] at solid
  cases solid

variable {line : Line}

/-- What a line is read as is never without a text. -/
theorem recognise_described (read : recognise raw = some line) : line.step.description ≠ [] := by
  unfold recognise recogniseTrimmed at read
  split at read
  · rename_i marked
    cases read
    obtain ⟨desc, split⟩ := List.isPrefixOf_iff_prefix.mp marked
    rw [← split]
    apply @trim_ne_nil raw ['#', '#'] [' '] desc split.symm
    · intro char same
      rw [List.mem_singleton.mp same]
      decide
    · exact List.cons_ne_nil ' ' []
  · rcases Option.or_eq_some_iff.mp read with bullet | ⟨_, number⟩
    · unfold recogniseBullet at bullet
      split at bullet
      · rename_i mark desc rest first
        cases bullet
        have reads := Regex.reads_of_first first
        simp only [bulletRegex, Regex.reads_one, Regex.reads_many, Regex.reads_group,
          Regex.reads_stop] at reads
        obtain ⟨dash, _, split, _, run, _, rfl, _, _, left, _, rfl, _, taken, _, _, _, rfl,
          ⟨rfl, _⟩, ⟨right, _, rfl, _, blanks, _, rfl, blank, long, text, _, _, _, rfl, ⟨rfl, _⟩,
          ⟨rfl, rfl, _⟩, rfl⟩, groups⟩ := reads
        cases groups
        apply @trim_ne_nil raw (dash :: (run ++ left :: (mark ++ [right]))) blanks desc
        · rw [split]
          simp
        · exact blank
        · exact List.ne_nil_of_length_pos long
      · cases bullet
    · unfold recogniseNumber at number
      split at number
      · rename_i desc rest first
        have reads := Regex.reads_of_first first
        simp only [numberRegex, Regex.reads_one, Regex.reads_many, Regex.reads_group_many,
          Regex.reads_stop] at reads
        obtain ⟨digits, _, split, _, _, dot, _, rfl, _, blanks, _, rfl, blank, long, text, _, _, rfl,
          _, _, ⟨rfl, rfl, _⟩, groups⟩ := reads
        cases groups
        split at number
        · cases number
        · cases number
          apply @trim_ne_nil raw (digits ++ [dot]) blanks desc
          · rw [split]
            simp
          · exact blank
          · exact List.ne_nil_of_length_pos long
      · cases number

/-! ### The plan as it is read back -/

/-- The place of the heading that the line at this place stands under. -/
def parentPlace (lines : List Line) (place : Nat) : Option Nat :=
  (lines[place]?).bind (headingOf (lines.take place))

/-- Each line has a row, under the row of its heading, and all of it is listed in the order
of the lines. -/
structure KeepsOrder (session : Text) (ledger : List LedgerEntry) (lines : List Line)
    (table added : List StepRow) (stepsCreated : Nat) : Prop where
  length : added.length = lines.length
  row : ∀ before line after row, lines = before ++ line :: after →
    added[before.length]? = some row →
      row.sessionId = session ∧ row.description = line.step.description ∧
        row.status = line.step.status ∧
        row.parentStepId =
          (headingOf before line).bind (fun place => (added[place]?).map StepRow.stepId)
  counted : stepsCreated = added.length
  topLevel : (added.filter isTop).Sublist (sessionSteps session (table ++ added))
  children : ∀ parent ∈ added,
    (added.filter (fun row => row.parentStepId = some parent.stepId)).Sublist
      (sessionSteps session (table ++ added))
  /-- Where the session had no plan before. -/
  goal : (∀ row ∈ table, row.sessionId = session → isTop row = false) →
    ∀ first ∈ lines.head?,
      goalForSession session ledger (table ++ added) = some first.step.description

/-- The call writes the roadmap into the table of steps, and the plan keeps its order. -/
def PlanKept (mint : Nat → Text) (session : Text) (ledger : List LedgerEntry) (md : Text)
    (table : List StepRow) : Prop :=
  ∃ added, (stepPlanFrom mint session (.text md) (some table)).2 = some (table ++ added) ∧
    KeepsOrder session ledger (recognised md) table added
      (stepPlanFrom mint session (.text md) (some table)).1.stepsCreated

/-- The identifiers are new and distinct, and ascend among the steps of one parent. -/
structure Ascending (mint : Nat → Text) (lines : List Line) (table : List StepRow) : Prop where
  fresh : ∀ place < lines.length, mint place ∉ table.map StepRow.stepId
  distinct : ∀ place other, place < other → other < lines.length → mint place ≠ mint other
  siblings : ∀ place other, place < other → other < lines.length →
    parentPlace lines place = parentPlace lines other → mint place < mint other

section Plan

variable {mint : Nat → Text} {session : Text} {lines : List Line}

theorem row_at {place : Nat} {row : StepRow}
    (found : (rowsFrom mint session [] lines)[place]? = some row) :
    place < lines.length ∧ row.stepId = mint place ∧ row.sessionId = session ∧
      row.parentStepId = (parentPlace lines place).map mint := by
  rw [rowsFrom_getElem?, List.nil_append] at found
  obtain ⟨line, here, rfl⟩ := Option.map_eq_some_iff.mp found
  obtain ⟨inside, _⟩ := List.getElem?_eq_some_iff.mp here
  refine ⟨inside, ?_, rfl, ?_⟩
  · change mint (lines.take place).length = _
    rw [List.length_take_of_le (Nat.le_of_lt inside)]
  · unfold parentPlace
    rw [here]
    rfl

theorem exists_row {place : Nat} (inside : place < lines.length) :
    ∃ row, (rowsFrom mint session [] lines)[place]? = some row := by
  rw [rowsFrom_getElem?, List.getElem?_eq_getElem inside]
  exact ⟨_, rfl⟩

theorem stepIds_rows :
    (rowsFrom mint session [] lines).map StepRow.stepId = (List.range lines.length).map mint := by
  apply List.ext_getElem?
  intro place
  rw [List.getElem?_map, List.getElem?_map]
  by_cases inside : place < lines.length
  · obtain ⟨row, found⟩ := @exists_row mint session lines place inside
    rw [found, List.getElem?_range inside]
    exact congrArg some (row_at found).2.1
  · have outside := Nat.le_of_not_lt inside
    rw [List.getElem?_eq_none (by rw [rowsFrom_length]; exact outside),
      List.getElem?_eq_none (by rw [List.length_range]; exact outside)]
    rfl

theorem parentPlace_lt {place parent : Nat} (found : parentPlace lines place = some parent) :
    parent < place := by
  obtain ⟨line, _, under⟩ := Option.bind_eq_some_iff.mp found
  unfold headingOf at under
  split at under
  · cases under
  · have bound := lastHeading_lt under
    rw [List.length_take] at bound
    omega

theorem pairwise_groups {rows : List StepRow} (known : ∀ row ∈ rows, ∀ stepId,
      row.parentStepId = some stepId → ∃ parent ∈ rows, parent.stepId = stepId) :
    rows.Pairwise (fun left right =>
        left.parentStepId = right.parentStepId → left.stepId < right.stepId) ↔
      (rows.filter isTop).Pairwise (fun left right => left.stepId < right.stepId) ∧
      ∀ parent ∈ rows, (rows.filter (fun row => row.parentStepId = some parent.stepId)).Pairwise
        (fun left right => left.stepId < right.stepId) := by
  simp only [List.pairwise_filter]
  simp only [List.pairwise_iff_forall_sublist, decide_eq_true_eq]
  constructor
  · intro ascending
    constructor
    · intro left right pair top top'
      have left_ : left.parentStepId = none := of_decide_eq_true top
      have right_ : right.parentStepId = none := of_decide_eq_true top'
      exact ascending pair (left_.trans right_.symm)
    · intro parent _ left right pair under under'
      exact ascending pair (under.trans under'.symm)
  · rintro ⟨top, children⟩ left right pair same
    cases under : right.parentStepId with
    | none =>
        rw [under] at same
        exact top pair (decide_eq_true same) (decide_eq_true under)
    | some stepId =>
        have member : right ∈ rows := pair.subset (by simp)
        obtain ⟨parent, inside, rfl⟩ := known right member stepId under
        rw [under] at same
        exact children parent inside pair same under

theorem rows_known {row : StepRow} (member : row ∈ rowsFrom mint session [] lines) {stepId : Text}
    (under : row.parentStepId = some stepId) :
    ∃ parent ∈ rowsFrom mint session [] lines, parent.stepId = stepId := by
  obtain ⟨place, found⟩ := List.mem_iff_getElem?.mp member
  obtain ⟨inside, _, _, parent⟩ := row_at found
  rw [under] at parent
  obtain ⟨above, at_, same⟩ := Option.map_eq_some_iff.mp parent.symm
  have earlier := parentPlace_lt at_
  obtain ⟨heading, here⟩ := @exists_row mint session lines above (by omega)
  exact ⟨heading, List.mem_of_getElem? here, (row_at here).2.1.trans same⟩

theorem siblings_iff_rows (distinct : ∀ place other, place < other → other < lines.length →
      mint place ≠ mint other) :
    (∀ place other, place < other → other < lines.length →
        parentPlace lines place = parentPlace lines other → mint place < mint other) ↔
      (rowsFrom mint session [] lines).Pairwise (fun left right =>
        left.parentStepId = right.parentStepId → left.stepId < right.stepId) := by
  have injective : ∀ place other, place < lines.length → other < lines.length →
      (parentPlace lines place).map mint = (parentPlace lines other).map mint →
        parentPlace lines place = parentPlace lines other := by
    intro place other inside inside' same
    cases above : parentPlace lines place with
    | none =>
        rw [above] at same
        exact (Option.map_eq_none_iff.mp same.symm).symm
    | some parent =>
        rw [above] at same
        obtain ⟨parent', above', equal⟩ := Option.map_eq_some_iff.mp same.symm
        rw [above']
        have bound := parentPlace_lt above
        have bound' := parentPlace_lt above'
        rcases Nat.lt_trichotomy parent parent' with below | same | above
        · exact absurd equal.symm (distinct parent parent' below (by omega))
        · rw [same]
        · exact absurd equal (distinct parent' parent above (by omega))
  have bound : ∀ place < lines.length, place < (rowsFrom mint session [] lines).length := by
    intro place inside
    rwa [rowsFrom_length]
  rw [List.pairwise_iff_getElem]
  simp only [rowsFrom_length]
  constructor
  · intro siblings place other inside inside' before same
    have left := row_at (List.getElem?_eq_getElem (bound place inside))
    have right := row_at (List.getElem?_eq_getElem (bound other inside'))
    rw [left.2.2.2, right.2.2.2] at same
    rw [left.2.1, right.2.1]
    exact siblings place other before inside' (injective place other inside inside' same)
  · intro ascending place other before inside same
    have inside' : place < lines.length := by omega
    have left := row_at (List.getElem?_eq_getElem (bound place inside'))
    have right := row_at (List.getElem?_eq_getElem (bound other inside))
    have result := ascending place other inside' inside before
    rw [left.2.2.2, right.2.2.2, left.2.1, right.2.1] at result
    exact result (congrArg (Option.map mint) same)

variable {table : List StepRow}

/-- Both orders of the rows. -/
theorem listed_iff_siblings (fresh : ∀ place < lines.length, mint place ∉ table.map StepRow.stepId)
    (distinct : ∀ place other, place < other → other < lines.length → mint place ≠ mint other) :
    (((rowsFrom mint session [] lines).filter isTop).Sublist
        (sessionSteps session (table ++ rowsFrom mint session [] lines)) ∧
      ∀ parent ∈ rowsFrom mint session [] lines,
        ((rowsFrom mint session [] lines).filter
          (fun row => row.parentStepId = some parent.stepId)).Sublist
            (sessionSteps session (table ++ rowsFrom mint session [] lines))) ↔
      ∀ place other, place < other → other < lines.length →
        parentPlace lines place = parentPlace lines other → mint place < mint other := by
  have own : ∀ row ∈ rowsFrom mint session [] lines, row.sessionId = session := by
    intro row member
    obtain ⟨place, found⟩ := List.mem_iff_getElem?.mp member
    exact (row_at found).2.2.1
  have new : ∀ row ∈ rowsFrom mint session [] lines, row.stepId ∉ table.map StepRow.stepId := by
    intro row member
    obtain ⟨place, found⟩ := List.mem_iff_getElem?.mp member
    rw [(row_at found).2.1]
    exact fresh place (row_at found).1
  have apart : ((rowsFrom mint session [] lines).map StepRow.stepId).Nodup := by
    rw [stepIds_rows, List.nodup_iff_pairwise_ne, List.pairwise_map,
      List.pairwise_iff_getElem]
    intro place other inside inside' before
    rw [List.getElem_range, List.getElem_range]
    exact distinct place other before (by rwa [List.length_range] at inside')
  rw [siblings_iff_rows distinct, pairwise_groups (fun row member _ => rows_known member)]
  apply and_congr
  · apply group_listed new apart own
    intro row other top top'
    exact top.trans top'.symm
  · apply forall_congr'
    intro parent
    apply forall_congr'
    intro _
    apply group_listed new apart own
    intro row other under under'
    unfold isTop
    rw [of_decide_eq_true under, of_decide_eq_true under']

/-! ### The result -/

theorem goal_of_rows {ledger : List LedgerEntry}
    (described : ∀ line ∈ lines, line.step.description ≠ [])
    (ascending : ((rowsFrom mint session [] lines).filter isTop).Pairwise
      (fun left right => left.stepId < right.stepId))
    (unplanned : ∀ row ∈ table, row.sessionId = session → isTop row = false) {first : Line}
    (head : lines.head? = some first) :
    goalForSession session ledger (table ++ rowsFrom mint session [] lines) =
      some first.step.description := by
  obtain ⟨rest, rfl⟩ := List.head?_eq_some_iff.mp head
  have top : isTop (rowFor mint session [] first) = true := by
    unfold rowFor headingOf
    split <;> rfl
  have old : table.filter (fun row => row.sessionId = session ∧ isTop row) = [] := by
    rw [List.filter_eq_nil_iff]
    intro row inside kept
    obtain ⟨own, top⟩ := of_decide_eq_true kept
    rw [unplanned row inside own] at top
    cases top
  have new : (rowsFrom mint session [] (first :: rest)).filter
      (fun row => row.sessionId = session ∧ isTop row) =
        (rowsFrom mint session [] (first :: rest)).filter isTop := by
    apply List.filter_congr
    intro row member
    obtain ⟨place, found⟩ := List.mem_iff_getElem?.mp member
    rw [(row_at found).2.2.1]
    simp
  have sorted : ((rowsFrom mint session [] (first :: rest)).filter isTop).insertionSort
      (fun left right => left.stepId ≤ right.stepId) =
        (rowsFrom mint session [] (first :: rest)).filter isTop :=
    (ascending.imp (fun below => le_of_lt below)).insertionSort_eq
  unfold goalForSession
  dsimp only
  rw [List.filter_append, old, List.nil_append, new, sorted, rowsFrom,
    List.filter_cons_of_pos top, List.head?_cons, Option.filter_some, if_pos]
  · rfl
  · exact decide_eq_true (described first List.mem_cons_self)

end Plan

theorem stepPlanFrom_text (mint : Nat → Text) (session md : Text) (table : List StepRow) :
    stepPlanFrom mint session (.text md) (some table) =
      if recognised md = [] then (⟨0, [], "fallback:empty-plan"⟩, some table)
      else
        match insertAll table (rowsFrom mint session [] (recognised md)) with
        | some after =>
            (⟨(recognised md).length, mint 0,
                "fallback:direct-write (dev-tool; bypasses single-writer)"⟩, some after)
        | none => (⟨(recognised md).length, [], "fallback:parsed-only"⟩, some table) := by
  have empty : parseRoadmap md = [] ↔ recognised md = [] := by
    constructor
    · intro none
      have count := countSteps_roadmap md
      rw [none] at count
      exact List.length_eq_zero_iff.mp count.symm
    · intro none
      unfold parseRoadmap
      rw [none]
      rfl
  unfold stepPlanFrom
  simp only [empty]
  split
  · rfl
  · rename_i some_
    rw [Option.bind_some, stepPlanDirectWrite, planRows_roadmap, countSteps_roadmap,
      rowsFrom_length]
    cases insertAll table (rowsFrom mint session [] (recognised md)) with
    | none => rfl
    | some after =>
        obtain ⟨first, rest, lines⟩ := List.exists_cons_of_ne_nil some_
        rw [lines]
        rfl

variable {mint : Nat → Text}

theorem rows_inserted {lines : List Line} {table after : List StepRow} :
    insertAll table (rowsFrom mint session [] lines) = some after ↔
      after = table ++ rowsFrom mint session [] lines ∧
        (∀ place < lines.length, mint place ∉ table.map StepRow.stepId) ∧
        ∀ place other, place < other → other < lines.length → mint place ≠ mint other := by
  rw [insertAll_eq_some]
  have fresh : (∀ row ∈ rowsFrom mint session [] lines, row.stepId ∉ table.map StepRow.stepId) ↔
      ∀ place < lines.length, mint place ∉ table.map StepRow.stepId := by
    rw [← List.forall_mem_map (P := fun stepId => stepId ∉ table.map StepRow.stepId), stepIds_rows]
    simp only [List.forall_mem_map, List.mem_range]
  have distinct : ((rowsFrom mint session [] lines).map StepRow.stepId).Nodup ↔
      ∀ place other, place < other → other < lines.length → mint place ≠ mint other := by
    rw [stepIds_rows, List.nodup_iff_pairwise_ne, List.pairwise_map, List.pairwise_iff_getElem]
    simp only [List.getElem_range, List.length_range]
    constructor
    · intro apart place other before inside
      exact apart place other (by omega) inside before
    · intro apart place other _ inside before
      exact apart place other before inside
  rw [fresh, distinct]

theorem rows_keep {before after : List Line} {row : StepRow}
    (found : (rowsFrom mint session [] (before ++ line :: after))[before.length]? = some row) :
    row.sessionId = session ∧ row.description = line.step.description ∧
      row.status = line.step.status ∧
      row.parentStepId = (headingOf before line).bind (fun place =>
        ((rowsFrom mint session [] (before ++ line :: after))[place]?).map StepRow.stepId) := by
  rw [rowsFrom_getElem?, List.getElem?_append_right (Nat.le_refl _), Nat.sub_self,
    List.take_left, List.nil_append] at found
  cases found
  refine ⟨rfl, rfl, rfl, ?_⟩
  change (headingOf before line).map mint = _
  cases above : headingOf before line with
  | none => rfl
  | some place =>
      have inside : place < before.length := by
        unfold headingOf at above
        split at above
        · cases above
        · exact lastHeading_lt above
      have within : place < (before ++ line :: after).length := by
        rw [List.length_append]
        omega
      obtain ⟨heading, here⟩ := @exists_row mint session _ place within
      rw [Option.map_some, Option.bind_some, here, Option.map_some, (row_at here).2.1]

theorem recognised_described {md : Text} (member : line ∈ recognised md) :
    line.step.description ≠ [] := by
  obtain ⟨raw, _, read⟩ := List.mem_filterMap.mp member
  exact recognise_described read

theorem planKept_iff (mint : Nat → Text) (session : Text) (ledger : List LedgerEntry) (md : Text)
    (table : List StepRow) :
    PlanKept mint session ledger md table ↔ Ascending mint (recognised md) table := by
  unfold PlanKept
  rw [stepPlanFrom_text]
  constructor
  · rintro ⟨added, written, kept⟩
    by_cases none : recognised md = []
    · rw [none]
      exact ⟨by simp, by simp, by simp⟩
    · rw [if_neg none] at written
      cases inserted : insertAll table (rowsFrom mint session [] (recognised md)) with
      | none =>
          -- nothing was written, and there are lines
          rw [inserted] at written
          have unchanged : added = [] :=
            List.append_right_eq_self.mp (Option.some.inj written).symm
          have length := kept.length
          rw [unchanged] at length
          exact absurd (List.length_eq_zero_iff.mp length.symm) none
      | some after =>
          obtain ⟨whole, fresh, distinct⟩ := rows_inserted.mp inserted
          rw [inserted, whole] at written
          have rows : added = rowsFrom mint session [] (recognised md) :=
            (List.append_cancel_left (Option.some.inj written)).symm
          have top := kept.topLevel
          have children := kept.children
          rw [rows] at top children
          exact ⟨fresh, distinct, (listed_iff_siblings fresh distinct).mp ⟨top, children⟩⟩
  · rintro ⟨fresh, distinct, siblings⟩
    have listed := (@listed_iff_siblings mint session _ table fresh distinct).mpr siblings
    have inserted : insertAll table (rowsFrom mint session [] (recognised md)) =
        some (table ++ rowsFrom mint session [] (recognised md)) :=
      rows_inserted.mpr ⟨rfl, fresh, distinct⟩
    have groups := (@siblings_iff_rows mint session _ distinct).mp siblings
    rw [pairwise_groups (fun row member _ => rows_known member)] at groups
    refine ⟨rowsFrom mint session [] (recognised md), ?_, ?_⟩
    · split
      · rename_i none
        rw [none]
        exact congrArg some (List.append_nil _).symm
      · rw [inserted]
    · refine ⟨rowsFrom_length .., ?_, ?_, listed.1, listed.2, ?_⟩
      · intro before line after row split found
        rw [split] at found ⊢
        exact rows_keep found
      · rw [rowsFrom_length]
        split
        · rename_i none
          rw [none]
          rfl
        · rw [inserted]
      · intro unplanned first head
        exact goal_of_rows (fun line member => recognised_described member) groups.1 unplanned head

/-- The plan keeps its order just where the identifiers made of the clock and the random
numbers are new and distinct, and ascend among the steps of one parent. -/
theorem stepPlanFrom_keeps_iff (clock : Nat → Nat) (random : Nat → Text) (session : Text)
    (ledger : List LedgerEntry) (md : Text) (table : List StepRow) :
    PlanKept (newId clock random) session ledger md table ↔
      Ascending (newId clock random) (recognised md) table :=
  planKept_iff (newId clock random) session ledger md table

/-- Two headings that are written within one millisecond. -/
theorem sameMillisecond_reverses :
    ¬ PlanKept (newId (fun _ => 1700000000000)
        (fun call => if call = 0 then "0.b".toList else "0.a".toList))
      "s".toList [] "## first\n## second".toList [] := by
  rw [planKept_iff]
  intro ascending
  have below := ascending.siblings 0 1 (by decide) (by decide) (by decide)
  revert below
  decide

end Mneme.Mcp.StepPlan
