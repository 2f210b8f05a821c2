/-
The resumption bundle of a session: the steps that its three parts list, the position and the
ranges printed above them, and when the parts account for every step.

A step that is neither completed, open nor planned stands in no part, and of several open
ones only the first does.  The position is one more than the number of completed steps, so
that without an open step it is one too many.
-/

import Mneme.Library.Pieces
import Mneme.Mcp.Composer
import Mneme.Mcp.SuggestSkill

namespace Mneme.Mcp.StepResume

open Library
open SuggestSkill (jsWhitespace)
open Composer (Text text template joinLines headed number Printer ResumeInputs Constraint)

/-! ### Steps -/

inductive StepStatus where
  | notStarted
  | inProgress
  | completed
  | blocked
  | failed
deriving DecidableEq

def StepStatus.text : StepStatus → Text
  | .notStarted => Composer.text "not_started"
  | .inProgress => Composer.text "in_progress"
  | .completed => Composer.text "completed"
  | .blocked => Composer.text "blocked"
  | .failed => Composer.text "failed"

/-- `z.enum` -/
def StepStatus.values : List StepStatus :=
  [.notStarted, .inProgress, .completed, .blocked, .failed]

def coerceStatus (status : Text) : StepStatus :=
  (StepStatus.values.find? (fun value => value.text = status)).getD .notStarted

/-- A step as both composers see it, its status any string. -/
structure Step (printer : Printer) extends Composer.Step printer where
  parentStepId : Option Text
  status : Text

/-- A row of `steps`. -/
structure StepRow where
  stepId : Text
  parentStepId : Option Text
  description : Text
  acceptanceCmd : Option Text
  acceptanceCheck : Text
  status : Text
  startedAt : Option Text
  verificationProof : Option Text
  notes : Text
  blocker : Option Text

/-- `JSON.parse` and its null. -/
structure Reader (printer : Printer) where
  parse : Text → Option printer.Value
  null : printer.Value

variable {printer : Printer}

def safeJson (reader : Reader printer) (raw : Text) : printer.Value :=
  if raw = [] then reader.null else (reader.parse raw).getD reader.null

def rowsToSteps (reader : Reader printer) (rows : List StepRow) : List (Step printer) :=
  rows.map (fun row =>
    { stepId := row.stepId
      parentStepId := row.parentStepId
      description := row.description
      acceptanceCmd := row.acceptanceCmd
      acceptanceCheck := safeJson reader row.acceptanceCheck
      status := (coerceStatus row.status).text
      startedAt := row.startedAt
      verificationProof := row.verificationProof
      notes := some row.notes
      blocker := row.blocker })

/-! ### The three parts -/

def completedOf (steps : List (Step printer)) : List (Step printer) :=
  steps.filter (fun step => step.status = text "completed")

def plannedOf (steps : List (Step printer)) : List (Step printer) :=
  steps.filter (fun step => step.status = text "not_started")

def currentOf (steps : List (Step printer)) : Option (Step printer) :=
  steps.find? (fun step => step.status = text "in_progress") <|>
    steps.find? (fun step => step.status = text "blocked")

def inputsOf (goal : Option Text) (constraints : List Constraint) (steps : List (Step printer)) :
    ResumeInputs printer :=
  { goalText := goal.getD (text "(no recorded goal)")
    goalStack := (steps.filter (fun step => step.parentStepId = none)).map Step.toStep
    completedSteps := (completedOf steps).map Step.toStep
    currentStep := (currentOf steps).map Step.toStep
    plannedSteps := (plannedOf steps).map Step.toStep
    constraints }

/-! ### The tool -/

def blank (unit : UInt16) : Bool :=
  jsWhitespace (Char.ofNat unit.toNat)

def currentHint (step : Step printer) : Option Text :=
  let blocker := step.blocker.getD []
  if trimmed blank blocker ≠ [] then some (template [text "blocked: ", blocker])
  else
    let notes := ((step.notes.getD []).splitOn 10).map (trimmed blank)
    match (notes.filter (fun note => note ≠ [])).getLast? with
    | some lastNote => some lastNote
    | none =>
        (step.startedAt.filter (fun started => started ≠ [])).map (fun started =>
          template [text "started ", started])

structure StepPointer where
  id : Text
  description : Text
  status : Text

structure CompletedStep extends StepPointer where
  proof : Option Text

structure CurrentStepHint extends StepPointer where
  hint : Option Text

def Step.pointer (step : Step printer) : StepPointer :=
  { id := step.stepId, description := step.description, status := step.status }

structure StepResumeOutput where
  bundle : Text
  currentStepId : Option Text
  totalSteps : Nat
  goal : Text
  completedSteps : List CompletedStep
  currentStep : Option CurrentStepHint
  plannedSteps : List StepPointer
  verificationGate : Option Text

/-- Where the tool reads a session from: the shard of the tasks, or else the supervisor, each of
whose queries falls back on its own.  The gate is the one that the shard gives on its own. -/
inductive Ledger (printer : Printer) where
  | shard (reader : Reader printer) (rows : List StepRow) (goal : Option Text)
      (constraints : List Constraint) (gate : Option Text)
  | ipc (steps : List (Step printer)) (goal : Option Text) (constraints : List Constraint)

namespace Ledger

def steps : Ledger printer → List (Step printer)
  | shard reader rows _ _ _ => rowsToSteps reader rows
  | ipc steps _ _ => steps

def inputs : Ledger printer → ResumeInputs printer
  | shard reader rows goal constraints _ => inputsOf goal constraints (rowsToSteps reader rows)
  | ipc steps goal constraints => inputsOf goal constraints steps

end Ledger

/-- The handler of `step_resume`; the second case is `buildResume`. -/
def handler (ledger : Ledger printer) : StepResumeOutput :=
  match ledger with
  | .shard reader rows goal constraints gate =>
      let allSteps := rowsToSteps reader rows
      let current := currentOf allSteps
      { bundle := Composer.composeResume (inputsOf goal constraints allSteps)
        currentStepId := current.map (fun step => step.stepId)
        totalSteps := allSteps.length
        goal := goal.getD (text "(no recorded goal)")
        completedSteps := (completedOf allSteps).map (fun step =>
          { step.pointer with proof := step.verificationProof })
        currentStep := current.map (fun step => { step.pointer with hint := currentHint step })
        plannedSteps := (plannedOf allSteps).map Step.pointer
        verificationGate := (current.bind (fun step => step.acceptanceCmd)) <|> gate }
  | .ipc steps goal constraints =>
      { bundle := Composer.composeResume (inputsOf goal constraints steps)
        currentStepId := (currentOf steps).map (fun step => step.stepId)
        totalSteps := steps.length
        goal := text "(no recorded goal)"
        completedSteps := []
        currentStep := none
        plannedSteps := []
        verificationGate := none }

/-! ### What the bundle prints -/

/-- The parts of a bundle, with the numbers above them; a range has its two ends. -/
structure Parts (printer : Printer) where
  goalText : Text
  goalStack : List (Composer.Step printer)
  position : Nat
  total : Nat
  completed : List (Composer.Step printer)
  completedRange : Nat × Nat
  current : Option (Composer.Step printer)
  planned : List (Composer.Step printer)
  plannedRange : Nat × Nat

def rangeLength (range : Nat × Nat) : Nat :=
  range.2 + 1 - range.1

def rangePieces (title : String) (range : Nat × Nat) : List Text :=
  [text title, text " (", number range.1, text "..", number range.2, text ")\n"]

/-- The texts of the parts, the last of them that of the planned steps. -/
def Parts.sections (parts : Parts printer) : List Text :=
  [text "<mneme-resume>",
    template [text "You are paused at STEP ", number parts.position, text " of ",
      number parts.total, text "."],
    template [text "\n## Original goal (verbatim from session start)\n", parts.goalText],
    headed [text "\n## Goal stack (root → current leaf)\n"]
      (parts.goalStack.zipIdx.map (fun placed =>
        template (Composer.stackPieces placed.2 placed.1))),
    headed (rangePieces "\n## Completed steps" parts.completedRange)
      (parts.completed.map (fun step => template (Composer.completedPieces step)))] ++
  parts.current.toList.map (fun step => template (Composer.currentPieces step)) ++
  [headed (rangePieces "\n## Planned steps" parts.plannedRange)
      (parts.planned.map (fun step => template (Composer.plannedPieces step)))]

/-- The bundle begins with these parts, and a line ends behind the last one. -/
def Prints (bundle : Text) (parts : Parts printer) : Prop :=
  joinLines parts.sections ++ text "\n" <+: bundle

/-- The parts hold each of the steps once and the numbers are right. -/
structure Accounts (steps : List (Step printer)) (parts : Parts printer) : Prop where
  once : (parts.completed ++ parts.current.toList ++ parts.planned).Perm (steps.map Step.toStep)
  total : parts.total = steps.length
  position : 1 ≤ parts.position ∧ parts.position ≤ max steps.length 1
  completedRange : rangeLength parts.completedRange = parts.completed.length
  plannedRange : rangeLength parts.plannedRange = parts.planned.length

/-- What `composeResume` prints. -/
def partsOf (inputs : ResumeInputs printer) : Parts printer :=
  let position := inputs.completedSteps.length + 1
  { goalText := inputs.goalText
    goalStack := inputs.goalStack
    position
    total := inputs.total
    completed := inputs.completedSteps
    completedRange := (1, position - 1)
    current := inputs.currentStep
    planned := inputs.plannedSteps
    plannedRange := (position + 1, inputs.total) }

/-! ### The cut -/

/-- The length of the parts and of what stands between two of them. -/
def partsLength (inputs : ResumeInputs printer) : Nat :=
  let position := inputs.completedSteps.length + 1
  Composer.joinedLines
    ([(text "<mneme-resume>").length,
      Composer.lengthOf [text "You are paused at STEP ", number position, text " of ",
        number inputs.total, text "."],
      Composer.lengthOf [text "\n## Original goal (verbatim from session start)\n",
        inputs.goalText],
      Composer.lengthOf [text "\n## Goal stack (root → current leaf)\n"] +
        Composer.joinedLines (inputs.goalStack.zipIdx.map (fun placed =>
          Composer.lengthOf (Composer.stackPieces placed.2 placed.1))),
      Composer.lengthOf (rangePieces "\n## Completed steps" (1, position - 1)) +
        Composer.joinedLines (inputs.completedSteps.map (fun step =>
          Composer.lengthOf (Composer.completedPieces step)))] ++
    inputs.currentStep.toList.map (fun step => Composer.lengthOf (Composer.currentPieces step)) ++
    [Composer.lengthOf (rangePieces "\n## Planned steps" (position + 1, inputs.total)) +
        Composer.joinedLines (inputs.plannedSteps.map (fun step =>
          Composer.lengthOf (Composer.plannedPieces step)))])

theorem length_parts (inputs : ResumeInputs printer) :
    (joinLines (partsOf inputs).sections).length = partsLength inputs := by
  rw [Composer.length_joinLines]
  unfold Parts.sections partsOf
  simp only [List.map_append, List.map_cons, List.map_nil, Composer.length_template,
    Composer.length_headed, Composer.map_template]
  rfl

/-- The sections behind the parts. -/
def laterSections (inputs : ResumeInputs printer) : List Text :=
  Composer.joinSection "Active constraints (must honor)" (inputs.constraints.map Constraint.rule) ::
    (inputs.currentStep.toList.filter (fun step => Composer.gatePieces step ≠ [])).map
      (fun step => template (Composer.gatePieces step)) ++
    [text "</mneme-resume>"]

theorem headed_merge {opening first second : Text} (same : opening = first ++ second)
    (pieces lines : List Text) :
    headed (first :: second :: pieces) lines = headed (opening :: pieces) lines := by
  unfold headed template
  rw [same, List.cons_append, List.cons_append, List.cons_append, List.flatten_cons,
    List.flatten_cons, List.flatten_cons, List.append_assoc]

theorem sections_split (inputs : ResumeInputs printer) :
    Composer.resumeSections inputs = (partsOf inputs).sections ++ laterSections inputs := by
  have completed : ∀ upper lines,
      headed (rangePieces "\n## Completed steps" (1, upper)) lines =
        headed [text "\n## Completed steps (1..", number upper, text ")\n"] lines := by
    intro upper lines
    have opening : text "\n## Completed steps (1.." =
        text "\n## Completed steps" ++ (text " (" ++ (number 1 ++ text "..")) := by decide
    rw [rangePieces, headed_merge rfl, headed_merge rfl, headed_merge rfl]
    rw [opening, List.append_assoc, List.append_assoc]
  have planned : ∀ range lines,
      headed (rangePieces "\n## Planned steps" range) lines =
        headed [text "\n## Planned steps (", number range.1, text "..", number range.2,
          text ")\n"] lines := fun range lines => headed_merge (by decide) _ lines
  unfold Composer.resumeSections Parts.sections laterSections partsOf
  dsimp only
  rw [completed, planned]
  simp only [List.cons_append, List.nil_append, List.append_assoc]

/-- A text that ends a line is there behind a cut just where it ends before the cut. -/
theorem clampToBudget_keeps_line_iff (head rest : Text) :
    head ++ text "\n" <+: Composer.clampToBudget (head ++ text "\n" ++ rest)
        Composer.maxTotalPerTurn ↔
      head.length ≤ Composer.maxTotalPerTurn * Composer.charsPerToken := by
  obtain ⟨notice, tail, same, once, final⟩ : ∃ notice tail : Text,
      text "\n... (truncated at ~" ++ (text (toString Composer.maxTotalPerTurn) ++
        text " tokens)") = notice ∧ (10 : UInt16) ∉ tail ∧ notice = 10 :: tail :=
    ⟨_, text "... (truncated at ~" ++ (text (toString Composer.maxTotalPerTurn) ++
      text " tokens)"), rfl, by decide, by decide⟩
  have newline : text "\n" = [10] := by decide
  unfold Composer.clampToBudget
  rw [newline, List.append_assoc, List.append_assoc, List.append_assoc, same]
  generalize Composer.maxTotalPerTurn * Composer.charsPerToken = limit
  split
  · rename_i short
    rw [List.length_append] at short
    refine iff_of_true ?_ (by omega)
    rw [← List.append_assoc]
    exact List.prefix_append _ _
  · constructor
    · intro kept
      by_contra long
      have cut : (head ++ ([10] ++ rest)).take limit = head.take limit :=
        List.take_append_of_le_length (by omega)
      have split : head ++ [10] = head.take limit ++ (head.drop limit ++ [10]) := by
        rw [← List.append_assoc, List.take_append_drop]
      rw [cut, split, final, List.prefix_append_right_inj] at kept
      cases more : head.drop limit with
      | nil =>
          have short := List.drop_eq_nil_iff.mp more
          exact long short
      | cons unit others =>
          rw [more, List.cons_append, List.cons_prefix_cons] at kept
          exact once (kept.2.subset (List.mem_append_right _ List.mem_cons_self))
    · intro short
      rw [List.take_append, List.take_of_length_le short, List.append_assoc,
        List.prefix_append_right_inj, final]
      cases limit - head.length with
      | zero => simp
      | succ more => simp

theorem joinLines_append {front back : List Text} (some_ : front ≠ []) (more : back ≠ []) :
    joinLines (front ++ back) = joinLines front ++ text "\n" ++ joinLines back := by
  unfold joinLines
  induction front with
  | nil => exact absurd rfl some_
  | cons first front ih =>
      cases front with
      | nil => rw [List.singleton_append, List.intercalate_cons_of_ne_nil more,
          List.intercalate_singleton, List.append_assoc]
      | cons second front =>
          have later := ih (List.cons_ne_nil second front)
          rw [List.cons_append, List.intercalate_cons_of_ne_nil (by simp), later,
            List.intercalate_cons_of_ne_nil (List.cons_ne_nil second front)]
          simp only [List.append_assoc]

theorem prints_iff (inputs : ResumeInputs printer) :
    Prints (Composer.composeResume inputs) (partsOf inputs) ↔
      partsLength inputs ≤ Composer.maxTotalPerTurn * Composer.charsPerToken := by
  obtain ⟨rest, whole⟩ : ∃ rest, joinLines (Composer.resumeSections inputs) =
      joinLines (partsOf inputs).sections ++ text "\n" ++ rest := by
    rw [sections_split]
    refine ⟨joinLines (laterSections inputs), joinLines_append ?_ ?_⟩
    · exact List.append_ne_nil_of_right_ne_nil _ (List.cons_ne_nil _ _)
    · exact List.append_ne_nil_of_right_ne_nil _ (List.cons_ne_nil _ _)
  unfold Prints Composer.composeResume
  rw [whole, clampToBudget_keeps_line_iff, length_parts]

/-! ### Every step in one part -/

def Step.isCompleted (step : Step printer) : Bool :=
  step.status = text "completed"

def Step.isPlanned (step : Step printer) : Bool :=
  step.status = text "not_started"

def Step.isOpen (step : Step printer) : Bool :=
  step.status = text "in_progress" || step.status = text "blocked"

def Step.isListed (step : Step printer) : Bool :=
  step.isCompleted || (step.isOpen || step.isPlanned)

/-- There is no step, or one is open and the others are completed or planned. -/
def Orderly (steps : List (Step printer)) : Prop :=
  steps = [] ∨ steps.countP Step.isOpen = 1 ∧ ∀ step ∈ steps, step.isListed = true

/-- A step is of one kind at most. -/
theorem kinds_apart (step : Step printer) :
    (step.isCompleted = true → step.isOpen = false ∧ step.isPlanned = false) ∧
      (step.isOpen = true → step.isPlanned = false) := by
  unfold Step.isCompleted Step.isOpen Step.isPlanned
  constructor
  · intro completed
    rw [of_decide_eq_true completed]
    decide
  · intro isOpen
    rcases Bool.or_eq_true_iff.mp isOpen with is | is
    · rw [of_decide_eq_true is]
      decide
    · rw [of_decide_eq_true is]
      decide

/-- The parts by kinds, put together, are the steps that are of one of the kinds. -/
theorem kinds_perm (steps : List (Step printer)) :
    (steps.filter Step.isCompleted ++ steps.filter Step.isOpen ++
      steps.filter Step.isPlanned).Perm (steps.filter Step.isListed) := by
  induction steps with
  | nil => exact List.Perm.refl _
  | cons step steps ih =>
      obtain ⟨completedApart, openApart⟩ := kinds_apart step
      have listed : step.isListed = (step.isCompleted || (step.isOpen || step.isPlanned)) := rfl
      rw [List.filter_cons, List.filter_cons, List.filter_cons, List.filter_cons, listed]
      cases completed : step.isCompleted with
      | true =>
          rw [(completedApart completed).1, (completedApart completed).2]
          exact ih.cons step
      | false =>
          cases isOpen : step.isOpen with
          | true =>
              rw [openApart isOpen]
              apply List.Perm.trans _ (ih.cons step)
              exact List.perm_middle.append_right _
          | false =>
              cases planned : step.isPlanned with
              | true => exact List.perm_middle.trans (ih.cons step)
              | false => exact ih

theorem currentOf_eq (steps : List (Step printer)) :
    currentOf steps = currentOf (steps.filter Step.isOpen) := by
  have same : ∀ status ∈ [text "in_progress", text "blocked"],
      (steps.filter Step.isOpen).find? (fun step => step.status = status) =
        steps.find? (fun step => step.status = status) := by
    intro status member
    rw [List.find?_filter]
    congr 1
    funext step
    cases is : decide (step.status = status) with
    | false => simp
    | true =>
        have isOpen : step.isOpen = true := by
          unfold Step.isOpen
          rw [of_decide_eq_true is]
          rcases List.mem_cons.mp member with rfl | member
          · decide
          · rw [List.mem_singleton.mp member]
            decide
        simp [isOpen]
  unfold currentOf
  rw [same _ List.mem_cons_self, same _ (List.mem_cons_of_mem _ List.mem_cons_self)]

variable {steps : List (Step printer)}

theorem currentOf_none (none_ : steps.countP Step.isOpen = 0) : currentOf steps = none := by
  rw [List.countP_eq_length_filter, List.length_eq_zero_iff] at none_
  rw [currentOf_eq, none_]
  rfl

theorem currentOf_isSome (some_ : 0 < steps.countP Step.isOpen) :
    (currentOf steps).isSome = true := by
  obtain ⟨step, member, isOpen⟩ := List.countP_pos_iff.mp some_
  unfold currentOf
  rw [Option.orElse_eq_orElse, Option.orElse_eq_or, Option.isSome_or, Bool.or_eq_true,
    List.find?_isSome, List.find?_isSome]
  exact (Bool.or_eq_true_iff.mp isOpen).imp (fun is => ⟨step, member, is⟩)
    (fun is => ⟨step, member, is⟩)

theorem currentOf_single (single : steps.countP Step.isOpen = 1) :
    steps.filter Step.isOpen = (currentOf steps).toList := by
  rw [List.countP_eq_length_filter] at single
  obtain ⟨step, only⟩ := List.length_eq_one_iff.mp single
  have isOpen : step.isOpen = true := by
    have member : step ∈ steps.filter Step.isOpen := by
      rw [only]
      exact List.mem_singleton_self step
    exact (List.mem_filter.mp member).2
  rw [currentOf_eq, only]
  unfold currentOf
  rw [List.find?_singleton, List.find?_singleton]
  rcases Bool.or_eq_true_iff.mp isOpen with is | is
  · rw [is]
    rfl
  · rw [is]
    cases decide (step.status = text "in_progress") <;> rfl

theorem accounts_iff (goal : Option Text) (constraints : List Constraint)
    (steps : List (Step printer)) :
    Accounts steps (partsOf (inputsOf goal constraints steps)) ↔ Orderly steps := by
  have completedKind : completedOf steps = steps.filter Step.isCompleted := rfl
  have plannedKind : plannedOf steps = steps.filter Step.isPlanned := rfl
  constructor
  · intro accounts
    have counts := (kinds_perm steps).length_eq
    have listed := List.countP_le_length (p := Step.isListed) (l := steps)
    have total := accounts.once.length_eq
    have position := accounts.position.2
    have planned := accounts.plannedRange
    simp only [partsOf, inputsOf, ResumeInputs.total, rangeLength, List.length_append,
      List.length_map, Option.isSome_map, completedKind, plannedKind,
      ← List.countP_eq_length_filter] at counts total position planned
    rcases Nat.eq_zero_or_pos (steps.countP Step.isOpen) with none_ | some_
    · -- Without an open step the position is right in an empty session only.
      rw [currentOf_none none_, Option.map_none, Option.toList_none, List.length_nil] at total
      rw [currentOf_none none_, Option.isSome_none, if_neg Bool.false_ne_true] at planned
      left
      rw [← List.length_eq_zero_iff]
      omega
    · obtain ⟨step, current⟩ := Option.isSome_iff_exists.mp (currentOf_isSome some_)
      rw [current, Option.map_some, Option.toList_some, List.length_singleton] at total
      have all : steps.countP Step.isListed = steps.length := by omega
      have single : steps.countP Step.isOpen = 1 := by omega
      exact Or.inr ⟨single, List.countP_eq_length.mp all⟩
  · intro orderly
    rcases orderly with rfl | ⟨single, all⟩
    · exact ⟨List.Perm.refl _, rfl, ⟨Nat.le_refl 1, Nat.le_refl 1⟩, rfl, rfl⟩
    · have perm := kinds_perm steps
      rw [currentOf_single single, List.filter_eq_self.mpr all] at perm
      have isSome := currentOf_isSome (Nat.lt_of_lt_of_eq Nat.zero_lt_one single.symm)
      have once := perm.map Step.toStep
      rw [List.map_append, List.map_append, ← Option.toList_map] at once
      obtain ⟨step, current⟩ := Option.isSome_iff_exists.mp isSome
      have total := perm.length_eq
      rw [current, Option.toList_some] at total
      simp only [List.length_append, List.length_singleton] at total
      have shown : (partsOf (inputsOf goal constraints steps)).total =
          (steps.filter Step.isCompleted).length + 1 + (steps.filter Step.isPlanned).length := by
        simp only [partsOf, inputsOf, ResumeInputs.total, List.length_map, completedKind,
          plannedKind, current, Option.map_some, Option.isSome_some, if_true]
      have position : (partsOf (inputsOf goal constraints steps)).position =
          (steps.filter Step.isCompleted).length + 1 := by
        simp only [partsOf, inputsOf, List.length_map, completedKind]
      refine ⟨once, shown.trans total, ?_, ?_, ?_⟩
      · rw [position]
        omega
      · change (partsOf (inputsOf goal constraints steps)).position - 1 + 1 - 1 = _
        rw [position]
        simp only [partsOf, inputsOf, List.length_map, completedKind]
        omega
      · change (partsOf (inputsOf goal constraints steps)).total + 1 -
          ((partsOf (inputsOf goal constraints steps)).position + 1) = _
        rw [position, shown]
        simp only [partsOf, inputsOf, List.length_map, plannedKind]
        omega

/-- The bundle accounts for every step exactly if the parts are short enough to stand before the
cut, and the session is empty or has one open step and no step beside the three kinds. -/
theorem bundle_accounts_iff (ledger : Ledger printer) :
    Prints (handler ledger).bundle (partsOf ledger.inputs) ∧
        Accounts ledger.steps (partsOf ledger.inputs) ↔
      partsLength ledger.inputs ≤ Composer.maxTotalPerTurn * Composer.charsPerToken ∧
        Orderly ledger.steps := by
  obtain ⟨goal, constraints, inputs⟩ : ∃ goal constraints,
      ledger.inputs = inputsOf goal constraints ledger.steps := by
    cases ledger with
    | shard reader rows goal constraints gate => exact ⟨goal, constraints, rfl⟩
    | ipc steps goal constraints => exact ⟨goal, constraints, rfl⟩
  have bundle : (handler ledger).bundle = Composer.composeResume ledger.inputs := by
    cases ledger <;> simp only [handler, Ledger.inputs]
  have accounts := accounts_iff goal constraints ledger.steps
  rw [← inputs] at accounts
  rw [bundle, prints_iff, accounts]

/-! ### Steps that stand in no part -/

/-- The only value is null. -/
def nulls : Printer :=
  { Number := Nat
    number := number
    Value := Unit
    stringify := fun _ => some (text "null") }

def rowWith (stepId status : String) : StepRow :=
  { stepId := text stepId
    parentStepId := none
    description := text "Port the parser"
    acceptanceCmd := none
    acceptanceCheck := text "null"
    status := text status
    startedAt := none
    verificationProof := none
    notes := []
    blocker := none }

def sessionOf (rows : List StepRow) : Ledger nulls :=
  .shard { parse := fun _ => none, null := () } rows none [] none

/-- When all is done the bundle says step 3 of 2; beside a step in progress a blocked and a
failed one are not listed, and the bundle says step 1 of 1. -/
theorem steps_unaccounted :
    (partsOf (sessionOf [rowWith "1" "completed", rowWith "2" "completed"]).inputs).position = 3 ∧
    (partsOf (sessionOf [rowWith "1" "completed", rowWith "2" "completed"]).inputs).total = 2 ∧
    ¬ Accounts (sessionOf [rowWith "1" "completed", rowWith "2" "completed"]).steps
      (partsOf (sessionOf [rowWith "1" "completed", rowWith "2" "completed"]).inputs) ∧
    ¬ Accounts
      (sessionOf [rowWith "1" "in_progress", rowWith "2" "blocked", rowWith "3" "failed"]).steps
      (partsOf (sessionOf
        [rowWith "1" "in_progress", rowWith "2" "blocked", rowWith "3" "failed"]).inputs) := by
  refine ⟨by decide, by decide, ?_, ?_⟩
  · intro accounts
    exact absurd accounts.position.2 (by decide)
  · intro accounts
    exact absurd accounts.total (by decide)

end Mneme.Mcp.StepResume
