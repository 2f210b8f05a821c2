/-
The composer of context bundles: three texts made of sections and cut to a budget of
tokens, four UTF-16 code units a token.

A text is the code units that a string holds it in.  The estimate of a bundle and both its
ends are right just where nothing has to be cut, and that is a bound on the lengths of what
goes into it.
-/

import Mathlib.Algebra.BigOperators.Group.List.Basic
import Mathlib.Algebra.GroupWithZero.Nat
import Mneme.Library.Encodings

namespace Mneme.Mcp.Composer

open Library

abbrev Text := List UInt16

def text (literal : String) : Text :=
  utf16 literal.toList

/-! ### Tokens -/

def charsPerToken : Nat :=
  4

def estimateTokens (bundle : Text) : Nat :=
  (bundle.length + (charsPerToken - 1)) / charsPerToken

def clampToBudget (bundle : Text) (tokenBudget : Nat) : Text :=
  if bundle.length ≤ tokenBudget * charsPerToken then bundle
  else
    bundle.take (tokenBudget * charsPerToken) ++ text "\n... (truncated at ~" ++
      text (toString tokenBudget) ++ text " tokens)"

def primerBudget : Nat :=
  1500

def smartInjectBudget : Nat :=
  2500

def maxTotalPerTurn : Nat :=
  5000

/-! ### Records -/

inductive Severity where
  | info
  | low
  | medium
  | high
  | critical
deriving DecidableEq

def Severity.text : Severity → Text
  | .info => Composer.text "info"
  | .low => Composer.text "low"
  | .medium => Composer.text "medium"
  | .high => Composer.text "high"
  | .critical => Composer.text "critical"

inductive Role where
  | user
  | assistant
  | system
  | tool
deriving DecidableEq

def Role.text : Role → Text
  | .user => Composer.text "user"
  | .assistant => Composer.text "assistant"
  | .system => Composer.text "system"
  | .tool => Composer.text "tool"

structure Decision where
  topic : Text
  chosen : Text
  reasoning : Text

structure Constraint where
  rule : Text
  source : Text
  severity : Severity

structure Todo where
  id : Text
  text : Text
  tags : List Text

structure ConversationTurn where
  role : Role
  content : Text
  timestamp : Text

/-- How numbers and values of any type are printed; a value may have no JSON text. -/
structure Printer where
  Number : Type
  number : Number → Text
  Value : Type
  stringify : Value → Option Text

structure Finding (printer : Printer) where
  severity : Severity
  file : Text
  line : Option printer.Number
  rule : Text
  message : Text

structure Step (printer : Printer) where
  stepId : Text
  description : Text
  acceptanceCmd : Option Text
  acceptanceCheck : printer.Value
  startedAt : Option Text
  verificationProof : Option Text
  notes : Option Text
  blocker : Option Text

structure PrimerInputs (printer : Printer) where
  cwd : Text
  goal : Option Text
  decisions : List Decision
  constraints : List Constraint
  todos : List Todo
  dirtyFiles : List Text
  redFindings : List (Finding printer)

structure SmartInjectInputs (printer : Printer) where
  decisions : List Decision
  conversationTurns : List ConversationTurn
  constraints : List Constraint
  findings : List (Finding printer)
  driftActive : Bool

structure ResumeInputs (printer : Printer) where
  goalText : Text
  goalStack : List (Step printer)
  completedSteps : List (Step printer)
  currentStep : Option (Step printer)
  plannedSteps : List (Step printer)
  constraints : List Constraint

/-! ### Sections -/

/-- A template literal. -/
def template (pieces : List Text) : Text :=
  pieces.flatten

def joinSection (title : String) (lines : List Text) : Text :=
  if lines = [] then []
  else
    template [text "## ", text title, text "\n",
      (text "\n").intercalate (lines.map (fun line => template [text "- ", line]))]

variable {printer : Printer}

/-- A goal that is missing or empty makes no section. -/
def goalPieces : Option Text → List Text
  | none => []
  | some goal => if goal = [] then [] else [text "\n## Active goal\n", goal]

def constraintPieces (constraint : Constraint) : List Text :=
  [text "[", constraint.severity.text, text "] ", constraint.rule, text "  (source: ",
    constraint.source, text ")"]

def tagPieces (tags : List Text) : List Text :=
  if tags = [] then [] else [text " (", (text ",").intercalate tags, text ")"]

def todoPieces (todo : Todo) : List Text :=
  [todo.id, text ": ", todo.text] ++ tagPieces todo.tags

def decisionPieces (decision : Decision) : List Text :=
  [decision.topic, text ": ", decision.chosen, text " — ", decision.reasoning.take 100]

def redFindingPieces (finding : Finding printer) : List Text :=
  [finding.file, text ": ", finding.rule, text " — ", finding.message]

/-- The sections of the primer, each by its pieces. -/
def primerSections (inputs : PrimerInputs printer) : List Text :=
  [text "<mneme-primer>",
    template [text "Project: ", inputs.cwd],
    template (goalPieces inputs.goal),
    joinSection "Top constraints (must honor)"
      ((inputs.constraints.take 3).map (fun constraint => template (constraintPieces constraint))),
    joinSection "Open TODOs" ((inputs.todos.take 5).map (fun todo => template (todoPieces todo))),
    joinSection "Recent decisions"
      ((inputs.decisions.take 3).map (fun decision => template (decisionPieces decision))),
    joinSection "Dirty files (uncommitted)" (inputs.dirtyFiles.take 10),
    joinSection "Critical drift findings"
      ((inputs.redFindings.take 5).map (fun finding => template (redFindingPieces finding))),
    text "</mneme-primer>"]

/-- The sections that are not empty, with a blank line between two of them. -/
def joinFilled (sections : List Text) : Text :=
  (text "\n\n").intercalate (sections.filter (fun part => part ≠ []))

def composePrimer (inputs : PrimerInputs printer) : Text :=
  clampToBudget (joinFilled (primerSections inputs)) primerBudget

/-! ### The context of a prompt -/

def redirect : Text :=
  text ("<mneme-redirect>\n" ++
    "Drift detected: recent assistant responses diverged from the goal stack.\n" ++
    "Re-anchor to the active step before proceeding.\n" ++
    "</mneme-redirect>")

def priorDecisionPieces (decision : Decision) : List Text :=
  [decision.topic, text " → ", decision.chosen, text " (because: ", decision.reasoning.take 80,
    text ")"]

def turnPieces (turn : ConversationTurn) : List Text :=
  [turn.role.text, text " @ ", turn.timestamp.take 19, text ": ", turn.content.take 140]

def activeConstraintPieces (constraint : Constraint) : List Text :=
  [constraint.rule, text " (", constraint.severity.text, text ")"]

def linePiece : Option printer.Number → Text
  | none => text "?"
  | some line => printer.number line

def openFindingPieces (finding : Finding printer) : List Text :=
  [text "[", finding.severity.text, text "] ", finding.file, text ":", linePiece finding.line,
    text " ", finding.rule]

def smartInjectSections (inputs : SmartInjectInputs printer) : List Text :=
  [text "<mneme-context>",
    if inputs.driftActive then redirect else [],
    joinSection "Prior decisions relevant to your prompt"
      ((inputs.decisions.take 5).map (fun decision => template (priorDecisionPieces decision))),
    joinSection "Related conversation history"
      ((inputs.conversationTurns.take 5).map (fun turn => template (turnPieces turn))),
    joinSection "Active constraints"
      ((inputs.constraints.take 6).map (fun constraint =>
        template (activeConstraintPieces constraint))),
    joinSection "Open findings in scope"
      ((inputs.findings.take 5).map (fun finding => template (openFindingPieces finding))),
    text "</mneme-context>"]

def composeSmartInject (inputs : SmartInjectInputs printer) : Text :=
  clampToBudget (joinFilled (smartInjectSections inputs)) smartInjectBudget

/-! ### The resume bundle -/

/-- What is behind the last line feed. -/
def lastLine (notes : Text) : Text :=
  notes.rtakeWhile (· ≠ 10)

def stackPieces (position : Nat) (step : Step printer) : List Text :=
  [(List.replicate position (text "  ")).flatten, text "- ", step.stepId, text ": ",
    step.description]

def completedPieces (step : Step printer) : List Text :=
  [text "- [", step.stepId, text "] ", step.description, text "\n  proof: ",
    (step.verificationProof.map (fun proof => proof.take 120)).getD (text "—")]

def plannedPieces (step : Step printer) : List Text :=
  [text "- [", step.stepId, text "] ", step.description]

def acceptance (step : Step printer) : Text :=
  match step.acceptanceCmd with
  | some command => command
  | none => (printer.stringify step.acceptanceCheck).getD (text "—")

def currentPieces (step : Step printer) : List Text :=
  [text "\n## YOU ARE HERE — Step ", step.stepId, text "\nDescription: ", step.description,
    text "\nStarted: ", step.startedAt.getD (text "not started"), text "\nLast action: ",
    lastLine (step.notes.getD []), text "\nStuck on: ", step.blocker.getD (text "—"),
    text "\nAcceptance: ", acceptance step]

/-- A command that is missing or empty is no gate. -/
def gatePieces (step : Step printer) : List Text :=
  match step.acceptanceCmd with
  | none => []
  | some command =>
      if command = [] then []
      else [text "\n## Verification gate\n`", command, text "` must exit 0."]

def number (count : Nat) : Text :=
  text (toString count)

def joinLines (lines : List Text) : Text :=
  (text "\n").intercalate lines

/-- A template literal that ends with lines. -/
def headed (pieces lines : List Text) : Text :=
  template (pieces ++ [joinLines lines])

def ResumeInputs.total (inputs : ResumeInputs printer) : Nat :=
  inputs.completedSteps.length + (if inputs.currentStep.isSome then 1 else 0) +
    inputs.plannedSteps.length

/-- The section of the current step and its gate are there only with such a step. -/
def resumeSections (inputs : ResumeInputs printer) : List Text :=
  let position := inputs.completedSteps.length + 1
  [text "<mneme-resume>",
    template [text "You are paused at STEP ", number position, text " of ", number inputs.total,
      text "."],
    template [text "\n## Original goal (verbatim from session start)\n", inputs.goalText],
    headed [text "\n## Goal stack (root → current leaf)\n"]
      (inputs.goalStack.zipIdx.map (fun placed => template (stackPieces placed.2 placed.1))),
    headed [text "\n## Completed steps (1..", number (position - 1), text ")\n"]
      (inputs.completedSteps.map (fun step => template (completedPieces step)))] ++
  inputs.currentStep.toList.map (fun step => template (currentPieces step)) ++
  [headed [text "\n## Planned steps (", number (position + 1), text "..", number inputs.total,
        text ")\n"]
      (inputs.plannedSteps.map (fun step => template (plannedPieces step))),
    joinSection "Active constraints (must honor)" (inputs.constraints.map Constraint.rule)] ++
  (inputs.currentStep.toList.filter (fun step => gatePieces step ≠ [])).map
    (fun step => template (gatePieces step)) ++
  [text "</mneme-resume>"]

def composeResume (inputs : ResumeInputs printer) : Text :=
  clampToBudget (joinLines (resumeSections inputs)) maxTotalPerTurn

/-! ### Lengths -/

/-- The length of texts of these lengths with a gap between two of them. -/
def joined (gap : Nat) : List Nat → Nat
  | [] => 0
  | first :: rest => first + (rest.map (gap + ·)).sum

def lengthOf (pieces : List Text) : Nat :=
  (pieces.map List.length).sum

/-- The length of a section whose lines have these lengths. -/
def sectionLength (title : String) (lines : List Nat) : Nat :=
  if lines = [] then 0
  else
    (text "## ").length + (text title).length + (text "\n").length +
      joined (text "\n").length (lines.map ((text "- ").length + ·))

def joinedFilled (lengths : List Nat) : Nat :=
  joined (text "\n\n").length (lengths.filter (fun length => length ≠ 0))

def joinedLines (lengths : List Nat) : Nat :=
  joined (text "\n").length lengths

/-- The length of the primer before a cut. -/
def PrimerInputs.length (inputs : PrimerInputs printer) : Nat :=
  joinedFilled
    [(text "<mneme-primer>").length,
      lengthOf [text "Project: ", inputs.cwd],
      lengthOf (goalPieces inputs.goal),
      sectionLength "Top constraints (must honor)"
        ((inputs.constraints.take 3).map (fun constraint => lengthOf (constraintPieces constraint))),
      sectionLength "Open TODOs"
        ((inputs.todos.take 5).map (fun todo => lengthOf (todoPieces todo))),
      sectionLength "Recent decisions"
        ((inputs.decisions.take 3).map (fun decision => lengthOf (decisionPieces decision))),
      sectionLength "Dirty files (uncommitted)" ((inputs.dirtyFiles.take 10).map List.length),
      sectionLength "Critical drift findings"
        ((inputs.redFindings.take 5).map (fun finding => lengthOf (redFindingPieces finding))),
      (text "</mneme-primer>").length]

def SmartInjectInputs.length (inputs : SmartInjectInputs printer) : Nat :=
  joinedFilled
    [(text "<mneme-context>").length,
      if inputs.driftActive then redirect.length else 0,
      sectionLength "Prior decisions relevant to your prompt"
        ((inputs.decisions.take 5).map (fun decision => lengthOf (priorDecisionPieces decision))),
      sectionLength "Related conversation history"
        ((inputs.conversationTurns.take 5).map (fun turn => lengthOf (turnPieces turn))),
      sectionLength "Active constraints"
        ((inputs.constraints.take 6).map (fun constraint =>
          lengthOf (activeConstraintPieces constraint))),
      sectionLength "Open findings in scope"
        ((inputs.findings.take 5).map (fun finding => lengthOf (openFindingPieces finding))),
      (text "</mneme-context>").length]

def ResumeInputs.length (inputs : ResumeInputs printer) : Nat :=
  let position := inputs.completedSteps.length + 1
  joinedLines
    ([(text "<mneme-resume>").length,
      lengthOf [text "You are paused at STEP ", number position, text " of ", number inputs.total,
        text "."],
      lengthOf [text "\n## Original goal (verbatim from session start)\n", inputs.goalText],
      lengthOf [text "\n## Goal stack (root → current leaf)\n"] +
        joinedLines (inputs.goalStack.zipIdx.map (fun placed =>
          lengthOf (stackPieces placed.2 placed.1))),
      lengthOf [text "\n## Completed steps (1..", number (position - 1), text ")\n"] +
        joinedLines (inputs.completedSteps.map (fun step => lengthOf (completedPieces step)))] ++
    inputs.currentStep.toList.map (fun step => lengthOf (currentPieces step)) ++
    [lengthOf [text "\n## Planned steps (", number (position + 1), text "..", number inputs.total,
        text ")\n"] +
        joinedLines (inputs.plannedSteps.map (fun step => lengthOf (plannedPieces step))),
      sectionLength "Active constraints (must honor)"
        (inputs.constraints.map (fun constraint => constraint.rule.length))] ++
    (inputs.currentStep.toList.filter (fun step => gatePieces step ≠ [])).map
      (fun step => lengthOf (gatePieces step)) ++
    [(text "</mneme-resume>").length])

theorem length_template (pieces : List Text) : (template pieces).length = lengthOf pieces :=
  List.length_flatten

theorem length_intercalate (separator : Text) (parts : List Text) :
    (separator.intercalate parts).length = joined separator.length (parts.map List.length) := by
  induction parts with
  | nil => rfl
  | cons first rest ih =>
      cases rest with
      | nil =>
          rw [List.intercalate_singleton]
          exact (Nat.add_zero _).symm
      | cons second rest =>
          rw [List.intercalate_cons_cons, List.length_append, List.length_append, ih]
          change first.length + separator.length +
              (second.length + ((rest.map List.length).map (separator.length + ·)).sum) =
            first.length + ((separator.length + second.length) +
              ((rest.map List.length).map (separator.length + ·)).sum)
          omega

theorem length_joinSection (title : String) (lines : List Text) :
    (joinSection title lines).length = sectionLength title (lines.map List.length) := by
  unfold joinSection sectionLength
  by_cases none : lines = []
  · rw [if_pos none, if_pos (List.map_eq_nil_iff.mpr none)]
    rfl
  · rw [if_neg none, if_neg (fun empty => none (List.map_eq_nil_iff.mp empty))]
    have parts : (lines.map (fun line => template [text "- ", line])).map List.length =
        (lines.map List.length).map ((text "- ").length + ·) := by
      rw [List.map_map, List.map_map]
      exact List.map_congr_left (fun line _ => length_template [text "- ", line])
    rw [length_template, ← parts, ← length_intercalate]
    unfold lengthOf
    simp only [List.map_cons, List.map_nil, List.sum_cons, List.sum_nil]
    omega

theorem length_joinFilled (sections : List Text) :
    (joinFilled sections).length = joinedFilled (sections.map List.length) := by
  unfold joinFilled joinedFilled
  rw [length_intercalate, List.filter_map]
  have same : (fun part : Text => decide (part ≠ [])) =
      (fun length => decide (length ≠ 0)) ∘ List.length := by
    funext part
    simp only [Function.comp_apply, ne_eq, List.length_eq_zero_iff]
  rw [same]

theorem length_joinLines (lines : List Text) :
    (joinLines lines).length = joinedLines (lines.map List.length) :=
  length_intercalate _ lines

theorem map_template {Item : Type} (items : List Item) (pieces : Item → List Text) :
    (items.map (fun item => template (pieces item))).map List.length =
      items.map (fun item => lengthOf (pieces item)) := by
  rw [List.map_map]
  exact List.map_congr_left (fun item _ => length_template (pieces item))

theorem length_primer (inputs : PrimerInputs printer) :
    (joinFilled (primerSections inputs)).length = inputs.length := by
  rw [length_joinFilled]
  simp only [primerSections, List.map_cons, List.map_nil, length_template, length_joinSection,
    map_template]
  rfl

theorem length_smartInject (inputs : SmartInjectInputs printer) :
    (joinFilled (smartInjectSections inputs)).length = inputs.length := by
  rw [length_joinFilled]
  simp only [smartInjectSections, List.map_cons, List.map_nil, length_joinSection, map_template,
    apply_ite List.length, List.length_nil]
  rfl

theorem lengthOf_append (front back : List Text) :
    lengthOf (front ++ back) = lengthOf front + lengthOf back := by
  unfold lengthOf
  rw [List.map_append, List.sum_append]

theorem length_headed (pieces lines : List Text) :
    (headed pieces lines).length = lengthOf pieces + joinedLines (lines.map List.length) := by
  unfold headed
  rw [length_template, lengthOf_append, ← length_joinLines]
  exact congrArg (lengthOf pieces + ·) (Nat.add_zero _)

theorem length_resume (inputs : ResumeInputs printer) :
    (joinLines (resumeSections inputs)).length = inputs.length := by
  rw [length_joinLines]
  unfold resumeSections
  simp only [List.map_append, List.map_cons, List.map_nil, length_template, length_headed,
    length_joinSection, map_template]
  rw [List.map_map]
  rfl

/-! ### Bundles within their budget -/

/-- The estimate is at most the budget, and both tags are at their ends. -/
def KeepsBudget (opening closing : Text) (tokenBudget : Nat) (bundle : Text) : Prop :=
  estimateTokens bundle ≤ tokenBudget ∧ opening <+: bundle ∧ closing <:+ bundle

theorem estimateTokens_le_iff (bundle : Text) (tokenBudget : Nat) :
    estimateTokens bundle ≤ tokenBudget ↔ bundle.length ≤ tokenBudget * charsPerToken := by
  unfold estimateTokens charsPerToken
  omega

/-- The notice comes on top of a text that has the whole budget already. -/
theorem clampToBudget_exceeds {whole : Text} {tokenBudget : Nat}
    (long : tokenBudget * charsPerToken < whole.length) :
    tokenBudget < estimateTokens (clampToBudget whole tokenBudget) := by
  have notice : 0 < (text " tokens)").length := by decide
  have cut : tokenBudget * charsPerToken < (clampToBudget whole tokenBudget).length := by
    unfold clampToBudget
    rw [if_neg (Nat.not_le.mpr long), List.length_append, List.length_append, List.length_append,
      List.length_take, Nat.min_eq_left long.le]
    omega
  have above := mt (estimateTokens_le_iff _ _).mp (Nat.not_le.mpr cut)
  exact Nat.not_le.mp above

theorem clampToBudget_keeps_iff {opening closing whole : Text} {tokenBudget : Nat}
    (begins : opening <+: whole) (ends : closing <:+ whole) :
    KeepsBudget opening closing tokenBudget (clampToBudget whole tokenBudget) ↔
      whole.length ≤ tokenBudget * charsPerToken := by
  constructor
  · intro kept
    by_contra long
    exact absurd kept.1 (Nat.not_le.mpr (clampToBudget_exceeds (Nat.not_le.mp long)))
  · intro short
    have uncut : clampToBudget whole tokenBudget = whole := if_pos short
    rw [uncut]
    exact ⟨(estimateTokens_le_iff whole tokenBudget).mpr short, begins, ends⟩

theorem prefix_intercalate (separator first : Text) (rest : List Text) :
    first <+: separator.intercalate (first :: rest) := by
  cases rest with
  | nil => simp
  | cons second rest =>
      rw [List.intercalate_cons_cons, List.append_assoc]
      exact List.prefix_append _ _

theorem suffix_intercalate (separator : Text) (front : List Text) (last : Text) :
    last <:+ separator.intercalate (front ++ [last]) := by
  induction front with
  | nil => simp
  | cons first front ih =>
      have more : front ++ [last] ≠ [] := by simp
      rw [List.cons_append, List.intercalate_cons_of_ne_nil more]
      exact ih.trans (List.suffix_append _ _)

theorem joinFilled_ends (opening closing : Text) (opens : opening ≠ []) (closes : closing ≠ [])
    (middle : List Text) :
    opening <+: joinFilled (opening :: (middle ++ [closing])) ∧
      closing <:+ joinFilled (opening :: (middle ++ [closing])) := by
  have filled : (opening :: (middle ++ [closing])).filter (fun part => part ≠ []) =
      (opening :: middle.filter (fun part => part ≠ [])) ++ [closing] := by
    rw [List.filter_cons_of_pos (by simpa using opens), List.filter_append,
      List.filter_cons_of_pos (by simpa using closes), List.filter_nil, List.cons_append]
  unfold joinFilled
  rw [filled]
  exact ⟨prefix_intercalate _ _ _, suffix_intercalate _ _ _⟩

theorem composePrimer_keeps_iff (inputs : PrimerInputs printer) :
    KeepsBudget (text "<mneme-primer>") (text "</mneme-primer>") primerBudget
        (composePrimer inputs) ↔ inputs.length ≤ primerBudget * charsPerToken := by
  have ends := joinFilled_ends (text "<mneme-primer>") (text "</mneme-primer>") (by decide)
    (by decide) (primerSections inputs).tail.dropLast
  rw [← length_primer]
  exact clampToBudget_keeps_iff ends.1 ends.2

theorem composeSmartInject_keeps_iff (inputs : SmartInjectInputs printer) :
    KeepsBudget (text "<mneme-context>") (text "</mneme-context>") smartInjectBudget
        (composeSmartInject inputs) ↔ inputs.length ≤ smartInjectBudget * charsPerToken := by
  have ends := joinFilled_ends (text "<mneme-context>") (text "</mneme-context>") (by decide)
    (by decide) (smartInjectSections inputs).tail.dropLast
  rw [← length_smartInject]
  exact clampToBudget_keeps_iff ends.1 ends.2

theorem composeResume_keeps_iff (inputs : ResumeInputs printer) :
    KeepsBudget (text "<mneme-resume>") (text "</mneme-resume>") maxTotalPerTurn
        (composeResume inputs) ↔ inputs.length ≤ maxTotalPerTurn * charsPerToken := by
  rw [← length_resume]
  exact clampToBudget_keeps_iff (prefix_intercalate _ _ _) (suffix_intercalate _ _ _)

/-- A bundle keeps its budget and both its tags exactly if what goes into it is short enough
to need no cut. -/
theorem bundles_keep_iff :
    (∀ inputs : PrimerInputs printer,
      KeepsBudget (text "<mneme-primer>") (text "</mneme-primer>") primerBudget
        (composePrimer inputs) ↔ inputs.length ≤ primerBudget * charsPerToken) ∧
    (∀ inputs : SmartInjectInputs printer,
      KeepsBudget (text "<mneme-context>") (text "</mneme-context>") smartInjectBudget
        (composeSmartInject inputs) ↔ inputs.length ≤ smartInjectBudget * charsPerToken) ∧
    (∀ inputs : ResumeInputs printer,
      KeepsBudget (text "<mneme-resume>") (text "</mneme-resume>") maxTotalPerTurn
        (composeResume inputs) ↔ inputs.length ≤ maxTotalPerTurn * charsPerToken) :=
  ⟨composePrimer_keeps_iff, composeSmartInject_keeps_iff, composeResume_keeps_iff⟩

/-- Numbers in decimals, and no other values. -/
def decimals : Printer :=
  { Number := Nat
    number := number
    Value := Empty
    stringify := Empty.elim }

/-- A primer with a goal of 6000 letters and nothing else. -/
def longGoal : PrimerInputs decimals :=
  { cwd := text "/app"
    goal := some (List.replicate 6000 0x78)
    decisions := []
    constraints := []
    todos := []
    dirtyFiles := []
    redFindings := [] }

theorem longGoal_exceeds : ¬ KeepsBudget (text "<mneme-primer>") (text "</mneme-primer>")
    primerBudget (composePrimer longGoal) := by
  rw [composePrimer_keeps_iff]
  have goal : lengthOf (goalPieces longGoal.goal) = 6016 := by
    decide +kernel
  unfold PrimerInputs.length
  rw [goal]
  decide +kernel

end Mneme.Mcp.Composer
