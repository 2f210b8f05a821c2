/-
The convention learner: what it counts in the files it observes and what it
infers from the counts.

The mapping to lower case, the digest of a pattern and the quotient of two counts
as f32 are inputs; no quotient that is used is NaN.  Counters are of 32 bits and
wrap.
-/

import Mathlib.Algebra.Order.Ring.Rat
import Mathlib.Data.String.Basic
import Mneme.Brain.Identity
import Mneme.Library.Occurrences

namespace Mneme.Brain.Conventions

open Common Common.Skills Identity Library

inductive NamingScope where
  | function
  | type
  | constant
  | module
  | variable
deriving DecidableEq

inductive NamingStyle where
  | camelCase
  | snakeCase
  | pascalCase
  | screamingSnake
  | kebabCase
  | mixed
deriving DecidableEq

/-- The derived order. -/
def NamingStyle.rank : NamingStyle → Nat
  | .camelCase => 0
  | .snakeCase => 1
  | .pascalCase => 2
  | .screamingSnake => 3
  | .kebabCase => 4
  | .mixed => 5

theorem NamingStyle.rank_injective : Function.Injective NamingStyle.rank := by
  intro left right same
  cases left <;> cases right <;> first | rfl | cases same

instance : LinearOrder NamingStyle := LinearOrder.lift' NamingStyle.rank NamingStyle.rank_injective

inductive ConventionPattern where
  | naming (scope : NamingScope) (style : NamingStyle)
  | importOrder (order : List String)
  | errorHandling (pattern : String)
  | testLayout (colocated : Bool) (naming : String)
  | dependency (prefers : String) (avoids : List String)
  | componentShape (prefers : String)
deriving DecidableEq

structure Convention (Confidence : Type) where
  id : String
  pattern : ConventionPattern
  confidence : Confidence
  evidenceCount : UInt32
  exceptions : List String
deriving DecidableEq

structure DefaultLearner where
  filesSeen : UInt32 := 0
  naming : NamingScope → List (NamingStyle × UInt32) := fun _ => []
  colocatedTests : UInt32 := 0
  separateTests : UInt32 := 0
  testNameCounts : List (String × UInt32) := []
  componentFunctional : UInt32 := 0
  componentClass : UInt32 := 0
  exportNamed : UInt32 := 0
  exportDefault : UInt32 := 0
  importOrderSamples : List (List String) := []
  errorResultCount : UInt32 := 0
  errorThrowCount : UInt32 := 0
  errorTryCount : UInt32 := 0

/-! ### Names -/

def isIdentChar (char : Char) : Bool :=
  isAsciiAlphanumeric char || char = '_'

def isAsciiUppercase (char : Char) : Bool :=
  'A' ≤ char && char ≤ 'Z'

def isAsciiLowercase (char : Char) : Bool :=
  'a' ≤ char && char ≤ 'z'

def isValidIdent (name : Chars) : Bool :=
  (name.head?.any (fun first => isAsciiUppercase first || isAsciiLowercase first || first = '_')) &&
    name.all isIdentChar

def classifyName (name : Chars) : NamingStyle :=
  let hasUpper := name.any isAsciiUppercase
  let hasLower := name.any isAsciiLowercase
  let hasUnderscore := name.contains '_'
  let hasHyphen := name.contains '-'
  let firstUpper := name.head?.any isAsciiUppercase
  if name = [] then .mixed
  else if hasHyphen && !hasUnderscore then .kebabCase
  else if hasUnderscore && !hasLower then .screamingSnake
  else if hasUnderscore && hasLower && !hasUpper then .snakeCase
  else if hasUnderscore && hasUpper && hasLower then .mixed
  else if firstUpper && hasLower then .pascalCase
  else if !firstUpper && hasUpper then .camelCase
  else if !hasUpper then .snakeCase
  else .mixed

/-- What may stand before a marker. -/
def startsDeclaration (char : Char) : Bool :=
  isWhitespace char || char = ';' || char = '{' || char = '}' || char = '('

/-- The identifiers behind a marker; the fuel is the length of the text. -/
def collectAfterWith (marker : Chars) : Nat → Chars → List Chars
  | 0, _ => []
  | fuel + 1, text =>
      match cutAt marker text with
      | none => []
      | some cut =>
          let name := cut.2.takeWhile isIdentChar
          (if cut.1.getLast?.all startsDeclaration && isValidIdent name then [name] else []) ++
            collectAfterWith marker fuel cut.2

def collectAfter (text : Chars) (marker : String) : List Chars :=
  collectAfterWith marker.toList text.length text

/-- The rest of a line behind a prefix. -/
def stripFront (front line : Chars) : Option Chars :=
  if front.isPrefixOf line then some (line.drop front.length) else none

/-- `const name = tail`: the name without its type, and the tail. -/
def constLine (line : Chars) : Option (Chars × Chars) :=
  (stripFront "const ".toList (line.dropWhile isWhitespace)).bind (fun rest =>
    (cutAt ['='] rest).map (fun cut =>
      (trimBoth isWhitespace ((trimBoth isWhitespace cut.1).takeWhile (fun char => char ≠ ':')),
        cut.2)))

def scriptExtensions : List String := ["ts", "tsx", "js", "jsx"]

def extractFunctionNames (ext : String) (source : Chars) : List Chars :=
  if ext = "rs" then collectAfter source "fn "
  else if ext = "py" then collectAfter source "def "
  else if ext = "go" then collectAfter source "func "
  else if ext ∈ scriptExtensions then
    collectAfter source "function " ++
      ((lines source).filterMap constLine).filterMap (fun declared =>
        if contains declared.2 "=>".toList && isValidIdent declared.1 then some declared.1 else none)
  else []

def extractTypeNames (ext : String) (source : Chars) : List Chars :=
  if ext = "rs" then
    collectAfter source "struct " ++ collectAfter source "enum " ++ collectAfter source "trait "
  else if ext = "ts" ∨ ext = "tsx" then
    collectAfter source "interface " ++ collectAfter source "type " ++ collectAfter source "class "
  else if ext = "py" ∨ ext = "js" ∨ ext = "jsx" then collectAfter source "class "
  else if ext = "go" then collectAfter source "type "
  else []

def extractConstantNames (ext : String) (source : Chars) : List Chars :=
  if ext = "rs" then collectAfter source "const "
  else if ext ∈ scriptExtensions then
    ((lines source).filterMap constLine).filterMap (fun declared =>
      if isValidIdent declared.1 && declared.1.head?.any isAsciiUppercase then some declared.1
      else none)
  else []

/-- The names that are observed in a scope. -/
def namesOf (ext : String) (source : Chars) : NamingScope → List Chars
  | .function => extractFunctionNames ext source
  | .type => extractTypeNames ext source
  | .constant => extractConstantNames ext source
  | .module => []
  | .variable => []

/-- The styles that `observe_naming` counts in a scope. -/
def observeNaming (ext : String) (source : Chars) (scope : NamingScope) : List NamingStyle :=
  (namesOf ext source scope).map classifyName

/-! ### Tests, imports and probes -/

def endsWith (text : Chars) (back : String) : Bool :=
  back.toList.isSuffixOf text

def startsWith (text : Chars) (front : String) : Bool :=
  front.toList.isPrefixOf text

def mentions (text : Chars) (part : String) : Bool :=
  contains text part.toList

def isTestFile (filename : Chars) : Bool :=
  mentions filename ".test." || mentions filename ".spec." || endsWith filename "_test.rs" ||
    endsWith filename "_test.go" || endsWith filename "_test.py" || startsWith filename "test_"

def inTestsDir (path : Chars) : Bool :=
  mentions path "/tests/" || mentions path "\\tests\\" || mentions path "/test/" ||
    mentions path "\\test\\"

def classifyTestFilename (name : Chars) : String :=
  if mentions name ".test." then "*.test.*"
  else if mentions name ".spec." then "*.spec.*"
  else if endsWith name "_test.rs" || endsWith name "_test.go" || endsWith name "_test.py" then
    "*_test.*"
  else if startsWith name "test_" then "test_*"
  else "other"

def isQuote (char : Char) : Bool :=
  char = '"' || char = '\''

def classifyImportGroup (line : Chars) : String :=
  match line.dropWhile (fun char => !isQuote char) with
  | [] => "unknown"
  | _ :: rest =>
      let spec := rest.takeWhile (fun char => !isQuote char)
      if spec.head? = some '.' then "relative"
      else if spec.head? = some '@' then "scoped"
      else if spec.contains '/' then "package-sub"
      else "external"

/-- The loop over the first lines, with the groups in the order they came in. -/
def importLoop (order : List String) : List Chars → List String
  | [] => order
  | line :: rest =>
      let line := line.dropWhile isWhitespace
      if line = [] || startsWith line "//" || startsWith line "/*" then importLoop order rest
      else if !(startsWith line "import " || startsWith line "from ") then
        if order = [] then importLoop order rest else order
      else
        let group := classifyImportGroup line
        importLoop (if group ∈ order then order else order ++ [group]) rest

def classifyImportOrder (source : Chars) : List String :=
  importLoop [] ((lines source).take 60)

/-- A text, or one of the alternatives between the parentheses of a needle. -/
def regexSimple (text : Chars) (needle : String) : Bool :=
  match cutAt ['('] needle.toList, cutAt [')'] needle.toList with
  | some opening, some closing =>
      let alternatives := (closing.1.drop (opening.1.length + 1)).splitOn '|'
      alternatives.any (fun alternative => contains text (opening.1 ++ alternative ++ closing.2))
  | _, _ => contains text needle.toList

/-! ### Observing -/

/-- One more when a test passes. -/
def count (passed : Bool) : UInt32 :=
  if passed then 1 else 0

/-- What one file adds to the counters. -/
structure Observation where
  styles : NamingScope → List NamingStyle
  colocatedTests : UInt32
  separateTests : UInt32
  testNames : List String
  componentFunctional : UInt32
  componentClass : UInt32
  exportNamed : UInt32
  exportDefault : UInt32
  importOrders : List (List String)
  errorResults : UInt32
  errorThrows : UInt32
  errorTries : UInt32

def observation (lower : Chars → Chars) (path : Path) (source : Chars) : Observation :=
  let ext := toAsciiLowercase ((extension path).getD "")
  let filename := ((fileName path).getD "").toList
  let isTest := isTestFile filename
  let inTests := inTestsDir (lower path.toList)
  let isScript := scriptExtensions.contains ext
  let order := classifyImportOrder source
  { styles := observeNaming ext source
    colocatedTests := count (isTest && !inTests)
    separateTests := count (isTest && inTests)
    testNames := if isTest then [classifyTestFilename filename] else []
    componentFunctional := count (isScript &&
      ((mentions source "=> \x7b" || mentions source "function ") && mentions source "</"))
    componentClass := count (isScript &&
      (mentions source "class " && mentions source "extends React.Component"))
    exportNamed := count (isScript && regexSimple source "export (function|const|class) ")
    exportDefault := count (isScript && mentions source "export default ")
    importOrders := if isScript && order ≠ [] then [order] else []
    errorResults := count (ext = "rs" && regexSimple source "-> Result<") +
      count (ext = "rs" && (mentions source "anyhow!" || mentions source "thiserror"))
    errorThrows := count (isScript && mentions source "throw new ")
    errorTries := count (isScript && mentions source "try \x7b") }

def DefaultLearner.add (learner : DefaultLearner) (seen : Observation) : DefaultLearner :=
  { filesSeen := learner.filesSeen + 1
    naming := fun scope => bumpAll (seen.styles scope) (learner.naming scope)
    colocatedTests := learner.colocatedTests + seen.colocatedTests
    separateTests := learner.separateTests + seen.separateTests
    testNameCounts := bumpAll seen.testNames learner.testNameCounts
    componentFunctional := learner.componentFunctional + seen.componentFunctional
    componentClass := learner.componentClass + seen.componentClass
    exportNamed := learner.exportNamed + seen.exportNamed
    exportDefault := learner.exportDefault + seen.exportDefault
    importOrderSamples := learner.importOrderSamples ++ seen.importOrders
    errorResultCount := learner.errorResultCount + seen.errorResults
    errorThrowCount := learner.errorThrowCount + seen.errorThrows
    errorTryCount := learner.errorTryCount + seen.errorTries }

/-- `DefaultLearner::observe_file` -/
def observeFile (lower : Chars → Chars) (learner : DefaultLearner) (path : Path) (source : Chars) :
    DefaultLearner :=
  learner.add (observation lower path source)

/-- The learner after some files. -/
def observeAll (lower : Chars → Chars) (files : List (Path × Chars)) : DefaultLearner :=
  files.foldl (fun learner file => observeFile lower learner file.1 file.2) {}

/-! ### Inferring -/

/-- How confidence is told: the quotient of two counts, and 0.80. -/
structure Judgement (Confidence : Type) where
  ratio : UInt32 → UInt32 → Confidence
  strong : Confidence
  /-- `Convention::deterministic_id` -/
  idOf : ConventionPattern → String

section Inferring

variable {Confidence : Type} [LinearOrder Confidence] (judgement : Judgement Confidence)

def Judgement.emit (pattern : ConventionPattern) (confidence : Confidence) (evidence : UInt32) :
    List (Convention Confidence) :=
  if judgement.strong ≤ confidence then
    [{ id := judgement.idOf pattern, pattern, confidence, evidenceCount := evidence, exceptions := [] }]
  else []

def sum (counts : List UInt32) : UInt32 :=
  counts.foldl (fun total count => total + count) 0

def namingConvention (learner : DefaultLearner) (scope : NamingScope) :
    List (Convention Confidence) :=
  let counts := learner.naming scope
  let total := sum (counts.map Prod.snd)
  if total < 3 then []
  else
    match maxByCount counts with
    | none => []
    | some most =>
        judgement.emit (.naming scope most.1) (judgement.ratio most.2 total) total

/-- The larger of two counts, the first one when they are equal. -/
def preference (first second : UInt32) (patternOf : Bool → ConventionPattern) :
    List (Convention Confidence) :=
  let total := first + second
  if total < 3 then []
  else
    let prefersFirst := decide (second ≤ first)
    let most := if prefersFirst then first else second
    judgement.emit (patternOf prefersFirst) (judgement.ratio most total) total

def testLayout (learner : DefaultLearner) : List (Convention Confidence) :=
  preference judgement learner.colocatedTests learner.separateTests (fun colocated =>
    .testLayout colocated (((maxByCount learner.testNameCounts).map Prod.fst).getD "*.test.*"))

def exportShape (learner : DefaultLearner) : List (Convention Confidence) :=
  preference judgement learner.exportNamed learner.exportDefault (fun prefersNamed =>
    .componentShape (if prefersNamed then "named exports" else "default exports"))

def componentShape (learner : DefaultLearner) : List (Convention Confidence) :=
  preference judgement learner.componentFunctional learner.componentClass (fun functional =>
    .componentShape (if functional then "functional components" else "class components"))

def importConvention (samples : List (List String)) : List (Convention Confidence) :=
  if samples.length < 3 then []
  else
    let total := UInt32.ofNat samples.length
    match maxByCount (bumpAll samples []) with
    | none => []
    | some most => judgement.emit (.importOrder most.1) (judgement.ratio most.2 total) total

def errorConvention (learner : DefaultLearner) : List (Convention Confidence) :=
  let total := learner.errorResultCount + learner.errorThrowCount + learner.errorTryCount
  if 3 ≤ total ∧
      judgement.strong ≤ judgement.ratio learner.errorResultCount (max total 1) then
    let pattern := ConventionPattern.errorHandling "Result<T, E> with thiserror"
    [{ id := judgement.idOf pattern
       pattern
       confidence := judgement.ratio learner.errorResultCount total
       evidenceCount := total
       exceptions := [] }]
  else []

/-- The higher confidence first, ties by id. -/
def strongerFirst (left right : Convention Confidence) : Prop :=
  right.confidence < left.confidence ∨ right.confidence = left.confidence ∧ left.id ≤ right.id

instance : DecidableRel (@strongerFirst Confidence _) := fun left right =>
  inferInstanceAs (Decidable (right.confidence < left.confidence ∨
    right.confidence = left.confidence ∧ left.id ≤ right.id))

/-- `DefaultLearner::infer_conventions` -/
def inferConventions (learner : DefaultLearner) : List (Convention Confidence) :=
  ([NamingScope.function, .type, .constant, .module, .variable].flatMap
      (namingConvention judgement learner) ++
    testLayout judgement learner ++ exportShape judgement learner ++
    componentShape judgement learner ++
    importConvention judgement learner.importOrderSamples ++
    errorConvention judgement learner).insertionSort strongerFirst

end Inferring

/-! ### The order of observation -/

/-- Without the samples of import orders. -/
def DefaultLearner.counters (learner : DefaultLearner) : DefaultLearner :=
  { learner with importOrderSamples := [] }

/-- The same counts, and the same samples in some order. -/
structure Alike (left right : DefaultLearner) : Prop where
  counters : left.counters = right.counters
  samples : left.importOrderSamples.Perm right.importOrderSamples

section Order

variable {left right : DefaultLearner}

theorem Alike.add (alike : Alike left right) (seen : Observation) :
    Alike (left.add seen) (right.add seen) := by
  constructor
  · have byCounters : ∀ learner : DefaultLearner,
        (learner.add seen).counters = (learner.counters.add seen).counters := fun _ => rfl
    rw [byCounters left, byCounters right, alike.counters]
  · exact alike.samples.append_right _

theorem Alike.trans {first second third : DefaultLearner} (left : Alike first second)
    (right : Alike second third) : Alike first third :=
  ⟨left.counters.trans right.counters, left.samples.trans right.samples⟩

theorem add_swap (first second third : UInt32) : first + second + third = first + third + second := by
  rw [UInt32.add_assoc, UInt32.add_comm second third, ← UInt32.add_assoc]

/-- What two files add can be added in either order. -/
theorem DefaultLearner.add_comm (learner : DefaultLearner) (first second : Observation) :
    Alike ((learner.add first).add second) ((learner.add second).add first) := by
  constructor
  · unfold DefaultLearner.counters DefaultLearner.add
    dsimp only
    congr 1
    · funext scope
      exact bumpAll_comm _ _ _
    · exact add_swap _ _ _
    · exact add_swap _ _ _
    · exact bumpAll_comm _ _ _
    · exact add_swap _ _ _
    · exact add_swap _ _ _
    · exact add_swap _ _ _
    · exact add_swap _ _ _
    · exact add_swap _ _ _
    · exact add_swap _ _ _
    · exact add_swap _ _ _
  · change (learner.importOrderSamples ++ first.importOrders ++ second.importOrders).Perm
      (learner.importOrderSamples ++ second.importOrders ++ first.importOrders)
    rw [List.append_assoc, List.append_assoc]
    exact List.perm_append_comm.append_left _

theorem alike_foldl (lower : Chars → Chars) (files : List (Path × Chars))
    (alike : Alike left right) :
    Alike (files.foldl (fun learner file => observeFile lower learner file.1 file.2) left)
      (files.foldl (fun learner file => observeFile lower learner file.1 file.2) right) := by
  induction files generalizing left right with
  | nil => exact alike
  | cons file rest ih => exact ih (alike.add _)

/-- Whatever order some files are observed in, the learners are alike. -/
theorem alike_of_perm (lower : Chars → Chars) {files others : List (Path × Chars)}
    (same : files.Perm others) (learner : DefaultLearner) :
    Alike (files.foldl (fun learner file => observeFile lower learner file.1 file.2) learner)
      (others.foldl (fun learner file => observeFile lower learner file.1 file.2) learner) := by
  induction same generalizing learner with
  | nil => exact ⟨rfl, List.Perm.refl _⟩
  | cons file _ ih => exact ih _
  | swap file other rest => exact alike_foldl lower rest (learner.add_comm _ _)
  | trans _ _ ihFirst ihSecond => exact (ihFirst learner).trans (ihSecond learner)

variable {Confidence : Type} [LinearOrder Confidence] (judgement : Judgement Confidence)

theorem importConvention_perm {samples others : List (List String)} (same : samples.Perm others) :
    importConvention judgement samples = importConvention judgement others := by
  unfold importConvention
  rw [same.length_eq, bumpAll_perm same]

/-- Learners that are alike infer the same. -/
theorem inferConventions_alike (alike : Alike left right) :
    inferConventions judgement left = inferConventions judgement right := by
  have byCounters : ∀ learner : DefaultLearner, inferConventions judgement learner =
      ([NamingScope.function, .type, .constant, .module, .variable].flatMap
          (namingConvention judgement learner.counters) ++
        testLayout judgement learner.counters ++ exportShape judgement learner.counters ++
        componentShape judgement learner.counters ++
        importConvention judgement learner.importOrderSamples ++
        errorConvention judgement learner.counters).insertionSort strongerFirst := fun _ => rfl
  rw [byCounters left, byCounters right, alike.counters, importConvention_perm judgement alike.samples]

/-- What is inferred does not depend on the order of observation. -/
theorem inferConventions_perm (lower : Chars → Chars) {files others : List (Path × Chars)}
    (same : files.Perm others) :
    inferConventions judgement (observeAll lower files) =
      inferConventions judgement (observeAll lower others) :=
  inferConventions_alike judgement (alike_of_perm lower same {})

end Order

/-! ### Two files -/

/-- Quotients as rationals; a pattern is told by its kind alone. -/
def exactJudgement : Judgement Rat :=
  { ratio := fun part whole => part.toNat / whole.toNat
    strong := 4 / 5
    idOf := fun pattern =>
      match pattern with
      | .naming _ _ => "naming"
      | .importOrder _ => "import_order"
      | .errorHandling _ => "error_handling"
      | .testLayout _ _ => "test_layout"
      | .dependency _ _ => "dependency"
      | .componentShape _ => "component_shape" }

/-- The mapping to lower case, on ASCII. -/
def lowerAscii (text : Chars) : Chars := text.map Char.toLower

/-- Three functions in snake case, and a test. -/
def sources : List (Path × Chars) :=
  [("src/a.rs", "fn read_file() fn write_file()".toList), ("src/b_test.rs", "fn it_reads()".toList)]

theorem inferConventions_perm_sources :
    inferConventions exactJudgement (observeAll lowerAscii sources) =
      inferConventions exactJudgement (observeAll lowerAscii sources.reverse) :=
  inferConventions_perm exactJudgement lowerAscii (List.reverse_perm sources).symm

example : (inferConventions exactJudgement (observeAll lowerAscii sources)).map
    Convention.pattern = [.naming .function .snakeCase] := by decide +kernel

end Mneme.Brain.Conventions
