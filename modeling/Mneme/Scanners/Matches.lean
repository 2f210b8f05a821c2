/-
Scanners made of regular expressions: what a match is, what is reported of it,
and the scanners that take no slice of the text.

The engine is taken as it is: an expression is known by the matches that it
finds in each text.  A match begins and ends between characters, and a group
that is no alternative and no option is there in each.
-/

import Mneme.Common.Skills
import Mneme.Scanners.Positions

namespace Mneme.Scanners

open Common Library

/-! ### Matches -/

structure Match (content : List Char) where
  before : List Char
  matched : List Char
  after : List Char
  whole : content = before ++ (matched ++ after)

namespace Match

variable {content : List Char}

def start (place : Match content) : Nat :=
  (utf8 place.before).length

def width (place : Match content) : Nat :=
  (utf8 place.matched).length

def stop (place : Match content) : Nat :=
  place.start + place.width

def text (place : Match content) : String :=
  String.ofList place.matched

end Match

structure Pattern where
  findIter : (content : List Char) → List (Match content)

def Pattern.isMatch (pattern : Pattern) (content : List Char) : Bool :=
  !(pattern.findIter content).isEmpty

/-- The part of a text that an expression found, and its first group. -/
structure Captures (content : List Char) where
  full : Match content
  group : Match content

/-- An expression with a group that every match has. -/
structure GroupPattern where
  capturesIter : (content : List Char) → List (Captures content)

/-! ### Findings -/

def Rule.finding (rule : Rule) (file : String) (content : List Char) (offset width : Nat) :
    Finding :=
  let position := lineColOf (utf8 content) offset
  let finding := Finding.newLine rule.ruleId rule.severity file position.1 position.2
    (position.2 + UInt32.ofNat width) rule.message
  match rule.suggestion with
  | some suggestion => finding.withFix suggestion
  | none => finding

def Match.finding {content : List Char} (place : Match content) (file : String) (rule : Rule) :
    Finding :=
  rule.finding file content place.start place.width

/-- One finding for every match. -/
def Pattern.report (pattern : Pattern) (file : String) (content : List Char) (rule : Rule) :
    List Finding :=
  (pattern.findIter content).map (fun place => place.finding file rule)

/-! ### Files -/

def eqIgnoreAsciiCase (first second : String) : Bool :=
  toAsciiLowercase first = toAsciiLowercase second

def hasExtension (extensions : List String) (file : Path) : Bool :=
  match extension file with
  | none => false
  | some ext => extensions.any (fun known => eqIgnoreAsciiCase known ext)

/-- A scanner.  A scan without a result is one that panics. -/
structure Scanner where
  name : String
  appliesTo : Path → Bool
  scan : Path → List Char → Option (List Finding)

def trimmed (text : List Char) : List Char :=
  Skills.trimBoth isWhitespace text

/-! ### The discipline of types -/

structure TypesPatterns where
  anyAnnotation : Pattern
  asAny : Pattern
  nonNullAssertion : Pattern
  defaultExport : Pattern
  funcParams : GroupPattern
  isAlphabetic : Char → Bool

/-- A parameter that has to have a type and has none. -/
def untyped (isAlphabetic : Char → Bool) (param : List Char) : Bool :=
  let name := trimmed param
  !(name.isEmpty || "...".toList.isPrefixOf name || "_".toList.isPrefixOf name || ':' ∈ name ||
      "\x7b".toList.isPrefixOf name || "[".toList.isPrefixOf name) &&
    name.head?.any (fun first => isAlphabetic first || first = '$' || first = '_')

/-- At most one finding for a list of parameters. -/
def untypedParam (patterns : TypesPatterns) (file : String) (content : List Char) :
    List Finding :=
  (patterns.funcParams.capturesIter content).flatMap (fun captures =>
    if (trimmed captures.group.matched).isEmpty then []
    else
      match (captures.group.matched.splitOn ',').find? (untyped patterns.isAlphabetic) with
      | none => []
      | some param =>
          [captures.group.finding file
            { ruleId := "ts.untyped-param"
              severity := .warning
              message := s!"Untyped function parameter '{String.ofList (trimmed param)}' — " ++
                "add an explicit type."
              suggestion := none }])

def tsTypesScanner (patterns : TypesPatterns) : Scanner :=
  { name := "types_ts"
    appliesTo := hasExtension ["ts", "tsx", "mts", "cts"]
    scan := fun file content => some (
      patterns.anyAnnotation.report file content
        { ruleId := "ts.any-annotation"
          severity := .error
          message := "`: any` is forbidden — use `unknown` and narrow with type guards."
          suggestion := some ": unknown" } ++
      patterns.asAny.report file content
        { ruleId := "ts.as-any"
          severity := .error
          message := "`as any` is forbidden — narrow with a type predicate or refine the " ++
            "source type."
          suggestion := some "as unknown" } ++
      patterns.nonNullAssertion.report file content
        { ruleId := "ts.non-null-assertion"
          severity := .warning
          message := "Non-null assertion `!` — replace with explicit null check."
          suggestion := none } ++
      patterns.defaultExport.report file content
        { ruleId := "ts.default-export"
          severity := .error
          message := "Default exports are forbidden — use a named export."
          suggestion := none } ++
      untypedParam patterns file content) }

/-! ### Declared constraints -/

inductive ConstraintKind where
  | forbidden
  | required
deriving DecidableEq

/-- A constraint whose pattern compiled. -/
structure CompiledConstraint where
  rule : Rule
  fileExts : List String
  pattern : Pattern
  kind : ConstraintKind

def appliesToConstraint (constraint : CompiledConstraint) (file : Path) : Bool :=
  constraint.fileExts.isEmpty || hasExtension constraint.fileExts file

def CompiledConstraint.check (constraint : CompiledConstraint) (file : Path)
    (content : List Char) : List Finding :=
  if appliesToConstraint constraint file then
    match constraint.kind with
    | .forbidden => constraint.pattern.report file content constraint.rule
    | .required =>
        if constraint.pattern.isMatch content then []
        else
          [Finding.newLine constraint.rule.ruleId constraint.rule.severity file 1 0 0
            constraint.rule.message]
  else []

def driftScanner (constraints : List CompiledConstraint) : Scanner :=
  { name := "drift"
    appliesTo := fun file => constraints.any (fun constraint => appliesToConstraint constraint file)
    scan := fun file content =>
      some (constraints.flatMap (fun constraint => constraint.check file content)) }

/-! ### Channels -/

structure IpcPatterns where
  mainChannel : GroupPattern
  rendererChannel : GroupPattern
  contextBridge : Pattern
  objectKey : GroupPattern

/-- The first groups of all matches. -/
def GroupPattern.groups (pattern : GroupPattern) (content : List Char) : List (List Char) :=
  (pattern.capturesIter content).map (fun captures => captures.group.matched)

def unknownChannels (patterns : IpcPatterns) (declared : List (List Char)) (file : String)
    (content : List Char) : List Finding :=
  let bridgeKeys :=
    if patterns.contextBridge.isMatch content then patterns.objectKey.groups content else []
  (patterns.rendererChannel.capturesIter content).flatMap (fun captures =>
    if captures.group.matched ∈ bridgeKeys ∨ declared = [] ∨ captures.group.matched ∈ declared then
      []
    else
      [Rule.finding
        { ruleId := "ipc.unknown-channel"
          severity := .error
          message := s!"IPC channel '{captures.group.text}' invoked from renderer is not " ++
            "declared in preload bridge or types file."
          suggestion := none }
        file content captures.full.start captures.group.width])

def undeclaredHandlers (patterns : IpcPatterns) (declared : List (List Char)) (file : String)
    (content : List Char) : List Finding :=
  if declared = [] then []
  else
    (patterns.mainChannel.capturesIter content).flatMap (fun captures =>
      if captures.group.matched ∈ declared then []
      else
        [captures.full.finding file
          { ruleId := "ipc.handler-not-in-types"
            severity := .warning
            message := s!"ipcMain handler '{captures.group.text}' is not declared in the " ++
              "shared IPC types file."
            suggestion := none }])

def ipcContractsScanner (patterns : IpcPatterns) (declared : List (List Char)) : Scanner :=
  { name := "ipc"
    appliesTo := hasExtension ["ts", "tsx", "js", "jsx", "mjs", "cjs"]
    scan := fun file content =>
      some (unknownChannels patterns declared file content ++
        undeclaredHandlers patterns declared file content) }

/-! ### Links of documents -/

structure MarkdownPatterns where
  backtickPath : GroupPattern
  mdLink : GroupPattern

/-- The text without every "./" it begins with. -/
def trimStartDots : List Char → List Char
  | '.' :: '/' :: rest => trimStartDots rest
  | text => text

/-- `exists?` is that of the paths below the project root, if there is one. -/
def checkPath (exists? : Option (List Char → Bool)) (claim : List Char) : Bool :=
  match exists? with
  | none => true
  | some exists? => exists? (trimStartDots claim)

def deadLinks (pattern : GroupPattern) (exists? : Option (List Char → Bool)) (ruleId : String)
    (file : String) (content : List Char) : List Finding :=
  (pattern.capturesIter content).flatMap (fun captures =>
    let claim := captures.group.matched
    if Skills.contains claim "://".toList ∨ "#".toList.isPrefixOf claim ∨
        "mailto:".toList.isPrefixOf claim ∨ checkPath exists? claim then []
    else
      [captures.full.finding file
        { ruleId
          severity := .warning
          message := s!"Markdown references path '{captures.group.text}' that does not exist " ++
            "in the project."
          suggestion := none }])

def markdownDriftScanner (patterns : MarkdownPatterns) (exists? : Option (List Char → Bool)) :
    Scanner :=
  { name := "markdown_drift"
    appliesTo := fun file =>
      exists?.isSome && extension file ∈ [some "md", some "MD", some "markdown"]
    scan := fun file content =>
      some (deadLinks patterns.backtickPath exists? "markdown.dead-backtick-path" file content ++
        deadLinks patterns.mdLink exists? "markdown.dead-link" file content) }

/-! ### Secrets -/

structure SecretPattern where
  ruleId : String
  label : String
  pattern : Pattern

def skipExts : List String :=
  ["png", "jpg", "jpeg", "gif", "webp", "ico", "pdf", "zip", "tar", "gz", "exe", "dll", "bin",
    "ttf", "woff", "woff2", "mp3", "mp4", "wav", "ogg"]

def secretsScanner (catalog : List SecretPattern) : Scanner :=
  { name := "secrets"
    appliesTo := fun file => !hasExtension skipExts file
    scan := fun file content =>
      some (catalog.flatMap (fun secret =>
        secret.pattern.report file content
          { ruleId := secret.ruleId
            severity := .critical
            message := s!"Possible {secret.label} found in source."
            suggestion := none })) }

end Mneme.Scanners
