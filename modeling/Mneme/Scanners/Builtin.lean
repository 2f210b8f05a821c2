/-
The scanners that take slices of the text, the registry of all scanners and the
worker that runs them on a file.

A slice and an index are checked, as they are where the scanners run: without a
result stands a panic.
-/

import Mneme.Library.Slices
import Mneme.Scanners.Matches

namespace Mneme.Scanners

open Common Library

/-- The findings of one pass after the other. -/
def eachItem {Item : Type} (items : List Item) (body : Item → Option (List Finding)) :
    Option (List Finding) :=
  (items.mapM body).map List.flatten

def containsText (text : List Char) (part : String) : Bool :=
  Skills.contains text part.toList

def isRust (file : Path) : Bool :=
  hasExtension ["rs"] file

/-! ### Performance -/

structure PerfPatterns where
  jsxMapLoop : Pattern
  useEffect : Pattern
  syncIo : Pattern
  setState : Pattern
  objectKeysForeach : Pattern
  arrayFrom : Pattern
  rustUnwrap : Pattern

/-- The walk backwards over the bytes before an index, to the brace around them. -/
def openBrace (bytes : List UInt8) : Nat → Nat → Option (Option Nat)
  | 0, _ => some none
  | place + 1, depth => do
      let byte ← bytes[place]?
      if byte = 0x7D then openBrace bytes place (depth + 1)
      else if byte = 0x7B then
        if depth = 0 then some (some place) else openBrace bytes place (depth - 1)
      else openBrace bytes place depth

/-- Whether one of the words is in the head before the innermost brace that is
open at the offset.  The walk goes `reach` bytes back, the head is of `headReach`
bytes. -/
def insideBlock (reach headReach : Nat) (words : List String) (content : List Char)
    (offset : Nat) : Option Bool := do
  let window ← textSlice content (offset - reach) offset
  match ← openBrace (utf8 window) (utf8 window).length 0 with
  | none => some false
  | some place => do
      let head ← textSlice window (place - headReach) place
      some (words.any (containsText head))

def isInLoopBody : List Char → Nat → Option Bool :=
  insideBlock 2048 80 ["for (", "for(", "while (", "while(", ".forEach(", ".map("]

def isInAsyncFn : List Char → Nat → Option Bool :=
  insideBlock 4096 200 ["async fn", "async move \x7b", "async \x7b"]

/-- The depth is a counter of 32 bits. -/
def closeParen : List UInt8 → Nat → Int32 → Option Nat
  | [], _, _ => none
  | byte :: rest, place, depth =>
      if byte = 0x28 then closeParen rest (place + 1) (depth + 1)
      else if byte = 0x29 then
        if depth - 1 = 0 then some place else closeParen rest (place + 1) (depth - 1)
      else closeParen rest (place + 1) depth

/-- The closing parenthesis to the one at an index. -/
def findMatchingParen (content : List Char) (openIdx : Nat) : Option Nat :=
  if (utf8 content)[openIdx]? = some 0x28 then
    closeParen ((utf8 content).drop openIdx) openIdx 0
  else none

def separatorIn : List UInt8 → Int32 → Int32 → Int32 → Bool
  | [], _, _, _ => false
  | byte :: rest, paren, brack, brace =>
      if byte = 0x28 then separatorIn rest (paren + 1) brack brace
      else if byte = 0x29 then separatorIn rest (paren - 1) brack brace
      else if byte = 0x5B then separatorIn rest paren (brack + 1) brace
      else if byte = 0x5D then separatorIn rest paren (brack - 1) brace
      else if byte = 0x7B then separatorIn rest paren brack (brace + 1)
      else if byte = 0x7D then separatorIn rest paren brack (brace - 1)
      else if byte = 0x2C ∧ paren = 0 ∧ brack = 0 ∧ brace = 0 then true
      else separatorIn rest paren brack brace

def argSeparatorAtDepthZero (body : List Char) : Bool :=
  separatorIn (utf8 body) 0 0 0

/-- The first of three setters within 200 bytes. -/
def crowdedSetters : List Nat → Option Nat
  | first :: second :: third :: rest =>
      if third - first ≤ 200 then some first else crowdedSetters (second :: third :: rest)
  | _ => none

namespace PerfPatterns

variable (patterns : PerfPatterns) (file : String) (content : List Char)

def unmemoizedItems : Option (List Finding) :=
  if containsText content "React.memo" || containsText content "memo(" then some []
  else
    eachItem (patterns.jsxMapLoop.findIter content) (fun place => do
      let lookahead ← textSlice content place.stop (min (place.stop + 200) (utf8 content).length)
      some (
        if '<' ∈ lookahead then
          [place.finding file
            { ruleId := "perf.unmemoized-list-item"
              severity := .info
              message := "Component rendered in a list without React.memo — consider " ++
                "memoizing the row component."
              suggestion := none }]
        else []))

def effectsWithoutDeps : Option (List Finding) :=
  eachItem (patterns.useEffect.findIter content) (fun place =>
    match findMatchingParen content (place.stop - 1) with
    | none => some []
    | some close => do
        let body ← textSlice content place.stop close
        some (
          if argSeparatorAtDepthZero body then []
          else
            [place.finding file
              { ruleId := "perf.useeffect-no-deps"
                severity := .warning
                message := "useEffect missing dependency array — runs after every render."
                suggestion := some ", []" }]))

def unbatchedSetters : List Finding :=
  match crowdedSetters ((patterns.setState.findIter content).map Match.start) with
  | none => []
  | some first =>
      [Rule.finding
        { ruleId := "perf.unbatched-setstate"
          severity := .info
          message := "Three or more sequential setState-style calls — consider " ++
            "unstable_batchedUpdates / React 18 auto-batching, or merge state."
          suggestion := none }
        file content first 1]

def arraysInLoops : Option (List Finding) :=
  eachItem (patterns.arrayFrom.findIter content) (fun place => do
    let inside ← isInLoopBody content place.start
    some (
      if inside then
        [place.finding file
          { ruleId := "perf.array-from-in-loop"
            severity := .warning
            message := "Array.from inside a loop allocates per iteration — hoist the call " ++
              "above the loop."
            suggestion := none }]
      else []))

def unwrapsInAsync : Option (List Finding) :=
  if isRust file then
    eachItem (patterns.rustUnwrap.findIter content) (fun place => do
      let inside ← isInAsyncFn content place.start
      some (
        if inside then
          [place.finding file
            { ruleId := "perf.rust-unwrap-in-async"
              severity := .warning
              message := ".unwrap() inside async fn poisons the runtime on panic — propagate " ++
                "with ? or handle the error."
              suggestion := none }]
        else []))
  else some []

def scan : Option (List Finding) := do
  let items ← patterns.unmemoizedItems file content
  let effects ← patterns.effectsWithoutDeps file content
  let arrays ← patterns.arraysInLoops file content
  let unwraps ← patterns.unwrapsInAsync file content
  some (items ++ effects ++
    patterns.syncIo.report file content
      { ruleId := "perf.sync-io"
        severity := .error
        message := "Synchronous I/O blocks the event loop — use async equivalents."
        suggestion := none } ++
    patterns.unbatchedSetters file content ++
    patterns.objectKeysForeach.report file content
      { ruleId := "perf.objectkeys-foreach"
        severity := .info
        message := "Object.keys(...).forEach re-looks-up values — prefer " ++
          "Object.entries(...).forEach."
        suggestion := some "Object.entries(" } ++
    arrays ++ unwraps)

end PerfPatterns

def perfScanner (patterns : PerfPatterns) : Scanner :=
  { name := "perf"
    appliesTo := hasExtension ["tsx", "jsx", "ts", "js", "rs"]
    scan := patterns.scan }

/-! ### Security -/

structure SecurityPatterns where
  skKey : Pattern
  akiaKey : Pattern
  ghPat : Pattern
  passwordAssign : Pattern
  dynamicEvalCall : Pattern
  newFunction : Pattern
  riskyInnerHtml : Pattern
  ipcHandler : Pattern
  sqlConcat : Pattern
  rustUnsafeBlock : Pattern

def validators : List String :=
  ["zod", ".parse(", ".safeParse(", "validate(", "yup.", "Joi.", "assertType(", "isValid"]

namespace SecurityPatterns

variable (patterns : SecurityPatterns) (file : String) (content : List Char)

def unvalidatedHandlers : Option (List Finding) :=
  eachItem (patterns.ipcHandler.findIter content) (fun place => do
    let body ← textSlice content place.stop (min (place.stop + 400) (utf8 content).length)
    some (
      if validators.any (containsText body) then []
      else
        [place.finding file
          { ruleId := "security.ipc-no-validation"
            severity := .error
            message := "IPC handler does not appear to validate input — every IPC boundary " ++
              "must validate."
            suggestion := none }]))

/-- A rule without a fix. -/
def found (pattern : Pattern) (ruleId : String) (severity : Severity) (message : String) :
    List Finding :=
  pattern.report file content { ruleId, severity, message, suggestion := none }

def scan : Option (List Finding) := do
  let handlers ← patterns.unvalidatedHandlers file content
  some (
    found file content patterns.skKey "security.hardcoded-openai-key" .critical
      "Hardcoded OpenAI-style secret key — load from env." ++
    found file content patterns.akiaKey "security.hardcoded-aws-key" .critical
      "Hardcoded AWS access key id — load from env / IAM role." ++
    found file content patterns.ghPat "security.hardcoded-github-pat" .critical
      "Hardcoded GitHub personal access token — load from secret store." ++
    found file content patterns.passwordAssign "security.hardcoded-password" .critical
      "Hardcoded password literal — load from env or secret store." ++
    found file content patterns.dynamicEvalCall "security.dynamic-eval-call" .critical
      "Dynamic code-evaluation call — replace with a parser." ++
    found file content patterns.newFunction "security.new-function" .critical
      "JS Function constructor is equivalent to dynamic-eval — remove." ++
    found file content patterns.riskyInnerHtml "security.risky-inner-html" .error
      ("Risky React inner-HTML prop requires sanitized input — route through DOMPurify " ++
        "or remove.") ++
    handlers ++
    found file content patterns.sqlConcat "security.sql-concat" .critical
      "Unparameterized SQL concatenation — use placeholder bindings (? or $1)." ++
    if isRust file && !containsText content "#![forbid(unsafe_code)]" then
      found file content patterns.rustUnsafeBlock "security.rust-unsafe" .warning
        ("`unsafe` block in a crate without `#![forbid(unsafe_code)]` — justify with a // " ++
          "SAFETY comment or move behind a wrapper.")
    else [])

end SecurityPatterns

def securityScanner (patterns : SecurityPatterns) : Scanner :=
  { name := "security"
    appliesTo := hasExtension
      ["ts", "tsx", "js", "jsx", "mjs", "cjs", "html", "vue", "svelte", "rs"]
    scan := patterns.scan }

/-! ### Accessibility -/

structure A11yPatterns where
  buttonOpen : GroupPattern
  imgTag : GroupPattern
  anchorTag : GroupPattern
  ariaLabel : Pattern
  altAttr : Pattern
  hrefAttr : Pattern
  focusVisible : Pattern

/-- The text outside of tags. -/
def stripTags (inTag : Bool) : List Char → List Char
  | [] => []
  | char :: rest =>
      if char = '<' then stripTags true rest
      else if char = '>' then stripTags false rest
      else if inTag then stripTags inTag rest
      else char :: stripTags inTag rest

namespace A11yPatterns

variable (patterns : A11yPatterns) (file : String) (content : List Char)

def buttons : Option (List Finding) :=
  eachItem (patterns.buttonOpen.capturesIter content) (fun captures => do
    let attrs := captures.group.matched
    let place := captures.full
    let rest ← textSlice content place.stop (utf8 content).length
    let close :=
      match findText "</button>".toList rest with
      | some offset => place.stop + offset
      | none => (utf8 content).length
    let inner ← textSlice content place.stop close
    let hasText := !(trimmed (stripTags false inner)).isEmpty
    some ((
      if hasText || patterns.ariaLabel.isMatch attrs then []
      else
        [place.finding file
          { ruleId := "a11y.icon-button-no-label"
            severity := .error
            message := "Icon-only <button> must include an aria-label."
            suggestion := some "<button aria-label=\"TODO\" " }]) ++
      if patterns.focusVisible.isMatch attrs then []
      else
        [place.finding file
          { ruleId := "a11y.button-missing-focus-visible"
            severity := .warning
            message := "<button> missing `focus-visible:` Tailwind class — keyboard focus " ++
              "must be visible."
            suggestion := none }]))

/-- The tags that lack an attribute. -/
def lacking (tag : GroupPattern) (required : Pattern) (rule : Rule) : List Finding :=
  (tag.capturesIter content).flatMap (fun captures =>
    if required.isMatch captures.group.matched then []
    else [captures.full.finding file rule])

def scan : Option (List Finding) := do
  let first ← patterns.buttons file content
  some (first ++
    lacking file content patterns.imgTag patterns.altAttr
      { ruleId := "a11y.img-no-alt"
        severity := .error
        message := "<img> missing `alt` attribute (use empty alt for decorative images)."
        suggestion := some "alt=\"\" " } ++
    lacking file content patterns.anchorTag patterns.hrefAttr
      { ruleId := "a11y.anchor-no-href"
        severity := .error
        message := "<a> without href is not a link — use <button> for interactive controls."
        suggestion := none })

end A11yPatterns

def a11yScanner (patterns : A11yPatterns) : Scanner :=
  { name := "a11y"
    appliesTo := hasExtension ["tsx", "jsx", "html", "vue", "svelte"]
    scan := patterns.scan }

/-! ### Refactorings -/

structure RefactorPatterns where
  importNamed : GroupPattern
  importDefault : GroupPattern
  fnDecl : GroupPattern
  varDecl : GroupPattern
  typeDecl : GroupPattern
  /-- The expression for an identifier as a word, if it compiles. -/
  word : List Char → Option Pattern

def countOccurrences (patterns : RefactorPatterns) (content ident : List Char) : Nat :=
  if ident = [] then 0
  else
    match patterns.word ident with
    | some pattern => (pattern.findIter content).length
    | none => 0

def isAsciiLowercase (char : Char) : Bool :=
  'a' ≤ char && char ≤ 'z'

def isAsciiUppercase (char : Char) : Bool :=
  'A' ≤ char && char ≤ 'Z'

def isAsciiDigit (char : Char) : Bool :=
  '0' ≤ char && char ≤ '9'

def isCamelCase (id : List Char) : Bool :=
  match id.dropWhile (· = '_') with
  | [] => true
  | first :: rest => isAsciiLowercase first && '_' ∉ first :: rest

def isPascalCase (id : List Char) : Bool :=
  match id with
  | [] => true
  | first :: rest => isAsciiUppercase first && '_' ∉ first :: rest

def isUpperSnake (id : List Char) : Bool :=
  id.all (fun char => isAsciiUppercase char || isAsciiDigit char || char = '_')

/-- The rest of a name, behind its first letter if `first` is false. -/
def camelFrom (upperNext first : Bool) : List Char → List Char
  | [] => []
  | char :: rest =>
      if char = '_' || char = '-' then camelFrom true first rest
      else if first then char.toLower :: camelFrom upperNext false rest
      else if upperNext then char.toUpper :: camelFrom false false rest
      else char :: camelFrom false false rest

def toCamelCase (id : List Char) : List Char :=
  camelFrom false true id

def toPascalCase (id : List Char) : List Char :=
  match toCamelCase id with
  | [] => []
  | first :: rest => first.toUpper :: rest

/-- The pieces between the places of a separator; `skip` more characters belong to
the last of them. -/
def splitText (separator : List Char) (skip : Nat) : List Char → List (List Char)
  | [] => [[]]
  | char :: rest =>
      match skip with
      | more + 1 => splitText separator more rest
      | 0 =>
          if separator.isPrefixOf (char :: rest) then
            [] :: splitText separator (separator.length - 1) rest
          else
            match splitText separator 0 rest with
            | [] => [[char]]
            | piece :: pieces => (char :: piece) :: pieces

/-- The local name of one import: of `A as B` it is `B`. -/
def localIdent (piece : List Char) : List Char :=
  match (splitText " as ".toList 0 piece)[1]? with
  | some rename => trimmed rename
  | none => piece

def isIdentChar (char : Char) : Bool :=
  isAsciiLowercase char || isAsciiUppercase char || isAsciiDigit char || char = '_' || char = '$'

namespace RefactorPatterns

variable (patterns : RefactorPatterns) (file : String) (content : List Char)

def unusedNamed : Option (List Finding) :=
  eachItem (patterns.importNamed.capturesIter content) (fun captures => do
    let afterStmt ← textSlice content captures.full.stop (utf8 content).length
    some ((captures.group.matched.splitOn ',').flatMap (fun raw =>
      let ident := localIdent (trimmed raw)
      if trimmed raw = [] || !ident.all isIdentChar ||
          countOccurrences patterns afterStmt ident ≠ 0 then []
      else
        [captures.full.finding file
          { ruleId := "refactor.unused-import"
            severity := .info
            message := s!"Unused named import `{String.ofList ident}` — safe to remove."
            suggestion := some "" }])))

def unusedDefault : Option (List Finding) :=
  eachItem (patterns.importDefault.capturesIter content) (fun captures => do
    let afterStmt ← textSlice content captures.full.stop (utf8 content).length
    some (
      if countOccurrences patterns afterStmt captures.group.matched = 0 then
        [captures.full.finding file
          { ruleId := "refactor.unused-import"
            severity := .info
            message := s!"Unused default import `{captures.group.text}` — safe to remove."
            suggestion := some "" }]
      else []))

/-- A name that is found once in the text, where it is declared. -/
def unreferenced (ident : Match content) (ruleId kind : String) : List Finding :=
  if countOccurrences patterns content ident.matched ≤ 1 then
    [ident.finding file
      { ruleId
        severity := .info
        message := s!"{kind} `{ident.text}` has no in-file references — candidate for " ++
          "dead-code removal."
        suggestion := none }]
  else []

/-- A name that breaks a convention, with the one it should have. -/
def misnamed {content : List Char} (file : String) (ident : Match content)
    (ruleId kind convention : String) (suggested : List Char) : List Finding :=
  [ident.finding file
    { ruleId
      severity := .info
      message := s!"{kind} `{ident.text}` violates {convention} convention — suggest " ++
        s!"`{String.ofList suggested}`."
      suggestion := some (String.ofList suggested) }]

def functions : List Finding :=
  (patterns.fnDecl.capturesIter content).flatMap (fun captures =>
    let ident := captures.group
    unreferenced patterns file content ident "refactor.unreachable-function" "Function" ++
      if isCamelCase ident.matched then []
      else
        misnamed file ident "refactor.rename-function" "Function" "camelCase"
          (toCamelCase ident.matched))

def bindings : List Finding :=
  (patterns.varDecl.capturesIter content).flatMap (fun captures =>
    let ident := captures.group
    if isCamelCase ident.matched || isUpperSnake ident.matched then []
    else
      misnamed file ident "refactor.rename-variable" "Top-level binding" "camelCase"
        (toCamelCase ident.matched))

def types : List Finding :=
  (patterns.typeDecl.capturesIter content).flatMap (fun captures =>
    let ident := captures.group
    (if isPascalCase ident.matched then []
      else
        misnamed file ident "refactor.rename-type" "Type" "PascalCase"
          (toPascalCase ident.matched)) ++
      unreferenced patterns file content ident "refactor.unreferenced-type" "Type")

def scan : Option (List Finding) := do
  let named ← patterns.unusedNamed file content
  let default ← patterns.unusedDefault file content
  some (named ++ default ++ patterns.functions file content ++ patterns.bindings file content ++
    patterns.types file content)

end RefactorPatterns

def refactorScanner (patterns : RefactorPatterns) : Scanner :=
  { name := "refactor"
    appliesTo := hasExtension ["ts", "tsx", "js", "jsx", "mjs", "cjs"]
    scan := patterns.scan }

/-! ### Themes -/

structure ThemePatterns where
  hexColor : Pattern
  cssFnColor : Pattern
  twColorClass : Pattern

/-- `from_utf8`. -/
def fromUtf8 (bytes : List UInt8) : Option (List Char) :=
  if utf8 (utf8Lossy bytes) = bytes then some (utf8Lossy bytes) else none

structure ClassAttr where
  value : List Char
  valueStart : Nat

def classNeedles : List (List UInt8) :=
  [utf8 "class=".toList, utf8 "className=".toList]

/-- The length of the first needle that stands at the index. -/
def needleAt (bytes : List UInt8) (place : Nat) : List (List UInt8) → Option (Option Nat)
  | [] => some none
  | needle :: needles =>
      if place + needle.length ≤ bytes.length then do
        let here ← byteSlice bytes place (place + needle.length)
        if here = needle then some (some needle.length) else needleAt bytes place needles
      else needleAt bytes place needles

/-- The start and the end of the value behind a quote at the index. -/
def quotedAt (bytes : List UInt8) (quoteIdx : Nat) : Option (Option (Nat × Nat)) :=
  if quoteIdx < bytes.length then do
    let quote ← bytes[quoteIdx]?
    if quote = 0x22 ∨ quote = 0x27 then do
      let rest ← byteSlice bytes (quoteIdx + 1) bytes.length
      match rest.findIdx? (· = quote) with
      | some length => some (some (quoteIdx + 1, quoteIdx + 1 + length))
      | none => some none
    else some none
  else some none

/-- The attributes from an index on; `skip` bytes of the rest are passed over. -/
def classAttrsFrom (bytes : List UInt8) : List UInt8 → Nat → Nat → Option (List ClassAttr)
  | [], _, _ => some []
  | _ :: rest, place, skip + 1 => classAttrsFrom bytes rest (place + 1) skip
  | _ :: rest, place, 0 => do
      match ← needleAt bytes place classNeedles with
      | none => classAttrsFrom bytes rest (place + 1) 0
      | some length => do
          match ← quotedAt bytes (place + length) with
          | none => classAttrsFrom bytes rest (place + 1) 0
          | some (start, stop) => do
              let inner ← byteSlice bytes start stop
              let more ← classAttrsFrom bytes rest (place + 1) (stop - place)
              match fromUtf8 inner with
              | some value => some ({ value, valueStart := start } :: more)
              | none => some more

def findClassAttrs (content : List Char) : Option (List ClassAttr) :=
  classAttrsFrom (utf8 content) (utf8 content) 0 0

def brandAllowlist : List String :=
  ["#4191E1", "#41E1B5", "#22D3EE"]

def defaultTokenAllowlist : List String :=
  ["#000", "#FFF", "#fff", "#000000", "#FFFFFF"]

/-- What the scanner is made with: the patterns, and the values of the file of tokens. -/
structure ThemeScanner where
  patterns : ThemePatterns
  extraAllowlist : List String

namespace ThemeScanner

variable (scanner : ThemeScanner) (file : String) (content : List Char)

def isAllowlisted (hex : String) : Bool :=
  (brandAllowlist ++ defaultTokenAllowlist ++ scanner.extraAllowlist).any
    (fun allowed => eqIgnoreAsciiCase allowed hex)

def hexLiterals : List Finding :=
  (scanner.patterns.hexColor.findIter content).flatMap (fun place =>
    if scanner.isAllowlisted place.text then []
    else
      [place.finding file
        { ruleId := "theme.hardcoded-hex"
          severity := .warning
          message := s!"Hardcoded hex color '{place.text}' — replace with var(--color-*) token."
          suggestion := some "var(--color-TODO)" }])

def colorFunctions : List Finding :=
  (scanner.patterns.cssFnColor.findIter content).map (fun place =>
    place.finding file
      { ruleId := "theme.hardcoded-css-fn"
        severity := .warning
        message := s!"Hardcoded CSS color function '{place.text}' — replace with " ++
          "var(--color-*) token."
        suggestion := some "var(--color-TODO)" })

/-- The color classes of an attribute without a dark variant. -/
def classFindings (attr : ClassAttr) : List Finding :=
  (scanner.patterns.twColorClass.findIter attr.value).flatMap (fun place =>
    if "dark:".toList.isPrefixOf place.matched || containsText attr.value "dark:" then []
    else
      [Rule.finding
        { ruleId := "theme.missing-dark-variant"
          severity := .warning
          message := s!"Tailwind class '{place.text}' has no `dark:` sibling. Every color " ++
            "utility must declare a dark variant."
          suggestion := none }
        file content (attr.valueStart + place.start) place.width])

def scan : Option (List Finding) := do
  let attrs ← findClassAttrs content
  some (scanner.hexLiterals file content ++ scanner.colorFunctions file content ++
    attrs.flatMap (scanner.classFindings file content))

end ThemeScanner

def themeScanner (scanner : ThemeScanner) : Scanner :=
  { name := "theme"
    appliesTo := hasExtension
      ["tsx", "jsx", "ts", "js", "css", "scss", "html", "vue", "svelte"]
    scan := scanner.scan }

/-! ### The registry and the worker -/

/-- The expressions of the scanners, and what they are configured with. -/
structure Registry where
  theme : ThemeScanner
  typesTs : TypesPatterns
  security : SecurityPatterns
  a11y : A11yPatterns
  perf : PerfPatterns
  constraints : List CompiledConstraint
  ipc : IpcPatterns
  declaredChannels : List (List Char)
  markdown : MarkdownPatterns
  exists? : Option (List Char → Bool)
  catalog : List SecretPattern
  refactor : RefactorPatterns

def Registry.all (registry : Registry) : List Scanner :=
  [themeScanner registry.theme, tsTypesScanner registry.typesTs,
    securityScanner registry.security, a11yScanner registry.a11y, perfScanner registry.perf,
    driftScanner registry.constraints, ipcContractsScanner registry.ipc registry.declaredChannels,
    markdownDriftScanner registry.markdown registry.exists?, secretsScanner registry.catalog,
    refactorScanner registry.refactor]

def Registry.applicableScanners (registry : Registry) (file : Path) : List Scanner :=
  registry.all.filter (fun scanner => scanner.appliesTo file)

structure ScanJob where
  filePath : Path
  content : List Char
  scannerFilter : List String
  jobId : Nat

def ScanJob.allowsScanner (job : ScanJob) (name : String) : Bool :=
  job.scannerFilter.isEmpty || job.scannerFilter.contains name

structure ScanResult where
  jobId : Nat
  findings : List Finding
  failedScanners : List String

/-- The worker goes on behind a scanner that panics, without its findings. -/
def runOne (registry : Registry) (job : ScanJob) : ScanResult :=
  let runs := (registry.applicableScanners job.filePath).filter
    (fun scanner => job.allowsScanner scanner.name)
  { jobId := job.jobId
    findings := runs.flatMap (fun scanner => (scanner.scan job.filePath job.content).getD [])
    failedScanners := (runs.filter
      (fun scanner => (scanner.scan job.filePath job.content).isNone)).map Scanner.name }

end Mneme.Scanners
