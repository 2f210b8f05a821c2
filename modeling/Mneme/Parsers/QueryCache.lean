/-
Syntax trees as tree-sitter delivers them, the query patterns of each language, and what
tree-sitter does with them.

tree-sitter itself is a parameter: the tree of a content, which patterns a
grammar accepts and which matches a query has.  `TreeSitter.documented` matches
the patterns the way the query syntax is documented.
-/

import Mneme.Library.Rose
import Mneme.Parsers.Language

namespace Mneme.Parsers

open Library

/-- What the extractor asks a syntax node. -/
structure Syntax where
  kind : String
  named : Bool
  missing : Bool
  /-- The field of the parent the node stands in. -/
  field : Option String
  startByte : Nat
  endByte : Nat
  startRow : Nat
  endRow : Nat

abbrev Tree := Rose Syntax

abbrev TsNode := Located Syntax

def errorKind : String := "ERROR"

namespace TsNode

def kind (node : TsNode) : String := node.tree.label.kind

def startByte (node : TsNode) : Nat := node.tree.label.startByte

def endByte (node : TsNode) : Nat := node.tree.label.endByte

def startRow (node : TsNode) : Nat := node.tree.label.startRow

def endRow (node : TsNode) : Nat := node.tree.label.endRow

def isMissing (node : TsNode) : Bool := node.tree.label.missing

def isError (node : TsNode) : Bool := node.kind == errorKind

def childByFieldName (node : TsNode) (field : String) : Option TsNode :=
  node.children.find? (fun child => child.tree.label.field == some field)

/-- The source text of the node, when it is valid UTF-8. -/
def utf8Text (node : TsNode) (bytes : ByteArray) : Option String :=
  String.fromUTF8? (bytes.extract node.startByte node.endByte)

end TsNode

/-- The tree holds a syntax error: an error node, or one that the parser made
up. -/
def hasError (tree : Tree) : Bool :=
  (Located.nodesOf [] tree).any (fun node => TsNode.isError node || TsNode.isMissing node)

/-- `iter_all`. -/
def iterAll (tree : Tree) : List TsNode :=
  Located.poppedOf [] tree

/-! ### Queries -/

inductive QueryKind where
  | functions
  | classes
  | calls
  | imports
  | decorators
  | comments
  | errors
deriving DecidableEq, Repr

def QueryKind.asStr : QueryKind → String
  | .functions => "functions"
  | .classes => "classes"
  | .calls => "calls"
  | .imports => "imports"
  | .decorators => "decorators"
  | .comments => "comments"
  | .errors => "errors"

/-- A pattern of a query: `(_)` or `(kind)`, or `(kind field: (child)?)`, each
with or without a capture. -/
inductive Pattern where
  | leaf (kind : Option String) (capture : Option String)
  | branch (kind : String) (field : Option String) (optional : Bool) (child : Pattern)
      (capture : Option String)

namespace Pattern

/-- `(kind) @capture` -/
def whole (kind capture : String) : Pattern :=
  .leaf (some kind) (some capture)

/-- `(kind field: (child) @name) @capture` -/
def fielded (kind field child name capture : String) : Pattern :=
  .branch kind (some field) false (.whole child name) (some capture)

/-- `(kind field: (_) @name) @capture` -/
def fieldedAny (kind field name capture : String) : Pattern :=
  .branch kind (some field) false (.leaf none (some name)) (some capture)

/-- `(kind (child) @name) @capture` -/
def holding (kind child name capture : String) : Pattern :=
  .branch kind none false (.whole child name) (some capture)

/-- `(kind name: (child) @name) @function` -/
def function (kind child : String) : Pattern :=
  .fielded kind "name" child "name" "function"

/-- `(kind name: (child) @name) @class` -/
def type (kind child : String) : Pattern :=
  .fielded kind "name" child "name" "class"

end Pattern

open Pattern

/-- The patterns of a language and kind, in the default build. -/
def patternFor (language : Language) (kind : QueryKind) : List Pattern :=
  match language, kind with
  | .typeScript, .functions | .tsx, .functions | .javaScript, .functions | .jsx, .functions =>
      [.function "function_declaration" "identifier",
        .function "method_definition" "property_identifier",
        .branch "function_expression" (some "name") true (.whole "identifier" "name")
          (some "function"),
        .whole "arrow_function" "function"]
  | .typeScript, .classes | .tsx, .classes =>
      [.type "class_declaration" "type_identifier", .type "interface_declaration" "type_identifier"]
  | .typeScript, .calls | .tsx, .calls | .javaScript, .calls | .jsx, .calls =>
      [.fieldedAny "call_expression" "function" "callee" "call"]
  | .typeScript, .imports | .tsx, .imports | .javaScript, .imports | .jsx, .imports =>
      [.fielded "import_statement" "source" "string" "source" "import"]
  | .typeScript, .decorators | .tsx, .decorators | .python, .decorators =>
      [.branch "decorator" none false (.leaf none (some "decorator_value")) (some "decorator")]
  | .typeScript, .comments | .tsx, .comments | .javaScript, .comments | .jsx, .comments =>
      [.whole "comment" "comment"]
  | .javaScript, .classes | .jsx, .classes => [.type "class_declaration" "identifier"]
  | .python, .functions => [.function "function_definition" "identifier"]
  | .python, .classes => [.type "class_definition" "identifier"]
  | .python, .calls => [.fieldedAny "call" "function" "callee" "call"]
  | .python, .imports =>
      [.whole "import_statement" "import", .whole "import_from_statement" "import"]
  | .python, .comments => [.whole "comment" "comment"]
  | .rust, .functions =>
      [.function "function_item" "identifier", .function "function_signature_item" "identifier"]
  | .rust, .classes =>
      [.type "struct_item" "type_identifier", .type "enum_item" "type_identifier",
        .type "trait_item" "type_identifier", .whole "impl_item" "class"]
  | .rust, .calls =>
      [.fieldedAny "call_expression" "function" "callee" "call",
        .fieldedAny "macro_invocation" "macro" "callee" "call"]
  | .rust, .imports => [.whole "use_declaration" "import"]
  | .rust, .decorators => [.whole "attribute_item" "decorator"]
  | .rust, .comments => [.whole "line_comment" "comment", .whole "block_comment" "comment"]
  | .go, .functions =>
      [.function "function_declaration" "identifier",
        .function "method_declaration" "field_identifier"]
  | .go, .classes =>
      [.branch "type_declaration" none false
        (.branch "type_spec" (some "name") false (.whole "type_identifier" "name") none)
        (some "class")]
  | .go, .calls => [.fieldedAny "call_expression" "function" "callee" "call"]
  | .go, .imports => [.whole "import_declaration" "import"]
  | .go, .comments => [.whole "comment" "comment"]
  | .java, .functions => [.function "method_declaration" "identifier"]
  | .java, .classes =>
      [.type "class_declaration" "identifier", .type "interface_declaration" "identifier"]
  | .java, .calls => [.fielded "method_invocation" "name" "identifier" "callee" "call"]
  | .java, .imports => [.whole "import_declaration" "import"]
  | .java, .decorators =>
      [.fielded "annotation" "name" "identifier" "decorator_value" "decorator"]
  | .java, .comments => [.whole "line_comment" "comment", .whole "block_comment" "comment"]
  | .c, .functions | .cpp, .functions =>
      [.fieldedAny "function_definition" "declarator" "name" "function"]
  | .cpp, .classes =>
      [.type "class_specifier" "type_identifier", .type "struct_specifier" "type_identifier"]
  | .c, .classes => [.type "struct_specifier" "type_identifier"]
  | .c, .calls | .cpp, .calls => [.fieldedAny "call_expression" "function" "callee" "call"]
  | .c, .imports | .cpp, .imports => [.whole "preproc_include" "import"]
  | .c, .comments | .cpp, .comments => [.whole "comment" "comment"]
  | .cSharp, .functions => [.function "method_declaration" "identifier"]
  | .cSharp, .classes =>
      [.type "class_declaration" "identifier", .type "interface_declaration" "identifier"]
  | .cSharp, .calls => [.fieldedAny "invocation_expression" "function" "callee" "call"]
  | .cSharp, .imports => [.whole "using_directive" "import"]
  | .cSharp, .comments => [.whole "comment" "comment"]
  | .ruby, .functions => [.function "method" "identifier"]
  | .ruby, .classes => [.type "class" "constant", .type "module" "constant"]
  | .ruby, .calls => [.whole "call" "call"]
  | .ruby, .imports => [.whole "call" "import"]
  | .ruby, .comments => [.whole "comment" "comment"]
  | .php, .functions => [.function "function_definition" "name", .function "method_declaration" "name"]
  | .php, .classes => [.type "class_declaration" "name", .type "interface_declaration" "name"]
  | .php, .calls => [.fieldedAny "function_call_expression" "function" "callee" "call"]
  | .php, .imports => [.whole "namespace_use_declaration" "import"]
  | .php, .comments => [.whole "comment" "comment"]
  | .bash, .functions => [.function "function_definition" "word"]
  | .bash, .calls => [.fielded "command" "name" "command_name" "callee" "call"]
  | .bash, .comments => [.whole "comment" "comment"]
  | .json, .comments => []
  | .toml, .comments | .yaml, .comments => [.whole "comment" "comment"]
  | .markdown, .functions => []
  | .lua, .functions => [.fieldedAny "function_declaration" "name" "name" "function"]
  | .lua, .calls => [.whole "function_call" "call"]
  | .lua, .comments => [.whole "comment" "comment"]
  | .swift, .functions => [.function "function_declaration" "simple_identifier"]
  | .swift, .classes =>
      [.type "class_declaration" "type_identifier", .type "protocol_declaration" "type_identifier"]
  | .swift, .comments => [.whole "comment" "comment"]
  | .kotlin, .functions =>
      [.holding "function_declaration" "simple_identifier" "name" "function"]
  | .kotlin, .classes => [.holding "class_declaration" "type_identifier" "name" "class"]
  | .kotlin, .comments =>
      [.whole "line_comment" "comment", .whole "multiline_comment" "comment"]
  | .scala, .functions =>
      [.fieldedAny "function_definition" "name" "name" "function",
        .fieldedAny "function_declaration" "name" "name" "function"]
  | .scala, .classes =>
      [.type "class_definition" "identifier", .type "object_definition" "identifier",
        .type "trait_definition" "identifier"]
  | .scala, .comments => [.whole "comment" "comment", .whole "block_comment" "comment"]
  | .svelte, .comments => [.whole "comment" "comment"]
  | .solidity, .functions =>
      [.fieldedAny "function_definition" "name" "name" "function",
        .fieldedAny "modifier_definition" "name" "name" "function"]
  | .solidity, .classes =>
      [.fieldedAny "contract_declaration" "name" "name" "class",
        .fieldedAny "interface_declaration" "name" "name" "class",
        .fieldedAny "library_declaration" "name" "name" "class"]
  | .solidity, .comments => [.whole "comment" "comment"]
  | .julia, .functions =>
      [.branch "function_definition" none false
          (.branch "signature" none false
            (.branch "call_expression" none false (.whole "identifier" "name") none) none)
          (some "function"),
        .branch "function_definition" none false
          (.branch "signature" none false (.whole "identifier" "name") none) (some "function"),
        .branch "macro_definition" none false
          (.branch "signature" none false
            (.branch "call_expression" none false (.whole "identifier" "name") none) none)
          (some "function"),
        .branch "assignment" none false
          (.branch "call_expression" none false (.whole "identifier" "name") none)
          (some "function")]
  | .julia, .classes =>
      [.branch "struct_definition" none false
          (.branch "type_head" none false (.whole "identifier" "name") none) (some "class"),
        .branch "abstract_definition" none false
          (.branch "type_head" none false (.whole "identifier" "name") none) (some "class"),
        .branch "primitive_definition" none false
          (.branch "type_head" none false (.whole "identifier" "name") none) (some "class")]
  | .julia, .comments => [.whole "line_comment" "comment", .whole "block_comment" "comment"]
  | .zig, .functions => [.function "function_declaration" "identifier"]
  | .zig, .classes => [.holding "variable_declaration" "identifier" "name" "class"]
  | .zig, .comments => [.whole "comment" "comment"]
  | .haskell, .functions => [.function "function" "variable", .function "signature" "variable"]
  | .haskell, .classes =>
      [.type "class" "name", .type "data_type" "name", .type "newtype" "name"]
  | .haskell, .comments => [.whole "comment" "comment"]
  | .vue, _ => []
  | _, .errors => [.whole errorKind "error"]
  | _, _ => []

structure Capture where
  name : String
  node : TsNode

inductive ParserError where
  | languageNotEnabled (language : String)
  | parseFailed (path : Common.Path)
  | queryCompile (language kind source : String)

def ParserError.text : ParserError → String
  | .languageNotEnabled language =>
      s!"language `{language}` is not enabled in this build (check cargo features)"
  | .parseFailed path => s!"parser returned no tree (cancelled or timed out) for `{path}`"
  | .queryCompile language kind source =>
      s!"query `{kind}` for \"{language}\" failed to compile: {source}"

/-- What the code uses of the tree-sitter library. -/
structure TreeSitter where
  /-- The tree of a content; a parse that reuses an old tree yields the same. -/
  parse : Language → ByteArray → Option Tree
  /-- The error of `Query::new` for the patterns and the grammar of a
  language, if any. -/
  compileError : Language → List Pattern → Option String
  /-- The captures of each match of a query below a node. -/
  queryMatches : List Pattern → Tree → List (List Capture)

def getQuery (treeSitter : TreeSitter) (language : Language) (kind : QueryKind) :
    Except ParserError (List Pattern) :=
  if language.isEnabled then
    match treeSitter.compileError language (patternFor language kind) with
    | none => .ok (patternFor language kind)
    | some error => .error (.queryCompile language.asStr kind.asStr error)
  else .error (.languageNotEnabled language.asStr)

/-- In each match an enclosing node is captured before the nodes in it. -/
def TreeSitter.DeliversInOrder (treeSitter : TreeSitter) : Prop :=
  ∀ patterns tree captures, captures ∈ treeSitter.queryMatches patterns tree →
    captures.Pairwise (fun first second => ¬ second.node.Encloses first.node ∨
      first.node.Encloses second.node)

/-! ### The documented matching -/

def captured (node : TsNode) : Option String → List Capture
  | none => []
  | some name => [{ name, node }]

namespace Pattern

/-- The matches of a pattern at a node; `(_)` matches named nodes only. -/
def matchesAt (node : TsNode) : Pattern → List (List Capture)
  | .leaf kind capture =>
      if node.tree.label.named ∧ kind.all (fun kind => kind == node.kind) then
        [captured node capture]
      else []
  | .branch kind field optional child capture =>
      if node.tree.label.named ∧ kind = node.kind then
        let inner := (node.children.filter (fun inside =>
          field.all (fun field => inside.tree.label.field == some field))).flatMap
            (fun inside => matchesAt inside child)
        (if optional ∧ inner.isEmpty then [[]] else inner).map
          (fun captures => captured node capture ++ captures)
      else []

variable {node : TsNode}

theorem encloses_of_captured {name : Option String} {capture : Capture}
    (member : capture ∈ captured node name) : capture.node = node := by
  cases name with
  | none => cases member
  | some name =>
      rw [List.mem_singleton.mp member]

variable {captures : List Capture}

/-- A match of a branch is its own capture and a match below a child. -/
theorem mem_matchesAt_branch {kind : String} {field : Option String}
    {optional : Bool} {child : Pattern} {capture : Option String}
    (member : captures ∈ matchesAt node (.branch kind field optional child capture)) :
    ∃ inner, captures = captured node capture ++ inner ∧
      (inner = [] ∨ ∃ inside, inside ∈ node.children ∧ inner ∈ matchesAt inside child) := by
  simp only [matchesAt] at member
  split at member
  · rw [List.mem_map] at member
    obtain ⟨inner, found, built⟩ := member
    refine ⟨inner, built.symm, ?_⟩
    split at found
    · exact Or.inl (List.mem_singleton.mp found)
    · right
      rw [List.mem_flatMap] at found
      obtain ⟨inside, kept, matched⟩ := found
      exact ⟨inside, (List.mem_filter.mp kept).1, matched⟩
  · cases member

theorem encloses_of_matchesAt {pattern : Pattern}
    (member : captures ∈ matchesAt node pattern) (capture : Capture) (held : capture ∈ captures) :
    node.Encloses capture.node := by
  induction pattern generalizing node captures with
  | leaf kind name =>
      simp only [matchesAt] at member
      split at member
      · rw [List.mem_singleton.mp member] at held
        rw [encloses_of_captured held]
        exact Located.Encloses.refl node
      · cases member
  | branch kind field optional child name ih =>
      obtain ⟨inner, rfl, below⟩ := mem_matchesAt_branch member
      rcases List.mem_append.mp held with own | deeper
      · rw [encloses_of_captured own]
        exact Located.Encloses.refl node
      · rcases below with rfl | ⟨inside, childOf, matched⟩
        · cases deeper
        · exact (Located.encloses_of_child childOf).trans (ih matched deeper)

/-- The captures of a match are nested, the outer one first. -/
theorem matchesAt_nested {pattern : Pattern} (member : captures ∈ matchesAt node pattern) :
    captures.Pairwise (fun outer inner => outer.node.Encloses inner.node) := by
  induction pattern generalizing node captures with
  | leaf kind name =>
      simp only [matchesAt] at member
      split at member
      · rw [List.mem_singleton.mp member]
        cases name with
        | none => exact List.Pairwise.nil
        | some name => exact List.pairwise_singleton _ _
      · cases member
  | branch kind field optional child name ih =>
      obtain ⟨inner, rfl, below⟩ := mem_matchesAt_branch member
      rw [List.pairwise_append]
      refine ⟨?_, ?_, ?_⟩
      · cases name with
        | none => exact List.Pairwise.nil
        | some name => exact List.pairwise_singleton _ _
      · rcases below with rfl | ⟨inside, _, matched⟩
        · exact List.Pairwise.nil
        · exact ih matched
      · intro outer own capture deeper
        rw [encloses_of_captured own]
        rcases below with rfl | ⟨inside, childOf, matched⟩
        · cases deeper
        · exact (Located.encloses_of_child childOf).trans
            (encloses_of_matchesAt matched capture deeper)

end Pattern

def TreeSitter.documented (parse : Language → ByteArray → Option Tree) : TreeSitter :=
  { parse := parse
    compileError := fun _ _ => none
    queryMatches := fun patterns tree =>
      (Located.nodesOf [] tree).flatMap (fun node =>
        patterns.flatMap (fun pattern => pattern.matchesAt node)) }

theorem TreeSitter.documented_deliversInOrder (parse : Language → ByteArray → Option Tree) :
    (TreeSitter.documented parse).DeliversInOrder := by
  intro patterns tree captures member
  change captures ∈ List.flatMap _ _ at member
  rw [List.mem_flatMap] at member
  obtain ⟨node, _, member⟩ := member
  rw [List.mem_flatMap] at member
  obtain ⟨pattern, _, matched⟩ := member
  apply (Pattern.matchesAt_nested matched).imp
  intro first second nested
  exact Or.inr nested

end Mneme.Parsers
