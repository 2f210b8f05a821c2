/-
The extractor: from a parsed tree to the nodes and edges of the graph.
-/

import Mneme.Common.Text
import Mneme.Parsers.QueryCache

namespace Mneme.Parsers

open Common Library

/-! ### The graph -/

inductive Confidence where
  | extracted
  | inferred
  | ambiguous
deriving DecidableEq, Repr

inductive NodeKind where
  | function
  | method
  | «class»
  | struct
  | trait
  | interface
  | enum
  | module
  | variable
  | constant
  | decorator
  | comment
  | import
  | file
deriving DecidableEq, Repr

inductive EdgeKind where
  | calls
  | inherits
  | implements
  | decoratedBy
  | imports
  | contains
  | generic
deriving DecidableEq, Repr

/-- An id of the graph: `stable_id`, with the hash taken as injective, or a
text that is no stable id. -/
inductive GraphId where
  | stable (path : Path) (startByte : Nat) (kind : NodeKind)
  | text (text : String)
deriving DecidableEq, Repr

structure Node where
  id : GraphId
  kind : NodeKind
  name : String
  file : Path
  byteRange : Nat × Nat
  /-- Lines counted from 1. -/
  lineRange : Nat × Nat
  language : Language
  confidence : Confidence
deriving DecidableEq

structure Edge where
  source : GraphId
  target : GraphId
  kind : EdgeKind
  confidence : Confidence
  unresolvedTarget : Option String
deriving DecidableEq

inductive SyntaxIssueKind where
  | error
  | missing
deriving DecidableEq, Repr

structure SyntaxIssue where
  kind : SyntaxIssueKind
  byteRange : Nat × Nat
  lineRange : Nat × Nat
  hint : String

structure ExtractedGraph where
  nodes : List Node
  edges : List Edge
  issues : List SyntaxIssue

/-! ### Walking the tree -/

def SyntaxIssue.at (node : TsNode) : SyntaxIssue :=
  { kind := if node.isMissing then .missing else .error
    byteRange := (node.startByte, node.endByte)
    lineRange := (node.startRow + 1, node.endRow + 1)
    hint := s!"{node.kind} at line {node.startRow + 1}" }

def walkForErrors (tree : Tree) : List SyntaxIssue :=
  ((iterAll tree).filter (fun node => node.isError || node.isMissing)).map SyntaxIssue.at

def isCallableKind (kind : String) : Language → Bool
  | .python => kind ∈ ["function_definition"]
  | .rust => kind ∈ ["function_item", "function_signature_item"]
  | .go => kind ∈ ["function_declaration", "method_declaration"]
  | .java | .cSharp => kind ∈ ["method_declaration"]
  | .c | .cpp => kind ∈ ["function_definition"]
  | .ruby => kind ∈ ["method"]
  | .php => kind ∈ ["function_definition", "method_declaration"]
  | .bash => kind ∈ ["function_definition"]
  | .typeScript | .tsx | .javaScript | .jsx =>
      kind ∈ ["function_declaration", "method_definition", "function_expression",
        "arrow_function"]
  | .swift => kind ∈ ["function_declaration"]
  | .kotlin => kind ∈ ["function_declaration"]
  | .scala => kind ∈ ["function_definition", "function_declaration"]
  | .solidity => kind ∈ ["function_definition", "modifier_definition"]
  | .julia => kind ∈ ["function_definition", "short_function_definition"]
  | .zig => kind ∈ ["FnProto"]
  | .haskell => kind ∈ ["function"]
  | _ => kind ∈ ["function_declaration", "function_definition"]

/-- The node itself or its nearest ancestor that is callable. -/
def enclosingCallableFrom (language : Language) (tree : Tree) : List Tree → Option TsNode
  | [] =>
      if isCallableKind tree.label.kind language then some { tree, ancestors := [] } else none
  | parent :: ancestors =>
      if isCallableKind tree.label.kind language then
        some { tree, ancestors := parent :: ancestors }
      else enclosingCallableFrom language parent ancestors

def enclosingCallable (node : TsNode) (language : Language) : Option TsNode :=
  enclosingCallableFrom language node.tree node.ancestors

/-! ### The passes -/

/-- The last capture of a match. -/
def outerOf (captures : List Capture) : Option TsNode :=
  captures.getLast?.map Capture.node

/-- The text of the first capture of a name. -/
def captureText (captures : List Capture) (name : String) (bytes : ByteArray) : Option String :=
  (captures.find? (fun capture => capture.name == name)).bind
    (fun capture => capture.node.utf8Text bytes)

def countLines (bytes : ByteArray) : Nat :=
  1 + bytes.data.toList.countP (fun byte => byte == 10)

/-- What the passes of one extraction share. -/
structure Extraction where
  treeSitter : TreeSitter
  language : Language
  tree : Tree
  bytes : ByteArray
  filePath : Path

namespace Extraction

def fileId (source : Extraction) : GraphId := .stable source.filePath 0 .file

/-- The matches of the queries of one kind, with the last capture of each; a
match without captures is skipped. -/
def found (source : Extraction) (kind : QueryKind) :
    Except ParserError (List (TsNode × List Capture)) := do
  let query ← getQuery source.treeSitter source.language kind
  return (source.treeSitter.queryMatches query source.tree).filterMap
    (fun captures => (outerOf captures).map (fun outer => (outer, captures)))

def collectErrors (source : Extraction) : List SyntaxIssue :=
  let queried :=
    match getQuery source.treeSitter source.language .errors with
    | .ok query =>
        (source.treeSitter.queryMatches query source.tree).flatMap
          (fun captures => captures.map (fun capture => SyntaxIssue.at capture.node))
    | .error _ => []
  if hasError source.tree ∧ queried.isEmpty then walkForErrors source.tree else queried

def confidence (source : Extraction) : Confidence :=
  if source.collectErrors.isEmpty then .extracted else .ambiguous

def fileNode (source : Extraction) : Node :=
  { id := source.fileId
    kind := .file
    name := (fileName source.filePath).getD ""
    file := source.filePath
    byteRange := (0, source.bytes.size)
    lineRange := (1, countLines source.bytes)
    language := source.language
    confidence := .extracted }

/-- A node of the graph for a node of the tree. -/
def nodeAt (source : Extraction) (kind : NodeKind) (name : String) (outer : TsNode) : Node :=
  { id := .stable source.filePath outer.startByte kind
    kind := kind
    name := name
    file := source.filePath
    byteRange := (outer.startByte, outer.endByte)
    lineRange := (outer.startRow + 1, outer.endRow + 1)
    language := source.language
    confidence := source.confidence }

/-- The edge from the file to a node of a kind. -/
def containsEdge (source : Extraction) (kind : NodeKind) (outer : TsNode) : Edge :=
  { source := source.fileId
    target := .stable source.filePath outer.startByte kind
    kind := .contains
    confidence := source.confidence
    unresolvedTarget := none }

def collectNamed (source : Extraction) (queryKind : QueryKind) (nodeKind : NodeKind)
    (out : ExtractedGraph) : Except ParserError ExtractedGraph := do
  let found ← source.found queryKind
  return { out with
    nodes := out.nodes ++ found.map (fun (outer, captures) =>
      source.nodeAt nodeKind ((captureText captures "name" source.bytes).getD "") outer)
    edges := out.edges ++ found.map (fun (outer, _) => source.containsEdge nodeKind outer) }

/-- The quoted source of an import, or else the first line of the import. -/
def importTarget (source : Extraction) (outer : TsNode) (captures : List Capture) : String :=
  match captureText captures "source" source.bytes with
  | some text => trimMatches (fun char => char = '"' || char = '\'') text
  | none =>
      trim ((firstLine ((outer.utf8Text source.bytes).getD "<unknown>")).getD "<unknown>")

def importsEdge (source : Extraction) (outer : TsNode) (captures : List Capture) : Edge :=
  { source := source.fileId
    target := .stable source.filePath outer.startByte .import
    kind := .imports
    confidence := source.confidence
    unresolvedTarget := some (source.importTarget outer captures) }

def collectImports (source : Extraction) (out : ExtractedGraph) :
    Except ParserError ExtractedGraph := do
  let found ← source.found .imports
  return { out with
    nodes := out.nodes ++ found.map (fun (outer, captures) =>
      source.nodeAt .import (source.importTarget outer captures) outer)
    edges := out.edges ++ found.map (fun (outer, captures) =>
      source.importsEdge outer captures) }

/-- Where the edge of a call starts: at the enclosing callable, or at the file
for a call outside of any. -/
def callSource (source : Extraction) (call : TsNode) : GraphId :=
  match enclosingCallable call source.language with
  | some callable => .stable source.filePath callable.startByte .function
  | none => source.fileId

def callEdge (source : Extraction) (call : TsNode) (captures : List Capture) : Edge :=
  let callee := (captureText captures "callee" source.bytes).getD "<unresolved>"
  { source := source.callSource call
    target := .text s!"call::{source.filePath}::{callee}"
    kind := .calls
    confidence := source.confidence
    unresolvedTarget := some callee }

def collectCalls (source : Extraction) (out : ExtractedGraph) :
    Except ParserError ExtractedGraph := do
  let found ← source.found .calls
  return { out with
    edges := out.edges ++ found.map (fun (outer, captures) => source.callEdge outer captures) }

/-- What a class node of the tree says it inherits from. -/
def parentTarget (source : Extraction) (node : TsNode) : Option String :=
  match source.language, node.kind with
  | .python, "class_definition" =>
      ((node.childByFieldName "superclasses").bind (fun inside => inside.utf8Text source.bytes)).map
        (trimMatches (fun char => char = '(' || char = ')'))
  | .typeScript, "class_declaration" | .tsx, "class_declaration"
  | .javaScript, "class_declaration" | .jsx, "class_declaration" =>
      ((node.childByFieldName "heritage").or (node.childByFieldName "superclass")).bind
        (fun inside => inside.utf8Text source.bytes)
  | .java, "class_declaration" =>
      (node.childByFieldName "superclass").bind (fun inside => inside.utf8Text source.bytes)
  | _, _ => none

def inheritsEdge (source : Extraction) (node : TsNode) (target : String) : Edge :=
  { source := .stable source.filePath node.startByte .class
    target := .text s!"ext::{source.filePath}::{trim target}"
    kind := .inherits
    confidence := source.confidence
    unresolvedTarget := some (trim target) }

def collectInheritance (source : Extraction) (out : ExtractedGraph) : ExtractedGraph :=
  { out with
    edges := out.edges ++ (iterAll source.tree).filterMap
      (fun node => (source.parentTarget node).map (source.inheritsEdge node)) }

def extract (source : Extraction) : Except ParserError ExtractedGraph := do
  let out : ExtractedGraph :=
    { nodes := [source.fileNode], edges := [], issues := source.collectErrors }
  let out ← source.collectNamed .functions .function out
  let out ← source.collectNamed .classes .class out
  let out ← source.collectNamed .decorators .decorator out
  let out ← source.collectNamed .comments .comment out
  let out ← source.collectImports out
  let out ← source.collectCalls out
  return source.collectInheritance out

end Extraction

end Mneme.Parsers
