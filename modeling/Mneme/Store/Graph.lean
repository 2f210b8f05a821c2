/-
The nodes and edges tables of a graph shard, the statements run on them, and
the rows an extracted graph is written as.
-/

import Mneme.Library.Keyed
import Mneme.Parsers.Extractor

namespace Mneme.Store

open Common Library Parsers

/-! ### The tables -/

/-- A row of `nodes` but for its row id and its time stamp. -/
structure NodeRow where
  kind : String
  name : String
  qualifiedName : GraphId
  filePath : Option Path
  lineStart : Option Nat
  lineEnd : Option Nat
  language : Option String
  parentQualified : Option String := none
  signature : Option String := none
  modifiers : Option String := none
  isTest : Nat := 0
  fileHash : Option String := none
  summary : Option String := none
  embeddingId : Option Nat := none
  extra : Json

/-- A row of `edges` but for its row id and its time stamp. -/
structure EdgeRow where
  kind : String
  sourceQualified : GraphId
  targetQualified : GraphId
  confidence : String
  confidenceScore : Rat
  filePath : Option Path := none
  line : Option Nat := none
  sourceExtractor : String
  extra : Json

/-- `qualified_name` is unique in `nodes`; `edges` has no key. -/
structure GraphShard where
  nodes : Keyed NodeRow.qualifiedName
  edges : List EdgeRow

namespace GraphShard

def empty : GraphShard :=
  { nodes := .empty, edges := [] }

/-- `SELECT qualified_name FROM nodes WHERE file_path = ?` -/
def qualifiedNamesOf (path : Path) (shard : GraphShard) : List GraphId :=
  (shard.nodes.rows.filter (fun row => row.filePath = some path)).map NodeRow.qualifiedName

/-- `INSERT OR REPLACE INTO nodes` -/
def insertNode (row : NodeRow) (shard : GraphShard) : GraphShard :=
  { shard with nodes := shard.nodes.put row }

/-- `INSERT INTO edges` -/
def insertEdge (row : EdgeRow) (shard : GraphShard) : GraphShard :=
  { shard with edges := shard.edges ++ [row] }

/-- `DELETE FROM edges WHERE source_qualified = ?` -/
def deleteEdgesFrom (id : GraphId) (shard : GraphShard) : GraphShard :=
  { shard with edges := shard.edges.filter (fun row => row.sourceQualified ≠ id) }

/-- `DELETE FROM edges WHERE source_qualified = ? OR target_qualified = ?` -/
def deleteEdgesAt (id : GraphId) (shard : GraphShard) : GraphShard :=
  { shard with
    edges := shard.edges.filter (fun row => row.sourceQualified ≠ id ∧ row.targetQualified ≠ id) }

/-- `DELETE FROM nodes WHERE file_path = ?` -/
def deleteNodesOf (path : Path) (shard : GraphShard) : GraphShard :=
  { shard with nodes := shard.nodes.keep (fun row => row.filePath ≠ some path) }

end GraphShard

/-! ### The rows of an extracted graph -/

def lowercaseKind : NodeKind → String
  | .function => "function"
  | .method => "method"
  | .class => "class"
  | .struct => "struct"
  | .trait => "trait"
  | .interface => "interface"
  | .enum => "enum"
  | .module => "module"
  | .variable => "variable"
  | .constant => "constant"
  | .decorator => "decorator"
  | .comment => "comment"
  | .import => "import"
  | .file => "file"

def lowercaseEdgeKind : EdgeKind → String
  | .calls => "calls"
  | .inherits => "inherits"
  | .implements => "implements"
  | .decoratedBy => "decoratedby"
  | .imports => "imports"
  | .contains => "contains"
  | .generic => "generic"

def lowercaseConfidence : Confidence → String
  | .extracted => "extracted"
  | .inferred => "inferred"
  | .ambiguous => "ambiguous"

/-- The `f32` weights 1.0, 0.6 and 0.2, read as `f64`. -/
def weight : Confidence → Rat
  | .extracted => 1
  | .inferred => 10066330 / 16777216
  | .ambiguous => 13421773 / 67108864

def nodeRow (node : Node) : NodeRow :=
  { kind := lowercaseKind node.kind
    name := node.name
    qualifiedName := node.id
    filePath := some node.file
    lineStart := some node.lineRange.1
    lineEnd := some node.lineRange.2
    language := some (toAsciiLowercase node.language.variant)
    extra := .object [("byte_range", .array [.nat node.byteRange.1, .nat node.byteRange.2]),
      ("confidence", .string (lowercaseConfidence node.confidence))] }

def edgeRow (sourceExtractor : String) (edge : Edge) : EdgeRow :=
  { kind := lowercaseEdgeKind edge.kind
    sourceQualified := edge.source
    targetQualified := edge.target
    confidence := lowercaseConfidence edge.confidence
    confidenceScore := weight edge.confidence
    sourceExtractor := sourceExtractor
    extra := .object [("unresolved", Json.option .string edge.unresolvedTarget)] }

/-- The two insert loops, in the build under the tag `parsers` and in the
watcher under the tag `watcher`. -/
def persist (sourceExtractor : String) (graph : ExtractedGraph) (shard : GraphShard) : GraphShard :=
  let withNodes := graph.nodes.foldl (fun shard node => shard.insertNode (nodeRow node)) shard
  graph.edges.foldl (fun shard edge => shard.insertEdge (edgeRow sourceExtractor edge)) withNodes

theorem foldl_insertNode (nodes : List Node) (shard : GraphShard) :
    nodes.foldl (fun shard node => shard.insertNode (nodeRow node)) shard =
      { shard with nodes := shard.nodes.putAll (nodes.map nodeRow) } := by
  induction nodes generalizing shard with
  | nil => rfl
  | cons node nodes ih =>
      rw [List.foldl_cons, ih]
      rfl

theorem foldl_insertEdge (sourceExtractor : String) (edges : List Edge) (shard : GraphShard) :
    edges.foldl (fun shard edge => shard.insertEdge (edgeRow sourceExtractor edge)) shard =
      { shard with edges := shard.edges ++ edges.map (edgeRow sourceExtractor) } := by
  induction edges generalizing shard with
  | nil =>
      rw [List.foldl_nil, List.map_nil, List.append_nil]
  | cons edge edges ih =>
      rw [List.foldl_cons, ih]
      unfold GraphShard.insertEdge
      rw [List.append_assoc]
      rfl

theorem persist_eq (sourceExtractor : String) (graph : ExtractedGraph) (shard : GraphShard) :
    persist sourceExtractor graph shard =
      { nodes := shard.nodes.putAll (graph.nodes.map nodeRow)
        edges := shard.edges ++ graph.edges.map (edgeRow sourceExtractor) } := by
  unfold persist
  rw [foldl_insertNode, foldl_insertEdge]

end Mneme.Store
