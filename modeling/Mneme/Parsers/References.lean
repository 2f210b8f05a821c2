/-
When the call and inheritance edges of an extracted graph start at a node of
that graph.

The id of a node is made from the start of the last capture of a match, the
`from` of an edge from the start of the enclosing syntax node; the two agree
exactly when some match ends in a capture that starts where that node does.
-/

import Mneme.Library.Fallible
import Mneme.Parsers.Extractor

namespace Mneme.Parsers

open Common Library

namespace ExtractedGraph

def HasNode (graph : ExtractedGraph) (id : GraphId) : Prop :=
  ∃ node ∈ graph.nodes, node.id = id

instance (graph : ExtractedGraph) (id : GraphId) : Decidable (graph.HasNode id) :=
  inferInstanceAs (Decidable (∃ node ∈ graph.nodes, node.id = id))

/-- Every call and inheritance edge starts at a node of the graph. -/
def SourcesPresent (graph : ExtractedGraph) : Prop :=
  ∀ edge ∈ graph.edges, edge.kind = .calls ∨ edge.kind = .inherits → graph.HasNode edge.source

instance (graph : ExtractedGraph) : Decidable graph.SourcesPresent :=
  inferInstanceAs (Decidable (∀ edge ∈ graph.edges, _ → _))

end ExtractedGraph

namespace Extraction

def matchesOf (source : Extraction) (kind : QueryKind) : List (List Capture) :=
  source.treeSitter.queryMatches (patternFor source.language kind) source.tree

/-- Some match of the queries ends in a capture that starts at the byte. -/
def CapturedAt (source : Extraction) (kind : QueryKind) (startByte : Nat) : Prop :=
  ∃ captures ∈ source.matchesOf kind, ∃ outer, outerOf captures = some outer ∧
    outer.startByte = startByte

/-- Each call in a callable, and each class that inherits, has a match whose
last capture starts where the callable, or the class, starts. -/
structure Anchored (source : Extraction) : Prop where
  calls : ∀ captures ∈ source.matchesOf .calls, ∀ call, outerOf captures = some call →
    ∀ callable, enclosingCallable call source.language = some callable →
      source.CapturedAt .functions callable.startByte
  inherits : ∀ node ∈ iterAll source.tree, (source.parentTarget node).isSome →
    source.CapturedAt .classes node.startByte

/-! ### What an extraction consists of -/

variable {source : Extraction}

theorem mem_found {kind : QueryKind}
    {found : List (TsNode × List Capture)} (queried : source.found kind = .ok found)
    (outer : TsNode) (captures : List Capture) :
    (outer, captures) ∈ found ↔
      captures ∈ source.matchesOf kind ∧ outerOf captures = some outer := by
  obtain ⟨query, accepted, built⟩ := bind_eq_ok.mp queried
  have table : query = patternFor source.language kind := by
    unfold getQuery at accepted
    split at accepted
    · split at accepted
      · exact (Except.ok.inj accepted).symm
      · cases accepted
    · cases accepted
  rw [← Except.ok.inj built, table, List.mem_filterMap]
  constructor
  · rintro ⟨matched, member, same⟩
    obtain ⟨last, atEnd, pair⟩ := Option.map_eq_some_iff.mp same
    cases pair
    exact ⟨member, atEnd⟩
  · rintro ⟨member, atEnd⟩
    exact ⟨captures, member, by rw [atEnd]; rfl⟩

/-- The passes that add nodes, with the kind of the nodes they add. -/
def nodePasses : List (QueryKind × NodeKind) :=
  [(.functions, .function), (.classes, .class), (.decorators, .decorator),
    (.comments, .comment), (.imports, .import)]

theorem nodePasses_notFile : ∀ pass ∈ nodePasses, pass.2 ≠ .file := by
  decide

/-- The passes add nodes of different kinds. -/
theorem nodePasses_kind : ∀ pass ∈ nodePasses, ∀ other ∈ nodePasses, pass.2 = other.2 →
    pass = other := by
  decide

/-- The name a pass gives its nodes. -/
def nameOf (source : Extraction) (kind : NodeKind) (outer : TsNode) (captures : List Capture) :
    String :=
  if kind = .import then source.importTarget outer captures
  else (captureText captures "name" source.bytes).getD ""

/-- The edge from the file to a node of a pass. -/
def memberEdge (source : Extraction) (kind : NodeKind) (outer : TsNode)
    (captures : List Capture) : Edge :=
  if kind = .import then source.importsEdge outer captures else source.containsEdge kind outer

/-- A graph by the matches it was made from. -/
structure MadeFrom (source : Extraction) (found : QueryKind → List (TsNode × List Capture))
    (graph : ExtractedGraph) : Prop where
  queried : ∀ kind, kind ≠ .errors → source.found kind = .ok (found kind)
  nodes : graph.nodes = source.fileNode :: nodePasses.flatMap (fun pass =>
    (found pass.1).map (fun (outer, captures) =>
      source.nodeAt pass.2 (source.nameOf pass.2 outer captures) outer))
  edges : graph.edges = nodePasses.flatMap (fun pass =>
      (found pass.1).map (fun (outer, captures) => source.memberEdge pass.2 outer captures)) ++
    ((found .calls).map (fun (outer, captures) => source.callEdge outer captures) ++
      (iterAll source.tree).filterMap
        (fun node => (source.parentTarget node).map (source.inheritsEdge node)))

variable {graph : ExtractedGraph}

theorem extract_madeFrom (extracted : source.extract = .ok graph) :
    ∃ found, source.MadeFrom found graph := by
  obtain ⟨_, named, extracted⟩ := bind_eq_ok.mp extracted
  obtain ⟨functions, foundFunctions, built⟩ := bind_eq_ok.mp named
  cases built
  obtain ⟨_, named, extracted⟩ := bind_eq_ok.mp extracted
  obtain ⟨classes, foundClasses, built⟩ := bind_eq_ok.mp named
  cases built
  obtain ⟨_, named, extracted⟩ := bind_eq_ok.mp extracted
  obtain ⟨decorators, foundDecorators, built⟩ := bind_eq_ok.mp named
  cases built
  obtain ⟨_, named, extracted⟩ := bind_eq_ok.mp extracted
  obtain ⟨comments, foundComments, built⟩ := bind_eq_ok.mp named
  cases built
  obtain ⟨_, imported, extracted⟩ := bind_eq_ok.mp extracted
  obtain ⟨imports, foundImports, built⟩ := bind_eq_ok.mp imported
  cases built
  obtain ⟨_, called, extracted⟩ := bind_eq_ok.mp extracted
  obtain ⟨calls, foundCalls, built⟩ := bind_eq_ok.mp called
  cases built
  cases extracted
  refine ⟨fun kind => (source.found kind).toOption.getD [], ?_, ?_, ?_⟩
  · intro kind queried
    cases kind with
    | functions => rw [foundFunctions]; rfl
    | classes => rw [foundClasses]; rfl
    | calls => rw [foundCalls]; rfl
    | imports => rw [foundImports]; rfl
    | decorators => rw [foundDecorators]; rfl
    | comments => rw [foundComments]; rfl
    | errors => exact absurd rfl queried
  · simp [nodePasses, nameOf, collectInheritance, foundFunctions, foundClasses, foundDecorators,
      foundComments, foundImports, Except.toOption]
  · simp [nodePasses, memberEdge, collectInheritance, foundFunctions, foundClasses,
      foundDecorators, foundComments, foundImports, foundCalls, Except.toOption]

/-- The ids of a graph are the file's and those of its passes. -/
theorem hasNode_iff (extracted : source.extract = .ok graph) (id : GraphId) :
    graph.HasNode id ↔ id = source.fileId ∨ ∃ pass ∈ nodePasses, ∃ startByte,
      source.CapturedAt pass.1 startByte ∧ id = .stable source.filePath startByte pass.2 := by
  obtain ⟨found, made⟩ := extract_madeFrom extracted
  have queried : ∀ pass ∈ nodePasses, source.found pass.1 = .ok (found pass.1) := by
    intro pass member
    apply made.queried
    intro errors
    revert pass
    decide
  unfold ExtractedGraph.HasNode
  rw [made.nodes]
  constructor
  · rintro ⟨node, member, rfl⟩
    rcases List.mem_cons.mp member with rfl | member
    · exact Or.inl rfl
    · right
      obtain ⟨pass, listed, member⟩ := List.mem_flatMap.mp member
      obtain ⟨⟨outer, captures⟩, held, rfl⟩ := List.mem_map.mp member
      obtain ⟨matched, atEnd⟩ := (mem_found (queried pass listed) outer captures).mp held
      exact ⟨pass, listed, outer.startByte, ⟨captures, matched, outer, atEnd, rfl⟩, rfl⟩
  · rintro (rfl | ⟨pass, listed, startByte, ⟨captures, matched, outer, atEnd, rfl⟩, rfl⟩)
    · exact ⟨source.fileNode, List.mem_cons_self, rfl⟩
    · have held := (mem_found (queried pass listed) outer captures).mpr ⟨matched, atEnd⟩
      refine ⟨_, List.mem_cons_of_mem _ (List.mem_flatMap.mpr ⟨pass, listed,
        List.mem_map.mpr ⟨(outer, captures), held, rfl⟩⟩), rfl⟩

/-- A function or class node is there when some match of its pass ends where
its id says. -/
theorem hasNode_stable_iff (extracted : source.extract = .ok graph) {pass : QueryKind × NodeKind}
    (listed : pass ∈ nodePasses) (startByte : Nat) :
    graph.HasNode (.stable source.filePath startByte pass.2) ↔
      source.CapturedAt pass.1 startByte := by
  rw [hasNode_iff extracted]
  constructor
  · rintro (file | ⟨other, alsoListed, start, captured, same⟩)
    · exact absurd (GraphId.stable.inj file).2.2 (nodePasses_notFile pass listed)
    · obtain ⟨_, rfl, sameKind⟩ := GraphId.stable.inj same
      rw [nodePasses_kind pass listed other alsoListed sameKind]
      exact captured
  · intro captured
    exact Or.inr ⟨pass, listed, startByte, captured, rfl⟩

theorem memberEdge_kind (source : Extraction) (kind : NodeKind) (outer : TsNode)
    (captures : List Capture) :
    (source.memberEdge kind outer captures).kind = .imports ∨
      (source.memberEdge kind outer captures).kind = .contains := by
  unfold memberEdge
  split
  · exact Or.inl rfl
  · exact Or.inr rfl

theorem passEdges_kind {found : QueryKind → List (TsNode × List Capture)} {edge : Edge}
    (member : edge ∈ nodePasses.flatMap (fun pass =>
      (found pass.1).map (fun (outer, captures) => source.memberEdge pass.2 outer captures))) :
    edge.kind ≠ .calls ∧ edge.kind ≠ .inherits := by
  obtain ⟨pass, _, member⟩ := List.mem_flatMap.mp member
  obtain ⟨⟨outer, captures⟩, _, rfl⟩ := List.mem_map.mp member
  rcases memberEdge_kind source pass.2 outer captures with imports | contains
  · simp [imports]
  · simp [contains]

theorem mem_callEdges_iff (extracted : source.extract = .ok graph) (edge : Edge) :
    (edge ∈ graph.edges ∧ edge.kind = .calls) ↔
      ∃ captures ∈ source.matchesOf .calls, ∃ call, outerOf captures = some call ∧
        edge = source.callEdge call captures := by
  obtain ⟨found, made⟩ := extract_madeFrom extracted
  have queried := made.queried .calls (by decide)
  rw [made.edges]
  constructor
  · rintro ⟨member, calls⟩
    rcases List.mem_append.mp member with member | member
    · exact absurd calls (passEdges_kind member).1
    · rcases List.mem_append.mp member with member | member
      · obtain ⟨⟨call, captures⟩, held, rfl⟩ := List.mem_map.mp member
        obtain ⟨matched, atEnd⟩ := (mem_found queried call captures).mp held
        exact ⟨captures, matched, call, atEnd, rfl⟩
      · obtain ⟨node, _, inherits⟩ := List.mem_filterMap.mp member
        obtain ⟨target, _, rfl⟩ := Option.map_eq_some_iff.mp inherits
        cases calls
  · rintro ⟨captures, matched, call, atEnd, rfl⟩
    have held := (mem_found queried call captures).mpr ⟨matched, atEnd⟩
    refine ⟨List.mem_append_right _ (List.mem_append_left _ ?_), rfl⟩
    exact List.mem_map.mpr ⟨(call, captures), held, rfl⟩

theorem mem_inheritsEdges_iff (extracted : source.extract = .ok graph) (edge : Edge) :
    (edge ∈ graph.edges ∧ edge.kind = .inherits) ↔
      ∃ node ∈ iterAll source.tree, ∃ target, source.parentTarget node = some target ∧
        edge = source.inheritsEdge node target := by
  obtain ⟨found, made⟩ := extract_madeFrom extracted
  rw [made.edges]
  constructor
  · rintro ⟨member, inherits⟩
    rcases List.mem_append.mp member with member | member
    · exact absurd inherits (passEdges_kind member).2
    · rcases List.mem_append.mp member with member | member
      · obtain ⟨⟨call, captures⟩, _, rfl⟩ := List.mem_map.mp member
        cases inherits
      · obtain ⟨node, visited, made⟩ := List.mem_filterMap.mp member
        obtain ⟨target, named, rfl⟩ := Option.map_eq_some_iff.mp made
        exact ⟨node, visited, target, named, rfl⟩
  · rintro ⟨node, visited, target, named, rfl⟩
    refine ⟨List.mem_append_right _ (List.mem_append_right _ ?_), rfl⟩
    exact List.mem_filterMap.mpr ⟨node, visited, by rw [named]; rfl⟩

/-- The call and inheritance edges of an extracted graph start at its nodes
exactly when every enclosing callable and every inheriting class is where some
match ends. -/
theorem sourcesPresent_iff_anchored {source : Extraction} {graph : ExtractedGraph}
    (extracted : source.extract = .ok graph) : graph.SourcesPresent ↔ source.Anchored := by
  have functionPass : (QueryKind.functions, NodeKind.function) ∈ nodePasses := by decide
  have classPass : (QueryKind.classes, NodeKind.class) ∈ nodePasses := by decide
  constructor
  · intro present
    refine ⟨?_, ?_⟩
    · intro captures matched call atEnd callable encloses
      obtain ⟨member, kind⟩ := (mem_callEdges_iff extracted _).mpr ⟨captures, matched, call, atEnd, rfl⟩
      have there := present _ member (Or.inl kind)
      have sourceId : (source.callEdge call captures).source =
          .stable source.filePath callable.startByte .function := by
        change source.callSource call = _
        unfold callSource
        rw [encloses]
      rw [sourceId] at there
      exact (hasNode_stable_iff extracted functionPass _).mp there
    · intro node visited inherits
      obtain ⟨target, named⟩ := Option.isSome_iff_exists.mp inherits
      obtain ⟨member, kind⟩ := (mem_inheritsEdges_iff extracted _).mpr ⟨node, visited, target, named, rfl⟩
      have there := present _ member (Or.inr kind)
      exact (hasNode_stable_iff extracted classPass _).mp there
  · intro anchored edge member kind
    rcases kind with calls | inherits
    · obtain ⟨captures, matched, call, atEnd, rfl⟩ :=
        (mem_callEdges_iff extracted edge).mp ⟨member, calls⟩
      change graph.HasNode (source.callSource call)
      unfold callSource
      split
      · rename_i callable encloses
        exact (hasNode_stable_iff extracted functionPass _).mpr
          (anchored.calls captures matched call atEnd callable encloses)
      · exact (hasNode_iff extracted _).mpr (Or.inl rfl)
    · obtain ⟨node, visited, target, named, rfl⟩ :=
        (mem_inheritsEdges_iff extracted edge).mp ⟨member, inherits⟩
      exact (hasNode_stable_iff extracted classPass _).mpr
        (anchored.inherits node visited (by rw [named]; rfl))

/-! ### Two small files -/

/-- A node on the first line. -/
def spanning (kind : String) (field : Option String) (startByte endByte : Nat)
    (children : List Tree) : Tree :=
  .node
    { kind, named := true, missing := false, field, startByte, endByte, startRow := 0, endRow := 0 }
    children

/-- `() => f()` -/
def arrowFile : Extraction :=
  { treeSitter := .documented (fun _ _ => none)
    language := .javaScript
    tree := spanning "program" none 0 9
      [spanning "expression_statement" none 0 9
        [spanning "arrow_function" none 0 9
          [spanning "formal_parameters" (some "parameters") 0 2 [],
            spanning "call_expression" (some "body") 6 9
              [spanning "identifier" (some "function") 6 7 [],
                spanning "arguments" (some "arguments") 7 9 []]]]]
    bytes := "() => f()".toUTF8
    filePath := "a.js" }

theorem sourcesPresent_iff_anchored_arrow :
    ∃ graph, arrowFile.extract = .ok graph ∧ graph.edges.length = 2 ∧ graph.SourcesPresent ∧
      (graph.SourcesPresent ↔ arrowFile.Anchored) := by
  have evaluated : (match arrowFile.extract with
      | .ok graph => decide (graph.edges.length = 2 ∧ graph.SourcesPresent)
      | .error _ => false) = true := by decide
  split at evaluated
  · rename_i graph extracted
    obtain ⟨edges, present⟩ := of_decide_eq_true evaluated
    exact ⟨graph, extracted, edges, present, sourcesPresent_iff_anchored extracted⟩
  · cases evaluated

/-- `fn a() { b(); }` -/
def nestedCallFile : Extraction :=
  { treeSitter := .documented (fun _ _ => none)
    language := .rust
    tree := spanning "source_file" none 0 15
      [spanning "function_item" none 0 15
        [spanning "identifier" (some "name") 3 4 [],
          spanning "parameters" (some "parameters") 4 6 [],
          spanning "block" (some "body") 7 15
            [spanning "expression_statement" none 9 13
              [spanning "call_expression" none 9 12
                [spanning "identifier" (some "function") 9 10 [],
                  spanning "arguments" (some "arguments") 10 12 []]]]]]
    bytes := "fn a() { b(); }".toUTF8
    filePath := "a.rs" }

/-- The function node has the id of its name, the call edge the id of the
function item. -/
theorem nested_call_detached :
    ¬ ∀ source : Extraction, source.treeSitter.DeliversInOrder →
      ∀ graph, source.extract = .ok graph → graph.SourcesPresent := by
  intro always
  have evaluated : (match nestedCallFile.extract with
      | .ok graph => decide (¬ graph.SourcesPresent)
      | .error _ => false) = true := by decide
  split at evaluated
  · rename_i graph extracted
    exact of_decide_eq_true evaluated
      (always nestedCallFile (TreeSitter.documented_deliversInOrder _) graph extracted)
  · cases evaluated

end Extraction

end Mneme.Parsers
