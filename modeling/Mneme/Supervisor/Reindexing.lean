/-
When a re-index leaves the rows that a fresh build of the file would write.

Both paths write the rows of one extracted graph.  The re-index deletes no node
row and only those edges that start at a node row of the file, so the rows
agree exactly when the new content replaces every old node row and every old
edge of the file starts at one of them.
-/

import Mneme.Cli.Build
import Mneme.Parsers.References
import Mneme.Supervisor.Watcher

namespace Mneme.Supervisor

open Common Library Parsers Store

/-! ### The rows of a file -/

/-- The id was made for a node of the file. -/
def madeFor (path : Path) : GraphId → Bool
  | .stable owner _ _ => owner = path
  | .text _ => false

def nodesOf (path : Path) (shard : GraphShard) : List NodeRow :=
  shard.nodes.rows.filter (fun row => row.filePath = some path)

/-- The edges extracted from the file start at an id made for it. -/
def edgesOf (path : Path) (shard : GraphShard) : List EdgeRow :=
  shard.edges.filter (fun row => madeFor path row.sourceQualified)

/-- An edge row but for the name of the program that wrote it. -/
def untagged (row : EdgeRow) : EdgeRow :=
  { row with sourceExtractor := "" }

/-- The two shards hold the same rows of the file, edges with their
multiplicity. -/
def SameRows (path : Path) (left right : GraphShard) : Prop :=
  (nodesOf path left).Perm (nodesOf path right) ∧
    ((edgesOf path left).map untagged).Perm ((edgesOf path right).map untagged)

/-! ### What both paths have in common -/

/-- The graph extracted from a content, when the file is indexed at all. -/
def extractedGraph (treeSitter : TreeSitter) (path : Path) (content : Option ByteArray) :
    Option ExtractedGraph :=
  match Language.fromFilename path with
  | none => none
  | some language =>
      if language.isEnabled then
        match content with
        | none => none
        | some bytes =>
            if looksBinary bytes then none
            else
              match treeSitter.parse language bytes with
              | none => none
              | some tree =>
                  let source : Extraction := { treeSitter, language, tree, bytes, filePath := path }
                  match source.extract with
                  | .error _ => none
                  | .ok graph => some graph
      else none

/-- The old rows of the file all give way: every node row to a node of the new
content, and every edge by starting at a node row of the file. -/
def GivesWay (path : Path) (prior : GraphShard) : Option ExtractedGraph → Prop
  | none => nodesOf path prior = [] ∧ edgesOf path prior = []
  | some graph =>
      (∀ row ∈ nodesOf path prior, graph.HasNode row.qualifiedName) ∧
        ∀ row ∈ edgesOf path prior, row.sourceQualified ∈ prior.qualifiedNamesOf path

theorem looksBinary_eq (bytes : ByteArray) : Cli.looksBinary bytes = looksBinary bytes := rfl

variable (treeSitter : TreeSitter)

variable (path : Path)

theorem indexFile_eq (content : Option ByteArray) (shard : GraphShard) :
    Cli.indexFile treeSitter path content shard =
      match extractedGraph treeSitter path content with
      | none => (.skipped, shard)
      | some graph =>
          (.indexed graph.nodes.length graph.edges.length, persist "parsers" graph shard) := by
  unfold Cli.indexFile extractedGraph
  cases Language.fromFilename path with
  | none => rfl
  | some language =>
      by_cases enabled : language.isEnabled = true
      · simp only [enabled, if_true]
        cases content with
        | none => rfl
        | some bytes =>
            by_cases binary : looksBinary bytes = true
            · simp only [looksBinary_eq, binary, if_true]
            · simp only [looksBinary_eq, binary, if_false, Bool.false_eq_true]
              cases treeSitter.parse language bytes with
              | none => rfl
              | some tree =>
                  dsimp only
                  cases ({ treeSitter, language, tree, bytes, filePath := path } : Extraction).extract with
                  | error error => rfl
                  | ok graph => rfl
      · simp only [if_neg enabled]

theorem indexFile_shard (content : Option ByteArray) (shard : GraphShard) :
    (Cli.indexFile treeSitter path content shard).2 =
      match extractedGraph treeSitter path content with
      | none => shard
      | some graph => persist "parsers" graph shard := by
  rw [indexFile_eq]
  cases extractedGraph treeSitter path content <;> rfl

/-- An upsert of a file that is not indexed leaves the shard alone. -/
theorem upsertFile_eq (content : Option ByteArray) (shard : GraphShard) :
    match extractedGraph treeSitter path content with
    | none => (∀ nodes edges, (upsertFile treeSitter path content shard).1 ≠ .upserted nodes edges) ∧
        (upsertFile treeSitter path content shard).2 = shard
    | some graph => upsertFile treeSitter path content shard = upsertGraph path graph shard := by
  unfold upsertFile extractedGraph
  cases Language.fromFilename path with
  | none => exact ⟨fun _ _ => Reindex.noConfusion, rfl⟩
  | some language =>
      by_cases enabled : language.isEnabled = true
      · simp only [enabled, if_true]
        cases content with
        | none => exact ⟨fun _ _ => Reindex.noConfusion, rfl⟩
        | some bytes =>
            by_cases binary : looksBinary bytes = true
            · simp only [binary, if_true]
              exact ⟨fun _ _ => Reindex.noConfusion, trivial⟩
            · simp only [binary, if_false, Bool.false_eq_true]
              cases treeSitter.parse language bytes with
              | none => exact ⟨fun _ _ => Reindex.noConfusion, rfl⟩
              | some tree =>
                  dsimp only
                  cases ({ treeSitter, language, tree, bytes, filePath := path } : Extraction).extract with
                  | error error => exact ⟨fun _ _ => Reindex.noConfusion, rfl⟩
                  | ok graph => rfl
      · simp only [if_neg enabled]
        exact ⟨fun _ _ => Reindex.noConfusion, trivial⟩

theorem upsertFile_shard (content : Option ByteArray) (shard : GraphShard) :
    (upsertFile treeSitter path content shard).2 =
      match extractedGraph treeSitter path content with
      | none => shard
      | some graph => (upsertGraph path graph shard).2 := by
  have outcome := upsertFile_eq treeSitter path content shard
  cases extracted : extractedGraph treeSitter path content with
  | none =>
      rw [extracted] at outcome
      exact outcome.2
  | some graph =>
      rw [extracted] at outcome
      exact congrArg Prod.snd outcome

theorem upserted_iff (content : Option ByteArray) (shard : GraphShard) :
    (∃ nodes edges, (upsertFile treeSitter path content shard).1 = .upserted nodes edges) ↔
      (extractedGraph treeSitter path content).isSome := by
  have outcome := upsertFile_eq treeSitter path content shard
  cases extracted : extractedGraph treeSitter path content with
  | none =>
      rw [extracted] at outcome
      exact iff_of_false (fun ⟨nodes, edges, same⟩ => outcome.1 nodes edges same)
        Bool.false_ne_true
  | some graph =>
      rw [extracted] at outcome
      exact iff_of_true ⟨_, _, congrArg Prod.fst outcome⟩ rfl

theorem indexed_iff (content : Option ByteArray) (shard : GraphShard) :
    (∃ nodes edges, (Cli.indexFile treeSitter path content shard).1 = .indexed nodes edges) ↔
      (extractedGraph treeSitter path content).isSome := by
  rw [indexFile_eq]
  cases extractedGraph treeSitter path content with
  | none => exact iff_of_false (fun ⟨_, _, same⟩ => Cli.Visit.noConfusion same) Bool.false_ne_true
  | some graph => exact iff_of_true ⟨_, _, rfl⟩ rfl

theorem foldl_deleteEdgesFrom (ids : List GraphId) (shard : GraphShard) :
    ids.foldl (fun shard id => shard.deleteEdgesFrom id) shard =
      { shard with edges := shard.edges.filter (fun row => row.sourceQualified ∉ ids) } := by
  induction ids generalizing shard with
  | nil => simp
  | cons id ids ih =>
      rw [List.foldl_cons, ih]
      unfold GraphShard.deleteEdgesFrom
      simp only [List.filter_filter, GraphShard.mk.injEq, true_and]
      apply List.filter_congr
      intro row _
      simp only [List.mem_cons, not_or, Bool.decide_and, ne_eq]
      rw [Bool.and_comm]

theorem foldl_deleteEdgesAt (ids : List GraphId) (shard : GraphShard) :
    ids.foldl (fun shard id => shard.deleteEdgesAt id) shard =
      { shard with
        edges := shard.edges.filter
          (fun row => row.sourceQualified ∉ ids ∧ row.targetQualified ∉ ids) } := by
  induction ids generalizing shard with
  | nil => simp
  | cons id ids ih =>
      rw [List.foldl_cons, ih]
      unfold GraphShard.deleteEdgesAt
      simp only [List.filter_filter, GraphShard.mk.injEq, true_and]
      apply List.filter_congr
      intro row _
      simp only [List.mem_cons, not_or, Bool.decide_and, ne_eq]
      rw [Bool.eq_iff_iff]
      simp only [Bool.and_eq_true, decide_eq_true_eq]
      tauto

/-! ### The extracted rows belong to the file -/

variable {graph : ExtractedGraph}

theorem extract_of_extractedGraph {treeSitter : TreeSitter} {path : Path}
    {content : Option ByteArray} (extracted : extractedGraph treeSitter path content = some graph) :
    ∃ source : Extraction, source.filePath = path ∧ source.extract = .ok graph := by
  unfold extractedGraph at extracted
  split at extracted
  · cases extracted
  · rename_i language _
    split at extracted
    · split at extracted
      · cases extracted
      · rename_i bytes
        split at extracted
        · cases extracted
        · split at extracted
          · cases extracted
          · rename_i tree _
            dsimp only at extracted
            split at extracted
            · cases extracted
            · rename_i result done
              cases extracted
              exact ⟨{ treeSitter, language, tree, bytes, filePath := path }, rfl, done⟩
    · cases extracted

theorem file_of_extracted {source : Extraction}
    (extracted : source.extract = .ok graph) {node : Node} (member : node ∈ graph.nodes) :
    node.file = source.filePath := by
  obtain ⟨found, made⟩ := Extraction.extract_madeFrom extracted
  rw [made.nodes] at member
  rcases List.mem_cons.mp member with rfl | member
  · rfl
  · obtain ⟨pass, _, member⟩ := List.mem_flatMap.mp member
    obtain ⟨_, _, rfl⟩ := List.mem_map.mp member
    rfl

theorem madeFor_callSource (source : Extraction) (call : TsNode) :
    madeFor source.filePath (source.callSource call) = true := by
  unfold Extraction.callSource
  split
  · exact decide_eq_true rfl
  · exact decide_eq_true rfl

theorem madeFor_memberEdge (source : Extraction) (kind : NodeKind) (outer : TsNode)
    (captures : List Capture) :
    madeFor source.filePath (source.memberEdge kind outer captures).source = true := by
  unfold Extraction.memberEdge
  split
  · exact decide_eq_true rfl
  · exact decide_eq_true rfl

theorem madeFor_of_extracted {source : Extraction}
    (extracted : source.extract = .ok graph) {edge : Edge} (member : edge ∈ graph.edges) :
    madeFor source.filePath edge.source = true := by
  obtain ⟨found, made⟩ := Extraction.extract_madeFrom extracted
  rw [made.edges] at member
  rcases List.mem_append.mp member with member | member
  · obtain ⟨pass, _, member⟩ := List.mem_flatMap.mp member
    obtain ⟨⟨outer, captures⟩, _, rfl⟩ := List.mem_map.mp member
    exact madeFor_memberEdge source pass.2 outer captures
  · rcases List.mem_append.mp member with member | member
    · obtain ⟨⟨call, captures⟩, _, rfl⟩ := List.mem_map.mp member
      exact madeFor_callSource source call
    · obtain ⟨node, _, inherits⟩ := List.mem_filterMap.mp member
      obtain ⟨target, _, rfl⟩ := Option.map_eq_some_iff.mp inherits
      exact decide_eq_true rfl

/-! ### The rows after either path -/

section Rows

variable {path : Path}

/-- The node rows a graph leaves in an empty shard. -/
def freshNodes (graph : ExtractedGraph) : List NodeRow :=
  ((.empty : Keyed NodeRow.qualifiedName).putAll (graph.nodes.map nodeRow)).rows

/-- The old node rows of the file that no node of the graph replaces. -/
def staleNodes (path : Path) (graph : ExtractedGraph) (prior : GraphShard) : List NodeRow :=
  (nodesOf path prior).filter
    (fun row => row.qualifiedName ∉ (graph.nodes.map nodeRow).map NodeRow.qualifiedName)

/-- The old edges of the file that start at no node row of it. -/
def staleEdges (path : Path) (prior : GraphShard) : List EdgeRow :=
  (edgesOf path prior).filter (fun row => row.sourceQualified ∉ prior.qualifiedNamesOf path)

theorem nodesOf_persist (owned : ∀ node ∈ graph.nodes, node.file = path) (tag : String)
    (shard : GraphShard) :
    nodesOf path (persist tag graph shard) = staleNodes path graph shard ++ freshNodes graph := by
  have fresh : (freshNodes graph).filter (fun row => row.filePath = some path) =
      freshNodes graph := by
    rw [List.filter_eq_self]
    intro row member
    obtain ⟨node, held, rfl⟩ := List.mem_map.mp (Keyed.mem_of_mem_putAll member)
    exact decide_eq_true (congrArg some (owned node held))
  unfold nodesOf staleNodes nodesOf
  rw [persist_eq, Keyed.putAll_rows, List.filter_append, List.filter_filter, List.filter_filter]
  congr 1
  apply List.filter_congr
  intro row _
  rw [Bool.and_comm]

theorem edgesOf_persist (owned : ∀ edge ∈ graph.edges, madeFor path edge.source = true)
    (tag : String) (shard : GraphShard) :
    edgesOf path (persist tag graph shard) = edgesOf path shard ++ graph.edges.map (edgeRow tag) := by
  have fresh : (graph.edges.map (edgeRow tag)).filter
      (fun row => madeFor path row.sourceQualified) = graph.edges.map (edgeRow tag) := by
    rw [List.filter_eq_self]
    intro row member
    obtain ⟨edge, held, rfl⟩ := List.mem_map.mp member
    exact owned edge held
  unfold edgesOf
  rw [persist_eq, List.filter_append, fresh]

theorem untagged_edgeRow (tag other : String) (edges : List Edge) :
    (edges.map (edgeRow tag)).map untagged = (edges.map (edgeRow other)).map untagged := by
  rw [List.map_map, List.map_map]
  rfl

variable (prior : GraphShard)

theorem staleNodes_eq_nil_iff :
    staleNodes path graph prior = [] ↔
      ∀ row ∈ nodesOf path prior, graph.HasNode row.qualifiedName := by
  unfold staleNodes
  rw [List.filter_eq_nil_iff]
  apply forall₂_congr
  intro row _
  simp only [decide_eq_true_eq, not_not, List.map_map, List.mem_map, Function.comp_apply]
  exact Iff.rfl

theorem staleEdges_eq_nil_iff :
    staleEdges path prior = [] ↔
      ∀ row ∈ edgesOf path prior, row.sourceQualified ∈ prior.qualifiedNamesOf path := by
  unfold staleEdges
  rw [List.filter_eq_nil_iff]
  apply forall₂_congr
  intro row _
  rw [decide_eq_true_eq, not_not]

theorem upsertGraph_shard :
    (upsertGraph path graph prior).2 = persist "watcher" graph
      { prior with
        edges := prior.edges.filter
          (fun row => row.sourceQualified ∉ prior.qualifiedNamesOf path) } := by
  unfold upsertGraph
  rw [foldl_deleteEdgesFrom]

theorem nodesOf_upsertGraph (owned : ∀ node ∈ graph.nodes, node.file = path) (prior : GraphShard) :
    nodesOf path (upsertGraph path graph prior).2 =
      staleNodes path graph prior ++ freshNodes graph := by
  rw [upsertGraph_shard, nodesOf_persist owned]
  rfl

theorem edgesOf_upsertGraph (owned : ∀ edge ∈ graph.edges, madeFor path edge.source = true)
    (prior : GraphShard) :
    edgesOf path (upsertGraph path graph prior).2 =
      staleEdges path prior ++ graph.edges.map (edgeRow "watcher") := by
  rw [upsertGraph_shard, edgesOf_persist owned]
  congr 1
  unfold staleEdges edgesOf
  rw [List.filter_filter, List.filter_filter]
  apply List.filter_congr
  intro row _
  rw [Bool.and_comm]

/-- Rows in excess are all that keeps two lists of rows from agreeing. -/
theorem append_perm_iff {Row : Type} (excess rows : List Row) :
    (excess ++ rows).Perm rows ↔ excess = [] := by
  have cancelled := @List.perm_append_right_iff Row excess [] rows
  rw [List.nil_append, List.perm_nil] at cancelled
  exact cancelled

/-- Against a fresh build the re-index has the stale rows in excess. -/
theorem sameRows_upsertGraph_iff (nodesOwned : ∀ node ∈ graph.nodes, node.file = path)
    (edgesOwned : ∀ edge ∈ graph.edges, madeFor path edge.source = true) (prior : GraphShard) :
    SameRows path (upsertGraph path graph prior).2 (persist "parsers" graph .empty) ↔
      staleNodes path graph prior = [] ∧ staleEdges path prior = [] := by
  have noNodes : staleNodes path graph .empty = [] := rfl
  have noEdges : edgesOf path .empty = [] := rfl
  unfold SameRows
  rw [nodesOf_upsertGraph nodesOwned, nodesOf_persist nodesOwned, noNodes, List.nil_append,
    edgesOf_upsertGraph edgesOwned, edgesOf_persist edgesOwned, noEdges, List.nil_append,
    List.map_append, untagged_edgeRow "watcher" "parsers", append_perm_iff, append_perm_iff,
    List.map_eq_nil_iff]

end Rows

theorem sameRows_empty_iff (shard : GraphShard) :
    SameRows path shard .empty ↔ nodesOf path shard = [] ∧ edgesOf path shard = [] := by
  have noNodes : nodesOf path .empty = [] := rfl
  have noEdges : edgesOf path .empty = [] := rfl
  unfold SameRows
  rw [noNodes, noEdges, List.map_nil, List.perm_nil, List.perm_nil, List.map_eq_nil_iff]

theorem sameRows_upsertFile_iff (content : Option ByteArray) (prior : GraphShard) :
    SameRows path (upsertFile treeSitter path content prior).2
        (Cli.indexFile treeSitter path content .empty).2 ↔
      GivesWay path prior (extractedGraph treeSitter path content) := by
  rw [upsertFile_shard, indexFile_shard]
  cases extracted : extractedGraph treeSitter path content with
  | none => exact sameRows_empty_iff path prior
  | some graph =>
      obtain ⟨source, rfl, done⟩ := extract_of_extractedGraph extracted
      have merged := sameRows_upsertGraph_iff (fun _ => file_of_extracted done)
        (fun _ => madeFor_of_extracted done) prior
      rw [staleNodes_eq_nil_iff, staleEdges_eq_nil_iff] at merged
      exact merged

theorem sameRows_reindexOne_iff (treeSitter : TreeSitter) (path : Path)
    (content : Option ByteArray) (prior : GraphShard) :
    SameRows path (reindexOne treeSitter path content .upsert prior).2
        (Cli.indexFile treeSitter path content .empty).2 ↔
      GivesWay path prior (extractedGraph treeSitter path content) :=
  sameRows_upsertFile_iff treeSitter path content prior

/-- Rust trees for `fn a() {}` and for an empty file. -/
def emptiedFile : TreeSitter :=
  .documented (fun _ bytes =>
    if bytes.size = 0 then some (Extraction.spanning "source_file" none 0 0 [])
    else
      some (Extraction.spanning "source_file" none 0 9
        [Extraction.spanning "function_item" none 0 9
          [Extraction.spanning "identifier" (some "name") 3 4 [],
            Extraction.spanning "parameters" (some "parameters") 4 6 [],
            Extraction.spanning "block" (some "body") 7 9 []]]))

/-- The function is deleted from the file, and its node stays. -/
theorem deleted_function_stays :
    ¬ ∀ (treeSitter : TreeSitter) (path : Path) (content : ByteArray) (prior : GraphShard)
      (language : Language), Language.fromFilename path = some language → language.isEnabled →
        SameRows path (reindexOne treeSitter path (some content) .upsert prior).2
          (Cli.indexFile treeSitter path (some content) .empty).2 := by
  intro always
  let prior := (Cli.indexFile emptiedFile "a.rs" (some "fn a() {}".toUTF8) .empty).2
  have same := always emptiedFile "a.rs" ByteArray.empty prior .rust (by decide) rfl
  have lengths := same.1.length_eq
  revert lengths
  decide

end Mneme.Supervisor
