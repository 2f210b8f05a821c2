/-
The in-process build as a whole: the code files of the walk up to the limit,
then the pages of the documents.
-/

import Mneme.Supervisor.Reindexing

namespace Mneme.Cli

open Common Library Parsers Store Supervisor

/-! ### Documents -/

structure PageText where
  index : Nat
  text : String
  heading : Option String

/-- Without the fields that only the `media` table holds. -/
structure ExtractedDoc where
  kind : String
  source : Path
  pages : List PageText
  text : String
  extractorVersion : String

inductive MediaError where
  | unsupported
  | other (message : String)

structure MediaExtractor where
  kinds : List String
  extract : Path → Option ByteArray → Except MediaError ExtractedDoc

abbrev Registry := List MediaExtractor

/-- The lowercase extension, empty where there is none. -/
def extOf (path : Path) : String :=
  ((extension path).map toAsciiLowercase).getD ""

def Registry.find (registry : Registry) (path : Path) : Option MediaExtractor :=
  if extOf path = "" then none
  else List.find? (fun extractor => extOf path ∈ extractor.kinds) registry

def Registry.extract (registry : Registry) (path : Path) (content : Option ByteArray) :
    Except MediaError ExtractedDoc :=
  match registry.find path with
  | some extractor => extractor.extract path content
  | none => .error .unsupported

def scheme : String → String
  | "pdf" => "pdf"
  | "markdown" => "md"
  | "image" => "img"
  | "audio" => "audio"
  | "video" => "video"
  | _ => "file"

def pageRow (doc : ExtractedDoc) (page : PageText) : NodeRow :=
  { kind := s!"{doc.kind}_page"
    name := page.heading.getD s!"Page {page.index}"
    qualifiedName := .text s!"{scheme doc.kind}://{doc.source}#page{page.index}"
    filePath := some doc.source
    lineStart := some page.index
    lineEnd := some page.index
    language := some doc.kind
    summary := some page.text
    extra := .object [("bbox", .null), ("extractor_version", .string doc.extractorVersion),
      ("heading", Json.option .string page.heading), ("kind", .string doc.kind),
      ("page_num", .nat page.index)] }

def pageRecords (doc : ExtractedDoc) : List PageText :=
  if doc.pages.isEmpty then [{ index := 1, text := doc.text, heading := none }] else doc.pages

/-- The rows of a document: one for each page that is not blank. -/
def pageRows (doc : ExtractedDoc) : List NodeRow :=
  ((pageRecords doc).filter (fun page => trim page.text ≠ "")).map (pageRow doc)

/-- The pages written, and the shard; nothing when the source cannot be read. -/
def persistMultimodal (read : Path → Option ByteArray) (doc : ExtractedDoc) (shard : GraphShard) :
    Option (Nat × GraphShard) :=
  match read doc.source with
  | none => none
  | some _ =>
      some ((pageRows doc).length,
        (pageRows doc).foldl (fun shard row => shard.insertNode row) shard)

structure MultimodalStats where
  filesOk : Nat := 0
  filesSkipped : Nat := 0
  pagesTotal : Nat := 0
  errors : Nat := 0

/-- The body of the second walk. -/
def multimodalFile (registry : Registry) (read : Path → Option ByteArray)
    (progress : MultimodalStats × GraphShard) (path : Path) : MultimodalStats × GraphShard :=
  let (stats, shard) := progress
  match registry.find path with
  | none => (stats, shard)
  | some _ =>
      match registry.extract path (read path) with
      | .error .unsupported => (stats, shard)
      | .error (.other _) =>
          ({ stats with errors := stats.errors + 1, filesSkipped := stats.filesSkipped + 1 }, shard)
      | .ok doc =>
          match persistMultimodal read doc shard with
          | none =>
              ({ stats with errors := stats.errors + 1, filesSkipped := stats.filesSkipped + 1 },
                shard)
          | some (pages, written) =>
              ({ stats with filesOk := stats.filesOk + 1, pagesTotal := stats.pagesTotal + pages },
                written)

def runMultimodalPass (registry : Registry) (read : Path → Option ByteArray) (paths : List Path)
    (shard : GraphShard) : MultimodalStats × GraphShard :=
  paths.foldl (multimodalFile registry read) ({ }, shard)

/-! ### The run -/

structure BuildTotals where
  walked : Nat := 0
  indexed : Nat := 0
  skipped : Nat := 0
  nodes : Nat := 0
  edges : Nat := 0

def countVisit (totals : BuildTotals) : Visit → BuildTotals
  | .skipped => { totals with walked := totals.walked + 1, skipped := totals.skipped + 1 }
  | .indexed nodes edges =>
      { totals with
        walked := totals.walked + 1
        indexed := totals.indexed + 1
        nodes := totals.nodes + nodes
        edges := totals.edges + edges }

/-- The files that the walk yields; it ends once `limit` of them are indexed,
and a limit of 0 is none. -/
def walkFiles (treeSitter : TreeSitter) (read : Path → Option ByteArray) (limit : Nat) :
    List Path → BuildTotals → GraphShard → BuildTotals × GraphShard
  | [], totals, shard => (totals, shard)
  | path :: paths, totals, shard =>
      if 0 < limit ∧ limit ≤ totals.indexed then (totals, shard)
      else
        let (visit, written) := indexFile treeSitter path (read path) shard
        walkFiles treeSitter read limit paths (countVisit totals visit) written

structure BuildSummary where
  totals : BuildTotals
  multimodal : MultimodalStats

/-- What a build finds on the machine it runs on. -/
structure Machine where
  treeSitter : TreeSitter
  registry : Registry
  read : Path → Option ByteArray

/-- `paths` are the regular files that the walk of the project yields. -/
def runInline (machine : Machine) (limit : Nat) (paths : List Path) (shard : GraphShard) :
    BuildSummary × GraphShard :=
  let (totals, indexed) := walkFiles machine.treeSitter machine.read limit paths { } shard
  let (multimodal, written) := runMultimodalPass machine.registry machine.read paths indexed
  ({ totals, multimodal }, written)

/-! ### What a run writes -/

/-- The graph of each file that can be indexed. -/
def graphsOf (machine : Machine) (paths : List Path) : List ExtractedGraph :=
  paths.filterMap (fun path => extractedGraph machine.treeSitter path (machine.read path))

/-- The graphs of the files that the run indexes. -/
def indexedGraphs (machine : Machine) (limit : Nat) (paths : List Path) : List ExtractedGraph :=
  if limit = 0 then graphsOf machine paths else (graphsOf machine paths).take limit

/-- The page rows of the document that a file holds, if it can be read as one. -/
def documentRows (machine : Machine) (path : Path) : List NodeRow :=
  match machine.registry.extract path (machine.read path) with
  | .error _ => []
  | .ok doc => if (machine.read doc.source).isSome then pageRows doc else []

/-- The node rows of a run, in the order they are put. -/
def putRows (machine : Machine) (limit : Nat) (paths : List Path) : List NodeRow :=
  (indexedGraphs machine limit paths).flatMap (fun graph => graph.nodes.map nodeRow) ++
    paths.flatMap (documentRows machine)

def addedEdges (machine : Machine) (limit : Nat) (paths : List Path) : List EdgeRow :=
  (indexedGraphs machine limit paths).flatMap (fun graph => graph.edges.map (edgeRow "parsers"))

theorem foldl_persist (graphs : List ExtractedGraph) (shard : GraphShard) :
    graphs.foldl (fun shard graph => persist "parsers" graph shard) shard =
      { nodes := shard.nodes.putAll (graphs.flatMap (fun graph => graph.nodes.map nodeRow))
        edges := shard.edges ++
          graphs.flatMap (fun graph => graph.edges.map (edgeRow "parsers")) } := by
  induction graphs generalizing shard with
  | nil =>
      rw [List.flatMap_nil, List.flatMap_nil, List.append_nil]
      rfl
  | cons graph graphs ih =>
      rw [List.foldl_cons, ih, persist_eq, List.flatMap_cons, List.flatMap_cons,
        Keyed.putAll_append, List.append_assoc]

variable (machine : Machine)

theorem walkFiles_shard (limit : Nat) (paths : List Path)
    (totals : BuildTotals) (shard : GraphShard) :
    (walkFiles machine.treeSitter machine.read limit paths totals shard).2 =
      (if limit = 0 then graphsOf machine paths
        else (graphsOf machine paths).take (limit - totals.indexed)).foldl
          (fun shard graph => persist "parsers" graph shard) shard := by
  induction paths generalizing totals shard with
  | nil =>
      unfold graphsOf walkFiles
      rw [List.filterMap_nil, List.take_nil, ite_self]
      rfl
  | cons path paths ih =>
      unfold walkFiles
      by_cases ended : 0 < limit ∧ limit ≤ totals.indexed
      · have left : limit - totals.indexed = 0 := by
          omega
        rw [if_pos ended, if_neg (Nat.ne_of_gt ended.1), left, List.take_zero]
        rfl
      · rw [if_neg ended, indexFile_eq]
        dsimp only
        rw [ih]
        unfold graphsOf
        rw [List.filterMap_cons]
        cases extractedGraph machine.treeSitter path (machine.read path) with
        | none => rfl
        | some graph =>
            by_cases unlimited : limit = 0
            · simp only [unlimited, if_true]
              rfl
            · have left : limit - totals.indexed = (limit - (totals.indexed + 1)) + 1 := by
                omega
              simp only [unlimited, if_false, left, List.take_succ_cons]
              rfl

theorem foldl_insertRows (rows : List NodeRow) (shard : GraphShard) :
    rows.foldl (fun shard row => shard.insertNode row) shard =
      { shard with nodes := shard.nodes.putAll rows } := by
  induction rows generalizing shard with
  | nil => rfl
  | cons row rows ih =>
      rw [List.foldl_cons, ih]
      rfl

theorem multimodalFile_shard (progress : MultimodalStats × GraphShard) (path : Path) :
    (multimodalFile machine.registry machine.read progress path).2 =
      { progress.2 with nodes := progress.2.nodes.putAll (documentRows machine path) } := by
  unfold multimodalFile documentRows
  cases found : machine.registry.find path with
  | none =>
      have unsupported : machine.registry.extract path (machine.read path) =
          .error .unsupported := by
        unfold Registry.extract
        rw [found]
      rw [unsupported]
      rfl
  | some extractor =>
      cases extracted : machine.registry.extract path (machine.read path) with
      | error error =>
          cases error with
          | unsupported => rfl
          | other message => rfl
      | ok doc =>
          unfold persistMultimodal
          dsimp only
          cases machine.read doc.source with
          | none => rfl
          | some bytes =>
              dsimp only
              rw [foldl_insertRows]
              rfl

theorem runMultimodalPass_shard (paths : List Path) (progress : MultimodalStats × GraphShard) :
    (paths.foldl (multimodalFile machine.registry machine.read) progress).2 =
      { progress.2 with
        nodes := progress.2.nodes.putAll (paths.flatMap (documentRows machine)) } := by
  induction paths generalizing progress with
  | nil => rfl
  | cons path paths ih =>
      rw [List.foldl_cons, ih, multimodalFile_shard, List.flatMap_cons, Keyed.putAll_append]

/-- A run puts its node rows and appends its edge rows. -/
theorem runInline_shard (limit : Nat) (paths : List Path) (shard : GraphShard) :
    (runInline machine limit paths shard).2 =
      { nodes := shard.nodes.putAll (putRows machine limit paths)
        edges := shard.edges ++ addedEdges machine limit paths } := by
  have walked := walkFiles_shard machine limit paths { } shard
  rw [foldl_persist] at walked
  change (paths.foldl (multimodalFile machine.registry machine.read)
    ({ }, (walkFiles machine.treeSitter machine.read limit paths { } shard).2)).2 = _
  rw [runMultimodalPass_shard, walked]
  unfold putRows addedEdges indexedGraphs
  rw [Keyed.putAll_append]
  rfl

/-! ### A second run -/

/-- The same multiset of node rows and the same multiset of edge rows. -/
def SameGraph (left right : GraphShard) : Prop :=
  left.nodes.rows.Perm right.nodes.rows ∧ left.edges.Perm right.edges

theorem build_again_iff (machine : Machine) (limit : Nat) (paths : List Path)
    (shard : GraphShard) :
    SameGraph (runInline machine limit paths (runInline machine limit paths shard).2).2
        (runInline machine limit paths shard).2 ↔
      ∀ graph ∈ indexedGraphs machine limit paths, graph.edges = [] := by
  have silent : addedEdges machine limit paths = [] ↔
      ∀ graph ∈ indexedGraphs machine limit paths, graph.edges = [] := by
    unfold addedEdges
    rw [List.flatMap_eq_nil_iff]
    exact forall₂_congr fun graph _ => List.map_eq_nil_iff
  rw [runInline_shard machine limit paths shard, runInline_shard, ← silent]
  unfold SameGraph
  dsimp only
  rw [Keyed.putAll_putAll]
  constructor
  · rintro ⟨_, edges⟩
    have lengths := edges.length_eq
    rw [List.length_append] at lengths
    exact List.eq_nil_of_length_eq_zero (by omega)
  · intro none
    rw [none, List.append_nil]
    exact ⟨List.Perm.refl _, List.Perm.refl _⟩

/-- One Rust file with one function. -/
def oneFunction : Machine :=
  { treeSitter := emptiedFile, registry := [], read := fun _ => some "fn a() {}".toUTF8 }

/-- The edge from the file to its function is there twice. -/
theorem second_build_doubles_edges :
    ¬ ∀ (machine : Machine) (limit : Nat) (paths : List Path) (shard : GraphShard),
      SameGraph (runInline machine limit paths (runInline machine limit paths shard).2).2
        (runInline machine limit paths shard).2 := by
  intro always
  have lengths := (always oneFunction 0 ["a.rs"] .empty).2.length_eq
  revert lengths
  decide

end Mneme.Cli
