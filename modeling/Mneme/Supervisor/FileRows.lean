/-
Which files have node rows, and how a re-index changes that.

A node row that was made for a file carries the path of that file, so the rows
of one file never replace those of another.
-/

import Mneme.Cli.Walk

namespace Mneme.Supervisor

open Common Library Parsers Store

def filePaths (shard : GraphShard) : List Path :=
  shard.nodes.rows.filterMap NodeRow.filePath

/-- A row whose id was made for a file carries its path. -/
def RowOwned (row : NodeRow) : Prop :=
  ∀ path, madeFor path row.qualifiedName = true → row.filePath = some path

def RowsOwned (shard : GraphShard) : Prop :=
  ∀ row ∈ shard.nodes.rows, RowOwned row

variable (path : Path)

theorem mem_filePaths_iff (shard : GraphShard) :
    path ∈ filePaths shard ↔ ∃ row ∈ shard.nodes.rows, row.filePath = some path :=
  List.mem_filterMap

/-! ### A delete -/

theorem deleteFile_rows (shard : GraphShard) :
    (deleteFile path shard).2.nodes.rows =
      shard.nodes.rows.filter (fun row => row.filePath ≠ some path) := by
  unfold deleteFile
  dsimp only
  rw [foldl_deleteEdgesAt]
  rfl

theorem mem_filePaths_deleteFile (deleted path : Path) (shard : GraphShard) :
    path ∈ filePaths (deleteFile deleted shard).2 ↔ path ∈ filePaths shard ∧ path ≠ deleted := by
  rw [mem_filePaths_iff, mem_filePaths_iff, deleteFile_rows]
  constructor
  · rintro ⟨row, member, carries⟩
    obtain ⟨held, other⟩ := List.mem_filter.mp member
    have different := of_decide_eq_true other
    exact ⟨⟨row, held, carries⟩, fun same => different (same ▸ carries)⟩
  · rintro ⟨⟨row, held, carries⟩, different⟩
    refine ⟨row, List.mem_filter.mpr ⟨held, decide_eq_true ?_⟩, carries⟩
    rw [carries]
    exact fun same => different (Option.some.inj same)

variable {shard : GraphShard}

theorem rowsOwned_deleteFile (owned : RowsOwned shard) : RowsOwned (deleteFile path shard).2 := by
  intro row member
  rw [deleteFile_rows] at member
  exact owned row (List.mem_filter.mp member).1

/-! ### An upsert -/

theorem id_of_extracted {source : Extraction} {graph : ExtractedGraph}
    (extracted : source.extract = .ok graph) {node : Node} (member : node ∈ graph.nodes) :
    ∃ startByte kind, node.id = .stable source.filePath startByte kind := by
  obtain ⟨found, made⟩ := Extraction.extract_madeFrom extracted
  rw [made.nodes] at member
  rcases List.mem_cons.mp member with rfl | member
  · exact ⟨_, _, rfl⟩
  · obtain ⟨pass, _, member⟩ := List.mem_flatMap.mp member
    obtain ⟨_, _, rfl⟩ := List.mem_map.mp member
    exact ⟨_, _, rfl⟩

section Extracted

variable {treeSitter : TreeSitter} {path : Path} {content : Option ByteArray}
  {graph : ExtractedGraph}

/-- Every row of an extracted graph was made for its file and carries its path. -/
theorem row_of_extracted (extracted : extractedGraph treeSitter path content = some graph)
    {row : NodeRow} (member : row ∈ graph.nodes.map nodeRow) :
    madeFor path row.qualifiedName = true ∧ row.filePath = some path := by
  obtain ⟨source, rfl, done⟩ := extract_of_extractedGraph extracted
  obtain ⟨node, held, rfl⟩ := List.mem_map.mp member
  obtain ⟨startByte, kind, same⟩ := id_of_extracted done held
  constructor
  · change madeFor source.filePath node.id = true
    rw [same]
    exact decide_eq_true rfl
  · exact congrArg some (file_of_extracted done held)

theorem madeFor_unique {first second : Path} {id : GraphId} (left : madeFor first id = true)
    (right : madeFor second id = true) : first = second := by
  cases id with
  | stable owner startByte kind =>
      exact (of_decide_eq_true left).symm.trans (of_decide_eq_true right)
  | text text => cases left

theorem rowOwned_of_extracted (extracted : extractedGraph treeSitter path content = some graph)
    {row : NodeRow} (member : row ∈ graph.nodes.map nodeRow) : RowOwned row := by
  obtain ⟨made, carries⟩ := row_of_extracted extracted member
  intro other madeToo
  rw [carries, madeFor_unique made madeToo]

theorem extracted_nonempty (extracted : extractedGraph treeSitter path content = some graph) :
    ∃ row, row ∈ graph.nodes.map nodeRow := by
  obtain ⟨source, _, done⟩ := extract_of_extractedGraph extracted
  obtain ⟨found, made⟩ := Extraction.extract_madeFrom done
  rw [made.nodes]
  exact ⟨_, List.mem_map_of_mem List.mem_cons_self⟩

theorem upsertGraph_rows (path : Path) (graph : ExtractedGraph) (shard : GraphShard) :
    (upsertGraph path graph shard).2.nodes = shard.nodes.putAll (graph.nodes.map nodeRow) := by
  rw [upsertGraph_shard, persist_eq]

/-- An upsert gives its file rows and takes none from another file. -/
theorem mem_filePaths_upsertGraph
    (extracted : extractedGraph treeSitter path content = some graph) {shard : GraphShard}
    (owned : RowsOwned shard) (other : Path) :
    other ∈ filePaths (upsertGraph path graph shard).2 ↔
      other = path ∨ other ∈ filePaths shard := by
  rw [mem_filePaths_iff, mem_filePaths_iff, upsertGraph_rows, Keyed.putAll_rows]
  constructor
  · rintro ⟨row, member, carries⟩
    rcases List.mem_append.mp member with kept | fresh
    · exact Or.inr ⟨row, (List.mem_filter.mp kept).1, carries⟩
    · have own := (row_of_extracted extracted (Keyed.mem_of_mem_putAll fresh)).2
      exact Or.inl (Option.some.inj (carries.symm.trans own))
  · intro either
    have ownRow : ∃ row ∈ ((.empty : Keyed NodeRow.qualifiedName).putAll
        (graph.nodes.map nodeRow)).rows, row.filePath = some path := by
      obtain ⟨row, member⟩ := extracted_nonempty extracted
      obtain ⟨held, inside, _⟩ :=
        @Keyed.exists_mem_putAll NodeRow GraphId _ NodeRow.qualifiedName _ _ member
      exact ⟨held, inside, (row_of_extracted extracted (Keyed.mem_of_mem_putAll inside)).2⟩
    by_cases same : other = path
    · obtain ⟨row, inside, carries⟩ := ownRow
      exact ⟨row, List.mem_append_right _ inside, same ▸ carries⟩
    · obtain ⟨row, held, carries⟩ := either.resolve_left same
      refine ⟨row, List.mem_append_left _ (List.mem_filter.mpr ⟨held, decide_eq_true ?_⟩), carries⟩
      intro replaced
      obtain ⟨fresh, member, sameKey⟩ := List.mem_map.mp replaced
      have made := (row_of_extracted extracted member).1
      rw [sameKey] at made
      exact same (Option.some.inj (carries.symm.trans (owned row held path made)))

theorem rowsOwned_upsertGraph
    (extracted : extractedGraph treeSitter path content = some graph) {shard : GraphShard}
    (owned : RowsOwned shard) : RowsOwned (upsertGraph path graph shard).2 := by
  intro row member
  rw [upsertGraph_rows, Keyed.putAll_rows] at member
  rcases List.mem_append.mp member with kept | fresh
  · exact owned row (List.mem_filter.mp kept).1
  · exact rowOwned_of_extracted extracted (Keyed.mem_of_mem_putAll fresh)

end Extracted

/-! ### A job -/

/-- After a job its own file has rows as the job wants it, and any other file
as before. -/
theorem mem_filePaths_reindexOne (treeSitter : TreeSitter) (own : Path)
    (content : Option ByteArray) (kind : ChangeKind) (owned : RowsOwned shard) (path : Path) :
    path ∈ filePaths (reindexOne treeSitter own content kind shard).2 ↔
      if path = own then
        match kind with
        | .delete => False
        | .upsert => (extractedGraph treeSitter own content).isSome ∨ path ∈ filePaths shard
      else path ∈ filePaths shard := by
  cases kind with
  | delete =>
      change path ∈ filePaths (deleteFile own shard).2 ↔ _
      rw [mem_filePaths_deleteFile]
      split
      · next same => exact iff_of_false (fun both => both.2 same) id
      · next different => exact and_iff_left different
  | upsert =>
      change path ∈ filePaths (upsertFile treeSitter own content shard).2 ↔ _
      rw [upsertFile_shard]
      cases extracted : extractedGraph treeSitter own content with
      | none =>
          simp only [Option.isSome_none, Bool.false_eq_true, false_or, ite_self]
      | some graph =>
          rw [mem_filePaths_upsertGraph extracted owned]
          split
          · next same => exact iff_of_true (Or.inl same) (Or.inl rfl)
          · next different => exact or_iff_right different

theorem rowsOwned_reindexOne (treeSitter : TreeSitter) (own : Path) (content : Option ByteArray)
    (kind : ChangeKind) (owned : RowsOwned shard) :
    RowsOwned (reindexOne treeSitter own content kind shard).2 := by
  cases kind with
  | delete => exact rowsOwned_deleteFile own owned
  | upsert =>
      change RowsOwned (upsertFile treeSitter own content shard).2
      rw [upsertFile_shard]
      cases extracted : extractedGraph treeSitter own content with
      | none => exact owned
      | some graph => exact rowsOwned_upsertGraph extracted owned

/-! ### A fresh build -/

theorem rowOwned_pageRow (doc : Cli.ExtractedDoc) (page : Cli.PageText) :
    RowOwned (Cli.pageRow doc page) := by
  intro path made
  cases made

theorem rowsOwned_runInline (machine : Cli.Machine) (limit : Nat) (paths : List Path) :
    RowsOwned (Cli.runInline machine limit paths .empty).2 := by
  intro row member
  rw [Cli.runInline_shard] at member
  rcases List.mem_append.mp (Keyed.mem_of_mem_putAll member) with code | document
  · obtain ⟨graph, indexed, held⟩ := List.mem_flatMap.mp code
    have among : graph ∈ Cli.graphsOf machine paths := by
      unfold Cli.indexedGraphs at indexed
      split at indexed
      · exact indexed
      · exact List.mem_of_mem_take indexed
    obtain ⟨path, _, extracted⟩ := List.mem_filterMap.mp among
    exact rowOwned_of_extracted extracted held
  · obtain ⟨path, _, held⟩ := List.mem_flatMap.mp document
    unfold Cli.documentRows at held
    split at held
    · cases held
    · split at held
      · obtain ⟨page, _, rfl⟩ := List.mem_map.mp held
        exact rowOwned_pageRow _ page
      · cases held

end Mneme.Supervisor
