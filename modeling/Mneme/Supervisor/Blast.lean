/-
The supervisor's blast query: two statements over a graph shard and the
breadth-first walk that runs the second one for each node it takes.

The rows of a blast are the distances of the reverse walk.  An edge leads back to a node
when its target is that node or the qualified name of a node that bears its text as a
name.  The statement of the walk asks so for every node it takes, not only for the starts.
-/

import Mathlib.Data.List.Sort
import Mneme.Common.Query
import Mneme.Library.Breadth
import Mneme.Store.Graph

namespace Mneme.Parsers

open Common

/-- The 16 digits that `stable_id` takes from its hash. -/
abbrev StableHash := Path → Nat → NodeKind → String

/-- The text of an id in the columns of a shard. -/
def GraphId.column (hash : StableHash) : GraphId → String
  | .stable path startByte kind => "n_" ++ hash path startByte kind
  | .text other => other

end Mneme.Parsers

namespace Mneme.Store

open Common Parsers

/-- An order for rows that the clauses of a statement leave in any order. -/
structure RowOrder (Row : Type) where
  arrange : List Row → List Row
  perm : ∀ rows, (arrange rows).Perm rows

namespace GraphShard

/-- `WHERE qualified_name = ?1 OR name = ?1 OR file_path = ?1` -/
def matchesTarget (hash : StableHash) (target : String) (row : NodeRow) : Bool :=
  row.qualifiedName.column hash = target || row.name = target || row.filePath = some target

/-- The `CASE` of the `ORDER BY`. -/
def matchRank (hash : StableHash) (target : String) (row : NodeRow) : Nat :=
  if row.qualifiedName.column hash = target then 0
  else if row.name = target then 1
  else 2

/-- The starts of a blast: at most ten nodes, the best matches first. -/
def resolveTarget (hash : StableHash) (ties : RowOrder NodeRow) (target : String)
    (shard : GraphShard) : List String :=
  ((((ties.arrange shard.nodes.rows).filter (matchesTarget hash target)).insertionSort
    (fun left right => matchRank hash target left ≤ matchRank hash target right)).take 10).map
      (fun row => row.qualifiedName.column hash)

/-- `SELECT source_qualified FROM edges WHERE target_qualified = ?1` -/
def sourcesInto (hash : StableHash) (node : String) (shard : GraphShard) : List String :=
  (shard.edges.filter (fun row => row.targetQualified.column hash = node)).map
    (fun row => row.sourceQualified.column hash)

/-- `SELECT qualified_name FROM nodes WHERE name = ?1` -/
def qualifiedNamed (hash : StableHash) (name : String) (shard : GraphShard) : List String :=
  (shard.nodes.rows.filter (fun row => row.name = name)).map
    (fun row => row.qualifiedName.column hash)

/-- `SELECT source_qualified FROM edges WHERE target_qualified IN (..)` -/
def sourcesIntoNamed (hash : StableHash) (name : String) (shard : GraphShard) : List String :=
  (shard.edges.filter (fun row => row.targetQualified.column hash ∈ shard.qualifiedNamed hash name)).map
    (fun row => row.sourceQualified.column hash)

/-- The `UNION` of the two selects, each source once. -/
def dependents (hash : StableHash) (orders : String → RowOrder String) (shard : GraphShard)
    (node : String) : List String :=
  (orders node).arrange (shard.sourcesInto hash node ++ shard.sourcesIntoNamed hash node).dedup

variable (hash : StableHash)

theorem mem_dependents (orders : String → RowOrder String) (shard : GraphShard)
    (node source : String) :
    source ∈ shard.dependents hash orders node ↔
      ∃ edge ∈ shard.edges, edge.sourceQualified.column hash = source ∧
        (edge.targetQualified.column hash = node ∨
          edge.targetQualified.column hash ∈ shard.qualifiedNamed hash node) := by
  unfold dependents sourcesInto sourcesIntoNamed
  rw [((orders node).perm _).mem_iff, List.mem_dedup, List.mem_append, List.mem_map, List.mem_map]
  simp only [List.mem_filter, decide_eq_true_eq]
  constructor
  · rintro (⟨edge, ⟨member, into⟩, same⟩ | ⟨edge, ⟨member, named⟩, same⟩)
    · exact ⟨edge, member, same, Or.inl into⟩
    · exact ⟨edge, member, same, Or.inr named⟩
  · rintro ⟨edge, member, same, into | named⟩
    · exact Or.inl ⟨edge, ⟨member, into⟩, same⟩
    · exact Or.inr ⟨edge, ⟨member, named⟩, same⟩

theorem mem_resolveTarget {ties : RowOrder NodeRow} {target start : String} {shard : GraphShard}
    (member : start ∈ shard.resolveTarget hash ties target) :
    ∃ row ∈ shard.nodes.rows, row.qualifiedName.column hash = start := by
  obtain ⟨row, taken, same⟩ := List.mem_map.mp member
  have sorted := (List.perm_insertionSort _ _).mem_iff.mp (List.mem_of_mem_take taken)
  exact ⟨row, (ties.perm _).mem_iff.mp (List.mem_filter.mp sorted).1, same⟩

/-- Every text that an edge starts at. -/
def sources (shard : GraphShard) : Finset String :=
  (shard.edges.map (fun row => row.sourceQualified.column hash)).toFinset

theorem dependents_subset (orders : String → RowOrder String) (shard : GraphShard)
    (node : String) : ∀ source ∈ shard.dependents hash orders node, source ∈ shard.sources hash := by
  intro source member
  obtain ⟨edge, stored, same, _⟩ := (mem_dependents hash orders shard node source).mp member
  exact List.mem_toFinset.mpr (List.mem_map.mpr ⟨edge, stored, same⟩)

theorem card_sources_le (shard : GraphShard) : (shard.sources hash).card ≤ shard.edges.length := by
  have fewer := List.toFinset_card_le (shard.edges.map (fun row => row.sourceQualified.column hash))
  rw [List.length_map] at fewer
  exact fewer

/-- Two walks see the same dependents of each node, in whatever order. -/
theorem dependents_same (orders others : String → RowOrder String) (shard : GraphShard)
    (node source : String) :
    source ∈ shard.dependents hash orders node ↔ source ∈ shard.dependents hash others node := by
  rw [mem_dependents, mem_dependents]

end GraphShard

end Mneme.Store

namespace Mneme.Supervisor

open Common Library Parsers Store

/-- More iterations than the loop can make: one for each start and one for
each source of an edge. -/
def walkFuel (starts : List String) (shard : GraphShard) : Nat :=
  starts.length + shard.edges.length

def runBlast (hash : StableHash) (ties : RowOrder NodeRow) (orders : String → RowOrder String)
    (shard : GraphShard) (target : String) (depth : Nat) : List BlastItem :=
  let starts := shard.resolveTarget hash ties target
  if starts.isEmpty then []
  else
    ((Search.run (shard.dependents hash orders) depth (walkFuel starts shard)
      (Search.start starts)).noted).map
        (fun (node, reached) => { qualifiedName := node, depth := reached })

variable (hash : StableHash)

theorem walk_complete (orders : String → RowOrder String) (shard : GraphShard)
    (starts : List String) (depth : Nat) :
    (Search.run (shard.dependents hash orders) depth (walkFuel starts shard)
        (Search.start starts)).noted =
      Search.levels (shard.dependents hash orders) starts depth ∧
    (Search.run (shard.dependents hash orders) depth (walkFuel starts shard)
        (Search.start starts)).frontier = [] := by
  refine Search.run_complete (shard.dependents_subset hash orders) starts depth ?_
  have fewer := shard.card_sources_le hash
  unfold walkFuel
  omega

/-- The rows are the levels of the search, in their order. -/
theorem runBlast_levels (ties : RowOrder NodeRow)
    (orders : String → RowOrder String) (shard : GraphShard) (target : String) (depth : Nat) :
    runBlast hash ties orders shard target depth =
      (Search.levels (shard.dependents hash orders) (shard.resolveTarget hash ties target) depth).map
        (fun noted => { qualifiedName := noted.1, depth := noted.2 }) := by
  unfold runBlast
  dsimp only
  cases starts : shard.resolveTarget hash ties target with
  | nil =>
      rw [Search.levels_no_start]
      rfl
  | cons first rest =>
      rw [List.isEmpty_cons, if_neg Bool.false_ne_true, (walk_complete hash orders shard _ depth).1]

theorem mem_runBlast_levels (ties : RowOrder NodeRow)
    (orders : String → RowOrder String) (shard : GraphShard) (target : String) (depth : Nat)
    (node : String) (reached : Nat) :
    { qualifiedName := node, depth := reached } ∈ runBlast hash ties orders shard target depth ↔
      (node, reached) ∈ Search.levels (shard.dependents hash orders)
        (shard.resolveTarget hash ties target) depth := by
  rw [runBlast_levels, List.mem_map]
  constructor
  · intro listed
    obtain ⟨noted, member, same⟩ := listed
    cases same
    exact member
  · intro member
    exact ⟨(node, reached), member, rfl⟩

/-- What is listed is what lies at each distance, up to the depth, from the
nodes that match the target. -/
theorem mem_runBlast (ties : RowOrder NodeRow)
    (orders : String → RowOrder String) (shard : GraphShard) (target : String) (depth : Nat)
    (node : String) (reached : Nat) :
    { qualifiedName := node, depth := reached } ∈ runBlast hash ties orders shard target depth ↔
      ∃ before, reached = before + 1 ∧ before < depth ∧
        Search.Near (shard.dependents hash orders) (shard.resolveTarget hash ties target)
          (before + 1) node ∧
        ¬ Search.Near (shard.dependents hash orders) (shard.resolveTarget hash ties target)
          before node := by
  rw [mem_runBlast_levels, Search.mem_levels]

end Mneme.Supervisor

namespace Mneme.Store

open Common Library Parsers

namespace GraphShard

/-- An edge of the shard leads from `source` to `node`. -/
def LeadsTo (hash : StableHash) (shard : GraphShard) (node source : String) : Prop :=
  ∃ edge ∈ shard.edges, edge.sourceQualified.column hash = source ∧
    (edge.targetQualified.column hash = node ∨
      ∃ row ∈ shard.nodes.rows, row.name = node ∧
        row.qualifiedName.column hash = edge.targetQualified.column hash)

theorem mem_dependents_iff_leadsTo (hash : StableHash) (orders : String → RowOrder String)
    (shard : GraphShard) (node source : String) :
    source ∈ shard.dependents hash orders node ↔ shard.LeadsTo hash node source := by
  rw [mem_dependents]
  unfold LeadsTo qualifiedNamed
  simp only [List.mem_map, List.mem_filter, decide_eq_true_eq, and_assoc]

/-- The lengths of the reverse walks from the starts of a target to a text. -/
def distances (hash : StableHash) (ties : RowOrder NodeRow) (shard : GraphShard)
    (target node : String) : Set Nat :=
  Search.lengths (fun _ => shard.LeadsTo hash) (shard.resolveTarget hash ties target) node

/-- An edge leads to a node by its target alone, except from the first step,
which also takes the nodes with the name that was asked for. -/
def LeadsToByTarget (hash : StableHash) (shard : GraphShard) (target : String) (taken : Nat)
    (node source : String) : Prop :=
  ∃ edge ∈ shard.edges, edge.sourceQualified.column hash = source ∧
    (edge.targetQualified.column hash = node ∨
      taken = 0 ∧ ∃ row ∈ shard.nodes.rows, row.name = target ∧
        row.qualifiedName.column hash = edge.targetQualified.column hash)

def distancesByTarget (hash : StableHash) (ties : RowOrder NodeRow) (shard : GraphShard)
    (target node : String) : Set Nat :=
  Search.lengths (shard.LeadsToByTarget hash target) (shard.resolveTarget hash ties target) node

end GraphShard

end Mneme.Store

namespace Mneme.Supervisor

open Common Library Parsers Store

/-- The rows of a blast: every text other than the starts at its distance from
them, up to the depth, once, and the near ones first. -/
structure ListsDistances (distances : String → Set Nat) (starts : List String) (depth : Nat)
    (rows : List BlastItem) : Prop where
  exact : ∀ node reached, { qualifiedName := node, depth := reached } ∈ rows ↔
    node ∉ starts ∧ 1 ≤ reached ∧ reached ≤ depth ∧ IsLeast (distances node) reached
  once : (rows.map BlastItem.qualifiedName).Nodup
  ordered : (rows.map BlastItem.depth).Pairwise (· ≤ ·)

theorem runBlast_lists (hash : StableHash) (ties : RowOrder NodeRow)
    (orders : String → RowOrder String) (shard : GraphShard) (target : String) (depth : Nat) :
    ListsDistances (shard.distances hash ties target) (shard.resolveTarget hash ties target) depth
      (runBlast hash ties orders shard target depth) := by
  have leads := GraphShard.mem_dependents_iff_leadsTo hash orders shard
  constructor
  · intro node reached
    rw [mem_runBlast_levels, Search.mem_levels_iff_distance leads]
    constructor
    · intro noted
      obtain ⟨positive, within, distance⟩ := noted
      refine ⟨?_, positive, within, distance⟩
      intro start
      have least : reached ≤ 0 := distance.2 start
      omega
    · intro noted
      exact noted.2
  · rw [runBlast_levels, List.map_map]
    exact Search.levels_nodes_nodup _ _ _
  · rw [runBlast_levels, List.map_map, List.pairwise_map]
    exact Search.levels_ordered _ _ _

/-! ### A name on the way -/

def storedNode (qualifiedName name : String) : NodeRow :=
  { kind := "function", name := name, qualifiedName := .text qualifiedName, filePath := none
    lineStart := none, lineEnd := none, language := none, extra := .object [] }

def storedEdge (source target : String) : EdgeRow :=
  { kind := "calls", sourceQualified := .text source, targetQualified := .text target
    confidence := "extracted", confidenceScore := 1, sourceExtractor := "parsers", extra := .object [] }

/-- `login` calls `root`, and `page` calls another node whose name is `login`. -/
def sharedName : GraphShard :=
  { nodes := Keyed.empty.putAll [storedNode "root" "main", storedNode "login" "sign_in",
      storedNode "ui::login" "login", storedNode "page" "show"]
    edges := [storedEdge "login" "root", storedEdge "page" "ui::login"] }

def rowsAsStored (Row : Type) : RowOrder Row :=
  { arrange := id, perm := List.Perm.refl }

/-- `page` is listed at depth 2, and no walk leads to it where a name counts at
the start alone. -/
theorem sharedName_lists :
    ¬ ListsDistances (sharedName.distancesByTarget (fun _ _ _ => "") (rowsAsStored _) "root")
        (sharedName.resolveTarget (fun _ _ _ => "") (rowsAsStored _) "root") 2
        (runBlast (fun _ _ _ => "") (rowsAsStored _) (fun _ => rowsAsStored _) sharedName "root" 2) := by
  intro claimed
  have rows : runBlast (fun _ _ _ => "") (rowsAsStored _) (fun _ => rowsAsStored _) sharedName
      "root" 2 = [⟨"login", 1⟩, ⟨"page", 2⟩] := rfl
  have listed := (claimed.exact "page" 2).mp (by rw [rows]; exact List.mem_cons_of_mem _ List.mem_cons_self)
  obtain ⟨_, _, _, walked, _⟩ := listed
  obtain ⟨before, ⟨start, _, first⟩, second⟩ := walked
  -- The last edge comes from `page`, so the walk is at `ui::login` before it.
  obtain ⟨edge, stored, fromPage, into⟩ := second
  have last : edge = storedEdge "page" "ui::login" := by
    rcases List.mem_cons.mp stored with same | rest
    · subst same
      exact absurd fromPage (by decide)
    · exact List.mem_singleton.mp rest
  subst last
  have there : before = "ui::login" := by
    rcases into with target | ⟨impossible, _⟩
    · exact target.symm
    · cases impossible
  subst there
  obtain ⟨other, kept, fromNode, _⟩ := first
  rcases List.mem_cons.mp kept with same | rest
  · subst same
    exact absurd fromNode (by decide)
  · rw [List.mem_singleton.mp rest] at fromNode
    exact absurd fromNode (by decide)

end Mneme.Supervisor
