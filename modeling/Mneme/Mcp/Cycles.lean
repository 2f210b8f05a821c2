/-
The cycles of the edges of a shard: its strongly connected components of two nodes and more.
-/

import Mneme.Library.ComponentsExact
import Mneme.Mcp.CallGraph

namespace Mneme.Mcp.Graph

open Library Components

/-- No kind, or an empty one, selects every edge. -/
def cycleRows (kindFilter : Option String) (shard : Shard) : List EdgeRow :=
  match kindFilter with
  | none => shard.edges
  | some kind =>
      if kind = "" then shard.edges else shard.edges.filter (fun row => row.kind = kind)

/-- The map of successors, and the set of nodes in the order of insertion. -/
structure Adjacency where
  adj : Name → List Name
  allNodes : List Name

def addNode {Node : Type} [DecidableEq Node] (nodes : List Node) (node : Node) : List Node :=
  if node ∈ nodes then nodes else nodes ++ [node]

def Adjacency.readRow (graph : Adjacency) (row : EdgeRow) : Adjacency where
  adj := Function.update graph.adj row.sourceQualified
    (graph.adj row.sourceQualified ++ [row.targetQualified])
  allNodes := addNode (addNode graph.allNodes row.sourceQualified) row.targetQualified

def adjacency (rows : List EdgeRow) : Adjacency :=
  rows.foldl Adjacency.readRow ⟨fun _ => [], []⟩

def detectCycles (fuel : Nat) (kindFilter : Option String) (shard : Shard) :
    Option (List (List Name)) :=
  let graph := adjacency (cycleRows kindFilter shard)
  components graph.adj fuel graph.allNodes

/-! ### The directed graph of the edges -/

/-- Where the edges of a node lead, one entry an edge. -/
def successors (rows : List EdgeRow) (node : Name) : List Name :=
  (rows.filter (fun row => row.sourceQualified = node)).map EdgeRow.targetQualified

theorem mem_addNode {nodes : List Name} {node other : Name} :
    other ∈ addNode nodes node ↔ other ∈ nodes ∨ other = node := by
  unfold addNode
  split
  · rename_i inside
    constructor
    · exact Or.inl
    · rintro (member | rfl)
      · exact member
      · exact inside
  · rw [List.mem_append, List.mem_singleton]

theorem adjacency_snoc (rows : List EdgeRow) (row : EdgeRow) :
    adjacency (rows ++ [row]) = (adjacency rows).readRow row :=
  List.foldl_append

theorem adjacency_adj (rows : List EdgeRow) : (adjacency rows).adj = successors rows := by
  induction rows using List.reverseRecOn with
  | nil => rfl
  | append_singleton rows row ih =>
      rw [adjacency_snoc]
      funext node
      unfold Adjacency.readRow successors
      dsimp only
      rw [ih, Function.update_apply, List.filter_append, List.map_append]
      by_cases same : node = row.sourceQualified
      · have last : [row].filter (fun row => row.sourceQualified = node) = [row] := by simp [same]
        rw [if_pos same, ← same, last]
        rfl
      · have last : [row].filter (fun row => row.sourceQualified = node) = [] := by
          simp [Ne.symm same]
        rw [if_neg same, last]
        exact (List.append_nil _).symm

theorem ends_mem_allNodes {rows : List EdgeRow} {row : EdgeRow} (member : row ∈ rows) :
    row.sourceQualified ∈ (adjacency rows).allNodes ∧
      row.targetQualified ∈ (adjacency rows).allNodes := by
  induction rows using List.reverseRecOn with
  | nil => cases member
  | append_singleton rows last ih =>
      rw [adjacency_snoc]
      unfold Adjacency.readRow
      dsimp only
      rw [mem_addNode, mem_addNode, mem_addNode, mem_addNode]
      rcases List.mem_append.mp member with before | same
      · exact ⟨Or.inl (Or.inl (ih before).1), Or.inl (Or.inl (ih before).2)⟩
      · rw [List.mem_singleton.mp same]
        exact ⟨Or.inl (Or.inr rfl), Or.inr rfl⟩

theorem mem_successors {rows : List EdgeRow} {node other : Name} :
    other ∈ successors rows node ↔
      ∃ row ∈ rows, row.sourceQualified = node ∧ row.targetQualified = other := by
  unfold successors
  simp only [List.mem_map, List.mem_filter, decide_eq_true_eq, and_assoc]

/-- The walk over the edges ends, and what it reports are the strongly connected components
of two nodes and more, each once. -/
theorem detectCycles_exact (kindFilter : Option String) (shard : Shard) :
    ∃ bound out, (∀ fuel, bound ≤ fuel → detectCycles fuel kindFilter shard = some out) ∧
      Components.Exact (successors (cycleRows kindFilter shard)) out := by
  unfold detectCycles
  dsimp only
  rw [adjacency_adj]
  apply components_exact
  · intro node other edge
    obtain ⟨row, member, rfl, rfl⟩ := mem_successors.mp edge
    exact (ends_mem_allNodes member).1
  · intro node other edge
    obtain ⟨row, member, rfl, rfl⟩ := mem_successors.mp edge
    exact (ends_mem_allNodes member).2

end Mneme.Mcp.Graph
