/-
Leiden community detection: local moving, refinement, aggregation, and the cluster runner,
which splits oversized communities by another run over the edges between their members.

Weights, gains and ratios are exact rationals; a weight that is infinite or no number is
none.  The shuffled visiting orders are an input, one for the moves and one for the
refinement of each outer iteration; those of a solver run depend on its seed and on the
number of nodes.
-/

import Mathlib.Data.Fintype.Basic
import Mathlib.Data.List.Sort
import Mathlib.Data.Rat.Floor
import Mathlib.Data.Vector.Basic

namespace Mneme.Brain

abbrev NodeId := Nat

structure LeidenConfig where
  /-- Higher means more and smaller communities. -/
  resolution : Rat := 1
  maxIterations : Nat := 16
  /-- The change of modularity below which an iteration is the last. -/
  minDelta : Rat := 1 / 10 ^ 7

structure Community where
  id : Nat
  members : List NodeId
  /-- The share of the incident weight that stays inside. -/
  cohesion : Rat
deriving DecidableEq

/-- An undirected weighted graph: the ids of its nodes, and its edges by the
positions of their ends. -/
structure UnGraph (n : Nat) where
  ids : Fin n → NodeId
  edges : List (Fin n × Fin n × Rat)

/-- The neighbours of each node with the weights of the edges to them. -/
abbrev Adjacency (n : Nat) := Fin n → List (Fin n × Rat)

/-- A community label for each node. -/
abbrev Partition (n : Nat) := List.Vector Nat n

theorem get_set {n : Nat} (partition : Partition n) (u : Fin n) (community : Nat) :
    (partition.set u community).get = Function.update partition.get u community := by
  funext v
  rw [List.Vector.get_set_eq_if, Function.update_apply]
  exact if_congr eq_comm rfl rfl

/-- The visiting orders of each outer iteration. -/
structure Shuffles (n : Nat) where
  move : Nat → List (Fin n)
  refine : Nat → List (Fin n)
  move_perm : ∀ iteration, (move iteration).Perm (List.finRange n)
  refine_perm : ∀ iteration, (refine iteration).Perm (List.finRange n)

section Passes

variable {n : Nat} (adj : Adjacency n) (twoM resolution : Rat)

def strength (u : Fin n) : Rat :=
  ((adj u).map Prod.snd).sum

/-- The tolerance of every comparison of gains. -/
def tolerance : Rat := 1 / 10 ^ 12

/-- The labels of a pass, and the total strength of each community. -/
structure Pass (n : Nat) where
  labels : Partition n
  sigmaTot : Nat → Rat

def addTo (sigmaTot : Nat → Rat) (community : Nat) (amount : Rat) : Nat → Rat :=
  Function.update sigmaTot community (sigmaTot community + amount)

/-- `k_in`: the weight from some neighbours into a community. -/
def weightInto (neighbours : List (Fin n × Rat)) (labels : Partition n) (community : Nat) : Rat :=
  ((neighbours.filter (fun (v, _) => labels.get v = community)).map Prod.snd).sum

/-- The communities of some neighbours, in ascending order. -/
def communitiesOf (neighbours : List (Fin n × Rat)) (labels : Partition n) : List Nat :=
  (neighbours.map (fun (v, _) => labels.get v)).dedup.insertionSort (· ≤ ·)

/-- The change of modularity for a node that joins a community. -/
def gain (neighbours : List (Fin n × Rat)) (pass : Pass n) (u : Fin n) (community : Nat) : Rat :=
  weightInto neighbours pass.labels community / twoM -
    resolution * pass.sigmaTot community * strength adj u / (twoM * twoM)

/-- The community of the largest gain, starting from the node's own with gain
0, and that gain. -/
def bestCommunity (neighbours : List (Fin n × Rat)) (pass : Pass n) (u : Fin n) : Nat × Rat :=
  (communitiesOf neighbours pass.labels).foldl
    (fun best community =>
      let offered := gain adj twoM resolution neighbours pass u community
      if offered > best.2 + tolerance then (community, offered) else best)
    (pass.labels.get u, 0)

/-- The pass with a node pulled out of the strength of its community. -/
def pullOut (pass : Pass n) (u : Fin n) : Pass n :=
  { pass with sigmaTot := addTo pass.sigmaTot (pass.labels.get u) (-strength adj u) }

/-- The pass with a pulled out node put into a community. -/
def putInto (pass : Pass n) (u : Fin n) (community : Nat) : Pass n :=
  { labels := pass.labels.set u community
    sigmaTot := addTo pass.sigmaTot community (strength adj u) }

/-! ### Local moving -/

/-- Visit one node; the flag tells whether it moved. -/
def moveNode (pass : Pass n) (u : Fin n) : Pass n × Bool :=
  let neighbours := (adj u).filter (fun (v, _) => v ≠ u)
  let pulled := pullOut adj pass u
  let best := bestCommunity adj twoM resolution neighbours pulled u
  let stayGain := gain adj twoM resolution neighbours pulled u (pass.labels.get u)
  if best.1 ≠ pass.labels.get u ∧ best.2 > stayGain + tolerance then
    (putInto adj pulled u best.1, true)
  else (putInto adj pulled u (pass.labels.get u), false)

def moveRound (order : List (Fin n)) (pass : Pass n) : Pass n × Bool :=
  order.foldl
    (fun state u =>
      let visited := moveNode adj twoM resolution state.1 u
      (visited.1, state.2 || visited.2))
    (pass, false)

/-- Rounds until nothing moves, or until their number is used up. -/
def moveRounds (order : List (Fin n)) : Nat → Pass n → Pass n
  | 0, pass => pass
  | rounds + 1, pass =>
      let round := moveRound adj twoM resolution order pass
      if round.2 then moveRounds order rounds round.1 else round.1

def localMove (order : List (Fin n)) (partition : Partition n) : Partition n :=
  let sigmaTot := fun community =>
    (((List.finRange n).filter (fun u => partition.get u = community)).map (strength adj)).sum
  (moveRounds adj twoM resolution order 32 { labels := partition, sigmaTot }).labels

/-! ### Refinement -/

/-- Renumber labels by their first occurrence. -/
def compress {m : Nat} (labels : Partition m) : Partition m :=
  let firsts := labels.toList.eraseDups
  labels.map (fun label => firsts.idxOf label)

/-- Every node as its own sub-community. -/
def singletons : Pass n :=
  { labels := .ofFn Fin.val
    sigmaTot := fun community => if own : community < n then strength adj ⟨community, own⟩ else 0 }

/-- The neighbours of a node in its own community. -/
def innerNeighbours (outer : Partition n) (u : Fin n) : List (Fin n × Rat) :=
  (adj u).filter (fun (v, _) => ¬ (v = u ∨ outer.get v ≠ outer.get u))

/-- The sub-community a visited node is put into. -/
def refinedTarget (outer : Partition n) (pass : Pass n) (u : Fin n) : Nat :=
  let best := bestCommunity adj twoM resolution (innerNeighbours adj outer u) (pullOut adj pass u) u
  if best.1 ≠ pass.labels.get u ∧ best.2 > tolerance then best.1 else pass.labels.get u

def refineNode (outer : Partition n) (pass : Pass n) (u : Fin n) : Pass n :=
  putInto adj (pullOut adj pass u) u (refinedTarget adj twoM resolution outer pass u)

def refine (order : List (Fin n)) (outer : Partition n) : Partition n :=
  compress (order.foldl (refineNode adj twoM resolution outer) (singletons adj)).labels

/-! ### Aggregation -/

structure Aggregated (k : Nat) where
  adj : List (List (Nat × Rat))
  /-- For each sub-community, its first node: a placeholder that the caller
  does not replace. -/
  parent : Partition k

/-- One more than the largest label. -/
def labelCount (refined : Partition n) : Nat :=
  (refined.toList.max?.map (fun largest => largest + 1)).getD 0

def aggregate (refined : Partition n) : Aggregated (labelCount refined) :=
  let members := fun community => (List.finRange n).filter (fun u => refined.get u = community)
  let weight := fun i j => ((members i).map (fun u => weightInto (adj u) refined j)).sum
  let linked := fun i j =>
    (members i).any (fun u => (adj u).any (fun (v, _) => refined.get v = j))
  { adj := (List.range (labelCount refined)).map (fun i =>
      ((List.range (labelCount refined)).filter (fun j => linked i j)).map
        (fun j => (j, if j = i then weight i j else weight i j / 2)))
    parent := .ofFn (fun community =>
      ((members community.val).head?.map Fin.val).getD (2 ^ 64 - 1)) }

/-- The partition of the nodes that the next iteration starts from. -/
def lift (refined : Partition n) : Partition n :=
  let aggPartition := compress (aggregate adj refined).parent
  compress (refined.map (fun community =>
    if known : community < labelCount refined then aggPartition.get ⟨community, known⟩ else 0))

/-! ### The outer loop -/

def modularity (partition : Partition n) : Rat :=
  ((List.finRange n).map (fun u =>
    ((adj u).map (fun (v, w) =>
      if partition.get u = partition.get v then
        w - resolution * strength adj u * strength adj v / twoM
      else 0)).sum)).sum / twoM

variable (config : LeidenConfig) (shuffles : Shuffles n)

/-- The outer iterations that remain, from the iteration with a number. -/
def iterate : Nat → Nat → Partition n → Rat → Partition n
  | 0, _, partition, _ => partition
  | remaining + 1, iteration, partition, previous =>
      let moved := localMove adj twoM config.resolution (shuffles.move iteration) partition
      let refined := refine adj twoM config.resolution (shuffles.refine iteration) moved
      let next := lift adj refined
      let reached := modularity adj twoM config.resolution next
      if |reached - previous| < config.minDelta then next
      else iterate remaining (iteration + 1) next reached

def leidenInner : Partition n :=
  compress (iterate adj twoM config shuffles config.maxIterations 0 (.ofFn Fin.val)
    (modularity adj twoM config.resolution (.ofFn Fin.val)))

end Passes

/-! ### The solver -/

namespace UnGraph

variable {n : Nat}

/-- Edges without a positive weight are left out; a loop is listed once. -/
def adjacency (graph : UnGraph n) : Adjacency n := fun u =>
  graph.edges.flatMap (fun (a, b, w) =>
    if w ≤ 0 then []
    else (if a = u then [(b, w)] else []) ++ (if a ≠ b ∧ b = u then [(a, w)] else []))

def totalWeight (graph : UnGraph n) : Rat :=
  ((graph.edges.filter (fun (_, _, w) => ¬ w ≤ 0)).map (fun (_, _, w) => w)).sum

def twoM (graph : UnGraph n) : Rat :=
  if graph.totalWeight > 0 then 2 * graph.totalWeight else 1

def cohesion (graph : UnGraph n) (partition : Partition n) (members : List (Fin n))
    (community : Nat) : Rat :=
  let incident := (members.map (strength graph.adjacency)).sum
  let inside := (members.map (fun u => weightInto (graph.adjacency u) partition community)).sum
  if incident > 0 then inside / incident else 1

/-- `LeidenSolver::run`: one community for each label of the final partition,
in ascending order. -/
def run (graph : UnGraph n) (config : LeidenConfig) (shuffles : Shuffles n) : List Community :=
  let partition := leidenInner graph.adjacency graph.twoM config shuffles
  let keys := partition.toList.dedup.insertionSort (· ≤ ·)
  keys.mapIdx (fun id community =>
    let members := (List.finRange n).filter (fun u => partition.get u = community)
    { id := id
      members := members.map graph.ids
      cohesion := graph.cohesion partition members community })

end UnGraph

end Mneme.Brain

namespace Mneme.Brain

abbrev WeightedEdge := NodeId × NodeId × Option Rat

structure ClusterRunnerConfig where
  leiden : LeidenConfig := {}
  seed : UInt64 := 42
  /-- Communities that hold more than this share of the nodes are split. -/
  oversizeRatio : Rat := 1 / 4
  maxSplitDepth : Nat := 3
  /-- What the resolution is multiplied with at each level. -/
  splitResolutionStep : Rat := 3 / 2

/-- The seeded generator: the visiting orders of a run. -/
abbrev Generator := UInt64 → (n : Nat) → Shuffles n

/-! ### The graph of an edge list -/

def positiveFinite : Option Rat → Bool
  | none => false
  | some weight => decide (0 < weight)

def endpoints (edges : List WeightedEdge) : List NodeId :=
  (edges.filter (fun edge => positiveFinite edge.2.2)).flatMap (fun edge => [edge.1, edge.2.1])

/-- A node that was seen before is not added again. -/
def addNode (seen : List NodeId) (node : NodeId) : List NodeId :=
  if node ∈ seen then seen else seen ++ [node]

def graphNodes (edges : List WeightedEdge) : List NodeId :=
  (endpoints edges).foldl addNode []

def indexEdge (nodes : List NodeId) (edge : WeightedEdge) :
    Option (Fin nodes.length × Fin nodes.length × Rat) := do
  let weight ← edge.2.2
  let first ← nodes.finIdxOf? edge.1
  let second ← nodes.finIdxOf? edge.2.1
  if 0 < weight ∧ first ≠ second then some (first, second, weight) else none

def buildGraph (edges : List WeightedEdge) : UnGraph (graphNodes edges).length :=
  { ids := (graphNodes edges).get
    edges := edges.filterMap (indexEdge (graphNodes edges)) }

/-! ### Renumbering -/

/-- The order of `Option`: nothing is below everything. -/
def leastLe : Option NodeId → Option NodeId → Bool
  | none, _ => true
  | some _, none => false
  | some left, some right => decide (left ≤ right)

/-- Whether a community stands before another: the larger first, then the one with the
least node. -/
def standsBefore (left right : Community) : Bool :=
  decide (right.members.length < left.members.length) ||
    (decide (left.members.length = right.members.length) &&
      leastLe left.members.min? right.members.min?)

def reindex (communities : List Community) : List Community :=
  (communities.insertionSort (fun left right => standsBefore left right = true)).mapIdx
    (fun id community => { community with id })

/-! ### Splitting -/

section Splitting

variable (generator : Generator)

def solve (config : ClusterRunnerConfig) (edges : List WeightedEdge) : List Community :=
  (buildGraph edges).run config.leiden (generator config.seed _)

def inducedEdges (edges : List WeightedEdge) (members : List NodeId) : List WeightedEdge :=
  edges.filter (fun edge => members.contains edge.1 && members.contains edge.2.1)

/-- The configuration of the level below. -/
def ClusterRunnerConfig.deeper (config : ClusterRunnerConfig) (depth : Nat) :
    ClusterRunnerConfig :=
  { config with
    leiden := { config.leiden with
      resolution := config.leiden.resolution * config.splitResolutionStep }
    seed := config.seed + (UInt64.ofNat depth + 1) }

def threshold (config : ClusterRunnerConfig) (totalNodes : Nat) : Nat :=
  ⌈(totalNodes : Rat) * config.oversizeRatio⌉.toNat

/-- What an oversized community is split into, if it breaks apart at all. -/
def recluster (config : ClusterRunnerConfig) (edges : List WeightedEdge) (totalNodes depth : Nat)
    (community : Community) : Option (List Community) :=
  if community.members.length ≤ threshold config totalNodes then none
  else if (inducedEdges edges community.members).isEmpty then none
  else
    let subInitial := solve generator (config.deeper depth) (inducedEdges edges community.members)
    if subInitial.length ≤ 1 then none else some subInitial

/-- The levels of splitting that remain, from a depth on. -/
def splitOversized : Nat → Nat → ClusterRunnerConfig → List WeightedEdge → Nat →
    List Community → List Community
  | 0, _, _, _, _, communities => reindex communities
  | remaining + 1, depth, config, edges, totalNodes, communities =>
      if totalNodes = 0 ∨ threshold config totalNodes < 4 then reindex communities
      else reindex (communities.flatMap (fun community =>
        match recluster generator config edges totalNodes depth community with
        | none => [community]
        | some subInitial =>
            splitOversized remaining (depth + 1) (config.deeper depth)
              (inducedEdges edges community.members) community.members.length subInitial))

/-- `ClusterRunner::run` -/
def clusterRun (config : ClusterRunnerConfig) (edges : List WeightedEdge) : List Community :=
  if edges.isEmpty then []
  else splitOversized generator config.maxSplitDepth 0 config edges (graphNodes edges).length
    (solve generator config edges)

end Splitting

end Mneme.Brain
