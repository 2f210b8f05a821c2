/-
The architecture scanner: nodes in communities, and the density of the edges within a
community and between two of them.

Densities are exact rationals, and a graph has fewer than 2 ^ 32 nodes and edges.  An edge
counts for two communities in either direction, so the density between them counts each
pair of nodes twice above the line and once below it.
-/

import Mathlib.Algebra.Order.Field.Basic
import Mathlib.Data.Prod.Lex
import Mathlib.Data.UInt
import Mathlib.Order.Interval.Finset.Nat
import Mathlib.Tactic.FieldSimp
import Mathlib.Tactic.Linarith
import Mneme.Library.Tally

namespace Mneme.Scanners.Architecture

open Library

structure ArchNode where
  qualifiedName : String
  communityId : UInt32
deriving DecidableEq

structure ArchEdge where
  source : String
  target : String
deriving DecidableEq

/-- One row for two communities, or for one. -/
structure CouplingRow where
  fromCommunity : UInt32
  toCommunity : UInt32
  edgeCount : Nat
  density : Rat
deriving DecidableEq

/-! ### The coupling matrix -/

/-- `comm_of`: the last node of a name counts. -/
def commOf (nodes : List ArchNode) (name : String) : Option UInt32 :=
  (nodes.reverse.find? (fun node => node.qualifiedName = name)).map ArchNode.communityId

def commSize (nodes : List ArchNode) (community : UInt32) : Nat :=
  nodes.countP (fun node => node.communityId = community)

/-- The communities of the ends of an edge, the smaller one first. -/
def communityPair (nodes : List ArchNode) (edge : ArchEdge) : Option (UInt32 × UInt32) :=
  match commOf nodes edge.source, commOf nodes edge.target with
  | some first, some second =>
      some (if first ≤ second then (first, second) else (second, first))
  | _, _ => none

def denominator (nodes : List ArchNode) (first second : UInt32) : Rat :=
  let firstSize : Rat := commSize nodes first
  let secondSize : Rat := commSize nodes second
  if first = second then max (firstSize * (firstSize - 1)) 1 else max (firstSize * secondSize) 1

def couplingRow (nodes : List ArchNode) (counted : (UInt32 × UInt32) × Nat) : CouplingRow :=
  { fromCommunity := counted.1.1
    toCommunity := counted.1.2
    edgeCount := counted.2
    density := counted.2 / denominator nodes counted.1.1 counted.1.2 }

def rowLe (first second : CouplingRow) : Prop :=
  first.fromCommunity < second.fromCommunity ∨
    (first.fromCommunity = second.fromCommunity ∧ first.toCommunity ≤ second.toCommunity)

instance (first second : CouplingRow) : Decidable (rowLe first second) :=
  inferInstanceAs (Decidable (_ ∨ _))

def buildCouplingMatrix (nodes : List ArchNode) (edges : List ArchEdge) : List CouplingRow :=
  ((Tally.tally (edges.filterMap (communityPair nodes))).map (couplingRow nodes)).insertionSort
    rowLe

/-! ### Densities -/

/-- The two nodes are in the two communities, one in each. -/
def Between (first second : UInt32) (source target : ArchNode) : Prop :=
  (source.communityId = first ∧ target.communityId = second) ∨
    (source.communityId = second ∧ target.communityId = first)

instance (first second : UInt32) (source target : ArchNode) :
    Decidable (Between first second source target) :=
  inferInstanceAs (Decidable (_ ∨ _))

/-- The pairs of different nodes that an edge between two communities may join. -/
def possiblePairs (nodes : List ArchNode) (first second : UInt32) : List (ArchNode × ArchNode) :=
  (nodes ×ˢ nodes).filter (fun pair => pair.1 ≠ pair.2 ∧ Between first second pair.1 pair.2)

/-- The edges between two communities. -/
def countedEdges (nodes : List ArchNode) (edges : List ArchEdge) (first second : UInt32) :
    List ArchEdge :=
  edges.filter (fun edge => ∃ source ∈ nodes, source.qualifiedName = edge.source ∧
    ∃ target ∈ nodes, target.qualifiedName = edge.target ∧ Between first second source target)

/-- A density is the part of the possible edges that is there. -/
def CouplingRow.IsDensity (nodes : List ArchNode) (edges : List ArchEdge) (row : CouplingRow) :
    Prop :=
  let counted := (countedEdges nodes edges row.fromCommunity row.toCommunity).length
  let possible := (possiblePairs nodes row.fromCommunity row.toCommunity).length
  0 ≤ row.density ∧ row.density ≤ 1 ∧ 0 < possible ∧ row.density = counted / possible

/-- Each node has one community, and each edge joins two nodes and is there once. -/
structure WellFormed (nodes : List ArchNode) (edges : List ArchEdge) : Prop where
  names : (nodes.map ArchNode.qualifiedName).Nodup
  distinct : edges.Nodup
  proper : ∀ edge ∈ edges, edge.source ≠ edge.target

section Counting

variable {nodes : List ArchNode} (unique : (nodes.map ArchNode.qualifiedName).Nodup)

include unique in
theorem eq_of_name {first second : ArchNode} (firstIn : first ∈ nodes) (secondIn : second ∈ nodes)
    (same : first.qualifiedName = second.qualifiedName) : first = second :=
  List.inj_on_of_nodup_map unique firstIn secondIn same

include unique in
theorem commOf_eq_some {name : String} {community : UInt32} :
    commOf nodes name = some community ↔
      ∃ node ∈ nodes, node.qualifiedName = name ∧ node.communityId = community := by
  unfold commOf
  rw [Option.map_eq_some_iff]
  constructor
  · rintro ⟨node, found, communityOf⟩
    have named := List.find?_some found
    exact ⟨node, List.mem_reverse.mp (List.mem_of_find?_eq_some found), of_decide_eq_true named,
      communityOf⟩
  · rintro ⟨node, member, named, communityOf⟩
    have known : (nodes.reverse.find? (fun node => node.qualifiedName = name)).isSome := by
      rw [List.find?_isSome]
      exact ⟨node, List.mem_reverse.mpr member, decide_eq_true named⟩
    obtain ⟨other, found⟩ := Option.isSome_iff_exists.mp known
    have otherNamed : other.qualifiedName = name := by simpa using List.find?_some found
    have same := eq_of_name unique (List.mem_reverse.mp (List.mem_of_find?_eq_some found)) member
      (otherNamed.trans named.symm)
    exact ⟨other, found, same ▸ communityOf⟩

include unique in
/-- The pair of an edge is that of the communities it is between. -/
theorem communityPair_eq_some {edge : ArchEdge} {first second : UInt32} :
    communityPair nodes edge = some (first, second) ↔
      first ≤ second ∧ ∃ source ∈ nodes, source.qualifiedName = edge.source ∧
        ∃ target ∈ nodes, target.qualifiedName = edge.target ∧
          Between first second source target := by
  constructor
  · intro pair
    unfold communityPair at pair
    split at pair
    · next sourceOf targetOf =>
        obtain ⟨source, sourceIn, sourceNamed, rfl⟩ := (commOf_eq_some unique).mp sourceOf
        obtain ⟨target, targetIn, targetNamed, rfl⟩ := (commOf_eq_some unique).mp targetOf
        have sorted := Option.some.inj pair
        split at sorted
        · next ordered =>
            cases sorted
            exact ⟨ordered, source, sourceIn, sourceNamed, target, targetIn, targetNamed,
              Or.inl ⟨rfl, rfl⟩⟩
        · next reversed =>
            cases sorted
            exact ⟨UInt32.le_of_lt (UInt32.not_le.mp reversed), source, sourceIn, sourceNamed, target, targetIn,
              targetNamed, Or.inr ⟨rfl, rfl⟩⟩
    · cases pair
  · rintro ⟨ordered, source, sourceIn, sourceNamed, target, targetIn, targetNamed, between⟩
    have sourceOf := (commOf_eq_some unique).mpr ⟨source, sourceIn, sourceNamed, rfl⟩
    have targetOf := (commOf_eq_some unique).mpr ⟨target, targetIn, targetNamed, rfl⟩
    unfold communityPair
    rw [sourceOf, targetOf]
    rcases between with ⟨rfl, rfl⟩ | ⟨rfl, rfl⟩
    · exact congrArg some (if_pos ordered)
    · by_cases both : source.communityId ≤ target.communityId
      · have same := UInt32.le_antisymm both ordered
        rw [same]
        exact congrArg some (if_pos (UInt32.le_refl _))
      · exact congrArg some (if_neg both)

include unique in
/-- The counters are those of the pairs of communities with an edge between them. -/
theorem mem_tally_pairs {edges : List ArchEdge} {first second : UInt32} {count : Nat} :
    ((first, second), count) ∈ Tally.tally (edges.filterMap (communityPair nodes)) ↔
      first ≤ second ∧ countedEdges nodes edges first second ≠ [] ∧
        count = (countedEdges nodes edges first second).length := by
  have pairs : ∀ edge, communityPair nodes edge = some (first, second) ↔
      (first ≤ second ∧ ∃ source ∈ nodes, source.qualifiedName = edge.source ∧
        ∃ target ∈ nodes, target.qualifiedName = edge.target ∧
          Between first second source target) := fun _ => communityPair_eq_some unique
  rw [Tally.mem_tally]
  by_cases ordered : first ≤ second
  · have counted : Tally.times (edges.filterMap (communityPair nodes)) (first, second) =
        (countedEdges nodes edges first second).length := by
      unfold countedEdges Tally.times
      rw [List.countP_filterMap, ← List.countP_eq_length_filter]
      apply List.countP_congr
      intro edge _
      have here := pairs edge
      rw [and_iff_right ordered] at here
      rw [decide_eq_true_iff, ← here]
      cases communityPair nodes edge with
      | none => simp
      | some pair => simp
    rw [and_iff_right ordered, ← List.length_pos_iff, ← counted, Tally.times_pos]
  · constructor
    · rintro ⟨present, _⟩
      obtain ⟨edge, _, pair⟩ := List.mem_filterMap.mp present
      exact absurd ((pairs edge).mp pair).1 ordered
    · exact fun found => absurd found.1 ordered

include unique in
/-- The rows are the pairs of communities with an edge between them. -/
theorem mem_buildCouplingMatrix {edges : List ArchEdge} {row : CouplingRow} :
    row ∈ buildCouplingMatrix nodes edges ↔
      ∃ first second, first ≤ second ∧ countedEdges nodes edges first second ≠ [] ∧
        row = couplingRow nodes ((first, second),
          (countedEdges nodes edges first second).length) := by
  unfold buildCouplingMatrix
  rw [List.mem_insertionSort, List.mem_map]
  constructor
  · rintro ⟨⟨⟨first, second⟩, count⟩, member, rfl⟩
    obtain ⟨ordered, some, rfl⟩ := (mem_tally_pairs unique).mp member
    exact ⟨first, second, ordered, some, rfl⟩
  · rintro ⟨first, second, ordered, some, rfl⟩
    exact ⟨_, (mem_tally_pairs unique).mpr ⟨ordered, some, rfl⟩, rfl⟩

theorem length_possiblePairs (first second : UInt32) :
    (possiblePairs nodes first second).length =
      (nodes.map (fun source => nodes.countP (fun target =>
        source ≠ target ∧ Between first second source target))).sum := by
  unfold possiblePairs
  rw [← List.countP_eq_length_filter]
  change List.countP _ (nodes.flatMap (fun source => nodes.map (Prod.mk source))) = _
  rw [List.countP_flatMap]
  refine congrArg List.sum (List.map_congr_left ?_)
  intro source _
  rw [Function.comp_apply, List.countP_map]
  rfl

theorem sum_of_some (test : ArchNode → Bool) (amount : Nat) (nodes : List ArchNode) :
    (nodes.map (fun node => if test node then amount else 0)).sum = nodes.countP test * amount := by
  induction nodes with
  | nil => simp
  | cons node nodes ih =>
      rw [List.map_cons, List.sum_cons, ih, List.countP_cons]
      split
      · rw [Nat.add_mul, Nat.one_mul, Nat.add_comm]
      · rw [Nat.zero_add, Nat.add_zero]

include unique in
/-- The nodes of the community other than one of them. -/
theorem countP_others {source : ArchNode} (member : source ∈ nodes) (community : UInt32)
    (inside : source.communityId = community) :
    nodes.countP (fun target => source ≠ target ∧ target.communityId = community) =
      commSize nodes community - 1 := by
  have distinct : nodes.Nodup := List.Nodup.of_map _ unique
  have split := List.countP_eq_countP_filter_add nodes
    (fun node => node.communityId = community) (fun node => node = source)
  have here : (nodes.filter (fun node => node = source)).countP
      (fun node => node.communityId = community) = 1 := by
    rw [List.filter_eq, List.count_eq_one_of_mem distinct member]
    simp [inside]
  have others : (nodes.filter (fun node => !decide (node = source))).countP
      (fun node => node.communityId = community) =
      nodes.countP (fun target => source ≠ target ∧ target.communityId = community) := by
    rw [List.countP_filter]
    apply List.countP_congr
    intro node _
    rw [Bool.and_eq_true, Bool.not_eq_true', decide_eq_true_iff, decide_eq_true_iff,
      decide_eq_false_iff_not, and_comm, eq_comm]
  unfold commSize
  rw [split, here, others]
  omega

include unique in
theorem length_possiblePairs_self (community : UInt32) :
    (possiblePairs nodes community community).length =
      commSize nodes community * (commSize nodes community - 1) := by
  rw [length_possiblePairs]
  have each : ∀ source ∈ nodes, nodes.countP (fun target =>
      source ≠ target ∧ Between community community source target) =
      if source.communityId = community then commSize nodes community - 1 else 0 := by
    intro source member
    unfold Between
    by_cases inside : source.communityId = community
    · rw [if_pos inside, ← countP_others unique member community inside]
      exact List.countP_congr (fun target _ => by simp [inside])
    · rw [if_neg inside, List.countP_eq_zero]
      intro target _
      simp [inside]
  rw [List.map_congr_left each]
  have total := sum_of_some (fun node => node.communityId = community)
    (commSize nodes community - 1) nodes
  simp only [decide_eq_true_iff] at total
  exact total

theorem length_possiblePairs_cross {first second : UInt32} (apart : first ≠ second) :
    (possiblePairs nodes first second).length =
      2 * (commSize nodes first * commSize nodes second) := by
  rw [length_possiblePairs]
  have each : ∀ source ∈ nodes, nodes.countP (fun target =>
      source ≠ target ∧ Between first second source target) =
      (if source.communityId = first then commSize nodes second else 0) +
        if source.communityId = second then commSize nodes first else 0 := by
    intro source _
    have differs : ∀ target : ArchNode, target.communityId ≠ source.communityId →
        source ≠ target := fun target other same => other (congrArg ArchNode.communityId same.symm)
    unfold Between commSize
    by_cases inFirst : source.communityId = first
    · have notSecond : source.communityId ≠ second := inFirst ▸ apart
      rw [if_pos inFirst, if_neg notSecond, Nat.add_zero]
      apply List.countP_congr
      intro target _
      have other : target.communityId = second → source ≠ target := fun inside =>
        differs target (fun same => notSecond (same.symm.trans inside))
      simpa [inFirst, notSecond, apart] using other
    · rw [if_neg inFirst, Nat.zero_add]
      by_cases inSecond : source.communityId = second
      · rw [if_pos inSecond]
        apply List.countP_congr
        intro target _
        have other : target.communityId = first → source ≠ target := fun inside =>
          differs target (fun same => inFirst (same.symm.trans inside))
        simpa [inSecond, inFirst, apart.symm] using other
      · rw [if_neg inSecond, List.countP_eq_zero]
        intro target _
        simp [inFirst, inSecond]
  rw [List.map_congr_left each, List.sum_map_add]
  have firsts := sum_of_some (fun node => node.communityId = first) (commSize nodes second) nodes
  have seconds := sum_of_some (fun node => node.communityId = second) (commSize nodes first) nodes
  simp only [decide_eq_true_iff] at firsts seconds
  rw [firsts, seconds]
  change commSize nodes first * commSize nodes second +
    commSize nodes second * commSize nodes first = _
  rw [Nat.mul_comm (commSize nodes second), Nat.two_mul]

end Counting

variable {nodes : List ArchNode} {edges : List ArchEdge}

/-- An edge is counted for a pair of nodes that it may join, and no two for one. -/
theorem countedEdges_le (graph : WellFormed nodes edges) (first second : UInt32) :
    (countedEdges nodes edges first second).length ≤
      (possiblePairs nodes first second).length := by
  let ends := fun pair : ArchNode × ArchNode =>
    ArchEdge.mk pair.1.qualifiedName pair.2.qualifiedName
  have inside : countedEdges nodes edges first second ⊆
      (possiblePairs nodes first second).map ends := by
    intro edge member
    obtain ⟨edgeIn, joins⟩ := List.mem_filter.mp member
    obtain ⟨source, sourceIn, sourceNamed, target, targetIn, targetNamed, between⟩ :=
      of_decide_eq_true joins
    have apart : source ≠ target := by
      intro same
      apply graph.proper edge edgeIn
      rw [← sourceNamed, ← targetNamed, same]
    refine List.mem_map.mpr ⟨(source, target), ?_, ?_⟩
    · refine List.mem_filter.mpr ⟨List.mem_product.mpr ⟨sourceIn, targetIn⟩, ?_⟩
      exact decide_eq_true ⟨apart, between⟩
    · change ArchEdge.mk source.qualifiedName target.qualifiedName = edge
      rw [sourceNamed, targetNamed]
  have bound := (List.subperm_of_subset (graph.distinct.filter _) inside).length_le
  rwa [List.length_map] at bound

variable {first second : UInt32}

theorem possiblePairs_pos (graph : WellFormed nodes edges)
    (some : countedEdges nodes edges first second ≠ []) :
    0 < (possiblePairs nodes first second).length :=
  lt_of_lt_of_le (List.length_pos_of_ne_nil some) (countedEdges_le graph first second)

/-- Within a community the denominator is the number of the possible edges. -/
theorem denominator_self (unique : (nodes.map ArchNode.qualifiedName).Nodup) {community : UInt32}
    (possible : 0 < (possiblePairs nodes community community).length) :
    denominator nodes community community =
      (possiblePairs nodes community community).length := by
  rw [length_possiblePairs_self unique] at possible ⊢
  have size : 1 ≤ commSize nodes community := Nat.pos_of_mul_pos_right possible
  unfold denominator
  rw [if_pos rfl, Nat.cast_mul, Nat.cast_sub size, Nat.cast_one]
  apply max_eq_left
  have whole : (1 : Rat) ≤ ((commSize nodes community * (commSize nodes community - 1) : Nat) : Rat) :=
    Nat.one_le_cast.mpr possible
  rwa [Nat.cast_mul, Nat.cast_sub size, Nat.cast_one] at whole

/-- Between two communities it is half of it. -/
theorem denominator_cross (apart : first ≠ second)
    (possible : 0 < (possiblePairs nodes first second).length) :
    2 * denominator nodes first second = (possiblePairs nodes first second).length := by
  rw [length_possiblePairs_cross apart] at possible ⊢
  have sizes : 1 ≤ commSize nodes first * commSize nodes second :=
    Nat.pos_of_mul_pos_left possible
  unfold denominator
  rw [if_neg apart, Nat.cast_mul, Nat.cast_mul]
  have whole : (1 : Rat) ≤ ((commSize nodes first * commSize nodes second : Nat) : Rat) :=
    Nat.one_le_cast.mpr sizes
  rw [Nat.cast_mul] at whole
  rw [max_eq_left whole]
  rfl

/-- The ends of the edge are in one community, if it joins two nodes. -/
def Inner (nodes : List ArchNode) (edge : ArchEdge) : Prop :=
  ∀ source ∈ nodes, source.qualifiedName = edge.source → ∀ target ∈ nodes,
    target.qualifiedName = edge.target → source.communityId = target.communityId

theorem isDensity_self (graph : WellFormed nodes edges) {community : UInt32}
    (some : countedEdges nodes edges community community ≠ []) :
    (couplingRow nodes ((community, community),
      (countedEdges nodes edges community community).length)).IsDensity nodes edges := by
  have possible := possiblePairs_pos graph some
  have bound := countedEdges_le graph community community
  have positive : (0 : Rat) < ((possiblePairs nodes community community).length : Rat) :=
    Nat.cast_pos.mpr possible
  have quotient : (couplingRow nodes ((community, community),
      (countedEdges nodes edges community community).length)).density =
      (countedEdges nodes edges community community).length /
        (possiblePairs nodes community community).length := by
    rw [← denominator_self graph.names possible]
    rfl
  unfold CouplingRow.IsDensity
  refine ⟨?_, ?_, possible, quotient⟩
  · rw [quotient]
    exact div_nonneg (Nat.cast_nonneg _) positive.le
  · rw [quotient, div_le_one positive]
    exact Nat.cast_le.mpr bound

/-- Between two communities the density is twice as large as it should be. -/
theorem density_cross (graph : WellFormed nodes edges)
    (apart : first ≠ second) (some : countedEdges nodes edges first second ≠ []) :
    (couplingRow nodes ((first, second),
      (countedEdges nodes edges first second).length)).density =
      2 * ((countedEdges nodes edges first second).length /
        (possiblePairs nodes first second).length) := by
  have possible := possiblePairs_pos graph some
  have positive : (0 : Rat) < ((possiblePairs nodes first second).length : Rat) :=
    Nat.cast_pos.mpr possible
  rw [← denominator_cross apart possible] at positive ⊢
  change _ / denominator nodes first second = _
  field_simp

theorem not_isDensity_cross (graph : WellFormed nodes edges)
    (apart : first ≠ second) (some : countedEdges nodes edges first second ≠ []) :
    ¬ (couplingRow nodes ((first, second),
      (countedEdges nodes edges first second).length)).IsDensity nodes edges := by
  rintro ⟨_, _, _, quotient⟩
  rw [density_cross graph apart some] at quotient
  have part : (0 : Rat) < (countedEdges nodes edges first second).length /
      (possiblePairs nodes first second).length :=
    div_pos (Nat.cast_pos.mpr (List.length_pos_of_ne_nil some))
      (Nat.cast_pos.mpr (possiblePairs_pos graph some))
  change _ = ((countedEdges nodes edges first second).length : Rat) /
    ((possiblePairs nodes first second).length : Rat) at quotient
  linarith

/-- The densities are those of the graph exactly if no edge joins two communities. -/
theorem buildCouplingMatrix_densities_iff (graph : WellFormed nodes edges) :
    (∀ row ∈ buildCouplingMatrix nodes edges, row.IsDensity nodes edges) ↔
      ∀ edge ∈ edges, Inner nodes edge := by
  constructor
  · intro all edge member source sourceIn sourceNamed target targetIn targetNamed
    by_contra apart
    obtain ⟨first, second, ordered, different, between⟩ : ∃ first second, first ≤ second ∧
        first ≠ second ∧ Between first second source target := by
      rcases UInt32.le_total source.communityId target.communityId with below | above
      · exact ⟨_, _, below, apart, Or.inl ⟨rfl, rfl⟩⟩
      · exact ⟨_, _, above, fun same => apart same.symm, Or.inr ⟨rfl, rfl⟩⟩
    have some : countedEdges nodes edges first second ≠ [] := by
      apply List.ne_nil_of_mem (a := edge)
      refine List.mem_filter.mpr ⟨member, decide_eq_true ?_⟩
      exact ⟨source, sourceIn, sourceNamed, target, targetIn, targetNamed, between⟩
    have row := (mem_buildCouplingMatrix graph.names).mpr ⟨first, second, ordered, some, rfl⟩
    exact not_isDensity_cross graph different some (all _ row)
  · intro inner row member
    obtain ⟨first, second, _, some, rfl⟩ := (mem_buildCouplingMatrix graph.names).mp member
    obtain ⟨edge, counted⟩ := List.exists_mem_of_ne_nil _ some
    obtain ⟨edgeIn, joins⟩ := List.mem_filter.mp counted
    obtain ⟨source, sourceIn, sourceNamed, target, targetIn, targetNamed, between⟩ :=
      of_decide_eq_true joins
    have same := inner edge edgeIn source sourceIn sourceNamed target targetIn targetNamed
    have one : first = second := by
      rcases between with ⟨atSource, atTarget⟩ | ⟨atSource, atTarget⟩
      · rw [← atSource, ← atTarget, same]
      · rw [← atSource, ← atTarget, same]
    subst one
    exact isDensity_self graph some

def twoAlone : List ArchNode :=
  [⟨"a", 0⟩, ⟨"b", 1⟩]

def bothWays : List ArchEdge :=
  [⟨"a", "b"⟩, ⟨"b", "a"⟩]

theorem bothWays_density : ¬ ∀ row ∈ buildCouplingMatrix twoAlone bothWays,
    row.IsDensity twoAlone bothWays := by
  intro all
  have row : (⟨0, 1, 2, 2⟩ : CouplingRow) ∈ buildCouplingMatrix twoAlone bothWays := by
    decide +kernel
  have bound : (2 : Rat) ≤ 1 := (all _ row).2.1
  norm_num at bound

theorem buildCouplingMatrix_densities_iff_oneWay :
    (∀ row ∈ buildCouplingMatrix [⟨"a", 0⟩, ⟨"b", 0⟩] [⟨"a", "b"⟩],
      row.IsDensity [⟨"a", 0⟩, ⟨"b", 0⟩] [⟨"a", "b"⟩]) ↔
      ∀ edge ∈ [(⟨"a", "b"⟩ : ArchEdge)], Inner [⟨"a", 0⟩, ⟨"b", 0⟩] edge :=
  buildCouplingMatrix_densities_iff ⟨by decide, by decide, by decide⟩

end Mneme.Scanners.Architecture
