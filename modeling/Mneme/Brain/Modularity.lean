/-
What a move changes: the gain, and the two readings of modularity.

A gain subtracts the expected weight between a node and all other members of a
community.  The value that `modularity` computes subtracts it for the listed
links only, so that the members a node has no link to count in the one and not
in the other.
-/

import Mathlib.Algebra.BigOperators.Field
import Mathlib.Algebra.BigOperators.Fin
import Mneme.Brain.Leiden
import Mneme.Library.PairScores

namespace Mneme.Brain

open Library

variable {n : Nat}

/-! ### Links -/

section Scores

variable (adj : Adjacency n) (twoM resolution : Rat)

/-- The weights of the links from one node to another one. -/
def linkWeights (u v : Fin n) : List Rat :=
  ((adj u).filter (fun link => link.1 = v)).map Prod.snd

/-- Every link is listed at both of its ends. -/
def Mirrored : Prop :=
  ∀ u v, (linkWeights adj u v).Perm (linkWeights adj v u)

def linkWeight (u v : Fin n) : Rat :=
  (linkWeights adj u v).sum

def linkCount (u v : Fin n) : Nat :=
  (linkWeights adj u v).length

/-- The strength of the other members of a community that a node has no link
to; a member with further links counts as often less. -/
def unlinkedStrength (partition : Partition n) (u : Fin n) (community : Nat) : Rat :=
  scoreInto (fun u v => (1 - linkCount adj u v) * strength adj v) partition.get u community

/-! ### The score of a pair -/

/-- What two nodes of one community contribute to the modularity. -/
def fullScore (u v : Fin n) : Rat :=
  (linkWeight adj u v - resolution * strength adj u * strength adj v / twoM) / twoM

/-- What they contribute when the expected weight is subtracted once for each
link. -/
def listedScore (u v : Fin n) : Rat :=
  (linkWeight adj u v - linkCount adj u v * (resolution * strength adj u * strength adj v / twoM)) /
    twoM

/-- The modularity over all pairs of nodes. -/
def fullModularity (partition : Partition n) : Rat :=
  pairScore (fullScore adj twoM resolution) partition.get

variable {adj}

theorem fullScore_symm (mirrored : Mirrored adj) (u v : Fin n) :
    fullScore adj twoM resolution u v = fullScore adj twoM resolution v u := by
  unfold fullScore linkWeight
  rw [(mirrored u v).sum_eq, mul_right_comm]

theorem listedScore_symm (mirrored : Mirrored adj) (u v : Fin n) :
    listedScore adj twoM resolution u v = listedScore adj twoM resolution v u := by
  unfold listedScore linkWeight linkCount
  rw [(mirrored u v).sum_eq, (mirrored u v).length_eq, mul_right_comm resolution]

variable (adj)

theorem listedScore_eq (u v : Fin n) :
    listedScore adj twoM resolution u v = fullScore adj twoM resolution u v +
      resolution * strength adj u / (twoM * twoM) * ((1 - linkCount adj u v) * strength adj v) := by
  unfold listedScore fullScore
  ring

/-- The sum of the weights less a constant. -/
theorem sum_sub_const (weights : List Rat) (expected : Rat) :
    (weights.map (fun w => w - expected)).sum = weights.sum - weights.length * expected := by
  induction weights with
  | nil =>
      rw [List.map_nil, List.sum_nil, List.length_nil, Nat.cast_zero, zero_mul, sub_zero]
  | cons w rest ih =>
      rw [List.map_cons, List.sum_cons, List.sum_cons, List.length_cons, ih, Nat.cast_succ]
      ring

variable (partition : Partition n)

theorem modularity_eq :
    modularity adj twoM resolution partition =
      pairScore (listedScore adj twoM resolution) partition.get := by
  unfold modularity pairScore
  rw [← Fin.sum_univ_def, Finset.sum_div]
  apply Finset.sum_congr rfl
  intro u _
  rw [sum_tagged (adj u) (fun v => partition.get u = partition.get v)
    (fun v w => w - resolution * strength adj u * strength adj v / twoM), Finset.sum_div]
  apply Finset.sum_congr rfl
  intro v _
  split
  · rw [sum_sub_const]
    rfl
  · exact zero_div twoM

/-! ### The pass of a partition -/

/-- The pass with the strengths counted up afresh. -/
def passOf (partition : Partition n) : Pass n :=
  { labels := partition
    sigmaTot := fun community =>
      (((List.finRange n).filter (fun u => partition.get u = community)).map (strength adj)).sum }

theorem sum_map_filter {Item : Type} (items : List Item) (counts : Item → Prop)
    [DecidablePred counts] (value : Item → Rat) :
    ((items.filter (fun item => counts item)).map value).sum =
      (items.map (fun item => if counts item then value item else 0)).sum := by
  rw [List.sum_map_ite, List.sum_map_zero, add_zero]

variable (u : Fin n)

/-- The strength of a community, with the share of one node set apart. -/
theorem sigmaTot_passOf (community : Nat) :
    (passOf adj partition).sigmaTot community =
      scoreInto (fun _ v => strength adj v) partition.get u community +
        if community = partition.get u then strength adj u else 0 := by
  change (((List.finRange n).filter (fun v => partition.get v = community)).map
    (strength adj)).sum = _
  rw [sum_map_filter, ← Fin.sum_univ_def, ← Finset.add_sum_erase _ _ (Finset.mem_univ u), add_comm]
  congr 1
  exact if_congr eq_comm rfl rfl

theorem sigmaTot_pullOut (community : Nat) :
    (pullOut adj (passOf adj partition) u).sigmaTot community =
      scoreInto (fun _ v => strength adj v) partition.get u community := by
  change addTo (passOf adj partition).sigmaTot (partition.get u) (-strength adj u) community = _
  unfold addTo
  by_cases own : community = partition.get u
  · rw [own, Function.update_self, sigmaTot_passOf adj partition u, if_pos rfl,
      add_neg_cancel_right]
  · rw [Function.update_of_ne own, sigmaTot_passOf adj partition u, if_neg own, add_zero]

theorem putInto_passOf (community : Nat) :
    putInto adj (pullOut adj (passOf adj partition) u) u community =
      passOf adj (partition.set u community) := by
  have totals : addTo (pullOut adj (passOf adj partition) u).sigmaTot community (strength adj u) =
      (passOf adj (partition.set u community)).sigmaTot := by
    funext other
    rw [sigmaTot_passOf adj _ u, get_set, scoreInto_update, Function.update_self]
    unfold addTo
    by_cases joined : other = community
    · rw [joined, Function.update_self, sigmaTot_pullOut, if_pos rfl]
    · rw [Function.update_of_ne joined, sigmaTot_pullOut, if_neg joined, add_zero]
  unfold putInto
  rw [totals]
  rfl

/-! ### The gain -/

/-- The links of a node to other nodes. -/
def otherLinks (u : Fin n) : List (Fin n × Rat) :=
  (adj u).filter (fun link => link.1 ≠ u)

theorem weightInto_otherLinks (community : Nat) :
    weightInto (otherLinks adj u) partition community =
      scoreInto (linkWeight adj) partition.get u community := by
  have counted : weightInto (otherLinks adj u) partition community =
      (((adj u).filter (fun link => partition.get link.1 = community ∧ link.1 ≠ u)).map
        Prod.snd).sum := by
    change ((((adj u).filter (fun link => link.1 ≠ u)).filter
      (fun link => partition.get link.1 = community)).map Prod.snd).sum = _
    rw [List.filter_filter]
    congr 3
    funext link
    exact (Bool.decide_and _ _).symm
  rw [counted, sum_map_filter, sum_tagged (adj u)
    (fun v => partition.get v = community ∧ v ≠ u) (fun _ w => w),
    ← Finset.add_sum_erase _ _ (Finset.mem_univ u), if_neg (fun both => both.2 rfl), zero_add]
  apply Finset.sum_congr rfl
  intro v other
  rw [List.map_id']
  exact if_congr (and_iff_left (Finset.ne_of_mem_erase other)) rfl rfl

/-- The gain is what the node scores with the other members. -/
theorem gain_eq (community : Nat) :
    gain adj twoM resolution (otherLinks adj u) (pullOut adj (passOf adj partition) u) u
        community =
      scoreInto (fullScore adj twoM resolution) partition.get u community := by
  have parts : fullScore adj twoM resolution = fun u v =>
      (fun _ => 1 / twoM) u * linkWeight adj u v +
        (fun u => -(resolution * strength adj u / (twoM * twoM))) u * strength adj v := by
    funext u v
    unfold fullScore
    ring
  rw [parts, scoreInto_add, scoreInto_mul, scoreInto_mul]
  unfold gain
  rw [sigmaTot_pullOut]
  change weightInto (otherLinks adj u) partition community / twoM - _ = _
  rw [weightInto_otherLinks]
  ring

/-- What putting a node into another community does to the value that
`modularity` computes. -/
theorem modularity_set {adj : Adjacency n} (mirrored : Mirrored adj) (partition : Partition n)
    (u : Fin n) (community : Nat) :
    modularity adj twoM resolution (partition.set u community) -
        modularity adj twoM resolution partition =
      fullModularity adj twoM resolution (partition.set u community) -
          fullModularity adj twoM resolution partition +
        2 * (resolution * strength adj u / (twoM * twoM) *
          (unlinkedStrength adj partition u community -
            unlinkedStrength adj partition u (partition.get u))) := by
  have parts : listedScore adj twoM resolution = fun u v => fullScore adj twoM resolution u v +
      (fun u => resolution * strength adj u / (twoM * twoM)) u *
        ((1 - linkCount adj u v) * strength adj v) := by
    funext u v
    exact listedScore_eq adj twoM resolution u v
  have listed : ∀ other, scoreInto (listedScore adj twoM resolution) partition.get u other =
      scoreInto (fullScore adj twoM resolution) partition.get u other +
        resolution * strength adj u / (twoM * twoM) * unlinkedStrength adj partition u other := by
    intro other
    rw [parts, scoreInto_add, scoreInto_mul]
    rfl
  unfold fullModularity
  rw [modularity_eq, modularity_eq, get_set,
    pairScore_update _ (listedScore_symm twoM resolution mirrored),
    pairScore_update _ (fullScore_symm twoM resolution mirrored), listed, listed]
  ring

/-- Over all pairs it changes by twice the difference of the gains. -/
theorem fullModularity_set {adj : Adjacency n} (mirrored : Mirrored adj) (partition : Partition n)
    (u : Fin n) (community : Nat) :
    fullModularity adj twoM resolution (partition.set u community) -
        fullModularity adj twoM resolution partition =
      2 * (gain adj twoM resolution (otherLinks adj u) (pullOut adj (passOf adj partition) u) u
            community -
          gain adj twoM resolution (otherLinks adj u) (pullOut adj (passOf adj partition) u) u
            (partition.get u)) := by
  unfold fullModularity
  rw [gain_eq, gain_eq, get_set, pairScore_update _ (fullScore_symm twoM resolution mirrored)]

end Scores

end Mneme.Brain
