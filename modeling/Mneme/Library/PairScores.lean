/-
Scores of a labelling that add up over the pairs of vertices with one label.

When the score of a pair does not depend on its order, relabelling one vertex
changes the whole by twice the difference of what the vertex scores with the
other members of the two classes.
-/

import Mathlib.Algebra.BigOperators.Ring.Finset
import Mathlib.Algebra.Order.BigOperators.Group.Finset
import Mathlib.Tactic.Ring

namespace Mneme.Library

variable {Vertex Label Score : Type} [Fintype Vertex] [DecidableEq Vertex] [DecidableEq Label]

section Sums

variable [CommRing Score] (score : Vertex → Vertex → Score) (labels : Vertex → Label)

def pairScore : Score :=
  ∑ first, ∑ second, if labels first = labels second then score first second else 0

/-- What a vertex scores with the other vertices of a class. -/
def scoreInto (vertex : Vertex) (label : Label) : Score :=
  ∑ other ∈ Finset.univ.erase vertex, if labels other = label then score vertex other else 0

/-- The score of the pairs without a vertex. -/
def scoreWithout (vertex : Vertex) : Score :=
  ∑ first ∈ Finset.univ.erase vertex, ∑ second ∈ Finset.univ.erase vertex,
    if labels first = labels second then score first second else 0

theorem scoreInto_update (vertex : Vertex) (label own : Label) :
    scoreInto score (Function.update labels vertex own) vertex label =
      scoreInto score labels vertex label := by
  apply Finset.sum_congr rfl
  intro other inside
  rw [Function.update_of_ne (Finset.ne_of_mem_erase inside)]

theorem scoreWithout_update (vertex : Vertex) (own : Label) :
    scoreWithout score (Function.update labels vertex own) vertex =
      scoreWithout score labels vertex := by
  apply Finset.sum_congr rfl
  intro first inside
  apply Finset.sum_congr rfl
  intro second alsoInside
  rw [Function.update_of_ne (Finset.ne_of_mem_erase inside),
    Function.update_of_ne (Finset.ne_of_mem_erase alsoInside)]

theorem scoreInto_add (left right : Vertex → Vertex → Score) (vertex : Vertex) (label : Label) :
    scoreInto (fun first second => left first second + right first second) labels vertex label =
      scoreInto left labels vertex label + scoreInto right labels vertex label := by
  unfold scoreInto
  rw [← Finset.sum_add_distrib]
  apply Finset.sum_congr rfl
  intro other _
  split
  · rfl
  · rw [add_zero]

theorem scoreInto_mul (factor : Vertex → Score) (vertex : Vertex) (label : Label) :
    scoreInto (fun first second => factor first * score first second) labels vertex label =
      factor vertex * scoreInto score labels vertex label := by
  unfold scoreInto
  rw [Finset.mul_sum]
  apply Finset.sum_congr rfl
  intro other _
  rw [mul_ite, mul_zero]

variable {score}

theorem pairScore_split (symmetric : ∀ first second, score first second = score second first)
    (vertex : Vertex) :
    pairScore score labels = scoreWithout score labels vertex + score vertex vertex +
      2 * scoreInto score labels vertex (labels vertex) := by
  let scored := fun first second => if labels first = labels second then score first second else 0
  have ownRow : ∑ second, scored vertex second =
      score vertex vertex + scoreInto score labels vertex (labels vertex) := by
    rw [← Finset.add_sum_erase _ _ (Finset.mem_univ vertex)]
    congr 1
    · exact if_pos rfl
    · apply Finset.sum_congr rfl
      intro other _
      exact if_congr eq_comm rfl rfl
  have ownColumn : ∑ first ∈ Finset.univ.erase vertex, scored first vertex =
      scoreInto score labels vertex (labels vertex) := by
    apply Finset.sum_congr rfl
    intro other _
    exact if_congr Iff.rfl (symmetric other vertex) rfl
  have otherRows : ∑ first ∈ Finset.univ.erase vertex, ∑ second, scored first second =
      scoreInto score labels vertex (labels vertex) + scoreWithout score labels vertex := by
    rw [← ownColumn]
    unfold scoreWithout
    rw [← Finset.sum_add_distrib]
    apply Finset.sum_congr rfl
    intro first _
    exact (Finset.add_sum_erase _ _ (Finset.mem_univ vertex)).symm
  change ∑ first, ∑ second, scored first second = _
  rw [← Finset.add_sum_erase _ _ (Finset.mem_univ vertex), ownRow, otherRows]
  ring

theorem pairScore_update (symmetric : ∀ first second, score first second = score second first)
    (vertex : Vertex) (label : Label) :
    pairScore score (Function.update labels vertex label) - pairScore score labels =
      2 * (scoreInto score labels vertex label -
        scoreInto score labels vertex (labels vertex)) := by
  rw [pairScore_split labels symmetric vertex,
    pairScore_split (Function.update labels vertex label) symmetric vertex,
    scoreWithout_update, scoreInto_update, Function.update_self]
  ring

/-- A sum over a list of tagged values, tag by tag. -/
theorem sum_tagged {Value : Type} (links : List (Vertex × Value)) (counts : Vertex → Prop)
    [DecidablePred counts] (value : Vertex → Value → Score) :
    (links.map (fun link => if counts link.1 then value link.1 link.2 else 0)).sum =
      ∑ vertex, if counts vertex then
        (((links.filter (fun link => link.1 = vertex)).map Prod.snd).map (value vertex)).sum
      else 0 := by
  induction links with
  | nil =>
      rw [List.map_nil, List.sum_nil]
      symm
      apply Finset.sum_eq_zero
      intro vertex _
      exact ite_self _
  | cons link rest ih =>
      have tagged : (if counts link.1 then value link.1 link.2 else 0) =
          ∑ vertex, if vertex = link.1 then (if counts link.1 then value link.1 link.2 else 0)
            else 0 := by
        rw [Finset.sum_ite_eq', if_pos (Finset.mem_univ _)]
      rw [List.map_cons, List.sum_cons, ih, tagged, ← Finset.sum_add_distrib]
      apply Finset.sum_congr rfl
      intro vertex _
      by_cases same : vertex = link.1
      · subst same
        have own : (link :: rest).filter (fun other => other.1 = link.1) =
            link :: rest.filter (fun other => other.1 = link.1) :=
          List.filter_cons_of_pos (decide_eq_true rfl)
        rw [if_pos rfl, own, List.map_cons, List.map_cons, List.sum_cons]
        split
        · rfl
        · rw [add_zero]
      · rw [if_neg same, zero_add, List.filter_cons_of_neg]
        intro other
        exact same (of_decide_eq_true other).symm

end Sums

omit [DecidableEq Vertex] in
theorem pairScore_le [CommRing Score] [LinearOrder Score] [IsStrictOrderedRing Score]
    (score : Vertex → Vertex → Score) (labels : Vertex → Label) :
    pairScore score labels ≤ ∑ first, ∑ second, |score first second| := by
  apply Finset.sum_le_sum
  intro first _
  apply Finset.sum_le_sum
  intro second _
  split
  · exact le_abs_self _
  · exact abs_nonneg _

end Mneme.Library
