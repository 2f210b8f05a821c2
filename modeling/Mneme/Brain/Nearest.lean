/-
Nearest-neighbour search in the embedding store.

Scores are exact dot products.  The buffer for the hits is reserved for one hit
more than were asked for, however many vectors are stored; a reservation that an
allocation may hold is taken to be granted.
-/

import Mathlib.Algebra.Order.Ring.Rat
import Mathlib.Data.Vector.Basic
import Mneme.Brain.EmbedLoad
import Mneme.Library.Selection

namespace Mneme.Brain.Embed

open Common Library

structure NearestHit where
  node : NodeId
  score : Rat
deriving DecidableEq

/-- The size of a hit in bytes: the u128 aligns it to 16. -/
def hitBytes : Nat := 32

def dot (row query : List F32) : Rat :=
  (List.zipWith (fun left right => f32Value left * f32Value right) row query).sum

/-- One hit for each slot, in the order of the slots. -/
def hitsOf (state : State) (query : List F32) : List NearestHit :=
  state.ids.mapIdx (fun index node =>
    { node, score := dot (Rows.rowAt embeddingDim state.vectors index) query })

/-- How the hits are sorted: by descending score. -/
def higherScore (left right : NearestHit) : Prop :=
  right.score ≤ left.score

instance : DecidableRel higherScore := fun left right =>
  inferInstanceAs (Decidable (right.score ≤ left.score))

/-- Keep a hit while there is room, or in the place of the last one when its
score is higher. -/
def offerHit (k : Nat) (heap : List NearestHit) (hit : NearestHit) : List NearestHit :=
  if heap.length < k then (heap ++ [hit]).insertionSort higherScore
  else if heap.getLast?.all (fun last => hit.score > last.score) then
    (heap.dropLast ++ [hit]).insertionSort higherScore
  else heap

/-- `EmbedStore::nearest`; `none` when it panics. -/
def nearest (overflowChecks : Bool) (state : State) (query : List F32) (k : Nat) :
    Option (List NearestHit) :=
  if query.length ≠ embeddingDim ∨ k = 0 then some []
  else if state.ids.length = 0 then some []
  else if overflowChecks ∧ 2 ^ 64 ≤ k + 1 then none
  else if isizeMax < (k + 1) % 2 ^ 64 * hitBytes then none
  else some ((hitsOf state query).foldl (offerHit k) [])

/-! ### The best hits -/

instance : Std.Total higherScore := ⟨fun left right => le_total right.score left.score⟩

instance : IsTrans NearestHit higherScore := ⟨fun _ _ _ first second => le_trans second first⟩

theorem offerHit_eq : offerHit = Selection.offer higherScore := by
  funext k heap hit
  unfold offerHit Selection.offer higherScore
  simp only [gt_iff_lt, not_le]

/-- All slots by descending score, the earlier one first among equals. -/
def ranked (state : State) (query : List F32) : List NearestHit :=
  (hitsOf state query).insertionSort higherScore

variable {k : Nat}

/-- What a search returns when the buffer can be reserved. -/
theorem foldl_offerHit (some_asked : 0 < k) (state : State) (query : List F32) :
    (hitsOf state query).foldl (offerHit k) [] = (ranked state query).take k := by
  rw [offerHit_eq]
  exact Selection.foldl_offer some_asked _

/-- The hits are the `k` best: as many as there are, of different nodes, by
descending score, and no slot left out scores higher. -/
structure TopK (state : State) (query : List F32) (k : Nat) (hits : List NearestHit) : Prop where
  count : hits.length = min k state.ids.length
  distinct : (hits.map NearestHit.node).Nodup
  sorted : hits.Pairwise higherScore
  best : ∃ left, (hits ++ left).Perm (hitsOf state query) ∧
    ∀ hit ∈ hits, ∀ other ∈ left, other.score ≤ hit.score

/-- The buffer for the hits is not needed or can be reserved. -/
def Reservable (overflowChecks : Bool) (state : State) (k : Nat) : Prop :=
  k = 0 ∨ state.ids = [] ∨
    (¬ (overflowChecks = true ∧ 2 ^ 64 ≤ k + 1) ∧ (k + 1) % 2 ^ 64 * hitBytes ≤ isizeMax)

variable (state : State)

theorem hitsOf_length (query : List F32) : (hitsOf state query).length = state.ids.length :=
  List.length_mapIdx

theorem take_ranked_topK (query : List F32) (k : Nat)
    (distinct : (((ranked state query).take k).map NearestHit.node).Nodup) :
    TopK state query k ((ranked state query).take k) := by
  have permuted : (ranked state query).Perm (hitsOf state query) := List.perm_insertionSort _ _
  have sorted : (ranked state query).Pairwise higherScore := List.pairwise_insertionSort _ _
  constructor
  · rw [List.length_take, permuted.length_eq, hitsOf_length]
  · exact distinct
  · exact sorted.sublist (List.take_sublist _ _)
  · refine ⟨(ranked state query).drop k, ?_, Selection.take_sorted k (hitsOf state query)⟩
    rw [List.take_append_drop]
    exact permuted

variable {state : State}

variable {overflowChecks : Bool}

theorem nearest_of_reservable {query : List F32}
    (whole : query.length = embeddingDim) (reservable : Reservable overflowChecks state k) :
    nearest overflowChecks state query k = some ((ranked state query).take k) := by
  unfold nearest
  by_cases none_asked : k = 0
  · rw [if_pos (Or.inr none_asked), none_asked]
    rfl
  · rw [if_neg (fun either => either.elim (fun short => short whole) none_asked)]
    by_cases empty : state.ids = []
    · have nothing : ranked state query = [] := by
        unfold ranked hitsOf
        rw [empty]
        rfl
      rw [empty, nothing, List.take_nil]
      exact if_pos rfl
    · have present : ¬ state.ids.length = 0 := fun length => empty (List.length_eq_zero_iff.mp length)
      obtain ⟨noOverflow, held⟩ := (reservable.resolve_left none_asked).resolve_left empty
      rw [if_neg present, if_neg noOverflow, if_neg (Nat.not_lt.mpr held),
        foldl_offerHit (Nat.pos_of_ne_zero none_asked)]

theorem reservable_of_nearest {query : List F32}
    {hits : List NearestHit} (whole : query.length = embeddingDim)
    (returned : nearest overflowChecks state query k = some hits) :
    Reservable overflowChecks state k := by
  unfold nearest at returned
  by_cases none_asked : k = 0
  · exact Or.inl none_asked
  · rw [if_neg (fun either => either.elim (fun short => short whole) none_asked)] at returned
    right
    by_cases empty : state.ids = []
    · exact Or.inl empty
    · right
      rw [if_neg (fun length => empty (List.length_eq_zero_iff.mp length))] at returned
      split at returned
      · cases returned
      · rename_i noOverflow
        split at returned
        · cases returned
        · rename_i held
          exact ⟨noOverflow, Nat.not_lt.mp held⟩

/-- A search gives the `k` best hits exactly when its buffer can be reserved and
no node has two slots among the best. -/
theorem nearest_topK_iff (overflowChecks : Bool) (state : State)
    (query : List.Vector F32 embeddingDim) (k : Nat) :
    (∃ hits, nearest overflowChecks state query.toList k = some hits ∧
        TopK state query.toList k hits) ↔
      Reservable overflowChecks state k ∧
        (((ranked state query.toList).take k).map NearestHit.node).Nodup := by
  have whole : query.toList.length = embeddingDim := query.toList_length
  constructor
  · intro found
    obtain ⟨hits, returned, best⟩ := found
    have reservable := reservable_of_nearest whole returned
    rw [nearest_of_reservable whole reservable] at returned
    cases returned
    exact ⟨reservable, best.distinct⟩
  · intro both
    exact ⟨_, nearest_of_reservable whole both.1, take_ranked_topK state _ k both.2⟩

/-! ### A store with one vector -/

def alone : State :=
  { ids := [7], vectors := ones, dirty := false }

/-- A buffer for 2 ^ 60 hits is reserved to return one. -/
theorem alone_panics :
    ¬ ∀ (overflowChecks : Bool) (state : State) (query : List.Vector F32 embeddingDim) (k : Nat),
      state.ids.Nodup → k < 2 ^ 64 →
      ∃ hits, nearest overflowChecks state query.toList k = some hits ∧
        TopK state query.toList k hits := by
  intro always
  obtain ⟨hits, returned, _⟩ := always false alone ⟨ones, List.length_replicate⟩ (2 ^ 60)
    (List.nodup_singleton _) (by decide)
  rcases reservable_of_nearest List.length_replicate returned with asked | empty | held
  · cases asked
  · cases empty
  · exact absurd held.2 (by decide)

end Mneme.Brain.Embed
