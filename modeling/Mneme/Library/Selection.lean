/-
The first items of a stable sort, kept while the items come in.

An item that comes in last is sorted behind everything that may stand before
it, so a selection that is full changes only when the new item is ahead of the
last one kept.  A selection that is filtered afterwards, or that is the pool for
another one, can miss items that it left out.
-/

import Mathlib.Data.List.Induction
import Mathlib.Data.List.Sort

namespace Mneme.Library.Selection

variable {Item : Type} (order : Item → Item → Prop) [DecidableRel order]

/-- Put an item behind all that may stand before it. -/
def placeBehind (item : Item) : List Item → List Item
  | [] => [item]
  | head :: rest =>
      if order head item then head :: placeBehind item rest else item :: head :: rest

/-- Offer an item to a sorted selection of at most so many. -/
def offer (limit : Nat) (kept : List Item) (item : Item) : List Item :=
  if kept.length < limit then (kept ++ [item]).insertionSort order
  else if kept.getLast?.all (fun last => ¬ order last item) then
    (kept.dropLast ++ [item]).insertionSort order
  else kept

variable {order}

theorem placeBehind_length (item : Item) (items : List Item) :
    (placeBehind order item items).length = items.length + 1 := by
  induction items with
  | nil => rfl
  | cons head rest ih =>
      rw [placeBehind]
      split
      · rw [List.length_cons, ih, List.length_cons]
      · rfl

variable {last item : Item}

/-- An item that is ahead of another one is placed in front of it. -/
theorem placeBehind_before (front back : List Item) (before : ¬ order last item) :
    placeBehind order item (front ++ last :: back) =
      placeBehind order item front ++ last :: back := by
  induction front with
  | nil => exact if_neg before
  | cons head front ih =>
      rw [List.cons_append, placeBehind, placeBehind, ih]
      split
      · rfl
      · rfl

variable [IsTrans Item order]

/-- An item is behind a front whose last item may stand before it. -/
theorem placeBehind_append {front : List Item} (back : List Item)
    (sorted : (front ++ last :: back).Pairwise order) (behind : order last item) :
    placeBehind order item (front ++ last :: back) =
      front ++ last :: placeBehind order item back := by
  induction front with
  | nil => exact if_pos behind
  | cons head front ih =>
      obtain ⟨below, rest⟩ := List.pairwise_cons.mp sorted
      have ahead : order head item :=
        IsTrans.trans _ _ _ (below last (List.mem_append_right _ List.mem_cons_self)) behind
      rw [List.cons_append, placeBehind, if_pos ahead, ih rest]
      rfl

variable [Std.Total order]

theorem orderedInsert_placeBehind (first item : Item) (items : List Item) :
    (placeBehind order item items).orderedInsert order first =
      placeBehind order item (items.orderedInsert order first) := by
  induction items with
  | nil =>
      change [item].orderedInsert order first = placeBehind order item [first]
      rw [placeBehind, List.orderedInsert_cons]
      split
      · rfl
      · rfl
  | cons head rest ih =>
      rw [placeBehind, List.orderedInsert_cons]
      by_cases behind : order head item
      · rw [if_pos behind, List.orderedInsert_cons]
        by_cases ahead : order first head
        · have before : order first item := IsTrans.trans _ _ _ ahead behind
          rw [if_pos ahead, if_pos ahead, placeBehind, if_pos before, placeBehind, if_pos behind]
        · rw [if_neg ahead, if_neg ahead, ih, placeBehind, if_pos behind]
      · have before : order item head := (Std.Total.total item head).resolve_right behind
        rw [if_neg behind, List.orderedInsert_cons, List.orderedInsert_cons]
        by_cases early : order first item
        · have ahead : order first head := IsTrans.trans _ _ _ early before
          rw [if_pos early, if_pos ahead, placeBehind, if_pos early, placeBehind, if_neg behind]
        · rw [if_neg early]
          by_cases ahead : order first head
          · rw [if_pos ahead, placeBehind, if_neg early]
          · rw [if_neg ahead, placeBehind, if_neg behind]

/-- Sorting with one more item at the end. -/
theorem insertionSort_append (items : List Item) (item : Item) :
    (items ++ [item]).insertionSort order = placeBehind order item (items.insertionSort order) := by
  induction items with
  | nil => rfl
  | cons first rest ih =>
      rw [List.cons_append, List.insertionSort_cons, ih, orderedInsert_placeBehind,
        List.insertionSort_cons]

variable {limit : Nat}

/-- The selection of some items, offered one more. -/
theorem offer_take (positive : 0 < limit) (items : List Item) (item : Item) :
    offer order limit ((items.insertionSort order).take limit) item =
      ((items ++ [item]).insertionSort order).take limit := by
  have sorted := List.pairwise_insertionSort order items
  rw [insertionSort_append]
  generalize items.insertionSort order = kept at sorted
  unfold offer
  by_cases room : (kept.take limit).length < limit
  · have all : kept.take limit = kept := by
      rw [List.length_take] at room
      exact List.take_of_length_le (by omega)
    have fits : (placeBehind order item kept).length ≤ limit := by
      rw [all] at room
      rw [placeBehind_length]
      omega
    rw [if_pos room, all, insertionSort_append, sorted.insertionSort_eq,
      List.take_of_length_le fits]
  · rw [if_neg room]
    obtain ⟨front, last, back, split, size⟩ : ∃ front last back,
        kept = front ++ last :: back ∧ front.length + 1 = limit := by
      rw [List.length_take] at room
      have within : limit - 1 < kept.length := by omega
      refine ⟨kept.take (limit - 1), kept[limit - 1], kept.drop (limit - 1 + 1), ?_, ?_⟩
      · rw [← List.drop_eq_getElem_cons within, List.take_append_drop]
      · rw [List.length_take]
        omega
    have full : kept.take limit = front ++ [last] := by
      rw [split, ← size, List.take_length_add_append]
      rfl
    have frontSorted : front.Pairwise order := by
      rw [split] at sorted
      exact (List.pairwise_append.mp sorted).1
    rw [full, List.getLast?_concat, List.dropLast_concat, insertionSort_append,
      frontSorted.insertionSort_eq]
    by_cases behind : order last item
    · have stays : ¬ (some last).all (fun last => ¬ order last item) = true := by
        simpa using behind
      rw [split] at sorted
      rw [if_neg stays, split, placeBehind_append back sorted behind, ← size,
        List.take_length_add_append]
      rfl
    · have enters : (some last).all (fun last => ¬ order last item) = true := by
        simpa using behind
      rw [if_pos enters, split, placeBehind_before front back behind, ← size,
        ← @placeBehind_length _ order _ item front, List.take_left]

/-- Whatever order the items come in, the selection is the front of their sort. -/
theorem foldl_offer (positive : 0 < limit) (items : List Item) :
    items.foldl (offer order limit) [] = (items.insertionSort order).take limit := by
  induction items using List.reverseRecOn with
  | nil => exact (List.take_nil).symm
  | append_singleton items item ih =>
      rw [List.foldl_append, ih, List.foldl_cons, List.foldl_nil, offer_take positive]

/-- What a front of a sort leaves out is not ahead of what it keeps. -/
theorem take_sorted (limit : Nat) (items : List Item) :
    ∀ kept ∈ (items.insertionSort order).take limit,
      ∀ left ∈ (items.insertionSort order).drop limit, order kept left := by
  have sorted := List.pairwise_insertionSort order items
  rw [← List.take_append_drop limit (items.insertionSort order)] at sorted
  exact (List.pairwise_append.mp sorted).2.2

/-! ### Selections under any order of the ties -/

/-- The first items under an order, as many as a limit allows. -/
structure TopOf (order : Item → Item → Prop) (limit : Nat) (items chosen : List Item) : Prop where
  length : chosen.length = min limit items.length
  sorted : chosen.Pairwise order
  best : ∃ left, (chosen ++ left).Perm items ∧ ∀ kept ∈ chosen, ∀ other ∈ left, order kept other

omit [DecidableRel order] [IsTrans Item order] [Std.Total order] in
/-- An item is chosen, or everything chosen may stand before it. -/
theorem TopOf.chosen_or_behind {items chosen : List Item}
    (top : TopOf order limit items chosen) (member : item ∈ items) :
    item ∈ chosen ∨ ∀ kept ∈ chosen, order kept item := by
  obtain ⟨left, whole, best⟩ := top.best
  rcases List.mem_append.mp (whole.symm.subset member) with inside | behind
  · exact Or.inl inside
  · exact Or.inr (fun kept held => best kept held item behind)

section Cuts

omit [DecidableRel order] [IsTrans Item order] [Std.Total order]

variable {items arranged : List Item} (permuted : arranged.Perm items)
  (sorted : arranged.Pairwise order) (limit : Nat)

include sorted in
theorem take_before_drop :
    ∀ kept ∈ arranged.take limit, ∀ other ∈ arranged.drop limit, order kept other := by
  rw [← List.take_append_drop limit arranged] at sorted
  exact (List.pairwise_append.mp sorted).2.2

include permuted in
theorem filter_length (test : Item → Bool) : (items.filter test).length =
    ((arranged.take limit).filter test).length + ((arranged.drop limit).filter test).length := by
  rw [← (permuted.filter test).length_eq, ← List.length_append, ← List.filter_append,
    List.take_append_drop]

include permuted in
/-- A filtered front of the right length is all of the front, if something behind
it passes. -/
theorem front_passes (test : Item → Bool)
    (count : ((arranged.take limit).filter test).length = min limit (items.filter test).length) :
    ∀ other ∈ arranged.drop limit, test other = true →
      ∀ kept ∈ arranged.take limit, test kept = true := by
  intro other behind passes
  have some_behind : 0 < ((arranged.drop limit).filter test).length :=
    List.length_pos_of_mem (List.mem_filter.mpr ⟨behind, passes⟩)
  have within : (arranged.take limit).length ≤ limit := List.length_take_le _ _
  have passed := List.length_filter_le test (arranged.take limit)
  rw [filter_length permuted limit test] at count
  have all : ((arranged.take limit).filter test).length = (arranged.take limit).length := by omega
  exact List.length_filter_eq_length_iff.mp all

include permuted sorted

theorem topOf_take : TopOf order limit items (arranged.take limit) := by
  refine ⟨?_, sorted.sublist (List.take_sublist _ _), arranged.drop limit, ?_,
    take_before_drop sorted limit⟩
  · rw [List.length_take, permuted.length_eq]
  · rw [List.take_append_drop]
    exact permuted

/-- A front that is filtered holds the first items that pass exactly when all of
it passes or nothing behind it does. -/
theorem topOf_filter_take_iff (test : Item → Bool) :
    TopOf order limit (items.filter test) ((arranged.take limit).filter test) ↔
      ∀ other ∈ arranged.drop limit, test other = true →
        ∀ kept ∈ arranged.take limit, test kept = true := by
  constructor
  · intro top
    exact front_passes permuted limit test top.length
  · intro complete
    refine ⟨?_, (sorted.sublist (List.take_sublist _ _)).sublist List.filter_sublist,
      (arranged.drop limit).filter test, ?_, ?_⟩
    · have within : (arranged.take limit).length ≤ limit := List.length_take_le _ _
      have passed := List.length_filter_le test (arranged.take limit)
      rw [filter_length permuted limit test]
      cases behind : (arranged.drop limit).filter test with
      | nil =>
          rw [List.length_nil]
          omega
      | cons other rest =>
          have member : other ∈ (arranged.drop limit).filter test := by
            rw [behind]
            exact List.mem_cons_self
          obtain ⟨inside, passes⟩ := List.mem_filter.mp member
          have all := List.length_filter_eq_length_iff.mpr (complete other inside passes)
          have full : limit ≤ arranged.length := by
            have longer := List.length_pos_of_mem inside
            rw [List.length_drop] at longer
            omega
          rw [all, List.length_take]
          omega
    · rw [← List.filter_append, List.take_append_drop]
      exact permuted.filter test
    · intro kept member other left
      exact take_before_drop sorted limit kept (List.mem_filter.mp member).1 other
        (List.mem_filter.mp left).1

end Cuts

/-- The first items of a pool are the first of all exactly when, for each item
outside of the pool, the pool has enough that may stand before it. -/
theorem topOf_pool_iff {items pool outside : List Item} (split : (pool ++ outside).Perm items)
    (limit : Nat) :
    TopOf order limit items ((pool.insertionSort order).take limit) ↔
      ∀ other ∈ outside, limit ≤ pool.countP (fun kept => order kept other) := by
  have permuted := List.perm_insertionSort order pool
  have sorted := List.pairwise_insertionSort order pool
  have sizes : items.length = pool.length + outside.length := by
    rw [← split.length_eq, List.length_append]
  constructor
  · intro top other member
    obtain ⟨left, whole, best⟩ := top.best
    have some_outside := List.length_pos_of_mem member
    have full : ((pool.insertionSort order).take limit).length = limit := by
      have count := top.length
      rw [List.length_take, permuted.length_eq, sizes] at count
      rw [List.length_take, permuted.length_eq]
      omega
    have rests : (outside ++ (pool.insertionSort order).drop limit).Perm left := by
      apply (List.perm_append_left_iff ((pool.insertionSort order).take limit)).mp
      refine List.Perm.trans ?_ (split.trans whole.symm)
      refine (List.perm_append_comm_assoc _ _ _).trans ?_
      rw [List.take_append_drop]
      exact List.perm_append_comm.trans (permuted.append_right outside)
    have ahead := fun kept inside => best kept inside other
      (rests.subset (List.mem_append_left _ member))
    have counted : ((pool.insertionSort order).take limit).countP
        (fun kept => order kept other) = limit := by
      rw [List.countP_eq_length.mpr (fun kept inside => decide_eq_true (ahead kept inside)), full]
    rw [← permuted.countP_eq]
    exact Nat.le_trans (Nat.le_of_eq counted.symm)
      ((List.take_sublist limit _).countP_le)
  · intro enough
    refine ⟨?_, sorted.sublist (List.take_sublist _ _),
      (pool.insertionSort order).drop limit ++ outside, ?_, ?_⟩
    · rw [List.length_take, permuted.length_eq, sizes]
      cases outside with
      | nil => rfl
      | cons other rest =>
          have bound := Nat.le_trans (enough other List.mem_cons_self) List.countP_le_length
          omega
    · rw [← List.append_assoc, List.take_append_drop]
      exact (permuted.append_right outside).trans split
    · intro kept inside other member
      rcases List.mem_append.mp member with behind | beyond
      · exact take_before_drop sorted limit kept inside other behind
      · by_contra worse
        -- Nothing behind an item that may not stand before the one outside may do so.
        obtain ⟨front, back, chosen⟩ := List.append_of_mem inside
        have arranged : pool.insertionSort order =
            front ++ kept :: (back ++ (pool.insertionSort order).drop limit) := by
          rw [← List.cons_append, ← List.append_assoc, ← chosen, List.take_append_drop]
        rw [arranged] at sorted
        have below := (List.pairwise_cons.mp (List.pairwise_append.mp sorted).2.1).1
        have none : (kept :: (back ++ (pool.insertionSort order).drop limit)).countP
            (fun kept => order kept other) = 0 := by
          apply List.countP_eq_zero.mpr
          intro later member ahead
          have ahead := of_decide_eq_true ahead
          rcases List.mem_cons.mp member with same | later
          · rw [same] at ahead
            exact worse ahead
          · exact worse (IsTrans.trans _ _ _ (below _ later) ahead)
        have short : front.length < limit := by
          have cut := List.length_take_le limit (pool.insertionSort order)
          rw [chosen, List.length_append, List.length_cons] at cut
          omega
        have bound := enough other beyond
        rw [← permuted.countP_eq, arranged, List.countP_append, none] at bound
        exact absurd (Nat.le_trans bound List.countP_le_length) (Nat.not_le.mpr short)

end Mneme.Library.Selection
