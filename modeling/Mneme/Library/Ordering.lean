/-
Sorting rows and selecting among them, in either order; the first rows of what is sorted,
before a selection and behind it; and counters in the order of their keys, which do not
depend on the order of what is counted.
-/

import Mathlib.Data.List.Sort

namespace Mneme.Library

section Rows

variable {Row : Type} {order : Row → Row → Prop} [DecidableRel order]

theorem orderedInsert_first {row : Row} {rows : List Row} (first : ∀ other ∈ rows, order row other) :
    rows.orderedInsert order row = row :: rows := by
  cases rows with
  | nil => rfl
  | cons head rows => exact if_pos (first head List.mem_cons_self)

variable [IsTrans Row order]

theorem filter_orderedInsert (test : Row → Bool) (row : Row) {rows : List Row}
    (sorted : rows.Pairwise order) :
    (rows.orderedInsert order row).filter test =
      if test row then (rows.filter test).orderedInsert order row else rows.filter test := by
  induction rows with
  | nil => exact List.filter_cons
  | cons head rows ih =>
      obtain ⟨below, rest⟩ := List.pairwise_cons.mp sorted
      by_cases ahead : order row head
      · have first : ∀ other ∈ (head :: rows).filter test, order row other := by
          intro other member
          rcases List.mem_cons.mp (List.mem_filter.mp member).1 with same | later
          · rw [same]
            exact ahead
          · exact IsTrans.trans _ _ _ ahead (below other later)
        rw [List.orderedInsert_cons, if_pos ahead, orderedInsert_first first, List.filter_cons]
      · rw [List.orderedInsert_cons, if_neg ahead]
        by_cases kept : test head = true
        · rw [List.filter_cons_of_pos kept, ih rest, List.filter_cons_of_pos kept]
          split
          · rw [List.orderedInsert_cons, if_neg ahead]
          · rfl
        · rw [List.filter_cons_of_neg kept, ih rest, List.filter_cons_of_neg kept]

/-- Selecting from sorted rows is sorting the selected ones. -/
theorem filter_insertionSort [Std.Total order] (test : Row → Bool) (rows : List Row) :
    (rows.insertionSort order).filter test = (rows.filter test).insertionSort order := by
  induction rows with
  | nil => rfl
  | cons row rows ih =>
      rw [List.insertionSort_cons, filter_orderedInsert test row
        (List.pairwise_insertionSort order rows), ih]
      by_cases kept : test row = true
      · rw [if_pos kept, List.filter_cons_of_pos kept, List.insertionSort_cons]
      · rw [if_neg kept, List.filter_cons_of_neg kept]

/-- A row goes before an item exactly when it is ordered before it. -/
theorem orderedInsert_around (row item : Row) {front back : List Row}
    (sorted : (front ++ item :: back).Pairwise order) :
    (front ++ item :: back).orderedInsert order row =
      if order row item then front.orderedInsert order row ++ item :: back
      else front ++ item :: back.orderedInsert order row := by
  induction front with
  | nil =>
      by_cases ahead : order row item
      · rw [if_pos ahead]
        exact if_pos ahead
      · rw [if_neg ahead]
        exact if_neg ahead
  | cons head front ih =>
      obtain ⟨below, rest⟩ := List.pairwise_cons.mp sorted
      rw [List.cons_append, List.orderedInsert_cons, ih rest]
      by_cases first : order row head
      · have ahead : order row item :=
          IsTrans.trans _ _ _ first (below item (List.mem_append_right _ List.mem_cons_self))
        rw [if_pos first, if_pos ahead, List.orderedInsert_cons, if_pos first]
        rfl
      · rw [if_neg first]
        by_cases ahead : order row item
        · rw [if_pos ahead, if_pos ahead, List.orderedInsert_cons, if_neg first]
          rfl
        · rw [if_neg ahead, if_neg ahead]
          rfl

/-- Where a stable sort puts an item: behind the rows before it that may stand
before it, and behind the rows after it that have to. -/
theorem insertionSort_position [Std.Total order] (before : List Row) (item : Row)
    (after : List Row) :
    ∃ front back, (before ++ item :: after).insertionSort order = front ++ item :: back ∧
      (∀ row ∈ front, row ∈ before ++ after) ∧
      front.length = before.countP (fun row => order row item) +
        after.countP (fun row => ¬ order item row) := by
  induction before with
  | nil =>
      have sorted := List.pairwise_insertionSort order after
      refine ⟨(after.insertionSort order).takeWhile (fun row => ¬ order item row),
        (after.insertionSort order).dropWhile (fun row => ¬ order item row), ?_, ?_, ?_⟩
      · rw [List.nil_append, List.insertionSort_cons, List.orderedInsert_eq_take_drop]
      · intro row member
        exact (List.mem_insertionSort order).mp (((List.takeWhile_prefix _).subset member))
      · rw [List.countP_nil, Nat.zero_add,
          ← (List.perm_insertionSort order after).countP_eq]
        generalize after.insertionSort order = rows at sorted
        induction rows with
        | nil => rfl
        | cons head rows ih =>
            obtain ⟨below, rest⟩ := List.pairwise_cons.mp sorted
            by_cases last : order item head
            · have none : ∀ row ∈ head :: rows, ¬ ((decide (¬ order item row)) = true) := by
                intro row member
                rw [decide_eq_true_eq, not_not]
                rcases List.mem_cons.mp member with same | later
                · rw [same]
                  exact last
                · exact IsTrans.trans _ _ _ last (below row later)
              rw [List.takeWhile_cons_of_neg (by simpa using last), List.countP_eq_zero.mpr none]
              rfl
            · rw [List.takeWhile_cons_of_pos (by simpa using last),
                List.countP_cons_of_pos (by simpa using last), List.length_cons, ih rest]
  | cons row before ih =>
      obtain ⟨front, back, split, members, length⟩ := ih
      have sorted := List.pairwise_insertionSort order (before ++ item :: after)
      rw [split] at sorted
      rw [List.cons_append, List.insertionSort_cons, split, orderedInsert_around row item sorted]
      by_cases ahead : order row item
      · rw [if_pos ahead]
        refine ⟨_, back, rfl, ?_, ?_⟩
        · intro other member
          rcases (List.mem_orderedInsert order).mp member with same | earlier
          · rw [same]
            exact List.mem_cons_self
          · exact List.mem_cons_of_mem _ (members other earlier)
        · rw [List.orderedInsert_length, List.countP_cons_of_pos (by simpa using ahead), length]
          omega
      · rw [if_neg ahead]
        refine ⟨front, _, rfl, fun other member => List.mem_cons_of_mem _ (members other member), ?_⟩
        rw [List.countP_cons_of_neg (by simpa using ahead), length]

end Rows

/-! ### Counters -/

section Counters

variable {Key : Type} [LinearOrder Key]

/-- `*counts.entry(key).or_insert(0) += 1` on a map in the order of its keys. -/
def bump (key : Key) : List (Key × UInt32) → List (Key × UInt32)
  | [] => [(key, 1)]
  | entry :: rest =>
      if key < entry.1 then (key, 1) :: entry :: rest
      else if key = entry.1 then (entry.1, entry.2 + 1) :: rest
      else entry :: bump key rest

theorem bump_before {key : Key} {entry : Key × UInt32} (rest : List (Key × UInt32))
    (before : key < entry.1) : bump key (entry :: rest) = (key, 1) :: entry :: rest :=
  if_pos before

theorem bump_here (entry : Key × UInt32) (rest : List (Key × UInt32)) :
    bump entry.1 (entry :: rest) = (entry.1, entry.2 + 1) :: rest := by
  rw [bump, if_neg (lt_irrefl _), if_pos rfl]

theorem bump_behind {key : Key} {entry : Key × UInt32} (rest : List (Key × UInt32))
    (behind : entry.1 < key) : bump key (entry :: rest) = entry :: bump key rest := by
  rw [bump, if_neg (lt_asymm behind), if_neg (ne_of_gt behind)]

theorem bump_comm_of_lt {key other : Key} (below : key < other) (counts : List (Key × UInt32)) :
    bump key (bump other counts) = bump other (bump key counts) := by
  induction counts with
  | nil => rw [bump, bump, bump_before [] below, bump_behind [] below, bump]
  | cons entry rest ih =>
      rcases lt_trichotomy key entry.1 with before | here | behind
      · rw [bump_before rest before, @bump_behind _ _ other (key, 1) _ below]
        rcases lt_trichotomy other entry.1 with otherBefore | otherHere | otherBehind
        · rw [bump_before rest otherBefore]
          exact bump_before _ below
        · rw [otherHere, bump_here]
          exact bump_before _ before
        · rw [bump_behind rest otherBehind]
          exact bump_before _ before
      · rw [here] at below ⊢
        rw [bump_here, bump_behind rest below, bump_here]
        exact (@bump_behind _ _ other (entry.1, entry.2 + 1) rest below).symm
      · have otherBehind := lt_trans behind below
        rw [bump_behind rest otherBehind, bump_behind _ behind, ih, bump_behind rest behind,
          bump_behind _ otherBehind]

theorem bump_comm (key other : Key) (counts : List (Key × UInt32)) :
    bump key (bump other counts) = bump other (bump key counts) := by
  rcases lt_trichotomy key other with below | same | above
  · exact bump_comm_of_lt below counts
  · rw [same]
  · exact (bump_comm_of_lt above counts).symm

/-- Count several keys, one after another. -/
def bumpAll (keys : List Key) (counts : List (Key × UInt32)) : List (Key × UInt32) :=
  keys.foldl (fun counts key => bump key counts) counts

theorem bumpAll_perm {keys others : List Key} (same : keys.Perm others)
    (counts : List (Key × UInt32)) : bumpAll keys counts = bumpAll others counts :=
  same.foldl_eq' (fun key _ other _ counts => bump_comm other key counts) counts

theorem bumpAll_append (front back : List Key) (counts : List (Key × UInt32)) :
    bumpAll (front ++ back) counts = bumpAll back (bumpAll front counts) :=
  List.foldl_append

theorem bumpAll_comm (keys others : List Key) (counts : List (Key × UInt32)) :
    bumpAll keys (bumpAll others counts) = bumpAll others (bumpAll keys counts) := by
  rw [← bumpAll_append, ← bumpAll_append]
  exact bumpAll_perm List.perm_append_comm counts

/-- `iter().max_by_key(|(_, count)| **count)`: the last of the largest. -/
def maxByCount (counts : List (Key × UInt32)) : Option (Key × UInt32) :=
  counts.foldl
    (fun best entry =>
      match best with
      | none => some entry
      | some largest => if largest.2 ≤ entry.2 then some entry else some largest)
    none

end Counters

/-! ### A limit before a selection -/

section Limit

variable {Row : Type} {order : Row → Row → Prop} {rows sorted : List Row}

/-- `LIMIT`: a negative one limits nothing. -/
def firstRows (limit : Int) (rows : List Row) : List Row :=
  if limit < 0 then rows else rows.take limit.toNat

def laterRows (limit : Int) (rows : List Row) : List Row :=
  if limit < 0 then [] else rows.drop limit.toNat

theorem firstRows_append_laterRows (limit : Int) (rows : List Row) :
    firstRows limit rows ++ laterRows limit rows = rows := by
  unfold firstRows laterRows
  split
  · exact List.append_nil rows
  · exact List.take_append_drop _ rows

variable {limit : Int}

/-- Fewer rows than there were to take are all rows. -/
theorem eq_of_firstRows_short
    (short : (firstRows limit rows).length < (firstRows limit sorted).length) :
    firstRows limit rows = rows := by
  unfold firstRows at short ⊢
  split
  · rfl
  · rename_i limits
    rw [if_neg limits, if_neg limits, List.length_take, List.length_take] at short
    exact List.take_of_length_le (by omega)

/-- The limit leaves what is no longer than the first rows of a list. -/
theorem firstRows_of_short (short : rows.length ≤ (firstRows limit sorted).length) :
    firstRows limit rows = rows := by
  unfold firstRows at short ⊢
  split
  · rfl
  · rename_i limits
    rw [if_neg limits, List.length_take] at short
    exact List.take_of_length_le (by omega)

theorem firstRows_append (more : laterRows limit sorted ≠ []) (rows : List Row) :
    firstRows limit (firstRows limit sorted ++ rows) = firstRows limit sorted := by
  unfold firstRows
  unfold laterRows at more
  split
  · rename_i negative
    rw [if_pos negative] at more
    exact absurd rfl more
  · rename_i limits
    rw [if_neg limits, ne_eq, List.drop_eq_nil_iff] at more
    rw [List.take_append_of_le_length (by rw [List.length_take]; omega), List.take_take,
      Nat.min_self]

/-- The first rows of some arrangement in the order. -/
def FirstOf (order : Row → Row → Prop) (limit : Int) (rows result : List Row) : Prop :=
  ∃ arranged : List Row, arranged.Perm rows ∧ arranged.Pairwise order ∧
    result = firstRows limit arranged

/-- What is kept of the first rows are the first ones of a selection exactly if these rows are
kept as they are selected, and either all of them are selected or none behind them is. -/
theorem firstOf_filter_iff (perm : sorted.Perm rows) (ordered : sorted.Pairwise order)
    (limit : Int) (keeps applies : Row → Bool) :
    FirstOf order limit (rows.filter applies) ((firstRows limit sorted).filter keeps) ↔
      (∀ row ∈ firstRows limit sorted, keeps row = applies row) ∧
      ((∀ row ∈ firstRows limit sorted, applies row = true) ∨
        ∀ row ∈ laterRows limit sorted, applies row = false) := by
  have whole := firstRows_append_laterRows limit sorted
  constructor
  · rintro ⟨arranged, perm', _, same⟩
    have selected : ∀ row ∈ (firstRows limit sorted).filter keeps, applies row = true := by
      intro row member
      rw [same] at member
      have inside : row ∈ arranged := by
        rw [← firstRows_append_laterRows limit arranged]
        exact List.mem_append_left _ member
      exact (List.mem_filter.mp (perm'.mem_iff.mp inside)).2
    -- If one of the first rows is dropped, the result has all that are selected.
    have exhausted : ∀ row ∈ firstRows limit sorted, keeps row = false →
        arranged = (firstRows limit sorted).filter keeps := by
      intro row member dropped
      have short : ((firstRows limit sorted).filter keeps).length <
          (firstRows limit sorted).length :=
        List.length_filter_lt_length_iff_exists.mpr ⟨row, member, by simp [dropped]⟩
      rw [same] at short ⊢
      exact (eq_of_firstRows_short short).symm
    have alike : ∀ row ∈ firstRows limit sorted, keeps row = applies row := by
      intro row member
      cases kept : keeps row with
      | true => exact (selected row (List.mem_filter.mpr ⟨member, kept⟩)).symm
      | false =>
          by_contra applied
          have inside : row ∈ rows.filter applies := by
            refine List.mem_filter.mpr ⟨perm.mem_iff.mp ?_, by simpa using applied⟩
            rw [← whole]
            exact List.mem_append_left _ member
          rw [← perm'.mem_iff, exhausted row member kept] at inside
          have kept' := (List.mem_filter.mp inside).2
          rw [kept] at kept'
          cases kept'
    refine ⟨alike, ?_⟩
    by_cases all : ∀ row ∈ firstRows limit sorted, applies row = true
    · exact Or.inl all
    · right
      push Not at all
      obtain ⟨row, member, refused⟩ := all
      have dropped : keeps row = false := by
        rw [alike row member]
        exact Bool.eq_false_iff.mpr refused
      have sizes := perm'.length_eq
      have sizes' := (perm.filter applies).length_eq
      rw [exhausted row member dropped, List.filter_congr alike] at sizes
      rw [← whole, List.filter_append, List.length_append] at sizes'
      have none : (laterRows limit sorted).filter applies = [] :=
        List.length_eq_zero_iff.mp (by omega)
      intro other later
      exact Bool.eq_false_iff.mpr (List.filter_eq_nil_iff.mp none other later)
  · rintro ⟨alike, rest⟩
    refine ⟨sorted.filter applies, perm.filter applies, ordered.filter applies, ?_⟩
    rw [List.filter_congr alike]
    rcases rest with all | none
    · conv_rhs => rw [← whole, List.filter_append, List.filter_eq_self.mpr all]
      rw [List.filter_eq_self.mpr all]
      by_cases more : laterRows limit sorted = []
      · rw [more, List.filter_nil, List.append_nil]
        exact (firstRows_of_short (Nat.le_refl _)).symm
      · exact (firstRows_append more _).symm
    · have nothing : (laterRows limit sorted).filter applies = [] :=
        List.filter_eq_nil_iff.mpr (fun row member => by simp [none row member])
      conv_rhs => rw [← whole, List.filter_append, nothing, List.append_nil]
      exact (firstRows_of_short (List.length_filter_le _ _)).symm

end Limit
end Mneme.Library
