/-
Lists cut at separators and lists without what stands at their ends.
-/

import Mathlib.Data.List.DropRight

namespace Mneme.Library

section Pieces

variable {α : Type} {p q : α → Bool}

/-- Cutting at two kinds of separators is cutting at one kind and then at the other. -/
theorem splitOnP_or (items : List α) :
    items.splitOnP (fun item => p item || q item) =
      (items.splitOnP p).flatMap (List.splitOnP q) := by
  induction items with
  | nil => rfl
  | cons item items ih =>
      obtain ⟨first, rest, pieces⟩ := List.exists_cons_of_ne_nil (List.splitOnP_ne_nil p items)
      rw [List.splitOnP_cons_eq_if_modifyHead, List.splitOnP_cons_eq_if_modifyHead, ih, pieces]
      cases outer : p item with
      | true =>
          rw [Bool.true_or, if_pos rfl, if_pos rfl, List.flatMap_cons (x := [])]
          rfl
      | false =>
          rw [Bool.false_or, if_neg Bool.false_ne_true, List.modifyHead_cons,
            List.flatMap_cons, List.flatMap_cons, List.splitOnP_cons_eq_if_modifyHead]
          split
          · rfl
          · obtain ⟨head, tail, cut⟩ := List.exists_cons_of_ne_nil (List.splitOnP_ne_nil q first)
            rw [cut]
            rfl

theorem splitOnP_free {items piece : List α} (member : piece ∈ items.splitOnP p) :
    ∀ item ∈ piece, p item = false := by
  induction items generalizing piece with
  | nil =>
      rw [List.splitOnP_nil, List.mem_singleton] at member
      subst member
      exact fun _ none_ => nomatch none_
  | cons item items ih =>
      obtain ⟨first, rest, pieces⟩ := List.exists_cons_of_ne_nil (List.splitOnP_ne_nil p items)
      rw [List.splitOnP_cons_eq_if_modifyHead, pieces] at member
      rw [pieces] at ih
      split at member
      · cases member with
        | head => exact fun _ none_ => nomatch none_
        | tail _ later => exact ih later
      · next kept =>
          rw [List.modifyHead_cons] at member
          cases member with
          | head =>
              intro other inside
              cases inside with
              | head => simpa using kept
              | tail _ inside => exact ih List.mem_cons_self other inside
          | tail _ later => exact ih (List.mem_cons_of_mem _ later)

variable {items : List α}

/-- The last of the items that pass a test, and what is around it. -/
theorem getLast?_filter_split {last : α} (found : (items.filter p).getLast? = some last) :
    ∃ before after, items = before ++ last :: after ∧ p last = true ∧
      ∀ item ∈ after, p item = false := by
  rw [List.getLast?_eq_head?_reverse, ← List.filter_reverse, List.head?_filter,
    List.find?_eq_some_iff_append] at found
  obtain ⟨passes, after, before, whole, others⟩ := found
  refine ⟨before.reverse, after.reverse, ?_, passes, ?_⟩
  · have turned := congrArg List.reverse whole
    rw [List.reverse_reverse, List.reverse_append, List.reverse_cons, List.append_assoc,
      List.singleton_append] at turned
    exact turned
  · intro item inside
    simpa using others item (List.mem_reverse.mp inside)

variable {front rest middle back : List α}

theorem dropWhile_block (dropped : ∀ item ∈ front, p item = true)
    (stops : ∀ item ∈ rest.head?, p item = false) : (front ++ rest).dropWhile p = rest := by
  rw [List.dropWhile_append_of_pos dropped]
  cases rest with
  | nil => rfl
  | cons item rest =>
      rw [List.dropWhile_cons_of_neg]
      rw [stops item rfl]
      exact Bool.false_ne_true

theorem rdropWhile_block (dropped : ∀ item ∈ rest, p item = true)
    (stops : ∀ item ∈ front.getLast?, p item = false) : (front ++ rest).rdropWhile p = front := by
  unfold List.rdropWhile
  rw [List.reverse_append, dropWhile_block, List.reverse_reverse]
  · intro item inside
    exact dropped item (List.mem_reverse.mp inside)
  · intro item last
    rw [List.head?_reverse] at last
    exact stops item last

/-- The first mark cuts a list in one way only. -/
theorem cut_unique {mark : α} {front' back' : List α} (free : mark ∉ front)
    (free' : mark ∉ front') (same : front ++ mark :: back = front' ++ mark :: back') :
    front = front' ∧ back = back' := by
  induction front generalizing front' with
  | nil =>
      cases front' with
      | nil =>
          injection same with _ same
          exact ⟨rfl, same⟩
      | cons first rest =>
          injection same with same _
          exact absurd (same ▸ List.mem_cons_self ..) free'
  | cons item front ih =>
      cases front' with
      | nil =>
          injection same with same _
          exact absurd (same ▸ List.mem_cons_self ..) free
      | cons first rest =>
          injection same with first same
          have tails := ih (List.not_mem_of_not_mem_cons free) (List.not_mem_of_not_mem_cons free')
            same
          exact ⟨by rw [first, tails.1], tails.2⟩

/-! ### Both ends -/

/-- Without the items at both ends that pass. -/
def trimmed (p : α → Bool) (items : List α) : List α :=
  (items.dropWhile p).rdropWhile p

theorem trimmed_split (items : List α) :
    ∃ front back, items = front ++ (trimmed p items ++ back) ∧
      (∀ item ∈ front, p item = true) ∧ ∀ item ∈ back, p item = true := by
  refine ⟨items.takeWhile p, (items.dropWhile p).rtakeWhile p, ?_, ?_, ?_⟩
  · unfold trimmed
    rw [List.rdropWhile_append_rtakeWhile, List.takeWhile_append_dropWhile]
  · intro item inside
    exact List.mem_takeWhile_imp inside
  · intro item inside
    exact List.mem_rtakeWhile_imp inside

theorem head?_trimmed {item : α} (first : (trimmed p items).head? = some item) :
    p item = false := by
  have dropped : (items.dropWhile p).head? = some item := by
    obtain ⟨rest, split⟩ := List.rdropWhile_prefix p (l := items.dropWhile p)
    rw [← split, List.head?_append]
    unfold trimmed at first
    rw [first]
    rfl
  have stops := List.head?_dropWhile_not p items
  rw [dropped] at stops
  simpa using stops

theorem getLast?_trimmed {item : α}
    (last : (trimmed p items).getLast? = some item) : p item = false := by
  have nonempty : trimmed p items ≠ [] := by
    intro empty
    rw [empty] at last
    cases last
  have stops := List.rdropWhile_last_not p (items.dropWhile p) nonempty
  rw [List.getLast?_eq_getLast_of_ne_nil nonempty, Option.some.injEq] at last
  unfold trimmed at last
  rw [last] at stops
  simpa using stops

theorem trimmed_block (dropped : ∀ item ∈ front, p item = true)
    (cut : ∀ item ∈ back, p item = true) (starts : ∀ item ∈ middle.head?, p item = false)
    (stops : ∀ item ∈ middle.getLast?, p item = false) :
    trimmed p (front ++ (middle ++ back)) = middle := by
  unfold trimmed
  cases middle with
  | nil =>
      have all : ∀ item ∈ front ++ ([] ++ back), p item = true := by
        intro item inside
        rcases List.mem_append.mp inside with inFront | inBack
        · exact dropped item inFront
        · exact cut item inBack
      rw [List.dropWhile_eq_nil_iff.mpr all]
      rfl
  | cons first rest =>
      rw [dropWhile_block dropped, rdropWhile_block cut stops]
      intro item head
      exact starts item head

theorem trimmed_around (dropped : ∀ item ∈ front, p item = true)
    (cut : ∀ item ∈ back, p item = true) :
    trimmed p (front ++ (middle ++ back)) = trimmed p middle := by
  obtain ⟨before, after, split, beforeDropped, afterCut⟩ := trimmed_split (p := p) middle
  have wider : front ++ (middle ++ back) =
      (front ++ before) ++ (trimmed p middle ++ (after ++ back)) := by
    conv_lhs => rw [split]
    simp only [List.append_assoc]
  rw [wider]
  apply trimmed_block
  · intro item inside
    exact (List.mem_append.mp inside).elim (dropped item) (beforeDropped item)
  · intro item inside
    exact (List.mem_append.mp inside).elim (afterCut item) (cut item)
  · intro item first
    exact head?_trimmed first
  · intro item last
    exact getLast?_trimmed last

theorem trimmed_eq_nil : trimmed p items = [] ↔ ∀ item ∈ items, p item = true := by
  constructor
  · intro empty
    obtain ⟨front, back, split, dropped, cut⟩ := trimmed_split (p := p) items
    rw [empty] at split
    intro item inside
    rw [split] at inside
    exact (List.mem_append.mp inside).elim (dropped item) (cut item)
  · intro all
    have block : trimmed p (items ++ ([] ++ [])) = [] :=
      trimmed_block all (by simp) (by simp) (by simp)
    rwa [List.append_nil, List.append_nil] at block

end Pieces

end Mneme.Library
