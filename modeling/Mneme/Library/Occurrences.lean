/-
The first occurrence of a pattern in a list.
-/

import Mathlib.Data.List.Infix

namespace Mneme.Library

section Occurrences

variable {α : Type} [DecidableEq α]

/-- What stands before the first occurrence of a pattern and what stands after it. -/
def cutAt (pattern : List α) : List α → Option (List α × List α)
  | [] => if pattern = [] then some ([], []) else none
  | item :: rest =>
      if pattern.isPrefixOf (item :: rest) then
        some ([], (item :: rest).drop pattern.length)
      else (cutAt pattern rest).map (fun cut => (item :: cut.1, cut.2))

theorem cutAt_isSome (pattern before after : List α) :
    (cutAt pattern (before ++ (pattern ++ after))).isSome = true := by
  induction before with
  | nil =>
      rw [List.nil_append]
      cases shape : pattern ++ after with
      | nil =>
          unfold cutAt
          rw [if_pos (List.append_eq_nil_iff.mp shape).1]
          rfl
      | cons item rest =>
          unfold cutAt
          rw [if_pos (List.isPrefixOf_iff_prefix.mpr ⟨after, shape⟩)]
          rfl
  | cons item before ih =>
      rw [List.cons_append]
      unfold cutAt
      split
      · rfl
      · rw [Option.isSome_map]
        exact ih

variable {pattern text : List α}

/-- A text that contains a pattern, as a text without it cannot. -/
theorem not_contains (free : cutAt pattern text = none) (before after : List α) :
    text ≠ before ++ (pattern ++ after) := by
  intro same
  have found := cutAt_isSome pattern before after
  rw [← same, free] at found
  cases found

variable {text pattern front back tail : List α}

/-- The cut is at the first place where the pattern stands. -/
theorem cutAt_eq_some (cut : cutAt pattern text = some (front, back)) :
    text = front ++ (pattern ++ back) ∧
      ∀ before after, text = before ++ (pattern ++ after) → front.length ≤ before.length := by
  induction text generalizing front with
  | nil =>
      obtain ⟨empty, same⟩ := Option.ite_none_right_eq_some.mp cut
      cases same
      rw [empty]
      exact ⟨rfl, fun _ _ _ => Nat.zero_le _⟩
  | cons item rest ih =>
      unfold cutAt at cut
      by_cases here : pattern.isPrefixOf (item :: rest) = true
      · rw [if_pos here] at cut
        cases cut
        obtain ⟨after, split⟩ := List.isPrefixOf_iff_prefix.mp here
        refine ⟨?_, fun _ _ _ => Nat.zero_le _⟩
        rw [← split, List.drop_left, List.nil_append]
      · rw [if_neg here] at cut
        obtain ⟨⟨later, remaining⟩, found, same⟩ := Option.map_eq_some_iff.mp cut
        cases same
        obtain ⟨split, first⟩ := ih found
        refine ⟨by rw [split, List.cons_append], ?_⟩
        intro before after same
        cases before with
        | nil => exact absurd (List.isPrefixOf_iff_prefix.mpr ⟨after, same.symm⟩) here
        | cons head before =>
            rw [List.cons_append, List.cons.injEq] at same
            exact Nat.succ_le_succ (first before after same.2)

theorem cutAt_of_first
    (first : ∀ before after, front ++ (pattern ++ back) = before ++ (pattern ++ after) →
      front.length ≤ before.length) :
    cutAt pattern (front ++ (pattern ++ back)) = some (front, back) := by
  obtain ⟨⟨before, after⟩, cut⟩ := Option.isSome_iff_exists.mp (cutAt_isSome pattern front back)
  obtain ⟨split, earliest⟩ := cutAt_eq_some cut
  have lengths := Nat.le_antisymm (first before after split) (earliest front back rfl)
  obtain ⟨fronts, rests⟩ := List.append_inj split lengths
  rw [cut, fronts, List.append_cancel_left rests]

theorem cutAt_eq_none : cutAt pattern text = none ↔ ¬ pattern <:+: text := by
  constructor
  · intro free inside
    obtain ⟨before, after, split⟩ := inside
    rw [List.append_assoc] at split
    exact not_contains free before after split.symm
  · intro free
    cases cut : cutAt pattern text with
    | none => rfl
    | some found =>
        have split := (cutAt_eq_some cut).1
        rw [← List.append_assoc] at split
        exact absurd ⟨found.1, found.2, split.symm⟩ free

/-- Before the first occurrence there is none. -/
theorem cutAt_front_free (nonempty : pattern ≠ [])
    (cut : cutAt pattern text = some (front, back)) : cutAt pattern front = none := by
  obtain ⟨split, first⟩ := cutAt_eq_some cut
  rw [cutAt_eq_none]
  intro inside
  obtain ⟨before, after, shape⟩ := inside
  have some_length := List.length_pos_of_ne_nil nonempty
  have earlier := first before (after ++ (pattern ++ back)) (by
    rw [split, ← shape]
    simp only [List.append_assoc])
  have total := congrArg List.length shape
  rw [List.length_append, List.length_append] at total
  omega

variable {head : α}

/-- What comes before a pattern has not its head. -/
theorem cutAt_fresh (fresh : head ∉ front) (back : List α) :
    cutAt (head :: tail) (front ++ (head :: tail ++ back)) = some (front, back) := by
  apply cutAt_of_first
  intro before after same
  by_contra shorter
  obtain ⟨gap, split⟩ : ∃ gap, front = before ++ gap :=
    (List.prefix_of_prefix_length_le ⟨_, same.symm⟩ ⟨_, rfl⟩ (Nat.le_of_not_le shorter)).imp
      (fun _ shape => shape.symm)
  rw [split, List.append_assoc] at same
  have inside := List.append_cancel_left same
  cases gap with
  | nil =>
      rw [split, List.append_nil] at shorter
      exact shorter (Nat.le_refl _)
  | cons first gap =>
      injection inside with same _
      apply fresh
      rw [split, same]
      exact List.mem_append_right _ List.mem_cons_self

variable {mark : α}

omit [DecidableEq α] in
/-- A pattern without a mark stands before or behind the mark. -/
theorem infix_around_mark (free : mark ∉ pattern) :
    pattern <:+: front ++ mark :: back ↔ pattern <:+: front ∨ pattern <:+: back := by
  constructor
  · intro inside
    obtain ⟨before, after, split⟩ := inside
    rcases List.append_eq_append_iff.mp split with ⟨gap, inFront, _⟩ | ⟨gap, ends, rest⟩
    · exact Or.inl ⟨before, gap, inFront.symm⟩
    · cases gap with
      | nil =>
          rw [List.append_nil] at ends
          exact Or.inl ⟨before, [], by rw [ends, List.append_nil]⟩
      | cons item gap =>
          rw [List.cons_append, List.cons.injEq] at rest
          rcases List.append_eq_append_iff.mp ends with ⟨lead, _, shape⟩ | ⟨lead, _, shape⟩
          · rw [shape, rest.1] at free
            exact absurd (List.mem_append_right _ List.mem_cons_self) free
          · cases lead with
            | nil =>
                rw [← List.nil_append pattern, ← shape, rest.1] at free
                exact absurd List.mem_cons_self free
            | cons other lead =>
                rw [List.cons_append, List.cons.injEq] at shape
                exact Or.inr ⟨lead, after, by rw [← shape.2, rest.2]⟩
  · intro inside
    rcases inside with inFront | inBack
    · exact inFront.trans List.infix_append_left
    · exact (List.infix_cons inBack).trans List.infix_append_right

omit [DecidableEq α] in
theorem infix_cons_mark (free : mark ∉ pattern) (nonempty : pattern ≠ []) :
    pattern <:+: mark :: text ↔ pattern <:+: text := by
  rw [← List.nil_append (mark :: text), infix_around_mark free]
  exact or_iff_right (fun inside => nonempty (List.infix_nil.mp inside))

omit [DecidableEq α] in
theorem infix_concat_mark (free : mark ∉ pattern) (nonempty : pattern ≠ []) :
    pattern <:+: text ++ [mark] ↔ pattern <:+: text := by
  rw [infix_around_mark free]
  exact or_iff_left (fun inside => nonempty (List.infix_nil.mp inside))

variable {rest other : List α}

/-- A separator whose head occurs once in it ends a text without it in one place. -/
theorem separator_ends (once : head ∉ tail) (free : cutAt (head :: tail) back = none)
    (same : front ++ (head :: tail ++ rest) = back ++ (head :: tail ++ other)) :
    back.length ≤ front.length := by
  by_contra longer
  rw [Nat.not_le] at longer
  obtain ⟨gap, split⟩ : ∃ gap, back = front ++ gap :=
    (List.prefix_of_prefix_length_le ⟨_, same⟩ ⟨_, rfl⟩ (Nat.le_of_lt longer)).imp
      (fun _ shape => shape.symm)
  rw [split, List.append_assoc] at same
  have inside := List.append_cancel_left same
  have some_gap : 0 < gap.length := by
    have total := congrArg List.length split
    rw [List.length_append] at total
    omega
  -- The gap holds the separator or starts with its head.
  rcases Nat.lt_or_ge gap.length (head :: tail).length with short | long
  · obtain ⟨last, ends⟩ : ∃ last, head :: tail = gap ++ last :=
      (List.prefix_of_prefix_length_le ⟨_, inside.symm⟩ ⟨_, rfl⟩ (Nat.le_of_lt short)).imp
        (fun _ shape => shape.symm)
    cases gap with
    | nil => exact absurd some_gap (Nat.lt_irrefl 0)
    | cons first gap =>
        rw [List.cons_append, List.cons.injEq] at ends
        cases last with
        | nil =>
            rw [List.append_nil] at ends
            rw [List.length_cons, List.length_cons, ends.2] at short
            exact absurd short (Nat.lt_irrefl _)
        | cons next last =>
            rw [List.cons_append, List.cons_append, ends.2, ← List.append_assoc,
              List.cons.injEq, List.append_assoc, List.append_assoc] at inside
            have heads := List.append_cancel_left inside.2
            rw [List.cons_append, List.cons_append, List.cons.injEq] at heads
            apply once
            rw [ends.2, ← heads.1]
            exact List.mem_append_right _ List.mem_cons_self
  · obtain ⟨last, starts⟩ : ∃ last, gap = head :: tail ++ last :=
      (List.prefix_of_prefix_length_le ⟨_, rfl⟩ ⟨_, inside.symm⟩ long).imp
        (fun _ shape => shape.symm)
    rw [starts] at split
    exact not_contains free front last split

theorem cutAt_separator (once : head ∉ tail)
    (free : cutAt (head :: tail) front = none) (back : List α) :
    cutAt (head :: tail) (front ++ (head :: tail ++ back)) = some (front, back) :=
  cutAt_of_first (fun _ _ same => separator_ends once free same.symm)

/-- Two texts without the separator are the same when it ends them in one text. -/
theorem separator_unique (once : head ∉ tail) (front_free : cutAt (head :: tail) front = none)
    (back_free : cutAt (head :: tail) back = none)
    (same : front ++ (head :: tail ++ rest) = back ++ (head :: tail ++ other)) : front = back := by
  have shorter := separator_ends once back_free same
  have longer := separator_ends once front_free same.symm
  have starts : front <+: back ++ (head :: tail ++ other) := ⟨_, same⟩
  have both := List.prefix_of_prefix_length_le starts ⟨_, rfl⟩ longer
  exact both.eq_of_length (Nat.le_antisymm longer shorter)

end Occurrences

end Mneme.Library
