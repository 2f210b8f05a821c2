/-
Decimal numbers of a fixed width, and their order as texts.
-/

import Mathlib.Algebra.GroupWithZero.Nat
import Mathlib.Data.List.Basic

namespace Mneme.Library

/-- The last digits of a number, as many as the width. -/
def padded : Nat → Nat → List Char
  | 0, _ => []
  | width + 1, number => padded width (number / 10) ++ [(number % 10).digitChar]

theorem length_padded (width number : Nat) : (padded width number).length = width := by
  induction width generalizing number with
  | zero => rfl
  | succ width ih =>
      unfold padded
      rw [List.length_append, ih]
      rfl

theorem padded_zero (width : Nat) : padded width 0 = List.replicate width '0' := by
  induction width with
  | zero => rfl
  | succ width ih =>
      unfold padded
      rw [Nat.zero_div, ih, List.replicate_succ']
      rfl

variable {width number : Nat}

theorem digit_of_padded {char : Char} (inside : char ∈ padded width number) :
    char.isDigit = true := by
  induction width generalizing number with
  | zero => cases inside
  | succ width ih =>
      unfold padded at inside
      rcases List.mem_append.mp inside with early | last
      · exact ih early
      · rw [List.mem_singleton.mp last, Nat.isDigit_digitChar]
        exact decide_eq_true (Nat.mod_lt _ (by decide))

/-- A number that fits is written in full behind its zeros. -/
theorem zeros_toDigits (positive : 0 < width) (fits : number < 10 ^ width) :
    List.replicate (width - (Nat.toDigits 10 number).length) '0' ++ Nat.toDigits 10 number =
      padded width number := by
  induction width generalizing number with
  | zero => exact absurd positive (Nat.lt_irrefl 0)
  | succ width ih =>
      unfold padded
      rw [Nat.toDigits_eq_if (by decide)]
      by_cases small : number < 10
      · rw [if_pos small, Nat.div_eq_of_lt small, Nat.mod_eq_of_lt small, padded_zero]
        rfl
      · rw [if_neg small]
        have more : 0 < width := by
          rcases Nat.eq_zero_or_pos width with none_left | some_left
          · rw [none_left] at fits
            exact absurd fits small
          · exact some_left
        have lower : number / 10 < 10 ^ width := by
          rw [Nat.pow_succ] at fits
          exact Nat.div_lt_of_lt_mul (by omega)
        rw [← ih more lower, List.length_append, List.length_singleton, Nat.add_sub_add_right,
          List.append_assoc]

/-! ### Order -/

theorem append_lt_append_iff {α : Type} [LT α] {left right : List α}
    (lengths : left.length = right.length) (rest other : List α) :
    left ++ rest < right ++ other ↔ left < right ∨ (left = right ∧ rest < other) := by
  induction left generalizing right with
  | nil =>
      rw [List.length_eq_zero_iff.mp lengths.symm, List.nil_append, List.nil_append]
      constructor
      · intro less
        exact Or.inr ⟨rfl, less⟩
      · intro either
        exact (either.resolve_left (List.not_lt_nil _)).2
  | cons item left ih =>
      cases right with
      | nil => cases lengths
      | cons next right =>
          have shorter : left.length = right.length := Nat.succ.inj lengths
          rw [List.cons_append, List.cons_append, List.cons_lt_cons_iff, List.cons_lt_cons_iff,
            ih shorter, List.cons.injEq]
          constructor
          · intro either
            rcases either with less | ⟨same, less | ⟨equal, less⟩⟩
            · exact Or.inl (Or.inl less)
            · exact Or.inl (Or.inr ⟨same, less⟩)
            · exact Or.inr ⟨⟨same, equal⟩, less⟩
          · intro either
            rcases either with (less | ⟨same, less⟩) | ⟨⟨same, equal⟩, less⟩
            · exact Or.inl less
            · exact Or.inr ⟨same, Or.inl less⟩
            · exact Or.inr ⟨same, Or.inr ⟨equal, less⟩⟩

theorem digitChar_lt : ∀ digit < 10, ∀ other < 10,
    (Nat.digitChar digit < Nat.digitChar other ↔ digit < other) ∧
      (Nat.digitChar digit = Nat.digitChar other ↔ digit = other) := by
  decide

theorem padded_inj {left right : Nat} (fits : left < 10 ^ width)
    (fits_right : right < 10 ^ width) : padded width left = padded width right ↔ left = right := by
  induction width generalizing left right with
  | zero =>
      rw [Nat.pow_zero, Nat.lt_one_iff] at fits fits_right
      exact iff_of_true rfl (fits.trans fits_right.symm)
  | succ width ih =>
      unfold padded
      rw [Nat.pow_succ] at fits fits_right
      rw [List.append_singleton_inj, ih (by omega) (by omega),
        (digitChar_lt _ (Nat.mod_lt left (by decide)) _ (Nat.mod_lt right (by decide))).2]
      omega

/-- Numbers of one width are ordered as their texts are. -/
theorem padded_lt {left right : Nat} (fits : left < 10 ^ width)
    (fits_right : right < 10 ^ width) : padded width left < padded width right ↔ left < right := by
  induction width generalizing left right with
  | zero =>
      rw [Nat.pow_zero, Nat.lt_one_iff] at fits fits_right
      rw [fits, fits_right]
      exact iff_of_false (List.not_lt_nil _) (Nat.lt_irrefl 0)
  | succ width ih =>
      unfold padded
      rw [Nat.pow_succ] at fits fits_right
      have lower : left / 10 < 10 ^ width := by omega
      have lower_right : right / 10 < 10 ^ width := by omega
      have digits := digitChar_lt _ (Nat.mod_lt left (by decide)) _ (Nat.mod_lt right (by decide))
      rw [append_lt_append_iff (by rw [length_padded, length_padded]), ih lower lower_right,
        padded_inj lower lower_right, List.cons_lt_cons_iff, digits.1]
      simp only [List.not_lt_nil, and_false, or_false]
      omega

end Mneme.Library
