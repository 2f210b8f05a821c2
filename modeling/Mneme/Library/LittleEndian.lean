/-
Numbers as bytes, the lowest byte first.

A number is read back from as many bytes as hold it, and reading byte by byte
with shifts gives the same as reading them in place.
-/

import Mathlib.Algebra.GroupWithZero.Nat
import Mathlib.Tactic.Common

namespace Mneme.Library

/-- The low bytes of a number. -/
def leBytes : Nat → Nat → List UInt8
  | 0, _ => []
  | width + 1, number => UInt8.ofNat (number % 256) :: leBytes width (number / 256)

def leValue : List UInt8 → Nat
  | [] => 0
  | byte :: bytes => byte.toNat + 256 * leValue bytes

@[simp] theorem leBytes_length (width number : Nat) : (leBytes width number).length = width := by
  induction width generalizing number with
  | zero => rfl
  | succ width ih => rw [leBytes, List.length_cons, ih]

theorem leValue_lt (bytes : List UInt8) : leValue bytes < 256 ^ bytes.length := by
  induction bytes with
  | nil => exact Nat.one_pos
  | cons byte bytes ih =>
      have small := byte.toNat_lt
      rw [leValue, List.length_cons, Nat.pow_succ]
      omega

theorem leValue_leBytes (width number : Nat) :
    leValue (leBytes width number) = number % 256 ^ width := by
  induction width generalizing number with
  | zero => rw [leBytes, leValue, Nat.pow_zero, Nat.mod_one]
  | succ width ih =>
      have byte : (UInt8.ofNat (number % 256)).toNat = number % 256 := by
        rw [UInt8.toNat_ofNat']
        omega
      rw [leBytes, leValue, ih, byte, Nat.pow_succ, Nat.mul_comm (256 ^ width), Nat.mod_mul]

theorem leBytes_add (low high number : Nat) :
    leBytes (low + high) number = leBytes low number ++ leBytes high (number / 256 ^ low) := by
  induction low generalizing number with
  | zero => rw [Nat.zero_add, leBytes, Nat.pow_zero, Nat.div_one, List.nil_append]
  | succ low ih =>
      rw [Nat.add_right_comm, leBytes, leBytes, ih, List.cons_append, Nat.pow_succ,
        Nat.mul_comm (256 ^ low), Nat.div_div_eq_div_mul]

/-- The value of two parts: the second counts above the first. -/
theorem leValue_append (first second : List UInt8) :
    leValue (first ++ second) = leValue first + 256 ^ first.length * leValue second := by
  induction first with
  | nil => rw [List.nil_append, leValue, List.length_nil, Nat.pow_zero, Nat.zero_add, Nat.one_mul]
  | cons byte bytes ih =>
      rw [List.cons_append, leValue, leValue, ih, List.length_cons, Nat.pow_succ, Nat.mul_add,
        ← Nat.add_assoc, Nat.mul_comm _ 256, Nat.mul_assoc]

/-- The number at an offset of a buffer. -/
def leAt (width offset : Nat) (buffer : List UInt8) : Nat :=
  leValue ((buffer.drop offset).take width)

theorem leAt_lt (width offset : Nat) (buffer : List UInt8) :
    leAt width offset buffer < 256 ^ width := by
  have below := leValue_lt ((buffer.drop offset).take width)
  exact Nat.lt_of_lt_of_le below (Nat.pow_le_pow_right (by omega) (List.length_take_le _ _))

theorem leAt_append {width offset : Nat} {front : List UInt8} (size : front.length = offset)
    (number : Nat) (rest : List UInt8) :
    leAt width offset (front ++ (leBytes width number ++ rest)) = number % 256 ^ width := by
  unfold leAt
  rw [List.drop_left' size, List.take_left' (leBytes_length width number), leValue_leBytes]

theorem leBytes_flatMap_length (width : Nat) (numbers : List Nat) :
    (numbers.flatMap (leBytes width)).length = numbers.length * width := by
  induction numbers with
  | nil => exact (Nat.zero_mul width).symm
  | cons number numbers ih =>
      rw [List.flatMap_cons, List.length_append, leBytes_length, ih, List.length_cons,
        Nat.add_one_mul, Nat.add_comm]

/-- One of the numbers of a row, after a front. -/
theorem leAt_flatMap {width index offset : Nat} {front : List UInt8} {numbers : List Nat}
    (within : index < numbers.length) (place : front.length + index * width = offset) :
    leAt width offset (front ++ numbers.flatMap (leBytes width)) =
      numbers[index] % 256 ^ width := by
  have split : numbers = numbers.take index ++ numbers[index] :: numbers.drop (index + 1) := by
    rw [← List.drop_eq_getElem_cons within, List.take_append_drop]
  have before : (front ++ (numbers.take index).flatMap (leBytes width)).length = offset := by
    rw [List.length_append, leBytes_flatMap_length, List.length_take, Nat.min_eq_left (Nat.le_of_lt within),
      place]
  have whole : front ++ numbers.flatMap (leBytes width) =
      front ++ (numbers.take index).flatMap (leBytes width) ++
        (leBytes width numbers[index] ++ (numbers.drop (index + 1)).flatMap (leBytes width)) := by
    conv => lhs; rw [split]
    rw [List.flatMap_append, List.flatMap_cons, List.append_assoc]
  rw [whole]
  exact leAt_append before _ _

/-- Putting each byte in its place with a shift. -/
theorem shifted_bytes (bytes : List UInt8) (count : Nat) :
    (List.range count).foldl
        (fun number index => number ||| (bytes[index]?.getD 0).toNat <<< (8 * index)) 0 =
      leValue (bytes.take count) := by
  induction count with
  | zero => rfl
  | succ count ih =>
      rw [List.range_succ, List.foldl_append, ih, List.foldl_cons, List.foldl_nil]
      cases within : bytes[count]? with
      | none =>
          have short := List.getElem?_eq_none_iff.mp within
          rw [List.take_of_length_le short, List.take_of_length_le (by omega)]
          simp
      | some byte =>
          have inside := (List.getElem?_eq_some_iff.mp within).1
          have below := leValue_lt (bytes.take count)
          have width : (bytes.take count).length = count := by
            rw [List.length_take]
            omega
          rw [width] at below
          have power : 256 ^ count = 2 ^ (8 * count) := by rw [Nat.pow_mul]
          rw [List.take_add_one, within, leValue_append, width, Nat.or_comm, power,
            Nat.shiftLeft_eq, Nat.mul_comm _ (2 ^ (8 * count))]
          rw [power] at below
          rw [Option.getD_some, ← Nat.two_pow_add_eq_or_of_lt below, Nat.add_comm]
          rfl

end Mneme.Library
