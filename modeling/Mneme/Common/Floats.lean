/-
Vectors of f32 as bytes, four for each component, the lowest first.
-/

import Mneme.Library.LittleEndian

namespace Mneme.Common

open Library

/-- The bits of an f32. -/
abbrev F32 := UInt32

/-- The number that the bits of a finite f32 stand for. -/
def f32Value (bits : F32) : Rat :=
  let sign : Int := if bits.toNat < 2 ^ 31 then 1 else -1
  let exponent : Nat := bits.toNat / 2 ^ 23 % 2 ^ 8
  let fraction : Nat := bits.toNat % 2 ^ 23
  let units : Nat := if exponent = 0 then fraction else (2 ^ 23 + fraction) * 2 ^ (exponent - 1)
  mkRat (sign * units) (2 ^ 149)

def f32Bytes (vector : List F32) : List UInt8 :=
  vector.flatMap (fun component => leBytes 4 component.toNat)

/-- The components of whole chunks of four bytes. -/
def f32Chunks : List UInt8 → List F32
  | first :: second :: third :: fourth :: rest =>
      UInt32.ofNat (leValue [first, second, third, fourth]) :: f32Chunks rest
  | _ => []

theorem f32Bytes_cons (component : F32) (rest : List F32) :
    f32Bytes (component :: rest) = leBytes 4 component.toNat ++ f32Bytes rest := rfl

theorem f32Bytes_length (vector : List F32) : (f32Bytes vector).length = vector.length * 4 := by
  induction vector with
  | nil => rfl
  | cons component rest ih =>
      rw [f32Bytes_cons, List.length_append, leBytes_length, ih, List.length_cons]
      omega

theorem f32Chunks_f32Bytes (vector : List F32) : f32Chunks (f32Bytes vector) = vector := by
  induction vector with
  | nil => rfl
  | cons component rest ih =>
      have value := leValue_leBytes 4 component.toNat
      have power : 256 ^ 4 = 2 ^ 32 := by decide
      rw [power, Nat.mod_eq_of_lt component.toNat_lt] at value
      rw [f32Bytes_cons]
      simp only [leBytes, List.cons_append, List.nil_append] at value ⊢
      rw [f32Chunks, value, ih, UInt32.ofNat_toNat]

theorem f32Chunks_length (count : Nat) {bytes : List UInt8} (whole : bytes.length = count * 4) :
    (f32Chunks bytes).length = count := by
  induction count generalizing bytes with
  | zero =>
      rw [Nat.zero_mul, List.length_eq_zero_iff] at whole
      rw [whole]
      rfl
  | succ count ih =>
      rcases bytes with _ | ⟨first, _ | ⟨second, _ | ⟨third, _ | ⟨fourth, rest⟩⟩⟩⟩
      · exact absurd whole (by rw [List.length_nil]; omega)
      · exact absurd whole (by simp only [List.length_cons, List.length_nil]; omega)
      · exact absurd whole (by simp only [List.length_cons, List.length_nil]; omega)
      · exact absurd whole (by simp only [List.length_cons, List.length_nil]; omega)
      · have shorter : rest.length = count * 4 := by
          simp only [List.length_cons] at whole
          omega
        rw [f32Chunks, List.length_cons, ih shorter]

end Mneme.Common
