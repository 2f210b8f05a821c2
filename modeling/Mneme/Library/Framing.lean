/-
Streams of frames.

A framing takes the first complete frame off a buffer.  Since a frame can be
told apart from what follows it, a stream has one way of being cut into frames,
and cutting it in pieces, keeping the incomplete rest, finds the same frames.
-/

import Mathlib.Data.List.Basic

namespace Mneme.Library

structure Framing (Byte Frame : Type) where
  encode : Frame → List Byte
  next : List Byte → Option (Frame × List Byte)
  nonempty : ∀ frame, encode frame ≠ []
  accepts : ∀ frame rest, next (encode frame ++ rest) = some (frame, rest)
  splits : ∀ buffer frame rest, next buffer = some (frame, rest) → buffer = encode frame ++ rest

namespace Framing

variable {Byte Frame : Type} (framing : Framing Byte Frame)

/-- The bytes are these frames, one after the other, and no complete frame more. -/
def Cuts (bytes : List Byte) (frames : List Frame) (rest : List Byte) : Prop :=
  bytes = frames.flatMap framing.encode ++ rest ∧ framing.next rest = none

def drainWith : Nat → List Byte → List Frame × List Byte
  | 0, buffer => ([], buffer)
  | fuel + 1, buffer =>
      match framing.next buffer with
      | none => ([], buffer)
      | some (frame, rest) =>
          (frame :: (drainWith fuel rest).1, (drainWith fuel rest).2)

/-- Take frames off the buffer as long as there is a complete one; each is at
least one byte long. -/
def drain (buffer : List Byte) : List Frame × List Byte :=
  framing.drainWith buffer.length buffer

variable {framing}

variable {rest buffer bytes : List Byte}

theorem next_shrinks {frame : Frame}
    (taken : framing.next buffer = some (frame, rest)) : rest.length < buffer.length := by
  have whole := congrArg List.length (framing.splits buffer frame rest taken)
  have filled := List.length_pos_of_ne_nil (framing.nonempty frame)
  rw [List.length_append] at whole
  omega

theorem drainWith_cuts {fuel : Nat} (enough : buffer.length ≤ fuel) :
    framing.Cuts buffer (framing.drainWith fuel buffer).1 (framing.drainWith fuel buffer).2 := by
  induction fuel generalizing buffer with
  | zero =>
      have empty : buffer = [] := List.length_eq_zero_iff.mp (Nat.le_zero.mp enough)
      subst empty
      refine ⟨rfl, ?_⟩
      cases taken : framing.next [] with
      | none => exact taken
      | some result => exact absurd (next_shrinks taken) (Nat.not_lt_zero _)
  | succ fuel ih =>
      unfold drainWith
      cases taken : framing.next buffer with
      | none => exact ⟨rfl, taken⟩
      | some result =>
          obtain ⟨frame, rest⟩ := result
          have shorter : rest.length ≤ fuel := by
            have less := next_shrinks taken
            omega
          obtain ⟨cut, incomplete⟩ := ih shorter
          refine ⟨?_, incomplete⟩
          rw [framing.splits buffer frame rest taken, List.flatMap_cons, List.append_assoc, ← cut]

theorem drain_cuts (framing : Framing Byte Frame) (buffer : List Byte) :
    framing.Cuts buffer (framing.drain buffer).1 (framing.drain buffer).2 :=
  drainWith_cuts (Nat.le_refl _)

/-- There is one way to cut a stream. -/
theorem Cuts.unique {frames others : List Frame} {left : List Byte}
    (first : framing.Cuts bytes frames rest) (second : framing.Cuts bytes others left) :
    frames = others ∧ rest = left := by
  induction frames generalizing bytes others with
  | nil =>
      obtain ⟨same, incomplete⟩ := first
      change bytes = rest at same
      cases others with
      | nil => exact ⟨rfl, same.symm.trans second.1⟩
      | cons frame later =>
          have whole := second.1
          rw [List.flatMap_cons, List.append_assoc] at whole
          rw [← same, whole, framing.accepts] at incomplete
          cases incomplete
  | cons frame later ih =>
      have whole := first.1
      rw [List.flatMap_cons, List.append_assoc] at whole
      have taken := framing.accepts frame (later.flatMap framing.encode ++ rest)
      rw [← whole] at taken
      cases others with
      | nil =>
          have same : bytes = left := second.1
          rw [same, second.2] at taken
          cases taken
      | cons other further =>
          have again := second.1
          rw [List.flatMap_cons, List.append_assoc] at again
          rw [again, framing.accepts] at taken
          obtain ⟨sameFrame, tails⟩ := Prod.mk.inj (Option.some.inj taken)
          have tail : framing.Cuts (later.flatMap framing.encode ++ rest) later rest :=
            ⟨rfl, first.2⟩
          have other : framing.Cuts (later.flatMap framing.encode ++ rest) further left :=
            ⟨tails.symm, second.2⟩
          obtain ⟨same, rests⟩ := ih tail other
          rw [sameFrame, same]
          exact ⟨rfl, rests⟩

/-- Bytes that arrive later are cut together with the incomplete rest. -/
theorem Cuts.append {more : List Byte} {frames : List Frame}
    (cut : framing.Cuts bytes frames rest) :
    framing.Cuts (bytes ++ more) (frames ++ (framing.drain (rest ++ more)).1)
      (framing.drain (rest ++ more)).2 := by
  obtain ⟨whole, incomplete⟩ := drain_cuts framing (rest ++ more)
  refine ⟨?_, incomplete⟩
  rw [cut.1, List.append_assoc, List.flatMap_append, List.append_assoc, ← whole]

end Framing

end Mneme.Library
