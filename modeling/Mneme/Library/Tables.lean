/-
Trees of values with tables and arrays.

A table is read by its keys: two tables with the same value at each key are alike,
in whatever order their members stand.  An array is read in its order.
-/

import Mathlib.Data.List.Forall2

namespace Mneme.Library

/-- How the values of a type hold tables and arrays. -/
structure Shape (Value : Type) where
  table : List (String × Value) → Value
  table? : Value → Option (List (String × Value))
  array : List Value → Value
  array? : Value → Option (List Value)
  table?_eq : ∀ value members, table? value = some members ↔ value = table members
  array?_eq : ∀ value items, array? value = some items ↔ value = array items
  apart : ∀ members items, table members ≠ array items

namespace Shape

variable {Value : Type} (shape : Shape Value)

theorem table?_table (members : List (String × Value)) :
    shape.table? (shape.table members) = some members :=
  (shape.table?_eq _ _).mpr rfl

theorem array?_array (items : List Value) : shape.array? (shape.array items) = some items :=
  (shape.array?_eq _ _).mpr rfl

theorem table_inj {left right : List (String × Value)} (same : shape.table left = shape.table right) :
    left = right := by
  have read := congrArg shape.table? same
  rw [table?_table, table?_table] at read
  exact Option.some.inj read

theorem array_inj {left right : List Value} (same : shape.array left = shape.array right) :
    left = right := by
  have read := congrArg shape.array? same
  rw [array?_array, array?_array] at read
  exact Option.some.inj read

end Shape

/-- Two members that are both absent, or both present and related. -/
def Matches {Value : Type} (related : Value → Value → Prop) (one other : Option Value) : Prop :=
  (one = none ↔ other = none) ∧
    ∀ left right, one = some left → other = some right → related left right

inductive Alike {Value : Type} (shape : Shape Value) : Value → Value → Prop
  | same (value : Value) : Alike shape value value
  | table {left right : List (String × Value)}
      (keys : ∀ key, left.lookup key = none ↔ right.lookup key = none)
      (members : ∀ key one other, left.lookup key = some one → right.lookup key = some other →
        Alike shape one other) :
      Alike shape (shape.table left) (shape.table right)
  | array {left right : List Value} (lengths : left.length = right.length)
      (items : ∀ (index : Nat) one other, left[index]? = some one → right[index]? = some other →
        Alike shape one other) :
      Alike shape (shape.array left) (shape.array right)

section

variable {Value : Type} {shape : Shape Value}

variable {related : Value → Value → Prop}

theorem Matches.refl (same : ∀ value, related value value) (member : Option Value) :
    Matches related member member := by
  refine ⟨Iff.rfl, ?_⟩
  intro left right isLeft isRight
  rw [isLeft] at isRight
  cases isRight
  exact same left

theorem Matches.trans
    (chain : ∀ one two three, related one two → related two three → related one three)
    {first second third : Option Value} (left : Matches related first second)
    (right : Matches related second third) : Matches related first third := by
  refine ⟨left.1.trans right.1, ?_⟩
  intro one three isOne isThree
  cases middle : second with
  | none =>
      rw [left.1.mpr middle] at isOne
      cases isOne
  | some two =>
      exact chain one two three (left.2 one two isOne middle) (right.2 two three middle isThree)

variable {value : Value}

theorem Matches.some_left {one : Option Value}
    (matched : Matches related one (some value)) : ∃ left, one = some left ∧ related left value := by
  cases shown : one with
  | none =>
      have absent := matched.1.mp shown
      cases absent
  | some left => exact ⟨left, rfl, matched.2 left value shown rfl⟩

theorem Matches.none_left {one : Option Value} (matched : Matches related one none) : one = none :=
  matched.1.mpr rfl

/-- Whatever is alike to a table is a table with its members. -/
theorem Alike.of_table {right : List (String × Value)}
    (alike : Alike shape value (shape.table right)) :
    ∃ left, value = shape.table left ∧
      ∀ key, Matches (Alike shape) (left.lookup key) (right.lookup key) := by
  generalize whole : shape.table right = other at alike
  cases alike with
  | same => exact ⟨right, whole.symm, fun key => Matches.refl Alike.same _⟩
  | @table left members keys values =>
      have same := shape.table_inj whole
      rw [same]
      exact ⟨left, rfl, fun key => ⟨keys key, values key⟩⟩
  | array lengths items => exact absurd whole (shape.apart _ _)

theorem Alike.of_array {right : List Value} (alike : Alike shape value (shape.array right)) :
    ∃ left, value = shape.array left ∧ List.Forall₂ (Alike shape) left right := by
  generalize whole : shape.array right = other at alike
  cases alike with
  | same => exact ⟨right, whole.symm, List.forall₂_same.mpr fun item _ => Alike.same item⟩
  | table keys members => exact absurd whole.symm (shape.apart _ _)
  | @array left others lengths items =>
      have same := shape.array_inj whole
      rw [same]
      refine ⟨left, rfl, List.forall₂_iff_get.mpr ⟨lengths, ?_⟩⟩
      intro index inLeft inRight
      exact items index _ _ (List.getElem?_eq_getElem inLeft) (List.getElem?_eq_getElem inRight)

theorem Alike.of_members {left right : List (String × Value)}
    (members : ∀ key, Matches (Alike shape) (left.lookup key) (right.lookup key)) :
    Alike shape (shape.table left) (shape.table right) :=
  Alike.table (fun key => (members key).1) (fun key => (members key).2)

theorem Alike.of_items {left right : List Value} (items : List.Forall₂ (Alike shape) left right) :
    Alike shape (shape.array left) (shape.array right) := by
  refine Alike.array items.length_eq ?_
  intro index one other isOne isOther
  obtain ⟨inLeft, rfl⟩ := List.getElem?_eq_some_iff.mp isOne
  obtain ⟨inRight, rfl⟩ := List.getElem?_eq_some_iff.mp isOther
  exact items.get inLeft inRight

theorem Alike.trans {first second third : Value} (left : Alike shape first second)
    (right : Alike shape second third) : Alike shape first third := by
  induction right generalizing first with
  | same => exact left
  | table keys members ih =>
      obtain ⟨entries, rfl, shared⟩ := left.of_table
      refine Alike.of_members (fun key => ?_)
      refine ⟨(shared key).1.trans (keys key), ?_⟩
      intro one three isOne isThree
      have present : ∃ two, _ := Option.ne_none_iff_exists'.mp (fun absent => by
        rw [(keys key).mp absent] at isThree
        cases isThree)
      obtain ⟨two, isTwo⟩ := present
      exact ih key two three isTwo isThree ((shared key).2 one two isOne isTwo)
  | array lengths items ih =>
      obtain ⟨others, rfl, shared⟩ := left.of_array
      refine Alike.array (shared.length_eq.trans lengths) ?_
      intro index one three isOne isThree
      obtain ⟨inOthers, rfl⟩ := List.getElem?_eq_some_iff.mp isOne
      have inMiddle := shared.length_eq ▸ inOthers
      exact ih index _ three (List.getElem?_eq_getElem inMiddle) isThree
        (shared.get inOthers inMiddle)

end

end Mneme.Library
