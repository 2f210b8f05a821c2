/-
Patterns with two wildcards and an escape character.

`%` stands for any text and `_` for any one character.  The character after the
escape character stands for itself.  Letters are compared after folding.
-/

import Mathlib.Data.List.Infix

namespace Mneme.Library

inductive LikeToken where
  | any
  | one
  | literal (char : Char)
deriving DecidableEq

namespace Like

def token (char : Char) : LikeToken :=
  if char = '%' then .any else if char = '_' then .one else .literal char

/-- The tokens of a pattern; a pattern that ends in its escape character has none. -/
def tokens (escape : Char) : List Char → Option (List LikeToken)
  | [] => some []
  | [char] => if char = escape then none else some [token char]
  | char :: next :: rest =>
      if char = escape then (tokens escape rest).map (fun read => .literal next :: read)
      else (tokens escape (next :: rest)).map (fun read => token char :: read)

variable {char escape : Char}

theorem tokens_plain (plain : char ≠ escape) (rest : List Char) :
    tokens escape (char :: rest) = (tokens escape rest).map (fun read => token char :: read) := by
  cases rest with
  | nil => exact if_neg plain
  | cons next rest => exact if_neg plain

theorem tokens_escape (escape next : Char) (rest : List Char) :
    tokens escape (escape :: next :: rest) =
      (tokens escape rest).map (fun read => .literal next :: read) :=
  if_pos rfl

theorem token_literal (any : char ≠ '%') (one : char ≠ '_') : token char = .literal char := by
  rw [token, if_neg any, if_neg one]

variable (fold : Char → Char)

def takes : List LikeToken → List Char → Bool
  | [], text => text.isEmpty
  | .literal _ :: _, [] => false
  | .literal char :: pattern, first :: text => fold char == fold first && takes pattern text
  | .one :: _, [] => false
  | .one :: pattern, _ :: text => takes pattern text
  | .any :: pattern, text => text.tails.any (takes pattern)

/-- `text LIKE pattern ESCAPE escape` -/
def like (escape : Char) (pattern text : List Char) : Bool :=
  (tokens escape pattern).any (fun read => takes fold read text)

variable {fold}

theorem like_escape (escape next first : Char) (rest text : List Char) :
    like fold escape (escape :: next :: rest) (first :: text) =
      (fold next == fold first && like fold escape rest text) := by
  unfold like
  rw [tokens_escape]
  cases tokens escape rest with
  | none => exact (Bool.and_false _).symm
  | some read => rfl

theorem like_literal (plain : char ≠ escape) (any : char ≠ '%')
    (one : char ≠ '_') (first : Char) (rest text : List Char) :
    like fold escape (char :: rest) (first :: text) =
      (fold char == fold first && like fold escape rest text) := by
  unfold like
  rw [tokens_plain plain, token_literal any one]
  cases tokens escape rest with
  | none => exact (Bool.and_false _).symm
  | some read => rfl

theorem like_one (plain : '_' ≠ escape) (first : Char) (rest text : List Char) :
    like fold escape ('_' :: rest) (first :: text) = like fold escape rest text := by
  unfold like
  rw [tokens_plain plain]
  cases tokens escape rest with
  | none => rfl
  | some read => rfl

variable {text word : List Char}

theorem like_any (plain : '%' ≠ escape) {rest : List Char}
    (taken : like fold escape rest text = true) : like fold escape ('%' :: rest) text = true := by
  unfold like at taken ⊢
  rw [tokens_plain plain]
  cases read : tokens escape rest with
  | none =>
      rw [read] at taken
      cases taken
  | some pattern =>
      rw [read] at taken
      exact List.any_eq_true.mpr ⟨text, (List.mem_tails _ _).mpr (List.suffix_refl _), taken⟩

variable {pattern : List LikeToken}

theorem takes_any :
    takes fold (.any :: pattern) text = true ↔
      ∃ before after, text = before ++ after ∧ takes fold pattern after = true := by
  change text.tails.any (takes fold pattern) = true ↔ _
  rw [List.any_eq_true]
  constructor
  · intro found
    obtain ⟨after, tail, taken⟩ := found
    obtain ⟨before, split⟩ := (List.mem_tails _ _).mp tail
    exact ⟨before, after, split.symm, taken⟩
  · intro found
    obtain ⟨before, after, split, taken⟩ := found
    exact ⟨after, (List.mem_tails _ _).mpr ⟨before, split.symm⟩, taken⟩

/-- Literals take a text that folds to the same characters. -/
theorem takes_literals :
    takes fold (word.map .literal ++ pattern) text = true ↔
      ∃ front rest, text = front ++ rest ∧ front.map fold = word.map fold ∧
        takes fold pattern rest = true := by
  induction word generalizing text with
  | nil =>
      constructor
      · intro taken
        exact ⟨[], text, rfl, rfl, taken⟩
      · intro found
        obtain ⟨front, rest, split, same, taken⟩ := found
        rw [List.map_nil, List.map_eq_nil_iff] at same
        rw [split, same]
        exact taken
  | cons char word ih =>
      cases text with
      | nil =>
          constructor
          · intro impossible
            cases impossible
          · intro found
            obtain ⟨front, rest, split, same, _⟩ := found
            rw [(List.append_eq_nil_iff.mp split.symm).1] at same
            cases same
      | cons first text =>
          change (fold char == fold first && takes fold (word.map .literal ++ pattern) text) = true ↔ _
          rw [Bool.and_eq_true, beq_iff_eq, ih]
          constructor
          · intro found
            obtain ⟨equal, front, rest, split, same, taken⟩ := found
            refine ⟨first :: front, rest, by rw [split, List.cons_append], ?_, taken⟩
            rw [List.map_cons, List.map_cons, equal, same]
          · intro found
            obtain ⟨front, rest, split, same, taken⟩ := found
            cases front with
            | nil => cases same
            | cons head front =>
                rw [List.cons_append, List.cons.injEq] at split
                rw [List.map_cons, List.map_cons, List.cons.injEq] at same
                rw [split.1]
                exact ⟨same.1.symm, front, rest, split.2, same.2, taken⟩

/-- A word between two wildcards takes the texts that contain it. -/
theorem takes_inside :
    takes fold (.any :: (word.map .literal ++ [.any])) text = true ↔
      word.map fold <:+: text.map fold := by
  have everything : ∀ rest, takes fold [.any] rest = true := by
    intro rest
    exact takes_any.mpr ⟨rest, [], (List.append_nil _).symm, rfl⟩
  rw [takes_any]
  simp only [takes_literals]
  constructor
  · intro found
    obtain ⟨before, _, split, front, after, middle, same, _⟩ := found
    refine ⟨before.map fold, after.map fold, ?_⟩
    rw [split, middle, List.map_append, List.map_append, same, List.append_assoc]
  · intro inside
    obtain ⟨before, after, split⟩ := inside
    rw [List.append_assoc] at split
    obtain ⟨front, rest, text_split, same, folded⟩ := List.map_eq_append_iff.mp split.symm
    obtain ⟨middle, back, rest_split, word_same, _⟩ := List.map_eq_append_iff.mp folded
    exact ⟨front, rest, text_split, middle, back, rest_split, word_same, everything back⟩

end Like

end Mneme.Library
