/-
Lists used as memory: what a cell holds after one cell was written or a new one added.
-/

import Mathlib.Data.List.Basic

namespace Mneme.Library

variable {Item : Type} {cells : List Item} {place other : Nat} {new held : Item}

theorem set_cases (found : (cells.set place new)[other]? = some held) :
    (other = place ∧ held = new) ∨ (other ≠ place ∧ cells[other]? = some held) := by
  rw [List.getElem?_set] at found
  split at found
  · rename_i same
    split at found
    · cases found
      exact Or.inl ⟨same.symm, rfl⟩
    · cases found
  · rename_i apart
    exact Or.inr ⟨fun same => apart same.symm, found⟩

theorem set_here (present : ∃ old, cells[place]? = some old) :
    (cells.set place new)[place]? = some new := by
  obtain ⟨old, found⟩ := present
  obtain ⟨bound, _⟩ := List.getElem?_eq_some_iff.mp found
  rw [List.getElem?_set_self bound]

theorem set_other (apart : other ≠ place) : (cells.set place new)[other]? = cells[other]? :=
  List.getElem?_set_ne (fun same => apart same.symm)

theorem append_cases (found : (cells ++ [new])[other]? = some held) :
    (other = cells.length ∧ held = new) ∨ (other < cells.length ∧ cells[other]? = some held) := by
  rw [List.getElem?_append] at found
  split at found
  · rename_i bound
    exact Or.inr ⟨bound, found⟩
  · rename_i bound
    obtain ⟨index, same⟩ := List.getElem?_eq_some_iff.mp found
    rw [List.length_singleton] at index
    have last : other = cells.length := by omega
    rw [List.getElem_singleton] at same
    exact Or.inl ⟨last, same.symm⟩

theorem append_here (found : cells[other]? = some held) : (cells ++ [new])[other]? = some held := by
  obtain ⟨bound, _⟩ := List.getElem?_eq_some_iff.mp found
  rw [List.getElem?_append_left bound, found]

theorem append_last : (cells ++ [new])[cells.length]? = some new :=
  List.getElem?_concat_length

theorem cell_bound (found : cells[place]? = some held) : place < cells.length :=
  (List.getElem?_eq_some_iff.mp found).1

theorem modify_cases {change : Item → Item} (found : (cells.modify place change)[other]? = some held) :
    ∃ old, cells[other]? = some old ∧ held = if other = place then change old else old := by
  rw [List.getElem?_modify] at found
  obtain ⟨old, before, same⟩ := Option.map_eq_some_iff.mp found
  refine ⟨old, before, ?_⟩
  rw [← same]
  by_cases here : other = place
  · rw [if_pos here, if_pos here.symm]
  · rw [if_neg here, if_neg (fun same => here same.symm)]

end Mneme.Library
