/-
Computations that may fail, taken apart.
-/

import Mathlib.Tactic.Common

namespace Mneme.Library

section Fallible

variable {Error Before After : Type}

variable {first : Except Error Before}

theorem bind_eq_ok {next : Before → Except Error After} {result : After} :
    first.bind next = .ok result ↔ ∃ value, first = .ok value ∧ next value = .ok result := by
  cases first with
  | error error =>
      constructor
      · intro impossible
        cases impossible
      · rintro ⟨value, impossible, _⟩
        cases impossible
  | ok value =>
      constructor
      · intro done
        exact ⟨value, rfl, done⟩
      · rintro ⟨same, equal, done⟩
        cases equal
        exact done

theorem map_eq_ok {change : Before → After} {result : After} :
    first.map change = .ok result ↔ ∃ value, first = .ok value ∧ change value = result := by
  cases first with
  | error error =>
      constructor
      · intro impossible
        cases impossible
      · intro found
        obtain ⟨value, impossible, _⟩ := found
        cases impossible
  | ok value =>
      constructor
      · intro done
        cases done
        exact ⟨value, rfl, rfl⟩
      · intro found
        obtain ⟨same, equal, done⟩ := found
        cases equal
        exact congrArg Except.ok done

end Fallible

end Mneme.Library
