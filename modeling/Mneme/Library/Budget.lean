/-
Admissions under a sliding-window budget.

An item is recorded at one instant and weighed at a later one, against the
instants recorded so far that the window still reaches.  Instants too old when
an item is recorded may be forgotten.
-/

import Mathlib.Data.List.Induction

namespace Mneme.Library

structure Admission where
  recorded : Nat
  weighed : Nat

/-- How many of the instants are within the window at `now`. -/
def recent (window now : Nat) (instants : List Nat) : Nat :=
  instants.countP (fun instant => now - instant ≤ window)

/-- Forget from the front what the window no longer reaches. -/
def prune (window now : Nat) (instants : List Nat) : List Nat :=
  instants.dropWhile (fun instant => window < now - instant)

/-- Each admission was within the limit when it was weighed. -/
def Budgeted (window limit : Nat) (admissions : List Admission) : Prop :=
  ∀ earlier last later, admissions = earlier ++ last :: later →
    recent window last.weighed ((earlier ++ [last]).map Admission.recorded) ≤ limit

/-- Both instants lie in the window that begins at `start`. -/
def Admission.inside (window start : Nat) (admission : Admission) : Bool :=
  start ≤ admission.recorded && admission.weighed ≤ start + window

theorem recent_append (window now : Nat) (instants more : List Nat) :
    recent window now (instants ++ more) = recent window now instants + recent window now more :=
  List.countP_append

theorem recent_anti {window now later : Nat} (instants : List Nat) (after : now ≤ later) :
    recent window later instants ≤ recent window now instants := by
  apply List.countP_mono_left
  intro instant _ reached
  have close := of_decide_eq_true reached
  apply decide_eq_true
  omega

/-- What is forgotten is out of reach from then on. -/
theorem recent_prune {window now later : Nat} (instants : List Nat) (after : now ≤ later) :
    recent window later (prune window now instants) = recent window later instants := by
  induction instants with
  | nil => rfl
  | cons instant rest ih =>
      unfold prune
      by_cases old : window < now - instant
      · rw [List.dropWhile_cons, if_pos (decide_eq_true old)]
        have unreached : ¬ decide (later - instant ≤ window) = true := by
          intro reached
          have close := of_decide_eq_true reached
          omega
        unfold recent
        rw [List.countP_cons, if_neg unreached]
        exact ih
      · rw [List.dropWhile_cons, if_neg (fun holds => old (of_decide_eq_true holds))]

theorem budgeted_nil (window limit : Nat) : Budgeted window limit [] := by
  intro earlier last later impossible
  exact absurd impossible.symm (List.append_ne_nil_of_right_ne_nil _ (List.cons_ne_nil _ _))

variable {admissions : List Admission} {window limit : Nat}

theorem Budgeted.append {last : Admission} (budgeted : Budgeted window limit admissions)
    (within : recent window last.weighed ((admissions ++ [last]).map Admission.recorded) ≤ limit) :
    Budgeted window limit (admissions ++ [last]) := by
  intro earlier middle later same
  rcases List.eq_nil_or_concat later with rfl | ⟨front, final, rfl⟩
  · obtain ⟨rfl, tail⟩ := List.append_inj' same rfl
    cases tail
    exact within
  · rw [List.concat_eq_append, ← List.cons_append, ← List.append_assoc] at same
    obtain ⟨before, _⟩ := List.append_inj' same rfl
    exact budgeted earlier middle front before

theorem Budgeted.initial {last : Admission}
    (budgeted : Budgeted window limit (admissions ++ [last])) :
    Budgeted window limit admissions := by
  intro earlier middle later same
  apply budgeted earlier middle (later ++ [last])
  rw [same, List.append_assoc, List.cons_append]

/-- No window of the given length holds more admissions than the limit: the
last one inside saw all the others when it was weighed. -/
theorem Budgeted.inside_le (budgeted : Budgeted window limit admissions) (start : Nat) :
    admissions.countP (Admission.inside window start) ≤ limit := by
  induction admissions using List.reverseRecOn with
  | nil => exact Nat.zero_le _
  | append_singleton earlier last ih =>
      by_cases within : last.inside window start = true
      · have seen := budgeted earlier last [] rfl
        refine Nat.le_trans ?_ seen
        unfold recent
        rw [List.countP_map]
        apply List.countP_mono_left
        intro admission _ inside
        unfold Admission.inside at within inside
        rw [Bool.and_eq_true, decide_eq_true_iff, decide_eq_true_iff] at within inside
        apply decide_eq_true
        omega
      · rw [List.countP_append, List.countP_singleton, if_neg within, Nat.add_zero]
        exact ih budgeted.initial

end Mneme.Library
