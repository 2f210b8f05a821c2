/-
The proleptic Gregorian calendar: its dates, the day after a date, and the number of
a date.
-/

import Mathlib.Algebra.BigOperators.Group.List.Basic
import Mathlib.Algebra.GroupWithZero.Nat

namespace Mneme.Library

def LeapYear (year : Int) : Prop :=
  year % 4 = 0 ∧ (year % 100 ≠ 0 ∨ year % 400 = 0)

instance (year : Int) : Decidable (LeapYear year) :=
  inferInstanceAs (Decidable (_ ∧ _))

def daysInYear (year : Int) : Nat :=
  if LeapYear year then 366 else 365

def daysInMonth (year : Int) (month : Nat) : Nat :=
  if month = 2 then if LeapYear year then 29 else 28
  else if month = 4 ∨ month = 6 ∨ month = 9 ∨ month = 11 then 30 else 31

theorem daysInMonth_pos (year : Int) (month : Nat) : 28 ≤ daysInMonth year month := by
  unfold daysInMonth
  split
  · split <;> omega
  · split <;> omega

@[ext]
structure Date where
  year : Int
  month : Nat
  day : Nat
  month_pos : 1 ≤ month
  month_le : month ≤ 12
  day_pos : 1 ≤ day
  day_le : day ≤ daysInMonth year month

namespace Date

def next (date : Date) : Date :=
  if inMonth : date.day < daysInMonth date.year date.month then
    { date with
      day := date.day + 1
      day_pos := Nat.succ_pos _
      day_le := inMonth }
  else if inYear : date.month < 12 then
    { year := date.year
      month := date.month + 1
      day := 1
      month_pos := Nat.succ_pos _
      month_le := inYear
      day_pos := Nat.le_refl 1
      day_le := Nat.le_trans (by decide) (daysInMonth_pos _ _) }
  else
    { year := date.year + 1
      month := 1
      day := 1
      month_pos := Nat.le_refl 1
      month_le := by decide
      day_pos := Nat.le_refl 1
      day_le := Nat.le_trans (by decide) (daysInMonth_pos _ _) }

/-- The days from the first of January of year 1 to that of a year. -/
def daysBeforeYear (year : Int) : Int :=
  365 * (year - 1) + (year - 1) / 4 - (year - 1) / 100 + (year - 1) / 400

def daysBeforeMonth (year : Int) (month : Nat) : Nat :=
  ((List.range (month - 1)).map (fun index => daysInMonth year (index + 1))).sum

/-- The days up to a date and with it, counted from the first of January of year 1. -/
def dayNumber (date : Date) : Int :=
  daysBeforeYear date.year + daysBeforeMonth date.year date.month + date.day

/-- The order of dates: by year, then by month, then by day. -/
def Before (left right : Date) : Prop :=
  left.year < right.year ∨ (left.year = right.year ∧
    (left.month < right.month ∨ (left.month = right.month ∧ left.day < right.day)))

variable (year : Int)

theorem daysBeforeMonth_succ {month : Nat} (positive : 1 ≤ month) :
    daysBeforeMonth year (month + 1) = daysBeforeMonth year month + daysInMonth year month := by
  obtain ⟨index, rfl⟩ := Nat.exists_eq_add_of_le' positive
  unfold daysBeforeMonth
  rw [Nat.add_sub_cancel, Nat.add_sub_cancel, List.range_succ, List.map_append, List.sum_append]
  rfl

theorem daysBeforeMonth_mono {early late : Nat} (positive : 1 ≤ early) (later : early < late) :
    daysBeforeMonth year early + daysInMonth year early ≤ daysBeforeMonth year late := by
  induction later with
  | refl => exact Nat.le_of_eq (daysBeforeMonth_succ year positive).symm
  | step later ih =>
      rw [daysBeforeMonth_succ year (Nat.le_trans positive (Nat.le_of_lt later))]
      omega

theorem daysBeforeMonth_one : daysBeforeMonth year 1 = 0 := rfl

/-- The months of a year together. -/
theorem daysBeforeMonth_thirteen : daysBeforeMonth year 13 = daysInYear year := by
  unfold daysBeforeMonth daysInMonth daysInYear
  by_cases leap : LeapYear year <;> simp [leap, List.range_succ]

theorem daysBeforeYear_succ :
    daysBeforeYear (year + 1) = daysBeforeYear year + daysInYear year := by
  unfold daysBeforeYear daysInYear
  split
  · next leap =>
      unfold LeapYear at leap
      omega
  · next common =>
      unfold LeapYear at common
      omega

theorem daysBeforeYear_mono {early late : Int} (later : early < late) :
    daysBeforeYear (early + 1) ≤ daysBeforeYear late := by
  unfold daysBeforeYear
  omega

/-- The day after is one day later. -/
theorem dayNumber_next (date : Date) : date.next.dayNumber = date.dayNumber + 1 := by
  have positive := date.month_pos
  have bound := date.month_le
  have upper := date.day_le
  unfold next
  split
  · unfold dayNumber
    dsimp only
    omega
  · next last =>
      split
      · unfold dayNumber
        dsimp only
        rw [daysBeforeMonth_succ _ positive]
        omega
      · have december : date.month = 12 := by omega
        have whole := daysBeforeMonth_succ date.year positive
        rw [december, daysBeforeMonth_thirteen] at whole
        rw [december] at upper last
        unfold dayNumber
        dsimp only
        rw [daysBeforeYear_succ, daysBeforeMonth_one, december]
        omega

variable {left right : Date}

theorem dayNumber_lt_of_before (before : left.Before right) : left.dayNumber < right.dayNumber := by
  have upper := left.day_le
  have lower := right.day_pos
  unfold dayNumber
  rcases before with earlier | ⟨sameYear, earlier | ⟨sameMonth, earlier⟩⟩
  · have years := daysBeforeYear_mono earlier
    have inside : daysBeforeMonth left.year left.month + daysInMonth left.year left.month ≤
        daysBeforeMonth left.year 13 :=
      daysBeforeMonth_mono left.year left.month_pos (Nat.lt_succ_of_le left.month_le)
    rw [daysBeforeYear_succ] at years
    rw [daysBeforeMonth_thirteen] at inside
    omega
  · have months := daysBeforeMonth_mono left.year left.month_pos earlier
    rw [← sameYear]
    omega
  · rw [← sameYear, ← sameMonth]
    omega

theorem before_trichotomy (left right : Date) :
    left.Before right ∨ left = right ∨ right.Before left := by
  unfold Before
  by_cases same : left = right
  · exact Or.inr (Or.inl same)
  · have parts : ¬ (left.year = right.year ∧ left.month = right.month ∧ left.day = right.day) :=
      fun both => same (Date.ext both.1 both.2.1 both.2.2)
    omega

theorem before_iff : left.Before right ↔ left.dayNumber < right.dayNumber := by
  constructor
  · exact dayNumber_lt_of_before
  · intro less
    rcases before_trichotomy left right with before | same | after
    · exact before
    · rw [same] at less
      exact absurd less (Int.lt_irrefl _)
    · exact absurd (dayNumber_lt_of_before after) (by omega)

theorem dayNumber_inj (same : left.dayNumber = right.dayNumber) : left = right := by
  rcases before_trichotomy left right with before | equal | after
  · exact absurd (dayNumber_lt_of_before before) (by omega)
  · exact equal
  · exact absurd (dayNumber_lt_of_before after) (by omega)

/-- Days after a date are counted by their numbers. -/
theorem dayNumber_iterate (date : Date) (days : Nat) :
    (next^[days] date).dayNumber = date.dayNumber + days := by
  induction days with
  | zero => exact (Int.add_zero _).symm
  | succ days ih =>
      rw [Function.iterate_succ_apply', dayNumber_next, ih]
      omega

end Date

end Mneme.Library
