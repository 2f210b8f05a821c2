/-
Days since 1970-01-01 as civil dates, and the stamp of a second.

A day is counted from the first of March of year 0: in its era of 400 years, then in
its year of the era, then in its month.  The date is that of the proleptic Gregorian
calendar.
-/

import Mathlib.Tactic.IntervalCases
import Mneme.Library.Calendar

namespace Mneme.Common

/-- Year, month and day. -/
def ymdFromEpochDays (days : Int) : Int × Nat × Nat :=
  let z := days + 719468
  let era := if z ≥ 0 then z.tdiv 146097 else (z - 146096).tdiv 146097
  let doe := (z - era * 146097).toNat
  let yoe := (doe - doe / 1460 + doe / 36524 - doe / 146096) / 365
  let y := (yoe : Int) + era * 400
  let doy := doe - (365 * yoe + yoe / 4 - yoe / 100)
  let mp := (5 * doy + 2) / 153
  let d := doy - (153 * mp + 2) / 5 + 1
  let m := if mp < 10 then mp + 3 else mp - 9
  (if m ≤ 2 then y + 1 else y, m, d)

/-- Filled with zeros on the left. -/
def zeroPadded (width : Nat) (number : Int) : String :=
  let digits := (toString number).toList
  String.ofList (List.replicate (width - digits.length) '0' ++ digits)

def chronoLikeUtcStamp (secs : Nat) : String :=
  let ymd := ymdFromEpochDays (secs / 86400 : Nat)
  let secsOfDay := secs % 86400
  zeroPadded 4 ymd.1 ++ zeroPadded 2 ymd.2.1 ++ zeroPadded 2 ymd.2.2 ++ "-" ++
    zeroPadded 2 (secsOfDay / 3600 : Nat) ++ zeroPadded 2 (secsOfDay % 3600 / 60 : Nat) ++
    zeroPadded 2 (secsOfDay % 60 : Nat)

example : chronoLikeUtcStamp 1777046400 = "20260424-160000" := by decide +kernel

/-! ### The date of a day -/

open Mneme.Library

/-- The days of an era before the first of March of one of its years. -/
def marchDays (year : Nat) : Nat :=
  365 * year + year / 4 - year / 100 + year / 400

def yearOfEra (doe : Nat) : Nat :=
  (doe - doe / 1460 + doe / 36524 - doe / 146096) / 365

theorem marchDays_lt (year : Nat) : marchDays year < marchDays (year + 1) := by
  unfold marchDays
  omega

/-- Every day of an era is in one of its years. -/
theorem exists_year {doe years : Nat} (inside : doe < marchDays years) :
    ∃ year < years, marchDays year ≤ doe ∧ doe < marchDays (year + 1) := by
  induction years with
  | zero => exact absurd inside (Nat.not_lt_zero _)
  | succ years ih =>
      by_cases earlier : doe < marchDays years
      · obtain ⟨year, before, bounds⟩ := ih earlier
        exact ⟨year, Nat.lt_succ_of_lt before, bounds⟩
      · exact ⟨years, Nat.lt_succ_self _, Nat.le_of_not_lt earlier, inside⟩

variable {doe : Nat}

theorem yearOfEra_step (inside : doe + 1 < 146097) : yearOfEra doe ≤ yearOfEra (doe + 1) := by
  unfold yearOfEra
  omega

variable {early late : Nat}

theorem yearOfEra_mono (later : early ≤ late) (inside : late < 146097) :
    yearOfEra early ≤ yearOfEra late := by
  induction later with
  | refl => exact Nat.le_refl _
  | step _ ih => exact Nat.le_trans (ih (Nat.lt_of_succ_lt inside)) (yearOfEra_step inside)

/-- The formula is right on the first and on the last day of each year. -/
theorem yearOfEra_bounds :
    ∀ year < 400, yearOfEra (marchDays year) = year ∧
      yearOfEra (marchDays (year + 1) - 1) = year := by
  decide +kernel

theorem marchDays_mono (later : early ≤ late) : marchDays early ≤ marchDays late := by
  induction later with
  | refl => exact Nat.le_refl _
  | step _ ih => exact Nat.le_trans ih (Nat.le_of_lt (marchDays_lt _))

theorem yearOfEra_spec (inside : doe < 146097) :
    yearOfEra doe < 400 ∧ marchDays (yearOfEra doe) ≤ doe ∧
      doe < marchDays (yearOfEra doe + 1) := by
  obtain ⟨year, before, starts, ends⟩ := @exists_year doe 400 inside
  obtain ⟨first, last⟩ := yearOfEra_bounds year before
  have whole : marchDays (year + 1) ≤ 146097 := marchDays_mono (Nat.succ_le_of_lt before)
  have least := yearOfEra_mono starts inside
  have greatest := @yearOfEra_mono doe (marchDays (year + 1) - 1) (by omega) (by omega)
  have same : yearOfEra doe = year := by omega
  rw [same]
  exact ⟨before, starts, ends⟩

theorem dayOfYear_lt (inside : doe < 146097) : doe - marchDays (yearOfEra doe) < 366 := by
  obtain ⟨_, _, ends⟩ := yearOfEra_spec inside
  have length : marchDays (yearOfEra doe + 1) ≤ marchDays (yearOfEra doe) + 366 := by
    unfold marchDays
    omega
  omega

/-! ### Months from March -/

/-- The months of a year that starts in March, up to December. -/
theorem months_from_march (year : Int) {mp : Nat} (early : mp < 10) :
    Date.daysBeforeMonth year (mp + 3) = daysInYear year - 306 + (153 * mp + 2) / 5 ∧
      daysInMonth year (mp + 3) = (153 * (mp + 1) + 2) / 5 - (153 * mp + 2) / 5 := by
  unfold Date.daysBeforeMonth daysInMonth daysInYear
  by_cases leap : LeapYear year <;> interval_cases mp <;> simp [leap, List.range_succ]

variable {year : Nat}

variable (era : Int)

/-- A year of an era that has a leap day has it at its end. -/
theorem leapYear_of_long (inside : year < 400)
    (long : marchDays year + 365 < marchDays (year + 1)) : LeapYear (year + era * 400 + 1) := by
  unfold marchDays at long
  unfold LeapYear
  omega

/-- The years up to a first of March. -/
theorem daysBeforeYear_march (inside : year < 400) :
    Date.daysBeforeYear (year + era * 400 + 1) = 146097 * era + marchDays year ∧
      Date.daysBeforeYear (year + era * 400) + daysInYear (year + era * 400) =
        146097 * era + marchDays year := by
  have first : Date.daysBeforeYear (year + era * 400 + 1) = 146097 * era + marchDays year := by
    unfold Date.daysBeforeYear marchDays
    omega
  exact ⟨first, by rw [← first, Date.daysBeforeYear_succ]⟩

/-- The date of a day of an era. -/
theorem date_of_era (inside : doe < 146097) :
    ∃ date : Date, date.dayNumber = 146097 * era + doe - 305 ∧
      date.month = (if (5 * (doe - marchDays (yearOfEra doe)) + 2) / 153 < 10 then
        (5 * (doe - marchDays (yearOfEra doe)) + 2) / 153 + 3
        else (5 * (doe - marchDays (yearOfEra doe)) + 2) / 153 - 9) ∧
      date.day = doe - marchDays (yearOfEra doe) -
        (153 * ((5 * (doe - marchDays (yearOfEra doe)) + 2) / 153) + 2) / 5 + 1 ∧
      date.year = (if date.month ≤ 2 then yearOfEra doe + era * 400 + 1
        else yearOfEra doe + era * 400) := by
  obtain ⟨bound, starts, ends⟩ := yearOfEra_spec inside
  have short := dayOfYear_lt inside
  generalize yearOfEra doe = year at bound starts ends short ⊢
  obtain ⟨doy, split⟩ : ∃ doy, doe = marchDays year + doy := Nat.exists_eq_add_of_le starts
  have shift : doe - marchDays year = doy := by omega
  rw [shift] at short
  have long : doy = 365 → LeapYear (year + era * 400 + 1) := by
    intro last
    exact leapYear_of_long era bound (by omega)
  obtain ⟨second, first⟩ := daysBeforeYear_march era bound
  rw [shift]
  generalize mp_def : (5 * doy + 2) / 153 = mp
  have mp_lt : mp < 12 := by omega
  by_cases early : mp < 10
  · obtain ⟨before, length⟩ := months_from_march (year + era * 400) early
    refine ⟨⟨year + era * 400, mp + 3, doy - (153 * mp + 2) / 5 + 1, by omega, by omega,
      by omega, by omega⟩, ?_, (if_pos early).symm, rfl, ?_⟩
    · have common : 365 ≤ daysInYear (year + era * 400) := by
        unfold daysInYear
        split <;> omega
      unfold Date.dayNumber
      dsimp only
      rw [before]
      omega
    · exact (if_neg (by dsimp only; omega)).symm
  · have month_le : mp - 9 ≤ 2 := by omega
    have day_le : doy - (153 * mp + 2) / 5 + 1 ≤
        daysInMonth (year + era * 400 + 1) (mp - 9) := by
      by_cases february : mp - 9 = 2
      · unfold daysInMonth
        rw [if_pos february]
        split
        · omega
        · next common =>
            have ordinary : doy ≠ 365 := fun last => common (long last)
            omega
      · have january : daysInMonth (year + era * 400 + 1) (mp - 9) = 31 := by
          have first : mp - 9 = 1 := by omega
          rw [first]
          rfl
        omega
    have before : Date.daysBeforeMonth (year + era * 400 + 1) (mp - 9) = 31 * (mp - 10) := by
      have either : mp = 10 ∨ mp = 11 := by omega
      rcases either with rfl | rfl <;> rfl
    refine ⟨⟨year + era * 400 + 1, mp - 9, doy - (153 * mp + 2) / 5 + 1, by omega, by omega,
      by omega, day_le⟩, ?_, (if_neg early).symm, rfl, (if_pos month_le).symm⟩
    unfold Date.dayNumber
    dsimp only
    rw [second, before]
    omega

/-- The era of a day and the day of the era. -/
theorem era_split {days : Int} (nonneg : 0 ≤ days) :
    ∃ (era : Int) (doe : Nat), 0 ≤ era ∧ doe < 146097 ∧
      (days + 719468).tdiv 146097 = era ∧ days + 719468 - era * 146097 = doe := by
  have quotient : (days + 719468).tdiv 146097 = (days + 719468) / 146097 :=
    Int.tdiv_eq_ediv_of_nonneg (by omega)
  obtain ⟨doe, rest⟩ : ∃ doe : Nat,
      days + 719468 - (days + 719468) / 146097 * 146097 = doe :=
    Int.eq_ofNat_of_zero_le (by omega)
  exact ⟨(days + 719468) / 146097, doe, by omega, by omega, quotient, rest⟩

/-- The function by the era and the day of the era. -/
theorem ymdFromEpochDays_parts {days era : Int} (nonneg : 0 ≤ days)
    (quotient : (days + 719468).tdiv 146097 = era) (rest : days + 719468 - era * 146097 = doe) :
    ymdFromEpochDays days =
      let doy := doe - (365 * yearOfEra doe + yearOfEra doe / 4 - yearOfEra doe / 100)
      let mp := (5 * doy + 2) / 153
      let month := if mp < 10 then mp + 3 else mp - 9
      (if month ≤ 2 then yearOfEra doe + era * 400 + 1 else yearOfEra doe + era * 400, month,
        doy - (153 * mp + 2) / 5 + 1) := by
  unfold ymdFromEpochDays yearOfEra
  dsimp only
  rw [if_pos (show days + 719468 ≥ 0 by omega), quotient, rest, Int.toNat_natCast]

theorem marchDays_of_lt (inside : year < 400) :
    365 * year + year / 4 - year / 100 = marchDays year := by
  unfold marchDays
  omega

/-- A day that is not before 1970-01-01 has the date of its number. -/
theorem ymdFromEpochDays_date {days : Int} (nonneg : 0 ≤ days) :
    ∃ date : Date, ymdFromEpochDays days = (date.year, date.month, date.day) ∧
      date.dayNumber = days + 719163 := by
  obtain ⟨era, doe, _, inside, quotient, rest⟩ := era_split nonneg
  obtain ⟨date, number, month, day, year⟩ := date_of_era era inside
  obtain ⟨bound, _, _⟩ := yearOfEra_spec inside
  refine ⟨date, ?_, by omega⟩
  rw [ymdFromEpochDays_parts nonneg quotient rest, marchDays_of_lt bound, year, month, day]

/-! ### Days after 1970-01-01 -/

theorem first_pos : 1 ≤ 1 :=
  Nat.le_refl 1

theorem january_le : 1 ≤ 12 := by decide

theorem first_le_january : 1 ≤ daysInMonth 1970 1 :=
  Nat.le_trans (by decide) (daysInMonth_pos 1970 1)

def epoch : Date where
  year := 1970
  month := 1
  day := 1
  month_pos := first_pos
  month_le := january_le
  day_pos := first_pos
  day_le := first_le_january

/-- The date a number of days after 1970-01-01. -/
def civilDate (days : Nat) : Date :=
  Date.next^[days] epoch

/-- The days from 1970-01-01 to a date. -/
def daysFromCivil (date : Date) : Int :=
  date.dayNumber - epoch.dayNumber

variable (days : Nat)

theorem dayNumber_civilDate : (civilDate days).dayNumber = epoch.dayNumber + days :=
  Date.dayNumber_iterate epoch days

theorem daysFromCivil_civilDate : daysFromCivil (civilDate days) = days := by
  unfold daysFromCivil
  rw [dayNumber_civilDate]
  omega

theorem ymdFromEpochDays_civilDate :
    ymdFromEpochDays days =
      ((civilDate days).year, (civilDate days).month, (civilDate days).day) := by
  obtain ⟨date, same, number⟩ := @ymdFromEpochDays_date days (Int.natCast_nonneg days)
  have first : epoch.dayNumber = 719163 := by decide
  have there : date = civilDate days := by
    apply Date.dayNumber_inj
    rw [number, dayNumber_civilDate, first]
    omega
  rw [same, there]

theorem civilDate_before : (civilDate early).Before (civilDate late) ↔ early < late := by
  rw [Date.before_iff, dayNumber_civilDate, dayNumber_civilDate]
  omega

/-- Every date from 1970-01-01 on is the date of its days. -/
theorem civilDate_daysFromCivil {date : Date} {days : Nat} (same : daysFromCivil date = days) :
    civilDate days = date := by
  apply Date.dayNumber_inj
  rw [dayNumber_civilDate]
  unfold daysFromCivil at same
  omega

end Mneme.Common
