/-
The dates and stamps of receipts and backups, in the machine's integers, and the order of
the names that bear them.

`receipts.rs` and `platforms/mod.rs` hold the same function once each.  A value that
leaves its type is none; a cast keeps the low bits.  Names are compared by their bytes,
which for these characters is by the characters.
-/

import Mneme.Cli.Receipts
import Mneme.Library.Decimals

namespace Mneme.Cli

open Mneme.Common Mneme.Library

section Machine

def i64 (value : Int) : Option Int :=
  if -9223372036854775808 ≤ value ∧ value < 9223372036854775808 then some value else none

def addU64 (left right : Nat) : Option Nat :=
  if left + right < 18446744073709551616 then some (left + right) else none

def subU64 (left right : Nat) : Option Nat :=
  if right ≤ left then some (left - right) else none

def mulU64 (left right : Nat) : Option Nat :=
  if left * right < 18446744073709551616 then some (left * right) else none

def asU64 (value : Int) : Nat :=
  (value % 18446744073709551616).toNat

/-- The signed number of the low bits. -/
def asSigned (bits : Int) (value : Int) : Int :=
  (value + bits / 2) % bits - bits / 2

def asI64 (value : Nat) : Int :=
  asSigned 18446744073709551616 value

def asI32 (value : Int) : Int :=
  asSigned 4294967296 value

def asU32 (value : Nat) : Nat :=
  value % 4294967296

variable {value : Int}

theorem i64_eq (low : -9223372036854775808 ≤ value)
    (high : value < 9223372036854775808) : i64 value = some value :=
  if_pos ⟨low, high⟩

variable {left right : Nat}

theorem addU64_eq (fits : left + right < 18446744073709551616) :
    addU64 left right = some (left + right) :=
  if_pos fits

theorem subU64_eq (fits : right ≤ left) : subU64 left right = some (left - right) :=
  if_pos fits

theorem mulU64_eq (fits : left * right < 18446744073709551616) :
    mulU64 left right = some (left * right) :=
  if_pos fits

theorem asU64_eq (low : 0 ≤ value) (high : value < 9223372036854775808) :
    asU64 value = value.toNat := by
  unfold asU64
  rw [Int.emod_eq_of_lt low (by omega)]

theorem asI64_eq {value : Nat} (fits : value < 9223372036854775808) : asI64 value = value := by
  unfold asI64 asSigned
  omega

theorem asI32_eq (low : -2147483648 ≤ value) (high : value < 2147483648) : asI32 value = value := by
  unfold asI32 asSigned
  omega

theorem asU32_eq {value : Nat} (fits : value < 4294967296) : asU32 value = value :=
  Nat.mod_eq_of_lt fits

end Machine

/-- The end of `ymd_from_epoch_days`: a day of a year that starts in March. -/
def dayInMachine (y : Int) (doy : Nat) : Option (Int × Nat × Nat) := do
  let scaled ← mulU64 5 doy
  let shifted ← addU64 scaled 2
  let mp := shifted / 153
  let months ← mulU64 153 mp
  let rounded ← addU64 months 2
  let before ← subU64 doy (rounded / 5)
  let day ← addU64 before 1
  let month ← (if mp < 10 then addU64 mp 3 else subU64 mp 9)
  let year ← (if asU32 month ≤ 2 then i64 (y + 1) else some y)
  return (asI32 year, asU32 month, asU32 day)

/-- `ymd_from_epoch_days`, none where an operation leaves its type. -/
def ymdInMachine (days : Int) : Option (Int × Nat × Nat) := do
  let z ← i64 (days + 719468)
  let era ← (if z ≥ 0 then some z else i64 (z - 146096)).map (fun part => part.tdiv 146097)
  let whole ← i64 (era * 146097)
  let rest ← i64 (z - whole)
  let doe := asU64 rest
  let fours ← subU64 doe (doe / 1460)
  let centuries ← addU64 fours (doe / 36524)
  let counted ← subU64 centuries (doe / 146096)
  let yoe := counted / 365
  let past ← i64 (era * 400)
  let y ← i64 (asI64 yoe + past)
  let common ← mulU64 365 yoe
  let leaps ← addU64 common (yoe / 4)
  let elapsed ← subU64 leaps (yoe / 100)
  let doy ← subU64 doe elapsed
  dayInMachine y doy

def Receipts.ymdFromEpochDays (days : Int) : Option (Int × Nat × Nat) :=
  ymdInMachine days

def Platforms.ymdFromEpochDays (days : Int) : Option (Int × Nat × Nat) :=
  ymdInMachine days

theorem bind_of {α β : Type} {first : Option α} {next : α → Option β} {value : α} {result : β}
    (head : first = some value) (tail : next value = some result) :
    (first >>= next) = some result := by
  rw [head]
  exact tail

theorem dayInMachine_eq {y : Int} {doy : Nat} (low : 0 ≤ y) (short : doy < 366)
    (representable : (if (if (5 * doy + 2) / 153 < 10 then (5 * doy + 2) / 153 + 3
      else (5 * doy + 2) / 153 - 9) ≤ 2 then y + 1 else y) ≤ 2147483647) :
    dayInMachine y doy =
      some (if (if (5 * doy + 2) / 153 < 10 then (5 * doy + 2) / 153 + 3
        else (5 * doy + 2) / 153 - 9) ≤ 2 then y + 1 else y,
        if (5 * doy + 2) / 153 < 10 then (5 * doy + 2) / 153 + 3 else (5 * doy + 2) / 153 - 9,
        doy - (153 * ((5 * doy + 2) / 153) + 2) / 5 + 1) := by
  unfold dayInMachine
  refine bind_of (mulU64_eq (by omega)) (bind_of (addU64_eq (by omega)) ?_)
  have fits : (153 * ((5 * doy + 2) / 153) + 2) / 5 ≤ doy := by omega
  have mp_lt : (5 * doy + 2) / 153 < 12 := by omega
  generalize (5 * doy + 2) / 153 = mp at representable fits mp_lt ⊢
  refine bind_of (mulU64_eq (by omega)) (bind_of (addU64_eq (by omega)) ?_)
  refine bind_of (subU64_eq fits) (bind_of (addU64_eq (by omega)) ?_)
  have month : (if mp < 10 then addU64 mp 3 else subU64 mp 9) =
      some (if mp < 10 then mp + 3 else mp - 9) := by
    split
    · exact addU64_eq (by omega)
    · exact subU64_eq (by omega)
  have month_lt : (if mp < 10 then mp + 3 else mp - 9) < 4294967296 := by
    split <;> omega
  refine bind_of month ?_
  generalize (if mp < 10 then mp + 3 else mp - 9) = m at representable month_lt ⊢
  have year : (if asU32 m ≤ 2 then i64 (y + 1) else some y) =
      some (if m ≤ 2 then y + 1 else y) := by
    rw [asU32_eq month_lt]
    split
    · next early =>
        rw [if_pos early] at representable
        exact i64_eq (by omega) (by omega)
    · rfl
  have positive : -2147483648 ≤ (if m ≤ 2 then y + 1 else y) := by
    split <;> omega
  refine bind_of year ?_
  rw [asU32_eq month_lt, asI32_eq positive (by omega), asU32_eq (by omega)]
  rfl

/-- No operation leaves its type where the year fits in an `i32`. -/
theorem ymdInMachine_eq {days : Int} (nonneg : 0 ≤ days)
    (representable : (Common.ymdFromEpochDays days).1 ≤ 2147483647) :
    ymdInMachine days = some (Common.ymdFromEpochDays days) := by
  obtain ⟨era, doe, positive, inside, quotient, rest⟩ := era_split nonneg
  have parts := ymdFromEpochDays_parts nonneg quotient rest
  obtain ⟨bound, starts, _⟩ := yearOfEra_spec inside
  have short := dayOfYear_lt inside
  have march := marchDays_of_lt bound
  have counted : (doe - doe / 1460 + doe / 36524 - doe / 146096) / 365 = yearOfEra doe := rfl
  rw [parts] at representable ⊢
  dsimp only at representable ⊢
  rw [march] at representable ⊢
  have small : yearOfEra doe + era * 400 ≤ 2147483647 := by
    refine Int.le_trans ?_ representable
    split <;> omega
  have cast : asU64 (days + 719468 - era * 146097) = doe := by
    rw [rest, asU64_eq (by omega) (by omega), Int.toNat_natCast]
  have eraOf : (if days + 719468 ≥ 0 then some (days + 719468)
      else i64 (days + 719468 - 146096)).map (fun part => part.tdiv 146097) = some era := by
    rw [if_pos (by omega), Option.map_some, quotient]
  have low : 0 ≤ yearOfEra doe + era * 400 := by omega
  have whole : era * 146097 ≤ days + 719468 := by omega
  have few : days + 719468 ≤ 784467000000 := by omega
  unfold ymdInMachine
  refine bind_of (i64_eq (by omega) (by omega)) (bind_of eraOf ?_)
  refine bind_of (i64_eq (by omega) (by omega)) (bind_of (i64_eq (by omega) (by omega)) ?_)
  dsimp only
  rw [cast]
  refine bind_of (subU64_eq (Nat.div_le_self _ _)) (bind_of (addU64_eq (by omega)) ?_)
  refine bind_of (subU64_eq (by omega)) ?_
  rw [counted, asI64_eq (by omega)]
  refine bind_of (i64_eq (by omega) (by omega)) (bind_of (i64_eq (by omega) (by omega)) ?_)
  refine bind_of (mulU64_eq (by omega)) (bind_of (addU64_eq (by omega)) ?_)
  refine bind_of (subU64_eq (by omega)) ?_
  rw [march]
  exact bind_of (subU64_eq starts) (dayInMachine_eq low short representable)

/-! ### The digits of a stamp -/

theorem zeroPadded_toList {width number : Nat} (positive : 0 < width) (fits : number < 10 ^ width) :
    (zeroPadded width (number : Int)).toList = padded width number := by
  have digits : (toString (number : Int)).toList = Nat.toDigits 10 number := Nat.toList_repr
  unfold zeroPadded
  dsimp only
  rw [digits, String.toList_ofList]
  exact zeros_toDigits positive fits

theorem civilDate_year (days : Nat) : 1970 ≤ (civilDate days).year := by
  have notBefore : ¬ (civilDate days).Before epoch := by
    rw [Date.before_iff, dayNumber_civilDate]
    omega
  have first : epoch.year = 1970 := rfl
  unfold Date.Before at notBefore
  omega

theorem day_le_31 (date : Date) : date.day ≤ 31 := by
  refine Nat.le_trans date.day_le ?_
  unfold daysInMonth
  split
  · split <;> decide
  · split <;> decide

/-- The time of a day: two digits for each of its parts. -/
def clockDigits (secsOfDay : Nat) : List Char :=
  padded 2 (secsOfDay / 3600) ++ (padded 2 (secsOfDay % 3600 / 60) ++ padded 2 (secsOfDay % 60))

def dateDigits (date : Date) : List Char :=
  padded 4 date.year.toNat ++ (padded 2 date.month ++ padded 2 date.day)

theorem clockDigits_lt {left right : Nat} (inDay : left < 86400) (inDay_right : right < 86400) :
    clockDigits left < clockDigits right ↔ left < right := by
  have ten : 10 ^ 2 = 100 := rfl
  unfold clockDigits
  rw [append_lt_append_iff (by rw [length_padded, length_padded]),
    append_lt_append_iff (by rw [length_padded, length_padded]),
    padded_lt (by omega) (by omega), padded_inj (by omega) (by omega),
    padded_lt (by omega) (by omega), padded_inj (by omega) (by omega),
    padded_lt (by omega) (by omega)]
  omega

theorem dateDigits_length (date : Date) : (dateDigits date).length = 8 := by
  unfold dateDigits
  rw [List.length_append, List.length_append, length_padded, length_padded, length_padded]

/-- The dates of four digits are ordered as their texts are. -/
theorem dateDigits_lt {left right : Date} (positive : 0 ≤ left.year)
    (positive_right : 0 ≤ right.year) (four : left.year ≤ 9999) (four_right : right.year ≤ 9999) :
    dateDigits left < dateDigits right ↔ left.Before right := by
  have ten : 10 ^ 2 = 100 := rfl
  have thousand : 10 ^ 4 = 10000 := rfl
  have months := left.month_le
  have months_right := right.month_le
  have days := day_le_31 left
  have days_right := day_le_31 right
  unfold dateDigits Date.Before
  rw [append_lt_append_iff (by rw [length_padded, length_padded]),
    append_lt_append_iff (by rw [length_padded, length_padded]),
    padded_lt (by omega) (by omega), padded_inj (by omega) (by omega),
    padded_lt (by omega) (by omega), padded_inj (by omega) (by omega),
    padded_lt (by omega) (by omega)]
  omega

theorem dateDigits_inj {left right : Date} (positive : 0 ≤ left.year)
    (positive_right : 0 ≤ right.year) (four : left.year ≤ 9999) (four_right : right.year ≤ 9999) :
    dateDigits left = dateDigits right ↔ left = right := by
  constructor
  · intro same
    rcases Date.before_trichotomy left right with before | equal | after
    · have less := (dateDigits_lt positive positive_right four four_right).mpr before
      rw [same] at less
      exact absurd less (List.lt_irrefl _)
    · exact equal
    · have less := (dateDigits_lt positive_right positive four_right four).mpr after
      rw [same] at less
      exact absurd less (List.lt_irrefl _)
  · intro equal
    rw [equal]

/-- The last year whose stamp has eight digits for the date. -/
def FourDigits (secs : Nat) : Prop :=
  (civilDate (secs / 86400)).year ≤ 9999

variable {secs : Nat}

theorem zeroPadded_clock (inDay : secs < 86400) :
    (zeroPadded 2 (secs / 3600 : Nat)).toList ++
      ((zeroPadded 2 (secs % 3600 / 60 : Nat)).toList ++ (zeroPadded 2 (secs % 60 : Nat)).toList) =
        clockDigits secs := by
  have ten : 10 ^ 2 = 100 := rfl
  unfold clockDigits
  rw [zeroPadded_toList (by decide) (by omega), zeroPadded_toList (by decide) (by omega),
    zeroPadded_toList (by decide) (by omega)]

theorem zeroPadded_date {date : Date} (positive : 0 ≤ date.year) (four : date.year ≤ 9999) :
    (zeroPadded 4 date.year).toList ++
      ((zeroPadded 2 date.month).toList ++ (zeroPadded 2 date.day).toList) = dateDigits date := by
  have ten : 10 ^ 2 = 100 := rfl
  have thousand : 10 ^ 4 = 10000 := rfl
  have month := date.month_le
  have day := day_le_31 date
  obtain ⟨year, same⟩ := Int.eq_ofNat_of_zero_le positive
  unfold dateDigits
  rw [same] at four ⊢
  rw [zeroPadded_toList (by decide) (by omega), zeroPadded_toList (by decide) (by omega),
    zeroPadded_toList (by decide) (by omega), Int.toNat_natCast]

theorem stamp_toList (four : FourDigits secs) :
    (chronoLikeUtcStamp secs).toList =
      dateDigits (civilDate (secs / 86400)) ++ ('-' :: clockDigits (secs % 86400)) := by
  have first := civilDate_year (secs / 86400)
  have dash : "-".toList = ['-'] := rfl
  have clock := zeroPadded_clock (Nat.mod_lt secs (show 0 < 86400 by decide))
  have date := zeroPadded_date (show 0 ≤ (civilDate (secs / 86400)).year by omega) four
  unfold chronoLikeUtcStamp
  dsimp only
  rw [ymdFromEpochDays_civilDate]
  simp only [String.toList_append, dash, List.append_assoc, List.cons_append, List.nil_append,
    ← date, ← clock]

/-- Stamps of years of four digits are ordered as their times are. -/
theorem stamp_lt {early late : Nat} (four : FourDigits early) (four_late : FourDigits late) :
    chronoLikeUtcStamp early < chronoLikeUtcStamp late ↔ early < late := by
  have first := civilDate_year (early / 86400)
  have first_late := civilDate_year (late / 86400)
  have positive : 0 ≤ (civilDate (early / 86400)).year := by omega
  have positive_late : 0 ≤ (civilDate (late / 86400)).year := by omega
  have days : civilDate (early / 86400) = civilDate (late / 86400) ↔ early / 86400 = late / 86400 := by
    constructor
    · intro same
      have counted := daysFromCivil_civilDate (early / 86400)
      rw [same, daysFromCivil_civilDate] at counted
      omega
    · intro same
      rw [same]
  rw [String.lt_iff, stamp_toList four, stamp_toList four_late,
    append_lt_append_iff (by rw [dateDigits_length, dateDigits_length]),
    dateDigits_lt positive positive_late four four_late,
    dateDigits_inj positive positive_late four four_late, civilDate_before, days,
    List.cons_lt_cons_iff, clockDigits_lt (Nat.mod_lt _ (by decide)) (Nat.mod_lt _ (by decide))]
  have dash : ¬ '-' < '-' := by decide
  simp only [dash, false_or, true_and]
  omega

/-! ### Names -/

theorem prefix_lt {lead left right : String} : lead ++ left < lead ++ right ↔ left < right := by
  rw [String.lt_iff, String.lt_iff, String.toList_append, String.toList_append,
    append_lt_append_iff rfl]
  constructor
  · intro either
    rcases either with less | ⟨_, less⟩
    · exact absurd less (List.lt_irrefl _)
    · exact less
  · intro less
    exact Or.inr ⟨rfl, less⟩

theorem suffix_lt {left right tail rest : String} (lengths : left.toList.length = right.toList.length)
    (less : left < right) : left ++ tail < right ++ rest := by
  rw [String.lt_iff, String.toList_append, String.toList_append, append_lt_append_iff lengths]
  exact Or.inl less

theorem stamp_length (four : FourDigits secs) : (chronoLikeUtcStamp secs).toList.length = 15 := by
  rw [stamp_toList four, List.length_append, dateDigits_length]
  unfold clockDigits
  simp only [List.length_cons, List.length_append, length_padded]

/-- The name of a snapshot is the stamp between two texts. -/
theorem snapshotOf_name (path : Platforms.Place) :
    ∃ lead, ∀ now, (Platforms.snapshotOf path now).name = lead ++ (now ++ ".bak") := by
  unfold Platforms.snapshotOf Platforms.Place.withExtension Platforms.extensionWithMnemeBak
  cases path.extension with
  | none =>
      refine ⟨path.fileStem ++ "." ++ "mneme-", fun now => ?_⟩
      dsimp only
      simp only [String.append_assoc]
  | some ext =>
      dsimp only
      split
      · refine ⟨path.fileStem ++ "." ++ "mneme-", fun now => ?_⟩
        simp only [String.append_assoc]
      · refine ⟨path.fileStem ++ "." ++ (ext ++ ".mneme-"), fun now => ?_⟩
        simp only [String.append_assoc]

theorem snapshotOf_lt (path : Platforms.Place) {early late : Nat} (four : FourDigits early)
    (four_late : FourDigits late) :
    (Platforms.snapshotOf path (chronoLikeUtcStamp early)).name <
        (Platforms.snapshotOf path (chronoLikeUtcStamp late)).name ↔ early < late := by
  obtain ⟨lead, named⟩ := snapshotOf_name path
  rw [named, named, prefix_lt, String.lt_iff, String.toList_append, String.toList_append,
    append_lt_append_iff (by rw [stamp_length four, stamp_length four_late]), ← String.lt_iff,
    stamp_lt four four_late]
  constructor
  · intro either
    rcases either with less | ⟨_, less⟩
    · exact less
    · exact absurd less (List.lt_irrefl _)
  · exact Or.inl

namespace Receipts

/-- `iso8601_utc_now` at a second. -/
def iso8601UtcNow (secs : Nat) : String :=
  let ymd := Common.ymdFromEpochDays (secs / 86400 : Nat)
  let secsOfDay := secs % 86400
  zeroPadded 4 ymd.1 ++ "-" ++ zeroPadded 2 ymd.2.1 ++ "-" ++ zeroPadded 2 ymd.2.2 ++ "T" ++
    zeroPadded 2 (secsOfDay / 3600 : Nat) ++ ":" ++
    zeroPadded 2 (secsOfDay % 3600 / 60 : Nat) ++ ":" ++ zeroPadded 2 (secsOfDay % 60 : Nat) ++ "Z"

def replaceChar (old : Char) (new : List Char) (text : List Char) : List Char :=
  text.flatMap (fun char => if char = old then new else [char])

/-- The name under which a receipt is saved. -/
def fileName (installedAt id : String) : String :=
  let stamp := replaceChar 'T' ['-'] (replaceChar '-' [] (replaceChar ':' [] installedAt.toList))
  let whole := stamp.takeWhile (fun char => char ≠ '.')
  String.ofList (whole.reverse.dropWhile (fun char => char = 'Z')).reverse ++ "-" ++ id ++ ".json"

/-- The receipts among the names of a directory, the newest first. -/
def listReceipts (names : List String) : List String :=
  (names.filter (fun name => extensionOf name.toList = some "json".toList)).mergeSort
    (fun left right => decide (right ≤ left))

theorem replaceChar_append (old : Char) (new front back : List Char) :
    replaceChar old new (front ++ back) = replaceChar old new front ++ replaceChar old new back :=
  List.flatMap_append

theorem replaceChar_digits {old : Char} {new text : List Char} (sign : old.isDigit = false)
    (digits : ∀ char ∈ text, char.isDigit = true) : replaceChar old new text = text := by
  unfold replaceChar
  induction text with
  | nil => rfl
  | cons char text ih =>
      have other : char ≠ old := by
        intro same
        have digit := digits char List.mem_cons_self
        rw [same, sign] at digit
        cases digit
      rw [List.flatMap_cons, if_neg other, ih (fun next inside =>
        digits next (List.mem_cons_of_mem _ inside))]
      rfl

theorem replaceChar_cons (old char : Char) (new text : List Char) :
    replaceChar old new (char :: text) =
      (if char = old then new else [char]) ++ replaceChar old new text :=
  List.flatMap_cons

/-- The stamp and the letter that is dropped behind it. -/
theorem replaced_iso (four : FourDigits secs) :
    replaceChar 'T' ['-'] (replaceChar '-' [] (replaceChar ':' [] (iso8601UtcNow secs).toList)) =
      (chronoLikeUtcStamp secs).toList ++ ['Z'] := by
  have first := civilDate_year (secs / 86400)
  have ten : 10 ^ 2 = 100 := rfl
  have thousand : 10 ^ 4 = 10000 := rfl
  have month := (civilDate (secs / 86400)).month_le
  have day := day_le_31 (civilDate (secs / 86400))
  obtain ⟨year, same⟩ := Int.eq_ofNat_of_zero_le
    (show 0 ≤ (civilDate (secs / 86400)).year by omega)
  have small : year < 10000 := by
    unfold FourDigits at four
    omega
  have parts : (iso8601UtcNow secs).toList = padded 4 year ++ ('-' ::
      (padded 2 (civilDate (secs / 86400)).month ++ ('-' ::
        (padded 2 (civilDate (secs / 86400)).day ++ ('T' ::
          (padded 2 (secs % 86400 / 3600) ++ (':' :: (padded 2 (secs % 86400 % 3600 / 60) ++
            (':' :: (padded 2 (secs % 86400 % 60) ++ ['Z'])))))))))) := by
    have dash : "-".toList = ['-'] := rfl
    have colon : ":".toList = [':'] := rfl
    have letter : "T".toList = ['T'] := rfl
    have zone : "Z".toList = ['Z'] := rfl
    unfold iso8601UtcNow
    dsimp only
    rw [ymdFromEpochDays_civilDate]
    dsimp only
    rw [same]
    simp only [String.toList_append, dash, colon, letter, zone]
    rw [zeroPadded_toList (by decide) (by omega), zeroPadded_toList (by decide) (by omega),
      zeroPadded_toList (by decide) (by omega), zeroPadded_toList (by decide) (by omega),
      zeroPadded_toList (by decide) (by omega), zeroPadded_toList (by decide) (by omega)]
    simp only [List.append_assoc, List.cons_append, List.nil_append]
  have keep : ∀ (old : Char) (new : List Char) (width number : Nat), old.isDigit = false →
      replaceChar old new (padded width number) = padded width number :=
    fun old new width number sign => replaceChar_digits sign (fun _ inside => digit_of_padded inside)
  rw [parts, stamp_toList four]
  unfold dateDigits clockDigits
  rw [same, Int.toNat_natCast]
  have none_left : ∀ old new, replaceChar old new [] = [] := fun _ _ => rfl
  simp only [replaceChar_append, replaceChar_cons, none_left, keep ':' [] _ _ rfl,
    keep '-' [] _ _ rfl, keep 'T' ['-'] _ _ rfl]
  have dash : replaceChar '-' [] ['-'] = [] := rfl
  have letter : replaceChar '-' [] ['T'] = ['T'] := rfl
  have zone : replaceChar '-' [] ['Z'] = ['Z'] := rfl
  have between : replaceChar 'T' ['-'] ['T'] = ['-'] := rfl
  have behind : replaceChar 'T' ['-'] ['Z'] = ['Z'] := rfl
  simp [dash, letter, zone, between, behind, none_left]

theorem stamp_chars (four : FourDigits secs) :
    ∀ char ∈ (chronoLikeUtcStamp secs).toList, char.isDigit = true ∨ char = '-' := by
  intro char inside
  rw [stamp_toList four] at inside
  unfold dateDigits clockDigits at inside
  simp only [List.mem_append, List.mem_cons] at inside
  rcases inside with (date | date | date) | dash | clock | clock | clock
  · exact Or.inl (digit_of_padded date)
  · exact Or.inl (digit_of_padded date)
  · exact Or.inl (digit_of_padded date)
  · exact Or.inr dash
  · exact Or.inl (digit_of_padded clock)
  · exact Or.inl (digit_of_padded clock)
  · exact Or.inl (digit_of_padded clock)

/-- A receipt is named by the stamp of its time and its id. -/
theorem fileName_iso (four : FourDigits secs) (id : String) :
    fileName (iso8601UtcNow secs) id = chronoLikeUtcStamp secs ++ ("-" ++ id ++ ".json") := by
  have chars := stamp_chars four
  have noDot : ∀ char ∈ (chronoLikeUtcStamp secs).toList ++ ['Z'], decide (char ≠ '.') = true := by
    intro char inside
    apply decide_eq_true
    intro same
    rw [same] at inside
    rcases List.mem_append.mp inside with stamp | zone
    · exact absurd (chars _ stamp) (by decide)
    · exact absurd zone (by decide)
  have kept : (chronoLikeUtcStamp secs).toList.reverse.dropWhile (fun char => char = 'Z') =
      (chronoLikeUtcStamp secs).toList.reverse := by
    cases turned : (chronoLikeUtcStamp secs).toList.reverse with
    | nil => rfl
    | cons last others =>
        have inside : last ∈ (chronoLikeUtcStamp secs).toList := by
          rw [← List.mem_reverse, turned]
          exact List.mem_cons_self
        have other : ¬ decide (last = 'Z') = true := by
          intro same
          rw [of_decide_eq_true same] at inside
          exact absurd (chars _ inside) (by decide)
        rw [List.dropWhile_cons, if_neg other]
  unfold fileName
  dsimp only
  rw [replaced_iso four, List.takeWhile_eq_self_iff.mpr noDot, List.reverse_append,
    List.reverse_singleton, List.singleton_append, List.dropWhile_cons, if_pos (by decide), kept,
    List.reverse_reverse, String.ofList_toList, String.append_assoc, String.append_assoc,
    String.append_assoc]

theorem fileName_lt {early late : Nat} (four : FourDigits early) (four_late : FourDigits late)
    (earlier : early < late) (id other : String) :
    fileName (iso8601UtcNow early) id < fileName (iso8601UtcNow late) other := by
  rw [fileName_iso four, fileName_iso four_late]
  exact suffix_lt (by rw [stamp_length four, stamp_length four_late])
    ((stamp_lt four four_late).mpr earlier)

theorem listReceipts_sorted (names : List String) :
    (listReceipts names).Pairwise (fun first second => second ≤ first) := by
  have chain : ∀ one two three : String, decide (two ≤ one) = true → decide (three ≤ two) = true →
      decide (three ≤ one) = true :=
    fun one two three first second => decide_eq_true
      (String.le_trans (of_decide_eq_true second) (of_decide_eq_true first))
  have either : ∀ one two : String, (decide (two ≤ one) || decide (one ≤ two)) = true := by
    intro one two
    rw [Bool.or_eq_true, decide_eq_true_eq, decide_eq_true_eq]
    exact String.le_total two one
  exact (List.pairwise_mergeSort chain either _).imp of_decide_eq_true

/-- The receipts are listed with the later ones first. -/
theorem listReceipts_newest (names : List String) :
    (listReceipts names).Pairwise (fun first second => ∀ early late id other,
      FourDigits early → FourDigits late → first = fileName (iso8601UtcNow early) id →
        second = fileName (iso8601UtcNow late) other → late ≤ early) := by
  refine (listReceipts_sorted names).imp ?_
  intro first second ordered early late id other four four_late isFirst isSecond
  by_contra later
  have less := fileName_lt four four_late (Nat.lt_of_not_le later) id other
  rw [← isFirst, ← isSecond] at less
  exact List.not_lt.mpr ordered less

end Receipts

/-! ### Dates and stamps -/

/-- Both copies of the function give the date of a day, the dates follow one another as
the days do, and the names of backups and receipts as the times do. -/
theorem dates_and_stamps_chronological :
    (∀ days : Nat, (civilDate days).year ≤ 2147483647 →
      Receipts.ymdFromEpochDays days =
          some ((civilDate days).year, (civilDate days).month, (civilDate days).day) ∧
        Platforms.ymdFromEpochDays days = Receipts.ymdFromEpochDays days) ∧
    (∀ days : Nat, daysFromCivil (civilDate days) = days) ∧
    (∀ (date : Date) (days : Nat), daysFromCivil date = days → civilDate days = date) ∧
    (∀ early late : Nat, (civilDate early).Before (civilDate late) ↔ early < late) ∧
    (∀ path early late, FourDigits early → FourDigits late →
      ((Platforms.snapshotOf path (chronoLikeUtcStamp early)).name <
        (Platforms.snapshotOf path (chronoLikeUtcStamp late)).name ↔ early < late)) ∧
    (∀ early late id other, FourDigits early → FourDigits late → early < late →
      Receipts.fileName (Receipts.iso8601UtcNow early) id <
        Receipts.fileName (Receipts.iso8601UtcNow late) other) ∧
    (∀ names, (Receipts.listReceipts names).Pairwise (fun first second =>
      ∀ early late id other, FourDigits early → FourDigits late →
        first = Receipts.fileName (Receipts.iso8601UtcNow early) id →
          second = Receipts.fileName (Receipts.iso8601UtcNow late) other → late ≤ early)) := by
  refine ⟨?_, daysFromCivil_civilDate, fun _ _ same => civilDate_daysFromCivil same,
    fun _ _ => civilDate_before, fun path _ _ four four_late => snapshotOf_lt path four four_late,
    fun _ _ id other four four_late earlier =>
      Receipts.fileName_lt four four_late earlier id other,
    Receipts.listReceipts_newest⟩
  intro days representable
  have date := ymdFromEpochDays_civilDate days
  have machine := @ymdInMachine_eq days (Int.natCast_nonneg days) (by rw [date]; exact representable)
  rw [date] at machine
  exact ⟨machine, rfl⟩

end Mneme.Cli
