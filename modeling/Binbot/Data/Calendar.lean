import Binbot.Core.Events
import Binbot.Data.JsonScan
import Mathlib.Tactic.Linarith
import Mathlib.Tactic.Ring

/-!
# Dates and their texts

The proleptic Gregorian calendar behind `datetime.date`, and the ISO 8601 texts that
`isoformat` writes and `fromisoformat` reads.
-/
namespace Binbot.Data

/-- A date of the calendar: `datetime.date`. -/
structure Civil where
  year : ℤ
  month : ℤ
  day : ℤ
  deriving DecidableEq

namespace Civil

/-! Years are counted from March, in eras of 400 years of 146097 days together; 1970-01-01
is day 719468 of the first era. -/

/-- The first day of a year of the era. -/
def yearStart (year : ℤ) : ℤ := 365 * year + year / 4 - year / 100

/-- The year of the era that a day of it falls in. The leap day ends its four years, and
its century, if there is one. -/
def yearOfEra (day : ℤ) : ℤ :=
  let century := min (day / 36524) 3
  let inCentury := day - 36524 * century
  let four := inCentury / 1461
  let inFour := inCentury - 1461 * four
  100 * century + 4 * four + min (inFour / 365) 3

/-- The first day of a month of the year. -/
def monthStart (month : ℤ) : ℤ := (153 * month + 2) / 5

def monthOfYear (day : ℤ) : ℤ := (5 * day + 2) / 153

def ofEra (era day : ℤ) : Civil :=
  let year := yearOfEra day
  let dayOfYear := day - yearStart year
  let month := monthOfYear dayOfYear
  { year := year + era * 400 + if month < 10 then 0 else 1
    month := if month < 10 then month + 3 else month - 9
    day := dayOfYear - monthStart month + 1 }

def ofDate (date : Date) : Civil := ofEra ((date + 719468) / 146097) ((date + 719468) % 146097)

def toDate (civil : Civil) : Date :=
  let year := if civil.month ≤ 2 then civil.year - 1 else civil.year
  let month := if civil.month ≤ 2 then civil.month + 9 else civil.month - 3
  year / 400 * 146097 + yearStart (year % 400) + monthStart month + civil.day - 1 - 719468

section

variable {day : ℤ}

theorem yearOfEra_range (first : 0 ≤ day) (last : day < 146097) :
    0 ≤ yearOfEra day ∧ yearOfEra day < 400 := by
  simp only [yearOfEra]
  omega

theorem yearStart_parts {four year : ℤ} (century : ℤ) (fours : 0 ≤ four ∧ four ≤ 24)
    (years : 0 ≤ year ∧ year ≤ 3) :
    yearStart (100 * century + 4 * four + year) = 36524 * century + 1461 * four + 365 * year := by
  have quarters : (100 * century + 4 * four + year) / 4 = 25 * century + four := by omega
  have centuries : (100 * century + 4 * four + year) / 100 = century := by omega
  rw [yearStart, quarters, centuries]
  linarith

/-- A day of the era lies in its year, which has 365 or 366 days. -/
theorem yearStart_yearOfEra (first : 0 ≤ day) (last : day < 146097) :
    0 ≤ day - yearStart (yearOfEra day) ∧ day - yearStart (yearOfEra day) < 366 := by
  rw [yearOfEra, yearStart_parts _ (by omega) (by omega)]
  omega

theorem monthOfYear_range (first : 0 ≤ day) (last : day < 366) :
    0 ≤ monthOfYear day ∧ monthOfYear day < 12 := by
  rw [monthOfYear]
  omega

/-- A day of the year lies in its month, which has at most 31 days. -/
theorem monthStart_monthOfYear (day : ℤ) :
    0 ≤ day - monthStart (monthOfYear day) ∧ day - monthStart (monthOfYear day) < 31 := by
  rw [monthStart, monthOfYear]
  omega

/-- The months and days are those of a calendar. -/
theorem ofEra_range (era : ℤ) (first : 0 ≤ day) (last : day < 146097) :
    (1 ≤ (ofEra era day).month ∧ (ofEra era day).month ≤ 12) ∧
      1 ≤ (ofEra era day).day ∧ (ofEra era day).day ≤ 31 := by
  obtain ⟨yearFirst, yearLast⟩ := yearStart_yearOfEra first last
  have month := monthOfYear_range yearFirst yearLast
  have inMonth := monthStart_monthOfYear (day - yearStart (yearOfEra day))
  simp only [ofEra]
  constructor
  · split <;> omega
  · omega

theorem toDate_ofEra (era : ℤ) (first : 0 ≤ day) (last : day < 146097) :
    toDate (ofEra era day) = era * 146097 + day - 719468 := by
  obtain ⟨yearFirst, yearLast⟩ := yearStart_yearOfEra first last
  have year := yearOfEra_range first last
  have month := monthOfYear_range yearFirst yearLast
  have sameEra : (yearOfEra day + era * 400) / 400 = era := by omega
  have sameYear : (yearOfEra day + era * 400) % 400 = yearOfEra day := by omega
  simp only [ofEra, toDate]
  -- January and February belong to the year before
  by_cases spring : monthOfYear (day - yearStart (yearOfEra day)) < 10
  · have late : ¬ monthOfYear (day - yearStart (yearOfEra day)) + 3 ≤ 2 := by omega
    simp only [if_pos spring, if_neg late, add_zero, add_sub_cancel_right, sameEra, sameYear]
    ring
  · have early : monthOfYear (day - yearStart (yearOfEra day)) - 9 ≤ 2 := by omega
    simp only [if_neg spring, if_pos early, add_sub_cancel_right, sub_add_cancel, sameEra, sameYear]
    ring

end

theorem ofDate_range (date : Date) :
    (1 ≤ (ofDate date).month ∧ (ofDate date).month ≤ 12) ∧
      1 ≤ (ofDate date).day ∧ (ofDate date).day ≤ 31 :=
  ofEra_range _ (Int.emod_nonneg _ (by decide)) (Int.emod_lt_of_pos _ (by decide))

/-- The date of a date's calendar date. -/
theorem toDate_ofDate (date : Date) : toDate (ofDate date) = date := by
  have counted := toDate_ofEra ((date + 719468) / 146097)
    (Int.emod_nonneg (date + 719468) (by decide)) (Int.emod_lt_of_pos (date + 719468) (by decide))
  have split := Int.mul_ediv_add_emod (date + 719468) 146097
  rw [ofDate, counted]
  linarith

end Civil

/-! ### Texts -/

/-- A date that `datetime.date` has: its year has four digits. -/
def InCalendar (date : Date) : Prop := 1 ≤ (Civil.ofDate date).year ∧ (Civil.ofDate date).year ≤ 9999

instance (date : Date) : Decidable (InCalendar date) :=
  inferInstanceAs (Decidable (_ ∧ _))

def digit (n : ℕ) : ℕ := 48 + n % 10

/-- `f"{n:02d}"`, for a number of at most two digits. -/
def twoDigits (n : ℕ) : CodePoints := [digit (n / 10), digit n]

/-- `f"{n:04d}"`, for a number of at most four digits. -/
def fourDigits (n : ℕ) : CodePoints := [digit (n / 1000), digit (n / 100), digit (n / 10), digit n]

/-- `date.isoformat()`: `YYYY-MM-DD`. -/
def isoformat (date : Date) : CodePoints :=
  let civil := Civil.ofDate date
  fourDigits civil.year.toNat ++ 45 :: twoDigits civil.month.toNat ++
    45 :: twoDigits civil.day.toNat

/-- The number that decimal digits write. -/
def digits? (text : CodePoints) : Option ℤ :=
  let number : ℕ := text.foldl (fun number n => number * 10 + (n - 48)) 0
  if ∀ n ∈ text, 48 ≤ n ∧ n ≤ 57 then some number else none

/-- The date of a year, month and day, if the calendar has it. -/
def ofCalendar (year month day : ℤ) : Option Date :=
  let date := Civil.toDate ⟨year, month, day⟩
  if Civil.ofDate date = ⟨year, month, day⟩ ∧ InCalendar date then some date else none

/-- The Monday of the week that 4 January is in. -/
def firstMonday (year : ℤ) : Date :=
  let fourth := Civil.toDate ⟨year, 1, 4⟩
  -- 1970-01-01 is a Thursday
  fourth - (fourth + 3) % 7

/-- The date of an ISO year, week and day of the week, if there is one. -/
def ofWeek (year week day : ℤ) : Option Date :=
  let weeks := (firstMonday (year + 1) - firstMonday year) / 7
  let date := firstMonday year + (week - 1) * 7 + (day - 1)
  if (1 ≤ year ∧ year ≤ 9999) ∧ (1 ≤ week ∧ week ≤ weeks) ∧ (1 ≤ day ∧ day ≤ 7) ∧ InCalendar date
  then some date
  else none

/-- What comes after a dash, if the text uses dashes. -/
def afterDash (dashes : Bool) (text : CodePoints) : Option CodePoints :=
  if dashes then
    match text with
    | [] => none
    | c :: rest => if c = 45 then some rest else none
  else some text

/-- What comes after the year: `MM-DD`, `MMDD`, `Www-D`, `WwwD` or `Www`. -/
def afterYear (year : ℤ) (dashes : Bool) : CodePoints → Option Date
  | 87 :: first :: second :: rest => do
    let week ← digits? [first, second]
    if rest = [] then ofWeek year week 1
    else
      match ← afterDash dashes rest with
      | [day] => do ofWeek year week (← digits? [day])
      | _ => none
  | first :: second :: rest => do
    let month ← digits? [first, second]
    match ← afterDash dashes rest with
    | [tens, ones] => do ofCalendar year month (← digits? [tens, ones])
    | _ => none
  | _ => none

/-- `date.fromisoformat`; none for its `ValueError`. -/
def fromisoformat : CodePoints → Option Date
  | a :: b :: c :: d :: 45 :: rest => do afterYear (← digits? [a, b, c, d]) true rest
  | a :: b :: c :: d :: rest => do afterYear (← digits? [a, b, c, d]) false rest
  | _ => none

theorem digit_range (n : ℕ) : 48 ≤ digit n ∧ digit n ≤ 57 := by
  rw [digit]
  omega

theorem digits?_twoDigits {n : ℤ} (first : 0 ≤ n) (last : n ≤ 99) :
    digits? (twoDigits n.toNat) = some n := by
  have value : (0 * 10 + (digit (n.toNat / 10) - 48)) * 10 + (digit n.toNat - 48) = n.toNat := by
    simp only [digit]
    omega
  rw [digits?, if_pos (by simp [twoDigits, digit_range])]
  simp only [twoDigits, List.foldl_cons, List.foldl_nil, value]
  rw [Int.toNat_of_nonneg first]

theorem digits?_fourDigits {n : ℤ} (first : 0 ≤ n) (last : n ≤ 9999) :
    digits? (fourDigits n.toNat) = some n := by
  have value : (((0 * 10 + (digit (n.toNat / 1000) - 48)) * 10 +
      (digit (n.toNat / 100) - 48)) * 10 + (digit (n.toNat / 10) - 48)) * 10 +
        (digit n.toNat - 48) = n.toNat := by
    simp only [digit]
    omega
  rw [digits?, if_pos (by simp [fourDigits, digit_range])]
  simp only [fourDigits, List.foldl_cons, List.foldl_nil, value]
  rw [Int.toNat_of_nonneg first]


theorem ofCalendar_ofDate {date : Date} (valid : InCalendar date) :
    ofCalendar (Civil.ofDate date).year (Civil.ofDate date).month (Civil.ofDate date).day =
      some date := by
  have same : Civil.toDate ⟨(Civil.ofDate date).year, (Civil.ofDate date).month,
      (Civil.ofDate date).day⟩ = date := Civil.toDate_ofDate date
  rw [ofCalendar, same]
  exact if_pos ⟨rfl, valid⟩

/-- A date is read back from its text. -/
theorem fromisoformat_isoformat {date : Date} (valid : InCalendar date) :
    fromisoformat (isoformat date) = some date := by
  obtain ⟨⟨monthFirst, monthLast⟩, dayFirst, dayLast⟩ := Civil.ofDate_range date
  have year := digits?_fourDigits (by linarith [valid.1]) valid.2
  have month := digits?_twoDigits (n := (Civil.ofDate date).month) (by omega) (by omega)
  have day := digits?_twoDigits (n := (Civil.ofDate date).day) (by omega) (by omega)
  have noWeek : digit ((Civil.ofDate date).month.toNat / 10) ≠ 87 := by
    have := digit_range ((Civil.ofDate date).month.toNat / 10)
    omega
  rw [fourDigits] at year
  rw [twoDigits] at month day
  simp only [isoformat, fourDigits, twoDigits, List.cons_append, List.nil_append, fromisoformat,
    year, Option.bind_eq_bind, Option.bind_some]
  rw [afterYear]
  · simp [month, day, afterDash, ofCalendar_ofDate valid]
  · intro _ _ week _
    exact noWeek week

theorem isoformat_scalar (date : Date) : Json.Scalar (isoformat date) := by
  have small : ∀ n, digit n < 0xD800 := fun n => by
    have := digit_range n
    omega
  simp [Json.Scalar, isoformat, fourDigits, twoDigits, small]

example : fromisoformat [50, 48, 50, 54, 45, 48, 56, 45, 49, 54] = some 20681 ∧
    fromisoformat [50, 48, 50, 54, 87, 51, 51, 55] = some 20681 ∧
    fromisoformat [50, 48, 50, 54, 45, 48, 50, 45, 51, 48] = none := by decide +kernel

end Binbot.Data
