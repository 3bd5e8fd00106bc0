import Mathlib.Algebra.Order.Group.Unbundled.Int
import Mathlib.Order.Basic
import Mathlib.Tactic.DeriveFintype

set_option relaxedAutoImplicit false
set_option autoImplicit false

/-!
# The civil calendar

The proleptic Gregorian calendar: the days, numbered from the first of January 1970, and the dates
they have.

## Main definitions

* `Civil.yearStart` — the first day of a year.
* `Civil.Date`, `Civil.Date.IsValid` — a year, month and day, and those that some day has.
* `Civil.Date.days` — the day of a date.
* `Civil.civil` — the date of a day.

## Main results

* `Civil.yearOf_eq` — the year of a day is the one that it lies in.
* `Civil.days_civil`, `Civil.civil_days` — days and valid dates are the same.
-/

namespace Civil

/-! ## Years -/

/-- A leap year. -/
def isLeap (y : ℤ) : Bool := decide (y % 4 = 0 ∧ (y % 100 ≠ 0 ∨ y % 400 = 0))

/-- The first day of a year. -/
def yearStart (y : ℤ) : ℤ := 365 * (y - 1970) + (y - 1) / 4 - (y - 1) / 100 + (y - 1) / 400 - 477

/-- A year has 365 days, a leap year one more. -/
theorem yearStart_succ (y : ℤ) :
    yearStart (y + 1) = yearStart y + 365 + if isLeap y = true then 1 else 0 := by
  unfold yearStart isLeap
  simp only [decide_eq_true_eq]
  split_ifs <;> omega

/-- A later year starts later. -/
theorem yearStart_lt {y y' : ℤ} (h : y < y') : yearStart y < yearStart y' := by
  unfold yearStart
  omega

/-- Years start in their order. -/
theorem yearStart_le {y y' : ℤ} (h : y ≤ y') : yearStart y ≤ yearStart y' := by
  rcases h.lt_or_eq with h | rfl
  · exact (yearStart_lt h).le
  · exact le_rfl

/-- The year that a day lies in: the mean length of a year tells it but for one. -/
def yearOf (d : ℤ) : ℤ :=
  let y := 400 * (d + 719162) / 146097 + 1
  if d < yearStart y then y - 1 else if yearStart (y + 1) ≤ d then y + 1 else y

/-- A day lies in its year. -/
theorem yearStart_yearOf (d : ℤ) : yearStart (yearOf d) ≤ d ∧ d < yearStart (yearOf d + 1) := by
  unfold yearOf yearStart
  dsimp only
  split_ifs <;> omega

/-- **The year of a day is the one that it lies in.** -/
theorem yearOf_eq {d y : ℤ} : yearOf d = y ↔ yearStart y ≤ d ∧ d < yearStart (y + 1) := by
  obtain ⟨hle, hlt⟩ := yearStart_yearOf d
  constructor
  · rintro rfl
    exact ⟨hle, hlt⟩
  · rintro ⟨hle', hlt'⟩
    rcases lt_trichotomy (yearOf d) y with h | h | h
    · have := yearStart_le (Int.add_one_le_of_lt h)
      omega
    · exact h
    · have := yearStart_le (Int.add_one_le_of_lt h)
      omega

/-- A day lies in a year or later exactly from the first day of the year on. -/
theorem le_yearOf_iff {d y : ℤ} : y ≤ yearOf d ↔ yearStart y ≤ d := by
  obtain ⟨hle, hlt⟩ := yearStart_yearOf d
  constructor
  · exact fun h => (yearStart_le h).trans hle
  · intro h
    by_contra hlate
    have := yearStart_le (Int.add_one_le_of_lt (not_le.mp hlate))
    omega

/-! ## Months -/

/-- The days of a year before a month, the first of which is number 1. -/
def monthStart (leap : Bool) (m : ℕ) : ℕ :=
  [0, 31, 59, 90, 120, 151, 181, 212, 243, 273, 304, 334].getD (m - 1) 365 +
    if leap && decide (2 < m) then 1 else 0

/-- The days of a month. -/
def monthLength (leap : Bool) (m : ℕ) : ℕ := monthStart leap (m + 1) - monthStart leap m

/-- The month of a day of the year, the first of which is number 0. -/
def monthOf (leap : Bool) (n : ℕ) : ℕ :=
  1 + ((List.range' 2 11).filter fun m => decide (monthStart leap m ≤ n)).length

/-- The length of a year in days. -/
def yearLength (leap : Bool) : ℕ := if leap then 366 else 365

/-- A day of the year lies in its month. -/
theorem monthOf_spec : ∀ leap : Bool, ∀ n < yearLength leap,
    1 ≤ monthOf leap n ∧ monthOf leap n ≤ 12 ∧ monthStart leap (monthOf leap n) ≤ n ∧
      n - monthStart leap (monthOf leap n) < monthLength leap (monthOf leap n) := by
  decide +kernel

/-- The month of a day that lies in it. -/
theorem monthOf_add : ∀ leap : Bool, ∀ m < 13, 1 ≤ m → ∀ d < monthLength leap m,
    monthOf leap (monthStart leap m + d) = m ∧ monthStart leap m + d < yearLength leap := by
  decide +kernel

/-! ## Dates -/

/-- A year, month and day. -/
structure Date where
  year : ℤ
  month : ℕ
  day : ℕ
  deriving DecidableEq, Repr

/-- A date that some day has. -/
def Date.IsValid (date : Date) : Prop :=
  1 ≤ date.month ∧ date.month ≤ 12 ∧ 1 ≤ date.day ∧
    date.day ≤ monthLength (isLeap date.year) date.month

instance (date : Date) : Decidable date.IsValid := by
  unfold Date.IsValid
  exact inferInstance

/-- The day of a date; days past the end of a month run on into the next ones. -/
def Date.days (date : Date) : ℤ :=
  yearStart date.year + monthStart (isLeap date.year) date.month + (date.day - 1)

/-- The date of a day. -/
def civil (d : ℤ) : Date :=
  let y := yearOf d
  let n := (d - yearStart y).toNat
  let m := monthOf (isLeap y) n
  ⟨y, m, n - monthStart (isLeap y) m + 1⟩

/-- The length of a year tells where the next one starts. -/
theorem yearStart_add_yearLength (y : ℤ) :
    yearStart (y + 1) = yearStart y + yearLength (isLeap y) := by
  rw [yearStart_succ]
  cases isLeap y <;> simp [yearLength, add_assoc]

/-- The day of the year of a day. -/
theorem dayOfYear_lt (d : ℤ) : (d - yearStart (yearOf d)).toNat < yearLength (isLeap (yearOf d)) ∧
    ((d - yearStart (yearOf d)).toNat : ℤ) = d - yearStart (yearOf d) := by
  obtain ⟨hle, hlt⟩ := yearStart_yearOf d
  rw [yearStart_add_yearLength] at hlt
  omega

/-- Every day has a valid date. -/
theorem isValid_civil (d : ℤ) : (civil d).IsValid := by
  obtain ⟨hone, htwelve, hstart, hlength⟩ := monthOf_spec _ _ (dayOfYear_lt d).1
  refine ⟨hone, htwelve, ?_, ?_⟩
  · simp [civil]
  · simp only [civil]
    omega

/-- **The date of a day is that day's.** -/
theorem days_civil (d : ℤ) : (civil d).days = d := by
  obtain ⟨hlt, hcast⟩ := dayOfYear_lt d
  obtain ⟨-, -, hstart, -⟩ := monthOf_spec _ _ hlt
  simp only [civil, Date.days]
  push_cast [hstart]
  omega

/-- **The day of a valid date has that date.** -/
theorem civil_days {date : Date} (h : date.IsValid) : civil date.days = date := by
  obtain ⟨hone, htwelve, hday, hlength⟩ := h
  obtain ⟨hmonth, hlt⟩ := monthOf_add (isLeap date.year) date.month (by omega) hone (date.day - 1)
    (by omega)
  have hyear : yearOf date.days = date.year := by
    rw [yearOf_eq, yearStart_add_yearLength]
    unfold Date.days
    omega
  have hn : (date.days - yearStart date.year).toNat =
      monthStart (isLeap date.year) date.month + (date.day - 1) := by
    unfold Date.days
    omega
  unfold civil
  rw [hyear]
  dsimp only
  rw [hn, hmonth]
  obtain ⟨y, m, day⟩ := date
  simp only [Date.mk.injEq, true_and]
  dsimp only at hday
  omega

/-- The date of a day lies in the day's year. -/
theorem civil_year (d : ℤ) : (civil d).year = yearOf d := rfl

end Civil
