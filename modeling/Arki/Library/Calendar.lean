import Mathlib.Tactic.IntervalCases

/-! The ISO calendar: its dates, the day after each, and their numbers, which count the days from 1970-01-01. -/

set_option autoImplicit false

namespace Arki.Calendar

def isLeap (year : Int) : Bool := year % 4 = 0 && (year % 100 != 0 || year % 400 = 0)

def monthLength (year month : Int) : Int :=
  if month = 2 then if isLeap year then 29 else 28
  else if month = 4 ∨ month = 6 ∨ month = 9 ∨ month = 11 then 30
  else 31

@[ext]
structure Date where
  year : Int
  month : Int
  day : Int
  isMonth : 1 ≤ month ∧ month ≤ 12
  isDay : 1 ≤ day ∧ day ≤ monthLength year month
  deriving DecidableEq

theorem monthLength_bounds (year month : Int) : 28 ≤ monthLength year month ∧ monthLength year month ≤ 31 := by
  unfold monthLength
  split_ifs <;> omega

def daysBeforeYear (year : Int) : Int := 365 * (year - 1970) + ((year - 1) / 4 - (year - 1) / 100 + (year - 1) / 400 - 477)

def daysBeforeMonth (year month : Int) : Int := ((List.range (month - 1).toNat).map fun (before : Nat) => monthLength year (before + 1)).sum

def Date.ordinal (date : Date) : Int := daysBeforeYear date.year + daysBeforeMonth date.year date.month + (date.day - 1)

theorem isLeap_iff (year : Int) : isLeap year = true ↔ year % 4 = 0 ∧ (year % 100 ≠ 0 ∨ year % 400 = 0) := by
  simp [isLeap]

theorem daysBeforeMonth_one (year : Int) : daysBeforeMonth year 1 = 0 := rfl

theorem daysBeforeMonth_succ (year : Int) {month : Int} (isMonth : 1 ≤ month) :
    daysBeforeMonth year (month + 1) = daysBeforeMonth year month + monthLength year month := by
  obtain ⟨before, rfl⟩ : ∃ before : Nat, month = before + 1 := ⟨(month - 1).toNat, by omega⟩
  have this_ : ((before : Int) + 1 - 1).toNat = before := by omega
  have that : ((before : Int) + 1 + 1 - 1).toNat = before + 1 := by omega
  rw [daysBeforeMonth, daysBeforeMonth, this_, that, List.range_succ, List.map_append, List.sum_append, List.map_singleton, List.sum_singleton]

theorem daysBeforeMonth_eq (year : Int) {month : Int} (isMonth : 1 ≤ month ∧ month ≤ 12) :
    daysBeforeMonth year month = if month ≤ 2 then 31 * (month - 1) else (153 * (month - 3) + 2) / 5 + if isLeap year then 60 else 59 := by
  obtain ⟨low, high⟩ := isMonth
  interval_cases month <;> cases leap : isLeap year <;> simp [daysBeforeMonth, monthLength, leap, List.range_succ]

theorem daysBeforeYear_succ (year : Int) : daysBeforeYear (year + 1) = daysBeforeYear year + if isLeap year then 366 else 365 := by
  unfold daysBeforeYear
  split
  · next leap =>
    rw [isLeap_iff] at leap
    omega
  · next common =>
    rw [isLeap_iff] at common
    omega

theorem yearLength (year : Int) : daysBeforeMonth year 12 + 31 = if isLeap year then 366 else 365 := by
  rw [daysBeforeMonth_eq year (by decide), if_neg (by decide)]
  split <;> rfl

theorem daysBeforeMonth_nonneg (year : Int) {month : Int} (isMonth : 1 ≤ month ∧ month ≤ 12) : 0 ≤ daysBeforeMonth year month := by
  rw [daysBeforeMonth_eq year isMonth]
  split_ifs <;> omega

theorem daysBeforeMonth_le (year : Int) {month later : Int} (isMonth : 1 ≤ month) (isLater : month < later) (last : later ≤ 12) :
    daysBeforeMonth year month + monthLength year month ≤ daysBeforeMonth year later := by
  rw [← daysBeforeMonth_succ year isMonth, daysBeforeMonth_eq year ⟨by omega, by omega⟩, daysBeforeMonth_eq year ⟨by omega, by omega⟩]
  split_ifs <;> omega

theorem Date.ordinal_bounds (date : Date) : daysBeforeYear date.year ≤ date.ordinal ∧ date.ordinal < daysBeforeYear (date.year + 1) := by
  have nonneg := daysBeforeMonth_nonneg date.year date.isMonth
  have whole := yearLength date.year
  rw [daysBeforeYear_succ]
  have within : daysBeforeMonth date.year date.month + monthLength date.year date.month ≤ daysBeforeMonth date.year 12 + 31 := by
    rcases lt_or_ge date.month 12 with before | last
    · have up := daysBeforeMonth_le date.year date.isMonth.1 before (le_refl _)
      omega
    · rw [show date.month = 12 by have high := date.isMonth; omega]
      exact le_refl _
  have inDay := date.isDay
  unfold Date.ordinal
  omega

theorem daysBeforeYear_lt {year later : Int} (isLater : year < later) : daysBeforeYear (year + 1) ≤ daysBeforeYear later := by
  unfold daysBeforeYear
  omega

theorem ordinal_injective : Function.Injective Date.ordinal := by
  intro first second same
  have inFirst := first.ordinal_bounds
  have inSecond := second.ordinal_bounds
  have years : first.year = second.year := by
    rcases lt_trichotomy first.year second.year with before | same_ | after
    · have up := daysBeforeYear_lt before
      omega
    · exact same_
    · have up := daysBeforeYear_lt after
      omega
  have monthFirst := first.isMonth
  have monthSecond := second.isMonth
  have dayFirst := first.isDay
  have daySecond := second.isDay
  simp only [Date.ordinal, years] at same
  rw [years] at dayFirst
  have months : first.month = second.month := by
    rcases lt_trichotomy first.month second.month with before | same_ | after
    · have up := daysBeforeMonth_le second.year monthFirst.1 before monthSecond.2
      omega
    · exact same_
    · have up := daysBeforeMonth_le second.year monthSecond.1 after monthFirst.2
      omega
  rw [months] at same
  exact Date.ext years months (by omega)

def weekday (ordinal : Int) : Int := (ordinal + 3) % 7 + 1

theorem weekday_bounds (ordinal : Int) : 1 ≤ weekday ordinal ∧ weekday ordinal ≤ 7 := by
  unfold weekday
  omega

end Arki.Calendar
