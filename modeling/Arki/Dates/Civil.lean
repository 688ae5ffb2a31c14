import Arki.Library.Calendar

/-! Calendar arithmetic on whole numbers: the day count of a date, and the date of a day count. -/

set_option autoImplicit false

namespace Arki.Dates

open Calendar (Date isLeap monthLength daysBeforeYear daysBeforeMonth)

def daysFromCivil (year month day : Int) : Int :=
  let y := if month ≤ 2 then year - 1 else year
  let era := y / 400
  let yearOfEra := y - era * 400
  let marchMonth := (month + 9).tmod 12
  let dayOfYear := (153 * marchMonth + 2) / 5 + day - 1
  let dayOfEra := yearOfEra * 365 + yearOfEra / 4 - yearOfEra / 100 + dayOfYear
  era * 146097 + dayOfEra - 719468

structure CivilDate where
  year : Int
  month : Int
  day : Int
  deriving DecidableEq

def civilFromDays (days : Int) : CivilDate :=
  let shifted := days + 719468
  let era := shifted / 146097
  let dayOfEra := shifted - era * 146097
  let yearOfEra := (dayOfEra - dayOfEra / 1460 + dayOfEra / 36524 - dayOfEra / 146096) / 365
  let dayOfYear := dayOfEra - (365 * yearOfEra + yearOfEra / 4 - yearOfEra / 100)
  let marchMonth := (5 * dayOfYear + 2) / 153
  let day := dayOfYear - (153 * marchMonth + 2) / 5 + 1
  let month := if marchMonth < 10 then marchMonth + 3 else marchMonth - 9
  ⟨yearOfEra + era * 400 + if month ≤ 2 then 1 else 0, month, day⟩

def isLeapYear (year : Int) : Bool := (year.tmod 4 = 0 && year.tmod 100 ≠ 0) || year.tmod 400 = 0

def MONTH_DAYS : List Int := [31, 28, 31, 30, 31, 30, 31, 31, 30, 31, 30, 31]

/-- `none` is `Number.NaN`. -/
def daysInMonthOf (year month : Int) : Option Int :=
  if month = 2 then some (if isLeapYear year then 29 else 28)
  else if 1 ≤ month then MONTH_DAYS[(month - 1).toNat]? else none

def weekdayOfDays (days : Int) : Int := ((days + 3).tmod 7 + 7).tmod 7 + 1

theorem tmod_eq_zero (number divisor : Int) : number.tmod divisor = 0 ↔ number % divisor = 0 := by
  rw [← Int.dvd_iff_tmod_eq_zero, ← Int.dvd_iff_emod_eq_zero]

theorem isLeapYear_eq (year : Int) : isLeapYear year = isLeap year := by
  rw [Bool.eq_iff_iff, Calendar.isLeap_iff]
  simp only [isLeapYear, Bool.or_eq_true, Bool.and_eq_true, decide_eq_true_eq, ne_eq, tmod_eq_zero]
  omega

theorem daysInMonthOf_eq (year : Int) {month : Int} (isMonth : 1 ≤ month ∧ month ≤ 12) : daysInMonthOf year month = some (monthLength year month) := by
  obtain ⟨low, high⟩ := isMonth
  unfold daysInMonthOf monthLength
  rw [isLeapYear_eq]
  interval_cases month <;> rfl

theorem daysFromCivil_eq (date : Date) : daysFromCivil date.year date.month date.day = date.ordinal := by
  have leap := Calendar.isLeap_iff date.year
  have isMonth := date.isMonth
  unfold daysFromCivil Date.ordinal
  dsimp only
  rw [Calendar.daysBeforeMonth_eq date.year isMonth, daysBeforeYear, Int.tmod_eq_emod_of_nonneg (by omega)]
  by_cases early : date.month ≤ 2
  · rw [if_pos early, if_pos early]
    omega
  · rw [if_neg early, if_neg early]
    split
    · next isLeap_ =>
      rw [leap] at isLeap_
      omega
    · next common =>
      rw [leap] at common
      omega

theorem weekdayOfDays_eq (days : Int) : weekdayOfDays days = Calendar.weekday days := by
  have up : 0 ≤ (days + 3).tmod 7 + 7 ∧ (days + 3).tmod 7 % 7 = (days + 3) % 7 := by
    rw [Int.tmod_eq_emod]
    split <;> omega
  rw [weekdayOfDays, Calendar.weekday, Int.tmod_eq_emod_of_nonneg up.1]
  omega

/-- Four hundred years are centuries of 36524 days, each of them 25 times four years of 1461 days, but for the last day of the last. -/
theorem yearOfEra_eq (dayOfEra : Int) (low : 0 ≤ dayOfEra) (high : dayOfEra ≤ 146096) :
    ∃ century quad year day : Int, (0 ≤ century ∧ century ≤ 3) ∧ (0 ≤ quad ∧ quad ≤ 24) ∧ (0 ≤ year ∧ year ≤ 3) ∧ (0 ≤ day ∧ day ≤ 365) ∧
      (day = 365 → year = 3 ∧ (quad = 24 → century = 3)) ∧
      (dayOfEra - dayOfEra / 1460 + dayOfEra / 36524 - dayOfEra / 146096) / 365 = 100 * century + 4 * quad + year ∧
      dayOfEra = 36524 * century + 1461 * quad + 365 * year + day := by
  obtain ⟨century, inCentury, isCentury⟩ : ∃ century, century = min (dayOfEra / 36524) 3 ∧ 0 ≤ dayOfEra - 36524 * century ∧
      dayOfEra - 36524 * century ≤ 36524 := ⟨_, rfl, by omega⟩
  obtain ⟨quad, isQuad⟩ : ∃ quad, quad = (dayOfEra - 36524 * century) / 1461 := ⟨_, rfl⟩
  obtain ⟨year, isYear⟩ : ∃ year, year = min ((dayOfEra - 36524 * century - 1461 * quad) / 365) 3 := ⟨_, rfl⟩
  have centuries : 0 ≤ century ∧ century ≤ 3 := by omega
  have quads : 0 ≤ quad ∧ quad ≤ 24 := by omega
  have rest : 0 ≤ dayOfEra - 36524 * century - 1461 * quad ∧ dayOfEra - 36524 * century - 1461 * quad ≤ 1460 := by omega
  refine ⟨century, quad, year, dayOfEra - 36524 * century - 1461 * quad - 365 * year, centuries, quads, by omega, by omega, by omega, ?_, by omega⟩
  generalize isRest : dayOfEra - 36524 * century - 1461 * quad = left at *
  obtain rfl : dayOfEra = 36524 * century + 1461 * quad + left := by omega
  by_cases last : 36524 * century + 1461 * quad + left = 146096
  · rw [last]
    omega
  · have noEra : (36524 * century + 1461 * quad + left) / 146096 = 0 := by omega
    have inCentury_ : (36524 * century + 1461 * quad + left) / 36524 = century := by omega
    have leaps : (36524 * century + 1461 * quad + left) / 1460 = 25 * century + quad + if 1460 ≤ 24 * century + quad + left then 1 else 0 := by
      split <;> omega
    rw [noEra, inCentury_, leaps]
    split <;> omega

theorem marchMonth_eq {day : Int} (inYear : 0 ≤ day ∧ day ≤ 365) :
    ∃ march : Int, (5 * day + 2) / 153 = march ∧ (0 ≤ march ∧ march ≤ 11) ∧ 1 ≤ day - (153 * march + 2) / 5 + 1 ∧
      day - (153 * march + 2) / 5 + 1 ≤ if march = 11 then if day = 365 then 29 else 28 else
        if march = 1 ∨ march = 3 ∨ march = 6 ∨ march = 8 then 30 else 31 := by
  refine ⟨_, rfl, by omega, by omega, ?_⟩
  split_ifs <;> omega

theorem civilFromDays_eq (days : Int) : ∃ date : Date, civilFromDays days = ⟨date.year, date.month, date.day⟩ ∧ date.ordinal = days := by
  obtain ⟨era, isEra⟩ : ∃ era, (days + 719468) / 146097 = era := ⟨_, rfl⟩
  obtain ⟨century, quad, year, day, centuries, quads, years, inYear, leapDay, isYear, is⟩ :=
    yearOfEra_eq (days + 719468 - era * 146097) (by omega) (by omega)
  obtain ⟨march, isMarch, inMarch, first, last⟩ := marchMonth_eq inYear
  have fourth : (100 * century + 4 * quad + year) / 4 = 25 * century + quad := by omega
  have hundredth : (100 * century + 4 * quad + year) / 100 = century := by omega
  have dayOfYear : days + 719468 - era * 146097 - (365 * (100 * century + 4 * quad + year) + (25 * century + quad) - century) = day := by omega
  have leap : day = 365 → isLeap (100 * century + 4 * quad + year + era * 400 + 1) = true := by
    intro isLast
    obtain ⟨isThird, atEnd⟩ := leapDay isLast
    rw [Calendar.isLeap_iff]
    omega
  have computed : civilFromDays days = ⟨100 * century + 4 * quad + year + era * 400 + (if (if march < 10 then march + 3 else march - 9) ≤ 2 then 1 else 0),
      if march < 10 then march + 3 else march - 9, day - (153 * march + 2) / 5 + 1⟩ := by
    unfold civilFromDays
    simp only [isEra, isYear, fourth, hundredth, dayOfYear, isMarch]
  have valid : 1 ≤ (if march < 10 then march + 3 else march - 9) ∧ (if march < 10 then march + 3 else march - 9) ≤ 12 := by
    split <;> omega
  have short : day - (153 * march + 2) / 5 + 1 ≤ monthLength
      (100 * century + 4 * quad + year + era * 400 + (if (if march < 10 then march + 3 else march - 9) ≤ 2 then 1 else 0))
      (if march < 10 then march + 3 else march - 9) := by
    refine last.trans ?_
    by_cases isLast : day = 365
    · have isFeb : march = 11 := by omega
      subst isFeb
      simp only [isLast, if_true, monthLength, leap isLast, show ¬ (11 : Int) < 10 by decide, if_false, show (11 : Int) - 9 = 2 by decide, le_refl]
    · obtain ⟨low, high⟩ := inMarch
      rw [if_neg isLast]
      unfold monthLength
      interval_cases march <;> simp
      split <;> decide
  refine ⟨⟨_, _, _, valid, first, short⟩, computed, ?_⟩
  have startsBack (y : Int) (isY : y = 100 * century + 4 * quad + year + era * 400) : y / 400 = era ∧
      (y - era * 400) * 365 + (y - era * 400) / 4 - (y - era * 400) / 100 = days + 719468 - era * 146097 - day := by
    refine ⟨by omega, ?_⟩
    rw [show y - era * 400 = 100 * century + 4 * quad + year by omega, fourth, hundredth]
    omega
  rw [← daysFromCivil_eq]
  unfold daysFromCivil
  by_cases early : march < 10
  · simp only [if_pos early, show ¬ march + 3 ≤ 2 by omega, if_false, Int.add_zero, startsBack _ rfl]
    rw [Int.tmod_eq_emod_of_nonneg (by omega), show (march + 3 + 9) % 12 = march by omega]
    omega
  · simp only [if_neg early, show march - 9 ≤ 2 by omega, if_true, Int.add_sub_cancel, startsBack _ rfl]
    rw [Int.tmod_eq_emod_of_nonneg (by omega), show (march - 9 + 9) % 12 = march by omega]
    omega

theorem civilFromDays_ordinal (date : Date) : civilFromDays date.ordinal = ⟨date.year, date.month, date.day⟩ := by
  obtain ⟨found, is, number⟩ := civilFromDays_eq date.ordinal
  rw [is, Calendar.ordinal_injective number]

end Arki.Dates
