import Arki.Dates.PlainDate

/-! Day counts and dates are the same order, and every day lies in one numbered week of one week year.

The first week of a year holds as many of its days as the rules ask for.
-/

set_option autoImplicit false

namespace Arki.Dates

open Calendar (Date daysBeforeYear)

/-- The rules of the source in full: where weeks start, and how many days of January are in week 1. -/
structure WeekNumbering extends WeekRules where
  minimalDays : Int
  isCount : 1 ≤ minimalDays ∧ minimalDays ≤ 7

def ISO_WEEK : WeekNumbering where
  startsOn := 1
  isDay := by decide
  minimalDays := 4
  isCount := by decide

structure WeekInfo where
  week : ℚ
  weekYear : Int
  deriving DecidableEq

def firstWeek (rules : WeekNumbering) (weekYear : Int) : Int := weekStart (daysFromCivil weekYear 1 rules.minimalDays) rules.toWeekRules

def weekOfDays (days : Int) (rules : WeekNumbering) : WeekInfo :=
  let start := weekStart days rules.toWeekRules
  let year := (civilFromDays days).year
  let weekYear :=
    if start < firstWeek rules (year + 1) then if start < firstWeek rules year then year - 1 else year else year + 1
  ⟨((start - firstWeek rules weekYear : Int) : ℚ) / 7 + 1, weekYear⟩

def isoWeekOf (year month day : Int) : WeekInfo :=
  let days := daysFromCivil year month day
  let thursday := days - weekdayOfDays days + 4
  let weekYear := (civilFromDays thursday).year
  ⟨((thursday - daysFromCivil weekYear 1 1) / 7 + 1 : Int), weekYear⟩

def Before (first second : CivilDate) : Prop :=
  first.year < second.year ∨ first.year = second.year ∧
    (first.month < second.month ∨ first.month = second.month ∧ first.day < second.day)

def IsDate (date : CivilDate) : Prop := (1 ≤ date.month ∧ date.month ≤ 12) ∧ 1 ≤ date.day ∧ date.day ≤ Calendar.monthLength date.year date.month

/-- The day is in a week of the week year: the week starts in it, and it is that number of weeks from its first. -/
structure InWeek (rules : WeekNumbering) (days weekYear week : Int) : Prop where
  positive : 1 ≤ week
  within : firstWeek rules weekYear + 7 * (week - 1) ≤ days ∧ days < firstWeek rules weekYear + 7 * (week - 1) + 7
  starts : firstWeek rules weekYear ≤ weekStart days rules.toWeekRules ∧ weekStart days rules.toWeekRules < firstWeek rules (weekYear + 1)

section Order

variable {first second : CivilDate}

theorem IsDate.ordinal (isDate : IsDate first) : ∃ date : Date, first = ⟨date.year, date.month, date.day⟩ ∧
    daysFromCivil first.year first.month first.day = date.ordinal :=
  ⟨⟨first.year, first.month, first.day, isDate.1, isDate.2⟩, rfl, daysFromCivil_eq ⟨first.year, first.month, first.day, isDate.1, isDate.2⟩⟩

theorem ordinal_lt {first second : Date} (before : Before ⟨first.year, first.month, first.day⟩ ⟨second.year, second.month, second.day⟩) :
    first.ordinal < second.ordinal := by
  have inFirst := first.ordinal_bounds
  have inSecond := second.ordinal_bounds
  rcases before with years | ⟨years, months | ⟨months, days⟩⟩
  · have up := Calendar.daysBeforeYear_lt (show first.year < second.year from years)
    omega
  · have earlier : first.month < second.month := months
    have up := Calendar.daysBeforeMonth_le first.year first.isMonth.1 earlier second.isMonth.2
    have short := first.isDay
    have long := second.isDay
    have same : first.year = second.year := years
    unfold Date.ordinal
    rw [same] at short up ⊢
    omega
  · have same : first.year = second.year := years
    have sameMonth : first.month = second.month := months
    have later : first.day < second.day := days
    unfold Date.ordinal
    rw [same, sameMonth]
    omega

theorem before_trichotomy (first second : CivilDate) : Before first second ∨ first = second ∨ Before second first := by
  obtain ⟨year, month, day⟩ := first
  obtain ⟨year', month', day'⟩ := second
  simp only [Before, CivilDate.mk.injEq]
  omega

theorem before_iff {first second : Date} :
    Before ⟨first.year, first.month, first.day⟩ ⟨second.year, second.month, second.day⟩ ↔ first.ordinal < second.ordinal := by
  refine ⟨ordinal_lt, fun less => ?_⟩
  rcases before_trichotomy ⟨first.year, first.month, first.day⟩ ⟨second.year, second.month, second.day⟩ with before | same | after
  · exact before
  · obtain ⟨years, months, days⟩ := CivilDate.mk.injEq .. ▸ same
    rw [Date.ext years months days] at less
    exact absurd less (lt_irrefl _)
  · exact absurd (ordinal_lt after) (not_lt_of_gt less)

end Order

section Weeks

variable {rules : WeekNumbering} {days weekYear week : Int}

theorem daysFromCivil_january (year : Int) {day : Int} (isDay : 1 ≤ day ∧ day ≤ 7) : daysFromCivil year 1 day = daysBeforeYear year + (day - 1) := by
  have long := Calendar.monthLength_bounds year 1
  have is := daysFromCivil_eq ⟨year, 1, day, by decide, by omega⟩
  rw [is, Date.ordinal, Calendar.daysBeforeMonth_one, Int.add_zero]

theorem firstWeek_bounds (rules : WeekNumbering) (year : Int) :
    Calendar.weekday (firstWeek rules year) = rules.startsOn ∧ firstWeek rules year ≤ daysBeforeYear year + (rules.minimalDays - 1) ∧
      daysBeforeYear year + (rules.minimalDays - 1) < firstWeek rules year + 7 := by
  have start := weekStart_eq (daysFromCivil year 1 rules.minimalDays) rules.toWeekRules
  rw [daysFromCivil_january year rules.isCount] at start
  rw [firstWeek, daysFromCivil_january year rules.isCount]
  exact start

theorem firstWeek_lt {year later : Int} (isLater : year < later) : firstWeek rules year < firstWeek rules later := by
  have first := firstWeek_bounds rules year
  have second := firstWeek_bounds rules later
  have up := Calendar.daysBeforeYear_lt isLater
  have long := Calendar.daysBeforeYear_succ year
  split at long <;> omega

theorem year_bounds (days : Int) :
    daysBeforeYear (civilFromDays days).year ≤ days ∧ days < daysBeforeYear ((civilFromDays days).year + 1) := by
  obtain ⟨date, is, number⟩ := civilFromDays_eq days
  rw [is, ← number]
  exact date.ordinal_bounds

theorem weekYear_spec (days : Int) (rules : WeekNumbering) :
    firstWeek rules (weekOfDays days rules).weekYear ≤ weekStart days rules.toWeekRules ∧
      weekStart days rules.toWeekRules < firstWeek rules ((weekOfDays days rules).weekYear + 1) := by
  have start := weekStart_eq days rules.toWeekRules
  have inYear := year_bounds days
  have count := rules.isCount
  generalize isYear : (civilFromDays days).year = year at inYear
  have long := Calendar.daysBeforeYear_succ (year - 1)
  have longer := Calendar.daysBeforeYear_succ (year + 1)
  have before := firstWeek_bounds rules (year - 1)
  have after := firstWeek_bounds rules (year + 1 + 1)
  rw [show year - 1 + 1 = year by omega] at long
  simp only [weekOfDays, isYear]
  split
  next early =>
    split
    next earlier =>
      rw [show year - 1 + 1 = year by omega]
      refine ⟨?_, earlier⟩
      split at long <;> omega
    next inside => exact ⟨not_lt.mp inside, early⟩
  next late =>
    refine ⟨not_lt.mp late, ?_⟩
    split at longer <;> omega

theorem InWeek.start_eq (inWeek : InWeek rules days weekYear week) : weekStart days rules.toWeekRules = firstWeek rules weekYear + 7 * (week - 1) := by
  have start := weekStart_eq days rules.toWeekRules
  have first := (firstWeek_bounds rules weekYear).1
  refine week_unique start.1 ?_ start.2 inWeek.within
  rw [← first]
  unfold Calendar.weekday
  omega

theorem inWeek_iff (days : Int) (rules : WeekNumbering) (weekYear week : Int) :
    InWeek rules days weekYear week ↔ weekOfDays days rules = ⟨week, weekYear⟩ := by
  have start := weekStart_eq days rules.toWeekRules
  have spec := weekYear_spec days rules
  constructor
  · intro inWeek
    have years : (weekOfDays days rules).weekYear = weekYear := by
      rcases lt_trichotomy (weekOfDays days rules).weekYear weekYear with before | same | after
      · have up : firstWeek rules ((weekOfDays days rules).weekYear + 1) ≤ firstWeek rules weekYear := by
          rcases lt_or_eq_of_le (show (weekOfDays days rules).weekYear + 1 ≤ weekYear by omega) with less | same
          · exact le_of_lt (firstWeek_lt less)
          · rw [same]
        have starts := inWeek.starts
        omega
      · exact same
      · have up : firstWeek rules (weekYear + 1) ≤ firstWeek rules (weekOfDays days rules).weekYear := by
          rcases lt_or_eq_of_le (show weekYear + 1 ≤ (weekOfDays days rules).weekYear by omega) with less | same
          · exact le_of_lt (firstWeek_lt less)
          · rw [same]
        have starts := inWeek.starts
        omega
    have weeks : (weekOfDays days rules).week = week := by
      change ((weekStart days rules.toWeekRules - firstWeek rules (weekOfDays days rules).weekYear : Int) : ℚ) / 7 + 1 = week
      rw [years, inWeek.start_eq, add_sub_cancel_left]
      push_cast
      ring
    rw [← years, ← weeks]
  · intro is
    have years : (weekOfDays days rules).weekYear = weekYear := by rw [is]
    have weeks : ((weekStart days rules.toWeekRules - firstWeek rules weekYear : Int) : ℚ) / 7 + 1 = week := by
      rw [← years]
      exact congrArg WeekInfo.week is
    rw [years] at spec
    have whole : weekStart days rules.toWeekRules - firstWeek rules weekYear = 7 * (week - 1) := by
      have scaled : ((weekStart days rules.toWeekRules - firstWeek rules weekYear : Int) : ℚ) = ((7 * (week - 1) : Int) : ℚ) := by
        push_cast at weeks ⊢
        linarith
      exact_mod_cast scaled
    exact ⟨by omega, by omega, spec⟩

theorem exists_week (days : Int) (rules : WeekNumbering) : ∃ week, InWeek rules days (weekOfDays days rules).weekYear week := by
  have start := weekStart_eq days rules.toWeekRules
  have first := (firstWeek_bounds rules (weekOfDays days rules).weekYear).1
  have spec := weekYear_spec days rules
  refine ⟨(weekStart days rules.toWeekRules - firstWeek rules (weekOfDays days rules).weekYear) / 7 + 1, ?_⟩
  have whole : (weekStart days rules.toWeekRules - firstWeek rules (weekOfDays days rules).weekYear) % 7 = 0 := by
    have same := start.1.trans first.symm
    unfold Calendar.weekday at same
    omega
  exact ⟨by omega, by omega, spec⟩

theorem isoWeekOf_eq (year month day : Int) : isoWeekOf year month day = weekOfDays (daysFromCivil year month day) ISO_WEEK := by
  generalize isDays : daysFromCivil year month day = days
  have bounds := Calendar.weekday_bounds days
  have thursday := year_bounds (days - Calendar.weekday days + 4)
  generalize isYear : (civilFromDays (days - Calendar.weekday days + 4)).year = weekYear at thursday
  have computed : isoWeekOf year month day = ⟨((days - Calendar.weekday days + 4 - daysBeforeYear weekYear) / 7 + 1 : Int), weekYear⟩ := by
    simp only [isoWeekOf, isDays, weekdayOfDays_eq, isYear, daysFromCivil_january weekYear (show 1 ≤ (1 : Int) ∧ (1 : Int) ≤ 7 by decide),
      Int.sub_self, Int.add_zero]
  have first := firstWeek_bounds ISO_WEEK weekYear
  have after := firstWeek_bounds ISO_WEEK (weekYear + 1)
  have start := weekStart_eq days ISO_WEEK.toWeekRules
  have monday : ISO_WEEK.startsOn = 1 := rfl
  have four : ISO_WEEK.minimalDays = 4 := rfl
  rw [computed]
  refine ((inWeek_iff days ISO_WEEK weekYear _).mp ?_).symm
  rw [monday, four] at first after
  rw [monday] at start
  unfold Calendar.weekday at *
  exact ⟨by omega, by omega, by omega⟩

end Weeks

/-- Day counts and dates are in one increasing correspondence, and weeks are numbered in one way. -/
theorem civil_days :
    (∀ days, IsDate (civilFromDays days) ∧
      daysFromCivil (civilFromDays days).year (civilFromDays days).month (civilFromDays days).day = days) ∧
    (∀ date, IsDate date → civilFromDays (daysFromCivil date.year date.month date.day) = date) ∧
    (∀ first second, IsDate first → IsDate second → Before first second →
      daysFromCivil first.year first.month first.day < daysFromCivil second.year second.month second.day) ∧
    (∀ days later, days < later → Before (civilFromDays days) (civilFromDays later)) ∧
    (∀ rules weekYear, Calendar.weekday (firstWeek rules weekYear) = rules.startsOn ∧
      firstWeek rules weekYear ≤ daysFromCivil weekYear 1 rules.minimalDays ∧
      daysFromCivil weekYear 1 rules.minimalDays < firstWeek rules weekYear + 7) ∧
    (∀ days rules, (∃ week : Int, InWeek rules days (weekOfDays days rules).weekYear week ∧ (weekOfDays days rules).week = week) ∧
      ∀ weekYear week, InWeek rules days weekYear week → weekOfDays days rules = ⟨week, weekYear⟩) ∧
    ∀ year month day, isoWeekOf year month day = weekOfDays (daysFromCivil year month day) ISO_WEEK := by
  refine ⟨fun days => ?_, fun date isDate => ?_, fun first second isFirst isSecond before => ?_, fun days later less => ?_,
    fun rules weekYear => weekStart_eq _ _, fun days rules => ⟨?_, ?_⟩, isoWeekOf_eq⟩
  · obtain ⟨date, is, number⟩ := civilFromDays_eq days
    rw [is]
    exact ⟨⟨date.isMonth, date.isDay⟩, (daysFromCivil_eq date).trans number⟩
  · obtain ⟨valid, is, number⟩ := isDate.ordinal
    rw [number, civilFromDays_ordinal, is]
  · obtain ⟨date, is, number⟩ := isFirst.ordinal
    obtain ⟨dateToo, isToo, numberToo⟩ := isSecond.ordinal
    rw [number, numberToo]
    exact ordinal_lt (is ▸ isToo ▸ before)
  · obtain ⟨date, is, number⟩ := civilFromDays_eq days
    obtain ⟨dateToo, isToo, numberToo⟩ := civilFromDays_eq later
    rw [is, isToo, before_iff, number, numberToo]
    exact less
  · obtain ⟨week, inWeek⟩ := exists_week days rules
    exact ⟨week, inWeek, congrArg WeekInfo.week ((inWeek_iff days rules _ week).mp inWeek)⟩
  · exact fun weekYear week => (inWeek_iff days rules weekYear week).mp

end Arki.Dates
