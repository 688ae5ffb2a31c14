import Arki.Library.Binary64
import Arki.Dates.Civil

/-! The fast paths of plain-date arithmetic, and what the ISO calendar answers.

Where a path answers `undefined`, here `none`, the caller asks Temporal itself.
-/

set_option autoImplicit false

namespace Arki.Dates

open Calendar (Date monthLength)

inductive CalendarUnit where
  | year
  | quarter
  | month
  | week
  | day
  deriving DecidableEq

inductive Overflow where
  | constrain
  | reject
  deriving DecidableEq

structure WeekRules where
  startsOn : Int
  isDay : 1 ≤ startsOn ∧ startsOn ≤ 7

/-- The numbers of the first and the last date that Temporal has, -271821-04-19 and +275760-09-13. -/
def firstOrdinal : Int := -100000001

def lastOrdinal : Int := 100000000

example : Date.ordinal ⟨-271821, 4, 19, by decide, by decide⟩ = firstOrdinal ∧
    Date.ordinal ⟨275760, 9, 13, by decide, by decide⟩ = lastOrdinal := by decide

structure PlainDate where
  calendarId : String
  date : Date
  inRange : firstOrdinal ≤ date.ordinal ∧ date.ordinal ≤ lastOrdinal

inductive Thrown where
  | rangeError
  deriving DecidableEq

/-- `new Temporal.PlainDate`. -/
def newPlainDate (year month day : Int) : Except Thrown PlainDate :=
  if valid : (1 ≤ month ∧ month ≤ 12) ∧ 1 ≤ day ∧ day ≤ monthLength year month then
    if inRange : firstOrdinal ≤ (Date.mk year month day valid.1 valid.2).ordinal ∧
        (Date.mk year month day valid.1 valid.2).ordinal ≤ lastOrdinal then
      .ok ⟨"iso8601", ⟨year, month, day, valid.1, valid.2⟩, inRange⟩
    else .error .rangeError
  else .error .rangeError

def weekStart (days : Int) (rules : WeekRules) : Int := days - (weekdayOfDays days - rules.startsOn + 7).tmod 7

def bucketStart (days : Int) (unit : CalendarUnit) (rules : WeekRules) : Int :=
  match unit with
  | .day => days
  | .week => weekStart days rules
  | .month => daysFromCivil (civilFromDays days).year (civilFromDays days).month 1
  | .quarter => daysFromCivil (civilFromDays days).year (((civilFromDays days).month - 1) / 3 * 3 + 1) 1
  | .year => daysFromCivil (civilFromDays days).year 1 1

def LIMIT_YEARS : Int := 270000

def LIMIT_DAYS : Int := 98000000

def isFastDate (value : PlainDate) : Bool := value.calendarId = "iso8601" && |value.date.year| ≤ LIMIT_YEARS

def plainDateOfDays (days : Int) : Except Thrown PlainDate :=
  newPlainDate (civilFromDays days).year (civilFromDays days).month (civilFromDays days).day

def startOfPlainDate (value : PlainDate) (unit : CalendarUnit) (rules : WeekRules) : Except Thrown (Option PlainDate) :=
  if !isFastDate value then .ok none
  else
    match unit with
    | .day => .ok (some value)
    | .week => some <$> plainDateOfDays (bucketStart (daysFromCivil value.date.year value.date.month value.date.day) .week rules)
    | .month => some <$> newPlainDate value.date.year value.date.month 1
    | .quarter => some <$> newPlainDate value.date.year ((value.date.month - 1) / 3 * 3 + 1) 1
    | .year => some <$> newPlainDate value.date.year 1 1

/-- The months that `daysInMonthOf` has no length for are none of a date's quarter: `NaN` is no day, and the constructor throws. -/
def newOfLength (year month : Int) : Except Thrown PlainDate :=
  match daysInMonthOf year month with
  | some length => newPlainDate year month length
  | none => .error .rangeError

def endOfPlainDate (value : PlainDate) (unit : CalendarUnit) (rules : WeekRules) : Except Thrown (Option PlainDate) :=
  if !isFastDate value then .ok none
  else
    match unit with
    | .day => .ok (some value)
    | .week => some <$> plainDateOfDays (bucketStart (daysFromCivil value.date.year value.date.month value.date.day) .week rules + 6)
    | .month => some <$> newOfLength value.date.year value.date.month
    | .quarter => some <$> newOfLength value.date.year ((value.date.month - 1) / 3 * 3 + 3)
    | .year => some <$> newPlainDate value.date.year 12 31

structure DurationFields where
  years : Option Int
  months : Option Int
  weeks : Option Int
  days : Option Int
  hours : Option Int
  minutes : Option Int
  seconds : Option Int
  milliseconds : Option Int
  microseconds : Option Int
  nanoseconds : Option Int

def DATE_FIELDS : List (DurationFields → Option Int) := [DurationFields.years, DurationFields.months, DurationFields.weeks, DurationFields.days]

def OTHER_FIELDS : List (DurationFields → Option Int) :=
  [DurationFields.hours, DurationFields.minutes, DurationFields.seconds, DurationFields.milliseconds, DurationFields.microseconds,
    DurationFields.nanoseconds]

def isSafeInteger (value : Int) : Bool := |value| ≤ 2 ^ 53 - 1

/-- The loop over the date fields: their sign, or `none` for amounts of two signs or beyond the safe integers. -/
def signOf (sign : Int) : List Int → Option Int
  | [] => some sign
  | fieldValue :: rest =>
    if !isSafeInteger fieldValue then none
    else if fieldValue.sign ≠ 0 then
      -- Temporal rejects mixed signs
      if sign ≠ 0 ∧ fieldValue.sign ≠ sign then none else signOf fieldValue.sign rest
    else signOf sign rest

/-- A whole number as a double. One that is too long is rounded, to another whole number. -/
def whole (number : Int) : Int := ⌊Double.round number⌋

def plus (a b : Int) : Int := whole (a + b)

def times (a b : Int) : Int := whole (a * b)

/-- `Math.floor(total / 12)`. -/
def twelfth (total : Int) : Int := ⌊Double.round ((total : ℚ) / 12)⌋

/-- The year, month and day after so many months, or `none` where a day is clamped that must not be. -/
def shiftMonths (date : Date) (months : Int) (overflow : Option Overflow) : Option (Int × Int × Int) :=
  if months ≠ 0 then
    let total := plus (plus (plus (times date.year 12) date.month) (-1)) months
    let year := twelfth total
    let month := plus (plus total (-times year 12)) 1
    match daysInMonthOf year month with
    | some length =>
      if length < date.day then if overflow = some .reject then none else some (year, month, length)
      else some (year, month, date.day)
    -- no day is greater than `NaN`
    | none => some (year, month, date.day)
  else some (date.year, date.month, date.day)

def addPlainDate (value : PlainDate) (amount : DurationFields) (overflow : Option Overflow) : Except Thrown (Option PlainDate) :=
  if OTHER_FIELDS.any fun field => (field amount).getD 0 ≠ 0 then .ok none
  else
    match signOf 0 (DATE_FIELDS.map fun field => (field amount).getD 0) with
    | none => .ok none
    | some _ =>
      if !isFastDate value then .ok none
      else
        let months := plus (times (amount.years.getD 0) 12) (amount.months.getD 0)
        match shiftMonths value.date months overflow with
        | none => .ok none
        | some (year, month, day) =>
          if LIMIT_YEARS < |year| then .ok none
          else
            let days := plus (times (amount.weeks.getD 0) 7) (amount.days.getD 0)
            if days = 0 then some <$> newPlainDate year month day
            else
              let target := plus (daysFromCivil year month day) days
              if |target| ≤ LIMIT_DAYS then some <$> plainDateOfDays target else .ok none

theorem whole_cases (number : Int) : whole number = number ∧ |number| < 2 ^ 53 ∨
    2 ^ 53 ≤ number ∧ 2 ^ 53 ≤ whole number ∨ number ≤ -2 ^ 53 ∧ whole number ≤ -2 ^ 53 := by
  rcases lt_or_ge |number| (2 ^ 53) with small | large
  · refine .inl ⟨?_, small⟩
    rw [whole, Double.round_int small, Int.floor_intCast]
  · have far := Double.large_round large
    rcases le_abs.mp large with isPos | isNeg
    · have nonneg : (0 : ℚ) ≤ number := by exact_mod_cast (by omega : (0 : Int) ≤ number)
      rw [abs_of_nonneg (Double.round_nonneg nonneg)] at far
      exact .inr (.inl ⟨isPos, Int.le_floor.mpr (by exact_mod_cast far)⟩)
    · have negative : (number : ℚ) < 0 := by exact_mod_cast (by omega : number < 0)
      have below : Double.round number < 0 := (Double.round_le negative).trans_lt (neg_neg_of_pos (zpow_pos (by norm_num) _))
      rw [abs_of_neg below] at far
      refine .inr (.inr ⟨by omega, ?_⟩)
      have floor : (⌊Double.round (number : ℚ)⌋ : ℚ) ≤ -2 ^ 53 := (Int.floor_le _).trans (by linarith)
      exact_mod_cast floor

theorem round_near {x : ℚ} {k : ℤ} (small : |x| < 2 ^ (k + 53)) : |x - Double.round x| ≤ 2 ^ k / 2 := by
  by_cases isZero : x = 0
  · rw [isZero, Double.round_zero, sub_zero, abs_zero]
    exact div_nonneg (zpow_pos (by norm_num) _).le (by norm_num)
  have log : Int.log 2 |x| - 52 ≤ k := by
    have under := (Int.lt_zpow_iff_log_lt one_lt_two (abs_pos.mpr isZero)).mp (by exact_mod_cast small)
    omega
  have ulp : Double.ulp x ≤ 2 ^ k := zpow_le_zpow_right₀ one_le_two log
  have near := (nearest_near (x / Double.ulp x)).1
  have scaled : |x - Double.round x| = |x / Double.ulp x - nearest (x / Double.ulp x)| * Double.ulp x := by
    rw [← abs_of_pos (Double.ulp_pos x), ← abs_mul, abs_of_pos (Double.ulp_pos x), sub_mul, div_mul_cancel₀ _ (Double.ulp_pos x).ne', Double.round]
  rw [scaled]
  have up := mul_le_mul near ulp (Double.ulp_pos x).le (by norm_num)
  linarith

theorem twelfth_near {total : Int} (small : |total| < 2 ^ 40) : twelfth total = total / 12 := by
  have size : |(total : ℚ) / 12| < 2 ^ ((-13 : ℤ) + 53) := by
    rw [abs_div, abs_of_pos (by norm_num : (0 : ℚ) < 12), div_lt_iff₀ (by norm_num)]
    have bound : |(total : ℚ)| < 2 ^ 40 := by exact_mod_cast small
    norm_num at bound ⊢
    linarith
  have near := abs_le.mp (round_near size)
  norm_num at near
  rw [twelfth, Int.floor_eq_iff]
  have rest := Int.mul_ediv_add_emod total 12
  have low : (0 : ℚ) ≤ (total % 12 : Int) := by exact_mod_cast Int.emod_nonneg total (by decide)
  have high : ((total % 12 : Int) : ℚ) ≤ 11 := by exact_mod_cast (by omega : total % 12 ≤ 11)
  have quotient : (total : ℚ) / 12 = (total / 12 : Int) + ((total % 12 : Int) : ℚ) / 12 := by
    have cast : (12 : ℚ) * (total / 12 : Int) + (total % 12 : Int) = total := by exact_mod_cast rest
    rw [← cast]
    ring
  by_cases exact_ : total % 12 = 0
  · have same : Double.round ((total : ℚ) / 12) = (total / 12 : Int) := by
      rw [quotient, exact_, Int.cast_zero, zero_div, add_zero]
      exact Double.round_int (by rw [abs_lt] at small ⊢; omega)
    rw [same]
    exact ⟨le_refl _, lt_add_one _⟩
  · have positive : (1 : ℚ) ≤ (total % 12 : Int) := by exact_mod_cast (by omega : 1 ≤ total % 12)
    rw [quotient] at near ⊢
    constructor <;> linarith

theorem twelfth_far {total : Int} (large : 2 ^ 40 ≤ |total|) : LIMIT_YEARS < twelfth total ∨ twelfth total < -LIMIT_YEARS := by
  have bound {x : ℚ} (far : 2 ^ 36 ≤ x) : (2 : ℚ) ^ 36 ≤ 2 ^ Int.log 2 x := by
    have positive : 0 < x := lt_of_lt_of_le (by norm_num) far
    have size : (36 : ℤ) ≤ Int.log 2 x := (Int.zpow_le_iff_le_log one_lt_two positive).mp (by exact_mod_cast far)
    exact_mod_cast zpow_le_zpow_right₀ (one_le_two (α := ℚ)) size
  rcases le_abs.mp large with isPos | isNeg
  · left
    have far : (2 : ℚ) ^ 36 ≤ (total : ℚ) / 12 := by
      have cast : (2 : ℚ) ^ 40 ≤ total := by exact_mod_cast isPos
      rw [le_div_iff₀ (by norm_num)]
      norm_num at cast ⊢
      linarith
    have up := (bound far).trans (Double.le_round (lt_of_lt_of_le (by norm_num) far))
    exact lt_of_lt_of_le (by decide) (Int.le_floor.mpr (by exact_mod_cast up) : (2 ^ 36 : Int) ≤ twelfth total)
  · right
    have far : (2 : ℚ) ^ 36 ≤ -((total : ℚ) / 12) := by
      have cast : (2 : ℚ) ^ 40 ≤ -(total : ℚ) := by exact_mod_cast isNeg
      rw [← neg_div, le_div_iff₀ (by norm_num)]
      norm_num at cast ⊢
      linarith
    have down := Double.round_le (neg_pos.mp (lt_of_lt_of_le (by norm_num) far))
    have up := bound far
    have floor : (twelfth total : ℚ) ≤ -2 ^ 36 := (Int.floor_le _).trans (by linarith)
    exact lt_of_le_of_lt (by exact_mod_cast floor : twelfth total ≤ -2 ^ 36) (by decide)

/-- Amounts of one sign: their sum is exact, or too far from zero whatever was rounded. -/
theorem amount_cases {factor : Int} (count rest : Int) (isFactor : factor = 7 ∨ factor = 12)
    (oneSign : 0 ≤ count ∧ 0 ≤ rest ∨ count ≤ 0 ∧ rest ≤ 0) :
    plus (times count factor) rest = factor * count + rest ∨ 2 ^ 53 ≤ |plus (times count factor) rest| := by
  have product := whole_cases (count * factor)
  have sum := whole_cases (times count factor + rest)
  rw [show whole (count * factor) = times count factor from rfl] at product
  rw [show whole (times count factor + rest) = plus (times count factor) rest from rfl] at sum
  rw [le_abs]
  rcases isFactor with rfl | rfl <;> rcases oneSign with up | down <;> omega

theorem signOf_ok {sign last : Int} {fields : List Int} (is : signOf sign fields = some last) :
    (∀ value ∈ fields, 0 ≤ value) ∧ 0 ≤ sign ∨ (∀ value ∈ fields, value ≤ 0) ∧ sign ≤ 0 := by
  induction fields generalizing sign with
  | nil =>
    rcases le_total 0 sign with up | down
    · exact .inl ⟨nofun, up⟩
    · exact .inr ⟨nofun, down⟩
  | cons value rest ih =>
    rw [signOf] at is
    split at is
    · cases is
    split at is
    · next notZero =>
      split at is
      · cases is
      · next agree =>
        rcases ih is with ⟨all, up⟩ | ⟨all, down⟩
        · have isUp : 0 ≤ value := Int.sign_nonneg_iff.mp up
          exact .inl ⟨List.forall_mem_cons.mpr ⟨isUp, all⟩, by omega⟩
        · have isDown : value ≤ 0 := Int.sign_nonpos_iff.mp down
          exact .inr ⟨List.forall_mem_cons.mpr ⟨isDown, all⟩, by omega⟩
    · next isZero =>
      rw [ne_eq, not_not, Int.sign_eq_zero_iff_zero] at isZero
      rcases ih is with ⟨all, up⟩ | ⟨all, down⟩
      · exact .inl ⟨List.forall_mem_cons.mpr ⟨isZero.ge, all⟩, up⟩
      · exact .inr ⟨List.forall_mem_cons.mpr ⟨isZero.le, all⟩, down⟩

/-- The months lead out of the years of the fast path, or to the month that the calendar names. -/
theorem shiftMonths_some {date : Date} (near : |date.year| ≤ LIMIT_YEARS) {months : Int} {overflow : Option Overflow} {year month day : Int}
    (is : shiftMonths date months overflow = some (year, month, day)) (limit : ¬ LIMIT_YEARS < |year|) :
    |months| < 2 ^ 41 ∧ year = (date.year * 12 + date.month - 1 + months) / 12 ∧ month = (date.year * 12 + date.month - 1 + months) % 12 + 1 ∧
      day = min date.day (monthLength year month) ∧ (overflow = some .reject → date.day ≤ monthLength year month) := by
  have isMonth := date.isMonth
  have isDay := date.isDay
  unfold shiftMonths at is
  split at is
  · next shifted =>
    rw [abs_le] at near
    have product := whole_cases (date.year * 12)
    have second := whole_cases (date.year * 12 + date.month)
    have third := whole_cases (date.year * 12 + date.month + -1)
    have base : plus (plus (times date.year 12) date.month) (-1) = date.year * 12 + date.month - 1 := by
      unfold LIMIT_YEARS at near
      have inner : times date.year 12 = date.year * 12 := by unfold times; omega
      have outer : plus (date.year * 12) date.month = date.year * 12 + date.month := by unfold plus; omega
      rw [inner, outer, plus]
      omega
    dsimp only at is
    rw [base] at is
    have fourth := whole_cases (date.year * 12 + date.month - 1 + months)
    rw [show whole (date.year * 12 + date.month - 1 + months) = plus (date.year * 12 + date.month - 1) months from rfl] at fourth
    generalize plus (date.year * 12 + date.month - 1) months = total at is fourth
    rcases lt_or_ge |total| (2 ^ 40) with close | far
    · rw [abs_lt] at close
      have exact_ : total = date.year * 12 + date.month - 1 + months := by omega
      have isYear := twelfth_near (abs_lt.mpr close)
      have back := whole_cases (total / 12 * 12)
      have left := whole_cases (total + -(total / 12 * 12))
      have following := whole_cases (total - total / 12 * 12 + 1)
      have isMonth_ : plus (plus total (-times (total / 12) 12)) 1 = total % 12 + 1 := by
        have inner : times (total / 12) 12 = total / 12 * 12 := by unfold times; omega
        have outer : plus total (-(total / 12 * 12)) = total - total / 12 * 12 := by unfold plus; omega
        rw [inner, outer, plus]
        omega
      rw [isYear, isMonth_, daysInMonthOf_eq _ (by omega)] at is
      dsimp only at is
      have short : |months| < 2 ^ 41 := by
        unfold LIMIT_YEARS at near
        rw [abs_lt]
        omega
      rw [← exact_]
      split at is
      · next clamped =>
        split at is
        · cases is
        · next constrains =>
          simp only [Option.some.injEq, Prod.mk.injEq] at is
          obtain ⟨rfl, rfl, rfl⟩ := is
          exact ⟨short, rfl, rfl, (min_eq_right (le_of_lt clamped)).symm, fun rejects => absurd rejects constrains⟩
      · next fits =>
        simp only [Option.some.injEq, Prod.mk.injEq] at is
        obtain ⟨rfl, rfl, rfl⟩ := is
        exact ⟨short, rfl, rfl, (min_eq_left (not_lt.mp fits)).symm, fun _ => not_lt.mp fits⟩
    · have isYear : year = twelfth total := by
        split at is
        · split at is
          · split at is
            · cases is
            · simp only [Option.some.injEq, Prod.mk.injEq] at is
              exact is.1.symm
          · simp only [Option.some.injEq, Prod.mk.injEq] at is
            exact is.1.symm
        · simp only [Option.some.injEq, Prod.mk.injEq] at is
          exact is.1.symm
      have out := twelfth_far far
      rw [← isYear] at out
      rw [lt_abs] at limit
      omega
  · next none_ =>
    rw [ne_eq, not_not] at none_
    simp only [Option.some.injEq, Prod.mk.injEq] at is
    obtain ⟨rfl, rfl, rfl⟩ := is
    refine ⟨by rw [none_]; decide, by omega, by omega, (min_eq_left isDay.2).symm, fun _ => isDay.2⟩

theorem newPlainDate_ok (date : Date) (inRange : firstOrdinal ≤ date.ordinal ∧ date.ordinal ≤ lastOrdinal) :
    newPlainDate date.year date.month date.day = .ok ⟨"iso8601", date, inRange⟩ := by
  unfold newPlainDate
  rw [dif_pos ⟨date.isMonth, date.isDay⟩, dif_pos inRange]

theorem plainDateOfDays_ok (days : Int) (inRange : firstOrdinal ≤ days ∧ days ≤ lastOrdinal) :
    ∃ result : PlainDate, plainDateOfDays days = .ok result ∧ result.calendarId = "iso8601" ∧ result.date.ordinal = days := by
  obtain ⟨date, is, number⟩ := civilFromDays_eq days
  rw [← number] at inRange
  refine ⟨⟨"iso8601", date, inRange⟩, ?_, rfl, number⟩
  rw [plainDateOfDays, is]
  exact newPlainDate_ok date inRange

theorem near_ordinal (date : Date) (near : |date.year| ≤ LIMIT_YEARS) : -99400000 ≤ date.ordinal ∧ date.ordinal ≤ 98650000 := by
  have bounds := date.ordinal_bounds
  unfold Calendar.daysBeforeYear at bounds
  rw [abs_le] at near
  unfold LIMIT_YEARS at near
  omega

theorem isFastDate_iff {value : PlainDate} : isFastDate value = true ↔ value.calendarId = "iso8601" ∧ |value.date.year| ≤ LIMIT_YEARS := by
  simp [isFastDate]

structure IsValidDuration (years months weeks days : Int) : Prop where
  oneSign : 0 ≤ years ∧ 0 ≤ months ∧ 0 ≤ weeks ∧ 0 ≤ days ∨ years ≤ 0 ∧ months ≤ 0 ∧ weeks ≤ 0 ∧ days ≤ 0
  short : |years| < 2 ^ 32 ∧ |months| < 2 ^ 32 ∧ |weeks| < 2 ^ 32 ∧ |days| * 86400 < 2 ^ 53

/-- The date that Temporal's ISO calendar answers: years and months are balanced first, the day is clamped to the month it falls in, and
weeks and days are counted from there.
-/
structure IsoAdds (date : Date) (years months weeks days : Int) (overflow : Option Overflow) (result : Date) : Prop where
  valid : IsValidDuration years months weeks days
  counted : ∃ shifted : Date, shifted.year = date.year + years + (date.month - 1 + months) / 12 ∧
    shifted.month = (date.month - 1 + months) % 12 + 1 ∧ shifted.day = min date.day (monthLength shifted.year shifted.month) ∧
    (overflow = some .reject → date.day ≤ monthLength shifted.year shifted.month) ∧ result.ordinal = shifted.ordinal + (weeks * 7 + days)
  inRange : firstOrdinal ≤ result.ordinal ∧ result.ordinal ≤ lastOrdinal

theorem addPlainDate_cases (value : PlainDate) (amount : DurationFields) (overflow : Option Overflow) :
    addPlainDate value amount overflow = .ok none ∨ ∃ result, addPlainDate value amount overflow = .ok (some result) ∧
      (value.calendarId = "iso8601" ∧ result.calendarId = "iso8601") ∧ (∀ field ∈ OTHER_FIELDS, (field amount).getD 0 = 0) ∧
      IsoAdds value.date (amount.years.getD 0) (amount.months.getD 0) (amount.weeks.getD 0) (amount.days.getD 0) overflow result.date := by
  unfold addPlainDate
  split
  · exact .inl rfl
  next timeless =>
  rw [List.any_eq_true] at timeless
  have noTime : ∀ field ∈ OTHER_FIELDS, (field amount).getD 0 = 0 := by
    intro field member
    by_contra some_
    exact timeless ⟨field, member, by simpa using some_⟩
  split
  · exact .inl rfl
  next last oneSign =>
  split
  · exact .inl rfl
  next fast =>
  rw [Bool.not_eq_true', Bool.not_eq_false, isFastDate_iff] at fast
  dsimp only
  have signs := signOf_ok oneSign
  simp only [DATE_FIELDS, List.map_cons, List.map_nil, List.forall_mem_cons] at signs
  generalize amount.years.getD 0 = years, amount.months.getD 0 = months, amount.weeks.getD 0 = weeks, amount.days.getD 0 = days at *
  have sameSign : 0 ≤ years ∧ 0 ≤ months ∧ 0 ≤ weeks ∧ 0 ≤ days ∨ years ≤ 0 ∧ months ≤ 0 ∧ weeks ≤ 0 ∧ days ≤ 0 := by
    rcases signs with ⟨⟨first, second, third, fourth, -⟩, -⟩ | ⟨⟨first, second, third, fourth, -⟩, -⟩
    · exact .inl ⟨first, second, third, fourth⟩
    · exact .inr ⟨first, second, third, fourth⟩
  have monthly := amount_cases years months (.inr rfl) (by omega)
  have daily := amount_cases weeks days (.inl rfl) (by omega)
  generalize plus (times years 12) months = allMonths at *
  generalize plus (times weeks 7) days = allDays at *
  cases moved : shiftMonths value.date allMonths overflow with
  | none => exact .inl rfl
  | some found =>
    obtain ⟨year, month, day⟩ := found
    dsimp only
    split
    · exact .inl rfl
    next limit =>
    obtain ⟨small, isYear, isMonth, isDay, rejects⟩ := shiftMonths_some fast.2 moved limit
    have nearYear : |year| ≤ LIMIT_YEARS := not_lt.mp limit
    have long := Calendar.monthLength_bounds year month
    have ownDay := value.date.isDay
    let shifted : Date := ⟨year, month, day, by omega, by omega⟩
    have bounds := near_ordinal shifted nearYear
    have number : daysFromCivil year month day = shifted.ordinal := daysFromCivil_eq shifted
    have nearValue := fast.2
    rw [abs_le] at nearYear nearValue
    rw [abs_lt] at small
    unfold LIMIT_YEARS at nearYear nearValue
    have exactMonths : allMonths = 12 * years + months := by
      rcases monthly with is | far
      · exact is
      · rw [le_abs] at far
        omega
    have ownMonth := value.date.isMonth
    have sized : |years| < 2 ^ 32 ∧ |months| < 2 ^ 32 := by
      rw [abs_lt, abs_lt]
      omega
    have counted {ordinal : Int} (is : ordinal = shifted.ordinal + (weeks * 7 + days)) : ∃ shifted : Date,
        shifted.year = value.date.year + years + (value.date.month - 1 + months) / 12 ∧
        shifted.month = (value.date.month - 1 + months) % 12 + 1 ∧ shifted.day = min value.date.day (monthLength shifted.year shifted.month) ∧
        (overflow = some .reject → value.date.day ≤ monthLength shifted.year shifted.month) ∧ ordinal = shifted.ordinal + (weeks * 7 + days) :=
      ⟨shifted, by show year = _; omega, by show month = _; omega, isDay, rejects, is⟩
    split
    · next noDays =>
      have exactDays : weeks = 0 ∧ days = 0 := by
        rcases daily with is | far
        · omega
        · rw [noDays] at far
          exact absurd far (by decide)
      have inRange : firstOrdinal ≤ shifted.ordinal ∧ shifted.ordinal ≤ lastOrdinal := by
        unfold firstOrdinal lastOrdinal
        omega
      refine .inr ⟨⟨"iso8601", shifted, inRange⟩, ?_, ⟨fast.1, rfl⟩, noTime, ⟨sameSign, sized.1, sized.2, ?_⟩, counted ?_, inRange⟩
      · exact congrArg (some <$> ·) (newPlainDate_ok shifted inRange)
      · rw [exactDays.1, exactDays.2]
        decide
      · rw [exactDays.1, exactDays.2]
        exact (Int.add_zero _).symm
    · have sum := whole_cases (shifted.ordinal + allDays)
      rw [number]
      split
      · next within =>
        rw [abs_le] at within
        unfold LIMIT_DAYS plus at within
        have exactTarget : plus shifted.ordinal allDays = shifted.ordinal + allDays := by
          unfold plus
          omega
        have exactDays : allDays = 7 * weeks + days := by
          rcases daily with is | far
          · exact is
          · rw [le_abs] at far
            omega
        obtain ⟨result, made, iso, is⟩ := plainDateOfDays_ok (plus shifted.ordinal allDays)
          (by unfold firstOrdinal lastOrdinal; omega)
        refine .inr ⟨result, congrArg (some <$> ·) made, ⟨fast.1, iso⟩, noTime, ⟨sameSign, sized.1, sized.2, ?_⟩, counted ?_, result.inRange⟩
        · rw [abs_lt]
          have size : |days| < 2 ^ 32 := by
            rw [abs_lt]
            omega
          omega
        · rw [is, exactTarget, exactDays]
          omega
      · exact .inl rfl

/-- Two dates of one day, week, month, quarter or year. A week is seven days from one that weeks start on. -/
def SamePeriod (unit : CalendarUnit) (rules : WeekRules) (first second : Date) : Prop :=
  match unit with
  | .day => first = second
  | .week => ∃ start : Int, Calendar.weekday start = rules.startsOn ∧ (start ≤ first.ordinal ∧ first.ordinal < start + 7) ∧
      start ≤ second.ordinal ∧ second.ordinal < start + 7
  | .month => first.year = second.year ∧ first.month = second.month
  | .quarter => first.year = second.year ∧ (first.month - 1) / 3 = (second.month - 1) / 3
  | .year => first.year = second.year

def IsFirstDay (unit : CalendarUnit) (rules : WeekRules) (date first : Date) : Prop :=
  SamePeriod unit rules first date ∧ ∀ other, SamePeriod unit rules other date → first.ordinal ≤ other.ordinal

def IsLastDay (unit : CalendarUnit) (rules : WeekRules) (date last : Date) : Prop :=
  SamePeriod unit rules last date ∧ ∀ other, SamePeriod unit rules other date → other.ordinal ≤ last.ordinal

theorem weekStart_eq (days : Int) (rules : WeekRules) :
    Calendar.weekday (weekStart days rules) = rules.startsOn ∧ weekStart days rules ≤ days ∧ days < weekStart days rules + 7 := by
  have bounds := Calendar.weekday_bounds days
  have start := rules.isDay
  rw [weekStart, weekdayOfDays_eq, Int.tmod_eq_emod_of_nonneg (by omega)]
  unfold Calendar.weekday at *
  omega

theorem week_unique {rules : WeekRules} {first second day : Int} (left : Calendar.weekday first = rules.startsOn)
    (right : Calendar.weekday second = rules.startsOn) (inFirst : first ≤ day ∧ day < first + 7) (inSecond : second ≤ day ∧ day < second + 7) :
    first = second := by
  unfold Calendar.weekday at left right
  omega

theorem ordinal_mono {first second : Date} (years : first.year = second.year)
    (order : first.month < second.month ∨ first.month = second.month ∧ first.day ≤ second.day) : first.ordinal ≤ second.ordinal := by
  have short := first.isDay
  have up := second.isDay
  rcases order with before | ⟨months, days⟩
  · have whole_ := Calendar.daysBeforeMonth_le first.year first.isMonth.1 before second.isMonth.2
    unfold Date.ordinal
    rw [years] at short whole_ ⊢
    omega
  · unfold Date.ordinal
    rw [years, months]
    omega

theorem startOfPlainDate_cases (value : PlainDate) (unit : CalendarUnit) (rules : WeekRules) :
    startOfPlainDate value unit rules = .ok none ∨ ∃ result, startOfPlainDate value unit rules = .ok (some result) ∧
      (value.calendarId = "iso8601" ∧ result.calendarId = "iso8601") ∧ IsFirstDay unit rules value.date result.date := by
  unfold startOfPlainDate
  split
  · exact .inl rfl
  next fast =>
  rw [Bool.not_eq_true', Bool.not_eq_false, isFastDate_iff] at fast
  have bounds := near_ordinal _ fast.2
  have range {date : Date} (same : date.year = value.date.year) : firstOrdinal ≤ date.ordinal ∧ date.ordinal ≤ lastOrdinal := by
    have near := near_ordinal date (same ▸ fast.2)
    unfold firstOrdinal lastOrdinal
    omega
  have isMonth := value.date.isMonth
  have isDay := value.date.isDay
  right
  cases unit with
  | day => exact ⟨value, rfl, ⟨fast.1, fast.1⟩, rfl, fun other same => (congrArg Date.ordinal same.symm).le⟩
  | week =>
    obtain ⟨first, low, high⟩ := weekStart_eq value.date.ordinal rules
    obtain ⟨result, made, iso, is⟩ := plainDateOfDays_ok (weekStart value.date.ordinal rules)
      (by unfold firstOrdinal lastOrdinal; omega)
    dsimp only [bucketStart]
    rw [daysFromCivil_eq, made]
    refine ⟨result, rfl, ⟨fast.1, iso⟩, ⟨_, first, by omega, low, high⟩, ?_⟩
    rintro other ⟨start, starts, inOther, inValue⟩
    rw [is, week_unique first starts ⟨low, high⟩ inValue]
    exact inOther.1
  | month =>
    let date : Date := ⟨value.date.year, value.date.month, 1, isMonth, by have long := Calendar.monthLength_bounds value.date.year value.date.month; omega⟩
    refine ⟨⟨"iso8601", date, range rfl⟩, congrArg (some <$> ·) (newPlainDate_ok date _), ⟨fast.1, rfl⟩, ⟨rfl, rfl⟩, fun other same => ?_⟩
    exact ordinal_mono same.1.symm (.inr ⟨same.2.symm, other.isDay.1⟩)
  | quarter =>
    let date : Date := ⟨value.date.year, (value.date.month - 1) / 3 * 3 + 1, 1, by omega,
      by have long := Calendar.monthLength_bounds value.date.year ((value.date.month - 1) / 3 * 3 + 1); omega⟩
    refine ⟨⟨"iso8601", date, range rfl⟩, congrArg (some <$> ·) (newPlainDate_ok date _), ⟨fast.1, rfl⟩, ⟨rfl, ?_⟩, fun other same => ?_⟩
    · show ((value.date.month - 1) / 3 * 3 + 1 - 1) / 3 = _
      omega
    · have low := other.isDay.1
      have quarters := same.2
      refine ordinal_mono same.1.symm ?_
      show (value.date.month - 1) / 3 * 3 + 1 < other.month ∨ (value.date.month - 1) / 3 * 3 + 1 = other.month ∧ 1 ≤ other.day
      omega
  | year =>
    let date : Date := ⟨value.date.year, 1, 1, by decide, by have long := Calendar.monthLength_bounds value.date.year 1; omega⟩
    refine ⟨⟨"iso8601", date, range rfl⟩, congrArg (some <$> ·) (newPlainDate_ok date _), ⟨fast.1, rfl⟩, rfl, fun other same => ?_⟩
    have low := other.isDay.1
    have first := other.isMonth.1
    refine ordinal_mono (Eq.symm same) ?_
    show 1 < other.month ∨ 1 = other.month ∧ 1 ≤ other.day
    omega

theorem newOfLength_ok (date : Date) (last : date.day = monthLength date.year date.month)
    (inRange : firstOrdinal ≤ date.ordinal ∧ date.ordinal ≤ lastOrdinal) :
    newOfLength date.year date.month = .ok ⟨"iso8601", date, inRange⟩ := by
  rw [newOfLength, daysInMonthOf_eq date.year date.isMonth]
  dsimp only
  rw [← last]
  exact newPlainDate_ok date inRange

theorem endOfPlainDate_cases (value : PlainDate) (unit : CalendarUnit) (rules : WeekRules) :
    endOfPlainDate value unit rules = .ok none ∨ ∃ result, endOfPlainDate value unit rules = .ok (some result) ∧
      (value.calendarId = "iso8601" ∧ result.calendarId = "iso8601") ∧ IsLastDay unit rules value.date result.date := by
  unfold endOfPlainDate
  split
  · exact .inl rfl
  next fast =>
  rw [Bool.not_eq_true', Bool.not_eq_false, isFastDate_iff] at fast
  have bounds := near_ordinal _ fast.2
  have range {date : Date} (same : date.year = value.date.year) : firstOrdinal ≤ date.ordinal ∧ date.ordinal ≤ lastOrdinal := by
    have near := near_ordinal date (same ▸ fast.2)
    unfold firstOrdinal lastOrdinal
    omega
  have isMonth := value.date.isMonth
  have isDay := value.date.isDay
  right
  cases unit with
  | day => exact ⟨value, rfl, ⟨fast.1, fast.1⟩, rfl, fun other same => (congrArg Date.ordinal same).le⟩
  | week =>
    obtain ⟨first, low, high⟩ := weekStart_eq value.date.ordinal rules
    obtain ⟨result, made, iso, is⟩ := plainDateOfDays_ok (weekStart value.date.ordinal rules + 6)
      (by unfold firstOrdinal lastOrdinal; omega)
    dsimp only [bucketStart]
    rw [daysFromCivil_eq, made]
    refine ⟨result, rfl, ⟨fast.1, iso⟩, ⟨_, first, by omega, low, high⟩, ?_⟩
    rintro other ⟨start, starts, inOther, inValue⟩
    rw [is, week_unique first starts ⟨low, high⟩ inValue]
    omega
  | month =>
    have long := Calendar.monthLength_bounds value.date.year value.date.month
    let date : Date := ⟨value.date.year, value.date.month, monthLength value.date.year value.date.month, isMonth, by omega⟩
    refine ⟨⟨"iso8601", date, range rfl⟩, congrArg (some <$> ·) (newOfLength_ok date rfl _), ⟨fast.1, rfl⟩, ⟨rfl, rfl⟩, fun other same => ?_⟩
    refine ordinal_mono same.1 (.inr ⟨same.2, ?_⟩)
    have high := other.isDay.2
    rwa [same.1, same.2] at high
  | quarter =>
    have long := Calendar.monthLength_bounds value.date.year ((value.date.month - 1) / 3 * 3 + 3)
    let date : Date := ⟨value.date.year, (value.date.month - 1) / 3 * 3 + 3, monthLength value.date.year ((value.date.month - 1) / 3 * 3 + 3),
      by omega, by omega⟩
    refine ⟨⟨"iso8601", date, range rfl⟩, congrArg (some <$> ·) (newOfLength_ok date rfl _), ⟨fast.1, rfl⟩, ⟨rfl, ?_⟩, fun other same => ?_⟩
    · show ((value.date.month - 1) / 3 * 3 + 3 - 1) / 3 = _
      omega
    · have quarters := same.2
      have high := other.isDay.2
      refine ordinal_mono same.1 ?_
      show other.month < (value.date.month - 1) / 3 * 3 + 3 ∨ other.month = (value.date.month - 1) / 3 * 3 + 3 ∧
        other.day ≤ monthLength value.date.year ((value.date.month - 1) / 3 * 3 + 3)
      by_cases last : other.month = (value.date.month - 1) / 3 * 3 + 3
      · rw [same.1, last] at high
        exact .inr ⟨last, high⟩
      · omega
  | year =>
    let date : Date := ⟨value.date.year, 12, 31, by decide, by exact ⟨by decide, le_refl _⟩⟩
    refine ⟨⟨"iso8601", date, range rfl⟩, congrArg (some <$> ·) (newPlainDate_ok date _), ⟨fast.1, rfl⟩, rfl, fun other same => ?_⟩
    have high := other.isDay.2
    have long := Calendar.monthLength_bounds other.year other.month
    have last := other.isMonth.2
    refine ordinal_mono same ?_
    show other.month < 12 ∨ other.month = 12 ∧ other.day ≤ 31
    omega

/-- Whatever a fast path answers is the ISO calendar's date, and none of them throws. -/
theorem plain_dates_agree (value : PlainDate) (amount : DurationFields) (overflow : Option Overflow) (unit : CalendarUnit) (rules : WeekRules) :
    (∀ result, addPlainDate value amount overflow = .ok (some result) →
      (value.calendarId = "iso8601" ∧ result.calendarId = "iso8601") ∧ (∀ field ∈ OTHER_FIELDS, (field amount).getD 0 = 0) ∧
        IsoAdds value.date (amount.years.getD 0) (amount.months.getD 0) (amount.weeks.getD 0) (amount.days.getD 0) overflow result.date) ∧
    (∀ result, startOfPlainDate value unit rules = .ok (some result) →
      (value.calendarId = "iso8601" ∧ result.calendarId = "iso8601") ∧ IsFirstDay unit rules value.date result.date) ∧
    (∀ result, endOfPlainDate value unit rules = .ok (some result) →
      (value.calendarId = "iso8601" ∧ result.calendarId = "iso8601") ∧ IsLastDay unit rules value.date result.date) ∧
    ∀ thrown, addPlainDate value amount overflow ≠ .error thrown ∧ startOfPlainDate value unit rules ≠ .error thrown ∧
      endOfPlainDate value unit rules ≠ .error thrown := by
  have answered {outcome : Except Thrown (Option PlainDate)} {holds : PlainDate → Prop}
      (cases_ : outcome = .ok none ∨ ∃ result, outcome = .ok (some result) ∧ holds result) :
      (∀ result, outcome = .ok (some result) → holds result) ∧ ∀ thrown, outcome ≠ .error thrown := by
    rcases cases_ with rfl | ⟨found, rfl, is⟩
    · exact ⟨nofun, nofun⟩
    · exact ⟨fun result same => by cases same; exact is, nofun⟩
  have adds := answered (addPlainDate_cases value amount overflow)
  have starts := answered (startOfPlainDate_cases value unit rules)
  have ends := answered (endOfPlainDate_cases value unit rules)
  exact ⟨adds.1, starts.1, ends.1, fun thrown => ⟨adds.2 thrown, starts.2 thrown, ends.2 thrown⟩⟩

end Arki.Dates
