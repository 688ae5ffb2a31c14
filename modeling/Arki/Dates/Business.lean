import Arki.Dates.PlainDate
import Arki.Library.Counting

/-! Business days: calendars of weekends and holidays, the walk over them, and their count.

The plain dates here are those of the ISO calendar.
-/

set_option autoImplicit false

namespace Arki.Dates

open Calendar (Date)

structure IsoDate where
  date : Date
  inRange : firstOrdinal ≤ date.ordinal ∧ date.ordinal ≤ lastOrdinal

/-- `holidays` holds the texts `YYYY-MM-DD` of dates, here as their years, months and days. -/
structure BusinessCalendar where
  weekend : List Int
  holidays : List CivilDate

structure BusinessCalendarOptions where
  weekend : Option (List Int)
  holidays : List IsoDate

def isWeekdayNumber (value : Int) : Bool := 1 ≤ value && value ≤ 7

def dateKey (value : IsoDate) : CivilDate := ⟨value.date.year, value.date.month, value.date.day⟩

def businessCalendar (options : BusinessCalendarOptions) : Except Thrown BusinessCalendar :=
  let requested := options.weekend.getD [6, 7]
  let weekend := requested.dedup.mergeSort fun a b => a - b ≤ 0
  if weekend.any fun day => !isWeekdayNumber day then .error .rangeError
  else if weekend.length = 7 then .error .rangeError
  else .ok ⟨weekend, (options.holidays.map dateKey).dedup⟩

def isBusinessDay (value : IsoDate) (calendar : BusinessCalendar) : Bool :=
  !calendar.weekend.contains (Calendar.weekday value.date.ordinal) && !calendar.holidays.contains (dateKey value)

def WEEKDAYS : List Int := [1, 2, 3, 4, 5, 6, 7]

def weekdayOfEpochDay (days : Int) : Int := WEEKDAYS.getD (((days + 3).tmod 7 + 7).tmod 7).toNat 0

/-- The fields of `new Date(days * 86_400_000)`, which holds a hundred million days to either side, or `none` where they are `NaN`. -/
def dateFields (days : Int) : Option CivilDate := if |days| ≤ 100000000 then some (civilFromDays days) else none

/-- `toISOString` throws where there is no date. -/
def epochDayKey (days : Int) : Except Thrown CivilDate :=
  match dateFields days with
  | some fields => .ok fields
  | none => .error .rangeError

/-- What the walk reads and writes of a kind of value: the day count of its date, and the value with another year, month and day. -/
structure Kind (V : Type) where
  day : V → Int
  with_ : V → CivilDate → Except Thrown V

variable {V : Type}

def isOff (calendar : BusinessCalendar) (hasHolidays : Bool) (day : Int) : Except Thrown Bool :=
  if calendar.weekend.contains (weekdayOfEpochDay day) then .ok true
  else if hasHolidays then do
    let key ← epochDayKey day
    return calendar.holidays.contains key
  else .ok false

/-- The loops of `walk`, for so many turns at most: days are counted down, and the last one is landed on. -/
def walkFrom (kind : Kind V) (calendar : BusinessCalendar) (hasHolidays : Bool) (value : V) (direction : Int) :
    Nat → Int → Nat → Option (Except Thrown V)
  | 0, _, _ => none
  | turns + 1, day, remaining + 1 =>
    match isOff calendar hasHolidays (day + direction) with
    | .error thrown => some (.error thrown)
    | .ok true => walkFrom kind calendar hasHolidays value direction turns (day + direction) (remaining + 1)
    | .ok false => walkFrom kind calendar hasHolidays value direction turns (day + direction) remaining
  | turns + 1, day, 0 =>
    match dateFields day with
    -- Temporal takes no `NaN`
    | none => some (.error .rangeError)
    | some fields =>
      match kind.with_ value fields with
      | .error thrown => some (.error thrown)
      | .ok landed =>
        if kind.day landed = day then some (.ok landed)
        else walkFrom kind calendar hasHolidays value direction turns day 1

/-- A count that is no safe number leads out of every range, exactly computed or not. -/
def walk (kind : Kind V) (turns : Nat) (value : V) (count : Int) (calendar : BusinessCalendar) : Option (Except Thrown V) :=
  if count = 0 then some (.ok value)
  else if 7 ≤ calendar.weekend.dedup.length then some (.error .rangeError)
  else
    let direction := count.sign
    let hasHolidays := !calendar.holidays.isEmpty
    let day := kind.day value
    let remaining := count.natAbs
    if hasHolidays then walkFrom kind calendar true value direction turns day remaining
    else
      let perWeek := 7 - calendar.weekend.length
      let weeks := (remaining - 1) / perWeek
      walkFrom kind calendar false value direction turns (day + weeks * 7 * direction) (remaining - weeks * perWeek)

def addBusinessDays (kind : Kind V) (turns : Nat) (value : V) (count : Int) (calendar : BusinessCalendar) : Option (Except Thrown V) :=
  if isSafeInteger count then walk kind turns value count calendar else some (.error .rangeError)

def Ends (call : Nat → Option (Except Thrown V)) (outcome : Except Thrown V) : Prop := ∃ least, ∀ turns ≥ least, call turns = some outcome

theorem Ends.unique {call : Nat → Option (Except Thrown V)} {first second : Except Thrown V} (left : Ends call first) (right : Ends call second) :
    first = second := by
  obtain ⟨least, is⟩ := left
  obtain ⟨least_, is_⟩ := right
  have same := (is (max least least_) (le_max_left _ _)).symm.trans (is_ (max least least_) (le_max_right _ _))
  exact Option.some.inj same

theorem walkFrom_more {kind : Kind V} {calendar : BusinessCalendar} {hasHolidays : Bool} {value : V} {direction day : Int}
    {turns more remaining : ℕ} {outcome : Except Thrown V}
    (ran : walkFrom kind calendar hasHolidays value direction turns day remaining = some outcome) (enough : turns ≤ more) :
    walkFrom kind calendar hasHolidays value direction more day remaining = some outcome := by
  induction turns generalizing more day remaining with
  | zero => cases ran
  | succ turns ih =>
    obtain ⟨more, rfl⟩ : ∃ fewer, more = fewer + 1 := ⟨more - 1, by omega⟩
    cases remaining with
    | succ remaining =>
      rw [walkFrom] at ran ⊢
      cases off : isOff calendar hasHolidays (day + direction) with
      | error thrown => simpa only [off] using ran
      | ok isOff_ =>
        simp only [off] at ran ⊢
        cases isOff_ with
        | true => exact ih ran (by omega)
        | false => exact ih ran (by omega)
    | zero =>
      rw [walkFrom] at ran ⊢
      cases fields : dateFields day with
      | none => simpa only [fields] using ran
      | some fields_ =>
        simp only [fields] at ran ⊢
        cases set_ : kind.with_ value fields_ with
        | error thrown => simpa only [set_] using ran
        | ok landed =>
          simp only [set_] at ran ⊢
          split
          · next same => rwa [if_pos same] at ran
          · next other =>
            rw [if_neg other] at ran
            exact ih ran (by omega)

structure BusinessCalendar.IsAccepted (calendar : BusinessCalendar) : Prop where
  distinct : calendar.weekend.Nodup
  weekdays : ∀ day ∈ calendar.weekend, 1 ≤ day ∧ day ≤ 7
  notAll : calendar.weekend.length < 7
  keys : calendar.holidays.Nodup
  dates : ∀ key ∈ calendar.holidays, ∃ date : IsoDate, dateKey date = key

theorem businessCalendar_accepted {options : BusinessCalendarOptions} {calendar : BusinessCalendar}
    (accepted : businessCalendar options = .ok calendar) : calendar.IsAccepted := by
  unfold businessCalendar at accepted
  simp only at accepted
  generalize isWeekend : ((options.weekend.getD [6, 7]).dedup.mergeSort fun a b => decide (a - b ≤ 0)) = weekend at accepted
  have distinct : weekend.Nodup := by
    rw [← isWeekend]
    exact (List.mergeSort_perm _ _).nodup_iff.mpr (List.nodup_dedup _)
  split at accepted
  · cases accepted
  next weekdays =>
  split at accepted
  · cases accepted
  next notSeven =>
  cases accepted
  have inWeek : ∀ day ∈ weekend, 1 ≤ day ∧ day ≤ 7 := by
    intro day member
    by_contra outside
    refine weekdays (List.any_eq_true.mpr ⟨day, member, ?_⟩)
    simp only [isWeekdayNumber, Bool.not_eq_true', Bool.and_eq_false_iff, decide_eq_false_iff_not]
    omega
  have few : weekend.length ≤ 7 := by
    have inside : weekend ⊆ WEEKDAYS := by
      intro day member
      have bounds := inWeek day member
      simp only [WEEKDAYS, List.mem_cons, List.not_mem_nil, or_false]
      omega
    exact (distinct.subperm inside).length_le
  refine ⟨distinct, inWeek, by simp only; omega, List.nodup_dedup _, fun key member => ?_⟩
  obtain ⟨date, -, is⟩ := List.mem_map.mp (List.mem_dedup.mp member)
  exact ⟨date, is⟩

theorem businessCalendar_default : businessCalendar ⟨none, []⟩ = .ok ⟨[6, 7], []⟩ := by
  have sorted : ([6, 7] : List Int).mergeSort (fun a b => decide (a - b ≤ 0)) = [6, 7] := List.mergeSort_of_pairwise (by decide)
  have distinct : ([6, 7] : List Int).dedup = [6, 7] := by decide
  simp only [businessCalendar, Option.getD_none, distinct, sorted]
  rfl

def Business (calendar : BusinessCalendar) (day : ℤ) : Prop := Calendar.weekday day ∉ calendar.weekend ∧ civilFromDays day ∉ calendar.holidays

instance (calendar : BusinessCalendar) : DecidablePred (Business calendar) := fun day =>
  inferInstanceAs (Decidable (Calendar.weekday day ∉ calendar.weekend ∧ civilFromDays day ∉ calendar.holidays))

variable {calendar : BusinessCalendar}

theorem isBusinessDay_iff (value : IsoDate) : isBusinessDay value calendar = true ↔ Business calendar value.date.ordinal := by
  rw [Business, civilFromDays_ordinal]
  simp [isBusinessDay, dateKey]

theorem weekdayOfEpochDay_eq (days : Int) : weekdayOfEpochDay days = Calendar.weekday days := by
  have same := weekdayOfDays_eq days
  have bounds := Calendar.weekday_bounds days
  rw [weekdayOfDays] at same
  rw [weekdayOfEpochDay, ← same]
  rw [← same] at bounds
  generalize ((days + 3).tmod 7 + 7).tmod 7 = place at bounds
  obtain ⟨low, high⟩ : 0 ≤ place ∧ place ≤ 6 := by omega
  interval_cases place <;> rfl

/-- Within the dates of `Date`, a day is off exactly when it is no business day. -/
theorem isOff_eq {day : Int} (inRange : |day| ≤ 100000000) :
    isOff calendar (!calendar.holidays.isEmpty) day = .ok (!decide (Business calendar day)) := by
  unfold isOff
  simp only [weekdayOfEpochDay_eq, List.contains_iff_mem]
  split
  · next weekend => simp [Business, weekend]
  · next weekday =>
    split
    · simp [epochDayKey, dateFields, inRange, Business, weekday, bind, Except.bind, pure, Except.pure]
    · next none_ =>
      have empty : calendar.holidays = [] := by simpa using none_
      simp [Business, weekday, empty]

section

variable {kind : Kind V} {value : V} {direction : Int}

def Lands (kind : Kind V) (value : V) (exists_ : ℤ → Prop) (day : ℤ) : Prop :=
  ∃ landed, kind.with_ value (civilFromDays day) = .ok landed ∧ (kind.day landed = day ↔ exists_ day)

def passed (calendar : BusinessCalendar) (direction : Int) (day : Int) (steps : ℕ) : ℕ :=
  Nat.count (fun (j : ℕ) => Business calendar (day + direction * (j + 1))) steps

theorem passed_zero (day : Int) : passed calendar direction day 0 = 0 := Nat.count_zero _

theorem passed_succ (day : Int) (steps : ℕ) : passed calendar direction day (steps + 1) =
    passed calendar direction (day + direction) steps + if Business calendar (day + direction) then 1 else 0 := by
  unfold passed
  rw [Nat.count_succ']
  simp only [Nat.cast_zero, zero_add, mul_one, Nat.cast_succ, mul_add, add_assoc, add_comm direction]

theorem passed_pos {day : Int} {steps : ℕ} (last : Business calendar (day + direction * (steps + 1 : ℕ))) :
    0 < passed calendar direction day (steps + 1) := by
  rw [Nat.cast_succ] at last
  rw [passed, Nat.count_succ, if_pos last]
  omega

/-- What the walk needs for a day so many steps on to be its last: the days up to it are in range, it exists, and it is the first that
exists and completes the count.
-/
structure Target (kind : Kind V) (calendar : BusinessCalendar) (value : V) (direction : Int) (exists_ : ℤ → Prop) (day : Int)
    (remaining steps : ℕ) : Prop where
  inRange : ∀ i ≤ steps, remaining = 0 ∨ 0 < i → |day + direction * i| ≤ 100000000 ∧ Lands kind value exists_ (day + direction * i)
  isThere : exists_ (day + direction * steps)
  business : remaining = 0 ∧ steps = 0 ∨ Business calendar (day + direction * steps)
  enough : remaining ≠ 0 → 0 < steps ∧ remaining ≤ passed calendar direction day steps
  first : ∀ i < steps, remaining = 0 ∧ i = 0 ∨ Business calendar (day + direction * i) → exists_ (day + direction * i) →
    remaining ≠ 0 ∧ passed calendar direction day i < remaining

variable {exists_ : ℤ → Prop} {day : Int} {remaining steps turns : ℕ}

theorem one_further (day direction : Int) (i : ℕ) : day + direction + direction * i = day + direction * (i + 1 : ℕ) := by
  push_cast
  ring

theorem Target.step_ (target : Target kind calendar value direction exists_ day (remaining + 1) (steps + 1)) :
    Target kind calendar value direction exists_ (day + direction)
      (if Business calendar (day + direction) then remaining else remaining + 1) steps := by
  obtain ⟨inRange, isThere, business, enough, first⟩ := target
  have last := business.resolve_left (by omega)
  obtain ⟨-, count⟩ := enough (by omega)
  rw [passed_succ] at count
  refine ⟨fun i within _ => ?_, ?_, ?_, fun some_ => ?_, fun i within due there => ?_⟩
  · rw [one_further]
    exact inRange (i + 1) (by omega) (.inr (by omega))
  · rwa [one_further]
  · rw [one_further]
    exact .inr last
  · by_cases isBusiness : Business calendar (day + direction)
    · rw [if_pos isBusiness] at count some_ ⊢
      refine ⟨?_, by omega⟩
      by_contra none_
      rw [show steps = 0 by omega, passed_zero] at count
      omega
    · rw [if_neg isBusiness] at count some_ ⊢
      refine ⟨?_, by omega⟩
      by_contra none_
      rw [show steps = 0 by omega, passed_zero] at count
      omega
  · rw [one_further] at due there
    have isBusiness_ : Business calendar (day + direction * (i + 1 : ℕ)) := by
      rcases due with ⟨isZero, rfl⟩ | isBusiness_
      · split at isZero
        · next isBusiness => simpa using isBusiness
        · omega
      · exact isBusiness_
    have fewer := (first (i + 1) (by omega) (.inr isBusiness_) there).2
    rw [passed_succ] at fewer
    by_cases isBusiness : Business calendar (day + direction)
    · rw [if_pos isBusiness] at fewer ⊢
      omega
    · rw [if_neg isBusiness] at fewer ⊢
      omega

theorem walkFrom_lands (long : 2 * steps + (if remaining = 0 then 1 else 0) ≤ turns)
    (target : Target kind calendar value direction exists_ day remaining steps) :
    ∃ landed, walkFrom kind calendar (!calendar.holidays.isEmpty) value direction turns day remaining = some (.ok landed) ∧
      kind.with_ value (civilFromDays (day + direction * steps)) = .ok landed ∧ kind.day landed = day + direction * steps := by
  induction steps generalizing day remaining turns with
  | zero =>
    obtain rfl : remaining = 0 := by
      by_contra some_
      exact absurd (target.enough some_).1 (Nat.lt_irrefl 0)
    obtain ⟨turns, rfl⟩ : ∃ fewer, turns = fewer + 1 := ⟨turns - 1, by rw [if_pos rfl] at long; omega⟩
    obtain ⟨range, landed, set_, same⟩ := target.inRange 0 (Nat.le_refl 0) (.inl rfl)
    have there := target.isThere
    simp only [Nat.cast_zero, mul_zero, add_zero] at range set_ same there ⊢
    refine ⟨landed, ?_, set_, same.mpr there⟩
    rw [walkFrom, dateFields, if_pos range]
    simp only [set_, same.mpr there, if_true]
  | succ steps ih =>
    -- a day of the count: what is left is walked from the next day
    have counted {left turns : ℕ} (long : 2 * (steps + 1) ≤ turns)
        (target : Target kind calendar value direction exists_ day (left + 1) (steps + 1)) :
        ∃ landed, walkFrom kind calendar (!calendar.holidays.isEmpty) value direction turns day (left + 1) = some (.ok landed) ∧
          kind.with_ value (civilFromDays (day + direction * (steps + 1 : ℕ))) = .ok landed ∧
          kind.day landed = day + direction * (steps + 1 : ℕ) := by
      obtain ⟨turns, rfl⟩ : ∃ fewer, turns = fewer + 1 := ⟨turns - 1, by omega⟩
      have range := (target.inRange 1 (by omega) (.inr (by omega))).1
      have few : (if (if Business calendar (day + direction) then left else left + 1) = 0 then 1 else 0) ≤ 1 := by
        generalize (if Business calendar (day + direction) then left else left + 1) = after
        split
        · exact Nat.le_refl 1
        · exact Nat.zero_le 1
      have enough : 2 * steps + (if (if Business calendar (day + direction) then left else left + 1) = 0 then 1 else 0) ≤ turns := by omega
      have following := ih enough target.step_
      simp only [one_further] at following
      rw [walkFrom, isOff_eq (by simpa using range)]
      by_cases isBusiness : Business calendar (day + direction)
      · simpa only [isBusiness, if_true, decide_true, Bool.not_true] using following
      · simpa only [isBusiness, if_false, decide_false, Bool.not_false] using following
    cases remaining with
    | succ left => exact counted (by rw [if_neg (by omega)] at long; omega) target
    | zero =>
      -- the first day does not exist, as it would be the target
      obtain ⟨turns, rfl⟩ : ∃ fewer, turns = fewer + 1 := ⟨turns - 1, by omega⟩
      rw [if_pos rfl] at long
      obtain ⟨range, landed, set_, same⟩ := target.inRange 0 (by omega) (.inl rfl)
      have missing : ¬ exists_ (day + direction * (0 : ℕ)) := fun there => (target.first 0 (by omega) (.inl ⟨rfl, rfl⟩) there).1 rfl
      simp only [Nat.cast_zero, mul_zero, add_zero] at range set_ same missing
      have last : Business calendar (day + direction * (steps + 1 : ℕ)) := target.business.resolve_left (by omega)
      have again : Target kind calendar value direction exists_ day (0 + 1) (steps + 1) := by
        refine ⟨fun i within _ => target.inRange i within (.inl rfl), target.isThere, .inr last, fun _ => ⟨by omega, ?_⟩, fun i within due there => ?_⟩
        · have some_ := passed_pos last
          omega
        · have isBusiness := due.resolve_left (by omega)
          exact absurd rfl (target.first i within (.inr isBusiness) there).1
      rw [walkFrom, dateFields, if_pos range]
      simp only [set_, if_neg fun is => missing (same.mp is)]
      exact counted (by omega) again

theorem walkFrom_throws (long : steps + 1 ≤ turns) (inRange : ∀ i, 0 < i → i < steps → |day + direction * i| ≤ 100000000)
    (outside : ¬ |day + direction * steps| ≤ 100000000) (some_ : 0 < steps) (last : Business calendar (day + direction * steps))
    (count : passed calendar direction day steps = remaining) :
    walkFrom kind calendar (!calendar.holidays.isEmpty) value direction turns day remaining = some (.error .rangeError) := by
  induction steps generalizing day remaining turns with
  | zero => exact absurd some_ (Nat.lt_irrefl 0)
  | succ steps ih =>
    obtain ⟨turns, rfl⟩ : ∃ fewer, turns = fewer + 1 := ⟨turns - 1, by omega⟩
    rw [passed_succ] at count
    cases steps with
    | zero =>
      simp only [zero_add, Nat.cast_one, mul_one] at outside last
      rw [passed_zero, if_pos last] at count
      subst count
      have weekday : Calendar.weekday (day + direction) ∉ calendar.weekend := last.1
      obtain ⟨turns, rfl⟩ : ∃ fewer, turns = fewer + 1 := ⟨turns - 1, by omega⟩
      rw [walkFrom, isOff, weekdayOfEpochDay_eq]
      simp only [List.contains_iff_mem, weekday, if_false]
      cases calendar.holidays.isEmpty with
      | false => simp [epochDayKey, dateFields, outside, bind, Except.bind]
      | true => simp [walkFrom, dateFields, outside]
    | succ steps =>
      have near := inRange 1 (by omega) (by omega)
      rw [Nat.cast_one, mul_one] at near
      have following {left : ℕ} (is : passed calendar direction (day + direction) (steps + 1) = left) :
          walkFrom kind calendar (!calendar.holidays.isEmpty) value direction turns (day + direction) left = some (.error .rangeError) := by
        refine ih (by omega) (fun i some_ within => ?_) ?_ (by omega) ?_ is
        · rw [one_further]
          exact inRange (i + 1) (by omega) (by omega)
        · rwa [one_further]
        · rwa [one_further]
      by_cases isBusiness : Business calendar (day + direction)
      · rw [if_pos isBusiness] at count
        subst count
        rw [walkFrom, isOff_eq near]
        simpa only [isBusiness, decide_true, Bool.not_true] using following rfl
      · rw [if_neg isBusiness, add_zero] at count
        have some_ : 0 < passed calendar direction (day + direction) (steps + 1) := passed_pos (by rwa [one_further])
        obtain ⟨left, rfl⟩ : ∃ left, remaining = left + 1 := ⟨remaining - 1, by omega⟩
        rw [walkFrom, isOff_eq near]
        simpa only [isBusiness, decide_false, Bool.not_false] using following count

theorem passed_add (day : Int) (first second : ℕ) : passed calendar direction day (first + second) =
    passed calendar direction day first + passed calendar direction (day + direction * first) second := by
  unfold passed
  rw [Nat.count_add]
  simp only [Nat.cast_add, mul_add, add_assoc]

theorem passed_mono (calendar : BusinessCalendar) (direction day : Int) {fewer more : ℕ} (le : fewer ≤ more) : passed calendar direction day fewer ≤ passed calendar direction day more :=
  Nat.count_monotone _ le

theorem passed_week (accepted : calendar.IsAccepted) (noHolidays : calendar.holidays = []) (isUnit : direction = 1 ∨ direction = -1) (day : Int) :
    passed calendar direction day 7 = 7 - calendar.weekend.length := by
  let weekdayAt (j : ℕ) : Int := Calendar.weekday (day + direction * (j + 1))
  have isBusiness (j : ℕ) : Business calendar (day + direction * (j + 1)) ↔ weekdayAt j ∉ calendar.weekend := by
    simp [Business, noHolidays, weekdayAt]
  have injective : Set.InjOn weekdayAt ((Finset.range 7).filter fun j => weekdayAt j ∉ calendar.weekend) := by
    intro first inFirst second inSecond same
    simp only [Finset.coe_filter, Finset.mem_range, Set.mem_ofPred_eq] at inFirst inSecond
    simp only [weekdayAt, Calendar.weekday] at same
    rcases isUnit with rfl | rfl <;> omega
  have image : ((Finset.range 7).filter fun j => weekdayAt j ∉ calendar.weekend).image weekdayAt = Finset.Icc 1 7 \ calendar.weekend.toFinset := by
    ext weekday
    simp only [Finset.mem_image, Finset.mem_filter, Finset.mem_range, Finset.mem_sdiff, Finset.mem_Icc, List.mem_toFinset]
    constructor
    · rintro ⟨j, ⟨-, off⟩, rfl⟩
      exact ⟨Calendar.weekday_bounds _, off⟩
    · rintro ⟨bounds, off⟩
      have found : ∃ j < 7, weekdayAt j = weekday := by
        simp only [weekdayAt, Calendar.weekday]
        rcases isUnit with rfl | rfl
        · exact ⟨((weekday - day - 5) % 7).toNat, by omega, by omega⟩
        · exact ⟨((day + 3 - weekday) % 7).toNat, by omega, by omega⟩
      obtain ⟨j, inWeek, is⟩ := found
      exact ⟨j, ⟨inWeek, is ▸ off⟩, is⟩
  have inside : calendar.weekend.toFinset ⊆ Finset.Icc 1 7 := by
    intro weekday member
    rw [Finset.mem_Icc]
    exact accepted.weekdays weekday (List.mem_toFinset.mp member)
  unfold passed
  rw [Nat.count_eq_card_filter_range, Finset.filter_congr fun j _ => isBusiness j, ← Finset.card_image_of_injOn injective, image,
    Finset.card_sdiff_of_subset inside, List.toFinset_card_of_nodup accepted.distinct]
  rfl

theorem passed_weeks (accepted : calendar.IsAccepted) (noHolidays : calendar.holidays = []) (isUnit : direction = 1 ∨ direction = -1) (day : Int)
    (weeks : ℕ) : passed calendar direction day (weeks * 7) = weeks * (7 - calendar.weekend.length) := by
  induction weeks generalizing day with
  | zero => rw [Nat.zero_mul, Nat.zero_mul, passed_zero]
  | succ weeks ih =>
    rw [Nat.succ_mul, Nat.add_comm, passed_add, passed_week accepted noHolidays isUnit, ih, Nat.succ_mul, Nat.add_comm]

theorem jumped (day direction : Int) (weeks i : ℕ) : day + weeks * 7 * direction + direction * i = day + direction * (weeks * 7 + i : ℕ) := by
  push_cast
  ring

/-- After a jump of whole weeks that leave a day to walk, the target is as much nearer. -/
theorem Target.jump (target : Target kind calendar value direction exists_ day remaining steps) (accepted : calendar.IsAccepted)
    (noHolidays : calendar.holidays = []) (isUnit : direction = 1 ∨ direction = -1) {weeks : ℕ}
    (left : weeks * (7 - calendar.weekend.length) < remaining) :
    weeks * 7 ≤ steps ∧ Target kind calendar value direction exists_ (day + weeks * 7 * direction) (remaining - weeks * (7 - calendar.weekend.length))
      (steps - weeks * 7) := by
  obtain ⟨inRange, isThere, business, enough, first⟩ := target
  obtain ⟨some_, count⟩ := enough (by omega)
  have whole (i : ℕ) : passed calendar direction day (weeks * 7 + i) =
      weeks * (7 - calendar.weekend.length) + passed calendar direction (day + weeks * 7 * direction) i := by
    have start := jumped day direction weeks 0
    rw [Nat.cast_zero, mul_zero, add_zero, add_zero] at start
    rw [passed_add, passed_weeks accepted noHolidays isUnit, ← start]
  have far : weeks * 7 < steps := by
    by_contra near
    have few := passed_mono calendar direction day (not_lt.mp near)
    have weekly := whole 0
    rw [add_zero, passed_zero] at weekly
    omega
  obtain ⟨rest, rfl⟩ := Nat.exists_eq_add_of_le far.le
  rw [Nat.add_sub_cancel_left]
  refine ⟨by omega, fun i within some_ => ?_, ?_, ?_, fun _ => ⟨by omega, ?_⟩, fun i within due there => ?_⟩
  · rw [jumped]
    exact inRange (weeks * 7 + i) (by omega) (.inr (by omega))
  · rwa [jumped]
  · rw [jumped]
    exact .inr (business.resolve_left (by omega))
  · rw [whole] at count
    omega
  · rw [jumped] at due there
    have fewer := (first (weeks * 7 + i) (by omega) (.inr (due.resolve_left (by omega))) there).2
    rw [whole] at fewer
    omega

theorem walk_eq (kind : Kind V) (value : V) (accepted : calendar.IsAccepted) {count : Int} (apart : count ≠ 0) (turns : ℕ) :
    ∃ weeks : ℕ, (weeks ≠ 0 → calendar.holidays = []) ∧ weeks * (7 - calendar.weekend.length) < count.natAbs ∧
      walk kind turns value count calendar = walkFrom kind calendar (!calendar.holidays.isEmpty) value count.sign turns
        (kind.day value + weeks * 7 * count.sign) (count.natAbs - weeks * (7 - calendar.weekend.length)) := by
  have few := accepted.notAll
  unfold walk
  rw [if_neg apart, if_neg (by rw [accepted.distinct.dedup]; omega)]
  cases isEmpty_ : calendar.holidays.isEmpty with
  | false =>
    refine ⟨0, by simp, by omega, ?_⟩
    simp
  | true =>
    refine ⟨(count.natAbs - 1) / (7 - calendar.weekend.length), fun _ => by simpa using isEmpty_, ?_, ?_⟩
    · have whole := Nat.div_mul_le_self (count.natAbs - 1) (7 - calendar.weekend.length)
      omega
    · simp

theorem sign_cases {count : Int} (apart : count ≠ 0) : count.sign = 1 ∨ count.sign = -1 := by
  rcases lt_or_gt_of_ne apart with negative | positive
  · exact .inr (Int.sign_eq_neg_one_of_neg negative)
  · exact .inl (Int.sign_eq_one_of_pos positive)

theorem walk_lands (accepted : calendar.IsAccepted) {count : Int} (apart : count ≠ 0)
    (target : Target kind calendar value count.sign exists_ (kind.day value) count.natAbs steps) :
    ∃ landed, Ends (fun turns => walk kind turns value count calendar) (.ok landed) ∧ kind.day landed = kind.day value + count.sign * steps := by
  obtain ⟨some_, -⟩ := target.enough (by omega)
  obtain ⟨-, landed, set_, same⟩ := target.inRange steps (Nat.le_refl _) (.inr some_)
  refine ⟨landed, ⟨2 * steps + 1, fun turns long => ?_⟩, same.mpr target.isThere⟩
  obtain ⟨weeks, noHolidays, left, is⟩ := walk_eq kind value accepted apart turns
  dsimp only
  rw [is]
  have nearer : weeks * 7 ≤ steps ∧ Target kind calendar value count.sign exists_ (kind.day value + weeks * 7 * count.sign)
      (count.natAbs - weeks * (7 - calendar.weekend.length)) (steps - weeks * 7) := by
    by_cases none_ : weeks = 0
    · subst none_
      simpa using target
    · exact target.jump accepted (noHolidays none_) (sign_cases apart) left
  have enough : 2 * (steps - weeks * 7) + (if count.natAbs - weeks * (7 - calendar.weekend.length) = 0 then 1 else 0) ≤ turns := by
    rw [if_neg (by omega)]
    omega
  obtain ⟨found, ran, set__, -⟩ := walkFrom_lands enough nearer.2
  rw [ran]
  rw [jumped, Nat.add_sub_cancel' nearer.1, set_] at set__
  rw [Except.ok.inj set__]

/-- A walk whose last day is out of the range of `Date` throws, where every day before it is in range. -/
theorem walk_throws (accepted : calendar.IsAccepted) {count : Int} (apart : count ≠ 0)
    (inRange : ∀ i, 0 < i → i < steps → |kind.day value + count.sign * i| ≤ 100000000)
    (outside : ¬ |kind.day value + count.sign * steps| ≤ 100000000) (some_ : 0 < steps)
    (last : Business calendar (kind.day value + count.sign * steps))
    (whole : passed calendar count.sign (kind.day value) steps = count.natAbs) :
    Ends (fun turns => walk kind turns value count calendar) (.error .rangeError) := by
  refine ⟨steps + 1, fun turns long => ?_⟩
  obtain ⟨weeks, noHolidays, left, is⟩ := walk_eq kind value accepted apart turns
  dsimp only
  rw [is]
  by_cases none_ : weeks = 0
  · subst none_
    simp only [Nat.cast_zero, zero_mul, add_zero, Nat.sub_zero]
    exact walkFrom_throws long inRange outside some_ last whole
  · have weekly := passed_weeks accepted (noHolidays none_) (sign_cases apart) (kind.day value) weeks
    have far : weeks * 7 < steps := by
      by_contra near
      have few := passed_mono calendar count.sign (kind.day value) (not_lt.mp near)
      omega
    obtain ⟨rest, rfl⟩ := Nat.exists_eq_add_of_le far.le
    rw [passed_add, weekly] at whole
    have start := jumped (kind.day value) count.sign weeks 0
    rw [Nat.cast_zero, mul_zero, add_zero, add_zero] at start
    refine walkFrom_throws (show rest + 1 ≤ turns by omega) (fun i some__ within => ?_) ?_ (by omega) ?_ ?_
    · rw [jumped]
      exact inRange (weeks * 7 + i) (by omega) (by omega)
    · rwa [jumped]
    · rwa [jumped]
    · rw [start]
      omega

end

end Arki.Dates
