import Arki.Dates.Business

/-! Business days of plain dates: the walk finds the n-th of them, and the count of a span is theirs.

`Date` ends one day before Temporal's first date, so that a walk back to it throws.
-/

set_option autoImplicit false

namespace Arki.Dates

open Calendar (Date)
open Counting (between IsNth)

attribute [ext] IsoDate

/-- `value.with` of the fields of a date. -/
def isoWith (_ : IsoDate) (fields : CivilDate) : Except Thrown IsoDate :=
  (fun date : PlainDate => ⟨date.date, date.inRange⟩) <$> newPlainDate fields.year fields.month fields.day

def plainKind : Kind IsoDate where
  day value := daysFromCivil value.date.year value.date.month value.date.day
  with_ := isoWith

def countRest (weekend : List Int) (count cursor : Int) : ℕ → Int
  | 0 => count
  | left + 1 => countRest weekend (if !weekend.contains (Calendar.weekday cursor) then count + 1 else count) (cursor + 1) left

def holidayOf (key : CivilDate) : Int := daysFromCivil key.year key.month key.day

def countForward (from_ to_ : IsoDate) (calendar : BusinessCalendar) : Int :=
  let days := to_.date.ordinal - from_.date.ordinal
  let fullWeeks := days / 7
  let count := fullWeeks * (7 - calendar.weekend.length)
  let cursor := from_.date.ordinal + fullWeeks * 7
  let count := countRest calendar.weekend count cursor (to_.date.ordinal - cursor).toNat
  calendar.holidays.foldl (fun count key =>
    let inside := from_.date.ordinal ≤ holidayOf key ∧ holidayOf key < to_.date.ordinal
    if inside ∧ !calendar.weekend.contains (Calendar.weekday (holidayOf key)) then count - 1 else count) count

def businessDaysBetween (from_ to_ : IsoDate) (calendar : BusinessCalendar) : Int :=
  if from_.date.ordinal ≤ to_.date.ordinal then countForward from_ to_ calendar
  else
    let count := countForward to_ from_ calendar
    if count = 0 then 0 else -count

variable {calendar : BusinessCalendar}

theorem plainKind_day (value : IsoDate) : plainKind.day value = value.date.ordinal := daysFromCivil_eq value.date

theorem plainKind_lands (value : IsoDate) {day : Int} (inRange : |day| ≤ 100000000) : Lands plainKind value (fun _ => True) day := by
  obtain ⟨date, is, rfl⟩ := civilFromDays_eq day
  rw [abs_le] at inRange
  have range : firstOrdinal ≤ date.ordinal ∧ date.ordinal ≤ lastOrdinal := by
    unfold firstOrdinal lastOrdinal
    omega
  refine ⟨⟨date, range⟩, ?_, iff_of_true (plainKind_day _) trivial⟩
  show isoWith value _ = _
  rw [is, isoWith, newPlainDate_ok date range]
  rfl

/-- The walk ends on the n-th business day, or throws where it is the first date of all. -/
theorem addBusinessDays_ends (accepted : calendar.IsAccepted) {value result : IsoDate} {count : Int}
    (nth : IsNth (Business calendar) value.date.ordinal count result.date.ordinal) :
    Ends (fun turns => addBusinessDays plainKind turns value count calendar)
      (if count = 0 ∨ result.date.ordinal ≠ firstOrdinal then .ok result else .error .rangeError) := by
  have near := nth.near
  have inValue := value.inRange
  have inResult := result.inRange
  unfold firstOrdinal lastOrdinal at inValue inResult
  have safe : isSafeInteger count = true := by
    have far : |result.date.ordinal - value.date.ordinal| ≤ 200000001 := by
      rw [abs_le]
      omega
    rw [isSafeInteger, decide_eq_true_iff]
    omega
  simp only [addBusinessDays, safe, if_true]
  by_cases apart : count = 0
  · rw [if_pos (.inl apart)]
    subst apart
    have same : result = value := IsoDate.ext (Calendar.ordinal_injective (by simpa [IsNth] using nth))
    exact ⟨0, fun turns _ => by simp [walk, same]⟩
  · obtain ⟨before, is, holds, counted⟩ := (Counting.isNth_iff _ apart).mp nth
    rw [← plainKind_day value] at is counted inValue
    have here : result.date.ordinal = plainKind.day value + count.sign * (before + 1 : ℕ) := by
      rw [is]
      push_cast
      rfl
    have last : Business calendar (plainKind.day value + count.sign * (before + 1 : ℕ)) := here ▸ holds
    have whole : passed calendar count.sign (plainKind.day value) (before + 1) = count.natAbs := by
      rw [Nat.cast_succ] at last
      rw [passed, Nat.count_succ, if_pos last]
      exact counted
    have within (i : ℕ) (some_ : 0 < i) (least : i < before + 1 ∨ result.date.ordinal ≠ firstOrdinal ∧ i ≤ before + 1) :
        |plainKind.day value + count.sign * i| ≤ 100000000 := by
      rw [abs_le]
      unfold firstOrdinal at least
      rcases sign_cases apart with up | down
      · rw [up] at here ⊢
        omega
      · rw [down] at here ⊢
        omega
    by_cases isFirst : result.date.ordinal = firstOrdinal
    · rw [if_neg (by simp [apart, isFirst])]
      refine walk_throws accepted apart (fun i some_ fewer => within i some_ (.inl fewer)) ?_ (by omega) last whole
      rw [← here, isFirst]
      decide
    · rw [if_pos (.inr isFirst)]
      have target : Target plainKind calendar value count.sign (fun _ => True) (plainKind.day value) count.natAbs (before + 1) := by
        refine ⟨fun i fewer some_ => ?_, trivial, .inr last, fun _ => ⟨by omega, whole.ge⟩, fun i fewer due _ => ⟨by omega, ?_⟩⟩
        · have near_ := within i (some_.resolve_left (by omega)) (.inr ⟨isFirst, fewer⟩)
          exact ⟨near_, plainKind_lands value near_⟩
        · have few := passed_mono calendar count.sign (plainKind.day value) (Nat.le_of_lt_succ fewer)
          change passed calendar count.sign (plainKind.day value) before + 1 = count.natAbs at counted
          omega
      obtain ⟨landed, ends, same⟩ := walk_lands accepted apart target
      have found : landed = result := IsoDate.ext (Calendar.ordinal_injective (by rw [← plainKind_day, same, here]))
      rwa [← found]

def BusinessCalendar.bare (calendar : BusinessCalendar) : BusinessCalendar := ⟨calendar.weekend, []⟩

theorem BusinessCalendar.IsAccepted.bare (accepted : calendar.IsAccepted) : calendar.bare.IsAccepted :=
  ⟨accepted.distinct, accepted.weekdays, accepted.notAll, List.nodup_nil, nofun⟩

theorem business_bare (day : ℤ) : Business calendar.bare day ↔ Calendar.weekday day ∉ calendar.weekend := by
  simp [Business, BusinessCalendar.bare]

theorem countRest_eq (calendar : BusinessCalendar) (count cursor : Int) (left : ℕ) :
    countRest calendar.weekend count cursor left = count + between (Business calendar.bare) cursor (cursor + left) := by
  induction left generalizing count cursor with
  | zero => simp [countRest, Counting.between_self]
  | succ left ih =>
    have first := Counting.between_add (Business calendar.bare) (a := cursor) (b := cursor + 1) (c := cursor + (left + 1 : ℕ)) (by omega) (by omega)
    rw [Counting.between_one, show cursor + ((left + 1 : ℕ) : ℤ) = cursor + 1 + left by omega] at first
    rw [countRest, ih, show cursor + ((left + 1 : ℕ) : ℤ) = cursor + 1 + left by omega, first]
    by_cases off : Calendar.weekday cursor ∈ calendar.weekend
    · rw [if_neg (by simpa using off), if_neg (by simpa [business_bare] using off)]
      omega
    · rw [if_pos (by simpa using off), if_pos (by simpa [business_bare] using off)]
      omega

theorem between_weeks (accepted : calendar.IsAccepted) (start : Int) (weeks : ℕ) :
    (between (Business calendar.bare) start (start + weeks * 7) : Int) = weeks * (7 - calendar.weekend.length) := by
  have up := Counting.between_up (Business calendar.bare) (start - 1) (weeks * 7)
  have weekly := passed_weeks accepted.bare rfl (.inl rfl) (start - 1) weeks
  have few := accepted.notAll
  rw [passed] at weekly
  rw [weekly, show start - 1 + 1 = start by omega] at up
  rw [show start + (weeks : ℤ) * 7 = start + (weeks * 7 : ℕ) by push_cast; rfl, up]
  simp only [BusinessCalendar.bare]
  push_cast [Nat.cast_sub few.le]
  rfl

theorem foldl_count {holds : CivilDate → Prop} [DecidablePred holds] (keys : List CivilDate) (count : Int) :
    keys.foldl (fun count key => if holds key then count - 1 else count) count = count - (keys.filter fun key => holds key).length := by
  induction keys generalizing count with
  | nil => simp
  | cons key rest ih =>
    rw [List.foldl_cons, ih, List.filter_cons]
    split
    · next isHeld => simp [isHeld]; omega
    · next isNot => simp [isNot]

theorem holidayOf_civil (day : Int) : holidayOf (civilFromDays day) = day := by
  obtain ⟨date, is, number⟩ := civilFromDays_eq day
  rw [is, holidayOf, daysFromCivil_eq, number]

theorem civil_holidayOf (accepted : calendar.IsAccepted) {key : CivilDate} (member : key ∈ calendar.holidays) :
    civilFromDays (holidayOf key) = key := by
  obtain ⟨date, rfl⟩ := accepted.dates key member
  rw [holidayOf, dateKey, daysFromCivil_eq, civilFromDays_ordinal]

theorem between_holidays (accepted : calendar.IsAccepted) (a b : Int) :
    between (Business calendar) a b + (calendar.holidays.filter fun key => (a ≤ holidayOf key ∧ holidayOf key < b) ∧
      !calendar.weekend.contains (Calendar.weekday (holidayOf key))).length = between (Business calendar.bare) a b := by
  generalize isTaken : (calendar.holidays.filter fun key => (a ≤ holidayOf key ∧ holidayOf key < b) ∧
    !calendar.weekend.contains (Calendar.weekday (holidayOf key))) = taken
  have mem_taken (key : CivilDate) : key ∈ taken ↔ key ∈ calendar.holidays ∧ (a ≤ holidayOf key ∧ holidayOf key < b) ∧
      Calendar.weekday (holidayOf key) ∉ calendar.weekend := by
    rw [← isTaken, List.mem_filter]
    simp
  have distinct : (taken.map holidayOf).Nodup := by
    refine List.Nodup.map_on (fun first inFirst second inSecond same => ?_) (isTaken ▸ accepted.keys.filter _)
    rw [← civil_holidayOf accepted ((mem_taken first).mp inFirst).1, same, civil_holidayOf accepted ((mem_taken second).mp inSecond).1]
  have split_ : (Finset.Ico a b).filter (Business calendar.bare) = (Finset.Ico a b).filter (Business calendar) ∪ (taken.map holidayOf).toFinset := by
    ext day
    simp only [Finset.mem_union, Finset.mem_filter, Finset.mem_Ico, List.mem_toFinset, List.mem_map, mem_taken, business_bare]
    constructor
    · rintro ⟨inside, weekday⟩
      by_cases holiday : civilFromDays day ∈ calendar.holidays
      · exact .inr ⟨civilFromDays day, by rw [holidayOf_civil]; exact ⟨holiday, inside, weekday⟩, holidayOf_civil day⟩
      · exact .inl ⟨inside, weekday, holiday⟩
    · rintro (⟨inside, weekday, -⟩ | ⟨key, ⟨-, inside, weekday⟩, rfl⟩)
      · exact ⟨inside, weekday⟩
      · exact ⟨inside, weekday⟩
  have apart : Disjoint ((Finset.Ico a b).filter (Business calendar)) (taken.map holidayOf).toFinset := by
    rw [Finset.disjoint_left]
    intro day isBusiness member
    obtain ⟨key, inside, rfl⟩ := List.mem_map.mp (List.mem_toFinset.mp member)
    have holiday := ((mem_taken key).mp inside).1
    rw [← civil_holidayOf accepted holiday] at holiday
    exact (Finset.mem_filter.mp isBusiness).2.2 holiday
  have inside (x : ℤ) (holds : ℤ → Prop) [DecidablePred holds] : x ∈ (Finset.Ico a b).filter holds ↔ (a ≤ x ∧ x < b) ∧ holds x := by
    rw [Finset.mem_filter, Finset.mem_Ico]
  rw [Counting.between_eq_card _ fun x => inside x (Business calendar), Counting.between_eq_card _ fun x => inside x (Business calendar.bare),
    split_, Finset.card_union_of_disjoint apart, List.toFinset_card_of_nodup distinct, List.length_map]

theorem countForward_eq (accepted : calendar.IsAccepted) {a b : IsoDate} (order : a.date.ordinal ≤ b.date.ordinal) :
    countForward a b calendar = between (Business calendar) a.date.ordinal b.date.ordinal := by
  have whole := between_holidays accepted a.date.ordinal b.date.ordinal
  obtain ⟨weeks, isWeeks⟩ : ∃ weeks : ℕ, (b.date.ordinal - a.date.ordinal) / 7 = weeks :=
    ⟨((b.date.ordinal - a.date.ordinal) / 7).toNat, by omega⟩
  have parts := Counting.between_add (Business calendar.bare) (a := a.date.ordinal) (b := a.date.ordinal + weeks * 7) (c := b.date.ordinal)
    (by omega) (by omega)
  have weekly := between_weeks accepted a.date.ordinal weeks
  have rest := countRest_eq calendar (weeks * (7 - calendar.weekend.length)) (a.date.ordinal + weeks * 7)
    (b.date.ordinal - (a.date.ordinal + weeks * 7)).toNat
  rw [show a.date.ordinal + (weeks : ℤ) * 7 + ((b.date.ordinal - (a.date.ordinal + weeks * 7)).toNat : ℤ) = b.date.ordinal by omega] at rest
  unfold countForward
  dsimp only
  rw [isWeeks, rest, foldl_count]
  omega

/-- The number of business days of the half-open span, negated where it is reversed. -/
theorem businessDaysBetween_eq (accepted : calendar.IsAccepted) (a b : IsoDate) :
    businessDaysBetween a b calendar = if a.date.ordinal ≤ b.date.ordinal then (between (Business calendar) a.date.ordinal b.date.ordinal : Int)
      else -(between (Business calendar) b.date.ordinal a.date.ordinal : Int) := by
  unfold businessDaysBetween
  split
  · next order => exact countForward_eq accepted order
  · next order =>
    rw [countForward_eq accepted (by omega)]
    dsimp only
    split
    · omega
    · rfl

theorem businessDaysBetween_nth (accepted : calendar.IsAccepted) {a result : IsoDate} {count : Int}
    (isBusiness : Business calendar a.date.ordinal) (nth : IsNth (Business calendar) a.date.ordinal count result.date.ordinal) :
    businessDaysBetween a result calendar = count := by
  rw [businessDaysBetween_eq accepted]
  unfold IsNth at nth
  split at nth
  · next positive =>
    obtain ⟨⟨after, holds⟩, is⟩ := nth
    have first := Counting.between_add (Business calendar) (a := a.date.ordinal) (b := a.date.ordinal + 1) (c := result.date.ordinal + 1)
      (by omega) (by omega)
    have last := Counting.between_add (Business calendar) (a := a.date.ordinal) (b := result.date.ordinal) (c := result.date.ordinal + 1)
      (by omega) (by omega)
    rw [Counting.between_one, if_pos isBusiness] at first
    rw [Counting.between_one, if_pos holds] at last
    rw [if_pos (by omega)]
    omega
  split at nth
  · next negative =>
    rw [if_neg (by omega)]
    omega
  · next zero_ =>
    rw [nth, if_pos (le_refl _), Counting.between_self]
    omega

/-- Business-day arithmetic is counting: the walk finds the n-th business day on either side, unless it is the first date of all, the span
between two dates is counted, and both agree.
-/
theorem business_days_count {options : BusinessCalendarOptions} {calendar : BusinessCalendar} (accepted : businessCalendar options = .ok calendar) :
    (∀ (value result : IsoDate) (count : Int), IsNth (Business calendar) value.date.ordinal count result.date.ordinal →
      (Ends (fun turns => addBusinessDays plainKind turns value count calendar) (.ok result) ↔
        count = 0 ∨ result.date.ordinal ≠ firstOrdinal)) ∧
    (∀ a b : IsoDate, businessDaysBetween a b calendar =
      if a.date.ordinal ≤ b.date.ordinal then (between (Business calendar) a.date.ordinal b.date.ordinal : Int)
      else -(between (Business calendar) b.date.ordinal a.date.ordinal : Int)) ∧
    (∀ (a result : IsoDate) (count : Int), isBusinessDay a calendar = true →
      IsNth (Business calendar) a.date.ordinal count result.date.ordinal → businessDaysBetween a result calendar = count) ∧
    ∀ (value middle last : IsoDate) (n m : Int), (0 ≤ n ∧ 0 ≤ m ∨ n ≤ 0 ∧ m ≤ 0) →
      IsNth (Business calendar) value.date.ordinal n middle.date.ordinal → IsNth (Business calendar) middle.date.ordinal m last.date.ordinal →
      (n = 0 ∨ middle.date.ordinal ≠ firstOrdinal) → (m = 0 ∨ last.date.ordinal ≠ firstOrdinal) →
      Ends (fun turns => addBusinessDays plainKind turns value n calendar) (.ok middle) ∧
        Ends (fun turns => addBusinessDays plainKind turns middle m calendar) (.ok last) ∧
        Ends (fun turns => addBusinessDays plainKind turns value (n + m) calendar) (.ok last) := by
  have wellFormed := businessCalendar_accepted accepted
  refine ⟨fun value result count nth => ?_, businessDaysBetween_eq wellFormed, fun a result count isBusiness nth => ?_,
    fun value middle last n m oneSign first second inFirst inSecond => ?_⟩
  · have ends := addBusinessDays_ends wellFormed nth
    constructor
    · intro answers
      by_contra isFirst
      rw [if_neg isFirst] at ends
      cases ends.unique answers
    · intro notFirst
      rwa [if_pos notFirst] at ends
  · exact businessDaysBetween_nth wellFormed ((isBusinessDay_iff a).mp isBusiness) nth
  · have ends := addBusinessDays_ends wellFormed first
    have goesOn := addBusinessDays_ends wellFormed second
    have whole := addBusinessDays_ends wellFormed (first.add second oneSign)
    rw [if_pos inFirst] at ends
    rw [if_pos inSecond] at goesOn
    refine ⟨ends, goesOn, ?_⟩
    have inWhole : n + m = 0 ∨ last.date.ordinal ≠ firstOrdinal := by
      rcases inSecond with rfl | notFirst
      · rw [show last.date.ordinal = middle.date.ordinal by simpa [IsNth] using second, Int.add_zero]
        exact inFirst
      · exact .inr notFirst
    rwa [if_pos inWhole] at whole

/-- One business day on from a Friday is the Monday after it, and the count from the one to the other is one. -/
theorem business_days_count_friday :
    Ends (fun turns => addBusinessDays plainKind turns ⟨⟨2026, 1, 2, by decide, by decide⟩, by decide⟩ 1 ⟨[6, 7], []⟩)
      (.ok ⟨⟨2026, 1, 5, by decide, by decide⟩, by decide⟩) ∧
    businessDaysBetween ⟨⟨2026, 1, 2, by decide, by decide⟩, by decide⟩ ⟨⟨2026, 1, 5, by decide, by decide⟩, by decide⟩ ⟨[6, 7], []⟩ = 1 := by
  obtain ⟨walks, -, counts, -⟩ := business_days_count businessCalendar_default
  have nth : IsNth (Business ⟨[6, 7], []⟩) (Date.ordinal ⟨2026, 1, 2, by decide, by decide⟩) 1 (Date.ordinal ⟨2026, 1, 5, by decide, by decide⟩) := by
    decide +kernel
  exact ⟨(walks _ _ 1 nth).mpr (.inr (by decide)), counts _ _ 1 (by decide) nth⟩

/-- From the second of Temporal's dates, a Tuesday, the business day before it is the first, and the walk throws. -/
theorem addBusinessDays_first_date :
    ¬ ∀ (options : BusinessCalendarOptions) (calendar : BusinessCalendar), businessCalendar options = .ok calendar →
      ∀ (value result : IsoDate) (count : Int), isSafeInteger count = true →
        IsNth (Business calendar) value.date.ordinal count result.date.ordinal →
        Ends (fun turns => addBusinessDays plainKind turns value count calendar) (.ok result) := by
  intro claimed
  let value : IsoDate := ⟨⟨-271821, 4, 20, by decide, by decide⟩, by decide⟩
  let result : IsoDate := ⟨⟨-271821, 4, 19, by decide, by decide⟩, by decide⟩
  have nth : IsNth (Business ⟨[6, 7], []⟩) value.date.ordinal (-1) result.date.ordinal := by decide +kernel
  have answers := claimed _ _ businessCalendar_default value result (-1) (by decide) nth
  have throws := addBusinessDays_ends (businessCalendar_accepted businessCalendar_default) nth
  rw [if_neg (by decide)] at throws
  cases throws.unique answers

end Arki.Dates
