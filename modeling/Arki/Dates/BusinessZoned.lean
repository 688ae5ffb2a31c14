import Arki.Dates.Business

/-! Business days of zoned values, in zones that skip whole days.

Which dates exist is the zone's; setting a date lands on it if it exists and on another one if not.
-/

set_option autoImplicit false

namespace Arki.Dates

open Counting (IsNth)

variable {V : Type} {kind : Kind V} {value : V} {calendar : BusinessCalendar} {direction : Int} {exists_ : ℤ → Prop}

def IsNextBusinessDay (calendar : BusinessCalendar) (exists_ : ℤ → Prop) (direction : Int) (day following : ℤ) : Prop :=
  ∃ k : ℕ, following = day + direction * (k + 1) ∧ (Business calendar following ∧ exists_ following) ∧
    ∀ i < k, ¬ (Business calendar (day + direction * (i + 1)) ∧ exists_ (day + direction * (i + 1)))

def Reaches (kind : Kind V) (value : V) (exists_ : ℤ → Prop) (direction : Int) (far : ℕ) : Prop :=
  ∀ i ≤ far, 0 < i → |kind.day value + direction * i| ≤ 100000000 ∧ Lands kind value exists_ (kind.day value + direction * i)

/-- A count ends on the first business day that exists from the counted one on. -/
theorem addBusinessDays_lands (accepted : calendar.IsAccepted) (isUnit : direction = 1 ∨ direction = -1) {count far : ℕ} (some_ : 0 < count)
    (reaches : Reaches kind value exists_ direction far) (there : exists_ (kind.day value + direction * far))
    (business : Business calendar (kind.day value + direction * far)) (enough : count ≤ passed calendar direction (kind.day value) far) :
    ∃ (landed : V) (steps : ℕ), Ends (fun turns => addBusinessDays kind turns value (direction * count) calendar) (.ok landed) ∧
      kind.day landed = kind.day value + direction * steps ∧ steps ≤ far ∧ (exists_ (kind.day landed) ∧ Business calendar (kind.day landed)) ∧
      count ≤ passed calendar direction (kind.day value) steps ∧ ∀ i < steps, exists_ (kind.day value + direction * i) →
        Business calendar (kind.day value + direction * i) → passed calendar direction (kind.day value) i < count := by
  classical
  have found : ∃ steps : ℕ, (exists_ (kind.day value + direction * steps) ∧ Business calendar (kind.day value + direction * steps)) ∧
      count ≤ passed calendar direction (kind.day value) steps := ⟨far, ⟨there, business⟩, enough⟩
  obtain ⟨⟨there_, business_⟩, enough_⟩ := Nat.find_spec found
  have near : Nat.find found ≤ far := Nat.find_min' found ⟨⟨there, business⟩, enough⟩
  have least : ∀ i < Nat.find found, exists_ (kind.day value + direction * i) → Business calendar (kind.day value + direction * i) →
      passed calendar direction (kind.day value) i < count := by
    intro i fewer isThere isBusiness
    by_contra reached
    exact Nat.find_min found fewer ⟨⟨isThere, isBusiness⟩, not_lt.mp reached⟩
  generalize Nat.find found = steps at there_ business_ enough_ near least
  have moved : 0 < steps := by
    by_contra none_
    rw [show steps = 0 by omega, passed_zero] at enough_
    omega
  have safe : isSafeInteger (direction * count) = true := by
    have first := (reaches 1 (by omega) (by omega)).1
    have last := (reaches far (Nat.le_refl _) (by omega)).1
    have few : passed calendar direction (kind.day value) far ≤ far := Nat.count_le _
    rw [abs_le] at first last
    rw [isSafeInteger, decide_eq_true_iff, abs_le]
    rcases isUnit with rfl | rfl <;> omega
  have apart : direction * count ≠ 0 := by rcases isUnit with rfl | rfl <;> omega
  have isSign : (direction * count).sign = direction := by
    rcases isUnit with rfl | rfl
    · exact Int.sign_eq_one_of_pos (by omega)
    · exact Int.sign_eq_neg_one_of_neg (by omega)
  have isCount : (direction * count).natAbs = count := by rcases isUnit with rfl | rfl <;> omega
  have target : Target kind calendar value (direction * count).sign exists_ (kind.day value) (direction * count).natAbs steps := by
    rw [isSign, isCount]
    exact ⟨fun i within some__ => reaches i (by omega) (some__.resolve_left (by omega)), there_, .inr business_, fun _ => ⟨moved, enough_⟩,
      fun i fewer due isThere => ⟨by omega, least i fewer isThere (due.resolve_left (by omega))⟩⟩
  obtain ⟨landed, ends, same⟩ := walk_lands accepted apart target
  rw [isSign] at same
  refine ⟨landed, steps, ?_, same, near, by rw [same]; exact ⟨there_, business_⟩, enough_, least⟩
  simpa only [addBusinessDays, safe, if_true] using ends

theorem passed_business (calendar : BusinessCalendar) {day : ℤ} {fewer steps : ℕ} (less : fewer < steps) (business : Business calendar (day + direction * steps)) :
    passed calendar direction day fewer < passed calendar direction day steps := by
  obtain ⟨before, rfl⟩ : ∃ before, steps = before + 1 := ⟨steps - 1, by omega⟩
  have few := passed_mono calendar direction day (Nat.le_of_lt_succ less)
  rw [Nat.cast_succ] at business
  rw [passed, passed, Nat.count_succ, if_pos business] at *
  omega

/-- The n-th business day lies so many steps away that the n-th of them is passed with it. -/
theorem isNth_passed (isUnit : direction = 1 ∨ direction = -1) {day counted : ℤ} {count : ℕ} (some_ : 0 < count)
    (nth : IsNth (Business calendar) day (direction * count) counted) :
    ∃ steps : ℕ, counted = day + direction * steps ∧ Business calendar counted ∧ passed calendar direction day steps = count := by
  have apart : direction * count ≠ 0 := by rcases isUnit with rfl | rfl <;> omega
  have isSign : (direction * count).sign = direction := by
    rcases isUnit with rfl | rfl
    · exact Int.sign_eq_one_of_pos (by omega)
    · exact Int.sign_eq_neg_one_of_neg (by omega)
  obtain ⟨before, is, holds, whole⟩ := (Counting.isNth_iff _ apart).mp nth
  rw [isSign] at is whole
  refine ⟨before + 1, by rw [is]; push_cast; rfl, holds, ?_⟩
  rw [passed, Nat.count_succ, if_pos (is ▸ holds), whole]
  rcases isUnit with rfl | rfl <;> omega

/-- One count more leads to the next business day that exists exactly when the day of the count exists, or nothing was counted: a missing
day that the walk lands on is not counted, and one that it passes is.
-/
theorem addBusinessDays_next (accepted : calendar.IsAccepted) (isUnit : direction = 1 ∨ direction = -1) {count far : ℕ} {counted : ℤ}
    (reaches : Reaches kind value exists_ direction far) (there : exists_ (kind.day value + direction * far))
    (business : Business calendar (kind.day value + direction * far)) (enough : count + 1 ≤ passed calendar direction (kind.day value) far)
    (nth : IsNth (Business calendar) (kind.day value) (direction * count) counted) :
    ∃ landed following, Ends (fun turns => addBusinessDays kind turns value (direction * count) calendar) (.ok landed) ∧
      Ends (fun turns => addBusinessDays kind turns value (direction * (count + 1 : ℕ)) calendar) (.ok following) ∧
      (IsNextBusinessDay calendar exists_ direction (kind.day landed) (kind.day following) ↔ count = 0 ∨ exists_ counted) := by
  obtain ⟨following, steps_, ends_, same_, near_, isThere_, enough_, least_⟩ :=
    addBusinessDays_lands accepted isUnit (Nat.succ_pos count) reaches there business enough
  have along (first second : ℕ) : kind.day value + direction * first + direction * second = kind.day value + direction * (first + second : ℕ) := by
    push_cast
    ring
  -- from where the count is passed exactly, the walk of one more finds the next
  have next_ {base : ℕ} (whole : passed calendar direction (kind.day value) base = count) :
      IsNextBusinessDay calendar exists_ direction (kind.day value + direction * base) (kind.day following) := by
    have further : base < steps_ := by
      by_contra before
      have few := passed_mono calendar direction (kind.day value) (not_lt.mp before)
      omega
    refine ⟨steps_ - base - 1, ?_, ⟨isThere_.2, isThere_.1⟩, fun i fewer both => ?_⟩
    · rw [same_, ← Nat.cast_succ, along]
      congr 3
      omega
    · rw [← Nat.cast_succ, along] at both
      have less := least_ (base + (i + 1)) (by omega) both.2 both.1
      have more := passed_business calendar (show base < base + (i + 1) by omega) both.1
      omega
  rcases Nat.eq_zero_or_pos count with rfl | some_
  · refine ⟨value, following, ⟨0, fun turns _ => by simp [addBusinessDays, walk, isSafeInteger]⟩, ends_, ?_⟩
    have fromStart := next_ (passed_zero _)
    rw [Nat.cast_zero, mul_zero, add_zero] at fromStart
    exact iff_of_true fromStart (.inl rfl)
  · obtain ⟨landed, steps, ends, same, near, isThere, reached, least⟩ :=
      addBusinessDays_lands accepted isUnit some_ reaches there business (by omega)
    refine ⟨landed, following, ends, ends_, ?_⟩
    obtain ⟨ordinal, rfl, business_, whole⟩ := isNth_passed isUnit some_ nth
    rw [or_iff_right (by omega)]
    constructor
    · rintro ⟨k, is, -, -⟩
      by_contra missing
      have notBefore : ordinal ≤ steps := by
        by_contra before
        have few := passed_business calendar (not_le.mp before) business_
        omega
      have beyond : ordinal < steps := by
        refine lt_of_le_of_ne notBefore fun sameDay => missing ?_
        rw [sameDay, ← same]
        exact isThere.1
      have more := passed_business calendar beyond (same ▸ isThere.2)
      have notAfter : steps_ ≤ steps := by
        by_contra after
        have fewer := least_ steps (not_le.mp after) (same ▸ isThere.1) (same ▸ isThere.2)
        omega
      rw [same, same_, ← Nat.cast_succ, along] at is
      have apart : steps_ = steps + (k + 1) := by rcases isUnit with rfl | rfl <;> omega
      omega
    · intro isThere_
      have notAfter : steps ≤ ordinal := by
        by_contra before
        have fewer := least ordinal (not_le.mp before) isThere_ business_
        omega
      have few := passed_mono calendar direction (kind.day value) notAfter
      rw [same]
      exact next_ (by omega)

/-- For one count after another: the next date is the first that is a business day and exists exactly when the date of the count exists. Up to
a business day that completes one more, each date is to be set, which lands on it if it exists and elsewhere if not.
-/
theorem zoned_business_days {options : BusinessCalendarOptions} {calendar : BusinessCalendar} (accepted : businessCalendar options = .ok calendar)
    (isUnit : direction = 1 ∨ direction = -1) {count far : ℕ} {counted : ℤ} (reaches : Reaches kind value exists_ direction far)
    (there : exists_ (kind.day value + direction * far)) (business : Business calendar (kind.day value + direction * far))
    (enough : count + 1 ≤ passed calendar direction (kind.day value) far)
    (nth : IsNth (Business calendar) (kind.day value) (direction * count) counted) :
    ∃ landed following, Ends (fun turns => addBusinessDays kind turns value (direction * count) calendar) (.ok landed) ∧
      Ends (fun turns => addBusinessDays kind turns value (direction * (count + 1 : ℕ)) calendar) (.ok following) ∧
      (IsNextBusinessDay calendar exists_ direction (kind.day landed) (kind.day following) ↔ count = 0 ∨ exists_ counted) :=
  addBusinessDays_next (businessCalendar_accepted accepted) isUnit reaches there business enough nth

def missing : Int := 15338

def samoa : Kind Int where
  day value := value
  with_ _ fields :=
    let day := daysFromCivil fields.year fields.month fields.day
    .ok (if day = missing then missing + 1 else day)

theorem samoa_lands (value day : Int) : Lands samoa value (· ≠ missing) day := by
  obtain ⟨date, is, rfl⟩ := civilFromDays_eq day
  refine ⟨if date.ordinal = missing then missing + 1 else date.ordinal, ?_, ?_⟩
  · simp only [samoa, is, daysFromCivil_eq]
  · show (if date.ordinal = missing then missing + 1 else date.ordinal) = date.ordinal ↔ date.ordinal ≠ missing
    split
    · next same => simp [same]
    · next other => simp [other]

/-- From the Wednesday before, one more than one business day leads to the next that exists. -/
theorem zoned_business_days_wednesday : ∃ landed following,
    Ends (fun turns => addBusinessDays samoa turns 15336 (1 * (1 : ℕ)) ⟨[6, 7], []⟩) (.ok landed) ∧
    Ends (fun turns => addBusinessDays samoa turns 15336 (1 * (1 + 1 : ℕ)) ⟨[6, 7], []⟩) (.ok following) ∧
    (IsNextBusinessDay ⟨[6, 7], []⟩ (· ≠ missing) 1 landed following ↔ (1 : ℕ) = 0 ∨ (15337 : ℤ) ≠ missing) := by
  have reaches : Reaches samoa 15336 (· ≠ missing) 1 5 := by
    refine fun i within _ => ⟨?_, samoa_lands _ _⟩
    show |(15336 : ℤ) + 1 * i| ≤ 100000000
    rw [abs_le]
    omega
  exact zoned_business_days businessCalendar_default (.inl rfl) reaches (by decide) (by decide) (by decide) (by decide +kernel)

/-- From that Wednesday, two business days lead past the missing Friday to the Monday, and so do three, as the Friday counts for them. -/
theorem addBusinessDays_missing_friday : (∀ day, Lands samoa 15336 (· ≠ missing) day) ∧
    Ends (fun turns => addBusinessDays samoa turns 15336 2 ⟨[6, 7], []⟩) (.ok 15341) ∧
    Ends (fun turns => addBusinessDays samoa turns 15336 3 ⟨[6, 7], []⟩) (.ok 15341) ∧
    ¬ IsNextBusinessDay ⟨[6, 7], []⟩ (· ≠ missing) 1 15341 15341 := by
  refine ⟨samoa_lands _, ⟨10, fun turns long => ?_⟩, ⟨10, fun turns long => ?_⟩, ?_⟩
  · exact walkFrom_more (show walkFrom samoa ⟨[6, 7], []⟩ false 15336 1 10 15336 2 = some (.ok 15341) from rfl) long
  · exact walkFrom_more (show walkFrom samoa ⟨[6, 7], []⟩ false 15336 1 10 15336 3 = some (.ok 15341) from rfl) long
  · rintro ⟨k, is, -⟩
    omega

end Arki.Dates
