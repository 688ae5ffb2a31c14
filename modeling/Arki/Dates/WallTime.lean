import Arki.Dates.Offsets
import Arki.Dates.PlainDate

/-! What the lookups answer for a zone, whatever the cache holds.

A skipped reading is answered from the two days around it. Temporal looks the shifted reading up again, which differs only where that
reading is possible a second time farther off.
-/

set_option autoImplicit false

namespace Arki.Dates

open LocalTime

section Lookups

variable {temporalOffset : String → Int → Int} {zone : String} {first final low day offset value : Int}

theorem day_bounds (epochMs : Int) : epochMs / MS_PER_DAY * MS_PER_DAY ≤ epochMs ∧ epochMs < (epochMs / MS_PER_DAY + 1) * MS_PER_DAY := by
  unfold MS_PER_DAY
  omega

theorem day_mono {epochMs later : Int} (order : epochMs ≤ later) : epochMs / MS_PER_DAY ≤ later / MS_PER_DAY := by
  unfold MS_PER_DAY
  omega

theorem offsetAt_yields (forward : NeverBack (temporalOffset zone)) (epochMs : Int) :
    Yields temporalOffset (offsetAt temporalOffset zone epochMs) (· = temporalOffset zone epochMs) := by
  refine (dayOf_yields zone _).bind fun entry is => ?_
  have describes := describeDay_spec forward (epochMs / MS_PER_DAY)
  have inside := day_bounds epochMs
  rw [← is] at describes
  cases entry with
  | offset value => exact .pure (describes epochMs inside.1 inside.2).symm
  | complex => exact .pure rfl
  | change change =>
    refine .pure ?_
    split
    next before => exact (describes.before epochMs inside.1 before).symm
    next after => exact (describes.after epochMs (not_lt.mp after) inside.2).symm

theorem uniformFrom_yields (forward : NeverBack (temporalOffset zone)) (left : Nat)
    (constant : Constant (temporalOffset zone) low ((day + 1) * MS_PER_DAY) offset) :
    Yields temporalOffset (uniformFrom temporalOffset zone offset day left) fun answer => ∀ found, answer = some found →
      Constant (temporalOffset zone) low ((day + left + 1) * MS_PER_DAY) found := by
  induction left generalizing day with
  | zero =>
    refine .pure fun found is => ?_
    obtain rfl := Option.some.inj is
    simpa using constant
  | succ left ih =>
    refine (dayOf_yields zone _).bind fun entry is => ?_
    have describes := describeDay_spec forward (day + 1)
    rw [← is] at describes
    split
    next => exact .pure fun found is => by cases is
    next same =>
      rw [not_not.mp same] at describes
      have next_ := ih (constant.append describes)
      rw [show day + 1 + (left : Int) + 1 = day + ((left + 1 : Nat) : Int) + 1 by omega] at next_
      exact next_

theorem uniformOffset_yields (forward : NeverBack (temporalOffset zone)) (order : first ≤ final) :
    Yields temporalOffset (uniformOffset temporalOffset zone first final) fun answer => ∀ found, answer = some found →
      Constant (temporalOffset zone) first (final + 1) found := by
  refine (dayOf_yields zone _).bind fun entry is => ?_
  have describes := describeDay_spec forward (first / MS_PER_DAY)
  rw [← is] at describes
  cases entry with
  | complex => exact .pure fun found is => by cases is
  | change change => exact .pure fun found is => by cases is
  | offset value =>
    intro cache sound
    have scan := uniformFrom_yields forward (final / MS_PER_DAY - first / MS_PER_DAY).toNat describes cache sound
    refine ⟨fun found is => (scan.1 found is).sub (day_bounds first).1 ?_, scan.2⟩
    have days := day_mono order
    have last := (day_bounds final).2
    rw [show first / MS_PER_DAY + ((final / MS_PER_DAY - first / MS_PER_DAY).toNat : Int) + 1 = final / MS_PER_DAY + 1 by omega]
    omega

theorem changeFrom_yields (forward : NeverBack (temporalOffset zone)) (left : Nat) {change : Option Change} {previous : Option Int}
    (scanned : Scanned (temporalOffset zone) low (day * MS_PER_DAY) change previous) :
    Yields temporalOffset (changeFrom temporalOffset zone change previous day left) fun answer => ∀ found, answer = some found →
      ∃ last, Scanned (temporalOffset zone) low ((day + left) * MS_PER_DAY) found last := by
  induction left generalizing day change previous with
  | zero =>
    refine .pure fun found is => ⟨previous, ?_⟩
    obtain rfl := Option.some.inj is
    simpa using scanned
  | succ left ih =>
    refine (dayOf_yields zone _).bind fun entry is => ?_
    have describes := describeDay_spec forward day
    rw [← is] at describes
    split
    next => exact .pure fun found is => by cases is
    next later last absorbed =>
      have next_ := ih (scanned.absorb describes absorbed)
      rw [show day + 1 + (left : Int) = day + ((left + 1 : Nat) : Int) by omega] at next_
      exact next_

def WindowHas (offset : Int → Int) (first final : Int) : Option Change → Prop
  | none => ∃ value, Constant offset first (final + 1) value
  | some change => ChangesOnce offset first (final + 1) change

theorem changeBetween_yields (forward : NeverBack (temporalOffset zone)) (order : first ≤ final) :
    Yields temporalOffset (changeBetween temporalOffset zone first final) fun answer => ∀ found, answer = some found →
      WindowHas (temporalOffset zone) first final found := by
  have days := day_mono order
  have start := (day_bounds first).1
  have stop := (day_bounds final).2
  have unseen : Scanned (temporalOffset zone) (first / MS_PER_DAY * MS_PER_DAY) (first / MS_PER_DAY * MS_PER_DAY) none none := rfl
  refine (changeFrom_yields forward _ unseen).bind fun answer scan => ?_
  rw [show first / MS_PER_DAY + ((final / MS_PER_DAY - first / MS_PER_DAY + 1).toNat : Int) = final / MS_PER_DAY + 1 by omega] at scan
  match answer with
  | none => exact .pure fun found is => by cases is
  | some none =>
    refine .pure fun found is => ?_
    obtain rfl := Option.some.inj is
    obtain ⟨last, scanned⟩ := scan none rfl
    cases last with
    | none =>
      have none_ : first / MS_PER_DAY * MS_PER_DAY = (final / MS_PER_DAY + 1) * MS_PER_DAY := scanned
      omega
    | some value => exact ⟨value, scanned.2.sub start (by omega)⟩
  | some (some change) =>
    obtain ⟨last, scanned⟩ := scan (some change) rfl
    cases last with
    | none => exact scanned.elim
    | some value =>
      obtain ⟨once, -⟩ := scanned
      refine .pure fun found is => ?_
      split at is
      next outside =>
        obtain rfl := Option.some.inj is
        rcases outside with early | late
        · exact ⟨change.after, once.after.sub early (by omega)⟩
        · exact ⟨change.before, once.before.sub start (by omega)⟩
      next inside =>
        obtain rfl := Option.some.inj is
        rw [not_or, not_le, not_lt] at inside
        exact ⟨inside.1, by omega, once.before.sub start (le_refl _), once.after.sub (le_refl _) (by omega)⟩

end Lookups

section Answers

variable {temporalOffset : String → Int → Int} {zone : String} {offset : Int → Int} {wall t : Int} {disambiguation : Disambiguation} {change : Change}

/-- What `resolveWall` tells about a reading. -/
def Resolves (offset : Int → Int) (wall : Int) : WallResolution → Prop
  | .unique t => ∀ u, Reads offset wall u ↔ u = t
  | .fold earlier later => earlier < later ∧ ∀ u, Reads offset wall u ↔ u = earlier ∨ u = later
  | .gap before after moment => ChangesOnce offset (wall - MS_PER_DAY) (wall + MS_PER_DAY + 1) ⟨before, moment, after⟩ ∧
      moment ≤ wall - before ∧ wall - after < moment

theorem resolveWall_yields (small : ∀ t, |temporalOffset zone t| < MS_PER_DAY) (forward : NeverBack (temporalOffset zone)) (wall : Int) :
    Yields temporalOffset (resolveWall temporalOffset zone wall) fun answer => ∀ resolution, answer = some resolution →
      Resolves (temporalOffset zone) wall resolution := by
  have positive : 0 < MS_PER_DAY := by decide
  refine (changeBetween_yields forward (by omega)).bind fun answer window => ?_
  match answer with
  | none => exact .pure fun _ is => by cases is
  | some none =>
    refine (offsetAt_yields forward wall).bind fun value is => .pure fun resolution isUnique => ?_
    obtain rfl := Option.some.inj isUnique
    obtain ⟨known, constant⟩ := window none rfl
    have here := constant wall (by omega) (by omega)
    intro u
    rw [reads_of_constant small constant, is, here]
  | some (some change) =>
    have once : ChangesOnce _ _ _ change := window (some change) rfl
    have reads (u : Int) := reads_of_changesOnce (t := u) small once
    refine .pure fun resolution is => ?_
    obtain rfl := Option.some.inj is
    split
    next both =>
      rw [min_eq_left (by omega), max_eq_right (by omega)]
      refine ⟨by omega, fun u => (reads u).trans ⟨?_, ?_⟩⟩
      · exact Or.imp And.left And.left
      · rintro (rfl | rfl)
        · exact .inl ⟨rfl, both.1⟩
        · exact .inr ⟨rfl, both.2⟩
    next notBoth =>
      split
      next before => exact fun u => (reads u).trans ⟨fun is => by omega, fun is => .inl ⟨is, by omega⟩⟩
      next notBefore =>
        split
        next after => exact fun u => (reads u).trans ⟨fun is => by omega, fun is => .inr ⟨is, by omega⟩⟩
        next notAfter => exact ⟨once, by omega, by omega⟩

/-- What `epochFromWall` promises: Temporal's instant for a reading that exists, and for a skipped one the instant that the offset of the
other side gives, which is Temporal's where the shifted reading is not possible beyond the two days as well. -/
structure Answers (offset : Int → Int) (wall : Int) (disambiguation : Disambiguation) (t : Int) : Prop where
  exists_ : (possible offset wall).Nonempty → Means offset MS_PER_DAY wall disambiguation t
  skipped : ¬(possible offset wall).Nonempty → disambiguation ≠ .reject ∧
    t = wall - (if disambiguation = .earlier then offset (wall + MS_PER_DAY) else offset (wall - MS_PER_DAY)) ∧
    (Means offset MS_PER_DAY wall disambiguation t ↔
      if disambiguation = .earlier then ∀ u, Reads offset (wall - LocalTime.shift offset MS_PER_DAY wall) u → wall - MS_PER_DAY ≤ u
      else ∀ u, Reads offset (wall + LocalTime.shift offset MS_PER_DAY wall) u → u ≤ wall + MS_PER_DAY)

theorem Answers.of_unique (unique : ∀ u, Reads offset wall u ↔ u = t) (disambiguation : Disambiguation) : Answers offset wall disambiguation t := by
  have single : possible offset wall = {t} := Set.ext unique
  have exists_ : (possible offset wall).Nonempty := ⟨t, (unique t).mpr rfl⟩
  refine ⟨fun _ => .inl ⟨exists_, ?_⟩, fun none => absurd exists_ none⟩
  rw [single]
  cases disambiguation with
  | compatible => exact isLeast_singleton
  | earlier => exact isLeast_singleton
  | later => exact isGreatest_singleton
  | reject => rfl

theorem Answers.of_fold {earlier later : Int} (order : earlier < later) (reads : ∀ u, Reads offset wall u ↔ u = earlier ∨ u = later)
    (choice : disambiguation ≠ .reject) : Answers offset wall disambiguation (if disambiguation = .later then later else earlier) := by
  have exists_ : (possible offset wall).Nonempty := ⟨earlier, (reads earlier).mpr (.inl rfl)⟩
  have least : IsLeast (possible offset wall) earlier := ⟨(reads earlier).mpr (.inl rfl), fun u is => by
    rcases (reads u).mp is with rfl | rfl <;> omega⟩
  have greatest : IsGreatest (possible offset wall) later := ⟨(reads later).mpr (.inr rfl), fun u is => by
    rcases (reads u).mp is with rfl | rfl <;> omega⟩
  refine ⟨fun _ => .inl ⟨exists_, ?_⟩, fun none => absurd exists_ none⟩
  cases disambiguation with
  | compatible => exact least
  | earlier => exact least
  | later => exact greatest
  | reject => exact absurd rfl choice

structure Gap (offset : Int → Int) (wall : Int) (change : Change) : Prop where
  once : ChangesOnce offset (wall - MS_PER_DAY) (wall + MS_PER_DAY + 1) change
  before : change.moment ≤ wall - change.before
  after : wall - change.after < change.moment
  first : offset (wall - MS_PER_DAY) = change.before
  last : offset (wall + MS_PER_DAY) = change.after
  narrow : |change.before| < MS_PER_DAY ∧ |change.after| < MS_PER_DAY
  none : ¬(possible offset wall).Nonempty

theorem gap_of_resolves (small : ∀ t, |offset t| < MS_PER_DAY) {before after moment : Int}
    (resolves : Resolves offset wall (.gap before after moment)) : Gap offset wall ⟨before, moment, after⟩ := by
  obtain ⟨once, isBefore, isAfter⟩ := resolves
  have later := once.later
  have inside := once.inside
  have first := once.before (wall - MS_PER_DAY) (le_refl _) later
  have last := once.after (wall + MS_PER_DAY) (by omega) (by omega)
  refine ⟨once, isBefore, isAfter, first, last, ⟨first ▸ small _, last ▸ small _⟩, ?_⟩
  rintro ⟨u, reads⟩
  rcases (reads_of_changesOnce small once).mp reads with ⟨rfl, early⟩ | ⟨rfl, late⟩
  · exact absurd early (not_lt.mpr isBefore)
  · exact absurd late (not_le.mpr isAfter)

theorem Gap.earlier (gap : Gap offset wall change) :
    IsLeast (possible offset (wall - LocalTime.shift offset MS_PER_DAY wall)) (wall - change.after) ↔
      ∀ u, Reads offset (wall - LocalTime.shift offset MS_PER_DAY wall) u → wall - MS_PER_DAY ≤ u := by
  have isAfter := gap.after
  have narrow := abs_lt.mp gap.narrow.2
  have here := gap.once.before (wall - change.after) (by omega) isAfter
  rw [LocalTime.shift, gap.first, gap.last]
  constructor
  · intro least u reads
    have lower := least.2 reads
    omega
  · refine fun within => ⟨?_, fun u reads => ?_⟩
    · change wall - change.after + offset (wall - change.after) = _
      omega
    · have low := within u reads
      rcases lt_or_ge u change.moment with early | late
      · have there := gap.once.before u low early
        have is : u + offset u = wall - (change.after - change.before) := reads
        omega
      · omega

theorem Gap.later (gap : Gap offset wall change) :
    IsGreatest (possible offset (wall + LocalTime.shift offset MS_PER_DAY wall)) (wall - change.before) ↔
      ∀ u, Reads offset (wall + LocalTime.shift offset MS_PER_DAY wall) u → u ≤ wall + MS_PER_DAY := by
  have isBefore := gap.before
  have narrow := abs_lt.mp gap.narrow.1
  have here := gap.once.after (wall - change.before) isBefore (by omega)
  rw [LocalTime.shift, gap.first, gap.last]
  constructor
  · intro greatest u reads
    have upper := greatest.2 reads
    omega
  · refine fun within => ⟨?_, fun u reads => ?_⟩
    · change wall - change.before + offset (wall - change.before) = _
      omega
    · have high := within u reads
      rcases lt_or_ge u change.moment with early | late
      · omega
      · have there := gap.once.after u late (by omega)
        have is : u + offset u = wall + (change.after - change.before) := reads
        omega

theorem Answers.of_gap (gap : Gap offset wall change) (choice : disambiguation ≠ .reject) :
    Answers offset wall disambiguation (if disambiguation = .earlier then wall - change.after else wall - change.before) := by
  refine ⟨fun exists_ => absurd exists_ gap.none, fun none => ⟨choice, ?_, ?_⟩⟩
  · rw [gap.first, gap.last]
    split <;> rfl
  · have means (t : Int) : Means offset MS_PER_DAY wall disambiguation t ↔ Shifted offset MS_PER_DAY wall t disambiguation := by
      simp only [Means, none, not_false_eq_true, true_and, false_and, false_or]
    rw [means]
    cases disambiguation with
    | compatible => exact gap.later
    | earlier => exact gap.earlier
    | later => exact gap.later
    | reject => exact absurd rfl choice

theorem epochFromWall_yields (small : ∀ t, |temporalOffset zone t| < MS_PER_DAY) (forward : NeverBack (temporalOffset zone)) (wall : Int)
    (disambiguation : Disambiguation) :
    Yields temporalOffset (epochFromWall temporalOffset zone wall disambiguation) fun answer => ∀ t, answer = some t →
      Answers (temporalOffset zone) wall disambiguation t := by
  have positive : 0 < MS_PER_DAY := by decide
  refine (uniformOffset_yields forward (by omega)).bind fun uniform constant => ?_
  cases uniform with
  | some value =>
    refine .pure fun t is => ?_
    obtain rfl := Option.some.inj is
    exact .of_unique (fun u => reads_of_constant small (constant value rfl)) disambiguation
  | none =>
    refine (resolveWall_yields small forward wall).bind fun resolution resolves => ?_
    match resolution with
    | none => exact .pure fun t is => by cases is
    | some (.unique epochMs) =>
      refine .pure fun t is => ?_
      obtain rfl := Option.some.inj is
      exact .of_unique (resolves _ rfl) disambiguation
    | some (.fold earlier later) =>
      refine .pure fun t is => ?_
      split at is
      · cases is
      next choice =>
        obtain rfl := Option.some.inj is
        exact .of_fold (resolves _ rfl).1 (resolves _ rfl).2 choice
    | some (.gap before after moment) =>
      refine .pure fun t is => ?_
      split at is
      · cases is
      next choice =>
        obtain rfl := Option.some.inj is
        exact .of_gap (gap_of_resolves small (resolves _ rfl)) choice

/-- What `startOfDayEpoch` promises: the first instant of a reading that exists, and for a skipped one the instant at which the clock was
put on past it, which is Temporal's where no instant beyond the next day reads earlier. -/
structure StartAnswers (offset : Int → Int) (wall t : Int) : Prop where
  exists_ : (possible offset wall).Nonempty → StartsAt offset wall t
  skipped : ¬(possible offset wall).Nonempty → (wall - MS_PER_DAY < t ∧ t ≤ wall + MS_PER_DAY) ∧
    (∀ u, wall - MS_PER_DAY ≤ u → u < t → u + offset u < wall) ∧ (∀ u, t ≤ u → u ≤ wall + MS_PER_DAY → wall < u + offset u) ∧
    (StartsAt offset wall t ↔ ∀ u, wall + MS_PER_DAY < u → wall < u + offset u → t + offset t ≤ u + offset u)

theorem StartAnswers.of_least (least : IsLeast (possible offset wall) t) : StartAnswers offset wall t :=
  ⟨fun exists_ => .inl ⟨exists_, least⟩, fun none => absurd ⟨t, least.1⟩ none⟩

theorem StartAnswers.of_gap (small : ∀ t, |offset t| < MS_PER_DAY) (gap : Gap offset wall change) : StartAnswers offset wall change.moment := by
  have isBefore := gap.before
  have isAfter := gap.after
  have within := gap.once.later
  have inside := gap.once.inside
  have early : ∀ u, wall - MS_PER_DAY ≤ u → u < change.moment → u + offset u < wall := fun u low below => by
    have here := gap.once.before u low below
    omega
  have late : ∀ u, change.moment ≤ u → u ≤ wall + MS_PER_DAY → change.moment + change.after ≤ u + offset u := fun u above high => by
    have here := gap.once.after u above (by omega)
    omega
  have moment := gap.once.after change.moment (le_refl _) inside
  refine ⟨fun exists_ => absurd exists_ gap.none, fun none => ⟨⟨within, by omega⟩, early, fun u above high => ?_, ?_⟩⟩
  · have reached := late u above high
    omega
  constructor
  · rintro (⟨exists_, -⟩ | ⟨-, reading, first, starts⟩) u - isPast
    · exact absurd exists_ none
    · have is : change.moment + offset change.moment = reading := starts.1
      rw [is]
      exact first.2 ⟨isPast, u, rfl⟩
  · intro beyond
    -- a reading past the wall is made from the change on
    have reached (u : Int) (isPast : wall < u + offset u) : change.moment ≤ u ∧ change.moment + offset change.moment ≤ u + offset u := by
      have wide := abs_lt.mp (small u)
      have notBefore : change.moment ≤ u := by
        by_contra below
        have there := early u (by omega) (by omega)
        omega
      refine ⟨notBefore, ?_⟩
      rcases le_or_gt u (wall + MS_PER_DAY) with near | far
      · rw [moment]
        exact late u notBefore near
      · exact beyond u far isPast
    have isPast : wall < change.moment + offset change.moment := by omega
    refine .inr ⟨none, change.moment + offset change.moment, ⟨⟨isPast, change.moment, rfl⟩, ?_⟩, rfl, ?_⟩
    · rintro reading ⟨past, u, rfl⟩
      exact (reached u past).2
    · intro u reads
      have is : u + offset u = change.moment + offset change.moment := reads
      exact (reached u (by omega)).1

theorem startOfDayEpoch_yields (small : ∀ t, |temporalOffset zone t| < MS_PER_DAY) (forward : NeverBack (temporalOffset zone)) (wall : Int) :
    Yields temporalOffset (startOfDayEpoch temporalOffset zone wall) fun answer => ∀ t, answer = some t →
      StartAnswers (temporalOffset zone) wall t := by
  have positive : 0 < MS_PER_DAY := by decide
  have single {t : Int} (unique : ∀ u, Reads (temporalOffset zone) wall u ↔ u = t) : IsLeast (possible (temporalOffset zone) wall) t :=
    ⟨(unique t).mpr rfl, fun u reads => ((unique u).mp reads).ge⟩
  refine (uniformOffset_yields forward (by omega)).bind fun uniform constant => ?_
  cases uniform with
  | some value =>
    refine .pure fun t is => ?_
    obtain rfl := Option.some.inj is
    exact .of_least (single fun u => reads_of_constant small (constant value rfl))
  | none =>
    refine (resolveWall_yields small forward wall).bind fun resolution resolves => ?_
    match resolution with
    | none => exact .pure fun t is => by cases is
    | some (.unique epochMs) =>
      refine .pure fun t is => ?_
      obtain rfl := Option.some.inj is
      exact .of_least (single (resolves _ rfl))
    | some (.fold earlier later) =>
      refine .pure fun t is => ?_
      obtain rfl := Option.some.inj is
      obtain ⟨order, reads⟩ := resolves _ rfl
      refine .of_least ⟨(reads _).mpr (.inl rfl), fun u is => ?_⟩
      rcases (reads u).mp is with rfl | rfl <;> omega
    | some (.gap before after moment) =>
      refine .pure fun t is => ?_
      obtain rfl := Option.some.inj is
      exact .of_gap small (gap_of_resolves small (resolves _ rfl))

end Answers

section Zoned

structure ZonedDateTime where
  epochNanoseconds : Int
  timeZoneId : String
  calendarId : String

def ZonedDateTime.epochMilliseconds (value : ZonedDateTime) : Int := value.epochNanoseconds / 1000000

def LIMIT_MS : Int := 8640000000000000 - 2 * MS_PER_DAY

def within (epochMs : Int) : Bool := |epochMs| ≤ LIMIT_MS

/-- `zonedDays`. -/
def zonedDays (temporalOffset : String → Int → Int) (epochMs : Int) (zone : String) : Cached Int := do
  let offset ← offsetAt temporalOffset zone epochMs
  return (epochMs + offset) / MS_PER_DAY

def startOfZoned (temporalOffset : String → Int → Int) (value : ZonedDateTime) (unit : CalendarUnit) (rules : WeekRules) :
    Cached (Option ZonedDateTime) := do
  if value.calendarId ≠ "iso8601" then return none
  else if !within value.epochMilliseconds then return none
  else
    let days ← zonedDays temporalOffset value.epochMilliseconds value.timeZoneId
    match ← startOfDayEpoch temporalOffset value.timeZoneId (bucketStart days unit rules * MS_PER_DAY) with
    | none => return none
    | some start => return if within start then some ⟨start * 1000000, value.timeZoneId, "iso8601"⟩ else none

theorem bucketStart_firstDay (date : Calendar.Date) (unit : CalendarUnit) (rules : WeekRules) :
    ∃ first : Calendar.Date, bucketStart date.ordinal unit rules = first.ordinal ∧ IsFirstDay unit rules date first := by
  have isMonth := date.isMonth
  have long (month : Int) := Calendar.monthLength_bounds date.year month
  unfold bucketStart
  rw [civilFromDays_ordinal]
  cases unit with
  | day => exact ⟨date, rfl, rfl, fun other same => (congrArg Calendar.Date.ordinal same.symm).le⟩
  | week =>
    obtain ⟨starts, low, high⟩ := weekStart_eq date.ordinal rules
    obtain ⟨first, -, is⟩ := civilFromDays_eq (weekStart date.ordinal rules)
    refine ⟨first, is.symm, ⟨_, starts, by omega, low, high⟩, ?_⟩
    rintro other ⟨start, startsToo, inOther, inDate⟩
    rw [is, week_unique starts startsToo ⟨low, high⟩ inDate]
    exact inOther.1
  | month =>
    refine ⟨⟨date.year, date.month, 1, isMonth, by have short := long date.month; omega⟩, daysFromCivil_eq ⟨_, _, _, _, _⟩, ⟨rfl, rfl⟩, fun other same => ?_⟩
    exact ordinal_mono same.1.symm (.inr ⟨same.2.symm, other.isDay.1⟩)
  | quarter =>
    refine ⟨⟨date.year, (date.month - 1) / 3 * 3 + 1, 1, by omega, by have short := long ((date.month - 1) / 3 * 3 + 1); omega⟩,
      daysFromCivil_eq ⟨_, _, _, _, _⟩, ⟨rfl, ?_⟩, fun other same => ?_⟩
    · show ((date.month - 1) / 3 * 3 + 1 - 1) / 3 = _
      omega
    · have low := other.isDay.1
      have quarters := same.2
      refine ordinal_mono same.1.symm ?_
      show (date.month - 1) / 3 * 3 + 1 < other.month ∨ (date.month - 1) / 3 * 3 + 1 = other.month ∧ 1 ≤ other.day
      omega
  | year =>
    refine ⟨⟨date.year, 1, 1, by decide, by have short := long 1; omega⟩, daysFromCivil_eq ⟨_, _, _, _, _⟩, rfl, fun other same => ?_⟩
    have low := other.isDay.1
    have first := other.isMonth.1
    refine ordinal_mono (Eq.symm same) ?_
    show 1 < other.month ∨ 1 = other.month ∧ 1 ≤ other.day
    omega

theorem zonedDays_yields {temporalOffset : String → Int → Int} {zone : String} (forward : NeverBack (temporalOffset zone)) (epochMs : Int) :
    Yields temporalOffset (zonedDays temporalOffset epochMs zone) (· = (epochMs + temporalOffset zone epochMs) / MS_PER_DAY) := by
  refine (offsetAt_yields forward epochMs).bind fun offset is => .pure ?_
  rw [is]

/-- What `startOfZoned` promises: the start of the first day of the unit that the value's own date is in. -/
def StartsUnit (offset : Int → Int) (value : ZonedDateTime) (unit : CalendarUnit) (rules : WeekRules) (result : ZonedDateTime) : Prop :=
  (result.timeZoneId = value.timeZoneId ∧ result.calendarId = value.calendarId) ∧
    ∃ date first : Calendar.Date, ∃ start, date.ordinal = (value.epochMilliseconds + offset value.epochMilliseconds) / MS_PER_DAY ∧
      IsFirstDay unit rules date first ∧ StartAnswers offset (first.ordinal * MS_PER_DAY) start ∧ result.epochNanoseconds = start * 1000000

variable {temporalOffset : String → Int → Int}

theorem startOfZoned_yields {value : ZonedDateTime} (small : ∀ t, |temporalOffset value.timeZoneId t| < MS_PER_DAY)
    (forward : NeverBack (temporalOffset value.timeZoneId)) (unit : CalendarUnit) (rules : WeekRules) :
    Yields temporalOffset (startOfZoned temporalOffset value unit rules) fun answer => ∀ result, answer = some result →
      StartsUnit (temporalOffset value.timeZoneId) value unit rules result := by
  unfold startOfZoned
  split
  next => exact .pure fun result is => by cases is
  next iso =>
    split
    next => exact .pure fun result is => by cases is
    next =>
      refine (zonedDays_yields forward _).bind fun days isDays => ?_
      obtain ⟨date, -, number⟩ := civilFromDays_eq days
      obtain ⟨first, isFirst, firstDay⟩ := bucketStart_firstDay date unit rules
      rw [← number, isFirst]
      refine (startOfDayEpoch_yields small forward _).bind fun answer starts => ?_
      cases answer with
      | none => exact .pure fun result is => by cases is
      | some start =>
        refine .pure fun result is => ?_
        split at is
        · obtain rfl := Option.some.inj is
          exact ⟨⟨rfl, (not_not.mp iso).symm⟩, date, first, start, number.trans isDays, firstDay, starts start rfl, rfl⟩
        · cases is

end Zoned

section Histories

variable {temporalOffset : String → Int → Int}

inductive Lookup where
  | offsetAt (zone : String) (epochMs : Int)
  | epochFromWall (zone : String) (wallMs : Int) (disambiguation : Disambiguation)
  | startOfDayEpoch (zone : String) (wallMs : Int)
  | startOfZoned (value : ZonedDateTime) (unit : CalendarUnit) (rules : WeekRules)
  /-- Temporal refuses a zone that it does not know after the zone's map was made. -/
  | unknownZone (zone : String)

def Lookup.perform (temporalOffset : String → Int → Int) : Lookup → Cached Unit
  | .offsetAt zone epochMs => do let _ ← Dates.offsetAt temporalOffset zone epochMs
  | .epochFromWall zone wallMs disambiguation => do let _ ← Dates.epochFromWall temporalOffset zone wallMs disambiguation
  | .startOfDayEpoch zone wallMs => do let _ ← Dates.startOfDayEpoch temporalOffset zone wallMs
  | .startOfZoned value unit rules => do let _ ← Dates.startOfZoned temporalOffset value unit rules
  | .unknownZone zone => do let _ ← daysOf zone

def cacheAfter (temporalOffset : String → Int → Int) (history : List Lookup) : Cache :=
  history.foldl (fun cache lookup => ((lookup.perform temporalOffset).run cache).2) []

abbrev Keeps {α : Type} (temporalOffset : String → Int → Int) (program : Cached α) : Prop := Yields temporalOffset program fun _ => True

theorem offsetAt_keeps (zone : String) (epochMs : Int) : Keeps temporalOffset (offsetAt temporalOffset zone epochMs) := by
  refine (dayOf_yields zone _).bind fun entry _ => ?_
  cases entry <;> exact .pure trivial

theorem uniformOffset_keeps (zone : String) (first final : Int) : Keeps temporalOffset (uniformOffset temporalOffset zone first final) := by
  have scan (offset : Int) (left : Nat) : ∀ day, Keeps temporalOffset (uniformFrom temporalOffset zone offset day left) := by
    induction left with
    | zero => exact fun _ => .pure trivial
    | succ left ih =>
      refine fun day => (dayOf_yields zone _).bind fun entry _ => ?_
      split
      · exact .pure trivial
      · exact ih _
  refine (dayOf_yields zone _).bind fun entry _ => ?_
  cases entry with
  | offset value => exact scan _ _ _
  | change change => exact .pure trivial
  | complex => exact .pure trivial

theorem changeBetween_keeps (zone : String) (first final : Int) : Keeps temporalOffset (changeBetween temporalOffset zone first final) := by
  have scan (left : Nat) : ∀ change previous day, Keeps temporalOffset (changeFrom temporalOffset zone change previous day left) := by
    induction left with
    | zero => exact fun _ _ _ => .pure trivial
    | succ left ih =>
      refine fun change previous day => (dayOf_yields zone _).bind fun entry _ => ?_
      split
      · exact .pure trivial
      · exact ih _ _ _
  refine (scan _ _ _ _).bind fun answer _ => ?_
  match answer with
  | none => exact .pure trivial
  | some none => exact .pure trivial
  | some (some change) => exact .pure trivial

theorem resolveWall_keeps (zone : String) (wallMs : Int) : Keeps temporalOffset (resolveWall temporalOffset zone wallMs) := by
  refine (changeBetween_keeps zone _ _).bind fun answer _ => ?_
  match answer with
  | none => exact .pure trivial
  | some none => exact (offsetAt_keeps zone wallMs).bind fun _ _ => .pure trivial
  | some (some change) => exact .pure trivial

theorem epochFromWall_keeps (zone : String) (wallMs : Int) (disambiguation : Disambiguation) :
    Keeps temporalOffset (epochFromWall temporalOffset zone wallMs disambiguation) := by
  refine (uniformOffset_keeps zone _ _).bind fun uniform _ => ?_
  cases uniform with
  | some value => exact .pure trivial
  | none =>
    refine (resolveWall_keeps zone wallMs).bind fun resolution _ => ?_
    match resolution with
    | none => exact .pure trivial
    | some (.unique _) => exact .pure trivial
    | some (.fold _ _) => exact .pure trivial
    | some (.gap _ _ _) => exact .pure trivial

theorem startOfDayEpoch_keeps (zone : String) (wallMs : Int) : Keeps temporalOffset (startOfDayEpoch temporalOffset zone wallMs) := by
  refine (uniformOffset_keeps zone _ _).bind fun uniform _ => ?_
  cases uniform with
  | some value => exact .pure trivial
  | none =>
    refine (resolveWall_keeps zone wallMs).bind fun resolution _ => ?_
    match resolution with
    | none => exact .pure trivial
    | some (.unique _) => exact .pure trivial
    | some (.fold _ _) => exact .pure trivial
    | some (.gap _ _ _) => exact .pure trivial

theorem startOfZoned_keeps (value : ZonedDateTime) (unit : CalendarUnit) (rules : WeekRules) :
    Keeps temporalOffset (startOfZoned temporalOffset value unit rules) := by
  unfold startOfZoned
  split
  · exact .pure trivial
  split
  · exact .pure trivial
  have days : Keeps temporalOffset (zonedDays temporalOffset value.epochMilliseconds value.timeZoneId) :=
    (offsetAt_keeps _ _).bind fun _ _ => .pure trivial
  refine days.bind fun _ _ => (startOfDayEpoch_keeps _ _).bind fun answer _ => ?_
  cases answer <;> exact .pure trivial

theorem perform_keeps (lookup : Lookup) : Keeps temporalOffset (lookup.perform temporalOffset) := by
  cases lookup with
  | offsetAt zone epochMs => exact (offsetAt_keeps zone epochMs).bind fun _ _ => .pure trivial
  | epochFromWall zone wallMs disambiguation => exact (epochFromWall_keeps zone wallMs disambiguation).bind fun _ _ => .pure trivial
  | startOfDayEpoch zone wallMs => exact (startOfDayEpoch_keeps zone wallMs).bind fun _ _ => .pure trivial
  | startOfZoned value unit rules => exact (startOfZoned_keeps value unit rules).bind fun _ _ => .pure trivial
  | unknownZone zone => exact (daysOf_yields zone).bind fun _ _ => .pure trivial

theorem sound_after (history : List Lookup) : Sound temporalOffset (cacheAfter temporalOffset history) := by
  unfold cacheAfter
  induction history using List.reverseRecOn with
  | nil => exact sound_nil
  | append_singleton history lookup ih =>
    rw [List.foldl_append]
    exact (perform_keeps lookup _ ih).2

/-- Whatever was looked up before, in this zone or in others, the answers are those of the zone. -/
theorem zone_lookups {zone : String} (small : ∀ t, |temporalOffset zone t| < MS_PER_DAY) (forward : NeverBack (temporalOffset zone))
    (history : List Lookup) :
    (∀ epochMs, ((offsetAt temporalOffset zone epochMs).run (cacheAfter temporalOffset history)).1 = temporalOffset zone epochMs) ∧
    (∀ wallMs disambiguation t,
      ((epochFromWall temporalOffset zone wallMs disambiguation).run (cacheAfter temporalOffset history)).1 = some t →
        Answers (temporalOffset zone) wallMs disambiguation t) ∧
    (∀ wallMs t, ((startOfDayEpoch temporalOffset zone wallMs).run (cacheAfter temporalOffset history)).1 = some t →
      StartAnswers (temporalOffset zone) wallMs t) ∧
    ∀ value unit rules result, value.timeZoneId = zone →
      ((startOfZoned temporalOffset value unit rules).run (cacheAfter temporalOffset history)).1 = some result →
        StartsUnit (temporalOffset zone) value unit rules result := by
  have sound : Sound temporalOffset _ := sound_after history
  refine ⟨?_, ?_, ?_, ?_⟩
  · exact fun epochMs => (offsetAt_yields forward epochMs _ sound).1
  · exact fun wallMs disambiguation t => (epochFromWall_yields small forward wallMs disambiguation _ sound).1 t
  · exact fun wallMs t => (startOfDayEpoch_yields small forward wallMs _ sound).1 t
  · rintro value unit rules result rfl
    exact (startOfZoned_yields small forward unit rules _ sound).1 result

def putOn (moment before after : Int) (t : Int) : Int := if t < moment then before else after

theorem putOn_changes {moment before after t : Int} (changes : LocalTime.Changes (putOn moment before after) t) : t = moment := by
  unfold LocalTime.Changes putOn at changes
  split_ifs at changes <;> omega

/-- A zone that puts the clock on by an hour at the start of day one, after the start of another day was looked up. -/
theorem zone_lookups_hour :
    ((epochFromWall (fun _ => putOn 86400000 0 3600000) "Test/Hour" 86401000 .earlier).run
        (cacheAfter (fun _ => putOn 86400000 0 3600000) [.startOfDayEpoch "Test/Hour" 0])).1 = some 82801000 ∧
      Answers (putOn 86400000 0 3600000) 86401000 .earlier 82801000 := by
  have small (t : Int) : |putOn 86400000 0 3600000 t| < MS_PER_DAY := by
    unfold putOn
    split <;> decide
  have forward : NeverBack (putOn 86400000 0 3600000) :=
    OneChangeADay.neverBack fun _ _ _ _ _ _ _ first second => (putOn_changes first).trans (putOn_changes second).symm
  have is : ((epochFromWall (fun _ => putOn 86400000 0 3600000) "Test/Hour" 86401000 .earlier).run
      (cacheAfter (fun _ => putOn 86400000 0 3600000) [.startOfDayEpoch "Test/Hour" 0])).1 = some 82801000 := by decide +kernel
  exact ⟨is, (@zone_lookups (fun _ => putOn 86400000 0 3600000) "Test/Hour" small forward _).2.1 _ _ _ is⟩

/-- The day before the clock is put on by an hour it was put back by most of a day. The shifted reading is also possible before that, where
the fast path does not look. -/
theorem epochFromWall_shifted_back :
    ∃ offset : Int → Int, (∀ t, |offset t| < MS_PER_DAY) ∧
      (∀ t u, LocalTime.Changes offset t → LocalTime.Changes offset u → t / MS_PER_DAY = u / MS_PER_DAY → t = u) ∧
      ∃ t, ((epochFromWall (fun _ => offset) "Test/Back" 87000000 .earlier).run (cacheAfter (fun _ => offset) [])).1 = some t ∧
        ¬LocalTime.Means offset MS_PER_DAY 87000000 .earlier t := by
  have changes {t : Int} (changes : LocalTime.Changes (fun t => if t < 0 then 84600000 else putOn 86400000 0 3600000 t) t) :
      t = 0 ∨ t = 86400000 := by
    simp only [LocalTime.Changes, putOn] at changes
    split_ifs at changes <;> omega
  refine ⟨fun t => if t < 0 then 84600000 else putOn 86400000 0 3600000 t, fun t => ?_, fun t u first second same => ?_, 83400000, ?_, ?_⟩
  · simp only [putOn]
    split_ifs <;> decide
  · unfold MS_PER_DAY at same
    rcases changes first with rfl | rfl <;> rcases changes second with rfl | rfl <;> omega
  · decide +kernel
  · rintro (⟨⟨t, reads⟩, -⟩ | ⟨-, -, least⟩)
    · simp only [LocalTime.possible, LocalTime.Reads, putOn, Set.mem_ofPred_eq] at reads
      split_ifs at reads <;> omega
    · have earlier := least (show (-1200000 : Int) ∈ LocalTime.possible _ _ by
        simp [LocalTime.possible, LocalTime.Reads, LocalTime.shift, MS_PER_DAY, putOn])
      omega

end Histories

end Arki.Dates
