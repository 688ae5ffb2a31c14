import Arki.Library.LocalTime
import Mathlib.Data.List.Basic

/-! Offsets of time zones from a cache of days, and the instants of wall clock readings.

The cache keeps for each day of a zone its offset, or its one change. Whatever was asked before, the answers are those of the zone.
-/

set_option autoImplicit false

namespace Arki.Dates

open LocalTime (Change Disambiguation)

def MS_PER_DAY : Int := 86400000

inductive Day where
  | offset (value : Int)
  | change (change : Change)
  | complex
  deriving DecidableEq

def MAX_ZONES : Nat := 64

def MAX_DAYS_PER_ZONE : Nat := 16384

/-- Both maps of the source, as entries of which the first with a key counts. -/
abbrev Days := List (Int × Day)

abbrev Cache := List (String × Days)

abbrev Cached := StateM Cache

def put (zone : String) (days : Days) (cache : Cache) : Cache := (zone, days) :: cache.filter fun entry => entry.1 ≠ zone

def daysOf (zone : String) : Cached Days := do
  let zones ← get
  match zones.lookup zone with
  | some days => return days
  | none =>
    let kept := if MAX_ZONES ≤ zones.length then [] else zones
    set (put zone [] kept)
    return []

/-- The binary search of `describeDay`. -/
def lastStep (offset : Int → Int) (first low high : Int) : Int :=
  if 1 < high - low then
    let middle := (low + high) / 2
    if offset middle = first then lastStep offset first middle high else lastStep offset first low middle
  else high
termination_by (high - low).toNat
decreasing_by all_goals omega

def describeDay (offset : Int → Int) (day : Int) : Day :=
  let start := day * MS_PER_DAY
  let last := start + MS_PER_DAY - 1
  let first := offset start
  let final := offset last
  if first = final then .offset first
  else
    let high := lastStep offset first start last
    if offset high = final then .change ⟨first, high, final⟩ else .complex

section Source

variable (temporalOffset : String → Int → Int)

def dayOf (zone : String) (day : Int) : Cached Day := do
  let days ← daysOf zone
  match days.lookup day with
  | some cached => return cached
  | none =>
    let described := describeDay (temporalOffset zone) day
    let kept := if MAX_DAYS_PER_ZONE ≤ days.length then [] else days
    modify (put zone ((day, described) :: kept))
    return described

def offsetAt (zone : String) (epochMs : Int) : Cached Int := do
  match ← dayOf temporalOffset zone (epochMs / MS_PER_DAY) with
  | .offset value => return value
  | .complex => return temporalOffset zone epochMs
  | .change change => return if epochMs < change.moment then change.before else change.after

/-- The loop of `uniformOffset`, over the days after `day`. -/
def uniformFrom (zone : String) (offset day : Int) : Nat → Cached (Option Int)
  | 0 => return some offset
  | left + 1 => do
    let entry ← dayOf temporalOffset zone (day + 1)
    if entry ≠ .offset offset then return none
    else uniformFrom zone offset (day + 1) left

def uniformOffset (zone : String) (first final : Int) : Cached (Option Int) := do
  let last := final / MS_PER_DAY
  let day := first / MS_PER_DAY
  match ← dayOf temporalOffset zone day with
  | .offset offset => uniformFrom temporalOffset zone offset day (last - day).toNat
  | _ => return none

/-- The change found so far and the offset at the end of the days that were looked at; nothing where the loop gives up. -/
def absorb (change : Option Change) (previous : Option Int) (day : Int) (entry : Day) : Option (Option Change × Int) := do
  let startOffset ← match entry with
    | .complex => none
    | .offset value => some value
    | .change change => some change.before
  let change ← match previous with
    | none => some change
    | some offset =>
      if startOffset ≠ offset then if change.isSome then none else some (some ⟨offset, day * MS_PER_DAY, startOffset⟩) else some change
  match entry with
  | .change found => if change.isSome then none else some (some found, found.after)
  | _ => some (change, startOffset)

/-- The loop of `changeBetween` over the days from `day` on: nothing is `null`, and no change `undefined`. -/
def changeFrom (zone : String) (change : Option Change) (previous : Option Int) (day : Int) : Nat → Cached (Option (Option Change))
  | 0 => return some change
  | left + 1 => do
    let entry ← dayOf temporalOffset zone day
    match absorb change previous day entry with
    | none => return none
    | some (change, previous) => changeFrom zone change (some previous) (day + 1) left

def changeBetween (zone : String) (first final : Int) : Cached (Option (Option Change)) := do
  let day := first / MS_PER_DAY
  match ← changeFrom temporalOffset zone none none day (final / MS_PER_DAY - day + 1).toNat with
  | some (some change) => return if change.moment ≤ first ∨ final < change.moment then some none else some (some change)
  | other => return other

inductive WallResolution where
  | unique (epochMs : Int)
  | fold (earlier later : Int)
  | gap (offsetBefore offsetAfter transition : Int)
  deriving DecidableEq

def resolveWall (zone : String) (wallMs : Int) : Cached (Option WallResolution) := do
  match ← changeBetween temporalOffset zone (wallMs - MS_PER_DAY) (wallMs + MS_PER_DAY) with
  | none => return none
  | some none =>
    let offset ← offsetAt temporalOffset zone wallMs
    return some (.unique (wallMs - offset))
  | some (some change) =>
    let transition := change.moment
    let withBefore := wallMs - change.before
    let withAfter := wallMs - change.after
    return some <|
      if withBefore < transition ∧ transition ≤ withAfter then .fold (min withBefore withAfter) (max withBefore withAfter)
      else if withBefore < transition then .unique withBefore
      else if transition ≤ withAfter then .unique withAfter
      else .gap change.before change.after transition

def epochFromWall (zone : String) (wallMs : Int) (disambiguation : Disambiguation) : Cached (Option Int) := do
  match ← uniformOffset temporalOffset zone (wallMs - MS_PER_DAY) (wallMs + MS_PER_DAY) with
  | some uniform => return some (wallMs - uniform)
  | none =>
    match ← resolveWall temporalOffset zone wallMs with
    | none => return none
    | some (.unique epochMs) => return some epochMs
    | some (.fold earlier later) =>
      return if disambiguation = .reject then none else some (if disambiguation = .later then later else earlier)
    | some (.gap offsetBefore offsetAfter _) =>
      return if disambiguation = .reject then none
        else some (if disambiguation = .earlier then wallMs - offsetAfter else wallMs - offsetBefore)

def startOfDayEpoch (zone : String) (wallMs : Int) : Cached (Option Int) := do
  match ← uniformOffset temporalOffset zone (wallMs - MS_PER_DAY) (wallMs + MS_PER_DAY) with
  | some uniform => return some (wallMs - uniform)
  | none =>
    match ← resolveWall temporalOffset zone wallMs with
    | none => return none
    | some (.unique epochMs) => return some epochMs
    | some (.fold earlier _) => return some earlier
    | some (.gap _ _ transition) => return some transition

end Source

section Cache

variable {temporalOffset : String → Int → Int} {α β : Type}

def Sound (temporalOffset : String → Int → Int) (cache : Cache) : Prop :=
  ∀ zone days, (zone, days) ∈ cache → ∀ day entry, (day, entry) ∈ days → entry = describeDay (temporalOffset zone) day

def Yields (temporalOffset : String → Int → Int) (program : Cached α) (post : α → Prop) : Prop :=
  ∀ cache, Sound temporalOffset cache → post (program.run cache).1 ∧ Sound temporalOffset (program.run cache).2

theorem Yields.pure {post : α → Prop} {value : α} (holds : post value) : Yields temporalOffset (return value) post :=
  fun _ sound => ⟨holds, sound⟩

theorem Yields.bind {program : Cached α} {rest : α → Cached β} {post : α → Prop} {final : β → Prop} (first : Yields temporalOffset program post)
    (later : ∀ value, post value → Yields temporalOffset (rest value) final) : Yields temporalOffset (program >>= rest) final :=
  fun cache sound => later _ (first cache sound).1 _ (first cache sound).2

theorem sound_nil : Sound temporalOffset [] := fun _ _ inside => by cases inside

theorem sound_put {zone : String} {days : Days} {cache : Cache} (sound : Sound temporalOffset cache)
    (known : ∀ day entry, (day, entry) ∈ days → entry = describeDay (temporalOffset zone) day) : Sound temporalOffset (put zone days cache) := by
  intro other otherDays inside
  rcases List.mem_cons.mp inside with is | inside
  · obtain ⟨rfl, rfl⟩ := Prod.mk.inj is
    exact known
  · exact sound other otherDays (List.mem_filter.mp inside).1

theorem mem_of_lookup {κ ν : Type} [BEq κ] [LawfulBEq κ] {key : κ} {value : ν} {entries : List (κ × ν)} (is : entries.lookup key = some value) :
    (key, value) ∈ entries := by
  obtain ⟨before, after, rfl, _⟩ := List.lookup_eq_some_iff.mp is
  exact List.mem_append_right _ List.mem_cons_self

theorem daysOf_yields (zone : String) :
    Yields temporalOffset (daysOf zone) fun days => ∀ day entry, (day, entry) ∈ days → entry = describeDay (temporalOffset zone) day := by
  have start : Yields temporalOffset get (Sound temporalOffset) := fun _ sound => ⟨sound, sound⟩
  refine start.bind fun zones known => ?_
  cases found : zones.lookup zone with
  | some days => exact .pure (known zone days (mem_of_lookup found))
  | none =>
    have kept : Sound temporalOffset (if MAX_ZONES ≤ zones.length then [] else zones) := by
      split
      · exact sound_nil
      · exact known
    exact fun _ _ => ⟨fun _ _ inside => (nomatch inside), sound_put kept fun _ _ inside => (nomatch inside)⟩

theorem dayOf_yields (zone : String) (day : Int) :
    Yields temporalOffset (dayOf temporalOffset zone day) (· = describeDay (temporalOffset zone) day) := by
  refine (daysOf_yields zone).bind fun days known => ?_
  cases found : days.lookup day with
  | some cached => exact .pure (known day cached (mem_of_lookup found))
  | none =>
    refine fun cache sound => ⟨rfl, sound_put sound fun other entry inside => ?_⟩
    rcases List.mem_cons.mp inside with is | inside
    · obtain ⟨rfl, rfl⟩ := Prod.mk.inj is
      rfl
    · split at inside
      · cases inside
      · exact known other entry inside

end Cache

section Days

open LocalTime

variable {offset : Int → Int} {day first low high : Int} {change : Option Change} {previous : Option Int}

/-- Inside a day the offset changes at most once. Another change may be at the border of two days. -/
def OneChangeADay (offset : Int → Int) : Prop :=
  ∀ day t u, day * MS_PER_DAY < t → t < (day + 1) * MS_PER_DAY → day * MS_PER_DAY < u → u < (day + 1) * MS_PER_DAY →
    Changes offset t → Changes offset u → t = u

theorem lastStep_spec (ordered : low < high) (isFirst : offset low = first) (isOther : offset high ≠ first) :
    low < lastStep offset first low high ∧ lastStep offset first low high ≤ high ∧ offset (lastStep offset first low high) ≠ first ∧
      offset (lastStep offset first low high - 1) = first := by
  fun_induction lastStep offset first low high with
  | case1 low high wide middle same ih =>
    have found := ih (by omega) same isOther
    exact ⟨by omega, found.2⟩
  | case2 low high wide middle other ih =>
    have found := ih (by omega) isFirst other
    exact ⟨found.1, by omega, found.2.2⟩
  | case3 low high narrow =>
    refine ⟨ordered, le_refl _, isOther, ?_⟩
    rw [show high - 1 = low by omega, isFirst]

/-- What the source assumes: an offset that is left does not come back in the same day. -/
def NeverBack (offset : Int → Int) : Prop :=
  ∀ day t u later, day * MS_PER_DAY ≤ t → t ≤ u → u ≤ later → later < (day + 1) * MS_PER_DAY → offset t = offset later → offset u = offset t

theorem OneChangeADay.neverBack (once : OneChangeADay offset) : NeverBack offset := by
  intro day t u later isDay order orderToo inDay same
  by_contra other
  have changed {t u : Int} (order : t ≤ u) (other : offset u ≠ offset t) : ∃ change, t < change ∧ change ≤ u ∧ Changes offset change := by
    by_contra never
    refine other (constant_of_no_change (fun change above below changes => never ⟨change, above, ?_, changes⟩) u order (Int.lt_succ u))
    omega
  obtain ⟨first, above, upTo, changes⟩ := changed order other
  obtain ⟨second, aboveToo, upToLater, changesToo⟩ := changed orderToo fun is => other (is.symm.trans same.symm)
  have equal := once day first second (by omega) (by omega) (by omega) (by omega) changes changesToo
  omega

def Describes (offset : Int → Int) (day : Int) : Day → Prop
  | .offset value => Constant offset (day * MS_PER_DAY) ((day + 1) * MS_PER_DAY) value
  | .change change => ChangesOnce offset (day * MS_PER_DAY) ((day + 1) * MS_PER_DAY) change
  | .complex => True

theorem describeDay_spec (forward : NeverBack offset) (day : Int) : Describes offset day (describeDay offset day) := by
  have length : (day + 1) * MS_PER_DAY = day * MS_PER_DAY + MS_PER_DAY := by rw [Int.add_mul, Int.one_mul]
  have positive : 0 < MS_PER_DAY - 1 := by decide
  simp only [describeDay]
  split
  next same => exact fun t above below => forward day _ t _ (le_refl _) above (by omega) (by omega) same
  next differ =>
    obtain ⟨after, upTo, differs, step⟩ := lastStep_spec (by omega) rfl (fun is => differ is.symm)
    generalize lastStep offset (offset (day * MS_PER_DAY)) (day * MS_PER_DAY) (day * MS_PER_DAY + MS_PER_DAY - 1) = moment at *
    split
    next isFinal =>
      have inside : moment < (day + 1) * MS_PER_DAY := by omega
      refine ⟨after, inside, fun t above below => ?_, fun t above below => ?_⟩
      · have before : t ≤ moment - 1 := Int.le_sub_one_of_lt below
        exact forward day _ t _ (le_refl _) above before (by omega) step.symm
      · rw [← isFinal]
        exact forward day _ t _ (by omega) above (show t ≤ day * MS_PER_DAY + MS_PER_DAY - 1 by omega) (by omega) isFinal
    next => trivial

/-- What the loop of `changeBetween` knows about the days it has seen. -/
def Scanned (offset : Int → Int) (low high : Int) (change : Option Change) (previous : Option Int) : Prop :=
  match change, previous with
  | none, none => low = high
  | none, some value => low < high ∧ Constant offset low high value
  | some _, none => False
  | some change, some value => ChangesOnce offset low high change ∧ change.after = value

theorem Scanned.absorb (scanned : Scanned offset low (day * MS_PER_DAY) change previous) {entry : Day} (describes : Describes offset day entry)
    {later : Option Change} {last : Int} (is : Dates.absorb change previous day entry = some (later, last)) :
    Scanned offset low ((day + 1) * MS_PER_DAY) later (some last) := by
  have length : (day + 1) * MS_PER_DAY = day * MS_PER_DAY + MS_PER_DAY := by rw [Int.add_mul, Int.one_mul]
  have positive : 0 < MS_PER_DAY := by decide
  cases entry with
  | complex => cases is
  | offset value =>
    cases change with
    | none =>
      cases previous with
      | none =>
        obtain ⟨rfl, rfl⟩ : none = later ∧ value = last := by simpa [Dates.absorb] using is
        rw [show low = day * MS_PER_DAY from scanned]
        exact ⟨by omega, describes⟩
      | some known =>
        by_cases same : value = known
        · obtain ⟨rfl, rfl⟩ : none = later ∧ value = last := by simpa [Dates.absorb, same] using is
          exact ⟨by have := scanned.1; omega, (same ▸ scanned.2).append describes⟩
        · obtain ⟨rfl, rfl⟩ : some ⟨known, day * MS_PER_DAY, value⟩ = later ∧ value = last := by simpa [Dates.absorb, same] using is
          exact ⟨⟨scanned.1, by simp only; omega, scanned.2, describes⟩, rfl⟩
    | some earlier =>
      cases previous with
      | none => exact scanned.elim
      | some known =>
        by_cases same : value = known
        · obtain ⟨rfl, rfl⟩ : some earlier = later ∧ value = last := by simpa [Dates.absorb, same] using is
          obtain ⟨once, isKnown⟩ := scanned
          exact ⟨⟨once.later, by have := once.inside; omega, once.before, once.after.append (by rw [isKnown, ← same]; exact describes)⟩,
            isKnown.trans same.symm⟩
        · simp [Dates.absorb, same] at is
  | change found =>
    cases change with
    | none =>
      cases previous with
      | none =>
        obtain ⟨rfl, rfl⟩ : some found = later ∧ found.after = last := by simpa [Dates.absorb] using is
        rw [show low = day * MS_PER_DAY from scanned]
        exact ⟨describes, rfl⟩
      | some known =>
        by_cases same : found.before = known
        · obtain ⟨rfl, rfl⟩ : some found = later ∧ found.after = last := by simpa [Dates.absorb, same] using is
          exact ⟨⟨lt_trans scanned.1 describes.later, describes.inside, (same ▸ scanned.2).append describes.before, describes.after⟩, rfl⟩
        · simp [Dates.absorb, same] at is
    | some earlier =>
      cases previous with
      | none => exact scanned.elim
      | some known =>
        by_cases same : found.before = known <;> simp [Dates.absorb, same] at is

end Days

end Arki.Dates
