import Mathlib.Order.Bounds.Basic
import Mathlib.Algebra.Order.Group.Unbundled.Int

/-! Clocks that show an instant shifted by an offset, and the instants that a reading of the clock can mean.

Offsets may change at any instant. A reading is skipped or repeated around a change.
-/

set_option autoImplicit false

namespace Arki.LocalTime

/-- The clock shows `wall` at the instant `t`. -/
def Reads (offset : Int → Int) (wall t : Int) : Prop := t + offset t = wall

def possible (offset : Int → Int) (wall : Int) : Set Int := {t | Reads offset wall t}

/-- The offset is the same from `low` until before `high`. -/
def Constant (offset : Int → Int) (low high value : Int) : Prop := ∀ t, low ≤ t → t < high → offset t = value

/-- The offset changes at `t`. -/
def Changes (offset : Int → Int) (t : Int) : Prop := offset (t - 1) ≠ offset t

structure Change where
  before : Int
  moment : Int
  after : Int
  deriving DecidableEq

/-- The offset changes once from `low` until before `high`, and not at `low`. -/
structure ChangesOnce (offset : Int → Int) (low high : Int) (change : Change) : Prop where
  later : low < change.moment
  inside : change.moment < high
  before : Constant offset low change.moment change.before
  after : Constant offset change.moment high change.after

inductive Disambiguation where
  | compatible
  | earlier
  | later
  | reject
  deriving DecidableEq

def Chosen (instants : Set Int) (t : Int) : Disambiguation → Prop
  | .compatible => IsLeast instants t
  | .earlier => IsLeast instants t
  | .later => IsGreatest instants t
  | .reject => instants = {t}

/-- How far the clock is put on between `span` before and `span` after a reading. -/
def shift (offset : Int → Int) (span wall : Int) : Int := offset (wall + span) - offset (wall - span)

/-- What a skipped reading means: the reading moved by what was put on, and then the first or last instant with that reading. -/
def Shifted (offset : Int → Int) (span wall t : Int) : Disambiguation → Prop
  | .compatible => IsGreatest (possible offset (wall + shift offset span wall)) t
  | .earlier => IsLeast (possible offset (wall - shift offset span wall)) t
  | .later => IsGreatest (possible offset (wall + shift offset span wall)) t
  | .reject => False

def Means (offset : Int → Int) (span wall : Int) (disambiguation : Disambiguation) (t : Int) : Prop :=
  (possible offset wall).Nonempty ∧ Chosen (possible offset wall) t disambiguation ∨
    ¬(possible offset wall).Nonempty ∧ Shifted offset span wall t disambiguation

/-- The first instant with the first reading from `wall` on. -/
def StartsAt (offset : Int → Int) (wall t : Int) : Prop :=
  (possible offset wall).Nonempty ∧ IsLeast (possible offset wall) t ∨
    ¬(possible offset wall).Nonempty ∧
      ∃ reading, IsLeast {reading | wall < reading ∧ (possible offset reading).Nonempty} reading ∧ IsLeast (possible offset reading) t

variable {offset : Int → Int} {low high middle value wall span t : Int} {change : Change} {disambiguation : Disambiguation}

theorem Constant.sub (constant : Constant offset low high value) {from_ to_ : Int} (isLow : low ≤ from_) (isHigh : to_ ≤ high) :
    Constant offset from_ to_ value := fun t above below => constant t (le_trans isLow above) (lt_of_lt_of_le below isHigh)

theorem Constant.append (first : Constant offset low middle value) (second : Constant offset middle high value) : Constant offset low high value :=
  fun t above below => (lt_or_ge t middle).elim (first t above) fun later => second t later below

theorem constant_of_no_change (none : ∀ t, low < t → t < high → ¬Changes offset t) : Constant offset low high (offset low) := by
  intro t above below
  obtain ⟨steps, rfl⟩ := Int.le.dest above
  induction steps with
  | zero => simp
  | succ steps ih =>
    have still := none (low + (steps + 1 : Nat)) (by omega) below
    rw [Changes, not_not] at still
    rw [← still, show low + (steps + 1 : Nat) - 1 = low + steps by omega]
    exact ih (by omega) (by omega)

theorem reads_near (small : ∀ t, |offset t| < span) (reads : Reads offset wall t) : wall - span < t ∧ t < wall + span := by
  have bound := abs_lt.mp (small t)
  unfold Reads at reads
  omega

theorem reads_of_constant (small : ∀ t, |offset t| < span) (constant : Constant offset (wall - span) (wall + span + 1) value) :
    Reads offset wall t ↔ t = wall - value := by
  have wide := abs_lt.mp (small wall)
  constructor
  · intro reads
    have near := reads_near small reads
    have here := constant t (by omega) (by omega)
    unfold Reads at reads
    omega
  · rintro rfl
    have here := constant wall (by omega) (by omega)
    have there := constant (wall - value) (by omega) (by omega)
    unfold Reads
    omega

/-- With one change around it a reading means the instants that are on their own side of the change. -/
theorem reads_of_changesOnce (small : ∀ t, |offset t| < span) (once : ChangesOnce offset (wall - span) (wall + span + 1) change) :
    Reads offset wall t ↔ t = wall - change.before ∧ t < change.moment ∨ t = wall - change.after ∧ change.moment ≤ t := by
  have later := once.later
  have inside := once.inside
  have first := once.before (wall - span) (by omega) (by omega)
  have last := once.after (wall + span) (by omega) (by omega)
  have wide := abs_lt.mp (first ▸ small (wall - span))
  have wideToo := abs_lt.mp (last ▸ small (wall + span))
  constructor
  · intro reads
    have near := reads_near small reads
    unfold Reads at reads
    rcases lt_or_ge t change.moment with isBefore | isAfter
    · have here := once.before t (by omega) isBefore
      exact .inl ⟨by omega, isBefore⟩
    · have here := once.after t isAfter (by omega)
      exact .inr ⟨by omega, isAfter⟩
  · rintro (⟨rfl, isBefore⟩ | ⟨rfl, isAfter⟩)
    · have here := once.before (wall - change.before) (by omega) isBefore
      unfold Reads
      omega
    · have here := once.after (wall - change.after) isAfter (by omega)
      unfold Reads
      omega

end Arki.LocalTime
