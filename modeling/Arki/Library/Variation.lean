import Mathlib.Algebra.Order.Group.MinMax
import Mathlib.Data.List.Basic
import Mathlib.Tactic.Abel

/-! What a walk along a list of values climbs: the sum of its rises. -/

set_option autoImplicit false

namespace Arki.Variation

variable {α : Type} [LinearOrder α]

def peak (here : α) : List α → α
  | [] => here
  | next :: rest => max here (peak next rest)

/-- A walk that goes up to its peak and down after it: no rise comes after a fall. -/
def Peaked (walk : List α) : Prop := ∃ up down : List α, walk = up ++ down ∧ up.Pairwise (· ≤ ·) ∧ down.Pairwise (· ≥ ·)

variable {here next highest : α} {walk rest : List α}

theorem here_le_peak (here : α) (walk : List α) : here ≤ peak here walk := by
  cases walk with
  | nil => exact le_rfl
  | cons next rest => exact le_max_left _ _

theorem le_peak (member : next ∈ here :: walk) : next ≤ peak here walk := by
  induction walk generalizing here with
  | nil => rw [List.mem_singleton.mp member, peak]
  | cons after rest ih =>
    rcases List.mem_cons.mp member with rfl | later
    · exact here_le_peak _ _
    · exact (ih later).trans (le_max_right _ _)

theorem peak_mem (here : α) (walk : List α) : peak here walk ∈ here :: walk := by
  induction walk generalizing here with
  | nil => exact List.mem_singleton_self here
  | cons next rest ih =>
    rcases max_choice here (peak next rest) with same | same
    · rw [peak, same]
      exact List.mem_cons_self ..
    · rw [peak, same]
      exact List.mem_cons_of_mem _ (ih next)

theorem peak_eq (member : highest ∈ here :: walk) (above : ∀ value ∈ here :: walk, value ≤ highest) : peak here walk = highest :=
  le_antisymm (above _ (peak_mem here walk)) (le_peak member)

theorem peaked_falling (falls : walk.Pairwise (· ≥ ·)) : Peaked walk := ⟨[], walk, rfl, List.Pairwise.nil, falls⟩

theorem Peaked.rise (peaked : Peaked (next :: rest)) (rise : here ≤ next) : Peaked (here :: next :: rest) := by
  obtain ⟨up, down, split, rises, falls⟩ := peaked
  cases up with
  | nil => exact ⟨[here], down, by rw [split]; rfl, List.pairwise_singleton _ _, falls⟩
  | cons first up =>
    obtain ⟨rfl, tail⟩ := List.cons.inj split
    refine ⟨here :: next :: up, down, by rw [tail]; rfl, List.pairwise_cons.mpr ⟨fun value member => ?_, rises⟩, falls⟩
    rcases List.mem_cons.mp member with rfl | later
    · exact rise
    · exact rise.trans ((List.pairwise_cons.mp rises).1 value later)

theorem Peaked.tail (peaked : Peaked (here :: walk)) : Peaked walk := by
  obtain ⟨up, down, split, rises, falls⟩ := peaked
  cases up with
  | nil =>
    rw [List.nil_append] at split
    rw [← split] at falls
    exact peaked_falling (List.pairwise_cons.mp falls).2
  | cons first up => exact ⟨up, down, (List.cons.inj split).2, (List.pairwise_cons.mp rises).2, falls⟩

theorem Peaked.after_fall (peaked : Peaked (here :: next :: rest)) (fall : next < here) : (here :: next :: rest).Pairwise (· ≥ ·) := by
  obtain ⟨up, down, split, rises, falls⟩ := peaked
  cases up with
  | nil =>
    rw [List.nil_append] at split
    rwa [split]
  | cons first up =>
    obtain ⟨rfl, tail⟩ := List.cons.inj split
    cases up with
    | nil =>
      have same : next :: rest = down := tail
      rw [← same] at falls
      refine List.pairwise_cons.mpr ⟨fun value member => ?_, falls⟩
      rcases List.mem_cons.mp member with rfl | later
      · exact fall.le
      · exact ((List.pairwise_cons.mp falls).1 value later).trans fall.le
    | cons second up =>
      obtain ⟨rfl, _⟩ := List.cons.inj tail
      exact absurd ((List.pairwise_cons.mp rises).1 next (List.mem_cons_self ..)) (not_le.mpr fall)

variable [AddCommGroup α]

/-- The sum of the rises of a walk that is at `here`. -/
def climb (here : α) : List α → α
  | [] => 0
  | next :: rest => max 0 (next - here) + climb next rest

variable [IsOrderedAddMonoid α]

theorem climb_nonneg (here : α) (walk : List α) : 0 ≤ climb here walk := by
  induction walk generalizing here with
  | nil => exact le_rfl
  | cons next rest ih => exact add_nonneg (le_max_left _ _) (ih next)

theorem peak_le_climb (here : α) (walk : List α) : peak here walk - here ≤ climb here walk := by
  induction walk generalizing here with
  | nil => rw [peak, climb, sub_self]
  | cons next rest ih =>
    rcases max_choice here (peak next rest) with same | same
    · rw [peak, same, sub_self]
      exact climb_nonneg here (next :: rest)
    · calc peak here (next :: rest) - here = (next - here) + (peak next rest - next) := by rw [peak, same]; abel
        _ ≤ max 0 (next - here) + climb next rest := add_le_add (le_max_right _ _) (ih next)

theorem climb_zero : climb here walk = 0 ↔ (here :: walk).Pairwise (· ≥ ·) := by
  induction walk generalizing here with
  | nil => exact iff_of_true rfl (List.pairwise_singleton _ _)
  | cons next rest ih =>
    rw [climb, add_eq_zero_iff_of_nonneg (le_max_left _ _) (climb_nonneg _ _), ih, max_eq_left_iff, sub_nonpos]
    constructor
    · rintro ⟨fall, falls⟩
      refine List.pairwise_cons.mpr ⟨fun value member => ?_, falls⟩
      rcases List.mem_cons.mp member with rfl | later
      · exact fall
      · exact ((List.pairwise_cons.mp falls).1 value later).trans fall
    · intro falls
      obtain ⟨below, after⟩ := List.pairwise_cons.mp falls
      exact ⟨below next (List.mem_cons_self ..), after⟩

/-- A walk climbs no more than to its peak exactly where no rise comes after a fall. -/
theorem climb_le_iff (here : α) (walk : List α) : climb here walk ≤ peak here walk - here ↔ Peaked (here :: walk) := by
  induction walk generalizing here with
  | nil =>
    rw [climb, peak, sub_self]
    exact iff_of_true le_rfl (peaked_falling (List.pairwise_singleton _ _))
  | cons next rest ih =>
    rcases le_or_gt here next with rise | fall
    · have top : peak here (next :: rest) = peak next rest := max_eq_right (rise.trans (here_le_peak next rest))
      rw [climb, top, max_eq_right (sub_nonneg.mpr rise), ← le_sub_iff_add_le', sub_sub_sub_cancel_right, ih]
      exact ⟨fun peaked => peaked.rise rise, Peaked.tail⟩
    · rw [climb, max_eq_left (sub_nonpos.mpr fall.le), zero_add]
      constructor
      · intro low
        have least := peak_le_climb next rest
        -- a rise above the level before the fall would be climbed again
        have under : peak next rest ≤ here := by
          by_contra above
          rw [peak, max_eq_right (not_le.mp above).le] at low
          exact absurd (least.trans low) (not_le.mpr (sub_lt_sub_left fall _))
        rw [peak, max_eq_left under, sub_self] at low
        have flat := le_antisymm low (climb_nonneg _ _)
        have falls := climb_zero.mp flat
        refine peaked_falling (List.pairwise_cons.mpr ⟨fun value member => ?_, falls⟩)
        exact (le_peak member).trans under
      · intro peaked
        have falls := List.pairwise_cons.mp (peaked.after_fall fall)
        rw [climb_zero.mpr falls.2]
        exact sub_nonneg.mpr (here_le_peak _ _)

end Arki.Variation
