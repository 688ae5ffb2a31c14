import Mathlib.Algebra.Order.Group.MinMax
import Mathlib.RingTheory.Coprime.Basic
import Mathlib.Tactic.FieldSimp
import Mathlib.Tactic.Linarith

/-! Neighbouring fractions `p/q` and `r/s`, whose cross difference `r q - p s` is one: each fraction between them has at
least both denominators together, so a number between them has no closer fraction of a smaller denominator.
-/

set_option autoImplicit false

namespace Arki.Neighbours

variable {p q r s u v a b : ℤ} {x : ℚ}

/-- A fraction strictly between neighbours has at least both denominators together. -/
theorem denominator_le (left : 0 ≤ q) (right : 0 ≤ s) (unit : r * q - p * s = 1) (above : p * b < a * q) (below : a * s < r * b) :
    q + s ≤ b := by
  have first : 0 ≤ q * (r * b - a * s - 1) := mul_nonneg left (by omega)
  have second : 0 ≤ s * (a * q - p * b - 1) := mul_nonneg right (by omega)
  have whole : b = q * (r * b - a * s) + s * (a * q - p * b) := by
    calc b = b * (r * q - p * s) := by rw [unit, mul_one]
      _ = q * (r * b - a * s) + s * (a * q - p * b) := by ring
  linarith

theorem outside (left : 0 < q) (right : 0 < s) (unit : r * q - p * s = 1) (positive : 0 < b) (small : b < q + s) :
    (a : ℚ) / b ≤ p / q ∨ (r : ℚ) / s ≤ a / b := by
  have qCast : (0 : ℚ) < q := by exact_mod_cast left
  have sCast : (0 : ℚ) < s := by exact_mod_cast right
  have bCast : (0 : ℚ) < b := by exact_mod_cast positive
  by_contra! both
  obtain ⟨above, below⟩ := both
  rw [div_lt_div_iff₀ qCast bCast] at above
  rw [div_lt_div_iff₀ bCast sCast] at below
  have more := denominator_le left.le right.le unit (by exact_mod_cast above) (by exact_mod_cast below)
  omega

/-- Nothing of a smaller denominator is closer to a number between neighbours than the nearer of the two. -/
theorem closest_of_le (left : 0 < q) (right : 0 < s) (unit : r * q - p * s = 1) (above : (p : ℚ) / q ≤ x) (below : x ≤ r / s)
    (positive : 0 < b) (small : b < q + s) : min |(p : ℚ) / q - x| |(r : ℚ) / s - x| ≤ |(a : ℚ) / b - x| := by
  rcases @outside p q r s a b left right unit positive small with under | past
  · refine (min_le_left _ _).trans ?_
    rw [abs_of_nonpos (sub_nonpos.mpr above), abs_of_nonpos (sub_nonpos.mpr (under.trans above))]
    linarith
  · refine (min_le_right _ _).trans ?_
    rw [abs_of_nonneg (sub_nonneg.mpr below), abs_of_nonneg (sub_nonneg.mpr (below.trans past))]
    linarith

theorem mediant_between (left : 0 < q) (right : 0 < s) (unit : r * q - p * s = 1) (first : 0 ≤ u) (second : 0 ≤ v)
    (some_ : 0 < u * q + v * s) : (p : ℚ) / q ≤ (u * p + v * r : ℤ) / (u * q + v * s : ℤ) ∧
      ((u * p + v * r : ℤ) : ℚ) / (u * q + v * s : ℤ) ≤ r / s := by
  have qCast : (0 : ℚ) < q := by exact_mod_cast left
  have sCast : (0 : ℚ) < s := by exact_mod_cast right
  have total : (0 : ℚ) < (u * q + v * s : ℤ) := by exact_mod_cast some_
  rw [div_le_div_iff₀ qCast total, div_le_div_iff₀ total sCast]
  have above : (u * p + v * r) * q - p * (u * q + v * s) = v := by
    calc (u * p + v * r) * q - p * (u * q + v * s) = v * (r * q - p * s) := by ring
      _ = v := by rw [unit, mul_one]
  have below : r * (u * q + v * s) - (u * p + v * r) * s = u := by
    calc r * (u * q + v * s) - (u * p + v * r) * s = u * (r * q - p * s) := by ring
      _ = u := by rw [unit, mul_one]
  constructor
  · have order : p * (u * q + v * s) ≤ (u * p + v * r) * q := by omega
    exact_mod_cast order
  · have order : (u * p + v * r) * s ≤ r * (u * q + v * s) := by omega
    exact_mod_cast order

/-- Whichever of the two is the lower one: a weighted mediant of neighbours has no closer fraction of a denominator below
both together than the nearer of the two. -/
theorem closest_mediant (left : 0 < q) (right : 0 < s) (unit : r * q - p * s = 1 ∨ r * q - p * s = -1) (first : 0 ≤ u)
    (second : 0 ≤ v) (some_ : 0 < u * q + v * s) (is : x = (u * p + v * r : ℤ) / (u * q + v * s : ℤ)) (positive : 0 < b)
    (small : b < q + s) : min |(p : ℚ) / q - x| |(r : ℚ) / s - x| ≤ |(a : ℚ) / b - x| := by
  rcases unit with up | down
  · obtain ⟨above, below⟩ := @mediant_between p q r s u v left right up first second some_
    rw [← is] at above below
    exact closest_of_le left right up above below positive small
  · have swapped : p * s - r * q = 1 := by omega
    obtain ⟨above, below⟩ := @mediant_between r s p q v u right left swapped second first (by omega)
    rw [add_comm (v * r), add_comm (v * s), ← is] at above below
    rw [min_comm]
    exact closest_of_le right left swapped above below positive (by omega)

theorem lowest (unit : r * q - p * s = 1 ∨ r * q - p * s = -1) : IsCoprime p q ∧ IsCoprime r s := by
  rcases unit with up | down
  · exact ⟨⟨-s, r, by linarith⟩, ⟨q, -p, by linarith⟩⟩
  · exact ⟨⟨s, -r, by linarith⟩, ⟨-q, p, by linarith⟩⟩

end Arki.Neighbours
