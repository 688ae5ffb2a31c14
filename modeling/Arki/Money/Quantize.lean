import Arki.Money.Shares
import Mathlib.Tactic.LinearCombination

/-! Moving an amount to another number of decimals, and when no digit is lost by it. -/

set_option autoImplicit false
set_option linter.dupNamespace false

namespace Arki.Money

open Arki (Double)
open Arki.Math (MathError Checked RoundingMode)

def isExactAtScale (coefficient : Units) (fraction scale : Nat) : Bool :=
  if fraction ≤ scale then true
  else
    match coefficient, pow10 (fraction - scale) with
    | .number coefficient, .number divisor => (coefficient.rem divisor).value = 0
    | coefficient, divisor => coefficient.big.tmod divisor.big = 0

def quantize (coefficient : Units) (fraction scale : Nat) (mode : Option RoundingMode) : Checked Units :=
  if fraction = scale then .ok coefficient
  else if fraction < scale then mulUnits coefficient (pow10 (scale - fraction))
  else mulDiv coefficient (.number (.of 1)) (pow10 (fraction - scale)) mode

def productExceedsDigits (a b : Units) : Bool := maxHexDigits + 1 < hexDigits a.big + hexDigits b.big

def rescaled (c : Int) (fraction scale : Nat) : Int :=
  if fraction ≤ scale then c * 10 ^ (scale - fraction) else c / 10 ^ (fraction - scale)

variable {c n : Int} {fraction scale k : Nat} {mode : Option RoundingMode}

theorem pow10_pos (k : Nat) : (0 : Int) < 10 ^ k := by positivity

theorem isExactAtScale_canon (c : Int) (fraction scale : Nat) :
    isExactAtScale (canon c) fraction scale = decide ((10 : Int) ^ (fraction - scale) ∣ c) := by
  unfold isExactAtScale
  by_cases within : fraction ≤ scale
  · rw [if_pos within, Nat.sub_eq_zero_of_le within, pow_zero]
    simp
  rw [if_neg within, pow10_canon]
  have whole : decide (c.tmod (10 ^ (fraction - scale)) = 0) = decide ((10 : Int) ^ (fraction - scale) ∣ c) :=
    decide_eq_decide.mpr Int.dvd_iff_tmod_eq_zero.symm
  rw [← whole]
  generalize isPower : (10 : Int) ^ (fraction - scale) = power
  have positive : 0 < power := isPower ▸ pow10_pos _
  have bigs : decide ((canon c).big.tmod (canon power).big = 0) = decide (c.tmod power = 0) := by simp
  by_cases safe : IsSafe c
  · by_cases safePower : IsSafe power
    · rw [canon_safe safe, canon_safe safePower]
      have rest := (Double.is_of c).rem (Double.is_of power) positive
      exact decide_eq_decide.mpr (by rw [show (Double.rem _ _).value = _ from rest]; exact Int.cast_eq_zero)
    · rw [canon_safe safe, canon_big safePower] at bigs ⊢
      exact bigs
  · rw [canon_big safe] at bigs ⊢
    exact bigs

theorem quantize_up (less : fraction < scale) (mode : Option RoundingMode) :
    quantize (canon c) fraction scale mode = (mulBig c (10 ^ (scale - fraction))).map canon := by
  rw [quantize, if_neg less.ne, if_pos less, pow10_canon, mulUnits_canon]

theorem quantize_down (less : scale < fraction) (divides : (10 : Int) ^ (fraction - scale) ∣ c) (mode : Option RoundingMode) :
    quantize (canon c) fraction scale mode = if Fits c then .ok (canon (c / 10 ^ (fraction - scale))) else .error tooManyDigits := by
  have one : (Units.number (.of 1)) = canon 1 := by rw [canon_safe (by decide), Int.cast_one]
  have digit : hexDigits 1 = 1 := by decide
  rw [quantize, if_neg less.ne', if_neg less.not_gt, pow10_canon, one, mulDiv_canon (pow10_pos _)]
  by_cases fits : Fits c
  · have within : hexDigits c + hexDigits 1 ≤ maxHexDigits + 1 := by
      unfold Fits at fits
      omega
    obtain ⟨whole, built, same⟩ := divBig_whole (p := c * 1) (pow10_pos (fraction - scale)) (by rwa [mul_one])
    rw [if_pos fits, mulDivBig_within within, built]
    have quotient : whole = c / 10 ^ (fraction - scale) := by
      have apart : (((10 : Int) ^ (fraction - scale) : Int) : ℚ) ≠ 0 := by exact_mod_cast (pow10_pos _).ne'
      rw [div_eq_iff apart, mul_one] at same
      exact (Int.ediv_eq_of_eq_mul_left (pow10_pos _).ne' (by exact_mod_cast same)).symm
    rw [quotient]
    rfl
  · have past : maxHexDigits + 1 < hexDigits c + hexDigits 1 := by
      unfold Fits at fits
      omega
    rw [if_neg fits, mulDivBig_past past]

theorem productExceedsDigits_canon (a b : Int) :
    productExceedsDigits (canon a) (canon b) = decide (maxHexDigits + 1 < hexDigits a + hexDigits b) := by
  simp [productExceedsDigits]

theorem quantize_exact (divides : (10 : Int) ^ (fraction - scale) ∣ c) (mode : Option RoundingMode) :
    quantize (canon c) fraction scale mode = .ok (canon (rescaled c fraction scale)) ∨
      quantize (canon c) fraction scale mode = .error tooManyDigits := by
  unfold rescaled
  rcases lt_trichotomy fraction scale with less | same | more
  · rw [quantize_up less, if_pos less.le, mulBig]
    split
    · exact .inr rfl
    · exact .inl rfl
  · subst same
    rw [quantize, if_pos rfl, if_pos le_rfl, Nat.sub_self, pow_zero, mul_one]
    exact .inl rfl
  · rw [quantize_down more divides, if_neg (not_le.mpr more)]
    split
    · exact .inl rfl
    · exact .inr rfl

theorem quantize_within (divides : (10 : Int) ^ (fraction - scale) ∣ c) (fits : scale < fraction → Fits c)
    (room : fraction < scale → hexDigits c + hexDigits (10 ^ (scale - fraction)) ≤ maxHexDigits + 1) (mode : Option RoundingMode) :
    quantize (canon c) fraction scale mode = .ok (canon (rescaled c fraction scale)) := by
  unfold rescaled
  rcases lt_trichotomy fraction scale with less | same | more
  · rw [quantize_up less, if_pos less.le, mulBig, if_neg (not_lt.mpr (room less))]
    rfl
  · subst same
    rw [quantize, if_pos rfl, if_pos le_rfl, Nat.sub_self, pow_zero, mul_one]
  · rw [quantize_down more divides, if_neg (not_le.mpr more), if_pos (fits more)]

theorem rescaled_value (divides : (10 : Int) ^ (fraction - scale) ∣ c) :
    (rescaled c fraction scale : ℚ) / 10 ^ scale = c / 10 ^ fraction := by
  unfold rescaled
  rw [div_eq_div_iff (by positivity) (by positivity)]
  split
  · next less =>
    have whole : fraction + (scale - fraction) = scale := by omega
    calc ((c * 10 ^ (scale - fraction) : Int) : ℚ) * 10 ^ fraction = c * (10 ^ (fraction + (scale - fraction))) := by
          push_cast
          ring
      _ = c * 10 ^ scale := by rw [whole]
  · next more =>
    obtain ⟨quotient, rfl⟩ := divides
    have whole : scale + (fraction - scale) = fraction := by omega
    rw [Int.mul_ediv_cancel_left _ (pow10_pos _).ne']
    calc (quotient : ℚ) * 10 ^ fraction = quotient * 10 ^ (scale + (fraction - scale)) := by rw [whole]
      _ = ((10 ^ (fraction - scale) * quotient : Int) : ℚ) * 10 ^ scale := by
          push_cast
          ring

/-- There is nothing to lose exactly when the amount is a whole number of the units. -/
theorem exact_iff : (10 : Int) ^ (fraction - scale) ∣ c ↔ ∃ whole : Int, (c : ℚ) / 10 ^ fraction = whole / 10 ^ scale := by
  constructor
  · intro divides
    exact ⟨rescaled c fraction scale, (rescaled_value divides).symm⟩
  · rintro ⟨whole, same⟩
    rcases le_or_gt fraction scale with less | more
    · rw [Nat.sub_eq_zero_of_le less, pow_zero]
      exact one_dvd c
    · refine ⟨whole, ?_⟩
      rw [div_eq_div_iff (by positivity) (by positivity)] at same
      have sum : scale + (fraction - scale) = fraction := by omega
      rw [← sum, pow_add] at same
      have product : (c : ℚ) = 10 ^ (fraction - scale) * whole := by
        have apart : (10 : ℚ) ^ scale ≠ 0 := by positivity
        apply mul_right_cancel₀ apart
        linear_combination same
      exact_mod_cast product

theorem rescaled_back (divides : (10 : Int) ^ (fraction - scale) ∣ c) : rescaled (rescaled c fraction scale) scale fraction = c := by
  have back : (10 : Int) ^ (scale - fraction) ∣ rescaled c fraction scale :=
    exact_iff.mpr ⟨c, rescaled_value divides⟩
  have same := (rescaled_value back).trans (rescaled_value divides)
  rw [div_left_inj' (by positivity)] at same
  exact_mod_cast same

theorem Fits.safe (safe : IsSafe n) : Fits n := by
  have few := safe.hexDigits
  unfold Fits maxHexDigits
  omega

theorem hexDigits_mul_le (a b : Int) : hexDigits (a * b) ≤ hexDigits a + hexDigits b := by
  have positive := hexDigits_pos a
  rw [hexDigits_le (by omega), Int.natAbs_mul, pow_add]
  exact Nat.mul_lt_mul'' ((hexDigits_le (hexDigits_pos a)).mp le_rfl) ((hexDigits_le (hexDigits_pos b)).mp le_rfl)

theorem hexDigits_pow10 (less : k ≤ maxScale) : hexDigits (10 ^ k) ≤ 100 := by
  rw [hexDigits_le (by decide), Int.natAbs_pow]
  calc (10 : Int).natAbs ^ k ≤ 10 ^ maxScale := Nat.pow_le_pow_right (by decide) less
    _ < 16 ^ 100 := by decide

end Arki.Money
