import Mathlib.Data.Int.Log
import Mathlib.Data.Rat.Floor
import Mathlib.Tactic.Positivity

/-! Finite double-precision numbers: rationals of 53 significant bits, and a zero of each sign.

An operation is its exact result, rounded to the nearest, ties to even. The exponent has no bounds here: nothing
overflows, and nothing is subnormal.
-/

set_option autoImplicit false

namespace Arki

def nearest (x : ℚ) : ℤ :=
  let rest := x - ⌊x⌋
  if rest < 1 / 2 then ⌊x⌋
  else if 1 / 2 < rest then ⌊x⌋ + 1
  else if ⌊x⌋ % 2 = 0 then ⌊x⌋ else ⌊x⌋ + 1

inductive Double where
  | negZero
  | of (value : ℚ)
  deriving DecidableEq

namespace Double

def value : Double → ℚ
  | negZero => 0
  | of value => value

def negative : Double → Bool
  | negZero => true
  | of value => value < 0

def zero (negative : Bool) : Double := if negative then negZero else of 0

def ulp (x : ℚ) : ℚ := 2 ^ (Int.log 2 |x| - 52)

def round (x : ℚ) : ℚ := nearest (x / ulp x) * ulp x

def trunc (x : ℚ) : ℤ := if 0 ≤ x then ⌊x⌋ else ⌈x⌉

def neg : Double → Double
  | negZero => of 0
  | of value => if value = 0 then negZero else of (-value)

def add (a b : Double) : Double :=
  if a = negZero ∧ b = negZero then negZero else of (round (a.value + b.value))

def sub (a b : Double) : Double :=
  if a = negZero ∧ b = of 0 then negZero else of (round (a.value - b.value))

def mul (a b : Double) : Double :=
  if a.value * b.value = 0 then zero (a.negative != b.negative) else of (round (a.value * b.value))

def div (a b : Double) : Double :=
  if a.value = 0 then zero (a.negative != b.negative) else of (round (a.value / b.value))

/-- The rest of the truncated division, which is exact, with the sign of the dividend. -/
def rem (a b : Double) : Double :=
  let rest := a.value - b.value * trunc (a.value / b.value)
  if rest = 0 then zero a.negative else of rest

end Double

theorem nearest_int (n : ℤ) : nearest n = n := by
  simp [nearest]

theorem nearest_ge {x : ℚ} {n : ℤ} (above : n ≤ x) : n ≤ nearest x := by
  have low : n ≤ ⌊x⌋ := Int.le_floor.mpr above
  unfold nearest
  dsimp only
  split
  · exact low
  · split
    · omega
    · split <;> omega

theorem nearest_le {x : ℚ} {n : ℤ} (below : x ≤ n) : nearest x ≤ n := by
  have high : ⌊x⌋ ≤ n := by
    have floor : (⌊x⌋ : ℚ) ≤ n := (Int.floor_le x).trans below
    exact_mod_cast floor
  by_cases whole : ⌊x⌋ = n
  · have same : x = n := le_antisymm below (by rw [← whole]; exact Int.floor_le x)
    rw [same, nearest_int]
  · unfold nearest
    dsimp only
    split
    · exact high
    · split
      · omega
      · split <;> omega

namespace Double

theorem ulp_pos (x : ℚ) : 0 < ulp x := zpow_pos (by norm_num) _

theorem round_exact {x : ℚ} {n k : ℤ} (is : x = n * 2 ^ k) (short : |x| < 2 ^ (k + 53)) : round x = x := by
  by_cases isZero : x = 0
  · have whole := nearest_int 0
    rw [Int.cast_zero] at whole
    rw [round, isZero, zero_div, whole, Int.cast_zero, zero_mul]
  have size : Int.log 2 |x| < k + 53 :=
    (Int.lt_zpow_iff_log_lt one_lt_two (abs_pos.mpr isZero)).mp (by exact_mod_cast short)
  obtain ⟨shift, isShift⟩ : ∃ shift : ℕ, k = Int.log 2 |x| - 52 + shift :=
    ⟨(k - (Int.log 2 |x| - 52)).toNat, by omega⟩
  have grid : x / ulp x = ((n * 2 ^ shift : ℤ) : ℚ) := by
    rw [div_eq_iff (ulp_pos x).ne', ulp]
    generalize Int.log 2 |x| = log at isShift
    subst isShift
    push_cast
    rw [is, zpow_add₀ two_ne_zero, zpow_natCast]
    ring
  rw [round, grid, nearest_int, ← grid, div_mul_cancel₀ _ (ulp_pos x).ne']

theorem round_int {n : ℤ} (small : |n| < 2 ^ 53) : round n = n := by
  refine round_exact (n := n) (k := 0) (by simp) ?_
  rw [zero_add]
  exact_mod_cast small

@[simp] theorem round_zero : round 0 = 0 := by
  have whole := round_int (n := 0) (by norm_num)
  exact_mod_cast whole

theorem round_round (x : ℚ) : round (round x) = round x := by
  by_cases isZero : x = 0
  · rw [isZero, round_zero, round_zero]
  generalize isLog : Int.log 2 |x| - 52 = k
  have ulp : ulp x = 2 ^ k := by rw [ulp, isLog]
  have is : round x = nearest (x / 2 ^ k) * 2 ^ k := by rw [round, ulp]
  have positive : (0 : ℚ) < 2 ^ k := zpow_pos (by norm_num) k
  have size : |x / 2 ^ k| ≤ 2 ^ 53 := by
    have under : |x| < 2 ^ (k + 53) := by
      have log := (Int.lt_zpow_iff_log_lt one_lt_two (abs_pos.mpr isZero)).mpr (show Int.log 2 |x| < k + 53 by omega)
      exact_mod_cast log
    rw [abs_div, abs_of_pos positive, div_le_iff₀ positive, ← zpow_natCast, ← zpow_add₀ (by norm_num), add_comm]
    exact under.le
  rw [abs_le] at size
  have high : nearest (x / 2 ^ k) ≤ 2 ^ 53 := nearest_le (by exact_mod_cast size.2)
  have low : -2 ^ 53 ≤ nearest (x / 2 ^ k) := nearest_ge (by exact_mod_cast size.1)
  generalize nearest (x / 2 ^ k) = n at *
  rcases lt_or_ge |n| (2 ^ 53) with short | long
  · refine round_exact is ?_
    rw [is, abs_mul, abs_of_pos positive, zpow_add₀ (by norm_num), mul_comm]
    exact mul_lt_mul_of_pos_left (by exact_mod_cast short) positive
  · -- a power of two: half the number at the next exponent
    obtain ⟨half, rfl, isHalf⟩ : ∃ half : ℤ, n = half * 2 ∧ |half| = 2 ^ 52 := by
      rcases abs_cases n with ⟨same, -⟩ | ⟨same, -⟩
      · exact ⟨2 ^ 52, by omega, by norm_num⟩
      · exact ⟨-2 ^ 52, by omega, by norm_num⟩
    have next_ : round x = half * 2 ^ (k + 1) := by
      rw [is, zpow_add_one₀ (by norm_num)]
      push_cast
      ring
    refine round_exact next_ ?_
    have size_ : |(half : ℚ)| = 2 ^ 52 := by exact_mod_cast isHalf
    rw [next_, abs_mul, size_, abs_of_pos (zpow_pos (by norm_num) _), zpow_add₀ (by norm_num) (k + 1) 53, mul_comm]
    exact mul_lt_mul_of_pos_left (by norm_num) (zpow_pos (by norm_num) _)

theorem le_round {x : ℚ} (positive : 0 < x) : 2 ^ Int.log 2 x ≤ round x := by
  have low : (2 : ℚ) ^ Int.log 2 x ≤ x := by exact_mod_cast Int.zpow_log_le_self one_lt_two positive
  have power : (2 : ℚ) ^ Int.log 2 x = ((2 ^ 52 : ℤ) : ℚ) * ulp x := by
    rw [ulp, abs_of_pos positive, zpow_sub₀ two_ne_zero]
    push_cast
    field_simp
  have grid : ((2 ^ 52 : ℤ) : ℚ) ≤ x / ulp x := by
    rw [le_div_iff₀ (ulp_pos x), ← power]
    exact low
  have above : ((2 ^ 52 : ℤ) : ℚ) ≤ nearest (x / ulp x) := by exact_mod_cast nearest_ge grid
  rw [round, power]
  exact mul_le_mul_of_nonneg_right above (ulp_pos x).le

theorem round_nonneg {x : ℚ} (isPos : 0 ≤ x) : 0 ≤ round x := by
  rcases isPos.eq_or_lt with rfl | positive
  · rw [round_zero]
  · exact (zpow_pos (by norm_num) _).le.trans (le_round positive)

theorem round_le {x : ℚ} (negative : x < 0) : round x ≤ -2 ^ Int.log 2 (-x) := by
  have low : (2 : ℚ) ^ Int.log 2 (-x) ≤ -x := by exact_mod_cast Int.zpow_log_le_self one_lt_two (neg_pos.mpr negative)
  have power : (2 : ℚ) ^ Int.log 2 (-x) = ((2 ^ 52 : ℤ) : ℚ) * ulp x := by
    rw [ulp, abs_of_neg negative, zpow_sub₀ two_ne_zero]
    push_cast
    field_simp
  have grid : x / ulp x ≤ ((-2 ^ 52 : ℤ) : ℚ) := by
    rw [div_le_iff₀ (ulp_pos x)]
    push_cast at power ⊢
    linarith
  have below : (nearest (x / ulp x) : ℚ) ≤ ((-2 ^ 52 : ℤ) : ℚ) := by exact_mod_cast nearest_le grid
  rw [round, power]
  push_cast at below ⊢
  have scaled := mul_le_mul_of_nonneg_right below (ulp_pos x).le
  linarith

theorem large_round {n : ℤ} (large : 2 ^ 53 ≤ |n|) : 2 ^ 53 ≤ |round n| := by
  have bound (x : ℚ) (positive : 0 < x) (far : 2 ^ 53 ≤ x) : (2 : ℚ) ^ 53 ≤ 2 ^ Int.log 2 x := by
    have size : (53 : ℤ) ≤ Int.log 2 x := (Int.zpow_le_iff_le_log one_lt_two positive).mp (by exact_mod_cast far)
    exact_mod_cast zpow_le_zpow_right₀ (one_le_two (α := ℚ)) size
  rcases le_abs.mp large with isPos | isNeg
  · have far : (2 : ℚ) ^ 53 ≤ n := by exact_mod_cast isPos
    have positive : (0 : ℚ) < n := lt_of_lt_of_le (by norm_num) far
    exact ((bound n positive far).trans (le_round positive)).trans (le_abs_self _)
  · have far : (2 : ℚ) ^ 53 ≤ -(n : ℚ) := by exact_mod_cast isNeg
    have negative : (n : ℚ) < 0 := neg_pos.mp (lt_of_lt_of_le (by norm_num) far)
    have below := round_le negative
    exact ((bound (-n) (neg_pos.mpr negative) far).trans (by linarith)).trans (neg_le_abs _)

example : round (2 ^ 53 + 1) = 2 ^ 53 ∧ round (2 ^ 53 + 3) = 2 ^ 53 + 4 := by decide +kernel

def Is (x : Double) (n : ℤ) : Prop := x.value = n

theorem is_of (n : ℤ) : Is (of n) n := rfl

@[simp] theorem zero_value (negative : Bool) : (zero negative).value = 0 := by cases negative <;> rfl

variable {x y : Double} {a b n : ℤ}

theorem Is.eq (is : Is x n) (apart : n ≠ 0) : x = of n := by
  cases x with
  | negZero =>
    have zero_ : (0 : ℚ) = n := is
    exact absurd (by exact_mod_cast zero_.symm) apart
  | of value => rw [show value = (n : ℚ) from is]

theorem Is.neg (is : Is x n) : Is x.neg (-n) := by
  cases x with
  | negZero =>
    have zero_ : (0 : ℚ) = n := is
    show (0 : ℚ) = ((-n : ℤ) : ℚ)
    push_cast
    rw [← zero_, neg_zero]
  | of value =>
    have value_ : value = n := is
    show Is (if value = 0 then negZero else of (-value)) (-n)
    split
    · next zero_ =>
      show (0 : ℚ) = ((-n : ℤ) : ℚ)
      push_cast
      rw [← value_, zero_, neg_zero]
    · show -value = ((-n : ℤ) : ℚ)
      push_cast
      rw [value_]

theorem Is.add_zero (is : Is x n) (small : |n| < 2 ^ 53) : x.add (of 0) = of n := by
  unfold Double.add
  rw [if_neg (by simp)]
  show of (round (x.value + 0)) = _
  rw [show x.value = n from is, Rat.add_zero, round_int small]

theorem mul_value (x y : Double) : (x.mul y).value = round (x.value * y.value) := by
  unfold Double.mul
  split
  · next zero_ => rw [zero_value, zero_, round_zero]
  · rfl

theorem Is.mul (left : Is x a) (right : Is y b) (small : round (a * b : ℤ) = (a * b : ℤ)) : Is (x.mul y) (a * b) := by
  have product : x.value * y.value = ((a * b : ℤ) : ℚ) := by
    rw [show x.value = a from left, show y.value = b from right, Int.cast_mul]
  unfold Double.mul
  rw [product]
  split
  · next zero_ => rw [Is, zero_value, zero_]
  · exact small

theorem Is.div (left : Is x (a * b)) (right : Is y b) (apart : b ≠ 0) (small : |a| < 2 ^ 53) : Is (x.div y) a := by
  have divisor : (b : ℚ) ≠ 0 := by exact_mod_cast apart
  have quotient : x.value / y.value = a := by
    rw [show x.value = ((a * b : ℤ) : ℚ) from left, show y.value = b from right, Int.cast_mul, mul_div_cancel_right₀ _ divisor]
  unfold Double.div
  split
  · next zero_ =>
    rw [zero_, zero_div] at quotient
    rw [Is, zero_value, quotient]
  · show round (x.value / y.value) = a
    rw [quotient, round_int small]

theorem trunc_div (positive : 0 < b) : trunc ((a : ℚ) / b) = a.tdiv b := by
  obtain ⟨d, rfl⟩ := Int.eq_ofNat_of_zero_le positive.le
  have cast : (0 : ℚ) < ((d : ℤ) : ℚ) := by exact_mod_cast positive
  unfold trunc
  rcases lt_or_ge a 0 with negative | isPos
  · have below : ¬ 0 ≤ (a : ℚ) / ((d : ℤ) : ℚ) := by
      rw [not_le]
      exact div_neg_of_neg_of_pos (by exact_mod_cast negative) cast
    rw [if_neg below, ← neg_neg a, Int.neg_tdiv, Int.tdiv_eq_ediv_of_nonneg (by omega), Int.cast_neg, neg_div, Int.ceil_neg]
    rw [Int.cast_natCast, Rat.floor_intCast_div_natCast]
  · have above : 0 ≤ (a : ℚ) / ((d : ℤ) : ℚ) := div_nonneg (by exact_mod_cast isPos) cast.le
    rw [if_pos above, Int.tdiv_eq_ediv_of_nonneg isPos, Int.cast_natCast, Rat.floor_intCast_div_natCast]

theorem Is.rem (left : Is x a) (right : Is y b) (positive : 0 < b) : Is (x.rem y) (a.tmod b) := by
  have rest : x.value - y.value * trunc (x.value / y.value) = ((a.tmod b : ℤ) : ℚ) := by
    rw [show x.value = a from left, show y.value = b from right, trunc_div positive, Int.tmod_def]
    push_cast
    ring
  unfold Double.rem
  dsimp only
  rw [rest]
  split
  · next zero_ => rw [Is, zero_value, zero_]
  · rfl

end Double

end Arki
