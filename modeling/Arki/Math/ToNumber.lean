import Arki.Library.Binary64
import Arki.Math.RationalExact
import Mathlib.Algebra.Order.Field.Power

/-! The double nearest to a fraction, by rounding in binary. -/

set_option autoImplicit false

namespace Arki.Math

open Binary64 (Magnitude IsNearest Halfway)

namespace Rational

def scaledP (p : Nat) (shift : Int) : Nat := if 0 ≤ shift then p <<< shift.toNat else p

def scaledQ (q : Nat) (shift : Int) : Nat := if 0 ≤ shift then q else q <<< (-shift).toNat

def scaleLoop (p q : Nat) : Nat → Int → Option Int
  | 0, _ => none
  | fuel + 1, shift =>
    let quotient := scaledP p shift / scaledQ q shift
    if 1 <<< 54 ≤ quotient then scaleLoop p q fuel (shift - 1)
    else if quotient < 1 <<< 53 then scaleLoop p q fuel (shift + 1)
    else some shift

/-- 53 bits of the quotient, rounded by the bit after them and whether anything follows. -/
def roundedMantissa (scaledP scaledQ : Nat) : Nat :=
  let quotient := scaledP / scaledQ
  let mantissa := quotient >>> 1
  let roundBit := quotient % 2 = 1
  let sticky := scaledP % scaledQ ≠ 0
  if roundBit ∧ (sticky ∨ mantissa % 2 = 1) then mantissa + 1 else mantissa

/-- Scaled in two steps, so that results in the subnormal range are reachable. -/
def scaledBack (mantissa : Nat) (exponent : Int) : Magnitude :=
  if exponent < -1022 then ((Magnitude.ofRat mantissa).mul (.pow2 (-1022))).mul (.pow2 (exponent + 1022))
  else (Magnitude.ofRat mantissa).mul (.pow2 exponent)

def toNumber (fuel : Nat) (this : Rational) : Option (Checked ℚ) :=
  if this.numerator = 0 then some (.ok 0)
  else
    let p := this.numerator.natAbs
    let q := this.denominator.natAbs
    (scaleLoop p q fuel (54 - ((bitLength p : Int) - bitLength q))).map fun shift =>
      match scaledBack (roundedMantissa (scaledP p shift) (scaledQ q shift)) (1 - shift) with
      | .infinity => .error (.numericRange (this.text ++ " overflows a JS number"))
      | .finite magnitude =>
        if magnitude = 0 then .error (.numericRange (this.text ++ " underflows to zero as a JS number"))
        else .ok (if this.numerator < 0 then -magnitude else magnitude)

variable {p q : Nat} {shift : Int}

theorem scaled_quotient (positive : 0 < q) (p : Nat) (shift : Int) :
    ((scaledP p shift : ℕ) : ℚ) / (scaledQ q shift : ℕ) = p / q * 2 ^ shift ∧ 0 < scaledQ q shift := by
  have cast : (q : ℚ) ≠ 0 := by exact_mod_cast positive.ne'
  unfold scaledP scaledQ
  split
  · next nonneg =>
    obtain ⟨n, rfl⟩ := Int.eq_ofNat_of_zero_le nonneg
    refine ⟨?_, positive⟩
    rw [Int.toNat_natCast, Nat.shiftLeft_eq, zpow_natCast]
    push_cast
    ring
  · next negative =>
    obtain ⟨n, isShift⟩ : ∃ n : ℕ, shift = -(n : ℤ) := ⟨(-shift).toNat, by omega⟩
    rw [isShift, neg_neg, Int.toNat_natCast, Nat.shiftLeft_eq]
    refine ⟨?_, by positivity⟩
    rw [zpow_neg, zpow_natCast]
    push_cast
    field_simp

theorem quotient_bounds (positive : 0 < q) (p : Nat) (shift : Int) (n : ℕ) :
    (scaledP p shift / scaledQ q shift < n ↔ (p : ℚ) / q * 2 ^ shift < n) := by
  obtain ⟨is, some_⟩ := scaled_quotient positive p shift
  have cast : (0 : ℚ) < scaledQ q shift := by exact_mod_cast some_
  rw [← is, div_lt_iff₀ cast, Nat.div_lt_iff_lt_mul some_]
  exact_mod_cast Iff.rfl

theorem first_shift (pPos : 0 < p) (qPos : 0 < q) :
    2 ^ 53 ≤ (p : ℚ) / q * 2 ^ (54 - ((bitLength p : Int) - bitLength q)) ∧
      (p : ℚ) / q * 2 ^ (54 - ((bitLength p : Int) - bitLength q)) < 2 ^ 55 := by
  obtain ⟨pLow, pHigh, pSome⟩ := bitLength_bounds pPos
  obtain ⟨qLow, qHigh, qSome⟩ := bitLength_bounds qPos
  generalize bitLength p = i at *
  generalize bitLength q = j at *
  obtain ⟨i, rfl⟩ : ∃ k, i = k + 1 := ⟨i - 1, by omega⟩
  obtain ⟨j, rfl⟩ : ∃ k, j = k + 1 := ⟨j - 1, by omega⟩
  rw [Nat.add_sub_cancel] at pLow qLow
  have qCast : (0 : ℚ) < q := by exact_mod_cast qPos
  have pLow_ : (2 : ℚ) ^ i ≤ p := by exact_mod_cast pLow
  have pHigh_ : (p : ℚ) < 2 ^ (i + 1) := by exact_mod_cast pHigh
  have qLow_ : (2 : ℚ) ^ j ≤ q := by exact_mod_cast qLow
  have qHigh_ : (q : ℚ) < 2 ^ (j + 1) := by exact_mod_cast qHigh
  have iPos : (0 : ℚ) < 2 ^ i := by positivity
  have jPos : (0 : ℚ) < 2 ^ j := by positivity
  have power : (2 : ℚ) ^ (54 - (((i + 1 : ℕ) : ℤ) - (j + 1 : ℕ))) = 2 ^ 54 * 2 ^ j / 2 ^ i := by
    have split_ : (54 - (((i + 1 : ℕ) : ℤ) - (j + 1 : ℕ))) = 54 + (j : ℤ) - i := by push_cast; ring
    rw [split_, zpow_sub₀ two_ne_zero, zpow_add₀ two_ne_zero, zpow_natCast, zpow_natCast]
    norm_num
  rw [power, div_mul_div_comm]
  constructor
  · rw [le_div_iff₀ (by positivity)]
    calc (2 : ℚ) ^ 53 * ((q : ℚ) * 2 ^ i) ≤ 2 ^ 53 * (2 ^ (j + 1) * (p : ℚ)) := by gcongr
      _ = (p : ℚ) * (2 ^ 54 * 2 ^ j) := by ring
  · rw [div_lt_iff₀ (by positivity)]
    calc (p : ℚ) * (2 ^ 54 * 2 ^ j) < 2 ^ (i + 1) * (2 ^ 54 * 2 ^ j) := by gcongr
      _ ≤ 2 ^ (i + 1) * (2 ^ 54 * (q : ℚ)) := by gcongr
      _ = 2 ^ 55 * ((q : ℚ) * 2 ^ i) := by ring

theorem scaleLoop_ends (pPos : 0 < p) (qPos : 0 < q) {fuel : Nat} (enough : 2 ≤ fuel) :
    ∃ shift, scaleLoop p q fuel (54 - ((bitLength p : Int) - bitLength q)) = some shift ∧
      2 ^ 53 ≤ (p : ℚ) / q * 2 ^ shift ∧ (p : ℚ) / q * 2 ^ shift < 2 ^ 54 := by
  obtain ⟨low, high⟩ := first_shift pPos qPos
  generalize 54 - ((bitLength p : Int) - bitLength q) = shift at *
  obtain ⟨fuel, rfl⟩ : ∃ k, fuel = k + 2 := ⟨fuel - 2, by omega⟩
  have stops (fuel : Nat) (shift : Int) (low : 2 ^ 53 ≤ (p : ℚ) / q * 2 ^ shift) (high : (p : ℚ) / q * 2 ^ shift < 2 ^ 54) :
      scaleLoop p q (fuel + 1) shift = some shift := by
    have above : ¬ scaledP p shift / scaledQ q shift < 2 ^ 53 := by
      rw [quotient_bounds qPos, not_lt]
      exact_mod_cast low
    have below : scaledP p shift / scaledQ q shift < 2 ^ 54 := by
      rw [quotient_bounds qPos]
      exact_mod_cast high
    rw [scaleLoop, if_neg (show ¬ 1 <<< 54 ≤ scaledP p shift / scaledQ q shift from not_le.mpr below),
      if_neg (show ¬ scaledP p shift / scaledQ q shift < 1 <<< 53 from above)]
  by_cases within : (p : ℚ) / q * 2 ^ shift < 2 ^ 54
  · exact ⟨shift, stops _ _ low within, low, within⟩
  · have past : 1 <<< 54 ≤ scaledP p shift / scaledQ q shift := by
      rw [← not_lt]
      show ¬ _ < 2 ^ 54
      rw [quotient_bounds qPos]
      exact_mod_cast within
    have halved : (p : ℚ) / q * 2 ^ (shift - 1) = (p : ℚ) / q * 2 ^ shift / 2 := by
      rw [zpow_sub_one₀ two_ne_zero]
      ring
    have low' : 2 ^ 53 ≤ (p : ℚ) / q * 2 ^ (shift - 1) := by
      rw [halved]
      linarith
    have high' : (p : ℚ) / q * 2 ^ (shift - 1) < 2 ^ 54 := by
      rw [halved]
      linarith
    refine ⟨shift - 1, ?_, low', high'⟩
    rw [scaleLoop, if_pos past, stops _ _ low' high']

/-- The bit after the mantissa and the sticky bit decide as the exact quotient does. -/
theorem roundedMantissa_eq (a : Nat) {b : Nat} (positive : 0 < b) : (roundedMantissa a b : ℤ) = nearest ((a : ℚ) / b / 2) := by
  have cast : (0 : ℚ) < b := by exact_mod_cast positive
  have whole : (a : ℚ) / b = (a / b : ℕ) + ((a % b : ℕ) : ℚ) / b := natAbs_quotient a positive
  have restNonneg : (0 : ℚ) ≤ ((a % b : ℕ) : ℚ) / b := by positivity
  have restSmall : ((a % b : ℕ) : ℚ) / b < 1 := by
    rw [div_lt_one cast]
    exact_mod_cast Nat.mod_lt a positive
  have sticky : a % b ≠ 0 ↔ 0 < ((a % b : ℕ) : ℚ) / b := by
    rw [div_pos_iff_of_pos_right cast, Nat.cast_pos]
    exact Nat.pos_iff_ne_zero.symm
  have halves : ((a / b : ℕ) : ℚ) = 2 * (a / b / 2 : ℕ) + (a / b % 2 : ℕ) := by exact_mod_cast (Nat.div_add_mod (a / b) 2).symm
  unfold roundedMantissa
  simp only [Nat.shiftRight_one]
  rw [whole, halves]
  generalize ((a % b : ℕ) : ℚ) / b = rest at *
  generalize a / b / 2 = half at *
  symm
  rcases Nat.mod_two_eq_zero_or_one (a / b) with even | odd
  · -- the bit after the mantissa is clear: below half
    rw [even, if_neg (by omega)]
    apply nearest_eq
    · rw [abs_of_nonneg (by push_cast; linarith)]
      push_cast
      linarith
    · intro tie
      rw [abs_of_nonneg (by push_cast; linarith)] at tie
      push_cast at tie
      linarith
  · rw [odd]
    by_cases up : a % b ≠ 0 ∨ half % 2 = 1
    · rw [if_pos ⟨rfl, up⟩]
      apply nearest_eq
      · rw [abs_of_nonpos (by push_cast; linarith)]
        push_cast
        linarith
      · intro tie
        rw [abs_of_nonpos (by push_cast; linarith)] at tie
        push_cast at tie
        have none_ : ¬ 0 < rest := by linarith
        have oddMantissa : half % 2 = 1 := up.resolve_left (mt sticky.mp none_)
        rw [Int.even_iff]
        omega
    · rw [if_neg fun both => up both.2]
      obtain ⟨exact_, evenMantissa⟩ := not_or.mp up
      have none_ : rest = 0 := le_antisymm (not_lt.mp (mt sticky.mpr exact_)) restNonneg
      rw [none_]
      apply nearest_eq
      · rw [abs_of_nonneg (by push_cast; linarith)]
        push_cast
        linarith
      · intro _
        rw [Int.even_iff]
        omega

/-- With the shift that the loop ends with, the mantissa is the number rounded to 53 bits. -/
theorem mantissa_round (pPos : 0 < p) (qPos : 0 < q) (low : 2 ^ 53 ≤ (p : ℚ) / q * 2 ^ shift)
    (high : (p : ℚ) / q * 2 ^ shift < 2 ^ 54) :
    Double.round ((p : ℚ) / q) = (roundedMantissa (scaledP p shift) (scaledQ q shift) : ℚ) * 2 ^ (1 - shift) ∧
      2 ^ 52 ≤ roundedMantissa (scaledP p shift) (scaledQ q shift) ∧
      roundedMantissa (scaledP p shift) (scaledQ q shift) ≤ 2 ^ 53 := by
  obtain ⟨is, some_⟩ := scaled_quotient qPos p shift
  have mantissa := roundedMantissa_eq (scaledP p shift) some_
  rw [is] at mantissa
  generalize roundedMantissa (scaledP p shift) (scaledQ q shift) = n at *
  have pCast : (0 : ℚ) < p := by exact_mod_cast pPos
  have qCast : (0 : ℚ) < q := by exact_mod_cast qPos
  have positive : 0 < (p : ℚ) / q := div_pos pCast qCast
  generalize (p : ℚ) / q = v at *
  have unit : (0 : ℚ) < 2 ^ shift := zpow_pos (by norm_num) shift
  have log : Int.log 2 v = 53 - shift := by
    have least : (2 : ℚ) ^ (53 - shift) ≤ v := by
      rw [zpow_sub₀ two_ne_zero, div_le_iff₀ unit]
      exact_mod_cast low
    have most : v < (2 : ℚ) ^ (54 - shift) := by
      rw [zpow_sub₀ two_ne_zero, lt_div_iff₀ unit]
      exact_mod_cast high
    have lower := (Int.zpow_le_iff_le_log one_lt_two positive).mp (by exact_mod_cast least)
    have upper := (Int.lt_zpow_iff_log_lt one_lt_two positive).mp (by exact_mod_cast most)
    omega
  have ulp : Double.ulp v = 2 ^ (1 - shift) := by
    rw [Double.ulp, abs_of_pos positive, log]
    congr 1
    ring
  have scaled_ : v / 2 ^ (1 - shift) = v * 2 ^ shift / 2 := by
    rw [zpow_sub₀ two_ne_zero, zpow_one]
    field_simp
  refine ⟨?_, ?_, ?_⟩
  · rw [Double.round, ulp, scaled_, ← mantissa, Int.cast_natCast]
  · have above := @nearest_ge (v * 2 ^ shift / 2) (2 ^ 52) (by push_cast; linarith)
    rw [← mantissa] at above
    exact_mod_cast above
  · have below := @nearest_le (v * 2 ^ shift / 2) (2 ^ 53) (by push_cast; linarith)
    rw [← mantissa] at below
    exact_mod_cast below

open Binary64 in
/-- Both ways of scaling back round the mantissa's value once, to a double or to infinity. -/
theorem scaledBack_eq {mantissa : Nat} (low : 2 ^ 52 ≤ mantissa) (high : mantissa ≤ 2 ^ 53) (exponent : Int) :
    scaledBack mantissa exponent = .ofRat (mantissa * 2 ^ exponent) := by
  have lowCast : (2 : ℚ) ^ 52 ≤ mantissa := by exact_mod_cast low
  have highCast : (mantissa : ℚ) ≤ 2 ^ 53 := by exact_mod_cast high
  -- 53 bits from the least exponent on are a double, also after a carry
  have isDouble (e : ℤ) (least : -1074 ≤ e) : IsDouble ((mantissa : ℚ) * 2 ^ e) := by
    by_cases carried : mantissa = 2 ^ 53
    · refine ⟨1, e + 53, by norm_num, by omega, ?_⟩
      rw [carried, add_comm, zpow_add₀ two_ne_zero]
      norm_num
    · refine ⟨mantissa, e, ?_, least, by push_cast; rfl⟩
      rw [Nat.abs_cast]
      exact_mod_cast lt_of_le_of_ne high carried
  have whole : IsDouble (mantissa : ℚ) := by
    have at_ := isDouble 0 (by norm_num)
    rwa [zpow_zero, mul_one] at at_
  have number : Magnitude.ofRat (mantissa : ℚ) = .finite mantissa := by
    rw [Magnitude.ofRat_double whole, if_neg]
    rw [not_le]
    exact highCast.trans_lt (pow_lt_pow_right₀ one_lt_two (by norm_num))
  unfold scaledBack
  rw [number]
  split
  · next tiny =>
    have shifted : IsDouble ((mantissa : ℚ) * 2 ^ (-1022 : ℤ)) := isDouble _ (by norm_num)
    have first : (Magnitude.finite mantissa).mul (.pow2 (-1022)) = .finite (mantissa * 2 ^ (-1022 : ℤ)) := by
      rw [Magnitude.pow2_normal (by norm_num), if_neg (by norm_num), Magnitude.mul, Magnitude.ofRat_double shifted, if_neg]
      rw [not_le]
      calc (mantissa : ℚ) * 2 ^ (-1022 : ℤ) ≤ 2 ^ 53 * 2 ^ (-1022 : ℤ) := by gcongr
        _ ≤ 2 ^ 53 * 1 := by
          gcongr
          exact zpow_le_one_of_nonpos₀ one_le_two (by norm_num)
        _ < 2 ^ 1024 := by
          rw [mul_one]
          exact pow_lt_pow_right₀ one_lt_two (by norm_num)
    rw [first]
    by_cases within : -1074 ≤ exponent + 1022
    · rw [Magnitude.pow2_normal within, if_neg (by omega), Magnitude.mul, mul_assoc, ← zpow_add₀ two_ne_zero]
      congr 3
      ring
    · -- far below the least double: nothing is left either way
      have below : (mantissa : ℚ) * 2 ^ exponent ≤ 2 ^ (-1076 : ℤ) := by
        calc (mantissa : ℚ) * 2 ^ exponent ≤ 2 ^ 53 * 2 ^ exponent := by gcongr
          _ = 2 ^ (exponent + 53) := by
            rw [add_comm, zpow_add₀ two_ne_zero]
            norm_num
          _ ≤ 2 ^ (-1076 : ℤ) := zpow_le_zpow_right₀ one_le_two (by omega)
      have none_ : Binary64.round ((mantissa : ℚ) * 2 ^ exponent) = 0 :=
        Binary64.round_tiny (by positivity) (below.trans (zpow_le_zpow_right₀ one_le_two (by norm_num)))
      rw [Magnitude.pow2_tiny (by omega), Magnitude.mul, mul_zero, Magnitude.ofRat, Magnitude.ofRat, none_, Binary64.round_zero]
  · next notTiny =>
    rw [Magnitude.pow2_normal (by omega)]
    split
    · next large =>
      have past : (2 : ℚ) ^ 1024 ≤ mantissa * 2 ^ exponent := by
        have power := zpow_natCast (2 : ℚ) 1024
        rw [Nat.cast_ofNat] at power
        have one : (1 : ℚ) ≤ mantissa := (one_le_pow₀ one_le_two).trans lowCast
        rw [← power, ← one_mul ((2 : ℚ) ^ (1024 : ℤ))]
        exact mul_le_mul one (zpow_le_zpow_right₀ one_le_two large) (by positivity) (by positivity)
      rw [Magnitude.ofRat_double (isDouble _ (by omega)), if_pos past]
      rfl
    · rfl

variable {x : Rational} {fuel : Nat}

def toDouble (x : ℚ) : ℚ := Binary64.round (Double.round x)

theorem toDouble_neg (x : ℚ) : toDouble (-x) = -toDouble x := by
  rw [toDouble, Binary64.double_round_neg, Binary64.round_neg, toDouble]

theorem toDouble_abs (x : ℚ) : toDouble |x| = |toDouble x| := by
  rcases le_or_gt 0 x with nonneg | negative
  · rw [abs_of_nonneg nonneg, abs_of_nonneg]
    exact Binary64.round_nonneg (Double.round_nonneg nonneg)
  · have below : toDouble x ≤ 0 := by
      have above : 0 ≤ toDouble (-x) := Binary64.round_nonneg (Double.round_nonneg (neg_pos.mpr negative).le)
      rw [toDouble_neg] at above
      linarith
    rw [abs_of_neg negative, toDouble_neg, abs_of_nonpos below]

theorem toNumber_eq (reduced : x.Reduced) (enough : 2 ≤ fuel) (some_ : x.numerator ≠ 0) :
    x.toNumber fuel = some (
      if 2 ^ 1024 ≤ |toDouble x.value| then .error (.numericRange (x.text ++ " overflows a JS number"))
      else if toDouble x.value = 0 then .error (.numericRange (x.text ++ " underflows to zero as a JS number"))
      else .ok (toDouble x.value)) := by
  have dPos := reduced.positive
  have pPos : 0 < x.numerator.natAbs := Int.natAbs_pos.mpr some_
  have qPos : 0 < x.denominator.natAbs := Int.natAbs_pos.mpr dPos.ne'
  obtain ⟨shift, ended, low, high⟩ := scaleLoop_ends pPos qPos enough
  obtain ⟨rounded, least, most⟩ := mantissa_round pPos qPos low high
  have size : (x.numerator.natAbs : ℚ) / x.denominator.natAbs = |x.value| := by
    rw [value, abs_div, ← Int.cast_abs, ← Int.cast_abs, Int.abs_eq_natAbs, Int.abs_eq_natAbs, Int.cast_natCast, Int.cast_natCast]
  rw [size] at rounded
  unfold toNumber
  rw [if_neg some_]
  simp only [ended, Option.map_some]
  rw [scaledBack_eq least most, ← rounded, Magnitude.ofRat, ← toDouble, toDouble_abs]
  congr 1
  by_cases overflows : 2 ^ 1024 ≤ |toDouble x.value|
  · rw [if_pos overflows, if_pos overflows]
  · rw [if_neg overflows, if_neg overflows]
    simp only [abs_eq_zero]
    by_cases none_ : toDouble x.value = 0
    · rw [if_pos none_, if_pos none_]
    · rw [if_neg none_, if_neg none_]
      have dCast : (0 : ℚ) < x.denominator := by exact_mod_cast dPos
      congr 1
      by_cases negative : x.numerator < 0
      · have below : x.value < 0 := div_neg_of_neg_of_pos (by exact_mod_cast negative) dCast
        have mirrored := toDouble_abs x.value
        rw [abs_of_neg below, toDouble_neg] at mirrored
        rw [if_pos negative, ← mirrored, neg_neg]
      · have above : 0 ≤ x.value := div_nonneg (by exact_mod_cast not_lt.mp negative) dCast.le
        rw [if_neg negative, ← toDouble_abs, abs_of_nonneg above]

end Rational

end Arki.Math
