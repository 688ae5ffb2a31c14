import Arki.Library.Outcome
import Arki.Math.DecimalText
import Mathlib.Data.Nat.Prime.Basic
import Mathlib.RingTheory.Coprime.Lemmas

/-! What each operation answers with, in the rational numbers. -/

set_option autoImplicit false

namespace Arki.Math

open Outcome (bind_ok)

namespace Decimal

def value (d : Decimal) : ℚ := d.coefficient / 10 ^ d.scale

variable {this a b r : Decimal} {other : DecimalInput}

theorem value_scaled (coefficient : Int) {small large : Nat} (within : small ≤ large) :
    ((coefficient * 10 ^ (large - small) : Int) : ℚ) / 10 ^ large = coefficient / 10 ^ small := by
  have split_ : (10 : ℚ) ^ large = 10 ^ (large - small) * 10 ^ small := by
    rw [← pow_add, Nat.sub_add_cancel within]
  push_cast
  rw [split_, mul_comm (10 ^ (large - small) : ℚ), mul_div_mul_right _ _ (by positivity)]

theorem assertResultDigits_ok {number answer : Int} {what : String} (passed : assertResultDigits number what = .ok answer) :
    answer = number ∧ number.natAbs < 10 ^ maxDigits := by
  unfold assertResultDigits at passed
  by_cases long : ((10 : Int) ^ maxDigits ≤ number || number ≤ -(10 : Int) ^ maxDigits) = true
  · rw [if_pos long] at passed
    cases passed
  · rw [if_neg long] at passed
    cases passed
    simp only [Bool.or_eq_true, decide_eq_true_eq, not_or, not_le] at long
    have size : ((10 ^ maxDigits : Nat) : Int) = (10 : Int) ^ maxDigits := by push_cast; rfl
    refine ⟨rfl, ?_⟩
    rw [← size] at long
    omega

theorem align_spec {x y : Int} {scale : Nat} (aligned : align a b = .ok (x, y, scale)) :
    scale = max a.scale b.scale ∧ x = a.coefficient * 10 ^ (scale - a.scale) ∧ y = b.coefficient * 10 ^ (scale - b.scale) := by
  unfold align at aligned
  by_cases same : a.scale = b.scale
  · rw [if_pos same] at aligned
    cases aligned
    simp [same]
  rw [if_neg same] at aligned
  by_cases less : b.scale < a.scale
  · rw [if_pos less] at aligned
    obtain ⟨scaled, built, done⟩ := bind_ok.mp aligned
    cases done
    rw [timesPow10_ok built]
    exact ⟨(max_eq_left less.le).symm, by simp, rfl⟩
  · rw [if_neg less] at aligned
    obtain ⟨scaled, built, done⟩ := bind_ok.mp aligned
    cases done
    rw [timesPow10_ok built]
    exact ⟨(max_eq_right (Nat.le_of_not_lt less)).symm, rfl, by simp⟩

theorem align_values {x y : Int} {scale : Nat} (aligned : align a b = .ok (x, y, scale)) :
    (x : ℚ) / 10 ^ scale = a.value ∧ (y : ℚ) / 10 ^ scale = b.value := by
  obtain ⟨larger, rfl, rfl⟩ := align_spec aligned
  constructor
  · exact value_scaled _ (by rw [larger]; exact le_max_left _ _)
  · exact value_scaled _ (by rw [larger]; exact le_max_right _ _)

theorem plus_spec (built : this.plus other = .ok r) : ∃ that, from_ other = .ok that ∧
    r.value = this.value + that.value ∧ r.scale = max this.scale that.scale ∧ r.coefficient.natAbs < 10 ^ maxDigits := by
  unfold plus at built
  obtain ⟨that, read, built⟩ := bind_ok.mp built
  obtain ⟨⟨x, y, scale⟩, aligned, built⟩ := bind_ok.mp built
  obtain ⟨coefficient, checked, done⟩ := bind_ok.mp built
  cases done
  obtain ⟨rfl, small⟩ := assertResultDigits_ok checked
  obtain ⟨left, right⟩ := align_values aligned
  refine ⟨that, read, ?_, (align_spec aligned).1, small⟩
  rw [← left, ← right, ← add_div]
  simp only [value]
  push_cast
  rfl

theorem minus_spec (built : this.minus other = .ok r) : ∃ that, from_ other = .ok that ∧
    r.value = this.value - that.value ∧ r.scale = max this.scale that.scale ∧ r.coefficient.natAbs < 10 ^ maxDigits := by
  unfold minus at built
  obtain ⟨that, read, built⟩ := bind_ok.mp built
  obtain ⟨⟨x, y, scale⟩, aligned, built⟩ := bind_ok.mp built
  obtain ⟨coefficient, checked, done⟩ := bind_ok.mp built
  cases done
  obtain ⟨rfl, small⟩ := assertResultDigits_ok checked
  obtain ⟨left, right⟩ := align_values aligned
  refine ⟨that, read, ?_, (align_spec aligned).1, small⟩
  rw [← left, ← right, ← sub_div]
  simp only [value]
  push_cast
  rfl

theorem times_spec (built : this.times other = .ok r) : ∃ that, from_ other = .ok that ∧
    r.value = this.value * that.value ∧ r.scale = this.scale + that.scale ∧ r.Fits := by
  unfold times at built
  obtain ⟨that, read, built⟩ := bind_ok.mp built
  by_cases long : maxScale < this.scale + that.scale
  · simp only [if_pos long] at built
    cases built
  simp only [if_neg long] at built
  obtain ⟨product, multiplied, built⟩ := bind_ok.mp built
  obtain ⟨coefficient, checked, done⟩ := bind_ok.mp built
  cases done
  obtain ⟨rfl, small⟩ := assertResultDigits_ok checked
  rw [multiplyChecked_ok multiplied] at small ⊢
  refine ⟨that, read, ?_, rfl, Nat.le_of_not_lt long, small⟩
  simp only [value]
  push_cast
  rw [pow_add, div_mul_div_comm]

theorem mod_spec (built : this.mod other = .ok r) : ∃ that, from_ other = .ok that ∧ that.value ≠ 0 ∧
    r.scale = max this.scale that.scale ∧ (∃ k : ℤ, this.value = k * that.value + r.value) ∧ |r.value| < |that.value| ∧
      0 ≤ this.value * r.value ∧ |r.value| ≤ |this.value| := by
  unfold mod at built
  obtain ⟨that, read, built⟩ := bind_ok.mp built
  by_cases none_ : that.isZero = true
  · simp only [if_pos none_] at built
    cases built
  simp only [if_neg none_] at built
  obtain ⟨⟨x, y, scale⟩, aligned, done⟩ := bind_ok.mp built
  cases done
  have some_ : that.coefficient ≠ 0 := by simpa [isZero] using none_
  obtain ⟨left, right⟩ := align_values aligned
  have isDivisor : y ≠ 0 := by
    rw [(align_spec aligned).2.2]
    exact mul_ne_zero some_ (by positivity)
  have power : (0 : ℚ) < 10 ^ scale := by positivity
  refine ⟨that, read, ?_, (align_spec aligned).1, ⟨x.tdiv y, ?_⟩, ?_, ?_, ?_⟩
  · rw [← right]
    exact div_ne_zero (by exact_mod_cast isDivisor) power.ne'
  · rw [← left, ← right]
    simp only [value]
    rw [mul_div_assoc', ← add_div]
    congr 1
    have whole := Int.mul_tdiv_add_tmod x y
    rw [mul_comm] at whole
    exact_mod_cast whole.symm
  · rw [← right]
    simp only [value]
    rw [abs_div, abs_div, div_lt_div_iff_of_pos_right (abs_pos.mpr power.ne'), ← Int.cast_abs, ← Int.cast_abs, Int.cast_lt,
      Int.abs_eq_natAbs, Int.abs_eq_natAbs, Int.natAbs_tmod, Int.ofNat_lt]
    exact Nat.mod_lt _ (Int.natAbs_pos.mpr isDivisor)
  · rw [← left]
    simp only [value]
    rw [div_mul_div_comm]
    apply div_nonneg _ (by positivity)
    have sameSign : 0 ≤ x * x.tmod y := by
      rcases le_total 0 x with positive | negative
      · exact mul_nonneg positive (Int.tmod_nonneg _ positive)
      · have turned : 0 ≤ (-x).tmod y := Int.tmod_nonneg _ (by omega)
        rw [Int.neg_tmod] at turned
        exact mul_nonneg_of_nonpos_of_nonpos negative (by omega)
    exact_mod_cast sameSign
  · rw [← left]
    simp only [value]
    rw [abs_div, abs_div, div_le_div_iff_of_pos_right (abs_pos.mpr power.ne'), ← Int.cast_abs, ← Int.cast_abs, Int.cast_le,
      Int.abs_eq_natAbs, Int.abs_eq_natAbs, Int.natAbs_tmod, Int.ofNat_le]
    exact Nat.mod_le _ _

def Rounded (mode : RoundingMode) (exact_ unit result : ℚ) : Prop :=
  ∃ n : ℤ, Rounding.Rounds mode (exact_ / unit) n ∧ result = n * unit

def Multiple (exact_ unit : ℚ) : Prop := ∃ n : ℤ, exact_ = n * unit

theorem rounded_at {mode : RoundingMode} {exact_ : ℚ} {coefficient : Int} {scale : Nat}
    (rounds : Rounding.Rounds mode (exact_ * 10 ^ scale) coefficient) :
    Rounded mode exact_ (10 ^ scale)⁻¹ (value ⟨coefficient, scale⟩) :=
  ⟨coefficient, by rwa [div_inv_eq_mul], by simp only [value]; rw [div_eq_mul_inv]⟩

theorem assertScale_ok {scale : JsNumber} {places : Nat} (passed : assertScale scale = .ok places) :
    scale = .whole places ∧ places ≤ maxScale := by
  cases scale with
  | whole number =>
    simp only [assertScale] at passed
    by_cases negative : number < 0
    · rw [if_pos negative] at passed
      cases passed
    · rw [if_neg negative] at passed
      obtain ⟨_, within, done⟩ := bind_ok.mp passed
      cases done
      unfold assertScaleLimit at within
      by_cases far : exceedsScaleLimit number = true
      · rw [if_pos far] at within
        cases within
      · simp only [exceedsScaleLimit, decide_eq_true_eq, not_lt] at far
        exact ⟨by rw [Int.toNat_of_nonneg (by omega)], by omega⟩
  | fraction spelling => cases passed
  | notFinite spelling => cases passed

theorem divideRounded_ok {x y n : Int} {mode : RoundingMode} (isDivisor : y ≠ 0) (built : divideRounded x y mode = .ok n) :
    Rounding.Rounds mode ((x : ℚ) / y) n := by
  rcases @divideRounded_spec x _ mode isDivisor with ⟨m, rounded, rounds⟩ | ⟨-, -, _, refused⟩
  · rw [built] at rounded
    cases rounded
    exact rounds
  · rw [built] at refused
    cases refused

theorem rounds_small {mode : RoundingMode} {x n : Int} {drop : Nat} (dropped : 0 < drop) (small : x.natAbs < 10 ^ maxDigits)
    (rounds : Rounding.Rounds mode ((x : ℚ) / (10 ^ drop : ℕ)) n) : n.natAbs < 10 ^ maxDigits := by
  have near := rounds.near
  have large : (10 : ℚ) ≤ (10 ^ drop : ℕ) := by
    have atLeast : 10 ^ 1 ≤ 10 ^ drop := Nat.pow_le_pow_right (by decide) dropped
    exact_mod_cast atLeast
  have part : |(x : ℚ) / (10 ^ drop : ℕ)| ≤ |(x : ℚ)| / 10 := by
    rw [abs_div, abs_of_pos (by linarith : (0 : ℚ) < (10 ^ drop : ℕ))]
    exact div_le_div_of_nonneg_left (abs_nonneg _) (by norm_num) large
  have magnitude : |(n : ℚ)| < |(x : ℚ)| / 10 + 1 := by
    have triangle := abs_sub_abs_le_abs_sub (n : ℚ) ((x : ℚ) / (10 ^ drop : ℕ))
    rw [abs_sub_comm] at triangle
    linarith
  have whole : 10 * n.natAbs < x.natAbs + 10 := by
    rw [← Int.cast_abs, ← Int.cast_abs, Int.abs_eq_natAbs, Int.abs_eq_natAbs, Int.cast_natCast, Int.cast_natCast] at magnitude
    have scaled : (10 : ℚ) * n.natAbs < x.natAbs + 10 := by linarith
    exact_mod_cast scaled
  omega

theorem toScale_spec {scale : JsNumber} {mode : RoundingMode} (built : this.toScale scale mode = .ok r) :
    scale = .whole r.scale ∧ r.scale ≤ maxScale ∧ Rounded mode this.value (10 ^ r.scale)⁻¹ r.value ∧
      (this.coefficient.natAbs < 10 ^ maxDigits → r.coefficient.natAbs < 10 ^ maxDigits) := by
  unfold toScale at built
  obtain ⟨places, passed, rest⟩ := bind_ok.mp built
  obtain ⟨named, within⟩ := assertScale_ok passed
  by_cases same : places = this.scale
  · rw [if_pos same] at rest
    cases rest
    refine ⟨by rw [named, same], by omega, ⟨this.coefficient, ?_, ?_⟩, id⟩
    · rw [div_inv_eq_mul, value, div_mul_cancel₀ _ (by positivity)]
      exact Rounding.rounds_int mode _
    · rw [value, div_eq_mul_inv]
  rw [if_neg same] at rest
  by_cases more : this.scale < places
  · rw [if_pos more] at rest
    obtain ⟨scaled, multiplied, rest⟩ := bind_ok.mp rest
    obtain ⟨coefficient, checked, done⟩ := bind_ok.mp rest
    cases done
    obtain ⟨rfl, small⟩ := assertResultDigits_ok checked
    rw [timesPow10_ok multiplied] at small ⊢
    refine ⟨named, within, rounded_at ?_, fun _ => small⟩
    rw [value, ← value_scaled this.coefficient more.le, div_mul_cancel₀ _ (by positivity)]
    exact Rounding.rounds_int mode _
  · rw [if_neg more] at rest
    obtain ⟨coefficient, divided, done⟩ := bind_ok.mp rest
    cases done
    have rounds := divideRounded_ok (by positivity) divided
    have split_ : (10 : ℚ) ^ this.scale = 10 ^ (this.scale - places) * 10 ^ places := by
      rw [← pow_add, Nat.sub_add_cancel (Nat.le_of_not_lt more)]
    refine ⟨named, within, rounded_at ?_, fun small => ?_⟩
    · rw [value, split_, div_mul_eq_mul_div, mul_div_mul_right _ _ (by positivity)]
      push_cast at rounds
      exact rounds
    · apply @rounds_small mode this.coefficient coefficient (this.scale - places) (by omega) small
      push_cast at rounds ⊢
      exact rounds

/-- Rounding keeps so many digits from the first; the unit is the place of the last of them. -/
theorem roundToSignificant_spec {digits : JsNumber} {mode : RoundingMode} (built : this.roundToSignificant digits mode = .ok r) :
    ∃ count : Nat, digits = .whole count ∧ 0 < count ∧ r.scale = this.scale - (digitCount this.coefficient - count) ∧
      Rounded mode this.value (10 ^ (digitCount this.coefficient - count) / 10 ^ this.scale) r.value ∧
        (this.coefficient.natAbs < 10 ^ maxDigits → r.coefficient.natAbs < 10 ^ maxDigits) := by
  cases digits with
  | fraction spelling => cases built
  | notFinite spelling => cases built
  | whole number =>
    simp only [roundToSignificant] at built
    by_cases bad : (!isSafeInteger number || number < 1) = true
    · rw [if_pos bad] at built
      cases built
    rw [if_neg bad] at built
    simp only [Bool.or_eq_true, Bool.not_eq_true', decide_eq_true_eq, not_or, not_lt] at bad
    refine ⟨number.toNat, by rw [Int.toNat_of_nonneg (by omega)], by omega, ?_⟩
    by_cases kept : (this.coefficient = 0 || digitCount this.coefficient ≤ number.toNat) = true
    · -- fewer digits are left as they are
      rw [if_pos kept] at built
      cases built
      have none_ : digitCount this.coefficient - number.toNat = 0 := by
        simp only [Bool.or_eq_true, decide_eq_true_eq] at kept
        rcases kept with zero_ | short
        · have one_ : digitCount 0 = 1 := by decide
          rw [zero_, one_]
          omega
        · omega
      rw [none_, pow_zero, Nat.sub_zero]
      refine ⟨rfl, ⟨this.coefficient, ?_, ?_⟩, id⟩
      · rw [value, div_div_div_cancel_right₀ (by positivity), div_one]
        exact Rounding.rounds_int mode _
      · rw [value, mul_one_div]
    rw [if_neg kept] at built
    simp only [Bool.or_eq_true, decide_eq_true_eq, not_or, not_le] at kept
    obtain ⟨rounded, divided, rest⟩ := bind_ok.mp built
    have rounds := divideRounded_ok (by positivity) divided
    have drops : 0 < digitCount this.coefficient - number.toNat := by omega
    have exact_ : this.value / (10 ^ (digitCount this.coefficient - number.toNat) / 10 ^ this.scale) =
        (this.coefficient : ℚ) / (10 ^ (digitCount this.coefficient - number.toNat) : ℤ) := by
      rw [value, div_div_div_cancel_right₀ (by positivity)]
      push_cast
      rfl
    by_cases inside : digitCount this.coefficient - number.toNat ≤ this.scale
    · rw [if_pos inside] at rest
      cases rest
      refine ⟨rfl, ⟨rounded, by rw [exact_]; exact rounds, ?_⟩, fun small => ?_⟩
      · have split_ : (10 : ℚ) ^ this.scale = 10 ^ (this.scale - (digitCount this.coefficient - number.toNat)) *
            10 ^ (digitCount this.coefficient - number.toNat) := by
          rw [← pow_add, Nat.sub_add_cancel inside]
        rw [value, split_, mul_div_assoc', mul_div_mul_right _ _ (by positivity)]
      · apply @rounds_small mode this.coefficient rounded _ drops small
        push_cast at rounds ⊢
        exact rounds
    · rw [if_neg inside] at rest
      obtain ⟨scaled, multiplied, rest⟩ := bind_ok.mp rest
      obtain ⟨coefficient, checked, done⟩ := bind_ok.mp rest
      cases done
      obtain ⟨rfl, small⟩ := assertResultDigits_ok checked
      rw [timesPow10_ok multiplied] at small ⊢
      refine ⟨by show 0 = _; omega, ⟨rounded, by rw [exact_]; exact rounds, ?_⟩, fun _ => small⟩
      have split_ : (10 : ℚ) ^ (digitCount this.coefficient - number.toNat) =
          10 ^ (digitCount this.coefficient - number.toNat - this.scale) * 10 ^ this.scale := by
        rw [← pow_add, Nat.sub_add_cancel (by omega)]
      rw [value, split_, mul_div_cancel_right₀ _ (by positivity)]
      push_cast
      rw [pow_zero, div_one]

def Shortest (d : Decimal) : Prop := ∀ scale : Nat, Multiple d.value (10 ^ scale)⁻¹ → d.scale ≤ scale

theorem quotient_value (a b : Decimal) :
    ((a.coefficient * 10 ^ b.scale : Int) : ℚ) / (b.coefficient * 10 ^ a.scale : Int) = a.value / b.value := by
  rw [value, value, div_div_div_eq, mul_comm (10 ^ a.scale : ℚ)]
  push_cast
  rfl

theorem value_ne_zero : this.value ≠ 0 ↔ this.coefficient ≠ 0 := by
  have power : (10 : ℚ) ^ this.scale ≠ 0 := by positivity
  rw [value, div_ne_zero_iff]
  constructor
  · intro ⟨some_, _⟩
    exact_mod_cast some_
  · intro some_
    exact ⟨by exact_mod_cast some_, power⟩

/-- A reduced quotient has a finite decimal only if its divisor divides a power of ten. -/
theorem dvd_of_multiple {p q : Int} (isDivisor : q ≠ 0) (reduced : IsCoprime p q) {scale : Nat}
    (multiple : Multiple ((p : ℚ) / q) (10 ^ scale)⁻¹) : q ∣ 10 ^ scale := by
  obtain ⟨n, same⟩ := multiple
  have cast : (q : ℚ) ≠ 0 := by exact_mod_cast isDivisor
  rw [← div_eq_mul_inv, div_eq_div_iff cast (by positivity)] at same
  have whole : p * 10 ^ scale = n * q := by exact_mod_cast same
  exact reduced.symm.dvd_of_dvd_mul_left ⟨n, by rw [whole, mul_comm]⟩

theorem dvd_pow_ten {rest twos fives scale : Nat} (noTwo : ¬ 2 ∣ rest) (noFive : ¬ 5 ∣ rest)
    (divides : rest * 5 ^ fives * 2 ^ twos ∣ 10 ^ scale) : rest = 1 ∧ max twos fives ≤ scale := by
  have ten : (10 : Nat) ^ scale = 2 ^ scale * 5 ^ scale := mul_pow 2 5 scale
  have coprime : Nat.Coprime rest (10 ^ scale) := by
    rw [ten]
    exact ((Nat.Prime.coprime_iff_not_dvd Nat.prime_two).mpr noTwo).symm.pow_right scale |>.mul_right
      (((Nat.Prime.coprime_iff_not_dvd Nat.prime_five).mpr noFive).symm.pow_right scale)
  have whole : rest ∣ 10 ^ scale := dvd_trans (dvd_mul_of_dvd_left (dvd_mul_right _ _) _) divides
  have two : 2 ^ twos ∣ 2 ^ scale := by
    have inside : 2 ^ twos ∣ 2 ^ scale * 5 ^ scale := ten ▸ dvd_trans (dvd_mul_left _ _) divides
    exact (Nat.Coprime.pow _ _ (by decide : Nat.Coprime 2 5)).dvd_of_dvd_mul_right inside
  have five : 5 ^ fives ∣ 5 ^ scale := by
    have inside : 5 ^ fives ∣ 2 ^ scale * 5 ^ scale :=
      ten ▸ dvd_trans (dvd_mul_of_dvd_left (dvd_mul_left _ _) _) divides
    exact (Nat.Coprime.pow _ _ (by decide : Nat.Coprime 5 2)).dvd_of_dvd_mul_left inside
  refine ⟨Nat.Coprime.eq_one_of_dvd coprime whole, max_le ?_ ?_⟩
  · exact (Nat.pow_dvd_pow_iff_le_right (by decide)).mp two
  · exact (Nat.pow_dvd_pow_iff_le_right (by decide)).mp five

theorem reduced_parts {x y : Int} (isDivisor : y ≠ 0) {p : Int} {q : Nat}
    (isP : p = if y < 0 then -(x.tdiv (gcd x y : Int)) else x.tdiv (gcd x y : Int)) (isQ : q = (y.tdiv (gcd x y : Int)).natAbs) :
    0 < q ∧ IsCoprime p q ∧ (x : ℚ) / y = p / q := by
  have positive : 0 < Int.gcd x y := Int.gcd_pos_of_ne_zero_right _ isDivisor
  rw [gcd_eq] at isP isQ
  have castPos : (0 : Int) < (Int.gcd x y : Int) := by exact_mod_cast positive
  have isX : x.tdiv (Int.gcd x y : Int) * Int.gcd x y = x := Int.tdiv_mul_cancel (Int.gcd_dvd_left ..)
  have isY : y.tdiv (Int.gcd x y : Int) * Int.gcd x y = y := Int.tdiv_mul_cancel (Int.gcd_dvd_right ..)
  have coprime : IsCoprime (x.tdiv (Int.gcd x y : Int)) (y.tdiv (Int.gcd x y : Int)) := by
    rw [Int.isCoprime_iff_gcd_eq_one, Int.tdiv_eq_ediv_of_dvd (Int.gcd_dvd_left ..), Int.tdiv_eq_ediv_of_dvd (Int.gcd_dvd_right ..)]
    exact Int.gcd_ediv_gcd_ediv_gcd positive
  have same : (x : ℚ) / y = (x.tdiv (Int.gcd x y : Int) : ℤ) / (y.tdiv (Int.gcd x y : Int) : ℤ) := by
    have castNe : ((Int.gcd x y : Int) : ℚ) ≠ 0 := by exact_mod_cast castPos.ne'
    calc (x : ℚ) / y = (x.tdiv (Int.gcd x y : Int) * Int.gcd x y : Int) / (y.tdiv (Int.gcd x y : Int) * Int.gcd x y : Int) := by
          rw [isX, isY]
      _ = _ := by
          push_cast at castNe ⊢
          exact mul_div_mul_right _ _ castNe
  generalize x.tdiv (Int.gcd x y : Int) = x_ at isP isX coprime same
  generalize y.tdiv (Int.gcd x y : Int) = y_ at isQ isY coprime same
  have some_ : y_ ≠ 0 := by
    rintro rfl
    rw [zero_mul] at isY
    exact isDivisor isY.symm
  refine ⟨by rw [isQ]; exact Int.natAbs_pos.mpr some_, ?_⟩
  by_cases negative : y < 0
  · -- both signs are turned
    have below : y_ < 0 := by
      by_contra atLeast
      have product := mul_nonneg (not_lt.mp atLeast) castPos.le
      omega
    have isNeg : (q : Int) = -y_ := by omega
    have castNeg : (q : ℚ) = -(y_ : ℚ) := by exact_mod_cast isNeg
    rw [if_pos negative] at isP
    rw [isP, isNeg, same, castNeg]
    push_cast
    exact ⟨coprime.neg_neg, (neg_div_neg_eq _ _).symm⟩
  · have above : 0 < y_ := by
      have atLeast : 0 ≤ y_ * Int.gcd x y := by omega
      have nonneg : 0 ≤ y_ := nonneg_of_mul_nonneg_left atLeast castPos
      omega
    have isPos : (q : Int) = y_ := by omega
    have castPos_ : (q : ℚ) = (y_ : ℚ) := by exact_mod_cast isPos
    rw [if_neg negative] at isP
    rw [isP, isPos, same, castPos_]
    exact ⟨coprime, rfl⟩

theorem tdiv_value {c : Int} {q : Nat} (positive : 0 < q) (divides : (q : Int) ∣ c) : ((c.tdiv q : ℤ) : ℚ) = c / q := by
  have castNe : (q : ℚ) ≠ 0 := by exact_mod_cast positive.ne'
  rw [eq_div_iff castNe]
  exact_mod_cast Int.tdiv_mul_cancel divides

theorem fractionToDecimalParts_none {x y : Int} (isDivisor : y ≠ 0) : ∃ (p : Int) (q rest twos fives : Nat),
    0 < q ∧ IsCoprime p q ∧ (x : ℚ) / y = p / q ∧ q = rest * 5 ^ fives * 2 ^ twos ∧ ¬ 2 ∣ rest ∧ ¬ 5 ∣ rest ∧
      (rest ≠ 1 → ∃ message, fractionToDecimalParts x y none = .error (.roundingNecessary message)) ∧
        (rest = 1 → fractionToDecimalParts x y none =
          timesPow10 p (max twos fives) "The quotient" >>= fun scaled => pure ⟨scaled.tdiv q, max twos fives⟩) := by
  obtain ⟨positive, coprime, same⟩ := @reduced_parts x y isDivisor _ _ rfl rfl
  have splitTwos := @stripFactor_spec _ 2 (by decide) positive
  rcases two : stripFactor (y.tdiv (gcd x y : Int)).natAbs 2 with ⟨afterTwos, twos⟩
  rw [two] at splitTwos
  obtain ⟨isQ, noTwo⟩ := splitTwos
  have leftPos : 0 < afterTwos := by
    apply Nat.pos_of_ne_zero
    rintro rfl
    rw [zero_mul] at isQ
    omega
  have splitFives := @stripFactor_spec _ 5 (by decide) leftPos
  rcases five : stripFactor afterTwos 5 with ⟨rest, fives⟩
  rw [five] at splitFives
  obtain ⟨isAfter, noFive⟩ := splitFives
  refine ⟨_, _, rest, twos, fives, positive, coprime, same, ?_, ?_, noFive, ?_, ?_⟩
  · rw [← isAfter]
    exact isQ
  · intro divides
    rw [isAfter] at noTwo
    exact noTwo (dvd_mul_of_dvd_left divides _)
  · intro more
    unfold fractionToDecimalParts
    simp only [if_neg isDivisor, two, five, if_pos more]
    exact ⟨_, rfl⟩
  · intro one_
    unfold fractionToDecimalParts
    simp only [if_neg isDivisor, two, five, one_, ne_eq, not_true_eq_false, if_false]

/-- The quotient of a division without a scale has a finite decimal just when nothing but twos and fives divides. -/
theorem multiple_iff {p : Int} {q rest twos fives scale : Nat} (positive : 0 < q) (reduced : IsCoprime p q)
    (factors : q = rest * 5 ^ fives * 2 ^ twos) (noTwo : ¬ 2 ∣ rest) (noFive : ¬ 5 ∣ rest)
    (multiple : Multiple ((p : ℚ) / q) (10 ^ scale)⁻¹) : rest = 1 ∧ max twos fives ≤ scale := by
  have some_ : (q : Int) ≠ 0 := by exact_mod_cast positive.ne'
  have divides : (q : Int) ∣ 10 ^ scale := dvd_of_multiple some_ reduced multiple
  have divides_ : q ∣ 10 ^ scale := by exact_mod_cast divides
  rw [factors] at divides_
  exact dvd_pow_ten noTwo noFive divides_

theorem fractionToDecimalParts_exact {x y : Int} (built : fractionToDecimalParts x y none = .ok r) :
    y ≠ 0 ∧ r.value = (x : ℚ) / y ∧ r.Shortest := by
  by_cases none_ : y = 0
  · unfold fractionToDecimalParts at built
    simp only [if_pos none_] at built
    cases built
  obtain ⟨p, q, rest, twos, fives, positive, coprime, same, factors, noTwo, noFive, refused, answered⟩ :=
    @fractionToDecimalParts_none x y none_
  by_cases more : rest ≠ 1
  · obtain ⟨message, is⟩ := refused more
    rw [is] at built
    cases built
  rw [answered (not_not.mp more)] at built
  obtain ⟨scaled, multiplied, done⟩ := bind_ok.mp built
  cases done
  rw [timesPow10_ok multiplied]
  have divides : (q : Int) ∣ p * 10 ^ max twos fives := by
    apply dvd_mul_of_dvd_right
    rw [not_not.mp more, one_mul] at factors
    have inside : q ∣ 10 ^ max twos fives := by
      rw [factors, show (10 : Nat) = 5 * 2 from rfl, mul_pow]
      exact mul_dvd_mul (pow_dvd_pow _ (le_max_right _ _)) (pow_dvd_pow _ (le_max_left _ _))
    exact_mod_cast inside
  have exact_ : value ⟨(p * 10 ^ max twos fives).tdiv q, max twos fives⟩ = (x : ℚ) / y := by
    rw [same, value, tdiv_value positive divides]
    push_cast
    rw [div_div, mul_div_mul_right _ _ (by positivity)]
  refine ⟨none_, exact_, fun scale multiple => ?_⟩
  rw [exact_, same] at multiple
  exact (multiple_iff positive coprime factors noTwo noFive multiple).2

theorem dividedBy_spec {options : ScaleOptions} (built : this.dividedBy other (some options) = .ok r) :
    ∃ that, from_ other = .ok that ∧ that.value ≠ 0 ∧ options.scale = .whole r.scale ∧ r.Fits ∧
      Rounded (options.rounding.getD .unnecessary) (this.value / that.value) (10 ^ r.scale)⁻¹ r.value := by
  unfold dividedBy at built
  obtain ⟨that, read, built⟩ := bind_ok.mp built
  obtain ⟨numerator, top, built⟩ := bind_ok.mp built
  obtain ⟨denominator, bottom, built⟩ := bind_ok.mp built
  obtain ⟨parts, divided, built⟩ := bind_ok.mp built
  obtain ⟨checked_, checked, done⟩ := bind_ok.mp built
  cases done
  obtain ⟨-, small⟩ := assertResultDigits_ok checked
  rw [timesPow10_ok top, timesPow10_ok bottom] at divided
  unfold fractionToDecimalParts at divided
  by_cases none_ : that.coefficient * 10 ^ this.scale = 0
  · simp only [if_pos none_] at divided
    cases divided
  simp only [if_neg none_] at divided
  obtain ⟨places, passed, divided⟩ := bind_ok.mp divided
  obtain ⟨scaled, multiplied, divided⟩ := bind_ok.mp divided
  obtain ⟨coefficient, rounded, done⟩ := bind_ok.mp divided
  cases done
  obtain ⟨named, within⟩ := assertScale_ok passed
  rw [timesPow10_ok multiplied] at rounded
  have rounds := divideRounded_ok none_ rounded
  refine ⟨that, read, ?_, named, ⟨within, small⟩, rounded_at ?_⟩
  · exact value_ne_zero.mpr fun zero_ => none_ (by rw [zero_, zero_mul])
  · rw [← quotient_value, div_mul_eq_mul_div]
    push_cast at rounds ⊢
    exact rounds

theorem dividedBy_exact (built : this.dividedBy other none = .ok r) : ∃ that, from_ other = .ok that ∧ that.value ≠ 0 ∧
    r.value = this.value / that.value ∧ r.Shortest ∧ r.coefficient.natAbs < 10 ^ maxDigits := by
  unfold dividedBy at built
  obtain ⟨that, read, built⟩ := bind_ok.mp built
  obtain ⟨numerator, top, built⟩ := bind_ok.mp built
  obtain ⟨denominator, bottom, built⟩ := bind_ok.mp built
  obtain ⟨parts, divided, built⟩ := bind_ok.mp built
  obtain ⟨checked_, checked, done⟩ := bind_ok.mp built
  cases done
  obtain ⟨-, small⟩ := assertResultDigits_ok checked
  rw [timesPow10_ok top, timesPow10_ok bottom] at divided
  obtain ⟨isDivisor, exact_, shortest⟩ := fractionToDecimalParts_exact divided
  rw [quotient_value] at exact_
  refine ⟨that, read, ?_, exact_, shortest, small⟩
  exact value_ne_zero.mpr fun zero_ => isDivisor (by rw [zero_, zero_mul])

theorem roundTo_spec {step : DecimalInput} {mode : RoundingMode} (built : this.roundTo step mode = .ok r) :
    ∃ unit, from_ step = .ok unit ∧ 0 < unit.value ∧ r.scale = unit.scale ∧ r.Fits ∧
      Rounded mode this.value unit.value r.value := by
  unfold roundTo at built
  obtain ⟨unit, read, built⟩ := bind_ok.mp built
  by_cases positive : unit.isPositive = true
  · simp only [positive, Bool.not_true, Bool.false_eq_true, if_false] at built
    obtain ⟨quotient, divided, multiplied⟩ := bind_ok.mp built
    obtain ⟨_, given, some_, whole, -, n, rounds, isN⟩ := dividedBy_spec divided
    obtain ⟨_, same, product, scale, fits⟩ := times_spec multiplied
    have quotientScale : quotient.scale = 0 := by
      have named : (0 : Int) = quotient.scale := by injection whole
      omega
    cases given
    cases same
    rw [quotientScale] at isN rounds scale
    have above : 0 < unit.value := by
      rw [value]
      have coefficientPos : 0 < unit.coefficient := by simpa [isPositive] using positive
      have cast : (0 : ℚ) < unit.coefficient := by exact_mod_cast coefficientPos
      positivity
    refine ⟨unit, read, above, by rw [scale, Nat.zero_add], fits, n, ?_, ?_⟩
    · rw [pow_zero, inv_one, div_one] at rounds
      exact rounds
    · rw [product, isN, pow_zero, inv_one, mul_one]
  · simp only [positive, Bool.not_false, if_true] at built
    cases built

theorem powerWithinLimit_ok {base answer : Int} {exponent : Nat} {what : String} (positive : 0 < exponent)
    (built : powerWithinLimit base exponent what = .ok answer) :
    answer = base ^ exponent ∧ answer.natAbs < 10 ^ maxDigits := by
  unfold powerWithinLimit at built
  by_cases unit : base.natAbs ≤ 1
  · rw [if_pos unit] at built
    cases built
    have large : 1 < 10 ^ maxDigits := Nat.one_lt_pow (by decide) (by decide)
    have cases_ : base = 0 ∨ base = 1 ∨ base = -1 := by omega
    rcases cases_ with rfl | rfl | rfl
    · rw [if_neg (by omega), zero_pow positive.ne']
      exact ⟨rfl, by omega⟩
    · rw [if_neg (by omega), one_pow]
      exact ⟨rfl, by omega⟩
    · by_cases even : exponent % 2 = 0
      · rw [if_pos ⟨by omega, even⟩, (Nat.even_iff.mpr even).neg_one_pow]
        exact ⟨rfl, by omega⟩
      · rw [if_neg (by omega), (Nat.odd_iff.mpr (by omega)).neg_one_pow]
        exact ⟨rfl, by omega⟩
  rw [if_neg unit] at built
  by_cases long : tooManyDigits base.natAbs exponent = true
  · rw [if_pos long] at built
    cases built
  · rw [if_neg long] at built
    obtain ⟨rfl, small⟩ := assertResultDigits_ok built
    exact ⟨rfl, small⟩

theorem powPositive_spec {exponent : Nat} (positive : 0 < exponent) (built : this.powPositive exponent = .ok r) :
    r.value = this.value ^ exponent ∧ r.scale = this.scale * exponent ∧ r.Fits := by
  unfold powPositive at built
  by_cases long : maxScale < this.scale * exponent
  · simp only [if_pos long] at built
    cases built
  simp only [if_neg long] at built
  obtain ⟨coefficient, raised, done⟩ := bind_ok.mp built
  cases done
  obtain ⟨rfl, small⟩ := powerWithinLimit_ok positive raised
  refine ⟨?_, rfl, Nat.le_of_not_lt long, small⟩
  rw [value, value, div_pow, ← pow_mul]
  push_cast
  rfl

/-- A power is exact; a negative one has the fraction digits of the reciprocal, so many times. -/
theorem pow_spec {exponent : JsNumber} (built : this.pow exponent = .ok r) : ∃ n : ℤ, exponent = .whole n ∧ r.Fits ∧
    r.value = this.value ^ n ∧ (n < 0 → this.value ≠ 0) ∧ (0 ≤ n → r.scale = this.scale * n.toNat) ∧
      (n < 0 → ∃ reciprocal : Decimal, reciprocal.value = this.value⁻¹ ∧ reciprocal.Shortest ∧
        r.scale = reciprocal.scale * (-n).toNat) := by
  cases exponent with
  | fraction spelling => cases built
  | notFinite spelling => cases built
  | whole n =>
    simp only [pow] at built
    by_cases unsafe_ : (!isSafeInteger n) = true
    · rw [if_pos unsafe_] at built
      cases built
    rw [if_neg unsafe_] at built
    refine ⟨n, rfl, ?_⟩
    by_cases none_ : n = 0
    · rw [if_pos none_] at built
      cases built
      subst none_
      have fits : one.Fits := by
        refine ⟨Nat.zero_le _, ?_⟩
        exact Nat.one_lt_pow (by decide) (by decide)
      refine ⟨fits, ?_, fun less => absurd less (by omega), fun _ => rfl, fun less => absurd less (by omega)⟩
      rw [zpow_zero, value, one]
      norm_num
    rw [if_neg none_] at built
    by_cases negative : n < 0
    · rw [if_pos negative] at built
      by_cases isZero_ : this.isZero = true
      · rw [if_pos isZero_] at built
        cases built
      rw [if_neg isZero_] at built
      obtain ⟨reciprocal, divided, raised⟩ := bind_ok.mp built
      obtain ⟨that, given, some_, exact_, shortest, -⟩ := dividedBy_exact divided
      cases given
      obtain ⟨power, scale, fits⟩ := powPositive_spec (by omega) raised
      have oneValue : one.value = 1 := by
        rw [value, one]
        norm_num
      rw [oneValue, one_div] at exact_
      refine ⟨fits, ?_, fun _ => some_, fun atLeast => absurd atLeast (by omega), fun _ => ⟨reciprocal, exact_, shortest, scale⟩⟩
      rw [power, exact_, inv_pow, ← zpow_natCast, ← zpow_neg]
      congr 1
      omega
    · rw [if_neg negative] at built
      obtain ⟨power, scale, fits⟩ := powPositive_spec (by omega) built
      refine ⟨fits, ?_, fun less => absurd less negative, fun _ => scale, fun less => absurd less negative⟩
      rw [power, ← zpow_natCast]
      congr 1
      omega

theorem negated_value : this.negated.value = -this.value := by
  rw [value, value, negated]
  push_cast
  exact neg_div _ _

theorem abs_value : this.abs.value = |this.value| := by
  have power : (0 : ℚ) < 10 ^ this.scale := by positivity
  unfold abs
  by_cases negative : this.coefficient < 0
  · rw [if_pos negative, negated_value, abs_of_neg]
    have cast : (this.coefficient : ℚ) < 0 := by exact_mod_cast negative
    exact div_neg_of_neg_of_pos cast power
  · rw [if_neg negative, abs_of_nonneg]
    have cast : (0 : ℚ) ≤ this.coefficient := by exact_mod_cast not_lt.mp negative
    exact div_nonneg cast power.le

theorem trimLoop_spec (scale : Nat) : ∀ coefficient : Int, (trimLoop scale coefficient).value = value ⟨coefficient, scale⟩ ∧
    (trimLoop scale coefficient).scale ≤ scale ∧ (trimLoop scale coefficient).coefficient.natAbs ≤ coefficient.natAbs ∧
      ((trimLoop scale coefficient).scale = 0 ∨ ¬ 10 ∣ (trimLoop scale coefficient).coefficient) := by
  induction scale with
  | zero => exact fun coefficient => ⟨rfl, le_rfl, le_rfl, .inl rfl⟩
  | succ scale ih =>
    intro coefficient
    unfold trimLoop
    by_cases divides : coefficient % 10 = 0
    · rw [if_pos divides]
      obtain ⟨same, within, small, ends⟩ := ih (coefficient / 10)
      refine ⟨?_, by omega, by omega, ends⟩
      have whole : coefficient = coefficient / 10 * 10 := by omega
      rw [same, value, value, pow_succ]
      conv => rhs; lhs; rw [whole]
      push_cast
      rw [mul_div_mul_right _ _ (by norm_num)]
    · rw [if_neg divides]
      exact ⟨rfl, le_rfl, le_rfl, .inr fun dvd_ => divides (Int.emod_eq_zero_of_dvd dvd_)⟩

theorem trim_spec : this.trim.value = this.value ∧ this.trim.scale ≤ this.scale ∧
    this.trim.coefficient.natAbs ≤ this.coefficient.natAbs ∧ this.trim.Shortest := by
  obtain ⟨same, within, small, ends⟩ := trimLoop_spec this.scale this.coefficient
  refine ⟨same, within, small, fun scale multiple => ?_⟩
  rcases ends with none_ | last
  · show (trimLoop _ _).scale ≤ scale
    omega
  · by_contra longer
    obtain ⟨n, isN⟩ := multiple
    have more : scale < this.trim.scale := by omega
    apply last
    have split_ : (10 : ℚ) ^ this.trim.scale = 10 ^ (this.trim.scale - scale) * 10 ^ scale := by
      rw [← pow_add, Nat.sub_add_cancel more.le]
    have scaled : (this.trim.coefficient : ℚ) = n * 10 ^ (this.trim.scale - scale) := by
      rw [value, div_eq_iff (by positivity), split_, mul_comm (10 ^ (this.trim.scale - scale) : ℚ), ← mul_assoc,
        inv_mul_cancel_right₀ (by positivity)] at isN
      exact isN
    have whole : this.trim.coefficient = n * 10 ^ (this.trim.scale - scale) := by exact_mod_cast scaled
    show 10 ∣ this.trim.coefficient
    rw [whole]
    exact dvd_mul_of_dvd_right (dvd_pow_self _ (by omega)) _

end Decimal

end Arki.Math
