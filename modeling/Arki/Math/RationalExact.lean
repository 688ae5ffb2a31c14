import Arki.Math.DecimalExact
import Arki.Math.Rational

/-! Every operation keeps lowest terms, and answers with the exact rational number. -/

set_option autoImplicit false

namespace Arki.Math

open Outcome (bind_ok)
open Decimal (assertResultDigits_ok powerWithinLimit_ok)

/-- A quotient in lowest terms, by the greatest common divisor that was taken out. -/
theorem gcd_parts (x : Int) {y : Int} (some_ : y ≠ 0) : ∃ u v : Int, 0 < (gcd x y : Int) ∧ x = gcd x y * u ∧
    y = gcd x y * v ∧ IsCoprime u v ∧ x.tdiv (gcd x y) = u ∧ y.tdiv (gcd x y) = v := by
  have positive : 0 < Int.gcd x y := Int.gcd_pos_of_ne_zero_right x some_
  obtain ⟨u, isU⟩ : ((gcd x y : Nat) : Int) ∣ x := by
    rw [gcd_eq]
    exact Int.gcd_dvd_left ..
  obtain ⟨v, isV⟩ : ((gcd x y : Nat) : Int) ∣ y := by
    rw [gcd_eq]
    exact Int.gcd_dvd_right ..
  rw [← gcd_eq] at positive
  have divisor : ((gcd x y : Nat) : Int) ≠ 0 := by omega
  refine ⟨u, v, by omega, isU, isV, ?_, ?_, ?_⟩
  · rw [Int.isCoprime_iff_gcd_eq_one]
    have lowest := @Int.gcd_div_gcd_div_gcd x y (by rwa [← gcd_eq])
    have taken : ((Int.gcd x y : Nat) : Int) = gcd x y := by rw [gcd_eq]
    rwa [taken, Int.ediv_eq_of_eq_mul_right divisor isU, Int.ediv_eq_of_eq_mul_right divisor isV] at lowest
  · conv => lhs; lhs; rw [isU]
    exact Int.mul_tdiv_cancel_left u divisor
  · conv => lhs; lhs; rw [isV]
    exact Int.mul_tdiv_cancel_left v divisor

namespace Rational

structure Reduced (r : Rational) : Prop where
  positive : 0 < r.denominator
  lowest : IsCoprime r.numerator r.denominator

def value (r : Rational) : ℚ := r.numerator / r.denominator

variable {this that a b r : Rational}

theorem Reduced.cast_ne (reduced : r.Reduced) : (r.denominator : ℚ) ≠ 0 := by exact_mod_cast reduced.positive.ne'

theorem Reduced.zero_parts (reduced : r.Reduced) (isZero : r.numerator = 0) : r = zero := by
  obtain ⟨n, d⟩ := r
  have unit := reduced.lowest
  have positive := reduced.positive
  simp only at isZero unit positive
  subst isZero
  rw [isCoprime_zero_left, Int.isUnit_iff] at unit
  have one : d = 1 := by omega
  rw [one]
  rfl

theorem Reduced.eq_of_value (first : a.Reduced) (second : b.Reduced) (same : a.value = b.value) : a = b := by
  obtain ⟨n, d⟩ := a
  obtain ⟨m, e⟩ := b
  have positive := first.positive
  have positive' := second.positive
  have lowest := Int.isCoprime_iff_gcd_eq_one.mp first.lowest
  have lowest' := Int.isCoprime_iff_gcd_eq_one.mp second.lowest
  simp only [value] at same lowest lowest' positive positive'
  obtain ⟨numerators, denominators⟩ := Rat.div_int_inj positive positive' lowest lowest' same
  rw [numerators, denominators]

theorem zero_reduced : zero.Reduced := ⟨by decide, isCoprime_zero_left.mpr isUnit_one⟩

theorem zero_value : zero.value = 0 := by
  rw [value, zero]
  norm_num

theorem value_eq_zero (reduced : r.Reduced) : r.value = 0 ↔ r.numerator = 0 := by
  rw [value, div_eq_zero_iff]
  constructor
  · rintro (none_ | none_)
    · exact_mod_cast none_
    · exact absurd none_ reduced.cast_ne
  · intro none_
    exact .inl (by exact_mod_cast none_)

theorem quotient {n d : Int} (positive : 0 < d) (lowest : IsCoprime n d) {x : ℚ} (is : (n : ℚ) = x * d) :
    (Rational.mk n d).Reduced ∧ (Rational.mk n d).value = x := by
  have apart : (d : ℚ) ≠ 0 := by exact_mod_cast positive.ne'
  refine ⟨⟨positive, lowest⟩, ?_⟩
  rw [value, is, mul_div_cancel_right₀ _ apart]

theorem fromParts_ok {n d : Int} (built : fromParts n d = .ok r) : d ≠ 0 ∧ r.Reduced ∧ r.value = n / d := by
  unfold fromParts at built
  split at built
  · cases built
  · next some_ =>
    refine ⟨some_, ?_⟩
    -- the sign moves to the numerator
    obtain ⟨n', d', isN, isD, positive, same⟩ : ∃ n' d' : Int, (if d < 0 then -n else n) = n' ∧
        (if d < 0 then -d else d) = d' ∧ 0 < d' ∧ (n : ℚ) / d = n' / d' := by
      by_cases negative : d < 0
      · refine ⟨-n, -d, if_pos negative, if_pos negative, by omega, ?_⟩
        push_cast
        rw [neg_div_neg_eq]
      · exact ⟨n, d, if_neg negative, if_neg negative, by omega, rfl⟩
    simp only [isN, isD] at built
    obtain ⟨u, v, above, isU, isV, lowest, left, right⟩ := gcd_parts n' positive.ne'
    rw [left, right] at built
    cases built
    have vPositive : 0 < v := by
      by_contra none_
      have most : gcd n' d' * v ≤ 0 := mul_nonpos_of_nonneg_of_nonpos above.le (not_lt.mp none_)
      omega
    refine quotient vPositive lowest ?_
    rw [same, div_mul_eq_mul_div, eq_div_iff (by exact_mod_cast positive.ne')]
    have cross : u * d' = n' * v := by
      calc u * d' = u * (gcd n' d' * v) := by rw [← isV]
        _ = gcd n' d' * u * v := by ring
        _ = n' * v := by rw [← isU]
    exact_mod_cast cross

theorem fromParts_some {n d : Int} (some_ : d ≠ 0) : ∃ r, fromParts n d = .ok r := by
  unfold fromParts
  rw [if_neg some_]
  exact ⟨_, rfl⟩

theorem negated_ok (reduced : this.Reduced) : this.negated.Reduced ∧ this.negated.value = -this.value := by
  refine ⟨⟨reduced.positive, reduced.lowest.neg_left⟩, ?_⟩
  rw [value, value, negated]
  push_cast
  exact neg_div _ _

theorem abs_ok (reduced : this.Reduced) : this.abs.Reduced ∧ this.abs.value = |this.value| := by
  have positive : (0 : ℚ) < this.denominator := by exact_mod_cast reduced.positive
  unfold abs
  by_cases negative : this.numerator < 0
  · rw [if_pos negative]
    have cast : (this.numerator : ℚ) < 0 := by exact_mod_cast negative
    refine ⟨(negated_ok reduced).1, ?_⟩
    rw [(negated_ok reduced).2, abs_of_neg (show this.value < 0 from div_neg_of_neg_of_pos cast positive)]
  · rw [if_neg negative]
    have cast : (0 : ℚ) ≤ this.numerator := by exact_mod_cast not_lt.mp negative
    exact ⟨reduced, (abs_of_nonneg (div_nonneg cast positive.le)).symm⟩

theorem plusRead_ok (left : this.Reduced) (right : that.Reduced) (built : this.plusRead that = .ok r) :
    r.Reduced ∧ r.value = this.value + that.value := by
  obtain ⟨n, d⟩ := this
  obtain ⟨m, e⟩ := that
  have dPos := left.positive
  have ePos := right.positive
  have dLow := left.lowest
  have eLow := right.lowest
  have dCast := left.cast_ne
  have eCast := right.cast_ne
  simp only at dPos ePos dLow eLow dCast eCast
  obtain ⟨a, b, gPos, isD, isE, apart, dQuot, eQuot⟩ := gcd_parts d ePos.ne'
  unfold plusRead at built
  simp only at built
  generalize isG : (gcd d e : Int) = g at gPos isD isE dQuot eQuot built
  by_cases unit : g = 1
  · rw [if_pos unit] at built
    obtain ⟨x, isX, built⟩ := bind_ok.mp built
    obtain ⟨y, isY, built⟩ := bind_ok.mp built
    obtain ⟨p, isP, built⟩ := bind_ok.mp built
    obtain ⟨q, isQ, built⟩ := bind_ok.mp built
    obtain ⟨q', isQ', built⟩ := bind_ok.mp built
    cases built
    rw [multiplyChecked_ok isX, multiplyChecked_ok isY] at isP
    rw [(assertResultDigits_ok isP).1]
    rw [multiplyChecked_ok isQ] at isQ'
    rw [(assertResultDigits_ok isQ').1]
    rw [unit, one_mul] at isD isE
    rw [← isD, ← isE] at apart
    have low : IsCoprime (n * e + m * d) (d * e) := by
      refine IsCoprime.mul_right ?_ ?_
      · exact (dLow.mul_left apart.symm).add_mul_right_left m
      · rw [add_comm]
        exact (eLow.mul_left apart).add_mul_right_left n
    refine quotient (mul_pos dPos ePos) low ?_
    simp only [value]
    push_cast
    field_simp
  · rw [if_neg unit, dQuot, eQuot] at built
    obtain ⟨x, isX, built⟩ := bind_ok.mp built
    obtain ⟨y, isY, built⟩ := bind_ok.mp built
    rw [multiplyChecked_ok isX, multiplyChecked_ok isY] at built
    have aPos : 0 < a := pos_of_mul_pos_right (isD ▸ dPos) gPos.le
    have bPos : 0 < b := pos_of_mul_pos_right (isE ▸ ePos) gPos.le
    have gCast : (g : ℚ) ≠ 0 := by exact_mod_cast gPos.ne'
    have aCast : (a : ℚ) ≠ 0 := by exact_mod_cast aPos.ne'
    have bCast : (b : ℚ) ≠ 0 := by exact_mod_cast bPos.ne'
    have dIs : (d : ℚ) = g * a := by exact_mod_cast isD
    have eIs : (e : ℚ) = g * b := by exact_mod_cast isE
    have total : (Rational.mk n d).value + (Rational.mk m e).value = (n * b + m * a : ℤ) / (g * a * b) := by
      simp only [value, dIs, eIs]
      push_cast
      field_simp
    rw [total]
    by_cases none_ : n * b + m * a = 0
    · simp only [if_pos none_] at built
      cases built
      rw [none_, Int.cast_zero, zero_div]
      exact ⟨zero_reduced, zero_value⟩
    · simp only [if_neg none_] at built
      obtain ⟨u, v, hPos, isU, isV, low, uQuot, vQuot⟩ := gcd_parts (n * b + m * a) gPos.ne'
      generalize (gcd (n * b + m * a) g : Int) = h at hPos isU isV uQuot vQuot built
      obtain ⟨p, isP, built⟩ := bind_ok.mp built
      obtain ⟨q, isQ, built⟩ := bind_ok.mp built
      obtain ⟨q', isQ', built⟩ := bind_ok.mp built
      cases built
      have vPos : 0 < v := pos_of_mul_pos_right (isV ▸ gPos) hPos.le
      have eParts : e.tdiv h = v * b := by
        rw [isE, isV, mul_assoc]
        exact Int.mul_tdiv_cancel_left _ hPos.ne'
      rw [(assertResultDigits_ok isP).1, uQuot]
      rw [multiplyChecked_ok isQ, eParts] at isQ'
      rw [(assertResultDigits_ok isQ').1]
      -- the sum of the scaled numerators has no factor of either scale
      have sumA : IsCoprime (n * b + m * a) a := by
        refine IsCoprime.add_mul_right_left ?_ m
        exact (dLow.of_isCoprime_of_dvd_right (isD ▸ dvd_mul_left a g)).mul_left apart.symm
      have sumB : IsCoprime (n * b + m * a) b := by
        rw [add_comm]
        refine IsCoprime.add_mul_right_left ?_ n
        exact (eLow.of_isCoprime_of_dvd_right (isE ▸ dvd_mul_left b g)).mul_left apart
      have divides : u ∣ n * b + m * a := isU ▸ dvd_mul_left u h
      have lowest : IsCoprime u (a * (v * b)) :=
        (sumA.of_isCoprime_of_dvd_left divides).mul_right (low.mul_right (sumB.of_isCoprime_of_dvd_left divides))
      refine quotient (mul_pos aPos (mul_pos vPos bPos)) lowest ?_
      have hCast : (h : ℚ) ≠ 0 := by exact_mod_cast hPos.ne'
      have vCast : (v : ℚ) ≠ 0 := by exact_mod_cast vPos.ne'
      rw [isU, isV]
      push_cast
      field_simp

theorem timesRead_ok (left : this.Reduced) (right : that.Reduced) (built : this.timesRead that = .ok r) :
    r.Reduced ∧ r.value = this.value * that.value := by
  unfold timesRead at built
  by_cases none_ : this.numerator = 0 ∨ that.numerator = 0
  · rw [if_pos none_] at built
    cases built
    refine ⟨zero_reduced, ?_⟩
    rw [zero_value, eq_comm, mul_eq_zero, value_eq_zero left, value_eq_zero right]
    exact none_
  obtain ⟨n, d⟩ := this
  obtain ⟨m, e⟩ := that
  have dPos := left.positive
  have ePos := right.positive
  have dLow := left.lowest
  have eLow := right.lowest
  simp only at dPos ePos dLow eLow none_
  rw [if_neg none_] at built
  simp only at built
  obtain ⟨n1, e1, gPos, isN, isE, low1, nQuot, eQuot⟩ := gcd_parts n ePos.ne'
  obtain ⟨m2, d2, hPos, isM, isD, low2, mQuot, dQuot⟩ := gcd_parts m dPos.ne'
  rw [nQuot, eQuot, mQuot, dQuot] at built
  generalize (gcd n e : Int) = g at gPos isN isE
  generalize (gcd m d : Int) = h at hPos isM isD
  obtain ⟨p, isP, built⟩ := bind_ok.mp built
  obtain ⟨p', isP', built⟩ := bind_ok.mp built
  obtain ⟨q, isQ, built⟩ := bind_ok.mp built
  obtain ⟨q', isQ', built⟩ := bind_ok.mp built
  cases built
  rw [multiplyChecked_ok isP] at isP'
  rw [(assertResultDigits_ok isP').1]
  rw [multiplyChecked_ok isQ] at isQ'
  rw [(assertResultDigits_ok isQ').1]
  have e1Pos : 0 < e1 := pos_of_mul_pos_right (isE ▸ ePos) gPos.le
  have d2Pos : 0 < d2 := pos_of_mul_pos_right (isD ▸ dPos) hPos.le
  have nd : IsCoprime n1 d2 :=
    (dLow.of_isCoprime_of_dvd_left (isN ▸ dvd_mul_left n1 g)).of_isCoprime_of_dvd_right (isD ▸ dvd_mul_left d2 h)
  have me : IsCoprime m2 e1 :=
    (eLow.of_isCoprime_of_dvd_left (isM ▸ dvd_mul_left m2 h)).of_isCoprime_of_dvd_right (isE ▸ dvd_mul_left e1 g)
  refine quotient (mul_pos d2Pos e1Pos) ((nd.mul_right low1).mul_left (low2.mul_right me)) ?_
  have gCast : (g : ℚ) ≠ 0 := by exact_mod_cast gPos.ne'
  have hCast : (h : ℚ) ≠ 0 := by exact_mod_cast hPos.ne'
  have d2Cast : (d2 : ℚ) ≠ 0 := by exact_mod_cast d2Pos.ne'
  have e1Cast : (e1 : ℚ) ≠ 0 := by exact_mod_cast e1Pos.ne'
  simp only [value]
  rw [isN, isE, isM, isD]
  push_cast
  field_simp

theorem dividedByRead_ok (left : this.Reduced) (right : that.Reduced) (built : this.dividedByRead that = .ok r) :
    that.value ≠ 0 ∧ r.Reduced ∧ r.value = this.value / that.value := by
  unfold dividedByRead at built
  by_cases isZero_ : that.isZero = true
  · rw [if_pos isZero_] at built
    cases built
  rw [if_neg isZero_] at built
  have mApart : that.numerator ≠ 0 := fun none_ => isZero_ (decide_eq_true none_)
  refine ⟨fun none_ => mApart ((value_eq_zero right).mp none_), ?_⟩
  by_cases none_ : this.numerator = 0
  · rw [if_pos none_] at built
    cases built
    refine ⟨zero_reduced, ?_⟩
    rw [zero_value, (value_eq_zero left).mpr none_, zero_div]
  obtain ⟨n, d⟩ := this
  obtain ⟨m, e⟩ := that
  have dPos := left.positive
  have ePos := right.positive
  have dLow := left.lowest
  have eLow := right.lowest
  simp only at dPos ePos dLow eLow none_ mApart
  rw [if_neg none_] at built
  simp only at built
  obtain ⟨n1, m1, gPos, isN, isM, low1, nQuot, mQuot⟩ := gcd_parts n mApart
  obtain ⟨d2, e2, hPos, isD, isE, low2, dQuot, eQuot⟩ := gcd_parts d ePos.ne'
  rw [nQuot, eQuot, mQuot, dQuot] at built
  generalize (gcd n m : Int) = g at gPos isN isM
  generalize (gcd d e : Int) = h at hPos isD isE
  obtain ⟨p, isP, built⟩ := bind_ok.mp built
  obtain ⟨q, isQ, built⟩ := bind_ok.mp built
  rw [multiplyChecked_ok isP, multiplyChecked_ok isQ] at built
  obtain ⟨p', isP', built⟩ := bind_ok.mp built
  obtain ⟨q', isQ', built⟩ := bind_ok.mp built
  cases built
  rw [(assertResultDigits_ok isP').1, (assertResultDigits_ok isQ').1]
  have d2Pos : 0 < d2 := pos_of_mul_pos_right (isD ▸ dPos) hPos.le
  have e2Pos : 0 < e2 := pos_of_mul_pos_right (isE ▸ ePos) hPos.le
  have m1Apart : m1 ≠ 0 := by
    rintro rfl
    exact mApart (by rw [isM, mul_zero])
  have nd : IsCoprime n1 d2 :=
    (dLow.of_isCoprime_of_dvd_left (isN ▸ dvd_mul_left n1 g)).of_isCoprime_of_dvd_right (isD ▸ dvd_mul_left d2 h)
  have em : IsCoprime e2 m1 :=
    ((eLow.of_isCoprime_of_dvd_left (isM ▸ dvd_mul_left m1 g)).of_isCoprime_of_dvd_right (isE ▸ dvd_mul_left e2 h)).symm
  have lowest : IsCoprime (n1 * e2) (d2 * m1) := (nd.mul_right low1).mul_left (low2.symm.mul_right em)
  have gCast : (g : ℚ) ≠ 0 := by exact_mod_cast gPos.ne'
  have hCast : (h : ℚ) ≠ 0 := by exact_mod_cast hPos.ne'
  have d2Cast : (d2 : ℚ) ≠ 0 := by exact_mod_cast d2Pos.ne'
  have e2Cast : (e2 : ℚ) ≠ 0 := by exact_mod_cast e2Pos.ne'
  have m1Cast : (m1 : ℚ) ≠ 0 := by exact_mod_cast m1Apart
  have exact_ : (Rational.mk n d).value / (Rational.mk m e).value = n1 * e2 / (d2 * m1) := by
    simp only [value]
    rw [isN, isE, isM, isD]
    push_cast
    field_simp
  rw [exact_]
  by_cases negative : d2 * m1 < 0
  · rw [if_pos negative]
    refine quotient (by omega) ?_ ?_
    · rw [neg_one_mul, neg_one_mul]
      exact lowest.neg_left.neg_right
    · push_cast
      field_simp
  · rw [if_neg negative]
    have apart : d2 * m1 ≠ 0 := mul_ne_zero d2Pos.ne' m1Apart
    refine quotient (by omega) ?_ ?_
    · rw [one_mul, one_mul]
      exact lowest
    · push_cast
      field_simp

theorem inverse_ok (reduced : this.Reduced) (built : this.inverse = .ok r) : this.value ≠ 0 ∧ r.Reduced ∧ r.value = this.value⁻¹ := by
  unfold inverse at built
  by_cases isZero_ : this.isZero = true
  · rw [if_pos isZero_] at built
    cases built
  rw [if_neg isZero_] at built
  obtain ⟨some_, kept, is⟩ := fromParts_ok built
  refine ⟨fun none_ => some_ ((value_eq_zero reduced).mp none_), kept, ?_⟩
  rw [is, value, inv_div]

theorem powPositive_ok {exponent : Nat} (positive : 0 < exponent) (reduced : this.Reduced)
    (built : this.powPositive exponent = .ok r) : r.Reduced ∧ r.value = this.value ^ exponent := by
  obtain ⟨n, isN, built⟩ := bind_ok.mp built
  obtain ⟨d, isD, built⟩ := bind_ok.mp built
  cases built
  rw [(powerWithinLimit_ok positive isN).1, (powerWithinLimit_ok positive isD).1]
  refine ⟨⟨pow_pos reduced.positive _, reduced.lowest.pow⟩, ?_⟩
  rw [value, value, div_pow]
  push_cast
  rfl

theorem pow_ok {exponent : JsNumber} (reduced : this.Reduced) (built : this.pow exponent = .ok r) :
    ∃ n : ℤ, exponent = .whole n ∧ (n < 0 → this.value ≠ 0) ∧ r.Reduced ∧ r.value = this.value ^ n := by
  cases exponent with
  | fraction spelling => cases built
  | notFinite spelling => cases built
  | whole n =>
    refine ⟨n, rfl, ?_⟩
    simp only [pow] at built
    by_cases unsafe_ : (!isSafeInteger n) = true
    · rw [if_pos unsafe_] at built
      cases built
    rw [if_neg unsafe_] at built
    by_cases none_ : n = 0
    · rw [if_pos none_] at built
      obtain ⟨-, kept, is⟩ := fromParts_ok built
      refine ⟨fun less => absurd less (by omega), kept, ?_⟩
      rw [is, none_, zpow_zero]
      norm_num
    rw [if_neg none_] at built
    by_cases negative : n < 0
    · rw [if_pos negative] at built
      obtain ⟨reciprocal, inverted, raised⟩ := bind_ok.mp built
      obtain ⟨apart, kept, is⟩ := inverse_ok reduced inverted
      obtain ⟨lowest, power⟩ := powPositive_ok (by omega) kept raised
      refine ⟨fun _ => apart, lowest, ?_⟩
      rw [power, is, inv_pow, ← zpow_natCast, ← zpow_neg]
      congr 1
      omega
    · rw [if_neg negative] at built
      obtain ⟨lowest, power⟩ := powPositive_ok (by omega) reduced built
      refine ⟨fun less => absurd less negative, lowest, ?_⟩
      rw [power, ← zpow_natCast]
      congr 1
      omega

end Rational

end Arki.Math
