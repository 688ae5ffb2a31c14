import Arki.Library.Neighbours
import Arki.Math.DecimalRefuses
import Arki.Math.RationalExact

/-! The closest fraction of a bounded denominator, by continued fractions with a last semiconvergent. -/

set_option autoImplicit false

namespace Arki.Math

open Outcome (bind_ok bind_error)

def floorDiv (a b : Int) : Int :=
  let q := a.tdiv b
  if a.tmod b ≠ 0 ∧ decide (a < 0) ≠ decide (b < 0) then q - 1 else q

theorem floorDiv_rest (n : Int) {d : Int} (apart : d ≠ 0) : (n - floorDiv n d * d).natAbs < d.natAbs := by
  have whole := Int.mul_tdiv_add_tmod n d
  have rest : (n.tmod d).natAbs < d.natAbs := by
    rw [Int.natAbs_tmod]
    exact Nat.mod_lt _ (Int.natAbs_pos.mpr apart)
  have side : 0 ≤ n ∧ 0 ≤ n.tmod d ∨ n < 0 ∧ n.tmod d ≤ 0 := by
    rcases le_or_gt 0 n with positive | negative
    · exact .inl ⟨positive, Int.tmod_nonneg d positive⟩
    · have mirrored := Int.tmod_nonneg d (show 0 ≤ -n by omega)
      rw [Int.neg_tmod] at mirrored
      exact .inr ⟨negative, by omega⟩
  unfold floorDiv
  simp only
  split
  · next lower =>
    have exact_ : n - (n.tdiv d - 1) * d = n.tmod d + d := by linarith
    rw [exact_]
    obtain ⟨some_, signs⟩ := lower
    by_cases negative : n < 0
    · have above : ¬ d < 0 := by simpa [negative] using signs
      omega
    · have below : d < 0 := by simpa [negative] using signs
      omega
  · have exact_ : n - n.tdiv d * d = n.tmod d := by linarith
    rw [exact_]
    exact rest

theorem floorDiv_eq (n : Int) {d : Int} (positive : 0 < d) : floorDiv n d = n / d := by
  have small := floorDiv_rest n positive.ne'
  have whole := Int.mul_tdiv_add_tmod n d
  have nonneg : 0 ≤ n - floorDiv n d * d := by
    unfold floorDiv
    simp only
    split
    · next lower =>
      have below : (n.tmod d).natAbs < d.natAbs := by
        rw [Int.natAbs_tmod]
        exact Nat.mod_lt _ (Int.natAbs_pos.mpr positive.ne')
      have exact_ : n - (n.tdiv d - 1) * d = n.tmod d + d := by linarith
      omega
    · next same =>
      have exact_ : n - n.tdiv d * d = n.tmod d := by linarith
      rw [exact_]
      by_cases negative : n < 0
      · have none_ : n.tmod d = 0 := by simpa [negative, positive.le] using same
        omega
      · exact Int.tmod_nonneg d (not_lt.mp negative)
  have unique := Int.ediv_emod_unique (a := n) (b := d) (r := n - floorDiv n d * d) (q := floorDiv n d) positive
  exact (unique.mpr ⟨by ring, nonneg, by omega⟩).1.symm

namespace Rational

/-- The last two convergents before a denominator passes the bound; `n / d` is left to expand. -/
def approximateLoop (max p0 q0 p1 q1 n d : Int) : Checked (Int × Int × Int × Int) :=
  -- a bigint division by zero throws
  if d = 0 then .error (.divisionByZero "Division by zero")
  else
    let a := floorDiv n d
    let q2 := q0 + a * q1
    if max < q2 then .ok (p0, q0, p1, q1)
    else approximateLoop max p1 q1 (p0 + a * p1) q2 d (n - a * d)
termination_by d.natAbs
decreasing_by exact floorDiv_rest n (by assumption)

/-- The closest fraction whose denominator is at most `maxDenominator`. -/
def approximate (this : Rational) (maxDenominator : IntegerInput) : Checked Rational := do
  let max ← toBigIntInput maxDenominator "maxDenominator"
  if max < 1 then throw (.invalidArgument "maxDenominator must be at least 1")
  else if this.denominator ≤ max then return this
  else
    let (p0, q0, p1, q1) ← approximateLoop max 0 1 1 0 this.numerator this.denominator
    let k := (max - q0).tdiv q1
    let first ← fromParts (p0 + k * p1) (q0 + k * q1)
    let second ← fromParts p1 q1
    let left ← second.minus (.rational this)
    let right ← first.minus (.rational this)
    return if ← left.abs.lteRead right.abs then second else first

/-- The fraction is the last two convergents, weighted by what is left to expand. -/
structure Expands (x : Rational) (max p0 q0 p1 q1 n d : Int) : Prop where
  numerator : x.numerator = d * p0 + n * p1
  denominator : x.denominator = d * q0 + n * q1
  unit : p1 * q0 - p0 * q1 = 1 ∨ p1 * q0 - p0 * q1 = -1
  left : 0 ≤ d
  /-- The first turn takes the whole part; after it the denominators grow and the rests fall. -/
  grows : q0 = 1 ∧ q1 = 0 ∨ 0 ≤ q0 ∧ q0 ≤ q1 ∧ 0 < q1 ∧ q1 ≤ max ∧ d < n

variable {x : Rational} {max p0 q0 p1 q1 n d : Int}

theorem Expands.start (reduced : x.Reduced) : Expands x max 0 1 1 0 x.numerator x.denominator where
  numerator := by ring
  denominator := by ring
  unit := .inl (by ring)
  left := reduced.positive.le
  grows := .inl ⟨rfl, rfl⟩

theorem Expands.step (expands : Expands x max p0 q0 p1 q1 n d) (some_ : 0 < d)
    (within : q0 + floorDiv n d * q1 ≤ max) :
    Expands x max p1 q1 (p0 + floorDiv n d * p1) (q0 + floorDiv n d * q1) d (n - floorDiv n d * d) := by
  have rest : n - floorDiv n d * d = n % d := by
    rw [floorDiv_eq n some_]
    have whole := Int.ediv_mul_add_emod n d
    omega
  have restNonneg := Int.emod_nonneg n some_.ne'
  have restSmall := Int.emod_lt_of_pos n some_
  refine ⟨?_, ?_, ?_, by omega, .inr ?_⟩
  · rw [expands.numerator]
    ring
  · rw [expands.denominator]
    ring
  · have swapped : (p0 + floorDiv n d * p1) * q1 - p1 * (q0 + floorDiv n d * q1) = -(p1 * q0 - p0 * q1) := by ring
    rw [swapped]
    rcases expands.unit with up | down <;> omega
  · rcases expands.grows with ⟨rfl, rfl⟩ | ⟨nonneg, ordered, some', bounded, more⟩
    · refine ⟨le_rfl, by omega, by omega, within, by omega⟩
    · have grown : 1 ≤ floorDiv n d := by
        rw [floorDiv_eq n some_]
        exact (Int.le_ediv_iff_mul_le some_).mpr (by omega)
      have product : 1 * q1 ≤ floorDiv n d * q1 := Int.mul_le_mul_of_nonneg_right grown some'.le
      exact ⟨some'.le, by omega, by omega, within, by omega⟩

/-- When nothing is left, the last convergent is the fraction, so its denominator would have fit. -/
theorem Expands.some_left (expands : Expands x max p0 q0 p1 q1 n d) (reduced : x.Reduced) (large : max < x.denominator) :
    0 < d := by
  rcases expands.left.lt_or_eq with some_ | none_
  · exact some_
  exfalso
  have isNumerator := expands.numerator
  have isDenominator := expands.denominator
  rw [← none_, zero_mul, zero_add] at isNumerator isDenominator
  rcases expands.grows with ⟨rfl, rfl⟩ | ⟨-, -, some', bounded, more⟩
  · have positive := reduced.positive
    omega
  · have lowest := reduced.lowest
    rw [isNumerator, isDenominator] at lowest
    have isUnit : IsUnit n := lowest.isUnit_of_dvd' (dvd_mul_right n p1) (dvd_mul_right n q1)
    have one : n = 1 := by
      rcases Int.isUnit_iff.mp isUnit with up | down
      · exact up
      · omega
    rw [one, one_mul] at isDenominator
    omega

theorem approximateLoop_ends (reduced : x.Reduced) (large : max < x.denominator) (size : Nat) :
    ∀ {p0 q0 p1 q1 n d : Int}, d.natAbs ≤ size → Expands x max p0 q0 p1 q1 n d →
      ∃ p0' q0' p1' q1' n' d' : Int, approximateLoop max p0 q0 p1 q1 n d = .ok (p0', q0', p1', q1') ∧
        Expands x max p0' q0' p1' q1' n' d' ∧ 0 < d' ∧ max < q0' + n' / d' * q1' := by
  induction size with
  | zero =>
    intro p0 q0 p1 q1 n d within expands
    have some_ := expands.some_left reduced large
    omega
  | succ size ih =>
    intro p0 q0 p1 q1 n d within expands
    have some_ := expands.some_left reduced large
    rw [approximateLoop, if_neg some_.ne']
    simp only
    by_cases past : max < q0 + floorDiv n d * q1
    · rw [if_pos past]
      rw [floorDiv_eq n some_] at past
      exact ⟨p0, q0, p1, q1, n, d, rfl, expands, some_, past⟩
    · rw [if_neg past]
      have smaller := floorDiv_rest n some_.ne'
      exact ih (by omega) (expands.step some_ (not_lt.mp past))

/-- The semiconvergent and the last convergent: neighbours around the fraction, of denominators that fit. -/
structure Candidates (x : Rational) (max p q r s u v : Int) : Prop where
  numerator : x.numerator = u * p + v * r
  denominator : x.denominator = u * q + v * s
  unit : r * q - p * s = 1 ∨ r * q - p * s = -1
  weights : 0 ≤ u ∧ 0 ≤ v
  first : 0 < q ∧ q ≤ max
  second : 0 < s ∧ s ≤ max
  together : max < q + s

theorem Expands.candidates (expands : Expands x max p0 q0 p1 q1 n d) (positive : 1 ≤ max) (some_ : 0 < d)
    (past : max < q0 + n / d * q1) :
    Candidates x max (p0 + (max - q0).tdiv q1 * p1) (q0 + (max - q0).tdiv q1 * q1) p1 q1 d (n - (max - q0).tdiv q1 * d) := by
  obtain ⟨nonneg, within, some', bounded⟩ : 0 ≤ q0 ∧ q0 ≤ max ∧ 0 < q1 ∧ q1 ≤ max := by
    rcases expands.grows with ⟨rfl, rfl⟩ | ⟨nonneg, ordered, some', bounded, -⟩
    · omega
    · exact ⟨nonneg, by omega, some', bounded⟩
  have isDivision : (max - q0).tdiv q1 = (max - q0) / q1 := Int.tdiv_eq_ediv_of_nonneg (by omega)
  rw [isDivision]
  have whole := Int.ediv_mul_add_emod (max - q0) q1
  have restNonneg := Int.emod_nonneg (max - q0) some'.ne'
  have restSmall := Int.emod_lt_of_pos (max - q0) some'
  generalize (max - q0) / q1 = k at *
  have before : k < n / d := by
    by_contra! late
    have product : n / d * q1 ≤ k * q1 := Int.mul_le_mul_of_nonneg_right late some'.le
    omega
  have weight : k * d ≤ n := by
    have product : k * d ≤ n / d * d := Int.mul_le_mul_of_nonneg_right before.le some_.le
    have rest := Int.ediv_mul_le n some_.ne'
    omega
  refine ⟨?_, ?_, ?_, ⟨some_.le, by omega⟩, ⟨by omega, by omega⟩, ⟨some', bounded⟩, by omega⟩
  · rw [expands.numerator]
    ring
  · rw [expands.denominator]
    ring
  · have same : p1 * (q0 + k * q1) - (p0 + k * p1) * q1 = p1 * q0 - p0 * q1 := by ring
    rw [same]
    exact expands.unit

structure Closest (x : Rational) (max : Int) (r : Rational) : Prop where
  reduced : r.Reduced
  fits : r.denominator ≤ max
  closest : ∀ a b : Int, 0 < b → b ≤ max → |r.value - x.value| ≤ |(a : ℚ) / b - x.value|

variable {p q r s u v : Int}

theorem Candidates.closest (candidates : Candidates x max p q r s u v) (reduced : x.Reduced) :
    (|(Rational.mk r s).value - x.value| ≤ |(Rational.mk p q).value - x.value| → Closest x max ⟨r, s⟩) ∧
      (|(Rational.mk p q).value - x.value| ≤ |(Rational.mk r s).value - x.value| → Closest x max ⟨p, q⟩) := by
  obtain ⟨isNumerator, isDenominator, unit, ⟨first, second⟩, ⟨qPos, qFits⟩, ⟨sPos, sFits⟩, together⟩ := candidates
  obtain ⟨pq, rs⟩ := Neighbours.lowest unit
  have some_ : 0 < u * q + v * s := by
    rw [← isDenominator]
    exact reduced.positive
  have is : x.value = (u * p + v * r : ℤ) / (u * q + v * s : ℤ) := by
    rw [value, isNumerator, isDenominator]
  have best (a b : Int) (bPos : 0 < b) (bFits : b ≤ max) :=
    @Neighbours.closest_mediant p q r s u v a b _ qPos sPos unit first second some_ is bPos (by omega)
  constructor
  · intro nearer
    refine ⟨⟨sPos, rs⟩, sFits, fun a b bPos bFits => ?_⟩
    exact (min_eq_right nearer).ge.trans (best a b bPos bFits)
  · intro nearer
    refine ⟨⟨qPos, pq⟩, qFits, fun a b bPos bFits => ?_⟩
    exact (min_eq_left nearer).ge.trans (best a b bPos bFits)

theorem fromParts_lowest {n d : Int} (positive : 0 < d) (lowest : IsCoprime n d) : fromParts n d = .ok ⟨n, d⟩ := by
  obtain ⟨r, built⟩ := @fromParts_some n d positive.ne'
  obtain ⟨-, reduced, is⟩ := fromParts_ok built
  have parts : r = ⟨n, d⟩ := reduced.eq_of_value ⟨positive, lowest⟩ is
  rw [built, parts]

theorem lteRead_ok {a b : Rational} {answer : Bool} (left : a.Reduced) (right : b.Reduced) (read : a.lteRead b = .ok answer) :
    answer = decide (a.value ≤ b.value) := by
  obtain ⟨order, compared, read⟩ := bind_ok.mp read
  cases read
  obtain ⟨y, isY, compared⟩ := bind_ok.mp compared
  obtain ⟨z, isZ, compared⟩ := bind_ok.mp compared
  cases compared
  rw [multiplyChecked_ok isY, multiplyChecked_ok isZ]
  have aPos : (0 : ℚ) < a.denominator := by exact_mod_cast left.positive
  have bPos : (0 : ℚ) < b.denominator := by exact_mod_cast right.positive
  have cross : a.value ≤ b.value ↔ a.numerator * b.denominator ≤ b.numerator * a.denominator := by
    rw [value, value, div_le_div_iff₀ aPos bPos]
    exact_mod_cast Iff.rfl
  rw [decide_eq_decide, cross]
  split
  · omega
  · split <;> omega

theorem distance_ok {a b answer : Rational} (left : a.Reduced) (right : b.Reduced) (built : a.minus (.rational b) = .ok answer) :
    answer.Reduced ∧ answer.value = a.value - b.value := by
  obtain ⟨kept, is⟩ := negated_ok right
  obtain ⟨reduced, total⟩ := plusRead_ok left kept built
  rw [is] at total
  exact ⟨reduced, by rw [total, sub_eq_add_neg]⟩

theorem multiplyChecked_fits {a b : Int} {i j : Nat} (left : a.natAbs < 10 ^ i) (right : b.natAbs < 10 ^ j) (some_ : 0 < i)
    (more : 0 < j) (fits : i + j ≤ maxIntegerDigits) (what : String) : multiplyChecked a b what = .ok (a * b) := by
  have first := (digitCount_le some_).mpr left
  have second := (digitCount_le more).mpr right
  have passed : assertIntermediateDigits (digitCount a + digitCount b) what = .ok () := by
    unfold assertIntermediateDigits
    rw [if_neg (by omega)]
  unfold multiplyChecked
  split
  · rw [passed]
    rfl
  · rfl

theorem assertResultDigits_fits {n : Int} (fits : n.natAbs < 10 ^ maxDigits) (what : String) :
    Decimal.assertResultDigits n what = .ok n := by
  unfold Decimal.assertResultDigits
  have size : ((10 ^ maxDigits : Nat) : Int) = (10 : Int) ^ maxDigits := by push_cast; rfl
  rw [if_neg]
  simp only [Bool.or_eq_true, decide_eq_true_eq, not_or, not_le]
  rw [← size]
  omega

theorem natAbs_mul_lt {a b : Int} {i j : Nat} (left : a.natAbs < 10 ^ i) (right : b.natAbs < 10 ^ j) :
    (a * b).natAbs < 10 ^ (i + j) := by
  rw [Int.natAbs_mul, pow_add]
  exact Nat.mul_lt_mul_of_lt_of_le left right.le (by positivity)

theorem natAbs_tdiv_lt {a : Int} {i : Nat} (left : a.natAbs < 10 ^ i) (b : Int) : (a.tdiv b).natAbs < 10 ^ i := by
  rw [Int.natAbs_tdiv]
  exact (Nat.div_le_self _ _).trans_lt left

theorem plusRead_fits {a b : Rational} {i j k l : Nat} (top : a.numerator.natAbs < 10 ^ i) (bottom : a.denominator.natAbs < 10 ^ k)
    (top' : b.numerator.natAbs < 10 ^ j) (bottom' : b.denominator.natAbs < 10 ^ l) (some_ : 0 < i ∧ 0 < j ∧ 0 < k ∧ 0 < l)
    (left : i + l < maxDigits) (right : j + k < maxDigits) (product : k + l ≤ maxDigits) : ∃ r, a.plusRead b = .ok r := by
  obtain ⟨iPos, jPos, kPos, lPos⟩ := some_
  have limits : maxDigits ≤ maxIntegerDigits := by decide
  -- the sum of two products of that size has one digit more at most
  have total {x y : Int} (first : x.natAbs < 10 ^ (i + l)) (second : y.natAbs < 10 ^ (j + k)) :
      (x + y).natAbs < 10 ^ maxDigits := by
    have grown : 10 ^ (i + l) ≤ 10 ^ (maxDigits - 1) := Nat.pow_le_pow_right (by decide) (by omega)
    have grown' : 10 ^ (j + k) ≤ 10 ^ (maxDigits - 1) := Nat.pow_le_pow_right (by decide) (by omega)
    have step : 10 ^ maxDigits = 10 ^ (maxDigits - 1) * 10 := by
      rw [← pow_succ]
      congr 1
    have triangle := Int.natAbs_add_le x y
    omega
  have denominators {x : Int} (first : x.natAbs < 10 ^ (k + l)) : x.natAbs < 10 ^ maxDigits :=
    first.trans_le (Nat.pow_le_pow_right (by decide) product)
  unfold plusRead
  simp only
  split
  · exact ends_bind (multiplyChecked_fits top bottom' iPos lPos (by omega) _) <|
      ends_bind (multiplyChecked_fits top' bottom jPos kPos (by omega) _) <|
      ends_bind (assertResultDigits_fits (total (natAbs_mul_lt top bottom') (natAbs_mul_lt top' bottom)) _) <|
      ends_bind (multiplyChecked_fits bottom bottom' kPos lPos (by omega) _) <|
      ends_bind (assertResultDigits_fits (denominators (natAbs_mul_lt bottom bottom')) _) ⟨_, rfl⟩
  · have shortL := natAbs_tdiv_lt bottom' (gcd a.denominator b.denominator : Int)
    have shortK := natAbs_tdiv_lt bottom (gcd a.denominator b.denominator : Int)
    have sum := total (natAbs_mul_lt top shortL) (natAbs_mul_lt top' shortK)
    refine ends_bind (multiplyChecked_fits top shortL iPos lPos (by omega) _) <|
      ends_bind (multiplyChecked_fits top' shortK jPos kPos (by omega) _) ?_
    split
    · exact ⟨_, rfl⟩
    · have shorter := natAbs_tdiv_lt bottom' (gcd (a.numerator * b.denominator.tdiv ↑(gcd a.denominator b.denominator) +
        b.numerator * a.denominator.tdiv ↑(gcd a.denominator b.denominator)) (gcd a.denominator b.denominator) : Int)
      exact ends_bind (assertResultDigits_fits (natAbs_tdiv_lt sum _) _) <|
        ends_bind (multiplyChecked_fits shortK shorter kPos lPos (by omega) _) <|
        ends_bind (assertResultDigits_fits (denominators (natAbs_mul_lt shortK shorter)) _) ⟨_, rfl⟩

/-- The parts of a fraction in lowest terms are no larger than those of any other spelling. -/
theorem Reduced.parts_le {r : Rational} (reduced : r.Reduced) {a b : Int} (positive : 0 < b) (is : r.value = (a : ℚ) / b) :
    r.numerator.natAbs ≤ a.natAbs ∧ r.denominator ≤ b := by
  have cross : r.numerator * b = a * r.denominator := by
    have bCast : (b : ℚ) ≠ 0 := by exact_mod_cast positive.ne'
    rw [value, div_eq_div_iff reduced.cast_ne bCast] at is
    exact_mod_cast is
  have down : r.denominator ∣ b := reduced.lowest.symm.dvd_of_dvd_mul_left (cross ▸ dvd_mul_left _ a)
  refine ⟨?_, Int.le_of_dvd positive down⟩
  by_cases none_ : a = 0
  · rw [none_, zero_mul] at cross
    rcases mul_eq_zero.mp cross with zero_ | zero_
    · rw [zero_]
      exact Nat.zero_le _
    · omega
  · have up : r.numerator ∣ a := reduced.lowest.dvd_of_dvd_mul_right (cross ▸ dvd_mul_right _ b)
    exact Int.natAbs_le_of_dvd_ne_zero up none_

/-- The cross differences of the candidates with the fraction are their weights. -/
theorem Candidates.cross (candidates : Candidates x max p q r s u v) :
    (p * x.denominator - x.numerator * q).natAbs = v.natAbs ∧ (r * x.denominator - x.numerator * s).natAbs = u.natAbs := by
  have first : p * x.denominator - x.numerator * q = -v * (r * q - p * s) := by
    rw [candidates.numerator, candidates.denominator]
    ring
  have second : r * x.denominator - x.numerator * s = u * (r * q - p * s) := by
    rw [candidates.numerator, candidates.denominator]
    ring
  rw [first, second]
  rcases candidates.unit with up | down
  · rw [up]
    omega
  · rw [down]
    omega

theorem Candidates.weights_le (candidates : Candidates x max p q r s u v) : u ≤ x.denominator ∧ v ≤ x.denominator := by
  have left : u * 1 ≤ u * q := Int.mul_le_mul_of_nonneg_left candidates.first.1 candidates.weights.1
  have right : v * 1 ≤ v * s := Int.mul_le_mul_of_nonneg_left candidates.second.1 candidates.weights.2
  have total := candidates.denominator
  have weights := candidates.weights
  omega

theorem numerator_le {a b : Int} (large : b < x.denominator) (positive : 0 < b)
    (near : (a * x.denominator - x.numerator * b).natAbs ≤ x.denominator.natAbs) : a.natAbs ≤ x.numerator.natAbs + 1 := by
  have scaled : a.natAbs * x.denominator.natAbs ≤ (x.numerator.natAbs + 1) * x.denominator.natAbs := by
    have product : x.numerator.natAbs * b.natAbs ≤ x.numerator.natAbs * x.denominator.natAbs :=
      Nat.mul_le_mul_left _ (by omega)
    rw [add_mul, one_mul, ← Int.natAbs_mul]
    rw [← Int.natAbs_mul] at product
    omega
  exact Nat.le_of_mul_le_mul_right scaled (by omega)

theorem distance_fits {a b : Int} {i k l : Nat} (reduced : x.Reduced) (positive : 0 < b) (lowest : IsCoprime a b)
    (top : x.numerator.natAbs < 10 ^ i) (bottom : x.denominator.natAbs < 10 ^ k) (top' : a.natAbs < 10 ^ (i + 1))
    (bottom' : b.natAbs < 10 ^ l) (near : (a * x.denominator - x.numerator * b).natAbs ≤ x.denominator.natAbs)
    (some_ : 0 < i ∧ 0 < k ∧ 0 < l) (fits : i + k + l + 1 ≤ maxDigits) :
    ∃ distance, (Rational.mk a b).minus (.rational x) = .ok distance ∧ distance.abs.numerator.natAbs < 10 ^ k ∧
      distance.abs.denominator.natAbs < 10 ^ (l + k) := by
  have kept := (negated_ok reduced).1
  have mirrored : x.negated.numerator.natAbs < 10 ^ i := by
    rw [negated, Int.natAbs_neg]
    exact top
  obtain ⟨distance, built⟩ := @plusRead_fits ⟨a, b⟩ x.negated (i + 1) i l k top' bottom' mirrored bottom (by omega) (by omega)
    (by omega) (by omega)
  obtain ⟨lowest', is⟩ := distance_ok ⟨positive, lowest⟩ reduced built
  have xPos := reduced.positive
  have fraction : distance.value = ((a * x.denominator - x.numerator * b : ℤ) : ℚ) / (b * x.denominator : ℤ) := by
    have bCast : (b : ℚ) ≠ 0 := by exact_mod_cast positive.ne'
    have xCast := reduced.cast_ne
    rw [is, value, value]
    push_cast
    field_simp
  obtain ⟨up, down⟩ := lowest'.parts_le (mul_pos positive xPos) fraction
  have distancePos := lowest'.positive
  have product := natAbs_mul_lt bottom' bottom
  refine ⟨distance, built, ?_, ?_⟩
  · unfold abs
    split
    · rw [negated, Int.natAbs_neg]
      omega
    · omega
  · unfold abs
    split
    · show distance.denominator.natAbs < _
      omega
    · omega

theorem lteRead_fits {a b : Rational} {i j : Nat} (top : a.numerator.natAbs < 10 ^ i) (top' : b.numerator.natAbs < 10 ^ i)
    (bottom : a.denominator.natAbs < 10 ^ j) (bottom' : b.denominator.natAbs < 10 ^ j) (some_ : 0 < i ∧ 0 < j)
    (fits : i + j ≤ maxIntegerDigits) : ∃ answer, a.lteRead b = .ok answer :=
  ends_bind (bind_ok.mpr ⟨_, multiplyChecked_fits top bottom' some_.1 some_.2 fits _,
    bind_ok.mpr ⟨_, multiplyChecked_fits top' bottom some_.1 some_.2 fits _, rfl⟩⟩) ⟨_, rfl⟩

def nearer (x first second : Rational) : Checked Rational := do
  let left ← second.minus (.rational x)
  let right ← first.minus (.rational x)
  return if ← left.abs.lteRead right.abs then second else first

variable {input : IntegerInput}

theorem approximate_eq (reduced : x.Reduced) (read : toBigIntInput input "maxDenominator" = .ok max) (positive : 1 ≤ max)
    (large : max < x.denominator) :
    ∃ p q r s u v : Int, Candidates x max p q r s u v ∧ x.approximate input = x.nearer ⟨p, q⟩ ⟨r, s⟩ := by
  obtain ⟨p0, q0, p1, q1, n, d, ended, expands, some_, past⟩ :=
    approximateLoop_ends reduced large _ le_rfl (@Expands.start x max reduced)
  have candidates := expands.candidates positive some_ past
  obtain ⟨pq, rs⟩ := Neighbours.lowest candidates.unit
  refine ⟨_, _, _, _, _, _, candidates, ?_⟩
  unfold approximate
  rw [read]
  show (if max < 1 then _ else if x.denominator ≤ max then _ else _) = _
  rw [if_neg (by omega), if_neg (by omega), ended]
  show (fromParts _ _ >>= fun first => fromParts _ _ >>= fun second => _) = _
  rw [fromParts_lowest candidates.first.1 pq, fromParts_lowest candidates.second.1 rs]
  rfl

theorem nearer_ok (reduced : x.Reduced) (candidates : Candidates x max p q r s u v) {answer : Rational}
    (built : x.nearer ⟨p, q⟩ ⟨r, s⟩ = .ok answer) : Closest x max answer := by
  obtain ⟨pq, rs⟩ := Neighbours.lowest candidates.unit
  have firstReduced : (Rational.mk p q).Reduced := ⟨candidates.first.1, pq⟩
  have secondReduced : (Rational.mk r s).Reduced := ⟨candidates.second.1, rs⟩
  obtain ⟨left, isLeft, built⟩ := bind_ok.mp built
  obtain ⟨right, isRight, built⟩ := bind_ok.mp built
  obtain ⟨order, compared, built⟩ := bind_ok.mp built
  obtain ⟨leftReduced, leftIs⟩ := distance_ok secondReduced reduced isLeft
  obtain ⟨rightReduced, rightIs⟩ := distance_ok firstReduced reduced isRight
  obtain ⟨leftAbs, leftValue⟩ := abs_ok leftReduced
  obtain ⟨rightAbs, rightValue⟩ := abs_ok rightReduced
  have is := lteRead_ok leftAbs rightAbs compared
  rw [leftValue, rightValue, leftIs, rightIs] at is
  obtain ⟨second, first⟩ := candidates.closest reduced
  cases built
  by_cases closer : |(Rational.mk r s).value - x.value| ≤ |(Rational.mk p q).value - x.value|
  · rw [is, decide_eq_true closer]
    exact second closer
  · rw [is, decide_eq_false closer]
    exact first (not_le.mp closer).le

theorem plusRead_only (a b : Rational) : Only MathError.IsLimit (a.plusRead b) := by
  unfold plusRead
  simp only
  split
  · exact .bind (multiplyChecked_only _ _ _) fun _ _ => .bind (multiplyChecked_only _ _ _) fun _ _ =>
      .bind (Decimal.assertResultDigits_only _ _) fun _ _ => .bind (multiplyChecked_only _ _ _) fun _ _ =>
      .bind (Decimal.assertResultDigits_only _ _) fun _ _ => .ok _
  · refine .bind (multiplyChecked_only _ _ _) fun _ _ => .bind (multiplyChecked_only _ _ _) fun _ _ => ?_
    split
    · exact .ok _
    · exact .bind (Decimal.assertResultDigits_only _ _) fun _ _ => .bind (multiplyChecked_only _ _ _) fun _ _ =>
        .bind (Decimal.assertResultDigits_only _ _) fun _ _ => .ok _

theorem nearer_only (x first second : Rational) : Only MathError.IsLimit (x.nearer first second) :=
  .bind (plusRead_only _ _) fun _ _ => .bind (plusRead_only _ _) fun _ _ =>
    .bind (.bind (.bind (multiplyChecked_only _ _ _) fun _ _ => .bind (multiplyChecked_only _ _ _) fun _ _ => .ok _)
      fun _ _ => .ok _) fun _ _ => .ok _

theorem nearer_fits (reduced : x.Reduced) (positive : 1 ≤ max) (large : max < x.denominator)
    (candidates : Candidates x max p q r s u v)
    (short : digitCount x.numerator + digitCount x.denominator + digitCount max ≤ 9000) :
    ∃ answer, x.nearer ⟨p, q⟩ ⟨r, s⟩ = .ok answer := by
  have digits (n : Int) : 0 < digitCount n ∧ n.natAbs < 10 ^ digitCount n := by
    have some_ : 0 < digitCount n := Nat.length_toDigits_pos
    exact ⟨some_, (digitCount_le some_).mp le_rfl⟩
  obtain ⟨iPos, top⟩ := digits x.numerator
  obtain ⟨kPos, bottom⟩ := digits x.denominator
  obtain ⟨lPos, bound⟩ := digits max
  generalize digitCount x.numerator = i at *
  generalize digitCount x.denominator = k at *
  generalize digitCount max = l at *
  obtain ⟨pq, rs⟩ := Neighbours.lowest candidates.unit
  obtain ⟨firstCross, secondCross⟩ := candidates.cross
  have weights := candidates.weights
  have weightsLe := candidates.weights_le
  have first := candidates.first
  have second := candidates.second
  have firstNear : (p * x.denominator - x.numerator * q).natAbs ≤ x.denominator.natAbs := by omega
  have secondNear : (r * x.denominator - x.numerator * s).natAbs ≤ x.denominator.natAbs := by omega
  have grown : 10 ^ (i + 1) = 10 ^ i * 10 := pow_succ 10 i
  have firstTop := numerator_le (by omega) first.1 firstNear
  have secondTop := numerator_le (by omega) second.1 secondNear
  have limit : i + k + l + 1 ≤ maxDigits := by
    show i + k + l + 1 ≤ 10000
    omega
  obtain ⟨left, isLeft, leftTop, leftBottom⟩ := @distance_fits x r s i k l reduced second.1 rs top bottom (by omega)
    (by omega) secondNear ⟨iPos, kPos, lPos⟩ limit
  obtain ⟨right, isRight, rightTop, rightBottom⟩ := @distance_fits x p q i k l reduced first.1 pq top bottom (by omega)
    (by omega) firstNear ⟨iPos, kPos, lPos⟩ limit
  obtain ⟨order, compared⟩ := lteRead_fits leftTop rightTop leftBottom rightBottom ⟨kPos, by omega⟩
    (show k + (l + k) ≤ 18000 by omega)
  exact ends_bind isLeft (ends_bind isRight (ends_bind compared ⟨_, rfl⟩))

/-- The closest fraction: the number itself where its denominator fits; else one in lowest terms that no fraction of a denominator
up to the bound comes nearer than. The only refusal is the limit of digits, which the distances of the two candidates may
pass, and which no number and bound of 9000 digits together reach. -/
theorem approximate_closest (reduced : x.Reduced) (read : toBigIntInput input "maxDenominator" = .ok max) (positive : 1 ≤ max) :
    (x.denominator ≤ max → x.approximate input = .ok x) ∧
    (∀ answer, x.approximate input = .ok answer → Closest x max answer) ∧
    (∀ err, x.approximate input = .error err → err.IsLimit) ∧
    (digitCount x.numerator + digitCount x.denominator + digitCount max ≤ 9000 →
      ∃ answer, x.approximate input = .ok answer) := by
  by_cases fits : x.denominator ≤ max
  · have itself : x.approximate input = .ok x := by
      unfold approximate
      rw [read]
      show (if max < 1 then _ else if x.denominator ≤ max then _ else _) = _
      rw [if_neg (by omega), if_pos fits]
      rfl
    rw [itself]
    refine ⟨fun _ => rfl, ?_, ?_, fun _ => ⟨x, rfl⟩⟩
    · rintro _ ⟨⟩
      refine ⟨reduced, fits, fun a b _ _ => ?_⟩
      rw [sub_self, abs_zero]
      exact abs_nonneg _
    · rintro _ ⟨⟩
  · obtain ⟨p, q, r, s, u, v, candidates, is⟩ := approximate_eq reduced read positive (not_le.mp fits)
    rw [is]
    exact ⟨fun within => absurd within fits, fun answer => nearer_ok reduced candidates, nearer_only x _ _,
      nearer_fits reduced positive (not_le.mp fits) candidates⟩

/-- `22/7` for `3.1416`, with a denominator of ten at most. -/
theorem approximate_closest_pi :
    ∃ answer, (Rational.mk 3927 1250).approximate (.bigint 10) = .ok answer ∧ Closest ⟨3927, 1250⟩ 10 answer := by
  have reduced : (Rational.mk 3927 1250).Reduced := ⟨by decide, Int.isCoprime_iff_gcd_eq_one.mpr (by decide)⟩
  obtain ⟨-, closest, -, fits⟩ := @approximate_closest _ 10 (.bigint 10) reduced (by decide) (by decide)
  obtain ⟨answer, built⟩ := fits (by decide)
  exact ⟨answer, built, closest answer built⟩

/-- A unit fraction just under the bound: its distance to the next larger one needs both denominators. -/
theorem approximate_refuses {t : Int} (some_ : 1 < t) (long : (10 : Int) ^ maxDigits ≤ (t - 1) * t)
    (read : toBigIntInput input "maxDenominator" = .ok (t - 1)) :
    ∃ err, (Rational.mk 1 t).approximate input = .error err ∧ err.IsLimit := by
  have loop : approximateLoop (t - 1) 0 1 1 0 1 t = .ok (1, 0, 0, 1) := by
    have none_ : floorDiv 1 t = 0 := by
      rw [floorDiv_eq 1 (by omega)]
      exact Int.ediv_eq_zero_of_lt (by omega) some_
    have all : floorDiv t 1 = t := by rw [floorDiv_eq t (by decide), Int.ediv_one]
    rw [approximateLoop, if_neg (by omega)]
    simp only [none_, zero_mul, add_zero, sub_zero]
    rw [if_neg (by omega), approximateLoop, if_neg (by decide)]
    simp only [all, mul_one, zero_add]
    rw [if_pos (by omega)]
  have is : (Rational.mk 1 t).approximate input = (Rational.mk 1 t).nearer ⟨1, t - 1⟩ ⟨0, 1⟩ := by
    unfold approximate
    rw [read]
    show (if t - 1 < 1 then _ else if t ≤ t - 1 then _ else _) = _
    rw [if_neg (by omega), if_neg (by omega)]
    show (approximateLoop (t - 1) 0 1 1 0 1 t >>= _) = _
    rw [loop]
    show (fromParts (1 + (t - 1 - 0).tdiv 1 * 0) (0 + (t - 1 - 0).tdiv 1 * 1) >>= _) = _
    rw [mul_zero, add_zero, sub_zero, Int.tdiv_one, mul_one, zero_add, fromParts_lowest (by omega) isCoprime_one_left]
    rw [fromParts_lowest (n := 0) (d := 1) (by decide) isCoprime_one_right]
    rfl
  rw [is]
  cases built : (Rational.mk 1 t).nearer ⟨1, t - 1⟩ ⟨0, 1⟩ with
  | error err => exact ⟨err, rfl, nearer_only _ _ _ err built⟩
  | ok answer =>
    exfalso
    obtain ⟨left, -, built⟩ := bind_ok.mp built
    obtain ⟨right, isRight, -⟩ := bind_ok.mp built
    have apart : (gcd (t - 1) t : Int) = 1 := by
      rw [gcd_eq]
      exact_mod_cast Int.isCoprime_iff_gcd_eq_one.mp ⟨-1, 1, by ring⟩
    have added : (Rational.mk 1 (t - 1)).plusRead ⟨-1, t⟩ = .ok right := isRight
    unfold plusRead at added
    simp only [apart, if_true] at added
    obtain ⟨x, -, added⟩ := bind_ok.mp added
    obtain ⟨y, -, added⟩ := bind_ok.mp added
    obtain ⟨sum, -, added⟩ := bind_ok.mp added
    obtain ⟨product, isProduct, added⟩ := bind_ok.mp added
    obtain ⟨checked, isChecked, -⟩ := bind_ok.mp added
    have size := (Decimal.assertResultDigits_ok isChecked).2
    rw [multiplyChecked_ok isProduct] at size
    have cast : ((10 ^ maxDigits : Nat) : Int) = (10 : Int) ^ maxDigits := by push_cast; rfl
    rw [← cast] at long
    omega

/-- Two numbers of 6000 digits. -/
theorem approximate_too_long : ∃ (x : Rational) (max : Int), x.Reduced ∧ 1 ≤ max ∧
    toBigIntInput (.bigint max) "maxDenominator" = .ok max ∧
    ∃ err, x.approximate (.bigint max) = .error err ∧ err.IsLimit := by
  have half (m : Nat) (short : m ≤ maxDigits) (long : maxDigits < 2 * m) : ∃ (x : Rational) (max : Int), x.Reduced ∧ 1 ≤ max ∧
      toBigIntInput (.bigint max) "maxDenominator" = .ok max ∧
      ∃ err, x.approximate (.bigint max) = .error err ∧ err.IsLimit := by
    obtain ⟨k, rfl⟩ : ∃ k, m = k + 1 := ⟨m - 1, by omega⟩
    have cast : ((10 ^ (k + 1) : Nat) : Int) = (10 : Int) ^ (k + 1) := by push_cast; rfl
    have isPower : (10 : Nat) ^ (k + 1) = 10 ^ k * 10 := pow_succ 10 k
    have unit : 0 < 10 ^ k := Nat.pow_pos (by decide)
    have digits : digitCount ((10 : Int) ^ (k + 1) - 1) ≤ maxDigits := by
      rw [digitCount_le (by decide)]
      have grown : 10 ^ (k + 1) ≤ 10 ^ maxDigits := Nat.pow_le_pow_right (by decide) short
      omega
    have product : (10 : Int) ^ maxDigits ≤ (10 ^ (k + 1) - 1) * 10 ^ (k + 1) := by
      have grown : 10 ^ maxDigits ≤ 10 ^ (k + (k + 1)) := Nat.pow_le_pow_right (by decide) (by omega)
      have lower : 10 ^ k * 10 ^ (k + 1) ≤ (10 ^ (k + 1) - 1) * 10 ^ (k + 1) := Nat.mul_le_mul_right _ (by omega)
      rw [← pow_add] at lower
      have whole := grown.trans lower
      have less : 1 ≤ 10 ^ (k + 1) := Nat.pow_pos (by decide)
      zify [less] at whole
      exact whole
    have read : toBigIntInput (.bigint ((10 : Int) ^ (k + 1) - 1)) "maxDenominator" = .ok (10 ^ (k + 1) - 1) := by
      have notLong : exceedsDigitLimit (digitCount ((10 : Int) ^ (k + 1) - 1)) = false := decide_eq_false (by omega)
      unfold toBigIntInput assertDigitLimit
      simp only [notLong]
      rfl
    exact ⟨⟨1, 10 ^ (k + 1)⟩, 10 ^ (k + 1) - 1, ⟨by positivity, isCoprime_one_left⟩, by omega, read,
      approximate_refuses (by omega) product read⟩
  exact half 6000 (by decide) (by decide)

end Rational

end Arki.Math
