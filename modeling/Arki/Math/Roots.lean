import Arki.Library.Sticky
import Arki.Math.DecimalRefuses
import Mathlib.Analysis.SpecialFunctions.Pow.Real
import Mathlib.NumberTheory.Real.Irrational

/-! Integer roots by Newton's iteration, and roots of decimals rounded by a sticky digit. -/

set_option autoImplicit false

namespace Arki.Math

open Outcome (bind_ok)

/-- The floats of the source, as the whole numbers that are taken from them. No digit of a result comes from them. -/
structure Estimates where
  /-- `Math.floor(rootLog2)` -/
  rootLog2 : Nat → Nat → Nat
  /-- `Math.ceil(2 ** (rootLog2 - exponent) * (1 + 1e-9))` -/
  seed : Nat → Nat → Nat
  /-- `Math.floor(log10Estimate(x.abs()) / n - 1e-9)` -/
  log10Root : Decimal → Nat → Int

def newton (value K x : Nat) : Checked Nat :=
  -- a bigint division by zero throws
  if x ^ (K - 1) = 0 then .error (.divisionByZero "Division by zero")
  else
    let next := ((K - 1) * x + value / x ^ (K - 1)) / K
    if x ≤ next then .ok x else newton value K next
termination_by x

/-- `while (x ** K > value) x--` -/
def lower (value K : Nat) : Nat → Nat
  | 0 => 0
  | x + 1 => if value < (x + 1) ^ K then lower value K x else x + 1

/-- `while ((x + 1n) ** K <= value) x++`, which goes no further than `value`. -/
def raise (value K : Nat) : Nat → Nat → Nat
  | 0, x => x
  | fuel + 1, x => if (x + 1) ^ K ≤ value then raise value K fuel (x + 1) else x

/-- `⌊value^(1/k)⌋` for a degree of at least one. -/
def integerRoot (estimates : Estimates) (value k : Nat) : Checked Nat :=
  if value < 2 ∨ k = 1 then .ok value
  else if bitLength value ≤ k then .ok 1
  else
    let rootLog2 := estimates.rootLog2 value k
    -- the k-th power of a value near the root is sized before it is built
    if maxIntegerBits < k * (rootLog2 + 2) then
      .error (.resourceLimit ("The root needs a " ++ toString (k * (rootLog2 + 2)) ++ "-bit power; the limit is " ++
        toString maxIntegerBits))
    else do
      -- `Math.max(0, Math.floor(rootLog2) - 50)`
      let exponent := rootLog2 - 50
      let x ← newton value k ((estimates.seed value k + 1) <<< exponent)
      let x := lower value k x
      return raise value k value x

def assertRadicandSize (digits : Nat) : Checked Unit :=
  if maxIntegerDigits < digits then
    .error (.resourceLimit ("The root needs a " ++ toString digits ++ "-digit intermediate; the limit is " ++
      toString maxIntegerDigits))
  else .ok ()

/-- `Math.ceil(scale / n)` -/
def ceilDiv (scale n : Nat) : Nat := (scale + n - 1) / n

/-- `⌊x^(1/n) × 10^precision⌋` for `x = magnitude × 10^-scale`, and whether that is the exact root. -/
def rootAt (estimates : Estimates) (magnitude scale n precision : Nat) : Checked (Nat × Bool) := do
  -- the radicand must be whole: work at a precision that clears the scale, then cut back
  let working := max precision (ceilDiv scale n)
  let shift := n * working - scale
  assertRadicandSize (digitCount magnitude + shift)
  let radicand ← timesPow10 magnitude shift "The root"
  let root ← integerRoot estimates radicand.natAbs n
  let isExact : Bool := root ^ n = radicand.natAbs
  if working = precision then return (root, isExact)
  else
    let unit := 10 ^ (working - precision)
    return (root / unit, isExact && root % unit = 0)

namespace Decimal

def exactRoot (estimates : Estimates) (x : Decimal) (n : Nat) : Checked (Option Decimal) := do
  let magnitude := x.coefficient.natAbs
  let paddedScale := ceilDiv x.scale n * n
  assertRadicandSize (digitCount magnitude + paddedScale - x.scale)
  let radicand ← timesPow10 magnitude (paddedScale - x.scale) "The root"
  let root ← integerRoot estimates radicand.natAbs n
  if root ^ n ≠ radicand.natAbs then return none
  else return some ⟨if x.coefficient < 0 then -root else root, paddedScale / n⟩

def label (name : String) (x : Decimal) : String :=
  let text := x.text
  let shown := if 40 < text.length then text.take 37 ++ ['.', '.', '.'] else text
  name ++ "(" ++ String.ofList shown ++ ")"

def tooManyDigitsOf (what : String) : MathError :=
  .resourceLimit (what ++ " would have more than " ++ ToString.toString maxDigits ++ " digits")

def assertResultFits (log10Magnitude scale : Int) (what : String) : Checked Unit :=
  if maxDigits < scale + log10Magnitude + 1 then .error (tooManyDigitsOf what) else .ok ()

def checkedDigits (result : Decimal) (what : String) : Checked Decimal :=
  if maxDigits < digitCount result.coefficient then .error (tooManyDigitsOf what) else .ok result

def stickyRoot (estimates : Estimates) (x : Decimal) (n scale : Nat) (rounding : RoundingMode) (what : String) : Checked Decimal := do
  -- trailing zeros carry no value
  let trimmed := x.trim
  let (root, isExact) ← rootAt estimates trimmed.coefficient.natAbs trimmed.scale n (scale + 1)
  let tenfold : Int := root * 10 + if isExact then 0 else 1
  let coefficient ← divideRounded (if x.coefficient < 0 then -tenfold else tenfold) 100 rounding
  checkedDigits ⟨coefficient, scale⟩ what

def roundedRoot (estimates : Estimates) (x : Decimal) (n : Nat) (options : ScaleOptions) (name : String) : Checked Decimal := do
  let scale ← assertScale options.scale
  let rounding := options.rounding.getD .halfEven
  let what := label name x
  if !x.isZero then assertResultFits (estimates.log10Root x n) scale what
  stickyRoot estimates x n scale rounding what

def rootOf (estimates : Estimates) (value : DecimalInput) (n : JsNumber) (options : Option ScaleOptions) (name : String) :
    Checked Decimal := do
  let degree ← match n with
    | .whole degree =>
      if !isSafeInteger degree || degree < 1 then
        throw (.invalidArgument ("The root degree must be a positive safe integer, got " ++ ToString.toString degree))
      else pure degree.toNat
    | other => throw (.invalidArgument ("The root degree must be a positive safe integer, got " ++ other.spelling))
  let x ← from_ value
  if x.coefficient < 0 ∧ degree % 2 = 0 then
    throw (.invalidArgument (name ++ " of a negative number (" ++ x.toString ++ ") is not real"))
  else
    match options with
    | none =>
      match ← exactRoot estimates x degree with
      | some root => return root
      | none =>
        throw (.roundingNecessary (name ++ "(" ++ x.toString ++ ") has infinitely many digits; pass { scale } to round it"))
    | some options => roundedRoot estimates x degree options name

def sqrt (estimates : Estimates) (value : DecimalInput) (options : Option ScaleOptions) : Checked Decimal :=
  rootOf estimates value (.whole 2) options "sqrt"

def cbrt (estimates : Estimates) (value : DecimalInput) (options : Option ScaleOptions) : Checked Decimal :=
  rootOf estimates value (.whole 3) options "cbrt"

def nthRoot (estimates : Estimates) (value : DecimalInput) (n : JsNumber) (options : Option ScaleOptions) : Checked Decimal :=
  rootOf estimates value n options "nthRoot"

end Decimal

variable {value K x fuel : Nat} {estimates : Estimates}

theorem newton_ends (large : 2 ≤ value) (degree : 2 ≤ K) (size : Nat) :
    ∀ {x : Nat}, x ≤ size → 0 < x → ∃ y, newton value K x = .ok y := by
  induction size with
  | zero => exact fun within positive => absurd positive (by omega)
  | succ size ih =>
    intro x within positive
    have power : x ^ (K - 1) ≠ 0 := (Nat.pow_pos positive).ne'
    rw [newton, if_neg power]
    simp only
    split
    · exact ⟨x, rfl⟩
    · next falls =>
      refine ih (by omega) (Nat.div_pos ?_ (by omega))
      by_cases one : x = 1
      · rw [one, one_pow, Nat.div_one, mul_one]
        omega
      · have scaled : (K - 1) * 2 ≤ (K - 1) * x := Nat.mul_le_mul_left _ (by omega)
        exact le_trans (by omega) (Nat.le_add_right _ _)

theorem lower_spec (positive : 0 < K) : ∀ x, lower value K x ^ K ≤ value
  | 0 => by
    rw [lower, zero_pow positive.ne']
    exact Nat.zero_le _
  | x + 1 => by
    rw [lower]
    split
    · exact lower_spec positive x
    · next within => exact not_lt.mp within

theorem raise_spec (positive : 0 < K) (fuel : Nat) : ∀ {x : Nat}, x ^ K ≤ value → value < x + fuel + 1 →
    raise value K fuel x ^ K ≤ value ∧ value < (raise value K fuel x + 1) ^ K := by
  induction fuel with
  | zero =>
    intro x low enough
    exact ⟨low, enough.trans_le (Nat.le_self_pow positive.ne' _)⟩
  | succ fuel ih =>
    intro x low enough
    rw [raise]
    split
    · next more => exact ih more (by omega)
    · next past => exact ⟨low, not_le.mp past⟩

/-- The integer root of every number and degree, whatever the floats say; the one refusal is that of a power of too many
bits. -/
theorem integerRoot_spec (estimates : Estimates) (value : Nat) {k : Nat} (positive : 0 < k) :
    (∃ r, integerRoot estimates value k = .ok r ∧ r ^ k ≤ value ∧ value < (r + 1) ^ k) ∨
      (∃ message, integerRoot estimates value k = .error (.resourceLimit message)) ∧ 2 ≤ value ∧ 1 < k ∧ k < bitLength value ∧
        maxIntegerBits < k * (estimates.rootLog2 value k + 2) := by
  unfold integerRoot
  by_cases trivial_ : value < 2 ∨ k = 1
  · rw [if_pos trivial_]
    refine .inl ⟨value, rfl, ?_⟩
    rcases trivial_ with small | rfl
    · have cases_ : value = 0 ∨ value = 1 := by omega
      rcases cases_ with rfl | rfl
      · rw [zero_pow positive.ne']
        exact ⟨le_rfl, Nat.pow_pos (by decide)⟩
      · rw [one_pow]
        exact ⟨le_rfl, Nat.one_lt_two_pow positive.ne'⟩
    · rw [pow_one, pow_one]
      exact ⟨le_rfl, Nat.lt_succ_self _⟩
  rw [if_neg trivial_]
  by_cases one : bitLength value ≤ k
  · rw [if_pos one]
    refine .inl ⟨1, rfl, ?_, ?_⟩
    · rw [one_pow]
      omega
    · exact (bitLength_bounds (by omega)).2.1.trans_le (Nat.pow_le_pow_right (by decide) one)
  rw [if_neg one]
  by_cases long : maxIntegerBits < k * (estimates.rootLog2 value k + 2)
  · simp only [if_pos long]
    exact .inr ⟨⟨_, rfl⟩, by omega, by omega, by omega, long⟩
  · simp only [if_neg long]
    left
    have start : 0 < (estimates.seed value k + 1) <<< (estimates.rootLog2 value k - 50) := by
      rw [Nat.shiftLeft_eq]
      positivity
    obtain ⟨y, ended⟩ := @newton_ends value k (by omega) (by omega) _ _ le_rfl start
    rw [ended]
    exact ⟨_, rfl, raise_spec positive value (lower_spec positive y) (by omega)⟩

variable {magnitude scale n precision root : Nat} {isExact : Bool}

theorem scale_le_ceilDiv (positive : 0 < n) : scale ≤ n * ceilDiv scale n := by
  unfold ceilDiv
  have whole := Nat.div_add_mod (scale + n - 1) n
  have rest := Nat.mod_lt (scale + n - 1) positive
  omega

/-- The cut of a root: the number of units below the real root, and whether it is the root. -/
structure IsCut (t : ℝ) (root : Nat) (isExact : Bool) : Prop where
  low : (root : ℝ) ≤ t
  high : t < root + 1
  is : isExact = true ↔ t = root

/-- A real number whose power is between the powers of two neighbours is between them. -/
theorem cut_of_powers {t : ℝ} {radicand : Nat} (positive : 0 < n) (nonneg : 0 ≤ t) (power : t ^ n = radicand)
    (low : root ^ n ≤ radicand) (high : radicand < (root + 1) ^ n) : IsCut t root (decide (root ^ n = radicand)) := by
  refine ⟨?_, ?_, ?_⟩
  · apply le_of_pow_le_pow_left₀ positive.ne' nonneg
    rw [power]
    exact_mod_cast low
  · apply lt_of_pow_lt_pow_left₀ n (by positivity)
    rw [power]
    exact_mod_cast high
  · rw [decide_eq_true_eq]
    constructor
    · intro same
      apply (pow_left_inj₀ nonneg (Nat.cast_nonneg _) positive.ne').mp
      rw [power]
      exact_mod_cast same.symm
    · rintro rfl
      exact_mod_cast power

theorem IsCut.shorten {t : ℝ} (cut : IsCut t root isExact) {unit : Nat} (positive : 0 < unit) :
    IsCut (t / unit) (root / unit) (isExact && root % unit = 0) := by
  have cast : (0 : ℝ) < unit := by exact_mod_cast positive
  have whole : (root : ℝ) = (root / unit : ℕ) * unit + (root % unit : ℕ) := by exact_mod_cast (Nat.div_add_mod' root unit).symm
  have restNonneg : (0 : ℝ) ≤ (root % unit : ℕ) := Nat.cast_nonneg _
  have restSmall : ((root % unit : ℕ) : ℝ) + 1 ≤ unit := by exact_mod_cast Nat.mod_lt root positive
  obtain ⟨low, high, is⟩ := cut
  refine ⟨?_, ?_, ?_⟩
  · rw [le_div_iff₀ cast]
    linarith
  · rw [div_lt_iff₀ cast]
    linarith
  · rw [Bool.and_eq_true, is, decide_eq_true_eq, div_eq_iff cast.ne']
    constructor
    · rintro ⟨same, none_⟩
      rw [same, whole, none_, Nat.cast_zero, add_zero]
    · intro same
      have rest : ((root % unit : ℕ) : ℝ) ≤ 0 := by linarith
      have none_ : root % unit = 0 := by exact_mod_cast le_antisymm rest restNonneg
      refine ⟨?_, none_⟩
      rw [same, whole, none_, Nat.cast_zero, add_zero]

theorem integerRoot_ok {r : Nat} (positive : 0 < n) (built : integerRoot estimates value n = .ok r) :
    r ^ n ≤ value ∧ value < (r + 1) ^ n := by
  rcases integerRoot_spec estimates value positive with ⟨s, same, low, high⟩ | ⟨⟨_, refused⟩, -⟩
  · rw [built] at same
    cases same
    exact ⟨low, high⟩
  · rw [built] at refused
    cases refused

theorem rootAt_ok (positive : 0 < n) (built : rootAt estimates magnitude scale n precision = .ok (root, isExact)) {y : ℝ}
    (nonneg : 0 ≤ y) (power : y ^ n = magnitude / 10 ^ scale) : IsCut (y * 10 ^ precision) root isExact := by
  obtain ⟨_, -, built⟩ := bind_ok.mp built
  obtain ⟨radicand, isRadicand, built⟩ := bind_ok.mp built
  obtain ⟨r, isRoot, built⟩ := bind_ok.mp built
  have working : max precision (ceilDiv scale n) = precision + (max precision (ceilDiv scale n) - precision) := by omega
  have covered : scale ≤ n * max precision (ceilDiv scale n) :=
    (scale_le_ceilDiv positive).trans (Nat.mul_le_mul_left n (le_max_right _ _))
  generalize max precision (ceilDiv scale n) = wide at *
  obtain ⟨low, high⟩ := integerRoot_ok positive isRoot
  have isWhole : radicand.natAbs = magnitude * 10 ^ (n * wide - scale) := by
    rw [timesPow10_ok isRadicand, Int.natAbs_mul, Int.natAbs_natCast, Int.natAbs_pow]
    rfl
  have scaled : (y * 10 ^ wide) ^ n = (radicand.natAbs : ℝ) := by
    have split_ : (10 : ℝ) ^ (n * wide) = 10 ^ scale * 10 ^ (n * wide - scale) := by rw [← pow_add, Nat.add_sub_cancel' covered]
    have unit : (10 : ℝ) ^ scale ≠ 0 := by positivity
    rw [mul_pow, power, ← pow_mul, mul_comm wide, split_, isWhole]
    push_cast
    field_simp
  have cut := cut_of_powers positive (by positivity) scaled low high
  by_cases same : wide = precision
  · rw [if_pos same] at built
    cases built
    rw [← same]
    exact cut
  · rw [if_neg same] at built
    cases built
    have shorter := cut.shorten (show 0 < 10 ^ (wide - precision) by positivity)
    have back : y * 10 ^ wide / ((10 ^ (wide - precision) : ℕ) : ℝ) = y * 10 ^ precision := by
      rw [working]
      push_cast
      rw [pow_add, Nat.add_sub_cancel_left]
      field_simp
    rwa [back] at shorter

/-- The radicand has no more digits than a bigint may have, and by its estimate the power of a value near its root has no more
bits. -/
structure RadicandFits (estimates : Estimates) (magnitude shift n : Nat) : Prop where
  digits : digitCount magnitude + shift ≤ maxIntegerDigits
  bits : n * (estimates.rootLog2 (magnitude * 10 ^ shift) n + 2) ≤ maxIntegerBits

variable {shift : Nat}

theorem assertRadicandSize_cases (digits : Nat) : assertRadicandSize digits = .ok () ∧ digits ≤ maxIntegerDigits ∨
    (∃ err, assertRadicandSize digits = .error err ∧ err.IsLimit) ∧ maxIntegerDigits < digits := by
  unfold assertRadicandSize
  by_cases long : maxIntegerDigits < digits
  · rw [if_pos long]
    exact .inr ⟨⟨_, rfl, _, rfl⟩, long⟩
  · rw [if_neg long]
    exact .inl ⟨rfl, not_lt.mp long⟩

theorem timesPow10_fits (fits : digitCount magnitude + shift ≤ maxIntegerDigits) (what : String) :
    timesPow10 magnitude shift what = .ok (magnitude * 10 ^ shift) := by
  have passed : assertIntermediateDigits (digitCount magnitude + shift) what = .ok () := by
    unfold assertIntermediateDigits
    rw [if_neg (not_lt.mpr fits)]
  unfold timesPow10
  split
  · rw [passed]
    rfl
  · rfl

theorem radicand_cases (estimates : Estimates) (positive : 0 < n) (magnitude shift : Nat) :
    (assertRadicandSize (digitCount magnitude + shift) = .ok () ∧
      timesPow10 magnitude shift "The root" = .ok ((magnitude * 10 ^ shift : ℕ) : ℤ) ∧
      ∃ r, integerRoot estimates (magnitude * 10 ^ shift) n = .ok r) ∨
    ¬ RadicandFits estimates magnitude shift n ∧ ((∃ err, assertRadicandSize (digitCount magnitude + shift) = .error err ∧ err.IsLimit) ∨
      assertRadicandSize (digitCount magnitude + shift) = .ok () ∧
      timesPow10 magnitude shift "The root" = .ok ((magnitude * 10 ^ shift : ℕ) : ℤ) ∧
      ∃ err, integerRoot estimates (magnitude * 10 ^ shift) n = .error err ∧ err.IsLimit) := by
  rcases assertRadicandSize_cases (digitCount magnitude + shift) with ⟨passed, fits⟩ | ⟨refused, long⟩
  · have built : timesPow10 magnitude shift "The root" = .ok ((magnitude * 10 ^ shift : ℕ) : ℤ) := by
      rw [timesPow10_fits fits]
      push_cast
      rfl
    rcases integerRoot_spec estimates (magnitude * 10 ^ shift) positive with ⟨r, ended, -⟩ | ⟨⟨message, refused⟩, -, -, -, long⟩
    · exact .inl ⟨passed, built, r, ended⟩
    · exact .inr ⟨fun all => absurd all.bits (not_le.mpr long), .inr ⟨passed, built, _, refused, _, rfl⟩⟩
  · exact .inr ⟨fun all => absurd all.digits (not_le.mpr long), .inl refused⟩

theorem rootAt_cases (estimates : Estimates) (positive : 0 < n) (magnitude scale precision : Nat) :
    (∃ answer, rootAt estimates magnitude scale n precision = .ok answer) ∨
      (∃ err, rootAt estimates magnitude scale n precision = .error err ∧ err.IsLimit) ∧
        ¬ RadicandFits estimates magnitude (n * max precision (ceilDiv scale n) - scale) n := by
  unfold rootAt
  simp only
  rcases radicand_cases estimates positive magnitude (n * max precision (ceilDiv scale n) - scale) with
    ⟨passed, built, r, ended⟩ | ⟨unfit, ⟨err, refused, isLimit⟩ | ⟨passed, built, err, refused, isLimit⟩⟩
  · left
    rw [passed, built]
    show ∃ answer, (integerRoot estimates (Int.natAbs ((magnitude * 10 ^ _ : ℕ) : ℤ)) n >>= _) = .ok answer
    rw [Int.natAbs_natCast]
    refine ends_bind ended ?_
    split
    · exact ⟨_, rfl⟩
    · exact ⟨_, rfl⟩
  · rw [refused]
    exact .inr ⟨⟨err, rfl, isLimit⟩, unfit⟩
  · right
    rw [passed, built]
    refine ⟨⟨err, ?_, isLimit⟩, unfit⟩
    show (integerRoot estimates (Int.natAbs ((magnitude * 10 ^ _ : ℕ) : ℤ)) n >>= _) = .error err
    rw [Int.natAbs_natCast, refused]
    rfl

noncomputable def realRoot (x : ℚ) (n : ℕ) : ℝ :=
  if 0 ≤ x then (x : ℝ) ^ ((n : ℝ)⁻¹) else -((-x : ℝ) ^ ((n : ℝ)⁻¹))

theorem realRoot_nonneg {q : ℚ} (nonneg : 0 ≤ q) : 0 ≤ realRoot q n := by
  rw [realRoot, if_pos nonneg]
  exact Real.rpow_nonneg (by exact_mod_cast nonneg) _

theorem realRoot_neg {q : ℚ} (negative : q < 0) : realRoot q n = -realRoot (-q) n := by
  rw [realRoot, if_neg (not_le.mpr negative), realRoot, if_pos (by linarith)]
  push_cast
  rfl

theorem realRoot_pow {q : ℚ} (positive : 0 < n) (nonneg : 0 ≤ q) : realRoot q n ^ n = q := by
  rw [realRoot, if_pos nonneg]
  exact Real.rpow_inv_natCast_pow (by exact_mod_cast nonneg) positive.ne'

theorem realRoot_odd {q : ℚ} (odd : Odd n) : realRoot q n ^ n = q := by
  rcases le_or_gt 0 q with nonneg | negative
  · exact realRoot_pow odd.pos nonneg
  · rw [realRoot_neg negative, odd.neg_pow, realRoot_pow odd.pos (by linarith)]
    push_cast
    ring

namespace Decimal

variable {x d : Decimal} {options : ScaleOptions} {name : String} {places : Nat}

open Rounding (Rounds SameHalves)

theorem magnitude_value (x : Decimal) : |x.value| = (x.coefficient.natAbs : ℚ) / 10 ^ x.scale := by
  have unit : (0 : ℚ) < 10 ^ x.scale := by positivity
  rw [value, abs_div, abs_of_pos unit, ← Int.cast_abs, Int.abs_eq_natAbs, Int.cast_natCast]

theorem value_neg_iff (x : Decimal) : x.value < 0 ↔ x.coefficient < 0 := by
  have unit : (0 : ℚ) < 10 ^ x.scale := by positivity
  rw [value, div_lt_iff₀ unit, zero_mul, Int.cast_lt_zero]

/-- What the sticky digit stands for: as far as any mode can see, the tenth of a unit that was kept is the real root. -/
theorem sticky_root (positive : 0 < n) {root : Nat} {isExact : Bool}
    (built : rootAt estimates x.trim.coefficient.natAbs x.trim.scale n (places + 1) = .ok (root, isExact)) :
    SameHalves ((((if x.coefficient < 0 then -(root * 10 + if isExact then 0 else 1) else root * 10 + if isExact then 0 else 1 : ℤ)) :
      ℚ) / (100 : ℤ)) (realRoot x.value n * 10 ^ places) := by
  have power : realRoot |x.value| n ^ n = (x.trim.coefficient.natAbs : ℝ) / 10 ^ x.trim.scale := by
    rw [realRoot_pow positive (abs_nonneg _), ← trim_spec.1, magnitude_value]
    push_cast
    rfl
  obtain ⟨low, high, is⟩ := rootAt_ok positive built (realRoot_nonneg (abs_nonneg _)) power
  have same := @Rounding.sticky ℚ ℝ _ _ _ _ _ _ (realRoot |x.value| n * 10 ^ (places + 1)) root isExact (by exact_mod_cast low)
    (by exact_mod_cast high) (by exact_mod_cast is)
  have shorter : realRoot |x.value| n * 10 ^ (places + 1) / 10 = realRoot |x.value| n * 10 ^ places := by
    rw [pow_succ]
    ring
  rw [shorter] at same
  by_cases negative : x.coefficient < 0
  · have below := (value_neg_iff x).mpr negative
    rw [abs_of_neg below] at same
    rw [if_pos negative, realRoot_neg below, neg_mul]
    have mirrored := same.neg
    push_cast at mirrored ⊢
    rwa [neg_div'] at mirrored
  · have above : 0 ≤ x.value := not_lt.mp (mt (value_neg_iff x).mp negative)
    rw [abs_of_nonneg above] at same
    rw [if_neg negative]
    exact_mod_cast same

structure RootFits (estimates : Estimates) (x : Decimal) (n places : Nat) : Prop where
  radicand : RadicandFits estimates x.trim.coefficient.natAbs (n * max (places + 1) (ceilDiv x.trim.scale n) - x.trim.scale) n
  digits : x.isZero = false → (places : ℤ) + estimates.log10Root x n + 1 ≤ maxDigits

inductive RootEnds (estimates : Estimates) (x : Decimal) (n places : Nat) (mode : RoundingMode) : Checked Decimal → Prop where
  | rounded {coefficient : ℤ} (rounds : Rounds mode (realRoot x.value n * 10 ^ places) coefficient) :
    RootEnds estimates x n places mode (.ok ⟨coefficient, places⟩)
  | inexact {err : MathError} (isRounding : err.IsRounding) (strict : mode = .unnecessary)
    (lost : ∀ m : ℤ, realRoot x.value n * 10 ^ places ≠ m) : RootEnds estimates x n places mode (.error err)
  | limit {err : MathError} (isLimit : err.IsLimit) (unfit : ¬ RootFits estimates x n places ∨
    ∃ coefficient : ℤ, Rounds mode (realRoot x.value n * 10 ^ places) coefficient ∧ maxDigits < digitCount coefficient) :
    RootEnds estimates x n places mode (.error err)

theorem stickyRoot_ends (positive : 0 < n) (x : Decimal) (places : Nat) (mode : RoundingMode) (what : String) :
    RootEnds estimates x n places mode (stickyRoot estimates x n places mode what) := by
  unfold stickyRoot
  dsimp only
  rcases rootAt_cases estimates positive x.trim.coefficient.natAbs x.trim.scale (places + 1) with
    ⟨⟨root, isExact⟩, built⟩ | ⟨⟨err, refused, isLimit⟩, unfit⟩
  · have same := sticky_root positive built
    rw [built]
    show RootEnds estimates x n places mode (divideRounded (if x.coefficient < 0 then -(root * 10 + if isExact then 0 else 1 : ℤ)
      else root * 10 + if isExact then 0 else 1) 100 mode >>= fun coefficient => checkedDigits ⟨coefficient, places⟩ what)
    generalize (if x.coefficient < 0 then -(root * 10 + if isExact then 0 else 1 : ℤ)
      else root * 10 + if isExact then 0 else 1) = tenfold at *
    rcases @divideRounded_spec tenfold 100 mode (by decide) with ⟨coefficient, divided, rounds⟩ | ⟨strict, rest, message, refused⟩
    · have rootRounds := rounds.transfer same
      rw [divided]
      show RootEnds estimates x n places mode (checkedDigits ⟨coefficient, places⟩ what)
      unfold checkedDigits
      by_cases long : maxDigits < digitCount coefficient
      · rw [if_pos long]
        exact .limit ⟨_, rfl⟩ (.inr ⟨coefficient, rootRounds, long⟩)
      · rw [if_neg long]
        exact .rounded rootRounds
    · rw [refused]
      refine .inexact ⟨message, rfl⟩ strict fun m whole => rest ?_
      -- a root on the grid would leave no digit to drop
      have low := (same (2 * m)).1.mpr (by rw [whole]; push_cast; exact le_rfl)
      have high := (same (2 * m)).2.mpr (by rw [whole]; push_cast; exact le_rfl)
      have exact_ : (tenfold : ℚ) = ((100 * m : ℤ) : ℚ) := by
        push_cast at low high ⊢
        linarith
      exact ⟨m, by exact_mod_cast exact_⟩
  · rw [refused]
    exact .limit isLimit (.inl fun fits => unfit fits.radicand)

theorem roundedRoot_ends (positive : 0 < n) (named : options.scale = .whole places) (within : places ≤ maxScale) :
    RootEnds estimates x n places (options.rounding.getD .halfEven) (roundedRoot estimates x n options name) := by
  have isScale : assertScale options.scale = .ok places := by
    rw [named, assertScale, if_neg (by omega)]
    have close : exceedsScaleLimit (places : ℤ) = false := decide_eq_false (by omega)
    unfold assertScaleLimit
    rw [close]
    rfl
  have ends := @stickyRoot_ends estimates n positive x places (options.rounding.getD .halfEven) (label name x)
  unfold roundedRoot
  rw [isScale]
  cases isZero_ : x.isZero with
  | true => exact ends
  | false =>
    show RootEnds estimates x n places (options.rounding.getD .halfEven) (assertResultFits (estimates.log10Root x n) places
      (label name x) >>= fun _ => stickyRoot estimates x n places (options.rounding.getD .halfEven) (label name x))
    unfold assertResultFits
    split
    · next far => exact .limit ⟨_, rfl⟩ (.inl fun fits => absurd (fits.digits isZero_) (not_le.mpr far))
    · exact ends

inductive ExactRootEnds (estimates : Estimates) (x : Decimal) (n : Nat) : Checked (Option Decimal) → Prop where
  | found {d : Decimal} (is : (d.value : ℝ) = realRoot x.value n) (scale : d.scale = ceilDiv x.scale n) :
    ExactRootEnds estimates x n (.ok (some d))
  | endless (lost : ∀ d : Decimal, (d.value : ℝ) ≠ realRoot x.value n) : ExactRootEnds estimates x n (.ok none)
  | limit {err : MathError} (isLimit : err.IsLimit)
    (unfit : ¬ RadicandFits estimates x.coefficient.natAbs (n * ceilDiv x.scale n - x.scale) n) :
    ExactRootEnds estimates x n (.error err)

theorem whole_of_power {q : ℚ} {radicand : ℕ} (positive : 0 < n) (power : (q : ℝ) ^ n = radicand) : ∃ m : ℤ, (q : ℝ) = m := by
  by_contra none_
  exact irrational_nrt_of_notint_nrt n radicand (by exact_mod_cast power) none_ positive ⟨q, rfl⟩

theorem abs_realRoot (q : ℚ) : |realRoot q n| = realRoot |q| n := by
  rcases le_or_gt 0 q with nonneg | negative
  · rw [abs_of_nonneg (realRoot_nonneg nonneg), abs_of_nonneg nonneg]
  · rw [realRoot_neg negative, abs_neg, abs_of_nonneg (realRoot_nonneg (by linarith)), abs_of_neg negative]

theorem padded_power (positive : 0 < n) (x : Decimal) : (realRoot |x.value| n * 10 ^ ceilDiv x.scale n) ^ n =
    ((x.coefficient.natAbs * 10 ^ (n * ceilDiv x.scale n - x.scale) : ℕ) : ℝ) := by
  have covered := @scale_le_ceilDiv x.scale n positive
  have split_ : (10 : ℝ) ^ (n * ceilDiv x.scale n) = 10 ^ x.scale * 10 ^ (n * ceilDiv x.scale n - x.scale) := by
    rw [← pow_add, Nat.add_sub_cancel' covered]
  have unit : (10 : ℝ) ^ x.scale ≠ 0 := by positivity
  rw [mul_pow, realRoot_pow positive (abs_nonneg _), magnitude_value, ← pow_mul, mul_comm (ceilDiv _ _), split_]
  push_cast
  field_simp

theorem exactRoot_ends (estimates : Estimates) (positive : 0 < n) (x : Decimal) :
    ExactRootEnds estimates x n (exactRoot estimates x n) := by
  have covered := @scale_le_ceilDiv x.scale n positive
  have padded : digitCount x.coefficient.natAbs + ceilDiv x.scale n * n - x.scale =
      digitCount x.coefficient.natAbs + (n * ceilDiv x.scale n - x.scale) := by
    rw [mul_comm n] at covered ⊢
    omega
  have power := padded_power positive x
  unfold exactRoot
  simp only
  rw [padded, mul_comm (ceilDiv x.scale n)]
  rcases radicand_cases estimates positive x.coefficient.natAbs (n * ceilDiv x.scale n - x.scale) with
    ⟨passed, built, r, ended⟩ | ⟨unfit, ⟨err, refused, isLimit⟩ | ⟨passed, built, err, refused, isLimit⟩⟩
  · obtain ⟨low, high⟩ := integerRoot_ok positive ended
    have cut := cut_of_powers positive (mul_nonneg (realRoot_nonneg (abs_nonneg _)) (by positivity)) power low high
    have unit : (10 : ℝ) ^ ceilDiv x.scale n ≠ 0 := by positivity
    rw [passed, built]
    generalize x.coefficient.natAbs * 10 ^ (n * ceilDiv x.scale n - x.scale) = radicand at *
    show ExactRootEnds estimates x n (integerRoot estimates (Int.natAbs ((radicand : ℕ) : ℤ)) n >>= _)
    rw [Int.natAbs_natCast, ended]
    show ExactRootEnds estimates x n (if r ^ n ≠ radicand then .ok none else .ok (some _))
    by_cases whole : r ^ n = radicand
    · rw [if_neg (not_not.mpr whole), Nat.mul_div_cancel_left _ positive]
      have isRoot : realRoot |x.value| n = r / 10 ^ ceilDiv x.scale n := by
        rw [eq_div_iff unit]
        exact cut.is.mp (decide_eq_true whole)
      refine .found ?_ rfl
      by_cases negative : x.coefficient < 0
      · have below := (value_neg_iff x).mpr negative
        rw [abs_of_neg below] at isRoot
        rw [if_pos negative, realRoot_neg below, isRoot, value]
        push_cast
        ring
      · have above : 0 ≤ x.value := not_lt.mp (mt (value_neg_iff x).mp negative)
        rw [abs_of_nonneg above] at isRoot
        rw [if_neg negative, isRoot, value]
        push_cast
        rfl
    · rw [if_pos whole]
      refine .endless fun d is => whole ?_
      -- a decimal root, scaled, is a whole number between `r` and `r + 1`
      have scaled : ((|d.value| * 10 ^ ceilDiv x.scale n : ℚ) : ℝ) = realRoot |x.value| n * 10 ^ ceilDiv x.scale n := by
        rw [← abs_realRoot, ← is]
        push_cast
        rfl
      rw [← scaled] at power cut
      obtain ⟨m, isWhole⟩ := whole_of_power positive power
      rw [isWhole] at cut power
      have lower_ : (r : ℤ) ≤ m := by exact_mod_cast cut.low
      have upper : m < r + 1 := by exact_mod_cast cut.high
      have same : m = r := by omega
      rw [same] at power
      exact_mod_cast power
  · rw [refused]
    exact .limit isLimit unfit
  · rw [passed, built]
    show ExactRootEnds estimates x n (integerRoot estimates (Int.natAbs ((_ : ℕ) : ℤ)) n >>= _)
    rw [Int.natAbs_natCast, refused]
    exact .limit isLimit unfit

theorem rootOf_read {input : DecimalInput} (read : from_ input = .ok x) (safe : isSafeInteger n = true) (positive : 0 < n)
    (real : 0 ≤ x.value ∨ Odd n) (options : Option ScaleOptions) (name : String) :
    rootOf estimates input (.whole n) options name = match options with
      | none => do
        match ← exactRoot estimates x n with
        | some root => return root
        | none =>
          throw (.roundingNecessary (name ++ "(" ++ x.toString ++ ") has infinitely many digits; pass { scale } to round it"))
      | some options => roundedRoot estimates x n options name := by
  have isReal : ¬ (x.coefficient < 0 ∧ (n : ℤ).toNat % 2 = 0) := by
    rintro ⟨negative, even⟩
    rcases real with nonneg | odd
    · exact absurd ((value_neg_iff x).mpr negative) (not_lt.mpr nonneg)
    · rw [Nat.odd_iff] at odd
      omega
  unfold rootOf
  simp only [safe, Bool.not_true, Bool.false_or, decide_eq_true_eq]
  rw [if_neg (by omega), read]
  show (if x.coefficient < 0 ∧ (n : ℤ).toNat % 2 = 0 then _ else _) = _
  rw [if_neg isReal, Int.toNat_natCast]

/-- Roots are exact, whatever the floats say. The integer root is the floor of the real one, or the power of a value near it would
have too many bits. A root at a scale is the number that the mode assigns to the real root; the root without a scale is the
decimal that it is. They are refused only when no such number may be given: by the mode that allows no loss, for a root with
infinitely many digits, or past a limit. -/
theorem roots_exact (estimates : Estimates) :
    (∀ value k : ℕ, 0 < k → (∃ r, integerRoot estimates value k = .ok r ∧ r ^ k ≤ value ∧ value < (r + 1) ^ k) ∨
      (∃ message, integerRoot estimates value k = .error (.resourceLimit message)) ∧ 2 ≤ value ∧ 1 < k ∧ k < bitLength value ∧
        maxIntegerBits < k * (estimates.rootLog2 value k + 2)) ∧
    ∀ (input : DecimalInput) (x : Decimal) (n : ℕ) (name : String), from_ input = .ok x → isSafeInteger n = true → 0 < n →
      (0 ≤ x.value ∨ Odd n) →
      (realRoot x.value n ^ n = x.value ∧ (0 ≤ x.value → 0 ≤ realRoot x.value n)) ∧
      (∀ (rounding : Option RoundingMode) (places : ℕ), places ≤ maxScale →
        RootEnds estimates x n places (rounding.getD .halfEven)
          (rootOf estimates input (.whole n) (some ⟨.whole places, rounding⟩) name)) ∧
      ((∃ d, rootOf estimates input (.whole n) none name = .ok d ∧ (d.value : ℝ) = realRoot x.value n ∧
          d.scale = ceilDiv x.scale n) ∨
        (∃ err, rootOf estimates input (.whole n) none name = .error err ∧ err.IsRounding ∧
          ∀ d : Decimal, (d.value : ℝ) ≠ realRoot x.value n) ∨
        ∃ err, rootOf estimates input (.whole n) none name = .error err ∧ err.IsLimit ∧
          ¬ RadicandFits estimates x.coefficient.natAbs (n * ceilDiv x.scale n - x.scale) n) := by
  refine ⟨fun value k positive => integerRoot_spec estimates value positive, ?_⟩
  intro input x n name read safe positive real
  refine ⟨⟨?_, realRoot_nonneg⟩, fun rounding places within => ?_, ?_⟩
  · rcases real with nonneg | odd
    · exact realRoot_pow positive nonneg
    · exact realRoot_odd odd
  · rw [rootOf_read read safe positive real]
    exact roundedRoot_ends positive (show ScaleOptions.scale ⟨.whole (places : ℤ), rounding⟩ = .whole places from rfl) within
  · rw [rootOf_read read safe positive real]
    dsimp only
    have ends := exactRoot_ends estimates positive x
    generalize exactRoot estimates x n = outcome at ends
    cases ends with
    | found is scale => exact .inl ⟨_, rfl, is, scale⟩
    | endless lost => exact .inr (.inl ⟨_, rfl, ⟨_, rfl⟩, lost⟩)
    | limit isLimit unfit => exact .inr (.inr ⟨_, rfl, isLimit, unfit⟩)

/-- The square root of two, cut after three digits. -/
theorem roots_exact_sqrt_two : Rounds .floor (realRoot (Decimal.value ⟨2, 0⟩) 2 * 10 ^ 3) 1414 := by
  obtain ⟨-, ends, -⟩ := (roots_exact ⟨fun _ _ => 13, fun _ _ => 14143, fun _ _ => 0⟩).2 (.bigint 2) ⟨2, 0⟩ 2 "sqrt" (by decide +kernel)
    (by decide) (by decide) (.inl (by norm_num [Decimal.value]))
  have ended := ends (some .floor) 3 (by decide)
  rw [show rootOf ⟨fun _ _ => 13, fun _ _ => 14143, fun _ _ => 0⟩ (.bigint 2) (.whole (2 : ℕ)) (some ⟨.whole (3 : ℕ), some .floor⟩) "sqrt" =
    .ok ⟨1414, 3⟩ by decide +kernel] at ended
  cases ended with
  | rounded rounds => exact rounds

/-- A root of so high a degree that its radicand passes the limit. -/
theorem root_refused : nthRoot ⟨fun _ _ => 0, fun _ _ => 1, fun _ _ => 0⟩ (.bigint 2) (.whole 20000) (some ⟨.whole 0, none⟩) =
    .error (.resourceLimit "The root needs a 20001-digit intermediate; the limit is 18000") := by
  decide +kernel

end Decimal

end Arki.Math
