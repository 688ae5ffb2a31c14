import Arki.Library.Rounding

/-! Whole numbers under the limits of the package: sizes are checked before a number is built, and one function rounds. -/

set_option autoImplicit false

namespace Arki.Math

open Arki.Rounding (Mode)

inductive MathError where
  | numberFormat (message : String)
  | invalidArgument (message : String)
  | numericRange (message : String)
  | divisionByZero (message : String)
  | roundingNecessary (message : String)
  | resourceLimit (message : String)
  deriving DecidableEq

abbrev Checked := Except MathError

abbrev RoundingMode := Mode

/-! Limits. -/

def maxDigits : Nat := 10000

def maxScale : Nat := 10000

def maxIntegerDigits : Nat := 18000

def maxIntegerBits : Nat := 60000

def assertIntermediateDigits (digits : Nat) (what : String) : Checked Unit :=
  if maxIntegerDigits < digits then
    .error (.resourceLimit (what ++ " needs a " ++ toString digits ++ "-digit intermediate; the limit is " ++
      toString maxIntegerDigits))
  else .ok ()

def exceedsDigitLimit (digitCount : Nat) : Bool := maxDigits < digitCount

def exceedsScaleLimit (scale : Int) : Bool := maxScale < scale.natAbs

def assertDigitLimit (digitCount : Nat) (what : String) : Checked Unit :=
  if exceedsDigitLimit digitCount then
    .error (.resourceLimit (what ++ " has " ++ toString digitCount ++ " digits; the limit is " ++ toString maxDigits))
  else .ok ()

def assertScaleLimit (scale : Int) (what : String) : Checked Unit :=
  if exceedsScaleLimit scale then
    .error (.resourceLimit (what ++ " " ++ toString scale ++ " is outside the supported range ±" ++ toString maxScale))
  else .ok ()

/-! Digits and powers. -/

/-- Number of decimal digits in `|n|`; zero has one digit. -/
def digitCount (n : Int) : Nat := (Nat.toDigits 10 n.natAbs).length

/-- `n.toString(2).length` -/
def bitLength (n : Nat) : Nat := (Nat.toDigits 2 n).length

def isSmall (n : Int) : Bool := n.natAbs < 2 ^ 14000

def multiplyChecked (a b : Int) (what : String) : Checked Int := do
  if !isSmall a || !isSmall b then assertIntermediateDigits (digitCount a + digitCount b) what
  return a * b

def timesPow10 (value : Int) (exponent : Nat) (what : String) : Checked Int := do
  if 8000 < exponent || !isSmall value then assertIntermediateDigits (digitCount value + exponent) what
  return value * 10 ^ exponent

def gcdLoop : Nat → Nat → Nat → Nat
  | 0, a, _ => a
  | fuel + 1, a, b => if b = 0 then a else gcdLoop fuel b (a % b)

def gcd (a b : Int) : Nat := gcdLoop (b.natAbs + 1) a.natAbs b.natAbs

/-- The loop of `stripFactor`, with the factors found so far. -/
def stripLoop (factor : Nat) : Nat → Nat → Nat → Nat × Nat
  | 0, n, count => (n, count)
  | fuel + 1, n, count => if n ≠ 0 ∧ n % factor = 0 then stripLoop factor fuel (n / factor) (count + 1) else (n, count)

def stripFactor (n factor : Nat) : Nat × Nat := stripLoop factor n n 0

/-! Rounding. -/

def sign (n : Int) : Int := if n < 0 then -1 else if 0 < n then 1 else 0

/-- `numerator / denominator` as an integer, rounded with `mode`. -/
def divideRounded (numerator denominator : Int) (mode : RoundingMode) : Checked Int :=
  if denominator = 0 then .error (.divisionByZero "Division by zero")
  else
    let resultSign := sign numerator * sign denominator
    let n := numerator.natAbs
    let d := denominator.natAbs
    let quotient := n / d
    let remainder := n % d
    if remainder = 0 then .ok (if resultSign < 0 then -(quotient : Int) else quotient)
    else
      -- -1 below half, 0 exactly half, 1 above half
      let half := sign ((remainder : Int) * 2 - d)
      let round (roundUp : Bool) : Checked Int :=
        let magnitude : Int := if roundUp then quotient + 1 else quotient
        .ok (if resultSign < 0 then -magnitude else magnitude)
      match mode with
      | .unnecessary =>
        .error (.roundingNecessary
          "The exact result has more digits than requested; pass a rounding mode such as \"halfEven\"")
      | .down => round false
      | .up => round true
      | .ceiling => round (0 < resultSign)
      | .floor => round (resultSign < 0)
      | .halfUp => round (0 ≤ half)
      | .halfDown => round (0 < half)
      | .halfEven => round (0 < half || half = 0 && quotient % 2 = 1)

theorem digitCount_le {n : Int} {k : Nat} (positive : 0 < k) : digitCount n ≤ k ↔ n.natAbs < 10 ^ k :=
  Nat.length_toDigits_le_iff (by decide) positive

theorem bitLength_bounds {n : Nat} (positive : 0 < n) : 2 ^ (bitLength n - 1) ≤ n ∧ n < 2 ^ bitLength n ∧ 0 < bitLength n := by
  have some_ : 0 < bitLength n := Nat.length_toDigits_pos
  refine ⟨?_, (Nat.length_toDigits_le_iff (by decide) some_).mp le_rfl, some_⟩
  by_cases one : bitLength n = 1
  · rw [one]
    exact positive
  · by_contra! less
    have shorter := (Nat.length_toDigits_le_iff (b := 2) (by decide) (show 0 < bitLength n - 1 by omega)).mpr less
    unfold bitLength at *
    omega

theorem multiplyChecked_ok {a b product : Int} {what : String} (built : multiplyChecked a b what = .ok product) :
    product = a * b := by
  unfold multiplyChecked at built
  simp only [bind_pure_comp] at built
  split at built
  · cases check : assertIntermediateDigits (digitCount a + digitCount b) what with
    | error _ =>
      rw [check] at built
      cases built
    | ok _ =>
      rw [check] at built
      cases built
      rfl
  · cases built
    rfl

theorem timesPow10_ok {value scaled : Int} {exponent : Nat} {what : String} (built : timesPow10 value exponent what = .ok scaled) :
    scaled = value * 10 ^ exponent := by
  unfold timesPow10 at built
  simp only [bind_pure_comp] at built
  split at built
  · cases check : assertIntermediateDigits (digitCount value + exponent) what with
    | error _ =>
      rw [check] at built
      cases built
    | ok _ =>
      rw [check] at built
      cases built
      rfl
  · cases built
    rfl

theorem gcdLoop_eq (fuel : Nat) : ∀ {a b : Nat}, b < fuel → gcdLoop fuel a b = Nat.gcd a b := by
  induction fuel with
  | zero => exact fun less => absurd less (Nat.not_lt_zero _)
  | succ fuel ih =>
    intro a b less
    unfold gcdLoop
    split
    · next zero_ => rw [zero_, Nat.gcd_zero_right]
    · next some_ =>
      have smaller : a % b < b := Nat.mod_lt _ (Nat.pos_of_ne_zero some_)
      rw [ih (by omega), Nat.gcd_comm b, ← Nat.gcd_rec, Nat.gcd_comm]

theorem gcd_eq (a b : Int) : gcd a b = Int.gcd a b := gcdLoop_eq _ (Nat.lt_succ_self _)

theorem stripLoop_spec {factor : Nat} (isFactor : 1 < factor) (fuel : Nat) : ∀ {n count : Nat}, n ≤ fuel → 0 < n →
    ∃ more, (stripLoop factor fuel n count).2 = count + more ∧ n = (stripLoop factor fuel n count).1 * factor ^ more ∧
      ¬ factor ∣ (stripLoop factor fuel n count).1 := by
  induction fuel with
  | zero => exact fun within positive => absurd positive (by omega)
  | succ fuel ih =>
    intro n count within positive
    unfold stripLoop
    split
    · next divides =>
      have isMultiple := Nat.dvd_of_mod_eq_zero divides.2
      have less : n / factor < n := Nat.div_lt_self positive isFactor
      obtain ⟨more, counted, split_, rest⟩ := @ih (n / factor) (count + 1) (by omega)
        (Nat.div_pos (Nat.le_of_dvd positive isMultiple) (by omega))
      refine ⟨more + 1, by rw [counted]; omega, ?_, rest⟩
      calc n = n / factor * factor := (Nat.div_mul_cancel isMultiple).symm
        _ = (stripLoop factor fuel (n / factor) (count + 1)).1 * factor ^ more * factor := by rw [← split_]
        _ = (stripLoop factor fuel (n / factor) (count + 1)).1 * factor ^ (more + 1) := by rw [pow_succ, mul_assoc]
    · next prime =>
      refine ⟨0, rfl, by simp, fun divides => prime ⟨by omega, Nat.mod_eq_zero_of_dvd divides⟩⟩

theorem stripFactor_spec {n factor : Nat} (isFactor : 1 < factor) (positive : 0 < n) :
    n = (stripFactor n factor).1 * factor ^ (stripFactor n factor).2 ∧ ¬ factor ∣ (stripFactor n factor).1 := by
  obtain ⟨more, counted, split_, rest⟩ := @stripLoop_spec factor isFactor n n 0 le_rfl positive
  unfold stripFactor
  rw [Nat.zero_add] at counted
  rw [counted]
  exact ⟨split_, rest⟩

theorem quotient_eq (a : Int) {b : Int} (isDivisor : b ≠ 0) :
    (a : ℚ) / b = if sign a * sign b < 0 then -((a.natAbs : ℚ) / b.natAbs) else (a.natAbs : ℚ) / b.natAbs := by
  have cast (n : Int) : (n : ℚ) = if n < 0 then -(n.natAbs : ℚ) else n.natAbs := by
    split
    · next negative =>
      have is : n = -(n.natAbs : Int) := by omega
      nth_rewrite 1 [is]
      rw [Int.cast_neg, Int.cast_natCast]
    · next positive =>
      have is : n = (n.natAbs : Int) := by omega
      nth_rewrite 1 [is]
      rfl
  rw [cast a, cast b]
  unfold sign
  rcases lt_trichotomy a 0 with negA | rfl | posA
  · rcases lt_or_gt_of_ne isDivisor with negB | posB
    · simp [negA, negB, neg_div_neg_eq]
    · simp [negA, posB, not_lt.mpr posB.le, neg_div]
  · simp
  · rcases lt_or_gt_of_ne isDivisor with negB | posB
    · simp [posA, negB, not_lt.mpr posA.le, div_neg]
    · simp [posA, posB, not_lt.mpr posA.le, not_lt.mpr posB.le]

theorem sign_pos {n : Int} : 0 < sign n ↔ 0 < n := by
  unfold sign
  split
  · next negative => omega
  · split
    · next positive => omega
    · next zero_ => omega

theorem sign_nonneg {n : Int} : 0 ≤ sign n ↔ 0 ≤ n := by
  unfold sign
  split
  · next negative => omega
  · split
    · next positive => omega
    · next zero_ => omega

theorem natAbs_quotient (n : Nat) {d : Nat} (positive : 0 < d) : (n : ℚ) / d = (n / d : ℕ) + ((n % d : ℕ) : ℚ) / d := by
  have isDivisor : (d : ℚ) ≠ 0 := by exact_mod_cast positive.ne'
  rw [div_eq_iff isDivisor, add_mul, div_mul_cancel₀ _ isDivisor]
  exact_mod_cast (Nat.div_add_mod' n d).symm

theorem sign_mul_pos {a b : Int} (apart : a ≠ 0) (isDivisor : b ≠ 0) : sign a * sign b = 1 ∨ sign a * sign b = -1 := by
  have one (n : Int) (some_ : n ≠ 0) : sign n = 1 ∨ sign n = -1 := by
    unfold sign
    split
    · exact .inr rfl
    · split
      · exact .inl rfl
      · omega
  rcases one a apart with left | left
  · rcases one b isDivisor with right | right
    · exact .inl (by rw [left, right]; rfl)
    · exact .inr (by rw [left, right]; rfl)
  · rcases one b isDivisor with right | right
    · exact .inr (by rw [left, right]; rfl)
    · exact .inl (by rw [left, right]; rfl)

theorem even_up (half : Int) (odd : Bool) :
    (decide (0 < half) || decide (half = 0) && odd) = (decide (0 < half) || decide (0 ≤ half) && odd) := by
  rcases lt_trichotomy half 0 with below | rfl | more
  · simp [not_lt.mpr below.le, below.ne, not_le.mpr below]
  · simp
  · simp [more]

theorem divideRounded_rest {a b : Int} {mode : RoundingMode} (isDivisor : b ≠ 0) (rest : a.natAbs % b.natAbs ≠ 0)
    (isRounding : mode ≠ .unnecessary) : divideRounded a b mode = .ok
      (if sign a * sign b < 0 then
        -(if Rounding.roundsUp mode true (decide (0 ≤ sign ((a.natAbs % b.natAbs : ℕ) * 2 - b.natAbs : ℤ)))
          (decide (0 < sign ((a.natAbs % b.natAbs : ℕ) * 2 - b.natAbs : ℤ))) (decide (a.natAbs / b.natAbs % 2 = 1)) then
          ((a.natAbs / b.natAbs : ℕ) : ℤ) + 1 else ((a.natAbs / b.natAbs : ℕ) : ℤ))
      else if Rounding.roundsUp mode false (decide (0 ≤ sign ((a.natAbs % b.natAbs : ℕ) * 2 - b.natAbs : ℤ)))
          (decide (0 < sign ((a.natAbs % b.natAbs : ℕ) * 2 - b.natAbs : ℤ))) (decide (a.natAbs / b.natAbs % 2 = 1)) then
          ((a.natAbs / b.natAbs : ℕ) : ℤ) + 1 else ((a.natAbs / b.natAbs : ℕ) : ℤ)) := by
  have apart : a ≠ 0 := by
    rintro rfl
    exact rest (Nat.zero_mod _)
  unfold divideRounded
  rw [if_neg isDivisor]
  simp only [if_neg rest]
  rcases sign_mul_pos apart isDivisor with isPos | isNeg
  · rw [isPos]
    cases mode with
    | unnecessary => exact absurd rfl isRounding
    | halfEven =>
      simp only [even_up, Rounding.roundsUp]
      rfl
    | _ => simp [Rounding.roundsUp]
  · rw [isNeg]
    cases mode with
    | unnecessary => exact absurd rfl isRounding
    | halfEven =>
      simp only [even_up, Rounding.roundsUp]
      rfl
    | _ => simp [Rounding.roundsUp]

theorem half_iff {r d : Nat} (positive : 0 < d) :
    ((0 : ℤ) ≤ (r : ℤ) * 2 - d ↔ (1 : ℚ) / 2 ≤ (r : ℚ) / d) ∧ ((0 : ℤ) < (r : ℤ) * 2 - d ↔ (1 : ℚ) / 2 < (r : ℚ) / d) := by
  have cast : (0 : ℚ) < d := by exact_mod_cast positive
  constructor
  · rw [div_le_div_iff₀ (by norm_num) cast, sub_nonneg, one_mul]
    exact_mod_cast Iff.rfl
  · rw [div_lt_div_iff₀ (by norm_num) cast, sub_pos, one_mul]
    exact_mod_cast Iff.rfl

/-- The one place rounding happens: the integer that the mode assigns to the quotient, or a refusal to lose digits. -/
theorem divideRounded_spec {a b : Int} {mode : RoundingMode} (isDivisor : b ≠ 0) :
    (∃ n, divideRounded a b mode = .ok n ∧ Rounding.Rounds mode ((a : ℚ) / b) n) ∨
      mode = .unnecessary ∧ ¬ b ∣ a ∧ ∃ message, divideRounded a b mode = .error (.roundingNecessary message) := by
  have positive : 0 < b.natAbs := Int.natAbs_pos.mpr isDivisor
  by_cases rest : a.natAbs % b.natAbs = 0
  · -- an exact quotient
    left
    refine ⟨if sign a * sign b < 0 then -((a.natAbs / b.natAbs : ℕ) : ℤ) else ((a.natAbs / b.natAbs : ℕ) : ℤ), ?_, ?_⟩
    · unfold divideRounded
      rw [if_neg isDivisor]
      simp only [if_pos rest]
    · have exact_ : (a : ℚ) / b =
          ((if sign a * sign b < 0 then -((a.natAbs / b.natAbs : ℕ) : ℤ) else ((a.natAbs / b.natAbs : ℕ) : ℤ) : ℤ) : ℚ) := by
        rw [quotient_eq a isDivisor, natAbs_quotient _ positive, rest, Nat.cast_zero, zero_div, add_zero]
        split
        · rw [Int.cast_neg, Int.cast_natCast]
        · rw [Int.cast_natCast]
      rw [exact_]
      exact Rounding.rounds_int mode _
  by_cases isRounding : mode = .unnecessary
  · right
    subst isRounding
    refine ⟨rfl, fun divides => rest (Nat.mod_eq_zero_of_dvd (Int.natAbs_dvd_natAbs.mpr divides)), ?_⟩
    unfold divideRounded
    rw [if_neg isDivisor]
    simp only [if_neg rest]
    exact ⟨_, rfl⟩
  · left
    refine ⟨_, divideRounded_rest isDivisor rest isRounding, ?_⟩
    have cast : (0 : ℚ) < b.natAbs := by exact_mod_cast positive
    have some_ : (0 : ℚ) < ((a.natAbs % b.natAbs : ℕ) : ℚ) / b.natAbs := by
      apply div_pos _ cast
      exact_mod_cast Nat.pos_of_ne_zero rest
    have below : ((a.natAbs % b.natAbs : ℕ) : ℚ) / b.natAbs < 1 := by
      rw [div_lt_one cast]
      exact_mod_cast Nat.mod_lt _ positive
    obtain ⟨half, above⟩ := @half_iff (a.natAbs % b.natAbs) b.natAbs positive
    have isHalf : decide (0 ≤ sign ((a.natAbs % b.natAbs : ℕ) * 2 - b.natAbs : ℤ)) = true ↔
        (1 : ℚ) / 2 ≤ ((a.natAbs % b.natAbs : ℕ) : ℚ) / b.natAbs := by
      rw [decide_eq_true_eq, sign_nonneg]
      exact half
    have isAbove : decide (0 < sign ((a.natAbs % b.natAbs : ℕ) * 2 - b.natAbs : ℤ)) = true ↔
        (1 : ℚ) / 2 < ((a.natAbs % b.natAbs : ℕ) : ℚ) / b.natAbs := by
      rw [decide_eq_true_eq, sign_pos]
      exact above
    rw [quotient_eq a isDivisor, natAbs_quotient _ positive]
    split
    · exact Rounding.rounds_whole_neg mode isRounding some_ below isHalf isAbove
    · exact Rounding.rounds_whole mode isRounding some_ below isHalf isAbove

end Arki.Math
