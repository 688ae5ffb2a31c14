import Arki.Library.Compounding
import Arki.Math.DecimalRefuses
import Arki.Math.Finance
import Arki.Math.RationalReached

/-! The time-value functions compute the recurrence they stand for: exactly, or rounded once, or a limit refuses. -/

set_option autoImplicit false

namespace Arki.Math

open Outcome (bind_ok bind_error)
open Decimal (ScaleOptions from_ Rounded Multiple IsScale one)

structure Exactly (x : Checked Decimal) (exact : ℚ) : Prop where
  value : ∀ d, x = .ok d → d.value = exact
  refuses : Only MathError.IsLimit x

/-- The computation is the mode's rounding of this value to the scale, or it is refused as an operation that rounds. -/
structure RoundedOnce (x : Checked Decimal) (mode : RoundingMode) (scale : JsNumber) (exact : ℚ) : Prop where
  value : ∀ d, x = .ok d → scale = .whole d.scale ∧ Rounded mode exact (10 ^ d.scale)⁻¹ d.value
  refuses : Only (Refusal (∃ places, IsScale scale places)
    (∃ places, IsScale scale places ∧ mode = .unnecessary ∧ ¬ Multiple exact (10 ^ places)⁻¹)) x

variable {x : Checked Decimal} {rest : Decimal → Checked Decimal} {a b exact : ℚ} {mode : RoundingMode} {scale : JsNumber}
  {this that r p level : Decimal} {other rate principal : DecimalInput} {n : Nat}

theorem Exactly.ok (same : this.value = exact) : Exactly (.ok this) exact :=
  ⟨fun d built => by rw [← Except.ok.inj built, same], .ok _⟩

theorem Exactly.step (built : x = .ok this) (after : Exactly (rest this) b) : Exactly (x >>= rest) b := by
  rw [built]
  exact after

theorem RoundedOnce.step (built : x = .ok this) (after : RoundedOnce (rest this) mode scale b) : RoundedOnce (x >>= rest) mode scale b := by
  rw [built]
  exact after

theorem Exactly.bind (first : Exactly x a) (after : ∀ d, d.value = a → Exactly (rest d) b) : Exactly (x >>= rest) b :=
  ⟨fun d built => by
    obtain ⟨found, isFound, built⟩ := bind_ok.mp built
    exact (after found (first.value found isFound)).value d built,
  .bind first.refuses fun found isFound => (after found (first.value found isFound)).refuses⟩

theorem Exactly.round (first : Exactly x a) (after : ∀ d, d.value = a → RoundedOnce (rest d) mode scale b) :
    RoundedOnce (x >>= rest) mode scale b :=
  ⟨fun d built => by
    obtain ⟨found, isFound, built⟩ := bind_ok.mp built
    exact (after found (first.value found isFound)).value d built,
  .bind (first.refuses.mono fun _ isLimit => isLimit.refusal) fun found isFound => (after found (first.value found isFound)).refuses⟩

theorem exactly_plus (this : Decimal) (isRead : from_ other = .ok that) : Exactly (this.plus other) (this.value + that.value) := by
  refine ⟨fun d built => ?_, ?_⟩
  · obtain ⟨found, isFound, sum, -⟩ := Decimal.plus_spec built
    rw [isRead] at isFound
    rw [sum, Except.ok.inj isFound]
  · unfold Decimal.plus
    rw [isRead]
    exact .bind (.ok that) fun _ _ => .bind (Decimal.align_only _ _) fun ⟨_, _, _⟩ _ =>
      .bind (Decimal.assertResultDigits_only _ _) fun _ _ => .ok _

theorem exactly_minus (this : Decimal) (isRead : from_ other = .ok that) : Exactly (this.minus other) (this.value - that.value) := by
  refine ⟨fun d built => ?_, ?_⟩
  · obtain ⟨found, isFound, difference, -⟩ := Decimal.minus_spec built
    rw [isRead] at isFound
    rw [difference, Except.ok.inj isFound]
  · unfold Decimal.minus
    rw [isRead]
    exact .bind (.ok that) fun _ _ => .bind (Decimal.align_only _ _) fun ⟨_, _, _⟩ _ =>
      .bind (Decimal.assertResultDigits_only _ _) fun _ _ => .ok _

theorem exactly_times (this : Decimal) (isRead : from_ other = .ok that) : Exactly (this.times other) (this.value * that.value) := by
  refine ⟨fun d built => ?_, ?_⟩
  · obtain ⟨found, isFound, product, -⟩ := Decimal.times_spec built
    rw [isRead] at isFound
    rw [product, Except.ok.inj isFound]
  · rw [Decimal.times_read, isRead]
    exact Decimal.timesRead_only that

theorem exactly_pow (safe : isSafeInteger n = true) : Exactly (this.pow (.whole n)) (this.value ^ n) := by
  refine ⟨fun d built => ?_, fun err refused => ?_⟩
  · obtain ⟨k, named, -, power, -⟩ := Decimal.pow_spec built
    injection named with same
    rw [power, ← same, zpow_natCast]
  · rcases Decimal.pow_refuses _ err refused with ⟨-, k, ⟨named, -⟩, negative, -⟩ | ⟨-, limit⟩
    · injection named with same
      omega
    · exact limit ⟨n, ⟨rfl, safe⟩, fun negative => absurd negative (by omega)⟩

theorem exactly_dividedBy (places : Nat) (some_ : that.value ≠ 0) (multiple : Multiple (this.value / that.value) (10 ^ places)⁻¹) :
    Exactly (this.dividedBy (.decimal that) none) (this.value / that.value) := by
  refine ⟨fun d built => ?_, fun err refused => ?_⟩
  · obtain ⟨found, isFound, -, quotient, -⟩ := Decimal.dividedBy_exact built
    rw [quotient, ← Except.ok.inj isFound]
  · rcases Decimal.dividedBy_refuses_none _ err refused with ⟨-, found, isFound, -, never⟩ | ⟨-, limit⟩
    · rw [← Except.ok.inj isFound] at never
      exact absurd multiple (never places)
    · exact limit ⟨that, rfl, some_⟩

theorem rounded_dividedBy (isRead : from_ other = .ok that) (some_ : that.value ≠ 0) :
    RoundedOnce (this.dividedBy other (some ⟨scale, some mode⟩)) mode scale (this.value / that.value) := by
  refine ⟨fun d built => ?_, fun err refused => (Decimal.dividedBy_refuses _ _ err refused).mono ?_ ?_⟩
  · obtain ⟨found, isFound, -, named, -, rounded⟩ := Decimal.dividedBy_spec built
    rw [isRead] at isFound
    rw [← Except.ok.inj isFound] at rounded
    exact ⟨named, rounded⟩
  · exact fun ⟨places, isScale⟩ => ⟨that, places, isRead, some_, isScale⟩
  · rintro ⟨found, places, isFound, -, isScale, isExact, rest⟩
    rw [isRead] at isFound
    rw [← Except.ok.inj isFound] at rest
    exact ⟨places, isScale, isExact, rest⟩

theorem rounded_toScale : RoundedOnce (this.toScale scale mode) mode scale this.value :=
  ⟨fun _ built => ⟨(Decimal.toScale_spec built).1, (Decimal.toScale_spec built).2.2.1⟩, Decimal.toScale_refuses scale mode⟩

theorem whole_read {number : Int} (safe : isSafeInteger number = true) : from_ (.number (.whole number)) = .ok ⟨number, 0⟩ := by
  have within : number.natAbs ≤ 2 ^ 53 - 1 := of_decide_eq_true safe
  have short : number.natAbs < 10 ^ maxDigits := by
    have far : 2 ^ 53 ≤ 10 ^ maxDigits := by
      calc 2 ^ 53 ≤ 10 ^ 16 := by norm_num
        _ ≤ 10 ^ maxDigits := Nat.pow_le_pow_right (by decide) (by decide)
    omega
  simp only [from_, partsFromNumber, if_pos safe, Rational.decimalParts_whole short]

theorem whole_value (number : Int) : Decimal.value ⟨number, 0⟩ = number := by
  rw [Decimal.value, pow_zero, div_one]

structure ExactlyRatio (x : Checked Rational) (exact : ℚ) : Prop where
  value : ∀ q, x = .ok q → q.Reduced ∧ q.value = exact
  refuses : Only MathError.IsLimit x

/-- The computation has this value, or asks for rounding because no finite decimal is equal, or a limit refuses it. -/
structure ExactOrAsks (x : Checked Decimal) (exact : ℚ) : Prop where
  value : ∀ d, x = .ok d → d.value = exact
  refuses : Only (Refusal True (∀ places : Nat, ¬ Multiple exact (10 ^ places)⁻¹)) x

theorem ExactlyRatio.step {x : Checked Rational} {rest : Rational → Checked Rational} {q : Rational} (built : x = .ok q)
    (after : ExactlyRatio (rest q) b) : ExactlyRatio (x >>= rest) b := by
  rw [built]
  exact after

theorem ExactlyRatio.bind {x : Checked Rational} {rest : Rational → Checked Rational} (first : ExactlyRatio x a)
    (after : ∀ q : Rational, q.Reduced → q.value = a → ExactlyRatio (rest q) b) : ExactlyRatio (x >>= rest) b :=
  ⟨fun q built => by
    obtain ⟨found, isFound, built⟩ := bind_ok.mp built
    have is := first.value found isFound
    exact (after found is.1 is.2).value q built,
  .bind first.refuses fun found isFound => (after found (first.value found isFound).1 (first.value found isFound).2).refuses⟩

theorem whole_ratio {number : Int} (safe : isSafeInteger number = true) :
    ∃ q, Rational.from_ (.other (.number (.whole number))) = .ok q ∧ q.Reduced ∧ q.value = number := by
  obtain ⟨q, built⟩ := @Rational.fromParts_some number (10 ^ 0) (by norm_num)
  obtain ⟨-, reduced, is⟩ := Rational.fromParts_ok built
  refine ⟨q, ?_, reduced, by rw [is]; norm_num⟩
  simp only [Rational.from_, whole_read safe]
  exact built

theorem exactly_plusRead {q s : Rational} (left : q.Reduced) (right : s.Reduced) :
    ExactlyRatio (q.plusRead s) (q.value + s.value) := by
  refine ⟨fun sum built => Rational.plusRead_ok left right built, ?_⟩
  unfold Rational.plusRead
  have product (a b : Int) : Only MathError.IsLimit (multiplyChecked a b "The numerator") := multiplyChecked_only a b _
  have lower (a b : Int) : Only MathError.IsLimit (multiplyChecked a b "The denominator") := multiplyChecked_only a b _
  dsimp only
  split
  · exact .bind (product _ _) fun _ _ => .bind (product _ _) fun _ _ => .bind (Decimal.assertResultDigits_only _ _) fun _ _ =>
      .bind (lower _ _) fun _ _ => .bind (Decimal.assertResultDigits_only _ _) fun _ _ => .ok _
  · refine .bind (product _ _) fun _ _ => .bind (product _ _) fun _ _ => ?_
    split
    · exact .ok _
    · exact .bind (Decimal.assertResultDigits_only _ _) fun _ _ => .bind (lower _ _) fun _ _ =>
        .bind (Decimal.assertResultDigits_only _ _) fun _ _ => .ok _

theorem exactly_dividedByRead {q s : Rational} (left : q.Reduced) (right : s.Reduced) (some_ : s.value ≠ 0) :
    ExactlyRatio (q.dividedByRead s) (q.value / s.value) := by
  refine ⟨fun quotient built => (Rational.dividedByRead_ok left right built).2, ?_⟩
  have nonzero : ¬ s.isZero = true := by
    rw [Rational.isZero, decide_eq_true_eq]
    exact fun zero_ => some_ ((Rational.value_eq_zero right).mpr zero_)
  unfold Rational.dividedByRead
  rw [if_neg nonzero]
  split
  · exact .ok _
  · exact .bind (multiplyChecked_only _ _ _) fun _ _ => .bind (multiplyChecked_only _ _ _) fun _ _ =>
      .bind (Decimal.assertResultDigits_only _ _) fun _ _ => .bind (Decimal.assertResultDigits_only _ _) fun _ _ => .ok _

theorem exactly_powRatio {q : Rational} (reduced : q.Reduced) (safe : isSafeInteger n = true) (some_ : 0 < n) :
    ExactlyRatio (q.pow (.whole n)) (q.value ^ n) := by
  refine ⟨fun power built => ?_, ?_⟩
  · obtain ⟨k, named, -, kept, is⟩ := Rational.pow_ok reduced built
    injection named with same
    exact ⟨kept, by rw [is, ← same, zpow_natCast]⟩
  · have apart : ¬ ((n : Int) = 0) := by omega
    have above : ¬ ((n : Int) < 0) := by omega
    simp only [Rational.pow, safe, Bool.not_true, Bool.false_eq_true, if_false, if_neg apart, if_neg above]
    exact .bind (Decimal.powerWithinLimit_only _ _ _) fun _ _ => .bind (Decimal.powerWithinLimit_only _ _ _) fun _ _ => .ok _

theorem toDecimal_rounded {q : Rational} (reduced : q.Reduced) :
    RoundedOnce (q.toDecimal (some ⟨scale, some mode⟩)) mode scale q.value := by
  have isDivisor := reduced.positive.ne'
  refine ⟨fun d built => ?_, ?_⟩
  · obtain ⟨parts, divided, built⟩ := bind_ok.mp built
    obtain ⟨_, -, done⟩ := bind_ok.mp built
    cases done
    unfold Decimal.fractionToDecimalParts at divided
    simp only [if_neg isDivisor] at divided
    obtain ⟨places, passed, divided⟩ := bind_ok.mp divided
    obtain ⟨scaled, multiplied, divided⟩ := bind_ok.mp divided
    obtain ⟨coefficient, rounded, done⟩ := bind_ok.mp divided
    cases done
    rw [timesPow10_ok multiplied] at rounded
    have rounds := Decimal.divideRounded_ok isDivisor rounded
    refine ⟨(Decimal.assertScale_ok passed).1, Decimal.rounded_at ?_⟩
    rw [Rational.value, div_mul_eq_mul_div]
    push_cast at rounds ⊢
    exact rounds
  · refine .bind (Decimal.fractionToDecimalParts_only_some isDivisor _) fun _ _ => ?_
    exact .bind ((Decimal.assertResultDigits_only _ _).mono fun _ isLimit => isLimit.refusal) fun _ _ => .ok _

/-- Without a scale the value is exact, and rounding is asked for only if it does not terminate. -/
theorem toDecimal_exact {q : Rational} (reduced : q.Reduced) : ExactOrAsks (q.toDecimal none) q.value := by
  refine ⟨fun d built => ?_, ?_⟩
  · obtain ⟨parts, divided, built⟩ := bind_ok.mp built
    obtain ⟨_, -, done⟩ := bind_ok.mp built
    cases done
    exact (Decimal.fractionToDecimalParts_exact divided).2.1
  · refine .bind (Decimal.fractionToDecimalParts_only_none reduced.positive.ne') fun _ _ => ?_
    exact .bind ((Decimal.assertResultDigits_only _ _).mono fun _ isLimit => isLimit.refusal) fun _ _ => .ok _

namespace Finance

open Compounding (balance due annuity worth discounted)

theorem assertPeriods_ok (safe : isSafeInteger n = true) : assertPeriods (.whole n) = .ok () := by
  have nonneg : ¬ ((n : Int) < 0) := by omega
  simp only [assertPeriods, assertFinite, isNegative, decide_eq_true_eq, nonneg, if_false, safe, if_true, bind, Except.bind]
  rfl

theorem growthFactor_exactly (isRate : from_ rate = .ok r) (above : -1 < r.value) : Exactly (growthFactor rate) (1 + r.value) := by
  have sum := exactly_plus one isRate
  rw [Decimal.one_value] at sum
  refine sum.bind fun factor isFactor => ?_
  have positive : 0 < factor.coefficient := by
    have cast : 0 < factor.value := by
      rw [isFactor]
      linarith
    exact of_decide_eq_true (Decimal.value_pos.mp cast)
  rw [if_neg (not_le.mpr (sign_pos.mpr positive))]
  exact .ok isFactor

theorem growth_exactly (isRate : from_ rate = .ok r) (above : -1 < r.value) (safe : isSafeInteger n = true) :
    Exactly (growth rate (.whole n)) ((1 + r.value) ^ n) := by
  unfold growth
  rw [assertPeriods_ok safe]
  refine (growthFactor_exactly isRate above).bind fun factor isFactor => ?_
  rw [← isFactor]
  exact exactly_pow safe

/-- Powers of a decimal's growth are multiples of a power of ten, and so is their sum. -/
theorem annuity_multiple (r : Decimal) (n : Nat) : Multiple (annuity r.value n) (10 ^ (r.scale * n))⁻¹ := by
  have unit : (10 : ℚ) ^ r.scale ≠ 0 := by positivity
  have growth_ : 1 + r.value = ((10 ^ r.scale + r.coefficient : ℤ) : ℚ) / 10 ^ r.scale := by
    rw [Decimal.value]
    push_cast
    field_simp
  refine ⟨∑ k ∈ Finset.range n, (10 ^ r.scale + r.coefficient) ^ k * 10 ^ (r.scale * (n - k)), ?_⟩
  rw [annuity, eq_mul_inv_iff_mul_eq₀ (by positivity), Finset.sum_mul]
  push_cast
  refine Finset.sum_congr rfl fun k member => ?_
  have within := Finset.mem_range.mp member
  have split_ : (10 : ℚ) ^ (r.scale * n) = (10 ^ r.scale) ^ k * 10 ^ (r.scale * (n - k)) := by
    rw [← pow_mul, ← pow_add, ← Nat.mul_add]
    congr 2
    omega
  rw [growth_, div_pow, split_]
  push_cast
  field_simp

theorem isZero_iff : r.isZero = true ↔ r.value = 0 := by
  rw [Decimal.isZero, decide_eq_true_eq, ← not_iff_not]
  exact Decimal.value_ne_zero.symm

theorem dueBy_exactly {timing : Option PaymentTiming} {factor : Checked Decimal} (isDue : this.value = a)
    (isFactor : Exactly factor (1 + r.value)) : Exactly (dueBy timing this factor) (due (isBegin timing) r.value * a) := by
  unfold dueBy
  cases isBegin timing with
  | false =>
    rw [if_neg (by decide), due, if_neg (by decide), one_mul]
    exact .ok isDue
  | true =>
    rw [if_pos rfl, due, if_pos rfl, mul_comm, ← isDue]
    refine isFactor.bind fun found isFound => ?_
    rw [← isFound]
    exact exactly_times this rfl

theorem grownPayments_exactly {options : AnnuityOptions} {compounded : Decimal} (isRate : from_ rate = .ok r)
    (safe : isSafeInteger n = true) (grown : compounded.value = (1 + r.value) ^ n)
    (isLevel : from_ options.level = .ok level) :
    Exactly (grownPayments rate (.whole n) compounded options) (due (isBegin options.timing) r.value * annuity r.value n * level.value) := by
  unfold grownPayments
  refine .step isRate ?_
  by_cases none_ : r.isZero = true
  · rw [if_pos none_, isZero_iff.mp none_]
    refine .step isLevel ?_
    have product := exactly_times level (whole_read safe)
    have once : due (isBegin options.timing) (0 : ℚ) = 1 := by
      unfold due
      split <;> simp
    rw [whole_value, Int.cast_natCast] at product
    rw [Compounding.annuity_zero, once, one_mul, mul_comm]
    exact product
  · rw [if_neg none_]
    have some_ : r.value ≠ 0 := fun zero_ => none_ (isZero_iff.mpr zero_)
    refine (exactly_minus compounded (whole_read (by decide))).bind fun above isAbove => ?_
    rw [whole_value, Int.cast_one, grown] at isAbove
    have quotient : above.value / r.value = annuity r.value n := by rw [isAbove, Compounding.annuity_eq some_]
    refine (exactly_dividedBy (r.scale * n) some_ (by rw [quotient]; exact annuity_multiple r n)).bind fun perUnit isPerUnit => ?_
    have factor : Exactly (one.plus (.decimal r)) (one.value + r.value) := exactly_plus one rfl
    rw [Decimal.one_value] at factor
    refine (dueBy_exactly (isPerUnit.trans quotient) factor).bind fun paid isPaid => ?_
    rw [← isPaid]
    exact exactly_times paid isLevel

theorem withPayments_exactly {options : AnnuityOptions} {compounded : Decimal} (isRate : from_ rate = .ok r)
    (safe : isSafeInteger n = true) (grown : compounded.value = (1 + r.value) ^ n) (isLevel : from_ options.level = .ok level)
    (this : Decimal) : Exactly (withPayments this rate (.whole n) compounded options)
      (this.value + due (isBegin options.timing) r.value * annuity r.value n * level.value) := by
  unfold withPayments
  cases paid : options.payment with
  | none =>
    have none_ : level.value = 0 := by
      rw [AnnuityOptions.level, paid, Option.getD_none, whole_read (by decide)] at isLevel
      rw [← Except.ok.inj isLevel, whole_value, Int.cast_zero]
    rw [none_, mul_zero, add_zero]
    exact .ok rfl
  | some _ =>
    refine (grownPayments_exactly isRate safe grown isLevel).bind fun payments isPayments => ?_
    rw [← isPayments]
    exact exactly_plus this rfl

theorem balance_exactly {options : AnnuityOptions} (isRate : from_ rate = .ok r) (above : -1 < r.value) (safe : isSafeInteger n = true)
    (isPrincipal : from_ principal = .ok p) (isLevel : from_ options.level = .ok level) :
    Exactly (futureValue principal rate (.whole n) options none)
      (balance (isBegin options.timing) r.value level.value p.value n) := by
  unfold futureValue
  refine (growth_exactly isRate above safe).bind fun compounded isGrown => .step isPrincipal ?_
  refine (exactly_times p rfl).bind fun grown isProduct => ?_
  refine (withPayments_exactly isRate safe isGrown isLevel grown).bind fun total isTotal => ?_
  rw [Compounding.balance_eq, ← isGrown, ← isProduct, ← isTotal]
  exact .ok rfl

theorem balance_rounded {options : AnnuityOptions} {scaled : ScaleOptions} (isRate : from_ rate = .ok r) (above : -1 < r.value)
    (safe : isSafeInteger n = true) (isPrincipal : from_ principal = .ok p) (isLevel : from_ options.level = .ok level) :
    RoundedOnce (futureValue principal rate (.whole n) options (some scaled)) (resolveRounding scaled) scaled.scale
      (balance (isBegin options.timing) r.value level.value p.value n) := by
  unfold futureValue
  refine (growth_exactly isRate above safe).round fun compounded isGrown => .step isPrincipal ?_
  refine (exactly_times p rfl).round fun grown isProduct => ?_
  refine (withPayments_exactly isRate safe isGrown isLevel grown).round fun total isTotal => ?_
  rw [Compounding.balance_eq, ← isGrown, ← isProduct, ← isTotal]
  exact rounded_toScale

theorem presentValue_rounded {options : AnnuityOptions} {scaled : ScaleOptions} (isRate : from_ rate = .ok r) (above : -1 < r.value)
    (safe : isSafeInteger n = true) (isPrincipal : from_ principal = .ok p) (isLevel : from_ options.level = .ok level) :
    RoundedOnce (presentValue principal rate (.whole n) options scaled) (resolveRounding scaled) scaled.scale
      (worth (isBegin options.timing) r.value level.value p.value n) := by
  have grows : 0 < 1 + r.value := by linarith
  unfold presentValue
  refine (growth_exactly isRate above safe).round fun compounded isGrown => .step isPrincipal ?_
  refine (withPayments_exactly isRate safe isGrown isLevel p).round fun total isTotal => ?_
  rw [Compounding.worth_eq _ grows, ← isTotal, ← isGrown]
  exact rounded_dividedBy rfl (by rw [isGrown]; exact (pow_pos grows n).ne')

theorem payment_rounded {timing : Option PaymentTiming} {scaled : ScaleOptions} (isRate : from_ rate = .ok r) (above : -1 < r.value)
    (safe : isSafeInteger n = true) (some_ : 0 < n) (isPrincipal : from_ principal = .ok p) :
    RoundedOnce (payment principal rate (.whole n) timing scaled) (resolveRounding scaled) scaled.scale
      (p.value * (1 + r.value) ^ n / (due (isBegin timing) r.value * annuity r.value n)) := by
  have grows : 0 < 1 + r.value := by linarith
  have checked : assertPositivePeriods (.whole n) = .ok () := by
    have apart : ¬ (JsNumber.whole n = .whole 0) := by
      intro same
      injection same with same
      omega
    unfold assertPositivePeriods
    rw [assertPeriods_ok safe]
    simp only [bind, Except.bind, apart, if_false]
    rfl
  unfold payment
  rw [checked]
  refine (growthFactor_exactly isRate above).round fun factor isFactor => .step isPrincipal (.step isRate ?_)
  by_cases none_ : r.isZero = true
  · rw [if_pos none_, isZero_iff.mp none_]
    have once : due (isBegin timing) (0 : ℚ) = 1 := by
      unfold due
      split <;> simp
    have apart : Decimal.value ⟨n, 0⟩ ≠ 0 := by
      rw [whole_value, Int.cast_natCast]
      exact_mod_cast some_.ne'
    have divided := @rounded_dividedBy (resolveRounding scaled) scaled.scale p _ _ (whole_read safe) apart
    rw [Compounding.annuity_zero, once, add_zero, one_pow, mul_one, one_mul]
    rw [whole_value, Int.cast_natCast] at divided
    exact divided
  · rw [if_neg none_]
    have nonzero : r.value ≠ 0 := fun zero_ => none_ (isZero_iff.mpr zero_)
    refine (exactly_pow safe).round fun compounded isGrown => ?_
    rw [isFactor] at isGrown
    refine (exactly_times p rfl).round fun product isProduct => ?_
    refine (exactly_times product rfl).round fun numerator isNumerator => ?_
    refine (exactly_minus compounded (whole_read (by decide))).round fun denominator isDenominator => ?_
    rw [whole_value, Int.cast_one, isGrown] at isDenominator
    refine (dueBy_exactly isDenominator (.ok isFactor)).round fun paid isPaid => ?_
    have sum : (1 + r.value) ^ n - 1 = annuity r.value n * r.value := by
      rw [← Compounding.annuity_eq nonzero, div_mul_cancel₀ _ nonzero]
    have positive : 0 < due (isBegin timing) r.value * annuity r.value n :=
      mul_pos (Compounding.due_pos _ grows) (Compounding.annuity_pos grows some_)
    have quotient : numerator.value / paid.value =
        p.value * (1 + r.value) ^ n / (due (isBegin timing) r.value * annuity r.value n) := by
      rw [isNumerator, isProduct, isGrown, isPaid, sum, ← mul_assoc, mul_right_comm p.value, mul_div_mul_right _ _ nonzero]
    rw [← quotient]
    refine rounded_dividedBy rfl ?_
    rw [isPaid, sum, ← mul_assoc]
    exact mul_ne_zero positive.ne' nonzero

theorem horner_exactly {factor : Decimal} {flows : List DecimalInput} {values : List Decimal}
    (areRead : List.Forall₂ (fun flow value => from_ flow = .ok value) flows values) : ∀ start : Decimal,
    Exactly (flows.foldlM (fun sum flow => do (← sum.times (.decimal factor)).plus flow) start)
      ((values.map Decimal.value).foldl (fun sum flow => sum * factor.value + flow) start.value) := by
  induction areRead with
  | nil => exact fun start => .ok rfl
  | @cons flow value _ _ isRead _ ih =>
    intro start
    have taken : Exactly (do (← start.times (.decimal factor)).plus flow) (start.value * factor.value + value.value) := by
      refine (exactly_times start rfl).bind fun product isProduct => ?_
      rw [← isProduct]
      exact exactly_plus product isRead
    rw [List.foldlM_cons, List.map_cons, List.foldl_cons]
    refine taken.bind fun next isNext => ?_
    rw [← isNext]
    exact ih next

theorem netPresentValue_rounded {flows : List DecimalInput} {values : List Decimal} {scaled : ScaleOptions}
    (isRate : from_ rate = .ok r) (above : -1 < r.value) (areRead : flows.mapM from_ = .ok values) (some_ : flows ≠ [])
    (safe : isSafeInteger flows.length = true) :
    RoundedOnce (netPresentValue rate flows scaled) (resolveRounding scaled) scaled.scale
      (discounted r.value (values.map Decimal.value)) := by
  have grows : 0 < 1 + r.value := by linarith
  have each := Outcome.mapM_ok.mp areRead
  unfold netPresentValue
  rw [if_neg some_]
  refine (growthFactor_exactly isRate above).round fun factor isFactor => .step (whole_read (by decide)) ?_
  refine (horner_exactly each _).round fun numerator isNumerator => ?_
  rw [whole_value, Int.cast_zero, isFactor, Compounding.horner_eq grows.ne', zero_add, List.length_map] at isNumerator
  refine (exactly_pow safe).round fun compounded isGrown => ?_
  have quotient : numerator.value / compounded.value = discounted r.value (values.map Decimal.value) := by
    rw [isNumerator, isGrown, isFactor, each.length_eq, mul_div_cancel_right₀ _ (pow_pos grows _).ne']
  rw [← quotient]
  exact rounded_dividedBy rfl (by rw [isGrown, isFactor]; exact (pow_pos grows _).ne')

theorem yearlyGrowth_exactly {nominalRate : DecimalInput} {q : Rational} (isRate : Rational.from_ (.other nominalRate) = .ok q)
    (reduced : q.Reduced) (some_ : 0 < n) (safe : isSafeInteger n = true) (above : -1 < q.value / n) :
    ExactlyRatio (yearlyGrowth nominalRate (.whole n)) ((1 + q.value / n) ^ n - 1) := by
  obtain ⟨unit, isUnit, unitReduced, unitValue⟩ := @whole_ratio 1 (by decide)
  obtain ⟨count, isCount, countReduced, countValue⟩ := whole_ratio safe
  rw [Int.cast_one] at unitValue
  rw [Int.cast_natCast] at countValue
  have apart : count.value ≠ 0 := by
    rw [countValue]
    exact_mod_cast some_.ne'
  unfold yearlyGrowth
  refine .step isUnit (.step isRate ?_)
  have divided : ExactlyRatio (q.dividedBy (.other (.number (.whole n)))) (q.value / n) := by
    rw [← countValue]
    exact .step isCount (exactly_dividedByRead reduced countReduced apart)
  refine divided.bind fun part partReduced isPart => ?_
  have sum : ExactlyRatio (unit.plus (.rational part)) (1 + q.value / n) := by
    rw [← unitValue, ← isPart]
    exact .step rfl (exactly_plusRead unitReduced partReduced)
  refine sum.bind fun factor factorReduced isFactor => ?_
  have positive : 0 < factor.numerator := by
    have cast : 0 < factor.value := by
      rw [isFactor]
      linarith
    have denominator : (0 : ℚ) < factor.denominator := by exact_mod_cast factorReduced.positive
    rw [Rational.value, div_pos_iff_of_pos_right denominator] at cast
    exact_mod_cast cast
  rw [if_neg (not_le.mpr (sign_pos.mpr positive))]
  refine (exactly_powRatio factorReduced safe some_).bind fun power powerReduced isPower => ?_
  obtain ⟨negatedReduced, negatedValue⟩ := Rational.negated_ok unitReduced
  rw [← isFactor, ← isPower, sub_eq_add_neg, ← unitValue, ← negatedValue]
  exact .step isUnit (exactly_plusRead powerReduced negatedReduced)

theorem periodsPerYear_ok (some_ : 0 < n) (safe : isSafeInteger n = true) : assertPeriodsPerYear (.whole n) = .ok () := by
  have atLeast : ¬ ((n : Int) < 1) := by omega
  simp only [assertPeriodsPerYear, assertFinite, bind, Except.bind, safe, Bool.not_true, Bool.false_or, decide_eq_true_eq, atLeast,
    if_false]
  rfl

theorem effectiveRate_rounded {nominalRate : DecimalInput} {q : Rational} {scaled : ScaleOptions}
    (isRate : Rational.from_ (.other nominalRate) = .ok q) (reduced : q.Reduced) (some_ : 0 < n) (safe : isSafeInteger n = true)
    (above : -1 < q.value / n) :
    RoundedOnce (effectiveRate nominalRate (.whole n) (some scaled)) (resolveRounding scaled) scaled.scale ((1 + q.value / n) ^ n - 1) := by
  have grown := yearlyGrowth_exactly isRate reduced some_ safe above
  unfold effectiveRate
  rw [periodsPerYear_ok some_ safe]
  refine ⟨fun d built => ?_, .bind (.ok ()) fun _ _ =>
    .bind (grown.refuses.mono fun _ isLimit => isLimit.refusal) fun result isResult => ?_⟩
  · obtain ⟨_, -, built⟩ := bind_ok.mp built
    obtain ⟨result, isResult, built⟩ := bind_ok.mp built
    obtain ⟨lowest, same⟩ := grown.value result isResult
    rw [← same]
    exact (toDecimal_rounded lowest).value d built
  · obtain ⟨lowest, same⟩ := grown.value result isResult
    rw [← same]
    exact (toDecimal_rounded lowest).refuses

theorem effectiveRate_exact {nominalRate : DecimalInput} {q : Rational} (isRate : Rational.from_ (.other nominalRate) = .ok q)
    (reduced : q.Reduced) (some_ : 0 < n) (safe : isSafeInteger n = true) (above : -1 < q.value / n) :
    ExactOrAsks (effectiveRate nominalRate (.whole n) none) ((1 + q.value / n) ^ n - 1) := by
  have grown := yearlyGrowth_exactly isRate reduced some_ safe above
  unfold effectiveRate
  rw [periodsPerYear_ok some_ safe]
  refine ⟨fun d built => ?_, .bind (.ok ()) fun _ _ =>
    .bind (grown.refuses.mono fun _ isLimit => isLimit.refusal) fun result isResult => ?_⟩
  · obtain ⟨_, -, built⟩ := bind_ok.mp built
    obtain ⟨result, isResult, built⟩ := bind_ok.mp built
    obtain ⟨lowest, same⟩ := grown.value result isResult
    rw [← same]
    exact (toDecimal_exact lowest).value d built
  · obtain ⟨lowest, same⟩ := grown.value result isResult
    rw [← same]
    exact (toDecimal_exact lowest).refuses

/-- Every function is the exact solution of the recurrence of its balance, rounded once. -/
theorem time_value (isRate : from_ rate = .ok r) (above : -1 < r.value) (safe : isSafeInteger n = true) :
    (∀ principal p options level, from_ principal = .ok p → from_ options.level = .ok level →
      Exactly (futureValue principal rate (.whole n) options none) (balance (isBegin options.timing) r.value level.value p.value n) ∧
      (∀ scaled, RoundedOnce (futureValue principal rate (.whole n) options (some scaled)) (resolveRounding scaled) scaled.scale
        (balance (isBegin options.timing) r.value level.value p.value n)) ∧
      (∀ scaled, RoundedOnce (presentValue principal rate (.whole n) options scaled) (resolveRounding scaled) scaled.scale
        (worth (isBegin options.timing) r.value level.value p.value n)) ∧
      balance (isBegin options.timing) r.value 0 (worth (isBegin options.timing) r.value level.value p.value n) n =
        p.value + balance (isBegin options.timing) r.value level.value 0 n ∧
      ∀ compounded, growth rate (.whole n) = .ok compounded →
        Only (fun err => ¬ err.IsRounding) (grownPayments rate (.whole n) compounded options)) ∧
    (0 < n → ∀ principal p timing, from_ principal = .ok p → ∃ level,
      (∀ level_, balance (isBegin timing) r.value (-level_) p.value n = 0 ↔ level_ = level) ∧
      ∀ scaled, RoundedOnce (payment principal rate (.whole n) timing scaled) (resolveRounding scaled) scaled.scale level) ∧
    (∀ flows values, flows.mapM from_ = .ok values → flows ≠ [] → flows.length < 2 ^ 32 → ∀ scaled,
      RoundedOnce (netPresentValue rate flows scaled) (resolveRounding scaled) scaled.scale
        (discounted r.value (values.map Decimal.value))) ∧
    (0 < n → ∀ nominalRate q, Rational.from_ (.other nominalRate) = .ok q → -1 < q.value / n →
      ExactOrAsks (effectiveRate nominalRate (.whole n) none) (balance false (q.value / n) 0 1 n - 1) ∧
      ∀ scaled, RoundedOnce (effectiveRate nominalRate (.whole n) (some scaled)) (resolveRounding scaled) scaled.scale
        (balance false (q.value / n) 0 1 n - 1)) := by
  have grows : 0 < 1 + r.value := by linarith
  refine ⟨fun principal p options level isPrincipal isLevel => ⟨?_, ?_, ?_, ?_, ?_⟩, ?_, ?_, ?_⟩
  · exact balance_exactly isRate above safe isPrincipal isLevel
  · exact fun scaled => balance_rounded isRate above safe isPrincipal isLevel
  · exact fun scaled => presentValue_rounded isRate above safe isPrincipal isLevel
  · exact Compounding.balance_worth _ grows _
  · intro compounded isGrown
    have grown := (growth_exactly isRate above safe).value compounded isGrown
    exact (grownPayments_exactly isRate safe grown isLevel).refuses.mono fun _ isLimit => isLimit.calm
  · intro some_ principal p timing isPrincipal
    exact ⟨_, fun level => Compounding.balance_zero _ grows some_, fun scaled => payment_rounded isRate above safe some_ isPrincipal⟩
  · intro flows values areRead some_ short scaled
    refine netPresentValue_rounded isRate above areRead some_ (decide_eq_true ?_)
    omega
  · intro some_ nominalRate q isNominal aboveNominal
    have reduced := (Rational.from_says isNominal).1
    rw [Compounding.balance_eq, mul_zero, add_zero, one_mul]
    exact ⟨effectiveRate_exact isNominal reduced some_ safe aboveNominal,
      fun scaled => effectiveRate_rounded isNominal reduced some_ safe aboveNominal⟩

/-- A hundred at 5 % for ten years, and flows of 10 and 20. -/
theorem time_value_run : ∃ r : Decimal, from_ (.string "0.05") = .ok r ∧
    Exactly (futureValue (.string "100") (.string "0.05") (.whole 10) ⟨none, none⟩ none) (balance false r.value 0 100 10) ∧
    (∃ level, (∀ level_, balance true r.value (-level_) 100 10 = 0 ↔ level_ = level) ∧
      RoundedOnce (payment (.string "100") (.string "0.05") (.whole 10) (some .atBegin) ⟨.whole 2, none⟩) .halfEven (.whole 2) level) ∧
    RoundedOnce (netPresentValue (.string "0.05") [.string "10", .string "20"] ⟨.whole 2, some .down⟩) .down (.whole 2)
      (discounted r.value [10, 20]) ∧
    ExactOrAsks (effectiveRate (.string "0.05") (.whole 10) none) (balance false (1 / 20 / 10) 0 1 10 - 1) := by
  have isRate : from_ (.string "0.05") = .ok ⟨5, 2⟩ := by decide +kernel
  have isPrincipal : from_ (.string "100") = .ok ⟨100, 0⟩ := by decide +kernel
  have isNominal : Rational.from_ (.other (.string "0.05")) = .ok ⟨1, 20⟩ := by decide +kernel
  obtain ⟨balances, loans, flows, rates⟩ :=
    @time_value ⟨5, 2⟩ (.string "0.05") 10 isRate (by norm_num [Decimal.value]) (by decide)
  obtain ⟨future, -⟩ := balances (.string "100") ⟨100, 0⟩ ⟨none, none⟩ ⟨0, 0⟩ isPrincipal (by decide +kernel)
  obtain ⟨level, unique, rounded⟩ := loans (by decide) (.string "100") ⟨100, 0⟩ (some .atBegin) isPrincipal
  have present := flows [.string "10", .string "20"] [⟨10, 0⟩, ⟨20, 0⟩] (by decide +kernel) (by decide) (by decide) ⟨.whole 2, some .down⟩
  have yearly := (rates (by decide) (.string "0.05") ⟨1, 20⟩ isNominal (by norm_num [Rational.value])).1
  simp only [whole_value, List.map_cons, List.map_nil, Rational.value, Int.cast_zero, Int.cast_ofNat, Int.cast_one, Nat.cast_ofNat] at future unique present yearly
  exact ⟨⟨5, 2⟩, isRate, future, ⟨level, unique, rounded ⟨.whole 2, none⟩⟩, present, yearly⟩

end Finance

end Arki.Math
