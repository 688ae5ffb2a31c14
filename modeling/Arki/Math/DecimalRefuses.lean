import Arki.Math.DecimalExact

/-! With which errors the operations refuse, and that they ask for rounding just when digits would be lost. -/

set_option autoImplicit false

namespace Arki.Math

open Outcome (bind_ok bind_error)

def MathError.IsLimit (err : MathError) : Prop := ∃ message, err = .resourceLimit message

def MathError.IsRounding (err : MathError) : Prop := ∃ message, err = .roundingNecessary message

def Only {Answer : Type} (allowed : MathError → Prop) (x : Checked Answer) : Prop := ∀ err, x = .error err → allowed err

/-- An operation that may round is refused by a limit, asks for rounding, or has operands that are not valid. -/
def Refusal (valid inexact : Prop) (err : MathError) : Prop :=
  err.IsRounding ∧ inexact ∨ ¬ err.IsRounding ∧ (valid → err.IsLimit)

variable {Answer Next : Type} {allowed : MathError → Prop} {valid inexact : Prop} {err : MathError}

theorem MathError.IsLimit.calm (isLimit : err.IsLimit) : ¬ err.IsRounding := by
  obtain ⟨message, rfl⟩ := isLimit
  rintro ⟨_, ⟨⟩⟩

theorem Refusal.mono {valid_ inexact_ : Prop} (refusal : Refusal valid inexact err) (narrower : valid_ → valid)
    (wider : inexact → inexact_) : Refusal valid_ inexact_ err := by
  rcases refusal with ⟨isRounding, is⟩ | ⟨calm, limit⟩
  · exact .inl ⟨isRounding, wider is⟩
  · exact .inr ⟨calm, fun is => limit (narrower is)⟩

theorem MathError.IsLimit.refusal (isLimit : err.IsLimit) : Refusal valid inexact err := .inr ⟨isLimit.calm, fun _ => isLimit⟩

namespace Only

theorem ok (value : Answer) : Only allowed (.ok value) := by
  intro err same
  cases same

theorem error (is : allowed err) : Only allowed (.error err : Checked Answer) := by
  intro other same
  cases same
  exact is

theorem mono {more : MathError → Prop} {x : Checked Answer} (only : Only allowed x) (wider : ∀ err, allowed err → more err) :
    Only more x := fun err same => wider err (only err same)

theorem bind {x : Checked Answer} {rest : Answer → Checked Next} (first : Only allowed x)
    (after : ∀ value, x = .ok value → Only allowed (rest value)) : Only allowed (x >>= rest) := by
  intro err same
  rcases bind_error.mp same with early | ⟨value, passed, late⟩
  · exact first err early
  · exact after value passed err late

end Only

/-- A chain has an answer when its first part has one, and what follows has one from there. -/
theorem ends_bind {First Next : Type} {start : Checked First} {rest : First → Checked Next} {found : First}
    (first : start = .ok found) (after : ∃ answer, rest found = .ok answer) : ∃ answer, (start >>= rest) = .ok answer := by
  obtain ⟨answer, same⟩ := after
  exact ⟨answer, bind_ok.mpr ⟨found, first, same⟩⟩

theorem assertIntermediateDigits_only (digits : Nat) (what : String) : Only MathError.IsLimit (assertIntermediateDigits digits what) := by
  unfold assertIntermediateDigits
  split
  · exact .error ⟨_, rfl⟩
  · exact .ok _

theorem timesPow10_only (number : Int) (exponent : Nat) (what : String) : Only MathError.IsLimit (timesPow10 number exponent what) := by
  unfold timesPow10
  split
  · exact .bind (assertIntermediateDigits_only _ _) fun _ _ => .ok _
  · exact .ok _

theorem multiplyChecked_only (a b : Int) (what : String) : Only MathError.IsLimit (multiplyChecked a b what) := by
  unfold multiplyChecked
  split
  · exact .bind (assertIntermediateDigits_only _ _) fun _ _ => .ok _
  · exact .ok _

theorem divideRounded_only {x y : Int} (mode : RoundingMode) (isDivisor : y ≠ 0) :
    Only (fun err => err.IsRounding ∧ mode = .unnecessary ∧ ¬ y ∣ x) (divideRounded x y mode) := by
  rcases @divideRounded_spec x _ mode isDivisor with ⟨n, rounded, -⟩ | ⟨isExact, rest, message, refused⟩
  · rw [rounded]
    exact .ok _
  · rw [refused]
    exact .error ⟨⟨message, rfl⟩, isExact, rest⟩

theorem decimalParts_only (input : String) : Only (fun err => ¬ err.IsRounding) (decimalParts input) := by
  unfold decimalParts
  cases parseDecimalString input.toList with
  | ok parts => exact .ok _
  | error failure =>
    cases failure with
    | invalidNumber => exact .error (by rintro ⟨_, ⟨⟩⟩)
    | numberOutOfRange => exact .error (by rintro ⟨_, ⟨⟩⟩)

namespace Decimal

variable {this : Decimal}

theorem from_only (input : DecimalInput) : Only (fun err => ¬ err.IsRounding) (from_ input) := by
  cases input with
  | decimal value => exact .ok _
  | string text => exact decimalParts_only _
  | number number_ =>
    cases number_ with
    | whole value =>
      simp only [from_, partsFromNumber]
      by_cases safe : isSafeInteger value = true
      · rw [if_pos safe]
        exact decimalParts_only _
      · rw [if_neg safe]
        exact .error (by rintro ⟨_, ⟨⟩⟩)
    | fraction spelling => exact decimalParts_only _
    | notFinite spelling => exact .error (by rintro ⟨_, ⟨⟩⟩)
  | bigint value =>
    simp only [from_, partsFromBigInt, assertDigitLimit]
    split
    · exact .error (by rintro ⟨_, ⟨⟩⟩)
    · exact .ok _

theorem assertResultDigits_only (number : Int) (what : String) : Only MathError.IsLimit (assertResultDigits number what) := by
  unfold assertResultDigits
  split
  · exact .error ⟨_, rfl⟩
  · exact .ok _

theorem align_only (a b : Decimal) : Only MathError.IsLimit (align a b) := by
  unfold align
  split
  · exact .ok _
  · split
    · exact .bind (timesPow10_only _ _ _) fun _ _ => .ok _
    · exact .bind (timesPow10_only _ _ _) fun _ _ => .ok _

theorem powerWithinLimit_only (base : Int) (exponent : Nat) (what : String) :
    Only MathError.IsLimit (powerWithinLimit base exponent what) := by
  unfold powerWithinLimit
  split
  · exact .ok _
  · split
    · exact .error ⟨_, rfl⟩
    · exact assertResultDigits_only _ _

theorem powPositive_only (exponent : Nat) : Only MathError.IsLimit (this.powPositive exponent) := by
  unfold powPositive
  by_cases long : maxScale < this.scale * exponent
  · simp only [if_pos long]
    exact .error ⟨_, rfl⟩
  · simp only [if_neg long]
    exact .bind (powerWithinLimit_only _ _ _) fun _ _ => .ok _

theorem read_only {other : DecimalInput} {rest : Decimal → Checked Answer}
    (after : ∀ that, Only MathError.IsLimit (rest that)) : Only (fun err => ¬ err.IsRounding) (from_ other >>= rest) :=
  .bind (from_only other) fun that _ => (after that).mono fun _ isLimit => isLimit.calm

theorem plus_only (other : DecimalInput) : Only (fun err => ¬ err.IsRounding) (this.plus other) :=
  read_only fun that => .bind (align_only this that) fun ⟨_, _, _⟩ _ => .bind (assertResultDigits_only _ _) fun _ _ => .ok _

theorem minus_only (other : DecimalInput) : Only (fun err => ¬ err.IsRounding) (this.minus other) :=
  read_only fun that => .bind (align_only this that) fun ⟨_, _, _⟩ _ => .bind (assertResultDigits_only _ _) fun _ _ => .ok _

theorem timesRead_only (that : Decimal) : Only MathError.IsLimit (this.times (.decimal that)) := by
  unfold times
  refine .bind (.ok that) fun that _ => ?_
  by_cases long : maxScale < this.scale + that.scale
  · simp only [if_pos long]
    exact .error ⟨_, rfl⟩
  · simp only [if_neg long]
    exact .bind (multiplyChecked_only _ _ _) fun _ _ => .bind (assertResultDigits_only _ _) fun _ _ => .ok _

theorem times_read (other : DecimalInput) : this.times other = from_ other >>= fun that => this.times (.decimal that) := rfl

theorem times_only (other : DecimalInput) : Only (fun err => ¬ err.IsRounding) (this.times other) := by
  rw [times_read]
  exact read_only timesRead_only

theorem mod_only (other : DecimalInput) : Only (fun err => ¬ err.IsRounding) (this.mod other) := by
  refine .bind (from_only other) fun that _ => ?_
  by_cases none_ : that.isZero = true
  · simp only [if_pos none_]
    exact .error (by rintro ⟨_, ⟨⟩⟩)
  · simp only [if_neg none_]
    exact (Only.bind (align_only _ _) fun ⟨_, _, _⟩ _ => .ok _).mono fun _ isLimit => isLimit.calm

theorem sumStep_only (sofar : Int × Nat) (input : DecimalInput) : Only (fun err => ¬ err.IsRounding) (sumStep sofar input) := by
  unfold sumStep
  refine read_only fun d => ?_
  have added (scale : Nat) (coefficient : Int) : Only MathError.IsLimit
      (if d.scale = scale then (pure d.coefficient : Checked Int) >>= fun scaled => pure (coefficient + scaled, scale)
        else timesPow10 d.coefficient (scale - d.scale) "The sum" >>= fun scaled => pure (coefficient + scaled, scale)) := by
    split
    · exact .ok _
    · exact .bind (timesPow10_only _ _ _) fun _ _ => .ok _
  by_cases less : sofar.2 < d.scale
  · simp only [if_pos less]
    exact .bind (timesPow10_only _ _ _) fun lifted _ => added d.scale lifted
  · simp only [if_neg less]
    exact added sofar.2 sofar.1

theorem foldlM_only {State Input : Type} {step : State → Input → Checked State}
    (each : ∀ state input, Only allowed (step state input)) : ∀ (inputs : List Input) (state : State),
    Only allowed (inputs.foldlM step state) := by
  intro inputs
  induction inputs with
  | nil => exact fun _ => .ok _
  | cons input inputs ih =>
    intro state
    rw [List.foldlM_cons]
    exact .bind (each state input) fun next _ => ih next

theorem sum_only (values : List DecimalInput) : Only (fun err => ¬ err.IsRounding) (sum values) :=
  .bind (foldlM_only sumStep_only values (0, 0)) fun ⟨_, _⟩ _ =>
    .bind ((assertResultDigits_only _ _).mono fun _ isLimit => isLimit.calm) fun _ _ => .ok _

theorem compareTo_only (other : DecimalInput) : Only (fun err => ¬ err.IsRounding) (this.compareTo other) :=
  read_only fun that => .bind (align_only this that) fun ⟨_, _, _⟩ _ => .ok _

theorem pick_only {better : Int → Bool} {first : DecimalInput} {rest : List DecimalInput} :
    Only (fun err => ¬ err.IsRounding) (pick better first rest) :=
  .bind (from_only first) fun best _ => foldlM_only
    (fun best input => .bind (from_only input) fun _ _ => .bind (compareTo_only (.decimal best)) fun _ _ => .ok _) rest best

def IsScale (scale : JsNumber) (places : Nat) : Prop := scale = .whole places ∧ places ≤ maxScale

theorem assertScale_only (scale : JsNumber) :
    Only (fun err => ¬ err.IsRounding ∧ ¬ ∃ places, IsScale scale places) (assertScale scale) := by
  cases scale with
  | whole number =>
    simp only [assertScale]
    by_cases negative : number < 0
    · rw [if_pos negative]
      refine .error ⟨by rintro ⟨_, ⟨⟩⟩, ?_⟩
      rintro ⟨places, named, -⟩
      injection named with is
      omega
    · rw [if_neg negative]
      refine .bind ?_ fun _ _ => .ok _
      unfold assertScaleLimit
      by_cases far : exceedsScaleLimit number = true
      · rw [if_pos far]
        refine .error ⟨by rintro ⟨_, ⟨⟩⟩, ?_⟩
        rintro ⟨places, named, within⟩
        injection named with is
        simp only [exceedsScaleLimit, decide_eq_true_eq] at far
        omega
      · rw [if_neg far]
        exact .ok _
  | fraction spelling => exact .error ⟨by rintro ⟨_, ⟨⟩⟩, by rintro ⟨_, ⟨⟩, -⟩⟩
  | notFinite spelling => exact .error ⟨by rintro ⟨_, ⟨⟩⟩, by rintro ⟨_, ⟨⟩, -⟩⟩

theorem dvd_of_quotient {exact_ unit : ℚ} {x y : Int} (isUnit : unit ≠ 0) (isDivisor : y ≠ 0) (same : exact_ / unit = x / y)
    (multiple : Multiple exact_ unit) : y ∣ x := by
  obtain ⟨n, is⟩ := multiple
  have castNe : (y : ℚ) ≠ 0 := by exact_mod_cast isDivisor
  rw [is, mul_div_cancel_right₀ _ isUnit, eq_div_iff castNe] at same
  have whole : n * y = x := by exact_mod_cast same
  exact ⟨n, by rw [← whole, mul_comm]⟩

/-- A division without a scale asks for rounding only if no finite decimal is equal. -/
theorem fractionToDecimalParts_only_none {x y : Int} (isDivisor : y ≠ 0) :
    Only (Refusal True (∀ scale : Nat, ¬ Multiple ((x : ℚ) / y) (10 ^ scale)⁻¹)) (fractionToDecimalParts x y none) := by
  obtain ⟨p, q, rest, twos, fives, positive, coprime, same, factors, noTwo, noFive, refused, answered⟩ :=
    @fractionToDecimalParts_none x y isDivisor
  by_cases more : rest = 1
  · rw [answered more]
    exact .bind ((timesPow10_only _ _ _).mono fun _ isLimit => isLimit.refusal) fun _ _ => .ok _
  · obtain ⟨message, is⟩ := refused more
    rw [is]
    refine .error (.inl ⟨⟨message, rfl⟩, fun scale multiple => more ?_⟩)
    rw [same] at multiple
    exact (multiple_iff positive coprime factors noTwo noFive multiple).1

theorem fractionToDecimalParts_only_some {x y : Int} (isDivisor : y ≠ 0) (options : ScaleOptions) :
    Only (Refusal (∃ places, IsScale options.scale places) (∃ places, IsScale options.scale places ∧
      options.rounding.getD .unnecessary = .unnecessary ∧ ¬ Multiple ((x : ℚ) / y) (10 ^ places)⁻¹))
      (fractionToDecimalParts x y (some options)) := by
  unfold fractionToDecimalParts
  simp only [if_neg isDivisor]
  refine .bind ((assertScale_only _).mono fun _ is => .inr ⟨is.1, fun valid => absurd valid is.2⟩) fun places passed => ?_
  refine .bind ((timesPow10_only _ _ _).mono fun _ isLimit => isLimit.refusal) fun scaled multiplied => ?_
  refine .bind ((divideRounded_only _ isDivisor).mono ?_) fun _ _ => .ok _
  rintro err ⟨isRounding, isExact, rest⟩
  refine .inl ⟨isRounding, places, assertScale_ok passed, isExact, fun multiple => rest ?_⟩
  apply dvd_of_quotient (by positivity) isDivisor _ multiple
  rw [div_inv_eq_mul, timesPow10_ok multiplied, div_mul_eq_mul_div]
  push_cast
  rfl

theorem dividedBy_read (other : DecimalInput) (options : Option ScaleOptions) :
    this.dividedBy other options = from_ other >>= fun that => this.dividedBy (.decimal that) options := rfl

theorem dividedBy_only {that : Decimal} {options : Option ScaleOptions}
    (parts : Only (Refusal valid inexact)
      (fractionToDecimalParts (this.coefficient * 10 ^ that.scale) (that.coefficient * 10 ^ this.scale) options)) :
    Only (Refusal valid inexact) (this.dividedBy (.decimal that) options) := by
  unfold dividedBy
  refine .bind (.ok that) fun other given => ?_
  cases given
  refine .bind ((timesPow10_only _ _ _).mono fun _ isLimit => isLimit.refusal) fun numerator top => ?_
  refine .bind ((timesPow10_only _ _ _).mono fun _ isLimit => isLimit.refusal) fun denominator bottom => ?_
  rw [timesPow10_ok top, timesPow10_ok bottom]
  exact .bind parts fun _ _ => .bind ((assertResultDigits_only _ _).mono fun _ isLimit => isLimit.refusal) fun _ _ => .ok _

theorem dividedBy_zero {that : Decimal} {options : Option ScaleOptions} (none_ : ¬ that.value ≠ 0) :
    Only (fun err => ¬ err.IsRounding) (this.dividedBy (.decimal that) options) := by
  unfold dividedBy
  refine .bind (.ok that) fun other given => ?_
  cases given
  refine .bind ((timesPow10_only _ _ _).mono fun _ isLimit => isLimit.calm) fun numerator top => ?_
  refine .bind ((timesPow10_only _ _ _).mono fun _ isLimit => isLimit.calm) fun denominator bottom => ?_
  have zero_ : that.coefficient * 10 ^ this.scale = 0 := by
    rw [ne_eq, not_not] at none_
    by_contra more
    exact value_ne_zero.mpr (fun is => more (by rw [is, zero_mul])) none_
  rw [timesPow10_ok bottom, zero_]
  unfold fractionToDecimalParts
  simp only [if_true]
  exact .error (by rintro ⟨_, ⟨⟩⟩)

theorem coefficient_ne_zero {that : Decimal} (some_ : that.value ≠ 0) (scale : Nat) : that.coefficient * 10 ^ scale ≠ 0 :=
  mul_ne_zero (value_ne_zero.mp some_) (by positivity)

theorem dividedBy_refuses (other : DecimalInput) (options : ScaleOptions) :
    Only (Refusal (∃ that places, from_ other = .ok that ∧ that.value ≠ 0 ∧ IsScale options.scale places)
      (∃ that places, from_ other = .ok that ∧ that.value ≠ 0 ∧ IsScale options.scale places ∧
        options.rounding.getD .unnecessary = .unnecessary ∧ ¬ Multiple (this.value / that.value) (10 ^ places)⁻¹))
      (this.dividedBy other (some options)) := by
  intro err refused
  rw [dividedBy_read] at refused
  rcases bind_error.mp refused with unread | ⟨that, isRead, refused⟩
  · refine .inr ⟨from_only other err unread, ?_⟩
    rintro ⟨_, _, isRead, -⟩
    rw [unread] at isRead
    cases isRead
  by_cases some_ : that.value ≠ 0
  · apply (dividedBy_only (fractionToDecimalParts_only_some (coefficient_ne_zero some_ _) options) err refused).mono
    · rintro ⟨_, places, -, -, isScale⟩
      exact ⟨places, isScale⟩
    · rintro ⟨places, isScale, isExact, rest⟩
      rw [quotient_value] at rest
      exact ⟨that, places, isRead, some_, isScale, isExact, rest⟩
  · refine .inr ⟨dividedBy_zero some_ err refused, ?_⟩
    rintro ⟨_, _, same, nonzero, -⟩
    rw [isRead] at same
    cases same
    exact absurd nonzero some_

theorem dividedBy_refuses_none (other : DecimalInput) :
    Only (Refusal (∃ that, from_ other = .ok that ∧ that.value ≠ 0)
      (∃ that, from_ other = .ok that ∧ that.value ≠ 0 ∧ ∀ places : Nat, ¬ Multiple (this.value / that.value) (10 ^ places)⁻¹))
      (this.dividedBy other none) := by
  intro err refused
  rw [dividedBy_read] at refused
  rcases bind_error.mp refused with unread | ⟨that, isRead, refused⟩
  · refine .inr ⟨from_only other err unread, ?_⟩
    rintro ⟨_, isRead, -⟩
    rw [unread] at isRead
    cases isRead
  by_cases some_ : that.value ≠ 0
  · apply (dividedBy_only (fractionToDecimalParts_only_none (coefficient_ne_zero some_ _)) err refused).mono
    · exact fun _ => trivial
    · intro rest
      rw [quotient_value] at rest
      exact ⟨that, isRead, some_, rest⟩
  · refine .inr ⟨dividedBy_zero some_ err refused, ?_⟩
    rintro ⟨_, same, nonzero⟩
    rw [isRead] at same
    cases same
    exact absurd nonzero some_

theorem toScale_refuses (scale : JsNumber) (mode : RoundingMode) :
    Only (Refusal (∃ places, IsScale scale places)
      (∃ places, IsScale scale places ∧ mode = .unnecessary ∧ ¬ Multiple this.value (10 ^ places)⁻¹))
      (this.toScale scale mode) := by
  unfold toScale
  refine .bind ((assertScale_only _).mono fun _ is => .inr ⟨is.1, fun valid => absurd valid is.2⟩) fun places passed => ?_
  split
  · exact .ok _
  split
  · exact .bind ((timesPow10_only _ _ _).mono fun _ isLimit => isLimit.refusal) fun _ _ =>
      .bind ((assertResultDigits_only _ _).mono fun _ isLimit => isLimit.refusal) fun _ _ => .ok _
  · next less =>
    have isDivisor : (10 : Int) ^ (this.scale - places) ≠ 0 := by positivity
    refine .bind ((divideRounded_only _ isDivisor).mono ?_) fun _ _ => .ok _
    rintro err ⟨isRounding, isExact, rest⟩
    refine .inl ⟨isRounding, places, assertScale_ok passed, isExact, fun multiple => rest ?_⟩
    apply dvd_of_quotient (by positivity) isDivisor _ multiple
    have split_ : (10 : ℚ) ^ this.scale = 10 ^ (this.scale - places) * 10 ^ places := by
      rw [← pow_add, Nat.sub_add_cancel (Nat.le_of_not_lt less)]
    rw [div_inv_eq_mul, value, split_, div_mul_eq_mul_div, mul_div_mul_right _ _ (by positivity)]
    push_cast
    rfl

def IsDigits (digits : JsNumber) (count : Nat) : Prop := digits = .whole count ∧ 0 < count ∧ isSafeInteger count = true

theorem roundToSignificant_refuses (digits : JsNumber) (mode : RoundingMode) :
    Only (Refusal (∃ count, IsDigits digits count) (∃ count, IsDigits digits count ∧ mode = .unnecessary ∧
      ¬ Multiple this.value (10 ^ (digitCount this.coefficient - count) / 10 ^ this.scale)))
      (this.roundToSignificant digits mode) := by
  cases digits with
  | fraction spelling => exact .error (.inr ⟨by rintro ⟨_, ⟨⟩⟩, by rintro ⟨_, ⟨⟩, -⟩⟩)
  | notFinite spelling => exact .error (.inr ⟨by rintro ⟨_, ⟨⟩⟩, by rintro ⟨_, ⟨⟩, -⟩⟩)
  | whole number =>
    simp only [roundToSignificant]
    by_cases bad : (!isSafeInteger number || number < 1) = true
    · rw [if_pos bad]
      refine .error (.inr ⟨by rintro ⟨_, ⟨⟩⟩, ?_⟩)
      rintro ⟨count, named, positive, safe⟩
      injection named with is
      rw [is, safe] at bad
      simp only [Bool.not_true, Bool.false_or, decide_eq_true_eq] at bad
      omega
    rw [if_neg bad]
    simp only [Bool.or_eq_true, Bool.not_eq_true', decide_eq_true_eq, not_or, not_lt, Bool.not_eq_false] at bad
    have isDigits : IsDigits (.whole number) number.toNat := by
      refine ⟨by rw [Int.toNat_of_nonneg (by omega)], by omega, ?_⟩
      rw [Int.toNat_of_nonneg (by omega)]
      exact bad.1
    split
    · exact .ok _
    · have isDivisor : (10 : Int) ^ (digitCount this.coefficient - number.toNat) ≠ 0 := by positivity
      refine .bind ((divideRounded_only _ isDivisor).mono ?_) fun rounded _ => ?_
      · rintro err ⟨isRounding, isExact, rest⟩
        refine .inl ⟨isRounding, number.toNat, isDigits, isExact, fun multiple => rest ?_⟩
        apply dvd_of_quotient (by positivity) isDivisor _ multiple
        rw [value, div_div_div_cancel_right₀ (by positivity)]
        push_cast
        rfl
      · split
        · exact .ok _
        · exact .bind ((timesPow10_only _ _ _).mono fun _ isLimit => isLimit.refusal) fun _ _ =>
            .bind ((assertResultDigits_only _ _).mono fun _ isLimit => isLimit.refusal) fun _ _ => .ok _

theorem value_pos : 0 < this.value ↔ this.isPositive = true := by
  have power : (0 : ℚ) < 10 ^ this.scale := by positivity
  rw [value, div_pos_iff_of_pos_right power, isPositive, decide_eq_true_eq]
  exact_mod_cast Iff.rfl

theorem roundTo_refuses (step : DecimalInput) (mode : RoundingMode) :
    Only (Refusal (∃ unit, from_ step = .ok unit ∧ 0 < unit.value)
      (∃ unit, from_ step = .ok unit ∧ 0 < unit.value ∧ mode = .unnecessary ∧ ¬ Multiple this.value unit.value))
      (this.roundTo step mode) := by
  intro err refused
  unfold roundTo at refused
  rcases bind_error.mp refused with unread | ⟨unit, isRead, refused⟩
  · refine .inr ⟨from_only step err unread, ?_⟩
    rintro ⟨_, isRead, -⟩
    rw [unread] at isRead
    cases isRead
  by_cases positive : unit.isPositive = true
  · simp only [positive, Bool.not_true, Bool.false_eq_true, if_false] at refused
    have above := value_pos.mpr positive
    rcases bind_error.mp refused with divided | ⟨quotient, -, multiplied⟩
    · apply (dividedBy_refuses _ _ err divided).mono
      · exact fun _ => ⟨unit, 0, rfl, above.ne', rfl, Nat.zero_le _⟩
      · rintro ⟨_, places, given, some_, ⟨named, -⟩, isExact, rest⟩
        cases given
        have none_ : places = 0 := by
          injection named with is
          omega
        rw [none_, pow_zero, inv_one] at rest
        refine ⟨unit, isRead, above, isExact, ?_⟩
        rintro ⟨n, is⟩
        exact rest ⟨n, by rw [is, mul_div_cancel_right₀ _ above.ne', mul_one]⟩
    · exact (timesRead_only _ err multiplied).refusal
  · simp only [positive, Bool.not_false, if_true] at refused
    cases refused
    refine .inr ⟨by rintro ⟨_, ⟨⟩⟩, ?_⟩
    rintro ⟨_, same, above⟩
    rw [isRead] at same
    cases same
    exact absurd (value_pos.mp above) positive

def IsExponent (exponent : JsNumber) (n : Int) : Prop := exponent = .whole n ∧ isSafeInteger n = true

theorem one_value : one.value = 1 := by
  rw [value, one]
  norm_num

theorem pow_refuses (exponent : JsNumber) :
    Only (Refusal (∃ n, IsExponent exponent n ∧ (n < 0 → this.value ≠ 0))
      (∃ n, IsExponent exponent n ∧ n < 0 ∧ this.value ≠ 0 ∧ ∀ places : Nat, ¬ Multiple this.value⁻¹ (10 ^ places)⁻¹))
      (this.pow exponent) := by
  cases exponent with
  | fraction spelling => exact .error (.inr ⟨by rintro ⟨_, ⟨⟩⟩, by rintro ⟨_, ⟨⟨⟩, _⟩, -⟩⟩)
  | notFinite spelling => exact .error (.inr ⟨by rintro ⟨_, ⟨⟩⟩, by rintro ⟨_, ⟨⟨⟩, _⟩, -⟩⟩)
  | whole n =>
    simp only [pow]
    by_cases unsafe_ : (!isSafeInteger n) = true
    · rw [if_pos unsafe_]
      refine .error (.inr ⟨by rintro ⟨_, ⟨⟩⟩, ?_⟩)
      rintro ⟨_, ⟨⟨⟩, safe⟩, -⟩
      rw [safe] at unsafe_
      cases unsafe_
    rw [if_neg unsafe_]
    have isExponent : IsExponent (.whole n) n := ⟨rfl, by simpa using unsafe_⟩
    split
    · exact .ok _
    split
    · next negative =>
      by_cases zero_ : this.isZero = true
      · rw [if_pos zero_]
        refine .error (.inr ⟨by rintro ⟨_, ⟨⟩⟩, ?_⟩)
        rintro ⟨_, ⟨⟨⟩, _⟩, some_⟩
        exact absurd (by simpa [isZero] using zero_) (value_ne_zero.mp (some_ negative))
      · rw [if_neg zero_]
        have some_ : this.value ≠ 0 := value_ne_zero.mpr (by simpa [isZero] using zero_)
        refine .bind ((dividedBy_refuses_none (.decimal this)).mono fun err refusal => refusal.mono ?_ ?_) fun reciprocal _ =>
          (powPositive_only _).mono fun _ isLimit => isLimit.refusal
        · exact fun _ => ⟨this, rfl, some_⟩
        · rintro ⟨_, given, nonzero, rest⟩
          cases given
          rw [one_value] at rest
          simp only [one_div] at rest
          exact ⟨n, isExponent, negative, some_, rest⟩
    · exact (powPositive_only _).mono fun _ isLimit => isLimit.refusal

end Decimal

end Arki.Math
