import Arki.Math.DecimalLists
import Arki.Math.DecimalRefuses
import Mathlib.Data.Nat.Prime.Int

/-! Every decimal that the operations reach, in any composition. -/

set_option autoImplicit false

namespace Arki.Math

open Outcome (bind_ok)

inductive Operation where
  | from_ (input : DecimalInput)
  | sum (values : List DecimalInput)
  | max_ (first : DecimalInput) (rest : List DecimalInput)
  | min_ (first : DecimalInput) (rest : List DecimalInput)
  | plus (this : Decimal) (other : DecimalInput)
  | minus (this : Decimal) (other : DecimalInput)
  | times (this : Decimal) (other : DecimalInput)
  | mod (this : Decimal) (other : DecimalInput)
  | dividedBy (this : Decimal) (other : DecimalInput) (options : Option Decimal.ScaleOptions)
  | pow (this : Decimal) (exponent : JsNumber)
  | negated (this : Decimal)
  | abs (this : Decimal)
  | trim (this : Decimal)
  | toScale (this : Decimal) (scale : JsNumber) (rounding : RoundingMode)
  | round (this : Decimal) (places : JsNumber) (rounding : RoundingMode)
  | roundToSignificant (this : Decimal) (digits : JsNumber) (rounding : RoundingMode)
  | roundTo (this : Decimal) (step : DecimalInput) (rounding : RoundingMode)

namespace Operation

open Decimal (Rounded Multiple Shortest IsScale IsDigits IsExponent)

def apply : Operation → Checked Decimal
  | from_ input => Decimal.from_ input
  | sum values => Decimal.sum values
  | max_ first rest => Decimal.max_ first rest
  | min_ first rest => Decimal.min_ first rest
  | plus this other => this.plus other
  | minus this other => this.minus other
  | times this other => this.times other
  | mod this other => this.mod other
  | dividedBy this other options => this.dividedBy other options
  | pow this exponent => this.pow exponent
  | negated this => .ok this.negated
  | abs this => .ok this.abs
  | trim this => .ok this.trim
  | toScale this scale rounding => this.toScale scale rounding
  | round this places rounding => this.round places rounding
  | roundToSignificant this digits rounding => this.roundToSignificant digits rounding
  | roundTo this step rounding => this.roundTo step rounding

def inputs : Operation → List DecimalInput
  | from_ input => [input]
  | sum values => values
  | max_ first rest | min_ first rest => first :: rest
  | plus this other | minus this other | times this other | mod this other | dividedBy this other _ | roundTo this other _ =>
    [.decimal this, other]
  | pow this _ | negated this | abs this | trim this | toScale this .. | round this .. | roundToSignificant this .. =>
    [.decimal this]

def Answers : Operation → Decimal → Prop
  | from_ input, r => ∀ d, input = .decimal d → r = d
  | sum values, r => r.value = Decimal.total (Decimal.read values) ∧ r.scale = Decimal.largestScale (Decimal.read values)
  | max_ first rest, r => r ∈ Decimal.read (first :: rest) ∧ ∀ d ∈ Decimal.read (first :: rest), d.value ≤ r.value
  | min_ first rest, r => r ∈ Decimal.read (first :: rest) ∧ ∀ d ∈ Decimal.read (first :: rest), r.value ≤ d.value
  | plus this other, r => ∃ that, Decimal.from_ other = .ok that ∧ r.value = this.value + that.value ∧
      r.scale = max this.scale that.scale
  | minus this other, r => ∃ that, Decimal.from_ other = .ok that ∧ r.value = this.value - that.value ∧
      r.scale = max this.scale that.scale
  | times this other, r => ∃ that, Decimal.from_ other = .ok that ∧ r.value = this.value * that.value ∧
      r.scale = this.scale + that.scale
  | mod this other, r => ∃ that, Decimal.from_ other = .ok that ∧ that.value ≠ 0 ∧ r.scale = max this.scale that.scale ∧
      (∃ k : ℤ, this.value = k * that.value + r.value) ∧ |r.value| < |that.value| ∧ 0 ≤ this.value * r.value
  | dividedBy this other none, r => ∃ that, Decimal.from_ other = .ok that ∧ that.value ≠ 0 ∧
      r.value = this.value / that.value ∧ r.Shortest
  | dividedBy this other (some options), r => ∃ that, Decimal.from_ other = .ok that ∧ that.value ≠ 0 ∧
      IsScale options.scale r.scale ∧
      Rounded (options.rounding.getD .unnecessary) (this.value / that.value) (10 ^ r.scale)⁻¹ r.value
  | pow this exponent, r => ∃ n : ℤ, exponent = .whole n ∧ r.value = this.value ^ n ∧ (n < 0 → this.value ≠ 0) ∧
      (0 ≤ n → r.scale = this.scale * n.toNat) ∧
      (n < 0 → ∃ reciprocal : Decimal, reciprocal.value = this.value⁻¹ ∧ reciprocal.Shortest ∧
        r.scale = reciprocal.scale * (-n).toNat)
  | negated this, r => r.value = -this.value ∧ r.scale = this.scale
  | abs this, r => r.value = |this.value| ∧ r.scale = this.scale
  | trim this, r => r.value = this.value ∧ r.Shortest
  | toScale this scale rounding, r | round this scale rounding, r => IsScale scale r.scale ∧
      Rounded rounding this.value (10 ^ r.scale)⁻¹ r.value
  | roundToSignificant this digits rounding, r => ∃ count : Nat, digits = .whole count ∧ 0 < count ∧
      r.scale = this.scale - (digitCount this.coefficient - count) ∧
      Rounded rounding this.value (10 ^ (digitCount this.coefficient - count) / 10 ^ this.scale) r.value
  | roundTo this step rounding, r => ∃ unit, Decimal.from_ step = .ok unit ∧ 0 < unit.value ∧ r.scale = unit.scale ∧
      Rounded rounding this.value unit.value r.value

def Inexact : Operation → Prop
  | dividedBy this other none => ∃ that, Decimal.from_ other = .ok that ∧ that.value ≠ 0 ∧
      ∀ places : Nat, ¬ Multiple (this.value / that.value) (10 ^ places)⁻¹
  | dividedBy this other (some options) => ∃ that places, Decimal.from_ other = .ok that ∧ that.value ≠ 0 ∧
      IsScale options.scale places ∧ options.rounding.getD .unnecessary = .unnecessary ∧
      ¬ Multiple (this.value / that.value) (10 ^ places)⁻¹
  | pow this exponent => ∃ n, IsExponent exponent n ∧ n < 0 ∧ this.value ≠ 0 ∧
      ∀ places : Nat, ¬ Multiple this.value⁻¹ (10 ^ places)⁻¹
  | toScale this scale rounding | round this scale rounding => ∃ places, IsScale scale places ∧ rounding = .unnecessary ∧
      ¬ Multiple this.value (10 ^ places)⁻¹
  | roundToSignificant this digits rounding => ∃ count, IsDigits digits count ∧ rounding = .unnecessary ∧
      ¬ Multiple this.value (10 ^ (digitCount this.coefficient - count) / 10 ^ this.scale)
  | roundTo this step rounding => ∃ unit, Decimal.from_ step = .ok unit ∧ 0 < unit.value ∧ rounding = .unnecessary ∧
      ¬ Multiple this.value unit.value
  | _ => False

/-- A division without a scale whose quotient is finite needs no more than `maxScale` fraction digits. -/
def QuotientFits : Operation → Prop
  | dividedBy this other none => ∀ that places, Decimal.from_ other = .ok that →
      Multiple (this.value / that.value) (10 ^ places)⁻¹ → Multiple (this.value / that.value) (10 ^ maxScale)⁻¹
  | _ => True

variable {op : Operation} {r : Decimal} {err : MathError}

theorem apply_answers (answered : op.apply = .ok r) : op.Answers r := by
  cases op with
  | from_ input =>
    rintro d rfl
    cases answered
    rfl
  | sum values =>
    obtain ⟨-, total, scale, -⟩ := Decimal.sum_spec answered
    exact ⟨total, scale⟩
  | max_ first rest => exact (Decimal.max_spec answered).2
  | min_ first rest => exact (Decimal.min_spec answered).2
  | plus this other =>
    obtain ⟨that, isRead, value, scale, -⟩ := Decimal.plus_spec answered
    exact ⟨that, isRead, value, scale⟩
  | minus this other =>
    obtain ⟨that, isRead, value, scale, -⟩ := Decimal.minus_spec answered
    exact ⟨that, isRead, value, scale⟩
  | times this other =>
    obtain ⟨that, isRead, value, scale, -⟩ := Decimal.times_spec answered
    exact ⟨that, isRead, value, scale⟩
  | mod this other =>
    obtain ⟨that, isRead, some_, scale, remainder, small, sameSign, -⟩ := Decimal.mod_spec answered
    exact ⟨that, isRead, some_, scale, remainder, small, sameSign⟩
  | dividedBy this other options =>
    cases options with
    | none =>
      obtain ⟨that, isRead, some_, value, shortest, -⟩ := Decimal.dividedBy_exact answered
      exact ⟨that, isRead, some_, value, shortest⟩
    | some options =>
      obtain ⟨that, isRead, some_, named, fits, rounded⟩ := Decimal.dividedBy_spec answered
      exact ⟨that, isRead, some_, ⟨named, fits.1⟩, rounded⟩
  | pow this exponent =>
    obtain ⟨n, named, -, rest⟩ := Decimal.pow_spec answered
    exact ⟨n, named, rest⟩
  | negated this =>
    cases answered
    exact ⟨Decimal.negated_value, rfl⟩
  | abs this =>
    cases answered
    refine ⟨Decimal.abs_value, ?_⟩
    unfold Decimal.abs
    split
    · rfl
    · rfl
  | trim this =>
    cases answered
    obtain ⟨value, -, -, shortest⟩ := @Decimal.trim_spec this
    exact ⟨value, shortest⟩
  | toScale this scale rounding | round this scale rounding =>
    obtain ⟨named, within, rounded, -⟩ := Decimal.toScale_spec answered
    exact ⟨⟨named, within⟩, rounded⟩
  | roundToSignificant this digits rounding =>
    obtain ⟨count, named, positive, scale, rounded, -⟩ := Decimal.roundToSignificant_spec answered
    exact ⟨count, named, positive, scale, rounded⟩
  | roundTo this step rounding =>
    obtain ⟨unit, isRead, positive, scale, -, rounded⟩ := Decimal.roundTo_spec answered
    exact ⟨unit, isRead, positive, scale, rounded⟩

theorem multiple_of_rounded {exact_ unit result : ℚ} (isUnit : unit ≠ 0) (rounded : Rounded .unnecessary exact_ unit result) :
    Multiple exact_ unit := by
  obtain ⟨n, is, -⟩ := rounded
  exact ⟨n, (div_eq_iff isUnit).mp is⟩

theorem multiple_value (d : Decimal) : Multiple d.value (10 ^ d.scale)⁻¹ := ⟨d.coefficient, by rw [Decimal.value, div_eq_mul_inv]⟩

theorem not_inexact (answered : op.apply = .ok r) : ¬ op.Inexact := by
  have answers := apply_answers answered
  intro inexact
  cases op with
  | dividedBy this other options =>
    cases options with
    | none =>
      obtain ⟨that, isRead, -, rest⟩ := inexact
      obtain ⟨_, same, -, value, -⟩ := answers
      rw [isRead] at same
      cases same
      exact rest r.scale (value ▸ multiple_value r)
    | some options =>
      obtain ⟨that, places, isRead, -, ⟨named, -⟩, isExact, rest⟩ := inexact
      obtain ⟨_, same, -, ⟨named_, -⟩, rounded⟩ := answers
      rw [isRead] at same
      cases same
      rw [isExact] at rounded
      have scale : places = r.scale := by
        rw [named] at named_
        injection named_ with is
        exact_mod_cast is
      exact rest (scale ▸ multiple_of_rounded (by positivity) rounded)
  | pow this exponent =>
    obtain ⟨n, ⟨named, -⟩, negative, -, rest⟩ := inexact
    obtain ⟨m, named_, -, -, -, reciprocal⟩ := answers
    rw [named] at named_
    cases named_
    obtain ⟨d, value, -, -⟩ := reciprocal negative
    exact rest d.scale (value ▸ multiple_value d)
  | toScale this scale rounding | round this scale rounding =>
    obtain ⟨places, ⟨named, -⟩, isExact, rest⟩ := inexact
    obtain ⟨⟨named_, -⟩, rounded⟩ := answers
    rw [isExact] at rounded
    have same : places = r.scale := by
      rw [named] at named_
      injection named_ with is
      exact_mod_cast is
    exact rest (same ▸ multiple_of_rounded (by positivity) rounded)
  | roundToSignificant this digits rounding =>
    obtain ⟨count, ⟨named, -⟩, isExact, rest⟩ := inexact
    obtain ⟨count_, named_, -, -, rounded⟩ := answers
    rw [isExact] at rounded
    have same : count = count_ := by
      rw [named] at named_
      injection named_ with is
      exact_mod_cast is
    exact rest (same ▸ multiple_of_rounded (by positivity) rounded)
  | roundTo this step rounding =>
    obtain ⟨unit, isRead, positive, isExact, rest⟩ := inexact
    obtain ⟨_, same, -, -, rounded⟩ := answers
    rw [isRead] at same
    cases same
    rw [isExact] at rounded
    exact rest (multiple_of_rounded positive.ne' rounded)
  | _ => exact inexact

theorem inexact_of_refused (refused : op.apply = .error err) (isRounding : err.IsRounding) : op.Inexact := by
  have ofRefusal {valid inexact : Prop} (refusal : Refusal valid inexact err) : inexact := by
    rcases refusal with ⟨-, is⟩ | ⟨calm, -⟩
    · exact is
    · exact absurd isRounding calm
  cases op with
  | from_ input => exact Decimal.from_only _ err refused isRounding
  | sum values => exact Decimal.sum_only values err refused isRounding
  | max_ first rest => exact Decimal.pick_only err refused isRounding
  | min_ first rest => exact Decimal.pick_only err refused isRounding
  | plus this other => exact Decimal.plus_only _ err refused isRounding
  | minus this other => exact Decimal.minus_only _ err refused isRounding
  | times this other => exact Decimal.times_only _ err refused isRounding
  | mod this other => exact Decimal.mod_only _ err refused isRounding
  | dividedBy this other options =>
    cases options with
    | none => exact ofRefusal (Decimal.dividedBy_refuses_none other err refused)
    | some options => exact ofRefusal (Decimal.dividedBy_refuses other options err refused)
  | pow this exponent => exact ofRefusal (Decimal.pow_refuses exponent err refused)
  | negated this | abs this | trim this => cases refused
  | toScale this scale rounding | round this scale rounding => exact ofRefusal (Decimal.toScale_refuses scale rounding err refused)
  | roundToSignificant this digits rounding => exact ofRefusal (Decimal.roundToSignificant_refuses digits rounding err refused)
  | roundTo this step rounding => exact ofRefusal (Decimal.roundTo_refuses step rounding err refused)

/-- What is not representable is refused: rounding is asked for, or a limit is in the way. -/
theorem refused_of_inexact (inexact : op.Inexact) : ∃ err, op.apply = .error err ∧ (err.IsRounding ∨ err.IsLimit) := by
  have ofRefusal {valid inexact_ : Prop} {err : MathError} (refusal : Refusal valid inexact_ err) (is : valid) :
      err.IsRounding ∨ err.IsLimit := by
    rcases refusal with ⟨isRounding, -⟩ | ⟨-, limit⟩
    · exact .inl isRounding
    · exact .inr (limit is)
  cases answer : op.apply with
  | ok r => exact absurd inexact (not_inexact answer)
  | error err =>
    refine ⟨err, rfl, ?_⟩
    cases op with
    | dividedBy this other options =>
      cases options with
      | none =>
        obtain ⟨that, isRead, some_, -⟩ := inexact
        exact ofRefusal (Decimal.dividedBy_refuses_none other err answer) ⟨that, isRead, some_⟩
      | some options =>
        obtain ⟨that, places, isRead, some_, isScale, -⟩ := inexact
        exact ofRefusal (Decimal.dividedBy_refuses other options err answer) ⟨that, places, isRead, some_, isScale⟩
    | pow this exponent =>
      obtain ⟨n, isExponent, -, some_, -⟩ := inexact
      exact ofRefusal (Decimal.pow_refuses exponent err answer) ⟨n, isExponent, fun _ => some_⟩
    | toScale this scale rounding | round this scale rounding =>
      obtain ⟨places, isScale, -⟩ := inexact
      exact ofRefusal (Decimal.toScale_refuses scale rounding err answer) ⟨places, isScale⟩
    | roundToSignificant this digits rounding =>
      obtain ⟨count, isDigits, -⟩ := inexact
      exact ofRefusal (Decimal.roundToSignificant_refuses digits rounding err answer) ⟨count, isDigits⟩
    | roundTo this step rounding =>
      obtain ⟨unit, isRead, positive, -⟩ := inexact
      exact ofRefusal (Decimal.roundTo_refuses step rounding err answer) ⟨unit, isRead, positive⟩
    | _ => exact inexact.elim

theorem natAbs_le_of_value {a b : Decimal} (scale : a.scale = b.scale) (less : |a.value| ≤ |b.value|) :
    a.coefficient.natAbs ≤ b.coefficient.natAbs := by
  have power : (0 : ℚ) < 10 ^ b.scale := by positivity
  rw [Decimal.value, Decimal.value, scale, abs_div, abs_div, div_le_div_iff_of_pos_right (abs_pos.mpr power.ne'), ← Int.cast_abs,
    ← Int.cast_abs, Int.cast_le, Int.abs_eq_natAbs, Int.abs_eq_natAbs, Int.ofNat_le] at less
  exact less

theorem mod_fits {this that : Decimal} {other : DecimalInput} (left : this.Fits) (isRead : Decimal.from_ other = .ok that)
    (right : that.Fits) (answered : this.mod other = .ok r) : r.Fits := by
  obtain ⟨_, same, -, scale, -, lessRight, -, lessLeft⟩ := Decimal.mod_spec answered
  rw [isRead] at same
  cases same
  refine ⟨by rw [scale]; exact max_le left.1 right.1, ?_⟩
  rcases le_total that.scale this.scale with less | more
  · rw [max_eq_left less] at scale
    exact (natAbs_le_of_value scale lessLeft).trans_lt left.2
  · rw [max_eq_right more] at scale
    exact (natAbs_le_of_value scale lessRight.le).trans_lt right.2

theorem largestScale_le {ds : List Decimal} (fits : ∀ d ∈ ds, d.Fits) : Decimal.largestScale ds ≤ maxScale := by
  induction ds with
  | nil => exact Nat.zero_le _
  | cons d ds ih =>
    exact max_le (fits d List.mem_cons_self).1 (ih fun e inside => fits e (List.mem_cons_of_mem _ inside))

theorem read_fits {values : List DecimalInput} (given : ∀ d, DecimalInput.decimal d ∈ values → d.Fits) :
    ∀ d ∈ Decimal.read values, d.Fits := by
  intro d inside
  obtain ⟨input, among, isRead⟩ := List.mem_filterMap.mp inside
  cases answer : Decimal.from_ input with
  | error err =>
    rw [answer] at isRead
    cases isRead
  | ok e =>
    rw [answer] at isRead
    cases isRead
    exact Decimal.from_fits (fun value is => given value (is ▸ among)) answer

theorem apply_fits (operands : ∀ d, DecimalInput.decimal d ∈ op.inputs → d.Fits) (within : op.QuotientFits)
    (answered : op.apply = .ok r) : r.Fits := by
  have ofRead {other : DecimalInput} {that : Decimal} (among : other ∈ op.inputs) (isRead : Decimal.from_ other = .ok that) :
      that.Fits := Decimal.from_fits (fun value is => operands value (is ▸ among)) isRead
  cases op with
  | from_ input => exact ofRead List.mem_cons_self answered
  | sum values =>
    obtain ⟨-, -, scale, small⟩ := Decimal.sum_spec answered
    exact ⟨scale ▸ largestScale_le (read_fits operands), small⟩
  | max_ first rest => exact read_fits operands r (Decimal.max_spec answered).2.1
  | min_ first rest => exact read_fits operands r (Decimal.min_spec answered).2.1
  | plus this other =>
    obtain ⟨that, isRead, -, scale, small⟩ := Decimal.plus_spec answered
    exact ⟨scale ▸ max_le (operands this List.mem_cons_self).1 (ofRead (by simp [inputs]) isRead).1, small⟩
  | minus this other =>
    obtain ⟨that, isRead, -, scale, small⟩ := Decimal.minus_spec answered
    exact ⟨scale ▸ max_le (operands this List.mem_cons_self).1 (ofRead (by simp [inputs]) isRead).1, small⟩
  | times this other =>
    obtain ⟨-, -, -, -, fits⟩ := Decimal.times_spec answered
    exact fits
  | mod this other =>
    obtain ⟨that, isRead, -⟩ := Decimal.mod_spec answered
    exact mod_fits (operands this List.mem_cons_self) isRead (ofRead (by simp [inputs]) isRead) answered
  | dividedBy this other options =>
    cases options with
    | none =>
      obtain ⟨that, isRead, -, value, shortest, small⟩ := Decimal.dividedBy_exact answered
      refine ⟨shortest maxScale ?_, small⟩
      rw [value]
      exact within that r.scale isRead (value ▸ multiple_value r)
    | some options =>
      obtain ⟨-, -, -, -, fits, -⟩ := Decimal.dividedBy_spec answered
      exact fits
  | pow this exponent =>
    obtain ⟨-, -, fits, -⟩ := Decimal.pow_spec answered
    exact fits
  | negated this =>
    cases answered
    obtain ⟨scale, small⟩ := operands this List.mem_cons_self
    exact ⟨scale, by rw [Decimal.negated, Int.natAbs_neg]; exact small⟩
  | abs this =>
    cases answered
    obtain ⟨scale, small⟩ := operands this List.mem_cons_self
    unfold Decimal.abs
    split
    · exact ⟨scale, by rw [Decimal.negated, Int.natAbs_neg]; exact small⟩
    · exact ⟨scale, small⟩
  | trim this =>
    cases answered
    obtain ⟨scale, small⟩ := operands this List.mem_cons_self
    obtain ⟨-, less, shorter, -⟩ := @Decimal.trim_spec this
    exact ⟨less.trans scale, shorter.trans_lt small⟩
  | toScale this scale rounding | round this scale rounding =>
    obtain ⟨-, scale_, -, small⟩ := Decimal.toScale_spec answered
    exact ⟨scale_, small (operands this List.mem_cons_self).2⟩
  | roundToSignificant this digits rounding =>
    obtain ⟨count, -, -, scale, -, small⟩ := Decimal.roundToSignificant_spec answered
    obtain ⟨scale_, small_⟩ := operands this List.mem_cons_self
    exact ⟨by rw [scale]; omega, small small_⟩
  | roundTo this step rounding =>
    obtain ⟨-, -, -, -, fits, -⟩ := Decimal.roundTo_spec answered
    exact fits

end Operation

inductive Reachable : Decimal → Prop
  | step {op : Operation} {r : Decimal} (operands : ∀ d, DecimalInput.decimal d ∈ op.inputs → Reachable d)
    (within : op.QuotientFits) (answered : op.apply = .ok r) : Reachable r

theorem Reachable.fits {d : Decimal} (reachable : Reachable d) : d.Fits := by
  induction reachable with
  | step _ within answered ih => exact Operation.apply_fits ih within answered

/-- Arithmetic is exact or refuses, and whatever it reaches is within the limits and read back from its own text. -/
theorem exact_or_refused :
    (∀ d, Reachable d → d.scale ≤ maxScale ∧ digitCount d.coefficient ≤ maxDigits ∧
      parseDecimalString d.text = .ok d ∧ Decimal.from_ (.string d.toString) = .ok d) ∧
    (∀ op : Operation, (∀ r, op.apply = .ok r → op.Answers r) ∧
      (∀ err, op.apply = .error err → err.IsRounding → op.Inexact) ∧
      (op.Inexact → ∃ err, op.apply = .error err ∧ (err.IsRounding ∨ err.IsLimit))) ∧
    ∀ (values others : List DecimalInput) (left right : Decimal), values.Perm others → Decimal.sum values = .ok left →
      Decimal.sum others = .ok right → left = right := by
  refine ⟨fun d reachable => ?_, fun op => ⟨fun _ => op.apply_answers, fun _ => op.inexact_of_refused, op.refused_of_inexact⟩,
    fun _ _ _ _ => Decimal.sum_perm⟩
  have fits := reachable.fits
  exact ⟨fits.1, (digitCount_le (by decide)).mpr fits.2, parse_text fits, Decimal.from_toString fits⟩

theorem exact_or_refused_half : parseDecimalString (Decimal.text ⟨5, 1⟩) = .ok ⟨5, 1⟩ := by
  have read : Reachable ⟨5, 1⟩ := by
    refine @Reachable.step (.from_ (.string "0.5")) _ ?_ trivial rfl
    rintro d (⟨⟩ | ⟨_, ⟨⟩⟩)
  exact (exact_or_refused.1 _ read).2.2.1

section SumOrder

variable {big : Int} {fine : DecimalInput} {scale : Nat}

theorem sumStep_bigint (sofar : Int) (fits : digitCount big ≤ maxDigits) :
    Decimal.sumStep (sofar, 0) (.bigint big) = .ok (sofar + big, 0) := by
  have short : ¬ exceedsDigitLimit (digitCount big) = true := by simpa [exceedsDigitLimit] using fits
  have isRead : Decimal.from_ (.bigint big) = .ok ⟨big, 0⟩ := by
    simp only [Decimal.from_, partsFromBigInt, assertDigitLimit]
    rw [if_neg short]
    rfl
  unfold Decimal.sumStep
  rw [isRead]
  rfl

theorem sumStep_fine (sofar : Int) (isRead : Decimal.from_ fine = .ok ⟨1, scale⟩) (positive : 0 < scale) :
    Decimal.sumStep (sofar, 0) fine = timesPow10 sofar scale "The sum" >>= fun lifted => .ok (lifted + 1, scale) := by
  unfold Decimal.sumStep
  rw [isRead]
  show (if 0 < scale then _ else _) = _
  rw [if_pos positive]
  cases timesPow10 sofar (scale - 0) "The sum" with
  | error err => rfl
  | ok lifted =>
    show (if scale = scale then _ else _) = _
    rw [if_pos rfl]
    rfl

/-- Before the limit of the intermediate digits a number is lifted, past it not. -/
theorem timesPow10_limit (sofar : Int) (what : String) (far : 8000 < scale) :
    (digitCount sofar + scale ≤ maxIntegerDigits → timesPow10 sofar scale what = .ok (sofar * 10 ^ scale)) ∧
      (maxIntegerDigits < digitCount sofar + scale →
        ∃ message, timesPow10 sofar scale what = .error (.resourceLimit message)) := by
  unfold timesPow10 assertIntermediateDigits
  have checked : (8000 < scale || !isSmall sofar) = true := by simp [far]
  rw [if_pos checked]
  constructor
  · intro room
    rw [if_neg (not_lt.mpr room)]
    rfl
  · intro long
    rw [if_pos long]
    exact ⟨_, rfl⟩

theorem sum_eq {values : List DecimalInput} {coefficient : Int} (added : values.foldlM Decimal.sumStep (0, 0) = .ok (coefficient, scale))
    (small : Decimal.assertResultDigits coefficient "The sum" = .ok coefficient) : Decimal.sum values = .ok ⟨coefficient, scale⟩ := by
  unfold Decimal.sum
  rw [added]
  show (Decimal.assertResultDigits coefficient "The sum" >>= _) = _
  rw [small]
  rfl

/-- A number that fits is refused when a finer one comes while it is there, and added up when it is gone by then. -/
theorem sum_order (fits : digitCount big ≤ maxDigits) (isRead : Decimal.from_ fine = .ok ⟨1, scale⟩) (far : 8000 < scale)
    (room : digitCount 0 + scale ≤ maxIntegerDigits) (large : maxIntegerDigits < digitCount big + scale) :
    Decimal.sum [.bigint big, .bigint (-big), fine] = .ok ⟨1, scale⟩ ∧
      ∃ message, Decimal.sum [.bigint big, fine, .bigint (-big)] = .error (.resourceLimit message) := by
  have turned : digitCount (-big) ≤ maxDigits := by
    rw [digitCount, Int.natAbs_neg]
    exact fits
  have gone : 0 + big + -big = 0 := by omega
  constructor
  · have small : Decimal.assertResultDigits 1 "The sum" = .ok 1 := by
      unfold Decimal.assertResultDigits
      have within : ((10 : Int) ^ maxDigits ≤ 1 || 1 ≤ -(10 : Int) ^ maxDigits) = false := by
        have positive : (1 : Int) < 10 ^ maxDigits := one_lt_pow₀ (by decide) (by decide)
        simp only [Bool.or_eq_false_iff, decide_eq_false_iff_not, not_le]
        omega
      rw [within]
      rfl
    have added : [.bigint big, .bigint (-big), fine].foldlM Decimal.sumStep (0, 0) = .ok (1, scale) := by
      rw [List.foldlM_cons, sumStep_bigint 0 fits]
      show [.bigint (-big), fine].foldlM Decimal.sumStep (0 + big, 0) = _
      rw [List.foldlM_cons, sumStep_bigint _ turned, gone]
      show [fine].foldlM Decimal.sumStep (0, 0) = _
      rw [List.foldlM_cons, sumStep_fine 0 isRead (by omega), (timesPow10_limit 0 _ far).1 room, zero_mul]
      rfl
    exact sum_eq added small
  · obtain ⟨message, refused⟩ := (timesPow10_limit (0 + big) _ far).2 (by rw [zero_add]; exact large)
    refine ⟨message, ?_⟩
    have stopped : [.bigint big, fine, .bigint (-big)].foldlM Decimal.sumStep (0, 0) = .error (.resourceLimit message) := by
      rw [List.foldlM_cons, sumStep_bigint 0 fits]
      show [fine, .bigint (-big)].foldlM Decimal.sumStep (0 + big, 0) = _
      rw [List.foldlM_cons, sumStep_fine _ isRead (by omega), refused]
      rfl
    unfold Decimal.sum
    rw [stopped]
    rfl

theorem third_limit {third : DecimalInput} (isRead : Decimal.from_ third = .ok ⟨3, scale⟩) (far : 8000 < scale)
    (large : maxIntegerDigits < digitCount big + scale) :
    ∃ message, (Operation.dividedBy ⟨big, 0⟩ third none).apply = .error (.resourceLimit message) := by
  obtain ⟨message, refused⟩ := (timesPow10_limit big "The quotient" far).2 large
  refine ⟨message, ?_⟩
  show Decimal.dividedBy ⟨big, 0⟩ third none = _
  unfold Decimal.dividedBy
  rw [isRead]
  show (timesPow10 big scale "The quotient" >>= _) = _
  rw [refused]
  rfl

theorem third_inexact {third : DecimalInput} {zeros : Nat} (isRead : Decimal.from_ third = .ok ⟨3, scale⟩) :
    (Operation.dividedBy ⟨10 ^ zeros, 0⟩ third none).Inexact := by
  have some_ : (3 : Int) ≠ 0 := by decide
  refine ⟨_, isRead, Decimal.value_ne_zero.mpr some_, fun places multiple => ?_⟩
  have divides := Decimal.dvd_of_quotient (x := 10 ^ (zeros + scale + places)) (y := 3) (by positivity) some_ ?_ multiple
  · have prime : Prime (3 : Int) := Int.prime_three
    have inside : (3 : Int) ∣ 10 := prime.dvd_of_dvd_pow divides
    omega
  · rw [Decimal.value, Decimal.value, pow_zero, div_one, div_inv_eq_mul, pow_add, pow_add]
    push_cast
    rw [div_div_eq_mul_div, div_mul_eq_mul_div]

end SumOrder

theorem digitCount_pow (zeros : Nat) (positive : 0 < zeros) : digitCount ((10 : Int) ^ zeros) = zeros + 1 := by
  have size : ((10 : Int) ^ zeros).natAbs = 10 ^ zeros := Int.natAbs_pow 10 zeros
  have atMost : digitCount ((10 : Int) ^ zeros) ≤ zeros + 1 := by
    rw [digitCount_le (Nat.succ_pos _), size]
    exact Nat.pow_lt_pow_right (by decide) (Nat.lt_succ_self _)
  have more : ¬ digitCount ((10 : Int) ^ zeros) ≤ zeros := by
    rw [digitCount_le positive, size]
    exact lt_irrefl _
  omega

/-- The arguments `1e9999`, `-1e9999` and `1e-10000` have a sum in one order and none in another, and `1e9999` divided by
`3e-9000`, which is no decimal, is refused by the limit. -/
theorem order_and_limit_matter : (∃ values others : List DecimalInput, values.Perm others ∧
    (∃ d, Decimal.sum values = .ok d) ∧ ∃ message, Decimal.sum others = .error (.resourceLimit message)) ∧
      ∃ op : Operation, op.Inexact ∧ ∃ message, op.apply = .error (.resourceLimit message) := by
  have count := digitCount_pow 9999 (by decide)
  have fits : digitCount ((10 : Int) ^ 9999) ≤ maxDigits := count.le
  have limit : maxIntegerDigits = 18000 := rfl
  have fine : Decimal.from_ (.string "1e-10000") = .ok ⟨1, 10000⟩ := by decide +kernel
  have third : Decimal.from_ (.string "3e-9000") = .ok ⟨3, 9000⟩ := by decide +kernel
  obtain ⟨answered, refused⟩ := sum_order fits fine (by decide) (by decide) (by omega)
  refine ⟨⟨_, _, List.Perm.cons _ (List.Perm.swap _ _ _), ⟨_, answered⟩, refused⟩, _, @third_inexact _ _ 9999 third, ?_⟩
  exact third_limit third (by decide) (by omega)

end Arki.Math
