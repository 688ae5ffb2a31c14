import Arki.Money.Quantize
import Arki.Money.Ratios
import Arki.Money.Sums
import Mathlib

/-! Amounts in a payment provider's own units. A rule says how many decimals the provider's integer carries and which
multiple it must be. Conversion never rounds. -/

set_option autoImplicit false
set_option linter.dupNamespace false

namespace Arki.Money

open Arki (Double)
open Arki.Math (MathError Checked JsNumber)

structure ProviderUnitRule where
  scale : JsNumber
  step : Option JsNumber

structure CheckedRule where
  scale : Nat
  step : Option Nat
  within : scale ≤ maxScale
  positive : ∀ step' ∈ step, 0 < step'

abbrev BuiltCurrency := { currency : Currency // currency.scale ≤ maxScale }

inductive CurrencyLike where
  | code (code : String)
  | currency (currency : BuiltCurrency)

inductive ProviderUnits where
  | number (value : JsNumber)
  | bigint (value : Int)
  | text (value : String)
  | other

inductive ProviderFault where
  | returned (failure : MoneyFailure)
  /-- The failure `ProviderAmount`. -/
  | providerAmount
  | thrown (error : MathError)
  /-- `ProviderAmountError`. -/
  | providerAmountError (message : String)
  deriving DecidableEq

abbrev Converted := Except ProviderFault

def ProviderFault.IsReturned : ProviderFault → Prop
  | returned _ | providerAmount => True
  | thrown _ | providerAmountError _ => False

def badScale (scale : JsNumber) : MathError :=
  .invalidArgument ("A provider scale is a whole number from 0 to " ++ toString maxScale ++ ", got " ++ scale.spelling)

def badStep (step : JsNumber) : MathError :=
  .invalidArgument ("A provider step is a whole number of at least 1, got " ++ step.spelling)

def checkStep : Option JsNumber → Checked { step : Option Nat // ∀ step' ∈ step, 0 < step' }
  | none => .ok ⟨none, by simp⟩
  | some (.whole step) =>
    if legal : Math.isSafeInteger step = true ∧ 1 ≤ step then
      .ok ⟨some step.toNat, by simp only [Option.mem_some_iff, forall_eq']; have more := legal.2; omega⟩
    else .error (badStep (.whole step))
  | some step => .error (badStep step)

theorem toNat_within {scale : Int} (legal : 0 ≤ scale ∧ scale ≤ maxScale) : scale.toNat ≤ maxScale := by omega

def checkRule (rule : ProviderUnitRule) : Checked CheckedRule :=
  match rule.scale with
  | .whole scale =>
    if legal : 0 ≤ scale ∧ scale ≤ maxScale then
      (checkStep rule.step).map fun step => ⟨scale.toNat, step.1, toNat_within legal, step.2⟩
    else .error (badScale rule.scale)
  | _ => .error (badScale rule.scale)

def isOnStep (units : Units) (rule : CheckedRule) : Bool :=
  match rule.step with
  | none => true
  | some step => units.big.tmod step = 0

def Money.toDecimalString (this : Money) : String :=
  let sign := if this.units.value < 0 then "-" else ""
  let digits := Nat.toDigits 10 this.units.big.natAbs
  if this.scale = 0 then sign ++ String.ofList digits
  else
    let digits := if digits.length ≤ this.scale then List.replicate (this.scale - digits.length + 1) '0' ++ digits else digits
    let whole := digits.length - this.scale
    sign ++ String.ofList (digits.take whole) ++ "." ++ String.ofList (digits.drop whole)

def Money.toString (this : Money) : String := this.toDecimalString ++ " " ++ this.currency.code

def toProviderUnits (amount : Money) (rule : ProviderUnitRule) : Converted Double := do
  let rule ← (checkRule rule).mapError .thrown
  if !isExactAtScale amount.units amount.scale rule.scale then
    throw (.providerAmountError
      (amount.toString ++ " has more decimals than the provider accepts (" ++ ToString.toString rule.scale ++ ")"))
  let units ← (quantize amount.units amount.scale rule.scale none).mapError .thrown
  if !isOnStep units rule then
    throw (.providerAmountError (amount.toString ++ " must be a multiple of " ++
      ToString.toString (rule.step.getD 1) ++ " in the provider's units"))
  match units with
  | .number units => return units
  | .bigint _ => throw (.thrown (.numericRange (amount.toString ++ " is too large for a provider amount")))

/-- `Currency.parse`, for what is not a currency already. -/
def parseCurrency (table : String → Option BuiltCurrency) : CurrencyLike → Except MoneyFailure BuiltCurrency
  | .currency currency => .ok currency
  | .code code =>
    match table code with
    | some currency => .ok currency
    | none => .error .unknownCurrency

def toUnits : ProviderUnits → Except MoneyFailure Units
  | .number (.whole value) => if Math.isSafeInteger value then .ok (.number (.of value)) else .error .outOfRange
  | .number _ => .error .outOfRange
  | .bigint value => if exceedsDigits value then .error .inputTooLarge else .ok (canon value)
  | .text value =>
    if maxInputLength < jsLength value.toList then .error .inputTooLarge
    else
      match Math.readExponent value.toList with
      | some units => .ok (canon units)
      | none => .error .invalidText
  | .other => .error .invalidText

/-- At the currency's own scale, for a provider's payload: what does not fit is returned. -/
def fromProviderUnits (table : String → Option BuiltCurrency) (units : ProviderUnits) (currency : CurrencyLike)
    (rule : ProviderUnitRule) : Converted Money := do
  let rule ← (checkRule rule).mapError .thrown
  let target ← (parseCurrency table currency).mapError .returned
  let raw ← (toUnits units).mapError .returned
  if !isOnStep raw rule || !isExactAtScale raw rule.scale target.1.scale then throw .providerAmount
  -- a near-limit amount would pass the digits on its way to a currency with more decimals
  if rule.scale < target.1.scale && productExceedsDigits raw (pow10 (target.1.scale - rule.scale)) then
    throw (.returned .inputTooLarge)
  let units ← (quantize raw rule.scale target.1.scale none).mapError .thrown
  return ⟨units, target.1.scale, target.1⟩

def CheckedRule.OnStep (rule : CheckedRule) (n : Int) : Prop := ∀ step ∈ rule.step, (step : Int) ∣ n

def ProviderUnits.whole : ProviderUnits → Option Int
  | number (.whole value) => some value
  | bigint value => some value
  | text value => Math.readExponent value.toList
  | number _ | other => none

def Money.value (this : Money) : ℚ := this.units.value / 10 ^ this.scale

def Money.ExactAt (this : Money) (scale : Nat) : Prop := ∃ whole : Int, this.value = whole / 10 ^ scale

variable {table : String → Option BuiltCurrency} {rule : ProviderUnitRule} {checked : CheckedRule} {like : CurrencyLike}
  {target : BuiltCurrency} {payload : ProviderUnits} {currency : Currency} {raw : Units} {c n : Int} {scale : Nat} {u : Double}

theorem isOnStep_canon : isOnStep (canon n) checked = true ↔ checked.OnStep n := by
  unfold isOnStep CheckedRule.OnStep
  cases checked.step with
  | none => simp
  | some step => simp [Int.dvd_iff_tmod_eq_zero]

instance (rule : CheckedRule) (n : Int) : Decidable (rule.OnStep n) := decidable_of_iff _ isOnStep_canon

theorem toProviderUnits_quantized (valid : checkRule rule = .ok checked) (divides : (10 : Int) ^ (scale - checked.scale) ∣ c)
    (onStep : checked.OnStep n) (moved : quantize (canon c) scale checked.scale none = .ok (canon n)) :
    toProviderUnits ⟨canon c, scale, currency⟩ rule = if IsSafe n then .ok (.of n) else
      .error (.thrown (.numericRange (Money.toString ⟨canon c, scale, currency⟩ ++ " is too large for a provider amount"))) := by
  unfold toProviderUnits
  simp only [valid, moved, bind, Except.bind, Except.mapError, isExactAtScale_canon, decide_eq_true divides,
    isOnStep_canon.mpr onStep, Bool.not_true, Bool.false_eq_true, if_false, pure, Except.pure]
  by_cases safe : IsSafe n
  · rw [if_pos safe, canon_safe safe]
  · rw [if_neg safe, canon_big safe]
    rfl

theorem toProviderUnits_past (valid : checkRule rule = .ok checked) (divides : (10 : Int) ^ (scale - checked.scale) ∣ c)
    (past : quantize (canon c) scale checked.scale none = .error tooManyDigits) :
    toProviderUnits ⟨canon c, scale, currency⟩ rule = .error (.thrown tooManyDigits) := by
  unfold toProviderUnits
  simp only [valid, past, bind, Except.bind, Except.mapError, isExactAtScale_canon, decide_eq_true divides, Bool.not_true,
    Bool.false_eq_true, if_false]

theorem toProviderUnits_ok (valid : checkRule rule = .ok checked)
    (passed : toProviderUnits ⟨canon c, scale, currency⟩ rule = .ok u) :
    (10 : Int) ^ (scale - checked.scale) ∣ c ∧ checked.OnStep (rescaled c scale checked.scale) ∧
      IsSafe (rescaled c scale checked.scale) ∧ u = .of (rescaled c scale checked.scale) := by
  have divides : (10 : Int) ^ (scale - checked.scale) ∣ c := by
    by_contra lost
    unfold toProviderUnits at passed
    simp only [valid, bind, Except.bind, Except.mapError, isExactAtScale_canon, decide_eq_false lost, Bool.not_false, if_true] at passed
    cases passed
  rcases quantize_exact divides none with moved | past
  · have onStep : checked.OnStep (rescaled c scale checked.scale) := by
      by_contra off
      rw [← isOnStep_canon, Bool.not_eq_true] at off
      unfold toProviderUnits at passed
      simp only [valid, bind, Except.bind, Except.mapError, isExactAtScale_canon, decide_eq_true divides, Bool.not_true,
        Bool.false_eq_true, if_false, moved, off, Bool.not_false, if_true, pure, Except.pure] at passed
      cases passed
    rw [toProviderUnits_quantized valid divides onStep moved] at passed
    by_cases safe : IsSafe (rescaled c scale checked.scale)
    · rw [if_pos safe] at passed
      exact ⟨divides, onStep, safe, (Except.ok.inj passed).symm⟩
    · rw [if_neg safe] at passed
      cases passed
  · rw [toProviderUnits_past valid divides past] at passed
    cases passed

theorem readExponent_fits {text : List Char} (short : jsLength text ≤ maxInputLength) (read : Math.readExponent text = some n) :
    Fits n := by
  unfold Math.readExponent at read
  simp only at read
  generalize isDigits : (if text.head? = some '+' || text.head? = some '-' then text.tail else text) = digits at read
  have few : digits.length ≤ maxInputLength := by
    have units : text.length ≤ jsLength text := by
      unfold jsLength
      calc text.length = (text.map fun _ => 1).sum := by simp
        _ ≤ _ := List.sum_le_sum fun c _ => by split <;> omega
    have tail : digits.length ≤ text.length := by
      rw [← isDigits]
      split
      · simp
      · exact le_rfl
    omega
  split at read
  · cases read
  · next legal =>
    simp only [Bool.or_eq_true, Bool.not_eq_true', not_or, Bool.not_eq_false] at legal
    have less := Math.ofDigitChars_lt digits 0 legal.2
    have size : n.natAbs = Nat.ofDigitChars 10 digits 0 := by
      rw [← Option.some.inj read]
      split
      · rw [Int.natAbs_neg, Int.natAbs_natCast]
      · rw [Int.natAbs_natCast]
    refine (fits_pow few).mono ?_
    rw [size, Int.natAbs_pow]
    rw [Nat.zero_add, Nat.mul_one] at less
    exact less.le

theorem toUnits_ok (passed : toUnits payload = .ok raw) : ∃ n, payload.whole = some n ∧ raw = canon n ∧ Fits n := by
  unfold toUnits at passed
  cases payload with
  | number value =>
    cases value with
    | whole value =>
      simp only at passed
      by_cases safe : Math.isSafeInteger value = true
      · rw [if_pos safe] at passed
        have within : IsSafe value := by
          rw [Math.isSafeInteger, decide_eq_true_eq] at safe
          unfold IsSafe maxSafe
          omega
        exact ⟨value, rfl, by rw [canon_safe within, ← Except.ok.inj passed], Fits.safe within⟩
      · rw [if_neg safe] at passed
        cases passed
    | fraction spelling => cases passed
    | notFinite spelling => cases passed
  | bigint value =>
    simp only at passed
    by_cases past : exceedsDigits value = true
    · rw [if_pos past] at passed
      cases passed
    · rw [if_neg past] at passed
      refine ⟨value, rfl, (Except.ok.inj passed).symm, ?_⟩
      rw [exceedsDigits, decide_eq_true_eq, not_lt] at past
      exact past
  | text value =>
    simp only at passed
    split at passed
    · cases passed
    · next short =>
      split at passed
      · next units read => exact ⟨units, read, (Except.ok.inj passed).symm, readExponent_fits (not_lt.mp short) read⟩
      · cases passed
  | other => cases passed

theorem fromProviderUnits_eq (valid : checkRule rule = .ok checked) (resolved : parseCurrency table like = .ok target)
    (read : toUnits payload = .ok (canon n)) (fits : Fits n) :
    fromProviderUnits table payload like rule =
      if ¬ checked.OnStep n ∨ ¬ (10 : Int) ^ (checked.scale - target.1.scale) ∣ n then .error .providerAmount
      else if checked.scale < target.1.scale ∧
          maxHexDigits + 1 < hexDigits n + hexDigits (10 ^ (target.1.scale - checked.scale)) then .error (.returned .inputTooLarge)
      else .ok ⟨canon (rescaled n checked.scale target.1.scale), target.1.scale, target.1⟩ := by
  unfold fromProviderUnits
  simp only [valid, resolved, read, bind, Except.bind, Except.mapError, isExactAtScale_canon, pow10_canon, productExceedsDigits_canon]
  by_cases onStep : checked.OnStep n
  · by_cases divides : (10 : Int) ^ (checked.scale - target.1.scale) ∣ n
    · have legal : ¬ (¬ checked.OnStep n ∨ ¬ (10 : Int) ^ (checked.scale - target.1.scale) ∣ n) := by simp [onStep, divides]
      rw [if_neg legal]
      simp only [isOnStep_canon.mpr onStep, decide_eq_true divides, Bool.not_true, Bool.or_self, Bool.false_eq_true, if_false,
        Bool.and_eq_true, decide_eq_true_eq]
      by_cases past : checked.scale < target.1.scale ∧
          maxHexDigits + 1 < hexDigits n + hexDigits (10 ^ (target.1.scale - checked.scale))
      · rw [if_pos past, if_pos past]
        rfl
      · have moved := quantize_within divides (fun _ => fits)
          (fun less => not_lt.mp fun room => past ⟨less, room⟩) none
        rw [if_neg past, if_neg past, moved]
        rfl
    · rw [if_pos (Or.inr divides : ¬ checked.OnStep n ∨ _)]
      simp only [decide_eq_false divides, Bool.not_false, Bool.or_true, if_true]
      rfl
  · have off : isOnStep (canon n) checked = false := by
      rw [← Bool.not_eq_true, isOnStep_canon]
      exact onStep
    rw [if_pos (Or.inl onStep : _ ∨ ¬ (10 : Int) ^ (checked.scale - target.1.scale) ∣ n)]
    simp only [off, Bool.not_false, Bool.true_or, if_true]
    rfl

theorem fromProviderUnits_ok (valid : checkRule rule = .ok checked) {read : Money}
    (passed : fromProviderUnits table payload like rule = .ok read) :
    ∃ n target, payload.whole = some n ∧ Fits n ∧ checked.OnStep n ∧ (10 : Int) ^ (checked.scale - target.1.scale) ∣ n ∧
      read = ⟨canon (rescaled n checked.scale target.1.scale), (target : BuiltCurrency).1.scale, target.1⟩ := by
  cases resolved : parseCurrency table like with
  | error failure =>
    unfold fromProviderUnits at passed
    simp only [valid, resolved, bind, Except.bind, Except.mapError] at passed
    cases passed
  | ok target =>
    cases isRaw : toUnits payload with
    | error failure =>
      unfold fromProviderUnits at passed
      simp only [valid, resolved, isRaw, bind, Except.bind, Except.mapError] at passed
      cases passed
    | ok raw =>
      obtain ⟨n, whole, rfl, fits⟩ := toUnits_ok isRaw
      rw [fromProviderUnits_eq valid resolved isRaw fits] at passed
      split at passed
      · cases passed
      · next exact_ =>
        rw [not_or, not_not, not_not] at exact_
        split at passed
        · cases passed
        · exact ⟨n, target, whole, fits, exact_.1, exact_.2, (Except.ok.inj passed).symm⟩

theorem fromProviderUnits_returned (valid : checkRule rule = .ok checked) {fault : ProviderFault}
    (failed : fromProviderUnits table payload like rule = .error fault) : fault.IsReturned := by
  cases resolved : parseCurrency table like with
  | error failure =>
    unfold fromProviderUnits at failed
    simp only [valid, resolved, bind, Except.bind, Except.mapError] at failed
    rw [← Except.error.inj failed]
    trivial
  | ok target =>
    cases isRaw : toUnits payload with
    | error failure =>
      unfold fromProviderUnits at failed
      simp only [valid, resolved, isRaw, bind, Except.bind, Except.mapError] at failed
      rw [← Except.error.inj failed]
      trivial
    | ok raw =>
      obtain ⟨n, whole, rfl, fits⟩ := toUnits_ok isRaw
      rw [fromProviderUnits_eq valid resolved isRaw fits] at failed
      split at failed
      · rw [← Except.error.inj failed]
        trivial
      · split at failed
        · rw [← Except.error.inj failed]
          trivial
        · cases failed

theorem rescaled_room (within : scale ≤ maxScale) (fits : Fits n) {fraction : Nat} (less : fraction < scale)
    (divides : (10 : Int) ^ (scale - fraction) ∣ n) :
    hexDigits (rescaled n scale fraction) + hexDigits (10 ^ (scale - fraction)) ≤ maxHexDigits + 1 := by
  unfold rescaled
  rw [if_neg (not_le.mpr less)]
  obtain ⟨quotient, rfl⟩ := divides
  rw [Int.mul_ediv_cancel_left _ (pow10_pos _).ne']
  have power := hexDigits_pow10 (show scale - fraction ≤ maxScale by omega)
  by_cases zero : quotient = 0
  · have one : hexDigits 0 = 1 := by decide
    rw [zero, one]
    unfold maxHexDigits
    omega
  · have both := hexDigits_mul (pow10_pos (scale - fraction)).ne' zero
    unfold Fits at fits
    omega

/-- An amount that was read and is sent again: it is the payload's number, unless that has too many digits on the way. -/
theorem sent_again (currency : Currency) (valid : checkRule rule = .ok checked) (fits : Fits n) (onStep : checked.OnStep n)
    (divides : (10 : Int) ^ (checked.scale - scale) ∣ n) :
    toProviderUnits ⟨canon (rescaled n checked.scale scale), scale, currency⟩ rule =
      if checked.scale < scale ∧ ¬ Fits (rescaled n checked.scale scale) then .error (.thrown tooManyDigits)
      else if IsSafe n then .ok (.of n)
      else .error (.thrown (.numericRange
        (Money.toString ⟨canon (rescaled n checked.scale scale), scale, currency⟩ ++ " is too large for a provider amount"))) := by
  have back : (10 : Int) ^ (scale - checked.scale) ∣ rescaled n checked.scale scale := exact_iff.mpr ⟨n, rescaled_value divides⟩
  by_cases past : checked.scale < scale ∧ ¬ Fits (rescaled n checked.scale scale)
  · rw [if_pos past]
    refine toProviderUnits_past valid back ?_
    rw [quantize_down past.1 back, if_neg past.2]
  · rw [if_neg past]
    refine toProviderUnits_quantized valid back onStep ?_
    have moved := quantize_within back (fun less => not_not.mp fun lost => past ⟨less, lost⟩)
      (fun less => rescaled_room checked.within fits less divides) none
    rw [moved, rescaled_back divides]

theorem rescaled_safe (within : scale ≤ maxScale) (safe : IsSafe n) {fraction : Nat} (less : fraction < scale) :
    Fits (rescaled n fraction scale) := by
  unfold rescaled
  rw [if_pos less.le]
  have power := hexDigits_pow10 (show scale - fraction ≤ maxScale by omega)
  have few := safe.hexDigits
  have both := hexDigits_mul_le n (10 ^ (scale - fraction))
  unfold Fits maxHexDigits
  omega

/-- What is sent is the amount, and reads back as it whenever its currency can hold it. -/
def SendsExactly (table : String → Option BuiltCurrency) (rule : ProviderUnitRule) (checked : CheckedRule) : Prop :=
  ∀ (c : Int) (scale : Nat) (currency : BuiltCurrency) (u : Double), toProviderUnits ⟨canon c, scale, currency.1⟩ rule = .ok u →
    ∃ n : Int, u = .of n ∧ IsSafe n ∧ checked.OnStep n ∧ (n : ℚ) / 10 ^ checked.scale = Money.value ⟨canon c, scale, currency.1⟩ ∧
      (Money.ExactAt ⟨canon c, scale, currency.1⟩ currency.1.scale →
        ∃ back, fromProviderUnits table (.number (.whole n)) (.currency currency) rule = .ok back ∧
          back.currency = currency.1 ∧ back.value = Money.value ⟨canon c, scale, currency.1⟩) ∧
      (¬ Money.ExactAt ⟨canon c, scale, currency.1⟩ currency.1.scale →
        fromProviderUnits table (.number (.whole n)) (.currency currency) rule = .error .providerAmount)

/-- What is read is what the payload says, and is sent as that again while it is a safe integer. -/
def ReadsExactly (table : String → Option BuiltCurrency) (rule : ProviderUnitRule) (checked : CheckedRule) : Prop :=
  ∀ (payload : ProviderUnits) (like : CurrencyLike) (read : Money), fromProviderUnits table payload like rule = .ok read →
    ∃ n : Int, payload.whole = some n ∧ read.value = n / 10 ^ checked.scale ∧
      (IsSafe n → toProviderUnits read rule = .ok (.of n)) ∧
      (¬ IsSafe n → ¬ (checked.scale < read.scale ∧ exceedsDigits read.units.big) →
        ∃ message, toProviderUnits read rule = .error (.thrown (.numericRange message))) ∧
      (¬ IsSafe n → checked.scale < read.scale ∧ exceedsDigits read.units.big →
        toProviderUnits read rule = .error (.thrown tooManyDigits))

theorem sends_exactly (table : String → Option BuiltCurrency) (valid : checkRule rule = .ok checked) :
    SendsExactly table rule checked := by
  intro c scale currency u passed
  obtain ⟨divides, onStep, safe, rfl⟩ := toProviderUnits_ok valid passed
  have same := rescaled_value divides
  set n := rescaled c scale checked.scale with isN
  have value : Money.value ⟨canon c, scale, currency.1⟩ = (c : ℚ) / 10 ^ scale := by simp [Money.value]
  have read : toUnits (.number (.whole n)) = .ok (canon n) := by
    have legal : Math.isSafeInteger n = true := by
      rw [Math.isSafeInteger, decide_eq_true_eq]
      unfold IsSafe maxSafe at safe
      omega
    rw [toUnits, if_pos legal, canon_safe safe]
  have sent := fromProviderUnits_eq valid (show parseCurrency table (.currency currency) = .ok currency from rfl) read (Fits.safe safe)
  refine ⟨n, rfl, safe, onStep, by rw [same, value], ?_, ?_⟩
  · rintro ⟨whole, exact_⟩
    rw [value, ← same] at exact_
    have fits := exact_iff.mpr ⟨whole, exact_⟩
    refine ⟨⟨canon (rescaled n checked.scale currency.1.scale), currency.1.scale, currency.1⟩, ?_, rfl, ?_⟩
    · rw [sent, if_neg (by rw [not_or, not_not, not_not]; exact ⟨onStep, fits⟩), if_neg]
      rintro ⟨less, past⟩
      have within := currency.2
      have power := hexDigits_pow10 (show currency.1.scale - checked.scale ≤ maxScale by omega)
      have few := safe.hexDigits
      unfold maxHexDigits at past
      omega
    · rw [value, ← same, ← rescaled_value fits]
      simp [Money.value]
  · intro inexact
    rw [sent, if_pos]
    refine .inr fun fits => inexact ?_
    obtain ⟨whole, exact_⟩ := exact_iff.mp fits
    exact ⟨whole, by rw [value, ← same, exact_]⟩

theorem reads_exactly (table : String → Option BuiltCurrency) (valid : checkRule rule = .ok checked) :
    ReadsExactly table rule checked := by
  intro payload like read passed
  obtain ⟨n, target, whole, fits, onStep, divides, rfl⟩ := fromProviderUnits_ok valid passed
  have again := sent_again target.1 valid fits onStep divides
  have digits : exceedsDigits (rescaled n checked.scale target.1.scale) = true ↔
      ¬ Fits (rescaled n checked.scale target.1.scale) := by
    rw [exceedsDigits, decide_eq_true_eq, ← not_le]
    rfl
  refine ⟨n, whole, ?_, ?_, ?_, ?_⟩
  · rw [← rescaled_value divides]
    simp [Money.value]
  · intro safe
    rw [again, if_neg, if_pos safe]
    rintro ⟨less, past⟩
    exact past (rescaled_safe target.2 safe less)
  · intro large within
    rw [canon_big_value, digits] at within
    rw [again, if_neg within, if_neg large]
    exact ⟨_, rfl⟩
  · intro large past
    rw [canon_big_value, digits] at past
    rw [again, if_pos past]

def usd : BuiltCurrency := ⟨⟨"USD", some "840", 2, true⟩, by decide⟩

def nearLimit : Int := 16 ^ maxHexDigits - 1

theorem lost_on_the_way (fits : Fits n) (lost : ¬ Fits (rescaled n 1 2)) :
    ∃ read, fromProviderUnits table (.bigint n) (.currency usd) ⟨.whole 1, none⟩ = .ok read ∧
      toProviderUnits read ⟨.whole 1, none⟩ = .error (.thrown tooManyDigits) := by
  have valid : checkRule ⟨.whole 1, none⟩ = .ok ⟨1, none, by decide, by simp⟩ := rfl
  have read : toUnits (.bigint n) = .ok (canon n) := by
    rw [toUnits, if_neg]
    rw [exceedsDigits, decide_eq_true_eq, not_lt]
    exact fits
  have onStep : CheckedRule.OnStep ⟨1, none, by decide, by simp⟩ n := by simp [CheckedRule.OnStep]
  have divides : (10 : Int) ^ (1 - 2) ∣ n := one_dvd n
  refine ⟨⟨canon (rescaled n 1 2), 2, usd.1⟩, ?_, ?_⟩
  · have resolved : parseCurrency table (.currency usd) = .ok usd := rfl
    rw [fromProviderUnits_eq valid resolved read fits, if_neg, if_neg]
    · rfl
    · rintro ⟨less, past⟩
      have digit : hexDigits (10 ^ (2 - 1)) = 1 := by decide
      unfold Fits at fits
      have sum : maxHexDigits + 1 < hexDigits n + hexDigits (10 ^ (2 - 1)) := past
      omega
    · rw [not_or, not_not, not_not]
      exact ⟨onStep, divides⟩
  · have again := sent_again usd.1 valid fits onStep (show (10 : Int) ^ (1 - 2) ∣ n from divides)
    rw [if_pos ⟨by decide, lost⟩] at again
    exact again

end Arki.Money
