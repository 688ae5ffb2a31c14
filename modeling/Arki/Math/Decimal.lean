import Arki.Math.BigInt

/-! Exact finite decimals with a retained scale: reading, printing and the operations.

A JavaScript number is known by whether it is whole, and by its shortest spelling; a text is the list of its characters.
-/

set_option autoImplicit false

namespace Arki.Math

/-- `coefficient × 10^-scale`. The scale is retained. -/
structure Decimal where
  coefficient : Int
  scale : Nat
  deriving DecidableEq

inductive JsNumber where
  | whole (value : Int)
  | fraction (spelling : String)
  | notFinite (spelling : String)
  deriving DecidableEq

def JsNumber.spelling : JsNumber → String
  | whole value => toString value
  | fraction spelling | notFinite spelling => spelling

/-- `Number.isSafeInteger`. -/
def isSafeInteger (value : Int) : Bool := value.natAbs ≤ 2 ^ 53 - 1

inductive DecimalInput where
  | decimal (value : Decimal)
  | string (text : String)
  | number (value : JsNumber)
  | bigint (value : Int)
  deriving DecidableEq

/-! Reading. -/

inductive ParseFailure where
  | invalidNumber
  | numberOutOfRange
  deriving DecidableEq

/-- `/^[+-]?\d+$/`, and the number it spells. -/
def readExponent (text : List Char) : Option Int :=
  let digits := if text.head? = some '+' || text.head? = some '-' then text.tail else text
  if digits = [] || !digits.all Char.isDigit then none
  else
    let magnitude := Nat.ofDigitChars 10 digits 0
    some (if text.head? = some '-' then -magnitude else magnitude)

def exponentOf (digits : Nat) (rest : List Char) : Except ParseFailure Int :=
  match rest with
  | [] => if digits = 0 then .error .invalidNumber else .ok 0
  | marker :: text =>
    if marker = 'e' || marker = 'E' then
      match readExponent text with
      | none => .error .invalidNumber
      | some exponent =>
        if digits = 0 then .error .invalidNumber
        else if exceedsScaleLimit exponent then .error .numberOutOfRange
        else .ok exponent
    else .error .invalidNumber

def partsOf (negative : Bool) (integer fraction : List Char) (exponent : Int) : Except ParseFailure Decimal :=
  -- leading zeros carry no value: only the coefficient's digits count
  let whole := integer.dropWhile (· = '0')
  let part := if whole = [] then fraction.dropWhile (· = '0') else fraction
  let significantDigits := whole.length + part.length
  -- a positive exponent beyond the fraction digits pads a non-zero coefficient with zeros
  let paddedDigits := if significantDigits = 0 then 0 else (exponent - fraction.length).toNat
  if exceedsDigitLimit (significantDigits + paddedDigits) then .error .numberOutOfRange
  else
    let scale : Int := fraction.length - exponent
    if exceedsScaleLimit scale then .error .numberOutOfRange
    else
      let magnitude : Int := Nat.ofDigitChars 10 (whole ++ part) 0
      let coefficient := if negative then -magnitude else magnitude
      .ok (if scale < 0 then ⟨coefficient * 10 ^ (-scale).toNat, 0⟩ else ⟨coefficient, scale.toNat⟩)

/-- `[sign] digits [. digits] [e|E [sign] digits]`. -/
def parseDecimalString (input : List Char) : Except ParseFailure Decimal := do
  let unsigned := if input.head? = some '+' || input.head? = some '-' then input.tail else input
  let integer := unsigned.takeWhile Char.isDigit
  let afterInteger := unsigned.dropWhile Char.isDigit
  let hasPoint := afterInteger.head? = some '.'
  let fraction := if hasPoint then afterInteger.tail.takeWhile Char.isDigit else []
  let rest := if hasPoint then afterInteger.tail.dropWhile Char.isDigit else afterInteger
  let exponent ← exponentOf (integer.length + fraction.length) rest
  partsOf (input.head? = some '-') integer fraction exponent

def decimalParts (input : String) : Checked Decimal :=
  match parseDecimalString input.toList with
  | .ok parts => .ok parts
  | .error .invalidNumber => .error (.numberFormat ("\"" ++ input ++ "\" is not a decimal number"))
  | .error .numberOutOfRange =>
    .error (.resourceLimit ("\"" ++ String.ofList (input.toList.take 20) ++ "…\" is past the limit of " ++ toString maxDigits ++
      " digits or an exponent and scale of ±" ++ toString maxScale))

def partsFromNumber : JsNumber → Checked Decimal
  | .notFinite spelling => .error (.numericRange (spelling ++ " is not a finite number"))
  | .whole value =>
    if isSafeInteger value then decimalParts (toString value)
    else
      .error (.numericRange (toString value ++
        " is not a safe integer; its digits are already lost. Pass a string or bigint instead"))
  | .fraction spelling => decimalParts spelling

def partsFromBigInt (value : Int) : Checked Decimal := do
  assertDigitLimit (digitCount value) "bigint input"
  return ⟨value, 0⟩

namespace Decimal

def from_ : DecimalInput → Checked Decimal
  | .decimal value => .ok value
  | .string text => decimalParts text
  | .number value => partsFromNumber value
  | .bigint value => partsFromBigInt value

/-! Printing. -/

def text (this : Decimal) : List Char :=
  let digits := Nat.toDigits 10 this.coefficient.natAbs
  let sign := if this.coefficient < 0 then ['-'] else []
  if this.scale = 0 then sign ++ digits
  else if this.scale < digits.length then
    sign ++ digits.take (digits.length - this.scale) ++ '.' :: digits.drop (digits.length - this.scale)
  else sign ++ '0' :: '.' :: (List.replicate (this.scale - digits.length) '0' ++ digits)

def toString (this : Decimal) : String := String.ofList this.text

/-! Arithmetic. -/

def one : Decimal := ⟨1, 0⟩

def isZero (this : Decimal) : Bool := this.coefficient = 0

def isPositive (this : Decimal) : Bool := 0 < this.coefficient

def assertResultDigits (value : Int) (what : String) : Checked Int :=
  if (10 : Int) ^ maxDigits ≤ value || value ≤ -(10 : Int) ^ maxDigits then
    .error (.resourceLimit (what ++ " would have more than " ++ ToString.toString maxDigits ++ " digits"))
  else .ok value

def align (a b : Decimal) : Checked (Int × Int × Nat) :=
  if a.scale = b.scale then .ok (a.coefficient, b.coefficient, a.scale)
  else if b.scale < a.scale then do
    let scaled ← timesPow10 b.coefficient (a.scale - b.scale) "The value"
    return (a.coefficient, scaled, a.scale)
  else do
    let scaled ← timesPow10 a.coefficient (b.scale - a.scale) "The value"
    return (scaled, b.coefficient, b.scale)

/-- One step of `sum`: the coefficient and the scale so far. -/
def sumStep (sofar : Int × Nat) (value : DecimalInput) : Checked (Int × Nat) := do
  let d ← from_ value
  let (coefficient, scale) ← if sofar.2 < d.scale then do
      let scaled ← timesPow10 sofar.1 (d.scale - sofar.2) "The sum"
      pure (scaled, d.scale)
    else pure sofar
  let scaled ← if d.scale = scale then pure d.coefficient else timesPow10 d.coefficient (scale - d.scale) "The sum"
  return (coefficient + scaled, scale)

def sum (values : List DecimalInput) : Checked Decimal := do
  let (coefficient, scale) ← values.foldlM sumStep (0, 0)
  let coefficient ← assertResultDigits coefficient "The sum"
  return ⟨coefficient, scale⟩

def plus (this : Decimal) (other : DecimalInput) : Checked Decimal := do
  let (a, b, scale) ← align this (← from_ other)
  let coefficient ← assertResultDigits (a + b) "The sum"
  return ⟨coefficient, scale⟩

def minus (this : Decimal) (other : DecimalInput) : Checked Decimal := do
  let (a, b, scale) ← align this (← from_ other)
  let coefficient ← assertResultDigits (a - b) "The difference"
  return ⟨coefficient, scale⟩

def times (this : Decimal) (other : DecimalInput) : Checked Decimal := do
  let that ← from_ other
  let scale := this.scale + that.scale
  if maxScale < scale then
    throw (.resourceLimit ("The product would have " ++ ToString.toString scale ++ " fraction digits; the limit is " ++
      ToString.toString maxScale))
  let product ← multiplyChecked this.coefficient that.coefficient "The product"
  let coefficient ← assertResultDigits product "The product"
  return ⟨coefficient, scale⟩

structure ScaleOptions where
  scale : JsNumber
  rounding : Option RoundingMode
  deriving DecidableEq

def assertScale (scale : JsNumber) : Checked Nat :=
  match scale with
  | .whole value =>
    if value < 0 then .error (.invalidArgument ("Scale must be a non-negative integer, got " ++ ToString.toString value))
    else do
      assertScaleLimit value "Scale"
      return value.toNat
  | other => .error (.invalidArgument ("Scale must be a non-negative integer, got " ++ other.spelling))

/-- `numerator / denominator` at a scale, or as the shortest decimal that is exactly equal. -/
def fractionToDecimalParts (numerator denominator : Int) (options : Option ScaleOptions) : Checked Decimal := do
  if denominator = 0 then throw (.divisionByZero "Division by zero")
  match options with
  | some options =>
    let scale ← assertScale options.scale
    let scaled ← timesPow10 numerator scale "The quotient"
    let coefficient ← divideRounded scaled denominator (options.rounding.getD .unnecessary)
    return ⟨coefficient, scale⟩
  | none =>
    let divisor : Int := gcd numerator denominator
    let p := if denominator < 0 then -(numerator.tdiv divisor) else numerator.tdiv divisor
    let q := (denominator.tdiv divisor).natAbs
    let (afterTwos, twos) := stripFactor q 2
    let (rest, fives) := stripFactor afterTwos 5
    if rest ≠ 1 then
      throw (.roundingNecessary (ToString.toString p ++ "/" ++ ToString.toString q ++
        " has no exact decimal form; pass { scale, rounding } to round it, or keep it as a ratio()"))
    let scale := max twos fives
    let scaled ← timesPow10 p scale "The quotient"
    return ⟨scaled.tdiv q, scale⟩

def dividedBy (this : Decimal) (other : DecimalInput) (options : Option ScaleOptions) : Checked Decimal := do
  let that ← from_ other
  let numerator ← timesPow10 this.coefficient that.scale "The quotient"
  let denominator ← timesPow10 that.coefficient this.scale "The quotient"
  let parts ← fractionToDecimalParts numerator denominator options
  let _ ← assertResultDigits parts.coefficient "The quotient"
  return parts

def mod (this : Decimal) (other : DecimalInput) : Checked Decimal := do
  let that ← from_ other
  if that.isZero then throw (.divisionByZero "Division by zero")
  let (a, b, scale) ← align this that
  return ⟨a.tmod b, scale⟩

def log10OfMagnitude (magnitude : Nat) : Float :=
  let text := Nat.toDigits 10 magnitude
  let lead := text.take 17
  Float.log10 (Float.ofNat (Nat.ofDigitChars 10 lead 0)) + Float.ofNat (text.length - lead.length)

def tooManyDigits (magnitude exponent : Nat) : Bool :=
  Float.ofNat maxDigits < Float.floor (Float.ofNat exponent * log10OfMagnitude magnitude - 1e-9) + 1

def powerWithinLimit (base : Int) (exponent : Nat) (what : String) : Checked Int :=
  if base.natAbs ≤ 1 then .ok (if base < 0 ∧ exponent % 2 = 0 then 1 else base)
  else if tooManyDigits base.natAbs exponent then
    .error (.resourceLimit (what ++ " would have more than " ++ ToString.toString maxDigits ++ " digits"))
  else assertResultDigits (base ^ exponent) what

def powPositive (this : Decimal) (exponent : Nat) : Checked Decimal := do
  let scale := this.scale * exponent
  let what := this.toString ++ " ^ " ++ ToString.toString exponent
  if maxScale < scale then
    throw (.resourceLimit (what ++ " would have " ++ ToString.toString scale ++ " fraction digits; the limit is " ++
      ToString.toString maxScale))
  let coefficient ← powerWithinLimit this.coefficient exponent what
  return ⟨coefficient, scale⟩

/-- Integer exponent. A negative one raises the reciprocal, which must terminate. -/
def pow (this : Decimal) (exponent : JsNumber) : Checked Decimal :=
  match exponent with
  | .whole value =>
    if !isSafeInteger value then
      .error (.invalidArgument ("Exponent must be a safe integer, got " ++ ToString.toString value))
    else if value = 0 then .ok one
    else if value < 0 then
      if this.isZero then .error (.divisionByZero "Zero cannot be raised to a negative power")
      else do
        let reciprocal ← one.dividedBy (.decimal this) none
        reciprocal.powPositive (-value).toNat
    else this.powPositive value.toNat
  | other => .error (.invalidArgument ("Exponent must be a safe integer, got " ++ other.spelling))

def negated (this : Decimal) : Decimal := ⟨-this.coefficient, this.scale⟩

def abs (this : Decimal) : Decimal := if this.coefficient < 0 then this.negated else this

/-! Scale. -/

/-- Changes the number of fraction digits. Dropping non-zero digits needs a rounding mode. -/
def toScale (this : Decimal) (scale : JsNumber) (rounding : RoundingMode) : Checked Decimal := do
  let scale ← assertScale scale
  if scale = this.scale then return this
  else if this.scale < scale then
    let scaled ← timesPow10 this.coefficient (scale - this.scale) "The value"
    let coefficient ← assertResultDigits scaled "The value"
    return ⟨coefficient, scale⟩
  else
    let coefficient ← divideRounded this.coefficient (10 ^ (this.scale - scale)) rounding
    return ⟨coefficient, scale⟩

def round (this : Decimal) (places : JsNumber) (rounding : RoundingMode) : Checked Decimal := this.toScale places rounding

def roundToSignificant (this : Decimal) (digits : JsNumber) (rounding : RoundingMode) : Checked Decimal :=
  match digits with
  | .whole value =>
    if !isSafeInteger value || value < 1 then
      .error (.invalidArgument ("digits must be a positive integer, got " ++ ToString.toString value))
    else
      let count := digitCount this.coefficient
      if this.coefficient = 0 || count ≤ value.toNat then .ok this
      else do
        let drop := count - value.toNat
        let rounded ← divideRounded this.coefficient (10 ^ drop) rounding
        if drop ≤ this.scale then return ⟨rounded, this.scale - drop⟩
        else
          -- rounding away the integer digits leaves trailing zeros: they stay as integer zeros
          let scaled ← timesPow10 rounded (drop - this.scale) "The rounded value"
          let coefficient ← assertResultDigits scaled "The rounded value"
          return ⟨coefficient, 0⟩
  | other => .error (.invalidArgument ("digits must be a positive integer, got " ++ other.spelling))

def roundTo (this : Decimal) (step : DecimalInput) (rounding : RoundingMode) : Checked Decimal := do
  let unit ← from_ step
  if !unit.isPositive then throw (.invalidArgument ("roundTo needs a positive step, got " ++ unit.toString))
  let quotient ← this.dividedBy (.decimal unit) (some ⟨.whole 0, some rounding⟩)
  quotient.times (.decimal unit)

/-- The loop of `trim`. -/
def trimLoop : Nat → Int → Decimal
  | 0, coefficient => ⟨coefficient, 0⟩
  | scale + 1, coefficient => if coefficient % 10 = 0 then trimLoop scale (coefficient / 10) else ⟨coefficient, scale + 1⟩

def trim (this : Decimal) : Decimal := trimLoop this.scale this.coefficient

/-! Comparison. -/

def compareTo (this : Decimal) (other : DecimalInput) : Checked Int := do
  let (a, b, _) ← align this (← from_ other)
  return if a < b then -1 else if b < a then 1 else 0

/-- `max` and `min` keep the best value so far. -/
def pick (better : Int → Bool) (first : DecimalInput) (rest : List DecimalInput) : Checked Decimal := do
  rest.foldlM (fun best value => do
    let d ← from_ value
    return if better (← d.compareTo (.decimal best)) then d else best) (← from_ first)

def max_ (first : DecimalInput) (rest : List DecimalInput) : Checked Decimal := pick (fun order => 0 < order) first rest

def min_ (first : DecimalInput) (rest : List DecimalInput) : Checked Decimal := pick (fun order => order < 0) first rest

end Decimal

end Arki.Math
