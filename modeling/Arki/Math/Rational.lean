import Arki.Math.Decimal

/-! Exact fractions of two bigints: reading, printing and the operations. -/

set_option autoImplicit false

namespace Arki.Math

structure Rational where
  numerator : Int
  denominator : Int
  deriving DecidableEq

inductive IntegerInput where
  | string (text : String)
  | number (value : JsNumber)
  | bigint (value : Int)
  deriving DecidableEq

inductive RationalInput where
  | rational (value : Rational)
  | other (value : DecimalInput)
  deriving DecidableEq

def toBigIntInput (value : IntegerInput) (what : String) : Checked Int :=
  match value with
  | .bigint value => do
    assertDigitLimit (digitCount value) what
    return value
  | .number value =>
    match value with
    | .whole number =>
      if isSafeInteger number then .ok number
      else .error (.numericRange (what ++ " must be a safe integer, got " ++ toString number))
    | other => .error (.numericRange (what ++ " must be a safe integer, got " ++ other.spelling))
  | .string text =>
    -- `/^[+-]?\d+$/`
    match readExponent text.toList with
    | none => .error (.numberFormat ("\"" ++ text ++ "\" is not an integer"))
    | some number =>
      -- the length counts the sign too
      if maxDigits < text.toList.length then
        .error (.resourceLimit (what ++ " exceeds " ++ toString maxDigits ++ " digits"))
      else .ok number

/-- `\s` -/
def isBlank (c : Char) : Bool :=
  let code := c.toNat
  (9 ≤ code && code ≤ 13) || code = 32 || code = 0xA0 || code = 0x1680 || (0x2000 ≤ code && code ≤ 0x200A) ||
    code = 0x2028 || code = 0x2029 || code = 0x202F || code = 0x205F || code = 0x3000 || code = 0xFEFF

/-- `([+-]?)`: the sign and what follows it. -/
def takeSign (text : List Char) : List Char × List Char :=
  if text.head? = some '+' || text.head? = some '-' then (text.take 1, text.drop 1) else ([], text)

/-- `\d*` -/
def takeDigits (text : List Char) : List Char × List Char := (text.takeWhile Char.isDigit, text.dropWhile Char.isDigit)

/-- `\s*\/\s*` -/
def takeSlash (text : List Char) : Option (List Char) :=
  match text.dropWhile isBlank with
  | '/' :: rest => some (rest.dropWhile isBlank)
  | _ => none

/-- `/^([+-]?\d+)\s*\/\s*([+-]?\d+)$/` -/
def RATIO_SYNTAX (text : List Char) : Option (List Char × List Char) := do
  let (sign, rest) := takeSign text
  let (digits, rest) := takeDigits rest
  let rest ← takeSlash rest
  let (sign', rest) := takeSign rest
  let (digits', rest) := takeDigits rest
  if digits ≠ [] ∧ digits' ≠ [] ∧ rest = [] then some (sign ++ digits, sign' ++ digits') else none

/-- `/^([+-]?)(\d*)\.(\d*)\((\d+)\)$/` -/
def REPEATING_SYNTAX (text : List Char) : Option (List Char × List Char × List Char × List Char) :=
  let (sign, rest) := takeSign text
  let (integer, rest) := takeDigits rest
  match rest with
  | '.' :: rest =>
    let (fraction, rest) := takeDigits rest
    match rest with
    | '(' :: rest =>
      let (period, rest) := takeDigits rest
      if period ≠ [] ∧ rest = [')'] then some (sign, integer, fraction, period) else none
    | _ => none
  | _ => none

/-- `/^([+-]?)(\d+)\s+(\d+)\s*\/\s*(\d+)$/` -/
def MIXED_SYNTAX (text : List Char) : Option (List Char × List Char × List Char × List Char) := do
  let (sign, rest) := takeSign text
  let (whole, rest) := takeDigits rest
  let blanks := rest.takeWhile isBlank
  let (numerator, rest) := takeDigits (rest.dropWhile isBlank)
  let rest ← takeSlash rest
  let (denominator, rest) := takeDigits rest
  if whole ≠ [] ∧ blanks ≠ [] ∧ numerator ≠ [] ∧ denominator ≠ [] ∧ rest = [] then
    some (sign, whole, numerator, denominator)
  else none

namespace Rational

def fromParts (numerator denominator : Int) : Checked Rational :=
  if denominator = 0 then .error (.divisionByZero "A ratio cannot have a zero denominator")
  else
    let n := if denominator < 0 then -numerator else numerator
    let d := if denominator < 0 then -denominator else denominator
    let divisor : Int := gcd n d
    .ok ⟨n.tdiv divisor, d.tdiv divisor⟩

def zero : Rational := ⟨0, 1⟩

def fromMixed (sign whole numerator denominator : List Char) : Checked Rational := do
  let d ← toBigIntInput (.string (String.ofList denominator)) "denominator"
  let w ← toBigIntInput (.string (String.ofList whole)) "whole part"
  let product ← multiplyChecked w d "The mixed number"
  let n ← toBigIntInput (.string (String.ofList numerator)) "numerator"
  let sum := product + n
  fromParts (if sign = ['-'] then -sum else sum) d

def fromRatio (numerator denominator : List Char) : Checked Rational := do
  let n ← toBigIntInput (.string (String.ofList numerator)) "numerator"
  let d ← toBigIntInput (.string (String.ofList denominator)) "denominator"
  fromParts n d

/-- The numerator is `fixed × period` and the denominator is `period × 10^fraction`. -/
def fromRepeating (sign integerDigits fractionDigits repeatDigits : List Char) : Checked Rational := do
  let fixedLength := max integerDigits.length 1 + fractionDigits.length
  assertIntermediateDigits (max fixedLength fractionDigits.length + repeatDigits.length + 1) "The repeating decimal"
  let fixed : Int := Nat.ofDigitChars 10 ((if integerDigits = [] then ['0'] else integerDigits) ++ fractionDigits) 0
  let period : Int := 10 ^ repeatDigits.length - 1
  let numerator := fixed * period + Nat.ofDigitChars 10 repeatDigits 0
  let denominator := period * 10 ^ fractionDigits.length
  fromParts (if sign = ['-'] then -numerator else numerator) denominator

/-- `'3/4'`, `'4 1/2'` (mixed), `'0.(3)'`, `'1.2(34)'` and any plain decimal string. -/
def parseRational (input : String) : Checked Rational :=
  match MIXED_SYNTAX input.toList with
  | some (sign, whole, numerator, denominator) => fromMixed sign whole numerator denominator
  | none =>
    match RATIO_SYNTAX input.toList with
    | some (numerator, denominator) => fromRatio numerator denominator
    | none =>
      match REPEATING_SYNTAX input.toList with
      | some (sign, integer, fraction, period) => fromRepeating sign integer fraction period
      | none => do
        let parts ← decimalParts input
        fromParts parts.coefficient (10 ^ parts.scale)

/-- `Decimal.toRational`. -/
def ofDecimal (d : Decimal) : Checked Rational := fromParts d.coefficient (10 ^ d.scale)

def from_ : RationalInput → Checked Rational
  | .rational value => .ok value
  | .other (.decimal value) => ofDecimal value
  | .other (.string text) => parseRational text
  | .other value => do
    let parts ← Decimal.from_ value
    fromParts parts.coefficient (10 ^ parts.scale)

def ratio (first second : IntegerInput) : Checked Rational := do
  let n ← toBigIntInput first "numerator"
  let d ← toBigIntInput second "denominator"
  fromParts n d

/-! Arithmetic. -/

open Decimal (assertResultDigits powerWithinLimit)

def isZero (this : Rational) : Bool := this.numerator = 0

def negated (this : Rational) : Rational := ⟨-this.numerator, this.denominator⟩

def abs (this : Rational) : Rational := if this.numerator < 0 then this.negated else this

/-- Knuth's addition: reduce through the denominators' GCD instead of the full product. -/
def plusRead (this that : Rational) : Checked Rational :=
  let g : Int := gcd this.denominator that.denominator
  if g = 1 then do
    -- coprime denominators: the sum is already in lowest terms
    let left ← multiplyChecked this.numerator that.denominator "The numerator"
    let right ← multiplyChecked that.numerator this.denominator "The numerator"
    let numerator ← assertResultDigits (left + right) "The numerator"
    let product ← multiplyChecked this.denominator that.denominator "The denominator"
    let denominator ← assertResultDigits product "The denominator"
    return ⟨numerator, denominator⟩
  else do
    let left ← multiplyChecked this.numerator (that.denominator.tdiv g) "The numerator"
    let right ← multiplyChecked that.numerator (this.denominator.tdiv g) "The numerator"
    let sum := left + right
    if sum = 0 then return zero
    else
      let g2 : Int := gcd sum g
      let numerator ← assertResultDigits (sum.tdiv g2) "The numerator"
      let product ← multiplyChecked (this.denominator.tdiv g) (that.denominator.tdiv g2) "The denominator"
      let denominator ← assertResultDigits product "The denominator"
      return ⟨numerator, denominator⟩

def plus (this : Rational) (other : RationalInput) : Checked Rational := do this.plusRead (← from_ other)

def minus (this : Rational) (other : RationalInput) : Checked Rational := do this.plusRead (← from_ other).negated

/-- Cross-cancels before multiplying, so the products never carry common factors. -/
def timesRead (this that : Rational) : Checked Rational :=
  if this.numerator = 0 ∨ that.numerator = 0 then .ok zero
  else do
    let g1 : Int := gcd this.numerator that.denominator
    let g2 : Int := gcd that.numerator this.denominator
    let product ← multiplyChecked (this.numerator.tdiv g1) (that.numerator.tdiv g2) "The numerator"
    let numerator ← assertResultDigits product "The numerator"
    let product ← multiplyChecked (this.denominator.tdiv g2) (that.denominator.tdiv g1) "The denominator"
    let denominator ← assertResultDigits product "The denominator"
    return ⟨numerator, denominator⟩

def times (this : Rational) (other : RationalInput) : Checked Rational := do this.timesRead (← from_ other)

/-- Cross-cancels like `times`, so the result is reduced before its size is checked. -/
def dividedByRead (this that : Rational) : Checked Rational :=
  if that.isZero then .error (.divisionByZero "Division by zero")
  else if this.numerator = 0 then .ok zero
  else do
    let g1 : Int := gcd this.numerator that.numerator
    let g2 : Int := gcd this.denominator that.denominator
    let numerator ← multiplyChecked (this.numerator.tdiv g1) (that.denominator.tdiv g2) "The numerator"
    let denominator ← multiplyChecked (this.denominator.tdiv g2) (that.numerator.tdiv g1) "The denominator"
    let flip : Int := if denominator < 0 then -1 else 1
    let numerator ← assertResultDigits (flip * numerator) "The numerator"
    let denominator ← assertResultDigits (flip * denominator) "The denominator"
    return ⟨numerator, denominator⟩

def dividedBy (this : Rational) (other : RationalInput) : Checked Rational := do this.dividedByRead (← from_ other)

def inverse (this : Rational) : Checked Rational :=
  if this.isZero then .error (.divisionByZero "Zero has no reciprocal")
  else fromParts this.denominator this.numerator

def text (this : Rational) : String :=
  if this.denominator = 1 then ToString.toString this.numerator
  else ToString.toString this.numerator ++ "/" ++ ToString.toString this.denominator

def powPositive (this : Rational) (exponent : Nat) : Checked Rational := do
  let what := this.text ++ " ^ " ++ ToString.toString exponent
  let numerator ← powerWithinLimit this.numerator exponent ("The numerator of " ++ what)
  let denominator ← powerWithinLimit this.denominator exponent ("The denominator of " ++ what)
  return ⟨numerator, denominator⟩

def pow (this : Rational) (exponent : JsNumber) : Checked Rational :=
  match exponent with
  | .whole value =>
    if !isSafeInteger value then
      .error (.invalidArgument ("Exponent must be a safe integer, got " ++ ToString.toString value))
    else if value = 0 then fromParts 1 1
    else if value < 0 then do
      let reciprocal ← this.inverse
      reciprocal.powPositive (-value).toNat
    else this.powPositive value.toNat
  | other => .error (.invalidArgument ("Exponent must be a safe integer, got " ++ other.spelling))

def toDecimal (this : Rational) (options : Option Decimal.ScaleOptions) : Checked Decimal := do
  let parts ← Decimal.fractionToDecimalParts this.numerator this.denominator options
  let _ ← assertResultDigits parts.coefficient "The decimal"
  return parts

/-! Comparison. -/

def compareRead (this that : Rational) : Checked Int := do
  let left ← multiplyChecked this.numerator that.denominator "The comparison"
  let right ← multiplyChecked that.numerator this.denominator "The comparison"
  return if left < right then -1 else if right < left then 1 else 0

def lteRead (this that : Rational) : Checked Bool := do return decide ((← this.compareRead that) ≤ 0)

end Rational

end Arki.Math
