import Arki.Library.Double
import Arki.Math.BigInt

/-! Whole-unit arithmetic: an amount is a plain number while it is a safe integer, and a big one beyond that. -/

set_option autoImplicit false

namespace Arki.Money

open Arki.Math (MathError Checked RoundingMode)

inductive Units where
  | number (value : Double)
  | bigint (value : Int)
  deriving DecidableEq

namespace Units

def value : Units → ℚ
  | number value => value.value
  | bigint value => value

/-- `BigInt(units)`. -/
def big : Units → Int
  | number value => ⌊value.value⌋
  | bigint value => value

end Units

def maxSafe : Int := 2 ^ 53 - 1

def maxScale : Nat := 100

def maxInputLength : Nat := 1000

def maxParts : Nat := 10000

/-- `⌈10000 * log₂ 10 / 4⌉`. -/
def maxHexDigits : Nat := 8305

/-- `value <= MAX && value >= -MAX`. -/
def readsSafe (value : Double) : Bool := value.value ≤ maxSafe && -maxSafe ≤ value.value

def hexDigits (value : Int) : Nat := (Nat.toDigits 16 value.natAbs).length

def tooManyDigits : MathError := .resourceLimit "An amount may have at most about 10000 digits"

def exceedsDigits (value : Int) : Bool := maxHexDigits < hexDigits value

def limitDigits (value : Int) : Checked Int := if exceedsDigits value then .error tooManyDigits else .ok value

def mulBig (a b : Int) : Checked Int :=
  if maxHexDigits + 1 < hexDigits a + hexDigits b then .error tooManyDigits else .ok (a * b)

def canon (value : Int) : Units := if -maxSafe ≤ value ∧ value ≤ maxSafe then .number (.of value) else .bigint value

def pow10 (exponent : Nat) : Units := if exponent < 16 then .number (.of (10 ^ exponent)) else .bigint (10 ^ exponent)

def addUnits (a b : Units) : Checked Units :=
  let big := (limitDigits (a.big + b.big)).map canon
  match a, b with
  | .number a, .number b =>
    let sum := a.add b
    -- two safe integers add exactly whenever their sum is safe
    if readsSafe sum then .ok (.number sum) else big
  | _, _ => big

def mulUnits (a b : Units) : Checked Units :=
  let big := (mulBig a.big b.big).map canon
  match a, b with
  | .number a, .number b =>
    let product := a.mul b
    if readsSafe product then .ok (.number (product.add (.of 0))) else big
  | _, _ => big

def negUnits : Units → Units
  | .number a => .number (Double.sub (.of 0) a)
  | .bigint a => .bigint (-a)

def compareUnits (a b : Units) : Ordering := compare a.value b.value

/-- Whether to step one away from zero: how the dropped rest compares with half the divisor, and whether the truncated
quotient is odd. -/
def roundsAway (mode : Option RoundingMode) (negative : Bool) (half : Ordering) (odd : Bool) : Checked Bool :=
  match mode with
  | some .halfEven => .ok (half = .gt || half = .eq && odd)
  | some .halfUp => .ok (half ≠ .lt)
  | some .halfDown => .ok (half = .gt)
  | some .down => .ok false
  | some .up => .ok true
  | some .ceiling => .ok !negative
  | some .floor => .ok negative
  | none | some .unnecessary =>
    .error (.roundingNecessary
      "The exact result does not fit the requested precision; pass a rounding mode such as \"halfEven\"")

/-- `mulDiv` on plain numbers, while their product reads as safe. -/
def mulDivNumbers (units numerator denominator : Double) (mode : Option RoundingMode) : Option (Checked Double) :=
  let product := units.mul numerator
  if readsSafe product then
    -- the remainder of doubles is exact, and so is the quotient
    let remainder := product.rem denominator
    if remainder.value = 0 then some (.ok ((product.div denominator).add (.of 0)))
    else
      let quotient := (product.sub remainder).div denominator
      let twice := (if remainder.value < 0 then remainder.neg else remainder).mul (.of 2)
      let half := compare twice.value denominator.value
      let odd := (quotient.rem (.of 2)).value ≠ 0
      some ((roundsAway mode (product.value < 0) half odd).map fun away =>
        if !away then quotient else if product.value < 0 then quotient.sub (.of 1) else quotient.add (.of 1))
  else none

/-- `mulDiv` past the product. -/
def divBig (product divisor : Int) (mode : Option RoundingMode) : Checked Int :=
  let quotient := product.tdiv divisor
  let remainder := product - quotient * divisor
  if remainder = 0 then .ok quotient
  else
    let twice := (if remainder < 0 then -remainder else remainder) * 2
    let half := compare twice divisor
    (roundsAway mode (product < 0) half (quotient % 2 ≠ 0)).map fun away =>
      if !away then quotient else if product < 0 then quotient - 1 else quotient + 1

def mulDivBig (units numerator denominator : Int) (mode : Option RoundingMode) : Checked Units := do
  let product ← mulBig units numerator
  return canon (← divBig product denominator mode)

/-- `units * numerator / denominator` as a whole number. The divisor is positive. -/
def mulDiv (units numerator denominator : Units) (mode : Option RoundingMode) : Checked Units :=
  let big := mulDivBig units.big numerator.big denominator.big mode
  match units, numerator, denominator with
  | .number units, .number numerator, .number denominator =>
    match mulDivNumbers units numerator denominator mode with
    | some answer => answer.map .number
    | none => big
  | _, _, _ => big

end Arki.Money
