import Mathlib.Data.Nat.Log
import Mathlib.Data.Rat.Floor

/-! Money at the edges of the payments package: amounts in minor units, and the numbers that older events hold.

A JS number is the rational it stands for; `none` is a number that is not finite.
-/

set_option autoImplicit false

namespace Arki.Payments

/-- The currency texts: `toUpperCase` of the language and the scales that `@arki/money` knows by code. -/
structure Currencies where
  toUpperCase : String → String
  scale : String → Option Nat

structure Money where
  minor : Int
  code : String
  deriving DecidableEq

def Money.hasSameCurrency (amount other : Money) : Bool := amount.code == other.code

def Money.gt (amount other : Money) : Bool := other.minor < amount.minor

def Money.isPositive (amount : Money) : Bool := 0 < amount.minor

def Money.isNegative (amount : Money) : Bool := amount.minor < 0

/-- `Number.MAX_SAFE_INTEGER`. -/
def maxSafeInteger : Nat := 2 ^ 53 - 1

def toMinorColumn (amount : Money) : Option Int :=
  if amount.minor.natAbs ≤ maxSafeInteger then some amount.minor else none

def halfEven (value : ℚ) : Int :=
  let low := ⌊value⌋
  let rest := value - low
  if rest < 1 / 2 then low
  else if 1 / 2 < rest then low + 1
  else if low % 2 = 0 then low else low + 1

/-- An older amount in major units, rounded to the currency's decimals. An unknown currency throws. -/
def fromStoredNumber (currencies : Currencies) (value : ℚ) (currency : String) : Option Money :=
  let code := currencies.toUpperCase currency
  (currencies.scale code).map fun scale => ⟨halfEven (value * 10 ^ scale), code⟩

/-- `Number(amount.toFixed(2))`: of two nearest texts the one away from zero. -/
def toFixed2 (amount : ℚ) : ℚ :=
  if amount < 0 then -(⌊-amount * 100 + 1 / 2⌋ / 100) else ⌊amount * 100 + 1 / 2⌋ / 100

/-- The power of `base` that the positive number is not below. -/
def exponentOf (base : Nat) (value : ℚ) : Int :=
  let near : Int := Nat.log base value.num.natAbs - Nat.log base value.den
  if value < (base : ℚ) ^ near then near - 1 else near

/-- `Math.fround`: the nearest 4-byte float. -/
def fround (value : ℚ) : Option ℚ :=
  if value = 0 then some 0
  else
    let unit : ℚ := 2 ^ (max (exponentOf 2 |value|) (-126) - 23)
    let near := halfEven (value / unit) * unit
    if (2 : ℚ) ^ (128 : Nat) ≤ |near| then none else some near

/-- `Number(value.toPrecision(digits))`. -/
def toPrecision (value : ℚ) (digits : Nat) : ℚ :=
  if value = 0 then 0
  else
    let unit : ℚ := 10 ^ (exponentOf 10 |value| - (digits - 1))
    let size : ℚ := ⌊|value| / unit + 1 / 2⌋ * unit
    if value < 0 then -size else size

/-- The number a `real` column gives back: the shortest decimal that names the 4-byte float. -/
def storedReal (value : ℚ) : Option ℚ := do
  let stored ← fround value
  let candidates := (List.range 9).map fun digits => toPrecision stored (digits + 1)
  return (candidates.find? fun candidate => fround candidate == some stored).getD stored

end Arki.Payments
