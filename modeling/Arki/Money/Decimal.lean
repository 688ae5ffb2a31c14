import Arki.Math.Decimal
import Arki.Money.Units

/-! Reading amounts: plain decimal text, and numbers through their shortest spelling. -/

set_option autoImplicit false

namespace Arki.Money

open Arki (Double)
open Arki.Math (MathError Checked JsNumber)

inductive MoneyFailure where
  | invalidText
  | invalidShape
  | unknownCurrency
  | roundingNecessary
  | outOfRange
  | inputTooLarge
  deriving DecidableEq

def MoneyFailure.message : MoneyFailure → String
  | invalidText => "The text is not an amount of money in the expected format."
  | invalidShape => "The value is not an object with a string amount and a string currency."
  | unknownCurrency => "The currency is not in the ISO 4217 table or the list of custom currencies."
  | roundingNecessary => "The amount has more decimals than allowed and no rounding mode was given."
  | outOfRange => "The number is not a safe whole number of minor units."
  | inputTooLarge => "The input is longer or has more digits than money parsing accepts."

inductive Fault where
  | returned (failure : MoneyFailure)
  | thrown (error : MathError)
  deriving DecidableEq

abbrev Door := Except Fault

def failureToError (failure : MoneyFailure) : MathError :=
  match failure with
  | .invalidText => .numberFormat failure.message
  | .invalidShape | .unknownCurrency => .invalidArgument failure.message
  | .roundingNecessary => .roundingNecessary failure.message
  | .outOfRange => .numericRange failure.message
  | .inputTooLarge => .resourceLimit failure.message

def orRaise {α : Type} : Door α → Checked α
  | .ok value => .ok value
  | .error (.returned failure) => .error (failureToError failure)
  | .error (.thrown error) => .error error

def throwing {α : Type} : Checked α → Door α
  | .ok value => .ok value
  | .error error => .error (.thrown error)

/-- `coefficient × 10^-fraction`. -/
structure Parsed where
  coefficient : Units
  fraction : Nat
  deriving DecidableEq

/-- `String.length`: in UTF-16 code units. -/
def jsLength (text : List Char) : Nat := (text.map fun c => if c.toNat < 65536 then 1 else 2).sum

def unsigned (text : List Char) : List Char :=
  if text.head? = some '+' || text.head? = some '-' then text.tail else text

def isNegative (text : List Char) : Bool := text.head? = some '-'

/-- `(?:e([+-]?\d{1,4}))?$`. -/
def exponentOf (rest : List Char) : Option Int :=
  match rest with
  | [] => some 0
  | marker :: text =>
    let digits := unsigned text
    if (marker = 'e' || marker = 'E') && !digits.isEmpty && digits.length ≤ 4 && digits.all Char.isDigit then
      let magnitude : Int := Nat.ofDigitChars 10 digits 0
      some (if isNegative text then -magnitude else magnitude)
    else none

/-- The groups of `DECIMAL`: the digits of both sides of the point, and the exponent. -/
def decimalGroups (text : List Char) : Option (List Char × List Char × Int) :=
  let whole := (unsigned text).takeWhile Char.isDigit
  let rest := (unsigned text).dropWhile Char.isDigit
  if whole.isEmpty then none
  else if rest.head? = some '.' then
    let fractionDigits := rest.tail.takeWhile Char.isDigit
    if fractionDigits.isEmpty then none
    else (exponentOf (rest.tail.dropWhile Char.isDigit)).map fun exponent => (whole, fractionDigits, exponent)
  else (exponentOf rest).map fun exponent => (whole, [], exponent)

def parseDecimal (text : List Char) : Door Parsed :=
  if maxInputLength < jsLength text then .error (.returned .inputTooLarge)
  else
    match decimalGroups text with
    | none => .error (.returned .invalidText)
    | some (whole, fractionDigits, exponent) =>
      let digits := whole ++ fractionDigits
      let read : Nat := Nat.ofDigitChars 10 digits 0
      let magnitude := if digits.length ≤ 15 then .number (.of read) else canon read
      let coefficient := if isNegative text then negUnits magnitude else magnitude
      let fraction : Int := fractionDigits.length - exponent
      if maxInputLength < fraction || fraction < -maxInputLength then .error (.returned .inputTooLarge)
      else if 0 ≤ fraction then .ok ⟨coefficient, fraction.toNat⟩
      else do
        let coefficient ← throwing (mulUnits coefficient (pow10 (-fraction).toNat))
        return ⟨coefficient, 0⟩

def parseNumber : JsNumber → Door Parsed
  | .whole value =>
    if Math.isSafeInteger value then .ok ⟨.number (.of value), 0⟩ else .error (.returned .outOfRange)
  | .fraction spelling => parseDecimal spelling.toList
  | .notFinite _ => .error (.returned .outOfRange)

end Arki.Money
