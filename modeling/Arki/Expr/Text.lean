import Mathlib.Data.List.Basic
import Mathlib.Data.List.TakeWhile

/-! Expression text, by UTF-16 code units as the language's strings are.

A surrogate is no letter, digit, mark or sign, so the scanners read units where the program reads
code points.
-/

set_option autoImplicit false

namespace Arki.Expr

abbrev Text := List Nat

def text (literal : String) : Text := literal.toList.map Char.toNat

def dotMark : Nat := 46

def commaMark : Nat := 44

def semicolonMark : Nat := 59

/-- `π`, always the alias for the name `pi`. -/
def piSign : Nat := 960

def isDigit (code : Nat) : Bool := decide (48 ≤ code ∧ code ≤ 57)

/-- A–Z, a–z, `_`, Greek α–ω but for `π`, and Α–Ω. -/
def isLetter (code : Nat) : Bool :=
  decide (97 ≤ code ∧ code ≤ 122) || decide (65 ≤ code ∧ code ≤ 90) || code == 95 ||
    (decide (945 ≤ code ∧ code ≤ 969) && code != piSign) || decide (913 ≤ code ∧ code ≤ 937)

def isWordChar (code : Nat) : Bool := isLetter code || isDigit code

/-- Space, tab to carriage return, no-break space, thin space, narrow no-break space. -/
def isSpace (code : Nat) : Bool :=
  code == 32 || decide (9 ≤ code ∧ code ≤ 13) || code == 160 || code == 8201 || code == 8239

/-- `name = letter { letter | digit | "_" }`. -/
def isName : Text → Bool
  | [] => false
  | first :: rest => isLetter first && rest.all isWordChar

def digits (text : Text) : Nat := (text.takeWhile isDigit).length

/-- The length of an exponent. An `e` that no digits follow is left alone. -/
def scanExponent : Text → Nat
  | [] => 0
  | marker :: rest =>
    if marker = 101 ∨ marker = 69 then
      let sign := if rest.head? = some 43 ∨ rest.head? = some 45 then 1 else 0
      let count := digits (rest.drop sign)
      if count = 0 then 0 else 1 + sign + count
    else 0

/-- The length of a decimal mark and its digits, `none` for a mark without any. -/
def scanFraction (dot : Nat) : Text → Option Nat
  | [] => some 0
  | mark :: rest => if mark = dot then (if digits rest = 0 then none else some (1 + digits rest)) else some 0

/-- The length of the number literal that the text begins with, or of the malformed one. -/
def scanNumber (text : Text) (dot : Nat) : Except Nat Nat :=
  let whole := digits text
  match scanFraction dot (text.drop whole) with
  | none => .error (whole + 1)
  | some fraction =>
    let mantissa := whole + fraction
    let index := mantissa + scanExponent (text.drop mantissa)
    -- a second decimal mark right after a literal is a malformed number, not two numbers
    if (text.drop index).head? = some dot then .error (index + 1 + digits (text.drop (index + 1)))
    else .ok index

def startsNumber (dot : Nat) : Text → Bool
  | [] => false
  | first :: rest => isDigit first || (first == dot && rest.head?.any isDigit)

/-- A whole number literal with a `.` mark. -/
def isNumberLiteral (raw : Text) : Bool :=
  startsNumber dotMark raw && decide (scanNumber raw dotMark = .ok raw.length)

end Arki.Expr
