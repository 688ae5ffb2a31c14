import Arki.Expr.Accept
import Arki.Expr.Pieces

/-! Printing. The canonical style is the storage form; the display style keeps what the user typed.
Parentheses are added only where a hand-built tree needs them.
-/

set_option autoImplicit false

namespace Arki.Expr

def barMark : Nat := 124

def Level.rank : Level → Nat
  | .sum => 1
  | .product => 2
  | .unary => 3
  | .power => 4
  | .postfixed => 5
  | .primary => 6

def level : Node → Level
  | .binary .add .. | .binary .subtract .. => .sum
  | .binary .power .. => .power
  | .binary .. => .product
  | .unary .. => .unary
  | .factorial .. => .postfixed
  | _ => .primary

/-- The primary a power-level node starts with, `none` for lower levels. -/
def leadingPrimary : Node → Option Node
  | .factorial arg _ => leadingPrimary arg
  | .binary .power left _ _ _ => leadingPrimary left
  | node => if level node = .primary then some node else none

mutual

def rightmostLeaf : Node → Node
  | .binary _ _ right _ _ => rightmostLeaf right
  | .unary _ arg _ => rightmostLeaf arg
  | .call fn args .radical span => (rightmostOf args).getD (.call fn args .radical span)
  | node => node

def rightmostOf : List Node → Option Node
  | [] => none
  | only :: _ => some (rightmostLeaf only)

end

def Node.isNumber : Node → Bool
  | .number .. => true
  | _ => false

structure Printer where
  display : Bool
  syntax_ : Syntax
  maxDepth : Nat

def joinWith (separator : Text) : List Text → Text
  | [] => []
  | [part] => part
  | part :: rest => part ++ separator ++ joinWith separator rest

namespace Printer

variable (printer : Printer)

def signText : Sign → Text
  | .plus => text "+"
  | .minus => if printer.display then text "−" else text "-"

def operatorText : BinaryOperator → Text
  | .add => text " + "
  | .subtract => if printer.display then text " − " else text " - "
  | .multiply => if printer.display then text " · " else text " * "
  | .divide => text " / "
  | .power => text "^"

def leftLevel : BinaryOperator → Level
  | .add | .subtract => .sum
  | .multiply | .divide => .product
  | .power => .postfixed

def rightLevel : BinaryOperator → Level
  | .add | .subtract => .product
  | .multiply | .divide | .power => .unary

/-- Prints `node` where the grammar needs at least `min`, adding parentheses only when it is lower. -/
def operand (node : Node) (min : Level) (inBar : Bool) (printed : Bool → Except Stop Text) : Except Stop Text :=
  if min.rank ≤ (level node).rank then printed inBar
  else do
    let inner ← printed false
    return text "(" ++ inner ++ text ")"

def juxtapose (left : Node) (leftText : Text) (right : Node) (inBar : Bool) (printed : Bool → Except Stop Text) :
    Except Stop (Option Text) :=
  match leadingPrimary right with
  | none => .ok none
  | some lead =>
    if lead.isNumber then .ok none
    else do
      let rightText ← printed inBar
      let first := rightText.head?
      if first = some barMark ∧ inBar = true then return none
      else if leftText.getLast?.any isWordChar = false ∨ first.any isLetter = false then
        return some (leftText ++ rightText)
      -- `2x` reads back as a product, but `2e2` would read as a literal
      else if (rightmostLeaf left).isNumber ∧ first ≠ some 101 ∧ first ≠ some 69 then
        return some (leftText ++ rightText)
      else return some (leftText ++ text " " ++ rightText)

mutual

def print : Node → Nat → Bool → Except Stop Text
  | .number raw _, depth, _ =>
    if printer.maxDepth < depth then .error (.overBudget .depth printer.maxDepth depth)
    else .ok (numberText printer.syntax_ raw)
  | .name name _, depth, _ =>
    if printer.maxDepth < depth then .error (.overBudget .depth printer.maxDepth depth)
    else .ok (if printer.display ∧ name = text "pi" then text "π" else name)
  | .unary op arg _, depth, inBar =>
    if printer.maxDepth < depth then .error (.overBudget .depth printer.maxDepth depth)
    else do
      let argText ← operand arg .unary inBar (print arg (depth + 1))
      return printer.signText op ++ argText
  | .factorial arg _, depth, inBar =>
    if printer.maxDepth < depth then .error (.overBudget .depth printer.maxDepth depth)
    else do
      let argText ← operand arg .postfixed inBar (print arg (depth + 1))
      return argText ++ text "!"
  | .group inner _, depth, _ =>
    if printer.maxDepth < depth then .error (.overBudget .depth printer.maxDepth depth)
    else do
      let innerText ← print inner (depth + 1) false
      return text "(" ++ innerText ++ text ")"
  | .call fn [only] written _, depth, inBar =>
    if printer.maxDepth < depth then .error (.overBudget .depth printer.maxDepth depth)
    else if written = .bars ∧ fn = text "abs" then do
      let onlyText ← print only (depth + 1) true
      return text "|" ++ onlyText ++ text "|"
    else if written = .radical ∧ fn = text "sqrt" ∧ printer.display then do
      let onlyText ← operand only .primary inBar (print only (depth + 1))
      return text "√" ++ onlyText
    else do
      let onlyText ← print only (depth + 1) false
      return fn ++ text "(" ++ onlyText ++ text ")"
  | .call fn args _ _, depth, _ =>
    if printer.maxDepth < depth then .error (.overBudget .depth printer.maxDepth depth)
    else do
      let argTexts ← printAll args (depth + 1)
      return fn ++ text "(" ++ joinWith (printer.syntax_.separator :: text " ") argTexts ++ text ")"
  | .binary op left right implicit _, depth, inBar =>
    if printer.maxDepth < depth then .error (.overBudget .depth printer.maxDepth depth)
    else do
      let leftText ← operand left (leftLevel op) inBar (print left (depth + 1))
      let juxtaposed ←
        if op = .multiply ∧ implicit ∧ printer.display then juxtapose left leftText right inBar (print right (depth + 1))
        else .ok none
      match juxtaposed with
      | some whole => return whole
      | none => do
        let rightText ← operand right (rightLevel op) inBar (print right (depth + 1))
        return leftText ++ printer.operatorText op ++ rightText

def printAll : List Node → Nat → Except Stop (List Text)
  | [], _ => .ok []
  | arg :: rest, depth => do
    let argText ← print arg depth false
    let restTexts ← printAll rest depth
    return argText :: restTexts

end

end Printer

def print (printer : Printer) (node : Node) : Except Stop Text := printer.print node 1 false

end Arki.Expr
