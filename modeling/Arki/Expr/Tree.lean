import Arki.Expr.Text

/-! The expression tree, and what it costs to build. -/

set_option autoImplicit false

namespace Arki.Expr

/-- A range of the source: `start` inclusive, `stop` exclusive. -/
structure Span where
  start : Nat
  stop : Nat
  deriving DecidableEq

inductive Sign where
  | plus
  | minus
  deriving DecidableEq

inductive BinaryOperator where
  | add
  | subtract
  | multiply
  | divide
  | power
  deriving DecidableEq

/-- How a call was written: `abs(x)`, `|x|` or `√x`. -/
inductive CallNotation where
  | call
  | bars
  | radical
  deriving DecidableEq

/-- A name is kept as typed: a variable or constant, or letters to be split later. `implicit` is a
product by juxtaposition, and a group is a pair of parentheses that the user wrote. -/
inductive Node where
  | number (raw : Text) (span : Span)
  | name (name : Text) (span : Span)
  | unary (op : Sign) (arg : Node) (span : Span)
  | binary (op : BinaryOperator) (left right : Node) (implicit : Bool) (span : Span)
  | call (fn : Text) (args : List Node) (written : CallNotation) (span : Span)
  | factorial (arg : Node) (span : Span)
  | group (inner : Node) (span : Span)

namespace Node

def span : Node → Span
  | number _ span | name _ span | unary _ _ span | binary _ _ _ _ span | call _ _ _ span | factorial _ span
  | group _ span => span

mutual

def depth : Node → Nat
  | number .. | name .. => 1
  | unary _ arg _ | factorial arg _ => arg.depth + 1
  | binary _ left right _ _ => max left.depth right.depth + 1
  | call _ args _ _ => depths args + 1
  | group inner _ => inner.depth + 1

def depths : List Node → Nat
  | [] => 0
  | arg :: rest => max arg.depth (depths rest)

end

mutual

def size : Node → Nat
  | number .. | name .. => 1
  | unary _ arg _ | factorial arg _ => arg.size + 1
  | binary _ left right _ _ => left.size + right.size + 1
  | call _ args _ _ => sizes args + 1
  | group inner _ => inner.size + 1

def sizes : List Node → Nat
  | [] => 0
  | arg :: rest => arg.size + sizes rest

end

mutual

def nesting : Node → Nat
  | number .. | name .. => 0
  | unary _ arg _ => arg.nesting + 1
  | factorial arg _ => arg.nesting
  | binary .power left right _ _ => max left.nesting (right.nesting + 1)
  | binary _ left right _ _ => max left.nesting right.nesting
  | call _ args _ _ => nestings args + 1
  | group inner _ => inner.nesting + 1

def nestings : List Node → Nat
  | [] => 0
  | arg :: rest => max arg.nesting (nestings rest)

end

mutual

theorem depth_pos : ∀ node : Node, 0 < node.depth
  | number .. | name .. | unary .. | factorial .. | binary .. | call .. | group .. => by simp [depth]

end

end Node

end Arki.Expr
