import Arki.Expr.Closure
import Arki.Expr.Language

/-! The compiler of the exact domains: names become slots, constants and products of letters, and a tree becomes closures.

The declared variables have passed the binder's checks. What the compiler notes for a user (readings, warnings) is left out.
-/

set_option autoImplicit false

namespace Arki.Expr

variable {V T S Err : Type}

inductive CompileErrorCode where
  | unknownName
  | notInDomain
  | badNumber
  | arity
  | notAFunction
  deriving DecidableEq

inductive CompileBudget where
  | depth
  | steps
  | digits
  deriving DecidableEq

inductive CompileStop (Err : Type) where
  | refused (code : CompileErrorCode) (message : Text) (span : Span) (found : Text)
  | overBudget (budget : CompileBudget) (limit actual : Nat)
  | invalidArgument (message : Text)
  | domain (error : Err)
  deriving DecidableEq

abbrev Compiled (Err : Type) := Except (CompileStop Err)

/-- What a compile reads. `foldsConstants` is always set in the code: without it the tree is left as it is written. -/
structure Compiler (V T S Err : Type) where
  domain : Domain V T S Err
  settings : S
  signal : Option AbortSignal
  language : Language
  functionCost : Text → Nat
  scientific : Language
  functions : Text → Option (HostFunction T Err)
  constants : Text → Option T
  variables_ : List Text
  depth : Nat
  steps : Nat
  digits : Nat
  foldsConstants : Bool

namespace Compiler

variable (compiler : Compiler V T S Err)

def env : Env S := ⟨true, compiler.signal, compiler.digits, compiler.settings⟩

def fold (ir : Ir T S Err) : Ir T S Err :=
  if compiler.foldsConstants then Expr.fold compiler.domain.large compiler.domain.name compiler.env ir else ir

def binary (f : Binary T S Err) (left right : Ir T S Err) : Ir T S Err := compiler.fold (.binary f left right)

/-! Names. -/

inductive Part where
  | variable_ (slot : Nat)
  | constant (name : Text)

def isConstant (name : Text) : Bool :=
  (compiler.domain.constants name).isSome || compiler.language.constantSpec name || (compiler.constants name).isSome

def isFunction (name : Text) : Bool :=
  (compiler.domain.functions name).isSome || (compiler.language.functionSpec name).isSome || (compiler.functions name).isSome

def isValue (name : Text) : Bool := compiler.variables_.contains name || compiler.isConstant name

def part (name : Text) : Part :=
  match compiler.variables_.idxOf? name with
  | some slot => .variable_ slot
  | none => .constant name

def resolve (name : Text) (span : Span) : Compiled Err (List Part) :=
  if compiler.isValue name then .ok [compiler.part name]
  else if compiler.isFunction name then
    .error (.refused .unknownName
      (text "\"" ++ name ++ text "\" is a function: call it as " ++ name ++ text "(…)") span name)
  else
    match splitLetters name compiler.isValue with
    | some letters => .ok (letters.map compiler.part)
    | none =>
      let missing := (name.map fun letter => [letter]).eraseDups.filter fun letter => !compiler.isValue letter
      let message :=
        if name.length = 1 then text "Unknown name \"" ++ name ++ text "\": declare it as a variable"
        else
          text "Unknown name \"" ++ name ++ text "\": declare it as a variable, or declare each letter (missing: " ++
            (text ", ").intercalate missing ++ text ")"
      .error (.refused .unknownName message span name)

def constant (name : Text) (span : Span) : Compiled Err (Ir T S Err) :=
  match compiler.domain.constants name with
  | some builtin => .ok (compiler.fold (.const builtin))
  | none =>
    match compiler.constants name with
    | some host => .ok (.num host true)
    | none =>
      if compiler.scientific.constantSpec name then
        .error (.refused .notInDomain
          (text "The " ++ compiler.domain.name ++ text " domain has no \"" ++ name ++ text "\"") span name)
      else
        .error (.invalidArgument (text "Constant \"" ++ name ++ text "\" has no value: pass it in options.constants"))

def partIr (span : Span) : Part → Compiled Err (Ir T S Err)
  | .variable_ slot => .ok (.var slot)
  | .constant name => compiler.constant name span

/-- `xy` is `x·y`, multiplied left to right. -/
def product : List (Ir T S Err) → Option (Ir T S Err)
  | [] => none
  | head :: rest => some (rest.foldl (compiler.binary (compiler.domain.ops .multiply)) head)

def name (name : Text) (span : Span) : Compiled Err (Ir T S Err) := do
  let parts ← (← compiler.resolve name span).mapM (compiler.partIr span)
  match compiler.product parts with
  | some ir => return ir
  | none => throw (.invalidArgument (text "\"" ++ name ++ text "\" split into no letters"))

/-! Numbers. -/

/-- `/^(\d*)(?:\.(\d*))?(?:e([+-]?\d+))?$/i`: the digits that a literal spells, plus its exponent shift. -/
def literalDigits (raw : Text) : Option Nat :=
  let whole := raw.takeWhile isDigit
  let rest := raw.dropWhile isDigit
  let fraction := if rest.head? = some dotMark then rest.tail.takeWhile isDigit else []
  let after := if rest.head? = some dotMark then rest.tail.dropWhile isDigit else rest
  let size := whole.length + fraction.length
  if size = 0 then none
  else
    match after with
    | [] => some size
    | marker :: exponent =>
      let shift := if exponent.head? = some 43 ∨ exponent.head? = some 45 then exponent.tail else exponent
      if (marker = 101 ∨ marker = 69) ∧ shift ≠ [] ∧ shift.all isDigit then
        some (size + shift.foldl (fun value code => value * 10 + (code - 48)) 0)
      else none

def number (raw : Text) (span : Span) : Compiled Err (Ir T S Err) :=
  match literalDigits raw with
  | none => .error (.refused .badNumber (text "\"" ++ raw ++ text "\" is not a number") span raw)
  | some size =>
    if compiler.digits < size then .error (.overBudget .digits compiler.digits size)
    else
      match compiler.domain.literal raw with
      | .ok value => .ok (.num value true)
      | .error error => .error (.domain error)

/-! Calls. -/

inductive Plan (T S Err : Type) where
  | unary (f : Unary T S Err)
  | binary (f : Binary T S Err)
  | host (name : Text) (fn : HostFunction T Err)

def plural (count : Nat) : Text := if count = 1 then [] else text "s"

def plan (name : Text) (count : Nat) (nodeSpan : Span) : Compiled Err (Plan T S Err) :=
  let span : Span := ⟨nodeSpan.start, min nodeSpan.stop (nodeSpan.start + name.length)⟩
  match compiler.domain.functions name with
  | some builtin =>
    match count, builtin.unary, builtin.binary with
    | 1, some f, _ => .ok (.unary f)
    | 2, _, some f => .ok (.binary f)
    | _, _, _ =>
      .error (.refused .arity
        (name ++ text " does not take " ++ text (toString count) ++ text " argument" ++ plural count) span name)
  | none =>
    let spec := compiler.language.functionSpec name
    match compiler.functions name with
    | none =>
      if (compiler.scientific.functionSpec name).isSome then
        .error (.refused .notInDomain (text "The " ++ compiler.domain.name ++ text " domain has no " ++ name) span name)
      else if spec.isSome then
        .error (.invalidArgument (text "Function \"" ++ name ++ text "\" has no implementation: pass it in options.functions"))
      else .error (.refused .notAFunction (text "\"" ++ name ++ text "\" is not a function") span name)
    | some fn =>
      if spec.any fun spec => count < spec.min || spec.max < count then
        .error (.refused .arity (name ++ text " does not take " ++ text (toString count) ++ text " arguments") span name)
      else .ok (.host name fn)

/-- `pow(a, b)` is `a ^ b`. -/
def callPlan (name : Text) (count : Nat) (span : Span) : Compiled Err (Plan T S Err) :=
  if name = text "pow" ∧ count = 2 then .ok (.binary (compiler.domain.ops .power)) else compiler.plan name count span

def Plan.cost (functionCost : Text → Nat) : Plan T S Err → Nat
  | .host name _ => functionCost name - 1
  | _ => 0

def assemble (plan : Plan T S Err) (args : List (Ir T S Err)) : Compiled Err (Ir T S Err) :=
  match plan, args with
  | .unary f, [arg] => .ok (compiler.fold (.unary f arg))
  | .binary f, [left, right] => .ok (compiler.binary f left right)
  | .host name fn, args => .ok (.host name fn args)
  | _, _ => .error (.invalidArgument [])

/-! Trees. -/

mutual

def build : Node → Nat → Nat → Compiled Err (Ir T S Err × Nat)
  | node, depth, cost => do
    if compiler.depth < depth then throw (.overBudget .depth compiler.depth depth)
    let cost := cost + 1
    match node with
    | .number raw span => return (← compiler.number raw span, cost)
    | .name name span => return (← compiler.name name span, cost)
    | .group inner _ => build inner (depth + 1) cost
    | .unary op arg _ => do
      let (arg, cost) ← build arg (depth + 1) cost
      return (if op = .plus then arg else compiler.fold (.unary compiler.domain.negate arg), cost)
    | .factorial arg span => do
      let plan ← compiler.plan (text "factorial") 1 span
      let (arg, cost) ← build arg (depth + 1) (cost + plan.cost compiler.functionCost)
      return (← compiler.assemble plan [arg], cost)
    | .binary op left right _ _ => do
      let (left, cost) ← build left (depth + 1) cost
      let (right, cost) ← build right (depth + 1) cost
      return (compiler.binary (compiler.domain.ops op) left right, cost)
    | .call fn args _ span => do
      let plan ← compiler.callPlan fn args.length span
      let (args, cost) ← builds args (depth + 1) (cost + plan.cost compiler.functionCost)
      return (← compiler.assemble plan args, cost)

def builds : List Node → Nat → Nat → Compiled Err (List (Ir T S Err) × Nat)
  | [], _, cost => .ok ([], cost)
  | arg :: args, depth, cost => do
    let (arg, cost) ← build arg depth cost
    let (args, cost) ← builds args depth cost
    return (arg :: args, cost)

end

def root (node : Node) : Compiled Err (Ir T S Err × Nat) := do
  let (ir, cost) ← compiler.build node 1 0
  if compiler.steps < cost then throw (.overBudget .steps compiler.steps cost)
  return (ir, cost)

def compileExact (node : Node) : Compiled Err (Ir T S Err) := do
  return (← compiler.root node).1

/-- The tree of `left - right`. -/
def difference (left right : Node) : Compiled Err (Ir T S Err) := do
  let (left, leftCost) ← compiler.root left
  let (right, rightCost) ← compiler.root right
  let cost := leftCost + rightCost + 1
  if compiler.steps < cost then throw (.overBudget .steps compiler.steps cost)
  return compiler.binary (compiler.domain.ops .subtract) left right

/-! Calls of what was compiled. -/

def scopeValue (scope : Text → Option V) (name : Text) : Except (Failure Err) T :=
  match scope name with
  | none => .error ⟨.invalidArgument (text "Missing value for variable \"" ++ name ++ text "\""), []⟩
  | some value =>
    match compiler.domain.input value with
    | .error error => .error ⟨.domain error, []⟩
    | .ok (some converted) => .ok converted
    | .ok none =>
      .error ⟨.invalidArgument (text "Variable \"" ++ name ++ text "\" must be a " ++ compiler.domain.name ++ text " input, got " ++
        compiler.domain.typeOf value), []⟩

def detailed (ir : Ir T S Err) (scope : Text → Option V) (signal : Option AbortSignal) : Except (Failure Err) (T × Bool) := do
  let values ← compiler.variables_.mapM (compiler.scopeValue scope)
  let (value, exact) ← closure compiler.domain.large compiler.domain.name ir values { compiler.env with signal }
  return (value, exact && !compiler.domain.approximate)

end Compiler

end Arki.Expr
