import Arki.Expr.Tree

/-! Evaluation in the exact domains: what a domain brings, the closure tree, and folding. -/

set_option autoImplicit false

namespace Arki.Expr

variable {T S Err : Type}

structure AbortSignal where
  aborted : Bool
  reason : Text
  deriving DecidableEq

/-- Per-call state; an operation may only clear `exact`. -/
structure Env (S : Type) where
  exact : Bool
  signal : Option AbortSignal
  digits : Nat
  settings : S

/-- An operation's value, and the `exact` flag it leaves. -/
abbrev Constant (T S Err : Type) := Env S → Except Err (T × Bool)

abbrev Unary (T S Err : Type) := T → Env S → Except Err (T × Bool)

abbrev Binary (T S Err : Type) := T → T → Env S → Except Err (T × Bool)

structure Builtin (T S Err : Type) where
  unary : Option (Unary T S Err)
  binary : Option (Binary T S Err)

/-- What a value type brings to the evaluator. `V` are the values that a scope holds. -/
structure Domain (V T S Err : Type) where
  name : Text
  literal : Text → Except Err T
  /-- `none` for a type that the domain does not accept. -/
  input : V → Except Err (Option T)
  typeOf : V → Text
  large : T → Bool
  negate : Unary T S Err
  ops : BinaryOperator → Binary T S Err
  functions : Text → Option (Builtin T S Err)
  constants : Text → Option (Constant T S Err)
  approximate : Bool

/-- `none` for a result that is no value of the domain. -/
abbrev HostFunction (T Err : Type) := List T → Except Err (Option T)

inductive Ir (T S Err : Type) where
  | num (value : T) (exact : Bool)
  | var (slot : Nat)
  | const (f : Constant T S Err)
  | unary (f : Unary T S Err) (arg : Ir T S Err)
  | binary (f : Binary T S Err) (left right : Ir T S Err)
  | host (name : Text) (fn : HostFunction T Err) (args : List (Ir T S Err))

inductive Thrown (Err : Type) where
  | domain (error : Err)
  | aborted (reason : Text)
  | invalidArgument (message : Text)
  deriving DecidableEq

inductive Operand where
  | arg
  | left
  | right
  | item (index : Nat)
  deriving DecidableEq

structure Failure (Err : Type) where
  error : Thrown Err
  place : List Operand
  deriving DecidableEq

def under (operand : Operand) : Except (Failure Err) (T × Bool) → Except (Failure Err) (T × Bool)
  | .error failure => .error { failure with place := operand :: failure.place }
  | .ok answer => .ok answer

def here : Except Err (T × Bool) → Except (Failure Err) (T × Bool)
  | .error error => .error ⟨.domain error, []⟩
  | .ok answer => .ok answer

def checkSignal (large : T → Bool) (env : Env S) (operands : List T) : Except (Failure Err) Unit :=
  match env.signal with
  | some signal => if signal.aborted && operands.any large then .error ⟨.aborted signal.reason, []⟩ else .ok ()
  | none => .ok ()

mutual

def closure (large : T → Bool) (domainName : Text) : Ir T S Err → List T → Env S → Except (Failure Err) (T × Bool)
  | .num value exact, _, env => .ok (value, env.exact && exact)
  | .var slot, values, env =>
    match values[slot]? with
    | some value => .ok (value, env.exact)
    | none => .error ⟨.invalidArgument (text "No value in slot " ++ text (toString slot)), []⟩
  | .const f, _, env => here (f env)
  | .unary f arg, values, env => do
    let (a, exact) ← under .arg (closure large domainName arg values env)
    checkSignal large env [a]
    here (f a { env with exact })
  | .binary f left right, values, env => do
    let (a, exact) ← under .left (closure large domainName left values env)
    let (b, exact) ← under .right (closure large domainName right values { env with exact })
    checkSignal large env [a, b]
    here (f a b { env with exact })
  | .host name fn args, values, env => do
    let (inputs, exact) ← closures large domainName args 0 values env
    checkSignal large env inputs
    match fn inputs with
    | .error error => .error ⟨.domain error, []⟩
    | .ok (some result) => .ok (result, exact)
    | .ok none =>
      .error ⟨.invalidArgument (name ++ text "(…) returned a value that is not a " ++ domainName), []⟩

def closures (large : T → Bool) (domainName : Text) : List (Ir T S Err) → Nat → List T → Env S → Except (Failure Err) (List T × Bool)
  | [], _, _, env => .ok ([], env.exact)
  | arg :: args, index, values, env => do
    let (value, exact) ← under (.item index) (closure large domainName arg values env)
    let (rest, exact) ← closures large domainName args (index + 1) values { env with exact }
    return (value :: rest, exact)

end

def isNum : Ir T S Err → Bool
  | .num .. => true
  | _ => false

def isConstant : Ir T S Err → Bool
  | .const _ => true
  | .unary _ arg => isNum arg
  | .binary _ left right => isNum left && isNum right
  | _ => false

/-- Replaces a node whose operands are all values by its value. A failure belongs to the call, not to compile. -/
def fold (large : T → Bool) (domainName : Text) (env : Env S) (ir : Ir T S Err) : Ir T S Err :=
  if isConstant ir then
    match closure large domainName ir [] { env with exact := true } with
    | .ok (value, exact) => .num value exact
    | .error _ => ir
  else ir

end Arki.Expr
