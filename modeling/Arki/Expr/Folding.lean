import Arki.Expr.Compile
import Arki.Library.Outcome
import Mathlib

/-! Folding changes nothing: a folded tree has the values, the exact flags and the failures of the tree as it is written. -/

set_option autoImplicit false

namespace Arki.Expr

open Outcome (Alike)

variable {V T S Err : Type} {large : T → Bool} {domainName : Text} {signal quiet : Option AbortSignal} {digits : Nat} {settings : S}
  {ir other : Ir T S Err}

/-- The value and whether it is exact come from the budget and the settings alone; what was inexact before stays so. -/
def PureConstant (f : Constant T S Err) : Prop :=
  ∃ value : Nat → S → Except Err (T × Bool), ∀ env, f env = (value env.digits env.settings).map fun (v, stays) => (v, env.exact && stays)

def PureUnary (f : Unary T S Err) : Prop := ∀ a, PureConstant (f a)

def PureBinary (f : Binary T S Err) : Prop := ∀ a b, PureConstant (f a b)

structure Domain.Pure (domain : Domain V T S Err) : Prop where
  negate : PureUnary domain.negate
  ops : ∀ op, PureBinary (domain.ops op)
  unary : ∀ name builtin f, domain.functions name = some builtin → builtin.unary = some f → PureUnary f
  binary : ∀ name builtin f, domain.functions name = some builtin → builtin.binary = some f → PureBinary f
  constants : ∀ name f, domain.constants name = some f → PureConstant f

def PureNode : Ir T S Err → Prop
  | .const f => PureConstant f
  | .unary f _ => PureUnary f
  | .binary f _ _ => PureBinary f
  | _ => True

def Allows (atCompile atCall : Option AbortSignal) : Prop :=
  atCall = atCompile ∨ ∀ signal, atCall = some signal → signal.aborted = false

def SameRuns (large : T → Bool) (domainName : Text) (signal : Option AbortSignal) (digits : Nat) (settings : S)
    (ir other : Ir T S Err) : Prop :=
  ∀ values exact atCall, Allows signal atCall →
    closure large domainName ir values ⟨exact, atCall, digits, settings⟩ =
      closure large domainName other values ⟨exact, atCall, digits, settings⟩

section

-- The lemmas below unfold these at the same time: their equations are made once, here.
attribute [local simp] closure closures

end

theorem SameRuns.refl : SameRuns large domainName signal digits settings ir ir := fun _ _ _ _ => rfl

theorem SameRuns.trans {third : Ir T S Err} (first : SameRuns large domainName signal digits settings ir other)
    (second : SameRuns large domainName signal digits settings other third) :
    SameRuns large domainName signal digits settings ir third := fun values exact atCall allows =>
  (first values exact atCall allows).trans (second values exact atCall allows)

theorem SameRuns.unary (f : Unary T S Err) (arg : SameRuns large domainName signal digits settings ir other) :
    SameRuns large domainName signal digits settings (.unary f ir) (.unary f other) := by
  intro values exact atCall allows
  simp only [closure, arg values exact atCall allows]

theorem SameRuns.binary {right right_ : Ir T S Err} (f : Binary T S Err)
    (left : SameRuns large domainName signal digits settings ir other)
    (isRight : SameRuns large domainName signal digits settings right right_) :
    SameRuns large domainName signal digits settings (.binary f ir right) (.binary f other right_) := by
  intro values exact atCall allows
  simp only [closure, left values exact atCall allows]
  congr 1
  funext answer
  simp only [isRight values _ atCall allows]

theorem SameRuns.items {args args_ : List (Ir T S Err)}
    (each : List.Forall₂ (SameRuns large domainName signal digits settings) args args_) :
    ∀ index values exact atCall, Allows signal atCall →
      closures large domainName args index values ⟨exact, atCall, digits, settings⟩ =
        closures large domainName args_ index values ⟨exact, atCall, digits, settings⟩ := by
  induction each with
  | nil => exact fun _ _ _ _ _ => rfl
  | cons first _ ih =>
    intro index values exact atCall allows
    simp only [closures, first values exact atCall allows]
    congr 1
    funext answer
    simp only [ih (index + 1) values _ atCall allows]

theorem SameRuns.host {args args_ : List (Ir T S Err)} (name : Text) (fn : HostFunction T Err)
    (each : List.Forall₂ (SameRuns large domainName signal digits settings) args args_) :
    SameRuns large domainName signal digits settings (.host name fn args) (.host name fn args_) := by
  intro values exact atCall allows
  simp only [closure, SameRuns.items each 0 values exact atCall allows]

/-- A pure operation runs at the call as it ran at compile, less what was inexact before. -/
theorem PureConstant.again {f : Constant T S Err} (pure_ : PureConstant f) {value : T} {before after : Bool}
    (ran : f ⟨before, signal, digits, settings⟩ = .ok (value, after)) (exact : Bool) (atCall : Option AbortSignal) :
    f ⟨exact && before, atCall, digits, settings⟩ = .ok (value, exact && after) := by
  obtain ⟨compute, is⟩ := pure_
  rw [is] at ran ⊢
  cases computed : compute digits settings with
  | error err =>
    rw [computed] at ran
    cases ran
  | ok answer =>
    rw [computed] at ran
    cases ran
    simp only [Except.map, Bool.and_assoc]

/-- The check of a large operand passes at the call where it passed at compile. -/
theorem checkSignal_again {operands : List T} {exact exact_ : Bool} {atCall : Option AbortSignal} (allows : Allows signal atCall)
    (passed : (checkSignal large ⟨exact, signal, digits, settings⟩ operands : Except (Failure Err) Unit) = .ok ()) :
    (checkSignal large ⟨exact_, atCall, digits, settings⟩ operands : Except (Failure Err) Unit) = .ok () := by
  rcases allows with rfl | quiet
  · exact passed
  · cases atCall with
    | none => rfl
    | some signal_ => simp only [checkSignal, quiet signal_ rfl, Bool.false_and, Bool.false_eq_true, if_false]

theorem here_ok {computation : Except Err (T × Bool)} {answer : T × Bool} (ran : here computation = .ok answer) :
    computation = .ok answer := by
  cases computation with
  | error err => cases ran
  | ok value =>
    cases ran
    rfl

/-- A tree of constants runs at the call as it ran at compile, whatever was inexact before. -/
theorem constant_again {value : T} {exact_ : Bool} (pure_ : PureNode ir) (isConst : isConstant ir = true)
    (ran : closure large domainName ir [] ⟨true, signal, digits, settings⟩ = .ok (value, exact_)) (values : List T) (exact : Bool)
    (atCall : Option AbortSignal) (allows : Allows signal atCall) :
    closure large domainName ir values ⟨exact, atCall, digits, settings⟩ = .ok (value, exact && exact_) := by
  cases ir with
  | num | var | host => cases isConst
  | const f =>
    rw [closure] at ran ⊢
    have again := PureConstant.again pure_ (here_ok ran) exact atCall
    rw [Bool.and_true] at again
    rw [again]
    rfl
  | unary f arg =>
    cases arg with
    | num a rounded =>
      simp only [closure] at ran ⊢
      obtain ⟨_, passed, applied⟩ := Outcome.bind_ok.mp (show (checkSignal large ⟨true, signal, digits, settings⟩ [a] >>= fun _ =>
        here (f a ⟨true && rounded, signal, digits, settings⟩)) = .ok (value, exact_) from ran)
      have again := PureConstant.again (pure_ a) (here_ok applied) exact atCall
      rw [Bool.true_and] at again
      show (checkSignal large ⟨exact, atCall, digits, settings⟩ [a] >>= fun _ => here (f a ⟨exact && rounded, atCall, digits, settings⟩)) = _
      rw [checkSignal_again allows passed, again]
      rfl
    | _ => cases isConst
  | binary f left right =>
    cases left with
    | num a rounded =>
      cases right with
      | num b rounded_ =>
        simp only [closure] at ran ⊢
        obtain ⟨_, passed, applied⟩ := Outcome.bind_ok.mp (show (checkSignal large ⟨true, signal, digits, settings⟩ [a, b] >>= fun _ =>
          here (f a b ⟨true && rounded && rounded_, signal, digits, settings⟩)) = .ok (value, exact_) from ran)
        have again := PureConstant.again (pure_ a b) (here_ok applied) exact atCall
        rw [Bool.true_and, ← Bool.and_assoc] at again
        show (checkSignal large ⟨exact, atCall, digits, settings⟩ [a, b] >>= fun _ =>
          here (f a b ⟨exact && rounded && rounded_, atCall, digits, settings⟩)) = _
        rw [checkSignal_again allows passed, again]
        rfl
      | _ => cases isConst
    | _ => cases isConst

theorem fold_same (pure_ : PureNode ir) (exact : Bool) :
    SameRuns large domainName signal digits settings (fold large domainName ⟨exact, signal, digits, settings⟩ ir) ir := by
  intro values before atCall allows
  unfold fold
  by_cases isConst : isConstant ir = true
  · rw [if_pos isConst]
    cases ran : closure large domainName ir [] ⟨true, signal, digits, settings⟩ with
    | error failure => rfl
    | ok answer =>
      obtain ⟨value, exact_⟩ := answer
      rw [constant_again pure_ isConst ran values before atCall allows]
      rfl
  · rw [if_neg isConst]

namespace Compiler

variable {compiler : Compiler V T S Err}

def plain (compiler : Compiler V T S Err) : Compiler V T S Err := { compiler with foldsConstants := false }

abbrev Agree (compiler : Compiler V T S Err) : Ir T S Err → Ir T S Err → Prop :=
  SameRuns compiler.domain.large compiler.domain.name compiler.signal compiler.digits compiler.settings

theorem fold_agrees {ir other : Ir T S Err} (pure_ : PureNode ir) (agree : compiler.Agree ir other) :
    compiler.Agree (compiler.fold ir) (compiler.plain.fold other) := by
  have plain_ : compiler.plain.fold other = other := if_neg Bool.false_ne_true
  rw [plain_, fold]
  split
  · exact (fold_same pure_ true).trans agree
  · exact agree

theorem binary_agrees {f : Binary T S Err} {left left_ right right_ : Ir T S Err} (pure_ : PureBinary f)
    (isLeft : compiler.Agree left left_) (isRight : compiler.Agree right right_) :
    compiler.Agree (compiler.binary f left right) (compiler.plain.binary f left_ right_) :=
  fold_agrees pure_ (isLeft.binary f isRight)

theorem constant_alike (pure_ : compiler.domain.Pure) (name : Text) (span : Span) :
    Alike compiler.Agree (compiler.constant name span) (compiler.plain.constant name span) := by
  unfold constant
  rw [show compiler.plain.domain.constants name = compiler.domain.constants name from rfl,
    show compiler.plain.constants name = compiler.constants name from rfl]
  cases found : compiler.domain.constants name with
  | some builtin => exact .ok (fold_agrees (pure_.constants name builtin found) .refl)
  | none =>
    cases compiler.constants name with
    | some host => exact .ok .refl
    | none =>
      dsimp only
      split
      · next known =>
        rw [if_pos (show compiler.plain.scientific.constantSpec name = true from known)]
        exact .error _
      · next unknown =>
        rw [if_neg (show ¬ compiler.plain.scientific.constantSpec name = true from unknown)]
        exact .error _

theorem partIr_alike (pure_ : compiler.domain.Pure) (span : Span) (part : Part) :
    Alike compiler.Agree (compiler.partIr span part) (compiler.plain.partIr span part) := by
  cases part with
  | variable_ slot => exact .ok .refl
  | constant name => exact constant_alike pure_ name span

theorem product_agrees (pure_ : compiler.domain.Pure) {rest rest_ : List (Ir T S Err)} (each : List.Forall₂ compiler.Agree rest rest_) :
    ∀ {head head_ : Ir T S Err}, compiler.Agree head head_ →
      compiler.Agree (rest.foldl (compiler.binary (compiler.domain.ops .multiply)) head)
        (rest_.foldl (compiler.plain.binary (compiler.domain.ops .multiply)) head_) := by
  induction each with
  | nil => exact fun agree => agree
  | cons first _ ih => exact fun agree => ih (binary_agrees (pure_.ops .multiply) agree first)

theorem name_alike (pure_ : compiler.domain.Pure) (name : Text) (span : Span) :
    Alike compiler.Agree (compiler.name name span) (compiler.plain.name name span) := by
  have resolved : Alike Eq (compiler.resolve name span) (compiler.plain.resolve name span) := .refl
  refine resolved.bind fun parts _ same => ?_
  subst same
  refine Alike.bind (Alike.mapM parts (partIr_alike pure_ span)) fun irs irs_ each => ?_
  cases each with
  | nil => exact .error _
  | cons first rest => exact .ok (product_agrees pure_ rest first)

def PurePlan : Plan T S Err → Prop
  | .unary f => PureUnary f
  | .binary f => PureBinary f
  | .host .. => True

theorem plan_pure (pure_ : compiler.domain.Pure) {name : Text} {count : Nat} {span : Span} {plan : Plan T S Err}
    (planned : compiler.plan name count span = .ok plan) : PurePlan plan := by
  unfold Compiler.plan at planned
  dsimp only at planned
  cases found : compiler.domain.functions name with
  | some builtin =>
    rw [found] at planned
    dsimp only at planned
    split at planned
    · next f isUnary =>
      cases planned
      exact pure_.unary name builtin _ found isUnary
    · next f isBinary =>
      cases planned
      exact pure_.binary name builtin _ found isBinary
    · cases planned
  | none =>
    rw [found] at planned
    dsimp only at planned
    cases host : compiler.functions name with
    | none =>
      rw [host] at planned
      dsimp only at planned
      split at planned
      · cases planned
      · split at planned <;> cases planned
    | some fn =>
      rw [host] at planned
      dsimp only at planned
      split at planned
      · cases planned
      · cases planned
        trivial

theorem callPlan_pure (pure_ : compiler.domain.Pure) {name : Text} {count : Nat} {span : Span} {plan : Plan T S Err}
    (planned : compiler.callPlan name count span = .ok plan) : PurePlan plan := by
  unfold callPlan at planned
  split at planned
  · cases planned
    exact pure_.ops .power
  · exact plan_pure pure_ planned

theorem assemble_alike {plan : Plan T S Err} (pure_ : PurePlan plan) {args args_ : List (Ir T S Err)}
    (each : List.Forall₂ compiler.Agree args args_) :
    Alike compiler.Agree (compiler.assemble plan args) (compiler.plain.assemble plan args_) := by
  cases plan with
  | unary f =>
    rcases each with _ | ⟨first, _ | ⟨_, _⟩⟩
    · exact .error _
    · exact .ok (fold_agrees pure_ (first.unary f))
    · exact .error _
  | binary f =>
    rcases each with _ | ⟨first, _ | ⟨second, _ | ⟨_, _⟩⟩⟩
    · exact .error _
    · exact .error _
    · exact .ok (binary_agrees pure_ first second)
    · exact .error _
  | host name fn => exact .ok (.host name fn each)

def Built (compiler : Compiler V T S Err) (first second : Ir T S Err × Nat) : Prop :=
  compiler.Agree first.1 second.1 ∧ first.2 = second.2

theorem planned_alike {plan : Compiled Err (Plan T S Err)} (pure_ : ∀ made, plan = .ok made → PurePlan made) :
    Alike (fun first second => first = second ∧ PurePlan first) plan plan := by
  cases plan with
  | error stop => exact .error stop
  | ok made => exact .ok ⟨rfl, pure_ made rfl⟩

theorem guarded {First Second Third : Type} {related : First → Second → Prop} {refused : Prop} [Decidable refused]
    {stop : CompileStop Err} {next : Third → Compiled Err First} {next_ : Third → Compiled Err Second} {first : Compiled Err First}
    {second : Compiled Err Second} (alike : Alike related first second) :
    Alike related (if refused then (throw stop >>= next) else first) (if refused then (throw stop >>= next_) else second) := by
  split
  · exact .error stop
  · exact alike

mutual

theorem build_alike (pure_ : compiler.domain.Pure) : ∀ (node : Node) (depth cost : Nat),
    Alike compiler.Built (compiler.build node depth cost) (compiler.plain.build node depth cost)
  | .number raw span, depth, cost => by
    rw [build, build]
    refine guarded ?_
    have read : Alike Eq (compiler.number raw span) (compiler.plain.number raw span) := .refl
    exact read.bind fun ir _ same => .ok ⟨same ▸ .refl, rfl⟩
  | .name name span, depth, cost => by
    rw [build, build]
    refine guarded ?_
    exact (name_alike pure_ name span).bind fun _ _ agree => .ok ⟨agree, rfl⟩
  | .group inner _, depth, cost => by
    rw [build, build]
    refine guarded ?_
    exact build_alike pure_ inner (depth + 1) (cost + 1)
  | .unary op arg _, depth, cost => by
    rw [build, build]
    refine guarded ?_
    refine (build_alike pure_ arg (depth + 1) (cost + 1)).bind fun ⟨ir, cost⟩ ⟨ir_, _⟩ ⟨agree, same⟩ => ?_
    cases same
    refine .ok ⟨?_, rfl⟩
    cases op with
    | plus => exact agree
    | minus => exact fold_agrees pure_.negate (agree.unary _)
  | .factorial arg span, depth, cost => by
    rw [build, build]
    refine guarded ?_
    refine (planned_alike fun _ made => plan_pure pure_ made).bind fun plan _ ⟨same, isPure⟩ => ?_
    subst same
    refine (build_alike pure_ arg (depth + 1) _).bind fun ⟨ir, cost⟩ ⟨ir_, _⟩ ⟨agree, same⟩ => ?_
    cases same
    exact (assemble_alike isPure (.cons agree .nil)).bind fun _ _ agree => .ok ⟨agree, rfl⟩
  | .binary op left right _ _, depth, cost => by
    rw [build, build]
    refine guarded ?_
    refine (build_alike pure_ left (depth + 1) (cost + 1)).bind fun ⟨left, cost⟩ ⟨left_, _⟩ ⟨isLeft, same⟩ => ?_
    cases same
    refine (build_alike pure_ right (depth + 1) cost).bind fun ⟨right, cost⟩ ⟨right_, _⟩ ⟨isRight, same⟩ => ?_
    cases same
    exact .ok ⟨binary_agrees (pure_.ops op) isLeft isRight, rfl⟩
  | .call fn args _ span, depth, cost => by
    rw [build, build]
    refine guarded ?_
    refine (planned_alike fun _ made => callPlan_pure pure_ made).bind fun plan _ ⟨same, isPure⟩ => ?_
    subst same
    refine (builds_alike pure_ args (depth + 1) _).bind fun ⟨irs, cost⟩ ⟨irs_, _⟩ ⟨each, same⟩ => ?_
    cases same
    exact (assemble_alike isPure each).bind fun _ _ agree => .ok ⟨agree, rfl⟩

theorem builds_alike (pure_ : compiler.domain.Pure) : ∀ (nodes : List Node) (depth cost : Nat),
    Alike (fun first second => List.Forall₂ compiler.Agree first.1 second.1 ∧ first.2 = second.2)
      (compiler.builds nodes depth cost) (compiler.plain.builds nodes depth cost)
  | [], _, _ => .ok ⟨.nil, rfl⟩
  | arg :: args, depth, cost => by
    rw [builds, builds]
    refine (build_alike pure_ arg depth cost).bind fun ⟨ir, cost⟩ ⟨ir_, _⟩ ⟨agree, same⟩ => ?_
    cases same
    refine (builds_alike pure_ args depth cost).bind fun ⟨irs, cost⟩ ⟨irs_, _⟩ ⟨each, same⟩ => ?_
    cases same
    exact .ok ⟨.cons agree each, rfl⟩

end

theorem root_alike (pure_ : compiler.domain.Pure) (node : Node) : Alike compiler.Built (compiler.root node) (compiler.plain.root node) := by
  refine (build_alike pure_ node 1 0).bind fun ⟨ir, cost⟩ ⟨ir_, _⟩ ⟨agree, same⟩ => ?_
  cases same
  exact guarded (.ok ⟨agree, rfl⟩)

theorem compileExact_alike (pure_ : compiler.domain.Pure) (node : Node) :
    Alike compiler.Agree (compiler.compileExact node) (compiler.plain.compileExact node) :=
  (root_alike pure_ node).bind fun _ _ ⟨agree, _⟩ => .ok agree

theorem difference_alike (pure_ : compiler.domain.Pure) (left right : Node) :
    Alike compiler.Agree (compiler.difference left right) (compiler.plain.difference left right) := by
  refine (root_alike pure_ left).bind fun ⟨left, cost⟩ ⟨left_, _⟩ ⟨isLeft, same⟩ => ?_
  cases same
  refine (root_alike pure_ right).bind fun ⟨right, cost_⟩ ⟨right_, _⟩ ⟨isRight, same⟩ => ?_
  cases same
  exact guarded (.ok (binary_agrees (pure_.ops .subtract) isLeft isRight))

theorem detailed_agrees {ir other : Ir T S Err} (agree : compiler.Agree ir other) (scope : Text → Option V) {atCall : Option AbortSignal}
    (allows : Allows compiler.signal atCall) : compiler.detailed ir scope atCall = compiler.plain.detailed other scope atCall := by
  show (compiler.variables_.mapM (compiler.scopeValue scope) >>= _) = (compiler.variables_.mapM (compiler.scopeValue scope) >>= _)
  congr 1
  funext values
  show (closure _ _ ir values ⟨true, atCall, compiler.digits, compiler.settings⟩ >>= _) =
    (closure _ _ other values ⟨true, atCall, compiler.digits, compiler.settings⟩ >>= _)
  rw [agree values true atCall allows]
  rfl

theorem details_same {first second : Compiled Err (Ir T S Err)} (alike : Alike compiler.Agree first second) (scope : Text → Option V)
    {atCall : Option AbortSignal} (allows : Allows compiler.signal atCall) :
    (first.map fun ir => compiler.detailed ir scope atCall) = second.map fun ir => compiler.plain.detailed ir scope atCall := by
  cases alike with
  | ok agree => exact congrArg Except.ok (detailed_agrees agree scope allows)
  | error _ => rfl

/-- Folding is not observable: an expression or an equation compiles, or is refused, as without it, and then a call at any
scope gives the same value and exact flag, or fails with the same error at the same place. -/
theorem folding_unobservable (compiler : Compiler V T S Err) (pure_ : compiler.domain.Pure) (node left right : Node)
    (scope : Text → Option V) (atCall : Option AbortSignal) (allows : Allows compiler.signal atCall) :
    (compiler.compileExact node).map (fun ir => compiler.detailed ir scope atCall) =
      (compiler.plain.compileExact node).map (fun ir => compiler.plain.detailed ir scope atCall) ∧
    (compiler.difference left right).map (fun ir => compiler.detailed ir scope atCall) =
      (compiler.plain.difference left right).map (fun ir => compiler.plain.detailed ir scope atCall) :=
  ⟨details_same (compileExact_alike pure_ node) scope allows, details_same (difference_alike pure_ left right) scope allows⟩

/-! A domain of whole numbers, where a quotient that is not whole rounds down. -/

inductive WholeError where
  | divisionByZero
  | negativePower
  deriving DecidableEq

def wholeOps : BinaryOperator → Binary Int Unit WholeError
  | .add, a, b, env => .ok (a + b, env.exact)
  | .subtract, a, b, env => .ok (a - b, env.exact)
  | .multiply, a, b, env => .ok (a * b, env.exact)
  | .divide, a, b, env => if b = 0 then .error .divisionByZero else .ok (a / b, env.exact && a % b = 0)
  | .power, a, b, env => if b < 0 then .error .negativePower else .ok (a ^ b.toNat, env.exact)

def wholes : Domain Int Int Unit WholeError where
  name := text "whole"
  literal raw := .ok (raw.foldl (fun (value : Int) code => value * 10 + (code - 48)) 0)
  input value := .ok (some value)
  typeOf _ := text "bigint"
  large value := 10 ^ 100 ≤ value.natAbs
  negate value env := .ok (-value, env.exact)
  ops := wholeOps
  functions _ := none
  constants _ := none
  approximate := false

theorem wholes_pure : wholes.Pure where
  negate a := ⟨fun _ _ => .ok (-a, true), fun env => by simp [wholes, Except.map]⟩
  ops op a b := by
    cases op with
    | add => exact ⟨fun _ _ => .ok (a + b, true), fun env => by simp [wholes, wholeOps, Except.map]⟩
    | subtract => exact ⟨fun _ _ => .ok (a - b, true), fun env => by simp [wholes, wholeOps, Except.map]⟩
    | multiply => exact ⟨fun _ _ => .ok (a * b, true), fun env => by simp [wholes, wholeOps, Except.map]⟩
    | divide =>
      refine ⟨fun _ _ => if b = 0 then .error .divisionByZero else .ok (a / b, a % b = 0), fun env => ?_⟩
      show (if b = 0 then _ else _) = _
      split <;> rfl
    | power =>
      refine ⟨fun _ _ => if b < 0 then .error .negativePower else .ok (a ^ b.toNat, true), fun env => ?_⟩
      show (if b < 0 then _ else _) = _
      split
      · rfl
      · simp [Except.map]
  unary _ _ _ found := by cases found
  binary _ _ _ found := by cases found
  constants _ _ found := by cases found

def emptyLanguage : Language where
  functionSpec _ := none
  constantSpec _ := false
  functionNames := []
  functionsNamed _ _ found := by cases found
  constantsNamed _ found := by cases found

def wholeCompiler : Compiler Int Int Unit WholeError where
  domain := wholes
  settings := ()
  signal := none
  language := emptyLanguage
  functionCost _ := 1
  scientific := emptyLanguage
  functions _ := none
  constants _ := none
  variables_ := [text "x"]
  depth := 256
  steps := 10000
  digits := 1000
  foldsConstants := true

def noSpan : Span := ⟨0, 0⟩

/-- `7/2 + x/0`, and its difference to itself. -/
theorem folding_unobservable_run :
    (let node := Node.binary .add (.binary .divide (.number (text "7") noSpan) (.number (text "2") noSpan) false noSpan)
      (.binary .divide (.name (text "x") noSpan) (.number (text "0") noSpan) false noSpan) false noSpan
    (wholeCompiler.compileExact node).map (fun ir => wholeCompiler.detailed ir (fun _ => some 1) none) =
      (wholeCompiler.plain.compileExact node).map (fun ir => wholeCompiler.plain.detailed ir (fun _ => some 1) none) ∧
    (wholeCompiler.difference node node).map (fun ir => wholeCompiler.detailed ir (fun _ => some 1) none) =
      (wholeCompiler.plain.difference node node).map (fun ir => wholeCompiler.plain.detailed ir (fun _ => some 1) none)) :=
  folding_unobservable wholeCompiler wholes_pure _ _ _ (fun _ => some 1) none (.inl rfl)

/-- `10^200 + 1` under a signal that is aborted: the sum was computed at compile. -/
theorem folding_skips_abort :
    (let node := Node.binary .add (.binary .power (.number (text "10") noSpan) (.number (text "200") noSpan) false noSpan)
      (.number (text "1") noSpan) false noSpan
    (wholeCompiler.compileExact node).map (fun ir => wholeCompiler.detailed ir (fun _ => some 1) (some ⟨true, text "stop"⟩)) =
      .ok (.ok (10 ^ 200 + 1, true)) ∧
    (wholeCompiler.plain.compileExact node).map (fun ir => wholeCompiler.plain.detailed ir (fun _ => some 1) (some ⟨true, text "stop"⟩)) =
      .ok (.error ⟨.aborted (text "stop"), []⟩)) :=
  ⟨by decide +kernel, by decide +kernel⟩

end Compiler

end Arki.Expr
