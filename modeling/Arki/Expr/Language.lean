import Arki.Expr.Tree

/-! What a text is read with: the language, the syntax and the budgets; and why it is refused. -/

set_option autoImplicit false

namespace Arki.Expr

structure FunctionSpec where
  min : Nat
  max : Nat
  ordered : min ≤ max

structure Language where
  functionSpec : Text → Option FunctionSpec
  constantSpec : Text → Bool
  functionNames : List Text
  functionsNamed : ∀ name spec, functionSpec name = some spec → isName name = true
  constantsNamed : ∀ name, constantSpec name = true → isName name = true ∧ functionSpec name = none

/-- The valid syntaxes: a decimal comma always pairs with the `;` separator. -/
inductive Syntax where
  | canonical
  | dotSemicolon
  | decimalComma
  deriving DecidableEq

def Syntax.decimal : Syntax → Nat
  | canonical | dotSemicolon => dotMark
  | decimalComma => commaMark

def Syntax.separator : Syntax → Nat
  | canonical => commaMark
  | dotSemicolon | decimalComma => semicolonMark

structure Limits where
  length : Nat
  tokens : Nat
  depth : Nat
  nodes : Nat
  positive : 0 < length ∧ 0 < tokens ∧ 0 < depth ∧ 0 < nodes

def defaultLimits : Limits := ⟨10000, 5000, 256, 5000, by decide⟩

inductive ParseErrorCode where
  | unexpectedToken
  | unexpectedEnd
  | unbalancedParen
  | unbalancedBar
  | badNumber
  | notAFunction
  | arity
  deriving DecidableEq

structure ParseError where
  code : ParseErrorCode
  span : Span
  message : Text
  expected : List Text
  found : Text
  deriving DecidableEq

inductive Budget where
  | length
  | tokens
  | depth
  | nodes
  deriving DecidableEq

/-- Why a parse stops: the text is refused, or it is over a budget. `fuel` is the model's own bound on
the recursion, which no text reaches. -/
inductive Stop where
  | refused (error : ParseError)
  | overBudget (budget : Budget) (limit actual : Nat)
  | fuel
  deriving DecidableEq

/-- The single letters of a name that has more than one, when every letter is a value. -/
def splitLetters (name : Text) (isValue : Text → Bool) : Option (List Text) :=
  if name.length < 2 then none
  else
    let letters := name.map fun letter => [letter]
    if letters.all isValue then some letters else none

/-- What a text is parsed with. `declared` are the variables that the host will declare. -/
structure ParseOptions where
  language : Language
  syntax_ : Syntax
  limits : Limits
  declared : List Text

def ParseOptions.known (options : ParseOptions) (name : Text) : Bool :=
  options.language.constantSpec name || options.declared.contains name

def ParseOptions.isValue (options : ParseOptions) (name : Text) : Bool :=
  options.known name || (splitLetters name options.known).isSome

end Arki.Expr
