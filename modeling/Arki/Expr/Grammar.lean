import Arki.Expr.Parser

/-! The grammar of the parser's header, as derivations of token lists.

`inBar` says that the innermost bracket around the tokens is a `|`, which a `|` after an operand then
closes. The tree of a derivation has its spans.
-/

set_option autoImplicit false

namespace Arki.Expr

inductive Level where
  | sum
  | product
  | unary
  | power
  | postfixed
  | primary
  deriving DecidableEq

/-- A name before `(` must be a value: a product is never guessed. -/
def Meets (options : ParseOptions) (ahead rest : List Token) : Prop :=
  ∀ last ∈ ahead.getLast?, ∀ first ∈ rest.head?, last.kind = .name → first.kind = .open_ →
    options.isValue last.text = true

def TakesOne (options : ParseOptions) (fn : Text) : Prop :=
  ∃ spec, options.language.functionSpec fn = some spec ∧ spec.min ≤ 1 ∧ 1 ≤ spec.max

def contextsOf (inBar : Bool) : List Context := if inBar then [.bar] else []

mutual

inductive Derives (options : ParseOptions) : Bool → Level → List Token → Node → Prop where
  | product {inBar : Bool} {tokens : List Token} {node : Node} :
      Derives options inBar .product tokens node → Derives options inBar .sum tokens node
  | sum {inBar : Bool} {before after : List Token} {left right : Node} {sign : Token} {op : BinaryOperator} :
      Derives options inBar .sum before left → Parser.sumOperator sign.kind = some op →
      Derives options inBar .product after right →
      Derives options inBar .sum (before ++ sign :: after)
        (.binary op left right false ⟨left.span.start, right.span.stop⟩)
  | unary {inBar : Bool} {tokens : List Token} {node : Node} :
      Derives options inBar .unary tokens node → Derives options inBar .product tokens node
  | times {inBar : Bool} {before after : List Token} {left right : Node} {sign : Token} {op : BinaryOperator} :
      Derives options inBar .product before left → Parser.productOperator sign.kind = some op →
      Derives options inBar .unary after right →
      Derives options inBar .product (before ++ sign :: after)
        (.binary op left right false ⟨left.span.start, right.span.stop⟩)
  | juxtaposed {inBar : Bool} {before after : List Token} {left right : Node} {first : Token} :
      Derives options inBar .product before left → Derives options inBar .power after right →
      after.head? = some first → Parser.startsImplicitOperand first.kind (contextsOf inBar) = true →
      Meets options before after →
      Derives options inBar .product (before ++ after)
        (.binary .multiply left right true ⟨left.span.start, right.span.stop⟩)
  | power {inBar : Bool} {tokens : List Token} {node : Node} :
      Derives options inBar .power tokens node → Derives options inBar .unary tokens node
  | signed {inBar : Bool} {tokens : List Token} {arg : Node} {sign : Token} {op : Sign} :
      Parser.signOf sign.kind = some op → Derives options inBar .unary tokens arg →
      Derives options inBar .unary (sign :: tokens) (.unary op arg ⟨sign.start, arg.span.stop⟩)
  | postfixed {inBar : Bool} {tokens : List Token} {node : Node} :
      Derives options inBar .postfixed tokens node → Derives options inBar .power tokens node
  | raised {inBar : Bool} {before after : List Token} {base exponent : Node} {caret : Token} :
      Derives options inBar .postfixed before base → caret.kind = .caret →
      Derives options inBar .unary after exponent →
      Derives options inBar .power (before ++ caret :: after)
        (.binary .power base exponent false ⟨base.span.start, exponent.span.stop⟩)
  | primary {inBar : Bool} {tokens : List Token} {node : Node} :
      Derives options inBar .primary tokens node → Derives options inBar .postfixed tokens node
  | factorial {inBar : Bool} {tokens : List Token} {arg : Node} {bang : Token} :
      Derives options inBar .postfixed tokens arg → bang.kind = .bang →
      Derives options inBar .postfixed (tokens ++ [bang]) (.factorial arg ⟨arg.span.start, bang.stop⟩)
  | number {inBar : Bool} {token : Token} : token.kind = .number →
      Derives options inBar .primary [token] (.number token.text ⟨token.start, token.stop⟩)
  | name {inBar : Bool} {token : Token} : token.kind = .name →
      options.language.functionSpec token.text = none →
      Derives options inBar .primary [token] (.name token.text ⟨token.start, token.stop⟩)
  | group {inBar : Bool} {tokens : List Token} {inner : Node} {opening closing : Token} : opening.kind = .open_ →
      Derives options false .sum tokens inner → closing.kind = .close →
      Derives options inBar .primary (opening :: (tokens ++ [closing])) (.group inner ⟨opening.start, closing.stop⟩)
  | bars {inBar : Bool} {tokens : List Token} {inner : Node} {opening closing : Token} :
      TakesOne options (text "abs") → opening.kind = .bar →
      Derives options true .sum tokens inner → closing.kind = .bar →
      Derives options inBar .primary (opening :: (tokens ++ [closing]))
        (.call (text "abs") [inner] .bars ⟨opening.start, closing.stop⟩)
  | radical {inBar : Bool} {tokens : List Token} {arg : Node} {sign : Token} :
      TakesOne options (text "sqrt") → sign.kind = .radical → Derives options inBar .primary tokens arg →
      Derives options inBar .primary (sign :: tokens)
        (.call (text "sqrt") [arg] .radical ⟨sign.start, arg.span.stop⟩)
  | empty {inBar : Bool} {name opening closing : Token} {spec : FunctionSpec} : name.kind = .name →
      options.language.functionSpec name.text = some spec → opening.kind = .open_ → closing.kind = .close →
      spec.min = 0 →
      Derives options inBar .primary [name, opening, closing] (.call name.text [] .call ⟨name.start, closing.stop⟩)
  | call {inBar : Bool} {tokens : List Token} {args : List Node} {name opening closing : Token} {spec : FunctionSpec} :
      name.kind = .name → options.language.functionSpec name.text = some spec → opening.kind = .open_ →
      Arguments options tokens args → closing.kind = .close → spec.min ≤ args.length → args.length ≤ spec.max →
      Derives options inBar .primary (name :: opening :: (tokens ++ [closing]))
        (.call name.text args .call ⟨name.start, closing.stop⟩)

/-- `sum { sep sum }`. -/
inductive Arguments (options : ParseOptions) : List Token → List Node → Prop where
  | last {tokens : List Token} {arg : Node} : Derives options false .sum tokens arg → Arguments options tokens [arg]
  | more {tokens rest : List Token} {arg : Node} {args : List Node} {sep : Token} :
      Derives options false .sum tokens arg → sep.kind = .sep → Arguments options rest args →
      Arguments options (tokens ++ sep :: rest) (arg :: args)

end

def startsOperand : TokenKind → Bool
  | .number | .name | .open_ | .bar | .radical | .plus | .minus => true
  | _ => false

theorem signOf_operand {kind : TokenKind} {op : Sign} (found : Parser.signOf kind = some op) : startsOperand kind = true := by
  cases kind <;> first | rfl | cases found

variable {options : ParseOptions} {inBar : Bool} {level : Level} {tokens : List Token} {node : Node}

mutual

/-- A derivation begins with an operand, and its tree stands from the first token to the last. -/
theorem Derives.ends : ∀ {inBar : Bool} {level : Level} {tokens : List Token} {node : Node},
    Derives options inBar level tokens node →
    ∃ first last, tokens.head? = some first ∧ tokens.getLast? = some last ∧ startsOperand first.kind = true ∧
      node.span = ⟨first.start, last.stop⟩
  | _, _, _, _, .product derived | _, _, _, _, .unary derived | _, _, _, _, .power derived
  | _, _, _, _, .postfixed derived | _, _, _, _, .primary derived => derived.ends
  | _, _, _, _, .sum left _ right | _, _, _, _, .times left _ right | _, _, _, _, .raised left _ right => by
    obtain ⟨first, _, head, _, starts, here⟩ := left.ends
    obtain ⟨_, last, _, tail, _, there⟩ := right.ends
    refine ⟨first, last, by simp [List.head?_append, head], by simp [List.getLast?_append, List.getLast?_cons, tail], starts, ?_⟩
    rw [Node.span, here, there]
  | _, _, _, _, .juxtaposed left right _ _ _ => by
    obtain ⟨first, _, head, _, starts, here⟩ := left.ends
    obtain ⟨_, last, _, tail, _, there⟩ := right.ends
    refine ⟨first, last, by simp [List.head?_append, head], by simp [List.getLast?_append, tail], starts, ?_⟩
    rw [Node.span, here, there]
  | _, _, _, _, .signed found arg => by
    obtain ⟨_, last, _, tail, _, there⟩ := arg.ends
    exact ⟨_, last, rfl, by simp [List.getLast?_cons, tail], signOf_operand found, by rw [Node.span, there]⟩
  | _, _, _, _, .factorial arg _ => by
    obtain ⟨first, _, head, _, starts, here⟩ := arg.ends
    exact ⟨first, _, by simp [List.head?_append, head], List.getLast?_concat, starts, by rw [Node.span, here]⟩
  | _, _, _, _, .number kind | _, _, _, _, .name kind _ => ⟨_, _, rfl, rfl, by simp [kind, startsOperand], rfl⟩
  | _, _, _, _, .group kind _ _ | _, _, _, _, .bars _ kind _ _ =>
    ⟨_, _, rfl, by simp [List.getLast?_cons], by simp [kind, startsOperand], rfl⟩
  | _, _, _, _, .radical _ kind arg => by
    obtain ⟨_, last, _, tail, _, there⟩ := arg.ends
    exact ⟨_, last, rfl, by simp [List.getLast?_cons, tail], by simp [kind, startsOperand], by rw [Node.span, there]⟩
  | _, _, _, _, .empty kind _ _ _ _ => ⟨_, _, rfl, rfl, by simp [kind, startsOperand], rfl⟩
  | _, _, _, _, .call kind _ _ _ _ _ _ =>
    ⟨_, _, rfl, by simp [List.getLast?_cons], by simp [kind, startsOperand], rfl⟩

end

theorem Derives.filled (derived : Derives options inBar level tokens node) : tokens ≠ [] := by
  obtain ⟨_, _, head, _⟩ := derived.ends
  rintro rfl
  cases head

end Arki.Expr
