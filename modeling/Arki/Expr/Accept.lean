import Arki.Expr.Grammar
import Arki.Library.Outcome

/-! What the parser accepts: every tree that it returns is derived from the tokens it took, within
the budgets.
-/

set_option autoImplicit false

namespace Arki.Expr

open Outcome (bind_ok)

variable {parser : Parser} {state next : Progress} {node left right : Node} {fuel : Nat}

namespace Node

mutual

def warnings (parser : Parser) : Node → List Warning
  | number .. | name .. => []
  | unary _ arg _ | factorial arg _ => arg.warnings parser
  | binary _ left right implicit _ =>
    left.warnings parser ++ right.warnings parser ++ if implicit then parser.warnImplicit left right else []
  | call _ args _ _ => allWarnings parser args
  | group inner _ => inner.warnings parser

def allWarnings (parser : Parser) : List Node → List Warning
  | [] => []
  | arg :: rest => arg.warnings parser ++ allWarnings parser rest

end

end Node

section

-- The lemmas below unfold these at the same time: their equations are made once, here.
attribute [local simp] Node.size Node.sizes Node.nesting Node.nestings Node.warnings Node.allWarnings Node.depth Node.depths

end

def Progress.after (parser : Parser) (state : Progress) (rest : List Token) (node : Node) : Progress :=
  { state with
    tokens := rest
    nodeCount := state.nodeCount + node.size
    depth := node.depth
    warnings := state.warnings ++ node.warnings parser }

def Progress.inBar (state : Progress) : Bool := state.contexts.head? == some .bar

structure Fits (parser : Parser) (state : Progress) (node : Node) : Prop where
  nodes : state.nodeCount + node.size ≤ parser.options.limits.nodes
  depth : node.depth ≤ parser.options.limits.depth
  nest : state.nest + node.nesting < parser.options.limits.depth

structure Took (parser : Parser) (level : Level) (state : Progress) (node : Node) (next : Progress) : Prop where
  derives : ∃ tokens, state.tokens = tokens ++ next.tokens ∧ Derives parser.options state.inBar level tokens node ∧
    Meets parser.options tokens next.tokens
  becomes : next = state.after parser next.tokens node
  fits : Fits parser state node

variable {rest : List Token} {token opening close : Token} {origin middle inside : Progress} {deepest : Nat}

@[simp]
theorem after_tokens : (state.after parser rest node).tokens = rest := rfl

@[simp]
theorem after_nest : (state.after parser rest node).nest = state.nest := rfl

@[simp]
theorem after_contexts : (state.after parser rest node).contexts = state.contexts := rfl

@[simp]
theorem after_nodeCount :
    (state.after parser rest node).nodeCount = state.nodeCount + node.size := rfl

@[simp]
theorem after_depth : (state.after parser rest node).depth = node.depth := rfl

@[simp]
theorem after_inBar : (state.after parser rest node).inBar = state.inBar := rfl

theorem startsImplicitOperand_contexts (kind : TokenKind) (state : Progress) :
    Parser.startsImplicitOperand kind (contextsOf state.inBar) = Parser.startsImplicitOperand kind state.contexts := by
  cases kind <;> simp only [Parser.startsImplicitOperand]
  unfold contextsOf Progress.inBar
  cases state.contexts with
  | nil => rfl
  | cons context rest => cases context <;> rfl

theorem finish_ok {depth : Nat} {answer : Node} (ran : parser.finish node depth state = .ok (answer, next)) :
    answer = node ∧ next = { state with nodeCount := state.nodeCount + 1, depth := depth } ∧
      state.nodeCount + 1 ≤ parser.options.limits.nodes ∧ depth ≤ parser.options.limits.depth := by
  simp only [Parser.finish] at ran
  split at ran
  · cases ran
  split at ran
  · cases ran
  · cases ran
    exact ⟨rfl, rfl, by omega, by omega⟩

theorem enter_ok (ran : parser.enter state = .ok next) :
    next = { state with nest := state.nest + 1 } ∧ state.nest + 1 < parser.options.limits.depth := by
  simp only [Parser.enter] at ran
  split at ran
  · cases ran
  · cases ran
    exact ⟨rfl, by omega⟩

theorem enter_room (ran : parser.enter state = .ok next) : next.nest < parser.options.limits.depth := by
  obtain ⟨rfl, room⟩ := enter_ok ran
  exact room

theorem requireFunction_ok {fn : Text} (ran : parser.requireFunction fn token 1 = .ok ()) :
    TakesOne parser.options fn := by
  simp only [Parser.requireFunction] at ran
  split at ran
  next spec found =>
    split at ran
    · cases ran
    · exact ⟨spec, found, by omega, by omega⟩
  · cases ran

theorem expectClose_ok {expected : List Text}
    (ran : parser.expectClose opening expected state = .ok (close, next)) :
    close = parser.current state ∧ close.kind = .close ∧ next = Parser.advance state := by
  simp only [Parser.expectClose] at ran
  split at ran
  next kind =>
    cases ran
    exact ⟨rfl, kind, rfl⟩
  · cases ran
  · cases ran

theorem current_token (here : parser.current state = token) (kind : token.kind ≠ .end_) :
    state.tokens = token :: state.tokens.tail := by
  cases tokens : state.tokens with
  | nil =>
    rw [Parser.current, tokens] at here
    exact absurd (here ▸ rfl) kind
  | cons head tail =>
    rw [Parser.current, tokens] at here
    simp only [List.head?_cons, Option.getD_some] at here
    rw [here, List.tail_cons]

theorem Meets.append {options : ParseOptions} {before after : List Token} (filled : after ≠ [])
    (meets : Meets options after rest) : Meets options (before ++ after) rest := by
  intro last final
  rw [List.getLast?_append_of_ne_nil _ filled] at final
  exact meets last final

theorem meets_closed {options : ParseOptions} {first : Token} {tokens : List Token}
    (kind : close.kind ≠ .name) : Meets options (first :: (tokens ++ [close])) rest := by
  intro last final _ _ isName
  rw [← List.cons_append, List.getLast?_append_of_ne_nil _ (List.cons_ne_nil _ _), List.getLast?_singleton] at final
  cases final
  exact absurd isName kind

theorem Took.binary {after : Progress} {level first second : Level} {op : BinaryOperator} {sign : Token}
    (ahead : Took parser first origin left middle) (kind : sign.kind ≠ .end_) (here : parser.current middle = sign)
    (behind : Took parser second (Parser.advance middle) right after) (plain : op ≠ .power)
    (ran : parser.binary op left right false middle.depth after = .ok (node, next))
    (build : ∀ before after, Derives parser.options origin.inBar first before left →
      Derives parser.options origin.inBar second after right →
      Derives parser.options origin.inBar level (before ++ sign :: after)
        (.binary op left right false ⟨left.span.start, right.span.stop⟩)) :
    Took parser level origin node next := by
  obtain ⟨⟨tokens, split, derived, _⟩, became, fits⟩ := ahead
  obtain ⟨⟨tokens', split', derived', meets'⟩, became', fits'⟩ := behind
  obtain ⟨rfl, rfl, nodes, depth⟩ := finish_ok ran
  have listed := current_token here kind
  have nesting : (Node.binary op left right false ⟨left.span.start, right.span.stop⟩).nesting =
      max left.nesting right.nesting := by
    cases op <;> first | rfl | exact absurd rfl plain
  refine ⟨⟨tokens ++ sign :: tokens', ?_, build _ _ derived ?_, ?_⟩, ?_, ?_⟩
  · rw [split, listed, List.append_assoc, List.cons_append]
    simpa [Parser.advance] using split'
  · rw [became] at derived'
    exact derived'
  · rw [← List.singleton_append, ← List.append_assoc]
    exact meets'.append derived'.filled
  · rw [became', became]
    simp [Progress.after, Parser.advance, Node.size, Node.depth, Node.warnings, Nat.add_assoc]
  · have := fits.nest
    have := fits'.nest
    rw [became', became] at nodes depth
    rw [became] at this depth
    simp only [Parser.advance, after_nodeCount, after_depth, after_nest] at nodes depth this
    constructor
    · simp only [Node.size]
      omega
    · simpa [Node.depth] using depth
    · rw [nesting]
      omega

theorem Took.juxtaposed {after : Progress} (ahead : Took parser .product origin left middle)
    (starts : Parser.startsImplicitOperand (parser.current middle).kind middle.contexts = true)
    (behind : Took parser .power middle right after)
    (ran : parser.binary .multiply left right true middle.depth
      { after with warnings := after.warnings ++ parser.warnImplicit left right } = .ok (node, next)) :
    Took parser .product origin node next := by
  obtain ⟨⟨tokens, split, derived, meets⟩, became, fits⟩ := ahead
  obtain ⟨⟨tokens', split', derived', meets'⟩, became', fits'⟩ := behind
  obtain ⟨rfl, rfl, nodes, depth⟩ := finish_ok ran
  obtain ⟨first, _, head, _⟩ := derived'.ends
  have leads : middle.tokens.head? = some first := by
    rw [split', List.head?_append, head, Option.some_or]
  refine ⟨⟨tokens ++ tokens', ?_, ?_, ?_⟩, ?_, ?_⟩
  · rw [split, split', List.append_assoc]
  · rw [became, after_inBar] at derived'
    refine .juxtaposed derived derived' head ?_ ?_
    · rw [Parser.current, leads, Option.getD_some, became, after_contexts] at starts
      rwa [startsImplicitOperand_contexts]
    · intro last final other begins
      cases head.symm.trans begins
      exact meets last final first leads
  · exact meets'.append derived'.filled
  · rw [became', became]
    simp [Progress.after, Node.size, Node.depth, Node.warnings, Nat.add_assoc]
  · have := fits.nest
    have := fits'.nest
    rw [became', became] at nodes depth
    rw [became] at this depth
    simp only [after_nodeCount, after_depth, after_nest] at nodes depth this
    constructor
    · simp only [Node.size]
      omega
    · simpa [Node.depth] using depth
    · simp only [Node.nesting]
      omega

theorem Took.signed {inner after : Progress} {sign : Token} {op : Sign} (here : parser.current origin = sign)
    (found : Parser.signOf sign.kind = some op) (entered : parser.enter (Parser.advance origin) = .ok inner)
    (behind : Took parser .unary inner right after)
    (ran : parser.finish (.unary op right ⟨sign.start, right.span.stop⟩) ((Parser.leave after).depth + 1)
      (Parser.leave after) = .ok (node, next)) : Took parser .unary origin node next := by
  obtain ⟨⟨tokens, split, derived, meets⟩, became, fits⟩ := behind
  obtain ⟨rfl, rfl, nodes, depth⟩ := finish_ok ran
  obtain ⟨rfl, _⟩ := enter_ok entered
  have listed := current_token here (by rintro same; simp [same, Parser.signOf] at found)
  refine ⟨⟨sign :: tokens, ?_, .signed found derived, ?_⟩, ?_, ?_⟩
  · rw [listed, List.cons_append]
    exact congrArg _ split
  · rw [← List.singleton_append]
    exact meets.append derived.filled
  · rw [became]
    simp [Progress.after, Parser.advance, Parser.leave, Node.size, Node.depth, Node.warnings, Nat.add_assoc]
  · have := fits.nest
    rw [became] at nodes depth
    simp only [Parser.leave, Parser.advance, after_nodeCount, after_depth] at nodes depth this
    constructor
    · simp only [Node.size]
      omega
    · simpa [Node.depth] using depth
    · simp only [Node.nesting]
      omega

theorem Took.raised {inner after : Progress} {caret : Token} (ahead : Took parser .postfixed origin left middle)
    (here : parser.current middle = caret) (kind : caret.kind = .caret)
    (entered : parser.enter (Parser.advance middle) = .ok inner) (behind : Took parser .unary inner right after)
    (ran : parser.binary .power left right false middle.depth (Parser.leave after) = .ok (node, next)) :
    Took parser .power origin node next := by
  obtain ⟨⟨tokens, split, derived, _⟩, became, fits⟩ := ahead
  obtain ⟨⟨tokens', split', derived', meets'⟩, became', fits'⟩ := behind
  obtain ⟨rfl, rfl, nodes, depth⟩ := finish_ok ran
  obtain ⟨rfl, _⟩ := enter_ok entered
  have listed := current_token here (by simp [kind])
  refine ⟨⟨tokens ++ caret :: tokens', ?_, .raised derived kind ?_, ?_⟩, ?_, ?_⟩
  · rw [split, listed, List.append_assoc, List.cons_append]
    simpa [Parser.advance, Parser.leave] using split'
  · rw [became] at derived'
    exact derived'
  · rw [← List.singleton_append, ← List.append_assoc]
    exact meets'.append derived'.filled
  · rw [became', became]
    simp [Progress.after, Parser.advance, Parser.leave, Node.size, Node.depth, Node.warnings, Nat.add_assoc]
  · have := fits.nest
    have := fits'.nest
    rw [became', became] at nodes depth
    rw [became] at this depth
    simp only [Parser.advance, Parser.leave, after_nodeCount, after_depth, after_nest] at nodes depth this
    constructor
    · simp only [Node.size]
      omega
    · simpa [Node.depth] using depth
    · simp only [Node.nesting]
      omega

theorem Took.factorial {bang : Token} (ahead : Took parser .postfixed origin left middle)
    (here : parser.current middle = bang) (kind : bang.kind = .bang)
    (ran : parser.finish (.factorial left ⟨left.span.start, bang.stop⟩) ((Parser.advance middle).depth + 1)
      (Parser.advance middle) = .ok (node, next)) : Took parser .postfixed origin node next := by
  obtain ⟨⟨tokens, split, derived, _⟩, became, fits⟩ := ahead
  obtain ⟨rfl, rfl, nodes, depth⟩ := finish_ok ran
  have listed := current_token here (by simp [kind])
  refine ⟨⟨tokens ++ [bang], ?_, .factorial derived kind, ?_⟩, ?_, ?_⟩
  · rw [split, listed, List.append_assoc]
    rfl
  · intro last final first _ isName
    simp only [List.getLast?_append, List.getLast?_singleton, Option.some_or, Option.mem_def, Option.some.injEq] at final
    rw [← final, kind] at isName
    cases isName
  · rw [became]
    simp [Progress.after, Parser.advance, Node.size, Node.depth, Node.warnings, Nat.add_assoc]
  · have := fits.nest
    rw [became] at nodes depth
    simp only [Parser.advance, after_nodeCount, after_depth] at nodes depth
    constructor
    · simp only [Node.size]
      omega
    · simpa [Node.depth] using depth
    · simpa only [Node.nesting] using this

theorem Took.leaf {leaf : Node} (here : parser.current origin = token)
    (kind : token.kind ≠ .end_) (derived : ∀ inBar, Derives parser.options inBar .primary [token] leaf)
    (meets : Meets parser.options [token] origin.tokens.tail) (size : leaf.size = 1) (depth : leaf.depth = 1)
    (nesting : leaf.nesting = 0) (warnings : leaf.warnings parser = [])
    (room : origin.nest < parser.options.limits.depth)
    (ran : parser.finish leaf 1 (Parser.advance origin) = .ok (node, next)) : Took parser .primary origin node next := by
  obtain ⟨rfl, rfl, nodes, deep⟩ := finish_ok ran
  have listed := current_token here kind
  refine ⟨⟨[token], listed, derived _, meets⟩, ?_, ?_⟩
  · simp [Progress.after, Parser.advance, size, depth, warnings]
  · constructor
    · rw [size]
      exact nodes
    · rw [depth]
      exact deep
    · rwa [nesting, Nat.add_zero]

theorem Took.group {after ended : Progress} {inner : Node} {expected : List Text}
    (here : parser.current origin = opening) (kind : opening.kind = .open_)
    (entered : parser.enter (Parser.advance origin) = .ok inside)
    (within : Took parser .sum (Parser.push .paren inside) inner after)
    (closed : parser.expectClose opening expected after = .ok (close, ended))
    (ran : parser.finish (.group inner ⟨opening.start, close.stop⟩) (after.depth + 1)
      (Parser.leave (Parser.pop ended)) = .ok (node, next)) : Took parser .primary origin node next := by
  obtain ⟨⟨tokens, split, derived, _⟩, became, fits⟩ := within
  obtain ⟨rfl, rfl, nodes, depth⟩ := finish_ok ran
  obtain ⟨rfl, _⟩ := enter_ok entered
  obtain ⟨same, kind', rfl⟩ := expectClose_ok closed
  have listed := current_token here (by simp [kind])
  have listed' := current_token same.symm (by simp [kind'])
  refine ⟨⟨opening :: (tokens ++ [close]), ?_, .group kind derived kind', ?_⟩, ?_, ?_⟩
  · rw [listed]
    simp only [Parser.push, Parser.advance] at split
    rw [split, listed']
    simp [Parser.leave, Parser.pop, Parser.advance]
  · exact meets_closed (by simp [kind'])
  · rw [became]
    simp [Progress.after, Parser.advance, Parser.leave, Parser.pop, Parser.push, Node.size, Node.depth, Node.warnings,
      Nat.add_assoc]
  · have := fits.nest
    rw [became] at nodes depth
    simp only [Parser.leave, Parser.advance, Parser.pop, Parser.push, after_nodeCount, after_depth] at nodes depth this
    constructor
    · simp only [Node.size]
      omega
    · simpa [Node.depth] using depth
    · simp only [Node.nesting]
      omega

theorem Took.bars {after : Progress} {inner : Node}
    (one : TakesOne parser.options (text "abs")) (here : parser.current origin = opening) (kind : opening.kind = .bar)
    (entered : parser.enter (Parser.advance origin) = .ok inside)
    (within : Took parser .sum (Parser.push .bar inside) inner after) (closed : (parser.current after).kind = .bar)
    (ran : parser.finish (.call (text "abs") [inner] .bars ⟨opening.start, (parser.current after).stop⟩) (after.depth + 1)
      (Parser.leave (Parser.pop (Parser.advance after))) = .ok (node, next)) : Took parser .primary origin node next := by
  obtain ⟨⟨tokens, split, derived, _⟩, became, fits⟩ := within
  obtain ⟨rfl, rfl, nodes, depth⟩ := finish_ok ran
  obtain ⟨rfl, _⟩ := enter_ok entered
  have listed := current_token here (by simp [kind])
  have listed' := current_token rfl (by simp [closed] : (parser.current after).kind ≠ .end_)
  refine ⟨⟨opening :: (tokens ++ [parser.current after]), ?_, .bars one kind derived closed, ?_⟩, ?_, ?_⟩
  · rw [listed]
    simp only [Parser.push, Parser.advance] at split
    rw [split, listed']
    simp [Parser.leave, Parser.pop, Parser.advance, Parser.current]
  · exact meets_closed (by simp [closed])
  · rw [became]
    simp [Progress.after, Parser.advance, Parser.leave, Parser.pop, Parser.push, Node.size, Node.sizes, Node.depth,
      Node.depths, Node.warnings, Node.allWarnings, Nat.add_assoc]
  · have := fits.nest
    rw [became] at nodes depth
    simp only [Parser.leave, Parser.advance, Parser.pop, Parser.push, after_nodeCount, after_depth] at nodes depth this
    constructor
    · simp only [Node.size, Node.sizes]
      omega
    · simpa [Node.depth, Node.depths] using depth
    · simp only [Node.nesting, Node.nestings]
      omega

theorem Took.radical {after : Progress} {sign : Token} {arg : Node}
    (one : TakesOne parser.options (text "sqrt")) (here : parser.current origin = sign) (kind : sign.kind = .radical)
    (entered : parser.enter (Parser.advance origin) = .ok inside) (behind : Took parser .primary inside arg after)
    (ran : parser.finish (.call (text "sqrt") [arg] .radical ⟨sign.start, arg.span.stop⟩) ((Parser.leave after).depth + 1)
      (Parser.leave after) = .ok (node, next)) : Took parser .primary origin node next := by
  obtain ⟨⟨tokens, split, derived, meets⟩, became, fits⟩ := behind
  obtain ⟨rfl, rfl, nodes, depth⟩ := finish_ok ran
  obtain ⟨rfl, _⟩ := enter_ok entered
  have listed := current_token here (by simp [kind])
  refine ⟨⟨sign :: tokens, ?_, .radical one kind derived, ?_⟩, ?_, ?_⟩
  · rw [listed, List.cons_append]
    exact congrArg _ split
  · rw [← List.singleton_append]
    exact meets.append derived.filled
  · rw [became]
    simp [Progress.after, Parser.advance, Parser.leave, Node.size, Node.sizes, Node.depth, Node.depths, Node.warnings,
      Node.allWarnings, Nat.add_assoc]
  · have := fits.nest
    rw [became] at nodes depth
    simp only [Parser.leave, Parser.advance, after_nodeCount, after_depth] at nodes depth this
    constructor
    · simp only [Node.size, Node.sizes]
      omega
    · simpa [Node.depth, Node.depths] using depth
    · simp only [Node.nesting, Node.nestings]
      omega

structure TookArguments (parser : Parser) (state : Progress) (args : List Node) (deepest : Nat) (next : Progress) :
    Prop where
  derives : ∃ tokens, state.tokens = tokens ++ next.tokens ∧
    (tokens = [] ∧ args = [] ∨ Arguments parser.options tokens args)
  becomes : next = { state with
    tokens := next.tokens
    nodeCount := state.nodeCount + Node.sizes args
    depth := next.depth
    warnings := state.warnings ++ Node.allWarnings parser args }
  deepest : deepest = Node.depths args
  nest : state.nest + Node.nestings args < parser.options.limits.depth

theorem Took.lastArgument {after : Progress} {arg : Node} (closed : origin.inBar = false)
    (taken : Took parser .sum origin arg after) : TookArguments parser origin [arg] after.depth after := by
  obtain ⟨⟨tokens, split, derived, _⟩, became, fits⟩ := taken
  rw [closed] at derived
  refine ⟨⟨tokens, split, .inr (.last derived)⟩, ?_, ?_, ?_⟩
  · rw [became]
    simp [Progress.after, Node.sizes, Node.allWarnings]
  · rw [became]
    simp [Node.depths]
  · simpa [Node.nestings] using fits.nest

theorem Took.moreArguments {after : Progress} {arg : Node} {rest : List Node}
    (closed : origin.inBar = false) (taken : Took parser .sum origin arg middle)
    (kind : (parser.current middle).kind = .sep) (filled : rest ≠ [])
    (others : TookArguments parser (Parser.advance middle) rest deepest after) :
    TookArguments parser origin (arg :: rest) (max middle.depth deepest) after := by
  obtain ⟨⟨tokens, split, derived, _⟩, became, fits⟩ := taken
  obtain ⟨⟨tokens', split', derived'⟩, became', rfl, nest⟩ := others
  have listed := current_token rfl (by simp [kind] : (parser.current middle).kind ≠ .end_)
  have derived' : Arguments parser.options tokens' rest := derived'.resolve_left fun empty => filled empty.2
  rw [closed] at derived
  refine ⟨⟨tokens ++ parser.current middle :: tokens', ?_, .inr (.more derived kind derived')⟩, ?_, ?_, ?_⟩
  · rw [split, listed, List.append_assoc, List.cons_append]
    simpa [Parser.advance] using split'
  · rw [became', became]
    simp [Progress.after, Parser.advance, Node.sizes, Node.allWarnings, Nat.add_assoc]
  · rw [became]
    simp [Node.depths]
  · have := fits.nest
    rw [became] at nest
    simp only [Parser.advance, after_nest] at nest
    simp only [Node.nestings]
    omega

theorem Took.call {after ended : Progress} {name : Token} {spec : FunctionSpec}
    {args : List Node} {expected : List Text} (here : parser.current origin = name)
    (kind : name.kind = .name) (found : parser.options.language.functionSpec name.text = some spec)
    (follows : parser.current (Parser.advance origin) = opening) (opens : opening.kind = .open_)
    (entered : parser.enter (Parser.advance (Parser.advance origin)) = .ok inside)
    (within : TookArguments parser (Parser.push .paren inside) args deepest after)
    (closed : parser.expectClose opening expected after = .ok (close, ended))
    (few : spec.min ≤ args.length) (many : args.length ≤ spec.max)
    (ran : parser.finish (.call name.text args .call ⟨name.start, close.stop⟩) (deepest + 1)
      (Parser.leave (Parser.pop ended)) = .ok (node, next)) : Took parser .primary origin node next := by
  obtain ⟨⟨tokens, split, derived⟩, became, rfl, nest⟩ := within
  obtain ⟨rfl, rfl, nodes, depth⟩ := finish_ok ran
  obtain ⟨rfl, _⟩ := enter_ok entered
  obtain ⟨same, kind', rfl⟩ := expectClose_ok closed
  have listed := current_token here (by simp [kind])
  have second := current_token follows (by simp [opens])
  have listed' := current_token same.symm (by simp [kind'])
  simp only [Parser.push, Parser.advance] at split second
  refine ⟨⟨name :: opening :: (tokens ++ [close]), ?_, ?_, ?_⟩, ?_, ?_⟩
  · rw [listed, second, split, listed']
    simp [Parser.leave, Parser.pop, Parser.advance]
  · cases derived with
    | inl empty =>
      obtain ⟨rfl, rfl⟩ := empty
      exact .empty kind found opens kind' (by simpa using few)
    | inr some => exact .call kind found opens some kind' few many
  · rw [← List.cons_append]
    exact meets_closed (by simp [kind'])
  · rw [became]
    simp [Progress.after, Parser.advance, Parser.leave, Parser.pop, Parser.push, Node.size, Node.depth, Node.warnings,
      Nat.add_assoc]
  · rw [became] at nodes
    simp only [Parser.leave, Parser.advance, Parser.pop, Parser.push] at nodes nest
    constructor
    · simp only [Node.size]
      omega
    · simpa [Node.depth] using depth
    · simp only [Node.nesting]
      omega

structure Sound (parser : Parser) (fuel : Nat) : Prop where
  sum : ∀ {state node next}, state.nest < parser.options.limits.depth →
    parser.parseSum fuel state = .ok (node, next) → Took parser .sum state node next
  sumLoop : ∀ {origin left state node next}, Took parser .sum origin left state →
    parser.sumLoop fuel left state = .ok (node, next) → Took parser .sum origin node next
  product : ∀ {state node next}, state.nest < parser.options.limits.depth →
    parser.parseProduct fuel state = .ok (node, next) → Took parser .product state node next
  productLoop : ∀ {origin left state node next}, Took parser .product origin left state →
    parser.productLoop fuel left state = .ok (node, next) → Took parser .product origin node next
  unary : ∀ {state node next}, state.nest < parser.options.limits.depth →
    parser.parseUnary fuel state = .ok (node, next) → Took parser .unary state node next
  power : ∀ {state node next}, state.nest < parser.options.limits.depth →
    parser.parsePower fuel state = .ok (node, next) → Took parser .power state node next
  postfix_ : ∀ {state node next}, state.nest < parser.options.limits.depth →
    parser.parsePostfix fuel state = .ok (node, next) → Took parser .postfixed state node next
  postfixLoop : ∀ {origin left state node next}, Took parser .postfixed origin left state →
    parser.postfixLoop fuel left state = .ok (node, next) → Took parser .postfixed origin node next
  primary : ∀ {state node next}, state.nest < parser.options.limits.depth →
    parser.parsePrimary fuel state = .ok (node, next) → Took parser .primary state node next
  name : ∀ {state node next}, state.nest < parser.options.limits.depth → (parser.current state).kind = .name →
    parser.parseName fuel state = .ok (node, next) → Took parser .primary state node next
  call : ∀ {state node next token spec}, parser.current state = token → token.kind = .name →
    parser.options.language.functionSpec token.text = some spec →
    (parser.current (Parser.advance state)).kind = .open_ →
    parser.parseCall fuel token spec (Parser.advance state) = .ok (node, next) → Took parser .primary state node next
  arguments : ∀ {state args deepest next}, state.nest < parser.options.limits.depth → state.inBar = false →
    parser.parseArgs fuel state = .ok (args, deepest, next) → TookArguments parser state args deepest next
  argumentLoop : ∀ {state args deepest next}, state.nest < parser.options.limits.depth → state.inBar = false →
    parser.argsLoop fuel state = .ok (args, deepest, next) → args ≠ [] ∧ TookArguments parser state args deepest next
  group : ∀ {state node next}, (parser.current state).kind = .open_ →
    parser.parseGroup fuel state = .ok (node, next) → Took parser .primary state node next
  bars : ∀ {state node next}, (parser.current state).kind = .bar →
    parser.parseBars fuel state = .ok (node, next) → Took parser .primary state node next

theorem Sound.zero : Sound parser 0 := by
  constructor <;> intros <;> rename_i ran <;> cases ran

theorem Took.lift {level higher : Level} {after : Progress} (taken : Took parser level origin node after)
    (up : ∀ {inBar tokens node}, Derives parser.options inBar level tokens node →
      Derives parser.options inBar higher tokens node) : Took parser higher origin node after := by
  obtain ⟨⟨tokens, split, derived, meets⟩, became, fits⟩ := taken
  exact ⟨⟨tokens, split, up derived, meets⟩, became, fits⟩

theorem Took.room {level : Level} {after : Progress} (taken : Took parser level origin node after) :
    after.nest < parser.options.limits.depth := by
  have := taken.fits.nest
  rw [taken.becomes, after_nest]
  omega

namespace Sound

theorem stepSum (sound : Sound parser fuel) (room : state.nest < parser.options.limits.depth)
    (ran : parser.parseSum (fuel + 1) state = .ok (node, next)) : Took parser .sum state node next := by
  rw [Parser.parseSum] at ran
  obtain ⟨⟨left, middle⟩, first, rest⟩ := bind_ok.mp ran
  exact sound.sumLoop ((sound.product room first).lift .product) rest

theorem stepSumLoop (sound : Sound parser fuel) (taken : Took parser .sum origin left state)
    (ran : parser.sumLoop (fuel + 1) left state = .ok (node, next)) : Took parser .sum origin node next := by
  rw [Parser.sumLoop] at ran
  split at ran
  next => cases ran; exact taken
  next op found =>
    obtain ⟨⟨right, middle⟩, first, rest⟩ := bind_ok.mp ran
    obtain ⟨⟨both, after⟩, built, rest⟩ := bind_ok.mp rest
    have behind := sound.product (by exact taken.room) first
    refine sound.sumLoop (taken.binary ?_ rfl behind ?_ built fun _ _ before after => .sum before found after) rest
    · intro same
      simp [same, Parser.sumOperator] at found
    · rintro rfl
      cases kind : (parser.current state).kind <;> simp [kind, Parser.sumOperator] at found

theorem stepProduct (sound : Sound parser fuel) (room : state.nest < parser.options.limits.depth)
    (ran : parser.parseProduct (fuel + 1) state = .ok (node, next)) : Took parser .product state node next := by
  rw [Parser.parseProduct] at ran
  obtain ⟨⟨left, middle⟩, first, rest⟩ := bind_ok.mp ran
  exact sound.productLoop ((sound.unary room first).lift .unary) rest

theorem stepProductLoop (sound : Sound parser fuel) (taken : Took parser .product origin left state)
    (ran : parser.productLoop (fuel + 1) left state = .ok (node, next)) : Took parser .product origin node next := by
  rw [Parser.productLoop] at ran
  split at ran
  next op found =>
    obtain ⟨⟨right, middle⟩, first, rest⟩ := bind_ok.mp ran
    obtain ⟨⟨both, after⟩, built, rest⟩ := bind_ok.mp rest
    have behind := sound.unary (by exact taken.room) first
    refine sound.productLoop (taken.binary ?_ rfl behind ?_ built fun _ _ before after => .times before found after) rest
    · intro same
      simp [same, Parser.productOperator] at found
    · rintro rfl
      cases kind : (parser.current state).kind <;> simp [kind, Parser.productOperator] at found
  next =>
    split at ran
    next starts =>
      obtain ⟨⟨right, middle⟩, first, rest⟩ := bind_ok.mp ran
      obtain ⟨⟨both, after⟩, built, rest⟩ := bind_ok.mp rest
      exact sound.productLoop (taken.juxtaposed starts (sound.power taken.room first) built) rest
    next =>
      split at ran
      · cases ran
      · cases ran
        exact taken

theorem stepUnary (sound : Sound parser fuel) (room : state.nest < parser.options.limits.depth)
    (ran : parser.parseUnary (fuel + 1) state = .ok (node, next)) : Took parser .unary state node next := by
  rw [Parser.parseUnary] at ran
  split at ran
  next => exact (sound.power room ran).lift .power
  next op found =>
    obtain ⟨inside, entered, rest⟩ := bind_ok.mp ran
    obtain ⟨⟨arg, after⟩, first, rest⟩ := bind_ok.mp rest
    have deeper := enter_room entered
    exact .signed rfl found entered (sound.unary deeper first) rest

theorem stepPower (sound : Sound parser fuel) (room : state.nest < parser.options.limits.depth)
    (ran : parser.parsePower (fuel + 1) state = .ok (node, next)) : Took parser .power state node next := by
  rw [Parser.parsePower] at ran
  obtain ⟨⟨base, middle⟩, first, rest⟩ := bind_ok.mp ran
  have ahead := sound.postfix_ room first
  simp only at rest
  split at rest
  next kind =>
    obtain ⟨inside, entered, rest⟩ := bind_ok.mp rest
    obtain ⟨⟨exponent, after⟩, second, rest⟩ := bind_ok.mp rest
    have deeper := enter_room entered
    exact ahead.raised rfl kind entered (sound.unary deeper second) rest
  next =>
    cases rest
    exact ahead.lift .postfixed

theorem stepPostfix (sound : Sound parser fuel) (room : state.nest < parser.options.limits.depth)
    (ran : parser.parsePostfix (fuel + 1) state = .ok (node, next)) : Took parser .postfixed state node next := by
  rw [Parser.parsePostfix] at ran
  obtain ⟨⟨inner, middle⟩, first, rest⟩ := bind_ok.mp ran
  exact sound.postfixLoop ((sound.primary room first).lift .primary) rest

theorem stepPostfixLoop (sound : Sound parser fuel) (taken : Took parser .postfixed origin left state)
    (ran : parser.postfixLoop (fuel + 1) left state = .ok (node, next)) : Took parser .postfixed origin node next := by
  rw [Parser.postfixLoop] at ran
  split at ran
  next kind =>
    obtain ⟨⟨marked, after⟩, built, rest⟩ := bind_ok.mp ran
    exact sound.postfixLoop (taken.factorial rfl kind built) rest
  next =>
    cases ran
    exact taken

theorem stepPrimary (sound : Sound parser fuel) (room : state.nest < parser.options.limits.depth)
    (ran : parser.parsePrimary (fuel + 1) state = .ok (node, next)) : Took parser .primary state node next := by
  rw [Parser.parsePrimary] at ran
  split at ran
  next kind =>
    refine .leaf rfl (by simp [kind]) (fun _ => .number kind) ?_ rfl rfl rfl rfl room ran
    intro last final _ _ isName
    cases final
    cases kind.symm.trans isName
  next kind => exact sound.name room kind ran
  next kind => exact sound.group kind ran
  next kind => exact sound.bars kind ran
  next kind =>
    obtain ⟨⟨⟩, one, rest⟩ := bind_ok.mp ran
    obtain ⟨inside, entered, rest⟩ := bind_ok.mp rest
    obtain ⟨⟨arg, after⟩, first, rest⟩ := bind_ok.mp rest
    have deeper := enter_room entered
    exact .radical (requireFunction_ok one) rfl kind entered (sound.primary deeper first) rest
  · cases ran
  · cases ran

theorem stepName (sound : Sound parser fuel) (room : state.nest < parser.options.limits.depth)
    (kind : (parser.current state).kind = .name)
    (ran : parser.parseName (fuel + 1) state = .ok (node, next)) : Took parser .primary state node next := by
  rw [Parser.parseName] at ran
  split at ran
  next spec found =>
    split at ran
    next opens => exact sound.call rfl kind found opens ran
    next =>
      split at ran
      · cases ran
      · cases ran
  next plain =>
    split at ran
    · cases ran
    next value =>
      refine .leaf rfl (by simp [kind]) (fun _ => .name kind plain) ?_ rfl rfl rfl rfl room ran
      intro last final first head _ opens
      cases final
      have here : parser.current (Parser.advance state) = first := by
        rw [Parser.current, Parser.advance, head, Option.getD_some]
      rw [here] at value
      simpa [opens] using value

theorem stepCall {spec : FunctionSpec} (sound : Sound parser fuel) (here : parser.current state = token)
    (kind : token.kind = .name) (found : parser.options.language.functionSpec token.text = some spec)
    (opens : (parser.current (Parser.advance state)).kind = .open_)
    (ran : parser.parseCall (fuel + 1) token spec (Parser.advance state) = .ok (node, next)) :
    Took parser .primary state node next := by
  rw [Parser.parseCall] at ran
  obtain ⟨inside, entered, rest⟩ := bind_ok.mp ran
  obtain ⟨⟨args, deepest, after⟩, first, rest⟩ := bind_ok.mp rest
  obtain ⟨⟨close, ended⟩, closed, rest⟩ := bind_ok.mp rest
  have deeper := enter_room entered
  simp only at rest
  split at rest
  · cases rest
  next arity =>
    refine .call here kind found rfl opens entered (sound.arguments ?_ rfl first) closed ?_ ?_ rest
    · exact deeper
    · omega
    · omega

theorem stepArguments {args : List Node} (sound : Sound parser fuel)
    (room : state.nest < parser.options.limits.depth) (closed : state.inBar = false)
    (ran : parser.parseArgs (fuel + 1) state = .ok (args, deepest, next)) :
    TookArguments parser state args deepest next := by
  rw [Parser.parseArgs] at ran
  split at ran
  · cases ran
    exact ⟨⟨[], rfl, .inl ⟨rfl, rfl⟩⟩, by simp [Node.sizes, Node.allWarnings], rfl, room⟩
  · exact (sound.argumentLoop room closed ran).2

theorem stepArgumentLoop {args : List Node} (sound : Sound parser fuel)
    (room : state.nest < parser.options.limits.depth) (closed : state.inBar = false)
    (ran : parser.argsLoop (fuel + 1) state = .ok (args, deepest, next)) :
    args ≠ [] ∧ TookArguments parser state args deepest next := by
  rw [Parser.argsLoop] at ran
  obtain ⟨⟨arg, middle⟩, first, rest⟩ := bind_ok.mp ran
  have taken := sound.sum room first
  simp only at rest
  split at rest
  next kind =>
    obtain ⟨⟨others, deepest', after⟩, second, rest⟩ := bind_ok.mp rest
    have closed' : middle.inBar = false := by rw [taken.becomes, after_inBar, closed]
    obtain ⟨filled, behind⟩ := sound.argumentLoop (by exact taken.room) (by exact closed') second
    cases rest
    exact ⟨List.cons_ne_nil _ _, taken.moreArguments closed kind filled behind⟩
  next =>
    cases rest
    exact ⟨List.cons_ne_nil _ _, taken.lastArgument closed⟩

theorem stepGroup (sound : Sound parser fuel) (kind : (parser.current state).kind = .open_)
    (ran : parser.parseGroup (fuel + 1) state = .ok (node, next)) : Took parser .primary state node next := by
  rw [Parser.parseGroup] at ran
  obtain ⟨inside, entered, rest⟩ := bind_ok.mp ran
  obtain ⟨⟨inner, after⟩, first, rest⟩ := bind_ok.mp rest
  obtain ⟨⟨close, ended⟩, closed, rest⟩ := bind_ok.mp rest
  have deeper := enter_room entered
  exact .group rfl kind entered (sound.sum (by exact deeper) first) closed rest

theorem stepBars (sound : Sound parser fuel) (kind : (parser.current state).kind = .bar)
    (ran : parser.parseBars (fuel + 1) state = .ok (node, next)) : Took parser .primary state node next := by
  rw [Parser.parseBars] at ran
  obtain ⟨⟨⟩, one, rest⟩ := bind_ok.mp ran
  simp only at rest
  split at rest
  · cases rest
  next =>
    obtain ⟨inside, entered, rest⟩ := bind_ok.mp rest
    obtain ⟨⟨inner, after⟩, first, rest⟩ := bind_ok.mp rest
    have deeper := enter_room entered
    simp only at rest
    split at rest
    next closed => exact .bars (requireFunction_ok one) rfl kind entered (sound.sum (by exact deeper) first) closed rest
    next => cases rest

/-- Every routine is sound with any fuel: the induction is on the fuel, as every call of the recursion
spends one. -/
theorem all (parser : Parser) : ∀ fuel, Sound parser fuel
  | 0 => .zero
  | fuel + 1 =>
    have sound := all parser fuel
    { sum := sound.stepSum
      sumLoop := sound.stepSumLoop
      product := sound.stepProduct
      productLoop := sound.stepProductLoop
      unary := sound.stepUnary
      power := sound.stepPower
      postfix_ := sound.stepPostfix
      postfixLoop := sound.stepPostfixLoop
      primary := sound.stepPrimary
      name := sound.stepName
      call := sound.stepCall
      arguments := sound.stepArguments
      argumentLoop := sound.stepArgumentLoop
      group := sound.stepGroup
      bars := sound.stepBars }

end Sound

end Arki.Expr
