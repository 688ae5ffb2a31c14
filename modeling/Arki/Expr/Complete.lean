import Arki.Expr.Accept

/-! The parser finds every tree of the grammar that is within the budgets.

A routine may be followed by any token that it does not take itself. The routines with a loop are
stated by where they enter it, so that a longer product or sum goes on from there.
-/

set_option autoImplicit false

namespace Arki.Expr

variable {parser : Parser} {state : Progress} {node left right : Node} {fuel : Nat} {inBar : Bool}
  {tokens before after rest : List Token}

def follow (rest : List Token) : TokenKind := (rest.head?.map Token.kind).getD .end_

@[simp]
theorem follow_cons {token : Token} : follow (token :: rest) = token.kind := rfl

theorem current_kind (listed : state.tokens = rest) : (parser.current state).kind = follow rest := by
  rw [Parser.current, listed]
  cases rest <;> rfl

def closesPower (kind : TokenKind) : Prop := kind ≠ .bang ∧ kind ≠ .caret

def closesProduct (inBar : Bool) (kind : TokenKind) : Prop :=
  closesPower kind ∧ Parser.productOperator kind = none ∧
    Parser.startsImplicitOperand kind (contextsOf inBar) = false ∧ kind ≠ .number

def closesSum (inBar : Bool) (kind : TokenKind) : Prop := closesProduct inBar kind ∧ Parser.sumOperator kind = none

theorem closesSum_argument {kind : TokenKind} (ends : kind = .close ∨ kind = .sep) : closesSum false kind := by
  obtain rfl | rfl := ends <;>
    simp [closesSum, closesProduct, closesPower, Parser.productOperator, Parser.sumOperator, Parser.startsImplicitOperand]

theorem startsImplicitOperand_opens {kind : TokenKind} {contexts : List Context}
    (starts : Parser.startsImplicitOperand kind contexts = true) : closesPower kind ∧ Parser.productOperator kind = none := by
  cases kind <;> simp_all [Parser.startsImplicitOperand, closesPower, Parser.productOperator]

/-- The tokens are next, the node is within the budgets left, and what follows does not make a product
with a name that is no value. -/
structure Ahead (parser : Parser) (state : Progress) (inBar : Bool) (tokens rest : List Token) (node : Node) : Prop where
  listed : state.tokens = tokens ++ rest
  bar : state.inBar = inBar
  fits : Fits parser state node
  meets : Meets parser.options tokens rest

def Reads (parser : Parser) (inBar : Bool) (tokens : List Token) (node : Node) : Level → Prop
  | .sum => ∀ {state rest fuel}, Ahead parser state inBar tokens rest node → closesProduct inBar (follow rest) →
      10 * tokens.length + 7 ≤ fuel → ∃ spare, fuel ≤ spare + 10 * tokens.length ∧
        parser.parseSum fuel state = parser.sumLoop spare node (state.after parser rest node)
  | .product => ∀ {state rest fuel}, Ahead parser state inBar tokens rest node → closesPower (follow rest) →
      10 * tokens.length + 6 ≤ fuel → ∃ spare, fuel ≤ spare + 10 * tokens.length ∧
        parser.parseProduct fuel state = parser.productLoop spare node (state.after parser rest node)
  | .unary => ∀ {state rest fuel}, Ahead parser state inBar tokens rest node → closesPower (follow rest) →
      10 * tokens.length + 5 ≤ fuel → parser.parseUnary fuel state = .ok (node, state.after parser rest node)
  | .power => ∀ {state rest fuel}, Ahead parser state inBar tokens rest node → closesPower (follow rest) →
      10 * tokens.length + 4 ≤ fuel → parser.parsePower fuel state = .ok (node, state.after parser rest node)
  | .postfixed => ∀ {state rest fuel}, Ahead parser state inBar tokens rest node →
      10 * tokens.length + 3 ≤ fuel → ∃ spare, fuel ≤ spare + 10 * tokens.length ∧
        parser.parsePostfix fuel state = parser.postfixLoop spare node (state.after parser rest node)
  | .primary => ∀ {state rest fuel}, Ahead parser state inBar tokens rest node →
      10 * tokens.length + 2 ≤ fuel → parser.parsePrimary fuel state = .ok (node, state.after parser rest node)

theorem bind_of {First Second : Type} {first : Except Stop First} {following : First → Except Stop Second} {value : First}
    (ran : first = .ok value) : (first >>= following) = following value := by
  rw [ran]
  rfl

theorem Fits.enters {later : Progress} (state : Progress) (fits : Fits parser later node)
    (deeper : later.nest = state.nest + 1) : parser.enter state = .ok { state with nest := state.nest + 1 } := by
  have := fits.nest
  rw [Parser.enter, if_neg (by omega)]

theorem requireFunction_one {fn : Text} {token : Token} (one : TakesOne parser.options fn) :
    parser.requireFunction fn token 1 = .ok () := by
  obtain ⟨spec, found, few, many⟩ := one
  rw [Parser.requireFunction, found]
  exact if_neg (by omega)

theorem Meets.ofKind {options : ParseOptions} {sign : Token} (plain : sign.kind ≠ .open_) :
    Meets options tokens (sign :: rest) := by
  intro last _ first head _ opens
  cases head
  exact absurd opens plain

theorem Meets.suffix {options : ParseOptions} (filled : after ≠ []) (suffix : after <:+ tokens)
    (meets : Meets options tokens rest) : Meets options after rest := by
  obtain ⟨before, rfl⟩ := suffix
  intro last final
  exact meets last (by rwa [List.getLast?_append_of_ne_nil _ filled])

/-- A part of a node that fits, when the routine has built some of the node and entered some of it. -/
theorem Fits.part {later : Progress} (spent deeper : Nat) (fits : Fits parser state node)
    (nodeCount : later.nodeCount = state.nodeCount + spent) (nest : later.nest = state.nest + deeper)
    (size : spent + left.size ≤ node.size) (depth : left.depth ≤ node.depth)
    (nesting : deeper + left.nesting ≤ node.nesting) : Fits parser later left := by
  obtain ⟨nodes, deep, nested⟩ := fits
  constructor <;> omega

theorem Fits.built {later : Progress} {depth : Nat} (fits : Fits parser state node) (deep : depth = node.depth)
    (becomes : { later with nodeCount := later.nodeCount + 1, depth := depth } = state.after parser rest node) :
    parser.finish node depth later = .ok (node, state.after parser rest node) := by
  have := fits.nodes
  have := fits.depth
  have counted : later.nodeCount + 1 = state.nodeCount + node.size := congrArg Progress.nodeCount becomes
  rw [Parser.finish, if_neg (by omega), if_neg (by omega), becomes]

/-- The sides of a node with a sign between them are ahead one after the other. -/
theorem Ahead.sides {sign : Token} {op : BinaryOperator} {span : Span} (deeper : Nat) (filled : after ≠ []) (plain : sign.kind ≠ .open_)
    (whole : Ahead parser state inBar (before ++ sign :: after) rest (.binary op left right false span))
    (nesting : max left.nesting (deeper + right.nesting) ≤ (Node.binary op left right false span).nesting) :
    Ahead parser state inBar before (sign :: (after ++ rest)) left ∧
      Ahead parser { Parser.advance (state.after parser (sign :: (after ++ rest)) left) with nest := state.nest + deeper }
        inBar after rest right := by
  constructor
  · exact ⟨by simpa using whole.listed, whole.bar,
      whole.fits.part 0 0 rfl rfl (by simp [Node.size]; omega) (by simp [Node.depth]; omega) (by omega), .ofKind plain⟩
  · exact ⟨rfl, whole.bar,
      whole.fits.part left.size deeper rfl rfl (by simp [Node.size]) (by simp [Node.depth]; omega) (by omega),
      whole.meets.suffix filled ⟨before ++ [sign], by simp⟩⟩

/-- The only node below one is ahead once the routine has entered that one and read the token it begins with. -/
theorem Ahead.below {context : List Context} {first last : Token} {bar : Bool} (whole : Ahead parser state inBar (first :: (tokens ++ [last])) rest node)
    (isBar : (context.head? == some .bar) = bar) (plain : last.kind ≠ .open_) (size : left.size + 1 = node.size) (depth : left.depth + 1 = node.depth)
    (nesting : 1 + left.nesting = node.nesting) :
    Ahead parser { Parser.advance state with nest := state.nest + 1, contexts := context } bar tokens (last :: rest) left :=
  ⟨by simp [Parser.advance, whole.listed], isBar, whole.fits.part 0 1 rfl rfl (by omega) (by omega) (by omega), .ofKind plain⟩

namespace Reads

theorem wholeSum (reads : Reads parser inBar tokens node .sum) (ahead : Ahead parser state inBar tokens rest node)
    (closes : closesSum inBar (follow rest)) (fed : 10 * tokens.length + 7 ≤ fuel) :
    parser.parseSum fuel state = .ok (node, state.after parser rest node) := by
  obtain ⟨spare, left, ran⟩ := reads ahead closes.1 fed
  obtain ⟨spare, rfl⟩ : ∃ more, spare = more + 1 := ⟨spare - 1, by omega⟩
  rw [ran, Parser.sumLoop, current_kind after_tokens, closes.2]

theorem wholeProduct (reads : Reads parser inBar tokens node .product) (ahead : Ahead parser state inBar tokens rest node)
    (closes : closesProduct inBar (follow rest)) (fed : 10 * tokens.length + 6 ≤ fuel) :
    parser.parseProduct fuel state = .ok (node, state.after parser rest node) := by
  obtain ⟨spare, left, ran⟩ := reads ahead closes.1 fed
  obtain ⟨spare, rfl⟩ : ∃ more, spare = more + 1 := ⟨spare - 1, by omega⟩
  obtain ⟨_, operator, starts, number⟩ := closes
  rw [← ahead.bar, startsImplicitOperand_contexts] at starts
  rw [ran, Parser.productLoop, current_kind after_tokens, operator]
  simp [starts, number]

theorem wholePostfix (reads : Reads parser inBar tokens node .postfixed) (ahead : Ahead parser state inBar tokens rest node)
    (closes : follow rest ≠ .bang) (fed : 10 * tokens.length + 3 ≤ fuel) :
    parser.parsePostfix fuel state = .ok (node, state.after parser rest node) := by
  obtain ⟨spare, left, ran⟩ := reads ahead fed
  obtain ⟨spare, rfl⟩ : ∃ more, spare = more + 1 := ⟨spare - 1, by omega⟩
  rw [ran, Parser.postfixLoop, current_kind after_tokens, if_neg closes]

theorem toSum (filled : tokens ≠ []) (reads : Reads parser inBar tokens node .product) :
    Reads parser inBar tokens node .sum := by
  intro state rest fuel ahead closes fed
  have := List.length_pos_of_ne_nil filled
  obtain ⟨fuel, rfl⟩ : ∃ less, fuel = less + 1 := ⟨fuel - 1, by omega⟩
  refine ⟨fuel, by omega, ?_⟩
  rw [Parser.parseSum, reads.wholeProduct ahead closes (by omega)]
  rfl

theorem sum {sign : Token} {op : BinaryOperator} (filled : after ≠ []) (ahead : Reads parser inBar before left .sum)
    (found : Parser.sumOperator sign.kind = some op) (behind : Reads parser inBar after right .product) :
    Reads parser inBar (before ++ sign :: after) (.binary op left right false ⟨left.span.start, right.span.stop⟩) .sum := by
  intro state rest fuel whole closes fed
  have nesting : (Node.binary op left right false ⟨left.span.start, right.span.stop⟩).nesting =
      max left.nesting right.nesting := by
    cases kind : sign.kind <;> simp only [kind, Parser.sumOperator, Option.some.injEq, reduceCtorEq] at found <;>
      subst found <;> rfl
  have opens : closesProduct inBar (follow (sign :: (after ++ rest))) := by
    rw [follow_cons]
    cases kind : sign.kind <;> simp only [kind, Parser.sumOperator, reduceCtorEq] at found <;>
      simp [closesProduct, closesPower, Parser.productOperator, Parser.startsImplicitOperand]
  rw [List.length_append, List.length_cons] at fed ⊢
  obtain ⟨first, second⟩ := whole.sides 0 filled (by intro same; simp [same, Parser.sumOperator] at found) (by omega)
  have enough : 10 * before.length + 7 ≤ fuel := by omega
  obtain ⟨spare, spent, ran⟩ := ahead first opens enough
  obtain ⟨spare, rfl⟩ : ∃ less, spare = less + 1 := ⟨spare - 1, by omega⟩
  refine ⟨spare, by omega, ?_⟩
  rw [ran, Parser.sumLoop, current_kind after_tokens, follow_cons, found]
  simp only
  refine (bind_of (behind.wholeProduct second closes (by omega))).trans ?_
  refine (bind_of (whole.fits.built rfl ?_)).trans rfl
  simp [Progress.after, Parser.advance, Node.size, Node.warnings, Nat.add_assoc]

theorem toProduct (filled : tokens ≠ []) (reads : Reads parser inBar tokens node .unary) :
    Reads parser inBar tokens node .product := by
  intro state rest fuel ahead closes fed
  have := List.length_pos_of_ne_nil filled
  obtain ⟨fuel, rfl⟩ : ∃ less, fuel = less + 1 := ⟨fuel - 1, by omega⟩
  refine ⟨fuel, by omega, ?_⟩
  rw [Parser.parseProduct, reads ahead closes (by omega)]
  rfl

theorem times {sign : Token} {op : BinaryOperator} (filled : after ≠ []) (ahead : Reads parser inBar before left .product)
    (found : Parser.productOperator sign.kind = some op) (behind : Reads parser inBar after right .unary) :
    Reads parser inBar (before ++ sign :: after) (.binary op left right false ⟨left.span.start, right.span.stop⟩)
      .product := by
  intro state rest fuel whole closes fed
  have nesting : (Node.binary op left right false ⟨left.span.start, right.span.stop⟩).nesting =
      max left.nesting right.nesting := by
    cases kind : sign.kind <;> simp only [kind, Parser.productOperator, Option.some.injEq, reduceCtorEq] at found <;>
      subst found <;> rfl
  have opens : closesPower (follow (sign :: (after ++ rest))) := by
    rw [follow_cons]
    cases kind : sign.kind <;> simp only [kind, Parser.productOperator, reduceCtorEq] at found <;> simp [closesPower]
  rw [List.length_append, List.length_cons] at fed ⊢
  obtain ⟨first, second⟩ := whole.sides 0 filled (by intro same; simp [same, Parser.productOperator] at found) (by omega)
  have enough : 10 * before.length + 6 ≤ fuel := by omega
  obtain ⟨spare, spent, ran⟩ := ahead first opens enough
  obtain ⟨spare, rfl⟩ : ∃ less, spare = less + 1 := ⟨spare - 1, by omega⟩
  refine ⟨spare, by omega, ?_⟩
  rw [ran, Parser.productLoop, current_kind after_tokens, follow_cons, found]
  refine (bind_of (behind second closes (by omega))).trans ?_
  refine (bind_of (whole.fits.built rfl ?_)).trans rfl
  simp [Progress.after, Parser.advance, Node.size, Node.warnings, Nat.add_assoc]

theorem juxtaposed {first : Token} (ahead : Reads parser inBar before left .product)
    (behind : Reads parser inBar after right .power) (head : after.head? = some first)
    (starts : Parser.startsImplicitOperand first.kind (contextsOf inBar) = true)
    (value : Meets parser.options before after) :
    Reads parser inBar (before ++ after) (.binary .multiply left right true ⟨left.span.start, right.span.stop⟩)
      .product := by
  intro state rest fuel whole closes fed
  obtain ⟨others, rfl⟩ : ∃ others, after = first :: others := by
    cases after with
    | nil => cases head
    | cons token others =>
      cases head
      exact ⟨others, rfl⟩
  have opens := startsImplicitOperand_opens starts
  rw [List.length_append, List.length_cons] at fed ⊢
  have one : Ahead parser state inBar before (first :: (others ++ rest)) left :=
    ⟨by simpa using whole.listed, whole.bar,
      whole.fits.part 0 0 rfl rfl (by simp [Node.size]; omega) (by simp [Node.depth]; omega)
        (by simp only [Node.nesting]; omega),
      fun last final next next' => value last final next next'⟩
  have two : Ahead parser (state.after parser (first :: (others ++ rest)) left) inBar (first :: others) rest right :=
    ⟨rfl, whole.bar,
      whole.fits.part left.size 0 rfl rfl (by simp [Node.size]) (by simp [Node.depth]; omega)
        (by simp only [Node.nesting]; omega),
      whole.meets.suffix (List.cons_ne_nil _ _) (List.suffix_append _ _)⟩
  have enough : 10 * before.length + 6 ≤ fuel := by omega
  obtain ⟨spare, spent, ran⟩ := ahead one opens.1 enough
  obtain ⟨spare, rfl⟩ : ∃ less, spare = less + 1 := ⟨spare - 1, by omega⟩
  refine ⟨spare, by omega, ?_⟩
  rw [← whole.bar, startsImplicitOperand_contexts] at starts
  rw [ran, Parser.productLoop, current_kind after_tokens, follow_cons, opens.2]
  simp only [after_contexts, starts, if_true]
  refine (bind_of (behind two closes (by rw [List.length_cons]; omega))).trans ?_
  refine (bind_of (whole.fits.built rfl ?_)).trans rfl
  simp [Progress.after, Node.size, Node.warnings, Nat.add_assoc]

theorem toUnary {first : Token} (head : tokens.head? = some first) (plain : Parser.signOf first.kind = none)
    (reads : Reads parser inBar tokens node .power) : Reads parser inBar tokens node .unary := by
  intro state rest fuel ahead closes fed
  obtain ⟨fuel, rfl⟩ : ∃ less, fuel = less + 1 := ⟨fuel - 1, by omega⟩
  have kind : (parser.current state).kind = first.kind := by
    rw [current_kind ahead.listed, follow, List.head?_append, head]
    rfl
  rw [Parser.parseUnary, kind, plain]
  exact reads ahead closes (by omega)

theorem signed {sign : Token} {op : Sign} (filled : tokens ≠ []) (found : Parser.signOf sign.kind = some op)
    (behind : Reads parser inBar tokens right .unary) :
    Reads parser inBar (sign :: tokens) (.unary op right ⟨sign.start, right.span.stop⟩) .unary := by
  intro state rest fuel whole closes fed
  obtain ⟨fuel, rfl⟩ : ∃ less, fuel = less + 1 := ⟨fuel - 1, by omega⟩
  have here : parser.current state = sign := by rw [Parser.current, whole.listed]; rfl
  have next : Ahead parser { Parser.advance state with nest := state.nest + 1 } inBar tokens rest right :=
    ⟨by rw [Parser.advance, whole.listed]; rfl, whole.bar,
      whole.fits.part 0 1 rfl rfl (by simp [Node.size]) (by simp [Node.depth]) (by simp [Node.nesting]; omega),
      whole.meets.suffix filled ⟨[sign], rfl⟩⟩
  rw [List.length_cons] at fed
  rw [Parser.parseUnary, here, found]
  refine (bind_of (next.fits.enters (Parser.advance state) rfl)).trans ?_
  refine (bind_of (behind next closes (by omega))).trans ?_
  refine whole.fits.built rfl ?_
  simp [Progress.after, Parser.advance, Parser.leave, Node.size, Node.depth, Node.warnings, Nat.add_assoc]

theorem toPower (reads : Reads parser inBar tokens node .postfixed) : Reads parser inBar tokens node .power := by
  intro state rest fuel ahead closes fed
  obtain ⟨fuel, rfl⟩ : ∃ less, fuel = less + 1 := ⟨fuel - 1, by omega⟩
  rw [Parser.parsePower]
  refine (bind_of (reads.wholePostfix ahead closes.1 (by omega))).trans ?_
  exact if_neg (by rw [current_kind after_tokens]; exact closes.2)

theorem raised {caret : Token} (filled : after ≠ []) (ahead : Reads parser inBar before left .postfixed)
    (kind : caret.kind = .caret) (behind : Reads parser inBar after right .unary) :
    Reads parser inBar (before ++ caret :: after) (.binary .power left right false ⟨left.span.start, right.span.stop⟩)
      .power := by
  intro state rest fuel whole closes fed
  obtain ⟨fuel, rfl⟩ : ∃ less, fuel = less + 1 := ⟨fuel - 1, by omega⟩
  rw [List.length_append, List.length_cons] at fed
  obtain ⟨first, second⟩ := whole.sides 1 filled (by simp [kind]) (by simp only [Node.nesting]; omega)
  rw [Parser.parsePower]
  refine (bind_of (ahead.wholePostfix first (by simp [kind]) (by omega))).trans ?_
  refine (if_pos (by rw [current_kind after_tokens, follow_cons, kind])).trans ?_
  refine (bind_of (second.fits.enters (Parser.advance (state.after parser _ left)) rfl)).trans ?_
  refine (bind_of (behind second closes (by omega))).trans ?_
  refine whole.fits.built rfl ?_
  simp [Progress.after, Parser.advance, Parser.leave, Node.depth, Node.size, Node.warnings, Nat.add_assoc]

theorem toPostfix (filled : tokens ≠ []) (reads : Reads parser inBar tokens node .primary) :
    Reads parser inBar tokens node .postfixed := by
  intro state rest fuel ahead fed
  have := List.length_pos_of_ne_nil filled
  obtain ⟨fuel, rfl⟩ : ∃ less, fuel = less + 1 := ⟨fuel - 1, by omega⟩
  refine ⟨fuel, by omega, ?_⟩
  rw [Parser.parsePostfix, reads ahead (by omega)]
  rfl

theorem factorial {bang : Token} (ahead : Reads parser inBar tokens left .postfixed) (kind : bang.kind = .bang) :
    Reads parser inBar (tokens ++ [bang]) (.factorial left ⟨left.span.start, bang.stop⟩) .postfixed := by
  intro state rest fuel whole fed
  rw [List.length_append, List.length_singleton] at fed ⊢
  have first : Ahead parser state inBar tokens (bang :: rest) left :=
    ⟨by simpa using whole.listed, whole.bar,
      whole.fits.part 0 0 rfl rfl (by simp [Node.size]) (by simp [Node.depth]) (by simp [Node.nesting]),
      .ofKind (by simp [kind])⟩
  have enough : 10 * tokens.length + 3 ≤ fuel := by omega
  obtain ⟨spare, spent, ran⟩ := ahead first enough
  obtain ⟨spare, rfl⟩ : ∃ less, spare = less + 1 := ⟨spare - 1, by omega⟩
  refine ⟨spare, by omega, ?_⟩
  have here : parser.current (state.after parser (bang :: rest) left) = bang := rfl
  rw [ran, Parser.postfixLoop, here, if_pos kind]
  refine (bind_of (whole.fits.built rfl ?_)).trans rfl
  simp [Progress.after, Parser.advance, Node.depth, Node.size, Node.warnings, Nat.add_assoc]

theorem leaf {token : Token} (kind : token.kind = .number) :
    Reads parser inBar [token] (.number token.text ⟨token.start, token.stop⟩) .primary := by
  intro state rest fuel whole fed
  obtain ⟨fuel, rfl⟩ : ∃ less, fuel = less + 1 := ⟨fuel - 1, by omega⟩
  have here : parser.current state = token := by rw [Parser.current, whole.listed]; rfl
  rw [Parser.parsePrimary, here, kind]
  refine whole.fits.built rfl ?_
  simp [Progress.after, Parser.advance, whole.listed, Node.size, Node.depth, Node.warnings]

theorem name {token : Token} (kind : token.kind = .name) (plain : parser.options.language.functionSpec token.text = none) :
    Reads parser inBar [token] (.name token.text ⟨token.start, token.stop⟩) .primary := by
  intro state rest fuel whole fed
  obtain ⟨fuel, rfl⟩ : ∃ less, fuel = less + 2 := ⟨fuel - 2, by omega⟩
  have here : parser.current state = token := by rw [Parser.current, whole.listed]; rfl
  have value : ¬ ((parser.current (Parser.advance state)).kind = .open_ ∧ parser.options.isValue token.text = false) := by
    rintro ⟨opens, unknown⟩
    have listed : (Parser.advance state).tokens = rest := by rw [Parser.advance, whole.listed]; rfl
    rw [current_kind listed] at opens
    cases rest with
    | nil => cases opens
    | cons first others =>
      have := whole.meets token rfl first rfl kind opens
      rw [unknown] at this
      cases this
  rw [Parser.parsePrimary, here, kind]
  show parser.parseName (fuel + 1) state = _
  rw [Parser.parseName, here, plain]
  simp only [if_neg value]
  refine whole.fits.built rfl ?_
  simp [Progress.after, Parser.advance, whole.listed, Node.size, Node.depth, Node.warnings]

theorem group {opening closing : Token} (kind : opening.kind = .open_) (within : Reads parser false tokens node .sum)
    (kind' : closing.kind = .close) :
    Reads parser inBar (opening :: (tokens ++ [closing])) (.group node ⟨opening.start, closing.stop⟩) .primary := by
  intro state rest fuel whole fed
  obtain ⟨fuel, rfl⟩ : ∃ less, fuel = less + 2 := ⟨fuel - 2, by omega⟩
  rw [List.length_cons, List.length_append, List.length_singleton] at fed
  have here : parser.current state = opening := by rw [Parser.current, whole.listed]; rfl
  have next : Ahead parser (Parser.push .paren { Parser.advance state with nest := state.nest + 1 }) false tokens
      (closing :: rest) node :=
    whole.below rfl (by simp [kind']) (by simp [Node.size]) (by simp [Node.depth]) (by simp [Node.nesting, Nat.add_comm])
  have ends : closesSum false (follow (closing :: rest)) := closesSum_argument (.inl kind')
  have closed : parser.current (Progress.after parser
      (Parser.push .paren { Parser.advance state with nest := state.nest + 1 }) (closing :: rest) node) = closing := rfl
  rw [Parser.parsePrimary, here, kind]
  show parser.parseGroup (fuel + 1) state = _
  rw [Parser.parseGroup, here]
  refine (bind_of (next.fits.enters (Parser.advance state) rfl)).trans ?_
  refine (bind_of (within.wholeSum next ends (by omega))).trans ?_
  refine (bind_of (by rw [Parser.expectClose, closed, kind'])).trans ?_
  refine whole.fits.built rfl ?_
  simp [Progress.after, Parser.advance, Parser.push, Parser.pop, Parser.leave, Node.depth, Node.size, Node.warnings,
    Nat.add_assoc]

theorem bars {opening closing first : Token} (one : TakesOne parser.options (text "abs")) (kind : opening.kind = .bar)
    (head : tokens.head? = some first) (operand : startsOperand first.kind = true)
    (within : Reads parser true tokens node .sum) (kind' : closing.kind = .bar) :
    Reads parser inBar (opening :: (tokens ++ [closing])) (.call (text "abs") [node] .bars ⟨opening.start, closing.stop⟩)
      .primary := by
  intro state rest fuel whole fed
  obtain ⟨fuel, rfl⟩ : ∃ less, fuel = less + 2 := ⟨fuel - 2, by omega⟩
  rw [List.length_cons, List.length_append, List.length_singleton] at fed
  have here : parser.current state = opening := by rw [Parser.current, whole.listed]; rfl
  have next : Ahead parser (Parser.push .bar { Parser.advance state with nest := state.nest + 1 }) true tokens
      (closing :: rest) node :=
    whole.below rfl (by simp [kind']) (by simp [Node.size, Node.sizes]) (by simp [Node.depth, Node.depths])
      (by simp [Node.nesting, Node.nestings, Nat.add_comm])
  have ends : closesSum true (follow (closing :: rest)) := by
    rw [follow_cons, kind']
    simp [closesSum, closesProduct, closesPower, Parser.productOperator, Parser.sumOperator, Parser.startsImplicitOperand,
      contextsOf]
  have closed : parser.current (Progress.after parser
      (Parser.push .bar { Parser.advance state with nest := state.nest + 1 }) (closing :: rest) node) = closing := rfl
  have begins : (parser.current (Parser.advance state)).kind = first.kind := by
    rw [Parser.current, Parser.advance, whole.listed, List.cons_append, List.tail_cons, List.append_assoc,
      List.head?_append, head]
    rfl
  have other : ¬ (first.kind = .end_ ∨ first.kind = .close ∨ first.kind = .sep ∨ first.kind = .equals) := by
    rintro (same | same | same | same) <;> rw [same] at operand <;> cases operand
  rw [Parser.parsePrimary, here, kind]
  show parser.parseBars (fuel + 1) state = _
  rw [Parser.parseBars, here]
  refine (bind_of (requireFunction_one one)).trans ?_
  refine (if_neg (by rwa [begins])).trans ?_
  refine (bind_of (next.fits.enters (Parser.advance state) rfl)).trans ?_
  refine (bind_of (within.wholeSum next ends (by omega))).trans ?_
  refine (if_pos (by rw [closed, kind'])).trans ?_
  refine whole.fits.built (by rw [after_depth]; simp [Node.depth, Node.depths]) ?_
  simp [Progress.after, Parser.advance, Parser.push, Parser.pop, Parser.leave, Node.depth, Node.depths,
    Node.size, Node.sizes, Node.warnings, Node.allWarnings, Nat.add_assoc]

theorem radical {sign : Token} (filled : tokens ≠ []) (one : TakesOne parser.options (text "sqrt"))
    (kind : sign.kind = .radical) (behind : Reads parser inBar tokens node .primary) :
    Reads parser inBar (sign :: tokens) (.call (text "sqrt") [node] .radical ⟨sign.start, node.span.stop⟩) .primary := by
  intro state rest fuel whole fed
  obtain ⟨fuel, rfl⟩ : ∃ less, fuel = less + 1 := ⟨fuel - 1, by omega⟩
  rw [List.length_cons] at fed
  have here : parser.current state = sign := by rw [Parser.current, whole.listed]; rfl
  have next : Ahead parser { Parser.advance state with nest := state.nest + 1 } inBar tokens rest node :=
    ⟨by rw [Parser.advance, whole.listed]; rfl, whole.bar,
      whole.fits.part 0 1 rfl rfl (by simp [Node.size, Node.sizes]) (by simp [Node.depth, Node.depths])
        (by simp [Node.nesting, Node.nestings]; omega),
      whole.meets.suffix filled ⟨[sign], rfl⟩⟩
  rw [Parser.parsePrimary, here, kind]
  refine (bind_of (requireFunction_one one)).trans ?_
  refine (bind_of (next.fits.enters (Parser.advance state) rfl)).trans ?_
  refine (bind_of (behind next (by omega))).trans ?_
  refine whole.fits.built (by simp [Node.depth, Node.depths, Parser.leave]) ?_
  simp [Progress.after, Parser.advance, Parser.leave, Node.depth, Node.depths, Node.size, Node.sizes, Node.warnings,
    Node.allWarnings, Nat.add_assoc]

end Reads

def Progress.afterAll (parser : Parser) (state : Progress) (rest : List Token) (args : List Node) (depth : Nat) : Progress :=
  { state with
    tokens := rest
    nodeCount := state.nodeCount + Node.sizes args
    depth := depth
    warnings := state.warnings ++ Node.allWarnings parser args }

def ReadsAll (parser : Parser) (tokens : List Token) (args : List Node) : Prop :=
  ∀ {state rest fuel}, state.tokens = tokens ++ rest → state.inBar = false →
    state.nodeCount + Node.sizes args ≤ parser.options.limits.nodes →
    Node.depths args ≤ parser.options.limits.depth → state.nest + Node.nestings args < parser.options.limits.depth →
    follow rest = .close → 10 * tokens.length + 8 ≤ fuel →
    ∃ depth, parser.argsLoop fuel state = .ok (args, Node.depths args, state.afterAll parser rest args depth)

namespace Reads

theorem called {nameToken opening closing : Token} {spec : FunctionSpec} {args : List Node} (depth : Nat)
    (kind : nameToken.kind = .name) (found : parser.options.language.functionSpec nameToken.text = some spec) (opens : opening.kind = .open_)
    (closes : closing.kind = .close) (few : spec.min ≤ args.length) (many : args.length ≤ spec.max)
    (whole : Ahead parser state inBar (nameToken :: opening :: tokens) rest (.call nameToken.text args .call ⟨nameToken.start, closing.stop⟩))
    (read : ∀ inside, inside = Parser.push .paren { Parser.advance (Parser.advance state) with nest := state.nest + 1 } →
      parser.parseArgs (fuel + 1) inside = .ok (args, Node.depths args, inside.afterAll parser (closing :: rest) args depth)) :
    parser.parsePrimary (fuel + 4) state = .ok (.call nameToken.text args .call ⟨nameToken.start, closing.stop⟩,
      state.after parser rest (.call nameToken.text args .call ⟨nameToken.start, closing.stop⟩)) := by
  have here : parser.current state = nameToken := by rw [Parser.current, whole.listed]; rfl
  have follows : parser.current (Parser.advance state) = opening := by
    rw [Parser.current, Parser.advance, whole.listed]
    rfl
  have nest := whole.fits.nest
  simp only [Node.nesting] at nest
  rw [Parser.parsePrimary, here, kind]
  show parser.parseName (fuel + 2 + 1) state = _
  rw [Parser.parseName, here, found]
  refine (if_pos (by rw [follows, opens])).trans ?_
  show parser.parseCall (fuel + 1 + 1) nameToken spec (Parser.advance state) = _
  rw [Parser.parseCall, follows]
  refine (bind_of (if_neg (by simp only [Parser.advance]; omega))).trans ?_
  refine (bind_of (read _ rfl)).trans ?_
  refine (bind_of (by rw [Parser.expectClose, show parser.current (Progress.afterAll ..) = closing from rfl, closes])).trans ?_
  refine (if_neg (by omega)).trans ?_
  refine whole.fits.built (by simp [Node.depth]) ?_
  simp [Progress.after, Progress.afterAll, Parser.advance, Parser.push, Parser.pop, Parser.leave, Node.depth, Node.size, Node.warnings, Nat.add_assoc]

theorem empty {nameToken opening closing : Token} {spec : FunctionSpec} (kind : nameToken.kind = .name)
    (found : parser.options.language.functionSpec nameToken.text = some spec) (opens : opening.kind = .open_)
    (closes : closing.kind = .close) (least : spec.min = 0) :
    Reads parser inBar [nameToken, opening, closing] (.call nameToken.text [] .call ⟨nameToken.start, closing.stop⟩)
      .primary := by
  intro state rest fuel whole fed
  obtain ⟨fuel, rfl⟩ : ∃ less, fuel = less + 4 := ⟨fuel - 4, by simp at fed; omega⟩
  refine called state.depth kind found opens closes (by rw [least]; rfl) (Nat.zero_le _) whole fun inside is => ?_
  have listed : inside.tokens = closing :: rest := by
    simp [is, Parser.push, Parser.advance, whole.listed]
  rw [Parser.parseArgs, current_kind listed, follow_cons, if_pos closes]
  simp [is, Progress.afterAll, Parser.push, Parser.advance, whole.listed, Node.sizes, Node.depths, Node.allWarnings]

theorem call {nameToken opening closing first : Token} {spec : FunctionSpec} {args : List Node}
    (kind : nameToken.kind = .name) (found : parser.options.language.functionSpec nameToken.text = some spec)
    (opens : opening.kind = .open_) (head : tokens.head? = some first) (operand : startsOperand first.kind = true)
    (within : ReadsAll parser tokens args) (closes : closing.kind = .close) (few : spec.min ≤ args.length)
    (many : args.length ≤ spec.max) :
    Reads parser inBar (nameToken :: opening :: (tokens ++ [closing]))
      (.call nameToken.text args .call ⟨nameToken.start, closing.stop⟩) .primary := by
  intro state rest fuel whole fed
  obtain ⟨fuel, rfl⟩ : ∃ less, fuel = less + 4 := ⟨fuel - 4, by simp at fed; omega⟩
  simp only [List.length_cons, List.length_append, List.length_nil] at fed
  obtain ⟨nodes, deep, nest⟩ := whole.fits
  simp only [Node.size, Node.depth, Node.nesting] at nodes deep nest
  let inside := Parser.push .paren { Parser.advance (Parser.advance state) with nest := state.nest + 1 }
  have listed : inside.tokens = tokens ++ (closing :: rest) := by
    simp [inside, Parser.push, Parser.advance, whole.listed]
  have begins : (parser.current inside).kind = first.kind := by
    rw [current_kind listed, follow, List.head?_append, head]
    rfl
  obtain ⟨depth, ran⟩ := within listed rfl (by simp only [inside, Parser.push, Parser.advance]; omega) (by omega)
    (by simp only [inside, Parser.push]; omega) closes (by omega : 10 * tokens.length + 8 ≤ fuel)
  refine called depth kind found opens closes few many whole fun _ is => ?_
  subst is
  rw [Parser.parseArgs, begins, if_neg (by intro same; rw [same] at operand; cases operand)]
  exact ran

end Reads

namespace ReadsAll

theorem last (reads : Reads parser false tokens node .sum) : ReadsAll parser tokens [node] := by
  intro state rest fuel listed bar nodes deep nest closed fed
  obtain ⟨fuel, rfl⟩ : ∃ less, fuel = less + 1 := ⟨fuel - 1, by omega⟩
  simp only [Node.sizes, Node.depths, Node.nestings] at nodes deep nest
  have ahead : Ahead parser state false tokens rest node := by
    refine ⟨listed, bar, ⟨by omega, by omega, by omega⟩, ?_⟩
    cases rest with
    | nil => intro _ _ first head; cases head
    | cons first others =>
      rw [follow_cons] at closed
      exact .ofKind (by simp [closed])
  refine ⟨node.depth, ?_⟩
  rw [Parser.argsLoop]
  refine (bind_of (reads.wholeSum ahead (closesSum_argument (.inl closed)) (by omega))).trans ?_
  refine (if_neg (by rw [current_kind after_tokens, closed]; simp)).trans ?_
  simp [Progress.after, Progress.afterAll, Node.sizes, Node.depths, Node.allWarnings]

theorem more {sep : Token} {args : List Node} (reads : Reads parser false before node .sum) (kind : sep.kind = .sep)
    (others : ReadsAll parser after args) : ReadsAll parser (before ++ sep :: after) (node :: args) := by
  intro state rest fuel listed bar nodes deep nest closed fed
  obtain ⟨fuel, rfl⟩ : ∃ less, fuel = less + 1 := ⟨fuel - 1, by omega⟩
  rw [List.length_append, List.length_cons] at fed
  simp only [Node.sizes, Node.depths, Node.nestings] at nodes deep nest
  have ahead : Ahead parser state false before (sep :: (after ++ rest)) node :=
    ⟨by simpa using listed, bar, ⟨by omega, by omega, by omega⟩, .ofKind (by simp [kind])⟩
  let middle := Parser.advance (state.after parser (sep :: (after ++ rest)) node)
  have ran : ∃ depth, parser.argsLoop fuel middle = .ok (args, Node.depths args, middle.afterAll parser rest args depth) :=
    others rfl bar (by simp only [middle, Parser.advance, after_nodeCount]; omega) (by omega)
      (by simp only [middle, Parser.advance, after_nest]; omega) closed (by omega)
  obtain ⟨depth, ran⟩ := ran
  refine ⟨depth, ?_⟩
  rw [Parser.argsLoop]
  refine (bind_of (reads.wholeSum ahead (closesSum_argument (.inr kind)) (by omega))).trans ?_
  refine (if_pos (by rw [current_kind after_tokens, follow_cons, kind])).trans ?_
  refine (bind_of ran).trans ?_
  simp [middle, Progress.after, Progress.afterAll, Parser.advance, Node.sizes, Node.depths, Node.allWarnings, Nat.add_assoc]

end ReadsAll

theorem Derives.unsigned {options : ParseOptions} : ∀ {inBar : Bool} {level : Level} {tokens : List Token} {node : Node},
    Derives options inBar level tokens node → level = .power ∨ level = .postfixed ∨ level = .primary →
    ∃ first, tokens.head? = some first ∧ Parser.signOf first.kind = none
  | _, _, _, _, .product _, below | _, _, _, _, .sum _ _ _, below | _, _, _, _, .unary _, below
  | _, _, _, _, .times _ _ _, below | _, _, _, _, .juxtaposed _ _ _ _ _, below | _, _, _, _, .power _, below
  | _, _, _, _, .signed _ _, below => by simp at below
  | _, _, _, _, .postfixed derived, _ => derived.unsigned (.inr (.inl rfl))
  | _, _, _, _, .primary derived, _ => derived.unsigned (.inr (.inr rfl))
  | _, _, _, _, .raised base _ _, _ => by
    obtain ⟨first, head, plain⟩ := base.unsigned (.inr (.inl rfl))
    exact ⟨first, by rw [List.head?_append, head]; rfl, plain⟩
  | _, _, _, _, .factorial arg _, _ => by
    obtain ⟨first, head, plain⟩ := arg.unsigned (.inr (.inl rfl))
    exact ⟨first, by rw [List.head?_append, head]; rfl, plain⟩
  | _, _, _, _, .number kind, _ | _, _, _, _, .name kind _, _ | _, _, _, _, .group kind _ _, _
  | _, _, _, _, .bars _ kind _ _, _ | _, _, _, _, .radical _ kind _, _ | _, _, _, _, .empty kind _ _ _ _, _
  | _, _, _, _, .call kind _ _ _ _ _ _, _ => ⟨_, rfl, by rw [kind]; rfl⟩

theorem Arguments.operand {options : ParseOptions} {args : List Node} (derived : Arguments options tokens args) :
    ∃ first, tokens.head? = some first ∧ startsOperand first.kind = true := by
  cases derived with
  | last arg =>
    obtain ⟨first, _, head, _, operand, _⟩ := arg.ends
    exact ⟨first, head, operand⟩
  | more arg _ _ =>
    obtain ⟨first, _, head, _, operand, _⟩ := arg.ends
    exact ⟨first, by rw [List.head?_append, head]; rfl, operand⟩

mutual

theorem Derives.reads : ∀ {inBar : Bool} {level : Level} {tokens : List Token} {node : Node},
    Derives parser.options inBar level tokens node → Reads parser inBar tokens node level
  | _, _, _, _, .product derived => Reads.toSum derived.filled derived.reads
  | _, _, _, _, .sum before found after => Reads.sum after.filled before.reads found after.reads
  | _, _, _, _, .unary derived => Reads.toProduct derived.filled derived.reads
  | _, _, _, _, .times before found after => Reads.times after.filled before.reads found after.reads
  | _, _, _, _, .juxtaposed before after head starts value => Reads.juxtaposed before.reads after.reads head starts value
  | _, _, _, _, .power derived => by
    obtain ⟨_, head, plain⟩ := derived.unsigned (.inl rfl)
    exact Reads.toUnary head plain derived.reads
  | _, _, _, _, .signed found arg => Reads.signed arg.filled found arg.reads
  | _, _, _, _, .postfixed derived => Reads.toPower derived.reads
  | _, _, _, _, .raised base kind exponent => Reads.raised exponent.filled base.reads kind exponent.reads
  | _, _, _, _, .primary derived => Reads.toPostfix derived.filled derived.reads
  | _, _, _, _, .factorial arg kind => Reads.factorial arg.reads kind
  | _, _, _, _, .number kind => Reads.leaf kind
  | _, _, _, _, .name kind plain => Reads.name kind plain
  | _, _, _, _, .group kind inner kind' => Reads.group kind inner.reads kind'
  | _, _, _, _, .bars one kind inner kind' => by
    obtain ⟨_, _, head, _, operand, _⟩ := inner.ends
    exact Reads.bars one kind head operand inner.reads kind'
  | _, _, _, _, .radical one kind arg => Reads.radical arg.filled one kind arg.reads
  | _, _, _, _, .empty kind found opens closes least => Reads.empty kind found opens closes least
  | _, _, _, _, .call kind found opens args closes few many => by
    obtain ⟨_, head, operand⟩ := args.operand
    exact Reads.call kind found opens head operand args.reads closes few many

theorem Arguments.reads : ∀ {tokens : List Token} {args : List Node},
    Arguments parser.options tokens args → ReadsAll parser tokens args
  | _, _, .last arg => ReadsAll.last arg.reads
  | _, _, .more arg kind rest => ReadsAll.more arg.reads kind rest.reads

end

end Arki.Expr
