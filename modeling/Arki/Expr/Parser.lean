import Arki.Expr.Lexer

/-! The recursive-descent parser. Every recursion under a sign, an exponent or a bracket passes
through `enter`, so nesting is bounded by the depth budget.
-/

set_option autoImplicit false

namespace Arki.Expr

inductive Context where
  | paren
  | bar
  deriving DecidableEq

inductive WarningCode where
  | implicitAfterDivision
  | implicitAfterPower
  deriving DecidableEq

/-- A legal but easily misread input, such as `1/2x`. -/
structure Warning where
  code : WarningCode
  span : Span
  message : Text
  hint : Text
  deriving DecidableEq

structure Parser where
  source : Text
  options : ParseOptions

/-- Where a parse stands. `contexts` has the innermost bracket first, and `depth` is that of the node
most recently returned. -/
structure Progress where
  tokens : List Token
  nodeCount : Nat
  nest : Nat
  depth : Nat
  contexts : List Context
  warnings : List Warning

def Progress.start (tokens : List Token) : Progress := ⟨tokens, 0, 0, 0, [], []⟩

def operands : List Text :=
  [text "number", text "name", text "(", text "|", text "√", text "-", text "+"]

def Text.slice (source : Text) (span : Span) : Text := (source.drop span.start).take (span.stop - span.start)

namespace Parser

variable (parser : Parser)

def endToken : Token := ⟨.end_, parser.source.length, parser.source.length, []⟩

def current (state : Progress) : Token := state.tokens.head?.getD parser.endToken

def advance (state : Progress) : Progress := { state with tokens := state.tokens.tail }

def describe (token : Token) : Text :=
  if token.kind = .end_ then text "end of input" else parser.source.slice ⟨token.start, token.stop⟩

def error (code : ParseErrorCode) (token : Token) (message : Text) (expected : List Text) : Stop :=
  .refused ⟨code, ⟨token.start, token.stop⟩, message, expected, parser.describe token⟩

def finish (node : Node) (depth : Nat) (state : Progress) : Except Stop (Node × Progress) :=
  let limits := parser.options.limits
  let nodeCount := state.nodeCount + 1
  if limits.nodes < nodeCount then .error (.overBudget .nodes limits.nodes nodeCount)
  else if limits.depth < depth then .error (.overBudget .depth limits.depth depth)
  else .ok (node, { state with nodeCount := nodeCount, depth := depth })

def enter (state : Progress) : Except Stop Progress :=
  let limits := parser.options.limits
  let nest := state.nest + 1
  if limits.depth ≤ nest then .error (.overBudget .depth limits.depth (nest + 1)) else .ok { state with nest := nest }

def leave (state : Progress) : Progress := { state with nest := state.nest - 1 }

def push (context : Context) (state : Progress) : Progress := { state with contexts := context :: state.contexts }

def pop (state : Progress) : Progress := { state with contexts := state.contexts.tail }

def binary (op : BinaryOperator) (left right : Node) (implicit : Bool) (leftDepth : Nat) (state : Progress) :
    Except Stop (Node × Progress) :=
  parser.finish (.binary op left right implicit ⟨left.span.start, right.span.stop⟩) (max leftDepth state.depth + 1) state

def requireFunction (fn : Text) (token : Token) (arity : Nat) : Except Stop Unit :=
  match parser.options.language.functionSpec fn with
  | some spec =>
    if arity < spec.min ∨ spec.max < arity then
      .error (parser.error .notAFunction token (text "\"" ++ parser.describe token ++ text "\" needs the function \"" ++
        fn ++ text "\" in the language") [fn])
    else .ok ()
  | none =>
    .error (parser.error .notAFunction token (text "\"" ++ parser.describe token ++ text "\" needs the function \"" ++
      fn ++ text "\" in the language") [fn])

def expectClose (opening : Token) (expected : List Text) (state : Progress) : Except Stop (Token × Progress) :=
  let token := parser.current state
  match token.kind with
  | .close => .ok (token, advance state)
  | .end_ => .error (parser.error .unbalancedParen opening (text "This \"(\" is never closed") [text ")"])
  | _ => .error (parser.error .unexpectedToken token
      (text "Expected \")\" but found \"" ++ parser.describe token ++ text "\"") expected)

def core : Node → Node
  | .unary _ arg _ => core arg
  | node => node

def warnImplicit (left right : Node) : List Warning :=
  match core left with
  | .binary op a b false span =>
    let slice (node : Node) := parser.source.slice node.span
    let ahead := parser.source.slice ⟨left.span.start, span.start⟩
    let whole : Span := ⟨left.span.start, right.span.stop⟩
    let reading := parser.source.slice whole
    let hint (mark : Text) := text "write " ++ ahead ++ text "(" ++ slice a ++ mark ++ slice b ++ text ")" ++
      slice right ++ text " or " ++ ahead ++ slice a ++ mark ++ text "(" ++ slice b ++ slice right ++ text ")"
    let message (mark reason : Text) := text "\"" ++ reading ++ text "\" reads as " ++ ahead ++ text "(" ++ slice a ++
      mark ++ slice b ++ text ")·" ++ slice right ++ reason
    match op with
    | .divide => [⟨.implicitAfterDivision, whole,
        message (text "/") (text ": implicit multiplication binds like * and /, left to right"), hint (text "/")⟩]
    | .power => [⟨.implicitAfterPower, whole,
        message (text "^") (text ": the exponent ends before the implicit multiplication"), hint (text "^")⟩]
    | _ => []
  | _ => []

/-- Juxtaposition: a name, `(`, `√`, or a `|` that cannot be a closing one. -/
def startsImplicitOperand (kind : TokenKind) (contexts : List Context) : Bool :=
  match kind with
  | .name | .open_ | .radical => true
  | .bar => contexts.head? != some .bar
  | _ => false

def sumOperator : TokenKind → Option BinaryOperator
  | .plus => some .add
  | .minus => some .subtract
  | _ => none

def productOperator : TokenKind → Option BinaryOperator
  | .star => some .multiply
  | .slash => some .divide
  | _ => none

def signOf : TokenKind → Option Sign
  | .plus => some .plus
  | .minus => some .minus
  | _ => none

mutual

def parseSum : Nat → Progress → Except Stop (Node × Progress)
  | 0, _ => .error .fuel
  | fuel + 1, state => do
    let (left, state) ← parseProduct fuel state
    sumLoop fuel left state

def sumLoop : Nat → Node → Progress → Except Stop (Node × Progress)
  | 0, _, _ => .error .fuel
  | fuel + 1, left, state =>
    match sumOperator (parser.current state).kind with
    | none => .ok (left, state)
    | some op => do
      let leftDepth := state.depth
      let (right, state) ← parseProduct fuel (advance state)
      let (left, state) ← parser.binary op left right false leftDepth state
      sumLoop fuel left state

def parseProduct : Nat → Progress → Except Stop (Node × Progress)
  | 0, _ => .error .fuel
  | fuel + 1, state => do
    let (left, state) ← parseUnary fuel state
    productLoop fuel left state

def productLoop : Nat → Node → Progress → Except Stop (Node × Progress)
  | 0, _, _ => .error .fuel
  | fuel + 1, left, state =>
    let token := parser.current state
    let leftDepth := state.depth
    match productOperator token.kind with
    | some op => do
      let (right, state) ← parseUnary fuel (advance state)
      let (left, state) ← parser.binary op left right false leftDepth state
      productLoop fuel left state
    | none =>
      if startsImplicitOperand token.kind state.contexts then do
        let (right, state) ← parsePower fuel state
        let state := { state with warnings := state.warnings ++ parser.warnImplicit left right }
        let (left, state) ← parser.binary .multiply left right true leftDepth state
        productLoop fuel left state
      else if token.kind = .number then
        .error (parser.error .unexpectedToken token
          (text "A number cannot follow an operand: write \"*\" between them (for example 2*x, not x2 or (a)2)")
          [text "operator"])
      else .ok (left, state)

def parseUnary : Nat → Progress → Except Stop (Node × Progress)
  | 0, _ => .error .fuel
  | fuel + 1, state =>
    let token := parser.current state
    match signOf token.kind with
    | none => parsePower fuel state
    | some op => do
      let state ← parser.enter (advance state)
      let (arg, state) ← parseUnary fuel state
      let state := leave state
      parser.finish (.unary op arg ⟨token.start, arg.span.stop⟩) (state.depth + 1) state

def parsePower : Nat → Progress → Except Stop (Node × Progress)
  | 0, _ => .error .fuel
  | fuel + 1, state => do
    let (base, state) ← parsePostfix fuel state
    if (parser.current state).kind = .caret then
      let baseDepth := state.depth
      let state ← parser.enter (advance state)
      let (exponent, state) ← parseUnary fuel state
      parser.binary .power base exponent false baseDepth (leave state)
    else .ok (base, state)

def parsePostfix : Nat → Progress → Except Stop (Node × Progress)
  | 0, _ => .error .fuel
  | fuel + 1, state => do
    let (node, state) ← parsePrimary fuel state
    postfixLoop fuel node state

def postfixLoop : Nat → Node → Progress → Except Stop (Node × Progress)
  | 0, _, _ => .error .fuel
  | fuel + 1, node, state =>
    let token := parser.current state
    if token.kind = .bang then do
      let state := advance state
      let (node, state) ← parser.finish (.factorial node ⟨node.span.start, token.stop⟩) (state.depth + 1) state
      postfixLoop fuel node state
    else .ok (node, state)

def parsePrimary : Nat → Progress → Except Stop (Node × Progress)
  | 0, _ => .error .fuel
  | fuel + 1, state =>
    let token := parser.current state
    match token.kind with
    | .number => parser.finish (.number token.text ⟨token.start, token.stop⟩) 1 (advance state)
    | .name => parseName fuel state
    | .open_ => parseGroup fuel state
    | .bar => parseBars fuel state
    | .radical => do
      parser.requireFunction (text "sqrt") token 1
      let state ← parser.enter (advance state)
      let (arg, state) ← parsePrimary fuel state
      let state := leave state
      parser.finish (.call (text "sqrt") [arg] .radical ⟨token.start, arg.span.stop⟩) (state.depth + 1) state
    | .end_ => .error (parser.error .unexpectedEnd token (text "The expression ends where an operand was expected") operands)
    | _ => .error (parser.error .unexpectedToken token
        (text "Expected a number, name, \"(\" or \"|\" but found \"" ++ parser.describe token ++ text "\"") operands)

def parseName : Nat → Progress → Except Stop (Node × Progress)
  | 0, _ => .error .fuel
  | fuel + 1, state =>
    let token := parser.current state
    let name := token.text
    let state := advance state
    let next := parser.current state
    match parser.options.language.functionSpec name with
    | some spec =>
      if next.kind = .open_ then parseCall fuel token spec state
      else if next.kind = .caret then
        .error (parser.error .unexpectedToken next (text "\"" ++ name ++
          text "\" is a function and needs parentheses: write " ++ name ++ text "(x)^2 for a power of " ++ name) [text "("])
      else
        .error (parser.error (if next.kind = .end_ then .unexpectedEnd else .unexpectedToken) next (text "\"" ++ name ++
          text "\" is a function and needs parentheses: write " ++ name ++ text "(x)") [text "("])
    | none =>
      if next.kind = .open_ ∧ parser.options.isValue name = false then
        .error (parser.error .notAFunction token (text "\"" ++ name ++
          text "\" is not a function in this language. For a product, write " ++ name ++ text "*(…), or declare \"" ++
          name ++ text "\" in the variables option") parser.options.language.functionNames)
      else parser.finish (.name name ⟨token.start, token.stop⟩) 1 state

def parseCall : Nat → Token → FunctionSpec → Progress → Except Stop (Node × Progress)
  | 0, _, _, _ => .error .fuel
  | fuel + 1, nameToken, spec, state => do
    let opening := parser.current state
    let state ← parser.enter (advance state)
    let (args, deepest, state) ← parseArgs fuel (push .paren state)
    let (close, state) ← parser.expectClose opening [text "sep", text ")"] state
    let state := leave (pop state)
    let span : Span := ⟨nameToken.start, close.stop⟩
    if args.length < spec.min ∨ spec.max < args.length then
      let decimal (n : Nat) := text (toString n)
      let wanted := if spec.min = spec.max then decimal spec.min else decimal spec.min ++ text " to " ++ decimal spec.max
      .error (.refused ⟨.arity, span, text "\"" ++ nameToken.text ++ text "\" takes " ++ wanted ++
        text " argument(s), got " ++ decimal args.length, [wanted], decimal args.length⟩)
    else parser.finish (.call nameToken.text args .call span) (deepest + 1) state

def parseArgs : Nat → Progress → Except Stop (List Node × Nat × Progress)
  | 0, _ => .error .fuel
  | fuel + 1, state =>
    if (parser.current state).kind = .close then .ok ([], 0, state) else argsLoop fuel state

def argsLoop : Nat → Progress → Except Stop (List Node × Nat × Progress)
  | 0, _ => .error .fuel
  | fuel + 1, state => do
    let (arg, state) ← parseSum fuel state
    let depth := state.depth
    if (parser.current state).kind = .sep then
      let (rest, deepest, state) ← argsLoop fuel (advance state)
      .ok (arg :: rest, max depth deepest, state)
    else .ok ([arg], depth, state)

def parseGroup : Nat → Progress → Except Stop (Node × Progress)
  | 0, _ => .error .fuel
  | fuel + 1, state => do
    let opening := parser.current state
    let state ← parser.enter (advance state)
    let (inner, state) ← parseSum fuel (push .paren state)
    let innerDepth := state.depth
    let (close, state) ← parser.expectClose opening [text ")"] state
    parser.finish (.group inner ⟨opening.start, close.stop⟩) (innerDepth + 1) (leave (pop state))

def parseBars : Nat → Progress → Except Stop (Node × Progress)
  | 0, _ => .error .fuel
  | fuel + 1, state => do
    let opening := parser.current state
    let state := advance state
    parser.requireFunction (text "abs") opening 1
    let next := (parser.current state).kind
    let never := text "This \"|\" opens an absolute value that is never closed"
    -- a bar followed by nothing that can start an operand was meant to close a pair
    if next = .end_ ∨ next = .close ∨ next = .sep ∨ next = .equals then
      .error (parser.error .unbalancedBar opening never [])
    else
      let state ← parser.enter state
      let (inner, state) ← parseSum fuel (push .bar state)
      let innerDepth := state.depth
      let close := parser.current state
      if close.kind = .bar then
        parser.finish (.call (text "abs") [inner] .bars ⟨opening.start, close.stop⟩) (innerDepth + 1)
          (leave (pop (advance state)))
      else .error (parser.error .unbalancedBar opening never [text "|"])

end

def expectEnd (allowEquals : Bool) (state : Progress) : Except Stop Unit :=
  let token := parser.current state
  match token.kind with
  | .end_ => .ok ()
  | .close => .error (parser.error .unbalancedParen token (text "This \")\" has no matching \"(\"") [])
  | .equals => .error (parser.error .unexpectedToken token
      (if allowEquals then text "An equation has at most one \"=\""
        else text "\"=\" is only allowed in equations (use parseEquation)") [text "end of input"])
  | .sep => .error (parser.error .unexpectedToken token
      (text "An argument separator is only allowed inside a function call") [text "end of input"])
  | _ => .error (parser.error .unexpectedToken token (text "Unexpected \"" ++ parser.describe token ++ text "\"")
      [text "end of input"])

end Parser

structure Expression where
  source : Text
  root : Node
  warnings : List Warning

structure Equation where
  source : Text
  left : Node
  right : Node
  warnings : List Warning

/-- More than the recursion needs: it takes at most eight calls to reach the next token. -/
def fuelFor (tokens : List Token) : Nat := 10 * tokens.length + 10

def start (source : Text) (options : ParseOptions) : Except Stop (Parser × List Token) :=
  if options.limits.length < source.length then
    .error (.overBudget .length options.limits.length source.length)
  else
    match tokenize source options.syntax_ options.limits.tokens with
    | .error stop => .error stop
    | .ok tokens => .ok (⟨source, options⟩, tokens)

def parseText (source : Text) (options : ParseOptions) : Except Stop Expression := do
  let (parser, tokens) ← start source options
  let (root, state) ← parser.parseSum (fuelFor tokens) (.start tokens)
  parser.expectEnd false state
  return ⟨source, root, state.warnings⟩

def parseEquationText (source : Text) (options : ParseOptions) : Except Stop Equation := do
  let (parser, tokens) ← start source options
  let (left, state) ← parser.parseSum (fuelFor tokens) (.start tokens)
  let equals := parser.current state
  if equals.kind = .end_ then
    .error (.refused ⟨.unexpectedEnd, ⟨equals.start, equals.stop⟩, text "An equation needs \"=\"", [text "="],
      text "end of input"⟩)
  else
    if equals.kind ≠ .equals then parser.expectEnd true state
    let (right, state) ← parser.parseSum (fuelFor tokens) (Parser.advance state)
    parser.expectEnd true state
    return ⟨source, left, right, state.warnings⟩

end Arki.Expr
