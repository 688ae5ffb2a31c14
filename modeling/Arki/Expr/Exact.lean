import Arki.Expr.Complete
import Arki.Expr.Ends
import Arki.Expr.Spans

/-! What parses: the trees of the grammar within the budgets.

The nesting that the parser counts is less than the depth of the tree, but for a call without
arguments, which counts as deep as its node.
-/

set_option autoImplicit false

namespace Arki.Expr

open Outcome (bind_ok)

variable {source : Text} {options : ParseOptions} {tokens : List Token} {node other : Node}

def Lexed (source : Text) (options : ParseOptions) (tokens : List Token) : Prop :=
  source.length ≤ options.limits.length ∧ tokenize source options.syntax_ options.limits.tokens = .ok tokens

def InGrammar (source : Text) (options : ParseOptions) (node : Node) : Prop :=
  ∃ tokens, Lexed source options tokens ∧ Derives options false .sum tokens node ∧
    node.depth ≤ options.limits.depth ∧ node.size ≤ options.limits.nodes

theorem start_ok {parser : Parser} :
    start source options = .ok (parser, tokens) ↔ parser = ⟨source, options⟩ ∧ Lexed source options tokens := by
  simp only [start, Lexed]
  constructor
  · intro ran
    split at ran
    · cases ran
    split at ran
    · cases ran
    next read =>
      cases ran
      exact ⟨rfl, by omega, read⟩
  · rintro ⟨rfl, short, read⟩
    rw [if_neg (by omega), read]

theorem expectEnd_ok {parser : Parser} {state : Progress} {allowEquals : Bool} :
    parser.expectEnd allowEquals state = .ok () ↔ (parser.current state).kind = .end_ := by
  simp only [Parser.expectEnd]
  constructor
  · intro ran
    split at ran <;> first | assumption | cases ran
  · intro kind
    rw [kind]

theorem nextToken_kind {syntax_ : Syntax} {index code : Nat} {rest : Text} {token : Token}
    (read : nextToken syntax_ index code rest = .ok token) : token.kind ≠ .end_ := by
  simp only [nextToken] at read
  split at read
  · split at read
    · cases read
    · cases read
      simp
  · split at read
    · cases read
      simp
    · split at read
      · cases read
        simp
      · split at read
        · cases read
          simp
        · split at read
          next kind found =>
            cases read
            simp only [single] at found
            split at found <;> cases found <;> simp
          · cases read

theorem tokenizeFrom_each {syntax_ : Syntax} {maxTokens : Nat} {holds : Token → Prop}
    (each : ∀ {index code rest token}, nextToken syntax_ index code (code :: rest) = .ok token → holds token) :
    ∀ {skip index count : Nat} {source : Text} {tokens : List Token},
      tokenizeFrom syntax_ maxTokens skip index count source = .ok tokens → ∀ token ∈ tokens, holds token := by
  intro skip index count source
  induction source generalizing skip index count with
  | nil =>
    intro tokens read
    cases skip <;> cases read <;> simp
  | cons code rest ih =>
    intro tokens read
    cases skip with
    | succ skip =>
      rw [tokenizeFrom] at read
      exact ih read
    | zero =>
      simp only [tokenizeFrom] at read
      split at read
      · exact ih read
      split at read
      · cases read
      next token first =>
        split at read
        · cases read
        split at read
        · cases read
        next others behind =>
          cases read
          intro token member
          obtain _ | ⟨_, member⟩ := member
          · exact each first
          · exact ih behind token member

theorem Lexed.ended {parser : Parser} {state : Progress} (lexed : Lexed source options tokens)
    (behind : state.tokens <:+ tokens) (ended : (parser.current state).kind = .end_) : state.tokens = [] := by
  cases rest : state.tokens with
  | nil => rfl
  | cons token rest' =>
    have member : token ∈ tokens := behind.subset (by rw [rest]; exact List.mem_cons_self)
    rw [Parser.current, rest] at ended
    exact absurd ended (tokenizeFrom_each nextToken_kind lexed.2 token member)

theorem tokenizeFrom_ends {syntax_ : Syntax} {maxTokens : Nat} {source : Text} :
    ∀ {skip index count : Nat}, tokenizeFrom syntax_ maxTokens skip index count source ≠ .error .fuel := by
  induction source with
  | nil =>
    intro skip index count
    cases skip <;> rintro ⟨⟩
  | cons code rest ih =>
    intro skip index count
    cases skip with
    | succ skip => exact ih
    | zero =>
      simp only [tokenizeFrom]
      split
      · exact ih
      split
      · rintro ⟨⟩
      split
      · rintro ⟨⟩
      split
      next stop behind =>
        rintro ⟨⟩
        exact ih behind
      · rintro ⟨⟩

theorem tokenize_ends {syntax_ : Syntax} {maxTokens : Nat} : tokenize source syntax_ maxTokens ≠ .error .fuel :=
  tokenizeFrom_ends

theorem Derives.parses (parser : Parser) (derived : Derives parser.options false .sum tokens node)
    (fits : Fits parser (.start tokens) node) :
    parser.parseSum (fuelFor tokens) (.start tokens) = .ok (node, (Progress.start tokens).after parser [] node) := by
  have ahead : Ahead parser (.start tokens) false tokens [] node :=
    ⟨by simp [Progress.start], rfl, fits, by rintro _ _ _ ⟨⟩⟩
  have closes : closesSum false (follow []) := by
    simp [follow, closesSum, closesProduct, closesPower, Parser.productOperator, Parser.sumOperator,
      Parser.startsImplicitOperand]
  exact Reads.wholeSum derived.reads ahead closes (by rw [fuelFor]; omega)

/-- What `parseText` returns, in terms of the grammar and of what the parser counts. -/
theorem parseText_ok {expression : Expression} :
    parseText source options = .ok expression ↔
      ∃ tokens, Lexed source options tokens ∧ Derives options false .sum tokens expression.root ∧
        Fits ⟨source, options⟩ (.start tokens) expression.root ∧
        expression = ⟨source, expression.root, expression.root.warnings ⟨source, options⟩⟩ := by
  constructor
  · intro ran
    obtain ⟨⟨parser, tokens⟩, started, ran⟩ := bind_ok.mp ran
    obtain ⟨⟨root, state⟩, first, ran⟩ := bind_ok.mp ran
    obtain ⟨⟨⟩, ended, ran⟩ := bind_ok.mp ran
    cases ran
    obtain ⟨rfl, lexed⟩ := start_ok.mp started
    obtain ⟨⟨taken, split, derived, _⟩, became, fits⟩ :=
      (Sound.all _ _).sum (by exact options.limits.positive.2.2.1) first
    have none := lexed.ended ⟨taken, split.symm⟩ (expectEnd_ok.mp ended)
    rw [none, List.append_nil] at split
    cases split
    refine ⟨_, lexed, derived, fits, ?_⟩
    rw [became]
    simp [Progress.after, Progress.start]
  · rintro ⟨tokens, lexed, derived, fits, whole⟩
    refine (bind_of (start_ok.mpr ⟨rfl, lexed⟩)).trans ?_
    refine (bind_of (derived.parses ⟨source, options⟩ fits)).trans ?_
    refine (bind_of (expectEnd_ok.mpr (current_kind after_tokens))).trans ?_
    rw [whole]
    simp [Progress.after, Progress.start, pure, Except.pure]

theorem parseText_ends : parseText source options ≠ .error .fuel := by
  refine bind_ends ?_ ?_
  · simp only [start]
    split
    · rintro ⟨⟩
    split
    next stop read =>
      rintro ⟨⟩
      exact absurd read tokenize_ends
    · rintro ⟨⟩
  rintro ⟨parser, tokens⟩ started
  refine bind_ends ((Enough.all parser _).sum (by exact parser.options.limits.positive.2.2.1) ?_) ?_
  · simp only [Progress.start, fuelFor]
    omega
  rintro ⟨root, state⟩ _
  refine bind_ends expectEnd_ends ?_
  rintro ⟨⟩ _ ⟨⟩

section

variable {limits : Limits}

mutual

theorem Derives.relimit : ∀ {inBar : Bool} {level : Level} {tokens : List Token} {node : Node},
    Derives options inBar level tokens node → Derives { options with limits := limits } inBar level tokens node
  | _, _, _, _, .product derived => .product derived.relimit
  | _, _, _, _, .sum left found right => .sum left.relimit found right.relimit
  | _, _, _, _, .unary derived => .unary derived.relimit
  | _, _, _, _, .times left found right => .times left.relimit found right.relimit
  | _, _, _, _, .juxtaposed left right head starts value => .juxtaposed left.relimit right.relimit head starts value
  | _, _, _, _, .power derived => .power derived.relimit
  | _, _, _, _, .signed found arg => .signed found arg.relimit
  | _, _, _, _, .postfixed derived => .postfixed derived.relimit
  | _, _, _, _, .raised base kind exponent => .raised base.relimit kind exponent.relimit
  | _, _, _, _, .primary derived => .primary derived.relimit
  | _, _, _, _, .factorial arg kind => .factorial arg.relimit kind
  | _, _, _, _, .number kind => .number kind
  | _, _, _, _, .name kind plain => .name kind plain
  | _, _, _, _, .group kind inner kind' => .group kind inner.relimit kind'
  | _, _, _, _, .bars one kind inner kind' => .bars one kind inner.relimit kind'
  | _, _, _, _, .radical one kind arg => .radical one kind arg.relimit
  | _, _, _, _, .empty kind found opens closes least => .empty kind found opens closes least
  | _, _, _, _, .call kind found opens args closes few many => .call kind found opens args.relimit closes few many

theorem Arguments.relimit : ∀ {tokens : List Token} {args : List Node},
    Arguments options tokens args → Arguments { options with limits := limits } tokens args
  | _, _, .last arg => .last arg.relimit
  | _, _, .more arg kind rest => .more arg.relimit kind rest.relimit

end

end

/-- Tokens have one tree: with budgets for both, the parser would read either. -/
theorem Derives.unique (derived : Derives options false .sum tokens node)
    (derived' : Derives options false .sum tokens other) : node = other := by
  let roomy : Limits :=
    ⟨1, 1, node.depth + other.depth + node.nesting + other.nesting + 1, node.size + other.size + 1, by simp⟩
  let parser : Parser := ⟨[], { options with limits := roomy }⟩
  have one := derived.relimit.parses parser ⟨by simp only [Progress.start, parser, roomy]; omega,
    by simp only [parser, roomy]; omega, by simp only [Progress.start, parser, roomy]; omega⟩
  have two := derived'.relimit.parses parser ⟨by simp only [Progress.start, parser, roomy]; omega,
    by simp only [parser, roomy]; omega, by simp only [Progress.start, parser, roomy]; omega⟩
  cases one.symm.trans two
  rfl

namespace Node

def under (count : Nat) : Nat := if count = 0 then 0 else count + 1

mutual

/-- How deep the parser's recursion nests at the calls without arguments: zero when there are none. -/
def bareNesting : Node → Nat
  | number .. | name .. => 0
  | unary _ arg _ => under arg.bareNesting
  | factorial arg _ => arg.bareNesting
  | binary .power left right _ _ => max left.bareNesting (under right.bareNesting)
  | binary _ left right _ _ => max left.bareNesting right.bareNesting
  | call _ [] _ _ => 1
  | call _ (arg :: rest) _ _ => under (bareNestings (arg :: rest))
  | group inner _ => under inner.bareNesting

def bareNestings : List Node → Nat
  | [] => 0
  | arg :: rest => max arg.bareNesting (bareNestings rest)

end

mutual

theorem bareNesting_le : ∀ node : Node, node.bareNesting ≤ node.nesting
  | number .. | name .. => Nat.le_refl 0
  | unary _ arg _ | group arg _ => by
    have := bareNesting_le arg
    simp only [bareNesting, nesting, under]
    split <;> omega
  | factorial arg _ => bareNesting_le arg
  | binary op left right _ _ => by
    have := bareNesting_le left
    have := bareNesting_le right
    cases op <;> simp only [bareNesting, nesting, under] <;> try split
    all_goals omega
  | call _ [] _ _ => by simp [bareNesting, nesting]
  | call _ (arg :: rest) _ _ => by
    have := bareNestings_le (arg :: rest)
    simp only [bareNesting, nesting, under]
    split <;> omega

theorem bareNestings_le : ∀ args : List Node, bareNestings args ≤ nestings args
  | [] => Nat.le_refl 0
  | arg :: rest => by
    have := bareNesting_le arg
    have := bareNestings_le rest
    simp only [bareNestings, nestings]
    omega

end

mutual

/-- Any other nesting is less than the depth: each level adds a node with a node below it. -/
theorem nesting_le : ∀ node : Node, node.nesting + 1 ≤ node.depth ∨ node.nesting = node.bareNesting
  | number .. | name .. => .inl (Nat.le_refl 1)
  | unary _ arg _ | group arg _ => by
    have := nesting_le arg
    have := arg.depth_pos
    simp only [nesting, depth, bareNesting, under]
    split <;> omega
  | factorial arg _ => by
    have := nesting_le arg
    simp only [nesting, depth, bareNesting]
    omega
  | binary op left right _ _ => by
    have := nesting_le left
    have := nesting_le right
    have := bareNesting_le left
    have := bareNesting_le right
    have := left.depth_pos
    have := right.depth_pos
    cases op <;> simp only [nesting, depth, bareNesting, under] <;> try split
    all_goals omega
  | call _ [] _ _ => .inr (by simp [nesting, bareNesting, nestings])
  | call _ (arg :: rest) _ _ => by
    have := nestings_le (arg :: rest) (List.cons_ne_nil _ _)
    have : 0 < depths (arg :: rest) := Nat.lt_of_lt_of_le arg.depth_pos (by simp only [depths]; omega)
    simp only [nesting, depth, bareNesting, under]
    split <;> omega

theorem nestings_le : ∀ args : List Node, args ≠ [] →
    nestings args + 1 ≤ depths args ∨ nestings args = bareNestings args
  | [], filled => absurd rfl filled
  | [arg], _ => by
    have := nesting_le arg
    simp only [nestings, depths, bareNestings]
    omega
  | arg :: next :: rest, _ => by
    have := nesting_le arg
    have := nestings_le (next :: rest) (List.cons_ne_nil _ _)
    have := bareNesting_le arg
    have := bareNestings_le (next :: rest)
    simp only [nestings, depths, bareNestings] at *
    omega

end

end Node

theorem Node.nesting_lt {limit : Nat} (deep : node.depth ≤ limit) : node.nesting < limit ↔ node.bareNesting < limit := by
  have := node.nesting_le
  have := node.bareNesting_le
  omega

/-- The parser accepts the trees of the grammar within the budgets, and no others. -/
structure ParsesGrammar (source : Text) (options : ParseOptions) : Prop where
  accepts : ∀ node, (∃ warnings, parseText source options = .ok ⟨source, node, warnings⟩) ↔ InGrammar source options node
  unique : ∀ {tokens node other}, Lexed source options tokens → Derives options false .sum tokens node →
    Derives options false .sum tokens other → node = other
  spans : ∀ {expression}, parseText source options = .ok expression → Stands 0 source.length expression.root
  ends : parseText source options ≠ .error .fuel
  withinBudget : ∀ {node}, InGrammar source options node →
    ∀ budget limit actual, parseText source options ≠ .error (.overBudget budget limit actual)

theorem parseText_spans {expression : Expression} (ran : parseText source options = .ok expression) :
    Stands 0 source.length expression.root := by
  obtain ⟨tokens, lexed, derived, _, _⟩ := parseText_ok.mp ran
  exact derived.stands (tokenize_placed lexed.2)

theorem InGrammar.parses (tree : InGrammar source options node) (bare : node.bareNesting < options.limits.depth) :
    parseText source options = .ok ⟨source, node, node.warnings ⟨source, options⟩⟩ := by
  obtain ⟨tokens, lexed, derived, deep, nodes⟩ := tree
  refine parseText_ok.mpr ⟨tokens, lexed, derived, ⟨?_, deep, ?_⟩, rfl⟩
  · rw [Progress.start, Nat.zero_add]
    exact nodes
  · rw [Progress.start, Nat.zero_add]
    exact (Node.nesting_lt deep).mpr bare

/-- The parser meets its grammar unless calls without arguments stand as deep as the depth budget. -/
theorem parsesGrammar_iff :
    ParsesGrammar source options ↔ ∀ node, InGrammar source options node → node.bareNesting < options.limits.depth := by
  constructor
  · intro parses node tree
    obtain ⟨warnings, ran⟩ := (parses.accepts node).mpr tree
    obtain ⟨tokens, _, _, fits, _⟩ := parseText_ok.mp ran
    have nested := fits.nest
    rw [Progress.start, Nat.zero_add] at nested
    exact Nat.lt_of_le_of_lt node.bareNesting_le nested
  · intro bare
    refine ⟨fun node => ⟨?_, ?_⟩, fun _ derived derived' => derived.unique derived', parseText_spans, parseText_ends, ?_⟩
    · rintro ⟨warnings, ran⟩
      obtain ⟨tokens, lexed, derived, fits, _⟩ := parseText_ok.mp ran
      have nodes := fits.nodes
      rw [Progress.start, Nat.zero_add] at nodes
      exact ⟨tokens, lexed, derived, fits.depth, nodes⟩
    · intro tree
      exact ⟨_, tree.parses (bare node tree)⟩
    · intro node tree budget limit actual refused
      rw [tree.parses (bare node tree)] at refused
      cases refused

def diceLanguage : Language where
  functionSpec name := if name = text "rand" then some ⟨0, 0, Nat.le_refl 0⟩ else none
  constantSpec _ := false
  functionNames := [text "rand"]
  functionsNamed name spec found := by
    split at found
    next same =>
      rw [same]
      decide
    · cases found
  constantsNamed _ found := by cases found

def diceOptions : ParseOptions := ⟨diceLanguage, .canonical, ⟨10, 10, 1, 10, by decide⟩, []⟩

def stopOf {Answer : Type} : Except Stop Answer → Option Stop
  | .error stop => some stop
  | .ok _ => none

theorem stopOf_error {Answer : Type} {ran : Except Stop Answer} {stop : Stop} (stopped : stopOf ran = some stop) :
    ran = .error stop := by
  cases ran with
  | error other =>
    cases stopped
    rfl
  | ok _ => cases stopped

/-- `rand()` is one node, yet a depth budget of one refuses it. -/
theorem rand_overBudget : ¬ ParsesGrammar (text "rand()") diceOptions := by
  intro parses
  have tree : InGrammar (text "rand()") diceOptions (.call (text "rand") [] .call ⟨0, 6⟩) :=
    ⟨[⟨.name, 0, 4, text "rand"⟩, ⟨.open_, 4, 5, [40]⟩, ⟨.close, 5, 6, [41]⟩], ⟨by decide, rfl⟩,
      .product (.unary (.power (.postfixed (.primary (.empty rfl rfl rfl rfl rfl))))), by decide, by decide⟩
  exact parses.withinBudget tree .depth 1 2 (stopOf_error (by decide +kernel))

end Arki.Expr
