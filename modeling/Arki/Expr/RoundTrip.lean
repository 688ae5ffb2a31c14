import Arki.Library.Run
import Arki.Expr.Exact
import Arki.Expr.ReadBack
import Mathlib

/-! Printing and parsing. A printed tree parses to itself, but for what the style normalises. -/

set_option autoImplicit false

namespace Arki.Expr

variable {printer : Printer} {options : ParseOptions} {inBar : Bool} {tokens : List Token} {node back : Node}

def Spelled (token : Token) : Prop :=
  (token.kind = .number → isNumberLiteral token.text = true) ∧ (token.kind = .name → isName token.text = true)

theorem nextToken_spelled {syntax_ : Syntax} {index code : Nat} {rest : Text} {token : Token}
    (read : nextToken syntax_ index code (code :: rest) = .ok token) : Spelled token := by
  simp only [nextToken] at read
  split at read
  next starts =>
    split at read
    · cases read
    next length scanned =>
      cases read
      exact ⟨fun _ => replaceMark_literal starts scanned, by rintro ⟨⟩⟩
  split at read
  next letter =>
    cases read
    refine ⟨by rintro ⟨⟩, fun _ => ?_⟩
    rw [List.takeWhile_cons_of_pos (by simp [isWordChar, letter]), isName, letter, Bool.true_and, List.all_eq_true]
    exact fun _ member => List.mem_takeWhile_imp member
  split at read
  · cases read
    have pi : isName (text "pi") = true := by decide
    exact ⟨by rintro ⟨⟩, fun _ => pi⟩
  split at read
  · cases read
    exact ⟨by rintro ⟨⟩, by rintro ⟨⟩⟩
  split at read
  next kind found =>
    cases read
    have other : kind ≠ .number ∧ kind ≠ .name := by
      simp only [single] at found
      split at found <;> first | (cases found; done) | (cases found; simp)
    exact ⟨fun same => absurd same other.1, fun same => absurd same other.2⟩
  · cases read

theorem Lexed.spelled {source : Text} (lexed : Lexed source options tokens) : ∀ token ∈ tokens, Spelled token :=
  tokenizeFrom_each nextToken_spelled lexed.2

theorem TakesOne.accepted {fn : Text} {written : CallNotation} (one : TakesOne options fn)
    (bars : written = .bars → fn = text "abs") (radical : written = .radical → fn = text "sqrt") :
    callAccepted options.language fn 1 written = true := by
  obtain ⟨spec, found, few, many⟩ := one
  exact callAccepted_iff.mpr ⟨⟨spec, found, few, many⟩, fun form => ⟨bars form, rfl⟩, fun form => ⟨radical form, rfl⟩⟩

mutual

theorem Derives.accepted : ∀ {inBar : Bool} {level : Level} {tokens : List Token} {node : Node},
    Derives options inBar level tokens node → (∀ token ∈ tokens, Spelled token) →
    Arki.Expr.accepted options.language node = true
  | _, _, _, _, .product derived, spelled | _, _, _, _, .unary derived, spelled | _, _, _, _, .power derived, spelled
  | _, _, _, _, .postfixed derived, spelled | _, _, _, _, .primary derived, spelled => derived.accepted spelled
  | _, _, _, _, .sum left _ right, spelled | _, _, _, _, .times left _ right, spelled
  | _, _, _, _, .raised left _ right, spelled => by
    have ahead := left.accepted fun token member => spelled token (List.mem_append_left _ member)
    have behind := right.accepted fun token member => spelled token (List.mem_append_right _ (.tail _ member))
    simp [Arki.Expr.accepted, ahead, behind]
  | _, _, _, _, .juxtaposed left right _ _ _, spelled => by
    have ahead := left.accepted fun token member => spelled token (List.mem_append_left _ member)
    have behind := right.accepted fun token member => spelled token (List.mem_append_right _ member)
    simp [Arki.Expr.accepted, ahead, behind]
  | _, _, _, _, .signed _ arg, spelled => by
    rw [Arki.Expr.accepted]
    exact arg.accepted fun token member => spelled token (.tail _ member)
  | _, _, _, _, .factorial arg _, spelled => by
    rw [Arki.Expr.accepted]
    exact arg.accepted fun token member => spelled token (List.mem_append_left _ member)
  | _, _, _, _, .number kind, spelled => (spelled _ List.mem_cons_self).1 kind
  | _, _, _, _, .name kind plain, spelled => by
    simp [Arki.Expr.accepted, plain, (spelled _ List.mem_cons_self).2 kind]
  | _, _, _, _, .group _ inner _, spelled => by
    rw [Arki.Expr.accepted]
    exact inner.accepted fun token member => spelled token (.tail _ (List.mem_append_left _ member))
  | _, _, _, _, .bars one _ inner _, spelled => by
    have valid := inner.accepted fun token member => spelled token (.tail _ (List.mem_append_left _ member))
    have call : callAccepted options.language (text "abs") 1 .bars = true := one.accepted (fun _ => rfl) (by rintro ⟨⟩)
    simp [Arki.Expr.accepted, allAccepted, valid, call]
  | _, _, _, _, .radical one _ arg, spelled => by
    have valid := arg.accepted fun token member => spelled token (.tail _ member)
    have call : callAccepted options.language (text "sqrt") 1 .radical = true := one.accepted (by rintro ⟨⟩) (fun _ => rfl)
    simp [Arki.Expr.accepted, allAccepted, valid, call]
  | _, _, _, _, .empty _ found _ _ least, _ => by
    rw [Arki.Expr.accepted, Bool.and_eq_true]
    exact ⟨callAccepted_iff.mpr ⟨⟨_, found, by rw [least]; exact Nat.le_refl 0, Nat.zero_le _⟩, by rintro ⟨⟩, by rintro ⟨⟩⟩, rfl⟩
  | _, _, _, _, .call _ found _ args _ few many, spelled => by
    rw [Arki.Expr.accepted, Bool.and_eq_true]
    exact ⟨callAccepted_iff.mpr ⟨⟨_, found, few, many⟩, by rintro ⟨⟩, by rintro ⟨⟩⟩,
      args.accepted fun token member => spelled token (.tail _ (.tail _ (List.mem_append_left _ member)))⟩

theorem Arguments.accepted : ∀ {tokens : List Token} {args : List Node}, Arguments options tokens args →
    (∀ token ∈ tokens, Spelled token) → allAccepted options.language args = true
  | _, _, .last arg, spelled => by
    rw [allAccepted, arg.accepted spelled]
    rfl
  | _, _, .more arg _ rest, spelled => by
    rw [allAccepted, arg.accepted fun token member => spelled token (List.mem_append_left _ member),
      rest.accepted fun token member => spelled token (List.mem_append_right _ (.tail _ member))]
    rfl

end

mutual

def Plain : Bool → Node → Prop
  | _, .number .. | _, .name .. => True
  | inBar, .unary _ arg _ => Level.unary.rank ≤ (level arg).rank ∧ Plain inBar arg
  | inBar, .factorial arg _ => Level.postfixed.rank ≤ (level arg).rank ∧ Plain inBar arg
  | _, .group inner _ => Plain false inner
  | inBar, .binary op left right implicit _ =>
    (Printer.leftLevel op).rank ≤ (level left).rank ∧ (Printer.rightLevel op).rank ≤ (level right).rank ∧
      (implicit = true → juxtaposable inBar right = true) ∧ Plain inBar left ∧ Plain inBar right
  | _, .call _ [only] .bars _ => Plain true only
  | inBar, .call _ [only] .radical _ => Level.primary.rank ≤ (level only).rank ∧ Plain inBar only
  | _, .call _ args _ _ => AllPlain args

def AllPlain : List Node → Prop
  | [] => True
  | arg :: rest => Plain false arg ∧ AllPlain rest

end

theorem sumOperator_levels {op : BinaryOperator} {kind : TokenKind} (found : Parser.sumOperator kind = some op) :
    Printer.leftLevel op = .sum ∧ Printer.rightLevel op = .product := by
  cases kind <;> simp only [Parser.sumOperator, Option.some.injEq, reduceCtorEq] at found <;> subst found <;> exact ⟨rfl, rfl⟩

theorem productOperator_levels {op : BinaryOperator} {kind : TokenKind} (found : Parser.productOperator kind = some op) :
    Printer.leftLevel op = .product ∧ Printer.rightLevel op = .unary ∧
      ∀ left right implicit span, level (.binary op left right implicit span) = .product := by
  cases kind <;> simp only [Parser.productOperator, Option.some.injEq, reduceCtorEq] at found <;> subst found <;>
    exact ⟨rfl, rfl, fun _ _ _ _ => rfl⟩

theorem plain_call {fn : Text} {args : List Node} {span : Span} : Plain inBar (.call fn args .call span) ↔ AllPlain args := by
  match args with
  | [] | [_] | _ :: _ :: _ => exact Iff.rfl

abbrev Heads (tokens : List Token) (node : Node) : Prop :=
  ∃ first lead, tokens.head? = some first ∧ leadingPrimary node = some lead ∧
    (lead.isNumber = true → first.kind = .number) ∧ (opensBar node = true → first.kind = .bar)

theorem Derives.leading {inBar : Bool} {level : Level} {tokens : List Token} {node : Node}
    (derived : Derives options inBar level tokens node) : Level.power.rank ≤ level.rank → Heads tokens node := by
  refine @Derives.rec options (fun _ level tokens node _ => Level.power.rank ≤ level.rank → Heads tokens node)
    (fun _ _ _ => True) ?_ ?_ ?_ ?_ ?_ ?_ ?_ ?_ ?_ ?_ ?_ ?_ ?_ ?_ ?_ ?_ ?_ ?_ ?_ ?_ _ _ _ _ derived
  iterate 7
    · intros
      exact absurd ‹Level.power.rank ≤ _› (by decide)
  · exact fun _ ih _ => ih (by decide)
  · refine fun _ _ _ ih _ _ => ?_
    obtain ⟨first, lead, head, found, number, bars⟩ := ih (by decide)
    refine ⟨first, lead, by rw [List.head?_append, head]; rfl, found, number, fun opens => bars ?_⟩
    rw [opensBar, Bool.and_eq_true] at opens
    exact opens.2
  · exact fun _ ih _ => ih (by decide)
  · refine fun _ _ ih _ => ?_
    obtain ⟨first, lead, head, found, number, bars⟩ := ih (by decide)
    refine ⟨first, lead, by rw [List.head?_append, head]; rfl, found, number, fun opens => bars ?_⟩
    rw [opensBar, Bool.and_eq_true] at opens
    exact opens.2
  · exact fun kind _ => ⟨_, _, rfl, rfl, fun _ => kind, by rintro ⟨⟩⟩
  iterate 2
    · intros
      exact ⟨_, _, rfl, rfl, by rintro ⟨⟩, by rintro ⟨⟩⟩
  · exact fun _ kind _ _ _ _ => ⟨_, _, rfl, rfl, by rintro ⟨⟩, fun _ => kind⟩
  iterate 3
    · intros
      exact ⟨_, _, rfl, rfl, by rintro ⟨⟩, by rintro ⟨⟩⟩
  iterate 2
    · intros
      trivial

theorem Derives.juxtaposable {first : Token} (derived : Derives options inBar .power tokens node)
    (head : tokens.head? = some first) (starts : Parser.startsImplicitOperand first.kind (contextsOf inBar) = true) :
    Arki.Expr.juxtaposable inBar node = true := by
  obtain ⟨first', lead, head', found, number, bars⟩ := derived.leading (Nat.le_refl _)
  cases head.symm.trans head'
  refine juxtaposable_iff.mpr ⟨⟨lead, found, ?_⟩, ?_⟩
  · by_contra isNumber
    rw [number (by simpa using isNumber)] at starts
    cases starts
  · rintro ⟨opens, rfl⟩
    rw [bars opens] at starts
    cases starts

mutual

theorem Derives.plain : ∀ {inBar : Bool} {level : Level} {tokens : List Token} {node : Node},
    Derives options inBar level tokens node → level.rank ≤ (Arki.Expr.level node).rank ∧ Plain inBar node
  | _, _, _, _, .product derived | _, _, _, _, .unary derived | _, _, _, _, .power derived
  | _, _, _, _, .postfixed derived | _, _, _, _, .primary derived => by
    obtain ⟨high, plain⟩ := derived.plain
    exact ⟨Nat.le_trans (by simp [Level.rank]) high, plain⟩
  | _, _, _, _, .sum left found right => by
    obtain ⟨first, ahead⟩ := left.plain
    obtain ⟨second, behind⟩ := right.plain
    obtain ⟨same, same'⟩ := sumOperator_levels found
    rw [Plain, same, same']
    refine ⟨?_, first, second, by rintro ⟨⟩, ahead, behind⟩
    cases level (.binary _ _ _ _ _) <;> simp [Level.rank]
  | _, _, _, _, .times left found right => by
    obtain ⟨first, ahead⟩ := left.plain
    obtain ⟨second, behind⟩ := right.plain
    obtain ⟨same, same', product⟩ := productOperator_levels found
    rw [Plain, same, same', product]
    exact ⟨Nat.le_refl _, first, second, by rintro ⟨⟩, ahead, behind⟩
  | _, _, _, _, .juxtaposed left right head starts _ => by
    obtain ⟨first, ahead⟩ := left.plain
    obtain ⟨second, behind⟩ := right.plain
    exact ⟨by simp [level, Level.rank], first, Nat.le_trans (by simp [Printer.rightLevel, Level.rank]) second,
      fun _ => right.juxtaposable head starts, ahead, behind⟩
  | _, _, _, _, .signed _ arg => ⟨Nat.le_refl _, arg.plain⟩
  | _, _, _, _, .raised base _ exponent => by
    obtain ⟨first, ahead⟩ := base.plain
    obtain ⟨second, behind⟩ := exponent.plain
    exact ⟨Nat.le_refl _, first, second, by rintro ⟨⟩, ahead, behind⟩
  | _, _, _, _, .factorial arg _ => ⟨Nat.le_refl _, arg.plain⟩
  | _, _, _, _, .number _ | _, _, _, _, .name _ _ => ⟨Nat.le_refl _, trivial⟩
  | _, _, _, _, .group _ inner _ => ⟨Nat.le_refl _, inner.plain.2⟩
  | _, _, _, _, .bars _ _ inner _ => ⟨Nat.le_refl _, inner.plain.2⟩
  | _, _, _, _, .radical _ _ arg => ⟨Nat.le_refl _, arg.plain⟩
  | _, _, _, _, .empty _ _ _ _ _ => ⟨Nat.le_refl _, trivial⟩
  | _, _, _, _, .call _ _ _ args _ _ _ => ⟨Nat.le_refl _, plain_call.mpr args.plain⟩

theorem Arguments.plain : ∀ {tokens : List Token} {args : List Node}, Arguments options tokens args → AllPlain args
  | _, _, .last arg => ⟨arg.plain.2, trivial⟩
  | _, _, .more arg _ rest => ⟨arg.plain.2, rest.plain⟩

end

namespace Node

mutual

/-- The tree without its spans and, in the canonical style, without what that style normalises. -/
def normal (display : Bool) : Node → Node
  | number raw _ => number raw ⟨0, 0⟩
  | name spelled _ => name spelled ⟨0, 0⟩
  | unary op arg _ => unary op (arg.normal display) ⟨0, 0⟩
  | binary op left right implicit _ => binary op (left.normal display) (right.normal display) (implicit && display) ⟨0, 0⟩
  | call fn args written _ =>
    call fn (allNormal display args) (if written = .radical ∧ display = false then .call else written) ⟨0, 0⟩
  | factorial arg _ => factorial (arg.normal display) ⟨0, 0⟩
  | group inner _ => group (inner.normal display) ⟨0, 0⟩

def allNormal (display : Bool) : List Node → List Node
  | [] => []
  | arg :: rest => arg.normal display :: allNormal display rest

end

end Node

theorem AlikeOperand.high {min : Level} {alike : Bool → Node → Prop} (operand : AlikeOperand node min inBar alike back)
    (high : min.rank ≤ (level node).rank) : alike inBar back := by
  rwa [AlikeOperand, if_pos high] at operand

mutual

theorem Alike.normal : ∀ (node : Node) (inBar inBar' : Bool) (back : Node), Plain inBar node →
    (printer.display = true → inBar' = inBar) → Alike printer node inBar' back →
    back.normal printer.display = node.normal printer.display
  | .number .., _, _, _, _, _, ⟨_, same⟩ | .name .., _, _, _, _, _, ⟨_, same⟩ => by
    rw [same]
    rfl
  | .unary _ arg _, _, _, _, plain, within, ⟨_, _, same, operand⟩
  | .factorial arg _, _, _, _, plain, within, ⟨_, _, same, operand⟩ => by
    rw [same, Node.normal, Node.normal, Alike.normal arg _ _ _ plain.2 within (operand.high plain.1)]
  | .group inner _, _, _, _, plain, _, ⟨_, _, same, alike⟩ => by
    rw [same, Node.normal, Node.normal, Alike.normal inner _ _ _ plain (fun _ => rfl) alike]
  | .binary op left right implicit _, inBar, inBar', _, ⟨first, second, typed, ahead, behind⟩, within,
      ⟨_, _, _, same, left', right'⟩ => by
    have flag : ((implicit && (printer.display && juxtaposable inBar' right)) && printer.display) =
        (implicit && printer.display) := by
      cases display : printer.display with
      | false => simp
      | true =>
        cases implicit with
        | false => rfl
        | true => simp [within display, typed rfl]
    rw [same, Node.normal, Node.normal, flag, Alike.normal left _ _ _ ahead within (left'.high first),
      Alike.normal right _ _ _ behind within (right'.high second)]
  | .call fn [only] .bars _, _, _, _, plain, _, ⟨_, _, same, alike⟩ => by
    rw [same]
    simp only [Node.normal, Node.allNormal]
    rw [Alike.normal only _ _ _ plain (fun _ => rfl) alike]
  | .call fn [only] .radical _, _, _, _, plain, within, alike => by
    simp only [Alike] at alike
    split at alike
    next display =>
      obtain ⟨_, _, rfl, operand⟩ := alike
      simp only [Node.normal, Node.allNormal]
      rw [Alike.normal only _ _ _ plain.2 within (operand.high plain.1)]
    next display =>
      obtain ⟨_, _, rfl, alike⟩ := alike
      simp only [Node.normal, Node.allNormal]
      rw [Alike.normal only _ _ _ plain.2 (fun isDisplay => absurd isDisplay display) alike]
      simp [display]
  | .call fn [] written _, _, _, _, plain, _, alike => by
    simp only [Alike] at alike
    obtain ⟨_, _, rfl, all⟩ := alike
    rw [Node.normal, Node.normal, AllAlike.normal [] _ trivial all]
  | .call fn [only] .call _, _, _, _, plain, _, alike => by
    simp only [Alike] at alike
    obtain ⟨_, _, rfl, all⟩ := alike
    rw [Node.normal, Node.normal, AllAlike.normal [only] _ (plain_call.mp plain) all]
  | .call fn (first :: second :: rest) written _, _, _, _, plain, _, alike => by
    simp only [Alike] at alike
    simp only [Plain] at plain
    obtain ⟨_, _, rfl, all⟩ := alike
    rw [Node.normal, Node.normal, AllAlike.normal (first :: second :: rest) _ plain all]

theorem AllAlike.normal : ∀ (args backs : List Node), AllPlain args → AllAlike printer args backs →
    Node.allNormal printer.display backs = Node.allNormal printer.display args
  | [], _, _, same => by
    rw [AllAlike] at same
    rw [same]
  | first :: rest, _, plain, ⟨_, _, same, alike, all⟩ => by
    rw [same, Node.allNormal, Node.allNormal, Alike.normal first _ _ _ plain.1 (fun _ => rfl) alike,
      AllAlike.normal rest _ plain.2 all]

end

theorem place_length {syntax_ : Syntax} {pieces : List Piece} (apart : Apart syntax_ pieces) :
    ∀ index, (place syntax_ index pieces).length ≤ (charsOf syntax_ pieces).length := by
  induction pieces with
  | nil => exact fun _ => Nat.le_refl 0
  | cons piece rest ih =>
    intro index
    obtain ⟨code, others, shape⟩ := Piece.chars_filled syntax_ apart.1
    have behind := ih apart.2.2 (index + (piece.chars syntax_).length)
    have few : (piece.token syntax_ index).toList.length ≤ 1 := by
      cases piece.token syntax_ index <;> simp
    have filled : 0 < (piece.chars syntax_).length := by simp [shape]
    simp only [place, charsOf, List.flatMap_cons, List.length_append] at behind ⊢
    omega

/-- The tokens of a text: none when it has an error. A text has at most one for each character. -/
def tokenCount (source : Text) (syntax_ : Syntax) : Nat :=
  match tokenize source syntax_ source.length with
  | .ok tokens => tokens.length
  | .error _ => 0

/-- A text and the tree that it stands for are inside the limits. Brackets without a node inside
count as nested. -/
structure Within (options : ParseOptions) (source : Text) (node : Node) : Prop where
  length : source.length ≤ options.limits.length
  tokens : tokenCount source options.syntax_ ≤ options.limits.tokens
  depth : node.depth ≤ options.limits.depth
  bare : node.bareNesting < options.limits.depth
  nodes : node.size ≤ options.limits.nodes

theorem Apart.lexed {pieces : List Piece} (apart : Apart options.syntax_ pieces)
    (within : Within options (charsOf options.syntax_ pieces) node) :
    Lexed (charsOf options.syntax_ pieces) options (place options.syntax_ 0 pieces) := by
  have few := place_length apart 0
  have free : tokenize (charsOf options.syntax_ pieces) options.syntax_ (charsOf options.syntax_ pieces).length = .ok _ :=
    tokenizeFrom_pieces apart (by rwa [Nat.zero_add])
  have count := within.tokens
  rw [tokenCount, free] at count
  exact ⟨within.length, tokenizeFrom_pieces apart (by rwa [Nat.zero_add])⟩

def Parsed (language : Language) (node : Node) : Prop :=
  ∃ source origin expression, origin.language = language ∧ parseText source origin = .ok expression ∧ expression.root = node

theorem Parsed.accepted {language : Language} (parsed : Parsed language node) : Arki.Expr.accepted language node = true := by
  obtain ⟨source, origin, expression, rfl, ran, rfl⟩ := parsed
  obtain ⟨tokens, lexed, derived, _⟩ := parseText_ok.mp ran
  exact derived.accepted lexed.spelled

theorem Parsed.plain {language : Language} (parsed : Parsed language node) : Plain false node := by
  obtain ⟨source, origin, expression, rfl, ran, rfl⟩ := parsed
  obtain ⟨tokens, lexed, derived, _⟩ := parseText_ok.mp ran
  exact derived.plain.2

/-- A printed tree is parsed as itself, but for what the printer normalises. A tree from the parser
gets no group, and keeps its implicit products in the display style. -/
theorem print_parse {out : Text} (same : printer.syntax_ = options.syntax_)
    (made : Parsed options.language node ∨ accepted options.language node = true)
    (values : printer.display = true → ∀ name ∈ node.names, options.isValue name = true)
    (ran : print printer node = .ok out) :
    ∃ back, Alike printer node false back ∧
      (Parsed options.language node → back.normal printer.display = node.normal printer.display) ∧
      (Within options out back → ∃ warnings, parseText out options = .ok ⟨out, back, warnings⟩) := by
  have valid : accepted options.language node = true := made.elim Parsed.accepted id
  obtain ⟨back, derived, alike⟩ := pieces_readBack printer node false valid values 0
  refine ⟨back, alike, ?_, ?_⟩
  · intro parsed
    exact Alike.normal node false false back parsed.plain (fun _ => rfl) alike
  · intro within
    have apart : Apart printer.syntax_ (printer.pieces node false) := pieces_apart node false valid
    obtain rfl := Printer.print_pieces node ran
    rw [same] at apart within derived ⊢
    exact ⟨_, InGrammar.parses ⟨_, apart.lexed within, derived.toSum, within.depth, within.nodes⟩ within.bare⟩

def factorialOptions : ParseOptions := ⟨diceLanguage, .decimalComma, ⟨20, 20, 10, 20, by decide⟩, [text "x"]⟩

/-- `1,5 x (x + 1)!` comes from the parser, and its display has no space before `x`. -/
theorem print_parse_factorial :
    ∃ node, print ⟨true, .decimalComma, 10⟩ node = .ok (text "1,5x(x + 1)!") ∧
      ∃ back, Alike ⟨true, .decimalComma, 10⟩ node false back ∧ back.normal true = node.normal true ∧
        (Within factorialOptions (text "1,5x(x + 1)!") back → ∃ warnings,
          parseText (text "1,5x(x + 1)!") factorialOptions = .ok ⟨text "1,5x(x + 1)!", back, warnings⟩) := by
  obtain ⟨expression, parsed, printed⟩ := Option.map_eq_some_iff.mp
    (by decide +kernel :
      ((parseText (text "1,5 x (x + 1)!") factorialOptions).toOption.map fun expression =>
        ((print ⟨true, .decimalComma, 10⟩ expression.root).toOption,
          expression.root.names.all factorialOptions.isValue)) = some (some (text "1,5x(x + 1)!"), true))
  have made : Parsed factorialOptions.language expression.root := ⟨_, _, expression, rfl, Run.ok_of_toOption parsed, rfl⟩
  rw [Prod.mk.injEq] at printed
  obtain ⟨back, alike, plain, reads⟩ :=
    @print_parse ⟨true, .decimalComma, 10⟩ factorialOptions expression.root _ rfl (.inl made)
      (fun _ => List.all_eq_true.mp printed.2) (Run.ok_of_toOption printed.1)
  exact ⟨expression.root, Run.ok_of_toOption printed.1, back, alike, plain made, reads⟩

namespace Node

mutual

def implicitProducts : Node → Nat
  | number .. | name .. => 0
  | unary _ arg _ | factorial arg _ | group arg _ => arg.implicitProducts
  | binary _ left right implicit _ => left.implicitProducts + right.implicitProducts + implicit.toNat
  | call _ args _ _ => allImplicitProducts args

def allImplicitProducts : List Node → Nat
  | [] => 0
  | arg :: rest => arg.implicitProducts + allImplicitProducts rest

end

end Node

/-- `x2` is one name, so the display style gives the implicit product of `x` and `2` a sign. -/
theorem product_signed :
    ¬ ∀ (printer : Printer) (options : ParseOptions) (node : Node) (out : Text) (expression : Expression),
      printer.display = true → printer.syntax_ = options.syntax_ → accepted options.language node = true →
      (∀ name ∈ node.names, options.isValue name = true) → print printer node = .ok out →
      parseText out options = .ok expression → expression.root.implicitProducts = node.implicitProducts := by
  intro same
  let product : Node := .binary .multiply (.name (text "x") ⟨0, 1⟩) (.number (text "2") ⟨1, 2⟩) true ⟨0, 2⟩
  obtain ⟨expression, parsed, none⟩ := Option.map_eq_some_iff.mp
    (by decide +kernel :
      ((parseText (text "x · 2") factorialOptions).toOption.map fun expression => expression.root.implicitProducts) = some 0)
  have printed : (print ⟨true, .decimalComma, 10⟩ product).toOption = some (text "x · 2") := by decide +kernel
  have kept := same ⟨true, .decimalComma, 10⟩ factorialOptions product _ expression rfl rfl (by decide +kernel)
    (by decide +kernel) (Run.ok_of_toOption printed) (Run.ok_of_toOption parsed)
  rw [none] at kept
  cases kept

end Arki.Expr
