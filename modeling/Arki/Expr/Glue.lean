import Arki.Expr.Printed

/-! What is printed next to what. Each piece of a printed tree may stand before the next one. -/

set_option autoImplicit false

namespace Arki.Expr

variable {printer : Printer} {syntax_ : Syntax} {before after parts : List Piece} {piece : Piece}

def Loose (syntax_ : Syntax) (next : Option Nat) : Prop :=
  ∀ code ∈ next, isWordChar code = false ∧ code ≠ syntax_.decimal

theorem Loose.allows {next : Option Nat} (loose : Loose syntax_ next) : piece.Before syntax_ next := by
  cases piece with
  | number raw =>
    intro code head
    obtain ⟨word, decimal⟩ := loose code head
    have plain : isDigit code = false ∧ code ≠ 101 ∧ code ≠ 69 := by
      simp only [isWordChar, isLetter, isDigit, Bool.or_eq_false_iff, Bool.and_eq_false_imp, decide_eq_false_iff_not,
        beq_eq_false_iff_ne] at word ⊢
      omega
    exact ⟨plain.1, decimal, plain.2⟩
  | word name => exact fun code head => (loose code head).1
  | _ => trivial

theorem Apart.before_loose (ahead : Apart syntax_ before) (behind : Apart syntax_ after)
    (loose : Loose syntax_ (charsOf syntax_ after).head?) : Apart syntax_ (before ++ after) :=
  ahead.append behind fun _ _ => loose.allows

theorem loose_space : Loose syntax_ (some 32) := by
  cases syntax_ <;> rintro _ ⟨⟩ <;> decide

theorem loose_mark {code : Nat} (mark : code = 40 ∨ code = 41 ∨ code = 124 ∨ code = 33 ∨ code = 94 ∨ code = 8730 ∨ code = 960) :
    Loose syntax_ (some code) := by
  rintro _ ⟨⟩
  obtain rfl | rfl | rfl | rfl | rfl | rfl | rfl := mark <;> cases syntax_ <;> decide

theorem loose_separator : Loose syntax_ (some syntax_.separator) := by
  cases syntax_ <;> rintro _ ⟨⟩ <;> decide

theorem apart_mark {kind : TokenKind} {code : Nat} (found : single code = some kind) (rest : Apart syntax_ after) :
    Apart syntax_ (.mark kind code :: after) :=
  ⟨found, trivial, rest⟩

theorem apart_space (rest : Apart syntax_ after) : Apart syntax_ (.space :: after) := ⟨trivial, trivial, rest⟩

theorem apart_grouped (inner : Apart syntax_ parts) : Apart syntax_ (grouped parts) :=
  apart_mark rfl (inner.before_loose (apart_mark rfl trivial) (loose_mark (by simp)))

theorem apart_joined : ∀ {all : List (List Piece)}, (∀ parts ∈ all, Apart syntax_ parts) → Apart syntax_ (joined all)
  | [], _ => trivial
  | [_], each => each _ List.mem_cons_self
  | parts :: next :: rest, each => by
    have behind : Apart syntax_ (joined (next :: rest)) := apart_joined fun others member => each others (.tail _ member)
    exact (each parts List.mem_cons_self).before_loose ⟨trivial, trivial, apart_space behind⟩ loose_separator

theorem operandPieces_apart {node : Node} {min : Level} {inBar : Bool} {parts : Bool → List Piece}
    (each : ∀ inBar, Apart syntax_ (parts inBar)) :
    Apart syntax_ (Printer.operandPieces node min inBar parts) := by
  rw [Printer.operandPieces]
  split
  · exact each inBar
  · exact apart_grouped (each false)

theorem operatorPieces_apart {op : BinaryOperator} (behind : Apart syntax_ after) :
    Apart syntax_ (printer.operatorPieces op ++ after) := by
  cases op with
  | add => exact apart_space (apart_mark rfl (apart_space behind))
  | divide => exact apart_space (apart_mark rfl (apart_space behind))
  | power => exact apart_mark rfl behind
  | _ =>
    simp only [Printer.operatorPieces]
    split <;> exact apart_space (apart_mark rfl (apart_space behind))

theorem operatorPieces_loose (op : BinaryOperator) :
    Loose syntax_ (charsOf syntax_ (printer.operatorPieces op ++ after)).head? := by
  cases op with
  | power => exact loose_mark (by simp)
  | _ => exact loose_space

def Piece.named : Piece → Option Text
  | .word name => some name
  | .pi => some (text "pi")
  | _ => none

theorem grouped_filled : grouped parts ≠ [] := List.cons_ne_nil _ _

theorem grouped_last {name : Text} (last : piece ∈ (grouped parts).getLast?) : piece.named ≠ some name := by
  rw [grouped, ← List.cons_append, List.getLast?_concat] at last
  cases last
  rintro ⟨⟩

theorem operandPieces_last {node : Node} {min : Level} {inBar : Bool} {parts : Bool → List Piece} {name : Text}
    (last : piece ∈ (Printer.operandPieces node min inBar parts).getLast?) (named : piece.named = some name) :
    ∃ inBar, piece ∈ (parts inBar).getLast? := by
  rw [Printer.operandPieces] at last
  split at last
  · exact ⟨inBar, last⟩
  · exact absurd named (grouped_last last)

theorem juxtaposePieces_cases {left right : Node} {leftParts rightParts : List Piece} {inBar : Bool}
    (found : printer.juxtaposePieces left leftParts right inBar rightParts = some parts) :
    (∃ lead, leadingPrimary right = some lead ∧ lead.isNumber = false) ∧
      ¬ ((charsOf printer.syntax_ rightParts).head? = some barMark ∧ inBar = true) ∧
      (parts = leftParts ++ .space :: rightParts ∨ parts = leftParts ++ rightParts ∧
        ((charsOf printer.syntax_ leftParts).getLast?.any isWordChar = false ∨
          (charsOf printer.syntax_ rightParts).head?.any isLetter = false ∨
          ((rightmostLeaf left).isNumber = true ∧ (charsOf printer.syntax_ rightParts).head? ≠ some 101 ∧
            (charsOf printer.syntax_ rightParts).head? ≠ some 69))) := by
  simp only [Printer.juxtaposePieces] at found
  split at found
  · cases found
  next lead leads =>
  split at found
  · cases found
  next other =>
  split at found
  · cases found
  next opens =>
  refine ⟨⟨lead, leads, by simpa using other⟩, opens, ?_⟩
  split at found
  next apart =>
    cases found
    exact .inr ⟨rfl, apart.imp_right .inl⟩
  · split at found <;> cases found
    next glued => exact .inr ⟨rfl, .inr (.inr glued)⟩
    · exact .inl rfl

theorem binary_pieces (printer : Printer) (op : BinaryOperator) (left right : Node) (implicit : Bool) (span : Span) (inBar : Bool) :
    (op = .multiply ∧ implicit = true ∧ printer.display = true ∧
      printer.juxtaposePieces left (Printer.operandPieces left (Printer.leftLevel op) inBar (printer.pieces left)) right inBar
        (printer.pieces right inBar) = some (printer.pieces (.binary op left right implicit span) inBar)) ∨
    ((op = .multiply → implicit = true → printer.display = true →
        printer.juxtaposePieces left (Printer.operandPieces left (Printer.leftLevel op) inBar (printer.pieces left)) right
          inBar (printer.pieces right inBar) = none) ∧
      printer.pieces (.binary op left right implicit span) inBar =
        Printer.operandPieces left (Printer.leftLevel op) inBar (printer.pieces left) ++ (printer.operatorPieces op ++
          Printer.operandPieces right (Printer.rightLevel op) inBar (printer.pieces right))) := by
  simp only [Printer.pieces]
  split
  next has =>
    obtain ⟨product, typed, display⟩ := has
    cases found : printer.juxtaposePieces left (Printer.operandPieces left (Printer.leftLevel op) inBar (printer.pieces left))
        right inBar (printer.pieces right inBar) with
    | none => exact .inr ⟨fun _ _ _ => rfl, rfl⟩
    | some parts => exact .inl ⟨product, typed, display, rfl⟩
  next not => exact .inr ⟨fun product typed display => absurd ⟨product, typed, display⟩ not, rfl⟩

theorem call_pieces (printer : Printer) (fn : Text) {args : List Node} (written : CallNotation) (span : Span) (inBar : Bool)
    (other : args.length ≠ 1) :
    printer.pieces (.call fn args written span) inBar = .word fn :: grouped (joined (printer.allPieces args)) := by
  match args, other with
  | [], _ => rfl
  | [_], other => exact absurd rfl other
  | _ :: _ :: _, _ => rfl

theorem operandPieces_filled {node : Node} {min : Level} {inBar : Bool} {parts : Bool → List Piece}
    (each : ∀ inBar, parts inBar ≠ []) : Printer.operandPieces node min inBar parts ≠ [] := by
  rw [Printer.operandPieces]
  split
  · exact each inBar
  · exact List.cons_ne_nil _ _

theorem pieces_filled : ∀ (node : Node) (inBar : Bool), printer.pieces node inBar ≠ []
  | .number .., _ | .name .., _ | .unary .., _ | .group .., _ | .call _ [] _ _, _ | .call _ (_ :: _ :: _) _ _, _ =>
    List.cons_ne_nil _ _
  | .factorial .., _ => List.append_ne_nil_of_right_ne_nil _ (List.cons_ne_nil _ _)
  | .call _ [_] _ _, _ => by
    simp only [Printer.pieces]
    split
    · exact List.cons_ne_nil _ _
    · split <;> exact List.cons_ne_nil _ _
  | .binary op left right implicit _, inBar => by
    obtain ⟨_, _, _, found⟩ | ⟨_, same⟩ := binary_pieces printer op left right implicit _ inBar
    · obtain ⟨_, _, same | ⟨same, _⟩⟩ := juxtaposePieces_cases found
      all_goals
        rw [same]
        exact List.append_ne_nil_of_left_ne_nil (operandPieces_filled (pieces_filled left)) _
    · rw [same]
      exact List.append_ne_nil_of_left_ne_nil (operandPieces_filled (pieces_filled left)) _

theorem getLast?_cons_filled {first : Piece} (filled : after ≠ []) : (first :: after).getLast? = after.getLast? := by
  rw [← List.singleton_append, List.getLast?_append_of_ne_nil _ filled]

theorem pieces_last : ∀ (node : Node) {inBar : Bool} {piece : Piece} {name : Text},
    piece ∈ (printer.pieces node inBar).getLast? → piece.named = some name →
    ∃ span, rightmostLeaf node = .name name span
  | .number .., _, _, _, last, named => by
    cases last
    cases named
  | .name spelled span, _, _, _, last, named => by
    simp only [Printer.pieces] at last
    split at last <;> cases last <;> cases named
    next pi => exact ⟨span, by rw [pi.2]; rfl⟩
    next => exact ⟨span, rfl⟩
  | .unary op arg _, _, _, _, last, named => by
    rw [Printer.pieces, getLast?_cons_filled (operandPieces_filled (pieces_filled arg))] at last
    obtain ⟨_, last⟩ := operandPieces_last last named
    exact pieces_last arg last named
  | .factorial .., _, _, _, last, named => by
    simp only [Printer.pieces, List.getLast?_concat] at last
    cases last
    cases named
  | .group .., _, _, _, last, named => absurd named (grouped_last last)
  | .call fn [only] written _, inBar, _, _, last, named => by
    simp only [Printer.pieces] at last
    split at last
    · rw [← List.cons_append, List.getLast?_concat] at last
      cases last
      cases named
    split at last
    next radical =>
      rw [getLast?_cons_filled (operandPieces_filled (pieces_filled only))] at last
      obtain ⟨_, last⟩ := operandPieces_last last named
      rw [radical.1]
      exact pieces_last only last named
    · rw [getLast?_cons_filled grouped_filled] at last
      exact absurd named (grouped_last last)
  | .call _ [] _ _, _, _, _, last, named | .call _ (_ :: _ :: _) _ _, _, _, _, last, named => by
    rw [call_pieces _ _ _ _ _ (by simp), getLast?_cons_filled grouped_filled] at last
    exact absurd named (grouped_last last)
  | .binary op left right implicit _, inBar, _, _, last, named => by
    obtain ⟨_, _, _, found⟩ | ⟨_, same⟩ := binary_pieces printer op left right implicit _ inBar
    · obtain ⟨_, _, same | ⟨same, _⟩⟩ := juxtaposePieces_cases found
      · rw [same, List.getLast?_append_of_ne_nil _ (List.cons_ne_nil _ _),
          getLast?_cons_filled (pieces_filled right inBar)] at last
        exact pieces_last right last named
      · rw [same, List.getLast?_append_of_ne_nil _ (pieces_filled right inBar)] at last
        exact pieces_last right last named
    · rw [same, ← List.append_assoc, List.getLast?_append_of_ne_nil _ (operandPieces_filled (pieces_filled right))] at last
      obtain ⟨_, last⟩ := operandPieces_last last named
      exact pieces_last right last named

inductive Leads : Piece → Prop where
  | word {name : Text} : Leads (.word name)
  | pi : Leads .pi
  | opening : Leads opening
  | bar : Leads bar
  | radical : Leads (.mark .radical 8730)

def opensBar : Node → Bool
  | .call _ _ .bars _ => true
  | .factorial arg _ => decide (Level.postfixed.rank ≤ (level arg).rank) && opensBar arg
  | .binary .power left _ _ _ => decide (Level.postfixed.rank ≤ (level left).rank) && opensBar left
  | _ => false

theorem operandPieces_leads {node : Node} {bars : Bool} (min : Level) (inBar : Bool)
    (each : ∀ inBar, ∃ first rest, printer.pieces node inBar = first :: rest ∧ Leads first ∧ (first = bar ↔ bars = true)) :
    ∃ first rest, Printer.operandPieces node min inBar (printer.pieces node) = first :: rest ∧ Leads first ∧
      (first = bar ↔ (decide (min.rank ≤ (level node).rank) && bars) = true) := by
  rw [Printer.operandPieces]
  split
  next high =>
    obtain ⟨first, rest, same, leads, bars⟩ := each inBar
    exact ⟨first, rest, same, leads, by simpa [high] using bars⟩
  next low => exact ⟨opening, _, rfl, .opening, by simp [low, opening, bar]⟩

/-- A tree that leads with a primary other than a number is printed with a piece that may lead. -/
theorem pieces_leads {language : Language} (printer : Printer) : ∀ (node : Node) (inBar : Bool) {lead : Node},
    accepted language node = true → leadingPrimary node = some lead → lead.isNumber = false →
    ∃ first rest, printer.pieces node inBar = first :: rest ∧ Leads first ∧ (first = bar ↔ opensBar node = true)
  | .number .., _, _, _, found, other => by
    cases found
    cases other
  | .name .., _, _, _, _, _ => by
    refine ⟨_, _, rfl, ?_, ?_⟩ <;> split <;> first | exact .pi | exact .word | simp [bar, opensBar]
  | .group .., _, _, _, _, _ => ⟨_, _, rfl, .opening, by simp [opening, bar, opensBar]⟩
  | .unary .., _, _, _, found, _ => by cases found
  | .factorial arg _, inBar, _, valid, found, other => by
    obtain ⟨first, rest, same, leads, bars⟩ := operandPieces_leads .postfixed inBar
      fun inBar => pieces_leads printer arg inBar valid found other
    exact ⟨first, rest ++ [.mark .bang 33], by rw [Printer.pieces, same]; rfl, leads, bars⟩
  | .call fn [] .bars _, _, _, valid, _, _ | .call fn [] .radical _, _, _, valid, _, _
  | .call fn (_ :: _ :: _) .bars _, _, _, valid, _, _ | .call fn (_ :: _ :: _) .radical _, _, _, valid, _, _ => by
    simp [accepted, callAccepted] at valid
  | .call fn [only] written span, inBar, _, valid, _, _ => by
    simp only [Printer.pieces]
    split
    next bars => exact ⟨_, _, rfl, .bar, by simp [opensBar, bars.1]⟩
    next call =>
      have other : written ≠ .bars := by
        rintro rfl
        simp only [accepted, callAccepted, Bool.and_eq_true, decide_eq_true_eq] at valid
        exact call ⟨rfl, valid.1.2.1⟩
      have plain : opensBar (.call fn [only] written span) = false := by
        cases written <;> first | rfl | exact absurd rfl other
      rw [plain]
      split
      · exact ⟨_, _, rfl, .radical, by simp [bar, barMark]⟩
      · exact ⟨_, _, rfl, .word, by simp [bar]⟩
  | .call _ [] .call _, _, _, _, _, _ | .call _ (_ :: _ :: _) .call _, _, _, _, _, _ =>
    ⟨_, _, rfl, .word, by simp [bar, opensBar]⟩
  | .binary .power left right implicit _, inBar, _, valid, found, other => by
    simp only [accepted, Bool.and_eq_true] at valid
    obtain ⟨first, rest, same, leads, bars⟩ := operandPieces_leads .postfixed inBar
      fun inBar => pieces_leads printer left inBar valid.1.2 found other
    obtain ⟨product, _⟩ | ⟨_, whole⟩ := binary_pieces printer .power left right implicit _ inBar
    · cases product
    · exact ⟨first, _, by rw [whole, Printer.leftLevel, same]; rfl, leads, bars⟩
  | .binary .add .., _, _, _, found, _ | .binary .subtract .., _, _, _, found, _
  | .binary .multiply .., _, _, _, found, _ | .binary .divide .., _, _, _, found, _ => by cases found

theorem numberText_last (syntax_ : Syntax) {raw : Text} (valid : isNumberLiteral raw = true) :
    ∃ code, (numberText syntax_ raw).getLast? = some code ∧ isDigit code = true := by
  obtain ⟨whole, fraction, exponent, literal, rfl⟩ := isNumberLiteral_iff.mp valid
  rw [literal.numberText]
  obtain ⟨filled, wholeDigits, fractionDigits, shape⟩ := literal
  have digit : ∀ {part : Text}, part ≠ [] → AllDigits part → ∃ code, part.getLast? = some code ∧ isDigit code = true :=
    fun filled all => ⟨_, List.getLast?_eq_some_getLast filled, all _ (List.getLast_mem filled)⟩
  cases shape with
  | some _ _ power all =>
    obtain ⟨code, last, isDigit⟩ := digit power all
    refine ⟨code, ?_, isDigit⟩
    rw [literalText, ← List.cons_append, ← List.append_assoc, ← List.append_assoc, List.getLast?_append_of_ne_nil _ power, last]
  | none =>
    rw [literalText, List.append_nil]
    split
    next empty =>
      rw [List.append_nil]
      exact digit (filled.resolve_right (absurd empty)) wholeDigits
    next some =>
      obtain ⟨code, last, isDigit⟩ := digit some fractionDigits
      refine ⟨code, ?_, isDigit⟩
      rw [List.getLast?_append_of_ne_nil _ (List.cons_ne_nil _ _), ← List.singleton_append,
        List.getLast?_append_of_ne_nil _ some, last]

theorem charsOf_last (filled : piece.chars syntax_ ≠ []) (last : piece ∈ parts.getLast?) :
    (charsOf syntax_ parts).getLast? = (piece.chars syntax_).getLast? := by
  obtain ⟨ahead, rfl⟩ := List.getLast?_eq_some_iff.mp last
  rw [charsOf_append, charsOf, charsOf, List.flatMap_singleton, List.getLast?_append_of_ne_nil _ filled]

theorem ends_word (valid : piece.Valid) (word : (∃ raw, piece = .number raw) ∨ ∃ name, piece = .word name)
    (last : piece ∈ parts.getLast?) : (charsOf syntax_ parts).getLast?.any isWordChar = true := by
  obtain ⟨raw, rfl⟩ | ⟨name, rfl⟩ := word
  · obtain ⟨code, ends, digit⟩ := numberText_last syntax_ valid
    rw [charsOf_last (by rw [Piece.chars]; rintro none; rw [none] at ends; cases ends) last, Piece.chars, ends]
    simp [isWordChar, digit]
  · obtain ⟨first, rest, rfl, letter, all⟩ := isName_filled valid
    have filled : (Piece.word (first :: rest)).chars syntax_ ≠ [] := List.cons_ne_nil _ _
    rw [charsOf_last filled last, Piece.chars, List.getLast?_eq_some_getLast (List.cons_ne_nil _ _)]
    have member := List.getLast_mem (List.cons_ne_nil first rest)
    obtain same | member := List.mem_cons.mp member
    · rw [same, Option.any_some, isWordChar, letter, Bool.true_or]
    · rw [Option.any_some]
      exact all _ member

theorem Apart.valid (apart : Apart syntax_ parts) : ∀ piece ∈ parts, piece.Valid := by
  induction parts with
  | nil => exact fun _ member => nomatch member
  | cons first rest ih =>
    intro piece member
    obtain rfl | member := List.mem_cons.mp member
    · exact apart.1
    · exact ih apart.2.2 piece member

theorem leads_head (syntax_ : Syntax) (rest : List Piece) (leads : Leads piece) (valid : piece.Valid) :
    ∃ code, (charsOf syntax_ (piece :: rest)).head? = some code ∧ (code = barMark ↔ piece = bar) ∧
      (isLetter code = true ∨ Loose syntax_ (some code)) := by
  cases leads with
  | word =>
    obtain ⟨first, others, rfl, letter, _⟩ := isName_filled valid
    refine ⟨first, rfl, ⟨?_, by rintro ⟨⟩⟩, .inl letter⟩
    rintro rfl
    cases letter
  | pi => exact ⟨_, rfl, by decide, .inr (loose_mark (by simp [piSign]))⟩
  | opening => exact ⟨_, rfl, by decide, .inr (loose_mark (by simp))⟩
  | bar => exact ⟨_, rfl, by decide, .inr (loose_mark (by simp [barMark]))⟩
  | radical => exact ⟨_, rfl, by decide, .inr (loose_mark (by simp))⟩

theorem juxtaposePieces_apart {language : Language} {left right : Node} {inBar : Bool}
    (ahead : Apart printer.syntax_ before) (behind : Apart printer.syntax_ (printer.pieces right inBar))
    (leaf : ∀ {piece name}, piece ∈ before.getLast? → piece.named = some name → ∃ span, rightmostLeaf left = .name name span)
    (valid : accepted language right = true)
    (found : printer.juxtaposePieces left before right inBar (printer.pieces right inBar) = some parts) :
    Apart printer.syntax_ parts := by
  obtain ⟨⟨lead, primary, other⟩, _, rfl | ⟨rfl, near⟩⟩ := juxtaposePieces_cases found
  · exact ahead.before_loose (apart_space behind) loose_space
  obtain ⟨first, rest, same, leads, _⟩ := pieces_leads printer right inBar valid primary other
  have isValid := behind.valid first (by rw [same]; exact List.mem_cons_self)
  obtain ⟨code, head, _, begins⟩ := leads_head printer.syntax_ rest leads isValid
  rw [same] at near ⊢
  rw [same] at behind
  rw [head] at near
  refine ahead.append behind fun last final => ?_
  rw [head]
  obtain letter | loose := begins
  · cases last with
    | number raw =>
      obtain apart | apart | ⟨number, lower, upper⟩ := near
      · rw [ends_word (ahead.valid _ (List.mem_of_getLast? final)) (.inl ⟨raw, rfl⟩) final] at apart
        cases apart
      · simp [letter] at apart
      · rintro _ ⟨⟩
        obtain ⟨digit, _, dot, comma, _⟩ := isLetter_plain letter
        refine ⟨digit, ?_, by simpa using lower, by simpa using upper⟩
        obtain decimal | decimal := decimal_cases printer.syntax_ <;> rw [decimal] <;> assumption
    | word name =>
      obtain apart | apart | ⟨number, _⟩ := near
      · rw [ends_word (ahead.valid _ (List.mem_of_getLast? final)) (.inr ⟨name, rfl⟩) final] at apart
        cases apart
      · simp [letter] at apart
      · obtain ⟨span, isName⟩ := leaf final rfl
        rw [isName] at number
        cases number
    | _ => trivial
  · exact loose.allows

theorem apart_call {language : Language} {fn : Text} {count : Nat} {written : CallNotation}
    (valid : callAccepted language fn count written = true) (inner : Apart syntax_ (grouped parts)) :
    Apart syntax_ (.word fn :: grouped parts) := by
  simp only [callAccepted, Bool.and_eq_true] at valid
  obtain ⟨known, _⟩ := valid
  split at known
  · cases known
  next spec found => exact ⟨language.functionsNamed fn spec found, by rintro _ ⟨⟩; rfl, inner⟩

mutual

theorem pieces_apart {language : Language} : ∀ (node : Node) (inBar : Bool), accepted language node = true →
    Apart printer.syntax_ (printer.pieces node inBar)
  | .number .., _, valid => ⟨valid, by rintro _ ⟨⟩, trivial⟩
  | .name .., _, valid => by
    simp only [accepted, Bool.and_eq_true] at valid
    simp only [Printer.pieces]
    split
    · exact ⟨trivial, trivial, trivial⟩
    · exact ⟨valid.1, by rintro _ ⟨⟩, trivial⟩
  | .unary op arg _, inBar, valid => by
    have behind : Apart printer.syntax_ (Printer.operandPieces arg .unary inBar (printer.pieces arg)) :=
      operandPieces_apart fun inBar => pieces_apart arg inBar valid
    cases op with
    | plus => exact apart_mark rfl behind
    | minus =>
      simp only [Printer.pieces, Printer.signPiece]
      split <;> exact apart_mark rfl behind
  | .factorial arg _, inBar, valid =>
    (operandPieces_apart fun inBar => pieces_apart arg inBar valid).before_loose (apart_mark rfl trivial)
      (loose_mark (by simp))
  | .group inner _, _, valid => apart_grouped (pieces_apart inner false valid)
  | .call fn [only] written span, inBar, valid => by
    simp only [accepted, allAccepted, Bool.and_eq_true] at valid
    obtain ⟨call, inner, _⟩ := valid
    simp only [Printer.pieces]
    split
    · exact apart_mark rfl ((pieces_apart only true inner).before_loose (apart_mark rfl trivial) (loose_mark (by simp [barMark])))
    split
    · exact apart_mark rfl (operandPieces_apart fun inBar => pieces_apart only inBar inner)
    · exact apart_call call (apart_grouped (pieces_apart only false inner))
  | .call fn [] written span, inBar, valid => by
    simp only [accepted, Bool.and_eq_true] at valid
    exact apart_call valid.1 (apart_grouped trivial)
  | .call fn (arg :: next :: rest) written span, inBar, valid => by
    simp only [accepted, Bool.and_eq_true] at valid
    exact apart_call valid.1 (apart_grouped (apart_joined (allPieces_apart (arg :: next :: rest) valid.2)))
  | .binary op left right implicit span, inBar, valid => by
    simp only [accepted, Bool.and_eq_true] at valid
    obtain ⟨⟨_, ahead⟩, behind⟩ := valid
    have leftApart : Apart printer.syntax_
        (Printer.operandPieces left (Printer.leftLevel op) inBar (printer.pieces left)) :=
      operandPieces_apart fun inBar => pieces_apart left inBar ahead
    obtain ⟨_, _, _, found⟩ | ⟨_, whole⟩ := binary_pieces printer op left right implicit span inBar
    · refine juxtaposePieces_apart leftApart (pieces_apart right inBar behind) ?_ behind found
      intro piece name last named
      obtain ⟨_, last⟩ := operandPieces_last last named
      exact pieces_last left last named
    · rw [whole]
      exact leftApart.before_loose
        (operatorPieces_apart (operandPieces_apart fun inBar => pieces_apart right inBar behind)) (operatorPieces_loose op)

theorem allPieces_apart {language : Language} : ∀ (args : List Node), allAccepted language args = true →
    ∀ parts ∈ printer.allPieces args, Apart printer.syntax_ parts
  | [], _, _, member => nomatch member
  | arg :: rest, valid, parts, member => by
    simp only [allAccepted, Bool.and_eq_true] at valid
    obtain rfl | member := List.mem_cons.mp member
    · exact pieces_apart arg false valid.1
    · exact allPieces_apart rest valid.2 parts member

end

end Arki.Expr
