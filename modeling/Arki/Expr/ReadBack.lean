import Arki.Expr.Glue

/-! A printed tree is derived from its tokens, as the tree it was but for what the printer normalises. -/

set_option autoImplicit false

namespace Arki.Expr

variable {printer : Printer} {options : ParseOptions} {inBar : Bool} {tokens : List Token} {node back : Node}

/-- The right side of a product that the display style juxtaposes: it leads with a name, a call, a
group, a radical, or with a bar that would not close the bars around it. -/
def juxtaposable (inBar : Bool) (right : Node) : Bool :=
  (leadingPrimary right).any (fun lead => !lead.isNumber) && !(inBar && opensBar right)

def AlikeOperand (node : Node) (min : Level) (inBar : Bool) (alike : Bool → Node → Prop) (back : Node) : Prop :=
  if min.rank ≤ (level node).rank then alike inBar back
  else ∃ inner span, back = .group inner span ∧ alike false inner

mutual

/-- `back` is the tree as it is read back: the same but for spans, for the groups that the printer adds,
for products that are not juxtaposed and, in the canonical style, for radicals. -/
def Alike (printer : Printer) : Node → Bool → Node → Prop
  | .number raw _, _, back => ∃ span, back = .number raw span
  | .name name _, _, back => ∃ span, back = .name name span
  | .unary op arg _, inBar, back =>
    ∃ arg' span, back = .unary op arg' span ∧ AlikeOperand arg .unary inBar (Alike printer arg) arg'
  | .factorial arg _, inBar, back =>
    ∃ arg' span, back = .factorial arg' span ∧ AlikeOperand arg .postfixed inBar (Alike printer arg) arg'
  | .group inner _, _, back => ∃ inner' span, back = .group inner' span ∧ Alike printer inner false inner'
  | .binary op left right implicit _, inBar, back =>
    ∃ left' right' span,
      back = .binary op left' right' (implicit && (printer.display && juxtaposable inBar right)) span ∧
      AlikeOperand left (Printer.leftLevel op) inBar (Alike printer left) left' ∧
      AlikeOperand right (Printer.rightLevel op) inBar (Alike printer right) right'
  | .call fn [only] .bars _, _, back => ∃ only' span, back = .call fn [only'] .bars span ∧ Alike printer only true only'
  | .call fn [only] .radical _, inBar, back =>
    if printer.display then
      ∃ only' span, back = .call fn [only'] .radical span ∧ AlikeOperand only .primary inBar (Alike printer only) only'
    else ∃ only' span, back = .call fn [only'] .call span ∧ Alike printer only false only'
  | .call fn args written _, _, back => ∃ args' span, back = .call fn args' written span ∧ AllAlike printer args args'

def AllAlike (printer : Printer) : List Node → List Node → Prop
  | [], backs => backs = []
  | arg :: rest, backs => ∃ arg' rest', backs = arg' :: rest' ∧ Alike printer arg false arg' ∧ AllAlike printer rest rest'

end

namespace Node

mutual

def names : Node → List Text
  | number .. => []
  | name spelled _ => [spelled]
  | unary _ arg _ | factorial arg _ | group arg _ => arg.names
  | binary _ left right _ _ => left.names ++ right.names
  | call _ args _ _ => allNames args

def allNames : List Node → List Text
  | [] => []
  | arg :: rest => arg.names ++ allNames rest

end

end Node

variable {parts : List Piece} {alike : Node → Prop} {alikes : List Node → Prop} {left right : Node} {fn : Text} {language : Language}

theorem AlikeOperand.names {min : Level} {alike : Bool → Node → Prop}
    (each : ∀ inBar back, alike inBar back → back.names = node.names) (operand : AlikeOperand node min inBar alike back) :
    back.names = node.names := by
  rw [AlikeOperand] at operand
  split at operand
  · exact each _ _ operand
  · obtain ⟨inner, span, rfl, same⟩ := operand
    rw [Node.names]
    exact each _ _ same

mutual

theorem Alike.names : ∀ (node : Node) (inBar : Bool) (back : Node), Alike printer node inBar back → back.names = node.names
  | .number .., _, _, ⟨_, same⟩ | .name .., _, _, ⟨_, same⟩ => by
    rw [same]
    simp only [Node.names]
  | .unary _ arg _, _, _, ⟨_, _, same, operand⟩ | .factorial arg _, _, _, ⟨_, _, same, operand⟩ => by
    rw [same]
    simp only [Node.names]
    exact operand.names (Alike.names arg)
  | .group inner _, _, _, ⟨_, _, same, alike⟩ => by
    rw [same]
    simp only [Node.names]
    exact Alike.names inner _ _ alike
  | .binary _ left right _ _, _, _, ⟨_, _, _, same, ahead, behind⟩ => by
    rw [same]
    simp only [Node.names]
    rw [ahead.names (Alike.names left), behind.names (Alike.names right)]
  | .call fn [only] .bars _, _, _, ⟨_, _, same, alike⟩ => by
    rw [same]
    simp only [Node.names, Node.allNames]
    rw [Alike.names only _ _ alike]
  | .call fn [only] .radical _, _, _, alike => by
    simp only [Alike] at alike
    split at alike
    · obtain ⟨_, _, rfl, operand⟩ := alike
      simp only [Node.names, Node.allNames]
      rw [operand.names (Alike.names only)]
    · obtain ⟨_, _, rfl, alike⟩ := alike
      simp only [Node.names, Node.allNames]
      rw [Alike.names only _ _ alike]
  | .call fn [] _ _, _, _, alike => by
    simp only [Alike] at alike
    obtain ⟨_, _, rfl, all⟩ := alike
    simp only [Node.names]
    exact AllAlike.names [] _ all
  | .call fn [only] .call _, _, _, alike => by
    simp only [Alike] at alike
    obtain ⟨_, _, rfl, all⟩ := alike
    simp only [Node.names]
    exact AllAlike.names [only] _ all
  | .call fn (first :: second :: rest) _ _, _, _, alike => by
    simp only [Alike] at alike
    obtain ⟨_, _, rfl, all⟩ := alike
    simp only [Node.names]
    exact AllAlike.names (first :: second :: rest) _ all

theorem AllAlike.names : ∀ (args backs : List Node), AllAlike printer args backs → Node.allNames backs = Node.allNames args
  | [], _, same => by
    rw [AllAlike] at same
    rw [same]
  | first :: rest, _, ⟨_, _, same, alike, all⟩ => by
    rw [same]
    simp only [Node.allNames]
    rw [Alike.names first _ _ alike, AllAlike.names rest _ all]

end

theorem getLast?_suffix {after : List Token} (filled : after ≠ []) (suffix : after <:+ tokens) :
    tokens.getLast? = after.getLast? := by
  obtain ⟨before, rfl⟩ := suffix
  exact List.getLast?_append_of_ne_nil _ filled

theorem Derives.last_name : ∀ {inBar : Bool} {level : Level} {tokens : List Token} {node : Node},
    Derives options inBar level tokens node → ∀ last ∈ tokens.getLast?, last.kind = .name → last.text ∈ node.names
  | _, _, _, _, .product derived | _, _, _, _, .unary derived | _, _, _, _, .power derived
  | _, _, _, _, .postfixed derived | _, _, _, _, .primary derived => derived.last_name
  | _, _, _, _, .sum _ _ right | _, _, _, _, .times _ _ right | _, _, _, _, .raised _ _ right => by
    intro last final kind
    rw [getLast?_suffix right.filled ⟨_ ++ [_], by rw [List.append_assoc]; rfl⟩] at final
    exact List.mem_append_right _ (right.last_name last final kind)
  | _, _, _, _, .juxtaposed _ right _ _ _ => by
    intro last final kind
    rw [List.getLast?_append_of_ne_nil _ right.filled] at final
    exact List.mem_append_right _ (right.last_name last final kind)
  | _, _, _, _, .signed _ arg => by
    intro last final kind
    rw [getLast?_suffix arg.filled (List.suffix_cons _ _)] at final
    exact arg.last_name last final kind
  | _, _, _, _, .factorial _ isBang => by
    intro last final kind
    rw [List.getLast?_concat] at final
    cases final
    cases kind.symm.trans isBang
  | _, _, _, _, .number isNumber => by
    intro last final kind
    cases final
    cases kind.symm.trans isNumber
  | _, _, _, _, .name _ _ => by
    intro last final kind
    cases final
    exact List.mem_singleton_self _
  | _, _, _, _, .call _ _ _ _ closes _ _ => by
    intro last final kind
    rw [getLast?_suffix (List.cons_ne_nil _ []) (((List.suffix_append _ _).trans (List.suffix_cons _ _)).trans
      (List.suffix_cons _ _))] at final
    cases final
    cases kind.symm.trans closes
  | _, _, _, _, .group _ _ closes | _, _, _, _, .bars _ _ _ closes => by
    intro last final kind
    rw [getLast?_suffix (List.cons_ne_nil _ []) ((List.suffix_append _ _).trans (List.suffix_cons _ _))] at final
    cases final
    cases kind.symm.trans closes
  | _, _, _, _, .radical _ _ arg => by
    intro last final kind
    rw [getLast?_suffix arg.filled (List.suffix_cons _ _)] at final
    exact List.mem_append_left _ (arg.last_name last final kind)
  | _, _, _, _, .empty _ _ _ closes _ => by
    intro last final kind
    cases final
    cases kind.symm.trans closes

theorem Derives.lower {low high : Level} (derived : Derives options inBar high tokens node) (le : low.rank ≤ high.rank) :
    Derives options inBar low tokens node := by
  have toPostfix : high = .primary → Derives options inBar .postfixed tokens node := fun same => .primary (same ▸ derived)
  have toPower : 5 ≤ high.rank → Derives options inBar .power tokens node := by
    intro above
    cases high <;> simp only [Level.rank, Nat.reduceLeDiff] at above
    · exact .postfixed derived
    · exact .postfixed (toPostfix rfl)
  have toUnary : 4 ≤ high.rank → Derives options inBar .unary tokens node := by
    intro above
    cases high <;> simp only [Level.rank, Nat.reduceLeDiff] at above
    · exact .power derived
    all_goals exact .power (toPower (by simp [Level.rank]))
  have toProduct : 3 ≤ high.rank → Derives options inBar .product tokens node := by
    intro above
    cases high <;> simp only [Level.rank, Nat.reduceLeDiff] at above
    · exact .unary derived
    all_goals exact .unary (toUnary (by simp [Level.rank]))
  cases low
  · by_cases product : high = .product
    · exact .product (product ▸ derived)
    · cases high <;> first | exact derived | exact absurd rfl product | exact .product (toProduct (by simp [Level.rank]))
  · cases high <;> simp only [Level.rank, Nat.reduceLeDiff] at le <;>
      first | exact derived | exact toProduct (by simp [Level.rank])
  · cases high <;> simp only [Level.rank, Nat.reduceLeDiff] at le <;>
      first | exact derived | exact toUnary (by simp [Level.rank])
  · cases high <;> simp only [Level.rank, Nat.reduceLeDiff] at le <;>
      first | exact derived | exact toPower (by simp [Level.rank])
  · cases high <;> simp only [Level.rank, Nat.reduceLeDiff] at le <;>
      first | exact derived | exact toPostfix rfl
  · cases high <;> simp only [Level.rank, Nat.reduceLeDiff] at le
    exact derived

def ReadsBack (options : ParseOptions) (printer : Printer) (level : Level) (inBar : Bool) (parts : List Piece)
    (alike : Node → Prop) : Prop :=
  ∀ index, ∃ back, Derives options inBar level (place printer.syntax_ index parts) back ∧ alike back

theorem Derives.toSum {level : Level} (derived : Derives options inBar level tokens node) :
    Derives options inBar .sum tokens node :=
  derived.lower (by cases level <;> simp [Level.rank])

theorem Derives.ofPrimary {level : Level} (derived : Derives options inBar .primary tokens node) :
    Derives options inBar level tokens node :=
  derived.lower (by cases level <;> simp [Level.rank])

theorem grouped_derived (inBar : Bool) {syntax_ : Syntax} {index : Nat}
    (inner : Derives options false .sum (place syntax_ (index + 1) parts) back) :
    ∃ span, Derives options inBar .primary (place syntax_ index (grouped parts)) (.group back span) := by
  refine ⟨⟨index, index + 1 + (charsOf syntax_ parts).length + 1⟩, ?_⟩
  rw [grouped, place, place_append]
  exact .group rfl inner rfl

theorem ReadsBack.operand {min : Level} {parts : Bool → List Piece} {alike : Bool → Node → Prop}
    (each : ∀ inBar, ReadsBack options printer (level node) inBar (parts inBar) (alike inBar)) :
    ReadsBack options printer min inBar (Printer.operandPieces node min inBar parts) (AlikeOperand node min inBar alike) := by
  intro index
  rw [Printer.operandPieces]
  split
  next high =>
    obtain ⟨back, derived, same⟩ := each inBar index
    refine ⟨back, derived.lower high, ?_⟩
    rwa [AlikeOperand, if_pos high]
  next low =>
    obtain ⟨back, derived, same⟩ := each false (index + 1)
    obtain ⟨span, group⟩ := grouped_derived inBar derived.toSum
    refine ⟨.group back span, group.ofPrimary, ?_⟩
    rw [AlikeOperand, if_neg low]
    exact ⟨back, span, rfl, same⟩

theorem signPiece_kind (printer : Printer) (op : Sign) : ∃ kind code, printer.signPiece op = .mark kind code ∧ Parser.signOf kind = some op := by
  cases op with
  | plus => exact ⟨_, _, rfl, rfl⟩
  | minus =>
    rw [Printer.signPiece]
    split <;> exact ⟨_, _, rfl, rfl⟩

theorem ReadsBack.signed {op : Sign}
    (arg : ReadsBack options printer .unary inBar parts alike) :
    ReadsBack options printer .unary inBar (printer.signPiece op :: parts) fun back =>
      ∃ arg' span, back = .unary op arg' span ∧ alike arg' := by
  intro index
  obtain ⟨kind, code, same, found⟩ := signPiece_kind printer op
  obtain ⟨back, derived, alike⟩ := arg (index + 1)
  have sign : Parser.signOf (Token.mk kind index (index + 1) [code]).kind = some op := found
  rw [same]
  exact ⟨_, .signed sign derived, back, _, rfl, alike⟩

theorem ReadsBack.factorial
    (arg : ReadsBack options printer .postfixed inBar parts alike) :
    ReadsBack options printer .postfixed inBar (parts ++ [.mark .bang 33]) fun back =>
      ∃ arg' span, back = .factorial arg' span ∧ alike arg' := by
  intro index
  obtain ⟨back, derived, alike⟩ := arg index
  rw [place_append]
  exact ⟨_, .factorial derived rfl, back, _, rfl, alike⟩

theorem ReadsBack.group {level : Level}
    (inner : ReadsBack options printer level false parts alike) :
    ReadsBack options printer .primary inBar (grouped parts) fun back =>
      ∃ inner' span, back = .group inner' span ∧ alike inner' := by
  intro index
  obtain ⟨back, derived, alike⟩ := inner (index + 1)
  obtain ⟨span, group⟩ := grouped_derived inBar derived.toSum
  exact ⟨_, group, back, span, rfl, alike⟩

theorem operator_place (printer : Printer) (op : BinaryOperator) (index : Nat) (after : List Piece) :
    ∃ token index', place printer.syntax_ index (printer.operatorPieces op ++ after) = token :: place printer.syntax_ index' after ∧
      match op with
      | .add | .subtract => Parser.sumOperator token.kind = some op
      | .multiply | .divide => Parser.productOperator token.kind = some op
      | .power => token.kind = .caret := by
  cases op with
  | add => exact ⟨_, _, rfl, rfl⟩
  | divide => exact ⟨_, _, rfl, rfl⟩
  | power => exact ⟨_, _, rfl, rfl⟩
  | subtract =>
    simp only [Printer.operatorPieces]
    split <;> exact ⟨_, _, rfl, rfl⟩
  | multiply =>
    simp only [Printer.operatorPieces]
    split <;> exact ⟨_, _, rfl, rfl⟩

theorem ReadsBack.operator {op : BinaryOperator} {implicit : Bool} {span : Span}
    {before after : List Piece} {ahead behind : Node → Prop}
    (first : ReadsBack options printer (Printer.leftLevel op) inBar before ahead)
    (second : ReadsBack options printer (Printer.rightLevel op) inBar after behind) :
    ReadsBack options printer (level (.binary op left right implicit span)) inBar
      (before ++ (printer.operatorPieces op ++ after)) fun back =>
        ∃ left' right' span, back = .binary op left' right' false span ∧ ahead left' ∧ behind right' := by
  intro index
  obtain ⟨left', derived, alike⟩ := first index
  obtain ⟨token, index', placed, found⟩ := operator_place printer op (index + (charsOf printer.syntax_ before).length) after
  obtain ⟨right', derived', alike'⟩ := second index'
  rw [place_append, placed]
  refine ⟨.binary op left' right' false ⟨left'.span.start, right'.span.stop⟩, ?_, left', right', _, rfl, alike, alike'⟩
  cases op with
  | add => exact .sum derived found derived'
  | subtract => exact .sum derived found derived'
  | multiply => exact .times derived found derived'
  | divide => exact .times derived found derived'
  | power => exact .raised derived found derived'

theorem leading_level : ∀ {node lead : Node}, leadingPrimary node = some lead → Level.power.rank ≤ (level node).rank
  | .number .., _, _ | .name .., _, _ | .group .., _, _ | .call .., _, _ | .factorial .., _, _
  | .binary .power .., _, _ => by simp [level, Level.rank]
  | .unary .., _, found | .binary .add .., _, found | .binary .subtract .., _, found
  | .binary .multiply .., _, found | .binary .divide .., _, found => by cases found

theorem juxtaposable_iff :
    juxtaposable inBar right = true ↔
      (∃ lead, leadingPrimary right = some lead ∧ lead.isNumber = false) ∧ ¬ (opensBar right = true ∧ inBar = true) := by
  rw [juxtaposable, Bool.and_eq_true]
  cases leadingPrimary right with
  | none => simp
  | some lead => cases inBar <;> cases opensBar right <;> simp

theorem begins_bar (printer : Printer) (inBar : Bool) {lead : Node} (valid : accepted language right = true)
    (found : leadingPrimary right = some lead) (other : lead.isNumber = false) :
    (charsOf printer.syntax_ (printer.pieces right inBar)).head? = some barMark ↔ opensBar right = true := by
  obtain ⟨first, rest, same, leads, bars⟩ := pieces_leads printer right inBar valid found other
  have isValid := (pieces_apart right inBar valid).valid first (by rw [same]; exact List.mem_cons_self)
  obtain ⟨code, head, isBar, _⟩ := leads_head printer.syntax_ rest leads isValid
  rw [same, head, ← bars, ← isBar, Option.some.injEq]

theorem juxtaposePieces_iff {leftParts : List Piece}
    (valid : accepted language right = true) :
    printer.juxtaposePieces left leftParts right inBar (printer.pieces right inBar) ≠ none ↔
      juxtaposable inBar right = true := by
  rw [juxtaposable_iff]
  constructor
  · intro some
    obtain ⟨parts, found⟩ := Option.ne_none_iff_exists'.mp some
    obtain ⟨⟨lead, primary, other⟩, opens, _⟩ := juxtaposePieces_cases found
    rw [begins_bar printer inBar valid primary other] at opens
    exact ⟨⟨lead, primary, other⟩, opens⟩
  · rintro ⟨⟨lead, primary, other⟩, opens⟩
    rw [← begins_bar printer inBar valid primary other] at opens
    simp only [Printer.juxtaposePieces, primary, other, Bool.false_eq_true, if_false, if_neg opens]
    split
    · exact Option.some_ne_none _
    · split <;> exact Option.some_ne_none _

/-- A piece that may lead is read as a token that may follow an operand, but for a closing bar. -/
theorem leads_token (printer : Printer) {first : Piece} (leads : Leads first) (index : Nat) (opens : ¬ (first = bar ∧ inBar = true)) :
    ∃ token, first.token printer.syntax_ index = some token ∧
      Parser.startsImplicitOperand token.kind (contextsOf inBar) = true := by
  cases leads with
  | bar =>
    refine ⟨_, rfl, ?_⟩
    cases inBar with
    | false => rfl
    | true => exact absurd ⟨rfl, rfl⟩ opens
  | _ => exact ⟨_, rfl, rfl⟩

theorem ReadsBack.juxtaposed {before : List Piece} {ahead behind : Node → Prop}
    (valid : accepted options.language right = true)
    (first : ReadsBack options printer .product inBar before ahead)
    (second : ReadsBack options printer (level right) inBar (printer.pieces right inBar) behind)
    (values : ∀ left', ahead left' → ∀ name ∈ left'.names, options.isValue name = true)
    (found : printer.juxtaposePieces left before right inBar (printer.pieces right inBar) = some parts) :
    ReadsBack options printer .product inBar parts fun back =>
      ∃ left' right' span, back = .binary .multiply left' right' true span ∧ ahead left' ∧ behind right' := by
  obtain ⟨⟨lead, primary, other⟩, opens, shape⟩ := juxtaposePieces_cases found
  obtain ⟨head, rest, same, leads, bars⟩ := pieces_leads printer right inBar valid primary other
  rw [begins_bar printer inBar valid primary other, ← bars] at opens
  intro index
  obtain ⟨left', derived, alike⟩ := first index
  have both : ∀ index', ∃ right', Derives options inBar .product
      (place printer.syntax_ index before ++ place printer.syntax_ index' (printer.pieces right inBar))
      (.binary .multiply left' right' true ⟨left'.span.start, right'.span.stop⟩) ∧ behind right' := by
    intro index'
    obtain ⟨right', derived', alike'⟩ := second index'
    obtain ⟨token, made, starts⟩ := leads_token printer leads index' opens
    refine ⟨right', .juxtaposed derived (derived'.lower (leading_level primary)) ?_ starts ?_, alike'⟩
    · rw [same, place, made]
      rfl
    · intro last final _ _ isName _
      exact values left' alike last.text (derived.last_name last final isName)
  obtain rfl | ⟨rfl, _⟩ := shape
  · obtain ⟨right', derived', alike'⟩ := both (index + (charsOf printer.syntax_ before).length + 1)
    refine ⟨.binary .multiply left' right' true ⟨left'.span.start, right'.span.stop⟩, ?_, left', right', _, rfl, alike, alike'⟩
    rw [place_append]
    exact derived'
  · obtain ⟨right', derived', alike'⟩ := both (index + (charsOf printer.syntax_ before).length)
    refine ⟨.binary .multiply left' right' true ⟨left'.span.start, right'.span.stop⟩, ?_, left', right', _, rfl, alike, alike'⟩
    rw [place_append]
    exact derived'

theorem callAccepted_iff {count : Nat} {written : CallNotation} :
    callAccepted language fn count written = true ↔
      (∃ spec, language.functionSpec fn = some spec ∧ spec.min ≤ count ∧ count ≤ spec.max) ∧
        (written = .bars → fn = text "abs" ∧ count = 1) ∧ (written = .radical → fn = text "sqrt" ∧ count = 1) := by
  unfold callAccepted
  rw [Bool.and_eq_true]
  constructor
  · rintro ⟨known, form⟩
    split at known
    · cases known
    next spec found =>
      refine ⟨⟨spec, found, of_decide_eq_true known⟩, ?_, ?_⟩ <;> rintro rfl <;> exact of_decide_eq_true form
  · rintro ⟨⟨spec, found, fits⟩, bars, radical⟩
    rw [found]
    refine ⟨decide_eq_true fits, ?_⟩
    cases written with
    | call => rfl
    | bars => exact decide_eq_true (bars rfl)
    | radical => exact decide_eq_true (radical rfl)

theorem ReadsBack.bars {level : Level} (one : TakesOne options (text "abs"))
    (inner : ReadsBack options printer level true parts alike) :
    ReadsBack options printer .primary inBar (bar :: (parts ++ [bar])) fun back =>
      ∃ only span, back = .call (text "abs") [only] .bars span ∧ alike only := by
  intro index
  obtain ⟨back, derived, alike⟩ := inner (index + 1)
  refine ⟨.call (text "abs") [back] .bars ⟨index, index + 1 + (charsOf printer.syntax_ parts).length + 1⟩, ?_, back, _, rfl,
    alike⟩
  rw [place, place_append]
  exact .bars one rfl derived.toSum rfl

theorem ReadsBack.radical (one : TakesOne options (text "sqrt"))
    (inner : ReadsBack options printer .primary inBar parts alike) :
    ReadsBack options printer .primary inBar (.mark .radical 8730 :: parts) fun back =>
      ∃ only span, back = .call (text "sqrt") [only] .radical span ∧ alike only := by
  intro index
  obtain ⟨back, derived, alike⟩ := inner (index + 1)
  have sign : (Token.mk .radical index (index + 1) [8730]).kind = .radical := rfl
  exact ⟨_, .radical one sign derived, back, _, rfl, alike⟩

def ArgumentsBack (options : ParseOptions) (printer : Printer) (parts : List Piece) (alike : List Node → Prop) : Prop :=
  ∀ index, ∃ backs, Arguments options (place printer.syntax_ index parts) backs ∧ alike backs

theorem ArgumentsBack.one {level : Level}
    (only : ReadsBack options printer level false parts alike) :
    ArgumentsBack options printer parts fun backs => ∃ only, backs = [only] ∧ alike only := by
  intro index
  obtain ⟨back, derived, alike⟩ := only index
  exact ⟨[back], .last derived.toSum, back, rfl, alike⟩

theorem ArgumentsBack.more {others : List Piece} {level : Level}
    (first : ReadsBack options printer level false parts alike) (rest : ArgumentsBack options printer others alikes) :
    ArgumentsBack options printer (parts ++ .separator :: .space :: others) fun backs =>
      ∃ arg' rest', backs = arg' :: rest' ∧ alike arg' ∧ alikes rest' := by
  intro index
  obtain ⟨back, derived, alike⟩ := first index
  obtain ⟨backs, derived', alikes⟩ := rest (index + (charsOf printer.syntax_ parts).length + 1 + 1)
  refine ⟨back :: backs, ?_, back, backs, rfl, alike, alikes⟩
  rw [place_append]
  have sep : (Token.mk .sep (index + (charsOf printer.syntax_ parts).length)
    (index + (charsOf printer.syntax_ parts).length + 1) [printer.syntax_.separator]).kind = .sep := rfl
  exact .more derived.toSum sep derived'

theorem ReadsBack.call {count : Nat}
    (known : ∃ spec, options.language.functionSpec fn = some spec ∧ spec.min ≤ count ∧ count ≤ spec.max)
    (counted : ∀ backs, alikes backs → backs.length = count) (args : ArgumentsBack options printer parts alikes) :
    ReadsBack options printer .primary inBar (.word fn :: grouped parts) fun back =>
      ∃ args' span, back = .call fn args' .call span ∧ alikes args' := by
  intro index
  obtain ⟨spec, found, few, many⟩ := known
  obtain ⟨backs, derived, alike⟩ := args (index + fn.length + 1)
  refine ⟨.call fn backs .call ⟨index, index + fn.length + 1 + (charsOf printer.syntax_ parts).length + 1⟩, ?_, backs, _, rfl,
    alike⟩
  have word : (Token.mk .name index (index + fn.length) fn).kind = .name := rfl
  have opens : (Token.mk .open_ (index + fn.length) (index + fn.length + 1) [40]).kind = .open_ := rfl
  rw [place, grouped, place, place_append]
  rw [← counted backs alike] at few many
  exact .call word found opens derived rfl few many

theorem ReadsBack.bare {spec : FunctionSpec} (found : options.language.functionSpec fn = some spec)
    (least : spec.min = 0) :
    ReadsBack options printer .primary inBar (.word fn :: grouped []) fun back => ∃ span, back = .call fn [] .call span := by
  intro index
  refine ⟨.call fn [] .call ⟨index, index + fn.length + 1 + 1⟩, ?_, _, rfl⟩
  have word : (Token.mk .name index (index + fn.length) fn).kind = .name := rfl
  exact .empty word found rfl rfl least

theorem AllAlike.length : ∀ {args backs : List Node}, AllAlike printer args backs → backs.length = args.length
  | [], _, same => by
    rw [AllAlike] at same
    rw [same]
  | _ :: _, _, ⟨_, _, same, _, all⟩ => by rw [same, List.length_cons, List.length_cons, AllAlike.length all]

theorem ReadsBack.imp {level : Level} {alike' : Node → Prop}
    (reads : ReadsBack options printer level inBar parts alike) (imp : ∀ back, alike back → alike' back) :
    ReadsBack options printer level inBar parts alike' := by
  intro index
  obtain ⟨back, derived, alike⟩ := reads index
  exact ⟨back, derived, imp back alike⟩

theorem ArgumentsBack.imp {alikes' : List Node → Prop}
    (reads : ArgumentsBack options printer parts alikes) (imp : ∀ backs, alikes backs → alikes' backs) :
    ArgumentsBack options printer parts alikes' := by
  intro index
  obtain ⟨backs, derived, alike⟩ := reads index
  exact ⟨backs, derived, imp backs alike⟩

section

variable (printer)

mutual

theorem pieces_readBack : ∀ (node : Node) (inBar : Bool), accepted options.language node = true →
    (printer.display = true → ∀ name ∈ node.names, options.isValue name = true) →
    ReadsBack options printer (level node) inBar (printer.pieces node inBar) (Alike printer node inBar)
  | .number raw _, inBar, _, _ => fun index => by
    have number : (Token.mk .number index (index + (numberText printer.syntax_ raw).length) raw).kind = .number := rfl
    exact ⟨_, .number number, _, rfl⟩
  | .name name _, inBar, valid, _ => fun index => by
    simp only [accepted, Bool.and_eq_true, Option.isNone_iff_eq_none] at valid
    simp only [Printer.pieces]
    split
    next pi =>
      have word : (Token.mk .name index (index + 1) (text "pi")).kind = .name := rfl
      rw [pi.2] at valid
      exact ⟨_, .name word valid.2, _, by rw [pi.2]⟩
    next =>
      have word : (Token.mk .name index (index + name.length) name).kind = .name := rfl
      exact ⟨_, .name word valid.2, _, rfl⟩
  | .unary op arg _, inBar, valid, values =>
    .signed (.operand fun inBar => pieces_readBack arg inBar valid values)
  | .factorial arg _, inBar, valid, values =>
    .factorial (.operand fun inBar => pieces_readBack arg inBar valid values)
  | .group inner _, inBar, valid, values => .group (pieces_readBack inner false valid values)
  | .binary op left right implicit span, inBar, valid, values => by
    simp only [accepted, Bool.and_eq_true] at valid
    obtain ⟨⟨typed, ahead⟩, behind⟩ := valid
    have leftValues := fun display name member => values display name (List.mem_append_left _ member)
    have rightValues := fun display name member => values display name (List.mem_append_right _ member)
    have first : ReadsBack options printer (Printer.leftLevel op) inBar _ _ :=
      .operand fun inBar => pieces_readBack left inBar ahead leftValues
    obtain ⟨rfl, rfl, display, found⟩ | ⟨explicit, whole⟩ := binary_pieces printer op left right implicit span inBar
    · have juxtaposed := (juxtaposePieces_iff behind).mp (by rw [found]; exact Option.some_ne_none _)
      obtain ⟨⟨lead, primary, _⟩, _⟩ := juxtaposable_iff.mp juxtaposed
      have high : Level.unary.rank ≤ (level right).rank :=
        Nat.le_trans (by simp [Level.rank]) (leading_level primary)
      refine (ReadsBack.juxtaposed behind first (pieces_readBack right inBar behind rightValues) ?_ found).imp ?_
      · intro left' alike name member
        rw [alike.names (Alike.names left)] at member
        exact leftValues display name member
      · rintro back ⟨left', right', span', rfl, alike, alike'⟩
        refine ⟨left', right', span', by rw [display, juxtaposed]; rfl, alike, ?_⟩
        rwa [AlikeOperand, Printer.rightLevel, if_pos high]
    · have plain : (implicit && (printer.display && juxtaposable inBar right)) = false := by
        by_contra flagged
        rw [Bool.not_eq_false, Bool.and_eq_true, Bool.and_eq_true] at flagged
        obtain ⟨rfl, display, juxtaposed⟩ := flagged
        have product : op = .multiply := by simpa using typed
        exact (juxtaposePieces_iff behind).mpr juxtaposed (explicit product rfl display)
      rw [whole]
      refine (first.operator (.operand fun inBar => pieces_readBack right inBar behind rightValues)).imp ?_
      rintro back ⟨left', right', span', rfl, alike, alike'⟩
      exact ⟨left', right', span', by rw [plain], alike, alike'⟩
  | .call fn [] written span, inBar, valid, values => by
    rw [accepted, Bool.and_eq_true, callAccepted_iff] at valid
    obtain ⟨⟨⟨spec, found, few, _⟩, bars, radical⟩, _⟩ := valid
    have isCall : written = .call := by
      cases written with
      | call => rfl
      | bars => exact absurd (bars rfl).2 (by simp)
      | radical => exact absurd (radical rfl).2 (by simp)
    subst isCall
    refine (ReadsBack.bare found (by simpa using few)).imp ?_
    rintro back ⟨span', rfl⟩
    exact ⟨[], span', rfl, rfl⟩
  | .call fn [only] written span, inBar, valid, values => by
    rw [accepted, Bool.and_eq_true, callAccepted_iff, allAccepted, Bool.and_eq_true] at valid
    obtain ⟨⟨known, bars, radical⟩, inner, _⟩ := valid
    have onlyValues := fun display name member => values display name (List.mem_append_left _ member)
    have asCall : ReadsBack options printer .primary inBar (.word fn :: grouped (printer.pieces only false)) fun back =>
        ∃ args' span, back = .call fn args' .call span ∧ ∃ only', args' = [only'] ∧ Alike printer only false only' := by
      refine .call known ?_ (.one (pieces_readBack only false inner onlyValues))
      rintro backs ⟨only', rfl, _⟩
      rfl
    cases written with
    | bars =>
      obtain ⟨rfl, _⟩ := bars rfl
      have form : printer.pieces (.call (text "abs") [only] .bars span) inBar = bar :: (printer.pieces only true ++ [bar]) :=
        if_pos ⟨rfl, rfl⟩
      rw [form]
      refine (ReadsBack.bars known (pieces_readBack only true inner onlyValues)).imp ?_
      rintro back ⟨only', span', rfl, alike⟩
      exact ⟨only', span', rfl, alike⟩
    | radical =>
      obtain ⟨rfl, _⟩ := radical rfl
      by_cases display : printer.display = true
      · have form : printer.pieces (.call (text "sqrt") [only] .radical span) inBar =
            .mark .radical 8730 :: Printer.operandPieces only .primary inBar (printer.pieces only) :=
          (if_neg (by simp)).trans (if_pos ⟨rfl, rfl, display⟩)
        rw [form]
        refine (ReadsBack.radical known (.operand fun inBar => pieces_readBack only inBar inner onlyValues)).imp ?_
        rintro back ⟨only', span', rfl, alike⟩
        rw [Alike, if_pos display]
        exact ⟨only', span', rfl, alike⟩
      · have form : printer.pieces (.call (text "sqrt") [only] .radical span) inBar =
            .word (text "sqrt") :: grouped (printer.pieces only false) :=
          (if_neg (by simp)).trans (if_neg fun has => display has.2.2)
        rw [form]
        refine asCall.imp ?_
        rintro back ⟨_, span', rfl, only', rfl, alike⟩
        rw [Alike, if_neg display]
        exact ⟨only', span', rfl, alike⟩
    | call =>
      have form : printer.pieces (.call fn [only] .call span) inBar = .word fn :: grouped (printer.pieces only false) :=
        (if_neg (by simp)).trans (if_neg (by simp))
      rw [form]
      refine asCall.imp ?_
      rintro back ⟨_, span', rfl, only', rfl, alike⟩
      exact ⟨[only'], span', rfl, only', [], rfl, alike, rfl⟩
  | .call fn (arg :: next :: rest) written span, inBar, valid, values => by
    rw [accepted, Bool.and_eq_true, callAccepted_iff] at valid
    obtain ⟨⟨known, bars, radical⟩, all⟩ := valid
    have isCall : written = .call := by
      cases written with
      | call => rfl
      | bars => exact absurd (bars rfl).2 (by simp)
      | radical => exact absurd (radical rfl).2 (by simp)
    subst isCall
    refine (ReadsBack.call known (fun _ => AllAlike.length)
      (allPieces_readBack (arg :: next :: rest) (List.cons_ne_nil _ _) all values)).imp ?_
    rintro back ⟨args', span', rfl, alike⟩
    exact ⟨args', span', rfl, alike⟩

theorem allPieces_readBack : ∀ (args : List Node), args ≠ [] → allAccepted options.language args = true →
    (printer.display = true → ∀ name ∈ Node.allNames args, options.isValue name = true) →
    ArgumentsBack options printer (joined (printer.allPieces args)) (AllAlike printer args)
  | [], filled, _, _ => absurd rfl filled
  | [arg], _, valid, values => by
    simp only [allAccepted, Bool.and_eq_true] at valid
    have argValues := fun display name member => values display name (List.mem_append_left _ member)
    refine (ArgumentsBack.one (pieces_readBack arg false valid.1 argValues)).imp ?_
    rintro backs ⟨only, rfl, alike⟩
    exact ⟨only, [], rfl, alike, rfl⟩
  | arg :: next :: rest, _, valid, values => by
    rw [allAccepted, Bool.and_eq_true] at valid
    have argValues := fun display name member => values display name (List.mem_append_left _ member)
    have restValues := fun display name member => values display name (List.mem_append_right _ member)
    exact .more (pieces_readBack arg false valid.1 argValues)
      (allPieces_readBack (next :: rest) (List.cons_ne_nil _ _) valid.2 restValues)

end

end

end Arki.Expr
