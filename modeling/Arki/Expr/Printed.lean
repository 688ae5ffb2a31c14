import Arki.Expr.Print

/-! The printed text as pieces, which stand apart: no piece runs into the next. -/

set_option autoImplicit false

namespace Arki.Expr

open Outcome (bind_ok)

/-- What `fromJSON` checks of a tree: the names and literals, and that calls are of the language. -/
def callAccepted (language : Language) (fn : Text) (count : Nat) (written : CallNotation) : Bool :=
  (match language.functionSpec fn with
    | none => false
    | some spec => decide (spec.min ≤ count ∧ count ≤ spec.max)) &&
  (match written with
    | .call => true
    | .bars => decide (fn = text "abs" ∧ count = 1)
    | .radical => decide (fn = text "sqrt" ∧ count = 1))

mutual

def accepted (language : Language) : Node → Bool
  | .number raw _ => isNumberLiteral raw
  | .name name _ => isName name && (language.functionSpec name).isNone
  | .unary _ arg _ | .factorial arg _ | .group arg _ => accepted language arg
  | .binary op left right implicit _ =>
    (!implicit || decide (op = .multiply)) && accepted language left && accepted language right
  | .call fn args written _ => callAccepted language fn args.length written && allAccepted language args

def allAccepted (language : Language) : List Node → Bool
  | [] => true
  | arg :: rest => accepted language arg && allAccepted language rest

end

def opening : Piece := .mark .open_ 40

def closing : Piece := .mark .close 41

def bar : Piece := .mark .bar barMark

def grouped (parts : List Piece) : List Piece := opening :: (parts ++ [closing])

def joined : List (List Piece) → List Piece
  | [] => []
  | [part] => part
  | part :: rest => part ++ .separator :: .space :: joined rest

namespace Printer

variable (printer : Printer)

def signPiece : Sign → Piece
  | .plus => .mark .plus 43
  | .minus => if printer.display then .mark .minus 8722 else .mark .minus 45

def operatorPieces : BinaryOperator → List Piece
  | .add => [.space, .mark .plus 43, .space]
  | .subtract => [.space, if printer.display then .mark .minus 8722 else .mark .minus 45, .space]
  | .multiply => [.space, if printer.display then .mark .star 183 else .mark .star 42, .space]
  | .divide => [.space, .mark .slash 47, .space]
  | .power => [.mark .caret 94]

def operandPieces (node : Node) (min : Level) (inBar : Bool) (parts : Bool → List Piece) : List Piece :=
  if min.rank ≤ (level node).rank then parts inBar else grouped (parts false)

def juxtaposePieces (left : Node) (leftParts : List Piece) (right : Node) (inBar : Bool) (rightParts : List Piece) :
    Option (List Piece) :=
  match leadingPrimary right with
  | none => none
  | some lead =>
    let first := (charsOf printer.syntax_ rightParts).head?
    if lead.isNumber then none
    else if first = some barMark ∧ inBar = true then none
    else if (charsOf printer.syntax_ leftParts).getLast?.any isWordChar = false ∨ first.any isLetter = false then
      some (leftParts ++ rightParts)
    else if (rightmostLeaf left).isNumber ∧ first ≠ some 101 ∧ first ≠ some 69 then some (leftParts ++ rightParts)
    else some (leftParts ++ .space :: rightParts)

mutual

def pieces : Node → Bool → List Piece
  | .number raw _, _ => [.number raw]
  | .name name _, _ => [if printer.display ∧ name = text "pi" then .pi else .word name]
  | .unary op arg _, inBar => printer.signPiece op :: operandPieces arg .unary inBar (pieces arg)
  | .factorial arg _, inBar => operandPieces arg .postfixed inBar (pieces arg) ++ [.mark .bang 33]
  | .group inner _, _ => grouped (pieces inner false)
  | .call fn [only] written _, inBar =>
    if written = .bars ∧ fn = text "abs" then bar :: (pieces only true ++ [bar])
    else if written = .radical ∧ fn = text "sqrt" ∧ printer.display then
      .mark .radical 8730 :: operandPieces only .primary inBar (pieces only)
    else .word fn :: grouped (pieces only false)
  | .call fn args _ _, _ => .word fn :: grouped (joined (allPieces args))
  | .binary op left right implicit _, inBar =>
    let leftParts := operandPieces left (leftLevel op) inBar (pieces left)
    let juxtaposed :=
      if op = .multiply ∧ implicit ∧ printer.display then
        printer.juxtaposePieces left leftParts right inBar (pieces right inBar)
      else none
    juxtaposed.getD (leftParts ++ (printer.operatorPieces op ++ operandPieces right (rightLevel op) inBar (pieces right)))

def allPieces : List Node → List (List Piece)
  | [] => []
  | arg :: rest => pieces arg false :: allPieces rest

end

variable {printer}

theorem operand_pieces {node : Node} {min : Level} {inBar : Bool} {printed : Bool → Except Stop Text}
    {parts : Bool → List Piece} {out : Text}
    (each : ∀ inBar out, printed inBar = .ok out → out = charsOf printer.syntax_ (parts inBar))
    (ran : operand node min inBar printed = .ok out) :
    out = charsOf printer.syntax_ (operandPieces node min inBar parts) := by
  simp only [operand] at ran
  rw [operandPieces]
  split at ran
  next high =>
    rw [if_pos high]
    exact each inBar out ran
  next low =>
    rw [if_neg low]
    obtain ⟨inner, first, rest⟩ := bind_ok.mp ran
    cases rest
    rw [each false inner first]
    simp [grouped, charsOf, opening, closing, Piece.chars, text]

theorem juxtapose_pieces {left right : Node} {leftText : Text} {inBar : Bool} {printed : Bool → Except Stop Text}
    {leftParts rightParts : List Piece} {out : Option Text} (same : leftText = charsOf printer.syntax_ leftParts)
    (each : ∀ out, printed inBar = .ok out → out = charsOf printer.syntax_ rightParts)
    (ran : juxtapose left leftText right inBar printed = .ok out) :
    out = (printer.juxtaposePieces left leftParts right inBar rightParts).map (charsOf printer.syntax_) := by
  rw [juxtapose] at ran
  rw [juxtaposePieces]
  cases found : leadingPrimary right with
  | none =>
    rw [found] at ran
    cases ran
    rfl
  | some lead =>
    rw [found] at ran
    simp only at ran ⊢
    split at ran
    next number =>
      cases ran
      rw [if_pos number]
      rfl
    next other =>
      obtain ⟨rightText, first, rest⟩ := bind_ok.mp ran
      obtain rfl := each rightText first
      subst same
      rw [if_neg other]
      split at rest
      next closes =>
        cases rest
        rw [if_pos closes]
        rfl
      next opens =>
      rw [if_neg opens]
      split at rest
      next apart =>
        cases rest
        rw [if_pos apart, Option.map_some, charsOf_append]
      next near =>
      rw [if_neg near]
      split at rest <;> cases rest
      next glued => rw [if_pos glued, Option.map_some, charsOf_append]
      next loose =>
        rw [if_neg loose, Option.map_some, charsOf_append, List.append_assoc]
        rfl

theorem sign_pieces (op : Sign) : printer.signText op = (printer.signPiece op).chars printer.syntax_ := by
  cases op
  · rfl
  · rw [signText, signPiece]
    split <;> rfl

theorem operator_pieces (op : BinaryOperator) :
    printer.operatorText op = charsOf printer.syntax_ (printer.operatorPieces op) := by
  cases op <;> simp only [operatorText, operatorPieces] <;> first | rfl | (split <;> rfl)

theorem joined_pieces : ∀ parts : List (List Piece),
    joinWith (printer.syntax_.separator :: text " ") (parts.map (charsOf printer.syntax_)) =
      charsOf printer.syntax_ (joined parts)
  | [] | [_] => rfl
  | part :: next :: rest => by
    have behind := joined_pieces (next :: rest)
    simp only [List.map_cons, joinWith, joined] at behind ⊢
    rw [behind, charsOf_append]
    simp [charsOf, Piece.chars, text]

mutual

theorem print_pieces : ∀ (node : Node) {depth : Nat} {inBar : Bool} {out : Text},
    printer.print node depth inBar = .ok out → out = charsOf printer.syntax_ (printer.pieces node inBar)
  | .number raw _, _, _, _, ran => by
    simp only [print] at ran
    split at ran <;> cases ran
    simp [pieces, charsOf, Piece.chars]
  | .name name _, _, _, _, ran => by
    simp only [print] at ran
    split at ran <;> cases ran
    simp only [pieces]
    split <;> simp [charsOf, Piece.chars, piSign, text]
  | .unary op arg _, _, _, _, ran => by
    simp only [print] at ran
    split at ran
    · cases ran
    obtain ⟨argText, first, rest⟩ := bind_ok.mp ran
    cases rest
    rw [operand_pieces (fun _ _ => print_pieces arg) first, sign_pieces]
    rfl
  | .factorial arg _, _, _, _, ran => by
    simp only [print] at ran
    split at ran
    · cases ran
    obtain ⟨argText, first, rest⟩ := bind_ok.mp ran
    cases rest
    rw [operand_pieces (fun _ _ => print_pieces arg) first, pieces, charsOf_append]
    rfl
  | .group inner _, _, _, _, ran => by
    simp only [print] at ran
    split at ran
    · cases ran
    obtain ⟨innerText, first, rest⟩ := bind_ok.mp ran
    cases rest
    rw [print_pieces inner first]
    simp [pieces, grouped, charsOf, opening, closing, Piece.chars, text]
  | .call fn [only] written _, _, _, _, ran => by
    simp only [print] at ran
    split at ran
    · cases ran
    simp only [pieces]
    split at ran
    next bars =>
      obtain ⟨onlyText, first, rest⟩ := bind_ok.mp ran
      cases rest
      rw [if_pos bars, print_pieces only first]
      simp [charsOf, bar, Piece.chars, text, barMark]
    next =>
      rw [if_neg ‹_›]
      split at ran
      next radical =>
        obtain ⟨onlyText, first, rest⟩ := bind_ok.mp ran
        cases rest
        rw [if_pos radical, operand_pieces (fun _ _ => print_pieces only) first]
        rfl
      next =>
        rw [if_neg ‹_›]
        obtain ⟨onlyText, first, rest⟩ := bind_ok.mp ran
        cases rest
        rw [print_pieces only first]
        simp [grouped, charsOf, opening, closing, Piece.chars, text]
  | .call fn [] _ _, _, _, _, ran => by
    simp only [print] at ran
    split at ran
    · cases ran
    cases ran
    simp [pieces, allPieces, joined, grouped, charsOf, opening, closing, Piece.chars, text, joinWith]
  | .call fn (arg :: next :: others) _ _, _, _, _, ran => by
    simp only [print] at ran
    split at ran
    · cases ran
    obtain ⟨argTexts, first, rest⟩ := bind_ok.mp ran
    cases rest
    rw [printAll_pieces (arg :: next :: others) first, joined_pieces]
    simp [pieces, grouped, charsOf, opening, closing, Piece.chars, text]
  | .binary op left right implicit _, _, inBar, _, ran => by
    simp only [print] at ran
    split at ran
    · cases ran
    obtain ⟨leftText, first, rest⟩ := bind_ok.mp ran
    have ahead := operand_pieces (fun _ _ => print_pieces left) first
    -- an explicit product, and one that cannot be juxtaposed
    have explicit : ∀ {depth : Nat} {out : Text},
        (operand right (rightLevel op) inBar (printer.print right depth) >>= fun rightText =>
          (pure (leftText ++ printer.operatorText op ++ rightText) : Except Stop Text)) = .ok out →
        out = charsOf printer.syntax_ (operandPieces left (leftLevel op) inBar (printer.pieces left) ++
          (printer.operatorPieces op ++ operandPieces right (rightLevel op) inBar (printer.pieces right))) := by
      intro depth out ran
      obtain ⟨rightText, third, rest⟩ := bind_ok.mp ran
      cases rest
      rw [charsOf_append, charsOf_append, ← ahead, ← operand_pieces (fun _ _ => print_pieces right) third,
        operator_pieces, List.append_assoc]
    simp only [pieces]
    split at rest
    next has =>
      rw [if_pos has]
      obtain ⟨juxtaposed, second, rest⟩ := bind_ok.mp rest
      have asPieces := juxtapose_pieces ahead (fun _ => print_pieces right) second
      split at rest
      next whole =>
        cases rest
        obtain ⟨parts, found, rfl⟩ := Option.map_eq_some_iff.mp asPieces.symm
        rw [found]
        rfl
      next =>
        rw [Option.map_eq_none_iff.mp asPieces.symm]
        exact explicit rest
    next not =>
      rw [if_neg not]
      exact explicit rest

theorem printAll_pieces : ∀ (args : List Node) {depth : Nat} {out : List Text},
    printer.printAll args depth = .ok out → out = (printer.allPieces args).map (charsOf printer.syntax_)
  | [], _, _, ran => by
    cases ran
    rfl
  | arg :: rest, _, _, ran => by
    simp only [printAll] at ran
    obtain ⟨argText, first, ran⟩ := bind_ok.mp ran
    obtain ⟨restTexts, others, ran⟩ := bind_ok.mp ran
    cases ran
    rw [print_pieces arg first, printAll_pieces rest others]
    rfl

end

end Printer

end Arki.Expr
