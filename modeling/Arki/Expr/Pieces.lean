import Arki.Expr.Literal

/-! A text as the tokens and spaces it is written with, and when the lexer reads them back.

Only the first character after a piece matters: a literal must not go on, and a word must end.
-/

set_option autoImplicit false

namespace Arki.Expr

inductive Piece where
  | space
  | number (raw : Text)
  | word (name : Text)
  /-- `π`, read as the name `pi`. -/
  | pi
  | separator
  | mark (kind : TokenKind) (code : Nat)
  deriving DecidableEq

namespace Piece

def chars (syntax_ : Syntax) : Piece → Text
  | space => [32]
  | number raw => numberText syntax_ raw
  | word name => name
  | pi => [piSign]
  | separator => [syntax_.separator]
  | mark _ code => [code]

def token (syntax_ : Syntax) (index : Nat) (piece : Piece) : Option Token :=
  let made (kind : TokenKind) (text : Text) : Option Token := some ⟨kind, index, index + (piece.chars syntax_).length, text⟩
  match piece with
  | space => none
  | number raw => made .number raw
  | word name => made .name name
  | pi => made .name (text "pi")
  | separator => made .sep [syntax_.separator]
  | mark kind code => made kind [code]

def Valid : Piece → Prop
  | number raw => isNumberLiteral raw = true
  | word name => isName name = true
  | mark kind code => single code = some kind
  | _ => True

def Before (syntax_ : Syntax) (next : Option Nat) : Piece → Prop
  | number _ => ∀ code ∈ next, isDigit code = false ∧ code ≠ syntax_.decimal ∧ code ≠ 101 ∧ code ≠ 69
  | word _ => ∀ code ∈ next, isWordChar code = false
  | _ => True

end Piece

variable {syntax_ : Syntax} {piece : Piece} {pieces before after : List Piece} {index count maxTokens : Nat}

def charsOf (syntax_ : Syntax) (pieces : List Piece) : Text := pieces.flatMap (Piece.chars syntax_)

/-- The tokens of the pieces, the first of them at `index`. -/
def place (syntax_ : Syntax) : Nat → List Piece → List Token
  | _, [] => []
  | index, piece :: rest => (piece.token syntax_ index).toList ++ place syntax_ (index + (piece.chars syntax_).length) rest

def Apart (syntax_ : Syntax) : List Piece → Prop
  | [] => True
  | piece :: rest => piece.Valid ∧ piece.Before syntax_ (charsOf syntax_ rest).head? ∧ Apart syntax_ rest

theorem place_append (index : Nat) :
    place syntax_ index (before ++ after) =
      place syntax_ index before ++ place syntax_ (index + (charsOf syntax_ before).length) after := by
  induction before generalizing index with
  | nil => rfl
  | cons piece rest ih =>
    simp only [List.cons_append, place, ih, List.append_assoc, charsOf, List.flatMap_cons, List.length_append, Nat.add_assoc]

theorem charsOf_append : charsOf syntax_ (before ++ after) = charsOf syntax_ before ++ charsOf syntax_ after :=
  List.flatMap_append

theorem numberText_filled (syntax_ : Syntax) {raw : Text} (valid : isNumberLiteral raw = true) :
    ∃ code rest, numberText syntax_ raw = code :: rest ∧ (isDigit code = true ∨ code = syntax_.decimal) := by
  obtain ⟨whole, fraction, exponent, literal, rfl⟩ := isNumberLiteral_iff.mp valid
  rw [literal.numberText]
  have starts : startsNumber syntax_.decimal _ = true := literal.starts []
  rw [List.append_nil] at starts
  cases shape : literalText syntax_.decimal whole fraction exponent with
  | nil =>
    rw [shape] at starts
    cases starts
  | cons code rest =>
    rw [shape] at starts
    simp only [startsNumber, Bool.or_eq_true, Bool.and_eq_true, beq_iff_eq] at starts
    exact ⟨code, rest, rfl, starts.imp_right And.left⟩

theorem isName_filled {name : Text} (valid : isName name = true) :
    ∃ first rest, name = first :: rest ∧ isLetter first = true ∧ ∀ code ∈ rest, isWordChar code = true := by
  cases name with
  | nil => cases valid
  | cons first rest =>
    rw [isName, Bool.and_eq_true, List.all_eq_true] at valid
    exact ⟨first, rest, rfl, valid.1, valid.2⟩

theorem Piece.chars_filled (syntax_ : Syntax) (valid : piece.Valid) : ∃ code rest, piece.chars syntax_ = code :: rest := by
  cases piece with
  | number raw =>
    obtain ⟨code, rest, shape, _⟩ := numberText_filled syntax_ valid
    exact ⟨code, rest, shape⟩
  | word name =>
    obtain ⟨first, rest, shape, _⟩ := isName_filled valid
    exact ⟨first, rest, shape⟩
  | _ => exact ⟨_, _, rfl⟩

theorem Apart.head (apart : Apart syntax_ (piece :: pieces)) (rest : Text) :
    (charsOf syntax_ (piece :: pieces) ++ rest).head? = (charsOf syntax_ (piece :: pieces)).head? := by
  obtain ⟨code, others, shape⟩ := Piece.chars_filled syntax_ apart.1
  rw [charsOf, List.flatMap_cons, shape]
  rfl

theorem Apart.append (ahead : Apart syntax_ before) (behind : Apart syntax_ after)
    (junction : ∀ last ∈ before.getLast?, last.Before syntax_ (charsOf syntax_ after).head?) :
    Apart syntax_ (before ++ after) := by
  induction before with
  | nil => exact behind
  | cons piece rest ih =>
    obtain ⟨valid, next, apart⟩ := ahead
    refine ⟨valid, ?_, ih apart fun last final => junction last ?_⟩
    · cases rest with
      | nil => exact junction piece rfl
      | cons second others =>
        show piece.Before syntax_ (charsOf syntax_ ((second :: others) ++ after)).head?
        rwa [charsOf_append, apart.head]
    · cases rest with
      | nil => cases final
      | cons second others => rwa [List.getLast?_cons_cons]

theorem isLetter_plain {code : Nat} (letter : isLetter code = true) :
    isDigit code = false ∧ isSpace code = false ∧ code ≠ dotMark ∧ code ≠ commaMark ∧ code ≠ piSign := by
  simp only [isLetter, piSign, Bool.or_eq_true, Bool.and_eq_true, decide_eq_true_eq, beq_iff_eq, bne_iff_ne] at letter
  simp only [isDigit, isSpace, dotMark, commaMark, piSign, Bool.or_eq_false_iff, decide_eq_false_iff_not, beq_eq_false_iff_ne]
  omega

theorem isDigit_plain {code : Nat} (digit : isDigit code = true) : isSpace code = false := by
  simp only [isDigit, decide_eq_true_eq] at digit
  simp only [isSpace, Bool.or_eq_false_iff, decide_eq_false_iff_not, beq_eq_false_iff_ne]
  omega

theorem startsNumber_letter {mark code : Nat} {rest : Text} (digit : isDigit code = false) (other : code ≠ mark) :
    startsNumber mark (code :: rest) = false := by
  simp [startsNumber, digit, other]

theorem decimal_cases (syntax_ : Syntax) : syntax_.decimal = dotMark ∨ syntax_.decimal = commaMark := by
  cases syntax_ <;> simp [Syntax.decimal]

theorem nextToken_word {name rest : Text} (valid : isName name = true) (ends : ∀ code ∈ rest.head?, isWordChar code = false) :
    ∃ code others, name = code :: others ∧ isSpace code = false ∧
      nextToken syntax_ index code (code :: (others ++ rest)) = .ok ⟨.name, index, index + name.length, name⟩ := by
  obtain ⟨first, others, rfl, letter, word⟩ := isName_filled valid
  obtain ⟨digit, space, dot, comma, _⟩ := isLetter_plain letter
  have decimal : first ≠ syntax_.decimal := by
    obtain same | same := decimal_cases syntax_ <;> rw [same] <;> assumption
  have none : rest.takeWhile isWordChar = [] := by
    cases rest with
    | nil => rfl
    | cons code rest => rw [List.takeWhile_cons_of_neg (by rw [ends code rfl]; exact Bool.false_ne_true)]
  have whole : (first :: (others ++ rest)).takeWhile isWordChar = first :: others := by
    rw [← List.cons_append, List.takeWhile_append_of_pos, none, List.append_nil]
    intro code member
    obtain _ | ⟨_, member⟩ := member
    · rw [isWordChar, letter, Bool.true_or]
    · exact word code member
  refine ⟨first, others, rfl, space, ?_⟩
  rw [nextToken, startsNumber_letter digit decimal]
  simp only [letter, whole, if_true, Bool.false_eq_true, if_false]

theorem nextToken_mark {kind : TokenKind} {code : Nat} {rest : Text} (found : single code = some kind) :
    isSpace code = false ∧ nextToken syntax_ index code (code :: rest) = .ok ⟨kind, index, index + 1, [code]⟩ := by
  have plain : isSpace code = false ∧ isDigit code = false ∧ isLetter code = false ∧ code ≠ dotMark ∧ code ≠ commaMark ∧
      code ≠ semicolonMark ∧ code ≠ piSign := by
    simp only [single] at found
    split at found <;> first | decide | cases found
  obtain ⟨space, digit, letter, dot, comma, semicolon, pi⟩ := plain
  have decimal : code ≠ syntax_.decimal := by
    obtain same | same := decimal_cases syntax_ <;> rw [same] <;> assumption
  have separator : code ≠ syntax_.separator := by cases syntax_ <;> assumption
  refine ⟨space, ?_⟩
  rw [nextToken, startsNumber_letter digit decimal]
  simp only [letter, Bool.false_eq_true, if_false, if_neg pi, if_neg separator, found]

theorem separator_solid (syntax_ : Syntax) : isSpace syntax_.separator = false := by
  cases syntax_ <;> rfl

theorem nextToken_separator {rest : Text} :
    nextToken syntax_ index syntax_.separator (syntax_.separator :: rest) =
      .ok ⟨.sep, index, index + 1, [syntax_.separator]⟩ := by
  cases syntax_ <;> rfl

theorem nextToken_pi {rest : Text} :
    nextToken syntax_ index piSign (piSign :: rest) = .ok ⟨.name, index, index + 1, text "pi"⟩ := by
  cases syntax_ <;> rfl

theorem Piece.read (index : Nat) {rest : Text} (valid : piece.Valid) (next : piece.Before syntax_ rest.head?)
    (solid : piece ≠ .space) :
    ∃ code others token, piece.chars syntax_ = code :: others ∧ isSpace code = false ∧
      piece.token syntax_ index = some token ∧ token.stop = index + (piece.chars syntax_).length ∧
      nextToken syntax_ index code (code :: (others ++ rest)) = .ok token := by
  cases piece with
  | space => exact absurd rfl solid
  | number raw =>
    obtain ⟨code, others, shape, first⟩ := numberText_filled syntax_ valid
    have ends : EndsNumber syntax_.decimal rest :=
      ⟨fun code head => (next code head).1, fun code head => (next code head).2.1, fun code head => (next code head).2.2⟩
    have read : nextToken syntax_ index code _ = _ := nextToken_number valid ends
    rw [shape, List.cons_append] at read
    refine ⟨code, others, _, shape, ?_, rfl, rfl, ?_⟩
    · obtain digit | rfl := first
      · exact isDigit_plain digit
      · cases syntax_ <;> decide
    · rw [read]
      simp only [Piece.chars, shape]
  | word name =>
    obtain ⟨code, others, shape, space, read⟩ := nextToken_word valid next
    exact ⟨code, others, _, shape, space, rfl, rfl, read⟩
  | pi => exact ⟨_, _, _, rfl, rfl, rfl, rfl, nextToken_pi⟩
  | separator => exact ⟨_, _, _, rfl, separator_solid syntax_, rfl, rfl, nextToken_separator⟩
  | mark kind code =>
    obtain ⟨space, read⟩ := nextToken_mark valid
    exact ⟨_, _, _, rfl, space, rfl, rfl, read⟩

theorem tokenizeFrom_skip {part rest : Text} :
    tokenizeFrom syntax_ maxTokens part.length index count (part ++ rest) =
      tokenizeFrom syntax_ maxTokens 0 (index + part.length) count rest := by
  induction part generalizing index with
  | nil => rfl
  | cons code part ih =>
    rw [List.length_cons, List.cons_append, tokenizeFrom, ih]
    congr 1
    omega

theorem tokenizeFrom_pieces (apart : Apart syntax_ pieces)
    (room : count + (place syntax_ index pieces).length ≤ maxTokens) :
    tokenizeFrom syntax_ maxTokens 0 index count (charsOf syntax_ pieces) = .ok (place syntax_ index pieces) := by
  induction pieces generalizing index count with
  | nil => rfl
  | cons piece rest ih =>
    obtain ⟨valid, next, apart⟩ := apart
    by_cases space : piece = .space
    · subst space
      exact ih apart room
    · obtain ⟨code, others, token, shape, solid, made, stop, read⟩ := Piece.read index valid next space
      have chars : charsOf syntax_ (piece :: rest) = code :: (others ++ charsOf syntax_ rest) := by
        rw [charsOf, List.flatMap_cons, shape]
        rfl
      have length : token.stop - index - 1 = others.length := by
        rw [stop, shape, List.length_cons]
        omega
      rw [place, made, Option.toList_some, List.length_append, List.length_singleton] at room
      have behind : tokenizeFrom syntax_ maxTokens others.length (index + 1) (count + 1) (others ++ charsOf syntax_ rest) =
          .ok (place syntax_ (index + (piece.chars syntax_).length) rest) := by
        have further : index + (piece.chars syntax_).length = index + 1 + others.length := by
          rw [shape, List.length_cons]
          omega
        rw [further] at room ⊢
        rw [tokenizeFrom_skip]
        exact ih apart (by omega)
      rw [chars, tokenizeFrom, solid]
      simp only [Bool.false_eq_true, if_false, read, length, behind]
      rw [if_neg (by omega), place, made]
      rfl

end Arki.Expr
