import Arki.Expr.Lexer

/-! Number literals by their parts: what the scanner takes is a literal, and it takes a literal whole
where nothing after it could belong to it.
-/

set_option autoImplicit false

namespace Arki.Expr

/-- `digits [ mark digits ] | mark digits`, then an exponent. -/
def literalText (mark : Nat) (whole fraction exponent : Text) : Text :=
  whole ++ ((if fraction = [] then [] else mark :: fraction) ++ exponent)

def AllDigits (part : Text) : Prop := ∀ code ∈ part, isDigit code = true

inductive Exponent : Text → Prop where
  | none : Exponent []
  | some {marker : Nat} {sign power : Text} : marker = 101 ∨ marker = 69 → sign = [] ∨ sign = [43] ∨ sign = [45] →
      power ≠ [] → AllDigits power → Exponent (marker :: (sign ++ power))

structure Literal (whole fraction exponent : Text) : Prop where
  filled : whole ≠ [] ∨ fraction ≠ []
  wholeDigits : AllDigits whole
  fractionDigits : AllDigits fraction
  scientific : Exponent exponent

structure IsMark (mark : Nat) : Prop where
  digit : isDigit mark = false
  exponent : mark ≠ 101 ∧ mark ≠ 69

theorem Syntax.isMark (syntax_ : Syntax) : IsMark syntax_.decimal := by
  cases syntax_ <;> exact ⟨rfl, by decide⟩

structure EndsNumber (mark : Nat) (rest : Text) : Prop where
  digit : ∀ code ∈ rest.head?, isDigit code = false
  mark : ∀ code ∈ rest.head?, code ≠ mark
  exponent : ∀ code ∈ rest.head?, code ≠ 101 ∧ code ≠ 69

variable {rest exponent whole fraction : Text} {mark : Nat}

theorem digits_append {part : Text} (all : AllDigits part) (ends : ∀ code ∈ rest.head?, isDigit code = false) :
    digits (part ++ rest) = part.length := by
  have none : rest.takeWhile isDigit = [] := by
    cases rest with
    | nil => rfl
    | cons code rest => rw [List.takeWhile_cons_of_neg (by rw [ends code rfl]; exact Bool.false_ne_true)]
  rw [digits, List.takeWhile_append_of_pos all, none, List.append_nil]

theorem isDigit_sign {code : Nat} (digit : isDigit code = true) : code ≠ 43 ∧ code ≠ 45 := by
  simp only [isDigit, decide_eq_true_eq] at digit
  omega

theorem scanExponent_append (shape : Exponent exponent)
    (ends : EndsNumber mark rest) : scanExponent (exponent ++ rest) = exponent.length := by
  cases shape with
  | none =>
    cases rest with
    | nil => rfl
    | cons code rest =>
      have := ends.exponent code rfl
      rw [List.nil_append, scanExponent, if_neg (by omega)]
      rfl
  | some isMarker isSign filled all =>
    have count := digits_append all ends.digit
    obtain ⟨code, power, rfl⟩ := List.exists_cons_of_ne_nil filled
    have plain := isDigit_sign (all code List.mem_cons_self)
    have filled : (code :: power).length ≠ 0 := by simp
    rw [List.cons_append, List.append_assoc, scanExponent, if_pos isMarker]
    obtain rfl | rfl | rfl := isSign
    · have signless : ¬ ((code :: power ++ rest).head? = some 43 ∨ (code :: power ++ rest).head? = some 45) := by
        simp [plain]
      simp only [List.nil_append, if_neg signless, List.drop_zero, count]
      rw [if_neg filled]
      simp only [List.length_cons]
      omega
    all_goals
      simp only [List.cons_append, List.nil_append, List.head?_cons, true_or, or_true, if_true, List.drop_succ_cons,
        List.drop_zero]
      rw [← List.cons_append, count, if_neg filled]
      simp only [List.length_cons]
      omega

theorem exponent_head {code : Nat} (shape : Exponent exponent) (isMark : IsMark mark)
    (ends : EndsNumber mark rest) (head : code ∈ (exponent ++ rest).head?) : isDigit code = false ∧ code ≠ mark := by
  cases shape with
  | none => exact ⟨ends.digit code head, ends.mark code head⟩
  | some isMarker =>
    have away := isMark.exponent
    cases head
    obtain rfl | rfl := isMarker
    · exact ⟨rfl, Ne.symm away.1⟩
    · exact ⟨rfl, Ne.symm away.2⟩

theorem Literal.scan (literal : Literal whole fraction exponent)
    (isMark : IsMark mark) (ends : EndsNumber mark rest) :
    scanNumber (literalText mark whole fraction exponent ++ rest) mark =
      .ok (literalText mark whole fraction exponent).length := by
  obtain ⟨filled, wholeDigits, fractionDigits, shape⟩ := literal
  have scanned := scanExponent_append shape ends
  have head : ∀ code ∈ (exponent ++ rest).head?, isDigit code = false ∧ code ≠ mark := fun _ => exponent_head shape isMark ends
  have last : ¬ rest.head? = some mark := fun same => ends.mark mark same rfl
  by_cases empty : fraction = []
  · have text : literalText mark whole fraction exponent ++ rest = whole ++ (exponent ++ rest) := by
      rw [literalText, if_pos empty, List.nil_append, List.append_assoc]
    have length : (literalText mark whole fraction exponent).length = whole.length + exponent.length := by
      rw [literalText, if_pos empty, List.nil_append, List.length_append]
    have count : digits (whole ++ (exponent ++ rest)) = whole.length :=
      digits_append wholeDigits fun code first => (head code first).1
    have fraction : scanFraction mark (exponent ++ rest) = some 0 := by
      cases tail : exponent ++ rest with
      | nil => rfl
      | cons code others => rw [scanFraction, if_neg (head code (by rw [tail]; rfl)).2]
    rw [text, length, scanNumber]
    simp only [count, List.drop_left, fraction, Nat.add_zero, scanned]
    rw [← List.append_assoc, ← List.length_append, List.drop_left, if_neg last]
  · have text : literalText mark whole fraction exponent ++ rest = whole ++ (mark :: (fraction ++ (exponent ++ rest))) := by
      rw [literalText, if_neg empty, List.append_assoc, List.append_assoc, List.cons_append]
    have length : (literalText mark whole fraction exponent).length =
        whole.length + (1 + fraction.length) + exponent.length := by
      rw [literalText, if_neg empty]
      simp only [List.length_append, List.length_cons]
      omega
    have count : digits (whole ++ (mark :: (fraction ++ (exponent ++ rest)))) = whole.length :=
      digits_append wholeDigits fun code first => by
        cases first
        exact isMark.digit
    have count' : digits (fraction ++ (exponent ++ rest)) = fraction.length :=
      digits_append fractionDigits fun code first => (head code first).1
    have some : fraction.length ≠ 0 := by rwa [Ne, List.length_eq_zero_iff]
    have mantissa : whole.length + (1 + fraction.length) = (whole ++ mark :: fraction).length := by
      rw [List.length_append, List.length_cons, Nat.add_comm 1]
    have regrouped : whole ++ (mark :: (fraction ++ (exponent ++ rest))) = (whole ++ mark :: fraction) ++ (exponent ++ rest) := by
      rw [List.append_assoc, List.cons_append]
    rw [text, length, scanNumber]
    simp only [count, List.drop_left, scanFraction, if_true, count', if_neg some]
    rw [mantissa, regrouped, List.drop_left, scanned, ← List.append_assoc, ← List.length_append, List.drop_left, if_neg last]

theorem takeWhile_digits (source : Text) : AllDigits (source.takeWhile isDigit) := fun _ member =>
  List.mem_takeWhile_imp member

theorem take_digits (source : Text) : source.take (digits source) = source.takeWhile isDigit :=
  List.prefix_iff_eq_take.mp (List.takeWhile_prefix isDigit) |>.symm

theorem scanExponent_shape (source : Text) : Exponent (source.take (scanExponent source)) := by
  cases source with
  | nil => exact .none
  | cons marker rest =>
    rw [scanExponent]
    split
    next isMarker =>
      simp only
      generalize signed : (if rest.head? = some 43 ∨ rest.head? = some 45 then 1 else 0) = sign
      have isSign : rest.take sign = [] ∨ rest.take sign = [43] ∨ rest.take sign = [45] := by
        subst signed
        split
        next has =>
          cases rest with
          | nil => simp at has
          | cons code rest => simpa using has
        · exact .inl rfl
      split
      · exact .none
      next filled =>
        have shape : (marker :: rest).take (1 + sign + digits (rest.drop sign)) =
            marker :: (rest.take sign ++ (rest.drop sign).takeWhile isDigit) := by
          rw [Nat.add_assoc, Nat.add_comm 1, List.take_succ_cons, List.take_add, take_digits]
        rw [shape]
        refine .some isMarker isSign ?_ (takeWhile_digits _)
        rwa [digits, List.length_eq_zero_iff] at filled
    · exact .none

theorem startsNumber_mark {source : Text} (starts : startsNumber mark source = true)
    (none : source.takeWhile isDigit = []) : (source.drop (digits source)).head? = some mark := by
  rw [digits, none]
  cases source with
  | nil => cases starts
  | cons code rest =>
    have plain : isDigit code = false := by
      by_contra digit
      rw [Bool.not_eq_false] at digit
      rw [List.takeWhile_cons_of_pos digit] at none
      cases none
    simp only [startsNumber, plain, Bool.false_or, Bool.and_eq_true, beq_iff_eq] at starts
    rw [starts.1]
    rfl

theorem scanNumber_shape {length : Nat} {source : Text} (starts : startsNumber mark source = true)
    (scanned : scanNumber source mark = .ok length) :
    ∃ whole fraction exponent, Literal whole fraction exponent ∧
      source.take length = literalText mark whole fraction exponent := by
  simp only [scanNumber] at scanned
  split at scanned
  · cases scanned
  next fraction found =>
  split at scanned
  · cases scanned
  cases scanned
  have exponent := scanExponent_shape (source.drop (digits source + fraction))
  rw [List.take_add, List.take_add, take_digits, List.append_assoc]
  cases rest : source.drop (digits source) with
  | nil =>
    rw [rest] at found
    cases found
    refine ⟨source.takeWhile isDigit, [], _, ⟨.inl ?_, takeWhile_digits _, by rintro _ ⟨⟩, exponent⟩, rfl⟩
    intro none
    have := startsNumber_mark starts none
    rw [rest] at this
    cases this
  | cons code rest' =>
    rw [rest] at found
    simp only [scanFraction] at found
    split at found
    next same =>
      split at found
      · cases found
      next filled =>
        cases found
        subst same
        have shape : (code :: rest').take (1 + digits rest') = code :: rest'.takeWhile isDigit := by
          rw [Nat.add_comm, List.take_succ_cons, take_digits]
        rw [digits, List.length_eq_zero_iff] at filled
        refine ⟨source.takeWhile isDigit, rest'.takeWhile isDigit, _, ⟨.inr filled, takeWhile_digits _, takeWhile_digits _, exponent⟩, ?_⟩
        rw [literalText, if_neg filled, shape]
    next other =>
      cases found
      refine ⟨source.takeWhile isDigit, [], _, ⟨.inl ?_, takeWhile_digits _, by rintro _ ⟨⟩, exponent⟩, rfl⟩
      intro none
      have := startsNumber_mark starts none
      rw [rest] at this
      cases this
      exact other rfl

theorem Exponent.plain (shape : Exponent exponent) (isMark : IsMark mark)
    (sign : mark ≠ 43 ∧ mark ≠ 45) : mark ∉ exponent := by
  cases shape with
  | none => exact List.not_mem_nil
  | some isMarker isSign _ all =>
    have away := isMark.exponent
    intro member
    rw [List.mem_cons, List.mem_append] at member
    obtain same | member | member := member
    · omega
    · obtain rfl | rfl | rfl := isSign
      · cases member
      · exact sign.1 (List.mem_singleton.mp member)
      · exact sign.2 (List.mem_singleton.mp member)
    · have digit := all mark member
      rw [isMark.digit] at digit
      cases digit

theorem AllDigits.plain {part : Text} (all : AllDigits part) (isMark : IsMark mark) : mark ∉ part := by
  intro member
  have digit := all mark member
  rw [isMark.digit] at digit
  cases digit

theorem Literal.replace {other : Nat} (literal : Literal whole fraction exponent)
    (isMark : IsMark mark) (sign : mark ≠ 43 ∧ mark ≠ 45) :
    (literalText mark whole fraction exponent).replace mark other = literalText other whole fraction exponent := by
  rw [literalText, List.replace_append, if_neg (literal.wholeDigits.plain isMark), literalText]
  by_cases empty : fraction = []
  · rw [if_pos empty, if_pos empty, List.nil_append, List.replace_of_not_mem (literal.scientific.plain isMark sign)]
  · rw [if_neg empty, if_neg empty, List.cons_append, List.replace_cons_self]
    rfl

theorem Literal.starts (literal : Literal whole fraction exponent) (rest : Text) :
    startsNumber mark (literalText mark whole fraction exponent ++ rest) = true := by
  obtain ⟨filled, wholeDigits, fractionDigits, _⟩ := literal
  cases whole with
  | cons code whole =>
    have digit := wholeDigits code List.mem_cons_self
    simp [literalText, startsNumber, digit]
  | nil =>
    obtain filled | filled := filled
    · exact absurd rfl filled
    · obtain ⟨code, others, rfl⟩ := List.exists_cons_of_ne_nil filled
      have digit := fractionDigits code List.mem_cons_self
      simp [literalText, startsNumber, digit]

theorem dot_isMark : IsMark dotMark := Syntax.isMark .canonical

theorem EndsNumber.nil : EndsNumber mark [] := by
  constructor <;> rintro _ ⟨⟩

theorem isNumberLiteral_iff {raw : Text} :
    isNumberLiteral raw = true ↔ ∃ whole fraction exponent, Literal whole fraction exponent ∧
      raw = literalText dotMark whole fraction exponent := by
  rw [isNumberLiteral, Bool.and_eq_true, decide_eq_true_eq]
  constructor
  · rintro ⟨starts, scanned⟩
    obtain ⟨whole, fraction, exponent, literal, shape⟩ := scanNumber_shape starts scanned
    exact ⟨whole, fraction, exponent, literal, by rwa [List.take_length] at shape⟩
  · rintro ⟨whole, fraction, exponent, literal, rfl⟩
    have starts : startsNumber dotMark _ = true := literal.starts []
    have scanned := literal.scan dot_isMark .nil
    rw [List.append_nil] at starts scanned
    exact ⟨starts, scanned⟩

def numberText (syntax_ : Syntax) (raw : Text) : Text :=
  if syntax_ = .decimalComma then raw.replace dotMark commaMark else raw

theorem Literal.numberText (literal : Literal whole fraction exponent) (syntax_ : Syntax) :
    numberText syntax_ (literalText dotMark whole fraction exponent) =
      literalText syntax_.decimal whole fraction exponent := by
  cases syntax_ with
  | canonical => rfl
  | dotSemicolon => rfl
  | decimalComma => exact literal.replace dot_isMark (by decide)

theorem nextToken_number {syntax_ : Syntax} {raw : Text} {index code : Nat} (valid : isNumberLiteral raw = true)
    (ends : EndsNumber syntax_.decimal rest) :
    nextToken syntax_ index code (numberText syntax_ raw ++ rest) =
      .ok ⟨.number, index, index + (numberText syntax_ raw).length, raw⟩ := by
  obtain ⟨whole, fraction, exponent, literal, rfl⟩ := isNumberLiteral_iff.mp valid
  have back : replaceMark syntax_.decimal (literalText syntax_.decimal whole fraction exponent) =
      literalText dotMark whole fraction exponent :=
    literal.replace syntax_.isMark (by cases syntax_ <;> decide)
  rw [literal.numberText, nextToken, if_pos (literal.starts rest), literal.scan syntax_.isMark ends]
  simp only [List.take_left, back]

theorem replaceMark_literal {syntax_ : Syntax} {length : Nat} {source : Text}
    (starts : startsNumber syntax_.decimal source = true) (scanned : scanNumber source syntax_.decimal = .ok length) :
    isNumberLiteral (replaceMark syntax_.decimal (source.take length)) = true := by
  obtain ⟨whole, fraction, exponent, literal, shape⟩ := scanNumber_shape starts scanned
  rw [shape, replaceMark, literal.replace syntax_.isMark (by cases syntax_ <;> decide)]
  exact isNumberLiteral_iff.mpr ⟨whole, fraction, exponent, literal, rfl⟩

end Arki.Expr
