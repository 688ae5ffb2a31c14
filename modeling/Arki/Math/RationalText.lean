import Arki.Math.RationalExact

/-! What a text of a number says, and that reading answers with it. -/

set_option autoImplicit false

namespace Arki.Math

open Outcome (bind_ok)

/-- `[+-]?` -/
def IsSign (sign : List Char) : Prop := sign = [] ∨ sign = ['+'] ∨ sign = ['-']

def signed (sign : List Char) (x : ℚ) : ℚ := if sign = ['-'] then -x else x

/-- `\d+` -/
def Digits (text : List Char) : Prop := text ≠ [] ∧ text.all Char.isDigit = true

def digitsValue (text : List Char) : ℚ := Nat.ofDigitChars 10 text 0

/-- A repeating decimal, as far as `count` turns of its period. -/
def unrolled (integer fraction period : List Char) (count : Nat) : ℚ :=
  digitsValue (integer ++ fraction ++ (List.replicate count period).flatten) / 10 ^ (fraction.length + count * period.length)

inductive Says : List Char → ℚ → Prop where
  | decimal {sign integer fraction point exponent : List Char} {e : ℤ} (isSign : IsSign sign)
    (digits : Digits (integer ++ fraction)) (isPoint : point = [] ∧ fraction = [] ∨ point = ['.'])
    (isExponent : exponent = [] ∧ e = 0 ∨ ∃ marker sign digits, (marker = 'e' ∨ marker = 'E') ∧ IsSign sign ∧ Digits digits ∧
      exponent = marker :: sign ++ digits ∧ (e : ℚ) = signed sign (digitsValue digits)) :
    Says (sign ++ integer ++ point ++ fraction ++ exponent)
      (signed sign (digitsValue (integer ++ fraction) * 10 ^ (e - fraction.length)))
  | ratio {sign digits blanks blanks' sign' digits' : List Char} (isSign : IsSign sign) (isDigits : Digits digits)
    (isSign' : IsSign sign') (isDigits' : Digits digits') (areBlanks : (blanks ++ blanks').all isBlank = true)
    (isDivisor : digitsValue digits' ≠ 0) :
    Says (sign ++ digits ++ blanks ++ '/' :: blanks' ++ sign' ++ digits')
      (signed sign (digitsValue digits) / signed sign' (digitsValue digits'))
  | mixed {sign whole gap numerator blanks blanks' denominator : List Char} (isSign : IsSign sign) (isWhole : Digits whole)
    (areBlanks : (gap ++ blanks ++ blanks').all isBlank = true) (isGap : gap ≠ []) (isNumerator : Digits numerator)
    (isDenominator : Digits denominator) (isDivisor : digitsValue denominator ≠ 0) :
    Says (sign ++ whole ++ gap ++ numerator ++ blanks ++ '/' :: blanks' ++ denominator)
      (signed sign (digitsValue whole + digitsValue numerator / digitsValue denominator))
  /-- The number that every unrolling of the period reaches up to its last digit. -/
  | repeating {sign integer fraction period : List Char} {x : ℚ} (isSign : IsSign sign)
    (digits : (integer ++ fraction).all Char.isDigit = true) (isPeriod : Digits period)
    (reached : ∀ count, unrolled integer fraction period count ≤ x ∧
      x ≤ unrolled integer fraction period count + 1 / 10 ^ (fraction.length + count * period.length)) :
    Says (sign ++ integer ++ '.' :: fraction ++ '(' :: period ++ [')']) (signed sign x)

variable {text sign rest digits integer fraction : List Char}

theorem takeSign_spec (taken : takeSign text = (sign, rest)) :
    text = sign ++ rest ∧ IsSign sign := by
  unfold takeSign at taken
  split at taken
  · next signed_ =>
    cases taken
    cases text with
    | nil => simp at signed_
    | cons c rest =>
      refine ⟨rfl, .inr ?_⟩
      simpa using signed_
  · cases taken
    exact ⟨rfl, .inl rfl⟩

theorem takeDigits_spec (taken : takeDigits text = (digits, rest)) :
    text = digits ++ rest ∧ digits.all Char.isDigit = true := by
  cases taken
  exact ⟨List.takeWhile_append_dropWhile.symm, List.all_takeWhile⟩

theorem takeSlash_spec (taken : takeSlash text = some rest) :
    ∃ blanks blanks', text = blanks ++ '/' :: blanks' ++ rest ∧ (blanks ++ blanks').all isBlank = true := by
  unfold takeSlash at taken
  split at taken
  · next more dropped =>
    cases taken
    refine ⟨text.takeWhile isBlank, more.takeWhile isBlank, ?_, ?_⟩
    · rw [List.append_assoc, List.cons_append, List.takeWhile_append_dropWhile, ← dropped, List.takeWhile_append_dropWhile]
    · rw [List.all_append, List.all_takeWhile, List.all_takeWhile]
      rfl
  · cases taken

theorem ratio_syntax {numerator denominator : List Char} (taken : RATIO_SYNTAX text = some (numerator, denominator)) :
    ∃ sign digits blanks blanks' sign' digits', IsSign sign ∧ Digits digits ∧ IsSign sign' ∧ Digits digits' ∧
      (blanks ++ blanks').all isBlank = true ∧ numerator = sign ++ digits ∧ denominator = sign' ++ digits' ∧
      text = sign ++ digits ++ blanks ++ '/' :: blanks' ++ sign' ++ digits' := by
  unfold RATIO_SYNTAX at taken
  rcases signs : takeSign text with ⟨sign, afterSign⟩
  rcases digits_ : takeDigits afterSign with ⟨digits, afterDigits⟩
  simp only [signs, digits_] at taken
  obtain ⟨afterSlash, slashed, taken⟩ := Option.bind_eq_some_iff.mp taken
  rcases signs' : takeSign afterSlash with ⟨sign', afterSign'⟩
  rcases digits_' : takeDigits afterSign' with ⟨digits', ending⟩
  simp only [signs', digits_'] at taken
  obtain ⟨wholeS, isSign⟩ := takeSign_spec signs
  obtain ⟨wholeD, isDigits⟩ := takeDigits_spec digits_
  obtain ⟨blanks, blanks', wholeB, areBlanks⟩ := takeSlash_spec slashed
  obtain ⟨wholeS', isSign'⟩ := takeSign_spec signs'
  obtain ⟨wholeD', isDigits'⟩ := takeDigits_spec digits_'
  split at taken
  · next shape =>
    obtain ⟨some_, some_', rfl⟩ := shape
    cases taken
    refine ⟨sign, digits, blanks, blanks', sign', digits', isSign, ⟨some_, isDigits⟩, isSign', ⟨some_', isDigits'⟩, areBlanks,
      rfl, rfl, ?_⟩
    rw [wholeS, wholeD, wholeB, wholeS', wholeD']
    simp
  · cases taken

theorem repeating_syntax {period : List Char}
    (taken : REPEATING_SYNTAX text = some (sign, integer, fraction, period)) : IsSign sign ∧
      (integer ++ fraction).all Char.isDigit = true ∧ Digits period ∧
      text = sign ++ integer ++ '.' :: fraction ++ '(' :: period ++ [')'] := by
  unfold REPEATING_SYNTAX at taken
  rcases signs : takeSign text with ⟨sign_, afterSign⟩
  rcases integers : takeDigits afterSign with ⟨integer_, afterInteger⟩
  simp only [signs, integers] at taken
  obtain ⟨wholeS, isSign⟩ := takeSign_spec signs
  obtain ⟨wholeI, isInteger⟩ := takeDigits_spec integers
  split at taken
  · next afterPoint =>
    rcases fractions : takeDigits afterPoint with ⟨fraction_, afterFraction⟩
    simp only [fractions] at taken
    obtain ⟨wholeF, isFraction⟩ := takeDigits_spec fractions
    split at taken
    · next afterOpen =>
      rcases periods : takeDigits afterOpen with ⟨period_, ending⟩
      simp only [periods] at taken
      obtain ⟨wholeP, isPeriod⟩ := takeDigits_spec periods
      split at taken
      · next shape =>
        obtain ⟨some_, rfl⟩ := shape
        cases taken
        refine ⟨isSign, ?_, ⟨some_, isPeriod⟩, ?_⟩
        · rw [List.all_append, isInteger, isFraction]
          rfl
        · rw [wholeS, wholeI, wholeF, wholeP]
          simp
      · cases taken
    · cases taken
  · cases taken

theorem mixed_syntax {whole numerator denominator : List Char}
    (taken : MIXED_SYNTAX text = some (sign, whole, numerator, denominator)) : ∃ gap blanks blanks', IsSign sign ∧
      Digits whole ∧ Digits numerator ∧ Digits denominator ∧ gap ≠ [] ∧ (gap ++ blanks ++ blanks').all isBlank = true ∧
      text = sign ++ whole ++ gap ++ numerator ++ blanks ++ '/' :: blanks' ++ denominator := by
  unfold MIXED_SYNTAX at taken
  rcases signs : takeSign text with ⟨sign_, afterSign⟩
  rcases wholes : takeDigits afterSign with ⟨whole_, afterWhole⟩
  rcases numerators : takeDigits (afterWhole.dropWhile isBlank) with ⟨numerator_, afterNumerator⟩
  simp only [signs, wholes, numerators] at taken
  obtain ⟨afterSlash, slashed, taken⟩ := Option.bind_eq_some_iff.mp taken
  rcases denominators : takeDigits afterSlash with ⟨denominator_, ending⟩
  simp only [denominators] at taken
  obtain ⟨wholeS, isSign⟩ := takeSign_spec signs
  obtain ⟨wholeW, isWhole⟩ := takeDigits_spec wholes
  obtain ⟨wholeN, isNumerator⟩ := takeDigits_spec numerators
  obtain ⟨blanks, blanks', wholeB, areBlanks⟩ := takeSlash_spec slashed
  obtain ⟨wholeD, isDenominator⟩ := takeDigits_spec denominators
  split at taken
  · next shape =>
    obtain ⟨someW, isGap, someN, someD, rfl⟩ := shape
    cases taken
    refine ⟨afterWhole.takeWhile isBlank, blanks, blanks', isSign, ⟨someW, isWhole⟩, ⟨someN, isNumerator⟩,
      ⟨someD, isDenominator⟩, isGap, ?_, ?_⟩
    · rw [List.append_assoc, List.all_append, areBlanks, List.all_takeWhile]
      rfl
    · have gapped : afterWhole = afterWhole.takeWhile isBlank ++ (numerator ++ (blanks ++ '/' :: blanks' ++ denominator)) := by
        conv => lhs; rw [← @List.takeWhile_append_dropWhile _ isBlank afterWhole]
        rw [wholeN, wholeB, wholeD]
        simp
      rw [wholeS, wholeW]
      conv => lhs; rw [gapped]
      simp
  · cases taken

theorem digit_sign (isSign : IsSign sign) (isDigits : Digits digits) :
    (if (sign ++ digits).head? = some '+' || (sign ++ digits).head? = some '-' then (sign ++ digits).tail else sign ++ digits) =
      digits ∧ ((sign ++ digits).head? = some '-' ↔ sign = ['-']) := by
  obtain ⟨c, rest, rfl⟩ := List.exists_cons_of_ne_nil isDigits.1
  have digit : c.isDigit = true := List.all_eq_true.mp isDigits.2 c (by simp)
  obtain ⟨plus, minus, -⟩ := digit_apart digit
  rcases isSign with rfl | rfl | rfl
  · simp [plus, minus]
  · simp
  · simp

theorem readExponent_digits (isSign : IsSign sign) (isDigits : Digits digits) :
    readExponent (sign ++ digits) =
      some (if sign = ['-'] then -(Nat.ofDigitChars 10 digits 0 : Int) else Nat.ofDigitChars 10 digits 0) := by
  obtain ⟨unsigned, negative⟩ := digit_sign isSign isDigits
  have fine : ¬ (digits = [] || !digits.all Char.isDigit) = true := by
    simp [isDigits.1, isDigits.2]
  unfold readExponent
  simp only [unsigned, if_neg fine]
  simp only [negative]

theorem readExponent_some {n : Int} (isRead : readExponent text = some n) : ∃ sign digits, IsSign sign ∧
    Digits digits ∧ text = sign ++ digits ∧ (n : ℚ) = signed sign (digitsValue digits) := by
  rcases signs : takeSign text with ⟨sign, digits⟩
  obtain ⟨whole, isSign⟩ := takeSign_spec signs
  have isDigits : Digits digits := by
    unfold readExponent at isRead
    have same : (if text.head? = some '+' || text.head? = some '-' then text.tail else text) = digits := by
      unfold takeSign at signs
      split at signs
      · next signed_ =>
        cases signs
        rw [if_pos signed_, List.drop_one]
      · next unsigned =>
        cases signs
        rw [if_neg unsigned]
    simp only [same] at isRead
    split at isRead
    · cases isRead
    · next fine =>
      simp only [Bool.or_eq_true, decide_eq_true_eq, Bool.not_eq_true', not_or, Bool.not_eq_false] at fine
      exact ⟨fine.1, fine.2⟩
  refine ⟨sign, digits, isSign, isDigits, whole, ?_⟩
  rw [whole, readExponent_digits isSign isDigits] at isRead
  cases isRead
  unfold signed digitsValue
  split
  · push_cast
    rfl
  · push_cast
    rfl

theorem toBigIntInput_digits (isSign : IsSign sign) (isDigits : Digits digits) {what : String} {n : Int}
    (isRead : toBigIntInput (.string (String.ofList (sign ++ digits))) what = .ok n) :
    (n : ℚ) = signed sign (digitsValue digits) := by
  unfold toBigIntInput at isRead
  simp only [String.toList_ofList, readExponent_digits isSign isDigits] at isRead
  split at isRead
  · cases isRead
  · cases isRead
    unfold signed digitsValue
    split
    · push_cast
      rfl
    · push_cast
      rfl

theorem signed_apply {n : Int} {x : ℚ} (is : (n : ℚ) = x) :
    (((if sign = ['-'] then -n else n) : Int) : ℚ) = signed sign x := by
  unfold signed
  split
  · rw [Int.cast_neg, is]
  · exact is

theorem signed_div (x y : ℚ) : signed sign x / y = signed sign (x / y) := by
  unfold signed
  split
  · exact neg_div y x
  · rfl

namespace Rational

variable {r : Rational}

theorem fromRatio_says {sign' digits' blanks blanks' : List Char} (isSign : IsSign sign) (isDigits : Digits digits)
    (isSign' : IsSign sign') (isDigits' : Digits digits') (areBlanks : (blanks ++ blanks').all isBlank = true)
    (built : fromRatio (sign ++ digits) (sign' ++ digits') = .ok r) :
    r.Reduced ∧ Says (sign ++ digits ++ blanks ++ '/' :: blanks' ++ sign' ++ digits') r.value := by
  obtain ⟨n, isN, built⟩ := bind_ok.mp built
  obtain ⟨d, isD, built⟩ := bind_ok.mp built
  obtain ⟨some_, reduced, is⟩ := fromParts_ok built
  have left := toBigIntInput_digits isSign isDigits isN
  have right := toBigIntInput_digits isSign' isDigits' isD
  refine ⟨reduced, ?_⟩
  rw [is, left, right]
  refine .ratio isSign isDigits isSign' isDigits' areBlanks fun none_ => ?_
  have zero_ : (d : ℚ) = 0 := by
    rw [right, none_]
    unfold signed
    split
    · exact neg_zero
    · rfl
  exact some_ (by exact_mod_cast zero_)

theorem fromMixed_says {whole gap numerator blanks blanks' denominator : List Char} (isSign : IsSign sign)
    (isWhole : Digits whole) (isNumerator : Digits numerator) (isDenominator : Digits denominator) (isGap : gap ≠ [])
    (areBlanks : (gap ++ blanks ++ blanks').all isBlank = true)
    (built : fromMixed sign whole numerator denominator = .ok r) :
    r.Reduced ∧ Says (sign ++ whole ++ gap ++ numerator ++ blanks ++ '/' :: blanks' ++ denominator) r.value := by
  obtain ⟨d, isD, built⟩ := bind_ok.mp built
  obtain ⟨w, isW, built⟩ := bind_ok.mp built
  obtain ⟨p, isP, built⟩ := bind_ok.mp built
  obtain ⟨n, isN, built⟩ := bind_ok.mp built
  obtain ⟨some_, reduced, is⟩ := fromParts_ok built
  have noSign : IsSign [] := .inl rfl
  have denominator_ := toBigIntInput_digits noSign isDenominator isD
  have whole_ := toBigIntInput_digits noSign isWhole isW
  have numerator_ := toBigIntInput_digits noSign isNumerator isN
  have plain (x : ℚ) : signed [] x = x := rfl
  rw [plain] at denominator_ whole_ numerator_
  have isDivisor : digitsValue denominator ≠ 0 := by
    rw [← denominator_]
    exact_mod_cast some_
  refine ⟨reduced, ?_⟩
  have sum : ((p + n : Int) : ℚ) = digitsValue whole * digitsValue denominator + digitsValue numerator := by
    rw [multiplyChecked_ok isP, ← denominator_, ← whole_, ← numerator_]
    push_cast
    rfl
  rw [is, signed_apply sum, denominator_, signed_div, add_div, mul_div_cancel_right₀ _ isDivisor]
  exact .mixed isSign isWhole areBlanks isGap isNumerator isDenominator isDivisor

theorem digits_append (left right : List Char) : Nat.ofDigitChars 10 (left ++ right) 0 =
    Nat.ofDigitChars 10 left 0 * 10 ^ right.length + Nat.ofDigitChars 10 right 0 := by
  rw [Nat.ofDigitChars_append, Nat.ofDigitChars_eq_ofDigitChars_zero, mul_comm]

theorem turns_value (period : List Char) (count : Nat) :
    digitsValue (List.replicate count period).flatten * (10 ^ period.length - 1) =
      digitsValue period * (10 ^ (count * period.length) - 1) := by
  induction count with
  | zero => simp [digitsValue, Nat.ofDigitChars_nil]
  | succ count ih =>
    have length : (List.replicate count period).flatten.length = count * period.length := by simp
    have step : digitsValue (List.replicate (count + 1) period).flatten =
        digitsValue period * 10 ^ (count * period.length) + digitsValue (List.replicate count period).flatten := by
      rw [List.replicate_succ, List.flatten_cons, digitsValue, digits_append, length]
      push_cast
      rfl
    rw [step, add_mul, ih, add_one_mul, pow_add]
    ring

theorem repeating_reached {period : List Char} (isPeriod : Digits period) (count : Nat) :
    let x := (digitsValue (integer ++ fraction) * (10 ^ period.length - 1) + digitsValue period) /
      ((10 ^ period.length - 1) * 10 ^ fraction.length)
    unrolled integer fraction period count ≤ x ∧
      x ≤ unrolled integer fraction period count + 1 / 10 ^ (fraction.length + count * period.length) := by
  intro x
  have ten : (1 : ℚ) < 10 ^ period.length :=
    one_lt_pow₀ (by norm_num) (List.length_pos_iff.mpr isPeriod.1).ne'
  have above : (0 : ℚ) < 10 ^ period.length - 1 := sub_pos.mpr ten
  have unit : (0 : ℚ) < 10 ^ (fraction.length + count * period.length) := by positivity
  have below : digitsValue period ≤ 10 ^ period.length - 1 := by
    have less := ofDigitChars_lt period 0 isPeriod.2
    have cast : Nat.ofDigitChars 10 period 0 + 1 ≤ 10 ^ period.length := by omega
    have castQ : (Nat.ofDigitChars 10 period 0 : ℚ) + 1 ≤ 10 ^ period.length := by exact_mod_cast cast
    rw [digitsValue]
    linarith
  have nonneg : (0 : ℚ) ≤ digitsValue period := Nat.cast_nonneg _
  -- what is left past the last turn
  have rest : x - unrolled integer fraction period count =
      digitsValue period / ((10 ^ period.length - 1) * 10 ^ (fraction.length + count * period.length)) := by
    have turns := turns_value period count
    have length : (List.replicate count period).flatten.length = count * period.length := by simp
    have whole : digitsValue (integer ++ fraction ++ (List.replicate count period).flatten) =
        digitsValue (integer ++ fraction) * 10 ^ (count * period.length) + digitsValue (List.replicate count period).flatten := by
      rw [digitsValue, digits_append, length]
      push_cast
      rfl
    rw [unrolled, whole]
    generalize digitsValue (List.replicate count period).flatten = turned at turns
    have isTurned : turned = digitsValue period * (10 ^ (count * period.length) - 1) / (10 ^ period.length - 1) := by
      rw [eq_div_iff above.ne', turns]
    rw [isTurned, pow_add]
    have apart := above.ne'
    simp only [x]
    field_simp
    ring
  have bound : digitsValue period / ((10 ^ period.length - 1) * 10 ^ (fraction.length + count * period.length)) ≤
      1 / 10 ^ (fraction.length + count * period.length) := by
    rw [div_le_div_iff₀ (mul_pos above unit) unit, one_mul]
    exact mul_le_mul_of_nonneg_right below unit.le
  have atLeast : 0 ≤ digitsValue period / ((10 ^ period.length - 1) * 10 ^ (fraction.length + count * period.length)) :=
    div_nonneg nonneg (mul_pos above unit).le
  constructor
  · linarith
  · linarith

theorem fromRepeating_says {period : List Char} (isSign : IsSign sign)
    (digits : (integer ++ fraction).all Char.isDigit = true) (isPeriod : Digits period)
    (built : fromRepeating sign integer fraction period = .ok r) :
    r.Reduced ∧ Says (sign ++ integer ++ '.' :: fraction ++ '(' :: period ++ [')']) r.value := by
  obtain ⟨_, _, built⟩ := bind_ok.mp built
  obtain ⟨-, reduced, is⟩ := fromParts_ok built
  have fixed : Nat.ofDigitChars 10 ((if integer = [] then ['0'] else integer) ++ fraction) 0 =
      Nat.ofDigitChars 10 (integer ++ fraction) 0 := by
    split
    · next none_ => rw [none_, digits_append]; simp [Nat.ofDigitChars_cons, Nat.ofDigitChars_nil]
    · rfl
  rw [fixed] at is
  refine ⟨reduced, ?_⟩
  have numerator : (((Nat.ofDigitChars 10 (integer ++ fraction) 0 : Int) * (10 ^ period.length - 1) +
      (Nat.ofDigitChars 10 period 0 : Int) : Int) : ℚ) =
        digitsValue (integer ++ fraction) * (10 ^ period.length - 1) + digitsValue period := by
    unfold digitsValue
    push_cast
    rfl
  have denominator : (((10 ^ period.length - 1) * 10 ^ fraction.length : Int) : ℚ) =
      (10 ^ period.length - 1) * 10 ^ fraction.length := by
    push_cast
    rfl
  rw [is, signed_apply numerator, denominator, signed_div]
  exact .repeating isSign digits isPeriod fun count => repeating_reached isPeriod count

end Rational

theorem zeros_value (text : List Char) : Nat.ofDigitChars 10 (text.dropWhile (· = '0')) 0 = Nat.ofDigitChars 10 text 0 := by
  induction text with
  | nil => rfl
  | cons c rest ih =>
    by_cases isZero : c = '0'
    · rw [List.dropWhile_cons_of_pos (by simpa using isZero), ih, isZero]
      simp [Nat.ofDigitChars_cons]
    · rw [List.dropWhile_cons_of_neg (by simpa using isZero)]

theorem partsOf_value {negative : Bool} {exponent : Int} {d : Decimal}
    (read : partsOf negative integer fraction exponent = .ok d) :
    d.value = (if negative then -1 else 1) * (digitsValue (integer ++ fraction) * 10 ^ (exponent - fraction.length)) := by
  rw [partsOf_eq, zeros_value] at read
  generalize exceedsDigitLimit _ = long, exceedsScaleLimit _ = far at read
  cases long with
  | true => cases read
  | false =>
  cases far with
  | true => cases read
  | false =>
  have digits : (((if negative then -(Nat.ofDigitChars 10 (integer ++ fraction) 0 : Int)
      else Nat.ofDigitChars 10 (integer ++ fraction) 0 : Int)) : ℚ) =
        (if negative then -1 else 1) * digitsValue (integer ++ fraction) := by
    unfold digitsValue
    split
    · push_cast
      ring
    · push_cast
      ring
  rw [if_neg Bool.false_ne_true, if_neg Bool.false_ne_true] at read
  by_cases below : (fraction.length - exponent : Int) < 0
  · rw [if_pos below] at read
    cases read
    have power : ((exponent - fraction.length : ℤ)) = ((-(fraction.length - exponent : Int)).toNat : ℤ) := by omega
    rw [Decimal.value, power, zpow_natCast]
    push_cast
    push_cast at digits
    rw [digits, pow_zero, div_one, mul_assoc]
  · rw [if_neg below] at read
    cases read
    have power : ((exponent - fraction.length : ℤ)) = -((fraction.length - exponent : Int).toNat : ℤ) := by omega
    rw [Decimal.value, power, zpow_neg, zpow_natCast, digits, div_eq_mul_inv, mul_assoc]

theorem exponentOf_spec {count : Nat} {e : Int} (read : exponentOf count rest = .ok e) : count ≠ 0 ∧
    (rest = [] ∧ e = 0 ∨ ∃ marker sign digits, (marker = 'e' ∨ marker = 'E') ∧ IsSign sign ∧ Digits digits ∧
      rest = marker :: sign ++ digits ∧ (e : ℚ) = signed sign (digitsValue digits)) := by
  unfold exponentOf at read
  split at read
  · split at read
    · cases read
    · next some_ =>
      cases read
      exact ⟨some_, .inl ⟨rfl, rfl⟩⟩
  · next marker text =>
    split at read
    · next isMarker =>
      split at read
      · cases read
      · next exponent isRead =>
        split at read
        · cases read
        · next some_ =>
          split at read
          · cases read
          · cases read
            obtain ⟨sign, digits, isSign, isDigits, whole, is⟩ := readExponent_some isRead
            refine ⟨some_, .inr ⟨marker, sign, digits, by simpa using isMarker, isSign, isDigits, ?_, is⟩⟩
            rw [whole]
            rfl
    · cases read

theorem parseDecimalString_says {input : List Char} {d : Decimal} (read : parseDecimalString input = .ok d) : Says input d.value := by
  rcases signs : takeSign input with ⟨sign, unsigned⟩
  obtain ⟨wholeS, isSign⟩ := takeSign_spec signs
  have stripped : (if input.head? = some '+' || input.head? = some '-' then input.tail else input) = unsigned := by
    unfold takeSign at signs
    split at signs
    · next signed_ =>
      cases signs
      rw [if_pos signed_, List.drop_one]
    · next plain =>
      cases signs
      rw [if_neg plain]
  have negative : (decide (input.head? = some '-')) = decide (sign = ['-']) := by
    unfold takeSign at signs
    split at signs
    · next signed_ =>
      cases signs
      cases input with
      | nil => rfl
      | cons c rest => simp
    · next plain =>
      cases signs
      have apart : ¬ input.head? = some '-' := by
        intro is
        exact plain (by simp [is])
      simp [apart]
  unfold parseDecimalString at read
  simp only [stripped] at read
  simp only [negative] at read
  obtain ⟨e, isE, read⟩ := bind_ok.mp read
  obtain ⟨some_, isExponent⟩ := exponentOf_spec isE
  have whole : unsigned = unsigned.takeWhile Char.isDigit ++ unsigned.dropWhile Char.isDigit :=
    List.takeWhile_append_dropWhile.symm
  have value := partsOf_value read
  -- the point, when there is one
  obtain ⟨point, isPoint, rejoined⟩ : ∃ point : List Char,
      (point = [] ∧ (if (unsigned.dropWhile Char.isDigit).head? = some '.' then
        (unsigned.dropWhile Char.isDigit).tail.takeWhile Char.isDigit else []) = [] ∨ point = ['.']) ∧
      unsigned.dropWhile Char.isDigit = point ++ ((if (unsigned.dropWhile Char.isDigit).head? = some '.' then
        (unsigned.dropWhile Char.isDigit).tail.takeWhile Char.isDigit else []) ++
        (if (unsigned.dropWhile Char.isDigit).head? = some '.' then
          (unsigned.dropWhile Char.isDigit).tail.dropWhile Char.isDigit else unsigned.dropWhile Char.isDigit)) := by
    by_cases pointed : (unsigned.dropWhile Char.isDigit).head? = some '.'
    · refine ⟨['.'], .inr rfl, ?_⟩
      rw [if_pos pointed, if_pos pointed, List.takeWhile_append_dropWhile]
      cases dropped : unsigned.dropWhile Char.isDigit with
      | nil =>
        rw [dropped] at pointed
        cases pointed
      | cons c rest =>
        rw [dropped] at pointed
        cases pointed
        rfl
    · exact ⟨[], .inl ⟨rfl, if_neg pointed⟩, by rw [if_neg pointed, if_neg pointed]; rfl⟩
  have fractions := fraction_all ((unsigned.dropWhile Char.isDigit).head? = some '.') (unsigned.dropWhile Char.isDigit).tail
  generalize (if (unsigned.dropWhile Char.isDigit).head? = some '.' then
    (unsigned.dropWhile Char.isDigit).tail.takeWhile Char.isDigit else []) = fraction at *
  generalize (if (unsigned.dropWhile Char.isDigit).head? = some '.' then
    (unsigned.dropWhile Char.isDigit).tail.dropWhile Char.isDigit else unsigned.dropWhile Char.isDigit) = exponent at *
  have digits : Digits (unsigned.takeWhile Char.isDigit ++ fraction) := by
    refine ⟨fun none_ => some_ ?_, ?_⟩
    · rw [← List.length_append, none_]
      rfl
    · rw [List.all_append, List.all_takeWhile, fractions]
      rfl
  have said := Says.decimal isSign digits isPoint isExponent
  have text : input = sign ++ unsigned.takeWhile Char.isDigit ++ point ++ fraction ++ exponent := by
    rw [wholeS]
    conv => lhs; rw [whole, rejoined]
    simp
  rw [← text] at said
  have same : d.value = signed sign (digitsValue (unsigned.takeWhile Char.isDigit ++ fraction) * 10 ^ (e - fraction.length)) := by
    rw [value, signed]
    by_cases isNegative : sign = ['-']
    · simp [isNegative]
    · simp [isNegative]
  rw [same]
  exact said

end Arki.Math
