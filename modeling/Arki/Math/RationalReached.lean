import Arki.Math.RationalText

/-! Every composition of readings and operations: lowest terms and the exact value; and which numbers read back from
their own text.
-/

set_option autoImplicit false

namespace Arki.Math

open Outcome (bind_ok)

namespace Rational

variable {r : Rational}

theorem decimal_value {d : Decimal} (built : fromParts d.coefficient (10 ^ d.scale) = .ok r) :
    r.Reduced ∧ r.value = d.value := by
  obtain ⟨-, reduced, is⟩ := fromParts_ok built
  refine ⟨reduced, ?_⟩
  rw [is, Decimal.value]
  push_cast
  rfl

theorem decimalParts_says {input : String} {d : Decimal} (read : decimalParts input = .ok d) : Says input.toList d.value := by
  unfold decimalParts at read
  cases parsed : parseDecimalString input.toList with
  | ok parts =>
    rw [parsed] at read
    cases read
    exact parseDecimalString_says parsed
  | error failure =>
    rw [parsed] at read
    cases failure with
    | invalidNumber => cases read
    | numberOutOfRange => cases read

theorem parseRational_says {input : String} (built : parseRational input = .ok r) : r.Reduced ∧ Says input.toList r.value := by
  unfold parseRational at built
  split at built
  · next sign whole numerator denominator taken =>
    obtain ⟨gap, blanks, blanks', isSign, isWhole, isNumerator, isDenominator, isGap, areBlanks, text⟩ := mixed_syntax taken
    rw [text]
    exact fromMixed_says isSign isWhole isNumerator isDenominator isGap areBlanks built
  split at built
  · next numerator denominator taken =>
    obtain ⟨sign, digits, blanks, blanks', sign', digits', isSign, isDigits, isSign', isDigits', areBlanks, rfl, rfl, text⟩ :=
      ratio_syntax taken
    rw [text]
    exact fromRatio_says isSign isDigits isSign' isDigits' areBlanks built
  split at built
  · next sign integer fraction period taken =>
    obtain ⟨isSign, digits, isPeriod, text⟩ := repeating_syntax taken
    rw [text]
    exact fromRepeating_says isSign digits isPeriod built
  · obtain ⟨parts, read, built⟩ := bind_ok.mp built
    obtain ⟨reduced, is⟩ := decimal_value built
    rw [is]
    exact ⟨reduced, decimalParts_says read⟩

theorem int_text (n : Int) : (ToString.toString n).toList = (if n < 0 then ['-'] else []) ++ Nat.toDigits 10 n.natAbs := by
  rw [Int.toString_eq_repr, Int.repr_eq_if]
  by_cases negative : n < 0
  · rw [if_neg (by omega), if_pos negative, String.toList_append, Nat.toList_repr, show (-n).toNat = n.natAbs by omega]
    rfl
  · rw [if_pos (by omega), if_neg negative, Nat.toList_repr, show n.toNat = n.natAbs by omega]
    rfl

theorem int_sign (n : Int) : IsSign (if n < 0 then ['-'] else []) := by
  split
  · exact .inr (.inr rfl)
  · exact .inl rfl

theorem toDigits_digits (n : Nat) : Digits (Nat.toDigits 10 n) := ⟨Nat.toDigits_ne_nil, toDigits_all n⟩

theorem digits_not_blank {digits : List Char} (isDigits : Digits digits) (rest : List Char) :
    (digits ++ rest).dropWhile isBlank = digits ++ rest := by
  obtain ⟨c, more, rfl⟩ := List.exists_cons_of_ne_nil isDigits.1
  have digit : c.isDigit = true := List.all_eq_true.mp isDigits.2 c (by simp)
  have notBlank : ¬ isBlank c = true := by
    have code : 48 ≤ c.toNat ∧ c.toNat ≤ 57 := by
      simp only [Char.isDigit, Bool.and_eq_true, decide_eq_true_eq, ge_iff_le, UInt32.le_iff_toNat_le] at digit
      exact digit
    simp only [isBlank, Bool.or_eq_true, Bool.and_eq_true, decide_eq_true_eq]
    omega
  rw [List.cons_append, List.dropWhile_cons_of_neg notBlank]

theorem takeSign_digits {sign digits : List Char} (isSign : IsSign sign) (isDigits : Digits digits) (rest : List Char) :
    takeSign (sign ++ digits ++ rest) = (sign, digits ++ rest) := by
  obtain ⟨c, more, rfl⟩ := List.exists_cons_of_ne_nil isDigits.1
  have digit : c.isDigit = true := List.all_eq_true.mp isDigits.2 c (by simp)
  obtain ⟨plus, minus, -⟩ := digit_apart digit
  unfold takeSign
  rcases isSign with rfl | rfl | rfl
  · simp [plus, minus]
  · simp
  · simp

theorem takeDigits_digits {digits rest : List Char} (isDigits : Digits digits) (ends : ∀ c ∈ rest.head?, c.isDigit = false) :
    takeDigits (digits ++ rest) = (digits, rest) := by
  obtain ⟨taken, dropped⟩ := takeWhile_digits isDigits.2 ends
  rw [takeDigits, taken, dropped]

theorem slash_syntax {sign digits digits' : List Char} (isSign : IsSign sign) (isDigits : Digits digits)
    (isDigits' : Digits digits') : MIXED_SYNTAX (sign ++ digits ++ '/' :: digits') = none ∧
      RATIO_SYNTAX (sign ++ digits ++ '/' :: digits') = some (sign ++ digits, digits') := by
  have slash : ∀ rest : List Char, ('/' :: rest).dropWhile isBlank = '/' :: rest := fun rest => by
    rw [List.dropWhile_cons_of_neg (by decide)]
  have first := takeSign_digits isSign isDigits ('/' :: digits')
  have second := @takeDigits_digits digits ('/' :: digits') isDigits (by simp)
  have notBlank := digits_not_blank isDigits' []
  rw [List.append_nil] at notBlank
  have slashed : takeSlash ('/' :: digits') = some digits' := by
    simp only [takeSlash, slash, notBlank]
  have third := takeSign_digits (.inl rfl) isDigits' []
  have fourth := @takeDigits_digits digits' [] isDigits' (by simp)
  rw [List.nil_append, List.append_nil] at third
  rw [List.append_nil] at fourth
  constructor
  · unfold MIXED_SYNTAX
    have noDigits : takeDigits ('/' :: digits') = ([], '/' :: digits') := by simp [takeDigits]
    simp only [first, second, slash, noDigits, slashed]
    simp
  · unfold RATIO_SYNTAX
    simp only [first, second, slashed]
    simp [third, fourth, isDigits.1, isDigits'.1]

theorem whole_syntax {sign digits : List Char} (isSign : IsSign sign) (isDigits : Digits digits) :
    MIXED_SYNTAX (sign ++ digits) = none ∧ RATIO_SYNTAX (sign ++ digits) = none ∧ REPEATING_SYNTAX (sign ++ digits) = none := by
  have first := takeSign_digits isSign isDigits []
  have second := @takeDigits_digits digits [] isDigits (by simp)
  rw [List.append_nil, List.append_nil] at first
  rw [List.append_nil] at second
  refine ⟨?_, ?_, ?_⟩
  · unfold MIXED_SYNTAX
    have nothing : takeDigits [] = ([], []) := rfl
    simp only [first, second, List.takeWhile_nil, List.dropWhile_nil, nothing]
    rfl
  · unfold RATIO_SYNTAX
    simp [first, second, takeSlash]
  · unfold REPEATING_SYNTAX
    simp [first, second]

def Printable (r : Rational) : Prop :=
  if r.denominator = 1 then digitCount r.numerator ≤ maxDigits
  else (ToString.toString r.numerator).toList.length ≤ maxDigits ∧ (ToString.toString r.denominator).toList.length ≤ maxDigits

theorem Reduced.fromParts (reduced : r.Reduced) : fromParts r.numerator r.denominator = .ok r := by
  obtain ⟨other, built⟩ := @fromParts_some r.numerator r.denominator reduced.positive.ne'
  obtain ⟨-, kept, is⟩ := fromParts_ok built
  rw [built, kept.eq_of_value reduced is]

theorem toBigIntInput_text (n : Int) (what : String) : toBigIntInput (.string (ToString.toString n)) what =
    if maxDigits < (ToString.toString n).toList.length then
      .error (.resourceLimit (what ++ " exceeds " ++ ToString.toString maxDigits ++ " digits"))
    else .ok n := by
  have read := readExponent_digits (int_sign n) (toDigits_digits n.natAbs)
  rw [← int_text] at read
  have same : (if (if n < 0 then ['-'] else []) = ['-'] then -(Nat.ofDigitChars 10 (Nat.toDigits 10 n.natAbs) 0 : Int)
      else Nat.ofDigitChars 10 (Nat.toDigits 10 n.natAbs) 0) = n := by
    rw [Nat.ofDigitChars_ten_toDigits]
    by_cases negative : n < 0
    · simp only [if_pos negative, if_true]
      omega
    · simp only [if_neg negative]
      rw [if_neg (by simp)]
      omega
  rw [same] at read
  simp only [toBigIntInput, read]

/-- A number reads back from its own text exactly when that text is within the length. -/
theorem parse_text_iff (reduced : r.Reduced) : parseRational r.text = .ok r ↔ r.Printable := by
  have sign := int_sign r.numerator
  have digits := toDigits_digits r.numerator.natAbs
  by_cases whole : r.denominator = 1
  · have printed : r.text.toList = (if r.numerator < 0 then ['-'] else []) ++ Nat.toDigits 10 r.numerator.natAbs := by
      rw [text, if_pos whole, int_text]
    obtain ⟨noMixed, noRatio, noRepeating⟩ := whole_syntax sign digits
    have read : parseRational r.text = (do
        let parts ← decimalParts r.text
        fromParts parts.coefficient (10 ^ parts.scale)) := by
      unfold parseRational
      rw [printed, noMixed, noRatio, noRepeating]
    rw [read, Printable, if_pos whole]
    constructor
    · intro built
      obtain ⟨parts, parsed, built⟩ := bind_ok.mp built
      have fits := decimalParts_fits parsed
      obtain ⟨-, is⟩ := decimal_value built
      rw [digitCount_le (by decide)]
      -- a whole number is no larger than the coefficient of its decimal
      have scaled : r.numerator * 10 ^ parts.scale = parts.coefficient := by
        rw [value, whole, Int.cast_one, div_one, Decimal.value, eq_div_iff (by positivity)] at is
        exact_mod_cast is
      calc r.numerator.natAbs ≤ r.numerator.natAbs * 10 ^ parts.scale := Nat.le_mul_of_pos_right _ (by positivity)
        _ = parts.coefficient.natAbs := by rw [← scaled, Int.natAbs_mul, Int.natAbs_pow]; rfl
        _ < 10 ^ maxDigits := fits.2
    · intro short
      have fits : (Decimal.mk r.numerator 0).Fits := ⟨Nat.zero_le _, (digitCount_le (by decide)).mp short⟩
      have parsed := Decimal.from_toString fits
      have same : (Decimal.mk r.numerator 0).toString = r.text := by
        rw [Decimal.toString, ← String.toList_inj, String.toList_ofList, printed]
        rfl
      rw [same] at parsed
      have parts : decimalParts r.text = .ok ⟨r.numerator, 0⟩ := parsed
      rw [parts]
      show fromParts r.numerator (10 ^ 0) = .ok r
      rw [pow_zero, ← whole]
      exact reduced.fromParts
  · have positive := reduced.positive
    have noSign : ¬ r.denominator < 0 := by omega
    have digits' := toDigits_digits r.denominator.natAbs
    have printed : r.text.toList = ((if r.numerator < 0 then ['-'] else []) ++ Nat.toDigits 10 r.numerator.natAbs) ++
        '/' :: Nat.toDigits 10 r.denominator.natAbs := by
      rw [text, if_neg whole, String.toList_append, String.toList_append, int_text, int_text, if_neg noSign]
      simp
    obtain ⟨noMixed, isRatio⟩ := slash_syntax sign digits digits'
    have read : parseRational r.text =
        fromRatio (ToString.toString r.numerator).toList (ToString.toString r.denominator).toList := by
      unfold parseRational
      rw [printed, noMixed, isRatio, int_text, int_text, if_neg noSign]
      rfl
    rw [read, Printable, if_neg whole]
    simp only [fromRatio, String.ofList_toList, toBigIntInput_text]
    constructor
    · intro built
      obtain ⟨n, isN, built⟩ := bind_ok.mp built
      obtain ⟨d, isD, built⟩ := bind_ok.mp built
      split at isN
      · cases isN
      · next shortN =>
        split at isD
        · cases isD
        · next shortD => exact ⟨not_lt.mp shortN, not_lt.mp shortD⟩
    · rintro ⟨shortN, shortD⟩
      rw [if_neg (not_lt.mpr shortN), if_neg (not_lt.mpr shortD)]
      exact reduced.fromParts

inductive Term where
  | of (given : DecimalInput)
  | ratio (first second : IntegerInput)
  | plus (left right : Term)
  | minus (left right : Term)
  | times (left right : Term)
  | dividedBy (left right : Term)
  | pow (base : Term) (exponent : JsNumber)
  | inverse (term : Term)
  | negated (term : Term)

/-- An operand that is no rational is read first, as `of` reads it. -/
def Term.run : Term → Checked Rational
  | .of given => from_ (.other given)
  | .ratio first second => Rational.ratio first second
  | .plus left right => do (← left.run).plus (.rational (← right.run))
  | .minus left right => do (← left.run).minus (.rational (← right.run))
  | .times left right => do (← left.run).times (.rational (← right.run))
  | .dividedBy left right => do (← left.run).dividedBy (.rational (← right.run))
  | .pow base exponent => do (← base.run).pow exponent
  | .inverse term => do (← term.run).inverse
  | .negated term => do return (← term.run).negated

def saysInteger (x : ℚ) : IntegerInput → Prop
  | .string text => ∃ sign digits, IsSign sign ∧ Digits digits ∧ text.toList = sign ++ digits ∧ x = signed sign (digitsValue digits)
  | .number (.whole number) => x = number
  | .number _ => False
  | .bigint number => x = number

def saysInput (x : ℚ) : DecimalInput → Prop
  | .decimal d => x = d.value
  | .string text => Says text.toList x
  | .number (.whole number) => x = number
  | .number (.fraction spelling) => Says spelling.toList x
  | .number (.notFinite _) => False
  | .bigint number => x = number

def Term.Means : Term → ℚ → Prop
  | .of given, x => saysInput x given
  | .ratio first second, x => ∃ n d, saysInteger n first ∧ saysInteger d second ∧ d ≠ 0 ∧ x = n / d
  | .plus left right, x => ∃ y z, left.Means y ∧ right.Means z ∧ x = y + z
  | .minus left right, x => ∃ y z, left.Means y ∧ right.Means z ∧ x = y - z
  | .times left right, x => ∃ y z, left.Means y ∧ right.Means z ∧ x = y * z
  | .dividedBy left right, x => ∃ y z, left.Means y ∧ right.Means z ∧ z ≠ 0 ∧ x = y / z
  | .pow base exponent, x => ∃ (y : ℚ) (n : ℤ), base.Means y ∧ exponent = .whole n ∧ (n < 0 → y ≠ 0) ∧ x = y ^ n
  | .inverse term, x => ∃ y, term.Means y ∧ y ≠ 0 ∧ x = y⁻¹
  | .negated term, x => ∃ y, term.Means y ∧ x = -y

theorem toBigIntInput_says {given : IntegerInput} {what : String} {n : Int} (read : toBigIntInput given what = .ok n) :
    saysInteger n given := by
  cases given with
  | string text =>
    unfold toBigIntInput at read
    simp only at read
    split at read
    · cases read
    · next number isRead =>
      split at read
      · cases read
      · cases read
        obtain ⟨sign, digits, isSign, isDigits, whole, is⟩ := readExponent_some isRead
        exact ⟨sign, digits, isSign, isDigits, whole, is⟩
  | number value =>
    cases value with
    | whole number =>
      simp only [toBigIntInput] at read
      split at read
      · cases read
        rfl
      · cases read
    | fraction spelling => cases read
    | notFinite spelling => cases read
  | bigint value =>
    obtain ⟨_, _, read⟩ := bind_ok.mp read
    cases read
    rfl

theorem decimalParts_whole {number : Int} (short : number.natAbs < 10 ^ maxDigits) :
    decimalParts (ToString.toString number) = .ok ⟨number, 0⟩ := by
  have fits : (Decimal.mk number 0).Fits := ⟨Nat.zero_le _, short⟩
  have parsed := Decimal.from_toString fits
  have same : (Decimal.mk number 0).toString = ToString.toString number := by
    rw [Decimal.toString, ← String.toList_inj, String.toList_ofList, int_text]
    rfl
  rw [same] at parsed
  exact parsed

theorem from_says {given : DecimalInput} (built : from_ (.other given) = .ok r) : r.Reduced ∧ saysInput r.value given := by
  cases given with
  | decimal d => exact decimal_value built
  | string text => exact parseRational_says built
  | number value =>
    obtain ⟨parts, read, built⟩ := bind_ok.mp built
    obtain ⟨reduced, is⟩ := decimal_value built
    refine ⟨reduced, ?_⟩
    rw [is]
    cases value with
    | whole number =>
      have safe : isSafeInteger number = true := by
        by_contra unsafe_
        simp only [Decimal.from_, partsFromNumber, if_neg unsafe_] at read
        cases read
      have short : number.natAbs < 10 ^ maxDigits := by
        have within : number.natAbs ≤ 2 ^ 53 - 1 := of_decide_eq_true safe
        have far : 2 ^ 53 ≤ 10 ^ maxDigits := by
          calc 2 ^ 53 ≤ 10 ^ 16 := by norm_num
            _ ≤ 10 ^ maxDigits := Nat.pow_le_pow_right (by decide) (by decide)
        omega
      simp only [Decimal.from_, partsFromNumber, if_pos safe, decimalParts_whole short] at read
      cases read
      show Decimal.value ⟨number, 0⟩ = number
      rw [Decimal.value, pow_zero, div_one]
    | fraction spelling => exact decimalParts_says read
    | notFinite spelling => cases read
  | bigint number =>
    obtain ⟨parts, read, built⟩ := bind_ok.mp built
    obtain ⟨reduced, is⟩ := decimal_value built
    obtain ⟨_, _, done⟩ := bind_ok.mp read
    cases done
    refine ⟨reduced, ?_⟩
    show r.value = number
    rw [is, Decimal.value, pow_zero, div_one]

theorem Term.run_exact (t : Term) : ∀ {r : Rational}, t.run = .ok r → r.Reduced ∧ t.Means r.value := by
  induction t with
  | of given => exact fun built => from_says built
  | ratio first second =>
    intro r built
    obtain ⟨n, isN, built⟩ := bind_ok.mp built
    obtain ⟨d, isD, built⟩ := bind_ok.mp built
    obtain ⟨some_, reduced, is⟩ := fromParts_ok built
    exact ⟨reduced, n, d, toBigIntInput_says isN, toBigIntInput_says isD, by exact_mod_cast some_, is⟩
  | plus left right ihl ihr =>
    intro r built
    obtain ⟨a, isA, built⟩ := bind_ok.mp built
    obtain ⟨b, isB, built⟩ := bind_ok.mp built
    obtain ⟨reduced, is⟩ := plusRead_ok (ihl isA).1 (ihr isB).1 built
    exact ⟨reduced, _, _, (ihl isA).2, (ihr isB).2, is⟩
  | minus left right ihl ihr =>
    intro r built
    obtain ⟨a, isA, built⟩ := bind_ok.mp built
    obtain ⟨b, isB, built⟩ := bind_ok.mp built
    obtain ⟨negated, isNegated⟩ := negated_ok (ihr isB).1
    obtain ⟨reduced, is⟩ := plusRead_ok (ihl isA).1 negated built
    refine ⟨reduced, _, _, (ihl isA).2, (ihr isB).2, ?_⟩
    rw [is, isNegated, sub_eq_add_neg]
  | times left right ihl ihr =>
    intro r built
    obtain ⟨a, isA, built⟩ := bind_ok.mp built
    obtain ⟨b, isB, built⟩ := bind_ok.mp built
    obtain ⟨reduced, is⟩ := timesRead_ok (ihl isA).1 (ihr isB).1 built
    exact ⟨reduced, _, _, (ihl isA).2, (ihr isB).2, is⟩
  | dividedBy left right ihl ihr =>
    intro r built
    obtain ⟨a, isA, built⟩ := bind_ok.mp built
    obtain ⟨b, isB, built⟩ := bind_ok.mp built
    obtain ⟨apart, reduced, is⟩ := dividedByRead_ok (ihl isA).1 (ihr isB).1 built
    exact ⟨reduced, _, _, (ihl isA).2, (ihr isB).2, apart, is⟩
  | pow base exponent ih =>
    intro r built
    obtain ⟨a, isA, built⟩ := bind_ok.mp built
    obtain ⟨n, isN, apart, reduced, is⟩ := pow_ok (ih isA).1 built
    exact ⟨reduced, _, n, (ih isA).2, isN, apart, is⟩
  | inverse term ih =>
    intro r built
    obtain ⟨a, isA, built⟩ := bind_ok.mp built
    obtain ⟨apart, reduced, is⟩ := inverse_ok (ih isA).1 built
    exact ⟨reduced, _, (ih isA).2, apart, is⟩
  | negated term ih =>
    intro r built
    obtain ⟨a, isA, built⟩ := bind_ok.mp built
    cases built
    obtain ⟨reduced, is⟩ := negated_ok (ih isA).1
    exact ⟨reduced, _, (ih isA).2, is⟩

/-- Every result is reduced and exact, a number has one representation, and it reads back from its own text exactly when
that text is within the length. -/
theorem reduced_and_exact {t u : Term} {a b : Rational} (left : t.run = .ok a) (right : u.run = .ok b) :
    a.Reduced ∧ (a.value = 0 → a = zero) ∧ t.Means a.value ∧ (a.value = b.value → a = b) ∧
      (parseRational a.text = .ok a ↔ a.Printable) := by
  obtain ⟨reduced, means⟩ := t.run_exact left
  refine ⟨reduced, ?_, means, reduced.eq_of_value (u.run_exact right).1, parse_text_iff reduced⟩
  exact fun none_ => reduced.zero_parts ((value_eq_zero reduced).mp none_)

theorem reduced_and_exact_half : parseRational (text ⟨1, 2⟩) = .ok ⟨1, 2⟩ :=
  (@reduced_and_exact (.of (.decimal ⟨5, 1⟩)) (.of (.decimal ⟨5, 1⟩)) ⟨1, 2⟩ ⟨1, 2⟩ rfl rfl).2.2.2.2.mpr (by
    rw [Printable, if_neg (by decide)]
    decide)

theorem tiny_reduced (scale : Nat) : (Rational.mk 1 (10 ^ scale)).Reduced := ⟨by positivity, isCoprime_one_left⟩

theorem parseRational_tiny {input : String} {scale : Nat} (parts : decimalParts input = .ok ⟨1, scale⟩)
    (noMixed : MIXED_SYNTAX input.toList = none) (noRatio : RATIO_SYNTAX input.toList = none)
    (noRepeating : REPEATING_SYNTAX input.toList = none) : parseRational input = .ok ⟨1, 10 ^ scale⟩ := by
  unfold parseRational
  rw [noMixed, noRatio, noRepeating, parts]
  exact (tiny_reduced scale).fromParts

theorem tiny_unprintable {scale : Nat} (far : maxDigits ≤ scale) (positive : 0 < scale) : ¬ (Rational.mk 1 (10 ^ scale)).Printable := by
  have apart : (1 : Int) < 10 ^ scale := one_lt_pow₀ (by norm_num) positive.ne'
  rw [Printable, if_neg apart.ne']
  rintro ⟨_, short⟩
  rw [int_text, if_neg (not_lt.mpr (by positivity)), List.nil_append, Nat.length_toDigits_le_iff (by decide) (by decide),
    Int.natAbs_pow, show Int.natAbs 10 = 10 from rfl, Nat.pow_lt_pow_iff_right (by decide)] at short
  omega

/-- The smallest decimal is a rational whose denominator has one digit more than is read. -/
theorem smallest_unreadable : ∃ r, (Term.of (.string "1e-10000")).run = .ok r ∧ parseRational r.text ≠ .ok r := by
  refine ⟨⟨1, 10 ^ maxDigits⟩, ?_, ?_⟩
  · show parseRational "1e-10000" = .ok ⟨1, 10 ^ maxDigits⟩
    exact parseRational_tiny (by decide +kernel) (by decide +kernel) (by decide +kernel) (by decide +kernel)
  · rw [Ne, parse_text_iff (tiny_reduced _)]
    exact tiny_unprintable le_rfl (by decide)

end Rational

end Arki.Math
