import Arki.Math.Decimal

/-! A decimal is read back from its own text, and what is read is within the limits. -/

set_option autoImplicit false

namespace Arki.Math

/-- At most `maxScale` fraction digits and `maxDigits` coefficient digits. -/
def Decimal.Fits (d : Decimal) : Prop := d.scale ≤ maxScale ∧ d.coefficient.natAbs < 10 ^ maxDigits

theorem ofDigitChars_lt (text : List Char) : ∀ init : Nat, text.all Char.isDigit = true →
    Nat.ofDigitChars 10 text init < 10 ^ text.length * (init + 1) := by
  induction text with
  | nil => simp [Nat.ofDigitChars_nil]
  | cons c text ih =>
    intro init digits
    rw [List.all_cons, Bool.and_eq_true] at digits
    have value : c.toNat - '0'.toNat ≤ 9 := by
      have isDigit := digits.1
      simp only [Char.isDigit, Bool.and_eq_true, decide_eq_true_eq, UInt32.le_iff_toNat_le] at isDigit
      have high : c.toNat ≤ 57 := isDigit.2
      have zero_ : '0'.toNat = 48 := rfl
      omega
    rw [Nat.ofDigitChars_cons, List.length_cons, pow_succ]
    calc Nat.ofDigitChars 10 text (10 * init + (c.toNat - '0'.toNat))
        < 10 ^ text.length * (10 * init + (c.toNat - '0'.toNat) + 1) := ih _ digits.2
      _ ≤ 10 ^ text.length * (10 * (init + 1)) := Nat.mul_le_mul_left _ (by omega)
      _ = 10 ^ text.length * 10 * (init + 1) := (mul_assoc _ _ _).symm

theorem leading_digit {n : Nat} (positive : 0 < n) : ∃ c rest, Nat.toDigits 10 n = c :: rest ∧ c ≠ '0' := by
  induction n using Nat.strongRecOn with
  | ind n ih =>
    by_cases small : n < 10
    · refine ⟨_, [], Nat.toDigits_of_lt_base small, ?_⟩
      rw [Ne, Nat.digitChar_eq_zero]
      exact positive.ne'
    · obtain ⟨c, rest, written, some_⟩ := ih (n / 10) (by omega) (by omega)
      rw [Nat.toDigits_of_base_le (by decide) (Nat.le_of_not_lt small), written]
      exact ⟨c, rest ++ _, rfl, some_⟩

theorem toDigits_all (n : Nat) : (Nat.toDigits 10 n).all Char.isDigit = true :=
  List.all_eq_true.mpr fun _ digit => Nat.isDigit_of_mem_toDigits (by decide) (by decide) digit

theorem dropWhile_zeros (zeros n : Nat) : (List.replicate zeros '0' ++ Nat.toDigits 10 n).dropWhile (· = '0') =
    if n = 0 then [] else Nat.toDigits 10 n := by
  have skipped : (List.replicate zeros '0').dropWhile (· = '0') = [] := by simp
  rw [List.dropWhile_append, skipped]
  simp only [List.isEmpty_nil, if_true]
  split
  · next zero_ =>
    rw [zero_, Nat.toDigits_zero]
    rfl
  · next some_ =>
    obtain ⟨c, rest, written, leading⟩ := leading_digit (Nat.pos_of_ne_zero some_)
    rw [written]
    exact List.dropWhile_cons_of_neg (by simpa using leading)

variable {negative : Bool} {integer fraction : List Char} {exponent : Int}

theorem significant_eq (integer fraction : List Char) :
    integer.dropWhile (· = '0') ++ (if integer.dropWhile (· = '0') = [] then fraction.dropWhile (· = '0') else fraction) =
      (integer ++ fraction).dropWhile (· = '0') := by
  rw [List.dropWhile_append]
  by_cases none_ : integer.dropWhile (· = '0') = []
  · simp [none_]
  · simp [none_]

theorem dropWhile_all {text : List Char} (digits : text.all Char.isDigit = true) :
    (text.dropWhile (· = '0')).all Char.isDigit = true := by
  rw [List.all_eq_true] at digits ⊢
  exact fun c inside => digits c ((List.dropWhile_sublist _).subset inside)

theorem partsOf_eq (negative : Bool) (integer fraction : List Char) (exponent : Int) : partsOf negative integer fraction exponent =
    if exceedsDigitLimit (((integer ++ fraction).dropWhile (· = '0')).length +
        if ((integer ++ fraction).dropWhile (· = '0')).length = 0 then 0 else (exponent - fraction.length).toNat) then
      .error .numberOutOfRange
    else if exceedsScaleLimit (fraction.length - exponent) then .error .numberOutOfRange
    else .ok (if (fraction.length - exponent : Int) < 0 then
        ⟨(if negative then -(Nat.ofDigitChars 10 ((integer ++ fraction).dropWhile (· = '0')) 0 : Int)
          else Nat.ofDigitChars 10 ((integer ++ fraction).dropWhile (· = '0')) 0) * 10 ^ (-(fraction.length - exponent : Int)).toNat, 0⟩
      else ⟨if negative then -(Nat.ofDigitChars 10 ((integer ++ fraction).dropWhile (· = '0')) 0 : Int)
        else Nat.ofDigitChars 10 ((integer ++ fraction).dropWhile (· = '0')) 0, (fraction.length - exponent : Int).toNat⟩) := by
  unfold partsOf
  simp only [← List.length_append, significant_eq]

theorem natAbs_signed (negative : Bool) (magnitude : Nat) :
    (if negative then -(magnitude : Int) else magnitude).natAbs = magnitude := by
  split
  · exact Int.natAbs_neg _
  · rfl

theorem partsOf_fits {d : Decimal} (digits : (integer ++ fraction).all Char.isDigit = true)
    (read : partsOf negative integer fraction exponent = .ok d) : d.Fits := by
  have less := ofDigitChars_lt _ 0 (dropWhile_all digits)
  rw [partsOf_eq] at read
  generalize (integer ++ fraction).dropWhile (· = '0') = counted at read less
  rw [Nat.zero_add, mul_one] at less
  by_cases long : exceedsDigitLimit (counted.length + if counted.length = 0 then 0 else (exponent - fraction.length).toNat) = true
  · rw [if_pos long] at read
    cases read
  rw [if_neg long] at read
  by_cases far : exceedsScaleLimit (fraction.length - exponent) = true
  · rw [if_pos far] at read
    cases read
  rw [if_neg far] at read
  simp only [exceedsDigitLimit, decide_eq_true_eq, not_lt] at long
  simp only [exceedsScaleLimit, decide_eq_true_eq, not_lt] at far
  by_cases padded : (fraction.length - exponent : Int) < 0
  · -- the zeros of the exponent were counted too
    rw [if_pos padded] at read
    cases read
    refine ⟨Nat.zero_le _, ?_⟩
    rw [Int.natAbs_mul, natAbs_signed, Int.natAbs_pow]
    have same : (-(fraction.length - exponent : Int)).toNat = (exponent - fraction.length).toNat := by congr 1; omega
    rw [same]
    by_cases none_ : counted.length = 0
    · rw [List.length_eq_zero_iff.mp none_, Nat.ofDigitChars_nil, zero_mul]
      exact Nat.pow_pos (by decide)
    · rw [if_neg none_] at long
      calc Nat.ofDigitChars 10 counted 0 * 10 ^ (exponent - fraction.length).toNat
          < 10 ^ counted.length * 10 ^ (exponent - fraction.length).toNat :=
            Nat.mul_lt_mul_of_pos_right less (Nat.pow_pos (by decide))
        _ = 10 ^ (counted.length + (exponent - fraction.length).toNat) := (pow_add _ _ _).symm
        _ ≤ 10 ^ maxDigits := Nat.pow_le_pow_right (by decide) long
  · rw [if_neg padded] at read
    cases read
    constructor
    · show (fraction.length - exponent : Int).toNat ≤ maxScale
      omega
    · show (if negative then -(Nat.ofDigitChars 10 counted 0 : Int) else Nat.ofDigitChars 10 counted 0).natAbs < _
      rw [natAbs_signed]
      exact less.trans_le (Nat.pow_le_pow_right (by decide) (by omega))

theorem fraction_all (pointed : Prop) [Decidable pointed] (text : List Char) :
    (if pointed then text.takeWhile Char.isDigit else []).all Char.isDigit = true := by
  split
  · exact List.all_takeWhile
  · rfl

theorem parseDecimalString_fits {input : List Char} {d : Decimal} (read : parseDecimalString input = .ok d) : d.Fits := by
  unfold parseDecimalString at read
  simp only [bind, Except.bind] at read
  split at read
  · cases read
  · apply partsOf_fits _ read
    rw [List.all_append, Bool.and_eq_true]
    exact ⟨List.all_takeWhile, fraction_all _ _⟩

theorem decimalParts_fits {input : String} {d : Decimal} (read : decimalParts input = .ok d) : d.Fits := by
  unfold decimalParts at read
  cases parsed : parseDecimalString input.toList with
  | ok parts =>
    rw [parsed] at read
    cases read
    exact parseDecimalString_fits parsed
  | error failure =>
    rw [parsed] at read
    cases failure with
    | invalidNumber => cases read
    | numberOutOfRange => cases read

theorem Decimal.from_fits {input : DecimalInput} {d : Decimal} (given : ∀ value, input = .decimal value → value.Fits)
    (read : Decimal.from_ input = .ok d) : d.Fits := by
  cases input with
  | decimal value =>
    cases read
    exact given _ rfl
  | string text => exact decimalParts_fits read
  | number number_ =>
    cases number_ with
    | whole value =>
      simp only [from_, partsFromNumber] at read
      by_cases safe : isSafeInteger value = true
      · rw [if_pos safe] at read
        exact decimalParts_fits read
      · rw [if_neg safe] at read
        cases read
    | fraction spelling => exact decimalParts_fits read
    | notFinite spelling => cases read
  | bigint value =>
    simp only [from_, partsFromBigInt, assertDigitLimit] at read
    split at read
    · cases read
    · next within =>
      cases read
      refine ⟨Nat.zero_le _, ?_⟩
      rw [← digitCount_le (by decide)]
      simpa [exceedsDigitLimit] using within

theorem digit_apart {c : Char} (digit : c.isDigit = true) : c ≠ '+' ∧ c ≠ '-' ∧ c ≠ '.' := by
  refine ⟨?_, ?_, ?_⟩
  · rintro rfl
    cases digit
  · rintro rfl
    cases digit
  · rintro rfl
    cases digit

theorem unsigned_eq {sign_ rest : List Char} (isSign : sign_ = [] ∨ sign_ = ['-']) {c : Char} (digit : c.isDigit = true) :
    (if (sign_ ++ c :: rest).head? = some '+' || (sign_ ++ c :: rest).head? = some '-' then (sign_ ++ c :: rest).tail
      else sign_ ++ c :: rest) = c :: rest := by
  obtain ⟨plus, minus, -⟩ := digit_apart digit
  rcases isSign with rfl | rfl
  · simp [plus, minus]
  · simp

theorem takeWhile_digits {digits tail : List Char} (whole : digits.all Char.isDigit = true)
    (ends : ∀ c ∈ tail.head?, c.isDigit = false) : (digits ++ tail).takeWhile Char.isDigit = digits ∧
      (digits ++ tail).dropWhile Char.isDigit = tail := by
  have all : ∀ c ∈ digits, c.isDigit = true := List.all_eq_true.mp whole
  rw [List.takeWhile_append_of_pos all, List.dropWhile_append_of_pos all]
  cases tail with
  | nil => simp
  | cons c tail =>
    have isEnd : ¬ c.isDigit = true := by simp [ends c rfl]
    rw [List.takeWhile_cons_of_neg isEnd, List.dropWhile_cons_of_neg isEnd]
    simp

theorem parse_digits {sign_ : List Char} (isSign : sign_ = [] ∨ sign_ = ['-']) (whole : integer.all Char.isDigit = true)
    (some_ : integer ≠ []) (part : fraction.all Char.isDigit = true) {tail : List Char}
    (pointed : tail = '.' :: fraction ∨ tail = [] ∧ fraction = []) :
    parseDecimalString (sign_ ++ (integer ++ tail)) = partsOf (decide (sign_ = ['-'])) integer fraction 0 := by
  obtain ⟨c, rest, rfl⟩ := List.exists_cons_of_ne_nil some_
  have digit : c.isDigit = true := List.all_eq_true.mp whole c (by simp)
  have ends : ∀ c ∈ tail.head?, c.isDigit = false := by
    rcases pointed with rfl | ⟨rfl, -⟩
    · simp
    · simp
  obtain ⟨taken, dropped⟩ := takeWhile_digits whole ends
  have negative_ : ((sign_ ++ (c :: rest ++ tail)).head? = some '-') ↔ sign_ = ['-'] := by
    rcases isSign with rfl | rfl
    · simp [(digit_apart digit).2.1]
    · simp
  unfold parseDecimalString
  rw [List.cons_append, unsigned_eq isSign digit, ← List.cons_append]
  simp only [taken, dropped, negative_]
  rcases pointed with rfl | ⟨rfl, rfl⟩
  · have last : ∀ c ∈ ([] : List Char).head?, c.isDigit = false := by simp
    obtain ⟨takenPart, droppedPart⟩ := takeWhile_digits part last
    rw [List.append_nil] at takenPart droppedPart
    simp [takenPart, droppedPart, exponentOf, bind, Except.bind]
  · simp [exponentOf, bind, Except.bind]

/-- The digits of a coefficient, padded with zeros, are read as the coefficient. -/
theorem partsOf_digits {d : Decimal} (fits : d.Fits) {zeros : Nat}
    (digits : integer ++ fraction = List.replicate zeros '0' ++ Nat.toDigits 10 d.coefficient.natAbs)
    (scaled : fraction.length = d.scale) : partsOf (decide (d.coefficient < 0)) integer fraction 0 = .ok d := by
  obtain ⟨within, small⟩ := fits
  rw [partsOf_eq, digits, dropWhile_zeros, scaled]
  have counted : (if d.coefficient.natAbs = 0 then [] else Nat.toDigits 10 d.coefficient.natAbs).length ≤ maxDigits := by
    split
    · exact Nat.zero_le _
    · exact (digitCount_le (by decide)).mpr small
  have value : Nat.ofDigitChars 10 (if d.coefficient.natAbs = 0 then [] else Nat.toDigits 10 d.coefficient.natAbs) 0 =
      d.coefficient.natAbs := by
    split
    · next zero_ => rw [Nat.ofDigitChars_nil, zero_]
    · exact Nat.ofDigitChars_ten_toDigits
  have padding : ((0 : Int) - d.scale).toNat = 0 := by omega
  have plain : ¬ ((d.scale : Int) - 0 < 0) := by omega
  have short : ¬ exceedsDigitLimit ((if d.coefficient.natAbs = 0 then [] else Nat.toDigits 10 d.coefficient.natAbs).length + 0) = true := by
    simpa [exceedsDigitLimit] using counted
  have near : ¬ exceedsScaleLimit ((d.scale : Int) - 0) = true := by
    simp only [exceedsScaleLimit, decide_eq_true_eq]
    omega
  rw [padding, ite_self, if_neg short, if_neg near, if_neg plain, value]
  obtain ⟨coefficient, scale⟩ := d
  have signed : (if decide (coefficient < 0) = true then -(coefficient.natAbs : Int) else coefficient.natAbs) = coefficient := by
    by_cases negative_ : coefficient < 0
    · rw [if_pos (by simpa using negative_)]
      omega
    · rw [if_neg (by simpa using negative_)]
      omega
  show Except.ok (⟨_, _⟩ : Decimal) = _
  rw [signed]
  simp

theorem parse_text {d : Decimal} (fits : d.Fits) : parseDecimalString d.text = .ok d := by
  have all := toDigits_all d.coefficient.natAbs
  have isSign : (if d.coefficient < 0 then ['-'] else []) = [] ∨ (if d.coefficient < 0 then ['-'] else []) = ['-'] := by
    by_cases negative_ : d.coefficient < 0
    · exact .inr (if_pos negative_)
    · exact .inl (if_neg negative_)
  have negative_ : decide ((if d.coefficient < 0 then ['-'] else []) = ['-']) = decide (d.coefficient < 0) := by
    by_cases isNeg : d.coefficient < 0
    · simp [isNeg]
    · simp [isNeg]
  unfold Decimal.text
  by_cases whole : d.scale = 0
  · simp only [if_pos whole]
    have read := @parse_digits (Nat.toDigits 10 d.coefficient.natAbs) [] _ isSign all Nat.toDigits_ne_nil rfl [] (.inr ⟨rfl, rfl⟩)
    rw [List.append_nil] at read
    rw [read, negative_]
    exact @partsOf_digits _ [] d fits 0 (by simp) (by simp [whole])
  simp only [if_neg whole]
  by_cases pointed : d.scale < (Nat.toDigits 10 d.coefficient.natAbs).length
  · -- the point is among the digits
    simp only [if_pos pointed]
    have all_ := all
    rw [← List.take_append_drop ((Nat.toDigits 10 d.coefficient.natAbs).length - d.scale) (Nat.toDigits 10 d.coefficient.natAbs),
      List.all_append, Bool.and_eq_true] at all_
    have some_ : (Nat.toDigits 10 d.coefficient.natAbs).take ((Nat.toDigits 10 d.coefficient.natAbs).length - d.scale) ≠ [] := by
      rw [Ne, ← List.length_eq_zero_iff, List.length_take]
      omega
    rw [List.append_assoc, parse_digits isSign all_.1 some_ all_.2 (.inl rfl), negative_]
    apply @partsOf_digits _ _ d fits 0
    · rw [List.take_append_drop]
      rfl
    · rw [List.length_drop]
      omega
  · -- all digits are behind the point, after zeros
    simp only [if_neg pointed]
    have padded : (List.replicate (d.scale - (Nat.toDigits 10 d.coefficient.natAbs).length) '0' ++
        Nat.toDigits 10 d.coefficient.natAbs).all Char.isDigit = true := by
      rw [List.all_append, all, Bool.and_true, List.all_replicate]
      simp
    have read := @parse_digits ['0'] _ _ isSign rfl (by simp) padded _ (.inl rfl)
    rw [List.singleton_append] at read
    rw [read, negative_]
    apply @partsOf_digits _ _ d fits (d.scale - (Nat.toDigits 10 d.coefficient.natAbs).length + 1)
    · rw [List.replicate_succ, List.singleton_append, List.cons_append]
    · rw [List.length_append, List.length_replicate]
      omega

theorem Decimal.from_toString {d : Decimal} (fits : d.Fits) : from_ (.string d.toString) = .ok d := by
  simp only [from_, decimalParts, Decimal.toString, String.toList_ofList, parse_text fits]

end Arki.Math
