import Arki.Math.DecimalText
import Arki.Money.Distribute

/-! The ratios of an allocation: each is read exactly, and together they are whole weights in the same proportions. -/

set_option autoImplicit false
set_option linter.dupNamespace false

namespace Arki.Money

open Arki (Double)
open Arki.Math (MathError Checked JsNumber)

variable {u : Int} {ratio : Ratio} {ratios : List Ratio} {parsed : List Parsed} {one : Parsed}

def Parsed.value (parsed : Parsed) : ℚ := parsed.coefficient.value / 10 ^ parsed.fraction

theorem groups_all {text whole fractionDigits : List Char} {exponent : Int}
    (found : decimalGroups text = some (whole, fractionDigits, exponent)) : (whole ++ fractionDigits).all Char.isDigit = true := by
  have all (text : List Char) : (text.takeWhile Char.isDigit).all Char.isDigit = true := List.all_takeWhile
  unfold decimalGroups at found
  dsimp only at found
  split at found
  · cases found
  · split at found
    · split at found
      · cases found
      · obtain ⟨_, _, same⟩ := Option.map_eq_some_iff.mp found
        cases same
        rw [List.all_append, all, all]
        rfl
    · obtain ⟨_, _, same⟩ := Option.map_eq_some_iff.mp found
      cases same
      rw [List.all_append, all]
      rfl

theorem safe_digits {digits : List Char} (all : digits.all Char.isDigit = true) (short : digits.length ≤ 15) :
    IsSafe (Nat.ofDigitChars 10 digits 0 : Nat) := by
  have less := Math.ofDigitChars_lt digits 0 all
  have bound : 10 ^ digits.length ≤ 10 ^ 15 := Nat.pow_le_pow_right (by decide) short
  unfold IsSafe maxSafe
  omega

theorem parseDecimal_canon {text : List Char} (read : parseDecimal text = .ok one) :
    (∃ c, one.coefficient = canon c) ∧ one.fraction ≤ maxInputLength := by
  unfold parseDecimal at read
  split at read
  · cases read
  cases groups : decimalGroups text with
  | none =>
    rw [groups] at read
    cases read
  | some found =>
    obtain ⟨whole, fractionDigits, exponent⟩ := found
    rw [groups] at read
    have magnitude : (if (whole ++ fractionDigits).length ≤ 15 then
        Units.number (.of (Nat.ofDigitChars 10 (whole ++ fractionDigits) 0 : Nat)) else
        canon (Nat.ofDigitChars 10 (whole ++ fractionDigits) 0 : Nat)) = canon (Nat.ofDigitChars 10 (whole ++ fractionDigits) 0 : Nat) := by
      split
      · next short => rw [canon_safe (safe_digits (groups_all groups) short), Int.cast_natCast]
      · rfl
    have coefficient : ∃ c, (if isNegative text then negUnits (canon (Nat.ofDigitChars 10 (whole ++ fractionDigits) 0 : Nat)) else
        canon (Nat.ofDigitChars 10 (whole ++ fractionDigits) 0 : Nat)) = canon c := by
      split
      · exact ⟨_, negUnits_canon _⟩
      · exact ⟨_, rfl⟩
    obtain ⟨c, isC⟩ := coefficient
    simp only [magnitude, isC] at read
    split at read
    · cases read
    · next within =>
      split at read
      · cases read
        rw [Bool.or_eq_true, decide_eq_true_iff, decide_eq_true_iff] at within
        refine ⟨⟨c, rfl⟩, ?_⟩
        show ((fractionDigits.length : Int) - exponent).toNat ≤ maxInputLength
        omega
      · rw [pow10_canon, mulUnits_canon] at read
        cases built : mulBig c (10 ^ (-((fractionDigits.length : Int) - exponent)).toNat) with
        | error _ =>
          rw [built] at read
          cases read
        | ok product =>
          rw [built] at read
          cases read
          exact ⟨⟨product, rfl⟩, Nat.zero_le _⟩

theorem parseNumber_canon {number : JsNumber} (read : parseNumber number = .ok one) :
    (∃ c, one.coefficient = canon c) ∧ one.fraction ≤ maxInputLength := by
  cases number with
  | whole value =>
    rw [parseNumber] at read
    split at read
    · next safe =>
      cases read
      have isSafe : IsSafe value := by
        simp only [Math.isSafeInteger, decide_eq_true_eq] at safe
        unfold IsSafe maxSafe
        omega
      exact ⟨⟨value, (canon_safe isSafe).symm⟩, Nat.zero_le _⟩
    · cases read
  | fraction spelling => exact parseDecimal_canon read
  | notFinite spelling => cases read

theorem orRaise_ok {α : Type} {door : Door α} {value : α} (raised : orRaise door = .ok value) : door = .ok value := by
  rcases door with (_ | _) | _
  · cases raised
  · cases raised
  · cases raised
    rfl

theorem parseRatio_canon (read : parseRatio ratio = .ok one) :
    (∃ c, one.coefficient = canon c) ∧ one.fraction ≤ maxInputLength := by
  cases ratio with
  | number value => exact parseNumber_canon (orRaise_ok read)
  | negZero =>
    cases read
    exact ⟨⟨0, by rw [canon_safe (by decide), Int.cast_zero]⟩, Nat.zero_le _⟩
  | bigint value =>
    cases read
    exact ⟨⟨value, rfl⟩, Nat.zero_le _⟩
  | text value => exact parseDecimal_canon (orRaise_ok read)

def commonOf (parsed : List Parsed) : Nat := parsed.foldl (fun common one => max common one.fraction) 0

def weightOf (common : Nat) (one : Parsed) : Nat := (one.coefficient.big * 10 ^ (common - one.fraction)).toNat

def weightsOf (parsed : List Parsed) : List Nat := parsed.map (weightOf (commonOf parsed))

theorem foldl_common (parsed : List Parsed) : ∀ init : Nat,
    init ≤ parsed.foldl (fun common one => max common one.fraction) init ∧
    (∀ one ∈ parsed, one.fraction ≤ parsed.foldl (fun common one => max common one.fraction) init) ∧
    ∀ bound, init ≤ bound → (∀ one ∈ parsed, one.fraction ≤ bound) →
      parsed.foldl (fun common one => max common one.fraction) init ≤ bound := by
  induction parsed with
  | nil => exact fun init => ⟨le_rfl, by simp, fun _ less _ => less⟩
  | cons one parsed ih =>
    intro init
    obtain ⟨above, each, below⟩ := ih (max init one.fraction)
    rw [List.foldl_cons]
    refine ⟨(le_max_left _ _).trans above, fun other member => ?_, fun bound less all => ?_⟩
    · rcases List.mem_cons.mp member with rfl | inside
      · exact (le_max_right _ _).trans above
      · exact each other inside
    · exact below bound (max_le less (all one (List.mem_cons_self ..))) fun other inside => all other (List.mem_cons_of_mem _ inside)

theorem le_commonOf (member : one ∈ parsed) : one.fraction ≤ commonOf parsed := (foldl_common parsed 0).2.1 one member

theorem commonOf_le {bound : Nat} (all : ∀ one ∈ parsed, one.fraction ≤ bound) : commonOf parsed ≤ bound :=
  (foldl_common parsed 0).2.2 bound (Nat.zero_le _) all

theorem wholeWeight_is {weight : Units} (is : wholeWeight ratio = some weight) (read : parseRatio ratio = .ok one) :
    one.fraction = 0 ∧ weight.Is one.coefficient.big := by
  cases ratio with
  | number value =>
    cases value with
    | whole value =>
      rw [wholeWeight] at is
      split at is
      · next safe =>
        rw [Bool.and_eq_true] at safe
        cases is
        have parsed_ := orRaise_ok read
        rw [parseNumber, if_pos safe.1] at parsed_
        cases parsed_
        have isSafe : IsSafe value := by
          simp only [Math.isSafeInteger, decide_eq_true_eq] at safe
          unfold IsSafe maxSafe
          omega
        exact ⟨rfl, by rw [← canon_safe isSafe, canon_big_value]; exact is_canon _⟩
      · cases is
    | fraction spelling => cases is
    | notFinite spelling => cases is
  | negZero =>
    cases is
    cases read
    exact ⟨rfl, .inr ⟨rfl, Int.floor_zero⟩⟩
  | bigint value => cases is
  | text value => cases is

theorem coefficient_nonneg (is : ∃ c, one.coefficient = canon c) (nonneg : 0 ≤ one.value) : 0 ≤ one.coefficient.big := by
  obtain ⟨c, isC⟩ := is
  rw [Parsed.value, isC, canon_value] at nonneg
  rw [isC, canon_big_value]
  have positive : (0 : ℚ) < 10 ^ one.fraction := by positivity
  by_contra negative
  rw [not_le] at negative
  exact absurd nonneg (not_le.mpr (div_neg_of_neg_of_pos (by exact_mod_cast negative) positive))

theorem weightOf_int (is : ∃ c, one.coefficient = canon c) (nonneg : 0 ≤ one.value) (common : Nat) :
    ((weightOf common one : Nat) : Int) = one.coefficient.big * 10 ^ (common - one.fraction) :=
  Int.toNat_of_nonneg (mul_nonneg (coefficient_nonneg is nonneg) (by positivity))

theorem weightOf_eq (is : ∃ c, one.coefficient = canon c) (nonneg : 0 ≤ one.value) {common : Nat} (within : one.fraction ≤ common) :
    (weightOf common one : ℚ) = one.value * 10 ^ common := by
  have whole := weightOf_int is nonneg common
  obtain ⟨c, isC⟩ := is
  rw [isC, canon_big_value] at whole
  have cast : (weightOf common one : ℚ) = c * 10 ^ (common - one.fraction) := by exact_mod_cast whole
  rw [cast, Parsed.value, isC, canon_value]
  obtain ⟨more, rfl⟩ := Nat.exists_eq_add_of_le within
  rw [Nat.add_sub_cancel_left, pow_add]
  field_simp

theorem readRatio_ok (read : parseRatio ratio = .ok one) (nonneg : 0 ≤ one.value) : readRatio ratio = .ok one := by
  obtain ⟨c, isC⟩ := (parseRatio_canon read).1
  have isPos := coefficient_nonneg ⟨c, isC⟩ nonneg
  have value_ : ¬ one.coefficient.value < 0 := by
    rw [isC, canon_value, not_lt]
    rw [isC, canon_big_value] at isPos
    exact_mod_cast isPos
  unfold readRatio
  simp only [read, bind, Except.bind, if_neg value_]
  rfl

theorem fits_pow {exponent : Nat} (few : exponent ≤ maxInputLength) : Fits (10 ^ exponent) := by
  unfold Fits
  rw [hexDigits_le (by decide), Int.natAbs_pow]
  calc (10 : Int).natAbs ^ exponent ≤ 16 ^ exponent := Nat.pow_le_pow_left (by decide) _
    _ ≤ 16 ^ maxInputLength := Nat.pow_le_pow_right (by decide) few
    _ < 16 ^ maxHexDigits := Nat.pow_lt_pow_right (by decide) (by decide)

theorem scaled_eq {common : Nat} (is : ∃ c, one.coefficient = canon c) (nonneg : 0 ≤ one.value) (few : common ≤ maxInputLength)
    (fits : Fits (weightOf common one)) :
    mulUnits one.coefficient (pow10 (common - one.fraction)) = .ok (canon (weightOf common one : Nat)) := by
  have whole := weightOf_int is nonneg common
  have isPos := coefficient_nonneg is nonneg
  obtain ⟨c, isC⟩ := is
  rw [isC, canon_big_value] at whole isPos
  have fitsPow : Fits (10 ^ (common - one.fraction)) := fits_pow (by omega)
  have fitsC : Fits c := by
    refine fits.below isPos ?_
    rw [whole]
    exact le_mul_of_one_le_right isPos (one_le_pow₀ (by decide))
  rw [isC, pow10_canon, mulUnits_canon, mulBig_fits fitsC fitsPow (whole ▸ fits), ← whole]
  rfl

theorem weights_eq (isRead : List.Forall₂ (fun ratio one => parseRatio ratio = .ok one) ratios parsed)
    (nonneg : ∀ one ∈ parsed, 0 ≤ one.value) (fits : Fits (weightsOf parsed).sum) :
    ∃ weights, ratioWeights ratios = .ok weights ∧
      List.Forall₂ (fun (weight : Units) (w : Nat) => weight.Is w) weights (weightsOf parsed) := by
  have canonical : ∀ one ∈ parsed, (∃ c, one.coefficient = canon c) ∧ one.fraction ≤ maxInputLength := by
    intro one member
    obtain ⟨ratio, _, read⟩ := Outcome.forall₂_right isRead member
    exact parseRatio_canon read
  have unscaled (none_ : commonOf parsed = 0) (one : Parsed) (member : one ∈ parsed) :
      ((weightOf (commonOf parsed) one : Nat) : Int) = one.coefficient.big := by
    rw [weightOf_int (canonical one member).1 (nonneg one member), none_, Nat.zero_sub, pow_zero, mul_one]
  unfold ratioWeights
  cases whole : ratios.mapM wholeWeight with
  | some weights =>
    have each : List.Forall₂ (fun (weight : Units) (one : Parsed) => one.fraction = 0 ∧ weight.Is one.coefficient.big) weights parsed :=
      Outcome.forall₂_join (Outcome.mapM_some whole) isRead fun _ _ _ _ _ _ is read => wholeWeight_is is read
    have none_ : commonOf parsed = 0 := Nat.le_zero.mp (commonOf_le fun one member => by
      obtain ⟨_, _, is⟩ := Outcome.forall₂_right each member
      exact is.1.le)
    refine ⟨weights, rfl, ?_⟩
    rw [weightsOf, List.forall₂_map_right_iff]
    exact Outcome.forall₂_imp each fun _ _ one member is => by
      rw [unscaled none_ one member]
      exact is.2
  | none =>
    have isRatio : ratios.mapM readRatio = .ok parsed :=
      Outcome.mapM_ok.mpr (Outcome.forall₂_imp isRead fun _ _ one member read => readRatio_ok read (nonneg one member))
    have few : commonOf parsed ≤ maxInputLength := commonOf_le fun one member => (canonical one member).2
    have each (one : Parsed) (member : one ∈ parsed) : Fits (weightOf (commonOf parsed) one : Nat) :=
      fits.below (by omega) (by exact_mod_cast List.le_sum_of_mem (List.mem_map_of_mem member))
    unfold scaledWeights
    simp only [isRatio, bind, Except.bind]
    by_cases some_ : 0 < commonOf parsed
    · refine ⟨(weightsOf parsed).map fun w : Nat => canon w, ?_, ?_⟩
      · show (if 0 < commonOf parsed then _ else _) = _
        rw [if_pos some_]
        refine Outcome.mapM_ok.mpr ?_
        rw [weightsOf, List.map_map, List.forall₂_map_right_iff, List.forall₂_same]
        exact fun one member => scaled_eq (canonical one member).1 (nonneg one member) few (each one member)
      · rw [List.forall₂_map_left_iff, List.forall₂_same]
        exact fun w _ => is_canon w
    · refine ⟨parsed.map Parsed.coefficient, ?_, ?_⟩
      · show (if 0 < commonOf parsed then _ else _) = _
        rw [if_neg some_]
        rfl
      · rw [weightsOf, List.forall₂_map_left_iff, List.forall₂_map_right_iff, List.forall₂_same]
        intro one member
        obtain ⟨⟨c, isC⟩, _⟩ := canonical one member
        rw [unscaled (by omega) one member, isC, canon_big_value]
        exact is_canon c

end Arki.Money
