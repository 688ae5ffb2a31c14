import Arki.Money.Units

/-! What the arithmetic on units computes: exact sums and products, and one rounding on both number forms. -/

set_option autoImplicit false

namespace Arki.Money

open Arki (Double)
open Arki.Math (MathError Checked RoundingMode)

variable {a b n u p d : Int} {x y z : Double} {mode : Option RoundingMode}

def IsSafe (n : Int) : Prop := -maxSafe ≤ n ∧ n ≤ maxSafe

instance (n : Int) : Decidable (IsSafe n) := inferInstanceAs (Decidable (_ ∧ _))

theorem IsSafe.small (safe : IsSafe n) : |n| < 2 ^ 53 := by
  rw [abs_lt]
  unfold IsSafe maxSafe at safe
  omega

theorem isSafe_iff : IsSafe n ↔ |n| < 2 ^ 53 := by
  rw [abs_lt]
  unfold IsSafe maxSafe
  omega

theorem canon_safe (safe : IsSafe n) : canon n = .number (.of n) := if_pos safe

theorem canon_big (large : ¬ IsSafe n) : canon n = .bigint n := if_neg large

@[simp] theorem canon_value (n : Int) : (canon n).value = n := by
  unfold canon
  split <;> rfl

@[simp] theorem canon_big_value (n : Int) : (canon n).big = n := by
  unfold canon
  split
  · exact Int.floor_intCast n
  · rfl

/-- A number is a safe integer and never `-0`, and a big one is not safe. -/
def Units.Canonical : Units → Prop
  | .number value => ∃ n : Int, IsSafe n ∧ value = .of n
  | .bigint value => ¬ IsSafe value

theorem Units.canonical_iff {units : Units} : units.Canonical ↔ units = canon units.big := by
  constructor
  · intro isCanonical
    cases units with
    | number value =>
      obtain ⟨n, safe, rfl⟩ := isCanonical
      rw [← canon_safe safe, canon_big_value]
    | bigint value => exact (canon_big isCanonical).symm
  · intro is
    rw [is]
    by_cases safe : IsSafe units.big
    · rw [canon_safe safe]
      exact ⟨_, safe, rfl⟩
    · rw [canon_big safe]
      exact safe

theorem canon_canonical (n : Int) : (canon n).Canonical := Units.canonical_iff.mpr (by rw [canon_big_value])

theorem readsSafe_of (safe : IsSafe n) (is : Double.Is x n) : readsSafe x = true := by
  unfold readsSafe
  rw [show x.value = n from is]
  simp only [Bool.and_eq_true, decide_eq_true_eq]
  exact ⟨by exact_mod_cast safe.2, by exact_mod_cast safe.1⟩

theorem safe_of_round {value : ℚ} (is : value = Double.round n) (low : -(maxSafe : ℚ) ≤ value) (high : value ≤ maxSafe) :
    IsSafe n := by
  rw [isSafe_iff]
  by_contra large
  have far := Double.large_round (not_lt.mp large)
  rw [← is] at far
  have near : |value| ≤ maxSafe := abs_le.mpr ⟨low, high⟩
  have far_ : (2 : ℚ) ^ 53 ≤ maxSafe := far.trans near
  unfold maxSafe at far_
  norm_num at far_

theorem add_eq (a b : Int) : Double.add (.of a) (.of b) = .of (Double.round ((a + b : Int) : ℚ)) := by
  rw [Double.add, if_neg (by simp)]
  push_cast
  rfl

theorem sub_eq (a b : Int) : Double.sub (.of a) (.of b) = .of (Double.round ((a - b : Int) : ℚ)) := by
  rw [Double.sub, if_neg (by simp)]
  push_cast
  rfl

theorem mul_eq (left : Double.Is x a) (right : Double.Is y b) : (Double.mul x y).value = Double.round ((a * b : Int) : ℚ) := by
  rw [Double.mul_value, show x.value = a from left, show y.value = b from right, Int.cast_mul]

theorem hexDigits_le {k : Nat} (positive : 0 < k) : hexDigits n ≤ k ↔ n.natAbs < 16 ^ k :=
  Nat.length_toDigits_le_iff (by decide) positive

theorem IsSafe.hexDigits (safe : IsSafe n) : hexDigits n ≤ 14 := by
  rw [hexDigits_le (by decide)]
  unfold IsSafe maxSafe at safe
  omega

theorem IsSafe.limitDigits (safe : IsSafe n) : limitDigits n = .ok n := by
  have short : ¬ maxHexDigits < Money.hexDigits n := by
    have bound := safe.hexDigits
    unfold maxHexDigits
    omega
  rw [Money.limitDigits, exceedsDigits, if_neg (by simpa using short)]

theorem IsSafe.mulBig (safeA : IsSafe a) (safeB : IsSafe b) : mulBig a b = .ok (a * b) := by
  have boundA := safeA.hexDigits
  have boundB := safeB.hexDigits
  rw [Money.mulBig, if_neg (by unfold maxHexDigits; omega)]

theorem addUnits_canon (a b : Int) : addUnits (canon a) (canon b) = (limitDigits (a + b)).map canon := by
  have big : (limitDigits ((canon a).big + (canon b).big)).map canon = (limitDigits (a + b)).map canon := by simp
  by_cases safeA : IsSafe a
  · by_cases safeB : IsSafe b
    · rw [canon_safe safeA, canon_safe safeB] at big ⊢
      simp only [addUnits, big, add_eq]
      split
      · next reads =>
        have bounds := reads
        simp only [readsSafe, Bool.and_eq_true, decide_eq_true_eq] at bounds
        have safe : IsSafe (a + b) := safe_of_round rfl bounds.2 bounds.1
        rw [Double.round_int safe.small, safe.limitDigits, Except.map, canon_safe safe]
      · rfl
    · rw [canon_safe safeA, canon_big safeB] at big ⊢
      simp only [addUnits, big]
  · rw [canon_big safeA] at big ⊢
    simp only [addUnits, big]

theorem mulUnits_number (left : Double.Is x a) (right : Double.Is y b) (safeA : IsSafe a) (safeB : IsSafe b) :
    mulUnits (.number x) (.number y) = (mulBig a b).map canon := by
  have bigA : (Units.number x).big = a := by
    rw [Units.big, show x.value = a from left, Int.floor_intCast]
  have bigB : (Units.number y).big = b := by
    rw [Units.big, show y.value = b from right, Int.floor_intCast]
  simp only [mulUnits, bigA, bigB]
  split
  · next reads =>
    have bounds := reads
    simp only [readsSafe, Bool.and_eq_true, decide_eq_true_eq] at bounds
    have safe : IsSafe (a * b) := safe_of_round (mul_eq left right) bounds.2 bounds.1
    have is := left.mul right (Double.round_int safe.small)
    rw [safeA.mulBig safeB, Except.map, canon_safe safe, is.add_zero safe.small]
  · rfl

theorem mulUnits_canon (a b : Int) : mulUnits (canon a) (canon b) = (mulBig a b).map canon := by
  have big : (mulBig (canon a).big (canon b).big).map canon = (mulBig a b).map canon := by simp
  by_cases safeA : IsSafe a
  · by_cases safeB : IsSafe b
    · rw [canon_safe safeA, canon_safe safeB]
      exact mulUnits_number (Double.is_of a) (Double.is_of b) safeA safeB
    · rw [canon_safe safeA, canon_big safeB] at big ⊢
      simp only [mulUnits, big]
  · rw [canon_big safeA] at big ⊢
    simp only [mulUnits, big]

theorem negUnits_canon (a : Int) : negUnits (canon a) = canon (-a) := by
  by_cases safe : IsSafe a
  · have safe_ : IsSafe (-a) := by
      unfold IsSafe at safe ⊢
      omega
    have same := sub_eq 0 a
    rw [zero_sub, Double.round_int safe_.small, Int.cast_zero] at same
    rw [canon_safe safe, canon_safe safe_, negUnits, same]
  · have large : ¬ IsSafe (-a) := by
      unfold IsSafe at safe ⊢
      omega
    rw [canon_big safe, canon_big large, negUnits]

theorem compareUnits_canon (a b : Int) : compareUnits (canon a) (canon b) = compare a b := by
  rw [compareUnits, canon_value, canon_value]
  rcases lt_trichotomy a b with less | rfl | more
  · rw [compare_lt_iff_lt.mpr less, compare_lt_iff_lt.mpr (by exact_mod_cast less)]
  · rw [compare_eq_iff_eq.mpr rfl, compare_eq_iff_eq.mpr rfl]
  · rw [compare_gt_iff_gt.mpr more, compare_gt_iff_gt.mpr (by exact_mod_cast more)]

theorem pow10_canon (exponent : Nat) : pow10 exponent = canon (10 ^ exponent) := by
  unfold pow10
  split
  · next small =>
    have bound : (10 : Int) ^ exponent ≤ 10 ^ 15 := pow_le_pow_right₀ (by decide) (by omega)
    have positive : (0 : Int) < 10 ^ exponent := by positivity
    have safe : IsSafe (10 ^ exponent) := by
      unfold IsSafe maxSafe
      omega
    rw [canon_safe safe]
    push_cast
    rfl
  · next large =>
    have bound : (10 : Int) ^ 16 ≤ 10 ^ exponent := pow_le_pow_right₀ (by decide) (by omega)
    have unsafe_ : ¬ IsSafe (10 ^ exponent) := by
      unfold IsSafe maxSafe
      omega
    rw [canon_big unsafe_]

end Arki.Money
