import Arki.Library.Rounding
import Mathlib

/-! A sticky digit: a number that is cut off after one more digit than asked for, and marked when anything was cut off, is
rounded by every mode as the number itself. Rounding looks at a number only through its comparisons with half integers.
-/

set_option autoImplicit false

namespace Arki.Rounding

variable {K L : Type} [Field K] [LinearOrder K] [IsStrictOrderedRing K] [Field L] [LinearOrder L] [IsStrictOrderedRing L]

variable {x : K} {z : L} {n : ℤ} {mode : Mode}

theorem SameHalves.neg (same : SameHalves x z) : SameHalves (-x) (-z) := by
  intro j
  obtain ⟨low, high⟩ := same (-j)
  push_cast at low high
  rw [mul_neg, mul_neg]
  refine ⟨⟨fun order => ?_, fun order => ?_⟩, ⟨fun order => ?_, fun order => ?_⟩⟩
  · exact le_neg.mp (high.mp (le_neg.mp order))
  · exact le_neg.mp (high.mpr (le_neg.mp order))
  · exact neg_le.mp (low.mp (neg_le.mp order))
  · exact neg_le.mp (low.mpr (neg_le.mp order))

theorem SameHalves.isFloor (same : SameHalves x z) (isFloor : IsFloor x n) : IsFloor z n := by
  obtain ⟨low, high⟩ := isFloor
  have lower := (same (2 * n)).1
  have upper := (same (2 * n + 2)).1
  push_cast at lower upper
  refine ⟨?_, ?_⟩
  · have kept := lower.mp (by linarith)
    linarith
  · by_contra! past
    have back := upper.mpr (by linarith)
    linarith

theorem SameHalves.isCeiling (same : SameHalves x z) (isCeiling : IsCeiling x n) : IsCeiling z n := by
  obtain ⟨low, high⟩ := isCeiling
  have lower := (same (2 * n - 2)).2
  have upper := (same (2 * n)).2
  push_cast at lower upper
  refine ⟨?_, ?_⟩
  · by_contra! past
    have back := lower.mpr (by linarith)
    linarith
  · have kept := upper.mp (by linarith)
    linarith

theorem SameHalves.isNearest (same : SameHalves x z) {tie tie_ : Prop} (isNearest : IsNearest x n tie)
    (tied : ∀ j : ℤ, 2 * x = j → 2 * z = j → tie → tie_) : IsNearest z n tie_ := by
  obtain ⟨near, isTie⟩ := isNearest
  rw [abs_le] at near
  have lower := same (2 * n - 1)
  have upper := same (2 * n + 1)
  push_cast at lower upper
  have above := lower.1.mp (by linarith)
  have below := upper.2.mp (by linarith)
  refine ⟨?_, fun half => ?_⟩
  · rw [abs_le]
    constructor <;> linarith
  · rcases abs_choice (z - n) with isPos | isNeg
    · rw [isPos] at half
      have back := upper.1.mpr (by linarith)
      have exact_ : 2 * x = ((2 * n + 1 : ℤ) : K) := by
        push_cast
        linarith
      refine tied (2 * n + 1) exact_ (by push_cast; linarith) (isTie ?_)
      push_cast at exact_
      rw [abs_of_nonneg (by linarith)]
      linarith
    · rw [isNeg] at half
      have back := lower.2.mpr (by linarith)
      have exact_ : 2 * x = ((2 * n - 1 : ℤ) : K) := by
        push_cast
        linarith
      refine tied (2 * n - 1) exact_ (by push_cast; linarith) (isTie ?_)
      push_cast at exact_
      rw [abs_of_nonpos (by linarith)]
      linarith

theorem half_abs {j : ℤ} (exact_ : 2 * x = j) : (|x| < |(n : K)| ↔ |j| < 2 * |n|) ∧ (|(n : K)| < |x| ↔ 2 * |n| < |j|) := by
  have double : 2 * |x| = ((|j| : ℤ) : K) := by
    rw [Int.cast_abs, ← exact_, abs_mul, abs_two]
  have size : |(n : K)| = ((|n| : ℤ) : K) := Int.cast_abs.symm
  rw [size]
  constructor
  · rw [← mul_lt_mul_iff_right₀ (zero_lt_two (α := K)), double]
    exact_mod_cast Iff.rfl
  · rw [← mul_lt_mul_iff_right₀ (zero_lt_two (α := K)), double]
    exact_mod_cast Iff.rfl

theorem Rounds.transfer (rounds : Rounds mode x n) (same : SameHalves x z) : Rounds mode z n := by
  have sign : 0 ≤ x ↔ 0 ≤ z := by
    have zero_ := (same 0).1
    rw [Int.cast_zero, Int.cast_zero] at zero_
    constructor
    · intro nonneg
      have kept := zero_.mp (by linarith)
      linarith
    · intro nonneg
      have kept := zero_.mpr (by linarith)
      linarith
  cases mode with
  | up =>
    simp only [Rounds] at rounds ⊢
    by_cases nonneg : 0 ≤ x
    · rw [if_pos nonneg] at rounds
      rw [if_pos (sign.mp nonneg)]
      exact same.isCeiling rounds
    · rw [if_neg nonneg] at rounds
      rw [if_neg (mt sign.mpr nonneg)]
      exact same.isFloor rounds
  | down =>
    simp only [Rounds] at rounds ⊢
    by_cases nonneg : 0 ≤ x
    · rw [if_pos nonneg] at rounds
      rw [if_pos (sign.mp nonneg)]
      exact same.isFloor rounds
    · rw [if_neg nonneg] at rounds
      rw [if_neg (mt sign.mpr nonneg)]
      exact same.isCeiling rounds
  | ceiling => exact same.isCeiling rounds
  | floor => exact same.isFloor rounds
  | halfUp => exact same.isNearest rounds fun j left right smaller => (half_abs right).1.mpr ((half_abs left).1.mp smaller)
  | halfDown => exact same.isNearest rounds fun j left right larger => (half_abs right).2.mpr ((half_abs left).2.mp larger)
  | halfEven => exact same.isNearest rounds fun j left right even => even
  | unnecessary =>
    have is : x = n := rounds
    have both := same (2 * n)
    push_cast at both
    have low := both.1.mp (by linarith)
    have high := both.2.mp (by linarith)
    show z = n
    linarith

/-- The number times ten, cut off, and one more digit that says whether anything was cut off. -/
theorem sticky {t : L} {root : ℤ} {isExact : Bool} (low : (root : L) ≤ t) (high : t < root + 1) (is : isExact = true ↔ t = root) :
    SameHalves (((root * 10 + if isExact then 0 else 1 : ℤ) : K) / 100) (t / 10) := by
  intro j
  have scaleK (a b : K) : a ≤ 2 * (b / 100) ↔ a * 50 ≤ b := by
    constructor <;> intro order <;> linarith
  have scaleK' (a b : K) : 2 * (b / 100) ≤ a ↔ b ≤ a * 50 := by
    constructor <;> intro order <;> linarith
  have scaleL (a : L) : a ≤ 2 * (t / 10) ↔ a * 5 ≤ t := by
    constructor <;> intro order <;> linarith
  have scaleL' (a : L) : 2 * (t / 10) ≤ a ↔ t ≤ a * 5 := by
    constructor <;> intro order <;> linarith
  have whole : ((j * 5 : ℤ) : L) = (j : L) * 5 := by push_cast; rfl
  rw [scaleK, scaleK', scaleL, scaleL', ← whole]
  have under : ((j * 5 : ℤ) : L) ≤ t ↔ j * 5 ≤ root := by
    constructor
    · intro order
      have less : ((j * 5 : ℤ) : L) < ((root + 1 : ℤ) : L) := by
        push_cast at order ⊢
        linarith
      have lessInt : j * 5 < root + 1 := by exact_mod_cast less
      omega
    · intro order
      have cast : ((j * 5 : ℤ) : L) ≤ root := by exact_mod_cast order
      exact cast.trans low
  have past : t ≤ ((j * 5 : ℤ) : L) ↔ if isExact then root ≤ j * 5 else root < j * 5 := by
    cases isExact with
    | true =>
      rw [is.mp rfl, if_pos rfl]
      exact_mod_cast Iff.rfl
    | false =>
      have apart : t ≠ root := fun same => Bool.false_ne_true (is.mpr same)
      rw [if_neg Bool.false_ne_true]
      constructor
      · intro order
        have more : (root : L) < ((j * 5 : ℤ) : L) := (lt_of_le_of_ne low apart.symm).trans_le order
        exact_mod_cast more
      · intro order
        have next_ : ((root + 1 : ℤ) : L) ≤ ((j * 5 : ℤ) : L) := by exact_mod_cast (show root + 1 ≤ j * 5 by omega)
        push_cast at next_ ⊢
        linarith
  rw [under, past]
  have cast (a b : ℤ) : ((a : K) * 50 ≤ (b : K) ↔ a * 50 ≤ b) ∧ ((b : K) ≤ (a : K) * 50 ↔ b ≤ a * 50) :=
    ⟨by exact_mod_cast Iff.rfl, by exact_mod_cast Iff.rfl⟩
  rw [(cast _ _).1, (cast _ _).2]
  cases isExact with
  | true =>
    simp only [if_true]
    omega
  | false =>
    simp only [Bool.false_eq_true, if_false]
    omega

end Arki.Rounding
