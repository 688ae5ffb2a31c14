import Mathlib.Algebra.Order.Field.Basic
import Mathlib.Tactic.FieldSimp
import Mathlib.Tactic.Linarith
import Mathlib.Tactic.Ring

/-! Rounding to an integer: what each mode assigns to a number of an ordered field, and how the mode decides from the
whole part, the sign, and which half the rest is in.
-/

set_option autoImplicit false

namespace Arki.Rounding

/-- The directions. `unnecessary` allows no loss. -/
inductive Mode where
  | up
  | down
  | ceiling
  | floor
  | halfUp
  | halfDown
  | halfEven
  | unnecessary
  deriving DecidableEq

variable {K : Type} [Field K] [LinearOrder K] [IsStrictOrderedRing K]

def IsFloor (x : K) (n : ℤ) : Prop := (n : K) ≤ x ∧ x < n + 1

def IsCeiling (x : K) (n : ℤ) : Prop := (n : K) - 1 < x ∧ x ≤ n

/-- The integer is a nearest one, and `tie` says which of two it is. -/
def IsNearest (x : K) (n : ℤ) (tie : Prop) : Prop := |x - n| ≤ 1 / 2 ∧ (|x - n| = 1 / 2 → tie)

def Rounds (mode : Mode) (x : K) (n : ℤ) : Prop :=
  match mode with
  | .up => if 0 ≤ x then IsCeiling x n else IsFloor x n
  | .down => if 0 ≤ x then IsFloor x n else IsCeiling x n
  | .ceiling => IsCeiling x n
  | .floor => IsFloor x n
  | .halfUp => IsNearest x n (|x| < |(n : K)|)
  | .halfDown => IsNearest x n (|(n : K)| < |x|)
  | .halfEven => IsNearest x n (Even n)
  | .unnecessary => x = n

variable {x : K} {n m : ℤ} {mode : Mode}

theorem IsFloor.unique (first : IsFloor x n) (second : IsFloor x m) : n = m := by
  have up : (n : K) < m + 1 := lt_of_le_of_lt first.1 second.2
  have down : (m : K) < n + 1 := lt_of_le_of_lt second.1 first.2
  have upInt : n < m + 1 := by exact_mod_cast up
  have downInt : m < n + 1 := by exact_mod_cast down
  omega

theorem IsCeiling.unique (first : IsCeiling x n) (second : IsCeiling x m) : n = m := by
  have up : (n : K) - 1 < m := lt_of_lt_of_le first.1 second.2
  have down : (m : K) - 1 < n := lt_of_lt_of_le second.1 first.2
  have upInt : n - 1 < m := by exact_mod_cast up
  have downInt : m - 1 < n := by exact_mod_cast down
  omega

theorem nearest_apart (first : |x - n| ≤ 1 / 2) (second : |x - m| ≤ 1 / 2) (less : n < m) :
    m = n + 1 ∧ x = n + 1 / 2 := by
  rw [abs_le] at first second
  have close : (m : K) ≤ n + 1 := by linarith
  have closeInt : m ≤ n + 1 := by exact_mod_cast close
  have next : m = n + 1 := by omega
  refine ⟨next, ?_⟩
  have cast : (m : K) = n + 1 := by exact_mod_cast next
  linarith

theorem IsNearest.unique {tie tie_ : Prop} (first : IsNearest x n tie) (second : IsNearest x m tie_)
    (apart : ∀ low : ℤ, x = low + 1 / 2 → (n = low ∧ m = low + 1 ∨ m = low ∧ n = low + 1) → tie → tie_ → False) : n = m := by
  have tied {k : ℤ} {low : ℤ} (half : x = low + 1 / 2) (is : k = low ∨ k = low + 1) : |x - k| = 1 / 2 := by
    rcases is with rfl | rfl
    · rw [half, add_sub_cancel_left, abs_of_pos (by norm_num)]
    · rw [half]
      push_cast
      have value : (low : K) + 1 / 2 - (low + 1) = -(1 / 2) := by ring
      rw [value, abs_neg, abs_of_pos (by norm_num)]
  rcases lt_trichotomy n m with less | same | more
  · obtain ⟨next, half⟩ := nearest_apart first.1 second.1 less
    exact (apart n half (.inl ⟨rfl, next⟩) (first.2 (tied half (.inl rfl))) (second.2 (tied half (.inr next)))).elim
  · exact same
  · obtain ⟨next, half⟩ := nearest_apart second.1 first.1 more
    exact (apart m half (.inr ⟨rfl, next⟩) (first.2 (tied half (.inr next))) (second.2 (tied half (.inl rfl)))).elim

/-- The middle between two integers is farther from zero than the one on its inner side only. -/
theorem abs_middle (low : ℤ) : (0 ≤ low → |(low : K)| < |(low : K) + 1 / 2| ∧ |(low : K) + 1 / 2| < |(low : K) + 1|) ∧
    (low < 0 → |(low : K) + 1| < |(low : K) + 1 / 2| ∧ |(low : K) + 1 / 2| < |(low : K)|) := by
  constructor
  · intro positive
    have cast : (0 : K) ≤ low := by exact_mod_cast positive
    rw [abs_of_nonneg cast, abs_of_pos (by linarith : (0 : K) < low + 1 / 2), abs_of_pos (by linarith : (0 : K) < low + 1)]
    constructor <;> linarith
  · intro negative
    have bound : low + 1 ≤ 0 := by omega
    have cast : (low : K) + 1 ≤ 0 := by exact_mod_cast bound
    rw [abs_of_nonpos cast, abs_of_neg (by linarith : (low : K) + 1 / 2 < 0), abs_of_neg (by linarith : (low : K) < 0)]
    constructor <;> linarith

theorem Rounds.unique (first : Rounds mode x n) (second : Rounds mode x m) : n = m := by
  cases mode with
  | up =>
    simp only [Rounds] at first second
    split at first
    · next positive =>
      rw [if_pos positive] at second
      exact first.unique second
    · next negative =>
      rw [if_neg negative] at second
      exact first.unique second
  | down =>
    simp only [Rounds] at first second
    split at first
    · next positive =>
      rw [if_pos positive] at second
      exact first.unique second
    · next negative =>
      rw [if_neg negative] at second
      exact first.unique second
  | ceiling => exact IsCeiling.unique first second
  | floor => exact IsFloor.unique first second
  | halfUp =>
    refine IsNearest.unique first second fun low half which out out_ => ?_
    obtain ⟨positive, negative⟩ := @abs_middle K _ _ _ low
    rw [half] at out out_
    rcases lt_or_ge low 0 with isNeg | isPos
    · have inner := (negative isNeg).1
      rcases which with ⟨-, rfl⟩ | ⟨-, rfl⟩
      · push_cast at out_
        linarith
      · push_cast at out
        linarith
    · have inner := (positive isPos).1
      rcases which with ⟨rfl, -⟩ | ⟨rfl, -⟩
      · linarith
      · linarith
  | halfDown =>
    refine IsNearest.unique first second fun low half which inn inn_ => ?_
    obtain ⟨positive, negative⟩ := @abs_middle K _ _ _ low
    rw [half] at inn inn_
    rcases lt_or_ge low 0 with isNeg | isPos
    · have outer := (negative isNeg).2
      rcases which with ⟨rfl, -⟩ | ⟨rfl, -⟩
      · linarith
      · linarith
    · have outer := (positive isPos).2
      rcases which with ⟨-, rfl⟩ | ⟨-, rfl⟩
      · push_cast at inn_
        linarith
      · push_cast at inn
        linarith
  | halfEven =>
    refine IsNearest.unique first second fun low half which isEven isEven_ => ?_
    rcases which with ⟨rfl, rfl⟩ | ⟨rfl, rfl⟩
    · exact (Int.even_add_one.mp isEven_) isEven
    · exact (Int.even_add_one.mp isEven) isEven_
  | unnecessary =>
    have same : (n : K) = m := first.symm.trans second
    exact_mod_cast same

theorem rounds_int (mode : Mode) (n : ℤ) : Rounds mode (n : K) n := by
  have isFloor : IsFloor (n : K) n := ⟨le_refl _, by linarith⟩
  have isCeiling : IsCeiling (n : K) n := ⟨by linarith, le_refl _⟩
  have isNearest (tie : Prop) : IsNearest (n : K) n tie := by
    refine ⟨by rw [sub_self, abs_zero]; norm_num, fun half => ?_⟩
    rw [sub_self, abs_zero] at half
    norm_num at half
  cases mode with
  | up =>
    simp only [Rounds]
    split
    · exact isCeiling
    · exact isFloor
  | down =>
    simp only [Rounds]
    split
    · exact isFloor
    · exact isCeiling
  | ceiling => exact isCeiling
  | floor => exact isFloor
  | halfUp => exact isNearest _
  | halfDown => exact isNearest _
  | halfEven => exact isNearest _
  | unnecessary => rfl

theorem Rounds.near (rounds : Rounds mode x n) : |x - n| < 1 := by
  have ofFloor (isFloor : IsFloor x n) : |x - n| < 1 := by
    obtain ⟨low, high⟩ := isFloor
    rw [abs_lt]
    constructor <;> linarith
  have ofCeiling (isCeiling : IsCeiling x n) : |x - n| < 1 := by
    obtain ⟨low, high⟩ := isCeiling
    rw [abs_lt]
    constructor <;> linarith
  have ofNearest {tie : Prop} (isNearest : IsNearest x n tie) : |x - n| < 1 :=
    isNearest.1.trans_lt (by norm_num)
  cases mode with
  | up =>
    simp only [Rounds] at rounds
    split at rounds
    · exact ofCeiling rounds
    · exact ofFloor rounds
  | down =>
    simp only [Rounds] at rounds
    split at rounds
    · exact ofFloor rounds
    · exact ofCeiling rounds
  | ceiling => exact ofCeiling rounds
  | floor => exact ofFloor rounds
  | halfUp => exact ofNearest rounds
  | halfDown => exact ofNearest rounds
  | halfEven => exact ofNearest rounds
  | unnecessary =>
    have same : x = n := rounds
    rw [same, sub_self, abs_zero]
    exact zero_lt_one

/-- Whether the magnitude goes up, from the sign, whether the rest is half or more, above half, and an odd whole part. -/
def roundsUp (mode : Mode) (negative half above odd : Bool) : Bool :=
  match mode with
  | .up => true
  | .down | .unnecessary => false
  | .ceiling => !negative
  | .floor => negative
  | .halfUp => half
  | .halfDown => above
  | .halfEven => above || half && odd

theorem IsFloor.neg (isFloor : IsFloor x n) : IsCeiling (-x) (-n) := by
  obtain ⟨low, high⟩ := isFloor
  constructor
  · push_cast
    linarith
  · push_cast
    linarith

theorem IsCeiling.neg (isCeiling : IsCeiling x n) : IsFloor (-x) (-n) := by
  obtain ⟨low, high⟩ := isCeiling
  constructor
  · push_cast
    linarith
  · push_cast
    linarith

omit [IsStrictOrderedRing K] in
theorem IsNearest.neg {tie tie_ : Prop} (isNearest : IsNearest x n tie) (same : tie → tie_) : IsNearest (-x) (-n) tie_ := by
  have distance : |(-x) - ((-n : ℤ) : K)| = |x - n| := by
    push_cast
    rw [neg_sub_neg, abs_sub_comm]
  rw [IsNearest, distance]
  exact ⟨isNearest.1, fun half => same (isNearest.2 half)⟩

theorem Rounds.neg (rounds : Rounds mode x n) (positive : 0 < x) (even : mode ≠ .ceiling ∧ mode ≠ .floor) :
    Rounds mode (-x) (-n) := by
  have isNeg : ¬ 0 ≤ -x := by linarith
  cases mode with
  | up =>
    simp only [Rounds, if_neg isNeg, if_pos positive.le] at rounds ⊢
    exact rounds.neg
  | down =>
    simp only [Rounds, if_neg isNeg, if_pos positive.le] at rounds ⊢
    exact rounds.neg
  | ceiling => exact absurd rfl even.1
  | floor => exact absurd rfl even.2
  | halfUp =>
    refine IsNearest.neg rounds fun less => ?_
    push_cast
    rwa [abs_neg, abs_neg]
  | halfDown =>
    refine IsNearest.neg rounds fun less => ?_
    push_cast
    rwa [abs_neg, abs_neg]
  | halfEven => exact IsNearest.neg rounds fun isEven => even_neg.mpr isEven
  | unnecessary =>
    have same : x = n := rounds
    simp only [Rounds]
    push_cast
    rw [same]

variable {whole : ℕ} {rest : K}

theorem isFloor_whole (positive : 0 < rest) (below : rest < 1) : IsFloor ((whole : K) + rest) whole := by
  constructor
  · push_cast
    linarith
  · push_cast
    linarith

theorem isCeiling_whole (positive : 0 < rest) (below : rest < 1) : IsCeiling ((whole : K) + rest) (whole + 1) := by
  constructor
  · push_cast
    linarith
  · push_cast
    linarith

theorem isNearest_down {tie : Prop} (positive : 0 < rest) (low : rest ≤ 1 / 2) (isTie : rest = 1 / 2 → tie) :
    IsNearest ((whole : K) + rest) whole tie := by
  have distance : |(whole : K) + rest - ((whole : ℤ) : K)| = rest := by
    push_cast
    rw [add_sub_cancel_left, abs_of_pos positive]
  rw [IsNearest, distance]
  exact ⟨low, isTie⟩

theorem isNearest_up {tie : Prop} (below : rest < 1) (high : 1 / 2 ≤ rest) (isTie : rest = 1 / 2 → tie) :
    IsNearest ((whole : K) + rest) (whole + 1) tie := by
  have distance : |(whole : K) + rest - ((whole + 1 : ℤ) : K)| = 1 - rest := by
    have value : (whole : K) + rest - ((whole + 1 : ℤ) : K) = -(1 - rest) := by
      push_cast
      ring
    rw [value, abs_neg, abs_of_pos (by linarith)]
  rw [IsNearest, distance]
  exact ⟨by linarith, fun half => isTie (by linarith)⟩

theorem rounds_whole (mode : Mode) (isRounding : mode ≠ .unnecessary) (positive : 0 < rest) (below : rest < 1) {half above : Bool}
    (isHalf : half = true ↔ 1 / 2 ≤ rest) (isAbove : above = true ↔ 1 / 2 < rest) :
    Rounds mode ((whole : K) + rest) (if roundsUp mode false half above (decide (whole % 2 = 1)) then (whole : ℤ) + 1 else whole) := by
  have wholePos : (0 : K) ≤ whole := Nat.cast_nonneg whole
  have inside : 0 ≤ (whole : K) + rest := by linarith
  have isFloor := @isFloor_whole K _ _ _ whole rest positive below
  have isCeiling := @isCeiling_whole K _ _ _ whole rest positive below
  cases mode with
  | up => simpa only [Rounds, roundsUp, if_pos inside, if_true] using isCeiling
  | down => simpa only [Rounds, roundsUp, if_pos inside, Bool.false_eq_true, if_false] using isFloor
  | ceiling => simpa only [Rounds, roundsUp, Bool.not_false, if_true] using isCeiling
  | floor => simpa only [Rounds, roundsUp, Bool.false_eq_true, if_false] using isFloor
  | halfUp =>
    by_cases up : roundsUp .halfUp false half above (decide (whole % 2 = 1)) = true
    · rw [if_pos up]
      refine isNearest_up below (isHalf.mp up) fun _ => ?_
      push_cast
      rw [abs_of_nonneg inside, abs_of_nonneg (by linarith : (0 : K) ≤ whole + 1)]
      linarith
    · rw [if_neg up]
      have less : ¬ (1 / 2 ≤ rest) := fun more => up (isHalf.mpr more)
      refine isNearest_down positive (by linarith) fun tie => ?_
      exact absurd tie.ge less
  | halfDown =>
    by_cases up : roundsUp .halfDown false half above (decide (whole % 2 = 1)) = true
    · rw [if_pos up]
      have more := isAbove.mp up
      exact isNearest_up below more.le fun tie => absurd tie.symm more.ne
    · rw [if_neg up]
      have less : ¬ (1 / 2 < rest) := fun more => up (isAbove.mpr more)
      refine isNearest_down positive (by linarith) fun _ => ?_
      push_cast
      rw [abs_of_nonneg inside, abs_of_nonneg wholePos]
      linarith
  | halfEven =>
    by_cases up : roundsUp .halfEven false half above (decide (whole % 2 = 1)) = true
    · rw [if_pos up]
      simp only [roundsUp, Bool.or_eq_true, Bool.and_eq_true, decide_eq_true_eq] at up
      rcases up with more | ⟨more, isOdd⟩
      · have strictly := isAbove.mp more
        exact isNearest_up below strictly.le fun tie => absurd tie.symm strictly.ne
      · refine isNearest_up below (isHalf.mp more) fun _ => ?_
        have isEven : (whole + 1) % 2 = 0 := by omega
        exact_mod_cast Nat.even_iff.mpr isEven
    · rw [if_neg up]
      simp only [roundsUp, Bool.or_eq_true, Bool.and_eq_true, decide_eq_true_eq, not_or] at up
      have less : ¬ (1 / 2 < rest) := fun more => up.1 (isAbove.mpr more)
      refine isNearest_down positive (by linarith) fun tie => ?_
      have isEven : whole % 2 = 0 := by
        have notOdd : ¬ whole % 2 = 1 := fun isOdd => up.2 ⟨isHalf.mpr tie.ge, isOdd⟩
        omega
      exact_mod_cast Nat.even_iff.mpr isEven
  | unnecessary => exact absurd rfl isRounding

theorem rounds_whole_neg (mode : Mode) (isRounding : mode ≠ .unnecessary) (positive : 0 < rest) (below : rest < 1)
    {half above : Bool} (isHalf : half = true ↔ 1 / 2 ≤ rest) (isAbove : above = true ↔ 1 / 2 < rest) :
    Rounds mode (-((whole : K) + rest))
      (-(if roundsUp mode true half above (decide (whole % 2 = 1)) then (whole : ℤ) + 1 else whole)) := by
  have wholePos : (0 : K) ≤ whole := Nat.cast_nonneg whole
  have inside : 0 < (whole : K) + rest := by linarith
  have decided := @rounds_whole K _ _ _ whole rest mode isRounding positive below half above isHalf isAbove
  by_cases directed : mode = .ceiling ∨ mode = .floor
  · rcases directed with rfl | rfl
    · exact (isFloor_whole positive below).neg
    · exact (isCeiling_whole positive below).neg
  · rw [not_or] at directed
    have same : roundsUp mode true half above (decide (whole % 2 = 1)) = roundsUp mode false half above (decide (whole % 2 = 1)) := by
      cases mode with
      | ceiling => exact absurd rfl directed.1
      | floor => exact absurd rfl directed.2
      | _ => rfl
    rw [same]
    exact decided.neg inside directed

def SameHalves {K L : Type} [Field K] [LinearOrder K] [Field L] [LinearOrder L] (x : K) (z : L) : Prop :=
  ∀ j : ℤ, ((j : K) ≤ 2 * x ↔ (j : L) ≤ 2 * z) ∧ (2 * x ≤ j ↔ 2 * z ≤ j)

end Arki.Rounding
