import Arki.Library.Double

/-! Doubles with their bounds: the spacing of the subnormal numbers below, and infinity above. -/

set_option autoImplicit false

namespace Arki

section

variable {x : ℚ} {n k : ℤ}

theorem nearest_near (x : ℚ) : |x - nearest x| ≤ 1 / 2 ∧ (|x - nearest x| = 1 / 2 → Even (nearest x)) := by
  have low := Int.floor_le x
  have high := Int.lt_floor_add_one x
  unfold nearest
  dsimp only
  split
  · next below =>
    rw [abs_of_nonneg (by linarith)]
    exact ⟨below.le, fun tie => by linarith⟩
  · next notBelow =>
    split
    · next above =>
      push_cast
      rw [abs_of_nonpos (by linarith)]
      exact ⟨by linarith, fun tie => by linarith⟩
    · next notAbove =>
      have tie : x - ⌊x⌋ = 1 / 2 := le_antisymm (not_lt.mp notAbove) (not_lt.mp notBelow)
      split
      · next even =>
        rw [abs_of_nonneg (by linarith)]
        exact ⟨tie.le, fun _ => Int.even_iff.mpr even⟩
      · next odd =>
        push_cast
        rw [abs_of_nonpos (by linarith)]
        refine ⟨by linarith, fun _ => ?_⟩
        rw [Int.even_iff]
        omega

theorem halves (near : |x - n| ≤ 1 / 2) (near' : |x - k| ≤ 1 / 2) (apart : n ≠ k) :
    |x - n| = 1 / 2 ∧ |x - k| = 1 / 2 ∧ (k = n + 1 ∨ n = k + 1) := by
  rw [abs_le] at near near'
  have cast : (n : ℚ) - k ≤ 1 := by linarith
  have cast' : (k : ℚ) - n ≤ 1 := by linarith
  have close : n - k ≤ 1 := by exact_mod_cast cast
  have close' : k - n ≤ 1 := by exact_mod_cast cast'
  rcases lt_or_gt_of_ne apart with less | more
  · have next_ : k = n + 1 := by omega
    rw [next_] at near' ⊢
    push_cast at near' ⊢
    refine ⟨?_, ?_, .inl rfl⟩
    · rw [abs_of_nonneg (by linarith)]
      linarith
    · rw [abs_of_nonpos (by linarith)]
      linarith
  · have next_ : n = k + 1 := by omega
    rw [next_] at near ⊢
    push_cast at near ⊢
    refine ⟨?_, ?_, .inr rfl⟩
    · rw [abs_of_nonpos (by linarith)]
      linarith
    · rw [abs_of_nonneg (by linarith)]
      linarith

theorem nearest_eq (near : |x - n| ≤ 1 / 2) (even : |x - n| = 1 / 2 → Even n) : nearest x = n := by
  by_contra apart
  obtain ⟨near', even'⟩ := nearest_near x
  obtain ⟨tie', tie, next_⟩ := halves near' near apart
  have left := Int.even_iff.mp (even tie)
  have right := Int.even_iff.mp (even' tie')
  omega

theorem nearest_neg (x : ℚ) : nearest (-x) = -nearest x := by
  obtain ⟨near, even⟩ := nearest_near x
  have mirrored : |-x - (-nearest x : ℤ)| = |x - nearest x| := by
    rw [Int.cast_neg, ← abs_neg]
    congr 1
    ring
  apply nearest_eq
  · rw [mirrored]
    exact near
  · rw [mirrored]
    exact fun tie => (even tie).neg

theorem nearest_closest (x : ℚ) (k : ℤ) :
    |x - nearest x| ≤ |x - k| ∧ (k ≠ nearest x → |x - k| = |x - nearest x| → Even (nearest x)) := by
  obtain ⟨near, even⟩ := nearest_near x
  by_cases far : |x - k| ≤ 1 / 2
  · by_cases apart : nearest x = k
    · rw [apart]
      exact ⟨le_rfl, fun different => absurd rfl different⟩
    · obtain ⟨tie, tie', -⟩ := halves near far apart
      exact ⟨by rw [tie, tie'], fun _ _ => even tie⟩
  · rw [not_le] at far
    exact ⟨near.trans far.le, fun _ same => absurd (same ▸ near) (not_le.mpr far)⟩

end

namespace Binary64

/-- A number of 53 significant bits, whose last bit is no less than the least one. -/
def IsDouble (y : ℚ) : Prop := ∃ m e : ℤ, |m| < 2 ^ 53 ∧ -1074 ≤ e ∧ y = m * 2 ^ e

def HasEvenSignificand (y : ℚ) : Prop :=
  ∃ m e : ℤ, Even m ∧ |m| < 2 ^ 53 ∧ -1074 ≤ e ∧ (2 ^ 52 ≤ |m| ∨ e = -1074) ∧ y = m * 2 ^ e

structure IsNearest (x y : ℚ) : Prop where
  isDouble : IsDouble y
  closest : ∀ z, IsDouble z → |x - y| ≤ |x - z|
  even : ∀ z, IsDouble z → z ≠ y → |x - z| = |x - y| → HasEvenSignificand y

def exponent (x : ℚ) : ℤ := max (Int.log 2 |x| - 52) (-1074)

def round (x : ℚ) : ℚ := nearest (x / 2 ^ exponent x) * 2 ^ exponent x

variable {x y z : ℚ} {m e : ℤ}

theorem IsDouble.neg (isDouble : IsDouble y) : IsDouble (-y) := by
  obtain ⟨m, e, short, least, rfl⟩ := isDouble
  exact ⟨-m, e, by rwa [abs_neg], least, by push_cast; ring⟩

theorem IsNearest.neg (isNearest : IsNearest x y) : IsNearest (-x) (-y) := by
  have mirrored (z : ℚ) : |-x - z| = |x - -z| := by
    rw [← abs_neg]
    congr 1
    ring
  refine ⟨isNearest.isDouble.neg, fun z isDouble => ?_, fun z isDouble apart same => ?_⟩
  · rw [mirrored, mirrored, neg_neg]
    exact isNearest.closest _ isDouble.neg
  · rw [mirrored, mirrored, neg_neg] at same
    obtain ⟨m, e, even, short, least, full, rfl⟩ := isNearest.even _ isDouble.neg (by rintro rfl; simp at apart) same
    exact ⟨-m, e, even.neg, by rwa [abs_neg], least, by rwa [abs_neg], by push_cast; ring⟩

theorem exponent_neg (x : ℚ) : exponent (-x) = exponent x := by rw [exponent, exponent, abs_neg]

theorem round_neg (x : ℚ) : round (-x) = -round x := by
  rw [round, round, exponent_neg, neg_div, nearest_neg]
  push_cast
  ring

theorem scaled (x : ℚ) (k e : ℤ) : |x - k * 2 ^ e| = |x / 2 ^ e - k| * 2 ^ e := by
  have unit : (0 : ℚ) < 2 ^ e := zpow_pos (by norm_num) e
  rw [← abs_of_pos unit, ← abs_mul, abs_of_pos unit, sub_mul, div_mul_cancel₀ _ unit.ne']

theorem round_grid (x : ℚ) (k : ℤ) : |x - round x| ≤ |x - k * 2 ^ exponent x| ∧
    (k ≠ nearest (x / 2 ^ exponent x) → |x - k * 2 ^ exponent x| = |x - round x| → Even (nearest (x / 2 ^ exponent x))) := by
  have unit : (0 : ℚ) < 2 ^ exponent x := zpow_pos (by norm_num) _
  obtain ⟨closest, even⟩ := nearest_closest (x / 2 ^ exponent x) k
  rw [round, scaled, scaled]
  exact ⟨mul_le_mul_of_nonneg_right closest unit.le, fun apart same => even apart (mul_right_cancel₀ unit.ne' same)⟩

theorem exponent_size (positive : 0 < x) : x < 2 ^ (exponent x + 53) ∧ -1074 ≤ exponent x ∧
    (exponent x ≠ -1074 → 2 ^ (exponent x + 52) ≤ x) := by
  have high : x < (2 : ℚ) ^ (Int.log 2 x + 1) := by exact_mod_cast Int.lt_zpow_succ_log_self one_lt_two x
  have low : (2 : ℚ) ^ Int.log 2 x ≤ x := by exact_mod_cast Int.zpow_log_le_self one_lt_two positive
  rw [exponent, abs_of_pos positive]
  refine ⟨high.trans_le (zpow_le_zpow_right₀ one_le_two (by omega)), le_max_right _ _, fun normal => ?_⟩
  have is : max (Int.log 2 x - 52) (-1074) + 52 = Int.log 2 x := by omega
  rw [is]
  exact low

/-- A double is a multiple of the last bit of another number, or some multiple is nearer to that number than it. -/
theorem IsDouble.grid (isDouble : IsDouble z) (positive : 0 < x) :
    (∃ k : ℤ, z = k * 2 ^ exponent x) ∨ ∃ k : ℤ, |x - k * 2 ^ exponent x| < |x - z| := by
  obtain ⟨m, e, short, least, rfl⟩ := isDouble
  obtain ⟨-, -, normal⟩ := exponent_size positive
  generalize exponent x = bit at *
  rcases le_or_gt bit e with above | below
  · obtain ⟨shift, isShift⟩ : ∃ shift : ℕ, e = bit + shift := ⟨(e - bit).toNat, by omega⟩
    refine .inl ⟨m * 2 ^ shift, ?_⟩
    rw [isShift, zpow_add₀ two_ne_zero, zpow_natCast]
    push_cast
    ring
  · -- the power of two under `x` is between the double and `x`
    refine .inr ⟨2 ^ 52, ?_⟩
    have power : ((2 ^ 52 : ℤ) : ℚ) * 2 ^ bit = 2 ^ (bit + 52) := by
      rw [add_comm, zpow_add₀ two_ne_zero]
      norm_num
    have under := normal (by omega)
    have small : (m : ℚ) * 2 ^ e < 2 ^ (bit + 52) := by
      have unit : (0 : ℚ) < 2 ^ e := zpow_pos (by norm_num) e
      have cast : (m : ℚ) < 2 ^ 53 := by exact_mod_cast (abs_lt.mp short).2
      calc (m : ℚ) * 2 ^ e < 2 ^ 53 * 2 ^ e := mul_lt_mul_of_pos_right cast unit
        _ = 2 ^ (e + 53) := by
          rw [add_comm, zpow_add₀ two_ne_zero]
          norm_num
        _ ≤ 2 ^ (bit + 52) := zpow_le_zpow_right₀ one_le_two (by omega)
    rw [power, abs_of_nonneg (sub_nonneg.mpr under), abs_of_nonneg (by linarith)]
    linarith

theorem round_significand (positive : 0 < x) : ∃ m e : ℤ, |m| < 2 ^ 53 ∧ -1074 ≤ e ∧ (2 ^ 52 ≤ |m| ∨ e = -1074) ∧
    round x = m * 2 ^ e ∧ (Even (nearest (x / 2 ^ exponent x)) → Even m) := by
  obtain ⟨high, least, normal⟩ := exponent_size positive
  rw [round]
  generalize exponent x = bit at *
  have unit : (0 : ℚ) < 2 ^ bit := zpow_pos (by norm_num) bit
  have power (n : ℕ) : ((2 ^ n : ℤ) : ℚ) * 2 ^ bit = 2 ^ (bit + n) := by
    rw [add_comm, zpow_add₀ two_ne_zero, zpow_natCast]
    push_cast
    rfl
  have upper : nearest (x / 2 ^ bit) ≤ 2 ^ 53 := by
    apply nearest_le
    rw [div_le_iff₀ unit, power]
    exact_mod_cast high.le
  have nonneg : 0 ≤ nearest (x / 2 ^ bit) := by
    apply nearest_ge
    rw [Int.cast_zero]
    exact (div_pos positive unit).le
  have full : 2 ^ 52 ≤ nearest (x / 2 ^ bit) ∨ bit = -1074 := by
    by_cases subnormal : bit = -1074
    · exact .inr subnormal
    · left
      apply nearest_ge
      rw [le_div_iff₀ unit, power]
      exact_mod_cast normal subnormal
  generalize nearest (x / 2 ^ bit) = n at *
  by_cases carried : n = 2 ^ 53
  · -- the carry to the next power of two
    refine ⟨2 ^ 52, bit + 1, by norm_num, by omega, .inl (by norm_num), ?_, fun _ => by decide⟩
    rw [carried, power, zpow_add₀ two_ne_zero, zpow_add₀ two_ne_zero]
    norm_num
    ring
  · refine ⟨n, bit, ?_, least, ?_, rfl, id⟩
    · rw [abs_of_nonneg nonneg]
      omega
    · rw [abs_of_nonneg nonneg]
      exact full

theorem round_zero : round 0 = 0 := by
  have none_ := nearest_int 0
  rw [Int.cast_zero] at none_
  rw [round, zero_div, none_, Int.cast_zero, zero_mul]

theorem round_isNearest_of_pos (positive : 0 < x) : IsNearest x (round x) := by
  obtain ⟨m, e, short, least, full, is, even⟩ := round_significand positive
  refine ⟨⟨m, e, short, least, is⟩, fun z isDouble => ?_, fun z isDouble apart same => ?_⟩
  · rcases isDouble.grid positive with ⟨k, rfl⟩ | ⟨k, nearer⟩
    · exact (round_grid x k).1
    · exact (round_grid x k).1.trans nearer.le
  · rcases isDouble.grid positive with ⟨k, rfl⟩ | ⟨k, nearer⟩
    · refine ⟨m, e, even ((round_grid x k).2 ?_ same), short, least, full, is⟩
      rintro rfl
      exact apart rfl
    · exact absurd (round_grid x k).1 (not_le.mpr (same ▸ nearer))

theorem round_isNearest (x : ℚ) : IsNearest x (round x) := by
  rcases lt_trichotomy x 0 with negative | rfl | positive
  · have mirrored := (round_isNearest_of_pos (neg_pos.mpr negative)).neg
    rwa [round_neg, neg_neg, neg_neg] at mirrored
  · rw [round_zero]
    refine ⟨⟨0, 0, by norm_num, by norm_num, by norm_num⟩, fun z _ => ?_, fun z _ apart same => ?_⟩
    · rw [sub_self, abs_zero]
      exact abs_nonneg _
    · rw [sub_self, abs_zero, abs_eq_zero, zero_sub, neg_eq_zero] at same
      exact absurd same apart
  · exact round_isNearest_of_pos positive

theorem IsDouble.round (isDouble : IsDouble y) : round y = y := by
  have none_ := (round_isNearest y).closest y isDouble
  rw [sub_self, abs_zero] at none_
  have same := abs_eq_zero.mp (le_antisymm none_ (abs_nonneg _))
  linarith

theorem double_round_neg (x : ℚ) : Double.round (-x) = -Double.round x := by
  have same : Double.ulp (-x) = Double.ulp x := by rw [Double.ulp, Double.ulp, abs_neg]
  rw [Double.round, Double.round, same, neg_div, nearest_neg]
  push_cast
  ring

theorem round_of_normal (normal : -1022 ≤ Int.log 2 |x|) : round x = Double.round x := by
  have is : exponent x = Int.log 2 |x| - 52 := max_eq_left (by omega)
  rw [round, Double.round, Double.ulp, is]

def Halfway (x : ℚ) : Prop := ∃ k : ℤ, x = (k + 1 / 2) * 2 ^ (-1074 : ℤ)

/-- To 53 bits, a number of the subnormal range is not moved across a point half way. -/
theorem double_round_side (subnormal : Int.log 2 |x| < -1022) (k : ℤ) :
    ((k + 1 / 2) * 2 ^ (-1074 : ℤ) ≤ x → (k + 1 / 2) * 2 ^ (-1074 : ℤ) ≤ Double.round x) ∧
      (x ≤ (k + 1 / 2) * 2 ^ (-1074 : ℤ) → Double.round x ≤ (k + 1 / 2) * 2 ^ (-1074 : ℤ)) := by
  have unit := Double.ulp_pos x
  obtain ⟨shift, isShift⟩ : ∃ shift : ℕ, (-1075 : ℤ) = Int.log 2 |x| - 52 + shift := ⟨(-1075 - (Int.log 2 |x| - 52)).toNat, by omega⟩
  have middle : ((k : ℚ) + 1 / 2) * 2 ^ (-1074 : ℤ) = (((2 * k + 1) * 2 ^ shift : ℤ) : ℚ) * Double.ulp x := by
    have finer : (2 : ℚ) ^ (-1074 : ℤ) = 2 * 2 ^ (-1075 : ℤ) := by
      rw [← zpow_one_add₀ two_ne_zero]
      norm_num
    rw [finer, isShift, zpow_add₀ two_ne_zero, zpow_natCast, Double.ulp]
    push_cast
    ring
  rw [middle, Double.round]
  constructor
  · intro above
    refine mul_le_mul_of_nonneg_right ?_ unit.le
    rw [← le_div_iff₀ unit] at above
    exact_mod_cast nearest_ge above
  · intro below
    refine mul_le_mul_of_nonneg_right ?_ unit.le
    rw [← div_le_iff₀ unit] at below
    exact_mod_cast nearest_le below

/-- In the subnormal range a number is rounded to multiples of the least double. -/
theorem round_of_small (nonneg : 0 ≤ x) (small : x ≤ 2 ^ (-1022 : ℤ)) :
    round x = nearest (x / 2 ^ (-1074 : ℤ)) * 2 ^ (-1074 : ℤ) := by
  rcases small.eq_or_lt with rfl | less
  · have isDouble : IsDouble (2 ^ (-1022 : ℤ)) := ⟨1, -1022, by norm_num, by norm_num, by norm_num⟩
    have whole : (2 : ℚ) ^ (-1022 : ℤ) / 2 ^ (-1074 : ℤ) = ((2 ^ 52 : ℤ) : ℚ) := by
      rw [← zpow_sub₀ two_ne_zero]
      norm_num
    rw [isDouble.round, whole, nearest_int, ← whole, div_mul_cancel₀ _ (zpow_ne_zero _ two_ne_zero)]
  · rcases nonneg.eq_or_lt with rfl | positive
    · have none_ := nearest_int 0
      rw [Int.cast_zero] at none_
      rw [round_zero, zero_div, none_, Int.cast_zero, zero_mul]
    · have log : Int.log 2 x < -1022 := (Int.lt_zpow_iff_log_lt one_lt_two positive).mp (by exact_mod_cast less)
      have is : exponent x = -1074 := by
        rw [exponent, abs_of_pos positive]
        omega
      rw [round, is]

theorem double_round_small (positive : 0 < x) (subnormal : Int.log 2 |x| < -1022) : Double.round x ≤ 2 ^ (-1022 : ℤ) := by
  have unit := Double.ulp_pos x
  have high : x < (2 : ℚ) ^ (Int.log 2 x + 1) := by exact_mod_cast Int.lt_zpow_succ_log_self one_lt_two x
  rw [abs_of_pos positive] at subnormal
  have power : (2 : ℚ) ^ (Int.log 2 x + 1) = ((2 ^ 53 : ℤ) : ℚ) * Double.ulp x := by
    have split_ : Int.log 2 x + 1 = 53 + (Int.log 2 x - 52) := by ring
    rw [Double.ulp, abs_of_pos positive, split_, zpow_add₀ two_ne_zero]
    norm_num
  have within : nearest (x / Double.ulp x) ≤ 2 ^ 53 := by
    apply nearest_le
    rw [div_le_iff₀ unit, ← power]
    exact high.le
  calc Double.round x ≤ ((2 ^ 53 : ℤ) : ℚ) * Double.ulp x := by
        rw [Double.round]
        exact mul_le_mul_of_nonneg_right (by exact_mod_cast within) unit.le
    _ = 2 ^ (Int.log 2 x + 1) := power.symm
    _ ≤ 2 ^ (-1022 : ℤ) := zpow_le_zpow_right₀ one_le_two (by omega)

/-- Rounding to 53 bits first changes nothing, unless it leads to a point half way. -/
theorem round_twice_of_pos (positive : 0 < x)
    (apart : -1022 ≤ Int.log 2 |x| ∨ Double.round x = x ∨ ¬ Halfway (Double.round x)) : round (Double.round x) = round x := by
  by_cases normal : -1022 ≤ Int.log 2 |x|
  · rw [← round_of_normal normal]
    exact (round_isNearest x).isDouble.round
  by_cases same : Double.round x = x
  · rw [same]
  obtain notHalf : ¬ Halfway (Double.round x) := by tauto
  have subnormal : Int.log 2 |x| < -1022 := by omega
  have least : (0 : ℚ) < 2 ^ (-1074 : ℤ) := zpow_pos (by norm_num) _
  have small : x ≤ 2 ^ (-1022 : ℤ) := by
    rw [abs_of_pos positive] at subnormal
    exact ((Int.lt_zpow_iff_log_lt one_lt_two positive).mpr subnormal).le
  rw [round_of_small (Double.round_nonneg positive.le) (double_round_small positive subnormal), round_of_small positive.le small]
  congr 2
  symm
  obtain ⟨near, -⟩ := nearest_near (Double.round x / 2 ^ (-1074 : ℤ))
  have half (k : ℤ) : Double.round x ≠ (k + 1 / 2) * 2 ^ (-1074 : ℤ) := fun is => notHalf ⟨k, is⟩
  have side := @double_round_side x subnormal
  generalize nearest (Double.round x / 2 ^ (-1074 : ℤ)) = n at *
  generalize (2 : ℚ) ^ (-1074 : ℤ) = least_ at *
  rw [abs_le] at near
  obtain ⟨low, high⟩ := near
  have up : Double.round x ≤ (n + 1 / 2) * least_ := by
    rw [← div_le_iff₀ least]
    linarith
  have down : ((n - 1 : ℤ) + 1 / 2) * least_ ≤ Double.round x := by
    rw [← le_div_iff₀ least]
    push_cast
    linarith
  have below : x < (n + 1 / 2) * least_ := by
    by_contra! past
    exact half n (le_antisymm up ((side n).1 past))
  have above : ((n - 1 : ℤ) + 1 / 2) * least_ < x := by
    by_contra! past
    exact half (n - 1) (le_antisymm ((side (n - 1)).2 past) down)
  rw [← div_lt_iff₀ least] at below
  rw [← lt_div_iff₀ least] at above
  push_cast at above
  have near : |x / least_ - n| < 1 / 2 := by
    rw [abs_lt]
    constructor <;> linarith
  exact nearest_eq near.le fun tie => absurd tie near.ne

theorem Halfway.neg (halfway : Halfway (-x)) : Halfway x := by
  obtain ⟨k, is⟩ := halfway
  unfold Halfway
  generalize (2 : ℚ) ^ (-1074 : ℤ) = least at *
  refine ⟨-k - 1, ?_⟩
  push_cast
  linarith

theorem round_twice (apart : -1022 ≤ Int.log 2 |x| ∨ Double.round x = x ∨ ¬ Halfway (Double.round x)) :
    round (Double.round x) = round x := by
  rcases lt_trichotomy x 0 with negative | rfl | positive
  · have mirrored := @round_twice_of_pos (-x) (neg_pos.mpr negative)
    rw [abs_neg, double_round_neg, round_neg, round_neg, neg_inj, neg_inj] at mirrored
    exact mirrored (apart.imp id (Or.imp id fun notHalf halfway => notHalf halfway.neg))
  · rw [Double.round_zero]
  · exact round_twice_of_pos positive apart

theorem round_nonneg (nonneg : 0 ≤ x) : 0 ≤ round x := by
  have whole : 0 ≤ nearest (x / 2 ^ exponent x) := by
    apply nearest_ge
    rw [Int.cast_zero]
    exact div_nonneg nonneg (zpow_pos (by norm_num) _).le
  exact mul_nonneg (by exact_mod_cast whole) (zpow_pos (by norm_num) _).le

theorem round_tiny (nonneg : 0 ≤ x) (tiny : x ≤ 2 ^ (-1075 : ℤ)) : round x = 0 := by
  have least : (0 : ℚ) < 2 ^ (-1074 : ℤ) := zpow_pos (by norm_num) _
  have half : x / 2 ^ (-1074 : ℤ) ≤ 1 / 2 := by
    rw [div_le_iff₀ least]
    calc x ≤ 2 ^ (-1075 : ℤ) := tiny
      _ = 1 / 2 * 2 ^ (-1074 : ℤ) := by
        rw [one_div, ← zpow_neg_one, ← zpow_add₀ two_ne_zero]
        norm_num
  have none_ : nearest (x / 2 ^ (-1074 : ℤ)) = 0 := by
    refine nearest_eq ?_ fun _ => Even.zero
    rw [Int.cast_zero, sub_zero, abs_of_nonneg (div_nonneg nonneg least.le)]
    exact half
  rw [round_of_small nonneg (tiny.trans (zpow_le_zpow_right₀ one_le_two (by norm_num))), none_, Int.cast_zero, zero_mul]

inductive Magnitude where
  | finite (value : ℚ)
  | infinity
  deriving DecidableEq

def Magnitude.ofRat (x : ℚ) : Magnitude := if 2 ^ 1024 ≤ round x then infinity else finite (round x)

/-- A product in which no factor is zero and none is infinite but by an overflow. -/
def Magnitude.mul : Magnitude → Magnitude → Magnitude
  | finite a, finite b => ofRat (a * b)
  | _, _ => infinity

/-- `2 ** n` -/
def Magnitude.pow2 (n : ℤ) : Magnitude := ofRat (2 ^ n)

namespace Magnitude

theorem ofRat_double (isDouble : IsDouble y) : ofRat y = if 2 ^ 1024 ≤ y then infinity else finite y := by
  rw [ofRat, isDouble.round]

theorem pow2_normal {n : ℤ} (least : -1074 ≤ n) : pow2 n = if 1024 ≤ n then infinity else finite (2 ^ n) := by
  have isDouble : IsDouble (2 ^ n) := ⟨1, n, by norm_num, least, by norm_num⟩
  rw [pow2, ofRat_double isDouble]
  have same : (2 : ℚ) ^ 1024 ≤ 2 ^ n ↔ 1024 ≤ n := by
    rw [← zpow_natCast]
    exact zpow_le_zpow_iff_right₀ one_lt_two
  simp only [same]

theorem pow2_tiny {n : ℤ} (tiny : n < -1074) : pow2 n = finite 0 := by
  have rounded : round (2 ^ n) = 0 :=
    round_tiny (zpow_pos (by norm_num) n).le (zpow_le_zpow_right₀ one_le_two (by omega))
  rw [pow2, ofRat, rounded, if_neg (by norm_num)]

end Magnitude

end Binary64

end Arki
