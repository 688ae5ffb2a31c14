import Arki.Money.UnitsExact

/-! One rounding: `mulDiv` gives the whole number that the mode assigns to the exact quotient. -/

set_option autoImplicit false

namespace Arki.Money

open Arki (Double)
open Arki.Math (MathError Checked RoundingMode)

variable {a b n u p d : Int} {x y z : Double} {mode : Option RoundingMode}

theorem divBig_rest (product divisor : Int) : product - product.tdiv divisor * divisor = product.tmod divisor := by
  rw [Int.tmod_def, Int.mul_comm]

theorem twice_exact (small : |n| < 2 ^ 53) : Double.round ((n * 2 : Int) : ℚ) = ((n * 2 : Int) : ℚ) := by
  refine Double.round_exact (n := n) (k := 1) (by push_cast; ring) ?_
  have bound : |n * 2| < 2 ^ 54 := by
    rw [abs_mul]
    norm_num
    linarith
  exact_mod_cast bound

theorem abs_tdiv_le (p d : Int) : |p.tdiv d| ≤ |p| := by
  rw [Int.abs_eq_natAbs, Int.abs_eq_natAbs, Int.natAbs_tdiv]
  exact_mod_cast Nat.div_le_self _ _

theorem abs_tmod_le (p d : Int) : |p.tmod d| ≤ |p| := by
  rw [Int.abs_eq_natAbs, Int.abs_eq_natAbs, Int.natAbs_tmod]
  exact_mod_cast Nat.mod_le _ _

theorem abs_whole_le (p d : Int) : |p.tdiv d * d| ≤ |p| := by
  rw [Int.abs_eq_natAbs, Int.abs_eq_natAbs, Int.natAbs_mul, Int.natAbs_tdiv]
  exact_mod_cast Nat.div_mul_le_self _ _

theorem abs_tdiv_lt (positive : 0 < d) (rest : p.tmod d ≠ 0) (small : |p| < 2 ^ 53) : |p.tdiv d| + 1 < 2 ^ 53 := by
  have apart : d ≠ 1 := by
    rintro rfl
    exact rest (Int.tmod_one p)
  have half : p.natAbs / d.natAbs ≤ p.natAbs / 2 := Nat.div_le_div_left (by omega) (by decide)
  rw [Int.abs_eq_natAbs] at small ⊢
  rw [Int.natAbs_tdiv]
  have bound : p.natAbs < 2 ^ 53 := by exact_mod_cast small
  have room : p.natAbs / d.natAbs + 1 < 2 ^ 53 := by omega
  exact_mod_cast room

theorem compare_cast (a b : Int) : compare (a : ℚ) (b : ℚ) = compare a b := by
  rcases lt_trichotomy a b with less | rfl | more
  · rw [compare_lt_iff_lt.mpr less, compare_lt_iff_lt.mpr (by exact_mod_cast less)]
  · rw [compare_eq_iff_eq.mpr rfl, compare_eq_iff_eq.mpr rfl]
  · rw [compare_gt_iff_gt.mpr more, compare_gt_iff_gt.mpr (by exact_mod_cast more)]

theorem abs_ite (n : Int) : |n| = if n < 0 then -n else n := by
  split
  · next negative => exact abs_of_neg negative
  · next positive => exact abs_of_nonneg (not_lt.mp positive)

theorem Double_abs (is : Double.Is x n) : Double.Is (if x.value < 0 then x.neg else x) |n| := by
  have value_ : x.value = n := is
  split
  · next negative =>
    rw [value_] at negative
    have below : n < 0 := by exact_mod_cast negative
    rw [abs_of_neg below]
    exact is.neg
  · next positive =>
    rw [value_] at positive
    have above : 0 ≤ n := by
      rw [not_lt] at positive
      exact_mod_cast positive
    rw [abs_of_nonneg above]
    exact is

theorem half_eq (is : Double.Is x n) (small : |n| < 2 ^ 53) :
    compare (Double.mul (if x.value < 0 then x.neg else x) (.of 2)).value (Double.of (d : ℚ)).value =
      compare ((if n < 0 then -n else n) * 2) d := by
  have two : Double.Is (.of 2) 2 := Int.cast_ofNat 2
  have twice := (Double_abs is).mul two (twice_exact (by rwa [abs_abs]))
  rw [show _ = _ from twice, abs_ite]
  exact compare_cast _ _

theorem odd_iff (q : Int) : (Double.rem (.of q) (.of 2)).value ≠ 0 ↔ q % 2 ≠ 0 := by
  have rest : Double.Is (Double.rem (.of q) (.of 2)) (q.tmod 2) := (Double.is_of q).rem (Double.is_of 2) (by decide)
  rw [show (Double.rem (.of q) (.of 2)).value = ((q.tmod 2 : Int) : ℚ) from rest, Int.cast_ne_zero, not_iff_not,
    ← Int.dvd_iff_tmod_eq_zero, Int.dvd_iff_emod_eq_zero]

theorem whole_part (is : Double.Is x p) (safe : IsSafe p) (positive : 0 < d) :
    (x.sub (x.rem (.of d))).div (.of d) = .of (p.tdiv d : Int) := by
  have isPos : ¬ (d : ℚ) < 0 := not_lt.mpr (by exact_mod_cast positive.le)
  have quotient : Double.div (.of ((((p.tdiv d * d : Int)) : ℚ))) (.of d) = .of (p.tdiv d : Int) := by
    have is := (Double.is_of (p.tdiv d * d)).div (Double.is_of d) positive.ne' (lt_of_le_of_lt (abs_tdiv_le _ _) safe.small)
    by_cases none_ : p.tdiv d = 0
    · rw [none_, zero_mul, Int.cast_zero, Double.div, if_pos (by rfl)]
      simp [Double.negative, Double.zero, isPos]
    · exact is.eq none_
  have difference : x.sub (x.rem (.of d)) = .of ((((p.tdiv d * d : Int)) : ℚ)) := by
    have rest := is.rem (Double.is_of d) positive
    have same : p - p.tmod d = p.tdiv d * d := by
      rw [Int.tmod_def]
      ring
    unfold Double.sub
    split
    · next both =>
      -- the remainder of `-0` is `-0`
      rw [both.1] at both
      simp [Double.rem, Double.value, Double.trunc, Double.zero, Double.negative] at both
    · rw [show x.value = p from is, show (x.rem (.of d)).value = ((p.tmod d : Int) : ℚ) from rest, ← Int.cast_sub, same,
        Double.round_int (lt_of_le_of_lt (abs_whole_le _ _) safe.small)]
  rw [difference, quotient]

theorem mulDivNumbers_eq (positive : 0 < d) (reads : readsSafe (Double.mul (.of u) (.of n)) = true) :
    mulDivNumbers (.of u) (.of n) (.of d) mode = some ((divBig (u * n) d mode).map fun answer => .of answer) := by
  have bounds := reads
  simp only [readsSafe, Bool.and_eq_true, decide_eq_true_eq] at bounds
  have safe : IsSafe (u * n) := safe_of_round (mul_eq (Double.is_of u) (Double.is_of n)) bounds.2 bounds.1
  have product : Double.Is (Double.mul (.of u) (.of n)) (u * n) :=
    (Double.is_of u).mul (Double.is_of n) (Double.round_int safe.small)
  have remainder := product.rem (Double.is_of d) positive
  have value_ : (Double.rem (Double.mul (.of u) (.of n)) (.of d)).value = (((u * n).tmod d : Int) : ℚ) := remainder
  unfold mulDivNumbers divBig
  simp only [reads, if_true, divBig_rest]
  by_cases rest : (u * n).tmod d = 0
  · have whole : (u * n).tdiv d * d = u * n := Int.tdiv_mul_cancel (Int.dvd_of_tmod_eq_zero rest)
    have small : |(u * n).tdiv d| < 2 ^ 53 := lt_of_le_of_lt (abs_tdiv_le _ _) safe.small
    have quotient : Double.Is (Double.div (Double.mul (.of u) (.of n)) (.of d)) ((u * n).tdiv d) := by
      rw [← whole] at product
      exact product.div (Double.is_of d) positive.ne' small
    rw [if_pos (by rw [value_, rest, Int.cast_zero]), if_pos rest, quotient.add_zero small]
    rfl
  · have apart : u * n ≠ 0 := by
      intro zero_
      rw [zero_, Int.zero_tmod] at rest
      exact rest rfl
    have room := abs_tdiv_lt positive rest safe.small
    have half := half_eq (d := d) remainder (lt_of_le_of_lt (abs_tmod_le _ _) safe.small)
    have negative : (Double.of ((u * n : Int) : ℚ)).value < 0 ↔ u * n < 0 := Int.cast_lt_zero
    rw [if_neg (by rw [value_]; exact_mod_cast rest), if_neg rest, whole_part product safe positive, half,
      product.eq apart]
    simp only [odd_iff, negative]
    rw [show (1 : ℚ) = ((1 : Int) : ℚ) from Int.cast_one.symm, sub_eq, add_eq]
    rw [Double.round_int (lt_of_le_of_lt (abs_sub _ _) room), Double.round_int (lt_of_le_of_lt (abs_add_le _ _) room)]
    cases roundsAway mode _ _ _ with
    | error _ => rfl
    | ok away =>
      cases away with
      | false => rfl
      | true =>
        by_cases below : u * n < 0
        · simp [Except.map, below]
        · simp [Except.map, below]

theorem divBig_safe (safe : IsSafe p) (positive : 0 < d) (built : divBig p d mode = .ok a) : IsSafe a := by
  unfold divBig at built
  simp only [divBig_rest] at built
  rw [isSafe_iff]
  split at built
  · cases built
    exact lt_of_le_of_lt (abs_tdiv_le _ _) safe.small
  · next rest =>
    have room := abs_tdiv_lt positive rest safe.small
    cases decided : roundsAway mode (decide (p < 0)) (compare ((if p.tmod d < 0 then -p.tmod d else p.tmod d) * 2) d)
        (decide (p.tdiv d % 2 ≠ 0)) with
    | error _ =>
      rw [decided] at built
      cases built
    | ok away =>
      rw [decided] at built
      cases built
      cases away with
      | false =>
        show |p.tdiv d| < 2 ^ 53
        linarith
      | true =>
        show |if p < 0 then p.tdiv d - 1 else p.tdiv d + 1| < 2 ^ 53
        split
        · exact lt_of_le_of_lt (abs_sub _ _) room
        · exact lt_of_le_of_lt (abs_add_le _ _) room

theorem mulDiv_canon (positive : 0 < d) : mulDiv (canon u) (canon n) (canon d) mode = mulDivBig u n d mode := by
  have big : mulDivBig (canon u).big (canon n).big (canon d).big mode = mulDivBig u n d mode := by simp
  by_cases safeU : IsSafe u
  · by_cases safeN : IsSafe n
    · by_cases safeD : IsSafe d
      · rw [canon_safe safeU, canon_safe safeN, canon_safe safeD] at big ⊢
        by_cases reads : readsSafe (Double.mul (.of u) (.of n)) = true
        · have bounds := reads
          simp only [readsSafe, Bool.and_eq_true, decide_eq_true_eq] at bounds
          have safe : IsSafe (u * n) := safe_of_round (mul_eq (Double.is_of u) (Double.is_of n)) bounds.2 bounds.1
          simp only [mulDiv, mulDivNumbers_eq positive reads, mulDivBig, safeU.mulBig safeN]
          cases built : divBig (u * n) d mode with
          | error _ =>
            show _ = (divBig (u * n) d mode >>= fun whole => Except.ok (canon whole))
            rw [built]
            rfl
          | ok whole =>
            show _ = (divBig (u * n) d mode >>= fun whole => Except.ok (canon whole))
            rw [built]
            show Except.ok (Units.number (.of whole)) = Except.ok (canon whole)
            rw [canon_safe (divBig_safe safe positive built)]
        · simp only [mulDiv, big]
          rw [mulDivNumbers]
          simp only [reads, if_false, Bool.false_eq_true]
      · rw [canon_safe safeU, canon_safe safeN, canon_big safeD] at big ⊢
        simp only [mulDiv, big]
    · rw [canon_safe safeU, canon_big safeN] at big ⊢
      simp only [mulDiv, big]
  · rw [canon_big safeU] at big ⊢
    simp only [mulDiv, big]

theorem roundsAway_eq {mode : RoundingMode} (isRounding : mode ≠ .unnecessary) (negative : Bool) (half : Ordering) (odd : Bool) :
    roundsAway (some mode) negative half odd = .ok (Rounding.roundsUp mode negative (half ≠ .lt) (half = .gt) odd) := by
  cases mode with
  | unnecessary => exact absurd rfl isRounding
  | halfEven => cases half <;> rfl
  | _ => rfl

theorem roundsAway_none (mode : Option RoundingMode) (isNone : mode = none ∨ mode = some .unnecessary) (negative : Bool)
    (half : Ordering) (odd : Bool) : ∃ message, roundsAway mode negative half odd = .error (.roundingNecessary message) := by
  rcases isNone with rfl | rfl
  · exact ⟨_, rfl⟩
  · exact ⟨_, rfl⟩

theorem ite_flip (up : Bool) (stay away : Int) : (if (!up) = true then stay else away) = if up = true then away else stay := by
  cases up <;> rfl

theorem compare_half {r d : Nat} : compare ((r : Int) * 2) d ≠ .lt ↔ (0 : Int) ≤ (r : Int) * 2 - d := by
  rw [ne_eq, compare_lt_iff_lt, not_lt, sub_nonneg]

theorem compare_above {r d : Nat} : compare ((r : Int) * 2) d = .gt ↔ (0 : Int) < (r : Int) * 2 - d := by
  rw [compare_gt_iff_gt, sub_pos]

theorem rounds_magnitude {mode : RoundingMode} (isRounding : mode ≠ .unnecessary) {m d : Nat} (positive : 0 < d) (rest : m % d ≠ 0)
    {half : Ordering} (isHalf : half = compare (((m % d : ℕ) : Int) * 2) d) :
    Rounding.Rounds mode ((m : ℚ) / d)
        (if Rounding.roundsUp mode false (half ≠ .lt) (half = .gt) (decide (m / d % 2 = 1)) then ((m / d : ℕ) : Int) + 1
          else (m / d : ℕ)) ∧
      Rounding.Rounds mode (-((m : ℚ) / d))
        (-(if Rounding.roundsUp mode true (half ≠ .lt) (half = .gt) (decide (m / d % 2 = 1)) then ((m / d : ℕ) : Int) + 1
          else (m / d : ℕ))) := by
  subst isHalf
  have cast : (0 : ℚ) < d := by exact_mod_cast positive
  have some_ : (0 : ℚ) < ((m % d : ℕ) : ℚ) / d := div_pos (by exact_mod_cast Nat.pos_of_ne_zero rest) cast
  have below : ((m % d : ℕ) : ℚ) / d < 1 := by
    rw [div_lt_one cast]
    exact_mod_cast Nat.mod_lt _ positive
  obtain ⟨half, above⟩ := @Math.half_iff (m % d) d positive
  have isHalf := (decide_eq_true_iff.trans compare_half).trans half
  have isAbove := (decide_eq_true_iff.trans compare_above).trans above
  rw [Math.natAbs_quotient m positive]
  exact ⟨Rounding.rounds_whole mode isRounding some_ below isHalf isAbove,
    Rounding.rounds_whole_neg mode isRounding some_ below isHalf isAbove⟩

/-- The whole number that the mode assigns to the quotient, where digits are lost. -/
theorem divBig_rounds {mode : RoundingMode} (isRounding : mode ≠ .unnecessary) (positive : 0 < d) (rest : p.tmod d ≠ 0) :
    ∃ k, divBig p d (some mode) = .ok k ∧ Rounding.Rounds mode ((p : ℚ) / d) k := by
  obtain ⟨divisor, rfl⟩ := Int.eq_ofNat_of_zero_le positive.le
  have isDivisor : 0 < divisor := by exact_mod_cast positive
  unfold divBig
  simp only [divBig_rest, if_neg rest, roundsAway_eq isRounding]
  refine ⟨_, rfl, ?_⟩
  rcases Int.eq_nat_or_neg p with ⟨m, rfl | rfl⟩
  · have left : m % divisor ≠ 0 := fun none_ => rest (by rw [← Int.ofNat_tmod, none_, Int.ofNat_zero])
    have odd : ((m / divisor : ℕ) : Int) % 2 ≠ 0 ↔ m / divisor % 2 = 1 := by omega
    have isPos : ¬ ((m : Int) < 0) := by omega
    have isRest : ¬ (((m % divisor : ℕ) : Int) < 0) := by omega
    rw [← Int.ofNat_tdiv, ← Int.ofNat_tmod]
    simp only [isPos, isRest, odd, if_false, decide_false, ite_flip]
    exact (rounds_magnitude isRounding isDivisor left rfl).1
  · have left : m % divisor ≠ 0 := fun none_ => rest (by rw [Int.neg_tmod, ← Int.ofNat_tmod, none_, Int.ofNat_zero, neg_zero])
    have odd : -((m / divisor : ℕ) : Int) % 2 ≠ 0 ↔ m / divisor % 2 = 1 := by omega
    have isNeg : -(m : Int) < 0 := by
      have apart : m ≠ 0 := by
        rintro rfl
        exact left (Nat.zero_mod _)
      omega
    have isRest : -((m % divisor : ℕ) : Int) < 0 := by omega
    have step (up : Bool) : (if up = true then -((m / divisor : ℕ) : Int) - 1 else -((m / divisor : ℕ) : Int)) =
        -(if up = true then ((m / divisor : ℕ) : Int) + 1 else (m / divisor : ℕ)) := by
      cases up with
      | false => rfl
      | true =>
        show -((m / divisor : ℕ) : Int) - 1 = -(((m / divisor : ℕ) : Int) + 1)
        ring
    rw [Int.neg_tdiv, Int.neg_tmod, ← Int.ofNat_tdiv, ← Int.ofNat_tmod, Int.cast_neg, neg_div]
    simp only [isNeg, isRest, odd, if_true, decide_true, ite_flip, neg_neg, step]
    exact (rounds_magnitude isRounding isDivisor left rfl).2

theorem divBig_whole (positive : 0 < d) (divides : d ∣ p) : ∃ k, divBig p d mode = .ok k ∧ (p : ℚ) / d = k := by
  have rest : p.tmod d = 0 := Int.dvd_iff_tmod_eq_zero.mp divides
  unfold divBig
  simp only [divBig_rest, if_pos rest]
  refine ⟨_, rfl, ?_⟩
  rw [div_eq_iff (by exact_mod_cast positive.ne')]
  exact_mod_cast (Int.tdiv_mul_cancel divides).symm

theorem divBig_refuses (divides : ¬ d ∣ p) (isNone : mode = none ∨ mode = some .unnecessary) :
    ∃ message, divBig p d mode = .error (.roundingNecessary message) := by
  have rest : p.tmod d ≠ 0 := fun none_ => divides (Int.dvd_iff_tmod_eq_zero.mpr none_)
  obtain ⟨message, refused⟩ := roundsAway_none mode isNone (decide (p < 0))
    (compare ((if p.tmod d < 0 then -p.tmod d else p.tmod d) * 2) d) (decide (p.tdiv d % 2 ≠ 0))
  unfold divBig
  simp only [divBig_rest, if_neg rest, refused]
  exact ⟨message, rfl⟩

def Assigns (mode : Option RoundingMode) (x : ℚ) (n : Int) : Prop := Rounding.Rounds (mode.getD .unnecessary) x n

theorem divBig_assigns (positive : 0 < d) (kept : d ∣ p ∨ ¬ (mode = none ∨ mode = some .unnecessary)) :
    ∃ k, divBig p d mode = .ok k ∧ Assigns mode ((p : ℚ) / d) k := by
  by_cases divides : d ∣ p
  · obtain ⟨k, built, is⟩ := @divBig_whole _ _ mode positive divides
    refine ⟨k, built, ?_⟩
    rw [is]
    exact Rounding.rounds_int _ k
  · have isMode := kept.resolve_left divides
    rw [not_or] at isMode
    obtain ⟨chosen, rfl⟩ := Option.ne_none_iff_exists'.mp isMode.1
    have isRounding : chosen ≠ .unnecessary := fun same => isMode.2 (by rw [same])
    exact divBig_rounds isRounding positive fun none_ => divides (Int.dvd_iff_tmod_eq_zero.mpr none_)

theorem mulDivBig_past (past : maxHexDigits + 1 < hexDigits u + hexDigits n) : mulDivBig u n d mode = .error tooManyDigits := by
  unfold mulDivBig mulBig
  rw [if_pos past]
  rfl

theorem mulDivBig_within (within : hexDigits u + hexDigits n ≤ maxHexDigits + 1) :
    mulDivBig u n d mode = (divBig (u * n) d mode).map canon := by
  unfold mulDivBig mulBig
  rw [if_neg (not_lt.mpr within)]
  rfl

/-- `mulDiv` on canonical forms: past a digit limit it says so, and otherwise it gives the whole number that the mode assigns
to the exact quotient, in canonical form and on either path, or refuses to lose digits where no mode allows it. -/
theorem mulDiv_rounds_once {u n d : Units} (mode : Option RoundingMode) (isU : u.Canonical) (isN : n.Canonical) (isD : d.Canonical)
    (positive : 0 < d.big) :
    (mulDiv u n d mode = .error tooManyDigits ↔ maxHexDigits + 1 < hexDigits u.big + hexDigits n.big) ∧
    (hexDigits u.big + hexDigits n.big ≤ maxHexDigits + 1 →
      ((∃ message, mulDiv u n d mode = .error (.roundingNecessary message)) ↔
        ¬ d.big ∣ u.big * n.big ∧ (mode = none ∨ mode = some .unnecessary)) ∧
      ((d.big ∣ u.big * n.big ∨ ¬ (mode = none ∨ mode = some .unnecessary)) →
        ∃ k, mulDiv u n d mode = .ok (canon k) ∧ Assigns mode ((u.big * n.big : ℚ) / d.big) k)) ∧
    (∀ a b c answer, u = .number a → n = .number b → d = .number c → mulDivNumbers a b c mode = some answer →
      answer.map .number = mulDivBig u.big n.big d.big mode) := by
  have same : mulDiv u n d mode = mulDivBig u.big n.big d.big mode := by
    nth_rewrite 1 [Units.canonical_iff.mp isU, Units.canonical_iff.mp isN, Units.canonical_iff.mp isD]
    exact mulDiv_canon positive
  rw [same]
  have refuses (within : hexDigits u.big + hexDigits n.big ≤ maxHexDigits + 1) (divides : ¬ d.big ∣ u.big * n.big)
      (isNone : mode = none ∨ mode = some .unnecessary) :
      ∃ message, mulDivBig u.big n.big d.big mode = .error (.roundingNecessary message) := by
    obtain ⟨message, refused⟩ := divBig_refuses divides isNone
    exact ⟨message, by rw [mulDivBig_within within, refused]; rfl⟩
  have assigns (within : hexDigits u.big + hexDigits n.big ≤ maxHexDigits + 1)
      (kept : d.big ∣ u.big * n.big ∨ ¬ (mode = none ∨ mode = some .unnecessary)) :
      ∃ k, mulDivBig u.big n.big d.big mode = .ok (canon k) ∧ Assigns mode ((u.big * n.big : ℚ) / d.big) k := by
    obtain ⟨k, built, assigned⟩ := divBig_assigns positive kept
    rw [Int.cast_mul] at assigned
    exact ⟨k, by rw [mulDivBig_within within, built]; rfl, assigned⟩
  refine ⟨⟨fun failed => ?_, mulDivBig_past⟩, fun within => ⟨⟨fun refused => ?_, fun ⟨divides, isNone⟩ =>
    refuses within divides isNone⟩, assigns within⟩, ?_⟩
  · -- nothing else fails so
    by_contra within
    rw [not_lt] at within
    by_cases kept : d.big ∣ u.big * n.big ∨ ¬ (mode = none ∨ mode = some .unnecessary)
    · obtain ⟨k, built, _⟩ := assigns within kept
      rw [failed] at built
      cases built
    · rw [not_or, not_not] at kept
      obtain ⟨message, refused⟩ := refuses within kept.1 kept.2
      rw [failed] at refused
      cases refused
  · by_contra kept
    rw [not_and_or, not_not] at kept
    obtain ⟨k, built, _⟩ := assigns within kept
    obtain ⟨message, refused⟩ := refused
    rw [built] at refused
    cases refused
  · rintro a b c answer isNumberU isNumberN isNumberD answered
    rw [← same, isNumberU, isNumberN, isNumberD]
    simp only [mulDiv, answered]

/-- Half of 7, and a product past the safe integers. -/
theorem mulDiv_rounds_once_run :
    (∃ k, mulDiv (canon 7) (canon 1) (canon 2) (some .halfEven) = .ok (canon k) ∧
      Assigns (some .halfEven) (((canon 7).big * (canon 1).big : ℚ) / (canon 2).big) k) ∧
    (∃ k, mulDiv (canon (2 ^ 60)) (canon 3) (canon 7) (some .down) = .ok (canon k) ∧
      Assigns (some .down) (((canon (2 ^ 60)).big * (canon 3).big : ℚ) / (canon 7).big) k) :=
  ⟨((mulDiv_rounds_once (some .halfEven) (canon_canonical 7) (canon_canonical 1) (canon_canonical 2)
      (by rw [canon_big_value]; decide)).2.1 (by simp only [canon_big_value]; decide)).2 (.inr (by decide)),
    ((mulDiv_rounds_once (some .down) (canon_canonical (2 ^ 60)) (canon_canonical 3) (canon_canonical 7)
      (by rw [canon_big_value]; decide)).2.1 (by simp only [canon_big_value]; decide +kernel)).2 (.inr (by decide))⟩

end Arki.Money
