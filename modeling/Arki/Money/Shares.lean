import Arki.Library.Apportion
import Arki.Library.Outcome
import Arki.Money.Allocate
import Arki.Money.MulDiv
import Mathlib.Algebra.BigOperators.Fin
import Mathlib.Data.List.GetD

/-! What `divide` and the loops of `distribute` compute: the shares and rests of an apportionment. -/

set_option autoImplicit false
set_option linter.dupNamespace false

namespace Arki.Money

open Arki (Double)
open Arki.Math (MathError Checked)

variable {a b m n t : Int} {x y w : Units}

def Units.Is (units : Units) (n : Int) : Prop := units = canon n ∨ units = .number .negZero ∧ n = 0

theorem is_canon (n : Int) : (canon n).Is n := .inl rfl

theorem Units.Is.value (is : x.Is n) : x.value = n := by
  rcases is with rfl | ⟨rfl, rfl⟩
  · exact canon_value n
  · exact Int.cast_zero.symm

theorem Units.Is.big (is : x.Is n) : x.big = n := by
  rcases is with rfl | ⟨rfl, rfl⟩
  · exact canon_big_value n
  · exact Int.floor_zero

theorem Units.Is.number {v : Double} (is : (Units.number v).Is n) : Double.Is v n ∧ IsSafe n := by
  rcases is with same | ⟨same, rfl⟩
  · by_cases safe : IsSafe n
    · rw [canon_safe safe] at same
      cases same
      exact ⟨rfl, safe⟩
    · rw [canon_big safe] at same
      cases same
  · cases same
    exact ⟨Int.cast_zero.symm, by decide⟩

theorem is_number {v : Double} (is : Double.Is v n) (safe : IsSafe n) : (Units.number v).Is n := by
  by_cases zero_ : n = 0
  · subst zero_
    cases v with
    | negZero => exact .inr ⟨rfl, rfl⟩
    | of value =>
      left
      rw [canon_safe safe, show value = ((0 : Int) : ℚ) from is]
  · left
    rw [canon_safe safe, is.eq zero_]

theorem Units.Is.isZero (is : x.Is n) : isZero x = decide (n = 0) := by
  rcases is with rfl | ⟨rfl, rfl⟩
  · by_cases safe : IsSafe n
    · rw [canon_safe safe]
      simp [Money.isZero, Double.value]
    · rw [canon_big safe]
      have apart : n ≠ 0 := by
        rintro rfl
        exact safe (by decide)
      simp [Money.isZero, apart]
  · rfl

theorem Units.Is.compare (left : x.Is a) (right : y.Is b) : compareUnits x y = compare a b := by
  rw [compareUnits, left.value, right.value, compare_cast]

theorem sameUnits_iff (left : x.Is a) (right : y.Is b) : sameUnits x y = decide (a = b) := by
  cases x with
  | number v =>
    obtain ⟨isV, safeA⟩ := left.number
    cases y with
    | number w =>
      obtain ⟨isW, _⟩ := right.number
      rw [sameUnits, show v.value = a from isV, show w.value = b from isW]
      exact decide_eq_decide.mpr Int.cast_inj
    | bigint w =>
      have large : ¬ IsSafe b := by
        rcases right with same | ⟨same, _⟩
        · intro safe
          rw [canon_safe safe] at same
          cases same
        · cases same
      have apart : a ≠ b := by
        rintro rfl
        exact large safeA
      simp [sameUnits, apart]
  | bigint v =>
    have isV : v = a := left.big
    have large : ¬ IsSafe a := by
      rcases left with same | ⟨same, _⟩
      · intro safe
        rw [canon_safe safe] at same
        cases same
      · cases same
    cases y with
    | number w =>
      have apart : a ≠ b := by
        rintro rfl
        exact large right.number.2
      simp [sameUnits, apart]
    | bigint w => rw [sameUnits, isV, show w = b from right.big]

theorem addUnits_is (right : y.Is b) : addUnits (canon a) y = (limitDigits (a + b)).map canon := by
  rcases right with rfl | ⟨rfl, rfl⟩
  · exact addUnits_canon a b
  · rw [← addUnits_canon a 0]
    by_cases safe : IsSafe a
    · rw [canon_safe safe, canon_safe (by decide : IsSafe 0)]
      simp [addUnits, Double.add, Units.big, Double.value]
    · rw [canon_big safe, canon_safe (by decide : IsSafe 0)]
      simp [addUnits, Units.big, Double.value]

theorem mulUnits_is (right : y.Is b) : mulUnits (canon a) y = (mulBig a b).map canon := by
  rcases right with rfl | ⟨rfl, rfl⟩
  · exact mulUnits_canon a b
  · by_cases safe : IsSafe a
    · rw [canon_safe safe]
      exact mulUnits_number (Double.is_of a) Int.cast_zero.symm safe (by decide)
    · rw [canon_big safe]
      simp [mulUnits, Units.big, Double.value]

def Fits (n : Int) : Prop := hexDigits n ≤ maxHexDigits

instance (n : Int) : Decidable (Fits n) := inferInstanceAs (Decidable (_ ≤ _))

theorem hexDigits_pos (n : Int) : 0 < hexDigits n := by
  unfold hexDigits
  exact List.length_pos_of_ne_nil (Nat.toDigits_ne_nil)

theorem hexDigits_mono (less : a.natAbs ≤ b.natAbs) : hexDigits a ≤ hexDigits b := by
  rw [hexDigits_le (hexDigits_pos b)]
  exact lt_of_le_of_lt less ((hexDigits_le (hexDigits_pos b)).mp le_rfl)

theorem Fits.mono (fits : Fits b) (less : a.natAbs ≤ b.natAbs) : Fits a := (hexDigits_mono less).trans fits

theorem Fits.below (fits : Fits b) (isPos : 0 ≤ a) (less : a ≤ b) : Fits a := fits.mono (by omega)

theorem Fits.limitDigits (fits : Fits n) : limitDigits n = .ok n := by
  rw [Money.limitDigits, exceedsDigits, if_neg (by simpa [Fits] using fits)]

theorem hexDigits_mul (apartA : a ≠ 0) (apartB : b ≠ 0) : hexDigits a + hexDigits b ≤ hexDigits (a * b) + 1 := by
  by_contra less
  rw [not_le] at less
  have low (n : Int) (apart : n ≠ 0) : 16 ^ (hexDigits n - 1) ≤ n.natAbs := by
    by_contra small
    rw [not_le] at small
    have positive := hexDigits_pos n
    by_cases one : hexDigits n = 1
    · rw [one] at small
      omega
    · have few := (hexDigits_le (k := hexDigits n - 1) (by omega)).mpr small
      omega
  have high := (hexDigits_le (hexDigits_pos (a * b))).mp le_rfl
  have both := Nat.mul_le_mul (low a apartA) (low b apartB)
  rw [← pow_add, ← Int.natAbs_mul] at both
  have power := (Nat.pow_le_pow_iff_right (a := 16) (by decide)).mp (both.trans high.le)
  have strictly := lt_of_le_of_lt both high
  rw [Nat.pow_lt_pow_iff_right (by decide)] at strictly
  have positiveA := hexDigits_pos a
  have positiveB := hexDigits_pos b
  omega

theorem mulBig_fits (fitsA : Fits a) (fitsB : Fits b) (fits : Fits (a * b)) : mulBig a b = .ok (a * b) := by
  have small : hexDigits a + hexDigits b ≤ maxHexDigits + 1 := by
    unfold Fits at fitsA fitsB fits
    by_cases zeroA : a = 0
    · subst zeroA
      have one : hexDigits 0 = 1 := by decide
      omega
    · by_cases zeroB : b = 0
      · subst zeroB
        have one : hexDigits 0 = 1 := by decide
        omega
      · have both := hexDigits_mul zeroA zeroB
        omega
  rw [mulBig, if_neg (not_lt.mpr small)]

theorem divBig_down {p d : Int} (isPos : 0 ≤ p) : divBig p d (some .down) = .ok (p / d) := by
  unfold divBig
  simp only [divBig_rest, roundsAway]
  rw [← Int.tdiv_eq_ediv_of_nonneg isPos]
  split
  · rfl
  · rfl

theorem mulDiv_down {p d : Int} (isPos : 0 ≤ p) (positive : 0 < d) (fits : Fits p) :
    mulDiv (canon p) (canon 1) (canon d) (some .down) = .ok (canon (p / d)) := by
  have one : hexDigits 1 = 1 := by decide
  rw [mulDiv_canon positive, mulDivBig_within (by unfold Fits at fits; omega), mul_one, divBig_down isPos]
  rfl

theorem divide_eq (isPos : 0 ≤ m) (weightPos : 0 ≤ n) (positive : 0 < t) (is : w.Is n) (within : n ≤ t) (fitsM : Fits m)
    (fitsT : Fits t) (fits : Fits (m * n)) :
    ∃ rest, divide (canon m) w (canon t) = .ok (canon (m * n / t), rest) ∧ rest.Is (m * n % t) := by
  have product : 0 ≤ m * n := mul_nonneg isPos weightPos
  have below : m * n / t * t ≤ m * n := Int.ediv_mul_le _ positive.ne'
  have sharePos : 0 ≤ m * n / t := Int.ediv_nonneg product positive.le
  have restPos := Int.emod_nonneg (m * n) positive.ne'
  have restLt := Int.emod_lt_of_pos (m * n) positive
  have one : canon 1 = .number (.of 1) := by
    rw [canon_safe (by decide), Int.cast_one]
  have big : (do
      let exact ← mulUnits (canon m) w
      let share ← mulDiv exact (.number (.of 1)) (canon t) (some .down)
      let rest ← addUnits exact (negUnits (← mulUnits share (canon t)))
      return (share, rest)) = Except.ok (ε := MathError) (canon (m * n / t), canon (m * n % t)) := by
    have fitsWhole : Fits (m * n / t * t) := fits.below (mul_nonneg sharePos positive.le) below
    have fitsShare : Fits (m * n / t) := by
      refine fitsM.below sharePos ?_
      have high : m * n ≤ m * t := mul_le_mul_of_nonneg_left within isPos
      have bound := Int.ediv_le_ediv positive high
      rwa [Int.mul_ediv_cancel _ positive.ne'] at bound
    have fitsRest : Fits (m * n + -(m * n / t * t)) := by
      refine fits.below (by linarith) ?_
      have wholePos := mul_nonneg sharePos positive.le
      linarith
    rw [mulUnits_is is, mulBig_fits fitsM (fitsT.below weightPos within) fits]
    simp only [Except.map, bind, Except.bind]
    rw [← one, mulDiv_down product positive fits]
    dsimp only
    rw [mulUnits_canon, mulBig_fits fitsShare fitsT fitsWhole]
    simp only [Except.map]
    rw [negUnits_canon, addUnits_canon, fitsRest.limitDigits, ← sub_eq_add_neg, mul_comm (m * n / t), ← Int.emod_def]
    rfl
  by_cases safeM : IsSafe m
  · by_cases safeT : IsSafe t
    · cases w with
      | number v =>
        obtain ⟨isV, safeN⟩ := is.number
        rw [canon_safe safeM, canon_safe safeT] at big ⊢
        simp only [divide, big]
        split
        · next reads =>
          have low : -(maxSafe : ℚ) ≤ (Double.mul (.of m) v).value := by
            have nonneg : (0 : ℚ) ≤ (Double.mul (.of m) v).value := by
              rw [mul_eq (Double.is_of m) isV]
              exact Double.round_nonneg (by exact_mod_cast product)
            have bound : -(maxSafe : ℚ) ≤ 0 := by norm_num [maxSafe]
            exact bound.trans nonneg
          have safe : IsSafe (m * n) := safe_of_round (mul_eq (Double.is_of m) isV) low reads
          have isProduct := (Double.is_of m).mul isV (Double.round_int safe.small)
          have isRest := isProduct.rem (Double.is_of t) positive
          have tmod : (m * n).tmod t = m * n % t := Int.tmod_eq_emod_of_nonneg product
          have safeRest : IsSafe (m * n % t) := by
            unfold IsSafe at safeT ⊢
            omega
          have safeShare : IsSafe (m * n / t) := by
            rw [isSafe_iff, ← Int.tdiv_eq_ediv_of_nonneg product]
            exact lt_of_le_of_lt (abs_tdiv_le _ _) safe.small
          rw [tmod] at isRest
          refine ⟨_, ?_, is_number isRest safeRest⟩
          rw [whole_part isProduct safe positive, Int.tdiv_eq_ediv_of_nonneg product, canon_safe safeShare]
        · exact ⟨_, rfl, is_canon _⟩
      | bigint v =>
        rw [canon_safe safeM, canon_safe safeT] at big ⊢
        simp only [divide, big]
        exact ⟨_, rfl, is_canon _⟩
    · rw [canon_safe safeM, canon_big safeT] at big ⊢
      cases w with
      | number v =>
        simp only [divide, big]
        exact ⟨_, rfl, is_canon _⟩
      | bigint v =>
        simp only [divide, big]
        exact ⟨_, rfl, is_canon _⟩
  · rw [canon_big safeM] at big ⊢
    simp only [divide, big]
    exact ⟨_, rfl, is_canon _⟩

abbrev shareAt (ws : List Nat) (magnitude i : Nat) : Nat := Apportion.share (Finset.range ws.length) (ws.getD · 0) magnitude i

abbrev restAt (ws : List Nat) (magnitude i : Nat) : Nat := Apportion.rest (Finset.range ws.length) (ws.getD · 0) magnitude i

structure DealtAt (ws : List Nat) (magnitude : Nat) (done : Nat) (dealt : Dealt) : Prop where
  shares : dealt.shares = (List.range done).map fun i => canon (shareAt ws magnitude i)
  given : dealt.given = canon (∑ i ∈ Finset.range done, shareAt ws magnitude i : Nat)
  rests : match dealt.rests with
    | none => ∀ i < done, dealt.firstRest.Is (restAt ws magnitude i)
    | some rests => 0 < done ∧ rests.length = done ∧ ∀ i < done, (rests.getD i (.number (.of 0))).Is (restAt ws magnitude i)

variable {ws : List Nat} {magnitude : Nat} {weights : List Units}

theorem sum_getD {M : Type} [AddCommMonoid M] (terms : List M) : ∑ i ∈ Finset.range terms.length, terms.getD i 0 = terms.sum := by
  rw [Finset.sum_range, ← List.sum_ofFn]
  congr 1
  apply List.ext_getElem
  · simp
  · intro i first second
    simp

theorem total_eq (ws : List Nat) : Apportion.total (Finset.range ws.length) (ws.getD · 0) = ws.sum := sum_getD ws

theorem getD_le_sum (ws : List Nat) (i : Nat) : ws.getD i 0 ≤ ws.sum := by
  by_cases inside : i < ws.length
  · rw [List.getD_eq_getElem _ _ inside]
    exact List.le_sum_of_mem (List.getElem_mem inside)
  · rw [List.getD_eq_default _ _ (not_lt.mp inside)]
    exact Nat.zero_le _

theorem sum_shares_le {done : Nat} (positive : 0 < ws.sum) (within : done ≤ ws.length) :
    ∑ i ∈ Finset.range done, shareAt ws magnitude i ≤ magnitude :=
  (Finset.sum_le_sum_of_subset (Finset.range_mono within)).trans (Apportion.shares_le (by rwa [total_eq]))

theorem rests_append {rests : List Units} {rest : Units} {done : Nat} (size : rests.length = done)
    (are : ∀ i < done, (rests.getD i (.number (.of 0))).Is (restAt ws magnitude i)) (is : rest.Is (restAt ws magnitude done)) :
    ∀ i < done + 1, ((rests ++ [rest]).getD i (.number (.of 0))).Is (restAt ws magnitude i) := by
  intro i inside
  by_cases last_ : i = done
  · rw [last_, List.getD_append_right _ _ _ _ size.le, size, Nat.sub_self]
    exact is
  · rw [List.getD_append _ _ _ _ (by omega)]
    exact are i (by omega)

theorem deal_at {done : Nat} {dealt : Dealt} {weight : Units} (positive : 0 < ws.sum) (inside : done < ws.length)
    (is : weight.Is (ws.getD done 0 : Nat)) (fitsM : Fits magnitude) (fitsT : Fits ws.sum) (fits : Fits (magnitude * ws.getD done 0))
    (at_ : DealtAt ws magnitude done dealt) :
    ∃ next, deal (canon magnitude) (canon ws.sum) dealt weight = .ok next ∧ DealtAt ws magnitude (done + 1) next := by
  obtain ⟨isShares, isGiven, isRests⟩ := at_
  obtain ⟨rest, divided, isRest⟩ := divide_eq (m := magnitude) (t := ws.sum) (by omega) (by omega) (by omega) is
    (by exact_mod_cast getD_le_sum ws done) fitsM fitsT fits
  have share_ : ((magnitude : Int) * (ws.getD done 0 : Nat) / (ws.sum : Nat)) = (shareAt ws magnitude done : Nat) := by
    rw [shareAt, Apportion.share, total_eq]
    push_cast
    rfl
  have rest_ : ((magnitude : Int) * (ws.getD done 0 : Nat) % (ws.sum : Nat)) = (restAt ws magnitude done : Nat) := by
    rw [restAt, Apportion.rest, total_eq]
    push_cast
    rfl
  rw [share_] at divided
  rw [rest_] at isRest
  have sum_ : ((∑ i ∈ Finset.range done, shareAt ws magnitude i : Nat) : Int) + (shareAt ws magnitude done : Nat) =
      (∑ i ∈ Finset.range (done + 1), shareAt ws magnitude i : Nat) := by
    rw [Finset.sum_range_succ]
    push_cast
    rfl
  have fitsGiven : Fits (∑ i ∈ Finset.range (done + 1), shareAt ws magnitude i : Nat) :=
    fitsM.below (by omega) (by exact_mod_cast sum_shares_le positive inside)
  have given_ : addUnits dealt.given (canon (shareAt ws magnitude done)) =
      .ok (canon (∑ i ∈ Finset.range (done + 1), shareAt ws magnitude i : Nat)) := by
    rw [isGiven, addUnits_canon, sum_, fitsGiven.limitDigits]
    rfl
  have shares_ : dealt.shares ++ [canon (shareAt ws magnitude done)] =
      (List.range (done + 1)).map fun i => canon (shareAt ws magnitude i) := by
    rw [isShares, List.range_succ, List.map_append]
    rfl
  unfold deal
  simp only [divided, bind, Except.bind, given_, shares_]
  by_cases start : dealt.shares = []
  · have zero_ : done = 0 := by
      rw [isShares, List.map_eq_nil_iff, List.range_eq_nil] at start
      exact start
    subst zero_
    rw [if_pos start]
    cases kept : dealt.rests with
    | some rests =>
      rw [kept] at isRests
      exact absurd isRests.1 (by omega)
    | none =>
      refine ⟨_, rfl, rfl, rfl, ?_⟩
      intro i first
      rw [show i = 0 by omega]
      exact isRest
  · have some_ : 0 < done := by
      by_contra none_
      rw [isShares, show done = 0 by omega] at start
      exact start rfl
    rw [if_neg start]
    cases kept : dealt.rests with
    | some rests =>
      rw [kept] at isRests
      exact ⟨_, rfl, rfl, rfl, by omega, by rw [List.length_append, isRests.2.1]; rfl,
        rests_append isRests.2.1 isRests.2.2 isRest⟩
    | none =>
      rw [kept] at isRests
      dsimp only at isRests ⊢
      rw [sameUnits_iff isRest (isRests 0 some_)]
      by_cases same : ((restAt ws magnitude done : Nat) : Int) = (restAt ws magnitude 0 : Nat)
      · rw [if_pos (decide_eq_true same)]
        refine ⟨_, rfl, rfl, rfl, ?_⟩
        intro i inside
        by_cases last_ : i = done
        · rw [last_, same]
          exact isRests 0 some_
        · exact isRests i (by omega)
      · rw [if_neg (by simpa using same)]
        have size : dealt.shares.length = done := by rw [isShares, List.length_map, List.length_range]
        refine ⟨_, rfl, rfl, rfl, by omega, by rw [List.length_append, List.length_replicate, size]; rfl, ?_⟩
        refine rests_append (by rw [List.length_replicate, size]) (fun i inside => ?_) isRest
        rw [List.getD_eq_getElem _ _ (by rw [List.length_replicate]; omega), List.getElem_replicate]
        exact isRests i inside

end Arki.Money
