import Arki.Money.Shares

/-! `distribute` computes the parts of an apportionment, in the order of the policy. -/

set_option autoImplicit false
set_option linter.dupNamespace false

namespace Arki.Money

open Arki (Double)
open Arki.Math (MathError Checked)

variable {ws : List Nat} {magnitude : Nat} {weights : List Units} {policy : RemainderPolicy} {u : Int}

theorem topUp_eq (count : Nat) (order : List Nat) : ∀ (shares : Nat → Nat) (left : Nat), order.Nodup →
    (∀ i ∈ order.take left, i < count ∧ Fits (shares i + 1 : Nat)) →
    topUp order ((List.range count).map fun i => canon (shares i : Nat)) left =
      .ok ((List.range count).map fun i => canon (shares i + if i ∈ order.take left then 1 else 0 : Nat)) := by
  induction order with
  | nil => exact fun shares left _ _ => by simp [topUp]
  | cons index order ih =>
    intro shares left nodup may
    cases left with
    | zero => simp [topUp]
    | succ left =>
      rw [List.take_succ_cons] at may
      obtain ⟨inside, fits⟩ := may index (List.mem_cons_self ..)
      have one : (Units.number (.of 1)) = canon 1 := by rw [canon_safe (by decide), Int.cast_one]
      have more : addUnits (((List.range count).map fun i => canon (shares i : Nat)).getD index (.number (.of 0))) (.number (.of 1)) =
          .ok (canon (shares index + 1 : Nat)) := by
        rw [List.getD_eq_getElem _ _ (by simpa using inside), List.getElem_map, List.getElem_range, one, addUnits_canon]
        have same : (shares index : Int) + 1 = (shares index + 1 : Nat) := by push_cast; rfl
        rw [same, fits.limitDigits]
        rfl
      have next : ((List.range count).map fun i => canon (shares i : Nat)).set index (canon (shares index + 1 : Nat)) =
          (List.range count).map fun i => canon (Function.update shares index (shares index + 1) i : Nat) := by
        apply List.ext_getElem
        · simp
        · intro i first second
          simp only [List.getElem_set, List.getElem_map, List.getElem_range]
          by_cases same : index = i
          · rw [if_pos same, same, Function.update_self]
          · rw [if_neg same, Function.update_of_ne (Ne.symm same)]
      rw [List.nodup_cons] at nodup
      have apart (i : Nat) (member : i ∈ order) : i ≠ index := by
        rintro rfl
        exact nodup.1 member
      rw [topUp, if_neg (by omega), more]
      simp only [bind, Except.bind, next]
      rw [show ((left + 1 : Nat) : Int) - 1 = (left : Nat) by omega, ih _ left nodup.2 fun i member => by
        rw [Function.update_of_ne (apart i (List.mem_of_mem_take member))]
        exact may i (List.mem_cons_of_mem _ member)]
      congr 1
      apply List.map_congr_left
      intro i _
      by_cases same : i = index
      · subst same
        have out : i ∉ order.take left := fun member => nodup.1 (List.mem_of_mem_take member)
        rw [Function.update_self, if_neg out, List.take_succ_cons, if_pos (List.mem_cons_self ..), add_zero]
      · rw [Function.update_of_ne same, List.take_succ_cons]
        simp only [List.mem_cons, same, false_or]

/-- The items that have a weight. -/
def positives (ws : List Nat) : List Nat := (List.range ws.length).filter fun i => ws.getD i 0 ≠ 0

def before (ws : List Nat) (magnitude : Nat) (x y : Nat) : Bool :=
  restAt ws magnitude y < restAt ws magnitude x || (restAt ws magnitude x = restAt ws magnitude y && x ≤ y)

def orderOf (ws : List Nat) (magnitude : Nat) : RemainderPolicy → List Nat
  | .largest => (positives ws).mergeSort (before ws magnitude)
  | .first => positives ws
  | .last => (positives ws).reverse

theorem serves (ws : List Nat) (magnitude : Nat) (policy : RemainderPolicy) :
    Apportion.Serves (Finset.range ws.length) (ws.getD · 0) (orderOf ws magnitude policy) := by
  have nodup : (positives ws).Nodup := List.nodup_range.filter _
  have members (i : Nat) : i ∈ positives ws ↔ i ∈ Finset.range ws.length ∧ ws.getD i 0 ≠ 0 := by
    rw [positives, List.mem_filter, List.mem_range, Finset.mem_range, decide_eq_true_iff]
  cases policy with
  | largest =>
    have same := List.mergeSort_perm (positives ws) (before ws magnitude)
    exact ⟨same.nodup_iff.mpr nodup, fun i => same.mem_iff.trans (members i)⟩
  | first => exact ⟨nodup, members⟩
  | last => exact ⟨List.nodup_reverse.mpr nodup, fun i => List.mem_reverse.trans (members i)⟩

theorem before_iff {x y : Nat} : before ws magnitude x y = true ↔
    restAt ws magnitude y < restAt ws magnitude x ∨ restAt ws magnitude x = restAt ws magnitude y ∧ x ≤ y := by
  simp [before]

theorem sorted (ws : List Nat) (magnitude : Nat) : (orderOf ws magnitude .largest).Pairwise fun x y =>
    restAt ws magnitude y < restAt ws magnitude x ∨ restAt ws magnitude x = restAt ws magnitude y ∧ x ≤ y := by
  have ordered := @List.pairwise_mergeSort _ (before ws magnitude) (fun x y z first second => by
    rw [before_iff] at first second ⊢
    omega) (fun x y => by
    rw [Bool.or_eq_true, before_iff, before_iff]
    omega) (positives ws)
  exact ordered.imp before_iff.mp

theorem weighted_eq (size : weights.length = ws.length)
    (are : ∀ i < ws.length, (weights.getD i (.number (.of 0))).Is (ws.getD i 0 : Nat)) : weighted weights = positives ws := by
  unfold weighted positives
  rw [size]
  apply List.filter_congr
  intro i inside
  rw [(are i (List.mem_range.mp inside)).isZero]
  simp

theorem restAt_past {i : Nat} (past : ws.length ≤ i) : restAt ws magnitude i = 0 := by
  rw [restAt, Apportion.rest, List.getD_eq_default _ _ past, mul_zero, Nat.zero_mod]

theorem topUpOrder_eq {dealt : Dealt} (at_ : DealtAt ws magnitude ws.length dealt) (size : weights.length = ws.length)
    (are : ∀ i < ws.length, (weights.getD i (.number (.of 0))).Is (ws.getD i 0 : Nat)) :
    topUpOrder weights dealt.rests policy = orderOf ws magnitude policy := by
  have rests := at_.rests
  unfold topUpOrder orderOf
  rw [weighted_eq size are]
  cases policy with
  | largest =>
    cases kept : dealt.rests with
    | none =>
      rw [kept] at rests
      dsimp only at rests ⊢
      symm
      apply List.mergeSort_of_pairwise
      have ascending : (positives ws).Pairwise (· < ·) := List.pairwise_lt_range.filter _
      refine ascending.imp_of_mem fun {x y} memberX memberY less => ?_
      have insideX := List.mem_range.mp (List.mem_filter.mp memberX).1
      have insideY := List.mem_range.mp (List.mem_filter.mp memberY).1
      have same : ((restAt ws magnitude x : Nat) : Int) = (restAt ws magnitude y : Nat) := by
        rw [← (rests x insideX).big, ← (rests y insideY).big]
      rw [before_iff]
      exact .inr ⟨by exact_mod_cast same, less.le⟩
    | some rests_ =>
      rw [kept] at rests
      dsimp only
      congr 1
      funext x y
      have is (i : Nat) : (rests_.getD i (.number (.of 0))).Is (restAt ws magnitude i) := by
        by_cases inside : i < ws.length
        · exact rests.2.2 i inside
        · rw [restAt_past (not_lt.mp inside), List.getD_eq_default _ _ (by omega)]
          exact .inl (by rw [canon_safe (by decide)]; rfl)
      rw [byRest, (is y).compare (is x), before]
      rcases lt_trichotomy ((restAt ws magnitude y : Nat) : Int) (restAt ws magnitude x : Nat) with less | same | more
      · rw [compare_lt_iff_lt.mpr less]
        have less_ : restAt ws magnitude y < restAt ws magnitude x := by exact_mod_cast less
        simp [less_]
      · rw [compare_eq_iff_eq.mpr same]
        have same_ : restAt ws magnitude y = restAt ws magnitude x := by exact_mod_cast same
        simp [same_]
      · rw [compare_gt_iff_gt.mpr more]
        have more_ : restAt ws magnitude x < restAt ws magnitude y := by exact_mod_cast more
        simp [more_.not_gt, more_.ne]
  | first => rfl
  | last => rfl

abbrev partAt (ws : List Nat) (magnitude : Nat) (policy : RemainderPolicy) (i : Nat) : Nat :=
  Apportion.part (Finset.range ws.length) (ws.getD · 0) magnitude (orderOf ws magnitude policy) i

def signed (u : Int) (part : Nat) : Int := if u < 0 then -part else part

theorem part_le_whole (positive : 0 < ws.sum) {i : Nat} (inside : i < ws.length) : partAt ws magnitude policy i ≤ magnitude := by
  have whole := @Apportion.Serves.sum_part _ _ _ magnitude _ _ (serves ws magnitude policy) (by rwa [total_eq])
  calc partAt ws magnitude policy i ≤ ∑ i ∈ Finset.range ws.length, partAt ws magnitude policy i :=
        Finset.single_le_sum (f := partAt ws magnitude policy) (fun _ _ => Nat.zero_le _) (Finset.mem_range.mpr inside)
    _ = magnitude := whole

theorem distribute_eq {scale : Nat} {currency : Currency} (positive : 0 < ws.sum) (size : weights.length = ws.length)
    (are : ∀ i < ws.length, (weights.getD i (.number (.of 0))).Is (ws.getD i 0 : Nat)) (fitsU : Fits u) (fitsT : Fits ws.sum)
    (fits : ∀ i < ws.length, Fits (u.natAbs * ws.getD i 0)) :
    distribute ⟨canon u, scale, currency⟩ weights (canon ws.sum) policy =
      .ok ((List.range ws.length).map fun i => ⟨canon (signed u (partAt ws u.natAbs policy i)), scale, currency⟩) := by
  have fitsM : Fits (u.natAbs : Int) := fitsU.mono (by omega)
  have negative : (canon u).value < 0 ↔ u < 0 := by
    rw [canon_value]
    exact Int.cast_lt_zero
  have magnitude_ : (if (canon u).value < 0 then negUnits (canon u) else canon u) = canon (u.natAbs : Int) := by
    by_cases below : u < 0
    · rw [if_pos (negative.mpr below), negUnits_canon, show -u = (u.natAbs : Int) by omega]
    · rw [if_neg (fun less => below (negative.mp less))]
      nth_rewrite 1 [show u = (u.natAbs : Int) by omega]
      rfl
  have start : DealtAt ws u.natAbs 0 .start :=
    ⟨rfl, by rw [Finset.sum_range_zero, canon_safe (by decide)]; rfl, fun i inside => absurd inside (Nat.not_lt_zero i)⟩
  obtain ⟨dealt, looped, at_⟩ := @Outcome.foldlM_ok _ _ _ (deal (canon u.natAbs) (canon ws.sum)) (DealtAt ws u.natAbs)
    weights 0 .start start fun i dealt weight found at_ => by
      rw [Nat.zero_add] at at_ ⊢
      have inside : i < ws.length := size ▸ (List.getElem?_eq_some_iff.mp found).1
      have is := are i inside
      rw [List.getD_eq_getElem?_getD, found, Option.getD_some] at is
      exact deal_at positive inside is fitsM fitsT (fits i inside) at_
  rw [Nat.zero_add, size] at at_
  have left_ : addUnits (canon (u.natAbs : Int)) (negUnits dealt.given) =
      .ok (canon (Apportion.left (Finset.range ws.length) (ws.getD · 0) u.natAbs : Nat)) := by
    have less := @sum_shares_le ws u.natAbs _ positive le_rfl
    have same : (u.natAbs : Int) + -(∑ i ∈ Finset.range ws.length, shareAt ws u.natAbs i : Nat) =
        (Apportion.left (Finset.range ws.length) (ws.getD · 0) u.natAbs : Nat) := by
      rw [Apportion.left, Nat.cast_sub less]
      ring
    have fitsLeft : Fits (Apportion.left (Finset.range ws.length) (ws.getD · 0) u.natAbs : Nat) :=
      fitsM.below (by omega) (by exact_mod_cast Nat.sub_le _ _)
    rw [at_.given, negUnits_canon, addUnits_canon, same, fitsLeft.limitDigits]
    rfl
  have topped := topUp_eq ws.length (orderOf ws u.natAbs policy) (shareAt ws u.natAbs)
    (Apportion.left (Finset.range ws.length) (ws.getD · 0) u.natAbs) (serves ws u.natAbs policy).nodup fun i member => by
      have inside := Finset.mem_range.mp (((serves ws u.natAbs policy).mem_iff i).mp (List.mem_of_mem_take member)).1
      have bound := @part_le_whole ws u.natAbs policy positive i inside
      rw [partAt, Apportion.part, Apportion.chosen, if_pos member] at bound
      exact ⟨inside, fitsM.below (by omega) (by exact_mod_cast bound)⟩
  unfold distribute
  simp only [magnitude_, looped, bind, Except.bind, left_, topUpOrder_eq at_ size are, canon_big_value, at_.shares, topped]
  show Except.ok _ = Except.ok _
  rw [List.map_map]
  congr 1
  apply List.map_congr_left
  intro i _
  show Money.mk _ _ _ = _
  by_cases below : u < 0
  · rw [signed, if_pos below]
    simp only [if_pos (negative.mpr below), negUnits_canon]
    rfl
  · rw [signed, if_neg below]
    simp only [if_neg (fun less => below (negative.mp less))]
    rfl

end Arki.Money
