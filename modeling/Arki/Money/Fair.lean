import Arki.Money.Ratios

/-! Allocation is exact and fair: the parts add up to the whole, and each is next to its exact share. -/

set_option autoImplicit false
set_option linter.dupNamespace false

namespace Arki.Money

open Arki.Math (MathError Checked)

variable {u : Int} {ratios : List Ratio} {parsed : List Parsed} {ws ws_ : List Nat} {values : List ℚ}
  {policy : RemainderPolicy} {magnitude : Nat}

def exactShare (whole : ℚ) (values : List ℚ) (i : Nat) : ℚ := whole * values.getD i 0 / values.sum

def ToppedUp (u : Int) (values : List ℚ) (parts : List Int) (i : Nat) : Prop :=
  ((parts.getD i 0).natAbs : Int) = ⌊exactShare |(u : ℚ)| values i⌋ + 1

structure Fair (policy : RemainderPolicy) (u : Int) (values : List ℚ) (parts : List Int) : Prop where
  size : parts.length = values.length
  sum : parts.sum = u
  sign : ∀ part ∈ parts, part = 0 ∨ part.sign = u.sign
  floor : ∀ i < values.length, ((parts.getD i 0).natAbs : Int) = ⌊exactShare |(u : ℚ)| values i⌋ ∨ ToppedUp u values parts i
  near : ∀ i < values.length, |((parts.getD i 0 : Int) : ℚ) - exactShare u values i| ≤ 1
  nearer : policy = .largest → ∀ i < values.length, |((parts.getD i 0 : Int) : ℚ) - exactShare u values i| < 1
  zero : ∀ i < values.length, values.getD i 0 = 0 → parts.getD i 0 = 0
  /-- One more goes to the largest rests, and to earlier parts on ties. -/
  largest : policy = .largest → ∀ i < values.length, ∀ j < values.length, ToppedUp u values parts i → ¬ ToppedUp u values parts j →
    Int.fract (exactShare |(u : ℚ)| values j) < Int.fract (exactShare |(u : ℚ)| values i) ∨
      Int.fract (exactShare |(u : ℚ)| values i) = Int.fract (exactShare |(u : ℚ)| values j) ∧ i < j

structure WithinDigits (u : Int) (ws : List Nat) : Prop where
  whole : Fits u
  total : Fits ws.sum
  products : ∀ w ∈ ws, Fits (u.natAbs * w)

structure Proportional (ws : List Nat) (values : List ℚ) : Prop where
  size : ws.length = values.length
  factor : ∃ k : ℚ, 0 < k ∧ ∀ i, (ws.getD i 0 : ℚ) = values.getD i 0 * k

theorem Proportional.sum (are : Proportional ws values) : ∃ k : ℚ, 0 < k ∧ (∀ i, (ws.getD i 0 : ℚ) = values.getD i 0 * k) ∧
    (ws.sum : ℚ) = values.sum * k := by
  obtain ⟨k, positive, each⟩ := are.factor
  refine ⟨k, positive, each, ?_⟩
  rw [← sum_getD ws, ← sum_getD values, Nat.cast_sum, Finset.sum_mul, are.size]
  exact Finset.sum_congr rfl fun i _ => each i

theorem Proportional.exact_eq (are : Proportional ws values) (positive : 0 < ws.sum) (i : Nat) :
    Apportion.exact (Finset.range ws.length) (ws.getD · 0) magnitude i = exactShare magnitude values i := by
  obtain ⟨k, positiveK, each, total⟩ := are.sum
  rw [Apportion.exact, total_eq, exactShare, each, total]
  have some_ : values.sum ≠ 0 := by
    intro none_
    rw [none_, zero_mul] at total
    exact positive.ne' (by exact_mod_cast total)
  field_simp

def partsOf (ws : List Nat) (u : Int) (policy : RemainderPolicy) : List Int :=
  (List.range ws.length).map fun i => signed u (partAt ws u.natAbs policy i)

theorem partsOf_getD {i : Nat} (inside : i < ws.length) : (partsOf ws u policy).getD i 0 = signed u (partAt ws u.natAbs policy i) := by
  rw [partsOf, List.getD_eq_getElem _ _ (by simpa using inside), List.getElem_map, List.getElem_range]

theorem signed_natAbs (u : Int) (part : Nat) : (signed u part).natAbs = part := by
  unfold signed
  split
  · exact Int.natAbs_neg _
  · rfl

theorem abs_cast (u : Int) : |(u : ℚ)| = (u.natAbs : ℚ) := by
  rw [← Int.cast_abs, Int.abs_eq_natAbs, Int.cast_natCast]

/-- A part is as far from the signed share as its magnitude is from the magnitude of the share. -/
theorem signed_near (u : Int) (part : Nat) (i : Nat) :
    |((signed u part : Int) : ℚ) - exactShare u values i| = |(part : ℚ) - exactShare |(u : ℚ)| values i| := by
  unfold signed exactShare
  split
  · next below =>
    have negative : (u : ℚ) < 0 := by exact_mod_cast below
    rw [abs_of_neg negative, ← abs_neg]
    congr 1
    push_cast
    ring
  · next above =>
    have isPos : (0 : ℚ) ≤ u := by exact_mod_cast not_lt.mp above
    rw [abs_of_nonneg isPos, Int.cast_natCast]

theorem toppedUp_iff (are : Proportional ws values) (positive : 0 < ws.sum) {i : Nat} (inside : i < ws.length) :
    ToppedUp u values (partsOf ws u policy) i ↔
      i ∈ Apportion.chosen (Finset.range ws.length) (ws.getD · 0) u.natAbs (orderOf ws u.natAbs policy) := by
  have floor := @Apportion.share_eq _ (Finset.range ws.length) (ws.getD · 0) u.natAbs i (by rwa [total_eq])
  rw [ToppedUp, partsOf_getD inside, signed_natAbs, abs_cast, ← are.exact_eq positive, ← floor, partAt, Apportion.part]
  split
  · next member => exact ⟨fun _ => member, fun _ => by push_cast; rfl⟩
  · next apart => exact ⟨fun same => absurd same (by push_cast; omega), fun member => absurd member apart⟩

theorem sum_signed (u : Int) (parts : List Nat) : (parts.map (signed u)).sum = signed u parts.sum := by
  induction parts with
  | nil => simp [signed]
  | cons part parts ih =>
    rw [List.map_cons, List.sum_cons, ih, List.sum_cons]
    unfold signed
    split
    · push_cast
      ring
    · push_cast
      rfl

/-- Between parts that differ in whether they got one more, the order decides. -/
theorem order_decides (are : Proportional ws values) (positive : 0 < ws.sum) {i j : Nat} (insideI : i < ws.length)
    (insideJ : j < ws.length) (topped : ToppedUp u values (partsOf ws u .largest) i)
    (apart : ¬ ToppedUp u values (partsOf ws u .largest) j) : Int.fract (exactShare |(u : ℚ)| values j) < Int.fract (exactShare |(u : ℚ)| values i) ∨
      Int.fract (exactShare |(u : ℚ)| values i) = Int.fract (exactShare |(u : ℚ)| values j) ∧ i < j := by
  have positive_ : 0 < Apportion.total (Finset.range ws.length) (ws.getD · 0) := by rwa [total_eq]
  have cast : (0 : ℚ) < (Apportion.total (Finset.range ws.length) (ws.getD · 0) : ℚ) := by exact_mod_cast positive_
  rw [toppedUp_iff are positive insideI] at topped
  rw [toppedUp_iff are positive insideJ] at apart
  have decided : restAt ws u.natAbs j < restAt ws u.natAbs i ∨ restAt ws u.natAbs i = restAt ws u.natAbs j ∧ i < j := by
    by_cases member : j ∈ orderOf ws u.natAbs .largest
    · rcases Apportion.chosen_before (sorted ws u.natAbs) topped member apart with less | ⟨same, earlier⟩
      · exact .inl less
      · refine .inr ⟨same, lt_of_le_of_ne earlier ?_⟩
        rintro rfl
        exact apart topped
    · -- a part without a weight has no rest
      have none_ : ws.getD j 0 = 0 := by
        by_contra some_
        exact member (((serves ws u.natAbs .largest).mem_iff j).mpr ⟨Finset.mem_range.mpr insideJ, some_⟩)
      have rest := (serves ws u.natAbs .largest).rest_of_chosen positive_ ((sorted ws u.natAbs).imp fun either => by
        show restAt ws u.natAbs _ ≤ restAt ws u.natAbs _
        omega) topped
      left
      rw [restAt, Apportion.rest, none_, mul_zero, Nat.zero_mod]
      exact Nat.pos_of_ne_zero rest
  rw [abs_cast, ← are.exact_eq positive, ← are.exact_eq positive, Apportion.fract_exact positive_, Apportion.fract_exact positive_]
  rcases decided with less | ⟨same, earlier⟩
  · left
    exact div_lt_div_of_pos_right (by exact_mod_cast less) cast
  · right
    exact ⟨by rw [show Apportion.rest _ _ _ i = Apportion.rest _ _ _ j from same], earlier⟩

theorem partsOf_fair (are : Proportional ws values) (positive : 0 < ws.sum) : Fair policy u values (partsOf ws u policy) := by
  have positive_ : 0 < Apportion.total (Finset.range ws.length) (ws.getD · 0) := by rwa [total_eq]
  have inside {i : Nat} (within : i < values.length) : i < ws.length := by rwa [are.size]
  have near (i : Nat) (within : i < values.length) : |((partsOf ws u policy).getD i 0 : ℚ) - exactShare u values i| =
      |(partAt ws u.natAbs policy i : ℚ) - Apportion.exact (Finset.range ws.length) (ws.getD · 0) u.natAbs i| := by
    rw [partsOf_getD (inside within), signed_near, are.exact_eq positive, abs_cast]
  refine ⟨?_, ?_, ?_, ?_, ?_, ?_, ?_, ?_⟩
  · rw [partsOf, List.length_map, List.length_range, are.size]
  · have whole := @Apportion.Serves.sum_part _ _ _ u.natAbs _ _ (serves ws u.natAbs policy) positive_
    have list : ((List.range ws.length).map (partAt ws u.natAbs policy)).sum = u.natAbs := whole
    have mapped : partsOf ws u policy = ((List.range ws.length).map (partAt ws u.natAbs policy)).map (signed u) := by
      rw [partsOf, List.map_map]
      rfl
    rw [mapped, sum_signed, list]
    unfold signed
    split <;> omega
  · intro part member
    obtain ⟨i, found, rfl⟩ := List.mem_map.mp member
    have bound := @part_le_whole ws u.natAbs policy positive i (List.mem_range.mp found)
    by_cases none_ : partAt ws u.natAbs policy i = 0
    · left
      rw [none_, signed]
      split <;> rfl
    · right
      unfold signed
      split
      · next below => rw [Int.sign_eq_neg_one_of_neg below, Int.sign_eq_neg_one_of_neg (by omega)]
      · next above => rw [Int.sign_eq_one_of_pos (by omega : 0 < u), Int.sign_eq_one_of_pos (by omega)]
  · intro i within
    by_cases topped : ToppedUp u values (partsOf ws u policy) i
    · exact .inr topped
    · left
      have floor := @Apportion.share_eq _ (Finset.range ws.length) (ws.getD · 0) u.natAbs i positive_
      rw [toppedUp_iff are positive (inside within)] at topped
      rw [partsOf_getD (inside within), signed_natAbs, abs_cast, ← are.exact_eq positive, ← floor, partAt, Apportion.part,
        if_neg topped, Nat.add_zero]
  · intro i within
    rw [near i within]
    exact (Apportion.part_near positive_).1
  · rintro rfl i within
    rw [near i within]
    refine (Apportion.part_near positive_).2 fun member => ?_
    exact (serves ws u.natAbs .largest).rest_of_chosen positive_ ((sorted ws u.natAbs).imp fun either => by
      show restAt ws u.natAbs _ ≤ restAt ws u.natAbs _
      omega) member
  · intro i within none_
    obtain ⟨k, _, each⟩ := are.factor
    have zero_ : ws.getD i 0 = 0 := by
      have cast := each i
      rw [none_, zero_mul] at cast
      exact_mod_cast cast
    rw [partsOf_getD (inside within), partAt, (serves ws u.natAbs policy).part_zero zero_, signed]
    split <;> rfl
  · rintro rfl i withinI j withinJ topped apart
    exact order_decides are positive (inside withinI) (inside withinJ) topped apart

theorem partsOf_scaled {a b : Nat} (positiveA : 0 < a) (positiveB : 0 < b) (size : ws.length = ws_.length)
    (same : ∀ i, a * ws.getD i 0 = b * ws_.getD i 0) : partsOf ws u policy = partsOf ws_ u policy := by
  have functions : (fun i => a * ws.getD i 0) = fun i => b * ws_.getD i 0 := funext same
  have rests (i : Nat) : a * restAt ws u.natAbs i = b * restAt ws_ u.natAbs i := by
    rw [restAt, restAt, ← Apportion.rest_scaled, functions, Apportion.rest_scaled, size]
  have positives_ : positives ws = positives ws_ := by
    unfold positives
    rw [size]
    apply List.filter_congr
    intro i _
    have either : ws.getD i 0 = 0 ↔ ws_.getD i 0 = 0 := by
      constructor
      · intro none_
        have product := same i
        rw [none_, mul_zero] at product
        exact (Nat.mul_eq_zero.mp product.symm).resolve_left positiveB.ne'
      · intro none_
        have product := same i
        rw [none_, mul_zero] at product
        exact (Nat.mul_eq_zero.mp product).resolve_left positiveA.ne'
    exact decide_eq_decide.mpr (not_congr either)
  have before_ : before ws u.natAbs = before ws_ u.natAbs := by
    funext x y
    have less : restAt ws u.natAbs y < restAt ws u.natAbs x ↔ restAt ws_ u.natAbs y < restAt ws_ u.natAbs x := by
      rw [← Nat.mul_lt_mul_left positiveA, rests, rests, Nat.mul_lt_mul_left positiveB]
    have equal : restAt ws u.natAbs x = restAt ws u.natAbs y ↔ restAt ws_ u.natAbs x = restAt ws_ u.natAbs y := by
      rw [← Nat.mul_right_inj positiveA.ne', rests, rests, Nat.mul_right_inj positiveB.ne']
    unfold before
    rw [decide_eq_decide.mpr less, decide_eq_decide.mpr equal]
  have orders : orderOf ws u.natAbs policy = orderOf ws_ u.natAbs policy := by
    unfold orderOf
    rw [positives_, before_]
  unfold partsOf partAt
  rw [size, orders]
  apply List.map_congr_left
  intro i _
  rw [← Apportion.part_scaled positiveA, functions, Apportion.part_scaled positiveB]

theorem partsOf_proportional {k : ℚ} (positive : 0 < k) (size : ws.length = ws_.length)
    (same : ∀ i, (ws.getD i 0 : ℚ) * k = ws_.getD i 0) : partsOf ws u policy = partsOf ws_ u policy := by
  have num : (k.num.toNat : ℚ) = k.num := by exact_mod_cast Int.toNat_of_nonneg (Rat.num_pos.mpr positive).le
  refine partsOf_scaled (a := k.num.toNat) (b := k.den) ?_ k.pos size fun i => ?_
  · have pos := Rat.num_pos.mpr positive
    omega
  · have scaled : (k.num : ℚ) * ws.getD i 0 = k.den * ws_.getD i 0 := by
      rw [← same i, ← Rat.mul_den_eq_num k]
      ring
    rw [← num] at scaled
    exact_mod_cast scaled

theorem weightsOf_proportional (isRead : List.Forall₂ (fun ratio one => parseRatio ratio = .ok one) ratios parsed)
    (nonneg : ∀ one ∈ parsed, 0 ≤ one.value) : Proportional (weightsOf parsed) (parsed.map Parsed.value) := by
  refine ⟨by rw [weightsOf, List.length_map, List.length_map], 10 ^ commonOf parsed, by positivity, fun i => ?_⟩
  by_cases inside : i < parsed.length
  · have member := List.getElem_mem inside
    obtain ⟨ratio, _, read⟩ := Outcome.forall₂_right isRead member
    rw [weightsOf, List.getD_eq_getElem _ _ (by simpa using inside), List.getElem_map,
      List.getD_eq_getElem _ _ (by simpa using inside), List.getElem_map,
      weightOf_eq (parseRatio_canon read).1 (nonneg _ member) (le_commonOf member)]
  · rw [List.getD_eq_default _ _ (by simpa [weightsOf] using inside), List.getD_eq_default _ _ (by simpa using inside)]
    simp

theorem total_units {weights : List Units} (are : List.Forall₂ (fun (weight : Units) (w : Nat) => weight.Is w) weights ws)
    (fits : Fits ws.sum) : weights.foldlM addUnits (.number (.of 0)) = .ok (canon ws.sum) := by
  have start : Units.number (.of 0) = canon 0 := by rw [canon_safe (by decide), Int.cast_zero]
  suffices more : ∀ init : Nat, Fits (init + ws.sum : Nat) → weights.foldlM addUnits (canon init) = .ok (canon (init + ws.sum : Nat)) by
    have done := more 0 (by rwa [Nat.zero_add])
    rw [Nat.zero_add] at done
    rw [start]
    exact done
  clear fits
  induction are with
  | nil => exact fun init _ => rfl
  | @cons weight w weights ws is _ ih =>
    intro init fits
    rw [List.sum_cons, ← Nat.add_assoc] at fits
    have first : addUnits (canon init) weight = .ok (canon (init + w : Nat)) := by
      have fitsFirst : Fits (init + w : Nat) := fits.below (by omega) (by omega)
      rw [addUnits_is is, ← Nat.cast_add, fitsFirst.limitDigits]
      rfl
    rw [List.foldlM_cons, first, List.sum_cons, ← Nat.add_assoc]
    exact ih (init + w) fits

theorem allocate_eq {scale : Nat} {currency : Currency} (isRead : List.Forall₂ (fun ratio one => parseRatio ratio = .ok one) ratios parsed)
    (nonneg : ∀ one ∈ parsed, 0 ≤ one.value) (positive : 0 < (weightsOf parsed).sum) (few : ratios.length ≤ maxParts)
    (within : WithinDigits u (weightsOf parsed)) (remainder : Option RemainderPolicy) :
    Money.allocate ⟨canon u, scale, currency⟩ ratios remainder =
      .ok ((partsOf (weightsOf parsed) u (remainder.getD .largest)).map fun part => ⟨canon part, scale, currency⟩) := by
  have some_ : ratios ≠ [] := by
    rintro rfl
    cases isRead
    exact absurd positive (by decide)
  obtain ⟨weights, built, are⟩ := weights_eq isRead nonneg within.total
  have size : weights.length = (weightsOf parsed).length := are.length_eq
  have each (i : Nat) (inside : i < (weightsOf parsed).length) :
      (weights.getD i (.number (.of 0))).Is ((weightsOf parsed).getD i 0 : Nat) := by
    rw [List.getD_eq_getElem _ _ (by omega), List.getD_eq_getElem _ _ inside]
    exact are.get (by omega) inside
  have products (i : Nat) (inside : i < (weightsOf parsed).length) : Fits (u.natAbs * (weightsOf parsed).getD i 0) := by
    rw [List.getD_eq_getElem _ _ inside]
    exact within.products _ (List.getElem_mem inside)
  have total := total_units are within.total
  have nonzero : isZero (canon ((weightsOf parsed).sum : Nat)) = false := by
    rw [(is_canon _).isZero]
    exact decide_eq_false (by omega)
  unfold Money.allocate
  simp only [if_neg some_, if_neg (not_lt.mpr few), bind, Except.bind, built, total, nonzero]
  rw [distribute_eq positive size each within.whole within.total products, partsOf, List.map_map]
  rfl

theorem weights_positive (isRead : List.Forall₂ (fun ratio one => parseRatio ratio = .ok one) ratios parsed)
    (nonneg : ∀ one ∈ parsed, 0 ≤ one.value) (some_ : ∃ one ∈ parsed, one.value ≠ 0) : 0 < (weightsOf parsed).sum := by
  obtain ⟨one, member, apart⟩ := some_
  obtain ⟨_, _, read⟩ := Outcome.forall₂_right isRead member
  have weight := weightOf_eq (parseRatio_canon read).1 (nonneg one member) (le_commonOf member)
  have positive : 0 < weightOf (commonOf parsed) one := by
    have cast : (0 : ℚ) < weightOf (commonOf parsed) one := by
      rw [weight]
      exact mul_pos (lt_of_le_of_ne (nonneg one member) (Ne.symm apart)) (by positivity)
    exact_mod_cast cast
  exact lt_of_lt_of_le positive (List.le_sum_of_mem (List.mem_map_of_mem member))

/-- Allocation by ratios that can be read: the parts are a fair split of the whole, and ratios in the same proportions give
the same parts. -/
theorem allocate_fair {whole : Money} (canonical : whole.units.Canonical) (remainder : Option RemainderPolicy)
    (isRead : ratios.mapM parseRatio = .ok parsed) (nonneg : ∀ one ∈ parsed, 0 ≤ one.value) (some_ : ∃ one ∈ parsed, one.value ≠ 0)
    (few : ratios.length ≤ maxParts) (within : WithinDigits whole.units.big (weightsOf parsed)) :
    (∃ parts, whole.allocate ratios remainder = .ok (parts.map fun part => ⟨canon part, whole.scale, whole.currency⟩) ∧
      Fair (remainder.getD .largest) whole.units.big (parsed.map Parsed.value) parts) ∧
    ∀ (q : ℚ) (others : List Ratio) (parsedOthers : List Parsed), 0 < q → others.mapM parseRatio = .ok parsedOthers →
      parsedOthers.map Parsed.value = (parsed.map Parsed.value).map (q * ·) →
      WithinDigits whole.units.big (weightsOf parsedOthers) → whole.allocate others remainder = whole.allocate ratios remainder := by
  have isRead_ := Outcome.mapM_ok.mp isRead
  have proportional := weightsOf_proportional isRead_ nonneg
  have positive := weights_positive isRead_ nonneg some_
  have allocated := @allocate_eq _ _ _ whole.scale whole.currency isRead_ nonneg positive few within remainder
  rw [← Units.canonical_iff.mp canonical] at allocated
  refine ⟨⟨_, allocated, partsOf_fair proportional positive⟩, fun q others parsedOthers isPos isOthers scaled withinOthers => ?_⟩
  have isOthers_ := Outcome.mapM_ok.mp isOthers
  have nonnegOthers : ∀ one ∈ parsedOthers, 0 ≤ one.value := by
    intro one member
    have found : one.value ∈ (parsed.map Parsed.value).map (q * ·) := scaled ▸ List.mem_map_of_mem member
    obtain ⟨value, inside, same⟩ := List.mem_map.mp found
    obtain ⟨other, memberOther, rfl⟩ := List.mem_map.mp inside
    rw [← same]
    exact mul_nonneg isPos.le (nonneg other memberOther)
  have size : parsedOthers.length = parsed.length := by
    have lengths := congrArg List.length scaled
    simpa using lengths
  have fewOthers : others.length ≤ maxParts := by
    rw [isOthers_.length_eq, size, ← isRead_.length_eq]
    exact few
  have someOthers : ∃ one ∈ parsedOthers, one.value ≠ 0 := by
    obtain ⟨one, member, apart⟩ := some_
    have found : q * one.value ∈ parsedOthers.map Parsed.value := scaled ▸ List.mem_map_of_mem (List.mem_map_of_mem member)
    obtain ⟨other, inside, same⟩ := List.mem_map.mp found
    exact ⟨other, inside, by rw [same]; exact mul_ne_zero isPos.ne' apart⟩
  have proportionalOthers := weightsOf_proportional isOthers_ nonnegOthers
  have allocatedOthers := @allocate_eq _ _ _ whole.scale whole.currency isOthers_ nonnegOthers
    (weights_positive isOthers_ nonnegOthers someOthers) fewOthers withinOthers remainder
  rw [← Units.canonical_iff.mp canonical] at allocatedOthers
  rw [allocatedOthers, allocated]
  obtain ⟨k, positiveK, each⟩ := proportional.factor
  obtain ⟨l, positiveL, eachOther⟩ := proportionalOthers.factor
  have same : partsOf (weightsOf parsed) whole.units.big (remainder.getD .largest) =
      partsOf (weightsOf parsedOthers) whole.units.big (remainder.getD .largest) := by
    refine @partsOf_proportional _ _ _ _ (q * l / k) (div_pos (mul_pos isPos positiveL) positiveK) ?_ fun i => ?_
    · rw [weightsOf, weightsOf, List.length_map, List.length_map, size]
    · have value : (parsedOthers.map Parsed.value).getD i 0 = q * (parsed.map Parsed.value).getD i 0 := by
        rw [scaled, List.getD_eq_getElem?_getD, List.getElem?_map, List.getD_eq_getElem?_getD]
        cases (parsed.map Parsed.value)[i]? with
        | none => exact (mul_zero q).symm
        | some _ => rfl
      rw [each, eachOther, value]
      field_simp
  rw [same]

/-- Ten by halves and quarters, in two spellings. -/
theorem allocate_fair_run : (∃ parts : List Int, Money.allocate ⟨canon (-10), 2, ⟨"EUR", some "978", 2, true⟩⟩
      [.text "0.5", .text "0.25", .text "0.25"] none = .ok (parts.map fun part => ⟨canon part, 2, ⟨"EUR", some "978", 2, true⟩⟩) ∧
      Fair .largest (canon (-10)).big ([⟨canon 5, 1⟩, ⟨canon 25, 2⟩, ⟨canon 25, 2⟩].map Parsed.value) parts) ∧
    Money.allocate ⟨canon (-10), 2, ⟨"EUR", some "978", 2, true⟩⟩ [.number (.whole 2), .bigint 1, .text "1.0"] none =
      Money.allocate ⟨canon (-10), 2, ⟨"EUR", some "978", 2, true⟩⟩ [.text "0.5", .text "0.25", .text "0.25"] none := by
  have fair := @allocate_fair [.text "0.5", .text "0.25", .text "0.25"] [⟨canon 5, 1⟩, ⟨canon 25, 2⟩, ⟨canon 25, 2⟩]
    ⟨canon (-10), 2, ⟨"EUR", some "978", 2, true⟩⟩ (canon_canonical _) none (by decide +kernel) (by decide +kernel)
    (by decide +kernel) (by decide) ⟨by decide +kernel, by decide +kernel, by decide +kernel⟩
  exact ⟨fair.1, fair.2 4 [.number (.whole 2), .bigint 1, .text "1.0"] [⟨canon 2, 0⟩, ⟨canon 1, 0⟩, ⟨canon 10, 1⟩] (by norm_num)
    (by decide +kernel) (by decide +kernel) ⟨by decide +kernel, by decide +kernel, by decide +kernel⟩⟩

/-- Two units by 2, 1 and 1 from the start: the first part is one whole unit past its exact share. -/
theorem allocate_first_past : ∃ parts : List Int, Money.allocate ⟨canon 2, 2, ⟨"EUR", some "978", 2, true⟩⟩
      [.number (.whole 2), .number (.whole 1), .number (.whole 1)] (some .first) =
        .ok (parts.map fun part => ⟨canon part, 2, ⟨"EUR", some "978", 2, true⟩⟩) ∧
      ¬ |((parts.getD 0 0 : Int) : ℚ) - exactShare 2 [2, 1, 1] 0| < 1 :=
  ⟨[2, 0, 0], by decide +kernel, by decide +kernel⟩

end Arki.Money
