import Mathlib.Algebra.BigOperators.Ring.Finset
import Mathlib.Algebra.Order.BigOperators.Group.Finset
import Mathlib.Data.Rat.Floor

/-! Apportionment: a whole number is dealt by weights, each item gets its floor, and what is left goes one by one in an order
of the items that have a weight.
-/

set_option autoImplicit false

namespace Arki.Apportion

open Finset

variable {ι : Type} (items : Finset ι) (weight : ι → ℕ) (whole : ℕ)

def total : ℕ := ∑ i ∈ items, weight i

def share (i : ι) : ℕ := whole * weight i / total items weight

def rest (i : ι) : ℕ := whole * weight i % total items weight

def left : ℕ := whole - ∑ i ∈ items, share items weight whole i

/-- The items that get one more. -/
def chosen (order : List ι) : List ι := order.take (left items weight whole)

def part [DecidableEq ι] (order : List ι) (i : ι) : ℕ :=
  share items weight whole i + if i ∈ chosen items weight whole order then 1 else 0

structure Serves (order : List ι) : Prop where
  nodup : order.Nodup
  mem_iff : ∀ i, i ∈ order ↔ i ∈ items ∧ weight i ≠ 0

variable {items weight whole} {order : List ι} {i j : ι} {c : ℕ}

theorem shares_rests : (∑ i ∈ items, share items weight whole i) * total items weight + ∑ i ∈ items, rest items weight whole i =
    whole * total items weight := by
  rw [sum_mul, ← sum_add_distrib, total, mul_sum]
  exact sum_congr rfl fun i _ => Nat.div_add_mod' _ _

theorem shares_le (positive : 0 < total items weight) : ∑ i ∈ items, share items weight whole i ≤ whole := by
  have both := @shares_rests ι items weight whole
  exact Nat.le_of_mul_le_mul_right (by omega) positive

theorem left_mul :
    left items weight whole * total items weight = ∑ i ∈ items, rest items weight whole i := by
  have both := @shares_rests ι items weight whole
  rw [left, Nat.sub_mul]
  omega

theorem left_lt (positive : 0 < total items weight) :
    left items weight whole = 0 ∨ left items weight whole < #{i ∈ items | rest items weight whole i ≠ 0} := by
  by_cases none_ : left items weight whole = 0
  · exact .inl none_
  right
  have below : ∑ i ∈ items with rest items weight whole i ≠ 0, rest items weight whole i ≤
      #{i ∈ items | rest items weight whole i ≠ 0} * (total items weight - 1) := by
    refine (sum_le_card_nsmul _ _ (total items weight - 1) fun i _ => ?_).trans_eq (nsmul_eq_mul _ _)
    have bound : rest items weight whole i < total items weight := Nat.mod_lt _ positive
    omega
  rw [sum_filter_ne_zero, ← left_mul] at below
  by_contra few
  rw [not_lt] at few
  have more := Nat.mul_le_mul_right (total items weight - 1) few
  have strictly : left items weight whole * (total items weight - 1) < left items weight whole * total items weight :=
    Nat.mul_lt_mul_of_pos_left (by omega) (Nat.pos_of_ne_zero none_)
  omega

theorem weight_of_rest (some_ : rest items weight whole i ≠ 0) : weight i ≠ 0 := by
  intro none_
  rw [rest, none_, mul_zero, Nat.zero_mod] at some_
  exact some_ rfl

theorem chosen_before {before : ι → ι → Prop} (sorted : order.Pairwise before) (member : i ∈ chosen items weight whole order)
    (other : j ∈ order) (apart : j ∉ chosen items weight whole order) : before i j := by
  rw [← List.take_append_drop (left items weight whole) order, List.pairwise_append] at sorted
  rw [← List.take_append_drop (left items weight whole) order, List.mem_append] at other
  exact sorted.2.2 i member j (other.resolve_left apart)

theorem mem_of_chosen (member : i ∈ chosen items weight whole order) : i ∈ order := List.mem_of_mem_take member

theorem Serves.chosen_nodup (serves : Serves items weight order) : (chosen items weight whole order).Nodup :=
  serves.nodup.sublist (List.take_sublist _ _)

def exact (items : Finset ι) (weight : ι → ℕ) (whole : ℕ) (i : ι) : ℚ := (whole : ℚ) * weight i / total items weight

theorem exact_eq (positive : 0 < total items weight) :
    exact items weight whole i = share items weight whole i + (rest items weight whole i : ℚ) / total items weight := by
  have cast : (total items weight : ℚ) ≠ 0 := by exact_mod_cast positive.ne'
  rw [exact, div_eq_iff cast, add_mul, div_mul_cancel₀ _ cast]
  exact_mod_cast (Nat.div_add_mod' (whole * weight i) (total items weight)).symm

theorem rest_lt (positive : 0 < total items weight) : (rest items weight whole i : ℚ) / total items weight < 1 := by
  rw [div_lt_one (by exact_mod_cast positive)]
  exact_mod_cast Nat.mod_lt _ positive

theorem share_eq (positive : 0 < total items weight) : (share items weight whole i : ℤ) = ⌊exact items weight whole i⌋ := by
  have low : (0 : ℚ) ≤ (rest items weight whole i : ℚ) / total items weight := by positivity
  have high := @rest_lt ι items weight whole i positive
  symm
  rw [Int.floor_eq_iff, exact_eq positive]
  push_cast
  constructor <;> linarith

theorem fract_exact (positive : 0 < total items weight) :
    Int.fract (exact items weight whole i) = (rest items weight whole i : ℚ) / total items weight := by
  rw [Int.fract, ← share_eq positive, exact_eq positive, Int.cast_natCast, add_sub_cancel_left]

theorem total_scaled : total items (fun i => c * weight i) = c * total items weight := (mul_sum _ _ _).symm

theorem share_scaled (positive : 0 < c) : share items (fun i => c * weight i) whole i = share items weight whole i := by
  rw [share, share, total_scaled, mul_left_comm, Nat.mul_div_mul_left _ _ positive]

theorem rest_scaled : rest items (fun i => c * weight i) whole i = c * rest items weight whole i := by
  rw [rest, rest, total_scaled, mul_left_comm, Nat.mul_mod_mul_left]

variable [DecidableEq ι]

theorem Serves.card (serves : Serves items weight order) : #{i ∈ items | weight i ≠ 0} = order.length := by
  rw [← List.toFinset_card_of_nodup serves.nodup]
  congr 1
  ext i
  rw [mem_filter, List.mem_toFinset, serves.mem_iff]

theorem Serves.left_le (serves : Serves items weight order) (positive : 0 < total items weight) :
    left items weight whole ≤ order.length := by
  rw [← serves.card]
  have fewer : #{i ∈ items | rest items weight whole i ≠ 0} ≤ #{i ∈ items | weight i ≠ 0} :=
    card_le_card fun i found => by
      rw [mem_filter] at found ⊢
      exact ⟨found.1, weight_of_rest found.2⟩
  rcases @left_lt ι items weight whole positive with none_ | less
  · omega
  · omega

theorem Serves.sum_part (serves : Serves items weight order) (positive : 0 < total items weight) :
    ∑ i ∈ items, part items weight whole order i = whole := by
  have count : ∑ i ∈ items, (if i ∈ chosen items weight whole order then 1 else 0) = left items weight whole := by
    rw [sum_ite, sum_const_zero, add_zero, ← card_eq_sum_ones]
    have same : {i ∈ items | i ∈ chosen items weight whole order} = (chosen items weight whole order).toFinset := by
      ext i
      rw [mem_filter, List.mem_toFinset]
      exact ⟨And.right, fun member => ⟨((serves.mem_iff i).mp (mem_of_chosen member)).1, member⟩⟩
    rw [same, List.toFinset_card_of_nodup serves.chosen_nodup, chosen, List.length_take,
      min_eq_left (serves.left_le positive)]
  have less := @shares_le ι items weight whole positive
  simp only [part]
  rw [sum_add_distrib, count, left]
  omega

theorem Serves.part_zero (serves : Serves items weight order) (none_ : weight i = 0) : part items weight whole order i = 0 := by
  rw [part, share, none_, mul_zero, Nat.zero_div, if_neg fun member => ((serves.mem_iff i).mp (mem_of_chosen member)).2 none_]

/-- At most one away, and less than that where nothing was topped up without a rest. -/
theorem part_near (positive : 0 < total items weight) : |(part items weight whole order i : ℚ) - exact items weight whole i| ≤ 1 ∧
    ((i ∈ chosen items weight whole order → rest items weight whole i ≠ 0) →
      |(part items weight whole order i : ℚ) - exact items weight whole i| < 1) := by
  have low : (0 : ℚ) ≤ (rest items weight whole i : ℚ) / total items weight := by positivity
  have high := @rest_lt ι items weight whole i positive
  rw [exact_eq positive, part]
  split
  · next member =>
    push_cast
    refine ⟨abs_le.mpr ⟨by linarith, by linarith⟩, fun some_ => abs_lt.mpr ⟨by linarith, ?_⟩⟩
    have strictly : (0 : ℚ) < (rest items weight whole i : ℚ) / total items weight :=
      div_pos (by exact_mod_cast Nat.pos_of_ne_zero (some_ member)) (by exact_mod_cast positive)
    linarith
  · push_cast
    exact ⟨abs_le.mpr ⟨by linarith, by linarith⟩, fun _ => abs_lt.mpr ⟨by linarith, by linarith⟩⟩

theorem Serves.rest_of_chosen (serves : Serves items weight order) (positive : 0 < total items weight)
    (sorted : order.Pairwise fun i j => rest items weight whole j ≤ rest items weight whole i)
    (member : i ∈ chosen items weight whole order) : rest items weight whole i ≠ 0 := by
  intro none_
  -- everything with a rest would stand before the item, and that is more than was left
  have inside : {j ∈ items | rest items weight whole j ≠ 0} ⊆ (chosen items weight whole order).toFinset.erase i := by
    intro j found
    rw [mem_filter] at found
    rw [mem_erase, List.mem_toFinset]
    refine ⟨?_, ?_⟩
    · rintro rfl
      exact found.2 none_
    · by_contra apart
      have less := chosen_before sorted member ((serves.mem_iff j).mpr ⟨found.1, weight_of_rest found.2⟩) apart
      rw [none_] at less
      exact found.2 (Nat.le_zero.mp less)
  have few := card_le_card inside
  rw [card_erase_of_mem (List.mem_toFinset.mpr member),
    List.toFinset_card_of_nodup serves.chosen_nodup, chosen, List.length_take] at few
  have some_ : 0 < left items weight whole := by
    by_contra none_
    rw [not_lt, Nat.le_zero] at none_
    rw [chosen, none_, List.take_zero] at member
    cases member
  rcases @left_lt ι items weight whole positive with none_ | less
  · omega
  · omega

theorem part_scaled (positive : 0 < c) : part items (fun i => c * weight i) whole order i = part items weight whole order i := by
  have same : left items (fun i => c * weight i) whole = left items weight whole := by
    unfold left
    simp only [share_scaled positive]
  rw [part, part, chosen, chosen, same, share_scaled positive]

end Arki.Apportion
