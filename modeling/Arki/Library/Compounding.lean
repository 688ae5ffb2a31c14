import Mathlib.Algebra.BigOperators.Field
import Mathlib.Algebra.Field.GeomSum
import Mathlib.Algebra.Order.BigOperators.Ring.Finset
import Mathlib.Algebra.Order.Field.Basic
import Mathlib.Tactic.FieldSimp
import Mathlib.Tactic.LinearCombination

/-! Compounding: a balance that grows period by period and takes a level payment, its closed form, and what flows are worth today. -/

set_option autoImplicit false

namespace Arki.Compounding

open Finset

variable {K : Type} [Field K] {r level start x : K} {n : ℕ}

/-- The balance after some periods. A payment falls at the end of its period, or at its beginning and grows with it. -/
def balance (begins : Bool) (r level start : K) : ℕ → K
  | 0 => start
  | n + 1 =>
    if begins then (balance begins r level start n + level) * (1 + r) else balance begins r level start n * (1 + r) + level

def due (begins : Bool) (r : K) : K := if begins then 1 + r else 1

def discounted (r : K) : List K → K
  | [] => 0
  | flow :: rest => (flow + discounted r rest) / (1 + r)

def worth (begins : Bool) (r level amount : K) (n : ℕ) : K :=
  amount / (1 + r) ^ n + ∑ k ∈ range n, level / (1 + r) ^ (if begins then k else k + 1)

def annuity (r : K) (n : ℕ) : K := ∑ k ∈ range n, (1 + r) ^ k

theorem annuity_succ : annuity r (n + 1) = annuity r n * (1 + r) + 1 := by
  rw [annuity, sum_range_succ', annuity, sum_mul, pow_zero]
  simp only [pow_succ]

theorem annuity_eq (some_ : r ≠ 0) : ((1 + r) ^ n - 1) / r = annuity r n := by
  have apart : 1 + r ≠ 1 := by simpa using some_
  rw [annuity, geom_sum_eq apart, add_sub_cancel_left]

theorem annuity_zero (n : ℕ) : annuity (0 : K) n = n := by
  simp [annuity]

theorem balance_eq (begins : Bool) : balance begins r level start n = start * (1 + r) ^ n + due begins r * annuity r n * level := by
  induction n with
  | zero => simp [balance, annuity]
  | succ n ih =>
    cases begins with
    | false =>
      rw [balance, if_neg (by decide), ih, annuity_succ, due, if_neg (by decide)]
      ring
    | true =>
      rw [balance, if_pos rfl, ih, annuity_succ, due, if_pos rfl]
      ring

theorem horner_eq (grows : 1 + r ≠ 0) (flows : List K) : ∀ sofar : K,
    flows.foldl (fun sum flow => sum * (1 + r) + flow) sofar = (sofar + discounted r flows) * (1 + r) ^ flows.length := by
  induction flows with
  | nil =>
    intro sofar
    rw [List.foldl_nil, discounted, List.length_nil, pow_zero, mul_one, add_zero]
  | cons flow rest ih =>
    intro sofar
    rw [List.foldl_cons, ih, discounted, List.length_cons, pow_succ]
    field_simp
    ring

variable [LinearOrder K] [IsStrictOrderedRing K]

theorem annuity_pos (grows : 0 < 1 + r) (some_ : 0 < n) : 0 < annuity r n :=
  sum_pos (fun k _ => pow_pos grows k) ⟨0, mem_range.mpr some_⟩

theorem due_pos (begins : Bool) (grows : 0 < 1 + r) : 0 < due begins r := by
  cases begins with
  | false => exact one_pos
  | true => exact grows

theorem balance_zero (begins : Bool) (grows : 0 < 1 + r) (some_ : 0 < n) :
    balance begins r (-level) start n = 0 ↔ level = start * (1 + r) ^ n / (due begins r * annuity r n) := by
  have apart : due begins r * annuity r n ≠ 0 := (mul_pos (due_pos begins grows) (annuity_pos grows some_)).ne'
  rw [balance_eq, eq_div_iff apart]
  constructor
  · intro none_
    linear_combination -none_
  · intro same
    linear_combination -same

theorem worth_eq (begins : Bool) (grows : 0 < 1 + r) (amount : K) :
    worth begins r level amount n = (amount + due begins r * annuity r n * level) / (1 + r) ^ n := by
  have apart := grows.ne'
  rw [worth, add_div]
  congr 1
  induction n with
  | zero => simp [annuity]
  | succ n ih =>
    rw [sum_range_succ, ih, annuity_succ, due]
    cases begins with
    | false =>
      rw [if_neg (by decide), if_neg (by decide)]
      field_simp
      ring
    | true =>
      rw [if_pos rfl, if_pos rfl]
      field_simp
      ring

theorem balance_worth (begins : Bool) (grows : 0 < 1 + r) (amount : K) :
    balance begins r 0 (worth begins r level amount n) n = amount + balance begins r level 0 n := by
  rw [balance_eq, balance_eq, worth_eq begins grows, mul_zero, add_zero, zero_mul, zero_add,
    div_mul_cancel₀ _ (pow_pos grows n).ne']

end Arki.Compounding
