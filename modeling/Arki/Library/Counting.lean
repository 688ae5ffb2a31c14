import Mathlib.Data.Int.Interval
import Mathlib.Data.Nat.Count
import Mathlib.Tactic.Ring

/-! How many of the whole numbers in a range have a property, and which is the n-th of them on either side of a number. -/

set_option autoImplicit false

namespace Arki.Counting

section

variable (p : ℤ → Prop) [DecidablePred p]

def between (a b : ℤ) : ℕ := Nat.count (fun i : ℕ => p (a + i)) (b - a).toNat

theorem between_self (a : ℤ) : between p a a = 0 := by simp [between]

theorem between_add {a b c : ℤ} (first : a ≤ b) (second : b ≤ c) : between p a c = between p a b + between p b c := by
  obtain ⟨near, rfl⟩ := Int.le.dest first
  obtain ⟨far, rfl⟩ := Int.le.dest second
  unfold between
  rw [show (a + near + far - a).toNat = near + far by omega, show (a + near - a).toNat = near by omega,
    show (a + near + far - (a + near)).toNat = far by omega, Nat.count_add]
  simp only [Nat.cast_add, add_assoc]

theorem between_one (a : ℤ) : between p a (a + 1) = if p a then 1 else 0 := by
  rw [between, show (a + 1 - a).toNat = 0 + 1 by omega, Nat.count_succ]
  simp

theorem between_eq_card {a b : ℤ} {numbers : Finset ℤ} (is : ∀ x, x ∈ numbers ↔ (a ≤ x ∧ x < b) ∧ p x) : between p a b = numbers.card := by
  have image : ((Finset.range (b - a).toNat).filter fun i : ℕ => p (a + i)).image (fun i : ℕ => a + i) = numbers := by
    ext x
    simp only [Finset.mem_image, Finset.mem_filter, Finset.mem_range, is]
    constructor
    · rintro ⟨i, ⟨inside, holds⟩, rfl⟩
      exact ⟨by omega, holds⟩
    · rintro ⟨inside, holds⟩
      exact ⟨(x - a).toNat, ⟨by omega, by rwa [show a + ((x - a).toNat : ℤ) = x by omega]⟩, by omega⟩
  rw [between, Nat.count_eq_card_filter_range, ← image, Finset.card_image_of_injective]
  exact fun i j same => by simpa using same

theorem between_up (start : ℤ) (k : ℕ) : between p (start + 1) (start + 1 + k) = Nat.count (fun j : ℕ => p (start + 1 * (j + 1))) k := by
  induction k with
  | zero => simp [between]
  | succ k ih =>
    have step := between_add p (a := start + 1) (b := start + 1 + k) (c := start + 1 + k + 1) (by omega) (by omega)
    rw [Nat.cast_succ, ← add_assoc, step, ih, between_one, Nat.count_succ, show start + 1 + (k : ℤ) = start + 1 * (k + 1) by omega]

theorem between_down (start : ℤ) (k : ℕ) : between p (start - k) start = Nat.count (fun j : ℕ => p (start + -1 * (j + 1))) k := by
  induction k with
  | zero => simp [between]
  | succ k ih =>
    have step := between_add p (a := start - (k + 1 : ℕ)) (b := start - (k + 1 : ℕ) + 1) (c := start) (by omega) (by omega)
    rw [step, between_one, Nat.count_succ, show start - ((k + 1 : ℕ) : ℤ) + 1 = start - k by omega, ih, add_comm,
      show start - ((k + 1 : ℕ) : ℤ) = start + -1 * (k + 1) by omega]

/-- The n-th after `start` for a positive number, before it for a negative one, and `start` itself for zero. -/
def IsNth (start n result : ℤ) : Prop :=
  if 0 < n then (start < result ∧ p result) ∧ (between p (start + 1) (result + 1) : ℤ) = n
  else if n < 0 then (result < start ∧ p result) ∧ (between p result start : ℤ) = -n
  else result = start

instance (start n result : ℤ) : Decidable (IsNth p start n result) :=
  inferInstanceAs (Decidable (if 0 < n then (start < result ∧ p result) ∧ (between p (start + 1) (result + 1) : ℤ) = n
    else if n < 0 then (result < start ∧ p result) ∧ (between p result start : ℤ) = -n
    else result = start))

/-- The n-th lies at a distance at which it is one, behind all the others but one. -/
theorem isNth_iff {start n result : ℤ} (apart : n ≠ 0) : IsNth p start n result ↔
    ∃ k : ℕ, result = start + n.sign * (k + 1) ∧ p result ∧ Nat.count (fun j : ℕ => p (start + n.sign * (j + 1))) k + 1 = n.natAbs := by
  unfold IsNth
  rcases lt_or_gt_of_ne apart with negative | positive
  · rw [if_neg (by omega), if_pos negative, Int.sign_eq_neg_one_of_neg negative]
    constructor
    · rintro ⟨⟨before, holds⟩, count⟩
      obtain ⟨k, rfl⟩ : ∃ k : ℕ, result = start - (k + 1 : ℕ) := ⟨(start - result - 1).toNat, by omega⟩
      rw [between_down, Nat.count_succ, if_pos (by convert holds using 1; omega)] at count
      exact ⟨k, by omega, holds, by omega⟩
    · rintro ⟨k, rfl, holds, count⟩
      refine ⟨⟨by omega, holds⟩, ?_⟩
      rw [show start + -1 * ((k : ℤ) + 1) = start - (k + 1 : ℕ) by omega, between_down, Nat.count_succ, if_pos holds]
      omega
  · rw [if_pos positive, Int.sign_eq_one_of_pos positive]
    constructor
    · rintro ⟨⟨after, holds⟩, count⟩
      obtain ⟨k, rfl⟩ : ∃ k : ℕ, result = start + 1 * (k + 1) := ⟨(result - start - 1).toNat, by omega⟩
      rw [show start + 1 * ((k : ℤ) + 1) + 1 = start + 1 + (k + 1 : ℕ) by omega, between_up, Nat.count_succ, if_pos holds] at count
      exact ⟨k, rfl, holds, by omega⟩
    · rintro ⟨k, rfl, holds, count⟩
      refine ⟨⟨by omega, holds⟩, ?_⟩
      rw [show start + 1 * ((k : ℤ) + 1) + 1 = start + 1 + (k + 1 : ℕ) by omega, between_up, Nat.count_succ, if_pos holds]
      omega

theorem between_le (a b : ℤ) : (between p a b : ℤ) ≤ max (b - a) 0 := by
  have few := Nat.count_le (p := fun i : ℕ => p (a + i)) (n := (b - a).toNat)
  unfold between
  omega

variable {p} {start n m result last : ℤ}

theorem IsNth.near (nth : IsNth p start n result) : |n| ≤ |result - start| := by
  unfold IsNth at nth
  split at nth
  · have few := between_le p (start + 1) (result + 1)
    rw [abs_of_pos ‹_›, abs_of_pos (by omega)]
    omega
  split at nth
  · have few := between_le p result start
    rw [abs_of_neg ‹_›, abs_of_neg (by omega)]
    omega
  · rw [show n = 0 by omega, abs_zero]
    exact abs_nonneg _

theorem IsNth.add (first : IsNth p start n result) (second : IsNth p result m last) (oneSign : 0 ≤ n ∧ 0 ≤ m ∨ n ≤ 0 ∧ m ≤ 0) :
    IsNth p start (n + m) last := by
  unfold IsNth at *
  rcases oneSign with ⟨up, up_⟩ | ⟨down, down_⟩
  · rcases up.eq_or_lt with rfl | positive
    · simp only [lt_irrefl, if_false] at first
      rwa [zero_add, ← first]
    rcases up_.eq_or_lt with rfl | positive_
    · simp only [lt_irrefl, if_false] at second
      rwa [add_zero, second]
    rw [if_pos positive] at first
    rw [if_pos positive_] at second
    rw [if_pos (by omega)]
    refine ⟨⟨by omega, second.1.2⟩, ?_⟩
    rw [between_add p (b := result + 1) (by omega) (by omega)]
    omega
  · rcases down.eq_or_lt with rfl | negative
    · simp only [lt_irrefl, if_false] at first
      rwa [zero_add, ← first]
    rcases down_.eq_or_lt with rfl | negative_
    · simp only [lt_irrefl, if_false] at second
      rwa [add_zero, second]
    rw [if_neg (by omega), if_pos negative] at first
    rw [if_neg (by omega), if_pos negative_] at second
    rw [if_neg (by omega), if_pos (by omega)]
    refine ⟨⟨by omega, second.1.2⟩, ?_⟩
    rw [between_add p (b := result) (by omega) (by omega)]
    omega

end

end Arki.Counting
