import Mathlib.Data.List.Basic
import Mathlib.Data.List.Flatten

/-! A sequence written in batches: where each batch begins in the whole, and items numbered
through it without a hole.
-/

set_option autoImplicit false

namespace Arki.Batches

variable {Item : Type}

/-- Where batch `i` begins in the whole. -/
def offset (batches : List (List Item)) (i : Nat) : Nat := (batches.take i).flatten.length

section Offset

variable {batches : List (List Item)} {i j : Nat} {batch : List Item}

theorem flatten_take_succ (selected : batches[i]? = some batch) :
    (batches.take (i + 1)).flatten = (batches.take i).flatten ++ batch := by
  simp [List.take_add_one, selected]

theorem offset_succ (selected : batches[i]? = some batch) :
    offset batches (i + 1) = offset batches i + batch.length := by
  simp [offset, flatten_take_succ selected]

theorem offset_mono (batches : List (List Item)) (le : i ≤ j) : offset batches i ≤ offset batches j :=
  (List.take_sublist_take_left le).flatten.length_le

theorem offset_length (batches : List (List Item)) : offset batches batches.length = batches.flatten.length := by
  simp [offset]

theorem offset_lt (filled : ∀ batch ∈ batches, batch ≠ []) (selected : batches[i]? = some batch) (lt : i < j) :
    offset batches i < offset batches j := by
  have some_ : 0 < batch.length := List.length_pos_iff.mpr (filled batch (List.mem_of_getElem? selected))
  have step := offset_succ selected
  have rest := offset_mono batches (show i + 1 ≤ j by omega)
  omega

theorem offset_le_total (batches : List (List Item)) (i : Nat) : offset batches i ≤ batches.flatten.length :=
  (List.take_sublist i batches).flatten.length_le

theorem offset_append (batches more : List (List Item)) (le : i ≤ batches.length) :
    offset (batches ++ more) i = offset batches i := by
  simp [offset, List.take_append_of_le_length le]

theorem end_le_total (selected : batches[i]? = some batch) :
    offset batches i + batch.length ≤ batches.flatten.length :=
  offset_succ selected ▸ offset_le_total batches (i + 1)

theorem mem_flatten_take (selected : batches[i]? = some batch) (lt : i < j) {item : Item} (member : item ∈ batch) :
    item ∈ (batches.take j).flatten := by
  refine List.mem_flatten.mpr ⟨batch, ?_, member⟩
  refine List.mem_of_getElem? (i := i) ?_
  rwa [List.getElem?_take_of_lt lt]

end Offset

/-- The items carry the numbers after `base`, in order and without a hole. -/
def Numbered (number : Item → Nat) (base : Nat) (items : List Item) : Prop :=
  items.map number = List.range' (base + 1) items.length

section Numbered

variable {number : Item → Nat} {base : Nat} {items more : List Item}

theorem numbered_cons {item : Item} :
    Numbered number base (item :: items) ↔ number item = base + 1 ∧ Numbered number (base + 1) items := by
  simp [Numbered, List.range'_succ]

theorem numbered_append :
    Numbered number base (items ++ more) ↔ Numbered number base items ∧ Numbered number (base + items.length) more := by
  have split : List.range' (base + 1) (items ++ more).length =
      List.range' (base + 1) items.length ++ List.range' (base + items.length + 1) more.length := by
    rw [List.length_append, ← List.range'_append_1]
    congr 2
    omega
  simp only [Numbered, split, List.map_append]
  constructor
  · intro same
    exact List.append_inj same (by simp)
  · rintro ⟨first, second⟩
    rw [first, second]

theorem Numbered.bounds (numbered : Numbered number base items) {item : Item} (member : item ∈ items) :
    base < number item ∧ number item ≤ base + items.length := by
  have listed : number item ∈ List.range' (base + 1) items.length := numbered ▸ List.mem_map_of_mem member
  have := List.mem_range'_1.mp listed
  omega

theorem Numbered.last (numbered : Numbered number base items) {item : Item} (final : items.getLast? = some item) :
    number item = base + items.length := by
  have ends : (items.map number).getLast? = some (number item) := by simp [List.getLast?_map, final]
  rw [numbered] at ends
  have filled : items.length ≠ 0 := by
    intro empty
    simp [List.length_eq_zero_iff.mp empty] at final
  obtain ⟨n, size⟩ := Nat.exists_eq_succ_of_ne_zero filled
  rw [size, Nat.succ_eq_add_one, List.range'_concat] at ends
  simp only [List.getLast?_append, List.getLast?_singleton, Option.some_or, Option.some.injEq] at ends
  omega

theorem Numbered.batch {batches : List (List Item)} (numbered : Numbered number base batches.flatten) {i : Nat}
    {batch : List Item} (selected : batches[i]? = some batch) : Numbered number (base + offset batches i) batch := by
  have whole : batches.flatten = (batches.take i).flatten ++ (batch ++ (batches.drop (i + 1)).flatten) := by
    rw [← List.append_assoc, ← flatten_take_succ selected, ← List.flatten_append, List.take_append_drop]
  rw [whole] at numbered
  exact (numbered_append.mp (numbered_append.mp numbered).2).1

theorem Numbered.take {batches : List (List Item)} (numbered : Numbered number base batches.flatten) (i : Nat) :
    Numbered number base (batches.take i).flatten := by
  have whole : batches.flatten = (batches.take i).flatten ++ (batches.drop i).flatten := by
    rw [← List.flatten_append, List.take_append_drop]
  rw [whole] at numbered
  exact (numbered_append.mp numbered).1

theorem Numbered.top (numbered : Numbered number 0 items) : ((items.map number).max?).getD 0 = items.length := by
  cases size : items.length with
  | zero => simp [List.length_eq_zero_iff.mp size]
  | succ n =>
    have largest : (items.map number).max? = some (n + 1) := by
      rw [numbered, size, List.max?_eq_some_iff]
      refine ⟨List.mem_range'_1.mpr (by omega), fun other member => ?_⟩
      have := List.mem_range'_1.mp member
      omega
    simp [largest]

end Numbered

end Arki.Batches
