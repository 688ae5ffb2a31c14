import Mathlib.Data.List.Sort

/-! Rows of one table as a list, with the conditional statements of a query language. -/

set_option autoImplicit false

namespace Arki.Table

variable {Row Key : Type}

/-- `UPDATE … SET … WHERE`: a row that matches is replaced in place. -/
def update (rows : List Row) (matches_ : Row → Bool) (set : Row → Row) : List Row :=
  rows.map fun row => if matches_ row then set row else row

/-- `DELETE … WHERE`. -/
def delete (rows : List Row) (matches_ : Row → Bool) : List Row :=
  rows.filter fun row => !matches_ row

variable {rows : List Row} {matches_ : Row → Bool}

theorem mem_update {set : Row → Row} {row : Row} :
    row ∈ update rows matches_ set ↔
      (∃ old ∈ rows, matches_ old = true ∧ row = set old) ∨ (row ∈ rows ∧ matches_ row = false) := by
  simp only [update, List.mem_map]
  constructor
  · rintro ⟨old, member, rfl⟩
    cases hit : matches_ old with
    | true => exact Or.inl ⟨old, member, hit, by simp⟩
    | false => exact Or.inr ⟨by simpa using member, by simpa using hit⟩
  · rintro (⟨old, member, hit, rfl⟩ | ⟨member, miss⟩)
    · exact ⟨old, member, by simp [hit]⟩
    · exact ⟨row, member, by simp [miss]⟩

theorem mem_delete {row : Row} :
    row ∈ delete rows matches_ ↔ row ∈ rows ∧ matches_ row = false := by
  simp [delete]

theorem update_eq_self (set : Row → Row)
    (none_ : ∀ row ∈ rows, matches_ row = false) : update rows matches_ set = rows := by
  simp only [update]
  conv_rhs => rw [← List.map_id rows]
  exact List.map_congr_left fun row member => by simp [none_ row member]

theorem delete_eq_self
    (none_ : ∀ row ∈ rows, matches_ row = false) : delete rows matches_ = rows := by
  simp only [delete]
  exact List.filter_eq_self.mpr fun row member => by simp [none_ row member]

/-- A column that the assignment leaves alone has the same values after the statement. -/
theorem map_update {set : Row → Row} (column : Row → Key)
    (kept : ∀ row, column (set row) = column row) (rows : List Row) :
    (update rows matches_ set).map column = rows.map column := by
  simp only [update, List.map_map]
  refine List.map_congr_left fun row _ => ?_
  simp only [Function.comp_apply]
  split
  · exact kept row
  · rfl

/-- Selecting by a condition the assignment does not touch commutes with the assignment. -/
theorem filter_update {set : Row → Row} (wanted : Row → Bool)
    (kept : ∀ row, matches_ row = true → wanted (set row) = wanted row) (rows : List Row) :
    (update rows matches_ set).filter wanted = update (rows.filter wanted) matches_ set := by
  induction rows with
  | nil => rfl
  | cons row rest ih =>
    simp only [update, List.map_cons, List.filter_cons] at ih ⊢
    cases hit : matches_ row with
    | false => cases keep : wanted row <;> simp [keep, hit, ih]
    | true => cases keep : wanted row <;> simp [kept row hit, keep, hit, ih]

theorem delete_sublist (rows : List Row) (matches_ : Row → Bool) : (delete rows matches_).Sublist rows :=
  List.filter_sublist

theorem eq_of_key {key : Row → Key} (unique : (rows.map key).Nodup) {first second : Row}
    (left : first ∈ rows) (right : second ∈ rows) (same : key first = key second) : first = second :=
  List.inj_on_of_nodup_map unique left right same

theorem nodup_delete {key : Row → Key}
    (unique : (rows.map key).Nodup) : ((delete rows matches_).map key).Nodup :=
  unique.sublist ((delete_sublist rows matches_).map key)

theorem nodup_append_row {key : Row → Key} {row : Row}
    (unique : (rows.map key).Nodup) (fresh : key row ∉ rows.map key) :
    ((rows ++ [row]).map key).Nodup := by
  rw [List.map_append, List.map_singleton]
  exact List.nodup_append.mpr ⟨unique, by simp, fun left member right at_end => by
    rw [List.mem_singleton] at at_end
    subst at_end
    intro same
    exact fresh (same ▸ member)⟩

end Arki.Table
