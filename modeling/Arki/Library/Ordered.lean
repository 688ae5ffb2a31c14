import Mathlib.Data.List.Sort

/-! Rows read in the order of a key, and the windows of that order that a reader scans.

The rows lie in any order and every reading sorts them. Windows are half open:
`between rows a b` has the keys over `a` up to `b`, so that windows which meet
join without a row lost or doubled.
-/

set_option autoImplicit false

namespace Arki.Ordered

variable {Row Key : Type}

theorem distinct_filter {key : Row → Key} {rows : List Row} (distinct : (rows.map key).Nodup) (keep : Row → Bool) :
    ((rows.filter keep).map key).Nodup := distinct.sublist (List.filter_sublist.map key)

variable [LinearOrder Key] (key : Row → Key)

/-- `order by key asc`. -/
def inOrder (rows : List Row) : List Row := rows.insertionSort fun left right => key left ≤ key right

/-- The rows up to `last`, in order. -/
def upto (rows : List Row) (last : Key) : List Row := inOrder key (rows.filter fun row => key row ≤ last)

/-- The rows after `first` up to `last`, in order. -/
def between (rows : List Row) (first last : Key) : List Row :=
  inOrder key (rows.filter fun row => first < key row ∧ key row ≤ last)

def Increasing (rows : List Row) : Prop := rows.Pairwise fun left right => key left < key right

variable {key} {rows more : List Row} {first middle last : Key} {row : Row}

theorem inOrder_perm (rows : List Row) : (inOrder key rows).Perm rows := List.perm_insertionSort _ _

theorem mem_inOrder : row ∈ inOrder key rows ↔ row ∈ rows := (inOrder_perm rows).mem_iff

theorem mem_upto : row ∈ upto key rows last ↔ row ∈ rows ∧ key row ≤ last := by
  simp [upto, mem_inOrder]

theorem mem_between : row ∈ between key rows first last ↔ row ∈ rows ∧ first < key row ∧ key row ≤ last := by
  simp [between, mem_inOrder]

theorem inOrder_sorted (rows : List Row) : (inOrder key rows).Pairwise fun left right => key left ≤ key right := by
  have total : Std.Total fun left right : Row => key left ≤ key right := ⟨fun _ _ => le_total _ _⟩
  have transitive : IsTrans Row fun left right => key left ≤ key right := ⟨fun _ _ _ => le_trans⟩
  exact List.pairwise_insertionSort _ rows

theorem inOrder_head_le {other : Row} (first : (inOrder key rows).head? = some row) (member : other ∈ rows) :
    key row ≤ key other := by
  have listed : other ∈ inOrder key rows := mem_inOrder.mpr member
  have sorted : (inOrder key rows).Pairwise fun left right => key left ≤ key right := inOrder_sorted rows
  cases shape : inOrder key rows with
  | nil =>
    rw [shape] at first
    cases first
  | cons least rest =>
    rw [shape] at first listed sorted
    cases first
    rcases List.mem_cons.mp listed with rfl | later
    · exact le_rfl
    · exact (List.pairwise_cons.mp sorted).1 other later

theorem inOrder_increasing (distinct : (rows.map key).Nodup) : Increasing key (inOrder key rows) := by
  have sorted : (inOrder key rows).Pairwise fun left right => key left ≤ key right := inOrder_sorted rows
  have apart : (inOrder key rows).Pairwise fun left right => key left ≠ key right := by
    apply List.pairwise_map.mp
    exact ((inOrder_perm rows).map key).nodup_iff.mpr distinct
  exact sorted.imp₂ (fun _ _ le ne => lt_of_le_of_ne le ne) apart

theorem Increasing.eq_inOrder {arranged : List Row} (increasing : Increasing key arranged)
    (same : arranged.Perm rows) : arranged = inOrder key rows := by
  have distinct : (rows.map key).Nodup := by
    apply (same.map key).nodup_iff.mp
    exact List.pairwise_map.mpr (increasing.imp fun lt => ne_of_lt lt)
  refine List.Perm.eq_of_pairwise ?_ increasing (inOrder_increasing distinct) (same.trans (inOrder_perm rows).symm)
  intro left right _ _ less more
  exact absurd (less.trans more) (lt_irrefl _)

theorem Increasing.filter (increasing : Increasing key rows) (keep : Row → Bool) :
    Increasing key (rows.filter keep) := List.Pairwise.sublist List.filter_sublist increasing

theorem filter_inOrder (distinct : (rows.map key).Nodup) (keep : Row → Bool) :
    (inOrder key rows).filter keep = inOrder key (rows.filter keep) :=
  ((inOrder_increasing distinct).filter keep).eq_inOrder ((inOrder_perm rows).filter keep)

theorem upto_append_between (distinct : (rows.map key).Nodup) (le : first ≤ last) :
    upto key rows last = upto key rows first ++ between key rows first last := by
  symm
  apply Increasing.eq_inOrder
  · refine List.pairwise_append.mpr ⟨?_, ?_, ?_⟩
    · exact inOrder_increasing (distinct_filter distinct _)
    · exact inOrder_increasing (distinct_filter distinct _)
    · intro left below right above
      exact lt_of_le_of_lt (mem_upto.mp below).2 (mem_between.mp above).2.1
  · have split := List.filter_append_perm (fun row => decide (key row ≤ first))
      (rows.filter fun row => key row ≤ last)
    simp only [List.filter_filter] at split
    refine List.Perm.trans (List.Perm.append (inOrder_perm _) (inOrder_perm _)) ?_
    refine List.Perm.trans (List.Perm.of_eq ?_) split
    congr 1
    · apply List.filter_congr
      intro row _
      by_cases below : key row ≤ first
      · simp [below, below.trans le]
      · simp [below]
    · apply List.filter_congr
      intro row _
      by_cases below : key row ≤ first
      · simp [below, not_lt.mpr below]
      · simp [below, not_le.mp below]

theorem upto_append (after : ∀ row ∈ more, last < key row) : upto key (rows ++ more) last = upto key rows last := by
  have none_ : more.filter (fun row => key row ≤ last) = [] := by
    apply List.filter_eq_nil_iff.mpr
    intro row member
    simpa using after row member
  simp [upto, none_]

theorem between_append (after : ∀ row ∈ more, last < key row) :
    between key (rows ++ more) first last = between key rows first last := by
  have none_ : more.filter (fun row => first < key row ∧ key row ≤ last) = [] := by
    apply List.filter_eq_nil_iff.mpr
    intro row member
    simp [not_le.mpr (after row member)]
  simp only [between, List.filter_append, none_, List.append_nil]

theorem Increasing.take_eq_filter (increasing : Increasing key rows) {count : Nat}
    (ends : (rows.take count).getLast? = some row) :
    rows.take count = rows.filter fun other => key other ≤ key row := by
  have whole : rows.take count ++ rows.drop count = rows := List.take_append_drop count rows
  obtain ⟨ahead, shape⟩ := List.getLast?_eq_some_iff.mp ends
  have parts := increasing
  rw [← whole] at parts
  obtain ⟨inside, _, across⟩ := List.pairwise_append.mp parts
  have low : (rows.take count).filter (fun other => key other ≤ key row) = rows.take count := by
    apply List.filter_eq_self.mpr
    intro other member
    rw [shape] at inside member
    rcases List.mem_append.mp member with before | final
    · exact decide_eq_true (le_of_lt ((List.pairwise_append.mp inside).2.2 other before row (by simp)))
    · simp [List.mem_singleton.mp final]
  have high : (rows.drop count).filter (fun other => key other ≤ key row) = [] := by
    apply List.filter_eq_nil_iff.mpr
    intro other member
    simpa using across row (by simp [shape]) other member
  conv_rhs => rw [← whole, List.filter_append, low, high, List.append_nil]

theorem take_between (distinct : (rows.map key).Nodup) {count : Nat}
    (ends : ((between key rows first last).take count).getLast? = some row) :
    (between key rows first last).take count = between key rows first (key row) := by
  have increasing : Increasing key (between key rows first last) :=
    inOrder_increasing (distinct_filter distinct _)
  have member : row ∈ between key rows first last :=
    List.mem_of_mem_take (List.mem_of_getLast? ends)
  have bound : key row ≤ last := (mem_between.mp member).2.2
  rw [increasing.take_eq_filter ends, between, filter_inOrder (distinct_filter distinct _), List.filter_filter, between]
  congr 1
  apply List.filter_congr
  intro other _
  by_cases below : key other ≤ key row
  · simp [below, below.trans bound]
  · simp [below]

theorem Increasing.filter_past (increasing : Increasing key rows) {at_ : Nat} (place : rows[at_]? = some row) :
    rows.filter (fun other => key row < key other) = rows.drop (at_ + 1) := by
  have split : rows = rows.take at_ ++ row :: rows.drop (at_ + 1) := by
    obtain ⟨inside, rfl⟩ := List.getElem?_eq_some_iff.mp place
    rw [List.getElem_cons_drop, List.take_append_drop]
  have parts := increasing
  rw [split] at parts
  obtain ⟨_, later, across⟩ := List.pairwise_append.mp parts
  have low : (rows.take at_).filter (fun other => key row < key other) = [] := by
    apply List.filter_eq_nil_iff.mpr
    intro other member
    simpa using (across other member row List.mem_cons_self).le
  have high : (rows.drop (at_ + 1)).filter (fun other => key row < key other) = rows.drop (at_ + 1) := by
    apply List.filter_eq_self.mpr
    intro other member
    exact decide_eq_true (List.rel_of_pairwise_cons later member)
  conv_lhs => rw [split]
  rw [List.filter_append, low, List.nil_append, List.filter_cons_of_neg (by simp), high]

end Arki.Ordered
