import Mathlib.Data.List.TakeWhile

/-! Splitting a list: at runs of separators, and between neighbours.

A split between neighbours may look ahead. Splitting the parts of one split again is one split, where nothing that the second one looks at
was cut off by the first.
-/

set_option autoImplicit false

namespace Arki.Splitting

variable {α : Type}

def consHead (item : α) : List (List α) → List (List α)
  | [] => [[item]]
  | part :: parts => (item :: part) :: parts

/-- The parts between runs of separators, with an empty part before a run at the start and after one at the end. -/
def splitRuns (separates : α → Bool) (items : List α) : List (List α) :=
  match after : items.dropWhile fun item => !separates item with
  | [] => [items.takeWhile fun item => !separates item]
  | _ :: rest => (items.takeWhile fun item => !separates item) :: splitRuns separates (rest.dropWhile separates)
termination_by items.length
decreasing_by
  have short := List.length_dropWhile_le (fun item => !separates item) items
  have shorter := List.length_dropWhile_le separates rest
  rw [after, List.length_cons] at short
  omega

def splitBetween (cut : α → List α → Bool) : List α → List (List α)
  | [] => [[]]
  | [item] => [[item]]
  | item :: next :: rest =>
    if cut item (next :: rest) then [item] :: splitBetween cut (next :: rest) else consHead item (splitBetween cut (next :: rest))

section Pieces

variable (keep : α → Bool) (cut : α → List α → Bool)

def joins (item : α) (rest : List α) : Bool := rest.head?.any keep && !cut item rest

def pieces : List α → List (List α)
  | [] => []
  | item :: rest =>
    if keep item then if joins keep cut item rest then consHead item (pieces rest) else [item] :: pieces rest else pieces rest

end Pieces

section Facts

variable {keep : α → Bool} {cut again : α → List α → Bool} {item next : α} {items rest : List α}

theorem consHead_append (item : α) {parts : List (List α)} (filled : parts ≠ []) (more : List (List α)) :
    consHead item (parts ++ more) = consHead item parts ++ more := by
  cases parts with
  | nil => exact absurd rfl filled
  | cons part parts => rfl

theorem flatten_consHead (item : α) (parts : List (List α)) : (consHead item parts).flatten = item :: parts.flatten := by
  cases parts <;> rfl

theorem splitBetween_ne_nil (cut : α → List α → Bool) (items : List α) : splitBetween cut items ≠ [] := by
  fun_induction splitBetween cut items with
  | case1 => simp
  | case2 => simp
  | case3 => simp
  | case4 item next rest _ ih => cases split_ : splitBetween cut (next :: rest) <;> simp [consHead]

theorem flatten_pieces (keep : α → Bool) (cut : α → List α → Bool) (items : List α) : (pieces keep cut items).flatten = items.filter keep := by
  induction items with
  | nil => rfl
  | cons item rest ih =>
    rw [pieces]
    split
    next kept =>
      rw [List.filter_cons_of_pos kept, ← ih]
      split
      · exact flatten_consHead item _
      · rfl
    next dropped => rw [List.filter_cons_of_neg dropped, ih]

theorem pieces_filled (keep : α → Bool) (cut : α → List α → Bool) (items : List α) : ∀ piece ∈ pieces keep cut items, piece ≠ [] := by
  induction items with
  | nil => intro _ inside; cases inside
  | cons item rest ih =>
    rw [pieces]
    split
    · split
      · cases found : pieces keep cut rest with
        | nil => simp [consHead]
        | cons part parts =>
          rw [found] at ih
          intro piece inside
          rcases List.mem_cons.mp inside with rfl | inside
          · simp
          · exact ih piece (List.mem_cons_of_mem _ inside)
      · intro piece inside
        rcases List.mem_cons.mp inside with rfl | inside
        · simp
        · exact ih piece inside
    · exact ih

/-- The first piece begins with the first kept item and goes on as long as its items stay together. -/
theorem pieces_head (kept : keep item = true) (cut : α → List α → Bool) (rest : List α) :
    ∃ more parts, pieces keep cut (item :: rest) = (item :: more) :: parts ∧
      more.head? = if joins keep cut item rest then rest.head? else none := by
  induction rest generalizing item with
  | nil => exact ⟨[], [], by simp [pieces, kept, joins], by simp [joins]⟩
  | cons next rest ih =>
    rw [pieces, if_pos kept]
    split
    next stays =>
      have keptNext : keep next = true := by simpa [joins] using (Bool.and_eq_true _ _ ▸ stays : _ ∧ _).1
      obtain ⟨more, parts, is, -⟩ := ih keptNext
      exact ⟨next :: more, parts, by rw [is]; rfl, rfl⟩
    next leaves => exact ⟨[], pieces keep cut (next :: rest), rfl, rfl⟩

/-- The second split looks at two items ahead, and nothing past the end of a piece makes it cut. -/
structure Sees (keep : α → Bool) (cut again : α → List α → Bool) : Prop where
  near : ∀ item next after rest, again item (next :: after :: rest) = again item [next, after]
  past : ∀ item next after rest, joins keep cut next (after :: rest) = false → again item [next, after] = again item [next]

theorem Sees.again_eq (sees : Sees keep cut again) (item : α) {more : List α} (is : more.head? = if joins keep cut next rest then rest.head? else none) :
    again item (next :: more) = again item (next :: rest) := by
  cases rest with
  | nil =>
    have none : more = [] := List.head?_eq_none_iff.mp (by rw [is]; split <;> rfl)
    rw [none]
  | cons after rest =>
    rw [sees.near]
    split at is
    · obtain ⟨tail, rfl⟩ := List.head?_eq_some_iff.mp is
      rw [sees.near]
    next leaves =>
      rw [List.head?_eq_none_iff.mp is, sees.past item next after rest (Bool.eq_false_iff.mpr leaves)]

theorem flatMap_splitBetween (sees : Sees keep cut again) (items : List α) :
    (pieces keep cut items).flatMap (splitBetween again) = pieces keep (fun item rest => cut item rest || again item rest) items := by
  induction items with
  | nil => rfl
  | cons item rest ih =>
    rw [pieces, pieces]
    split
    next kept =>
      cases rest with
      | nil => rfl
      | cons next rest =>
        by_cases stays : joins keep cut item (next :: rest) = true
        · have both : keep next = true ∧ cut item (next :: rest) = false := by simpa [joins] using stays
          obtain ⟨more, parts, is, head⟩ := pieces_head both.1 cut rest
          rw [is, List.flatMap_cons] at ih
          rw [if_pos stays, is, consHead, List.flatMap_cons, splitBetween, sees.again_eq item head, ← ih]
          cases cuts : again item (next :: rest) with
          | true => simp [joins, both, cuts]
          | false =>
            simp only [joins, both, cuts, Bool.false_eq_true, if_false, Bool.or_self, Bool.not_false, Bool.and_true, List.head?_cons,
              Option.any_some, if_true]
            exact (consHead_append item (splitBetween_ne_nil again _) _).symm
        · have leaves : joins keep (fun item rest => cut item rest || again item rest) item (next :: rest) = false := by
            simp only [joins, Bool.and_eq_true, Bool.not_eq_true', not_and, List.head?_cons, Option.any_some, Bool.not_eq_false] at stays
            cases keptNext : keep next with
            | false => simp [joins, keptNext]
            | true => simp [joins, stays keptNext]
          rw [if_neg stays, leaves, List.flatMap_cons, ih]
          rfl
    next dropped => exact ih

theorem joins_run (keep : α → Bool) (item : α) (rest : List α) : joins keep (fun _ _ => false) item rest = rest.head?.any keep := by
  simp [joins]

theorem pieces_append (kept : ∀ item ∈ items, keep item = true) (apart : rest.head?.any keep = false) :
    pieces keep (fun _ _ => false) (items ++ rest) = (if items = [] then [] else [items]) ++ pieces keep (fun _ _ => false) rest := by
  induction items with
  | nil => rfl
  | cons item items ih =>
    have here := ih fun other inside => kept other (List.mem_cons_of_mem _ inside)
    rw [List.cons_append, pieces, if_pos (kept item List.mem_cons_self), joins_run, here]
    cases items with
    | nil => simp [apart]
    | cons next items => simp [kept next (by simp), consHead]

theorem pieces_dropWhile (keep : α → Bool) (items : List α) :
    pieces keep (fun _ _ => false) (items.dropWhile fun item => !keep item) = pieces keep (fun _ _ => false) items := by
  induction items with
  | nil => rfl
  | cons item rest ih =>
    cases kept : keep item with
    | true => rw [List.dropWhile_cons_of_neg (by simp [kept])]
    | false => rw [List.dropWhile_cons_of_pos (by simp [kept]), ih, pieces, kept]; rfl

/-- The parts between runs of separators that are not empty are the runs of the others. -/
theorem splitRuns_filled (keep : α → Bool) (items : List α) :
    (splitRuns (fun item => !keep item) items).filter (fun part => part ≠ []) = pieces keep (fun _ _ => false) items := by
  have double : (fun item => !!keep item) = keep := funext fun item => Bool.not_not _
  fun_induction splitRuns (fun item => !keep item) items with
  | case1 items none =>
    rw [double] at none ⊢
    have whole := List.takeWhile_append_dropWhile (p := keep) (l := items)
    rw [none, List.append_nil] at whole
    have kept : ∀ item ∈ items, keep item = true := fun item inside => List.mem_takeWhile_imp (whole.symm ▸ inside)
    have all := @pieces_append _ keep items [] kept rfl
    rw [List.append_nil] at all
    rw [whole, all]
    by_cases empty : items = [] <;> simp [empty, pieces]
  | case2 items separator rest after ih =>
    rw [double] at after ⊢
    have whole := List.takeWhile_append_dropWhile (p := keep) (l := items)
    have dropped : keep separator = false := by
      have first := List.head?_dropWhile_not keep items
      rw [after] at first
      simpa using first
    rw [after] at whole
    have kept : ∀ item ∈ items.takeWhile keep, keep item = true := fun item inside => List.mem_takeWhile_imp inside
    have all := @pieces_append _ keep _ (separator :: rest) kept (by simp [dropped])
    rw [whole, pieces, dropped, if_neg Bool.false_ne_true, ← pieces_dropWhile keep rest, ← ih] at all
    rw [all]
    by_cases empty : items.takeWhile keep = [] <;> simp [empty]

end Facts

end Arki.Splitting
