import Mathlib.Algebra.Order.BigOperators.Group.List
import Mathlib.Algebra.Order.Ring.Nat

/-! Objects named by their place, and totals over them.

An object is never freed: a reference stays good. A total is a sum over all objects, so that a counter which the
program keeps beside its objects can be compared with them.
-/

set_option autoImplicit false

namespace Arki.Heap

variable {Obj : Type} {heap : List Obj} {ref other : Nat} {obj : Obj} {weigh : Obj → Nat}

def total (weigh : Obj → Nat) (heap : List Obj) : Nat := (heap.map weigh).sum

theorem total_push (heap : List Obj) (obj : Obj) : total weigh (heap ++ [obj]) = total weigh heap + weigh obj := by
  simp [total]

theorem total_modify (there : heap[ref]? = some obj) (change : Obj → Obj) :
    total weigh (heap.modify ref change) + weigh obj = total weigh heap + weigh (change obj) := by
  induction heap generalizing ref with
  | nil => simp at there
  | cons first rest ih =>
    cases ref with
    | zero =>
      cases there
      simp only [total, List.modify_zero_cons, List.map_cons, List.sum_cons]
      omega
    | succ place =>
      have found : rest[place]? = some obj := by simpa using there
      have rest_ := ih found
      simp only [total, List.modify_succ_cons, List.map_cons, List.sum_cons] at rest_ ⊢
      omega

theorem total_modify_same {change : Obj → Obj} (same : ∀ obj, heap[ref]? = some obj → weigh (change obj) = weigh obj) :
    total weigh (heap.modify ref change) = total weigh heap := by
  cases there : heap[ref]? with
  | none =>
    rw [List.modify_eq_self (by simpa using there)]
  | some obj =>
    have moved := @total_modify _ _ _ _ weigh there change
    rw [same obj there] at moved
    omega

theorem le_total (there : heap[ref]? = some obj) : weigh obj ≤ total weigh heap :=
  List.single_le_sum (fun _ _ => Nat.zero_le _) _ (List.mem_map_of_mem (List.mem_of_getElem? there))

theorem exists_of_total_pos (positive : 0 < total weigh heap) : ∃ (ref : Nat) (obj : Obj), heap[ref]? = some obj ∧ 0 < weigh obj := by
  induction heap with
  | nil => cases positive
  | cons first rest ih =>
    by_cases heavy : 0 < weigh first
    · exact ⟨0, first, rfl, heavy⟩
    · have restPositive : 0 < total weigh rest := by
        simp only [total, List.map_cons, List.sum_cons] at positive ⊢
        omega
      obtain ⟨ref, obj, there, isHeavy⟩ := ih restPositive
      exact ⟨ref + 1, obj, there, isHeavy⟩

theorem getElem?_modify_self (there : heap[ref]? = some obj) (change : Obj → Obj) :
    (heap.modify ref change)[ref]? = some (change obj) := by
  simp [there]

theorem getElem?_modify_other (apart : ref ≠ other) (change : Obj → Obj) : (heap.modify ref change)[other]? = heap[other]? := by
  simp [apart]

end Arki.Heap
