import Mathlib

/-! Cutting a list of items into pieces, with a scanner that decides before each item from what it has read.

An item has a width, and a piece is given by the offset it ends at. The first item never starts a second piece.
-/

set_option autoImplicit false

namespace Arki.Scanner

structure Machine (State Item : Type) where
  start : State
  breaks : State → Item → Bool
  after : State → Item → State
  width : Item → Nat

variable {State Item : Type}

namespace Machine

variable (machine : Machine State Item)

def widths (items : List Item) : Nat := (items.map machine.width).sum

def afterAll (state : State) (items : List Item) : State := items.foldl machine.after state

def cuts (state : State) (index : Nat) : List Item → List Nat
  | [] => []
  | item :: rest =>
    (if machine.breaks state item then [index] else []) ++ cuts (machine.after state item) (index + machine.width item) rest

def ends : List Item → List Nat
  | [] => []
  | first :: rest =>
    machine.cuts (machine.after machine.start first) (machine.width first) rest ++ [machine.widths (first :: rest)]

variable {machine} {state other : State} {index offset : Nat} {item first : Item} {items rest : List Item}

@[simp] theorem widths_cons : machine.widths (item :: rest) = machine.width item + machine.widths rest := List.sum_cons

theorem widths_append : machine.widths (items ++ rest) = machine.widths items + machine.widths rest := by
  rw [widths, List.map_append, List.sum_append]
  rfl

theorem cuts_append (state : State) (index : Nat) (items rest : List Item) :
    machine.cuts state index (items ++ rest) =
      machine.cuts state index items ++ machine.cuts (machine.afterAll state items) (index + machine.widths items) rest := by
  induction items generalizing state index with
  | nil => rfl
  | cons item items ih =>
    rw [List.cons_append, cuts, cuts, ih, List.append_assoc, widths_cons, Nat.add_assoc]
    rfl

theorem cuts_shift (state : State) (offset index : Nat) (items : List Item) :
    machine.cuts state (offset + index) items = (machine.cuts state index items).map (offset + ·) := by
  induction items generalizing state index with
  | nil => rfl
  | cons item items ih =>
    rw [cuts, cuts, List.map_append, Nat.add_assoc, ih]
    split <;> rfl

theorem mem_cuts (inside : offset ∈ machine.cuts state index items) :
    ∃ before item after, items = before ++ item :: after ∧ offset = index + machine.widths before ∧
      machine.breaks (machine.afterAll state before) item = true := by
  induction items generalizing state index with
  | nil => cases inside
  | cons item items ih =>
    rw [cuts, List.mem_append] at inside
    rcases inside with here | later
    · split at here
      next breaks =>
        exact ⟨[], item, items, rfl, List.mem_singleton.mp here, breaks⟩
      next => cases here
    · obtain ⟨before, next_, after, rfl, rfl, breaks⟩ := ih later
      exact ⟨item :: before, next_, after, rfl, by rw [widths_cons, Nat.add_assoc], breaks⟩

theorem le_of_mem_cuts (inside : offset ∈ machine.cuts state index items) : index ≤ offset := by
  obtain ⟨before, _, _, _, rfl, _⟩ := mem_cuts inside
  exact Nat.le_add_right _ _

/-- States that no items tell apart. -/
structure Bisimulation (machine : Machine State Item) (Alike : State → State → Prop) : Prop where
  breaks : ∀ {state other : State} (item : Item), Alike state other → machine.breaks state item = machine.breaks other item
  after : ∀ {state other : State} (item : Item), Alike state other → Alike (machine.after state item) (machine.after other item)

theorem Bisimulation.cuts {Alike : State → State → Prop} (bisimulation : Bisimulation machine Alike) (alike : Alike state other)
    (index : Nat) (items : List Item) : machine.cuts state index items = machine.cuts other index items := by
  induction items generalizing state other index with
  | nil => rfl
  | cons item items ih => rw [Machine.cuts, Machine.cuts, bisimulation.breaks item alike, ih (bisimulation.after item alike)]

/-- Where a piece ends and what was read before tells no item apart, the rest is cut as a list of its own. -/
theorem Bisimulation.ends_append {Alike : State → State → Prop} (bisimulation : Bisimulation machine Alike) (first item : Item)
    (items rest : List Item) (breaks : machine.breaks (machine.afterAll machine.start (first :: items)) item = true)
    (alike : Alike (machine.after (machine.afterAll machine.start (first :: items)) item) (machine.after machine.start item)) :
    machine.ends (first :: items ++ item :: rest) =
      machine.ends (first :: items) ++ (machine.ends (item :: rest)).map (machine.widths (first :: items) + ·) := by
  have whole : machine.width first + machine.widths items = machine.widths (first :: items) := widths_cons.symm
  rw [List.cons_append, ends, cuts_append, Machine.cuts, whole, ends, ends, List.map_append]
  change _ ++ ((if machine.breaks (machine.afterAll machine.start (first :: items)) item = true then _ else _) ++
    machine.cuts (machine.after (machine.afterAll machine.start (first :: items)) item) _ rest) ++ _ = _
  rw [if_pos breaks, bisimulation.cuts alike, cuts_shift, ← List.cons_append, widths_append]
  simp only [List.append_assoc, List.cons_append, List.nil_append, List.map_cons, List.map_nil]

section Positive

variable (positive : ∀ item, 0 < machine.width item)

include positive in
theorem cuts_increasing (state : State) (index : Nat) (items : List Item) :
    (machine.cuts state index items).Pairwise (· < ·) := by
  induction items generalizing state index with
  | nil => exact .nil
  | cons item items ih =>
    rw [cuts, List.pairwise_append]
    refine ⟨by split <;> simp, ih _ _, fun offset inside later isLater => ?_⟩
    have wide := positive item
    have bound := le_of_mem_cuts isLater
    split at inside
    next =>
      rw [List.mem_singleton.mp inside]
      omega
    next => cases inside

include positive in
theorem lt_of_mem_cuts (inside : offset ∈ machine.cuts state index items) : offset < index + machine.widths items := by
  obtain ⟨before, item, after, rfl, rfl, _⟩ := mem_cuts inside
  have wide := positive item
  rw [widths_append, widths_cons]
  omega

include positive in
/-- The ends increase from the first, which is after the start, to the last, which is the end of the list. -/
theorem ends_increasing (items : List Item) : (0 :: machine.ends items).Pairwise (· < ·) := by
  cases items with
  | nil => exact List.pairwise_singleton _ _
  | cons first rest =>
    have wide := positive first
    rw [ends, ← List.cons_append, List.pairwise_append, List.pairwise_cons, widths_cons]
    refine ⟨⟨fun offset inside => ?_, cuts_increasing positive _ _ _⟩, List.pairwise_singleton _ _, fun offset inside last isLast => ?_⟩
    · have bound := le_of_mem_cuts inside
      omega
    · rw [List.mem_singleton.mp isLast]
      rcases List.mem_cons.mp inside with rfl | inside
      · omega
      · exact lt_of_mem_cuts positive inside

include positive in
theorem breaks_of_mem_ends (inside : machine.widths (first :: items) ∈ machine.ends (first :: items ++ item :: rest)) :
    machine.breaks (machine.afterAll machine.start (first :: items)) item = true := by
  have wide := positive item
  rw [List.cons_append, ends, cuts_append, cuts, List.mem_append, List.mem_append, List.mem_append] at inside
  rcases inside with (before | here | later) | last
  · have bound := lt_of_mem_cuts positive before
    rw [widths_cons] at bound
    omega
  · by_cases breaks : machine.breaks (machine.afterAll machine.start (first :: items)) item = true
    · exact breaks
    · rw [if_neg (by exact breaks)] at here
      cases here
  · have bound := le_of_mem_cuts later
    rw [widths_cons] at bound
    omega
  · have same := List.mem_singleton.mp last
    rw [← List.cons_append, widths_append, @widths_cons _ _ machine item rest] at same
    omega

end Positive

theorem mem_ends (inside : offset ∈ machine.ends items) :
    ∃ before after, items = before ++ after ∧ before ≠ [] ∧ offset = machine.widths before := by
  cases items with
  | nil => cases inside
  | cons first rest =>
    rw [ends, List.mem_append] at inside
    rcases inside with cut | last
    · obtain ⟨before, item, after, rfl, rfl, _⟩ := mem_cuts cut
      exact ⟨first :: before, item :: after, rfl, by simp, widths_cons.symm⟩
    · exact ⟨first :: rest, [], by simp, by simp, List.mem_singleton.mp last⟩

end Machine

end Arki.Scanner
