import Mathlib.Algebra.Order.BigOperators.Group.List
import Mathlib.Algebra.Order.Ring.Nat
import Mathlib.Data.List.AList

/-! Keys that vanish once the clock is past their expiry: one value, or fields with numbers. -/

set_option autoImplicit false

namespace Arki.Expiring

def gone (expiry : Option Nat) (now : Nat) : Bool :=
  match expiry with
  | some at_ => at_ < now
  | none => false

theorem gone_mono {expiry : Option Nat} {now later : Nat} (late : gone expiry now = true) (le : now ≤ later) : gone expiry later = true := by
  cases expiry with
  | none => cases late
  | some at_ =>
    simp only [gone, decide_eq_true_eq] at late ⊢
    omega

structure Cell (Value : Type) where
  value : Value
  expiry : Option Nat
  deriving DecidableEq

def Cell.seen {Value : Type} (now : Nat) : Option (Cell Value) → Option (Cell Value)
  | some cell => if gone cell.expiry now then none else some cell
  | none => none

theorem Cell.seen_some {Value : Type} {now : Nat} {key : Option (Cell Value)} {cell : Cell Value}
    (isSeen : Cell.seen now key = some cell) : key = some cell ∧ gone cell.expiry now = false := by
  cases key with
  | none => cases isSeen
  | some other =>
    simp only [Cell.seen] at isSeen
    by_cases late : gone other.expiry now = true
    · rw [if_pos late] at isSeen
      cases isSeen
    · rw [if_neg late] at isSeen
      cases isSeen
      exact ⟨rfl, by simpa using late⟩

theorem Cell.seen_seen {Value : Type} {now later : Nat} (key : Option (Cell Value)) (le : now ≤ later) :
    Cell.seen later (Cell.seen now key) = Cell.seen later key := by
  cases key with
  | none => rfl
  | some cell =>
    by_cases late : gone cell.expiry now = true
    · simp [Cell.seen, late, gone_mono late le]
    · simp [Cell.seen, late]

/-- A key that holds fields. Without a field it is missing, and has no expiry. -/
structure Fields (Name : Type) where
  entries : AList fun _ : Name => Nat
  expiry : Option Nat
  missing : entries.keys = [] → expiry = none

namespace Fields

variable {Name : Type}

def empty : Fields Name := ⟨∅, none, fun _ => rfl⟩

def isEmpty (fields : Fields Name) : Bool := fields.entries.keys.isEmpty

def seen (now : Nat) (fields : Fields Name) : Fields Name := if gone fields.expiry now then empty else fields

variable [DecidableEq Name] {fields : Fields Name} {name other : Name} {number : Nat}

def get (fields : Fields Name) (name : Name) : Option Nat := fields.entries.lookup name

def put (fields : Fields Name) (name : Name) (number : Nat) : Fields Name :=
  ⟨fields.entries.insert name number, fields.expiry, fun none_ => by
    rw [AList.keys_insert] at none_
    cases none_⟩

def remove (fields : Fields Name) (name : Name) : Fields Name :=
  if last : (fields.entries.erase name).keys = [] then empty
  else ⟨fields.entries.erase name, fields.expiry, fun none_ => absurd none_ last⟩

def expireAt (fields : Fields Name) (at_ : Nat) : Fields Name :=
  if none_ : fields.isEmpty = true then fields
  else ⟨fields.entries, some at_, fun missing => absurd (List.isEmpty_iff.mpr missing) none_⟩

def has (fields : Fields Name) (name : Name) : Prop := (fields.get name).isSome = true

omit [DecidableEq Name] in
theorem expiry_of_isEmpty (none_ : fields.isEmpty = true) : fields.expiry = none := fields.missing (List.isEmpty_iff.mp none_)

theorem has_iff : fields.has name ↔ name ∈ fields.entries.keys := by
  rw [has, get, AList.lookup_isSome, AList.mem_keys]

@[simp] theorem get_empty : (empty : Fields Name).get name = none := rfl

theorem isEmpty_iff : fields.isEmpty = true ↔ ∀ name, fields.get name = none := by
  rw [isEmpty, List.isEmpty_iff]
  constructor
  · intro none_ name
    rw [get, AList.lookup_eq_none, AList.mem_keys, none_]
    exact List.not_mem_nil
  · intro none_
    apply List.eq_nil_iff_forall_not_mem.mpr
    intro name inside
    rw [← AList.mem_keys, ← AList.lookup_isSome] at inside
    have missing := none_ name
    rw [get] at missing
    rw [missing] at inside
    cases inside

@[simp] theorem get_put_self : (fields.put name number).get name = some number := AList.lookup_insert _

theorem get_put_of_ne (apart : other ≠ name) : (fields.put name number).get other = fields.get other :=
  AList.lookup_insert_ne apart

theorem get_put : (fields.put name number).get other = if other = name then some number else fields.get other := by
  by_cases same : other = name
  · rw [if_pos same, same, get_put_self]
  · rw [if_neg same, get_put_of_ne same]

theorem get_remove : (fields.remove name).get other = if other = name then none else fields.get other := by
  have erased : (fields.entries.erase name).lookup other = if other = name then none else fields.get other := by
    by_cases same : other = name
    · rw [if_pos same, same, AList.lookup_erase]
    · rw [if_neg same, AList.lookup_erase_ne same]
      rfl
  unfold remove
  by_cases last : (fields.entries.erase name).keys = []
  · rw [dif_pos last, ← erased]
    symm
    rw [get_empty, AList.lookup_eq_none, AList.mem_keys, last]
    exact List.not_mem_nil
  · rw [dif_neg last, ← erased]
    rfl

@[simp] theorem get_expireAt (at_ : Nat) : (fields.expireAt at_).get name = fields.get name := by
  unfold expireAt
  split
  · rfl
  · rfl

theorem expiry_remove (some_ : (fields.remove name).get other ≠ none) : (fields.remove name).expiry = fields.expiry := by
  unfold remove at some_ ⊢
  by_cases last : (fields.entries.erase name).keys = []
  · rw [dif_pos last] at some_
    exact absurd rfl some_
  · rw [dif_neg last]

def removeAll (fields : Fields Name) (names : List Name) : Fields Name := names.foldl remove fields

theorem get_removeAll (names : List Name) : ∀ fields : Fields Name,
    (fields.removeAll names).get other = if other ∈ names then none else fields.get other := by
  induction names with
  | nil => exact fun _ => (if_neg List.not_mem_nil).symm
  | cons name names ih =>
    intro fields
    show ((fields.remove name).removeAll names).get other = _
    rw [ih, get_remove]
    by_cases same : other = name
    · rw [if_pos same, ite_self, if_pos (by rw [same]; exact List.mem_cons_self)]
    · rw [if_neg same]
      simp only [List.mem_cons, same, false_or]

theorem expiry_removeAll (names : List Name) : ∀ fields : Fields Name,
    (fields.removeAll names).get other ≠ none → (fields.removeAll names).expiry = fields.expiry := by
  induction names with
  | nil => exact fun _ _ => rfl
  | cons name names ih =>
    intro fields some_
    have step := ih (fields.remove name) some_
    show ((fields.remove name).removeAll names).expiry = _
    rw [step]
    apply @expiry_remove _ _ fields name other
    intro missing
    apply some_
    show ((fields.remove name).removeAll names).get other = none
    rw [get_removeAll, missing, ite_self]

variable {now later : Nat}

omit [DecidableEq Name] in
theorem seen_seen (le : now ≤ later) : (fields.seen now).seen later = fields.seen later := by
  unfold seen
  by_cases late : gone fields.expiry now = true
  · rw [if_pos late, if_pos (gone_mono late le)]
    exact ite_self _
  · rw [if_neg late]

theorem get_seen : (fields.seen now).get name = if gone fields.expiry now then none else fields.get name := by
  unfold seen
  split
  · rfl
  · rfl

theorem get_seen_removeAll {names : List Name} (fresh : other ∉ names) :
    ((fields.removeAll names).seen now).get other = (fields.seen now).get other := by
  rw [get_seen, get_seen, get_removeAll, if_neg fresh]
  by_cases none_ : fields.get other = none
  · rw [none_, ite_self, ite_self]
  · rw [expiry_removeAll names fields]
    rw [get_removeAll, if_neg fresh]
    exact none_

def total (count : Name → Nat → Nat) (fields : Fields Name) : Nat :=
  (fields.entries.entries.map fun entry => count entry.1 entry.2).sum

variable {count : Name → Nat → Nat}

omit [DecidableEq Name] in
theorem total_of_isEmpty (none_ : fields.isEmpty = true) : fields.total count = 0 := by
  have listed : fields.entries.entries = [] := List.map_eq_nil_iff.mp (List.isEmpty_iff.mp none_)
  unfold total
  rw [listed]
  rfl

omit [DecidableEq Name] in
@[simp] theorem total_expireAt (at_ : Nat) : (fields.expireAt at_).total count = fields.total count := by
  unfold expireAt
  split
  · rfl
  · rfl

theorem expiry_expireAt (at_ : Nat) (some_ : fields.get name ≠ none) : (fields.expireAt at_).expiry = some at_ := by
  unfold expireAt
  by_cases none_ : fields.isEmpty = true
  · exact absurd (isEmpty_iff.mp none_ name) some_
  · rw [dif_neg none_]

theorem total_remove_le : (fields.remove name).total count ≤ fields.total count := by
  unfold remove
  by_cases last : (fields.entries.erase name).keys = []
  · rw [dif_pos last]
    exact Nat.zero_le _
  · rw [dif_neg last]
    exact List.Sublist.sum_le_sum ((List.kerase_sublist name fields.entries.entries).map _) fun _ _ => Nat.zero_le _

theorem total_removeAll_le (names : List Name) : ∀ fields : Fields Name, (fields.removeAll names).total count ≤ fields.total count := by
  induction names with
  | nil => exact fun _ => le_rfl
  | cons name names ih => exact fun fields => (ih (fields.remove name)).trans total_remove_le

/-- A new field adds its count, and a field that is set anew no more than that. -/
theorem total_put_le : (fields.put name number).total count ≤ count name number + fields.total count := by
  show ((fields.entries.insert name number).entries.map _).sum ≤ _
  rw [AList.entries_insert, List.map_cons, List.sum_cons]
  exact Nat.add_le_add_left (List.Sublist.sum_le_sum ((List.kerase_sublist name fields.entries.entries).map _) fun _ _ => Nat.zero_le _) _

theorem total_eq (is : fields.get name = some number) :
    fields.total count = count name number + (fields.remove name).total count := by
  have inside : name ∈ fields.entries.entries.keys := has_iff.mp (Option.isSome_iff_exists.mpr ⟨number, is⟩)
  obtain ⟨value, before, after, fresh, split_, erased⟩ := List.exists_of_kerase inside
  have same : value = number := by
    have listed : (⟨name, value⟩ : Sigma fun _ : Name => Nat) ∈ fields.entries.entries := by simp [split_]
    have found : fields.get name = some value := (List.mem_dlookup_iff fields.entries.nodupKeys).mpr listed
    rw [is] at found
    exact (Option.some.inj found).symm
  have rest : (fields.remove name).total count = ((before ++ after).map fun entry => count entry.1 entry.2).sum := by
    unfold remove total
    by_cases last : (fields.entries.erase name).keys = []
    · rw [dif_pos last]
      have none_ : before ++ after = [] := by
        rw [← erased]
        exact List.map_eq_nil_iff.mp last
      rw [none_]
      rfl
    · rw [dif_neg last]
      show ((List.kerase name fields.entries.entries).map _).sum = _
      rw [erased]
  rw [rest, total, split_, same]
  simp only [List.map_append, List.sum_append, List.map_cons, List.sum_cons]
  omega

theorem sum_le_total {names : List Name} (distinct : names.Nodup) : ∀ fields : Fields Name,
    (names.map fun name => ((fields.get name).map (count name)).getD 0).sum ≤ fields.total count := by
  induction names with
  | nil => exact fun _ => Nat.zero_le _
  | cons name names ih =>
    intro fields
    obtain ⟨fresh, distinct⟩ := List.nodup_cons.mp distinct
    have others : (names.map fun other => ((fields.get other).map (count other)).getD 0) =
        names.map fun other => (((fields.remove name).get other).map (count other)).getD 0 := by
      apply List.map_congr_left
      intro other inside
      have apart : other ≠ name := fun same => fresh (same ▸ inside)
      rw [get_remove, if_neg apart]
    rw [List.map_cons, List.sum_cons, others]
    cases is : fields.get name with
    | none =>
      rw [Option.map_none, Option.getD_none, Nat.zero_add]
      exact (ih distinct _).trans total_remove_le
    | some number =>
      rw [total_eq is]
      exact Nat.add_le_add_left (ih distinct _) _

end Fields

end Arki.Expiring
