import Arki.Journal.Value
import Mathlib.Data.List.Perm.Subperm

/-! The comparison of JSON values that tells a repeated delivery from a change: key order does not matter, and a key that holds
`undefined` is a missing key. -/

set_option autoImplicit false

namespace Arki.Payments

open Arki.Journal (Value)
open Arki.Journal.Value (field AllKeyed EntriesKeyed sameValue sameItems sameEntries definedKeys)

/-- The own keys of a non-null object that is not an array. Class instances and dates count. -/
def recordOf : Value → Option (List (String × Value))
  | .object entries | .classInstance entries => some entries
  | .date _ => some []
  | _ => none

def onlyUndefined (left right : List (String × Value)) : Bool :=
  right.all fun entry => (left.lookup entry.1).isSome || entry.2.isUndefined

mutual

def sameJson : Value → Value → Bool
  | .array left, .array right => Value.equal (.array left) (.array right) || sameJsonItems left right
  | .object left, right =>
    Value.equal (.object left) right || (recordOf right).any fun entries => sameFields left entries && onlyUndefined left entries
  | .classInstance left, right =>
    Value.equal (.classInstance left) right || (recordOf right).any fun entries => sameFields left entries && onlyUndefined left entries
  | .date left, right => Value.equal (.date left) right || (recordOf right).any fun entries => onlyUndefined [] entries
  | left, right => Value.equal left right

def sameJsonItems : List Value → List Value → Bool
  | [], [] => true
  | left :: lefts, right :: rights => sameJson left right && sameJsonItems lefts rights
  | _, _ => false

def sameFields : List (String × Value) → List (String × Value) → Bool
  | [], _ => true
  | (key, value) :: rest, right => sameJson value (field right key) && sameFields rest right

end

theorem sameJson_refl (value : Value) : sameJson value value = true := by
  cases value <;> simp [sameJson, (Value.equal_iff _ _).mpr rfl]

theorem sameFields_iff {left right : List (String × Value)} :
    sameFields left right = true ↔ ∀ entry ∈ left, sameJson entry.2 (field right entry.1) = true := by
  induction left with
  | nil => simp [sameFields]
  | cons entry rest ih => simp [sameFields, ih]

theorem field_of_mem {entries : List (String × Value)} {key : String} {value : Value} (keyed : (entries.map Prod.fst).Nodup)
    (member : (key, value) ∈ entries) : field entries key = value := by
  obtain ⟨ahead, rest, rfl⟩ := List.append_of_mem member
  exact Value.field_self keyed

theorem eq_undefined {value : Value} (none_ : value.isUndefined = true) : value = .undefined := by
  cases value <;> first | rfl | cases none_

def definedNames (entries : List (String × Value)) : List String := (entries.filter fun entry => !entry.2.isUndefined).map Prod.fst

theorem definedNames_length (entries : List (String × Value)) : (definedNames entries).length = definedKeys entries := by
  rw [definedNames, List.length_map, definedKeys]

theorem mem_definedNames {entries : List (String × Value)} {key : String} (keyed : (entries.map Prod.fst).Nodup) :
    key ∈ definedNames entries ↔ (field entries key).isUndefined = false := by
  constructor
  · intro member
    obtain ⟨entry, inside, rfl⟩ := List.mem_map.mp member
    obtain ⟨listed, some_⟩ := List.mem_filter.mp inside
    rw [field_of_mem keyed listed]
    simpa using some_
  · intro some_
    exact List.mem_map.mpr ⟨_, List.mem_filter.mpr ⟨Value.field_mem some_, by simp [some_]⟩, rfl⟩

theorem same_names {left right : List (String × Value)} (keyedLeft : (left.map Prod.fst).Nodup) (keyedRight : (right.map Prod.fst).Nodup)
    (count : definedKeys left = definedKeys right) (same : sameEntries left right = true) (key : String) :
    (field left key).isUndefined = false ↔ (field right key).isUndefined = false := by
  have forward : definedNames left ⊆ definedNames right := by
    intro key member
    rw [mem_definedNames keyedLeft] at member
    rw [mem_definedNames keyedRight]
    have is := Value.sameEntries_mem same (Value.field_mem member) member
    by_contra none_
    rw [Bool.not_eq_false] at none_
    rw [eq_undefined none_] at is
    rw [Value.undefined_of_same is] at member
    cases member
  have distinct : (definedNames left).Nodup := keyedLeft.sublist (List.Sublist.map _ List.filter_sublist)
  have perm : (definedNames left).Perm (definedNames right) := by
    apply (List.subperm_of_subset distinct forward).perm_of_length_le
    exact Nat.le_of_eq (by rw [definedNames_length, definedNames_length, count])
  rw [← mem_definedNames keyedLeft, ← mem_definedNames keyedRight, perm.mem_iff]

theorem keyed_of_mem {entries : List (String × Value)} (keyed : EntriesKeyed entries) {entry : String × Value}
    (member : entry ∈ entries) : Value.Keyed entry.2 := by
  induction entries with
  | nil => cases member
  | cons first rest ih =>
    rcases List.mem_cons.mp member with rfl | later
    · exact keyed.1
    · exact ih keyed.2 later

mutual

theorem sameJson_of_same : ∀ {value stored : Value}, sameValue value stored = true → Value.Keyed value → Value.Keyed stored →
    sameJson stored value = true
  | .array items, stored, same, keyed, keyedStored => by
    cases stored with
    | array others =>
      simp only [sameValue] at same
      simp only [sameJson, Bool.or_eq_true]
      exact .inr (sameJsonItems_of_same same keyed keyedStored)
    | _ => simp [sameValue, Value.equal] at same
  | .object entries, stored, same, keyed, keyedStored => by
    cases stored with
    | object others =>
      simp only [sameValue, Bool.and_eq_true, beq_iff_eq] at same
      have names := same_names keyed.1 keyedStored.1 same.1 same.2
      have inner := sameFields_of_same same.2 keyed.2
      simp only [sameJson, recordOf, Option.any_some, Bool.or_eq_true, Bool.and_eq_true]
      refine .inr ⟨sameFields_iff.mpr ?_, List.all_eq_true.mpr ?_⟩
      · intro entry member
        have here := field_of_mem keyedStored.1 member
        by_cases none_ : entry.2.isUndefined = true
        · have missing : (field entries entry.1).isUndefined = true := by
            by_contra some_
            rw [Bool.not_eq_true, names, here, none_] at some_
            cases some_
          rw [eq_undefined none_, eq_undefined missing]
          exact sameJson_refl _
        · rw [Bool.not_eq_true] at none_
          have some_ := (names entry.1).mpr (here ▸ none_)
          have is := inner _ (Value.field_mem some_) some_
          rw [here] at is
          exact is (keyed_of_mem keyedStored.2 member)
      · intro entry member
        by_cases none_ : entry.2.isUndefined = true
        · rw [none_, Bool.or_true]
        · rw [Bool.not_eq_true] at none_
          have some_ := (names entry.1).mp ((field_of_mem keyed.1 member).symm ▸ none_)
          cases found : others.lookup entry.1 with
          | none =>
            rw [field, found] at some_
            cases some_
          | some value => rfl
    | _ => simp [sameValue, Value.equal] at same
  | .classInstance _, _, same, _, _ => by simp [sameValue] at same
  | .date iso, stored, same, _, _ => by
    cases iso with
    | none => simp [sameValue] at same
    | some iso =>
      cases stored with
      | date other =>
        cases other with
        | none => simp [sameValue] at same
        | some other =>
          simp only [sameValue, beq_iff_eq] at same
          rw [same]
          exact sameJson_refl _
      | _ => simp [sameValue] at same
  | .undefined, stored, same, _, _ => by
    rw [← (Value.equal_iff .undefined stored).mp same]
    exact sameJson_refl _
  | .null, stored, same, _, _ => by
    rw [← (Value.equal_iff .null stored).mp same]
    exact sameJson_refl _
  | .boolean value, stored, same, _, _ => by
    rw [← (Value.equal_iff (.boolean value) stored).mp same]
    exact sameJson_refl _
  | .number value, stored, same, _, _ => by
    rw [← (Value.equal_iff (.number value) stored).mp same]
    exact sameJson_refl _
  | .special value, stored, same, _, _ => by
    rw [← (Value.equal_iff (.special value) stored).mp same]
    exact sameJson_refl _
  | .bigint value, stored, same, _, _ => by
    rw [← (Value.equal_iff (.bigint value) stored).mp same]
    exact sameJson_refl _
  | .string text, stored, same, _, _ => by
    rw [← (Value.equal_iff (.string text) stored).mp same]
    exact sameJson_refl _

theorem sameJsonItems_of_same : ∀ {items stored : List Value}, sameItems items stored = true → AllKeyed items → AllKeyed stored →
    sameJsonItems stored items = true
  | [], [], _, _, _ => rfl
  | [], _ :: _, same, _, _ => by simp [sameItems] at same
  | _ :: _, [], same, _, _ => by simp [sameItems] at same
  | value :: rest, other :: others, same, keyed, keyedStored => by
    simp only [sameItems, Bool.and_eq_true] at same
    simp only [sameJsonItems, Bool.and_eq_true]
    exact ⟨sameJson_of_same same.1 keyed.1 keyedStored.1, sameJsonItems_of_same same.2 keyed.2 keyedStored.2⟩

theorem sameFields_of_same : ∀ {entries others : List (String × Value)}, sameEntries entries others = true → EntriesKeyed entries →
    ∀ entry ∈ entries, entry.2.isUndefined = false → Value.Keyed (field others entry.1) → sameJson (field others entry.1) entry.2 = true
  | [], _, _, _, _, member, _, _ => by cases member
  | (key, value) :: rest, others, same, keyed, entry, member, some_, keyedField => by
    simp only [sameEntries, Bool.and_eq_true, Bool.or_eq_true] at same
    rcases List.mem_cons.mp member with rfl | later
    · exact sameJson_of_same (same.1.resolve_left (by simp [some_])) keyed.1 keyedField
    · exact sameFields_of_same same.2 keyed.2 entry later some_ keyedField

end

end Arki.Payments
