import Mathlib.Data.List.Basic

/-! The values that cross JSON storage: what the program holds, what a `jsonb`
column keeps of it, and the comparison that decides whether the two agree.

A date is named by its ISO text, and a finite number is the rational it is. Functions, symbols and class instances with an
`equals` of their own never reach a column and are left out.
-/

set_option autoImplicit false

namespace Arki.Journal

inductive Special where
  | nan
  | infinity
  | minusInfinity
  | minusZero
  deriving DecidableEq, Repr

inductive Value where
  | undefined
  | null
  | boolean (value : Bool)
  | number (value : Rat)
  | special (value : Special)
  | bigint (value : Int)
  | string (text : String)
  /-- `none` is an invalid date. -/
  | date (iso : Option String)
  | array (items : List Value)
  | object (entries : List (String × Value))
  /-- An object with another prototype, such as a `Map` or a `Set`, and its own enumerable fields. -/
  | classInstance (fields : List (String × Value))

namespace Value

mutual

def equal : Value → Value → Bool
  | .undefined, .undefined => true
  | .null, .null => true
  | .boolean left, .boolean right => left == right
  | .number left, .number right => left == right
  | .special left, .special right => left == right
  | .bigint left, .bigint right => left == right
  | .string left, .string right => left == right
  | .date left, .date right => left == right
  | .array left, .array right => equalItems left right
  | .object left, .object right => equalEntries left right
  | .classInstance left, .classInstance right => equalEntries left right
  | _, _ => false

def equalItems : List Value → List Value → Bool
  | [], [] => true
  | left :: lefts, right :: rights => equal left right && equalItems lefts rights
  | _, _ => false

def equalEntries : List (String × Value) → List (String × Value) → Bool
  | [], [] => true
  | left :: lefts, right :: rights => left.1 == right.1 && equal left.2 right.2 && equalEntries lefts rights
  | _, _ => false

end

mutual

theorem equal_iff : ∀ left right : Value, equal left right = true ↔ left = right
  | .undefined, right => by cases right <;> simp [equal]
  | .null, right => by cases right <;> simp [equal]
  | .boolean _, right => by cases right <;> simp [equal]
  | .number _, right => by cases right <;> simp [equal]
  | .special _, right => by cases right <;> simp [equal]
  | .bigint _, right => by cases right <;> simp [equal]
  | .string _, right => by cases right <;> simp [equal]
  | .date _, right => by cases right <;> simp [equal]
  | .array left, right => by cases right <;> simp [equal, equalItems_iff left]
  | .object left, right => by cases right <;> simp [equal, equalEntries_iff left]
  | .classInstance left, right => by cases right <;> simp [equal, equalEntries_iff left]

theorem equalItems_iff : ∀ left right : List Value, equalItems left right = true ↔ left = right
  | [], right => by cases right <;> simp [equalItems]
  | value :: rest, right => by
    cases right with
    | nil => simp [equalItems]
    | cons other others => simp [equalItems, equal_iff value other, equalItems_iff rest others]

theorem equalEntries_iff : ∀ left right : List (String × Value), equalEntries left right = true ↔ left = right
  | [], right => by cases right <;> simp [equalEntries]
  | (key, value) :: rest, right => by
    cases right with
    | nil => simp [equalEntries]
    | cons other others =>
      obtain ⟨name, content⟩ := other
      simp [equalEntries, equal_iff value content, equalEntries_iff rest others]

end

instance : DecidableEq Value := fun left right => decidable_of_iff _ (equal_iff left right)

def isUndefined : Value → Bool
  | .undefined => true
  | _ => false

/-- `entries[key]`. -/
def field (entries : List (String × Value)) (key : String) : Value := (entries.lookup key).getD .undefined

/-- `Object.keys(entries).filter(key => entries[key] !== undefined).length`. -/
def definedKeys (entries : List (String × Value)) : Nat := (entries.filter fun entry => !entry.2.isUndefined).length

mutual

/-- `JSON.parse(JSON.stringify(value))`, or `none` where it throws; `undefined` stays `undefined`. -/
def throughJson : Value → Option Value
  | .undefined => some .undefined
  | .null => some .null
  | .boolean value => some (.boolean value)
  | .number value => some (.number value)
  | .special .minusZero => some (.number 0)
  | .special _ => some .null
  | .bigint _ => none
  | .string text => some (.string text)
  | .date (some iso) => some (.string iso)
  | .date none => some .null
  | .array items => (itemsThroughJson items).map .array
  | .object entries => (entriesThroughJson entries).map .object
  | .classInstance fields => (entriesThroughJson fields).map .object

/-- An `undefined` item is written as `null`. -/
def itemsThroughJson : List Value → Option (List Value)
  | [] => some []
  | value :: rest =>
    match throughJson value, itemsThroughJson rest with
    | some stored, some others => some ((if stored.isUndefined then .null else stored) :: others)
    | _, _ => none

/-- An `undefined` entry is not written. -/
def entriesThroughJson : List (String × Value) → Option (List (String × Value))
  | [] => some []
  | (key, value) :: rest =>
    match throughJson value, entriesThroughJson rest with
    | some stored, some others => some (if stored.isUndefined then others else (key, stored) :: others)
    | _, _ => none

end

mutual

def sameValue : Value → Value → Bool
  | .date (some left), .date (some right) => left == right
  -- an invalid date has no time, and `NaN` is not itself
  | .date _, _ => false
  | .array left, .array right => sameItems left right
  | .classInstance _, _ => false
  | .object left, .object right => definedKeys left == definedKeys right && sameEntries left right
  | left, right => equal left right

def sameItems : List Value → List Value → Bool
  | [], [] => true
  | left :: lefts, right :: rights => sameValue left right && sameItems lefts rights
  | _, _ => false

def sameEntries : List (String × Value) → List (String × Value) → Bool
  | [], _ => true
  | (key, value) :: rest, right => (value.isUndefined || sameValue value (field right key)) && sameEntries rest right

end

mutual

/-- Deep equality for what must survive JSON storage. Two dates are two objects, and JSON keeps neither. -/
def sameJson : Value → Value → Bool
  | .date _, _ => false
  | .array left, .array right => sameJsonItems left right
  | .classInstance _, _ => false
  | .object left, .object right => definedKeys left == definedKeys right && sameJsonEntries left right
  | left, right => equal left right

def sameJsonItems : List Value → List Value → Bool
  | [], [] => true
  | left :: lefts, right :: rights => sameJson left right && sameJsonItems lefts rights
  | _, _ => false

def sameJsonEntries : List (String × Value) → List (String × Value) → Bool
  | [], _ => true
  | (key, value) :: rest, right => (value.isUndefined || sameJson value (field right key)) && sameJsonEntries rest right

end

mutual

/-- No object has two fields of one name: true of every value that a program can build. -/
def Keyed : Value → Prop
  | .array items => AllKeyed items
  | .object entries | .classInstance entries => (entries.map Prod.fst).Nodup ∧ EntriesKeyed entries
  | _ => True

def AllKeyed : List Value → Prop
  | [] => True
  | value :: rest => Keyed value ∧ AllKeyed rest

def EntriesKeyed : List (String × Value) → Prop
  | [] => True
  | (_, value) :: rest => Keyed value ∧ EntriesKeyed rest

end

theorem field_self {ahead rest : List (String × Value)} {key : String} {value : Value}
    (distinct : ((ahead ++ (key, value) :: rest).map Prod.fst).Nodup) :
    field (ahead ++ (key, value) :: rest) key = value := by
  have fresh : key ∉ ahead.map Prod.fst := by
    intro listed
    rw [List.map_append, List.map_cons] at distinct
    exact (List.nodup_append.mp distinct).2.2 key listed key (by simp) rfl
  have missing : ahead.lookup key = none := by
    apply List.lookup_eq_none_iff.mpr
    intro entry member
    rw [bne_iff_ne]
    rintro rfl
    exact fresh (List.mem_map_of_mem member)
  simp [field, List.lookup_append, missing]

theorem undefined_of_same {value : Value} (same : sameValue value .undefined = true) : value = .undefined := by
  cases value with
  | date iso => cases iso <;> simp [sameValue] at same
  | undefined => rfl
  | _ => simp [sameValue, equal] at same

theorem field_mem {entries : List (String × Value)} {key : String} (some_ : (field entries key).isUndefined = false) :
    (key, field entries key) ∈ entries := by
  cases found : entries.lookup key with
  | none => simp [field, found, isUndefined] at some_
  | some value =>
    obtain ⟨ahead, rest, split, _⟩ := List.lookup_eq_some_iff.mp found
    have here : field entries key = value := by simp [field, found]
    rw [here, split]
    exact List.mem_append_right _ List.mem_cons_self

theorem sameEntries_mem {entries others : List (String × Value)} (same : sameEntries entries others = true)
    {key : String} {value : Value} (member : (key, value) ∈ entries) (some_ : value.isUndefined = false) :
    sameValue value (field others key) = true := by
  induction entries with
  | nil => cases member
  | cons entry rest ih =>
    obtain ⟨name, content⟩ := entry
    simp only [sameEntries, Bool.and_eq_true, Bool.or_eq_true] at same
    rcases List.mem_cons.mp member with here | there
    · cases here
      exact same.1.resolve_left (by simp [some_])
    · exact ih same.2 there

mutual

theorem sameValue_trans : ∀ {first second third : Value}, sameValue first second = true →
    sameValue second third = true → sameValue first third = true
  | .date (some first), second, third, left, right => by
    cases second with
    | date iso =>
      cases iso with
      | none => simp [sameValue] at left
      | some middle =>
        cases third with
        | date last =>
          cases last with
          | none => simp [sameValue] at right
          | some last =>
            simp only [sameValue, beq_iff_eq] at left right ⊢
            exact left.trans right
        | _ => simp [sameValue] at right
    | _ => simp [sameValue] at left
  | .date none, _, _, left, _ => by simp [sameValue] at left
  | .classInstance _, _, _, left, _ => by simp [sameValue] at left
  | .array firsts, second, third, left, right => by
    cases second with
    | array seconds =>
      cases third with
      | array thirds =>
        simp only [sameValue] at left right ⊢
        exact sameItems_trans left right
      | _ => simp [sameValue, equal] at right
    | _ => simp [sameValue, equal] at left
  | .object firsts, second, third, left, right => by
    cases second with
    | object seconds =>
      cases third with
      | object thirds =>
        simp only [sameValue, Bool.and_eq_true, beq_iff_eq] at left right ⊢
        exact ⟨left.1.trans right.1, sameEntries_trans left.2 right.2⟩
      | _ => simp [sameValue, equal] at right
    | _ => simp [sameValue, equal] at left
  | .undefined, _, _, left, right => by
    cases (equal_iff _ _).mp (by simpa [sameValue] using left)
    exact right
  | .null, _, _, left, right => by
    cases (equal_iff _ _).mp (by simpa [sameValue] using left)
    exact right
  | .boolean _, _, _, left, right => by
    cases (equal_iff _ _).mp (by simpa [sameValue] using left)
    exact right
  | .number _, _, _, left, right => by
    cases (equal_iff _ _).mp (by simpa [sameValue] using left)
    exact right
  | .special _, _, _, left, right => by
    cases (equal_iff _ _).mp (by simpa [sameValue] using left)
    exact right
  | .bigint _, _, _, left, right => by
    cases (equal_iff _ _).mp (by simpa [sameValue] using left)
    exact right
  | .string _, _, _, left, right => by
    cases (equal_iff _ _).mp (by simpa [sameValue] using left)
    exact right

theorem sameItems_trans : ∀ {firsts seconds thirds : List Value}, sameItems firsts seconds = true →
    sameItems seconds thirds = true → sameItems firsts thirds = true
  | [], [], _, _, right => right
  | [], _ :: _, _, left, _ => by cases left
  | _ :: _, [], _, left, _ => by cases left
  | _ :: _, _ :: _, [], _, right => by cases right
  | first :: firsts, second :: seconds, third :: thirds, left, right => by
    simp only [sameItems, Bool.and_eq_true] at left right ⊢
    exact ⟨sameValue_trans left.1 right.1, sameItems_trans left.2 right.2⟩

theorem sameEntries_trans : ∀ {firsts seconds thirds : List (String × Value)}, sameEntries firsts seconds = true →
    sameEntries seconds thirds = true → sameEntries firsts thirds = true
  | [], _, _, _, _ => rfl
  | (key, value) :: rest, seconds, thirds, left, right => by
    simp only [sameEntries, Bool.and_eq_true, Bool.or_eq_true] at left ⊢
    refine ⟨?_, sameEntries_trans left.2 right⟩
    cases given : value.isUndefined with
    | true => exact Or.inl rfl
    | false =>
      have same := left.1.resolve_left (by simp [given])
      -- the middle has the field too: only `undefined` is the same as `undefined`
      have there : (field seconds key).isUndefined = false := by
        cases gone : field seconds key with
        | undefined =>
          rw [gone] at same
          simp [undefined_of_same same, isUndefined] at given
        | _ => rfl
      exact Or.inr (sameValue_trans same (sameEntries_mem right (field_mem there) there))

end

end Value

end Arki.Journal
