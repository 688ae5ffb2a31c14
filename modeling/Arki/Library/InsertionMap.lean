import Mathlib.Data.List.Nodup

/-! Maps that keep their keys in the order of their first insertion. -/

set_option autoImplicit false

namespace Arki

structure InsertionMap (Key Value : Type) where
  entries : List (Key × Value)
  distinct : (entries.map Prod.fst).Nodup
  deriving DecidableEq

namespace InsertionMap

variable {Key Value : Type}

def empty : InsertionMap Key Value := ⟨[], List.nodup_nil⟩

def keys (map : InsertionMap Key Value) : List Key := map.entries.map Prod.fst

def values (map : InsertionMap Key Value) : List Value := map.entries.map Prod.snd

variable {map : InsertionMap Key Value} {key : Key} {value : Value} {entry : Key × Value}

theorem mem_keys : key ∈ map.keys ↔ ∃ value, (key, value) ∈ map.entries := by
  simp [keys]

variable [DecidableEq Key]

def get (map : InsertionMap Key Value) (key : Key) : Option Value := (map.entries.find? fun entry => entry.1 = key).map Prod.snd

def put (key : Key) (value : Value) : List (Key × Value) → List (Key × Value)
  | [] => [(key, value)]
  | entry :: rest => if entry.1 = key then (key, value) :: rest else entry :: put key value rest

theorem keys_put (key : Key) (value : Value) (entries : List (Key × Value)) :
    (put key value entries).map Prod.fst =
      if key ∈ entries.map Prod.fst then entries.map Prod.fst else entries.map Prod.fst ++ [key] := by
  induction entries with
  | nil => rfl
  | cons entry rest ih =>
    rw [put]
    by_cases same : entry.1 = key
    · simp [same]
    · have other : key ≠ entry.1 := fun eq => same eq.symm
      rw [if_neg same, List.map_cons, ih]
      by_cases held : key ∈ rest.map Prod.fst <;> simp [held, other]

theorem distinct_put {entries : List (Key × Value)} (distinct : (entries.map Prod.fst).Nodup) :
    ((put key value entries).map Prod.fst).Nodup := by
  rw [keys_put]
  split
  · exact distinct
  · rename_i new
    simpa [List.nodup_append] using ⟨distinct, fun k v held same => new (same ▸ List.mem_map_of_mem held)⟩

def set (map : InsertionMap Key Value) (key : Key) (value : Value) : InsertionMap Key Value :=
  ⟨put key value map.entries, distinct_put map.distinct⟩

def merge (map other : InsertionMap Key Value) : InsertionMap Key Value :=
  other.entries.foldl (fun map entry => map.set entry.1 entry.2) map

theorem mem_put {entries : List (Key × Value)} (distinct : (entries.map Prod.fst).Nodup) :
    entry ∈ put key value entries ↔ entry = (key, value) ∨ (entry ∈ entries ∧ entry.1 ≠ key) := by
  induction entries with
  | nil => simp [put]
  | cons first rest ih =>
    rw [List.map_cons, List.nodup_cons] at distinct
    rw [put]
    by_cases same : first.1 = key
    · rw [if_pos same, List.mem_cons, List.mem_cons]
      refine or_congr_right ⟨fun held => ⟨.inr held, ?_⟩, ?_⟩
      · rintro rfl
        exact distinct.1 (same ▸ List.mem_map_of_mem held)
      · rintro ⟨rfl | held, apart⟩
        · exact absurd same apart
        · exact held
    · rw [if_neg same, List.mem_cons, List.mem_cons, ih distinct.2]
      constructor
      · rintro (rfl | rfl | ⟨held, apart⟩)
        · exact .inr ⟨.inl rfl, same⟩
        · exact .inl rfl
        · exact .inr ⟨.inr held, apart⟩
      · rintro (rfl | ⟨rfl | held, apart⟩)
        · exact .inr (.inl rfl)
        · exact .inl rfl
        · exact .inr (.inr ⟨held, apart⟩)

theorem mem_set :
    entry ∈ (map.set key value).entries ↔ entry = (key, value) ∨ (entry ∈ map.entries ∧ entry.1 ≠ key) := mem_put map.distinct

theorem mem_keys_set {other : Key} :
    other ∈ (map.set key value).keys ↔ other = key ∨ other ∈ map.keys := by
  simp only [keys, set, keys_put]
  split
  · rename_i held
    exact ⟨.inr, fun either => either.elim (fun same => same ▸ held) id⟩
  · simp [or_comm]

theorem get_eq_some : map.get key = some value ↔ (key, value) ∈ map.entries := by
  have distinct := map.distinct
  unfold get
  generalize map.entries = entries at distinct ⊢
  induction entries with
  | nil => simp
  | cons entry rest ih =>
    rw [List.map_cons, List.nodup_cons] at distinct
    rw [List.find?_cons]
    by_cases same : entry.1 = key
    · simp only [same, decide_true, Option.map_some, Option.some.injEq, List.mem_cons]
      constructor
      · rintro rfl
        exact .inl (Prod.ext same.symm rfl)
      · rintro (rfl | held)
        · rfl
        · exact absurd (List.mem_map_of_mem held) (same ▸ distinct.1)
    · simp only [same, decide_false, List.mem_cons]
      refine (ih distinct.2).trans ⟨.inr, fun either => either.elim (fun eq => absurd (congrArg Prod.fst eq).symm same) id⟩

theorem get_eq_none : map.get key = none ↔ key ∉ map.keys := by
  rw [mem_keys]
  constructor
  · rintro missing ⟨value, held⟩
    rw [get_eq_some.mpr held] at missing
    cases missing
  · intro missing
    cases found : map.get key with
    | none => rfl
    | some value => exact absurd ⟨value, get_eq_some.mp found⟩ missing

theorem get_set {other : Key} :
    (map.set key value).get other = if other = key then some value else map.get other := by
  by_cases same : other = key
  · rw [if_pos same, get_eq_some, mem_set]
    exact .inl (congrArg (·, value) same)
  · rw [if_neg same]
    refine Option.ext fun found => ?_
    rw [get_eq_some, get_eq_some, mem_set]
    exact ⟨fun either => either.elim (fun eq => absurd (congrArg Prod.fst eq) same) And.left, fun held => .inr ⟨held, same⟩⟩

theorem keys_set_new (new : key ∉ map.keys) :
    (map.set key value).keys = map.keys ++ [key] := by
  rw [keys] at new ⊢
  rw [set, keys_put, if_neg new, keys]

theorem mem_keys_merge {other : InsertionMap Key Value} : key ∈ (map.merge other).keys ↔ key ∈ map.keys ∨ key ∈ other.keys := by
  rw [merge]
  simp only [keys]
  generalize other.entries = entries
  induction entries generalizing map with
  | nil => simp
  | cons entry rest ih =>
    rw [List.foldl_cons, ih, ← keys, mem_keys_set, keys, List.map_cons, List.mem_cons]
    tauto

/-- What holds of every entry of both maps holds of every entry of the merged one. -/
theorem merge_all {other : InsertionMap Key Value} {holds : Key × Value → Prop} (ours : ∀ entry ∈ map.entries, holds entry)
    (theirs : ∀ entry ∈ other.entries, holds entry) : ∀ entry ∈ (map.merge other).entries, holds entry := by
  rw [merge]
  generalize other.entries = entries at theirs
  induction entries generalizing map with
  | nil => exact ours
  | cons first rest ih =>
    rw [List.foldl_cons]
    refine ih (fun entry held => ?_) fun entry held => theirs entry (by simp [held])
    rcases mem_set.mp held with rfl | ⟨held, -⟩
    · exact theirs first (by simp)
    · exact ours entry held

def ofList (list : List (Key × Value)) : InsertionMap Key Value := list.foldl (fun map entry => map.set entry.1 entry.2) empty

theorem mem_foldl_set {list : List (Key × Value)} (distinct : (list.map Prod.fst).Nodup) :
    entry ∈ (list.foldl (fun map entry => map.set entry.1 entry.2) map).entries ↔
      entry ∈ list ∨ (entry ∈ map.entries ∧ entry.1 ∉ list.map Prod.fst) := by
  induction list generalizing map with
  | nil => simp
  | cons first rest ih =>
    rw [List.map_cons, List.nodup_cons] at distinct
    rw [List.foldl_cons, ih distinct.2, mem_set]
    constructor
    · rintro (held | ⟨rfl | ⟨held, apart⟩, out⟩)
      · exact .inl (List.mem_cons_of_mem _ held)
      · exact .inl (List.mem_cons_self)
      · exact .inr ⟨held, by simpa [apart] using out⟩
    · rintro (held | ⟨held, out⟩)
      · rcases List.mem_cons.mp held with rfl | held
        · exact .inr ⟨.inl rfl, distinct.1⟩
        · exact .inl held
      · rw [List.map_cons, List.mem_cons, not_or] at out
        exact .inr ⟨.inr ⟨held, out.1⟩, out.2⟩

theorem get_ofList {list : List (Key × Value)} (distinct : (list.map Prod.fst).Nodup) :
    (ofList list).get key = some value ↔ (key, value) ∈ list := by
  rw [get_eq_some, ofList, mem_foldl_set distinct]
  simp [empty]

theorem mem_ofList {list : List (Key × Value)} (is : (ofList list).get key = some value) : (key, value) ∈ list := by
  have every : ∀ (map : InsertionMap Key Value), ∀ entry ∈ (list.foldl (fun map entry => map.set entry.1 entry.2) map).entries,
      entry ∈ list ∨ entry ∈ map.entries := by
    clear is
    induction list with
    | nil => exact fun _ _ held => .inr held
    | cons first rest ih =>
      intro map entry held
      rcases ih _ entry held with held | held
      · exact .inl (List.mem_cons_of_mem _ held)
      · rcases mem_set.mp held with rfl | ⟨held, -⟩
        · exact .inl List.mem_cons_self
        · exact .inr held
  simpa [empty] using every empty _ (get_eq_some.mp is)

end InsertionMap

/-- A list's items in the order of their first places: the items of a `Set` of them. -/
def firsts {Item : Type} [DecidableEq Item] : List Item → List Item
  | [] => []
  | item :: rest => item :: (firsts rest).filter (· ≠ item)

theorem mem_firsts {Item : Type} [DecidableEq Item] {list : List Item} {item : Item} : item ∈ firsts list ↔ item ∈ list := by
  induction list with
  | nil => simp [firsts]
  | cons first rest ih =>
    rw [firsts, List.mem_cons, List.mem_cons, List.mem_filter, ih]
    by_cases same : item = first <;> simp [same]

theorem firsts_nodup {Item : Type} [DecidableEq Item] (list : List Item) : (firsts list).Nodup := by
  induction list with
  | nil => exact List.nodup_nil
  | cons first rest ih =>
    rw [firsts, List.nodup_cons]
    exact ⟨by simp, ih.filter _⟩

end Arki
