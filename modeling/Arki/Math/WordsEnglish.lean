import Arki.Math.Words

/-! The English words of a number: groups of three from the highest scale down, each heard as its value. -/

set_option autoImplicit false

namespace Arki.Math.Words

open Spoken

def enMeaning (word : String) : Option Meaning :=
  match (List.range 100).find? (enBelowHundred · = word) with
  | some n => some (.amount n)
  | none =>
    if word = "hundred" then some .hundred
    else if word = "and" then some .joining
    else (enScales.findIdx? (· = word)).map .scale

/-- The words of a group: its hundreds and the rest, which British English joins with `and`. -/
def enGroupWords (and : Bool) (group : Nat) : List String :=
  (if group / 100 = 0 then [] else [enOnes.getD (group / 100) "", "hundred"]) ++
    (if and ∧ group / 100 ≠ 0 ∧ group % 100 ≠ 0 then ["and"] else []) ++
      (if group % 100 = 0 then [] else [enBelowHundred (group % 100)])

/-- A group with its scale word. In British English `and` comes before a last group below a hundred after longer ones. -/
def enPiece (and long : Bool) (scale group : Nat) : List String :=
  if group = 0 then []
  else
    (if and ∧ long ∧ scale = 0 ∧ group < 100 then ["and"] else []) ++ enGroupWords and group ++
      (if scale = 0 then [] else [enScales.getD scale ""])

def enComposition (and : Bool) (n : Nat) : List String :=
  if n = 0 then ["zero"] else composition (enPiece and (1000 ≤ n)) n 12

theorem enMeaning_table :
    (∀ n < 100, enMeaning (enBelowHundred n) = some (.amount n)) ∧ (∀ n < 20, enMeaning (enOnes.getD n "") = some (.amount n)) ∧
      (∀ scale < 12, 0 < scale → enMeaning (enScales.getD scale "") = some (.scale scale)) ∧
        enMeaning "hundred" = some .hundred ∧ enMeaning "and" = some .joining := by
  decide +kernel

theorem enMeaning_below : ∀ n < 100, enMeaning (enBelowHundred n) = some (.amount n) := enMeaning_table.1

theorem enMeaning_ones : ∀ n < 20, enMeaning (enOnes.getD n "") = some (.amount n) := enMeaning_table.2.1

theorem enMeaning_scale : ∀ scale < 12, 0 < scale → enMeaning (enScales.getD scale "") = some (.scale scale) := enMeaning_table.2.2.1

theorem enMeaning_hundred : enMeaning "hundred" = some .hundred := enMeaning_table.2.2.2.1

theorem enMeaning_and : enMeaning "and" = some .joining := enMeaning_table.2.2.2.2

theorem enMeaning_plain {word : String} (known : (enMeaning word).isSome) : ' ' ∉ word.toList := by
  obtain ⟨below, scales⟩ : (∀ n < 100, ' ' ∉ (enBelowHundred n).toList) ∧ ∀ scale ∈ enScales, ' ' ∉ scale.toList := by
    decide +kernel
  unfold enMeaning at known
  split at known
  · next n found =>
    have is := List.find?_some found
    have inside := List.mem_of_find?_eq_some found
    rw [decide_eq_true_eq] at is
    rw [← is]
    exact below n (List.mem_range.mp inside)
  · split at known
    · next isHundred => subst isHundred; decide
    · split at known
      · next isAnd => subst isAnd; decide
      · rw [Option.isSome_map, List.findIdx?_isSome, List.any_eq_true] at known
        obtain ⟨scale, member, is⟩ := known
        rw [decide_eq_true_eq] at is
        exact is ▸ scales scale member

variable {and long : Bool} {n group_ scale total current : Nat} {groups : List Nat} {words spoken : List String}

theorem hear_enGroupWords (small : group_ < 1000) : hear enMeaning ⟨total, 0⟩ (enGroupWords and group_) = some ⟨total, group_⟩ := by
  have parts : group_ = group_ / 100 * 100 + group_ % 100 := by omega
  have hundreds_ := enMeaning_ones (group_ / 100) (by omega)
  have rest_ := enMeaning_below (group_ % 100) (by omega)
  have joined (current : Nat) : hear enMeaning ⟨total, current⟩ ((if and ∧ group_ / 100 ≠ 0 ∧ group_ % 100 ≠ 0 then ["and"] else []) ++
      (if group_ % 100 = 0 then [] else [enBelowHundred (group_ % 100)])) = some ⟨total, current + group_ % 100⟩ := by
    have last : hear enMeaning ⟨total, current⟩ (if group_ % 100 = 0 then [] else [enBelowHundred (group_ % 100)]) =
        some ⟨total, current + group_ % 100⟩ := by
      by_cases none_ : group_ % 100 = 0
      · rw [if_pos none_, none_]
        rfl
      · rw [if_neg none_, hear_cons rest_]
        rfl
    split
    · rw [List.singleton_append, hear_cons enMeaning_and]
      exact last
    · exact last
  unfold enGroupWords
  by_cases none_ : group_ / 100 = 0
  · rw [List.append_assoc, if_pos none_, List.nil_append, joined, Option.some.injEq, Heard.mk.injEq]
    omega
  · rw [List.append_assoc, if_neg none_, List.cons_append, List.cons_append, List.nil_append, hear_cons hundreds_,
      hear_cons enMeaning_hundred]
    simp only [Heard.word]
    rw [joined, Option.some.injEq, Heard.mk.injEq]
    omega

theorem hear_enPiece (small : group_ < 1000) (scaled : scale < 12) : hear enMeaning ⟨total, 0⟩ (enPiece and long scale group_) =
    some (if scale = 0 then ⟨total, group_⟩ else ⟨total + group_ * 1000 ^ scale, 0⟩) := by
  unfold enPiece
  by_cases none_ : group_ = 0
  · rw [if_pos none_, none_]
    simp
  · have heard_ : hear enMeaning ⟨total, 0⟩ ((if and ∧ long ∧ scale = 0 ∧ group_ < 100 then ["and"] else []) ++
        enGroupWords and group_) = some ⟨total, group_⟩ := by
      split
      · rw [List.singleton_append, hear_cons enMeaning_and]
        exact hear_enGroupWords small
      · exact hear_enGroupWords small
    rw [if_neg none_, hear_append, heard_, Option.bind_some]
    by_cases last : scale = 0
    · rw [if_pos last, if_pos last, hear_nil]
    · rw [if_neg last, if_neg last, hear_cons (enMeaning_scale scale scaled (by omega))]
      rfl

theorem number_enComposition (within : n < 1000 ^ 12) : number enMeaning (enComposition and n) = some n := by
  unfold enComposition
  by_cases zero : n = 0
  · rw [if_pos zero, zero]
    have is := enMeaning_ones 0 (by decide)
    rw [number, show ["zero"] = [enOnes.getD 0 ""] from rfl, hear_cons is]
    rfl
  · have heard_ := hear_composition (enPiece and (1000 ≤ n)) n 11
      (fun total group small => (hear_enPiece small (by decide)).trans (by rw [if_pos rfl]))
      (fun total scale group less small => (hear_enPiece small (by omega)).trans (by rw [if_neg (by omega)])) 0
    rw [if_neg zero, number, heard_, Nat.zero_add, Nat.mod_eq_of_lt within]

theorem enGroup_eq (positive : 0 < group_) : enGroup group_ and = " ".intercalate (enGroupWords and group_) := by
  unfold enGroup enGroupWords
  by_cases none_ : group_ / 100 = 0
  · have some_ : group_ % 100 ≠ 0 := by omega
    simp [none_, some_]
  · by_cases last : group_ % 100 = 0
    · simp [none_, last, String.append_assoc]
    · have said : " hundred " = " " ++ "hundred" ++ " " := by decide
      have joined : "and " = "and" ++ " " := by decide
      rw [said, joined]
      cases and <;> simp [none_, last, -String.reduceAppend, String.append_assoc]

theorem enGroupWords_some (and : Bool) (positive : 0 < group_) : enGroupWords and group_ ≠ [] := by
  unfold enGroupWords
  by_cases none_ : group_ / 100 = 0
  · have some_ : group_ % 100 ≠ 0 := by omega
    simp [some_]
  · simp [none_]

theorem enPiece_eq (and long : Bool) (positive : 0 < group_) (scaled : scale < 12) : " ".intercalate (enPiece and long scale group_) =
    (if and ∧ long ∧ scale = 0 ∧ group_ < 100 then "and " else "") ++ enGroup group_ and ++
      (if enScales.getD scale "" = "" then "" else " " ++ enScales.getD scale "") := by
  have some_ := enGroupWords_some and positive
  have unit : enScales.getD scale "" = "" ↔ scale = 0 := by
    revert scaled scale
    decide
  unfold enPiece
  rw [if_neg positive.ne', enGroup_eq positive]
  by_cases last : scale = 0
  · rw [if_pos last, if_pos (unit.mpr last), List.append_nil, String.append_empty]
    split
    · rw [String.intercalate_append_of_ne_nil (by simp) some_, String.intercalate_singleton]
      rfl
    · rw [List.nil_append, String.empty_append]
  · rw [if_neg (fun joins => last joins.2.2.1), if_neg last, if_neg (fun none_ => last (unit.mp none_)),
      if_neg (fun joins => last joins.2.2.1), List.nil_append, String.empty_append,
      String.intercalate_append_of_ne_nil some_ (by simp), String.intercalate_singleton, String.append_assoc]

theorem enPiece_some (positive : 0 < group_) : enPiece and long scale group_ ≠ [] := by
  have some_ := enGroupWords_some and positive
  unfold enPiece
  rw [if_neg positive.ne']
  simp [some_]

/-- The loop says the groups that are left; something was said before exactly when there were longer ones. -/
theorem enWords_tells (and : Bool) (n : Nat) (few : scale ≤ 12) (long : words = [] ↔ n / 1000 ^ scale = 0) (tells : Tells words spoken) :
    Tells (enWords and ((List.range scale).reverse.map (group n)) words)
      (spoken ++ composition (enPiece and (1000 ≤ n)) n scale) := by
  induction scale generalizing words spoken with
  | zero => simpa [enWords, composition] using tells
  | succ scale ih =>
    have step : n / 1000 ^ scale = n / 1000 ^ (scale + 1) * 1000 + group n scale := by
      rw [group, Nat.pow_succ, ← Nat.div_div_eq_div_mul, Nat.div_add_mod']
    rw [List.range_succ, List.reverse_append, List.reverse_singleton, List.singleton_append, List.map_cons, enWords, composition]
    by_cases none_ : group n scale = 0
    · rw [if_pos none_]
      have silent : enPiece and (1000 ≤ n) scale (group n scale) = [] := by rw [enPiece, if_pos none_]
      rw [silent, List.nil_append]
      exact ih (by omega) (by rw [long]; omega) tells
    · have positive : 0 < group n scale := by omega
      have joins : (and && ((List.range scale).reverse.map (group n)).isEmpty && !words.isEmpty && decide (group n scale < 100)) = true ↔
          and ∧ decide (1000 ≤ n) ∧ scale = 0 ∧ group n scale < 100 := by
        by_cases last : scale = 0
        · subst last
          have before : words = [] ↔ ¬ 1000 ≤ n := by
            rw [long]
            omega
          by_cases none' : words = []
          · simp [none', before.mp none']
          · have more : 1000 ≤ n := not_not.mp fun less => none' (before.mpr less)
            simp [none', more]
        · simp [last]
      have pushed := enPiece_eq and (decide (1000 ≤ n)) positive (show scale < 12 by omega)
      have length : ((List.range scale).reverse.map (group n)).length = scale := by simp
      rw [if_neg none_]
      simp only [length, joins, ← pushed]
      rw [← List.append_assoc]
      refine ih (by omega) ?_ (tells.push (enPiece_some positive))
      simp only [List.append_eq_nil_iff, List.cons_ne_nil, and_false, false_iff]
      omega

theorem enSpell_eq (within : n < 1000 ^ 12) (and : Bool) : enSpell n and = .ok (" ".intercalate (enComposition and n)) := by
  unfold enSpell enComposition
  by_cases zero : n = 0
  · rw [if_pos zero, if_pos zero, String.intercalate_singleton]
  · have positive : 0 < n := by omega
    have few : (Nat.digits 1000 n).length ≤ 12 := (Nat.digits_length_le_iff (by decide) n).mpr within
    have short := (thousandsGroups_length positive 12).mpr within
    have scales : enScales.length = 12 := by decide
    have tells := enWords_tells and n few
      (iff_of_true rfl (Nat.div_eq_of_lt (Nat.lt_base_pow_length_digits (by decide)))) (⟨Iff.rfl, rfl⟩ : Tells [] [])
    rw [if_neg zero, if_neg zero]
    simp only [scales, if_neg (not_lt.mpr short)]
    rw [thousandsGroups_eq positive, tells.2, List.nil_append,
      composition_short (fun scale => by rw [enPiece, if_pos rfl]) (Nat.lt_base_pow_length_digits (by decide)) few]

end Arki.Math.Words
