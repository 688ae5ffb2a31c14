import Arki.Math.Words

/-! The Romanian words of a number: groups of three from the highest scale down, each in the gender of what stands after it. -/

set_option autoImplicit false

namespace Arki.Math.Words

open Spoken

def roGenders : List Gender := [.masculine, .feminine, .neuter]

def roMeaning (word : String) : Option Meaning :=
  if word = "o" ∨ word = "un" then some (.amount 1)
  else if word = "sută" ∨ word = "sute" then some .hundred
  else if word = "și" ∨ word = "de" then some .joining
  else
    match (List.range 20).find? fun n => roGenders.any fun gender => roOne n gender = word with
    | some n => some (.amount n)
    | none =>
      match (List.range 10).find? fun tens => 2 ≤ tens && roTens.getD tens "" = word with
      | some tens => some (.amount (tens * 10))
      | none =>
        ((List.range 5).find? fun scale => roScalesSingular.getD scale "" = word || roScalesPlural.getD scale "" = word).map .scale

def roBelow100Words (n : Nat) (gender : Gender) : List String :=
  if n < 20 then [roOne n gender]
  else [roTens.getD (n / 10) ""] ++ (if n % 10 = 0 then [] else ["și", roOne (n % 10) gender])

/-- The words of a group: its hundreds are feminine, the rest has the gender asked for. -/
def roGroupWords (gender : Gender) (group : Nat) : List String :=
  (if group / 100 = 1 then ["o", "sută"] else if 1 < group / 100 then [roOne (group / 100) .feminine, "sute"] else []) ++
    (if group % 100 = 0 then [] else roBelow100Words (group % 100) gender)

/-- A group with its scale noun: one of a scale is singular, and `de` joins the multipliers that need it. -/
def roPiece (gender : Gender) (scale group : Nat) : List String :=
  if group = 0 then []
  else if scale = 0 then roGroupWords gender group
  else if group = 1 then [if scale = 1 then "o" else "un", roScalesSingular.getD scale ""]
  else roGroupWords (roScaleGender.getD scale .masculine) group ++ (if needsDe group then ["de"] else []) ++ [roScalesPlural.getD scale ""]

def roComposition (gender : Gender) (n : Nat) : List String := if n = 0 then ["zero"] else composition (roPiece gender) n 5

theorem roMeaning_table :
    (∀ gender ∈ roGenders, ∀ n < 20, roMeaning (roOne n gender) = some (.amount n)) ∧
      (∀ tens < 10, 2 ≤ tens → roMeaning (roTens.getD tens "") = some (.amount (tens * 10))) ∧
        (∀ scale < 5, 0 < scale → roMeaning (roScalesSingular.getD scale "") = some (.scale scale)) ∧
          ∀ scale < 5, 0 < scale → roMeaning (roScalesPlural.getD scale "") = some (.scale scale) := by
  decide +kernel

theorem roMeaning_one (gender : Gender) : ∀ n < 20, roMeaning (roOne n gender) = some (.amount n) :=
  roMeaning_table.1 gender (by cases gender <;> decide)

theorem roMeaning_tens : ∀ tens < 10, 2 ≤ tens → roMeaning (roTens.getD tens "") = some (.amount (tens * 10)) := roMeaning_table.2.1

theorem roMeaning_singular : ∀ scale < 5, 0 < scale → roMeaning (roScalesSingular.getD scale "") = some (.scale scale) :=
  roMeaning_table.2.2.1

theorem roMeaning_plural : ∀ scale < 5, 0 < scale → roMeaning (roScalesPlural.getD scale "") = some (.scale scale) :=
  roMeaning_table.2.2.2

theorem roMeaning_plain {word : String} (known : (roMeaning word).isSome) : ' ' ∉ word.toList := by
  obtain ⟨ones, tens, scales⟩ : (∀ n < 20, ∀ gender ∈ roGenders, ' ' ∉ (roOne n gender).toList) ∧
      (∀ tens < 10, ' ' ∉ (roTens.getD tens "").toList) ∧
        ∀ scale < 5, ' ' ∉ (roScalesSingular.getD scale "").toList ∧ ' ' ∉ (roScalesPlural.getD scale "").toList := by
    decide +kernel
  unfold roMeaning at known
  split at known
  · next is => rcases is with rfl | rfl <;> decide
  · split at known
    · next is => rcases is with rfl | rfl <;> decide
    · split at known
      · next is => rcases is with rfl | rfl <;> decide
      · split at known
        · next n found =>
          have is := List.find?_some found
          have inside := List.mem_of_find?_eq_some found
          rw [List.any_eq_true] at is
          obtain ⟨gender, member, same⟩ := is
          rw [decide_eq_true_eq] at same
          rw [← same]
          exact ones n (List.mem_range.mp inside) gender member
        · split at known
          · next n found =>
            have is := List.find?_some found
            have inside := List.mem_of_find?_eq_some found
            rw [Bool.and_eq_true, decide_eq_true_eq, decide_eq_true_eq] at is
            rw [← is.2]
            exact tens n (List.mem_range.mp inside)
          · rw [Option.isSome_map] at known
            obtain ⟨scale, found⟩ := Option.isSome_iff_exists.mp known
            have is := List.find?_some found
            have inside := scales scale (List.mem_range.mp (List.mem_of_find?_eq_some found))
            rw [Bool.or_eq_true, decide_eq_true_eq, decide_eq_true_eq] at is
            rcases is with same | same
            · rw [← same]
              exact inside.1
            · rw [← same]
              exact inside.2

variable {gender : Gender} {n group_ scale total current : Nat} {words spoken : List String}

theorem hear_roBelow100 (small : n < 100) : hear roMeaning ⟨total, current⟩ (roBelow100Words n gender) = some ⟨total, current + n⟩ := by
  unfold roBelow100Words
  by_cases few : n < 20
  · rw [if_pos few, hear_cons (roMeaning_one gender n few)]
    rfl
  · have tens := roMeaning_tens (n / 10) (by omega) (by omega)
    rw [if_neg few, List.singleton_append, hear_cons tens]
    by_cases none_ : n % 10 = 0
    · rw [if_pos none_, hear_nil]
      simp only [Heard.word, Option.some.injEq, Heard.mk.injEq, true_and]
      omega
    · have joins : roMeaning "și" = some .joining := by decide
      rw [if_neg none_, hear_cons joins, hear_cons (roMeaning_one gender (n % 10) (by omega)), hear_nil]
      simp only [Heard.word, Option.some.injEq, Heard.mk.injEq, true_and]
      omega

theorem hear_roGroup (small : group_ < 1000) : hear roMeaning ⟨total, 0⟩ (roGroupWords gender group_) = some ⟨total, group_⟩ := by
  have rest_ (current : Nat) : hear roMeaning ⟨total, current⟩ (if group_ % 100 = 0 then [] else roBelow100Words (group_ % 100) gender) =
      some ⟨total, current + group_ % 100⟩ := by
    by_cases none_ : group_ % 100 = 0
    · rw [if_pos none_, none_]
      rfl
    · rw [if_neg none_]
      exact hear_roBelow100 (by omega)
  have hundreds : hear roMeaning ⟨total, 0⟩ (if group_ / 100 = 1 then ["o", "sută"]
      else if 1 < group_ / 100 then [roOne (group_ / 100) .feminine, "sute"] else []) = some ⟨total, group_ / 100 * 100⟩ := by
    by_cases one : group_ / 100 = 1
    · have single : roMeaning "o" = some (.amount 1) := by decide
      have hundred : roMeaning "sută" = some .hundred := by decide
      rw [if_pos one, one, hear_cons single, hear_cons hundred]
      simp [Heard.word]
    · rw [if_neg one]
      by_cases more : 1 < group_ / 100
      · have hundred : roMeaning "sute" = some .hundred := by decide
        rw [if_pos more, hear_cons (roMeaning_one .feminine (group_ / 100) (by omega)), hear_cons hundred]
        simp [Heard.word]
      · have zero : group_ / 100 = 0 := by omega
        rw [if_neg more, zero]
        rfl
  unfold roGroupWords
  rw [hear_append, hundreds, Option.bind_some, rest_, Option.some.injEq, Heard.mk.injEq]
  omega

theorem hear_roPiece (small : group_ < 1000) (scaled : scale < 5) : hear roMeaning ⟨total, 0⟩ (roPiece gender scale group_) =
    some (if scale = 0 then ⟨total, group_⟩ else ⟨total + group_ * 1000 ^ scale, 0⟩) := by
  unfold roPiece
  by_cases none_ : group_ = 0
  · rw [if_pos none_, none_]
    simp
  · rw [if_neg none_]
    by_cases last : scale = 0
    · rw [if_pos last, if_pos last]
      exact hear_roGroup small
    · rw [if_neg last, if_neg last]
      by_cases one : group_ = 1
      · have article : roMeaning (if scale = 1 then "o" else "un") = some (.amount 1) := by split <;> decide
        rw [if_pos one, one, hear_cons article, hear_cons (roMeaning_singular scale scaled (by omega))]
        simp [Heard.word]
      · have joined (heard : Heard) : hear roMeaning heard (if needsDe group_ then ["de"] else []) = some heard := by
          split
          · exact hear_cons (show roMeaning "de" = some .joining by decide)
          · rfl
        rw [if_neg one, List.append_assoc, hear_append, hear_roGroup small, Option.bind_some, hear_append, joined, Option.bind_some,
          hear_cons (roMeaning_plural scale scaled (by omega))]
        rfl

theorem number_roComposition (within : n < 1000 ^ 5) : number roMeaning (roComposition gender n) = some n := by
  unfold roComposition
  by_cases zero : n = 0
  · rw [if_pos zero, zero]
    decide
  · have heard_ := hear_composition (roPiece gender) n 4
      (fun total group small => (hear_roPiece small (by decide)).trans (by rw [if_pos rfl]))
      (fun total scale group less small => (hear_roPiece small (by omega)).trans (by rw [if_neg (by omega)])) 0
    rw [if_neg zero, number, heard_, Nat.zero_add, Nat.mod_eq_of_lt within]

theorem roBelow100_eq : roBelow100 n gender = " ".intercalate (roBelow100Words n gender) := by
  unfold roBelow100 roBelow100Words
  by_cases few : n < 20
  · simp [few]
  · by_cases none_ : n % 10 = 0
    · simp [few, none_]
    · have joined : " și " = " " ++ "și" ++ " " := by decide
      rw [joined]
      simp [few, none_, -String.reduceAppend, String.append_assoc]

theorem roBelow100_some (n : Nat) (gender : Gender) : roBelow100Words n gender ≠ [] := by
  unfold roBelow100Words
  split <;> simp

theorem roGroup_eq (group_ : Nat) (gender : Gender) : roGroup group_ gender = " ".intercalate (roGroupWords gender group_) := by
  have some_ := roBelow100_some (group_ % 100) gender
  have tells : Tells (if group_ / 100 = 1 then ["o sută"] else if 1 < group_ / 100 then [roOne (group_ / 100) .feminine ++ " sute"] else [])
      (if group_ / 100 = 1 then ["o", "sută"] else if 1 < group_ / 100 then [roOne (group_ / 100) .feminine, "sute"] else []) := by
    by_cases one : group_ / 100 = 1
    · rw [if_pos one, if_pos one]
      exact ⟨by simp, by decide⟩
    · rw [if_neg one, if_neg one]
      by_cases more : 1 < group_ / 100
      · rw [if_pos more, if_pos more]
        exact ⟨by simp, by simp [String.append_assoc]⟩
      · rw [if_neg more, if_neg more]
        exact ⟨Iff.rfl, rfl⟩
  unfold roGroup roGroupWords
  by_cases none_ : group_ % 100 = 0
  · simpa [none_] using tells.2
  · have positive : 0 < group_ % 100 := by omega
    have both := (tells.push some_).2
    simpa only [if_neg none_, if_pos positive, roBelow100_eq] using both

theorem roGroupWords_some (gender : Gender) (positive : 0 < group_) (small : group_ < 1000) : roGroupWords gender group_ ≠ [] := by
  have some_ := roBelow100_some (group_ % 100) gender
  unfold roGroupWords
  by_cases one : group_ / 100 = 1
  · simp [one]
  · by_cases more : 1 < group_ / 100
    · simp [one, more]
    · have last : group_ % 100 ≠ 0 := by omega
      simp [last, some_]

theorem roPiece_some (gender : Gender) (scale : Nat) (positive : 0 < group_) (small : group_ < 1000) : roPiece gender scale group_ ≠ [] := by
  unfold roPiece
  rw [if_neg positive.ne']
  by_cases last : scale = 0
  · rw [if_pos last]
    exact roGroupWords_some gender positive small
  · rw [if_neg last]
    split <;> simp

theorem roPiece_eq (positive : 0 < group_) (small : group_ < 1000) (scaled : 0 < scale) (more : group_ ≠ 1) :
    roGroup group_ (roScaleGender.getD scale .masculine) ++ (if needsDe group_ then " de" else "") ++ " " ++ roScalesPlural.getD scale "" =
      " ".intercalate (roPiece gender scale group_) := by
  have some_ := roGroupWords_some (roScaleGender.getD scale .masculine) positive small
  unfold roPiece
  rw [if_neg positive.ne', if_neg scaled.ne', if_neg more, roGroup_eq, List.append_assoc, String.intercalate_append_of_ne_nil some_ (by simp)]
  cases needsDe group_
  · simp [String.append_assoc]
  · have joined : " de" = " " ++ "de" := by decide
    rw [if_pos rfl, if_pos rfl, joined]
    simp [-String.reduceAppend, String.append_assoc]

theorem roWords_tells (gender : Gender) (n : Nat) (few : scale ≤ 5) (tells : Tells words spoken) :
    Tells (roWords gender ((List.range scale).reverse.map (group n)) words) (spoken ++ composition (roPiece gender) n scale) := by
  induction scale generalizing words spoken with
  | zero => simpa [roWords, composition] using tells
  | succ scale ih =>
    have small : group n scale < 1000 := Nat.mod_lt _ (by decide)
    have length : ((List.range scale).reverse.map (group n)).length = scale := by simp
    rw [List.range_succ, List.reverse_append, List.reverse_singleton, List.singleton_append, List.map_cons, roWords, composition]
    simp only [length]
    by_cases none_ : group n scale = 0
    · rw [if_pos none_]
      have silent : roPiece gender scale (group n scale) = [] := by rw [roPiece, if_pos none_]
      rw [silent, List.nil_append]
      exact ih (by omega) tells
    · have positive : 0 < group n scale := by omega
      have next_ := tells.push (roPiece_some gender scale positive small)
      rw [if_neg none_, ← List.append_assoc]
      by_cases last : scale = 0
      · have piece : roGroup (group n scale) gender = " ".intercalate (roPiece gender scale (group n scale)) := by
          rw [roPiece, if_neg none_, if_pos last, roGroup_eq]
        rw [if_pos last, piece]
        exact ih (by omega) next_
      · rw [if_neg last]
        by_cases one : group n scale = 1
        · have piece : (if scale = 1 then "o" else "un") ++ " " ++ roScalesSingular.getD scale "" =
              " ".intercalate (roPiece gender scale (group n scale)) := by
            rw [roPiece, if_neg none_, if_neg last, if_pos one]
            simp
          rw [if_pos one, piece]
          exact ih (by omega) next_
        · rw [if_neg one, roPiece_eq positive small (by omega) one]
          exact ih (by omega) next_

theorem roSpell_eq (within : n < 1000 ^ 5) (gender : Option Gender) :
    roSpell n gender = .ok (" ".intercalate (roComposition (gender.getD .masculine) n)) := by
  unfold roSpell roComposition
  by_cases zero : n = 0
  · rw [if_pos zero, if_pos zero, String.intercalate_singleton]
    rfl
  · have positive : 0 < n := by omega
    have few : (Nat.digits 1000 n).length ≤ 5 := (Nat.digits_length_le_iff (by decide) n).mpr within
    have short := (thousandsGroups_length positive 5).mpr within
    have scales : roScalesSingular.length = 5 := by decide
    have tells := roWords_tells (gender.getD .masculine) n few (⟨Iff.rfl, rfl⟩ : Tells [] [])
    rw [if_neg zero, if_neg zero]
    simp only [scales, if_neg (not_lt.mpr short)]
    rw [thousandsGroups_eq positive, tells.2, List.nil_append,
      composition_short (fun scale => by rw [roPiece, if_pos rfl]) (Nat.lt_base_pow_length_digits (by decide)) few]

end Arki.Math.Words
