import Mathlib.Data.List.GetD
import Mathlib.Data.Nat.Digits.Lemmas

/-! Numbers in words: what each word means, how they are heard one after another, and numbers said in groups of three digits
from the highest scale down. -/

set_option autoImplicit false

namespace Spoken

inductive Meaning where
  | amount (value : Nat)
  | hundred
  | joining
  | scale (exponent : Nat)
  deriving DecidableEq

structure Heard where
  total : Nat
  current : Nat
  deriving DecidableEq

def Heard.word (heard : Heard) : Meaning → Heard
  | .amount value => ⟨heard.total, heard.current + value⟩
  | .hundred => ⟨heard.total, heard.current * 100⟩
  | .joining => heard
  | .scale exponent => ⟨heard.total + heard.current * 1000 ^ exponent, 0⟩

variable (meaning : String → Option Meaning)

def hear (heard : Heard) (words : List String) : Option Heard :=
  words.foldlM (fun heard word => (meaning word).map heard.word) heard

def number (words : List String) : Option Nat := (hear meaning ⟨0, 0⟩ words).map fun heard => heard.total + heard.current

def signed (negative : String) : List String → Option Int
  | [] => none
  | word :: words => if word = negative then (number meaning words).map fun n => -(n : Int) else (number meaning (word :: words)).map (↑)

def wordsOf (text : String) : List String := (text.toList.splitOn ' ').map String.ofList

def group (n scale : Nat) : Nat := n / 1000 ^ scale % 1000

def composition (piece : Nat → Nat → List String) (n : Nat) : Nat → List String
  | 0 => []
  | scale + 1 => piece scale (group n scale) ++ composition piece n scale

variable {meaning} {heard : Heard} {word negative : String} {words first rest : List String} {n scale value : Nat}

@[simp] theorem hear_nil : hear meaning heard [] = some heard := rfl

theorem hear_cons {is : Meaning} (means : meaning word = some is) : hear meaning heard (word :: words) =
    hear meaning (heard.word is) words := by
  simp [hear, means]

theorem hear_append : hear meaning heard (first ++ rest) = (hear meaning heard first).bind fun heard => hear meaning heard rest := by
  simp [hear, List.foldlM_append, Option.bind_eq_bind]

theorem hear_composition (piece : Nat → Nat → List String) (n value : Nat)
    (units : ∀ total group, group < 1000 → hear meaning ⟨total, 0⟩ (piece 0 group) = some ⟨total, group⟩)
    (scales : ∀ total scale group, scale < value → group < 1000 →
      hear meaning ⟨total, 0⟩ (piece (scale + 1) group) = some ⟨total + group * 1000 ^ (scale + 1), 0⟩) :
    ∀ total, (hear meaning ⟨total, 0⟩ (composition piece n (value + 1))).map (fun heard => heard.total + heard.current) =
      some (total + n % 1000 ^ (value + 1)) := by
  induction value with
  | zero =>
    intro total
    have small : group n 0 < 1000 := Nat.mod_lt _ (by decide)
    rw [composition, composition, List.append_nil, units total _ small]
    simp [group]
  | succ value ih =>
    intro total
    have small : group n (value + 1) < 1000 := Nat.mod_lt _ (by decide)
    rw [composition, hear_append, scales total value _ (Nat.lt_succ_self value) small]
    rw [Option.bind_some, ih fun total scale group less => scales total scale group (by omega)]
    rw [Nat.pow_succ 1000 (value + 1), Nat.mod_mul]
    simp only [group, Option.some.injEq]
    ring

theorem hear_known {last : Heard} (heard_ : hear meaning heard words = some last) : ∀ word ∈ words, (meaning word).isSome := by
  induction words generalizing heard with
  | nil => simp
  | cons word words ih =>
    cases means : meaning word with
    | none => simp [hear, means] at heard_
    | some is =>
      rw [hear_cons means] at heard_
      intro other member
      rcases List.mem_cons.mp member with rfl | later
      · rw [means]
        rfl
      · exact ih heard_ other later

theorem composition_short {piece : Nat → Nat → List String} (silent : ∀ scale, piece scale 0 = []) {short : Nat} (less : n < 1000 ^ short)
    (more : short ≤ scale) : composition piece n scale = composition piece n short := by
  induction scale, more using Nat.le_induction with
  | base => rfl
  | succ scale more ih =>
    have zero : group n scale = 0 := by
      rw [group, Nat.div_eq_of_lt (lt_of_lt_of_le less (Nat.pow_le_pow_right (by decide) more))]
    rw [composition, zero, silent, List.nil_append, ih]

theorem digits_eq (n : Nat) : Nat.digits 1000 n = (List.range (Nat.digits 1000 n).length).map (group n) := by
  apply List.ext_getElem
  · simp
  · intro i inside _
    rw [List.getElem_map, List.getElem_range, group, ← Nat.getD_digits n i (by decide), List.getD_eq_getElem _ _ inside]

def Tells (phrases words : List String) : Prop := (phrases = [] ↔ words = []) ∧ " ".intercalate phrases = " ".intercalate words

theorem Tells.push {phrases : List String} (tells : Tells phrases words) (more : rest ≠ []) :
    Tells (phrases ++ [" ".intercalate rest]) (words ++ rest) := by
  constructor
  · simp [more]
  · by_cases none_ : words = []
    · rw [tells.1.mpr none_, none_, List.nil_append, List.nil_append, String.intercalate_singleton]
    · have some_ : phrases ≠ [] := fun nothing => none_ (tells.1.mp nothing)
      rw [String.intercalate_append_of_ne_nil some_ (by simp), String.intercalate_append_of_ne_nil none_ more, tells.2,
        String.intercalate_singleton]

theorem wordsOf_intercalate (apart : ∀ word ∈ words, ' ' ∉ word.toList) (some_ : words ≠ []) :
    wordsOf (" ".intercalate words) = words := by
  unfold wordsOf
  rw [String.toList_intercalate, show " ".toList = [' '] from rfl, List.splitOn_intercalate]
  · rw [List.map_map]
    exact List.map_id'' (fun word => String.ofList_toList) words
  · intro letters member
    obtain ⟨word, isWord, rfl⟩ := List.mem_map.mp member
    exact apart word isWord
  · simpa using some_

theorem signed_words (apart : ∀ word, (meaning word).isSome → ' ' ∉ word.toList) (minus : meaning negative = none)
    (tells : number meaning words = some n) (some_ : words ≠ []) : signed meaning negative (wordsOf (" ".intercalate words)) = some n := by
  obtain ⟨last, heard_, total⟩ := Option.map_eq_some_iff.mp tells
  have known := hear_known heard_
  rw [wordsOf_intercalate (fun word member => apart word (known word member)) some_]
  cases words with
  | nil => exact absurd rfl some_
  | cons word words =>
    have other : word ≠ negative := by
      rintro rfl
      have is := known word (by simp)
      rw [minus] at is
      cases is
    rw [signed, if_neg other, tells]
    rfl

theorem signed_negative (apart : ∀ word, (meaning word).isSome → ' ' ∉ word.toList) (plain : ' ' ∉ negative.toList)
    (tells : number meaning words = some n) :
    signed meaning negative (wordsOf (" ".intercalate (negative :: words))) = some (-(n : Int)) := by
  obtain ⟨last, heard_, total⟩ := Option.map_eq_some_iff.mp tells
  have known := hear_known heard_
  rw [wordsOf_intercalate _ (by simp)]
  · rw [signed, if_pos rfl, tells]
    rfl
  · intro word member
    rcases List.mem_cons.mp member with rfl | later
    · exact plain
    · exact apart word (known word later)

end Spoken
