import Mathlib.Data.List.Basic

/-! Base64 text of bytes, as the web platform writes and reads it. -/

set_option autoImplicit false

namespace Arki.Base64

def character (six : Nat) : Char :=
  if six < 26 then Char.ofNat (65 + six)
  else if six < 52 then Char.ofNat (97 + (six - 26))
  else if six < 62 then Char.ofNat (48 + (six - 52))
  else if six = 62 then '+' else '/'

def sixOf (c : Char) : Option Nat :=
  if 65 ≤ c.toNat ∧ c.toNat ≤ 90 then some (c.toNat - 65)
  else if 97 ≤ c.toNat ∧ c.toNat ≤ 122 then some (c.toNat - 97 + 26)
  else if 48 ≤ c.toNat ∧ c.toNat ≤ 57 then some (c.toNat - 48 + 52)
  else if c = '+' then some 62
  else if c = '/' then some 63
  else none

def sixes : List Nat → List Nat
  | a :: b :: c :: rest => a / 4 :: (a % 4 * 16 + b / 16) :: (b % 16 * 4 + c / 64) :: c % 64 :: sixes rest
  | [a, b] => [a / 4, a % 4 * 16 + b / 16, b % 16 * 4]
  | [a] => [a / 4, a % 4 * 16]
  | [] => []

/-- The bytes of a text's bits. Bits that fill no byte at the end are dropped. -/
def bytesOf : List Nat → List Nat
  | p :: q :: r :: s :: rest => (p * 4 + q / 16) :: (q % 16 * 16 + r / 4) :: (r % 4 * 64 + s) :: bytesOf rest
  | [p, q, r] => [p * 4 + q / 16, q % 16 * 16 + r / 4]
  | [p, q] => [p * 4 + q / 16]
  | _ => []

def padding (bytes : List Nat) : List Char :=
  if bytes.length % 3 = 1 then ['=', '='] else if bytes.length % 3 = 2 then ['='] else []

def btoa (bytes : List Nat) : List Char := (sixes bytes).map character ++ padding bytes

def isSpace (c : Char) : Bool := c = ' ' || c = '\t' || c = '\n' || c = '\r' || c = Char.ofNat 12

def unpadded (text : List Char) : List Char :=
  if text.length % 4 = 0 then
    match text.reverse with
    | '=' :: '=' :: rest => rest.reverse
    | '=' :: rest => rest.reverse
    | _ => text
  else text

def atob (text : List Char) : Option (List Nat) :=
  let body := unpadded (text.filter fun c => !isSpace c)
  if body.length % 4 = 1 then none else (body.mapM sixOf).map bytesOf

theorem sixOf_character : ∀ six < 64, sixOf (character six) = some six := by decide

/-- A base64 character is no blank and no padding, and is spelled the same in every text. -/
theorem character_plain : ∀ six < 64, isSpace (character six) = false ∧ character six ≠ '=' ∧
    character six ≠ '-' ∧ character six ≠ '_' := by decide

theorem sixes_lt (bytes : List Nat) (small : ∀ byte ∈ bytes, byte < 256) : ∀ six ∈ sixes bytes, six < 64 := by
  fun_induction sixes bytes with
  | case1 a b c rest ih =>
    have tail := ih fun byte member => small byte (by simp [member])
    have first := small a (by simp)
    have second := small b (by simp)
    have third := small c (by simp)
    intro six member
    simp only [List.mem_cons] at member
    rcases member with rfl | rfl | rfl | rfl | member
    · omega
    · omega
    · omega
    · omega
    · exact tail six member
  | case2 a b =>
    have first := small a (by simp)
    have second := small b (by simp)
    simp
    omega
  | case3 a =>
    have first := small a (by simp)
    simp
    omega
  | case4 => simp

theorem sixes_length (bytes : List Nat) : (sixes bytes).length % 4 ≠ 1 := by
  fun_induction sixes bytes with
  | case1 a b c rest ih =>
    simp only [List.length_cons]
    omega
  | case2 => simp
  | case3 => simp
  | case4 => simp

theorem bytesOf_sixes (bytes : List Nat) (small : ∀ byte ∈ bytes, byte < 256) : bytesOf (sixes bytes) = bytes := by
  fun_induction sixes bytes with
  | case1 a b c rest ih =>
    have first := small a (by simp)
    have second := small b (by simp)
    have third := small c (by simp)
    rw [bytesOf, ih fun byte member => small byte (by simp [member])]
    congr 1
    · omega
    · congr 1
      · omega
      · congr 1
        omega
  | case2 a b =>
    have first := small a (by simp)
    have second := small b (by simp)
    simp only [bytesOf, List.cons.injEq, and_true]
    omega
  | case3 a =>
    have first := small a (by simp)
    simp only [bytesOf, List.cons.injEq, and_true]
    omega
  | case4 => rfl

theorem unpadded_eq {text : List Char} (plain : ∀ c ∈ text, c ≠ '=') : unpadded text = text := by
  unfold unpadded
  split
  · split
    · next rest reversed =>
      exact absurd rfl (plain '=' (List.mem_reverse.mp (by simp [reversed])))
    · next rest reversed =>
      exact absurd rfl (plain '=' (List.mem_reverse.mp (by simp [reversed])))
    · rfl
  · rfl

theorem mapM_sixOf (bits : List Nat) (small : ∀ six ∈ bits, six < 64) :
    (bits.map character).mapM sixOf = some bits := by
  induction bits with
  | nil => rfl
  | cons six rest ih =>
    rw [List.map_cons, List.mapM_cons, sixOf_character six (small six (by simp)),
      ih fun other member => small other (by simp [member])]
    rfl

theorem atob_sixes (bytes : List Nat) (small : ∀ byte ∈ bytes, byte < 256) :
    atob ((sixes bytes).map character) = some bytes := by
  have low := sixes_lt bytes small
  have plain : ∀ c ∈ (sixes bytes).map character, isSpace c = false ∧ c ≠ '=' := by
    intro c member
    obtain ⟨six, inside, rfl⟩ := List.mem_map.mp member
    exact ⟨(character_plain six (low six inside)).1, (character_plain six (low six inside)).2.1⟩
  have kept : ((sixes bytes).map character).filter (fun c => !isSpace c) = (sixes bytes).map character :=
    List.filter_eq_self.mpr fun c member => by simp [(plain c member).1]
  unfold atob
  simp only [kept, unpadded_eq fun c member => (plain c member).2, List.length_map, if_neg (sixes_length bytes),
    mapM_sixOf _ low, Option.map_some, bytesOf_sixes bytes small]

def spare : List Nat → Nat × Nat
  | _ :: _ :: _ :: _ :: rest => spare rest
  | [_, _, r] => (2, r % 4)
  | [_, q] => (4, q % 16)
  | [p] => (6, p)
  | [] => (0, 0)

theorem bytesOf_length (bits : List Nat) :
    (bytesOf bits).length = bits.length / 4 * 3 + if bits.length % 4 = 0 then 0 else bits.length % 4 - 1 := by
  fun_induction bytesOf bits with
  | case1 p q r s rest ih =>
    simp only [List.length_cons, ih]
    split_ifs <;> omega
  | case2 => simp
  | case3 => simp
  | case4 bits notFour notThree notTwo =>
    match bits, notFour, notThree, notTwo with
    | [], _, _, _ => rfl
    | [p], _, _, _ => simp
    | [p, q], _, _, notTwo => exact absurd rfl (notTwo p q)
    | [p, q, r], _, notThree, _ => exact absurd rfl (notThree p q r)
    | p :: q :: r :: s :: rest, notFour, _, _ => exact absurd rfl (notFour p q r s rest)

theorem bytesOf_lt (bits : List Nat) (small : ∀ six ∈ bits, six < 64) : ∀ byte ∈ bytesOf bits, byte < 256 := by
  fun_induction bytesOf bits with
  | case1 p q r s rest ih =>
    have first := small p (by simp)
    have second := small q (by simp)
    have third := small r (by simp)
    have fourth := small s (by simp)
    have tail := ih fun other member => small other (by simp [member])
    intro byte member
    simp only [List.mem_cons] at member
    rcases member with rfl | rfl | rfl | member
    · omega
    · omega
    · omega
    · exact tail byte member
  | case2 p q r =>
    have first := small p (by simp)
    have second := small q (by simp)
    have third := small r (by simp)
    simp
    omega
  | case3 p q =>
    have first := small p (by simp)
    have second := small q (by simp)
    simp
    omega
  | case4 => simp

theorem sixes_bytesOf (bits : List Nat) (small : ∀ six ∈ bits, six < 64) (whole : bits.length % 4 ≠ 1) (zero : (spare bits).2 = 0) :
    sixes (bytesOf bits) = bits := by
  fun_induction spare bits with
  | case1 p q r s rest ih =>
    have first := small p (by simp)
    have second := small q (by simp)
    have third := small r (by simp)
    have fourth := small s (by simp)
    have tail := ih (fun other member => small other (by simp [member])) (by simp only [List.length_cons] at whole; omega) zero
    simp only [bytesOf, sixes, tail, List.cons.injEq, and_true]
    omega
  | case2 p q r =>
    have first := small p (by simp)
    have second := small q (by simp)
    have third := small r (by simp)
    simp only [bytesOf, sixes, List.cons.injEq, and_true]
    omega
  | case3 p q =>
    have first := small p (by simp)
    have second := small q (by simp)
    simp only [bytesOf, sixes, List.cons.injEq, and_true]
    omega
  | case4 p => exact absurd rfl whole
  | case5 => rfl

theorem spare_sixes (bytes : List Nat) : (spare (sixes bytes)).2 = 0 := by
  fun_induction sixes bytes with
  | case1 a b c rest ih => exact ih
  | case2 a b =>
    simp only [spare]
    omega
  | case3 a =>
    simp only [spare]
    omega
  | case4 => rfl

theorem sixes_mod (bytes : List Nat) : (4 - (sixes bytes).length % 4) % 4 = (3 - bytes.length % 3) % 3 := by
  fun_induction sixes bytes with
  | case1 a b c rest ih =>
    simp only [List.length_cons]
    omega
  | case2 => rfl
  | case3 => rfl
  | case4 => rfl

end Arki.Base64
