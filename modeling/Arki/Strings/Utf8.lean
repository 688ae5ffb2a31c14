import Arki.Library.Utf16
import Mathlib

/-! Texts as UTF-8 bytes and back. Decoding is strict: what has a shorter form, is half of a pair or is cut off is refused.

The bit operations of the source are on numbers below 2^21, where those of the natural numbers are the same.
-/

set_option autoImplicit false

namespace Arki.Strings

open Utf16 (codePoints fromCodePoint isSurrogate)

structure Failure where
  code : String
  status : Nat
  message : String
  remediation : String
  deriving DecidableEq

def InvalidUtf8 : Failure where
  code := "string.invalid_utf8"
  status := 400
  message := "Text or bytes are not valid UTF-8."
  remediation := "Pass well-formed text without lone surrogates or valid UTF-8 bytes."

/-- `new Uint8Array(length)` with its elements then set from the first on. A value set past the end is lost. -/
def uint8Array (length : Nat) (values : List Nat) : List UInt8 :=
  (values.take length).map UInt8.ofNat ++ List.replicate (length - values.length) 0

/-- The loop of `byteLength`. -/
def byteLengthFrom (total : Nat) : List Nat → Except Failure Nat
  | [] => .ok total
  | cp :: rest =>
    if isSurrogate cp then .error InvalidUtf8
    else byteLengthFrom (total + if cp < 0x80 then 1 else if cp < 0x800 then 2 else if cp < 0x10000 then 3 else 4) rest

def byteLength (text : List UInt16) : Except Failure Nat := byteLengthFrom 0 (codePoints text)

/-- What `utf8Encode` sets for one code point. -/
def encoded (cp : Nat) : List Nat :=
  if cp < 0x80 then [cp]
  else if cp < 0x800 then [0xC0 ||| (cp >>> 6), 0x80 ||| (cp &&& 0x3F)]
  else if cp < 0x10000 then [0xE0 ||| (cp >>> 12), 0x80 ||| ((cp >>> 6) &&& 0x3F), 0x80 ||| (cp &&& 0x3F)]
  else [0xF0 ||| (cp >>> 18), 0x80 ||| ((cp >>> 12) &&& 0x3F), 0x80 ||| ((cp >>> 6) &&& 0x3F), 0x80 ||| (cp &&& 0x3F)]

def utf8Encode (text : List UInt16) : Except Failure (List UInt8) := do
  let length ← byteLength text
  return uint8Array length ((codePoints text).flatMap encoded)

/-- The payload of a continuation byte; none where the source has -1. -/
def continuation (bytes : List UInt8) (index : Nat) : Option Nat :=
  match bytes[index]? with
  | none => none
  | some byte => if byte.toNat &&& 0xC0 ≠ 0x80 then none else some (byte.toNat &&& 0x3F)

/-- The code point that starts with `b0`, and how many bytes it has. -/
def decodeOne (b0 : Nat) (rest : List UInt8) : Except Failure (Nat × Nat) :=
  if b0 < 0x80 then .ok (b0, 1)
  else if b0 &&& 0xE0 = 0xC0 then
    match continuation rest 0 with
    | some b1 =>
      if (b0 &&& 0x1F) <<< 6 ||| b1 < 0x80 then .error InvalidUtf8 else .ok ((b0 &&& 0x1F) <<< 6 ||| b1, 2)
    | none => .error InvalidUtf8
  else if b0 &&& 0xF0 = 0xE0 then
    match continuation rest 0, continuation rest 1 with
    | some b1, some b2 =>
      if (b0 &&& 0x0F) <<< 12 ||| b1 <<< 6 ||| b2 < 0x800 then .error InvalidUtf8
      else if isSurrogate ((b0 &&& 0x0F) <<< 12 ||| b1 <<< 6 ||| b2) then .error InvalidUtf8
      else .ok ((b0 &&& 0x0F) <<< 12 ||| b1 <<< 6 ||| b2, 3)
    | _, _ => .error InvalidUtf8
  else if b0 &&& 0xF8 = 0xF0 then
    match continuation rest 0, continuation rest 1, continuation rest 2 with
    | some b1, some b2, some b3 =>
      if (b0 &&& 0x07) <<< 18 ||| b1 <<< 12 ||| b2 <<< 6 ||| b3 < 0x10000 ∨ 0x10FFFF < (b0 &&& 0x07) <<< 18 ||| b1 <<< 12 ||| b2 <<< 6 ||| b3 then
        .error InvalidUtf8
      else .ok ((b0 &&& 0x07) <<< 18 ||| b1 <<< 12 ||| b2 <<< 6 ||| b3, 4)
    | _, _, _ => .error InvalidUtf8
  else .error InvalidUtf8

/-- The loop of `utf8Decode`. The code points wait in a list until they are 4096. -/
def utf8DecodeFrom (waiting : List Nat) (output : List UInt16) : List UInt8 → Except Failure (List UInt16)
  | [] => .ok (output ++ waiting.flatMap fromCodePoint)
  | b0 :: rest =>
    match decodeOne b0.toNat rest with
    | .error failure => .error failure
    | .ok (cp, width) =>
      if 4096 ≤ (waiting ++ [cp]).length then
        utf8DecodeFrom [] (output ++ (waiting ++ [cp]).flatMap fromCodePoint) (rest.drop (width - 1))
      else utf8DecodeFrom (waiting ++ [cp]) output (rest.drop (width - 1))
  termination_by bytes => bytes.length
  decreasing_by all_goals (simp only [List.length_drop, List.length_cons]; omega)

def utf8Decode (bytes : List UInt8) : Except Failure (List UInt16) := utf8DecodeFrom [] [] bytes

theorem mask_three (n : Nat) : n &&& 0x07 = n % 8 := Nat.and_two_pow_sub_one_eq_mod n 3

theorem mask_four (n : Nat) : n &&& 0x0F = n % 16 := Nat.and_two_pow_sub_one_eq_mod n 4

theorem mask_five (n : Nat) : n &&& 0x1F = n % 32 := Nat.and_two_pow_sub_one_eq_mod n 5

theorem mask_six (n : Nat) : n &&& 0x3F = n % 64 := Nat.and_two_pow_sub_one_eq_mod n 6

theorem shift_or {high low bits : Nat} (small : low < 2 ^ bits) : high <<< bits ||| low = high * 2 ^ bits + low := by
  rw [← Nat.shiftLeft_add_eq_or_of_lt small, Nat.shiftLeft_eq]

theorem byte_forms : ∀ byte < 256, (byte &&& 0xC0 = 0x80 ↔ 128 ≤ byte ∧ byte < 192) ∧ (byte &&& 0xE0 = 0xC0 ↔ 192 ≤ byte ∧ byte < 224) ∧
    (byte &&& 0xF0 = 0xE0 ↔ 224 ≤ byte ∧ byte < 240) ∧ (byte &&& 0xF8 = 0xF0 ↔ 240 ≤ byte ∧ byte < 248) := by
  decide +kernel

theorem marked : ∀ n < 64, 0x80 ||| n = 128 + n ∧ (n < 32 → 0xC0 ||| n = 192 + n) ∧ (n < 16 → 0xE0 ||| n = 224 + n) ∧
    (n < 8 → 0xF0 ||| n = 240 + n) := by
  decide +kernel

def spelled (cp : Nat) : List Nat :=
  if cp < 0x80 then [cp]
  else if cp < 0x800 then [192 + cp / 64, 128 + cp % 64]
  else if cp < 0x10000 then [224 + cp / 4096, 128 + cp / 64 % 64, 128 + cp % 64]
  else [240 + cp / 262144, 128 + cp / 4096 % 64, 128 + cp / 64 % 64, 128 + cp % 64]

theorem encoded_eq {cp : Nat} (small : cp < 0x110000) : encoded cp = spelled cp := by
  unfold encoded spelled
  simp only [mask_six, Nat.shiftRight_eq_div_pow]
  split
  · rfl
  · split
    · rw [(marked (cp / 2 ^ 6) (by omega)).2.1 (by omega), (marked (cp % 64) (by omega)).1]
    · split
      · rw [(marked (cp / 2 ^ 12) (by omega)).2.2.1 (by omega), (marked (cp / 2 ^ 6 % 64) (by omega)).1, (marked (cp % 64) (by omega)).1]
      · rw [(marked (cp / 2 ^ 18) (by omega)).2.2.2 (by omega), (marked (cp / 2 ^ 12 % 64) (by omega)).1,
          (marked (cp / 2 ^ 6 % 64) (by omega)).1, (marked (cp % 64) (by omega)).1]

theorem spelled_lt {cp : Nat} (small : cp < 0x110000) : ∀ byte ∈ spelled cp, byte < 256 := by
  unfold spelled
  intro byte inside
  split at inside
  · simp only [List.mem_cons, List.not_mem_nil, or_false] at inside
    omega
  · split at inside
    · simp only [List.mem_cons, List.not_mem_nil, or_false] at inside
      omega
    · split at inside <;> simp only [List.mem_cons, List.not_mem_nil, or_false] at inside <;> omega

theorem payload_two {a b : Nat} (first : b < 64) : a <<< 6 ||| b = a * 64 + b := shift_or first

theorem payload_three {a b c : Nat} (first : b < 64) (second : c < 64) : a <<< 12 ||| b <<< 6 ||| c = a * 4096 + b * 64 + c := by
  have joined : a <<< 12 ||| b <<< 6 = (a * 64 + b) <<< 6 := by
    rw [← payload_two first, Nat.shiftLeft_or_distrib, ← Nat.shiftLeft_add]
  rw [joined, payload_two second]
  omega

theorem payload_four {a b c d : Nat} (first : b < 64) (second : c < 64) (third : d < 64) :
    a <<< 18 ||| b <<< 12 ||| c <<< 6 ||| d = a * 262144 + b * 4096 + c * 64 + d := by
  have joined : a <<< 18 ||| b <<< 12 ||| c <<< 6 = (a * 4096 + b * 64 + c) <<< 6 := by
    rw [← payload_three first second]
    simp only [Nat.shiftLeft_or_distrib, ← Nat.shiftLeft_add]
  rw [joined, payload_two third]
  omega

theorem toNat_ofNat {byte : Nat} (small : byte < 256) : (UInt8.ofNat byte).toNat = byte := by simp [Nat.mod_eq_of_lt small]

theorem continuation_eq {bytes : List UInt8} {index payload : Nat} (small : payload < 64)
    (here : bytes[index]? = some (UInt8.ofNat (128 + payload))) : continuation bytes index = some payload := by
  have form := (byte_forms (128 + payload) (by omega)).1.mpr (by omega)
  have low : (128 + payload) % 64 = payload := by omega
  simp only [continuation, here, toNat_ofNat (show 128 + payload < 256 by omega), form, ne_eq, not_true_eq_false, if_false, mask_six, low]

theorem continuation_some {bytes : List UInt8} {index payload : Nat} (read : continuation bytes index = some payload) :
    payload < 64 ∧ ∃ byte, bytes[index]? = some byte ∧ byte.toNat = 128 + payload := by
  unfold continuation at read
  cases here : bytes[index]? with
  | none => simp [here] at read
  | some byte =>
    have form := (byte_forms byte.toNat byte.toNat_lt).1
    simp only [here, mask_six] at read
    split at read
    · cases read
    · next isTail =>
      have range := form.mp (not_not.mp isTail)
      obtain rfl := Option.some.inj read
      exact ⟨Nat.mod_lt _ (by omega), byte, rfl, by omega⟩

theorem decodeOne_spelled {cp : Nat} (small : cp < 0x110000) (whole : isSurrogate cp = false) (rest : List UInt8) :
    ∃ b0 tail, (spelled cp).map UInt8.ofNat = b0 :: tail ∧ decodeOne b0.toNat (tail ++ rest) = .ok (cp, (spelled cp).length) := by
  have bounded := spelled_lt small
  unfold spelled at bounded ⊢
  split
  · next one =>
    refine ⟨_, _, rfl, ?_⟩
    rw [toNat_ofNat (by omega), decodeOne, if_pos one]
    rfl
  · next one =>
    rw [if_neg one] at bounded
    split
    · next two =>
      refine ⟨_, _, rfl, ?_⟩
      have first : continuation ([UInt8.ofNat (128 + cp % 64)] ++ rest) 0 = some (cp % 64) :=
          continuation_eq (by omega) rfl
      have forms := byte_forms (192 + cp / 64) (by omega)
      simp only [List.map_cons, List.map_nil]
      rw [toNat_ofNat (by omega), decodeOne, if_neg (by omega), if_pos (forms.2.1.mpr (by omega)), first]
      simp only [mask_five]
      rw [payload_two (by omega), if_neg (by omega)]
      have same : (192 + cp / 64) % 32 * 64 + cp % 64 = cp := by omega
      rw [same]
      rfl
    · next two =>
      rw [if_neg two] at bounded
      split
      · next three =>
        refine ⟨_, _, rfl, ?_⟩
        have first : continuation ([UInt8.ofNat (128 + cp / 64 % 64), UInt8.ofNat (128 + cp % 64)] ++ rest) 0 = some (cp / 64 % 64) :=
          continuation_eq (by omega) rfl
        have second : continuation ([UInt8.ofNat (128 + cp / 64 % 64), UInt8.ofNat (128 + cp % 64)] ++ rest) 1 = some (cp % 64) :=
          continuation_eq (by omega) rfl
        have forms := byte_forms (224 + cp / 4096) (by omega)
        have same : (224 + cp / 4096) % 16 * 4096 + cp / 64 % 64 * 64 + cp % 64 = cp := by omega
        simp only [List.map_cons, List.map_nil]
        rw [toNat_ofNat (by omega), decodeOne, if_neg (by omega), if_neg fun is => absurd (forms.2.1.mp is) (by omega),
          if_pos (forms.2.2.1.mpr (by omega)), first, second]
        simp only [mask_four]
        rw [payload_three (by omega) (by omega), same, if_neg (by omega), whole]
        rfl
      · next three =>
        refine ⟨_, _, rfl, ?_⟩
        have first : continuation ([UInt8.ofNat (128 + cp / 4096 % 64), UInt8.ofNat (128 + cp / 64 % 64), UInt8.ofNat (128 + cp % 64)] ++ rest) 0 =
            some (cp / 4096 % 64) :=
          continuation_eq (by omega) rfl
        have second : continuation ([UInt8.ofNat (128 + cp / 4096 % 64), UInt8.ofNat (128 + cp / 64 % 64), UInt8.ofNat (128 + cp % 64)] ++ rest) 1 =
            some (cp / 64 % 64) :=
          continuation_eq (by omega) rfl
        have third : continuation ([UInt8.ofNat (128 + cp / 4096 % 64), UInt8.ofNat (128 + cp / 64 % 64), UInt8.ofNat (128 + cp % 64)] ++ rest) 2 =
            some (cp % 64) :=
          continuation_eq (by omega) rfl
        have forms := byte_forms (240 + cp / 262144) (by omega)
        have same : (240 + cp / 262144) % 8 * 262144 + cp / 4096 % 64 * 4096 + cp / 64 % 64 * 64 + cp % 64 = cp := by omega
        simp only [List.map_cons, List.map_nil]
        rw [toNat_ofNat (by omega), decodeOne, if_neg (by omega), if_neg fun is => absurd (forms.2.1.mp is) (by omega),
          if_neg fun is => absurd (forms.2.2.1.mp is) (by omega), if_pos (forms.2.2.2.mpr (by omega)), first, second, third]
        simp only [mask_three]
        rw [payload_four (by omega) (by omega) (by omega), same, if_neg (by omega)]
        rfl

theorem decodeOne_ok {b0 : UInt8} {rest : List UInt8} {cp width : Nat} (read : decodeOne b0.toNat rest = .ok (cp, width)) :
    cp < 0x110000 ∧ isSurrogate cp = false ∧
      ∃ tail, b0 :: rest = (spelled cp).map UInt8.ofNat ++ tail ∧ rest.drop (width - 1) = tail := by
  have forms := byte_forms b0.toNat b0.toNat_lt
  have lead : UInt8.ofNat b0.toNat = b0 := UInt8.ofNat_toNat
  unfold decodeOne at read
  split at read
  · next one =>
    simp only [Except.ok.injEq, Prod.mk.injEq] at read
    obtain ⟨rfl, rfl⟩ := read
    refine ⟨by omega, Utf16.not_surrogate_iff.mpr (.inl (by omega)), rest, ?_, rfl⟩
    rw [spelled, if_pos one, List.map_singleton, lead]
    rfl
  · split at read
    · next isTwo =>
      have bounds := forms.2.1.mp isTwo
      split at read
      · next b1 first =>
        obtain ⟨small, byte, here, is⟩ := continuation_some first
        rw [mask_five, payload_two small] at read
        split at read
        · cases read
        · next long =>
          simp only [Except.ok.injEq, Prod.mk.injEq] at read
          obtain ⟨rfl, rfl⟩ := read
          cases rest with
          | nil => cases here
          | cons head tail =>
            obtain rfl := Option.some.inj here
            refine ⟨by omega, Utf16.not_surrogate_iff.mpr (.inl (by omega)), tail, ?_, rfl⟩
            have high : 192 + (b0.toNat % 32 * 64 + b1) / 64 = b0.toNat := by omega
            have low : 128 + (b0.toNat % 32 * 64 + b1) % 64 = head.toNat := by omega
            rw [spelled, if_neg (by omega), if_pos (by omega), high, low]
            simp
      · cases read
    · split at read
      · next isThree =>
        have bounds := forms.2.2.1.mp isThree
        split at read
        · next b1 b2 first second =>
          obtain ⟨small, byte, here, is⟩ := continuation_some first
          obtain ⟨small', byte', here', is'⟩ := continuation_some second
          rw [mask_four, payload_three small small'] at read
          split at read
          · cases read
          · next long =>
            split at read
            · cases read
            · next whole =>
              simp only [Except.ok.injEq, Prod.mk.injEq] at read
              obtain ⟨rfl, rfl⟩ := read
              match rest, here, here' with
              | head :: head' :: tail, here, here' =>
                obtain rfl := Option.some.inj here
                obtain rfl := Option.some.inj here'
                refine ⟨by omega, by simpa using whole, tail, ?_, rfl⟩
                have high : 224 + (b0.toNat % 16 * 4096 + b1 * 64 + b2) / 4096 = b0.toNat := by omega
                have mid : 128 + (b0.toNat % 16 * 4096 + b1 * 64 + b2) / 64 % 64 = head.toNat := by omega
                have low : 128 + (b0.toNat % 16 * 4096 + b1 * 64 + b2) % 64 = head'.toNat := by omega
                rw [spelled, if_neg (by omega), if_neg (by omega), if_pos (by omega), high, mid, low]
                simp
        · cases read
      · split at read
        · next isFour =>
          have bounds := forms.2.2.2.mp isFour
          split at read
          · next b1 b2 b3 first second third =>
            obtain ⟨small, byte, here, is⟩ := continuation_some first
            obtain ⟨small', byte', here', is'⟩ := continuation_some second
            obtain ⟨small'', byte'', here'', is''⟩ := continuation_some third
            rw [mask_three, payload_four small small' small''] at read
            split at read
            · cases read
            · next range =>
              simp only [Except.ok.injEq, Prod.mk.injEq] at read
              obtain ⟨rfl, rfl⟩ := read
              match rest, here, here', here'' with
              | head :: head' :: head'' :: tail, here, here', here'' =>
                obtain rfl := Option.some.inj here
                obtain rfl := Option.some.inj here'
                obtain rfl := Option.some.inj here''
                refine ⟨by omega, Utf16.not_surrogate_iff.mpr (.inr (by omega)), tail, ?_, rfl⟩
                have first_ : 240 + (b0.toNat % 8 * 262144 + b1 * 4096 + b2 * 64 + b3) / 262144 = b0.toNat := by omega
                have second_ : 128 + (b0.toNat % 8 * 262144 + b1 * 4096 + b2 * 64 + b3) / 4096 % 64 = head.toNat := by omega
                have third_ : 128 + (b0.toNat % 8 * 262144 + b1 * 4096 + b2 * 64 + b3) / 64 % 64 = head'.toNat := by omega
                have fourth_ : 128 + (b0.toNat % 8 * 262144 + b1 * 4096 + b2 * 64 + b3) % 64 = head''.toNat := by omega
                rw [spelled, if_neg (by omega), if_neg (by omega), if_neg (by omega), first_, second_, third_, fourth_]
                simp
          · cases read
        · cases read

variable {text : List UInt16} {bytes : List UInt8}

def utf8Bytes (points : List Nat) : List UInt8 := (points.flatMap spelled).map UInt8.ofNat

theorem utf8Bytes_cons (cp : Nat) (points : List Nat) : utf8Bytes (cp :: points) = (spelled cp).map UInt8.ofNat ++ utf8Bytes points := by
  rw [utf8Bytes, List.flatMap_cons, List.map_append, ← utf8Bytes]

theorem utf8DecodeFrom_utf8Bytes {points : List Nat} (small : ∀ cp ∈ points, cp < 0x110000) (whole : ∀ cp ∈ points, isSurrogate cp = false)
    (waiting : List Nat) (output : List UInt16) :
    utf8DecodeFrom waiting output (utf8Bytes points) = .ok (output ++ (waiting ++ points).flatMap fromCodePoint) := by
  induction points generalizing waiting output with
  | nil =>
    rw [utf8Bytes, List.flatMap_nil, List.map_nil, utf8DecodeFrom, List.append_nil]
  | cons cp points ih =>
    obtain ⟨b0, tail, spelling, read⟩ := decodeOne_spelled (small cp (by simp)) (whole cp (by simp)) (utf8Bytes points)
    have long : tail.length = (spelled cp).length - 1 := by
      have same := congrArg List.length spelling
      rw [List.length_map, List.length_cons] at same
      omega
    have rest : (tail ++ utf8Bytes points).drop ((spelled cp).length - 1) = utf8Bytes points := List.drop_left' long
    have ih := ih (fun other inside => small other (by simp [inside])) fun other inside => whole other (by simp [inside])
    rw [utf8Bytes_cons, spelling, List.cons_append, utf8DecodeFrom, read]
    simp only [rest]
    split
    · rw [ih, List.nil_append, List.append_assoc, ← List.flatMap_append, List.append_assoc]
      rfl
    · rw [ih, List.append_assoc]
      rfl

theorem utf8DecodeFrom_ok (waiting : List Nat) (output : List UInt16) (bytes : List UInt8)
    (read : utf8DecodeFrom waiting output bytes = .ok text) :
    ∃ points, (∀ cp ∈ points, cp < 0x110000) ∧ (∀ cp ∈ points, isSurrogate cp = false) ∧ bytes = utf8Bytes points ∧
      text = output ++ (waiting ++ points).flatMap fromCodePoint := by
  fun_induction utf8DecodeFrom waiting output bytes with
  | case1 waiting output =>
    obtain rfl := Except.ok.inj read
    exact ⟨[], nofun, nofun, rfl, by rw [List.append_nil]⟩
  | case2 => cases read
  | case3 waiting output b0 rest cp width one full ih =>
    obtain ⟨small, whole, tail, spelling, dropped⟩ := decodeOne_ok one
    obtain ⟨points, smalls, wholes, is, reads⟩ := ih read
    refine ⟨cp :: points, by simpa using ⟨small, smalls⟩, by simpa using ⟨whole, wholes⟩, ?_, ?_⟩
    · rw [spelling, utf8Bytes_cons, ← is, dropped]
    · rw [reads, List.nil_append, List.append_assoc, ← List.flatMap_append, List.append_assoc]
      rfl
  | case4 waiting output b0 rest cp width one full ih =>
    obtain ⟨small, whole, tail, spelling, dropped⟩ := decodeOne_ok one
    obtain ⟨points, smalls, wholes, is, reads⟩ := ih read
    refine ⟨cp :: points, by simpa using ⟨small, smalls⟩, by simpa using ⟨whole, wholes⟩, ?_, ?_⟩
    · rw [spelling, utf8Bytes_cons, ← is, dropped]
    · rw [reads, List.append_assoc]
      rfl

theorem byteLengthFrom_ok {points : List Nat} (small : ∀ cp ∈ points, cp < 0x110000) (whole : ∀ cp ∈ points, isSurrogate cp = false) (total : Nat) :
    byteLengthFrom total points = .ok (total + (utf8Bytes points).length) := by
  induction points generalizing total with
  | nil => rfl
  | cons cp points ih =>
    have ih := ih (fun other inside => small other (by simp [inside])) fun other inside => whole other (by simp [inside])
    have long : (if cp < 0x80 then 1 else if cp < 0x800 then 2 else if cp < 0x10000 then 3 else 4) = (spelled cp).length := by
      unfold spelled
      split_ifs <;> rfl
    rw [byteLengthFrom, whole cp (by simp), if_neg Bool.false_ne_true, ih, long, utf8Bytes_cons, List.length_append, List.length_map, Nat.add_assoc]

theorem byteLengthFrom_error {points : List Nat} {cp : Nat} (inside : cp ∈ points) (half : isSurrogate cp = true) (total : Nat) :
    byteLengthFrom total points = .error InvalidUtf8 := by
  induction points generalizing total with
  | nil => cases inside
  | cons first points ih =>
    unfold byteLengthFrom
    split
    · rfl
    · next whole =>
      rcases List.mem_cons.mp inside with rfl | inside
      · exact absurd half whole
      · exact ih inside _

theorem uint8Array_all (values : List Nat) : uint8Array values.length values = values.map UInt8.ofNat := by
  rw [uint8Array, List.take_length, Nat.sub_self, List.replicate_zero, List.append_nil]

/-- A text without halves of pairs is encoded as the bytes of its code points. -/
theorem utf8Encode_ok (formed : Utf16.IsWellFormed text) : utf8Encode text = .ok (utf8Bytes (codePoints text)) := by
  have small : ∀ cp ∈ codePoints text, cp < 0x110000 := fun _ inside => Utf16.codePoint_lt inside
  have values : (codePoints text).flatMap encoded = (codePoints text).flatMap spelled :=
    List.flatMap_congr fun cp inside => encoded_eq (small cp inside)
  rw [utf8Encode, byteLength, byteLengthFrom_ok small formed, Nat.zero_add, values]
  show Except.ok (uint8Array (utf8Bytes (codePoints text)).length ((codePoints text).flatMap spelled)) = _
  rw [utf8Bytes, List.length_map, uint8Array_all]

theorem byteLength_ok (formed : Utf16.IsWellFormed text) : byteLength text = .ok (utf8Bytes (codePoints text)).length := by
  rw [byteLength, byteLengthFrom_ok (fun _ inside => Utf16.codePoint_lt inside) formed, Nat.zero_add]

theorem byteLength_error (broken : ¬ Utf16.IsWellFormed text) : byteLength text = .error InvalidUtf8 := by
  simp only [Utf16.IsWellFormed, not_forall, Bool.not_eq_false] at broken
  obtain ⟨cp, inside, half⟩ := broken
  exact byteLengthFrom_error inside half 0

theorem utf8Encode_error (broken : ¬ Utf16.IsWellFormed text) : utf8Encode text = .error InvalidUtf8 := by
  rw [utf8Encode, byteLength_error broken]
  rfl

theorem utf8Decode_utf8Bytes (formed : Utf16.IsWellFormed text) : utf8Decode (utf8Bytes (codePoints text)) = .ok text := by
  rw [utf8Decode, utf8DecodeFrom_utf8Bytes (fun _ inside => Utf16.codePoint_lt inside) formed, List.nil_append, List.nil_append,
    Utf16.fromCodePoints_codePoints]

/-- What is decoded has no halves of pairs, and its code points have these bytes. -/
theorem utf8Decode_ok (read : utf8Decode bytes = .ok text) : Utf16.IsWellFormed text ∧ bytes = utf8Bytes (codePoints text) := by
  obtain ⟨points, small, whole, is, rfl⟩ := utf8DecodeFrom_ok [] [] bytes read
  rw [List.nil_append, List.nil_append]
  have same := Utf16.codePoints_fromCodePoints small whole
  refine ⟨?_, by rw [same]; exact is⟩
  rw [Utf16.IsWellFormed, same]
  exact whole

end Arki.Strings
