import Arki.Library.Base64
import Mathlib.Data.List.GetD
import Arki.Strings.Utf8

/-! Bytes as base64 text and back. The bit operations are those of 32-bit integers: the decoder never clears its buffer, and what it
shifts out at the top is lost.
-/

set_option autoImplicit false

namespace Arki.Strings

open Base64 (sixes bytesOf)

def InvalidBase64 : Failure where
  code := "string.invalid_base64"
  status := 400
  message := "Input is not strict base64."
  remediation := "Use the selected base64 alphabet, correct padding, and zero unused bits without whitespace."

inductive Alphabet where
  | standard
  | url
  deriving DecidableEq

inductive Padding where
  | required
  | forbidden
  deriving DecidableEq

structure Base64Options where
  alphabet : Option Alphabet
  padding : Option Padding

def unitsOf (text : String) : List UInt16 := text.toList.map fun c => UInt16.ofNat c.toNat

def STANDARD_ALPHABET : List UInt16 := unitsOf "ABCDEFGHIJKLMNOPQRSTUVWXYZabcdefghijklmnopqrstuvwxyz0123456789+/"

def URL_ALPHABET : List UInt16 := unitsOf "ABCDEFGHIJKLMNOPQRSTUVWXYZabcdefghijklmnopqrstuvwxyz0123456789-_"

/-- `new Int16Array(128).fill(-1)` with the places of the alphabet's characters. -/
def lookupTable (alphabet : List UInt16) : List Int :=
  alphabet.zipIdx.foldl (fun table entry => table.set entry.1.toNat (entry.2 : Int)) (List.replicate 128 (-1))

def Alphabet.characters : Alphabet → List UInt16
  | .standard => STANDARD_ALPHABET
  | .url => URL_ALPHABET

def resolve (options : Base64Options) : Alphabet × Bool :=
  (if options.alphabet = some .url then .url else .standard,
    match options.padding with
    | none => !decide (options.alphabet = some .url)
    | some padding => decide (padding = .required))

def charAt (text : List UInt16) (index : Nat) : List UInt16 := text[index]?.toList

/-- `(word >> shift) & 0x3f`. -/
def sextet (word : BitVec 32) (shift : Nat) : Nat := (word.sshiftRight shift &&& 0x3F#32).toNat

def ofByte (byte : UInt8) : BitVec 32 := BitVec.ofNat 32 byte.toNat

def equals : UInt16 := 0x3D

def bytesToBase64From (alphabet : List UInt16) (padded : Bool) : List UInt8 → List UInt16
  | b0 :: b1 :: b2 :: rest =>
    let triple := ofByte b0 <<< 16 ||| ofByte b1 <<< 8 ||| ofByte b2
    charAt alphabet (sextet triple 18) ++ charAt alphabet (sextet triple 12) ++ charAt alphabet (sextet triple 6) ++
      charAt alphabet (sextet triple 0) ++ bytesToBase64From alphabet padded rest
  | [b0, b1] =>
    let value := ofByte b0 <<< 16 ||| ofByte b1 <<< 8
    charAt alphabet (sextet value 18) ++ charAt alphabet (sextet value 12) ++ charAt alphabet (sextet value 6) ++
      if padded then [equals] else []
  | [b0] =>
    let value := ofByte b0 <<< 16
    charAt alphabet (sextet value 18) ++ charAt alphabet (sextet value 12) ++ if padded then [equals, equals] else []
  | [] => []

def bytesToBase64 (bytes : List UInt8) (options : Base64Options) : List UInt16 :=
  bytesToBase64From (resolve options).1.characters (resolve options).2 bytes

/-- The text without its padding, or a failure when the padding is not what the options ask for. -/
def bodyOf (padded : Bool) (encoded : List UInt16) : Except Failure (List UInt16) :=
  if padded then
    if encoded.length % 4 ≠ 0 then .error InvalidBase64
    else
      let padLength := if [equals, equals].isSuffixOf encoded then 2 else if [equals].isSuffixOf encoded then 1 else 0
      let body := encoded.take (encoded.length - padLength)
      if (4 - body.length % 4) % 4 ≠ padLength then .error InvalidBase64 else .ok body
  else if encoded.length % 4 = 1 then .error InvalidBase64
  else .ok encoded

def valueAt (lookup : List Int) (rest : List UInt16) : Int :=
  let code := (Utf16.codePointAt rest).getD 128
  if code < 128 then lookup[code]?.getD (-1) else -1

/-- `(buffer << 6) | value`. -/
def push (buffer : BitVec 32) (value : Int) : BitVec 32 := buffer <<< 6 ||| BitVec.ofInt 32 value

/-- `(buffer >> bits) & 0xff`. -/
def byteAt (buffer : BitVec 32) (bits : Nat) : Nat := (buffer.sshiftRight bits &&& 0xFF#32).toNat

/-- The loop of `base64ToBytes`: the buffer, how many of its bits are waiting, and the bytes set so far. -/
def readBits (lookup : List Int) (buffer : BitVec 32) (bits : Nat) (bytes : List Nat) :
    List UInt16 → Except Failure (BitVec 32 × Nat × List Nat)
  | [] => .ok (buffer, bits, bytes)
  | unit :: rest =>
    let value := valueAt lookup (unit :: rest)
    if value < 0 then .error InvalidBase64
    else
      let pushed := push buffer value
      if 8 ≤ bits + 6 then readBits lookup pushed (bits + 6 - 8) (bytes ++ [byteAt pushed (bits + 6 - 8)]) rest
      else readBits lookup pushed (bits + 6) bytes rest

def base64ToBytes (encoded : List UInt16) (options : Base64Options) : Except Failure (List UInt8) := do
  let body ← bodyOf (resolve options).2 encoded
  let remainder := body.length % 4
  let length := body.length / 4 * 3 + if remainder = 0 then 0 else remainder - 1
  let (buffer, bits, bytes) ← readBits (lookupTable (resolve options).1.characters) 0#32 0 [] body
  if 0 < bits ∧ buffer &&& (1#32 <<< bits - 1#32) ≠ 0#32 then .error InvalidBase64 else .ok (uint8Array length bytes)

def toBase64 (text : List UInt16) (options : Base64Options) : Except Failure (List UInt16) := do
  let bytes ← utf8Encode text
  return bytesToBase64 bytes options

def fromBase64 (encoded : List UInt16) (options : Base64Options) : Except Failure (List UInt16) := do
  let bytes ← base64ToBytes encoded options
  utf8Decode bytes

def Alphabet.character (alphabet : Alphabet) (six : Nat) : UInt16 := alphabet.characters.getD six 0

theorem charAt_character (alphabet : Alphabet) {six : Nat} (small : six < 64) : charAt alphabet.characters six = [alphabet.character six] := by
  have long : alphabet.characters.length = 64 := by cases alphabet <;> rfl
  rw [charAt, Alphabet.character, List.getElem?_eq_getElem (by omega), List.getD_eq_getElem _ _ (by omega)]
  rfl

/-- A character is found at its place, and is no padding; a code that is found is its character's. -/
theorem lookup_character : ∀ alphabet ∈ [Alphabet.standard, Alphabet.url],
    (∀ six < 64, (alphabet.character six).toNat < 128 ∧
      ((lookupTable alphabet.characters)[(alphabet.character six).toNat]?.getD (-1) : Int) = six ∧ alphabet.character six ≠ equals) ∧
    ∀ code < 128, 0 ≤ ((lookupTable alphabet.characters)[code]?.getD (-1) : Int) →
      ∃ six < 64, (alphabet.character six).toNat = code := by
  decide +kernel

variable {alphabet : Alphabet} {padded : Bool}

theorem Alphabet.mem_all (alphabet : Alphabet) : alphabet ∈ [Alphabet.standard, Alphabet.url] := by cases alphabet <;> decide

theorem Alphabet.character_ne_equals {six : Nat} (small : six < 64) : alphabet.character six ≠ equals :=
  ((lookup_character alphabet alphabet.mem_all).1 six small).2.2

theorem codePointAt_small {unit : UInt16} (small : unit.toNat < 128) (rest : List UInt16) :
    Utf16.codePointAt (unit :: rest) = some unit.toNat := by
  rw [Utf16.codePointAt, Utf16.codePoints_single fun isHigh_ => ?_]
  · rfl
  · have bounds := Utf16.isHigh_iff.mp isHigh_
    omega

theorem valueAt_character {six : Nat} (small : six < 64) (rest : List UInt16) :
    valueAt (lookupTable alphabet.characters) (alphabet.character six :: rest) = six := by
  obtain ⟨ascii, found, -⟩ := (lookup_character alphabet alphabet.mem_all).1 six small
  rw [valueAt, codePointAt_small ascii, Option.getD_some, if_pos ascii, found]

theorem character_of_valueAt {unit : UInt16} {rest : List UInt16} (found : ¬ valueAt (lookupTable alphabet.characters) (unit :: rest) < 0) :
    ∃ six < 64, unit = alphabet.character six := by
  unfold valueAt at found
  dsimp only at found
  split at found
  · next ascii =>
    have own : (Utf16.codePointAt (unit :: rest)).getD 128 = unit.toNat := by
      rcases Utf16.codePoints_cons unit rest with ⟨low, tail, -, -, -, is⟩ | is
      · rw [Utf16.codePointAt, is, List.head?_cons, Option.getD_some] at ascii
        unfold Utf16.paired at ascii
        omega
      · rw [Utf16.codePointAt, is]
        rfl
    rw [own] at found ascii
    obtain ⟨six, small, is⟩ := (lookup_character alphabet alphabet.mem_all).2 unit.toNat ascii (Int.not_lt.mp found)
    exact ⟨six, small, UInt16.toNat_inj.mp is.symm⟩
  · exact absurd (by decide) found

theorem low_bits (word : BitVec 32) (shift width : Nat) (fits : shift + width ≤ 32) :
    (word.sshiftRight shift &&& BitVec.ofNat 32 (2 ^ width - 1)).toNat = word.toNat / 2 ^ shift % 2 ^ width := by
  have logical : word.sshiftRight shift &&& BitVec.ofNat 32 (2 ^ width - 1) = word >>> shift &&& BitVec.ofNat 32 (2 ^ width - 1) := by
    apply BitVec.eq_of_getLsbD_eq
    intro bit inside
    simp only [BitVec.getLsbD_and, BitVec.getLsbD_sshiftRight, BitVec.getLsbD_ushiftRight, BitVec.getLsbD_ofNat,
      Nat.testBit_two_pow_sub_one]
    by_cases low : bit < width
    · have inWord : shift + bit < 32 := by omega
      simp [inWord, show ¬ 32 ≤ bit by omega]
    · simp [low]
  have small : 2 ^ width ≤ 2 ^ 32 := Nat.pow_le_pow_right (by omega) (by omega)
  have positive : 0 < 2 ^ width := Nat.two_pow_pos width
  rw [logical, BitVec.toNat_and, BitVec.toNat_ushiftRight, BitVec.toNat_ofNat, Nat.mod_eq_of_lt (by omega), Nat.and_two_pow_sub_one_eq_mod,
    Nat.shiftRight_eq_div_pow]

theorem sextet_eq (word : BitVec 32) {shift : Nat} (fits : shift + 6 ≤ 32) : sextet word shift = word.toNat / 2 ^ shift % 64 :=
  low_bits word _ _ fits

theorem triple_toNat (b0 b1 b2 : UInt8) :
    (ofByte b0 <<< 16 ||| ofByte b1 <<< 8 ||| ofByte b2).toNat = b0.toNat * 65536 + b1.toNat * 256 + b2.toNat := by
  have first := b0.toNat_lt
  have second := b1.toNat_lt
  have third := b2.toNat_lt
  have byte (b : UInt8) : (ofByte b).toNat = b.toNat := by
    rw [ofByte, BitVec.toNat_ofNat, Nat.mod_eq_of_lt (Nat.lt_trans b.toNat_lt (by decide))]
  simp only [BitVec.toNat_or, BitVec.toNat_shiftLeft, byte]
  have high : b0.toNat <<< 16 % 2 ^ 32 = b0.toNat <<< 16 := Nat.mod_eq_of_lt (by rw [Nat.shiftLeft_eq]; omega)
  have middle : b1.toNat <<< 8 % 2 ^ 32 = b1.toNat <<< 8 := Nat.mod_eq_of_lt (by rw [Nat.shiftLeft_eq]; omega)
  have joined : b0.toNat <<< 16 ||| b1.toNat <<< 8 = (b0.toNat * 256 + b1.toNat) <<< 8 := by
    rw [show b0.toNat * 256 + b1.toNat = b0.toNat * 2 ^ 8 + b1.toNat from rfl, ← shift_or second, Nat.shiftLeft_or_distrib, ← Nat.shiftLeft_add]
  rw [high, middle, joined, shift_or third]
  omega

theorem byteAt_eq (buffer : BitVec 32) {bits : Nat} (fits : bits + 8 ≤ 32) : byteAt buffer bits = buffer.toNat / 2 ^ bits % 256 :=
  low_bits buffer _ _ fits

theorem push_toNat (buffer : BitVec 32) {six : Nat} (small : six < 64) : (push buffer six).toNat = buffer.toNat % 2 ^ 26 * 64 + six := by
  have own : (BitVec.ofInt 32 six).toNat = six := by
    rw [BitVec.ofInt_natCast, BitVec.toNat_ofNat, Nat.mod_eq_of_lt (by omega)]
  have kept : buffer.toNat <<< 6 % 2 ^ 32 = (buffer.toNat % 2 ^ 26) <<< 6 := by
    rw [Nat.shiftLeft_eq, Nat.shiftLeft_eq]
    omega
  rw [push, BitVec.toNat_or, BitVec.toNat_shiftLeft, own, kept, payload_two small]

def padOf (padded : Bool) (count : Nat) : List UInt16 := if padded then List.replicate ((3 - count % 3) % 3) equals else []

theorem bytesToBase64From_eq (bytes : List UInt8) :
    bytesToBase64From alphabet.characters padded bytes =
      (sixes (bytes.map UInt8.toNat)).map alphabet.character ++ padOf padded bytes.length := by
  fun_induction bytesToBase64From alphabet.characters padded bytes with
  | case1 b0 b1 b2 rest triple ih =>
    have first := b0.toNat_lt
    have second := b1.toNat_lt
    have third := b2.toNat_lt
    have is : triple.toNat = b0.toNat * 65536 + b1.toNat * 256 + b2.toNat := triple_toNat b0 b1 b2
    have p : sextet triple 18 = b0.toNat / 4 := by rw [sextet_eq triple (by omega), is]; omega
    have q : sextet triple 12 = b0.toNat % 4 * 16 + b1.toNat / 16 := by rw [sextet_eq triple (by omega), is]; omega
    have r : sextet triple 6 = b1.toNat % 16 * 4 + b2.toNat / 64 := by rw [sextet_eq triple (by omega), is]; omega
    have s : sextet triple 0 = b2.toNat % 64 := by rw [sextet_eq triple (by omega), is]; omega
    have pads : padOf padded (b0 :: b1 :: b2 :: rest).length = padOf padded rest.length := by
      simp only [padOf, List.length_cons, show rest.length + 1 + 1 + 1 = rest.length + 3 from rfl, Nat.add_mod_right]
    rw [ih, p, q, r, s, charAt_character alphabet (by omega), charAt_character alphabet (by omega), charAt_character alphabet (by omega),
      charAt_character alphabet (by omega), pads]
    rfl
  | case2 b0 b1 value =>
    have first := b0.toNat_lt
    have second := b1.toNat_lt
    have is : value.toNat = b0.toNat * 65536 + b1.toNat * 256 + 0 := by
      have whole := triple_toNat b0 b1 0
      rwa [show ofByte 0 = 0#32 from rfl, BitVec.or_zero] at whole
    have p : sextet value 18 = b0.toNat / 4 := by rw [sextet_eq value (by omega), is]; omega
    have q : sextet value 12 = b0.toNat % 4 * 16 + b1.toNat / 16 := by rw [sextet_eq value (by omega), is]; omega
    have r : sextet value 6 = b1.toNat % 16 * 4 := by rw [sextet_eq value (by omega), is]; omega
    rw [p, q, r, charAt_character alphabet (by omega), charAt_character alphabet (by omega), charAt_character alphabet (by omega)]
    rfl
  | case3 b0 value =>
    have first := b0.toNat_lt
    have is : value.toNat = b0.toNat * 65536 + 0 * 256 + 0 := by
      have whole := triple_toNat b0 0 0
      rwa [show ofByte 0 = 0#32 from rfl, BitVec.or_zero, show (0#32 <<< 8 : BitVec 32) = 0#32 from rfl, BitVec.or_zero] at whole
    have p : sextet value 18 = b0.toNat / 4 := by rw [sextet_eq value (by omega), is]; omega
    have q : sextet value 12 = b0.toNat % 4 * 16 := by rw [sextet_eq value (by omega), is]; omega
    rw [p, q, charAt_character alphabet (by omega), charAt_character alphabet (by omega)]
    rfl
  | case4 =>
    cases padded <;> rfl

theorem readBits_cons (buffer : BitVec 32) (bits : Nat) (bytes : List Nat) {six : Nat} (small : six < 64) (rest : List UInt16) :
    readBits (lookupTable alphabet.characters) buffer bits bytes (alphabet.character six :: rest) =
      if 8 ≤ bits + 6 then
        readBits (lookupTable alphabet.characters) (push buffer six) (bits + 6 - 8) (bytes ++ [byteAt (push buffer six) (bits + 6 - 8)]) rest
      else readBits (lookupTable alphabet.characters) (push buffer six) (bits + 6) bytes rest := by
  have known : ¬ ((six : Int) < 0) := by omega
  rw [readBits, valueAt_character small]
  simp only [if_neg known]

theorem readBits_ok {buffer : BitVec 32} {bits : Nat} {bytes : List Nat} {body : List UInt16} {read : BitVec 32 × Nat × List Nat}
    (ran : readBits (lookupTable alphabet.characters) buffer bits bytes body = .ok read) :
    ∃ values : List Nat, (∀ six ∈ values, six < 64) ∧ body = values.map alphabet.character := by
  induction body generalizing buffer bits bytes with
  | nil => exact ⟨[], nofun, rfl⟩
  | cons unit rest ih =>
    rw [readBits] at ran
    dsimp only at ran
    split at ran
    · cases ran
    · next found =>
      obtain ⟨six, small, rfl⟩ := character_of_valueAt found
      split at ran
      · obtain ⟨values, smalls, rfl⟩ := ih ran
        exact ⟨six :: values, by simpa using ⟨small, smalls⟩, rfl⟩
      · obtain ⟨values, smalls, rfl⟩ := ih ran
        exact ⟨six :: values, by simpa using ⟨small, smalls⟩, rfl⟩

theorem byteAt_second (buffer : BitVec 32) {p q : Nat} (first : p < 64) (second : q < 64) :
    byteAt (push (push buffer p) q) 4 = p * 4 + q / 16 := by
  rw [byteAt_eq _ (by omega), push_toNat _ second, push_toNat _ first]
  omega

theorem byteAt_third (buffer : BitVec 32) {q r : Nat} (first : q < 64) (second : r < 64) :
    byteAt (push (push buffer q) r) 2 = q % 16 * 16 + r / 4 := by
  rw [byteAt_eq _ (by omega), push_toNat _ second, push_toNat _ first]
  omega

theorem byteAt_fourth (buffer : BitVec 32) {r s : Nat} (first : r < 64) (second : s < 64) :
    byteAt (push (push buffer r) s) 0 = r % 4 * 64 + s := by
  rw [byteAt_eq _ (by omega), push_toNat _ second, push_toNat _ first]
  omega

/-- From no waiting bits on, the loop sets the bytes of the values, and its last bits are those that fill none, whatever the buffer held. -/
theorem readBits_characters (alphabet : Alphabet) (values : List Nat) (small : ∀ six ∈ values, six < 64) (buffer : BitVec 32) (bytes : List Nat) :
    ∃ left : BitVec 32, readBits (lookupTable alphabet.characters) buffer 0 bytes (values.map alphabet.character) =
        .ok (left, (Base64.spare values).1, bytes ++ bytesOf values) ∧
      left.toNat % 2 ^ (Base64.spare values).1 = (Base64.spare values).2 := by
  fun_induction Base64.spare values generalizing buffer bytes with
  | case1 p q r s rest ih =>
    have first := small p (by simp)
    have second := small q (by simp)
    have third := small r (by simp)
    have fourth := small s (by simp)
    obtain ⟨left, ran, is⟩ := ih (fun other member => small other (by simp [member])) (push (push (push (push buffer p) q) r) s)
      (bytes ++ [p * 4 + q / 16] ++ [q % 16 * 16 + r / 4] ++ [r % 4 * 64 + s])
    refine ⟨left, ?_, is⟩
    simp only [List.map_cons]
    rw [readBits_cons _ _ _ first, if_neg (by omega), readBits_cons _ _ _ second, if_pos (by omega), byteAt_second _ first second,
      readBits_cons _ _ _ third, if_pos (by omega), byteAt_third _ second third, readBits_cons _ _ _ fourth, if_pos (by omega),
      byteAt_fourth _ third fourth, ran, bytesOf]
    simp only [List.append_assoc, List.cons_append, List.nil_append]
  | case2 p q r =>
    have first := small p (by simp)
    have second := small q (by simp)
    have third := small r (by simp)
    refine ⟨push (push (push buffer p) q) r, ?_, ?_⟩
    · simp only [List.map_cons, List.map_nil]
      rw [readBits_cons _ _ _ first, if_neg (by omega), readBits_cons _ _ _ second, if_pos (by omega), byteAt_second _ first second,
        readBits_cons _ _ _ third, if_pos (by omega), byteAt_third _ second third, readBits, bytesOf, List.append_assoc]
      rfl
    · show _ % 2 ^ 2 = r % 4
      rw [push_toNat _ third]
      omega
  | case3 p q =>
    have first := small p (by simp)
    have second := small q (by simp)
    refine ⟨push (push buffer p) q, ?_, ?_⟩
    · simp only [List.map_cons, List.map_nil]
      rw [readBits_cons _ _ _ first, if_neg (by omega), readBits_cons _ _ _ second, if_pos (by omega), byteAt_second _ first second,
        readBits, bytesOf]
    · show _ % 2 ^ 4 = q % 16
      rw [push_toNat _ second]
      omega
  | case4 p =>
    have first := small p (by simp)
    refine ⟨push buffer p, ?_, ?_⟩
    · simp only [List.map_cons, List.map_nil]
      rw [readBits_cons _ _ _ first, if_neg (by omega), readBits]
      simp [bytesOf]
    · show _ % 2 ^ 6 = p
      rw [push_toNat _ first]
      omega
  | case5 => exact ⟨buffer, by simp [readBits, bytesOf], by simp [Nat.mod_one]⟩

theorem padLength_eq {body : List UInt16} (plain : equals ∉ body) {count : Nat} (few : count ≤ 2) :
    (if [equals, equals].isSuffixOf (body ++ List.replicate count equals) then 2
      else if [equals].isSuffixOf (body ++ List.replicate count equals) then 1 else 0) = count := by
  simp only [List.isSuffixOf_iff_suffix]
  match count, few with
  | 0, _ =>
    have notOne : ¬ [equals] <:+ body ++ List.replicate 0 equals := by
      rintro ⟨front, is⟩
      exact plain (by simp [show body = front ++ [equals] by simpa using is.symm])
    have notTwo : ¬ [equals, equals] <:+ body ++ List.replicate 0 equals :=
      fun two => notOne ((List.suffix_cons equals [equals]).trans two)
    rw [if_neg notTwo, if_neg notOne]
  | 1, _ =>
    have notTwo : ¬ [equals, equals] <:+ body ++ List.replicate 1 equals := by
      rintro ⟨front, is⟩
      have same : front ++ [equals] = body := List.append_cancel_right (by simpa using is : (front ++ [equals]) ++ [equals] = body ++ [equals])
      exact plain (by simp [← same])
    rw [if_neg notTwo, if_pos (show [equals] <:+ body ++ List.replicate 1 equals from List.suffix_append body [equals])]
  | 2, _ => rw [if_pos (show [equals, equals] <:+ body ++ List.replicate 2 equals from List.suffix_append body [equals, equals])]

theorem bodyOf_written (padded : Bool) {body : List UInt16} (plain : equals ∉ body) (whole : body.length % 4 ≠ 1) :
    bodyOf padded (body ++ if padded then List.replicate ((4 - body.length % 4) % 4) equals else []) = .ok body := by
  cases padded with
  | false => simp [bodyOf, whole]
  | true =>
    have few : (4 - body.length % 4) % 4 ≤ 2 := by omega
    have groups : (body ++ List.replicate ((4 - body.length % 4) % 4) equals).length % 4 = 0 := by
      rw [List.length_append, List.length_replicate]
      omega
    have cut : (body ++ List.replicate ((4 - body.length % 4) % 4) equals).length - (4 - body.length % 4) % 4 = body.length := by
      rw [List.length_append, List.length_replicate]
      omega
    simp only [bodyOf, if_true, padLength_eq plain few, cut, List.take_left, groups, ne_eq, not_true, if_false]

theorem bodyOf_ok {encoded body : List UInt16} (read : bodyOf padded encoded = .ok body) :
    body.length % 4 ≠ 1 ∧ encoded = body ++ if padded then List.replicate ((4 - body.length % 4) % 4) equals else [] := by
  cases padded with
  | false =>
    by_cases whole : encoded.length % 4 = 1
    · simp [bodyOf, whole] at read
    · simp only [bodyOf, Bool.false_eq_true, if_false, if_neg whole, Except.ok.injEq] at read
      subst read
      exact ⟨whole, by simp⟩
  | true =>
    by_cases groups : encoded.length % 4 = 0
    · simp only [bodyOf, if_true, groups, ne_eq, not_true, if_false, List.isSuffixOf_iff_suffix] at read
      generalize pads : (if [equals, equals] <:+ encoded then 2 else if [equals] <:+ encoded then 1 else 0) = padLength at read
      by_cases few : (4 - (encoded.take (encoded.length - padLength)).length % 4) % 4 = padLength
      · rw [if_neg (not_not.mpr few), Except.ok.injEq] at read
        subst read
        rw [few]
        split at pads
        · next two =>
          obtain ⟨front, rfl⟩ := two
          subst pads
          simp only [List.length_append, List.length_cons, List.length_nil, Nat.add_sub_cancel, List.take_left] at few groups ⊢
          exact ⟨by omega, rfl⟩
        split at pads
        · next notTwo one =>
          obtain ⟨front, rfl⟩ := one
          subst pads
          simp only [List.length_append, List.length_cons, List.length_nil, Nat.add_sub_cancel, List.take_left] at few groups ⊢
          exact ⟨by omega, rfl⟩
        · subst pads
          simp only [Nat.sub_zero, List.take_length] at few groups ⊢
          exact ⟨by omega, by simp⟩
      · rw [if_pos few] at read
        cases read
    · simp [bodyOf, groups] at read

theorem spare_few (bits : List Nat) : (Base64.spare bits).1 ≤ 6 := by
  fun_induction Base64.spare bits with
  | case1 p q r s rest ih => exact ih
  | case2 => simp
  | case3 => simp
  | case4 => simp
  | case5 => simp

theorem left_bits (buffer : BitVec 32) {bits : Nat} (few : bits ≤ 6) :
    (buffer &&& (1#32 <<< bits - 1#32)).toNat = buffer.toNat % 2 ^ bits := by
  have mask : ∀ bits ≤ 6, 1#32 <<< bits - 1#32 = BitVec.ofNat 32 (2 ^ bits - 1) := by decide
  have low := low_bits buffer 0 bits (by omega)
  rwa [BitVec.sshiftRight_zero, Nat.pow_zero, Nat.div_one, ← mask bits few] at low

theorem map_ofNat {values : List Nat} (small : ∀ byte ∈ values, byte < 256) : (values.map UInt8.ofNat).map UInt8.toNat = values := by
  rw [List.map_map]
  exact (List.map_congr_left fun byte member => toNat_ofNat (small byte member)).trans (List.map_id values)

theorem map_toNat_lt (bytes : List UInt8) : ∀ byte ∈ bytes.map UInt8.toNat, byte < 256 := by
  intro byte member
  obtain ⟨unit, -, rfl⟩ := List.mem_map.mp member
  exact unit.toNat_lt

theorem sixes_small (bytes : List UInt8) : ∀ six ∈ sixes (bytes.map UInt8.toNat), six < 64 :=
  Base64.sixes_lt _ (map_toNat_lt bytes)

theorem equals_not_mem (alphabet : Alphabet) {values : List Nat} (small : ∀ six ∈ values, six < 64) : equals ∉ values.map alphabet.character := by
  intro member
  obtain ⟨six, inside, is⟩ := List.mem_map.mp member
  exact Alphabet.character_ne_equals (small six inside) is

theorem bodyOf_bytesToBase64 (bytes : List UInt8) :
    bodyOf padded (bytesToBase64From alphabet.characters padded bytes) = .ok ((sixes (bytes.map UInt8.toNat)).map alphabet.character) := by
  have whole := Base64.sixes_length (bytes.map UInt8.toNat)
  have pads := Base64.sixes_mod (bytes.map UInt8.toNat)
  rw [List.length_map] at pads
  have written := bodyOf_written padded (equals_not_mem alphabet (sixes_small bytes))
    (by rwa [List.length_map])
  rw [List.length_map, pads] at written
  rw [bytesToBase64From_eq]
  exact written

variable (options : Base64Options)

theorem base64ToBytes_bytesToBase64 (bytes : List UInt8) : base64ToBytes (bytesToBase64 bytes options) options = .ok bytes := by
  have small := sixes_small bytes
  obtain ⟨left, ran, is⟩ := readBits_characters (resolve options).1 (sixes (bytes.map UInt8.toNat)) small 0#32 []
  rw [Base64.spare_sixes] at is
  rw [Base64.bytesOf_sixes _ (map_toNat_lt bytes), List.nil_append] at ran
  have few := spare_few (sixes (bytes.map UInt8.toNat))
  have clean : left &&& (1#32 <<< (Base64.spare (sixes (bytes.map UInt8.toNat))).1 - 1#32) = 0#32 :=
    BitVec.eq_of_toNat_eq ((left_bits left few).trans is)
  have count := Base64.bytesOf_length (sixes (bytes.map UInt8.toNat))
  rw [Base64.bytesOf_sixes _ (map_toNat_lt bytes)] at count
  have all := uint8Array_all (bytes.map UInt8.toNat)
  rw [count, List.map_map] at all
  have same : bytes.map (UInt8.ofNat ∘ UInt8.toNat) = bytes :=
    (List.map_congr_left fun byte _ => UInt8.ofNat_toNat).trans (List.map_id bytes)
  unfold base64ToBytes
  simp only [bytesToBase64, bodyOf_bytesToBase64, bind, Except.bind, ran, clean, ne_eq, not_true, and_false, if_false, List.length_map]
  rw [all, same]

theorem bytesToBase64_of_base64ToBytes {encoded : List UInt16} {bytes : List UInt8} (read : base64ToBytes encoded options = .ok bytes) :
    bytesToBase64 bytes options = encoded := by
  unfold base64ToBytes at read
  cases isBody : bodyOf (resolve options).2 encoded with
  | error failure => simp [isBody, bind, Except.bind] at read
  | ok body =>
    cases ran : readBits (lookupTable (resolve options).1.characters) 0#32 0 [] body with
    | error failure => simp [isBody, ran, bind, Except.bind] at read
    | ok found =>
      obtain ⟨whole, padded_⟩ := bodyOf_ok isBody
      obtain ⟨values, small, rfl⟩ := readBits_ok ran
      obtain ⟨left, same, is⟩ := readBits_characters (resolve options).1 values small 0#32 []
      obtain rfl : (left, (Base64.spare values).1, [] ++ bytesOf values) = found := Except.ok.inj (same.symm.trans ran)
      simp only [isBody, ran, bind, Except.bind] at read
      split at read
      · cases read
      · next clean =>
        have zero : (Base64.spare values).2 = 0 := by
          rw [← is]
          by_cases none_ : (Base64.spare values).1 = 0
          · rw [none_, Nat.pow_zero, Nat.mod_one]
          · have unset : left &&& (1#32 <<< (Base64.spare values).1 - 1#32) = 0#32 := by
              by_contra set
              exact clean ⟨by omega, set⟩
            rw [← left_bits left (spare_few values), unset]
            rfl
        rw [List.length_map] at whole padded_
        have back := Base64.sixes_bytesOf values small whole zero
        have pads := Base64.sixes_mod (bytesOf values)
        rw [back] at pads
        rw [List.length_map, ← Base64.bytesOf_length, List.nil_append, uint8Array_all, Except.ok.injEq] at read
        subst read
        rw [bytesToBase64, bytesToBase64From_eq, map_ofNat (Base64.bytesOf_lt values small), back, List.length_map, padded_, padOf, pads]

/-- Both codings are one to one between the texts they accept and the bytes: what is written is read back, what is read is written back,
and a text with half a surrogate pair is refused.
-/
theorem strict_bijections (options : Base64Options) :
    (∀ bytes, base64ToBytes (bytesToBase64 bytes options) options = .ok bytes) ∧
    (∀ encoded bytes, base64ToBytes encoded options = .ok bytes → bytesToBase64 bytes options = encoded) ∧
    (∀ text, Utf16.IsWellFormed text →
      ∃ bytes, utf8Encode text = .ok bytes ∧ utf8Decode bytes = .ok text ∧ byteLength text = .ok bytes.length) ∧
    (∀ text, ¬ Utf16.IsWellFormed text →
      utf8Encode text = .error InvalidUtf8 ∧ byteLength text = .error InvalidUtf8 ∧ toBase64 text options = .error InvalidUtf8 ∧
        ∀ bytes, utf8Decode bytes ≠ .ok text) ∧
    ∀ bytes text, utf8Decode bytes = .ok text → utf8Encode text = .ok bytes := by
  refine ⟨base64ToBytes_bytesToBase64 options, fun _ _ => bytesToBase64_of_base64ToBytes options, fun text formed => ?_, fun text broken => ?_,
    fun bytes text read => ?_⟩
  · exact ⟨_, utf8Encode_ok formed, utf8Decode_utf8Bytes formed, byteLength_ok formed⟩
  · refine ⟨utf8Encode_error broken, byteLength_error broken, ?_, fun bytes read => broken (utf8Decode_ok read).1⟩
    rw [toBase64, utf8Encode_error broken]
    rfl
  · obtain ⟨formed, rfl⟩ := utf8Decode_ok read
    exact utf8Encode_ok formed

end Arki.Strings
