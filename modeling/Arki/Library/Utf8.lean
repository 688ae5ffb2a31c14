import Mathlib.Data.List.Basic

/-! Text read from UTF-8 one byte at a time, as the web platform's decoder reads it. -/

set_option autoImplicit false

namespace Arki.Utf8

structure State where
  codePoint : Nat
  seen : Nat
  needed : Nat
  lower : Nat
  upper : Nat
  deriving DecidableEq

def State.start : State := ⟨0, 0, 0, 0x80, 0xBF⟩

def replacement : Char := Char.ofNat 0xFFFD

/-- The byte that starts a character. The bounds of the byte behind it keep out what has a shorter form, and what is no character. -/
def lead (byte : Nat) : State × List Char :=
  if byte ≤ 0x7F then (.start, [Char.ofNat byte])
  else if 0xC2 ≤ byte ∧ byte ≤ 0xDF then (⟨byte % 32, 0, 1, 0x80, 0xBF⟩, [])
  else if 0xE0 ≤ byte ∧ byte ≤ 0xEF then
    (⟨byte % 16, 0, 2, if byte = 0xE0 then 0xA0 else 0x80, if byte = 0xED then 0x9F else 0xBF⟩, [])
  else if 0xF0 ≤ byte ∧ byte ≤ 0xF4 then
    (⟨byte % 8, 0, 3, if byte = 0xF0 then 0x90 else 0x80, if byte = 0xF4 then 0x8F else 0xBF⟩, [])
  else (.start, [replacement])

/-- One byte. A byte that cannot go on with a character ends it, and is read again as a start. -/
def step (state : State) (byte : Nat) : State × List Char :=
  if state.needed = 0 then lead byte
  else if byte < state.lower ∨ state.upper < byte then ((lead byte).1, replacement :: (lead byte).2)
  else if state.seen + 1 = state.needed then (.start, [Char.ofNat (state.codePoint * 64 + byte % 64)])
  else (⟨state.codePoint * 64 + byte % 64, state.seen + 1, state.needed, 0x80, 0xBF⟩, [])

def decode (state : State) : List UInt8 → State × List Char
  | [] => (state, [])
  | byte :: rest =>
    ((decode (step state byte.toNat).1 rest).1, (step state byte.toNat).2 ++ (decode (step state byte.toNat).1 rest).2)

def flush (state : State) : List Char := if state.needed = 0 then [] else [replacement]

theorem decode_append (state : State) (first second : List UInt8) :
    decode state (first ++ second) =
      ((decode (decode state first).1 second).1, (decode state first).2 ++ (decode (decode state first).1 second).2) := by
  induction first generalizing state with
  | nil => rfl
  | cons byte rest ih =>
    rw [List.cons_append, decode, ih]
    simp only [decode, List.append_assoc]

/-- A text in UTF-8. -/
def encode (text : List Char) : List UInt8 := text.flatMap String.utf8EncodeChar

theorem toNat_byte {byte : Nat} (small : byte < 256) : (UInt8.ofNat byte).toNat = byte := by
  simp [Nat.mod_eq_of_lt small]

theorem ofNat_char (c : Char) {code : Nat} (same : code = c.val.toNat) : Char.ofNat code = c := by
  subst same
  exact Char.ofNat_toNat c

theorem code_valid (c : Char) : c.val.toNat < 0xD800 ∨ (0xDFFF < c.val.toNat ∧ c.val.toNat < 0x110000) := c.valid

theorem step_last {state : State} {byte : Nat} (low : state.lower ≤ byte) (high : byte ≤ state.upper) (last : state.seen + 1 = state.needed) :
    step state byte = (.start, [Char.ofNat (state.codePoint * 64 + byte % 64)]) := by
  rw [step, if_neg (by omega), if_neg (by omega), if_pos last]

theorem step_more {state : State} {byte : Nat} (low : state.lower ≤ byte) (high : byte ≤ state.upper) (more : state.seen + 1 < state.needed) :
    step state byte = (⟨state.codePoint * 64 + byte % 64, state.seen + 1, state.needed, 0x80, 0xBF⟩, []) := by
  rw [step, if_neg (by omega), if_neg (by omega), if_neg (by omega)]

theorem step_lead (byte : Nat) : step .start byte = lead byte := rfl

theorem lead_two {byte : Nat} (low : 0xC2 ≤ byte) (high : byte ≤ 0xDF) : lead byte = (⟨byte % 32, 0, 1, 0x80, 0xBF⟩, []) := by
  rw [lead, if_neg (by omega), if_pos ⟨low, high⟩]

theorem lead_three {byte : Nat} (low : 0xE0 ≤ byte) (high : byte ≤ 0xEF) :
    lead byte = (⟨byte % 16, 0, 2, if byte = 0xE0 then 0xA0 else 0x80, if byte = 0xED then 0x9F else 0xBF⟩, []) := by
  rw [lead, if_neg (by omega), if_neg (by omega), if_pos ⟨low, high⟩]

theorem lead_four {byte : Nat} (low : 0xF0 ≤ byte) (high : byte ≤ 0xF4) :
    lead byte = (⟨byte % 8, 0, 3, if byte = 0xF0 then 0x90 else 0x80, if byte = 0xF4 then 0x8F else 0xBF⟩, []) := by
  rw [lead, if_neg (by omega), if_neg (by omega), if_neg (by omega), if_pos ⟨low, high⟩]

theorem decode_char (c : Char) : decode .start (String.utf8EncodeChar c) = (.start, [c]) := by
  have valid := code_valid c
  unfold String.utf8EncodeChar
  generalize code : c.val.toNat = v at valid
  simp only []
  split_ifs with one two three
  · rw [decode, toNat_byte (by omega)]
    simp only [step, State.start, lead, if_pos one, decode, if_true]
    rw [ofNat_char c code.symm]
    rfl
  · rw [decode, toNat_byte (by omega), step_lead, lead_two (by omega) (by omega), decode, toNat_byte (by omega),
      step_last (by simp) (by simp; omega) (by simp), decode]
    rw [ofNat_char c (by simp only; omega)]
    rfl
  · rw [decode, toNat_byte (by omega), step_lead, lead_three (by omega) (by omega), decode, toNat_byte (by omega),
      step_more (by simp only; split_ifs <;> omega) (by simp only; split_ifs <;> omega) (by simp), decode,
      toNat_byte (by omega), step_last (by simp) (by simp; omega) (by simp), decode]
    rw [ofNat_char c (by simp only; omega)]
    rfl
  · rw [decode, toNat_byte (by omega), step_lead, lead_four (by omega) (by omega), decode, toNat_byte (by omega),
      step_more (by simp only; split_ifs <;> omega) (by simp only; split_ifs <;> omega) (by simp), decode,
      toNat_byte (by omega), step_more (by simp) (by simp; omega) (by simp), decode,
      toNat_byte (by omega), step_last (by simp) (by simp; omega) (by simp), decode]
    rw [ofNat_char c (by simp only; omega)]
    rfl

theorem decode_encode (text : List Char) : decode .start (encode text) = (.start, text) := by
  induction text with
  | nil => rfl
  | cons c rest ih =>
    rw [encode, List.flatMap_cons, ← encode, decode_append, decode_char, ih]
    rfl

def mark : Char := Char.ofNat 0xFEFF

def withoutMark : List Char → List Char
  | [] => []
  | first :: rest => if first = mark then rest else first :: rest

/-- A decoder over calls: `doNotFlush` after a call that said more bytes follow. -/
structure TextDecoder where
  state : State
  markSeen : Bool
  doNotFlush : Bool
  deriving DecidableEq

def TextDecoder.start : TextDecoder := ⟨.start, false, false⟩

def serialize (markSeen : Bool) (items : List Char) : List Char × Bool :=
  match items with
  | [] => ([], markSeen)
  | first :: rest => (if !markSeen && first = mark then rest else first :: rest, true)

/-- The text of these bytes, and the decoder for the next call. A call without `stream` ends the text. -/
def TextDecoder.decode (decoder : TextDecoder) (bytes : List UInt8) (stream : Bool) : List Char × TextDecoder :=
  let state := if decoder.doNotFlush then decoder.state else .start
  let markSeen := decoder.doNotFlush && decoder.markSeen
  let items := (Utf8.decode state bytes).2 ++ if stream then [] else flush (Utf8.decode state bytes).1
  ((serialize markSeen items).1, ⟨(Utf8.decode state bytes).1, (serialize markSeen items).2, stream⟩)

def TextDecoder.texts (decoder : TextDecoder) : List (List UInt8) → List (List Char)
  | [] => [(decoder.decode [] false).1]
  | chunk :: rest => (decoder.decode chunk true).1 :: texts (decoder.decode chunk true).2 rest

theorem serialize_append (markSeen : Bool) (first second : List Char) :
    (serialize markSeen first).1 ++ (serialize (serialize markSeen first).2 second).1 = (serialize markSeen (first ++ second)).1 := by
  cases first with
  | nil => rfl
  | cons c rest =>
    cases second with
    | nil => simp [serialize]
    | cons d more =>
      simp only [serialize, List.cons_append, Bool.not_true, Bool.false_and]
      split <;> simp_all

theorem serialize_start (text : List Char) : (serialize false text).1 = withoutMark text := by
  cases text with
  | nil => rfl
  | cons c rest => by_cases marked : c = mark <;> simp [serialize, withoutMark, marked]

theorem TextDecoder.texts_flatten (decoder : TextDecoder) (goesOn : decoder.doNotFlush = true) (chunks : List (List UInt8)) :
    (decoder.texts chunks).flatten = (serialize decoder.markSeen
      ((Utf8.decode decoder.state chunks.flatten).2 ++ flush (Utf8.decode decoder.state chunks.flatten).1)).1 := by
  induction chunks generalizing decoder with
  | nil => simp [texts, TextDecoder.decode, goesOn, Utf8.decode]
  | cons chunk rest ih =>
    rw [texts, List.flatten_cons, ih _ rfl, List.flatten_cons, decode_append]
    simp only [TextDecoder.decode, goesOn, if_true, Bool.true_and, List.append_nil]
    rw [serialize_append, List.append_assoc]

/-- However a text's bytes are cut, its chunks' texts make up the text without its mark. -/
theorem TextDecoder.texts_encode (text : List Char) (chunks : List (List UInt8)) (same : chunks.flatten = encode text) :
    (TextDecoder.start.texts chunks).flatten = withoutMark text := by
  have read := decode_encode text
  rw [← serialize_start]
  cases chunks with
  | nil =>
    rw [← same] at read
    have empty : text = [] := (congrArg Prod.snd read).symm
    subst empty
    rfl
  | cons chunk rest =>
    rw [← same, List.flatten_cons, decode_append, Prod.mk.injEq] at read
    rw [texts, List.flatten_cons, texts_flatten _ rfl]
    simp only [TextDecoder.decode, TextDecoder.start, Bool.false_eq_true, if_false, Bool.false_and, if_true, List.append_nil]
    rw [serialize_append, ← List.append_assoc, read.2, read.1]
    simp [flush, State.start]

end Arki.Utf8
