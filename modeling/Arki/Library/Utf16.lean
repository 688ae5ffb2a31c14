import Mathlib.Data.List.Basic

/-! Strings as JavaScript holds them: any list of 16-bit code units, read as code points.

A high unit before a low one is one code point; every other unit is a code point of its own, so a lone half of a pair is one too.
-/

set_option autoImplicit false

namespace Arki.Utf16

def isHigh (unit : UInt16) : Bool := 0xD800 ≤ unit.toNat && unit.toNat ≤ 0xDBFF

def isLow (unit : UInt16) : Bool := 0xDC00 ≤ unit.toNat && unit.toNat ≤ 0xDFFF

def isSurrogate (codePoint : Nat) : Bool := 0xD800 ≤ codePoint && codePoint ≤ 0xDFFF

def paired (high low : UInt16) : Nat := 0x10000 + (high.toNat - 0xD800) * 0x400 + (low.toNat - 0xDC00)

def codePoints : List UInt16 → List Nat
  | [] => []
  | [unit] => [unit.toNat]
  | unit :: low :: rest =>
    if isHigh unit && isLow low then paired unit low :: codePoints rest else unit.toNat :: codePoints (low :: rest)

/-- `codePointAt` at the start of what is left of a text. -/
def codePointAt (text : List UInt16) : Option Nat := (codePoints text).head?

/-- The units of a code point, as `String.fromCodePoint` writes them. -/
def fromCodePoint (codePoint : Nat) : List UInt16 :=
  if codePoint ≤ 0xFFFF then [UInt16.ofNat codePoint]
  else [UInt16.ofNat (0xD800 + (codePoint - 0x10000) / 0x400), UInt16.ofNat (0xDC00 + (codePoint - 0x10000) % 0x400)]

def IsWellFormed (text : List UInt16) : Prop := ∀ codePoint ∈ codePoints text, isSurrogate codePoint = false

instance (text : List UInt16) : Decidable (IsWellFormed text) := inferInstanceAs (Decidable (∀ _ ∈ _, _))

variable {text rest : List UInt16} {unit high low : UInt16} {codePoint : Nat}

theorem codePoints_pair (isPair : isHigh high = true ∧ isLow low = true) :
    codePoints (high :: low :: rest) = paired high low :: codePoints rest := by
  rw [codePoints, if_pos (by simp [isPair])]

theorem codePoints_single (alone : isHigh unit = true → ∀ low, rest.head? = some low → isLow low = false) :
    codePoints (unit :: rest) = unit.toNat :: codePoints rest := by
  cases rest with
  | nil => rfl
  | cons low rest =>
    rw [codePoints, if_neg]
    intro isPair
    rw [Bool.and_eq_true] at isPair
    have notLow := alone isPair.1 low rfl
    rw [isPair.2] at notLow
    cases notLow

theorem codePoints_cons (unit : UInt16) (rest : List UInt16) :
    (∃ low tail, rest = low :: tail ∧ isHigh unit = true ∧ isLow low = true ∧ codePoints (unit :: rest) = paired unit low :: codePoints tail) ∨
      codePoints (unit :: rest) = unit.toNat :: codePoints rest := by
  cases rest with
  | nil => exact .inr rfl
  | cons low tail =>
    by_cases isPair : isHigh unit = true ∧ isLow low = true
    · exact .inl ⟨low, tail, rfl, isPair.1, isPair.2, codePoints_pair isPair⟩
    · refine .inr (codePoints_single fun isHigh_ other is => ?_)
      obtain rfl := Option.some.inj is
      rw [← Bool.not_eq_true]
      exact fun isLow_ => isPair ⟨isHigh_, isLow_⟩

def Joins (text rest : List UInt16) : Prop :=
  ∃ high low, text.getLast? = some high ∧ rest.head? = some low ∧ isHigh high = true ∧ isLow low = true

/-- The code points of two texts are those of their concatenation, unless two halves join. -/
theorem codePoints_append (apart : ¬Joins text rest) : codePoints (text ++ rest) = codePoints text ++ codePoints rest := by
  fun_induction codePoints text with
  | case1 => rfl
  | case2 unit =>
    refine codePoints_single fun isHigh_ low is => ?_
    rw [← Bool.not_eq_true]
    exact fun isLow_ => apart ⟨unit, low, rfl, is, isHigh_, isLow_⟩
  | case3 high low tail isPair ih =>
    rw [Bool.and_eq_true] at isPair
    rw [List.cons_append, List.cons_append, codePoints_pair isPair, ih, List.cons_append]
    intro ⟨last, first, isLast, isFirst, halves⟩
    refine apart ⟨last, first, ?_, isFirst, halves⟩
    rw [List.getLast?_cons_cons, List.getLast?_cons, isLast]
    rfl
  | case4 unit low tail isNoPair ih =>
    rw [List.cons_append, List.cons_append, codePoints, if_neg isNoPair, ← List.cons_append, ih, List.cons_append]
    intro ⟨last, first, isLast, isFirst, halves⟩
    exact apart ⟨last, first, by rw [List.getLast?_cons_cons, isLast], isFirst, halves⟩

theorem toNat_lt (unit : UInt16) : unit.toNat < 0x10000 := unit.toNat_lt

theorem isHigh_iff : isHigh unit = true ↔ 0xD800 ≤ unit.toNat ∧ unit.toNat ≤ 0xDBFF := by simp [isHigh]

theorem isLow_iff : isLow unit = true ↔ 0xDC00 ≤ unit.toNat ∧ unit.toNat ≤ 0xDFFF := by simp [isLow]

theorem isSurrogate_iff : isSurrogate codePoint = true ↔ 0xD800 ≤ codePoint ∧ codePoint ≤ 0xDFFF := by simp [isSurrogate]

theorem not_surrogate_iff : isSurrogate codePoint = false ↔ codePoint < 0xD800 ∨ 0xDFFF < codePoint := by
  rw [← Bool.not_eq_true, isSurrogate_iff]
  omega

theorem fromCodePoint_toNat (unit : UInt16) : fromCodePoint unit.toNat = [unit] := by
  have small := toNat_lt unit
  rw [fromCodePoint, if_pos (by omega), UInt16.ofNat_toNat]

theorem fromCodePoint_paired (isPair : isHigh high = true ∧ isLow low = true) : fromCodePoint (paired high low) = [high, low] := by
  have first := isHigh_iff.mp isPair.1
  have second := isLow_iff.mp isPair.2
  have upper : 0xD800 + (paired high low - 0x10000) / 0x400 = high.toNat := by
    unfold paired
    omega
  have lower : 0xDC00 + (paired high low - 0x10000) % 0x400 = low.toNat := by
    unfold paired
    omega
  rw [fromCodePoint, if_neg (by unfold paired; omega), upper, lower, UInt16.ofNat_toNat, UInt16.ofNat_toNat]

theorem fromCodePoints_codePoints (text : List UInt16) : (codePoints text).flatMap fromCodePoint = text := by
  fun_induction codePoints text with
  | case1 => rfl
  | case2 unit => rw [List.flatMap_cons, fromCodePoint_toNat, List.flatMap_nil, List.append_nil]
  | case3 unit low rest isPair ih =>
    rw [Bool.and_eq_true] at isPair
    rw [List.flatMap_cons, fromCodePoint_paired isPair, ih]
    rfl
  | case4 unit low rest _ ih =>
    rw [List.flatMap_cons, fromCodePoint_toNat, ih]
    rfl

theorem codePoint_lt (inside : codePoint ∈ codePoints text) : codePoint < 0x110000 := by
  fun_induction codePoints text with
  | case1 => cases inside
  | case2 unit =>
    obtain rfl := List.mem_singleton.mp inside
    have small := toNat_lt unit
    omega
  | case3 unit low rest isPair ih =>
    rw [Bool.and_eq_true] at isPair
    rcases List.mem_cons.mp inside with is | inside
    · have first := isHigh_iff.mp isPair.1
      have second := isLow_iff.mp isPair.2
      unfold paired at is
      omega
    · exact ih inside
  | case4 unit low rest _ ih =>
    rcases List.mem_cons.mp inside with rfl | inside
    · have small := toNat_lt unit
      omega
    · exact ih inside

/-- The units of a code point that is no half of a pair are read as that code point, whatever follows. -/
theorem codePoints_fromCodePoint (small : codePoint < 0x110000) (whole : isSurrogate codePoint = false) (rest : List UInt16) :
    codePoints (fromCodePoint codePoint ++ rest) = codePoint :: codePoints rest := by
  have apart := not_surrogate_iff.mp whole
  by_cases single : codePoint ≤ 0xFFFF
  · have same : (UInt16.ofNat codePoint).toNat = codePoint := UInt16.toNat_ofNat_of_lt' (by simp only [UInt16.size]; omega)
    rw [fromCodePoint, if_pos single, List.singleton_append, codePoints_single, same]
    intro isHigh_
    have bounds := isHigh_iff.mp isHigh_
    omega
  · have upper : (UInt16.ofNat (0xD800 + (codePoint - 0x10000) / 0x400)).toNat = 0xD800 + (codePoint - 0x10000) / 0x400 :=
      UInt16.toNat_ofNat_of_lt' (by simp only [UInt16.size]; omega)
    have lower : (UInt16.ofNat (0xDC00 + (codePoint - 0x10000) % 0x400)).toNat = 0xDC00 + (codePoint - 0x10000) % 0x400 :=
      UInt16.toNat_ofNat_of_lt' (by simp only [UInt16.size]; omega)
    have isPair : isHigh (UInt16.ofNat (0xD800 + (codePoint - 0x10000) / 0x400)) = true ∧
        isLow (UInt16.ofNat (0xDC00 + (codePoint - 0x10000) % 0x400)) = true := by
      simp only [isHigh_iff, isLow_iff, upper, lower]
      omega
    rw [fromCodePoint, if_neg single, List.cons_append, List.cons_append, List.nil_append, codePoints_pair isPair, List.cons.injEq]
    refine ⟨?_, rfl⟩
    unfold paired
    simp only [upper, lower]
    omega

/-- Code points that are no halves of pairs are read back from the text they make. -/
theorem codePoints_fromCodePoints {points : List Nat} (small : ∀ point ∈ points, point < 0x110000)
    (whole : ∀ point ∈ points, isSurrogate point = false) : codePoints (points.flatMap fromCodePoint) = points := by
  induction points with
  | nil => rfl
  | cons point points ih =>
    rw [List.flatMap_cons, codePoints_fromCodePoint (small point (by simp)) (whole point (by simp)),
      ih (fun other inside => small other (by simp [inside])) fun other inside => whole other (by simp [inside])]

end Arki.Utf16
