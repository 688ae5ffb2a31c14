import Arki.Library.Scanner
import Arki.Library.Utf16

/-! Grapheme clusters of a text, as the package finds them where the engine has no segmenter of its own.

The character properties are the engine's tables. A text is a list of 16-bit units, and lone halves of pairs are code points too.
-/

set_option autoImplicit false

namespace Arki.Strings

/-- The engine's property escapes, each as the pattern of the source that uses it. -/
structure UnicodeTables where
  control : Nat → Bool
  extend : Nat → Bool
  regionalIndicator : Nat → Bool
  spacingMark : Nat → Bool
  extendedPictographic : Nat → Bool
  indicScript : Nat → Bool
  letter : Nat → Bool
  inherited : Nat → Bool
  nonspacing : Nat → Bool
  mark : Nat → Bool

def CR : Nat := 0x0D

def LF : Nat := 0x0A

def ZWJ : Nat := 0x200D

inductive BreakClass where
  | other
  | control
  | extend
  | regionalIndicator
  | prepend
  | spacingMark
  | hangulL
  | hangulV
  | hangulT
  | hangulLV
  | hangulLVT
  | extendedPictographic
  | zwj
  deriving DecidableEq

def INDIC_LINKERS : List Nat :=
  [0x094D, 0x09CD, 0x0A4D, 0x0ACD, 0x0B4D, 0x0C4D, 0x0CCD, 0x0D4D, 0x1039, 0x17D2, 0x1B44, 0x1CF5, 0x1CF6]

def NUKTAS : List Nat := [0x093C, 0x09BC, 0x0A3C, 0x0ABC, 0x0B3C, 0x0C3C, 0x0CBC, 0x1B34]

/-- The tables on Latin letters, controls, the combining diacritical marks, the nuktas, lone halves of pairs and the letters of flags. -/
def latinTables : UnicodeTables where
  control cp := cp < 0x20 || (0x7F ≤ cp && cp ≤ 0x9F) || (0xD800 ≤ cp && cp ≤ 0xDFFF)
  extend cp := (0x0300 ≤ cp && cp ≤ 0x036F) || NUKTAS.contains cp
  regionalIndicator cp := 0x1F1E6 ≤ cp && cp ≤ 0x1F1FF
  spacingMark _ := false
  extendedPictographic _ := false
  indicScript _ := false
  letter cp := (0x41 ≤ cp && cp ≤ 0x5A) || (0x61 ≤ cp && cp ≤ 0x7A)
  inherited cp := 0x0300 ≤ cp && cp ≤ 0x036F
  nonspacing cp := (0x0300 ≤ cp && cp ≤ 0x036F) || NUKTAS.contains cp
  mark cp := (0x0300 ≤ cp && cp ≤ 0x036F) || NUKTAS.contains cp

def SPACING_MARK_EXCEPTIONS : List Nat :=
  [0x102B, 0x102C, 0x1038, 0x1062, 0x1063, 0x1064, 0x1067, 0x1068, 0x1069, 0x106A, 0x106B, 0x106C, 0x106D,
    0x1083, 0x1087, 0x1088, 0x1089, 0x108A, 0x108B, 0x108C, 0x108F, 0x109A, 0x109B, 0x109C, 0x1A61, 0x1A63,
    0x1A64, 0xAA7B, 0xAA7D, 0x11720, 0x11721]

def SPACING_MARK_ADDITIONS : List Nat := [0x0E33, 0x0EB3]

def PREPEND_CHARACTERS : List Nat :=
  [0x0600, 0x0601, 0x0602, 0x0603, 0x0604, 0x0605, 0x06DD, 0x070F, 0x0890, 0x0891, 0x08E2, 0x110BD,
    0x110CD, 0x0D4E, 0x111C2, 0x111C3, 0x1193F, 0x11941, 0x11A3A, 0x11A84, 0x11A85, 0x11A86, 0x11A87,
    0x11A88, 0x11A89, 0x11D46, 0x11F02]

def hangulClass (cp : Nat) : Option BreakClass :=
  if (0x1100 ≤ cp ∧ cp ≤ 0x115F) ∨ (0xA960 ≤ cp ∧ cp ≤ 0xA97C) then some .hangulL
  else if (0x1160 ≤ cp ∧ cp ≤ 0x11A7) ∨ (0xD7B0 ≤ cp ∧ cp ≤ 0xD7C6) then some .hangulV
  else if (0x11A8 ≤ cp ∧ cp ≤ 0x11FF) ∨ (0xD7CB ≤ cp ∧ cp ≤ 0xD7FB) then some .hangulT
  else if 0xAC00 ≤ cp ∧ cp ≤ 0xD7A3 then some (if (cp - 0xAC00) % 28 = 0 then .hangulLV else .hangulLVT)
  else none

inductive Pictographic where
  | noPictographic
  | pictographicRun
  | pictographicZwj
  deriving DecidableEq

inductive Conjunct where
  | noConjunct
  | conjunctConsonant
  | conjunctLinker
  deriving DecidableEq

/-- The variables of the scanner's loop besides `index`. There is no previous code point where the source has -1. -/
structure ScanState where
  previousCp : Option Nat
  previous : BreakClass
  regionalIndicatorRun : Nat
  pictographic : Pictographic
  conjunct : Conjunct
  deriving DecidableEq

def ScanState.start : ScanState where
  previousCp := none
  previous := .other
  regionalIndicatorRun := 0
  pictographic := .noPictographic
  conjunct := .noConjunct

section Tables

variable (tables : UnicodeTables)

def isConjunctExtend (cp : Nat) : Bool :=
  if cp = ZWJ then true
  else if cp = 0x034F ∨ (0xFE00 ≤ cp ∧ cp ≤ 0xFE0F) ∨ (0x180B ≤ cp ∧ cp ≤ 0x180D) then false
  else if 0xE0100 ≤ cp ∧ cp ≤ 0xE01EF then false
  else if cp ∈ NUKTAS then true
  else tables.nonspacing cp && tables.inherited cp

def classify (cp : Nat) : BreakClass :=
  if cp < 0x80 then if cp < 0x20 ∨ cp = 0x7F then .control else .other
  else if cp = ZWJ then .zwj
  else if tables.regionalIndicator cp then .regionalIndicator
  else if cp ∈ PREPEND_CHARACTERS then .prepend
  else if tables.extend cp then .extend
  else if tables.control cp then .control
  else if cp ∈ SPACING_MARK_ADDITIONS ∨ (tables.spacingMark cp = true ∧ cp ∉ SPACING_MARK_EXCEPTIONS) then .spacingMark
  else
    match hangulClass cp with
    | some hangul => hangul
    | none => if tables.extendedPictographic cp then .extendedPictographic else .other

def isIndicConsonant (cp : Nat) : Bool :=
  if cp < 0x0900 then false else tables.indicScript cp && tables.letter cp

/-- The rules, in the order the loop tries them: whether a cluster ends between what was read and `cp`. -/
def ScanState.breakHere (state : ScanState) (cp : Nat) : Bool :=
  let current := classify tables cp
  let previous := state.previous
  let consonant := state.conjunct = .conjunctLinker ∧ isIndicConsonant tables cp = true
  if state.previousCp = some CR ∧ cp = LF then false
  else if previous = .control ∨ state.previousCp = some CR ∨ state.previousCp = some LF then true
  else if current = .control ∨ cp = CR ∨ cp = LF then true
  else if previous = .hangulL ∧ (current = .hangulL ∨ current = .hangulV ∨ current = .hangulLV ∨ current = .hangulLVT) then false
  else if (previous = .hangulLV ∨ previous = .hangulV) ∧ (current = .hangulV ∨ current = .hangulT) then false
  else if (previous = .hangulLVT ∨ previous = .hangulT) ∧ current = .hangulT then false
  else if current = .extend ∨ current = .zwj then false
  else if current = .spacingMark then false
  else if previous = .prepend then false
  else if consonant then false
  else if state.pictographic = .pictographicZwj ∧ current = .extendedPictographic then false
  else if previous = .regionalIndicator ∧ current = .regionalIndicator ∧ state.regionalIndicatorRun % 2 = 1 then false
  else true

/-- The state after `cp`. -/
def ScanState.after (state : ScanState) (cp : Nat) : ScanState where
  previousCp := some cp
  previous := classify tables cp
  regionalIndicatorRun := if classify tables cp = .regionalIndicator then state.regionalIndicatorRun + 1 else 0
  pictographic :=
    match classify tables cp with
    | .extendedPictographic => .pictographicRun
    | .extend => if state.pictographic = .pictographicRun then state.pictographic else .noPictographic
    | .zwj => if state.pictographic = .pictographicRun then .pictographicZwj else .noPictographic
    | _ => .noPictographic
  conjunct :=
    if cp ∈ INDIC_LINKERS then .conjunctLinker
    else if isIndicConsonant tables cp then .conjunctConsonant
    else if isConjunctExtend tables cp then state.conjunct
    else .noConjunct

def codePointWidth (cp : Nat) : Nat := if 0xFFFF < cp then 2 else 1

/-- The loop of `fallbackBreaks`, over the code points from `index` on. -/
def fallbackScan (state : ScanState) (index : Nat) : List Nat → List Nat
  | [] => []
  | cp :: rest =>
    (if 0 < index ∧ state.breakHere tables cp = true then [index] else []) ++
      fallbackScan (state.after tables cp) (index + codePointWidth cp) rest

def fallbackBreaks (text : List UInt16) : List Nat :=
  if text.length = 0 then [] else fallbackScan tables .start 0 (Utf16.codePoints text) ++ [text.length]

def fallbackBoundaries (text : List UInt16) : List Nat := 0 :: fallbackBreaks tables text

/-- The slices of a text between `start` and each of the offsets in turn. -/
def slicesFrom (text : List UInt16) (start : Nat) : List Nat → List (List UInt16)
  | [] => []
  | after :: rest => (text.drop start).take (after - start) :: slicesFrom text after rest

def segmentGraphemes (text : List UInt16) : List (List UInt16) := slicesFrom text 0 (fallbackBreaks tables text)

end Tables

def scanner (tables : UnicodeTables) : Scanner.Machine ScanState Nat where
  start := .start
  breaks := ScanState.breakHere tables
  after := ScanState.after tables
  width := codePointWidth

section

open Scanner Utf16

variable {tables : UnicodeTables} {text : List UInt16} {state other : ScanState} {index cp : Nat}

theorem codePointWidth_pos (cp : Nat) : 0 < codePointWidth cp := by
  unfold codePointWidth
  split <;> decide

theorem codePointWidth_toNat (unit : UInt16) : codePointWidth unit.toNat = 1 := by
  have small := toNat_lt unit
  rw [codePointWidth, if_neg (by omega)]

theorem codePointWidth_paired {high low : UInt16} : codePointWidth (paired high low) = 2 := by
  rw [codePointWidth, if_pos (by unfold paired; omega)]

theorem scanner_width (tables : UnicodeTables) (cp : Nat) : (scanner tables).width cp = codePointWidth cp := rfl

theorem widths_codePoints (text : List UInt16) : (scanner tables).widths (codePoints text) = text.length := by
  fun_induction codePoints text with
  | case1 => rfl
  | case2 unit => exact codePointWidth_toNat unit
  | case3 high low rest _ ih =>
    rw [Machine.widths_cons, ih, scanner_width, codePointWidth_paired, Nat.add_comm]
    rfl
  | case4 unit low rest _ ih =>
    rw [Machine.widths_cons, ih, scanner_width, codePointWidth_toNat, Nat.add_comm]
    rfl

theorem fallbackScan_eq (inside : 0 < index) (state : ScanState) (points : List Nat) :
    fallbackScan tables state index points = (scanner tables).cuts state index points := by
  induction points generalizing state index with
  | nil => rfl
  | cons cp rest ih =>
    rw [fallbackScan, ih (by omega), Machine.cuts]
    simp only [inside, true_and]
    rfl

theorem codePoints_eq_nil : codePoints text = [] ↔ text = [] := by
  cases text with
  | nil => simp [codePoints]
  | cons unit rest => rcases codePoints_cons unit rest with ⟨_, _, _, _, _, is⟩ | is <;> simp [is]

/-- The boundaries of a text are the ends of the pieces the scanner cuts its code points into. -/
theorem fallbackBreaks_eq (tables : UnicodeTables) (text : List UInt16) :
    fallbackBreaks tables text = (scanner tables).ends (codePoints text) := by
  cases points : codePoints text with
  | nil =>
    rw [codePoints_eq_nil.mp points]
    rfl
  | cons cp rest =>
    have length : (scanner tables).widths (cp :: rest) = text.length := by rw [← points, widths_codePoints]
    have filled : text.length ≠ 0 := fun empty => by
      rw [List.length_eq_zero_iff.mp empty] at points
      cases points
    have wide := codePointWidth_pos cp
    rw [fallbackBreaks, if_neg filled, points, fallbackScan, fallbackScan_eq (by omega), Machine.ends, length]
    simp only [lt_irrefl, false_and, if_false, List.nil_append, Nat.zero_add]
    rfl

theorem fallbackBoundaries_increasing (tables : UnicodeTables) (text : List UInt16) :
    (fallbackBoundaries tables text).Pairwise (· < ·) := by
  rw [fallbackBoundaries, fallbackBreaks_eq]
  exact Machine.ends_increasing codePointWidth_pos _

theorem fallbackBoundaries_last (tables : UnicodeTables) (text : List UInt16) :
    (fallbackBoundaries tables text).getLast? = some text.length := by
  rw [fallbackBoundaries, fallbackBreaks]
  split
  next empty =>
    rw [empty]
    rfl
  next => rw [← List.cons_append, List.getLast?_concat]

def Splits (text : List UInt16) (offset : Nat) : Prop :=
  ∃ before high low rest, text = before ++ high :: low :: rest ∧ offset = before.length + 1 ∧ isHigh high = true ∧ isLow low = true

theorem not_low_of_high {unit : UInt16} (high : isHigh unit = true) : isLow unit ≠ true := by
  intro low
  have upper := isHigh_iff.mp high
  have lower := isLow_iff.mp low
  omega

theorem codePoints_around {high low : UInt16} {rest : List UInt16} (isPair : isHigh high = true ∧ isLow low = true) (before : List UInt16) :
    codePoints (before ++ high :: low :: rest) = codePoints before ++ paired high low :: codePoints rest := by
  rw [codePoints_append, codePoints_pair isPair]
  intro ⟨_, _, _, isFirst, _, isLow_⟩
  obtain rfl := Option.some.inj isFirst
  exact not_low_of_high isPair.1 isLow_

theorem not_splits_of_mem {offset : Nat} (inside : offset ∈ fallbackBreaks tables text) : ¬Splits text offset := by
  rintro ⟨before, high, low, rest, rfl, rfl, isPair⟩
  rw [fallbackBreaks_eq, codePoints_around isPair] at inside
  obtain ⟨first, after, split_, _, width⟩ := Machine.mem_ends inside
  have length := @widths_codePoints tables before
  have wide : (scanner tables).width (paired high low) = 2 := by rw [scanner_width, codePointWidth_paired]
  rcases List.append_eq_append_iff.mp split_ with ⟨more, rfl, left⟩ | ⟨more, isBefore, _⟩
  · cases more with
    | nil =>
      rw [List.append_nil] at width
      omega
    | cons next_ more =>
      rw [Machine.widths_append, Machine.widths_cons, ← (List.cons.inj left).1, wide] at width
      omega
  · rw [isBefore, Machine.widths_append] at length
    omega

structure ScanState.Alike (state other : ScanState) : Prop where
  previousCp : state.previousCp = other.previousCp
  previous : state.previous = other.previous
  parity : state.regionalIndicatorRun % 2 = other.regionalIndicatorRun % 2
  pictographic : state.pictographic = other.pictographic
  linker : state.conjunct = .conjunctLinker ↔ other.conjunct = .conjunctLinker

theorem ScanState.Alike.of_eq (same : state = other) : state.Alike other := same ▸ ⟨rfl, rfl, rfl, rfl, .rfl⟩

theorem ScanState.Alike.breakHere (alike : state.Alike other) (cp : Nat) :
    state.breakHere tables cp = other.breakHere tables cp := by
  unfold ScanState.breakHere
  rw [alike.previousCp, alike.previous, alike.parity, alike.pictographic]
  simp only [alike.linker]

theorem ScanState.Alike.after (alike : state.Alike other) (cp : Nat) :
    (state.after tables cp).Alike (other.after tables cp) where
  previousCp := rfl
  previous := rfl
  parity := by
    have parity := alike.parity
    simp only [ScanState.after]
    split <;> omega
  pictographic := by
    unfold ScanState.after
    rw [alike.pictographic]
  linker := by
    simp only [ScanState.after]
    split
    · rfl
    split
    · rfl
    split
    · exact alike.linker
    · rfl

theorem scanner_bisimulation (tables : UnicodeTables) : (scanner tables).Bisimulation ScanState.Alike where
  breaks cp alike := alike.breakHere cp
  after cp alike := alike.after cp

end

end Arki.Strings
