import Arki.Strings.GraphemeSeams

/-! Masking and padding in graphemes.

Both put texts together and count on their graphemes staying apart. Nothing looks at the characters that meet.
-/

set_option autoImplicit false

namespace Arki.Strings

open Utf16

structure StringError where
  code : String
  message : String
  remediation : String
  deriving DecidableEq

def invalidArgument (message : String) : StringError where
  code := "ARKI_STRING_E001"
  message := "ARKI_STRING_E001" ++ ": " ++ message
  remediation := "Check the argument against the range in the function reference."

structure Numeric where
  integer : Option Int
  printed : String

/-- A character of a text as `JSON.stringify` writes it. -/
def stringifyCodePoint (cp : Nat) : String :=
  if cp = 0x22 then "\\\""
  else if cp = 0x5C then "\\\\"
  else if cp = 0x08 then "\\b"
  else if cp = 0x0C then "\\f"
  else if cp = 0x0A then "\\n"
  else if cp = 0x0D then "\\r"
  else if cp = 0x09 then "\\t"
  else if cp < 0x20 ∨ isSurrogate cp = true then
    "\\u" ++ String.ofList ([cp / 0x1000, cp / 0x100 % 0x10, cp / 0x10 % 0x10, cp % 0x10].map Nat.digitChar)
  else String.ofList [Char.ofNat cp]

def stringify (text : List UInt16) : String := "\"" ++ String.join ((codePoints text).map stringifyCodePoint) ++ "\""

structure MaskOptions where
  start : Option Numeric
  «end» : Option Numeric
  glyph : Option (List UInt16)

def resolveIndex (index : Int) (count : Nat) : Nat :=
  if index < 0 then (max (count + index) 0).toNat else (min index count).toNat

/-- `assertTargetLength`, which lets integers from 0 on through. -/
def assertTargetLength (targetLength : Numeric) : Except StringError Int :=
  match targetLength.integer with
  | none => .error (invalidArgument ("targetLength must be a non-negative integer, got " ++ targetLength.printed))
  | some target =>
    if target < 0 then .error (invalidArgument ("targetLength must be a non-negative integer, got " ++ targetLength.printed)) else .ok target

section Source

variable (tables : UnicodeTables)

/-- `STARTS_WITH_MARK`. -/
def startsWithMark (text : List UInt16) : Bool := (Utf16.codePointAt text).any tables.mark

/-- The glyph in place of each character, `*` unless it is given. -/
def MaskOptions.glyphOf (options : MaskOptions) : List UInt16 := options.glyph.getD [0x2A]

def MaskOptions.startOf (options : MaskOptions) : Option Int :=
  match options.start with
  | none => some 0
  | some start => start.integer

def MaskOptions.endOf (options : MaskOptions) (count : Nat) : Option Int :=
  match options.end with
  | none => some count
  | some stop => stop.integer

def mask (text : List UInt16) (options : MaskOptions) : Except StringError (List UInt16) :=
  let glyph := options.glyphOf
  if startsWithMark tables glyph then .error (invalidArgument "glyph must not start with a combining mark")
  else
    let boundaries := fallbackBoundaries tables text
    let count := boundaries.length - 1
    match options.startOf, options.endOf count with
    | some start, some stop =>
      let first := resolveIndex start count
      let last := resolveIndex stop count
      if last ≤ first then .ok text
      else
        .ok (text.take (boundaries[first]?.getD text.length) ++ (List.replicate (last - first) glyph).flatten ++
          text.drop (boundaries[last]?.getD 0))
    | _, _ => .error (invalidArgument "start and end must be integers")

/-- The loop of `padding`: the graphemes of `fill` in turn. -/
def repeated (fill : List UInt16) (needed : Nat) : List UInt16 :=
  let fillGraphemes := segmentGraphemes tables fill
  (List.range needed).flatMap fun index => fillGraphemes[index % fillGraphemes.length]?.getD []

def padding (fill : List UInt16) (needed : Nat) : Except StringError (List UInt16) :=
  if fill = [] then .error (invalidArgument "fill must not be empty")
  else
    let output := repeated tables fill needed
    if startsWithMark tables output = true ∨ graphemeCount tables output ≠ needed then
      .error (invalidArgument ("fill " ++ stringify fill ++ " does not repeat into separate graphemes"))
    else .ok output

def padStart (text : List UInt16) (targetLength : Numeric) (fill : Option (List UInt16)) : Except StringError (List UInt16) := do
  let target ← assertTargetLength targetLength
  let needed := target - graphemeCount tables text
  if needed ≤ 0 then .ok text
  else
    let output ← padding tables (fill.getD [0x20]) needed.toNat
    .ok (output ++ text)

def padEnd (text : List UInt16) (targetLength : Numeric) (fill : Option (List UInt16)) : Except StringError (List UInt16) := do
  let target ← assertTargetLength targetLength
  let needed := target - graphemeCount tables text
  if needed ≤ 0 then .ok text
  else
    let output ← padding tables (fill.getD [0x20]) needed.toNat
    .ok (text ++ output)

def padBoth (text : List UInt16) (targetLength : Numeric) (fill : Option (List UInt16)) : Except StringError (List UInt16) := do
  let target ← assertTargetLength targetLength
  let needed := target - graphemeCount tables text
  if needed ≤ 0 then .ok text
  else
    let left := needed.toNat / 2
    let before ← padding tables (fill.getD [0x20]) left
    let after ← padding tables (fill.getD [0x20]) (needed.toNat - left)
    .ok (before ++ text ++ after)

end Source

/-- What padding promises: as many graphemes as were asked for, or as the text has, and those of the text where it stands, after
`left` units. -/
structure Padded (tables : UnicodeTables) (text : List UInt16) (target : Int) (left : Nat) (result : List UInt16) : Prop where
  count : ((segmentGraphemes tables result).length : Int) = max target (segmentGraphemes tables text).length
  kept : ∃ before after, segmentGraphemes tables result = before ++ segmentGraphemes tables text ++ after ∧ before.flatten.length = left

/-- What masking promises: as many graphemes as the text has, each the glyph in the range and the text's own outside. -/
structure Masked (tables : UnicodeTables) (text glyph : List UInt16) (first last : Nat) (result : List UInt16) : Prop where
  count : (segmentGraphemes tables result).length = (segmentGraphemes tables text).length
  each : ∀ index < (segmentGraphemes tables text).length, (segmentGraphemes tables result)[index]? =
    if first ≤ index ∧ index < last then some glyph else (segmentGraphemes tables text)[index]?

/-- `padding` accepts the fill. -/
structure Repeats (tables : UnicodeTables) (fill : List UInt16) (needed : Nat) : Prop where
  filled : fill ≠ []
  unmarked : startsWithMark tables (repeated tables fill needed) = false
  counted : graphemeCount tables (repeated tables fill needed) = needed

section Padding

variable {tables : UnicodeTables} {text fill output result left right : List UInt16} {targetLength : Numeric} {target : Int} {needed : Nat}

theorem assertTargetLength_eq (is : targetLength.integer = some target) (positive : 0 ≤ target) :
    assertTargetLength targetLength = .ok target := by
  rw [assertTargetLength, is]
  exact if_neg (by omega)

theorem assertTargetLength_negative (is : targetLength.integer = some target) (negative : target < 0) :
    assertTargetLength targetLength = .error (invalidArgument ("targetLength must be a non-negative integer, got " ++ targetLength.printed)) := by
  rw [assertTargetLength, is]
  exact if_pos negative

theorem padding_cases (tables : UnicodeTables) (fill : List UInt16) (needed : Nat) :
    (Repeats tables fill needed ∧ padding tables fill needed = .ok (repeated tables fill needed)) ∨
      (¬Repeats tables fill needed ∧ ∃ failure, padding tables fill needed = .error failure) := by
  unfold padding
  split
  next none => exact .inr ⟨fun repeats => repeats.filled none, _, rfl⟩
  next filled =>
    dsimp only
    split
    next refused =>
      refine .inr ⟨fun repeats => ?_, _, rfl⟩
      rcases refused with marked | short
      · rw [repeats.unmarked] at marked
        cases marked
      · exact short repeats.counted
    next accepted =>
      rw [not_or, not_not, Bool.not_eq_true] at accepted
      exact .inl ⟨⟨filled, accepted.1, accepted.2⟩, rfl⟩

theorem graphemeCount_segments (simple : tables.SimpleBelow) (text : List UInt16) :
    graphemeCount tables text = (segmentGraphemes tables text).length := by
  rw [graphemeCount_eq simple, length_segmentGraphemes]

theorem Repeats.segments (repeats : Repeats tables fill needed) (simple : tables.SimpleBelow) :
    (segmentGraphemes tables (repeated tables fill needed)).length = needed := by
  rw [← graphemeCount_segments simple, repeats.counted]

/-- A text between two others keeps what padding promises exactly where the three meet at seams. -/
theorem padded_iff (documented : tables.Documented)
    (grown : ((segmentGraphemes tables left).length + (segmentGraphemes tables text).length + (segmentGraphemes tables right).length : Int) =
      max target (segmentGraphemes tables text).length) :
    Padded tables text target left.length (left ++ text ++ right) ↔ Seams tables [left, text, right] := by
  have parts : [left, text, right].flatten = left ++ text ++ right := by simp
  have pieces : [left, text, right].flatMap (segmentGraphemes tables) =
      segmentGraphemes tables left ++ segmentGraphemes tables text ++ segmentGraphemes tables right := by simp
  rw [← segmentGraphemes_flatten documented, parts, pieces]
  constructor
  · rintro ⟨-, before, after, is, length⟩
    rw [List.append_assoc, List.append_assoc before] at is
    obtain ⟨-, isLeft, isRest⟩ := segmentGraphemes_split documented is length
    obtain ⟨-, -, isRight⟩ := segmentGraphemes_split documented isRest.symm (by rw [flatten_segmentGraphemes])
    rw [List.append_assoc, is, isLeft, isRight, List.append_assoc]
  · intro is
    refine ⟨?_, _, _, is, by rw [flatten_segmentGraphemes]⟩
    rw [is, ← grown, List.length_append, List.length_append]
    omega

theorem padded_self (tables : UnicodeTables) (enough : target ≤ (segmentGraphemes tables text).length) : Padded tables text target 0 text where
  count := (max_eq_right enough).symm
  kept := ⟨[], [], by simp, rfl⟩

theorem repeated_zero (tables : UnicodeTables) (fill : List UInt16) : repeated tables fill 0 = [] := rfl

theorem seams_single (tables : UnicodeTables) (parts : List (List UInt16)) (single : (parts.filter fun part => part ≠ []).length ≤ 1) :
    Seams tables parts := by
  unfold Seams
  cases filled : parts.filter fun part => part ≠ [] with
  | nil => exact .nil
  | cons part rest =>
    rw [filled, List.length_cons] at single
    rw [List.length_eq_zero_iff.mp (by omega : rest.length = 0)]
    exact .singleton part

theorem forall_ok {promise : List UInt16 → Prop} {outcome : Except StringError (List UInt16)} (is : outcome = .ok output) :
    (∀ result, outcome = .ok result → promise result) ↔ promise output := by
  rw [is]
  exact ⟨fun every => every output rfl, fun holds result same => Except.ok.inj same ▸ holds⟩

theorem forall_error {promise : List UInt16 → Prop} {outcome : Except StringError (List UInt16)} {failure : StringError}
    (is : outcome = .error failure) : (∀ result, outcome = .ok result → promise result) ↔ True := by
  rw [is]
  exact ⟨fun _ => trivial, fun _ _ same => by cases same⟩

def neededOf (tables : UnicodeTables) (text : List UInt16) (target : Int) : Nat := (target - (segmentGraphemes tables text).length).toNat

theorem grown_of_needed (long : (segmentGraphemes tables text).length < target)
    (counted : (segmentGraphemes tables left).length + (segmentGraphemes tables right).length = neededOf tables text target) :
    ((segmentGraphemes tables left).length + (segmentGraphemes tables text).length + (segmentGraphemes tables right).length : Int) =
      max target (segmentGraphemes tables text).length := by
  unfold neededOf at counted
  rw [max_eq_left (Int.le_of_lt long)]
  omega

section Calls

variable {outcome : Except StringError (List UInt16)} (body : Int → Except StringError (List UInt16))

theorem outcome_of_long (documented : tables.Documented) (is : targetLength.integer = some target)
    (call : outcome = (assertTargetLength targetLength).bind fun target =>
      if target - graphemeCount tables text ≤ 0 then .ok text else body (target - graphemeCount tables text))
    (long : ((segmentGraphemes tables text).length : Int) < target) : outcome = body (target - (segmentGraphemes tables text).length) := by
  rw [call, assertTargetLength_eq is (by omega), graphemeCount_segments documented.toSimpleBelow]
  exact if_neg (by omega)

/-- Where the text is long enough it is given back, or a negative length is refused. -/
theorem forall_of_enough (documented : tables.Documented) (is : targetLength.integer = some target)
    (call : outcome = (assertTargetLength targetLength).bind fun target =>
      if target - graphemeCount tables text ≤ 0 then .ok text else body (target - graphemeCount tables text))
    (enough : target ≤ (segmentGraphemes tables text).length) : ∀ result, outcome = .ok result → Padded tables text target 0 result := by
  rcases lt_or_ge target 0 with negative | positive
  · rw [assertTargetLength_negative is negative] at call
    exact (forall_error call).mpr trivial
  · rw [assertTargetLength_eq is positive, graphemeCount_segments documented.toSimpleBelow] at call
    exact (forall_ok (call.trans (if_pos (by omega)))).mpr (padded_self tables enough)

/-- A call that puts one text before the text it is given and one behind it, where that is too short. -/
theorem pads_iff {fits : Prop} (documented : tables.Documented) (is : targetLength.integer = some target)
    (call : outcome = (assertTargetLength targetLength).bind fun target =>
      if target - graphemeCount tables text ≤ 0 then .ok text else body (target - graphemeCount tables text))
    (ran : fits ∧ body (target - (segmentGraphemes tables text).length) = .ok (left ++ text ++ right) ∨
      ¬fits ∧ ∃ failure, body (target - (segmentGraphemes tables text).length) = .error failure)
    (counted : fits → (segmentGraphemes tables left).length + (segmentGraphemes tables right).length = neededOf tables text target)
    (empty : neededOf tables text target = 0 → left = [] ∧ right = []) :
    (∀ result, outcome = .ok result → Padded tables text target left.length result) ↔ (fits → Seams tables [left, text, right]) := by
  rcases lt_or_ge ((segmentGraphemes tables text).length : Int) target with long | enough
  · have step := outcome_of_long body documented is call long
    rcases ran with ⟨fit, output⟩ | ⟨refused, failure, output⟩
    · rw [forall_ok (step.trans output), forall_prop_of_true fit]
      exact padded_iff documented (grown_of_needed long (counted fit))
    · rw [forall_error (step.trans output), true_iff]
      exact fun fit => absurd fit refused
  · obtain ⟨rfl, rfl⟩ := empty (Int.toNat_eq_zero.mpr (by omega))
    refine iff_of_true (forall_of_enough body documented is call enough) fun _ => seams_single tables _ ?_
    by_cases none : text = [] <;> simp [none]

end Calls

theorem padStart_iff (documented : tables.Documented) (is : targetLength.integer = some target) (fill : Option (List UInt16)) :
    (∀ result, padStart tables text targetLength fill = .ok result →
        Padded tables text target (repeated tables (fill.getD [0x20]) (neededOf tables text target)).length result) ↔
      (Repeats tables (fill.getD [0x20]) (neededOf tables text target) →
        Seams tables [repeated tables (fill.getD [0x20]) (neededOf tables text target), text]) := by
  have seams : Seams tables [repeated tables (fill.getD [0x20]) (neededOf tables text target), text] ↔
      Seams tables [repeated tables (fill.getD [0x20]) (neededOf tables text target), text, []] := by simp [Seams, List.filter_cons]
  rw [seams]
  refine pads_iff (fun needed => (padding tables (fill.getD [0x20]) needed.toNat).bind fun output => .ok (output ++ text)) documented is rfl ?_
    (fun repeats => repeats.segments documented.toSimpleBelow) fun none => ⟨by rw [none, repeated_zero], rfl⟩
  rcases padding_cases tables (fill.getD [0x20]) (neededOf tables text target) with ⟨repeats, output⟩ | ⟨refused, failure, output⟩
  · refine .inl ⟨repeats, ?_⟩
    rw [List.append_nil]
    exact congrArg (·.bind fun output => .ok (output ++ text)) output
  · exact .inr ⟨refused, failure, congrArg (·.bind fun output => .ok (output ++ text)) output⟩

theorem padEnd_iff (documented : tables.Documented) (is : targetLength.integer = some target) (fill : Option (List UInt16)) :
    (∀ result, padEnd tables text targetLength fill = .ok result → Padded tables text target 0 result) ↔
      (Repeats tables (fill.getD [0x20]) (neededOf tables text target) →
        Seams tables [text, repeated tables (fill.getD [0x20]) (neededOf tables text target)]) := by
  have seams : Seams tables [text, repeated tables (fill.getD [0x20]) (neededOf tables text target)] ↔
      Seams tables [[], text, repeated tables (fill.getD [0x20]) (neededOf tables text target)] := by simp [Seams, List.filter_cons]
  rw [seams]
  refine pads_iff (fun needed => (padding tables (fill.getD [0x20]) needed.toNat).bind fun output => .ok (text ++ output)) documented is rfl ?_
    (fun repeats => (Nat.zero_add _).trans (repeats.segments documented.toSimpleBelow)) fun none => ⟨rfl, by rw [none, repeated_zero]⟩
  rcases padding_cases tables (fill.getD [0x20]) (neededOf tables text target) with ⟨repeats, output⟩ | ⟨refused, failure, output⟩
  · exact .inl ⟨repeats, congrArg (·.bind fun output => .ok (text ++ output)) output⟩
  · exact .inr ⟨refused, failure, congrArg (·.bind fun output => .ok (text ++ output)) output⟩

/-- What `padBoth` does with the padding it needs. -/
def padBothWith (tables : UnicodeTables) (text fill : List UInt16) (needed : Int) : Except StringError (List UInt16) :=
  (padding tables fill (needed.toNat / 2)).bind fun before =>
    (padding tables fill (needed.toNat - needed.toNat / 2)).bind fun after => .ok (before ++ text ++ after)

theorem padBoth_iff (documented : tables.Documented) (is : targetLength.integer = some target) (fill : Option (List UInt16)) :
    (∀ result, padBoth tables text targetLength fill = .ok result →
        Padded tables text target (repeated tables (fill.getD [0x20]) (neededOf tables text target / 2)).length result) ↔
      (Repeats tables (fill.getD [0x20]) (neededOf tables text target / 2) →
        Repeats tables (fill.getD [0x20]) (neededOf tables text target - neededOf tables text target / 2) →
        Seams tables [repeated tables (fill.getD [0x20]) (neededOf tables text target / 2), text,
          repeated tables (fill.getD [0x20]) (neededOf tables text target - neededOf tables text target / 2)]) := by
  rw [← and_imp]
  refine pads_iff (padBothWith tables text (fill.getD [0x20])) documented is rfl ?_ ?_ fun none => ?_
  · rw [padBothWith, ← neededOf]
    rcases padding_cases tables (fill.getD [0x20]) (neededOf tables text target / 2) with ⟨repeats, before⟩ | ⟨refused, failure, before⟩
    · rw [before, Except.bind]
      rcases padding_cases tables (fill.getD [0x20]) (neededOf tables text target - neededOf tables text target / 2) with
        ⟨repeatsToo, after⟩ | ⟨refused, failure, after⟩
      · rw [after]
        exact .inl ⟨⟨repeats, repeatsToo⟩, rfl⟩
      · rw [after]
        exact .inr ⟨fun both => refused both.2, failure, rfl⟩
    · rw [before]
      exact .inr ⟨fun both => refused both.1, failure, rfl⟩
  · rintro ⟨repeats, repeatsToo⟩
    rw [repeats.segments documented.toSimpleBelow, repeatsToo.segments documented.toSimpleBelow]
    omega
  · rw [none]
    exact ⟨rfl, rfl⟩

end Padding

section Masking

variable {tables : UnicodeTables} {text glyph : List UInt16} {first last : Nat}

theorem resolveIndex_le (index : Int) (count : Nat) : resolveIndex index count ≤ count := by
  unfold resolveIndex
  split <;> omega

theorem replaced_iff {α : Type} {entries changed : List α} {entry : α} (ordered : first ≤ last) (within : last ≤ entries.length) :
    (changed.length = entries.length ∧
        ∀ index < entries.length, changed[index]? = if first ≤ index ∧ index < last then some entry else entries[index]?) ↔
      changed = entries.take first ++ (List.replicate (last - first) entry ++ entries.drop last) := by
  have each (index : Nat) : (entries.take first ++ (List.replicate (last - first) entry ++ entries.drop last))[index]? =
      if first ≤ index ∧ index < last then some entry else entries[index]? := by
    have taken : (entries.take first).length = first := List.length_take_of_le (by omega)
    rcases Nat.lt_or_ge index first with before | inside
    · rw [List.getElem?_append_left (by omega), List.getElem?_take_of_lt before, if_neg (by omega)]
    · rw [List.getElem?_append_right (by omega), taken]
      rcases Nat.lt_or_ge index last with inRange | after
      · rw [List.getElem?_append_left (by rw [List.length_replicate]; omega), List.getElem?_replicate, if_pos (by omega), if_pos ⟨inside, inRange⟩]
      · rw [List.getElem?_append_right (by rw [List.length_replicate]; omega), List.length_replicate, List.getElem?_drop, if_neg (by omega)]
        congr 1
        omega
  have length : (entries.take first ++ (List.replicate (last - first) entry ++ entries.drop last)).length = entries.length := by
    rw [List.length_append, List.length_append, List.length_replicate, List.length_drop, List.length_take_of_le (by omega)]
    omega
  constructor
  · rintro ⟨same, pointwise⟩
    refine List.ext_getElem? fun index => ?_
    rcases Nat.lt_or_ge index entries.length with inside | outside
    · rw [pointwise index inside, each]
    · rw [List.getElem?_eq_none (by omega), List.getElem?_eq_none (by omega)]
  · rintro rfl
    exact ⟨length, fun index _ => each index⟩

theorem cut_at (documented : tables.Documented) (text : List UInt16) (index : Nat) (within : index ≤ (segmentGraphemes tables text).length) :
    ∃ offset, (fallbackBoundaries tables text)[index]? = some offset ∧
      segmentGraphemes tables (text.take offset) = (segmentGraphemes tables text).take index ∧
      segmentGraphemes tables (text.drop offset) = (segmentGraphemes tables text).drop index := by
  have parts := List.take_append_drop index (segmentGraphemes tables text)
  have reached := getElem?_fallbackBoundaries parts.symm
  rw [List.length_take_of_le within] at reached
  have bound : ((segmentGraphemes tables text).take index).flatten.length ≤ text.length := by
    have whole := congrArg List.length (flatten_segmentGraphemes tables text)
    rw [← parts, List.flatten_append, List.length_append] at whole
    omega
  refine ⟨_, reached, ?_⟩
  have cut : segmentGraphemes tables (text.take ((segmentGraphemes tables text).take index).flatten.length ++
      text.drop ((segmentGraphemes tables text).take index).flatten.length) =
      (segmentGraphemes tables text).take index ++ (segmentGraphemes tables text).drop index := by
    rw [List.take_append_drop, parts]
  obtain ⟨-, before, after⟩ := segmentGraphemes_split documented cut (List.length_take_of_le bound).symm
  exact ⟨before.symm, after.symm⟩

/-- The texts that `mask` puts together. -/
def maskParts (tables : UnicodeTables) (text glyph : List UInt16) (first last : Nat) : List (List UInt16) :=
  ((segmentGraphemes tables text).take first).flatten ::
    (List.replicate (last - first) glyph ++ [((segmentGraphemes tables text).drop last).flatten])

theorem mask_eq {options : MaskOptions} {start stop : Int} (isStart : options.startOf = some start)
    (isStop : options.endOf (segmentGraphemes tables text).length = some stop)
    (isFirst : first = resolveIndex start (segmentGraphemes tables text).length)
    (isLast : last = resolveIndex stop (segmentGraphemes tables text).length) :
    mask tables text options =
      if startsWithMark tables options.glyphOf then .error (invalidArgument "glyph must not start with a combining mark")
      else if last ≤ first then .ok text
      else .ok (text.take ((fallbackBoundaries tables text)[first]?.getD text.length) ++
        (List.replicate (last - first) options.glyphOf).flatten ++ text.drop ((fallbackBoundaries tables text)[last]?.getD 0)) := by
  have count : (fallbackBoundaries tables text).length - 1 = (segmentGraphemes tables text).length := by
    rw [length_segmentGraphemes]
    rfl
  simp only [mask, count, isStart, isStop, isFirst, isLast]

theorem mask_iff (documented : tables.Documented) {options : MaskOptions} (single : (segmentGraphemes tables options.glyphOf).length = 1)
    {start stop : Int} (isStart : options.startOf = some start) (isStop : options.endOf (segmentGraphemes tables text).length = some stop)
    (isFirst : first = resolveIndex start (segmentGraphemes tables text).length)
    (isLast : last = resolveIndex stop (segmentGraphemes tables text).length) :
    (∀ result, mask tables text options = .ok result → Masked tables text options.glyphOf first last result) ↔
      (startsWithMark tables options.glyphOf = false → first < last → Seams tables (maskParts tables text options.glyphOf first last)) := by
  have call := mask_eq isStart isStop isFirst isLast
  cases marked : startsWithMark tables options.glyphOf with
  | true =>
    rw [marked, if_pos rfl] at call
    rw [forall_error call, true_iff]
    exact fun unmarked => by cases unmarked
  | false =>
    rw [marked, if_neg Bool.false_ne_true] at call
    rw [forall_prop_of_true rfl]
    rcases Nat.lt_or_ge first last with range | empty
    · rw [if_neg (by omega)] at call
      have within : last ≤ (segmentGraphemes tables text).length := isLast ▸ resolveIndex_le stop _
      obtain ⟨offset, reached, before, -⟩ := cut_at documented text first (by omega)
      obtain ⟨offsetToo, reachedToo, -, after⟩ := cut_at documented text last within
      have head : text.take offset = ((segmentGraphemes tables text).take first).flatten := by rw [← before, flatten_segmentGraphemes]
      have tail : text.drop offsetToo = ((segmentGraphemes tables text).drop last).flatten := by rw [← after, flatten_segmentGraphemes]
      have alone : segmentGraphemes tables options.glyphOf = [options.glyphOf] := by
        obtain ⟨piece, is⟩ := List.length_eq_one_iff.mp single
        have whole := flatten_segmentGraphemes tables options.glyphOf
        rw [is, List.flatten_singleton] at whole
        rw [is, whole]
      have parts : (maskParts tables text options.glyphOf first last).flatMap (segmentGraphemes tables) =
          (segmentGraphemes tables text).take first ++
            (List.replicate (last - first) options.glyphOf ++ (segmentGraphemes tables text).drop last) := by
        rw [maskParts, List.flatMap_cons, List.flatMap_append, List.flatMap_singleton, ← head, ← tail, before, after]
        congr 2
        induction last - first with
        | zero => rfl
        | succ copies ih => rw [List.replicate_succ, List.flatMap_cons, alone, ih]; rfl
      rw [forall_prop_of_true range, forall_ok call, ← segmentGraphemes_flatten documented, parts, ← replaced_iff (by omega) within]
      have result : (maskParts tables text options.glyphOf first last).flatten =
          text.take ((fallbackBoundaries tables text)[first]?.getD text.length) ++
            (List.replicate (last - first) options.glyphOf).flatten ++ text.drop ((fallbackBoundaries tables text)[last]?.getD 0) := by
        rw [reached, reachedToo, Option.getD_some, Option.getD_some, head, tail, maskParts]
        simp
      rw [result]
      exact ⟨fun masked => ⟨masked.count, masked.each⟩, fun masked => ⟨masked.1, masked.2⟩⟩
    · rw [if_pos empty] at call
      rw [forall_ok call]
      exact iff_of_true ⟨rfl, fun index _ => by rw [if_neg (by omega)]⟩ fun range => absurd range (by omega)

end Masking

/-- Padding and masking keep their promises exactly where the texts they put together meet at seams. -/
theorem padding_and_masking (tables : UnicodeTables) (documented : tables.Documented) (text : List UInt16) :
    (∀ (targetLength : Numeric) (target : Int) (fill : Option (List UInt16)), targetLength.integer = some target →
      ((∀ result, padStart tables text targetLength fill = .ok result →
          Padded tables text target (repeated tables (fill.getD [0x20]) (neededOf tables text target)).length result) ↔
        (Repeats tables (fill.getD [0x20]) (neededOf tables text target) →
          Seams tables [repeated tables (fill.getD [0x20]) (neededOf tables text target), text])) ∧
      ((∀ result, padEnd tables text targetLength fill = .ok result → Padded tables text target 0 result) ↔
        (Repeats tables (fill.getD [0x20]) (neededOf tables text target) →
          Seams tables [text, repeated tables (fill.getD [0x20]) (neededOf tables text target)])) ∧
      ((∀ result, padBoth tables text targetLength fill = .ok result →
          Padded tables text target (repeated tables (fill.getD [0x20]) (neededOf tables text target / 2)).length result) ↔
        (Repeats tables (fill.getD [0x20]) (neededOf tables text target / 2) →
          Repeats tables (fill.getD [0x20]) (neededOf tables text target - neededOf tables text target / 2) →
          Seams tables [repeated tables (fill.getD [0x20]) (neededOf tables text target / 2), text,
            repeated tables (fill.getD [0x20]) (neededOf tables text target - neededOf tables text target / 2)]))) ∧
    ∀ options : MaskOptions, (segmentGraphemes tables options.glyphOf).length = 1 → ∀ start stop : Int, options.startOf = some start →
      options.endOf (segmentGraphemes tables text).length = some stop →
      ∀ first last, first = resolveIndex start (segmentGraphemes tables text).length →
        last = resolveIndex stop (segmentGraphemes tables text).length →
        ((∀ result, mask tables text options = .ok result → Masked tables text options.glyphOf first last result) ↔
          (startsWithMark tables options.glyphOf = false → first < last →
            Seams tables (maskParts tables text options.glyphOf first last))) :=
  ⟨fun _ _ fill is => ⟨padStart_iff documented is fill, padEnd_iff documented is fill, padBoth_iff documented is fill⟩,
    fun _ single _ _ isStart isStop _ _ isFirst isLast => mask_iff documented single isStart isStop isFirst isLast⟩

theorem latinTables_documented : latinTables.Documented where
  toSimpleBelow := latinTables_simple
  nonspacing cp is := by
    have inside : (0x0300 ≤ cp ∧ cp ≤ 0x036F) ∨ cp ∈ NUKTAS := by simpa [latinTables] using is
    have bounds : 0x0300 ≤ cp ∧ cp ≤ 0x1B34 := by
      rcases inside with range | nukta
      · omega
      · exact (by decide : ∀ nukta ∈ NUKTAS, 0x0300 ≤ nukta ∧ nukta ≤ 0x1B34) cp nukta
    refine ⟨is, by simp [latinTables]; omega, by omega, ?_⟩
    rcases inside with range | nukta
    · exact fun prepended => by
        have high := (by decide : ∀ prepended ∈ PREPEND_CHARACTERS, 0x0600 ≤ prepended) cp prepended
        omega
    · exact (by decide : ∀ nukta ∈ NUKTAS, nukta ∉ PREPEND_CHARACTERS) cp nukta
  nuktas := by decide
  linkers := by decide

theorem graphemeCount_latin : graphemeCount latinTables = fun text => (fallbackBreaks latinTables text).length :=
  funext (graphemeCount_eq latinTables_simple)

/-- A text that begins with an accent takes the padding before it into its first grapheme. -/
theorem padStart_accent :
    latinTables.Documented ∧ padStart latinTables [0x0301] ⟨some 2, "2"⟩ none = .ok [0x20, 0x0301] ∧
      ((segmentGraphemes latinTables [0x20, 0x0301]).length : Int) ≠ max 2 (segmentGraphemes latinTables [0x0301]).length := by
  refine ⟨latinTables_documented, ?_, by decide⟩
  simp only [padStart, padding, graphemeCount_latin]
  rfl

theorem padding_and_masking_letters :
    Repeats latinTables [0x20] 2 ∧ Padded latinTables [0x61] 3 2 [0x20, 0x20, 0x61] := by
  have repeats : Repeats latinTables [0x20] 2 := ⟨by decide, by decide, by rw [graphemeCount_latin]; decide⟩
  refine ⟨repeats, ((padding_and_masking latinTables latinTables_documented [0x61]).1 ⟨some 3, "3"⟩ 3 none rfl).1.mpr (fun _ => ?_) _ ?_⟩
  · refine .cons_cons ⟨?_, by decide⟩ (.singleton _)
    rintro ⟨_, low, _, isFirst, _, isLow_⟩
    obtain rfl := Option.some.inj isFirst
    exact absurd isLow_ (by decide)
  · simp only [padStart, padding, graphemeCount_latin]
    rfl

end Arki.Strings
