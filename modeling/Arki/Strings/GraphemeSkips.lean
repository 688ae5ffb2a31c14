import Arki.Strings.Graphemes

/-! The ways around the scanner: counting graphemes and finding boundaries without segmenting simple text.

Two characters below a limit have a boundary between them, unless they are CR LF, and the text from there is segmented as a text of its own.
-/

set_option autoImplicit false

namespace Arki.Strings

open Utf16 Scanner

def SIMPLE_LIMIT : Nat := 0x0300

/-- `text.codePointAt(index)`. -/
def codePointAt (text : List UInt16) (index : Nat) : Option Nat := Utf16.codePointAt (text.drop index)

/-- None where the source has -1. -/
def simpleNext (text : List UInt16) (offset : Nat) : Option Nat :=
  let next := offset + 1
  if next = text.length then some next
  else
    let unit := (codePointAt text offset).getD 0
    if SIMPLE_LIMIT ≤ unit then none
    else
      let following := (codePointAt text next).getD 0
      if SIMPLE_LIMIT ≤ following then none else some (if unit = CR ∧ following = LF then next + 1 else next)

theorem simpleNext_gt {text : List UInt16} {offset after : Nat} (is : simpleNext text offset = some after) : offset < after := by
  simp only [simpleNext] at is
  split at is
  · injection is
    omega
  split at is
  · cases is
  split at is
  · cases is
  · injection is
    split at * <;> omega

/-- `text.slice(start)` is the text itself for 0. -/
def sliceFrom (text : List UInt16) (start : Nat) : List UInt16 := if start = 0 then text else text.drop start

section Source

variable (tables : UnicodeTables) (text : List UInt16)

/-- `graphemeBreaks` is the scanner on an engine without a segmenter. -/
def breaksAfter (start : Nat) : List Nat := fallbackBreaks tables (sliceFrom text start)

def segmentedCount : Nat := (fallbackBreaks tables text).length

/-- The loop of `graphemeCount`. -/
def graphemeCountFrom (count offset : Nat) : Nat :=
  if offset < text.length then
    match is : simpleNext text offset with
    | none => count + segmentedCount tables (sliceFrom text offset)
    | some after => graphemeCountFrom (count + 1) after
  else count
termination_by text.length - offset
decreasing_by
  have further := simpleNext_gt is
  omega

def graphemeCount : Nat := graphemeCountFrom tables text 0 0

/-- The second loop of `boundaryAt`, over the ends that are left. -/
def boundaryAmong (position offset seen : Nat) : List Nat → Option Nat
  | [] => none
  | after :: rest => if seen + 1 = position then some (offset + after) else boundaryAmong position offset (seen + 1) rest

/-- The first loop of `boundaryAt`, and what follows it. -/
def boundaryAtFrom (position seen offset : Nat) : Option Nat :=
  if offset < text.length then
    match is : simpleNext text offset with
    | none => boundaryAmong position offset seen (breaksAfter tables text offset)
    | some after => if seen + 1 = position then some after else boundaryAtFrom position (seen + 1) after
  else if offset = text.length then none
  else boundaryAmong position offset seen (breaksAfter tables text offset)
termination_by text.length - offset
decreasing_by
  have further := simpleNext_gt is
  omega

def boundaryAt (position : Nat) : Option Nat := if position = 0 then some 0 else boundaryAtFrom tables text position 0 0

/-- The second loop of `boundaryIfLonger`. -/
def longerAmong (position limit offset seen found : Nat) : List Nat → Option Nat
  | [] => none
  | after :: rest =>
    let found := if seen + 1 = position then offset + after else found
    if limit < seen + 1 then some found else longerAmong position limit offset (seen + 1) found rest

/-- The first loop of `boundaryIfLonger`, and what follows it. -/
def boundaryIfLongerFrom (position limit seen offset found : Nat) : Option Nat :=
  if offset < text.length then
    match is : simpleNext text offset with
    | none => longerAmong position limit offset seen found (breaksAfter tables text offset)
    | some after =>
      let found := if seen + 1 = position then after else found
      if limit < seen + 1 then some found else boundaryIfLongerFrom position limit (seen + 1) after found
  else if offset = text.length then none
  else longerAmong position limit offset seen found (breaksAfter tables text offset)
termination_by text.length - offset
decreasing_by
  have further := simpleNext_gt is
  omega

def boundaryIfLonger (position limit : Nat) : Option Nat := boundaryIfLongerFrom tables text position limit 0 0 0

end Source

/-- Below the limit no character joins a neighbour, as far as that is the tables' to say. -/
structure UnicodeTables.SimpleBelow (tables : UnicodeTables) : Prop where
  regionalIndicator : ∀ cp < SIMPLE_LIMIT, tables.regionalIndicator cp = false
  extend : ∀ cp < SIMPLE_LIMIT, tables.extend cp = false
  spacingMark : ∀ cp < SIMPLE_LIMIT, tables.spacingMark cp = false

section Rules

variable {tables : UnicodeTables} {cp unit following : Nat}

theorem not_mem_of_small {set : List Nat} (high : ∀ member ∈ set, SIMPLE_LIMIT ≤ member) (small : cp < SIMPLE_LIMIT) : cp ∉ set :=
  fun inside => Nat.not_lt_of_le (high cp inside) small

theorem classify_simple (simple : tables.SimpleBelow) (small : cp < SIMPLE_LIMIT) :
    classify tables cp = .other ∨ classify tables cp = .control ∨ classify tables cp = .extendedPictographic := by
  have limit : cp < 0x0300 := small
  have noPrepend : cp ∉ PREPEND_CHARACTERS := not_mem_of_small (by decide) small
  have noAddition : cp ∉ SPACING_MARK_ADDITIONS := not_mem_of_small (by decide) small
  have noHangul : hangulClass cp = none := by
    rw [hangulClass, if_neg (by omega), if_neg (by omega), if_neg (by omega), if_neg (by omega)]
  have noZwj : cp ≠ ZWJ := by
    unfold ZWJ
    omega
  rw [classify, if_neg noZwj, simple.regionalIndicator cp small, if_neg noPrepend, simple.extend cp small,
    simple.spacingMark cp small, noHangul]
  simp only [noAddition, Bool.false_eq_true, false_and, or_self, if_false]
  split
  · split <;> simp
  split
  · simp
  split <;> simp

theorem after_simple (simple : tables.SimpleBelow) (small : cp < SIMPLE_LIMIT) (state : ScanState)
    (unlinked : state.conjunct ≠ .conjunctLinker) :
    (state.after tables cp).regionalIndicatorRun = 0 ∧ (state.after tables cp).conjunct ≠ .conjunctLinker ∧
      (state.after tables cp).pictographic = (ScanState.start.after tables cp).pictographic := by
  have noLinker : cp ∉ INDIC_LINKERS := not_mem_of_small (by decide) small
  simp only [ScanState.after, if_neg noLinker]
  refine ⟨?_, ?_, ?_⟩
  · rcases classify_simple simple small with is | is | is <;> simp [is]
  · split
    · simp
    · split
      · exact unlinked
      · simp
  · rcases classify_simple simple small with is | is | is <;> simp [is]

theorem breakHere_simple (simple : tables.SimpleBelow) (small : unit < SIMPLE_LIMIT) (smallToo : following < SIMPLE_LIMIT)
    (apart : ¬(unit = CR ∧ following = LF)) : (ScanState.start.after tables unit).breakHere tables following = true := by
  have state := after_simple simple small .start (by decide)
  have previous : (ScanState.start.after tables unit).previous = classify tables unit := rfl
  have last : (ScanState.start.after tables unit).previousCp = some unit := rfl
  have nothing : (ScanState.start.after tables unit).pictographic ≠ .pictographicZwj := by
    simp only [ScanState.after]
    rcases classify_simple simple small with is | is | is <;> simp [is]
  simp only [ScanState.breakHere, state.2.1, nothing, previous, last, Option.some.injEq, apart]
  rcases classify_simple simple small with is | is | is <;> rcases classify_simple simple smallToo with isToo | isToo | isToo <;>
    simp [is, isToo]

/-- Before a simple character it makes no difference whether a simple one was read. -/
theorem alike_simple (simple : tables.SimpleBelow) (small : unit < SIMPLE_LIMIT) (smallToo : following < SIMPLE_LIMIT) :
    ((ScanState.start.after tables unit).after tables following).Alike (ScanState.start.after tables following) := by
  have first := after_simple simple small .start (by decide)
  have second := after_simple simple smallToo _ first.2.1
  have alone := after_simple simple smallToo .start (by decide)
  exact
    { previousCp := rfl
      previous := rfl
      parity := by rw [second.1, alone.1]
      pictographic := second.2.2
      linker := ⟨fun is => absurd is second.2.1, fun is => absurd is alone.2.1⟩ }

theorem breakHere_lineBreak (tables : UnicodeTables) : (ScanState.start.after tables CR).breakHere tables LF = false := by
  rw [ScanState.breakHere, if_pos ⟨rfl, rfl⟩]

theorem after_lineBreak :
    (ScanState.start.after tables CR).after tables LF = { ScanState.start with previousCp := some LF, previous := .control } := by
  simp [ScanState.after, ScanState.start, classify, isIndicConsonant, CR, LF, INDIC_LINKERS]
  exact fun _ => ite_self _

theorem breakHere_afterLine (tables : UnicodeTables) (cp : Nat) :
    ((ScanState.start.after tables CR).after tables LF).breakHere tables cp = true := by
  rw [after_lineBreak, ScanState.breakHere, if_neg (fun isCr => by cases isCr.1), if_pos (.inl rfl)]

theorem after_afterLine (cp : Nat) :
    ((ScanState.start.after tables CR).after tables LF).after tables cp = ScanState.start.after tables cp := by
  rw [after_lineBreak]
  rfl

end Rules

section Texts

variable {tables : UnicodeTables} {text rest : List UInt16} {unit following : UInt16} {offset after : Nat}

theorem not_high_of_small (small : unit.toNat < SIMPLE_LIMIT) : isHigh unit ≠ true := by
  intro high
  have bounds := isHigh_iff.mp high
  have limit : unit.toNat < 0x0300 := small
  omega

theorem codePoints_small (small : unit.toNat < SIMPLE_LIMIT) : codePoints (unit :: rest) = unit.toNat :: codePoints rest :=
  codePoints_single fun high => absurd high (not_high_of_small small)

theorem paired_not_small {high low : UInt16} : SIMPLE_LIMIT ≤ paired high low := by
  unfold SIMPLE_LIMIT paired
  omega

theorem small_codePointAt (small : ¬SIMPLE_LIMIT ≤ (Utf16.codePointAt (unit :: rest)).getD 0) :
    (Utf16.codePointAt (unit :: rest)).getD 0 = unit.toNat ∧ unit.toNat < SIMPLE_LIMIT := by
  rcases codePoints_cons unit rest with ⟨low, _, _, _, _, is⟩ | is
  · rw [Utf16.codePointAt, is] at small
    rw [List.head?_cons, Option.getD_some] at small
    exact absurd paired_not_small small
  · rw [Utf16.codePointAt, is, List.head?_cons, Option.getD_some] at small ⊢
    exact ⟨rfl, Nat.lt_of_not_le small⟩

theorem simpleNext_cases (inside : offset < text.length) (is : simpleNext text offset = some after) :
    (∃ unit, text.drop offset = [unit] ∧ after = offset + 1) ∨
      ∃ unit following rest, text.drop offset = unit :: following :: rest ∧ unit.toNat < SIMPLE_LIMIT ∧ following.toNat < SIMPLE_LIMIT ∧
        after = if unit.toNat = CR ∧ following.toNat = LF then offset + 2 else offset + 1 := by
  obtain ⟨unit, remaining, left⟩ : ∃ unit remaining, text.drop offset = unit :: remaining :=
    List.exists_cons_of_ne_nil fun none => by
      have long := List.drop_eq_nil_iff.mp none
      omega
  have length : text.length - offset = remaining.length + 1 := by rw [← List.length_drop, left, List.length_cons]
  have next_ : text.drop (offset + 1) = remaining := by rw [← List.drop_drop, left, List.drop_one, List.tail_cons]
  simp only [simpleNext, codePointAt, left, next_] at is
  split at is
  next isLast =>
    refine .inl ⟨unit, ?_, (Option.some.inj is).symm⟩
    rw [left, List.length_eq_zero_iff.mp (show remaining.length = 0 by omega)]
  next notLast =>
    cases remaining with
    | nil =>
      rw [List.length_nil] at length
      omega
    | cons following rest =>
      split at is
      · cases is
      next small =>
        split at is
        · cases is
        next smallToo =>
          have first := small_codePointAt small
          have second := small_codePointAt smallToo
          rw [first.1, second.1] at is
          exact .inr ⟨unit, following, rest, left, first.2, second.2, (Option.some.inj is).symm⟩

theorem fallbackBreaks_single (unit : UInt16) : fallbackBreaks tables [unit] = [1] := by
  rw [fallbackBreaks_eq]
  change [(scanner tables).widths [unit.toNat]] = [1]
  rw [Machine.widths_cons, scanner_width, codePointWidth_toNat]
  rfl

/-- After a simple character before another one, the text is segmented as if it began there. -/
theorem fallbackBreaks_simple (simple : tables.SimpleBelow) (small : unit.toNat < SIMPLE_LIMIT) (smallToo : following.toNat < SIMPLE_LIMIT)
    (apart : ¬(unit.toNat = CR ∧ following.toNat = LF)) :
    fallbackBreaks tables (unit :: following :: rest) = 1 :: (fallbackBreaks tables (following :: rest)).map (1 + ·) := by
  have width : (scanner tables).widths [unit.toNat] = 1 := by
    rw [Machine.widths_cons, scanner_width, codePointWidth_toNat]
    rfl
  have restart := (scanner_bisimulation tables).ends_append unit.toNat following.toNat [] (codePoints rest)
    (breakHere_simple simple small smallToo apart) (alike_simple simple small smallToo)
  rw [width] at restart
  rw [fallbackBreaks_eq, fallbackBreaks_eq, codePoints_small small, codePoints_small smallToo]
  refine restart.trans ?_
  change (scanner tables).widths [unit.toNat] :: _ = _
  rw [width]
  rfl

theorem fallbackBreaks_lineBreak (isCr : unit.toNat = CR) (isLf : following.toNat = LF) :
    fallbackBreaks tables (unit :: following :: rest) = 2 :: (fallbackBreaks tables rest).map (2 + ·) := by
  have width : (scanner tables).widths [CR, LF] = 2 := rfl
  have small : unit.toNat < SIMPLE_LIMIT := by
    rw [isCr]
    decide
  have smallToo : following.toNat < SIMPLE_LIMIT := by
    rw [isLf]
    decide
  have line : (scanner tables).ends [CR, LF] = [2] := by
    have together : (scanner tables).breaks ((scanner tables).after (scanner tables).start CR) LF = false :=
      breakHere_lineBreak tables
    rw [Machine.ends, Machine.cuts, together, width]
    rfl
  rw [fallbackBreaks_eq, fallbackBreaks_eq, codePoints_small small, codePoints_small smallToo, isCr, isLf]
  cases codePoints rest with
  | nil => exact line
  | cons cp points =>
    have restart := (scanner_bisimulation tables).ends_append CR cp [LF] points (breakHere_afterLine tables cp)
      (.of_eq (after_afterLine cp))
    rw [width, line] at restart
    exact restart

/-- One step of the skipping loops: the end of the first piece of what is left, and the rest a text of its own. -/
theorem fallbackBreaks_next (simple : tables.SimpleBelow) (inside : offset < text.length) (is : simpleNext text offset = some after) :
    after ≤ text.length ∧
      fallbackBreaks tables (text.drop offset) = (after - offset) :: (fallbackBreaks tables (text.drop after)).map (after - offset + ·) := by
  rcases simpleNext_cases inside is with ⟨unit, left, rfl⟩ | ⟨unit, following, rest, left, small, smallToo, rfl⟩
  · have length : text.length - offset = 1 := by rw [← List.length_drop, left, List.length_singleton]
    refine ⟨inside, ?_⟩
    rw [left, fallbackBreaks_single, List.drop_eq_nil_of_le (by omega), Nat.add_sub_cancel_left]
    rfl
  · have length : text.length - offset = rest.length + 2 := by rw [← List.length_drop, left]; rfl
    split
    next line =>
      have remaining : text.drop (offset + 2) = rest := by rw [← List.drop_drop, left]; rfl
      refine ⟨by omega, ?_⟩
      rw [left, remaining, fallbackBreaks_lineBreak line.1 line.2, Nat.add_sub_cancel_left]
    next apart =>
      have remaining : text.drop (offset + 1) = following :: rest := by rw [← List.drop_drop, left]; rfl
      refine ⟨by omega, ?_⟩
      rw [left, remaining, fallbackBreaks_simple simple small smallToo apart, Nat.add_sub_cancel_left]

theorem sliceFrom_eq (text : List UInt16) (start : Nat) : sliceFrom text start = text.drop start := by
  rw [sliceFrom]
  split
  next isStart => rw [isStart, List.drop_zero]
  next => rfl

/-- The skipping loops passed some of the boundaries, and `offset` is where the rest of the text begins. -/
structure Skipped (tables : UnicodeTables) (text : List UInt16) (passed : List Nat) (offset : Nat) : Prop where
  inside : offset ≤ text.length
  breaks : fallbackBreaks tables text = passed ++ (fallbackBreaks tables (text.drop offset)).map (offset + ·)

variable {passed ends : List Nat} {position limit : Nat}

theorem Skipped.start (tables : UnicodeTables) (text : List UInt16) : Skipped tables text [] 0 where
  inside := Nat.zero_le _
  breaks := by simp

theorem Skipped.next (skipped : Skipped tables text passed offset) (simple : tables.SimpleBelow) (inside : offset < text.length)
    (is : simpleNext text offset = some after) : Skipped tables text (passed ++ [after]) after := by
  have further := simpleNext_gt is
  obtain ⟨bound, rest⟩ := fallbackBreaks_next simple inside is
  have whole : offset + (after - offset) = after := by omega
  refine ⟨bound, ?_⟩
  rw [skipped.breaks, rest, List.map_cons, List.map_map, whole, List.append_assoc, List.singleton_append]
  congr 2
  refine List.map_congr_left fun later _ => ?_
  change offset + (after - offset + later) = after + later
  rw [← Nat.add_assoc, whole]

theorem Skipped.breaksAfter (skipped : Skipped tables text passed offset) :
    fallbackBreaks tables text = passed ++ (breaksAfter tables text offset).map (offset + ·) := by
  rw [Strings.breaksAfter, sliceFrom_eq, skipped.breaks]

theorem Skipped.done (skipped : Skipped tables text passed offset) (isEnd : ¬offset < text.length) : fallbackBreaks tables text = passed := by
  rw [skipped.breaks, List.drop_eq_nil_of_le (Nat.not_lt.mp isEnd)]
  exact List.append_nil _

theorem Skipped.count (skipped : Skipped tables text passed offset) (simple : tables.SimpleBelow) {count : Nat} (counted : passed.length = count) :
    graphemeCountFrom tables text count offset = (fallbackBreaks tables text).length := by
  fun_induction graphemeCountFrom tables text count offset generalizing passed with
  | case1 count offset inside is => rw [skipped.breaksAfter, List.length_append, List.length_map, counted]; rfl
  | case2 count offset inside after is ih => exact ih (skipped.next simple inside is) (by rw [List.length_append, counted]; rfl)
  | case3 count offset isEnd => rw [skipped.done isEnd, counted]

theorem graphemeCount_eq (simple : tables.SimpleBelow) (text : List UInt16) :
    graphemeCount tables text = (fallbackBreaks tables text).length :=
  (Skipped.start tables text).count simple rfl

theorem boundaryAmong_eq (offset : Nat) {seen : Nat} (ahead : seen < position) :
    boundaryAmong position offset seen ends = (ends.map (offset + ·))[position - (seen + 1)]? := by
  induction ends generalizing seen with
  | nil => rfl
  | cons after rest ih =>
    rw [boundaryAmong, List.map_cons]
    split
    next here => rw [← here, Nat.sub_self, List.getElem?_cons_zero]
    next further =>
      rw [ih (by omega), show position - (seen + 1) = position - (seen + 1 + 1) + 1 by omega, List.getElem?_cons_succ]

theorem getElem?_further (ahead : passed.length < position) (ends : List Nat) :
    (0 :: (passed ++ ends))[position]? = ends[position - (passed.length + 1)]? := by
  obtain ⟨earlier, rfl⟩ : ∃ earlier, position = earlier + 1 := ⟨position - 1, by omega⟩
  rw [List.getElem?_cons_succ, List.getElem?_append_right (by omega), Nat.add_sub_add_right]

theorem Skipped.boundaryAt (skipped : Skipped tables text passed offset) (simple : tables.SimpleBelow) {seen : Nat}
    (counted : passed.length = seen) (ahead : seen < position) :
    boundaryAtFrom tables text position seen offset = (fallbackBoundaries tables text)[position]? := by
  fun_induction boundaryAtFrom tables text position seen offset generalizing passed with
  | case1 seen offset inside is =>
    rw [boundaryAmong_eq offset ahead, fallbackBoundaries, skipped.breaksAfter, getElem?_further (by omega), counted]
  | case2 seen offset inside after is here =>
    have next_ := skipped.next simple inside is
    rw [fallbackBoundaries, next_.breaks, List.append_assoc, getElem?_further (by omega), counted, here, Nat.sub_self]
    rfl
  | case3 seen offset inside after is further ih =>
    exact ih (skipped.next simple inside is) (by rw [List.length_append, counted]; rfl) (by omega)
  | case4 seen isEnd =>
    rw [fallbackBoundaries, skipped.done isEnd, ← List.append_nil passed, getElem?_further (by omega)]
    rfl
  | case5 seen offset isEnd notEnd =>
    have inside := skipped.inside
    omega

theorem found_next (passed : List Nat) (position after : Nat) :
    (if passed.length + 1 = position then after else (0 :: passed)[position]?.getD 0) = (0 :: (passed ++ [after]))[position]?.getD 0 := by
  split
  next here =>
    rw [getElem?_further (by omega), here, Nat.sub_self]
    rfl
  next elsewhere =>
    rcases Nat.lt_or_ge passed.length position with further | known
    · rw [getElem?_further further, List.getElem?_eq_none (by simp; omega), List.getElem?_eq_none (by simp; omega)]
    · rw [← List.cons_append, List.getElem?_append_left (by simp; omega)]

/-- The boundary that was kept is the one at the position, once the loops have come so far. -/
theorem found_eq (known : position ≤ passed.length) (ends : List Nat) :
    some ((0 :: passed)[position]?.getD 0) = (0 :: (passed ++ ends))[position]? := by
  have inside : position < (0 :: passed).length := by
    rw [List.length_cons]
    omega
  rw [← List.cons_append, List.getElem?_append_left inside, List.getElem?_eq_getElem inside, Option.getD_some]

/-- What `boundaryIfLonger` is for, on the boundaries of the whole text. -/
def entryIfLonger (ends : List Nat) (position limit : Nat) : Option Nat := if limit < ends.length then (0 :: ends)[position]? else none

theorem entryIfLonger_of_lt (within : position ≤ limit) (isPast : limit < passed.length) (ends : List Nat) :
    some ((0 :: passed)[position]?.getD 0) = entryIfLonger (passed ++ ends) position limit := by
  rw [entryIfLonger, if_pos (by rw [List.length_append]; omega), found_eq (by omega)]

theorem longerAmong_eq (within : position ≤ limit) (offset : Nat) {seen found : Nat} (counted : passed.length = seen)
    (short : seen ≤ limit) (kept : found = (0 :: passed)[position]?.getD 0) :
    longerAmong position limit offset seen found ends = entryIfLonger (passed ++ ends.map (offset + ·)) position limit := by
  induction ends generalizing passed seen found with
  | nil =>
    rw [longerAmong, entryIfLonger, if_neg]
    rw [List.map_nil, List.append_nil]
    omega
  | cons after rest ih =>
    have length : (passed ++ [offset + after]).length = seen + 1 := by rw [List.length_append, counted]; rfl
    have whole : passed ++ (after :: rest).map (offset + ·) = passed ++ [offset + after] ++ rest.map (offset + ·) := by
      rw [List.map_cons, List.append_assoc, List.singleton_append]
    simp only [longerAmong]
    rw [kept, ← counted, found_next, counted, whole]
    split
    next isPast => exact entryIfLonger_of_lt within (by omega) _
    next => exact ih length (by omega) rfl

theorem Skipped.boundaryIfLonger (skipped : Skipped tables text passed offset) (simple : tables.SimpleBelow) (within : position ≤ limit)
    {seen found : Nat} (counted : passed.length = seen) (short : seen ≤ limit) (kept : found = (0 :: passed)[position]?.getD 0) :
    boundaryIfLongerFrom tables text position limit seen offset found = entryIfLonger (fallbackBreaks tables text) position limit := by
  fun_induction boundaryIfLongerFrom tables text position limit seen offset found generalizing passed with
  | case1 seen offset found inside is => rw [longerAmong_eq within offset counted short kept, skipped.breaksAfter]
  | case2 seen offset found inside after is kept' =>
    have next_ := skipped.next simple inside is
    have length : (passed ++ [after]).length = seen + 1 := by rw [List.length_append, counted]; rfl
    rw [next_.breaks, ← entryIfLonger_of_lt within (by omega) _, ← found_next, counted, ← kept]
    rfl
  | case3 seen offset found inside after is kept' notPast =>
    rename_i ih
    have length : (passed ++ [after]).length = seen + 1 := by rw [List.length_append, counted]; rfl
    refine ih (skipped.next simple inside is) length (by omega) ?_
    rw [← found_next, counted, ← kept]
    rfl
  | case4 seen found isEnd =>
    rw [skipped.done isEnd, entryIfLonger, if_neg (by omega)]
  | case5 seen offset found isEnd notEnd =>
    have inside := skipped.inside
    omega

end Texts

/-- Each way around the scanner gives what the scanner gives for the whole text, and the scanner's boundaries are in order and
split no pair. -/
theorem grapheme_shortcuts (tables : UnicodeTables) (simple : tables.SimpleBelow) (text : List UInt16) :
    graphemeCount tables text = (fallbackBreaks tables text).length ∧
      (∀ position, boundaryAt tables text position = (fallbackBoundaries tables text)[position]?) ∧
      (∀ position limit, position ≤ limit → boundaryIfLonger tables text position limit =
        if limit < (fallbackBreaks tables text).length then (fallbackBoundaries tables text)[position]? else none) ∧
      (fallbackBoundaries tables text).Pairwise (· < ·) ∧ (fallbackBoundaries tables text).getLast? = some text.length ∧
      ∀ offset ∈ fallbackBreaks tables text, ¬Splits text offset := by
  have start := Skipped.start tables text
  refine ⟨graphemeCount_eq simple text, fun position => ?_, fun position limit within => ?_, fallbackBoundaries_increasing tables text,
    fallbackBoundaries_last tables text, fun offset inside => not_splits_of_mem inside⟩
  · rw [boundaryAt]
    split
    next isStart => rw [isStart]; rfl
    next further => exact start.boundaryAt simple rfl (Nat.pos_of_ne_zero further)
  · refine start.boundaryIfLonger simple within rfl (Nat.zero_le _) ?_
    cases position <;> rfl

theorem latinTables_simple : latinTables.SimpleBelow where
  regionalIndicator cp small := by
    have limit : cp < 0x0300 := small
    simp [latinTables]
    omega
  extend cp small := by
    have limit : cp < 0x0300 := small
    have noNukta : cp ∉ NUKTAS := not_mem_of_small (by decide) small
    simp [latinTables, noNukta]
    omega
  spacingMark _ _ := rfl

theorem grapheme_shortcuts_accent : boundaryIfLonger latinTables [0x61, 0x0301, 0x62] 1 1 = some 2 :=
  ((grapheme_shortcuts latinTables latinTables_simple [0x61, 0x0301, 0x62]).2.2.1 1 1 (Nat.le_refl 1)).trans (by decide)

end Arki.Strings
