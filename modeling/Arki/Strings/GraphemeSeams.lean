import Arki.Strings.GraphemeSkips

/-! Where two texts meet: what the scanner must find there for the graphemes of both to stay as they are.

The scanner carries flags, emoji and conjunct chains past a boundary, but nothing of it tells what follows apart.
-/

set_option autoImplicit false

namespace Arki.Strings

open Utf16 Scanner

/-- What the Unicode data promises of its properties, as far as the scanner depends on it. -/
structure UnicodeTables.Documented (tables : UnicodeTables) : Prop extends tables.SimpleBelow where
  nonspacing : ∀ cp, tables.nonspacing cp = true →
    tables.extend cp = true ∧ tables.regionalIndicator cp = false ∧ 0x80 ≤ cp ∧ cp ∉ PREPEND_CHARACTERS
  nuktas : ∀ cp ∈ NUKTAS, tables.nonspacing cp = true
  linkers : ∀ cp ∈ INDIC_LINKERS, tables.control cp = false

structure ScanState.Sound (state : ScanState) : Prop where
  lineEnd : state.previousCp = some CR ∨ state.previousCp = some LF → state.previous = .control
  unlinked : state.previous = .control → state.conjunct ≠ .conjunctLinker
  noEmoji : state.previous = .control → state.pictographic = .noPictographic
  flags : state.previous ≠ .regionalIndicator → state.regionalIndicatorRun = 0

section Rules

variable {tables : UnicodeTables} {state : ScanState} {cp : Nat}

theorem classify_conjunctExtend (documented : tables.Documented) (conjunct : isConjunctExtend tables cp = true) :
    classify tables cp = .extend ∨ classify tables cp = .zwj := by
  have nonspacing : cp = ZWJ ∨ tables.nonspacing cp = true := by
    unfold isConjunctExtend at conjunct
    split at conjunct
    next isZwj => exact .inl isZwj
    split at conjunct
    next => cases conjunct
    split at conjunct
    next => cases conjunct
    split at conjunct
    next isNukta => exact .inr (documented.nuktas cp isNukta)
    next => exact .inr (Bool.and_eq_true _ _ ▸ conjunct).1
  rcases nonspacing with rfl | nonspacing
  · exact .inr (by rw [classify, if_neg (by decide), if_pos rfl])
  · obtain ⟨extend, noFlag, large, noPrepend⟩ := documented.nonspacing cp nonspacing
    by_cases isZwj : cp = ZWJ
    · exact .inr (by rw [classify, if_neg (by omega), if_pos isZwj])
    · exact .inl (by rw [classify, if_neg (by omega), if_neg isZwj, noFlag, if_neg noPrepend, extend]; rfl)

theorem classify_linker (documented : tables.Documented) (linker : cp ∈ INDIC_LINKERS) : classify tables cp ≠ .control := by
  have large : 0x0300 ≤ cp := (by decide : ∀ linker ∈ INDIC_LINKERS, 0x0300 ≤ linker) cp linker
  rw [classify, if_neg (by omega), documented.linkers cp linker]
  split
  · simp
  split
  · simp
  split
  · simp
  split
  · simp
  split
  · contradiction
  split
  · simp
  unfold hangulClass
  split_ifs <;> simp

theorem classify_lineEnd (lineEnd : cp = CR ∨ cp = LF) : classify tables cp = .control := by
  rcases lineEnd with rfl | rfl <;> rfl

theorem ScanState.Sound.start : ScanState.start.Sound := ⟨by simp [ScanState.start], by simp [ScanState.start], fun _ => rfl, fun _ => rfl⟩

theorem ScanState.Sound.after (documented : tables.Documented) (state : ScanState) (cp : Nat) : (state.after tables cp).Sound where
  lineEnd is := by
    rcases is with is | is
    · exact classify_lineEnd (.inl (Option.some.inj is))
    · exact classify_lineEnd (.inr (Option.some.inj is))
  unlinked is linker := by
    have control : classify tables cp = .control := is
    simp only [ScanState.after] at linker
    split at linker
    next isLinker => exact classify_linker documented isLinker control
    split at linker
    next => cases linker
    split at linker
    next extends_ =>
      rcases classify_conjunctExtend documented extends_ with isExtend | isZwj <;> simp_all
    next => cases linker
  noEmoji is := by
    have control : classify tables cp = .control := is
    simp [ScanState.after, control]
  flags is := if_neg is

/-- Only after a control does a boundary stand before a character that continues a cluster. -/
theorem ScanState.Sound.control_of_break (sound : state.Sound) (joined : classify tables cp = .extend ∨ classify tables cp = .zwj)
    (breaks : state.breakHere tables cp = true) : state.previous = .control := by
  by_contra notControl
  have notAfterLine : ¬(state.previousCp = some CR ∨ state.previousCp = some LF) := fun line => notControl (sound.lineEnd line)
  have notLine : ¬(cp = CR ∨ cp = LF) := fun line => by
    rw [classify_lineEnd line] at joined
    rcases joined with is | is <;> cases is
  rw [not_or] at notAfterLine notLine
  simp only [ScanState.breakHere, notControl, notAfterLine, notLine] at breaks
  rcases joined with is | is <;> simp [is] at breaks

/-- Between two letters of flags a boundary stands after an even number of them. -/
theorem ScanState.Sound.even_of_break (sound : state.Sound) (flag : classify tables cp = .regionalIndicator)
    (breaks : state.breakHere tables cp = true) : state.regionalIndicatorRun % 2 = 0 := by
  by_cases previous : state.previous = .regionalIndicator
  · have notAfterLine : ¬(state.previousCp = some CR ∨ state.previousCp = some LF) := fun line => by
      rw [sound.lineEnd line] at previous
      cases previous
    have notLine : ¬(cp = CR ∨ cp = LF) := fun line => by
      rw [classify_lineEnd line] at flag
      cases flag
    rw [not_or] at notAfterLine notLine
    simp only [ScanState.breakHere, previous, notAfterLine, notLine, flag] at breaks
    by_contra odd
    have isOdd : state.regionalIndicatorRun % 2 = 1 := by omega
    simp [isOdd] at breaks
  · rw [sound.flags previous]

theorem ScanState.Sound.restart (documented : tables.Documented) (sound : state.Sound) (breaks : state.breakHere tables cp = true) :
    (state.after tables cp).Alike (ScanState.start.after tables cp) where
  previousCp := rfl
  previous := rfl
  parity := by
    simp only [ScanState.after, ScanState.start]
    split
    next flag =>
      have even := sound.even_of_break flag breaks
      omega
    next => rfl
  pictographic := by
    simp only [ScanState.after, ScanState.start]
    split
    · rfl
    next isExtend => simp [sound.noEmoji (sound.control_of_break (.inl isExtend) breaks)]
    next isZwj => simp [sound.noEmoji (sound.control_of_break (.inr isZwj) breaks)]
    · rfl
  linker := by
    simp only [ScanState.after, ScanState.start]
    split
    · rfl
    split
    · rfl
    split
    next extends_ =>
      have control := sound.control_of_break (classify_conjunctExtend documented extends_) breaks
      simp [sound.unlinked control]
    · rfl

end Rules

section Seams

variable {tables : UnicodeTables} {text left right : List UInt16}

/-- The scanner ends a cluster between the texts, in the state the first one leaves it in, and no halves of a pair meet. -/
def Seam (tables : UnicodeTables) (left right : List UInt16) : Prop :=
  ¬Joins left right ∧
    ∀ cp, Utf16.codePointAt right = some cp → ((scanner tables).afterAll .start (codePoints left)).breakHere tables cp = true

theorem sound_afterAll (documented : tables.Documented) {state : ScanState} (sound : state.Sound) (points : List Nat) :
    ((scanner tables).afterAll state points).Sound := by
  induction points generalizing state with
  | nil => exact sound
  | cons cp rest ih => exact ih (.after documented state cp)

theorem exists_codePoints (filled : text ≠ []) : ∃ cp rest, codePoints text = cp :: rest :=
  List.exists_cons_of_ne_nil fun none => filled (codePoints_eq_nil.mp none)

theorem fallbackBreaks_append (documented : tables.Documented) (seam : Seam tables left right) (filled : left ≠ []) (filledToo : right ≠ []) :
    fallbackBreaks tables (left ++ right) = fallbackBreaks tables left ++ (fallbackBreaks tables right).map (left.length + ·) := by
  obtain ⟨first, items, isLeft⟩ := exists_codePoints filled
  obtain ⟨cp, rest, isRight⟩ := exists_codePoints filledToo
  have width : (scanner tables).widths (first :: items) = left.length := by rw [← isLeft, widths_codePoints]
  have breaks := seam.2 cp (by rw [Utf16.codePointAt, isRight, List.head?_cons])
  have sound := sound_afterAll documented .start (codePoints left)
  have restart := sound.restart documented breaks
  rw [isLeft] at breaks restart
  rw [fallbackBreaks_eq, fallbackBreaks_eq, fallbackBreaks_eq, codePoints_append seam.1, isLeft, isRight, ← width]
  exact (scanner_bisimulation tables).ends_append first cp items rest breaks restart

theorem seam_of_mem (filled : left ≠ []) (filledToo : right ≠ []) (inside : left.length ∈ fallbackBreaks tables (left ++ right)) :
    Seam tables left right := by
  have apart : ¬Joins left right := by
    rintro ⟨high, low, isLast, isFirst, halves⟩
    obtain ⟨before, rfl⟩ := List.getLast?_eq_some_iff.mp isLast
    obtain ⟨rest, rfl⟩ := List.head?_eq_some_iff.mp isFirst
    exact not_splits_of_mem inside ⟨before, high, low, rest, by rw [List.append_assoc]; rfl, List.length_append, halves⟩
  obtain ⟨first, items, isLeft⟩ := exists_codePoints filled
  obtain ⟨cp, rest, isRight⟩ := exists_codePoints filledToo
  refine ⟨apart, fun other is => ?_⟩
  rw [Utf16.codePointAt, isRight, List.head?_cons, Option.some.injEq] at is
  rw [fallbackBreaks_eq, codePoints_append apart, isRight, is, ← @widths_codePoints tables left, isLeft] at inside
  rw [isLeft]
  exact Machine.breaks_of_mem_ends codePointWidth_pos inside

end Seams

section Slices

variable {text left right : List UInt16} {start : Nat} {ends more : List Nat}

theorem slicesFrom_append (text : List UInt16) (start : Nat) (ends more : List Nat) :
    slicesFrom text start (ends ++ more) = slicesFrom text start ends ++ slicesFrom text (ends.getLastD start) more := by
  induction ends generalizing start with
  | nil => rfl
  | cons after rest ih =>
    rw [List.cons_append, slicesFrom, ih, slicesFrom, List.cons_append]
    cases rest <;> rfl

theorem slicesFrom_left (within : ∀ offset ∈ ends, offset ≤ left.length) (start : Nat) (right : List UInt16) :
    slicesFrom (left ++ right) start ends = slicesFrom left start ends := by
  induction ends generalizing start with
  | nil => rfl
  | cons after rest ih =>
    have bound := within after List.mem_cons_self
    rw [slicesFrom, slicesFrom, ih fun offset inside => within offset (List.mem_cons_of_mem _ inside)]
    congr 1
    rcases Nat.le_total start left.length with inside | past
    · rw [List.drop_append_of_le_length inside, List.take_append_of_le_length (by rw [List.length_drop]; omega)]
    · rw [show after - start = 0 by omega, List.take_zero, List.take_zero]

theorem slicesFrom_right (left right : List UInt16) (start : Nat) (ends : List Nat) :
    slicesFrom (left ++ right) (left.length + start) (ends.map (left.length + ·)) = slicesFrom right start ends := by
  induction ends generalizing start with
  | nil => rfl
  | cons after rest ih =>
    rw [List.map_cons, slicesFrom, slicesFrom, ih, List.drop_append, List.drop_eq_nil_of_le (by omega), List.nil_append,
      Nat.add_sub_cancel_left, Nat.add_sub_add_left]

theorem flatten_slicesFrom (increasing : (start :: ends).Pairwise (· < ·)) :
    (slicesFrom text start ends).flatten = (text.drop start).take (ends.getLastD start - start) := by
  induction ends generalizing start with
  | nil => rw [List.getLastD_nil, Nat.sub_self, List.take_zero]; rfl
  | cons after rest ih =>
    rw [List.pairwise_cons] at increasing
    have step := increasing.1 after List.mem_cons_self
    have later : after ≤ rest.getLastD after := by
      cases isRest : rest.getLast? with
      | none =>
        rw [List.getLastD_eq_getLast?, isRest]
        rfl
      | some last =>
        rw [List.getLastD_eq_getLast?, isRest]
        exact Nat.le_of_lt ((List.pairwise_cons.mp increasing.2).1 last (List.mem_of_getLast? isRest))
    have whole : (after :: rest).getLastD start - start = (after - start) + (rest.getLastD after - after) := by
      rw [List.getLastD_cons]
      omega
    rw [slicesFrom, List.flatten_cons, ih increasing.2, whole, List.take_add, List.drop_drop, show start + (after - start) = after by omega]

theorem getElem?_slices {slices later : List (List UInt16)} (increasing : (start :: ends).Pairwise (· < ·))
    (within : ∀ offset ∈ ends, offset ≤ text.length) (is : slicesFrom text start ends = slices ++ later) :
    (start :: ends)[slices.length]? = some (start + slices.flatten.length) := by
  induction slices generalizing start ends with
  | nil => rfl
  | cons slice slices ih =>
    cases ends with
    | nil => cases is
    | cons after rest =>
      rw [slicesFrom, List.cons_append, List.cons.injEq] at is
      rw [List.pairwise_cons] at increasing
      have step := increasing.1 after List.mem_cons_self
      have bound := within after List.mem_cons_self
      have length : slice.length = after - start := by
        rw [← is.1, List.length_take, List.length_drop]
        omega
      rw [List.length_cons, List.getElem?_cons_succ,
        ih increasing.2 (fun offset inside => within offset (List.mem_cons_of_mem _ inside)) is.2, List.flatten_cons, List.length_append, length]
      congr 1
      omega

theorem slicesFrom_filled {slice : List UInt16} (increasing : (start :: ends).Pairwise (· < ·))
    (within : ∀ offset ∈ ends, offset ≤ text.length) (inside : slice ∈ slicesFrom text start ends) : slice ≠ [] := by
  induction ends generalizing start with
  | nil => cases inside
  | cons after rest ih =>
    rw [List.pairwise_cons] at increasing
    have step := increasing.1 after List.mem_cons_self
    have bound := within after List.mem_cons_self
    rcases List.mem_cons.mp inside with rfl | inside
    · refine List.ne_nil_of_length_pos ?_
      rw [List.length_take, List.length_drop]
      omega
    · exact ih increasing.2 (fun offset inside => within offset (List.mem_cons_of_mem _ inside)) inside

/-- Two ways to split one list of filled parts are the same where the parts before have the same length. -/
theorem split_unique {first second later laterToo : List (List UInt16)} (filled : ∀ part ∈ first ++ later, part ≠ [])
    (same : first ++ later = second ++ laterToo) (length : first.flatten.length = second.flatten.length) :
    first = second ∧ later = laterToo := by
  have emptied : ∀ {more : List (List UInt16)}, (∀ part ∈ more, part ≠ []) → more.flatten.length = 0 → more = [] := fun filled none => by
    rw [List.length_eq_zero_iff, List.flatten_eq_nil_iff] at none
    exact List.eq_nil_iff_forall_not_mem.mpr fun part inside => filled part inside (none part inside)
  rcases List.append_eq_append_iff.mp same with ⟨more, rfl, rfl⟩ | ⟨more, rfl, rfl⟩
  · rw [List.flatten_append, List.length_append] at length
    have none := emptied (fun part inside => filled part (by simp [inside])) (by omega : more.flatten.length = 0)
    simp [none]
  · rw [List.flatten_append, List.length_append] at length
    have none := emptied (fun part inside => filled part (by simp [inside])) (by omega : more.flatten.length = 0)
    simp [none]

end Slices

section Segments

variable {tables : UnicodeTables} {text left right : List UInt16} {before after : List (List UInt16)}

theorem fallbackBreaks_le {offset : Nat} (inside : offset ∈ fallbackBreaks tables text) : offset ≤ text.length := by
  have increasing := fallbackBoundaries_increasing tables text
  obtain ⟨earlier, isLast⟩ := List.getLast?_eq_some_iff.mp (fallbackBoundaries_last tables text)
  have among : offset ∈ fallbackBoundaries tables text := List.mem_cons_of_mem _ inside
  rw [isLast] at increasing among
  rcases List.mem_append.mp among with among | is
  · exact Nat.le_of_lt ((List.pairwise_append.mp increasing).2.2 offset among text.length (by simp))
  · rw [List.mem_singleton.mp is]

theorem flatten_segmentGraphemes (tables : UnicodeTables) (text : List UInt16) : (segmentGraphemes tables text).flatten = text := by
  have last : (fallbackBreaks tables text).getLastD 0 = text.length := by
    have isLast := fallbackBoundaries_last tables text
    rw [fallbackBoundaries, List.getLast?_cons, Option.some.injEq] at isLast
    rw [List.getLastD_eq_getLast?, isLast]
  rw [segmentGraphemes, flatten_slicesFrom (fallbackBoundaries_increasing tables text), last]
  exact List.take_length

theorem segmentGraphemes_filled (tables : UnicodeTables) (text : List UInt16) : ∀ part ∈ segmentGraphemes tables text, part ≠ [] :=
  fun _ inside => slicesFrom_filled (fallbackBoundaries_increasing tables text) (fun _ => fallbackBreaks_le) inside

theorem length_segmentGraphemes (tables : UnicodeTables) (text : List UInt16) :
    (segmentGraphemes tables text).length = (fallbackBreaks tables text).length := by
  have count : ∀ (start : Nat) (ends : List Nat), (slicesFrom text start ends).length = ends.length := fun start ends => by
    induction ends generalizing start with
    | nil => rfl
    | cons after rest ih => rw [slicesFrom, List.length_cons, ih, List.length_cons]
  exact count 0 _

theorem getElem?_fallbackBoundaries (is : segmentGraphemes tables text = before ++ after) :
    (fallbackBoundaries tables text)[before.length]? = some before.flatten.length := by
  have reached := getElem?_slices (fallbackBoundaries_increasing tables text) (fun _ => fallbackBreaks_le) is
  rwa [Nat.zero_add] at reached

theorem segmentGraphemes_nil (tables : UnicodeTables) : segmentGraphemes tables [] = [] := rfl

theorem segmentGraphemes_append (documented : tables.Documented) (seam : left ≠ [] → right ≠ [] → Seam tables left right) :
    segmentGraphemes tables (left ++ right) = segmentGraphemes tables left ++ segmentGraphemes tables right := by
  by_cases filled : left = []
  · rw [filled, segmentGraphemes_nil]
    rfl
  by_cases filledToo : right = []
  · rw [filledToo, segmentGraphemes_nil, List.append_nil, List.append_nil]
  have last : (fallbackBreaks tables left).getLastD 0 = left.length + 0 := by
    have isLast := fallbackBoundaries_last tables left
    rw [fallbackBoundaries, List.getLast?_cons, Option.some.injEq] at isLast
    rw [List.getLastD_eq_getLast?, isLast, Nat.add_zero]
  rw [segmentGraphemes, fallbackBreaks_append documented (seam filled filledToo) filled filledToo, slicesFrom_append, last, slicesFrom_right,
    slicesFrom_left fun _ => fallbackBreaks_le]
  rfl

/-- Graphemes that reach the place where two texts meet are those of the first one, and there is a seam. -/
theorem segmentGraphemes_split (documented : tables.Documented) (is : segmentGraphemes tables (left ++ right) = before ++ after)
    (length : before.flatten.length = left.length) :
    (left ≠ [] → right ≠ [] → Seam tables left right) ∧ before = segmentGraphemes tables left ∧ after = segmentGraphemes tables right := by
  have seam : left ≠ [] → right ≠ [] → Seam tables left right := fun filled filledToo => by
    have reached := getElem?_fallbackBoundaries is
    rw [length] at reached
    rcases List.mem_cons.mp (List.mem_of_getElem? reached) with isStart | inside
    · exact absurd (List.length_eq_zero_iff.mp isStart) filled
    · exact seam_of_mem filled filledToo inside
  have whole := segmentGraphemes_append documented seam
  rw [is] at whole
  have filled := segmentGraphemes_filled tables (left ++ right)
  rw [is] at filled
  exact ⟨seam, split_unique filled whole (by rw [length, flatten_segmentGraphemes])⟩

def Seams (tables : UnicodeTables) (parts : List (List UInt16)) : Prop := (parts.filter fun part => part ≠ []).IsChain (Seam tables)

theorem seam_append_right (apart : ¬Joins right text) (filled : right ≠ []) :
    Seam tables left (right ++ text) ↔ Seam tables left right := by
  have head : (right ++ text).head? = right.head? := List.head?_append_of_ne_nil _ filled
  obtain ⟨cp, rest, isRight⟩ := exists_codePoints filled
  have point : Utf16.codePointAt (right ++ text) = Utf16.codePointAt right := by
    rw [Utf16.codePointAt, codePoints_append apart, isRight, Utf16.codePointAt, isRight]
    rfl
  rw [Seam, Seam, Joins, Joins, head, point]

theorem segmentGraphemes_flatten_filled (documented : tables.Documented) (parts : List (List UInt16)) (filled : ∀ part ∈ parts, part ≠ []) :
    segmentGraphemes tables parts.flatten = parts.flatMap (segmentGraphemes tables) ↔ parts.IsChain (Seam tables) := by
  induction parts with
  | nil => simp [segmentGraphemes_nil]
  | cons part rest ih =>
    cases rest with
    | nil => simp
    | cons next_ more =>
      have rests := ih fun part inside => filled part (List.mem_cons_of_mem _ inside)
      have filledHere := filled part List.mem_cons_self
      have filledNext := filled next_ (List.mem_cons_of_mem _ List.mem_cons_self)
      have filledRest : (next_ :: more).flatten ≠ [] := by simp [filledNext]
      -- the rest is cut into its parts, so no pair stands across the end of the next one
      have across (cut : segmentGraphemes tables (next_ :: more).flatten = (next_ :: more).flatMap (segmentGraphemes tables)) :
          Seam tables part (next_ :: more).flatten ↔ Seam tables part next_ := by
        rw [List.flatten_cons, List.flatMap_cons] at cut
        have seam := (segmentGraphemes_split documented cut (by rw [flatten_segmentGraphemes])).1 filledNext
        refine seam_append_right (fun joins => ?_) filledNext
        obtain ⟨_, _, _, isFirst, _⟩ := id joins
        exact (seam fun none => by rw [none] at isFirst; cases isFirst).1 joins
      rw [List.isChain_cons_cons, ← rests, List.flatten_cons, List.flatMap_cons]
      constructor
      · intro cut
        obtain ⟨seam, -, isRest⟩ := segmentGraphemes_split documented cut (by rw [flatten_segmentGraphemes])
        exact ⟨(across isRest.symm).mp (seam filledHere filledRest), isRest.symm⟩
      · rintro ⟨seam, cut⟩
        rw [segmentGraphemes_append documented fun _ _ => (across cut).mpr seam, cut]

theorem segmentGraphemes_flatten (documented : tables.Documented) (parts : List (List UInt16)) :
    segmentGraphemes tables parts.flatten = parts.flatMap (segmentGraphemes tables) ↔ Seams tables parts := by
  have dropped : (parts.filter fun part => part ≠ []).flatten = parts.flatten ∧
      (parts.filter fun part => part ≠ []).flatMap (segmentGraphemes tables) = parts.flatMap (segmentGraphemes tables) := by
    induction parts with
    | nil => exact ⟨rfl, rfl⟩
    | cons part rest ih =>
      by_cases empty : part = []
      · rw [List.filter_cons_of_neg (by simp [empty]), empty, List.flatten_cons, List.flatMap_cons, segmentGraphemes_nil]
        exact ih
      · rw [List.filter_cons_of_pos (by simp [empty]), List.flatten_cons, List.flatMap_cons, List.flatten_cons, List.flatMap_cons, ih.1, ih.2]
        exact ⟨rfl, rfl⟩
  rw [← dropped.1, ← dropped.2]
  exact segmentGraphemes_flatten_filled documented _ fun part inside => by simpa using (List.mem_filter.mp inside).2

end Segments

end Arki.Strings
