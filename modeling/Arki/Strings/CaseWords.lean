import Arki.Library.Splitting

/-! The tokens that every case function works on: one pass for ASCII text, patterns for all other text.

A text is its code points. The character properties and the normal form are the engine's.
-/

set_option autoImplicit false

namespace Arki.Strings

open Splitting

structure CaseTables where
  letter : Nat → Bool
  number : Nat → Bool
  mark : Nat → Bool
  lower : Nat → Bool
  upper : Nat → Bool
  normalize : List Nat → List Nat

inductive Kind where
  | other
  | lower
  | upper
  | digit
  deriving DecidableEq

def asciiKind (code : Nat) : Kind :=
  if 0x61 ≤ code ∧ code ≤ 0x7A then .lower
  else if 0x41 ≤ code ∧ code ≤ 0x5A then .upper
  else if 0x30 ≤ code ∧ code ≤ 0x39 then .digit
  else .other

def isAscii (text : List Nat) : Bool := text.all fun code => code ≤ 0x7F

/-- `text.slice(start, end)`. -/
def slice (text : List Nat) (start stop : Nat) : List Nat := (text.drop start).take (stop - start)

/-- The loop of `asciiWords`, over the code points from `index` on. There is no start where the source has -1. -/
def asciiLoop (text : List Nat) (tokens : List (List Nat)) (start : Option Nat) (previous : Kind) (index : Nat) : List Nat → List (List Nat)
  | [] =>
    match start with
    | none => tokens
    | some start => tokens ++ [text.drop start]
  | code :: rest =>
    let kind := asciiKind code
    if kind = .other then
      match start with
      | none => asciiLoop text tokens none kind (index + 1) rest
      | some start => asciiLoop text (tokens ++ [slice text start index]) none kind (index + 1) rest
    else
      match start with
      | none => asciiLoop text tokens (some index) kind (index + 1) rest
      | some start =>
        if kind = .upper ∧ (previous ≠ .upper ∨ asciiKind (rest.head?.getD 0) = .lower) then
          asciiLoop text (tokens ++ [slice text start index]) (some index) kind (index + 1) rest
        else asciiLoop text tokens (some start) kind (index + 1) rest

section Source

variable (tables : CaseTables)

/-- `replaceAll(APOSTROPHE_BETWEEN_LETTERS, '')`, after `previous`. -/
def removeApostrophes (previous : Option Nat) : List Nat → List Nat
  | [] => []
  | code :: rest =>
    if (code = 0x27 ∨ code = 0x2019) ∧ previous.any tables.letter = true ∧ rest.head?.any tables.letter = true then
      removeApostrophes (some code) rest
    else code :: removeApostrophes (some code) rest

/-- What `NON_TOKEN` does not match. -/
def isToken (code : Nat) : Bool := tables.letter code || tables.number code || tables.mark code

/-- `LOWER_OR_DIGIT_TO_UPPER` matches between a character and the rest. -/
def lowerOrDigitToUpper (previous : Nat) (rest : List Nat) : Bool :=
  (tables.lower previous || tables.number previous || tables.mark previous) && rest.head?.any tables.upper

/-- `UPPER_RUN_TO_CAPITALIZED` matches between a character and the rest. -/
def upperRunToCapitalized (previous : Nat) (rest : List Nat) : Bool :=
  tables.upper previous && (rest.head?.any tables.upper && rest.tail.head?.any tables.lower)

def asciiWords (input : List Nat) : List (List Nat) :=
  let text := if input.contains 0x27 then removeApostrophes tables none input else input
  asciiLoop text [] none .other 0 text

def unicodeWords (text : List Nat) : List (List Nat) :=
  let chunks := (splitRuns (fun code => !isToken tables code) (removeApostrophes tables none (tables.normalize text))).filter fun chunk => chunk ≠ []
  (chunks.flatMap fun chunk =>
    (splitBetween (lowerOrDigitToUpper tables) chunk).flatMap (splitBetween (upperRunToCapitalized tables))).filter fun token => token ≠ []

def caseWords (text : List Nat) : List (List Nat) := if isAscii text then asciiWords tables text else unicodeWords tables text

end Source

structure CaseTables.Documented (tables : CaseTables) : Prop where
  letter : ∀ code ≤ 0x7F, (tables.letter code = true ↔ asciiKind code = .lower ∨ asciiKind code = .upper)
  number : ∀ code ≤ 0x7F, (tables.number code = true ↔ asciiKind code = .digit)
  mark : ∀ code ≤ 0x7F, tables.mark code = false
  lower : ∀ code ≤ 0x7F, (tables.lower code = true ↔ asciiKind code = .lower)
  upper : ∀ code ≤ 0x7F, (tables.upper code = true ↔ asciiKind code = .upper)
  lower_letter : ∀ code, tables.lower code = true → tables.letter code = true
  lower_upper : ∀ code, tables.lower code = true → tables.upper code = false
  normalize : ∀ text, (∀ code ∈ text, code ≤ 0x7F) → tables.normalize text = text

section Loop

def isWord (code : Nat) : Bool := asciiKind code ≠ .other

def asciiCut (previous : Nat) (rest : List Nat) : Bool :=
  rest.head?.any (asciiKind · = .upper) && (asciiKind previous ≠ .upper || asciiKind (rest.tail.head?.getD 0) = .lower)

def prepend (current : List Nat) : List (List Nat) → List (List Nat)
  | [] => [current]
  | token :: tokens => (current ++ token) :: tokens

/-- The tokens that come of a begun one, which ends with `last`, and the rest. -/
def grow (current : List Nat) (last : Nat) (rest : List Nat) : List (List Nat) :=
  if joins isWord asciiCut last rest then prepend current (pieces isWord asciiCut rest) else current :: pieces isWord asciiCut rest

variable {text current rest : List Nat} {tokens : List (List Nat)} {start index code last : Nat}

theorem pieces_eq_grow (word : isWord code = true) (rest : List Nat) : pieces isWord asciiCut (code :: rest) = grow [code] code rest := by
  rw [pieces, if_pos word, grow]
  split
  · cases pieces isWord asciiCut rest <;> rfl
  · rfl

theorem prepend_grow (current : List Nat) (code : Nat) (rest : List Nat) : prepend current (grow [code] code rest) = grow (current ++ [code]) code rest := by
  unfold grow
  split
  · cases pieces isWord asciiCut rest with
    | nil => rfl
    | cons token tokens => simp [prepend]
  · rfl

/-- What the loop gives from where it stands: outside a token, or in one that began at `start`. -/
theorem asciiLoop_eq (rest : List Nat) {previous : Kind} (left : text.drop index = rest) :
    asciiLoop text tokens none previous index rest = tokens ++ pieces isWord asciiCut rest ∧
      ∀ start current last, start ≤ index → slice text start index = current → current.getLast? = some last → previous = asciiKind last →
        asciiLoop text tokens (some start) previous index rest = tokens ++ grow current last rest := by
  induction rest generalizing index tokens previous with
  | nil =>
    refine ⟨(List.append_nil _).symm, fun start current last _ isCurrent _ _ => ?_⟩
    have short : text.length ≤ index := List.drop_eq_nil_iff.mp left
    have whole : text.drop start = current := by
      rw [← isCurrent, slice, List.take_of_length_le]
      rw [List.length_drop]
      omega
    simp only [asciiLoop, whole, grow, joins, pieces]
    rfl
  | cons code rest ih =>
    have leftNext : text.drop (index + 1) = rest := by rw [← List.drop_drop, left, List.drop_one, List.tail_cons]
    have begun : slice text index (index + 1) = [code] := by rw [slice, left, Nat.add_sub_cancel_left]; rfl
    constructor
    · by_cases other : asciiKind code = .other
      · rw [asciiLoop, if_pos other, (ih leftNext).1, pieces, if_neg (by simp [isWord, other])]
      · rw [asciiLoop, if_neg other, pieces_eq_grow (by simp [isWord, other])]
        exact (ih leftNext).2 index [code] code (by omega) begun rfl rfl
    · intro start current last within isCurrent isLast isPrevious
      by_cases other : asciiKind code = .other
      · have apart : joins isWord asciiCut last (code :: rest) = false := by simp [joins, isWord, other]
        rw [asciiLoop, if_pos other, (ih leftNext).1, isCurrent, grow, apart, if_neg Bool.false_ne_true, pieces,
          if_neg (by simp [isWord, other]), List.append_assoc]
        rfl
      · have word : isWord code = true := by simp [isWord, other]
        have cuts : asciiCut last (code :: rest) = true ↔
            asciiKind code = .upper ∧ (previous ≠ .upper ∨ asciiKind (rest.head?.getD 0) = .lower) := by
          simp only [asciiCut, Bool.and_eq_true, Bool.or_eq_true, decide_eq_true_eq]
          simp only [isPrevious, List.head?_cons, Option.any_some, List.tail_cons, decide_eq_true_eq]
        have longer : slice text start (index + 1) = current ++ [code] := by
          rw [slice, Nat.sub_add_comm within, List.take_add, ← slice, isCurrent, List.drop_drop, show start + (index - start) = index by omega, left]
          rfl
        rw [asciiLoop, if_neg other]
        by_cases cut : asciiCut last (code :: rest) = true
        · rw [if_pos (cuts.mp cut), isCurrent, (ih leftNext).2 index [code] code (by omega) begun rfl rfl, ← pieces_eq_grow word, grow,
            List.append_assoc]
          simp [joins, cut]
        · rw [if_neg (fun is => cut (cuts.mpr is)),
            (ih leftNext).2 start (current ++ [code]) code (by omega) longer (List.getLast?_concat) rfl, ← prepend_grow, ← pieces_eq_grow word, grow]
          simp [joins, cut, word]

theorem asciiLoop_pieces (text : List Nat) : asciiLoop text [] none .other 0 text = pieces isWord asciiCut text :=
  (asciiLoop_eq text List.drop_zero).1

end Loop

section Patterns

variable {tables : CaseTables} {text : List Nat} {previous : Option Nat}

theorem removeApostrophes_eq_self (plain : ∀ code ∈ text, code ≠ 0x27 ∧ code ≠ 0x2019) (previous : Option Nat) :
    removeApostrophes tables previous text = text := by
  induction text generalizing previous with
  | nil => rfl
  | cons code rest ih =>
    have here := plain code List.mem_cons_self
    rw [removeApostrophes, if_neg (fun is => is.1.elim here.1 here.2), ih fun other inside => plain other (List.mem_cons_of_mem _ inside)]

theorem removeApostrophes_subset (tables : CaseTables) (previous : Option Nat) (text : List Nat) :
    ∀ code ∈ removeApostrophes tables previous text, code ∈ text := by
  induction text generalizing previous with
  | nil => intro _ inside; cases inside
  | cons code rest ih =>
    intro other inside
    rw [removeApostrophes] at inside
    split at inside
    · exact List.mem_cons_of_mem _ (ih _ other inside)
    · rcases List.mem_cons.mp inside with rfl | inside
      · exact List.mem_cons_self
      · exact List.mem_cons_of_mem _ (ih _ other inside)

theorem removeApostrophes_words (tables : CaseTables) (previous : Option Nat) (text : List Nat) :
    (removeApostrophes tables previous text).filter isWord = text.filter isWord := by
  induction text generalizing previous with
  | nil => rfl
  | cons code rest ih =>
    rw [removeApostrophes]
    split
    next between =>
      have noWord : isWord code = false := by rcases between.1 with rfl | rfl <;> rfl
      rw [ih, List.filter_cons_of_neg (by simp [noWord])]
    next => rw [List.filter_cons, List.filter_cons, ih]

/-- Without a straight apostrophe the replacement is skipped, which only matters for text that is not ASCII. -/
theorem asciiWords_eq (ascii : ∀ code ∈ text, code ≤ 0x7F) :
    asciiWords tables text = pieces isWord asciiCut (removeApostrophes tables none text) := by
  have same : (if text.contains 0x27 then removeApostrophes tables none text else text) = removeApostrophes tables none text := by
    split
    · rfl
    next none =>
      refine (removeApostrophes_eq_self (fun code inside => ⟨fun is => none ?_, fun is => ?_⟩) _).symm
      · rw [List.contains_iff_mem, ← is]
        exact inside
      · have small := ascii code inside
        omega
  rw [asciiWords, asciiLoop_pieces, same]

theorem sees_lowerOrDigit (tables : CaseTables) : Sees (isToken tables) (fun _ _ => false) (lowerOrDigitToUpper tables) where
  near _ _ _ _ := rfl
  past _ _ _ _ _ := rfl

/-- A lower-case letter is a token character, and no first one is cut before it. -/
theorem sees_upperRun (documented : tables.Documented) : Sees (isToken tables) (lowerOrDigitToUpper tables) (upperRunToCapitalized tables) where
  near _ _ _ _ := rfl
  past item next_ after rest apart := by
    have noLower : tables.lower after = false := by
      rw [← Bool.not_eq_true]
      intro lower
      have token : isToken tables after = true := by simp [isToken, documented.lower_letter after lower]
      simp [joins, token, lowerOrDigitToUpper, documented.lower_upper after lower] at apart
    simp [upperRunToCapitalized, noLower]

theorem flatMap_flatMap_splitBetween (documented : tables.Documented) (text : List Nat) :
    (pieces (isToken tables) (fun _ _ => false) text).flatMap
        (fun chunk => (splitBetween (lowerOrDigitToUpper tables) chunk).flatMap (splitBetween (upperRunToCapitalized tables))) =
      pieces (isToken tables) (fun item rest => lowerOrDigitToUpper tables item rest || upperRunToCapitalized tables item rest) text := by
  rw [← List.flatMap_assoc, flatMap_splitBetween (sees_lowerOrDigit tables)]
  exact flatMap_splitBetween (sees_upperRun documented) text

theorem unicodeWords_eq (documented : tables.Documented) (text : List Nat) :
    unicodeWords tables text =
      pieces (isToken tables) (fun item rest => lowerOrDigitToUpper tables item rest || upperRunToCapitalized tables item rest)
        (removeApostrophes tables none (tables.normalize text)) := by
  rw [unicodeWords, splitRuns_filled, flatMap_flatMap_splitBetween documented, List.filter_eq_self]
  intro token inside
  simpa using pieces_filled _ _ _ token inside

theorem pieces_congr {keep keep' : Nat → Bool} {cut cut' : Nat → List Nat → Bool} (items : List Nat) (kept : ∀ item ∈ items, keep item = keep' item)
    (cuts : ∀ item next_ rest, (item :: next_ :: rest) <:+ items → keep item = true → keep next_ = true →
      cut item (next_ :: rest) = cut' item (next_ :: rest)) : pieces keep cut items = pieces keep' cut' items := by
  induction items with
  | nil => rfl
  | cons item rest ih =>
    have later := ih (fun other inside => kept other (List.mem_cons_of_mem _ inside))
      fun other next_ more suffix => cuts other next_ more (suffix.trans (List.suffix_cons _ _))
    rw [pieces, pieces, kept item List.mem_cons_self, later]
    by_cases keeps : keep' item = true
    · have same : joins keep cut item rest = joins keep' cut' item rest := by
        cases rest with
        | nil => rfl
        | cons next_ rest =>
          simp only [joins, List.head?_cons, Option.any_some, kept next_ (by simp)]
          cases keepsNext : keep' next_ with
          | false => rfl
          | true =>
            rw [cuts item next_ rest (List.suffix_refl _) ((kept item List.mem_cons_self).trans keeps) ((kept next_ (by simp)).trans keepsNext)]
      rw [same]
    · rw [if_neg keeps, if_neg keeps]

theorem isToken_ascii (documented : tables.Documented) {code : Nat} (small : code ≤ 0x7F) : isToken tables code = isWord code := by
  rw [Bool.eq_iff_iff, isToken, Bool.or_eq_true, Bool.or_eq_true, documented.letter code small, documented.number code small,
    documented.mark code small]
  cases kind : asciiKind code <;> simp [isWord, kind]

theorem asciiCut_eq (documented : tables.Documented) {code next_ : Nat} {rest : List Nat} (small : ∀ other ∈ code :: next_ :: rest, other ≤ 0x7F)
    (word : isWord code = true) :
    (lowerOrDigitToUpper tables code (next_ :: rest) || upperRunToCapitalized tables code (next_ :: rest)) = asciiCut code (next_ :: rest) := by
  have here := small code List.mem_cons_self
  have ahead := small next_ (by simp)
  have after : rest.head?.any tables.lower = true ↔ asciiKind (rest.head?.getD 0) = .lower := by
    cases rest with
    | nil => simp [asciiKind]
    | cons other rest => simpa using documented.lower other (small other (by simp))
  rw [Bool.eq_iff_iff]
  simp only [lowerOrDigitToUpper, upperRunToCapitalized, asciiCut, Bool.or_eq_true, Bool.and_eq_true, decide_eq_true_eq]
  simp only [List.tail_cons, List.head?_cons, Option.any_some, decide_eq_true_eq, after, documented.lower code here, documented.number code here, documented.mark code here,
    documented.upper code here, documented.upper next_ ahead]
  cases kind : asciiKind code <;> simp_all [isWord]

end Patterns

/-- Both paths give the same tokens, which are the letters and digits of the text in order. -/
theorem case_words (tables : CaseTables) (documented : tables.Documented) :
    (∀ text, caseWords tables text = unicodeWords tables text) ∧
      ∀ text, (∀ code ∈ text, code ≤ 0x7F) → asciiWords tables text = unicodeWords tables text ∧
        (asciiWords tables text).flatten = text.filter (fun code => asciiKind code ≠ .other) ∧ ∀ token ∈ asciiWords tables text, token ≠ [] := by
  have same (text : List Nat) (ascii : ∀ code ∈ text, code ≤ 0x7F) : asciiWords tables text = unicodeWords tables text := by
    have small : ∀ code ∈ removeApostrophes tables none text, code ≤ 0x7F := fun code inside =>
      ascii code (removeApostrophes_subset tables none text code inside)
    rw [asciiWords_eq ascii, unicodeWords_eq documented, documented.normalize text ascii]
    refine pieces_congr _ (fun code inside => (isToken_ascii documented (small code inside)).symm) fun code next_ rest suffix word _ => ?_
    exact (asciiCut_eq documented (fun other inside => small other (suffix.subset inside)) word).symm
  refine ⟨fun text => ?_, fun text ascii => ⟨same text ascii, ?_, ?_⟩⟩
  · rw [caseWords]
    split
    next ascii => exact same text fun code inside => by simpa using List.all_eq_true.mp ascii code inside
    next => rfl
  · rw [asciiWords_eq ascii, flatten_pieces, removeApostrophes_words]
    rfl
  · rw [asciiWords_eq ascii]
    exact pieces_filled _ _ _

def asciiTables : CaseTables where
  letter code := asciiKind code = .lower ∨ asciiKind code = .upper
  number code := asciiKind code = .digit
  mark _ := false
  lower code := asciiKind code = .lower
  upper code := asciiKind code = .upper
  normalize text := text

theorem asciiTables_documented : asciiTables.Documented where
  letter _ _ := by simp [asciiTables]
  number _ _ := by simp [asciiTables]
  mark _ _ := rfl
  lower _ _ := by simp [asciiTables]
  upper _ _ := by simp [asciiTables]
  lower_letter _ is := by simp_all [asciiTables]
  lower_upper _ is := by simp_all [asciiTables]
  normalize _ _ := rfl

theorem case_words_camel : unicodeWords asciiTables [0x61, 0x42, 0x43, 0x64] = [[0x61], [0x42], [0x43, 0x64]] :=
  ((case_words asciiTables asciiTables_documented).2 [0x61, 0x42, 0x43, 0x64] (by decide)).1.symm.trans (by decide)

end Arki.Strings
