import Arki.Journal.Outbox
import Arki.Library.Base64
import Mathlib

/-! The cursor of a page: the sort time and the id of the page's last row, as opaque text.

Times are the database's, to the microsecond and of the common era: no `Date` before it
has a text that Postgres takes. How the collation orders two ids is the database's.
-/

set_option autoImplicit false

namespace Arki.Journal

def daysIn (year month : Nat) : Nat :=
  if month = 2 then if year % 4 = 0 ∧ (year % 100 ≠ 0 ∨ year % 400 = 0) then 29 else 28
  else if month = 4 ∨ month = 6 ∨ month = 9 ∨ month = 11 then 30 else 31

/-- A `timestamptz` in UTC. -/
structure Timestamp where
  year : Nat
  month : Nat
  day : Nat
  hour : Nat
  minute : Nat
  second : Nat
  micros : Nat
  inYears : 1 ≤ year ∧ year ≤ 294276
  inMonths : 1 ≤ month ∧ month ≤ 12
  inDays : 1 ≤ day ∧ day ≤ daysIn year month
  inClock : hour < 24 ∧ minute < 60 ∧ second < 60 ∧ micros < 1000000
  deriving DecidableEq

namespace Timestamp

def fields (time : Timestamp) : List Nat :=
  [time.year, time.month, time.day, time.hour, time.minute, time.second, time.micros]

theorem fields_injective : Function.Injective fields := by
  rintro ⟨⟩ ⟨⟩ same
  simp_all [fields]

/-- Fields compare as the instants do. -/
instance : LinearOrder Timestamp := LinearOrder.lift' fields fields_injective

def ofFields : List Nat → Option Timestamp
  | [year, month, day, hour, minute, second, micros] =>
    if valid : (1 ≤ year ∧ year ≤ 294276) ∧ (1 ≤ month ∧ month ≤ 12) ∧ (1 ≤ day ∧ day ≤ daysIn year month) ∧
        hour < 24 ∧ minute < 60 ∧ second < 60 ∧ micros < 1000000 then
      some ⟨year, month, day, hour, minute, second, micros, valid.1, valid.2.1, valid.2.2.1, valid.2.2.2⟩
    else none
  | _ => none

theorem ofFields_fields (time : Timestamp) : ofFields time.fields = some time := by
  rw [fields, ofFields, dif_pos ⟨time.inYears, time.inMonths, time.inDays, time.inClock⟩]

end Timestamp

/-- The text of a column. Its order is the collation's, which the listings take as it is. -/
structure Varchar where
  text : List Char
  deriving DecidableEq

/-- What `jobId` generates: `job_` and letters and digits. -/
structure JobId where
  text : List Char
  nonempty : text ≠ []
  plain : ∀ c ∈ text, (c.isAlphanum || c = '_') = true

def JobId.varchar (id : JobId) : Varchar := ⟨id.text⟩

theorem JobId.varchar_injective : Function.Injective JobId.varchar := by
  rintro ⟨⟩ ⟨⟩ same
  simpa [JobId.varchar] using same

def padded (width n : Nat) : List Char :=
  List.replicate (width - (Nat.toDigits 10 n).length) '0' ++ Nat.toDigits 10 n

/-- `to_char(column AT TIME ZONE 'UTC', 'YYYY-MM-DD"T"HH24:MI:SS.US')`. -/
def cursorText (time : Timestamp) : List Char :=
  padded 4 time.year ++ '-' :: padded 2 time.month ++ '-' :: padded 2 time.day ++ 'T' ::
    padded 2 time.hour ++ ':' :: padded 2 time.minute ++ ':' :: padded 2 time.second ++ '.' :: padded 6 time.micros

/-- `\d{count}` at the start of a text, and what follows it. -/
def number (count : Nat) (text : List Char) : Option (Nat × List Char) :=
  if (text.take count).length = count ∧ (text.take count).all Char.isDigit then
    some (Nat.ofDigitChars 10 (text.take count) 0, text.drop count)
  else none

def numbers : List (Nat × Char) → Nat → List Char → Option (List Nat)
  | [], count, text => do
    let (n, rest) ← number count text
    if rest = [] then some [n] else none
  | (width, mark) :: more, count, text => do
    let (n, rest) ← number width text
    match rest with
    | c :: rest => if c = mark then (n :: ·) <$> numbers more count rest else none
    | [] => none

/-- `/^\d{4}-\d{2}-\d{2}T\d{2}:\d{2}:\d{2}\.\d{6}$/` -/
def CURSOR_TIME : List Char → Option (List Nat) :=
  numbers [(4, '-'), (2, '-'), (2, 'T'), (2, ':'), (2, ':'), (2, '.')] 6

/-- `at::timestamp AT TIME ZONE 'UTC'`. No text with hour 24 or second 60 is ever given out. -/
def timestampOf (text : List Char) : Option Timestamp := (CURSOR_TIME text).bind Timestamp.ofFields

/-- `JSON.stringify` of a text that holds nothing to escape. -/
def quoted (text : List Char) : List Char := '"' :: text ++ ['"']

-- The payload is ASCII (a timestamp and a generated id), so `btoa` refuses no cursor.
def encodeCursor (at_ : List Char) (id : JobId) : List Char :=
  let payload := '[' :: quoted at_ ++ ',' :: quoted id.text ++ [']']
  ((Base64.btoa (payload.map Char.toNat)).map fun c => if c = '+' then '-' else if c = '/' then '_' else c).filter
    fun c => c ≠ '='

/-- One UTF-16 unit that stands alone: the driver writes an unpaired surrogate as U+FFFD. -/
def single (unit : Nat) : Char :=
  if 0xD800 ≤ unit ∧ unit ≤ 0xDFFF then Char.ofNat 0xFFFD else Char.ofNat unit

def charsOf : List Nat → List Char
  | high :: low :: rest =>
    if (0xD800 ≤ high ∧ high < 0xDC00) ∧ 0xDC00 ≤ low ∧ low ≤ 0xDFFF then
      Char.ofNat (0x10000 + (high - 0xD800) * 0x400 + (low - 0xDC00)) :: charsOf rest
    else single high :: charsOf (low :: rest)
  | [unit] => [single unit]
  | [] => []

def hexDigit (unit : Nat) : Option Nat :=
  if 48 ≤ unit ∧ unit ≤ 57 then some (unit - 48)
  else if 65 ≤ unit ∧ unit ≤ 70 then some (unit - 55)
  else if 97 ≤ unit ∧ unit ≤ 102 then some (unit - 87)
  else none

def unescaped (unit : Nat) : Option Nat :=
  if unit = 34 ∨ unit = 47 ∨ unit = 92 then some unit
  else if unit = 98 then some 8
  else if unit = 102 then some 12
  else if unit = 110 then some 10
  else if unit = 114 then some 13
  else if unit = 116 then some 9
  else none

def jsonString : List Nat → Option (List Nat × List Nat)
  | [] => none
  | unit :: rest =>
    if unit = 34 then some ([], rest)
    else if unit = 92 then
      match rest with
      | 117 :: a :: b :: c :: d :: rest => do
        let unit := (← hexDigit a) * 4096 + (← hexDigit b) * 256 + (← hexDigit c) * 16 + (← hexDigit d)
        let (text, rest) ← jsonString rest
        some (unit :: text, rest)
      | escape :: rest => do
        let unit ← unescaped escape
        let (text, rest) ← jsonString rest
        some (unit :: text, rest)
      | [] => none
    else if unit < 32 then none
    else do
      let (text, rest) ← jsonString rest
      some (unit :: text, rest)

def skipBlanks (text : List Nat) : List Nat :=
  text.dropWhile fun unit => unit = 32 ∨ unit = 9 ∨ unit = 10 ∨ unit = 13

/-- `mark`, with blanks around it. -/
def token (mark : Nat) (text : List Nat) : Option (List Nat) :=
  match skipBlanks text with
  | unit :: rest => if unit = mark then some (skipBlanks rest) else none
  | [] => none

/-- `JSON.parse` of an array of two strings: the shape takes no other value. -/
def jsonPair (text : List Nat) : Option (List Nat × List Nat) := do
  let rest ← token 91 text
  let rest ← if rest.head? = some 34 then some rest.tail else none
  let (first, rest) ← jsonString rest
  let rest ← token 44 rest
  let rest ← if rest.head? = some 34 then some rest.tail else none
  let (second, rest) ← jsonString rest
  let rest ← token 93 rest
  if rest = [] then some (first, second) else none

/-- The texts of a cursor that has the shape `[CURSOR_TIME, string of one character or more]`. -/
def cursorOf (after : List Char) : Option (List Char × Varchar) := do
  let bytes ← Base64.atob (after.map fun c => if c = '-' then '+' else if c = '_' then '/' else c)
  let (at_, id) ← jsonPair bytes
  if (CURSOR_TIME (charsOf at_)).isSome ∧ id ≠ [] then some (charsOf at_, ⟨charsOf id⟩) else none

def decodeCursor (after : List Char) : Except JournalError (List Char × Varchar) :=
  match cursorOf after with
  | some cursor => .ok cursor
  | none =>
    .error (argument "after" "not a cursor this journal gave out; pass the `next` of a previous page unchanged")

theorem digitsFit {width n : Nat} (fits : n < 10 ^ width) (wide : 0 < width) :
    (Nat.toDigits 10 n).length ≤ width := (Nat.length_toDigits_le_iff (by decide) wide).mpr fits

theorem padded_length {width n : Nat} (fits : n < 10 ^ width) (wide : 0 < width) : (padded width n).length = width := by
  have short := digitsFit fits wide
  simp only [padded, List.length_append, List.length_replicate]
  omega

theorem padded_digits (width n : Nat) : ∀ c ∈ padded width n, c.isDigit = true := by
  intro c member
  rcases List.mem_append.mp member with zero_ | digit
  · rw [List.eq_of_mem_replicate zero_]
    rfl
  · exact Nat.isDigit_of_mem_toDigits (by decide) (by decide) digit

theorem padded_value (width n : Nat) : Nat.ofDigitChars 10 (padded width n) 0 = n := by
  rw [padded, Nat.ofDigitChars_append, Nat.ofDigitChars_replicate_zero, Nat.mul_zero, Nat.ofDigitChars_ten_toDigits]

theorem number_padded {width n : Nat} (fits : n < 10 ^ width) (wide : 0 < width) (rest : List Char) :
    number width (padded width n ++ rest) = some (n, rest) := by
  have length := padded_length fits wide
  have first : (padded width n ++ rest).take width = padded width n := List.take_left' length
  rw [number, first, if_pos ⟨length, List.all_eq_true.mpr (padded_digits width n)⟩, padded_value,
    List.drop_left' length]

theorem numbers_padded {width n count : Nat} {mark : Char} {more : List (Nat × Char)} {rest : List Char}
    (fits : n < 10 ^ width) (wide : 0 < width) :
    numbers ((width, mark) :: more) count (padded width n ++ mark :: rest) =
      (n :: ·) <$> numbers more count rest := by
  rw [numbers, number_padded fits wide]
  simp

/-- The pattern takes the text of every time up to the year 9999, and reads its numbers. -/
theorem CURSOR_TIME_text {time : Timestamp} (four : time.year ≤ 9999) :
    CURSOR_TIME (cursorText time) = some time.fields := by
  obtain ⟨hours, minutes, seconds, micros⟩ := time.inClock
  have months : time.month < 10 ^ 2 := lt_of_le_of_lt time.inMonths.2 (by decide)
  have days : time.day < 10 ^ 2 := by
    have top : daysIn time.year time.month ≤ 31 := by
      unfold daysIn
      split <;> split <;> decide
    have day := time.inDays.2
    omega
  have last : numbers [] 6 (padded 6 time.micros) = some [time.micros] := by
    have read := @number_padded 6 time.micros micros (by decide) []
    rw [List.append_nil] at read
    rw [numbers, read]
    rfl
  rw [CURSOR_TIME, cursorText]
  simp only [List.append_assoc, List.cons_append]
  rw [numbers_padded (lt_of_le_of_lt four (by decide)) (by decide), numbers_padded months (by decide),
    numbers_padded days (by decide), numbers_padded (by omega) (by decide), numbers_padded (by omega) (by decide),
    numbers_padded (by omega) (by decide), last]
  rfl

theorem CURSOR_TIME_late {time : Timestamp} (five : 9999 < time.year) : CURSOR_TIME (cursorText time) = none := by
  have long : 4 < (padded 4 time.year).length := by
    have more : ¬ (Nat.toDigits 10 time.year).length ≤ 4 := by
      rw [Nat.length_toDigits_le_iff (by decide) (by decide)]
      omega
    simp only [padded, List.length_append]
    omega
  rw [CURSOR_TIME, cursorText]
  simp only [List.append_assoc, List.cons_append]
  generalize '-' :: (padded 2 time.month ++ _) = others
  rw [numbers, number]
  split
  · obtain ⟨c, rest, shape⟩ : ∃ c rest, (padded 4 time.year).drop 4 = c :: rest := by
      cases shape : (padded 4 time.year).drop 4 with
      | nil =>
        have short := List.drop_eq_nil_iff.mp shape
        omega
      | cons c rest => exact ⟨c, rest, rfl⟩
    have digit : c.isDigit = true :=
      padded_digits 4 time.year c (List.mem_of_mem_drop (shape ▸ List.mem_cons_self))
    have other : c ≠ '-' := by
      rintro rfl
      exact absurd digit (by decide)
    rw [List.drop_append_of_le_length (by omega), shape]
    simp [other]
  · rfl

theorem timestampOf_text {time : Timestamp} (four : time.year ≤ 9999) : timestampOf (cursorText time) = some time := by
  rw [timestampOf, CURSOR_TIME_text four, Option.bind_some, Timestamp.ofFields_fields]

def Bare (c : Char) : Prop := 32 ≤ c.toNat ∧ c.toNat < 128 ∧ c ≠ '"' ∧ c ≠ '\\'

theorem bare_of_alphanum {c : Char} (plain : (c.isAlphanum || c = '_') = true) : Bare c := by
  rcases Bool.or_eq_true_iff.mp plain with letter | line
  · simp only [Char.isAlphanum, Char.isAlpha, Char.isUpper, Char.isLower, Char.isDigit, Bool.or_eq_true,
      Bool.and_eq_true, decide_eq_true_eq, UInt32.le_iff_toNat_le, ge_iff_le] at letter
    have code : c.toNat = c.val.toNat := rfl
    have bounds : 48 ≤ c.toNat ∧ c.toNat ≤ 122 ∧ c.toNat ≠ 92 := by
      simp at letter
      omega
    refine ⟨by omega, by omega, ?_, ?_⟩
    · rintro rfl
      exact absurd bounds (by decide)
    · rintro rfl
      exact absurd bounds (by decide)
  · rw [of_decide_eq_true line]
    exact ⟨by decide, by decide, by decide, by decide⟩

theorem bare_of_digit {c : Char} (digit : c.isDigit = true) : Bare c :=
  bare_of_alphanum (by simp [Char.isAlphanum, digit])

theorem cursorText_bare (time : Timestamp) : ∀ c ∈ cursorText time, Bare c := by
  have digits : ∀ width n, ∀ c ∈ padded width n, Bare c := fun width n c member =>
    bare_of_digit (padded_digits width n c member)
  intro c member
  simp only [cursorText, List.mem_append, List.mem_cons] at member
  have marks : Bare '-' ∧ Bare 'T' ∧ Bare ':' ∧ Bare '.' := by
    unfold Bare
    decide
  grind

theorem single_bare {c : Char} (bare : Bare c) : single c.toNat = c := by
  have low := bare.2.1
  rw [single, if_neg (by omega), Char.ofNat_toNat]

theorem charsOf_bare (text : List Char) (bare : ∀ c ∈ text, Bare c) : charsOf (text.map Char.toNat) = text := by
  induction text with
  | nil => rfl
  | cons c rest ih =>
    have first := bare c (by simp)
    have tail := ih fun other member => bare other (by simp [member])
    cases rest with
    | nil => simp [charsOf, single_bare first]
    | cons d more =>
      have low := first.2.1
      rw [List.map_cons, List.map_cons, charsOf, if_neg (by omega), single_bare first]
      exact congrArg (c :: ·) tail

theorem jsonString_bare (text : List Char) (bare : ∀ c ∈ text, Bare c) (rest : List Nat) :
    jsonString (text.map Char.toNat ++ 34 :: rest) = some (text.map Char.toNat, rest) := by
  induction text with
  | nil =>
    rw [List.map_nil, List.nil_append, jsonString.eq_def]
    rfl
  | cons c more ih =>
    obtain ⟨low, _, noQuote, noSlash⟩ := bare c (by simp)
    have quote : c.toNat ≠ 34 := fun same => noQuote (Char.toNat_inj.mp same)
    have slash : c.toNat ≠ 92 := fun same => noSlash (Char.toNat_inj.mp same)
    rw [List.map_cons, List.cons_append, jsonString.eq_def]
    dsimp only
    rw [if_neg quote, if_neg slash, if_neg (by omega),
      ih fun other member => bare other (by simp [member])]
    rfl

theorem jsonPair_payload {first second : List Char} (bare : ∀ c ∈ first, Bare c) (bare' : ∀ c ∈ second, Bare c) :
    jsonPair (('[' :: quoted first ++ ',' :: quoted second ++ [']']).map Char.toNat) =
      some (first.map Char.toNat, second.map Char.toNat) := by
  have shape : ('[' :: quoted first ++ ',' :: quoted second ++ [']']).map Char.toNat =
      91 :: 34 :: (first.map Char.toNat ++ 34 :: 44 :: 34 :: (second.map Char.toNat ++ 34 :: [93])) := by
    simp [quoted]
  rw [shape]
  simp [jsonPair, token, skipBlanks, jsonString_bare first bare, jsonString_bare second bare']

theorem atob_url (bytes : List Nat) (small : ∀ byte ∈ bytes, byte < 256) :
    Base64.atob ((((Base64.btoa bytes).map fun c => if c = '+' then '-' else if c = '/' then '_' else c).filter
      fun c => c ≠ '=').map fun c => if c = '-' then '+' else if c = '_' then '/' else c) = some bytes := by
  have low := Base64.sixes_lt bytes small
  have dropped : ((Base64.padding bytes).map fun c => if c = '+' then '-' else if c = '/' then '_' else c).filter
      (fun c => c ≠ '=') = [] := by
    unfold Base64.padding
    split
    · rfl
    · split <;> rfl
  have kept : (((Base64.sixes bytes).map Base64.character).map fun c =>
      if c = '+' then '-' else if c = '/' then '_' else c).filter (fun c => c ≠ '=') =
      ((Base64.sixes bytes).map Base64.character).map fun c => if c = '+' then '-' else if c = '/' then '_' else c := by
    apply List.filter_eq_self.mpr
    intro c member
    obtain ⟨d, inside, rfl⟩ := List.mem_map.mp member
    obtain ⟨six, bit, rfl⟩ := List.mem_map.mp inside
    have plain := Base64.character_plain six (low six bit)
    grind
  have back : (((Base64.sixes bytes).map Base64.character).map fun c =>
      if c = '+' then '-' else if c = '/' then '_' else c).map
      (fun c => if c = '-' then '+' else if c = '_' then '/' else c) = (Base64.sixes bytes).map Base64.character := by
    rw [List.map_map]
    conv_rhs => rw [← List.map_id ((Base64.sixes bytes).map Base64.character)]
    apply List.map_congr_left
    intro c member
    obtain ⟨six, bit, rfl⟩ := List.mem_map.mp member
    have plain := Base64.character_plain six (low six bit)
    simp only [Function.comp_apply, id_eq]
    grind
  rw [Base64.btoa, List.map_append, List.filter_append, dropped, List.append_nil, kept, back,
    Base64.atob_sixes bytes small]

/-- A cursor reads back as its time and id, when its time has four digits of years; else it is refused. -/
theorem cursorOf_encode (time : Timestamp) (id : JobId) :
    cursorOf (encodeCursor (cursorText time) id) =
      if time.year ≤ 9999 then some (cursorText time, id.varchar) else none := by
  have bare := cursorText_bare time
  have plain : ∀ c ∈ id.text, Bare c := fun c member => bare_of_alphanum (id.plain c member)
  have small : ∀ byte ∈ ('[' :: quoted (cursorText time) ++ ',' :: quoted id.text ++ [']']).map Char.toNat,
      byte < 256 := by
    intro byte member
    obtain ⟨c, inside, rfl⟩ := List.mem_map.mp member
    have some_ : c = '[' ∨ c = '"' ∨ c = ',' ∨ c = ']' ∨ c ∈ cursorText time ∨ c ∈ id.text := by
      simp only [quoted, List.mem_append, List.mem_cons, List.mem_nil_iff, or_false] at inside
      tauto
    rcases some_ with rfl | rfl | rfl | rfl | inside | inside
    · decide
    · decide
    · decide
    · decide
    · have low := (bare c inside).2.1
      omega
    · have low := (plain c inside).2.1
      omega
  have filled : id.text.map Char.toNat ≠ [] := by
    rw [Ne, List.map_eq_nil_iff]
    exact id.nonempty
  rw [cursorOf, encodeCursor, atob_url _ small, Option.bind_eq_bind, Option.bind_some, jsonPair_payload bare plain,
    Option.bind_eq_bind, Option.bind_some]
  simp only [charsOf_bare _ bare, charsOf_bare _ plain]
  by_cases four : time.year ≤ 9999
  · rw [if_pos ⟨by rw [CURSOR_TIME_text four]; rfl, filled⟩, if_pos four]
    rfl
  · rw [CURSOR_TIME_late (not_le.mp four), if_neg four]
    rfl

end Arki.Journal
