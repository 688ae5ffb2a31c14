import Arki.Library.Patterns
import Arki.Library.Utf16
import Arki.Dates.WallTime

/-! The two readers of ISO 8601 text: one of patterns, and one of fixed positions for the common shapes.

A text is its code units. The number builtins are those of digits, a fraction and a sign, which is all that they are given here.
-/

set_option autoImplicit false

namespace Arki.Dates

open Patterns

abbrev Text := List UInt16

def code (character : Char) : UInt16 := UInt16.ofNat character.toNat

def MS_PER_HOUR : Int := 3600000

def MS_PER_MINUTE : Int := 60000

def isDigit (unit : UInt16) : Bool := 48 ≤ unit.toNat && unit.toNat ≤ 57

def decimal (digits : Text) : Int := digits.foldl (fun value digit => value * 10 + (digit.toNat - 48 : Int)) 0

/-- `Number.parseInt(text, 10)`. -/
def parseInt : Text → Int
  | [] => 0
  | sign :: rest => if sign = code '+' then decimal rest else if sign = code '-' then -decimal rest else decimal (sign :: rest)

/-- `Number.parseFloat(text)`, and nothing for `NaN`. -/
def parseFloat (text : Text) : Option ℚ :=
  let digits := text.takeWhile isDigit
  let fraction :=
    match text.dropWhile isDigit with
    | [] => []
    | point :: rest => if point = code '.' then rest.takeWhile isDigit else []
  if digits = [] then none else some (Double.round ((decimal (digits ++ fraction) : ℚ) / 10 ^ fraction.length))

/-- `text.replace(',', '.')`. -/
def replaceComma : Text → Text
  | [] => []
  | unit :: rest => if unit = code ',' then code '.' :: rest else unit :: replaceComma rest

/-- `text.replace(part, '')`. -/
def removeFirst (part : Text) : Text → Text
  | [] => []
  | unit :: rest => if part.isPrefixOf (unit :: rest) then (unit :: rest).drop part.length else unit :: removeFirst part rest

def isSign (unit : UInt16) : Bool := unit = code '+' || unit = code '-'

def isDateTimeDelimiter (unit : UInt16) : Bool := unit = code 'T' || unit = code ' '

def isTimeZoneDelimiter (unit : UInt16) : Bool := unit = code 'Z' || unit = code 'z' || unit = code ' '

/-- What `.` stands for. -/
def isInLine (unit : UInt16) : Bool := !(unit = 0x0A || unit = 0x0D || unit = 0x2028 || unit = 0x2029)

def startsZone (unit : UInt16) : Bool := unit = code 'Z' || isSign unit

def TIME_ZONE : Pattern UInt16 := .both (.group 1 (.both (.one startsZone) (.many isInLine))) .atEnd

def YEAR : Pattern UInt16 :=
  .either (.group 1 (.either (exactly isDigit 4) (.both (.one isSign) (exactly isDigit 6))))
    (.both (.group 2 (.either (exactly isDigit 2) (.both (.one isSign) (exactly isDigit 4)))) .atEnd)

def hyphen : Pattern UInt16 := .optional (.one (· = code '-'))

def DATE : Pattern UInt16 :=
  .both hyphen <| .both
    (.optional <|
      .either (.group 1 (exactly isDigit 3)) <|
      .either (.both (.group 2 (exactly isDigit 2)) (.optional (.both hyphen (.group 3 (exactly isDigit 2))))) <|
        .both (.one (· = code 'W')) <| .both (.group 4 (exactly isDigit 2)) (.optional (.both hyphen (.group 5 (exactly isDigit 1)))))
    .atEnd

/-- `(\d{2}(?:[.,]\d*)?)` -/
def timeField (number : Nat) : Pattern UInt16 :=
  .group number (.both (exactly isDigit 2) (.optional (.both (.one fun unit => unit = code '.' || unit = code ',') (.many isDigit))))

def colon : Pattern UInt16 := .optional (.one (· = code ':'))

def TIME : Pattern UInt16 :=
  .both (timeField 1) <| .both (.optional (.both colon (timeField 2))) <| .both (.optional (.both colon (timeField 3))) .atEnd

def OFFSET : Pattern UInt16 :=
  .both (.group 1 (.one isSign)) <| .both (.group 2 (exactly isDigit 2)) <| .both (.optional (.both colon (.group 3 (exactly isDigit 2)))) .atEnd

structure TextPieces where
  date : Option Text
  time : Option Text
  zone : Option Text

/-- The last step of `splitText`. -/
def splitTime (date : Option Text) (timeText : Text) : TextPieces :=
  match (TIME_ZONE.search timeText).bind (· 1) with
  | none => ⟨date, some timeText, none⟩
  | some zone => ⟨date, some (removeFirst zone timeText), some zone⟩

def splitText (text : Text) : TextPieces :=
  let array := text.splitOnP isDateTimeDelimiter
  if 2 < array.length then ⟨none, none, none⟩
  else
    let first := array.head?.getD []
    let (date, timeText) :=
      if first.contains (code ':') then (none, some first)
      else if first.any isTimeZoneDelimiter then
        let date := (text.splitOnP isTimeZoneDelimiter).head?.getD []
        (some date, some (text.drop date.length))
      else (some first, array[1]?)
    match timeText with
    | none => ⟨date, none, none⟩
    | some [] => ⟨date, none, none⟩
    | some timeText => splitTime date timeText

/-- The year, or nothing for `NaN`, and what follows it. -/
def parseYear (text : Text) : Option Int × Text :=
  match YEAR.exec text with
  | none => (none, [])
  | some captures =>
    match captures 1 with
    | some full => (some (parseInt full), text.drop full.length)
    | none =>
      let head := (captures 2).getD []
      (some (parseInt head * 100), text.drop head.length)

def dateUnit (value : Option Text) : Int :=
  match value with
  | none => 1
  | some value => parseInt value

/-- Temporal's `add` of days. -/
def addDays (value : PlainDate) (days : Int) : Except Thrown PlainDate := plainDateOfDays (value.date.ordinal + days)

def daysInYear (date : Calendar.Date) : Int := if Calendar.isLeap date.year then 366 else 365

def parseIsoDate (rest : Text) (year : Option Int) : Except Thrown (Option PlainDate) :=
  match DATE.exec rest, year with
  | some captures, some year =>
    let dayOfYear := dateUnit (captures 1)
    let month := dateUnit (captures 2)
    let day := dateUnit (captures 3)
    match captures 4 with
    | some weekText =>
      let week := dateUnit (some weekText)
      let weekday := dateUnit (captures 5)
      if week < 1 ∨ 53 < week ∨ weekday < 1 ∨ 7 < weekday then .ok none
      else do
        let january4 ← newPlainDate year 1 4
        some <$> addDays january4 ((week - 1) * 7 + weekday - Calendar.weekday january4.date.ordinal)
    | none =>
      if month < 1 ∨ 12 < month ∨ day < 1 ∨ dayOfYear < 1 then .ok none
      else do
        let first ← newPlainDate year month 1
        if Calendar.monthLength first.date.year first.date.month < day ∨ daysInYear first.date < dayOfYear then .ok none
        else some <$> addDays first (max dayOfYear day - 1)
  | _, _ => .ok none

/-- `hours * MS_PER_HOUR + minutes * MS_PER_MINUTE + seconds * 1000`. -/
def timeOfDay (hours minutes seconds : ℚ) : ℚ :=
  Double.round (Double.round (Double.round (hours * MS_PER_HOUR) + Double.round (minutes * MS_PER_MINUTE)) + Double.round (seconds * 1000))

def timeUnit (value : Option Text) : ℚ :=
  match value with
  | none => 0
  | some value => (parseFloat (replaceComma value)).getD 0

/-- Nothing stands for `NaN`. -/
def parseTime (text : Text) : Option ℚ :=
  match TIME.exec text with
  | none => none
  | some captures =>
    let hours := timeUnit (captures 1)
    let minutes := timeUnit (captures 2)
    let seconds := timeUnit (captures 3)
    if if hours = 24 then minutes = 0 ∧ seconds = 0 else 0 ≤ seconds ∧ seconds < 60 ∧ 0 ≤ minutes ∧ minutes < 60 ∧ 0 ≤ hours ∧ hours < 25 then
      some (timeOfDay hours minutes seconds)
    else none

/-- Nothing stands for `NaN`. -/
def parseOffset (text : Text) : Option Int :=
  if text = [code 'Z'] then some 0
  else
    match OFFSET.exec text with
    | none => some 0
    | some captures =>
      let sign : Int := if captures 1 = some [code '+'] then -1 else 1
      let hours := parseInt ((captures 2).getD [code '0'])
      let minutes := (captures 3).elim 0 parseInt
      if minutes < 0 ∨ 59 < minutes then none else some (sign * (hours * MS_PER_HOUR + minutes * MS_PER_MINUTE))

/-- An instant as its milliseconds. Temporal throws for one out of its range. -/
def fromEpochMilliseconds (epochMs : Int) : Except Thrown Int := if |epochMs| ≤ 8640000000000000 then .ok epochMs else .error .rangeError

/-- `toZonedDateTime` is Temporal's, from a wall clock reading, and throws as it does. -/
def readLenientISO (toZonedDateTime : String → Int → Except Thrown Int) (text : Text) (timeZone : String) : Except Thrown (Option Int) :=
  let pieces := splitText text
  match pieces.date with
  | none => .ok none
  | some [] => .ok none
  | some dateText =>
    let (year, rest) := parseYear dateText
    match parseIsoDate rest year with
    | .error .rangeError => .ok none
    | .ok none => .ok none
    | .ok (some date) => do
      let timestamp ← fromEpochMilliseconds (date.date.ordinal * MS_PER_DAY)
      let time : Option ℚ :=
        match pieces.time with
        | none => some 0
        | some [] => some 0
        | some time => parseTime time
      match time, pieces.zone with
      | none, _ => .ok none
      | some time, some zone =>
        match parseOffset zone with
        | none => .ok none
        | some offset => some <$> fromEpochMilliseconds (Double.trunc (Double.round (Double.round (timestamp + time) + offset)))
      | some time, none => do
        let wall ← fromEpochMilliseconds (Double.trunc (Double.round (timestamp + time)))
        some <$> toZonedDateTime timeZone wall

def digitAt (text : Text) (index : Nat) : Int :=
  match Utf16.codePointAt (text.drop index) with
  | none => -1
  | some codePoint =>
    let value : Int := codePoint - 48
    if 0 ≤ value ∧ value ≤ 9 then value else -1

def twoDigitsAt (text : Text) (index : Nat) : Int :=
  let tens := digitAt text index
  let ones := digitAt text (index + 1)
  if tens < 0 ∨ ones < 0 then -1 else tens * 10 + ones

def readOffset (text : Text) (index : Nat) : Option Int :=
  let sign := text[index]?
  if sign ≠ some (code '+') ∧ sign ≠ some (code '-') then none
  else
    let hours := twoDigitsAt text (index + 1)
    if hours < 0 then none
    else
      let rest : Int := text.length - (index + 3)
      let minutes : Option Int :=
        if rest = 3 ∧ text[index + 3]? = some (code ':') then some (twoDigitsAt text (index + 4))
        else if rest = 2 then some (twoDigitsAt text (index + 3))
        else if rest ≠ 0 then none
        else some 0
      match minutes with
      | none => none
      | some minutes =>
        if minutes < 0 ∨ 59 < minutes then none
        else some ((if sign = some (code '+') then -1 else 1) * (hours * MS_PER_HOUR + minutes * MS_PER_MINUTE))

def digitsFrom (text : Text) (index : Nat) : Nat → Nat
  | 0 => index
  | left + 1 => if 0 ≤ digitAt text index then digitsFrom text (index + 1) left else index

/-- The seconds of `readCommonISO`, and the position after them. -/
def readSeconds (text : Text) : Option (ℚ × Nat) :=
  if text[16]? = some (code ':') then
    let seconds := twoDigitsAt text 17
    if seconds < 0 then none
    else if text[19]? = some (code '.') ∨ text[19]? = some (code ',') then
      let index := digitsFrom text 20 text.length
      if index = 20 then none
      else (parseFloat (replaceComma ((text.take index).drop 17))).map fun seconds => (seconds, index)
    else some (seconds, 19)
  else some (0, 16)

/-- The `valid` of `readCommonISO`. -/
abbrev IsTime (hours minutes : Int) (seconds : ℚ) : Prop :=
  if hours = 24 then minutes = 0 ∧ seconds = 0 else seconds < 60 ∧ minutes < 60 ∧ hours < 25

/-- The time of `readCommonISO`, and the position after it. -/
def readTime (text : Text) : Option (ℚ × Nat) :=
  if 10 < text.length then
    if (text[10]? ≠ some (code 'T') ∧ text[10]? ≠ some (code ' ')) ∨ text[13]? ≠ some (code ':') then none
    else
      let hours := twoDigitsAt text 11
      let minutes := twoDigitsAt text 14
      if hours < 0 ∨ minutes < 0 then none
      else
        match readSeconds text with
        | none => none
        | some (seconds, index) =>
          if IsTime hours minutes seconds then some (timeOfDay hours minutes seconds, index) else none
  else some (0, 10)

def readCommonISO (temporalOffset : String → Int → Int) (text : Text) (timeZone : String) : Cached (Option Int) := do
  if text.length < 10 ∨ text[4]? ≠ some (code '-') ∨ text[7]? ≠ some (code '-') then return none
  else
    let century := twoDigitsAt text 0
    let yearOfCentury := twoDigitsAt text 2
    let month := twoDigitsAt text 5
    let day := twoDigitsAt text 8
    if century < 0 ∨ yearOfCentury < 0 ∨ month < 1 ∨ 12 < month ∨ day < 1 then return none
    else
      let year := century * 100 + yearOfCentury
      if (daysInMonthOf year month).any (· < day) then return none
      else
        let date := daysFromCivil year month day * MS_PER_DAY
        match readTime text with
        | none => return none
        | some (time, index) =>
          if index = text.length then epochFromWall temporalOffset timeZone (Double.trunc (Double.round (date + time))) .compatible
          else if text[index]? = some (code 'Z') then
            return if index + 1 = text.length then some (Double.trunc (Double.round (date + time))) else none
          else
            match readOffset text index with
            | none => return none
            | some offset => return some (Double.trunc (Double.round (Double.round (date + time) + offset)))

end Arki.Dates
