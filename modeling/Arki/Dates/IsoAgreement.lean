import Arki.Dates.IsoText

/-! What the fast reader answers is what the lenient reader answers. -/

set_option autoImplicit false

namespace Arki.Dates

open Patterns

section Digits

variable {text digits rest : Text} {index : Nat} {a b : UInt16}

theorem drop_of_get {unit : UInt16} (is : text[index]? = some unit) : text.drop index = unit :: text.drop (index + 1) := by
  obtain ⟨inside, rfl⟩ := List.getElem?_eq_some_iff.mp is
  exact List.drop_eq_getElem_cons inside

theorem isDigit_iff : isDigit a = true ↔ 48 ≤ a.toNat ∧ a.toNat ≤ 57 := by simp [isDigit]

theorem digitAt_cases (text : Text) (index : Nat) : digitAt text index = -1 ∨
    ∃ unit, text[index]? = some unit ∧ isDigit unit = true ∧ digitAt text index = unit.toNat - 48 := by
  unfold digitAt Utf16.codePointAt
  cases is : text[index]? with
  | none =>
    rw [List.drop_eq_nil_iff.mpr (List.getElem?_eq_none_iff.mp is)]
    exact .inl rfl
  | some unit =>
    rw [drop_of_get is]
    rcases Utf16.codePoints_cons unit (text.drop (index + 1)) with ⟨low, tail, -, -, -, pair⟩ | single
    · -- a pair is beyond the digits
      rw [pair, List.head?_cons]
      refine .inl (if_neg ?_)
      unfold Utf16.paired
      omega
    · rw [single, List.head?_cons]
      dsimp only
      split
      next inside => exact .inr ⟨unit, rfl, isDigit_iff.mpr (by omega), rfl⟩
      next => exact .inl rfl

theorem twoDigitsAt_cases (text : Text) (index : Nat) : twoDigitsAt text index = -1 ∨
    ∃ a b, text.drop index = a :: b :: text.drop (index + 2) ∧ (isDigit a = true ∧ isDigit b = true) ∧ twoDigitsAt text index = decimal [a, b] := by
  unfold twoDigitsAt
  rcases digitAt_cases text index with none_ | ⟨a, isThere, isDigit_, value⟩
  · exact .inl (if_pos (.inl (by omega)))
  rcases digitAt_cases text (index + 1) with none_ | ⟨b, isThereToo, isDigitToo, valueToo⟩
  · exact .inl (if_pos (.inr (by omega)))
  have tens := isDigit_iff.mp isDigit_
  have ones := isDigit_iff.mp isDigitToo
  refine .inr ⟨a, b, ?_, ⟨isDigit_, isDigitToo⟩, ?_⟩
  · rw [drop_of_get isThere, drop_of_get isThereToo]
  · rw [value, valueToo, if_neg (by omega)]
    simp [decimal]

theorem twoDigitsAt_nonneg (read : ¬twoDigitsAt text index < 0) :
    ∃ a b, text.drop index = a :: b :: text.drop (index + 2) ∧ (isDigit a = true ∧ isDigit b = true) ∧ twoDigitsAt text index = decimal [a, b] :=
  (twoDigitsAt_cases text index).resolve_left fun none_ => read (by omega)

theorem digitsFrom_spec (text : Text) (index left : Nat) :
    ∃ digits : Text, digitsFrom text index left = index + digits.length ∧ (∀ unit ∈ digits, isDigit unit = true) ∧
      text.drop index = digits ++ text.drop (digitsFrom text index left) := by
  induction left generalizing index with
  | zero => exact ⟨[], rfl, nofun, rfl⟩
  | succ left ih =>
    rw [digitsFrom]
    split
    next more =>
      rcases digitAt_cases text index with none_ | ⟨unit, isThere, isDigit_, -⟩
      · omega
      obtain ⟨digits, is, allDigits, parts⟩ := ih (index + 1)
      refine ⟨unit :: digits, by rw [is, List.length_cons]; omega, ?_, ?_⟩
      · simpa [isDigit_] using allDigits
      · rw [drop_of_get isThere, parts, List.cons_append]
    next => exact ⟨[], rfl, nofun, rfl⟩

theorem decimal_pair (isDigits : isDigit a = true ∧ isDigit b = true) : 0 ≤ decimal [a, b] ∧ decimal [a, b] ≤ 99 := by
  have tens := isDigit_iff.mp isDigits.1
  have ones := isDigit_iff.mp isDigits.2
  simp only [decimal, List.foldl_cons, List.foldl_nil]
  omega

theorem decimal_nonneg (isDigits : ∀ unit ∈ digits, isDigit unit = true) : 0 ≤ decimal digits := by
  have fold (value : Int) (nonneg : 0 ≤ value) : 0 ≤ digits.foldl (fun value digit => value * 10 + (digit.toNat - 48 : Int)) value := by
    induction digits generalizing value with
    | nil => exact nonneg
    | cons unit digits ih =>
      have digit := isDigit_iff.mp (isDigits unit List.mem_cons_self)
      refine ih (fun other inside => isDigits other (List.mem_cons_of_mem _ inside)) _ ?_
      show 0 ≤ value * 10 + (unit.toNat - 48 : Int)
      omega
  exact fold 0 (le_refl _)

theorem parseInt_digits (isDigits : ∀ unit ∈ digits, isDigit unit = true) : parseInt digits = decimal digits := by
  cases digits with
  | nil => rfl
  | cons unit digits =>
    have digit := isDigits unit List.mem_cons_self
    have notPlus : unit ≠ code '+' := fun is => absurd (is ▸ digit) (by decide)
    have notMinus : unit ≠ code '-' := fun is => absurd (is ▸ digit) (by decide)
    rw [parseInt, if_neg notPlus, if_neg notMinus]

theorem parseInt_pair (isDigits : isDigit a = true ∧ isDigit b = true) : parseInt [a, b] = decimal [a, b] :=
  parseInt_digits (by simp [isDigits])

theorem parseFloat_nonneg (text : Text) {value : ℚ} (is : parseFloat text = some value) : 0 ≤ value := by
  have digits : ∀ part : Text, ∀ unit ∈ part.takeWhile isDigit, isDigit unit = true := fun part unit inside => List.all_eq_true.mp List.all_takeWhile unit inside
  simp only [parseFloat] at is
  split at is
  · cases is
  obtain rfl := Option.some.inj is
  refine Double.round_nonneg (div_nonneg (Int.cast_nonneg (decimal_nonneg fun unit inside => ?_)) (by positivity))
  rcases List.mem_append.mp inside with inside | inside
  · exact digits _ unit inside
  · split at inside
    · cases inside
    · split at inside
      · exact digits _ unit inside
      · cases inside

theorem timeUnit_nonneg (value : Option Text) : 0 ≤ timeUnit value := by
  unfold timeUnit
  split
  next => exact le_refl _
  next text =>
    cases is : parseFloat (replaceComma text) with
    | none => exact le_refl _
    | some value => exact parseFloat_nonneg _ is

theorem parseFloat_pair (isDigits : isDigit a = true ∧ isDigit b = true) : parseFloat (replaceComma [a, b]) = some (decimal [a, b] : ℚ) := by
  have notComma (unit : UInt16) (digit : isDigit unit = true) : unit ≠ code ',' := fun is => absurd (is ▸ digit) (by decide)
  have bounds := decimal_pair isDigits
  have exact_ := Double.round_int (n := decimal [a, b]) (by rw [abs_of_nonneg bounds.1]; omega)
  simp [replaceComma, parseFloat, notComma a isDigits.1, notComma b isDigits.2, isDigits.1, isDigits.2, exact_]

theorem timeUnit_pair (isDigits : isDigit a = true ∧ isDigit b = true) : timeUnit (some [a, b]) = (decimal [a, b] : ℚ) := by
  rw [timeUnit, parseFloat_pair isDigits]
  rfl

end Digits

section Times

variable {text rest fraction clock : Text} {groups captures : Groups UInt16} {number index : Nat} {a b h1 h2 m1 m2 s1 s2 separator : UInt16}
  {seconds time : ℚ}

theorem takes_two (isDigits : isDigit a = true ∧ isDigit b = true) : Takes (exactly isDigit 2) (a :: b :: rest) rest groups groups :=
  (takes_one isDigits.1).both ((takes_one isDigits.2).both takes_empty)

theorem takes_colon : Takes colon (code ':' :: rest) rest groups groups :=
  (takes_one (by decide)).optional (by simp)

def IsFraction (fraction : Text) : Prop :=
  fraction = [] ∨ ∃ mark digits, fraction = mark :: digits ∧ (mark = code '.' ∨ mark = code ',') ∧ ∀ unit ∈ digits, isDigit unit = true

/-- A field of a time is taken with its fraction, at the end of the text or before a colon. -/
theorem takes_timeField (isDigits : isDigit a = true ∧ isDigit b = true) (isFraction : IsFraction fraction)
    (stops : ∀ unit, rest.head? = some unit → unit = code ':') :
    Takes (timeField number) (a :: b :: fraction ++ rest) rest groups (Function.update groups number (some (a :: b :: fraction))) := by
  have two : Takes (exactly isDigit 2) (a :: b :: fraction ++ rest) (fraction ++ rest) groups groups := takes_two isDigits
  refine Takes.group (two.both ?_)
  rcases isFraction with rfl | ⟨mark, digits, rfl, isMark, allDigits⟩
  · refine Refuses.skipped (Refuses.both (refuses_one fun unit is => ?_))
    rw [stops unit is]
    decide
  · refine Takes.optional (Takes.both (takes_one (by simpa using isMark)) (takes_many allDigits fun unit is => ?_)) (by simp; omega)
    rw [stops unit is]
    decide

theorem refuses_field_end : Refuses (.both colon (timeField number)) [] groups :=
  Refuses.afterOptional (refuses_one nofun) (Refuses.group (Refuses.both (Refuses.both (refuses_one nofun))))

theorem exec_minutes (hours : isDigit h1 = true ∧ isDigit h2 = true) (minutes : isDigit m1 = true ∧ isDigit m2 = true) :
    ∃ captures, TIME.exec [h1, h2, code ':', m1, m2] = some captures ∧ captures 1 = some [h1, h2] ∧ captures 2 = some [m1, m2] ∧ captures 3 = none := by
  have first : Takes (timeField 1) [h1, h2, code ':', m1, m2] [code ':', m1, m2] (fun _ => none) _ := takes_timeField hours (.inl rfl) (by simp)
  have second : Takes (timeField 2) [m1, m2] [] (Function.update (fun _ => none) 1 (some [h1, h2])) _ := takes_timeField minutes (.inl rfl) nofun
  exact ⟨_, (first.both (((takes_colon.both second).optional (by simp)).both (refuses_field_end.skipped.both takes_atEnd))).exec, rfl, rfl, rfl⟩

theorem exec_seconds (hours : isDigit h1 = true ∧ isDigit h2 = true) (minutes : isDigit m1 = true ∧ isDigit m2 = true)
    (isSeconds : isDigit s1 = true ∧ isDigit s2 = true) (isFraction : IsFraction fraction) :
    ∃ captures, TIME.exec (h1 :: h2 :: code ':' :: m1 :: m2 :: code ':' :: s1 :: s2 :: fraction) = some captures ∧ captures 1 = some [h1, h2] ∧
      captures 2 = some [m1, m2] ∧ captures 3 = some (s1 :: s2 :: fraction) := by
  have first : Takes (timeField 1) (h1 :: h2 :: code ':' :: m1 :: m2 :: code ':' :: s1 :: s2 :: fraction)
      (code ':' :: m1 :: m2 :: code ':' :: s1 :: s2 :: fraction) (fun _ => none) _ := takes_timeField hours (.inl rfl) (by simp)
  have second : Takes (timeField 2) (m1 :: m2 :: code ':' :: s1 :: s2 :: fraction) (code ':' :: s1 :: s2 :: fraction)
      (Function.update (fun _ => none) 1 (some [h1, h2])) _ := takes_timeField minutes (.inl rfl) (by simp)
  have third : Takes (timeField 3) (s1 :: s2 :: fraction ++ []) [] (Function.update (Function.update (fun _ => none) 1 (some [h1, h2])) 2 (some [m1, m2])) _ :=
    takes_timeField isSeconds isFraction nofun
  rw [List.append_nil] at third
  exact ⟨_, (first.both (((takes_colon.both second).optional (by simp)).both
    (((takes_colon.both third).optional (by simp)).both takes_atEnd))).exec, rfl, rfl, rfl⟩

theorem parseTime_eq (hours : isDigit h1 = true ∧ isDigit h2 = true) (minutes : isDigit m1 = true ∧ isDigit m2 = true)
    (ran : TIME.exec text = some captures) (isHours : captures 1 = some [h1, h2]) (isMinutes : captures 2 = some [m1, m2])
    (isSeconds : timeUnit (captures 3) = seconds) (valid : IsTime (decimal [h1, h2]) (decimal [m1, m2]) seconds) :
    parseTime text = some (timeOfDay (decimal [h1, h2]) (decimal [m1, m2]) seconds) := by
  have positive := timeUnit_nonneg (captures 3)
  have nonneg := (decimal_pair hours).1
  have nonnegToo := (decimal_pair minutes).1
  rw [isSeconds] at positive
  simp only [parseTime, ran, isHours, isMinutes, isSeconds, timeUnit_pair hours, timeUnit_pair minutes]
  refine if_pos ?_
  unfold IsTime at valid
  split at valid
  next whole =>
    rw [if_pos (by exact_mod_cast whole)]
    exact_mod_cast valid
  next part =>
    rw [if_neg (by exact_mod_cast part)]
    exact ⟨positive, valid.1, by exact_mod_cast nonnegToo, by exact_mod_cast valid.2.1, by exact_mod_cast nonneg, by exact_mod_cast valid.2.2⟩

def isClock (unit : UInt16) : Bool := isDigit unit || unit = code ':' || unit = code '.' || unit = code ','

theorem isClock_digit {unit : UInt16} (digit : isDigit unit = true) : isClock unit = true := by simp [isClock, digit]

theorem clocks_pair (isDigits : isDigit a = true ∧ isDigit b = true) : ∀ unit ∈ [a, b], isClock unit = true := by
  simp [isClock_digit isDigits.1, isClock_digit isDigits.2]

theorem IsFraction.isClock (isFraction : IsFraction fraction) : ∀ unit ∈ fraction, isClock unit = true := by
  rcases isFraction with rfl | ⟨mark, digits, rfl, isMark, allDigits⟩
  · nofun
  · intro unit inside
    rcases List.mem_cons.mp inside with rfl | inside
    · rcases isMark with rfl | rfl <;> decide
    · exact isClock_digit (allDigits unit inside)

/-- The seconds are read from what follows the minutes, and the lenient reader reads them from the same text. -/
theorem readSeconds_cases (is : readSeconds text = some (seconds, index)) :
    (text.drop index = text.drop 16 ∧ index = 16 ∧ seconds = 0) ∨
      ∃ s1 s2 fraction, text.drop 16 = code ':' :: s1 :: s2 :: fraction ++ text.drop index ∧ (isDigit s1 = true ∧ isDigit s2 = true) ∧
        IsFraction fraction ∧ timeUnit (some (s1 :: s2 :: fraction)) = seconds := by
  unfold readSeconds at is
  split at is
  next colon =>
    simp only at is
    split at is
    next => cases is
    next read =>
      obtain ⟨s1, s2, there, isDigits, value⟩ := twoDigitsAt_nonneg read
      have start : text.drop 16 = code ':' :: s1 :: s2 :: text.drop 19 := by rw [drop_of_get colon, there]
      split at is
      next isMark =>
        obtain ⟨digits, ends, allDigits, parts⟩ := digitsFrom_spec text 20 text.length
        obtain ⟨mark, isThere, mark_⟩ : ∃ mark, text[19]? = some mark ∧ (mark = code '.' ∨ mark = code ',') := by
          rcases isMark with point | comma
          · exact ⟨_, point, .inl rfl⟩
          · exact ⟨_, comma, .inr rfl⟩
        split at is
        next => cases is
        next =>
          obtain ⟨value, parsed, same⟩ := Option.map_eq_some_iff.mp is
          obtain ⟨rfl, rfl⟩ := Prod.mk.inj same
          have body : text.drop 17 = (s1 :: s2 :: mark :: digits) ++ text.drop (digitsFrom text 20 text.length) := by
            rw [there, drop_of_get isThere, parts]
            rfl
          have cut : (text.take (digitsFrom text 20 text.length)).drop 17 = s1 :: s2 :: mark :: digits := by
            rw [List.drop_take, body, List.take_left']
            simp only [List.length_cons]
            omega
          rw [cut] at parsed
          refine .inr ⟨s1, s2, mark :: digits, ?_, isDigits, .inr ⟨mark, digits, rfl, mark_, allDigits⟩, ?_⟩
          · rw [drop_of_get colon, body]
            rfl
          · rw [timeUnit, parsed]
            rfl
      next =>
        obtain ⟨rfl, rfl⟩ := Prod.mk.inj (Option.some.inj is)
        refine .inr ⟨s1, s2, [], by rw [start]; rfl, isDigits, .inl rfl, ?_⟩
        rw [timeUnit_pair isDigits, value]
  next =>
    obtain ⟨rfl, rfl⟩ := Prod.mk.inj (Option.some.inj is)
    exact .inl ⟨rfl, rfl, rfl⟩

theorem readTime_cases (long : 10 ≤ text.length) (is : readTime text = some (time, index)) :
    (text.length = 10 ∧ time = 0 ∧ index = 10) ∨
      ∃ separator clock, text.drop 10 = separator :: (clock ++ text.drop index) ∧ isDateTimeDelimiter separator = true ∧
        (∀ unit ∈ clock, isClock unit = true) ∧ clock ≠ [] ∧ parseTime clock = some time := by
  unfold readTime at is
  split at is
  next longer =>
    split at is
    next => cases is
    next marks =>
      rw [not_or, not_and_or, not_not, not_not, not_not] at marks
      obtain ⟨separators, colon⟩ := marks
      obtain ⟨separator, isThere, separates⟩ : ∃ separator, text[10]? = some separator ∧ isDateTimeDelimiter separator = true := by
        rcases separators with t | space
        · exact ⟨_, t, by decide⟩
        · exact ⟨_, space, by decide⟩
      simp only at is
      split at is
      next => cases is
      next read =>
        rw [not_or] at read
        obtain ⟨h1, h2, hoursThere, hours, isHours⟩ := twoDigitsAt_nonneg read.1
        obtain ⟨m1, m2, minutesThere, minutes, isMinutes⟩ := twoDigitsAt_nonneg read.2
        have start : text.drop 10 = separator :: h1 :: h2 :: code ':' :: m1 :: m2 :: text.drop 16 := by
          rw [drop_of_get isThere, hoursThere, drop_of_get colon, minutesThere]
        have clocks : ∀ unit ∈ [h1, h2, code ':', m1, m2], isClock unit = true :=
          List.forall_mem_append.mpr ⟨clocks_pair hours, List.forall_mem_cons.mpr ⟨by decide, clocks_pair minutes⟩⟩
        cases found : readSeconds text with
        | none =>
          rw [found] at is
          cases is
        | some pair =>
          obtain ⟨seconds, last⟩ := pair
          rw [found, isHours, isMinutes] at is
          dsimp only at is
          by_cases valid : IsTime (decimal [h1, h2]) (decimal [m1, m2]) seconds
          · rw [if_pos valid] at is
            obtain ⟨rfl, rfl⟩ := Prod.mk.inj (Option.some.inj is)
            right
            rcases readSeconds_cases found with ⟨same, -, rfl⟩ | ⟨s1, s2, fraction, there, isSeconds, isFraction, value⟩
            · obtain ⟨captures, ran, first, second, third⟩ := exec_minutes hours minutes
              refine ⟨separator, [h1, h2, code ':', m1, m2], by rw [start, same]; rfl, separates, clocks, by simp, ?_⟩
              exact parseTime_eq hours minutes ran first second (by rw [third]; rfl) valid
            · obtain ⟨captures, ran, first, second, third⟩ := exec_seconds hours minutes isSeconds isFraction
              refine ⟨separator, h1 :: h2 :: code ':' :: m1 :: m2 :: code ':' :: s1 :: s2 :: fraction, by rw [start, there]; rfl, separates, ?_, by simp, ?_⟩
              · have more := List.forall_mem_append.mpr ⟨clocks_pair isSeconds, isFraction.isClock⟩
                exact List.forall_mem_append.mpr ⟨clocks, List.forall_mem_cons.mpr ⟨by decide, more⟩⟩
              · exact parseTime_eq hours minutes ran first second (by rw [third, value]) valid
          · rw [if_neg valid] at is
            cases is
  next short =>
    obtain ⟨rfl, rfl⟩ := Prod.mk.inj (Option.some.inj is)
    exact .inl ⟨by omega, rfl, rfl⟩

end Times

section Zones

variable {text date clock zone rest : Text} {index : Nat} {offset : Int} {sign h1 h2 m1 m2 separator first : UInt16}

theorem exec_offset (isSign_ : isSign sign = true) (hours : isDigit h1 = true ∧ isDigit h2 = true) (minutes : isDigit m1 = true ∧ isDigit m2 = true)
    (isRest : rest = [] ∨ rest = [m1, m2] ∨ rest = [code ':', m1, m2]) :
    ∃ captures, OFFSET.exec (sign :: h1 :: h2 :: rest) = some captures ∧ captures 1 = some [sign] ∧ captures 2 = some [h1, h2] ∧
      captures 3 = if rest = [] then none else some [m1, m2] := by
  have start : Takes (.group 1 (.one isSign)) ([sign] ++ h1 :: h2 :: rest) (h1 :: h2 :: rest) (fun _ => none) _ := (takes_one isSign_).group
  have second : Takes (.group 2 (exactly isDigit 2)) ([h1, h2] ++ rest) rest (Function.update (fun _ => none) 1 (some [sign])) _ := (takes_two hours).group
  have third : Takes (.group 3 (exactly isDigit 2)) ([m1, m2] ++ []) [] (Function.update (Function.update (fun _ => none) 1 (some [sign])) 2 (some [h1, h2])) _ :=
    (takes_two minutes).group
  have notColon : ∀ unit, [m1, m2].head? = some unit → decide (unit = code ':') = false := by
    rintro unit is
    obtain rfl := Option.some.inj is
    exact decide_eq_false fun is => absurd (is ▸ minutes.1) (by decide)
  have last : ∀ {groups : Groups UInt16}, Refuses (.both colon (.group 3 (exactly isDigit 2))) [] groups := fun {_} =>
    Refuses.afterOptional (refuses_one nofun) (Refuses.group (Refuses.both (refuses_one nofun)))
  rcases isRest with rfl | rfl | rfl
  · exact ⟨_, (start.both (second.both (last.skipped.both takes_atEnd))).exec, rfl, rfl, rfl⟩
  · have skip : Takes colon [m1, m2] [m1, m2] (Function.update (Function.update (fun _ => none) 1 (some [sign])) 2 (some [h1, h2])) _ :=
      (refuses_one notColon).skipped
    exact ⟨_, (start.both (second.both (((skip.both third).optional (by simp)).both takes_atEnd))).exec, rfl, rfl, rfl⟩
  · exact ⟨_, (start.both (second.both (((takes_colon.both third).optional (by simp)).both takes_atEnd))).exec, rfl, rfl, rfl⟩

theorem parseOffset_eq (isSign_ : isSign sign = true) (hours : isDigit h1 = true ∧ isDigit h2 = true) (minutes : isDigit m1 = true ∧ isDigit m2 = true)
    (isRest : rest = [] ∨ rest = [m1, m2] ∨ rest = [code ':', m1, m2]) {amount : Int} (isAmount : amount = if rest = [] then 0 else decimal [m1, m2])
    (valid : ¬(amount < 0 ∨ 59 < amount)) : parseOffset (sign :: h1 :: h2 :: rest) =
      some ((if some sign = some (code '+') then -1 else 1) * (decimal [h1, h2] * MS_PER_HOUR + amount * MS_PER_MINUTE)) := by
  obtain ⟨captures, ran, first, second, third⟩ := exec_offset isSign_ hours minutes isRest
  have isMinutes : (captures 3).elim 0 parseInt = amount := by
    rw [third, isAmount]
    split
    next => rfl
    next => exact parseInt_pair minutes
  rw [parseOffset, if_neg (by simp), ran]
  dsimp only
  rw [isMinutes, if_neg valid, first, second, Option.getD_some, parseInt_pair hours]
  simp

/-- An offset of the fast reader is one that the lenient reader reads the same. -/
theorem readOffset_cases (is : readOffset text index = some offset) :
    ∃ sign rest, text.drop index = sign :: rest ∧ isSign sign = true ∧ (∀ unit ∈ rest, isClock unit = true) ∧
      parseOffset (sign :: rest) = some offset ∧ |offset| ≤ 400000000 := by
  unfold readOffset at is
  dsimp only at is
  split at is
  next => cases is
  next signs =>
    rw [not_and_or, not_not, not_not] at signs
    obtain ⟨sign, isThere, isSign_⟩ : ∃ sign, text[index]? = some sign ∧ isSign sign = true := by
      rcases signs with plus | minus
      · exact ⟨_, plus, by decide⟩
      · exact ⟨_, minus, by decide⟩
    split at is
    next => cases is
    next read =>
      obtain ⟨h1, h2, there, hours, isHours⟩ := twoDigitsAt_nonneg read
      have start : text.drop index = sign :: h1 :: h2 :: text.drop (index + 3) := by rw [drop_of_get isThere, there]
      have short : text.length = index + 3 + (text.drop (index + 3)).length := by
        have count := congrArg List.length start
        rw [List.length_drop, List.length_cons, List.length_cons, List.length_cons] at count
        omega
      have bounds := decimal_pair hours
      rw [isHours, isThere] at is
      -- what the three lengths of the rest have in common
      have found {rest : Text} {m1 m2 : UInt16} {amount : Int} (isEnd : text.drop (index + 3) = rest) (minutes : isDigit m1 = true ∧ isDigit m2 = true)
          (isRest : rest = [] ∨ rest = [m1, m2] ∨ rest = [code ':', m1, m2]) (isAmount : amount = if rest = [] then 0 else decimal [m1, m2])
          (ends : (if amount < 0 ∨ 59 < amount then none
            else some ((if some sign = some (code '+') then -1 else 1) * (decimal [h1, h2] * MS_PER_HOUR + amount * MS_PER_MINUTE))) = some offset) :
          ∃ sign rest, text.drop index = sign :: rest ∧ isSign sign = true ∧ (∀ unit ∈ rest, isClock unit = true) ∧
            parseOffset (sign :: rest) = some offset ∧ |offset| ≤ 400000000 := by
        split at ends
        next => cases ends
        next valid =>
          refine ⟨sign, h1 :: h2 :: rest, by rw [start, isEnd], isSign_, fun unit inside => ?_, ?_, ?_⟩
          · revert unit
            rcases isRest with rfl | rfl | rfl
            · exact clocks_pair hours
            · exact List.forall_mem_append.mpr ⟨clocks_pair hours, clocks_pair minutes⟩
            · exact List.forall_mem_append.mpr ⟨clocks_pair hours, List.forall_mem_cons.mpr ⟨by decide, clocks_pair minutes⟩⟩
          · rw [parseOffset_eq isSign_ hours minutes isRest isAmount valid, ends]
          · obtain rfl := Option.some.inj ends
            unfold MS_PER_HOUR MS_PER_MINUTE
            rw [abs_le]
            split <;> omega
      split at is
      next => cases is
      next amount isAmount =>
        split at isAmount
        next three =>
          obtain rfl := Option.some.inj isAmount
          have valid : ¬twoDigitsAt text (index + 4) < 0 := fun negative => by
            rw [if_pos (.inl negative)] at is
            cases is
          obtain ⟨m1, m2, minutesThere, minutes, isMinutes⟩ := twoDigitsAt_nonneg valid
          refine found ?_ minutes (.inr (.inr rfl)) (by rw [if_neg (by simp), isMinutes]) is
          rw [drop_of_get three.2, minutesThere, List.drop_eq_nil_iff.mpr (by omega)]
        next =>
          split at isAmount
          next two =>
            obtain rfl := Option.some.inj isAmount
            have valid : ¬twoDigitsAt text (index + 3) < 0 := fun negative => by
              rw [if_pos (.inl negative)] at is
              cases is
            obtain ⟨m1, m2, minutesThere, minutes, isMinutes⟩ := twoDigitsAt_nonneg valid
            refine found ?_ minutes (.inr (.inl rfl)) (by rw [if_neg (by simp), isMinutes]) is
            rw [minutesThere, List.drop_eq_nil_iff.mpr (by omega)]
          next =>
            split at isAmount
            next => cases isAmount
            next none_ =>
              obtain rfl := Option.some.inj isAmount
              exact found (List.drop_eq_nil_iff.mpr (by omega)) (show isDigit (code '0') = true ∧ isDigit (code '0') = true by decide) (.inl rfl) rfl is

theorem removeFirst_end (first : UInt16) (rest : Text) (apart : ∀ unit ∈ clock, unit ≠ first) : removeFirst (first :: rest) (clock ++ first :: rest) = clock := by
  induction clock with
  | nil => simp [removeFirst]
  | cons unit clock ih =>
    have differ := apart unit List.mem_cons_self
    rw [List.cons_append, removeFirst, if_neg, ih fun other inside => apart other (List.mem_cons_of_mem _ inside)]
    simp [List.isPrefixOf, differ.symm]

def isPlain (unit : UInt16) : Bool := isClock unit || startsZone unit

theorem isPlain_apart {unit : UInt16} (plain : isPlain unit = true) : isDateTimeDelimiter unit = false ∧ isInLine unit = true := by
  constructor
  · rw [← Bool.not_eq_true]
    intro delimits
    rcases (by simpa [isDateTimeDelimiter] using delimits : unit = code 'T' ∨ unit = code ' ') with rfl | rfl
    · exact absurd plain (by decide)
    · exact absurd plain (by decide)
  · by_contra ends
    rcases (by simpa [isInLine, or_iff_not_imp_left] using ends : unit = 0x0A ∨ unit = 0x0D ∨ unit = 0x2028 ∨ unit = 0x2029) with rfl | rfl | rfl | rfl <;>
      exact absurd plain (by decide)

theorem isClock_startsNot {unit : UInt16} (isClock_ : isClock unit = true) : startsZone unit = false := by
  rw [← Bool.not_eq_true]
  intro starts
  rcases (by simpa [startsZone, isSign] using starts : unit = code 'Z' ∨ unit = code '+' ∨ unit = code '-') with rfl | rfl | rfl <;>
    exact absurd isClock_ (by decide)

theorem search_zone (clocks : ∀ unit ∈ clock, isClock unit = true) : TIME_ZONE.search (clock ++ zone) = TIME_ZONE.search zone := by
  refine search_append fun unit inside rest => ?_
  have refused : Refuses TIME_ZONE (unit :: rest) fun _ => none :=
    Refuses.both (Refuses.group (Refuses.both (refuses_one fun other is => by
      obtain rfl := Option.some.inj is
      exact isClock_startsNot (clocks _ inside))))
  exact refused _

theorem search_starts (starts : startsZone first = true) (plain : ∀ unit ∈ rest, isPlain unit = true) :
    (TIME_ZONE.search (first :: rest)).bind (· 1) = some (first :: rest) := by
  have more : Takes (.many isInLine) (rest ++ []) [] (fun _ => none) (fun _ => none) :=
    takes_many (fun unit inside => (isPlain_apart (plain unit inside)).2) nofun
  rw [List.append_nil] at more
  have takes : Takes (.group 1 (.both (.one startsZone) (.many isInLine))) (first :: rest ++ []) [] (fun _ => none) _ :=
    Takes.group (by rw [List.append_nil]; exact (takes_one starts).both more)
  rw [List.append_nil] at takes
  rw [Pattern.search, show TIME_ZONE.exec (first :: rest) = _ from (takes.both takes_atEnd).exec, Option.some_or]
  rfl

def isDate (unit : UInt16) : Bool := isDigit unit || unit = code '-'

theorem isDate_apart {unit : UInt16} (isDate_ : isDate unit = true) :
    (isDateTimeDelimiter unit = false ∧ isTimeZoneDelimiter unit = false) ∧ unit ≠ code ':' := by
  refine ⟨⟨?_, ?_⟩, fun is => absurd (is ▸ isDate_) (by decide)⟩
  · rw [← Bool.not_eq_true]
    intro delimits
    rcases (by simpa [isDateTimeDelimiter] using delimits : unit = code 'T' ∨ unit = code ' ') with rfl | rfl
    · exact absurd isDate_ (by decide)
    · exact absurd isDate_ (by decide)
  · rw [← Bool.not_eq_true]
    intro delimits
    rcases (by simpa [isTimeZoneDelimiter, or_assoc] using delimits : unit = code 'Z' ∨ unit = code 'z' ∨ unit = code ' ') with rfl | rfl | rfl <;>
      exact absurd isDate_ (by decide)

theorem date_apart (dates : ∀ unit ∈ date, isDate unit = true) : code ':' ∉ date ∧ date.any isTimeZoneDelimiter = false :=
  ⟨fun inside => (isDate_apart (dates _ inside)).2 rfl, List.any_eq_false.mpr fun unit inside => by simp [(isDate_apart (dates unit inside)).1.2]⟩

theorem splitText_date (dates : ∀ unit ∈ date, isDate unit = true) : splitText date = ⟨some date, none, none⟩ := by
  have array : date.splitOnP isDateTimeDelimiter = [date] := List.splitOnP_eq_singleton fun unit inside => (isDate_apart (dates unit inside)).1.1
  obtain ⟨noColon, noZone⟩ := date_apart dates
  simp [splitText, array, noColon, noZone]

theorem splitText_dateTime (dates : ∀ unit ∈ date, isDate unit = true) (separates : isDateTimeDelimiter separator = true) {timeText : Text}
    (plain : ∀ unit ∈ timeText, isPlain unit = true) (filled : timeText ≠ []) :
    splitText (date ++ separator :: timeText) = splitTime (some date) timeText := by
  have array : (date ++ separator :: timeText).splitOnP isDateTimeDelimiter = [date, timeText] := by
    rw [List.splitOnP_append_cons_of_forall_mem (fun unit inside => (isDate_apart (dates unit inside)).1.1) separator separates,
      List.splitOnP_eq_singleton fun unit inside => (isPlain_apart (plain unit inside)).1]
  obtain ⟨noColon, noZone⟩ := date_apart dates
  cases timeText with
  | nil => exact absurd rfl filled
  | cons unit timeText => simp [splitText, array, noColon, noZone]

theorem splitText_time (dates : ∀ unit ∈ date, isDate unit = true) (separates : isDateTimeDelimiter separator = true)
    (clocks : ∀ unit ∈ clock, isClock unit = true) (filled : clock ≠ []) : splitText (date ++ separator :: clock) = ⟨some date, some clock, none⟩ := by
  have none_ : TIME_ZONE.search clock = none := by
    have search : TIME_ZONE.search (clock ++ []) = TIME_ZONE.search [] := search_zone clocks
    rw [List.append_nil] at search
    rw [search]
    rfl
  rw [splitText_dateTime dates separates (fun unit inside => by simp [isPlain, clocks unit inside]) filled, splitTime, none_]
  rfl

theorem splitText_zone (dates : ∀ unit ∈ date, isDate unit = true) (separates : isDateTimeDelimiter separator = true)
    (clocks : ∀ unit ∈ clock, isClock unit = true) (starts : startsZone first = true) (plain : ∀ unit ∈ rest, isClock unit = true) :
    splitText (date ++ separator :: (clock ++ first :: rest)) = ⟨some date, some clock, some (first :: rest)⟩ := by
  have more : ∀ unit ∈ rest, isPlain unit = true := fun unit inside => by simp [isPlain, plain unit inside]
  have whole : ∀ unit ∈ clock ++ first :: rest, isPlain unit = true :=
    List.forall_mem_append.mpr ⟨fun unit inside => by simp [isPlain, clocks unit inside], List.forall_mem_cons.mpr ⟨by simp [isPlain, starts], more⟩⟩
  rw [splitText_dateTime dates separates whole (by simp), splitTime, search_zone clocks, search_starts starts more]
  dsimp only
  rw [removeFirst_end]
  intro unit inside is
  rw [← is, isClock_startsNot (clocks unit inside)] at starts
  cases starts

end Zones

section Dates

variable {a b c d e f g h : UInt16} {year : Int}

theorem parseYear_four (first : isDigit a = true ∧ isDigit b = true) (second : isDigit c = true ∧ isDigit d = true) (rest : Text) :
    parseYear (a :: b :: c :: d :: rest) = (some (decimal [a, b] * 100 + decimal [c, d]), rest) := by
  have four : Takes (exactly isDigit 4) ([a, b, c, d] ++ rest) rest (fun _ => none) _ :=
    (takes_one first.1).both ((takes_one first.2).both (takes_two second))
  have ran : YEAR.exec ([a, b, c, d] ++ rest) = _ := (four.left.group.left).exec
  have value : parseInt [a, b, c, d] = decimal [a, b] * 100 + decimal [c, d] := by
    rw [parseInt_digits (by simp [first, second])]
    simp only [decimal, List.foldl_cons, List.foldl_nil]
    omega
  rw [parseYear, show YEAR.exec (a :: b :: c :: d :: rest) = _ from ran]
  simp [value]

theorem exec_date (month : isDigit e = true ∧ isDigit f = true) (day : isDigit g = true ∧ isDigit h = true) :
    ∃ captures, DATE.exec [code '-', e, f, code '-', g, h] = some captures ∧ captures 1 = none ∧ captures 2 = some [e, f] ∧
      captures 3 = some [g, h] ∧ captures 4 = none := by
  have takes_hyphen {rest : Text} {groups : Groups UInt16} : Takes hyphen (code '-' :: rest) rest groups groups :=
    (takes_one (by decide)).optional (by simp)
  have noDay : Refuses (.group 1 (exactly isDigit 3)) [e, f, code '-', g, h] fun _ => none := by
    refine Refuses.group (refuses_after_one fun first rest is _ => ?_)
    obtain ⟨rfl, rfl⟩ := List.cons.inj is
    refine refuses_after_one fun second rest is _ => ?_
    obtain ⟨rfl, rfl⟩ := List.cons.inj is
    refine Refuses.both (refuses_one fun unit is => ?_)
    obtain rfl := Option.some.inj is
    decide
  have months : Takes (.group 2 (exactly isDigit 2)) ([e, f] ++ [code '-', g, h]) [code '-', g, h] (fun _ => none) _ := (takes_two month).group
  have days : Takes (.group 3 (exactly isDigit 2)) ([g, h] ++ []) [] (Function.update (fun _ => none) 2 (some [e, f])) _ := (takes_two day).group
  exact ⟨_, (takes_hyphen.both ((Takes.optional (.right noDay (.left (months.both ((takes_hyphen.both days).optional (by simp))))) (by simp)).both
    takes_atEnd)).exec, rfl, rfl, rfl, rfl⟩

theorem parseIsoDate_date (month : isDigit e = true ∧ isDigit f = true) (day : isDigit g = true ∧ isDigit h = true) (isYear : 0 ≤ year ∧ year ≤ 9999)
    (isMonth : 1 ≤ decimal [e, f] ∧ decimal [e, f] ≤ 12) (isDay : 1 ≤ decimal [g, h] ∧ decimal [g, h] ≤ Calendar.monthLength year (decimal [e, f])) :
    ∃ result, parseIsoDate [code '-', e, f, code '-', g, h] (some year) = .ok (some result) ∧
      result.date.ordinal = Calendar.Date.ordinal ⟨year, decimal [e, f], decimal [g, h], isMonth, isDay⟩ := by
  obtain ⟨captures, ran, first, second, third, fourth⟩ := exec_date month day
  have long := (Calendar.monthLength_bounds year (decimal [e, f])).1
  let start : Calendar.Date := ⟨year, decimal [e, f], 1, isMonth, le_refl _, by omega⟩
  have nearYear : |start.year| ≤ LIMIT_YEARS := by
    rw [show start.year = year from rfl, abs_of_nonneg isYear.1]
    unfold LIMIT_YEARS
    omega
  have near := near_ordinal start nearYear
  have short := decimal_pair day
  have made := newPlainDate_ok start (by unfold firstOrdinal lastOrdinal; omega)
  obtain ⟨result, added, -, number⟩ := plainDateOfDays_ok (start.ordinal + (max 1 (decimal [g, h]) - 1))
    (by unfold firstOrdinal lastOrdinal; omega)
  refine ⟨result, ?_, ?_⟩
  · have days : ¬(Calendar.monthLength year (decimal [e, f]) < decimal [g, h] ∨ daysInYear start < 1) := by
      unfold daysInYear
      split <;> omega
    have month_ : dateUnit (some [e, f]) = decimal [e, f] := parseInt_pair month
    have day_ : dateUnit (some [g, h]) = decimal [g, h] := parseInt_pair day
    simp only [parseIsoDate, ran, first, second, third, fourth, month_, day_, show dateUnit none = 1 from rfl]
    rw [if_neg (by omega), show newPlainDate year (decimal [e, f]) 1 = _ from made]
    refine (if_neg days).trans ?_
    rw [addDays, added]
    rfl
  · rw [number, max_eq_right isDay.1]
    show Calendar.daysBeforeYear year + Calendar.daysBeforeMonth year (decimal [e, f]) + (1 - 1) + (decimal [g, h] - 1) =
      Calendar.daysBeforeYear year + Calendar.daysBeforeMonth year (decimal [e, f]) + (decimal [g, h] - 1)
    omega

end Dates

section Bounds

variable {x y : ℚ} {n : ℤ} {time : ℚ} {clock : Text}

theorem round_bound (small : |x| < 2 ^ 53) : |Double.round x| ≤ |x| + 1 := by
  have near := round_near (x := x) (k := 0) (by simpa using small)
  rw [zpow_zero] at near
  have apart := abs_sub_abs_le_abs_sub (Double.round x) x
  rw [abs_sub_comm] at apart
  linarith

theorem trunc_bound (small : |x| ≤ n) : |Double.trunc x| ≤ n := by
  rw [abs_le] at small ⊢
  unfold Double.trunc
  split
  next nonneg =>
    have low := Int.floor_nonneg.mpr nonneg
    have high : ⌊x⌋ ≤ n := by exact_mod_cast (Int.floor_le x).trans small.2
    omega
  next negative =>
    have high : ⌈x⌉ ≤ 0 := Int.ceil_le.mpr (by push_cast; linarith)
    have low : -n ≤ ⌈x⌉ := by exact_mod_cast small.1.trans (Int.le_ceil x)
    omega

theorem round_add_bound {a b : ℚ} (left : |x| ≤ a) (right : |y| ≤ b) (small : a + b < 2 ^ 53) : |Double.round (x + y)| ≤ a + b + 1 := by
  have sum := (abs_add_le x y).trans (add_le_add left right)
  have bound := round_bound (sum.trans_lt small)
  linarith

theorem timeOfDay_bound {hours minutes seconds : ℚ} (isHours : |hours| ≤ 25) (isMinutes : |minutes| ≤ 60) (isSeconds : |seconds| ≤ 60) :
    |timeOfDay hours minutes seconds| ≤ 100000000 := by
  have product {number bound : ℚ} (factor : ℚ) (within : |number| ≤ bound) (positive : 0 ≤ factor) (small : bound * factor < 2 ^ 53) :
      |Double.round (number * factor)| ≤ bound * factor + 1 := by
    have size : |number * factor| ≤ bound * factor := by
      rw [abs_mul, abs_of_nonneg positive]
      exact mul_le_mul_of_nonneg_right within positive
    exact (round_bound (size.trans_lt small)).trans (by linarith)
  have first := product MS_PER_HOUR isHours (by norm_num [MS_PER_HOUR]) (by norm_num [MS_PER_HOUR])
  have second := product MS_PER_MINUTE isMinutes (by norm_num [MS_PER_MINUTE]) (by norm_num [MS_PER_MINUTE])
  have third := product 1000 isSeconds (by norm_num) (by norm_num)
  have whole := round_add_bound first second (by norm_num [MS_PER_HOUR, MS_PER_MINUTE])
  refine (round_add_bound whole third (by norm_num [MS_PER_HOUR, MS_PER_MINUTE])).trans (by norm_num [MS_PER_HOUR, MS_PER_MINUTE])

theorem parseTime_bound (is : parseTime clock = some time) : |time| ≤ 100000000 := by
  unfold parseTime at is
  split at is
  next => cases is
  next captures ran =>
    dsimp only at is
    have positive := timeUnit_nonneg
    split at is
    next whole =>
      split at is
      next zero =>
        obtain rfl := Option.some.inj is
        rw [whole, zero.1, zero.2]
        exact timeOfDay_bound (by norm_num) (by norm_num) (by norm_num)
      next => cases is
    next =>
      split at is
      next valid =>
        obtain rfl := Option.some.inj is
        obtain ⟨-, seconds, -, minutes, -, hours⟩ := valid
        refine timeOfDay_bound ?_ ?_ ?_
        · rw [abs_of_nonneg (positive _)]
          exact hours.le
        · rw [abs_of_nonneg (positive _)]
          exact minutes.le
        · rw [abs_of_nonneg (positive _)]
          exact seconds.le
      next => cases is

end Bounds

section Agreement

variable {temporalOffset : String → Int → Int} {text : Text} {zone : String} {cache : Cache} {epochMs : Int}

/-- What the lenient reader makes of a date of the years that are written with four digits, and of a time. -/
theorem fromEpochMilliseconds_near {date : Int} (near : -100000000000000 ≤ date ∧ date ≤ 300000000000000) {time : ℚ} (short : |time| ≤ 100000000)
    {offset : ℚ} (small : |offset| ≤ 400000000) :
    |Double.trunc (Double.round (date + time))| ≤ LIMIT_MS ∧
      fromEpochMilliseconds (Double.trunc (Double.round (date + time))) = .ok (Double.trunc (Double.round (date + time))) ∧
      fromEpochMilliseconds (Double.trunc (Double.round (Double.round (date + time) + offset))) =
        .ok (Double.trunc (Double.round (Double.round (date + time) + offset))) := by
  have dates : |(date : ℚ)| ≤ 300000000000000 := by
    rw [← Int.cast_abs]
    exact_mod_cast abs_le.mpr ⟨by omega, near.2⟩
  have first := round_add_bound dates short (by norm_num)
  have second := round_add_bound first small (by norm_num)
  have reading : |Double.trunc (Double.round (date + time))| ≤ 400000000000000 := trunc_bound (first.trans (by norm_num))
  have instant : |Double.trunc (Double.round (Double.round (date + time) + offset))| ≤ 400000000000000 := trunc_bound (second.trans (by norm_num))
  refine ⟨reading.trans (by decide), if_pos (reading.trans (by decide)), if_pos (instant.trans (by decide))⟩

/-- A text that is written as a date, which the lenient reader reads as this one, of the years with four digits. -/
structure ReadsDate (dateText : Text) (date : PlainDate) : Prop where
  dates : ∀ unit ∈ dateText, isDate unit = true
  filled : dateText ≠ []
  read : ∃ year rest, parseYear dateText = (some year, rest) ∧ parseIsoDate rest (some year) = .ok (some date)
  near : -100000000000000 ≤ date.date.ordinal * MS_PER_DAY ∧ date.date.ordinal * MS_PER_DAY ≤ 300000000000000

def ReadsTime (timeText : Option Text) (time : ℚ) : Prop :=
  timeText = none ∧ time = 0 ∨ ∃ clock, timeText = some clock ∧ clock ≠ [] ∧ parseTime clock = some time

variable {dateText : Text} {timeText zoneText : Option Text} {date : PlainDate} {time : ℚ}

theorem ReadsTime.bound (isTime : ReadsTime timeText time) : |time| ≤ 100000000 := by
  rcases isTime with ⟨-, rfl⟩ | ⟨clock, -, -, parsed⟩
  · norm_num
  · exact parseTime_bound parsed

/-- What the lenient reader makes of the pieces of a text whose date is known. -/
theorem readLenientISO_pieces (pieces : splitText text = ⟨some dateText, timeText, zoneText⟩) (isDate_ : ReadsDate dateText date)
    (isTime : ReadsTime timeText time) (toZonedDateTime : String → Int → Except Thrown Int) (other : String) :
    readLenientISO toZonedDateTime text other =
      match zoneText with
      | some zone =>
        match parseOffset zone with
        | none => .ok none
        | some offset => some <$> fromEpochMilliseconds
            (Double.trunc (Double.round (Double.round ((date.date.ordinal * MS_PER_DAY : Int) + time) + offset)))
      | none => fromEpochMilliseconds (Double.trunc (Double.round ((date.date.ordinal * MS_PER_DAY : Int) + time))) >>= fun wall =>
          some <$> toZonedDateTime other wall := by
  obtain ⟨-, filled, ⟨year, rest, isYear, parsedDate⟩, near⟩ := isDate_
  have start : fromEpochMilliseconds (date.date.ordinal * MS_PER_DAY) = .ok (date.date.ordinal * MS_PER_DAY) :=
    if_pos (abs_le.mpr ⟨by omega, by omega⟩)
  obtain ⟨unit, dateText, rfl⟩ := List.exists_cons_of_ne_nil filled
  rcases isTime with ⟨rfl, rfl⟩ | ⟨clock, rfl, some_, parsed⟩
  · simp only [readLenientISO, pieces, isYear, parsedDate, start]
    cases zoneText <;> rfl
  · obtain ⟨first, clock, rfl⟩ := List.exists_cons_of_ne_nil some_
    simp only [readLenientISO, pieces, isYear, parsedDate, start, parsed]
    cases zoneText <;> rfl

theorem readLenientISO_wall (pieces : splitText text = ⟨some dateText, timeText, none⟩) (isDate_ : ReadsDate dateText date)
    (isTime : ReadsTime timeText time) :
    |Double.trunc (Double.round ((date.date.ordinal * MS_PER_DAY : Int) + time))| ≤ LIMIT_MS ∧
      ∀ toZonedDateTime other, readLenientISO toZonedDateTime text other =
        some <$> toZonedDateTime other (Double.trunc (Double.round ((date.date.ordinal * MS_PER_DAY : Int) + time))) := by
  obtain ⟨near, made, -⟩ := fromEpochMilliseconds_near isDate_.near isTime.bound (show |(0 : ℚ)| ≤ _ by norm_num)
  refine ⟨near, fun toZonedDateTime other => ?_⟩
  rw [readLenientISO_pieces pieces isDate_ isTime]
  dsimp only
  rw [made]
  rfl

theorem readLenientISO_offset {zoneText : Text} {offset : Int} (pieces : splitText text = ⟨some dateText, timeText, some zoneText⟩)
    (isDate_ : ReadsDate dateText date) (isTime : ReadsTime timeText time) (parsed : parseOffset zoneText = some offset) (small : |offset| ≤ 400000000)
    (toZonedDateTime : String → Int → Except Thrown Int) (other : String) : readLenientISO toZonedDateTime text other =
      .ok (some (Double.trunc (Double.round (Double.round ((date.date.ordinal * MS_PER_DAY : Int) + time) + offset)))) := by
  obtain ⟨-, -, made⟩ := fromEpochMilliseconds_near isDate_.near isTime.bound (show |(offset : ℚ)| ≤ _ by exact_mod_cast small)
  rw [readLenientISO_pieces pieces isDate_ isTime]
  dsimp only
  rw [parsed]
  dsimp only
  rw [made]
  rfl

theorem readDate_cases (first : ¬twoDigitsAt text 0 < 0) (second : ¬twoDigitsAt text 2 < 0) (hyphens : text[4]? = some (code '-') ∧ text[7]? = some (code '-'))
    (isMonth : 1 ≤ twoDigitsAt text 5 ∧ twoDigitsAt text 5 ≤ 12) (isDay : 1 ≤ twoDigitsAt text 8)
    (short : ¬((daysInMonthOf (twoDigitsAt text 0 * 100 + twoDigitsAt text 2) (twoDigitsAt text 5)).any (· < twoDigitsAt text 8)) = true) :
    ∃ dateText date, text = dateText ++ text.drop 10 ∧ ReadsDate dateText date ∧
      daysFromCivil (twoDigitsAt text 0 * 100 + twoDigitsAt text 2) (twoDigitsAt text 5) (twoDigitsAt text 8) = date.date.ordinal := by
  obtain ⟨a, b, firstThere, isFirst, firstValue⟩ := twoDigitsAt_nonneg first
  obtain ⟨c, d, secondThere, isSecond, secondValue⟩ := twoDigitsAt_nonneg second
  obtain ⟨e, f, monthThere, month, monthValue⟩ := twoDigitsAt_nonneg (show ¬twoDigitsAt text 5 < 0 by omega)
  obtain ⟨g, h, dayThere, day, dayValue⟩ := twoDigitsAt_nonneg (show ¬twoDigitsAt text 8 < 0 by omega)
  rw [daysInMonthOf_eq _ isMonth, Option.any_some, decide_eq_true_eq, not_lt] at short
  rw [monthValue] at isMonth
  rw [firstValue, secondValue, monthValue, dayValue] at short ⊢
  rw [dayValue] at isDay
  have centuries := decimal_pair isFirst
  have years := decimal_pair isSecond
  have isYear : 0 ≤ decimal [a, b] * 100 + decimal [c, d] ∧ decimal [a, b] * 100 + decimal [c, d] ≤ 9999 := by omega
  obtain ⟨date, parsed, number⟩ := parseIsoDate_date month day isYear isMonth ⟨isDay, short⟩
  refine ⟨[a, b, c, d, code '-', e, f, code '-', g, h], date, ?_, ⟨?_, by simp, ⟨_, _, parseYear_four isFirst isSecond _, parsed⟩, ?_⟩, ?_⟩
  · rw [drop_of_get hyphens.1] at secondThere
    rw [drop_of_get hyphens.2] at monthThere
    rw [secondThere, monthThere, dayThere] at firstThere
    exact firstThere
  · simp [isDate, isFirst, isSecond, month, day]
  · have bounds := Calendar.Date.ordinal_bounds ⟨_, _, _, isMonth, ⟨isDay, short⟩⟩
    rw [← number] at bounds
    unfold Calendar.daysBeforeYear at bounds
    dsimp only at bounds
    unfold MS_PER_DAY
    omega
  · exact (daysFromCivil_eq ⟨_, _, _, isMonth, ⟨isDay, short⟩⟩).trans number.symm

/-- A text of the fast reader is one instant for the lenient reader, or one reading of the clock, which is also what the fast reader looks up. -/
theorem readCommonISO_cases (answers : ((readCommonISO temporalOffset text zone).run cache).1 = some epochMs) :
    (∀ toZonedDateTime other, readLenientISO toZonedDateTime text other = .ok (some epochMs)) ∨
      ∃ wall, |wall| ≤ LIMIT_MS ∧ (∀ toZonedDateTime other, readLenientISO toZonedDateTime text other = some <$> toZonedDateTime other wall) ∧
        ((epochFromWall temporalOffset zone wall .compatible).run cache).1 = some epochMs := by
  unfold readCommonISO at answers
  split at answers
  · cases answers
  next shape =>
  rw [not_or, not_or, not_lt, not_not, not_not] at shape
  dsimp only at answers
  split at answers
  · cases answers
  next fields =>
  split at answers
  · cases answers
  next isDay =>
  split at answers
  · cases answers
  next time index isTime =>
  simp only [not_or, not_lt] at fields
  obtain ⟨dateText, date, whole, isDate_, number⟩ :=
    readDate_cases (not_lt.mpr fields.1) (not_lt.mpr fields.2.1) shape.2 ⟨fields.2.2.1, fields.2.2.2.1⟩ fields.2.2.2.2 isDay
  rw [number] at answers
  rcases readTime_cases shape.1 isTime with ⟨ten, rfl, rfl⟩ | ⟨separator, clock, there, separates, clocks, filled, parsed⟩
  · -- a date alone
    rw [if_pos ten.symm] at answers
    rw [List.drop_eq_nil_iff.mpr ten.le, List.append_nil] at whole
    have pieces : splitText text = ⟨some dateText, none, none⟩ := by rw [whole, splitText_date isDate_.dates]
    obtain ⟨near, asks⟩ := readLenientISO_wall pieces isDate_ (.inl ⟨rfl, rfl⟩)
    exact .inr ⟨_, near, asks, answers⟩
  have isTime_ : ReadsTime (some clock) time := .inr ⟨clock, rfl, filled, parsed⟩
  rw [there] at whole
  split at answers
  next ends =>
    rw [List.drop_eq_nil_iff.mpr ends.ge, List.append_nil] at whole
    have pieces : splitText text = ⟨some dateText, some clock, none⟩ := by rw [whole, splitText_time isDate_.dates separates clocks filled]
    obtain ⟨near, asks⟩ := readLenientISO_wall pieces isDate_ isTime_
    exact .inr ⟨_, near, asks, answers⟩
  next =>
    left
    intro toZonedDateTime other
    split at answers
    next z =>
      have ends : index + 1 = text.length := by
        by_contra more
        rw [if_neg more] at answers
        cases answers
      rw [if_pos ends] at answers
      obtain rfl := Option.some.inj answers
      rw [drop_of_get z, List.drop_eq_nil_iff.mpr ends.ge] at whole
      rw [readLenientISO_offset (by rw [whole]; exact splitText_zone isDate_.dates separates clocks (by decide) nofun) isDate_ isTime_
        (show parseOffset [code 'Z'] = some 0 from rfl) (by decide), Int.cast_zero, add_zero, Double.round_round]
    next =>
      cases found : readOffset text index with
      | none =>
        rw [found] at answers
        cases answers
      | some offset =>
        rw [found] at answers
        obtain rfl := Option.some.inj answers
        obtain ⟨sign, rest, starts, isSign_, restClocks, sameOffset, small⟩ := readOffset_cases found
        rw [starts] at whole
        exact readLenientISO_offset (by rw [whole]; exact splitText_zone isDate_.dates separates clocks (by simp [startsZone, isSign_]) restClocks)
          isDate_ isTime_ sameOffset small _ _

def IsReading (text : Text) (wall : Int) : Prop :=
  ∀ toZonedDateTime zone, readLenientISO toZonedDateTime text zone = some <$> toZonedDateTime zone wall

theorem IsReading.unique {first second : Int} (left : IsReading text first) (right : IsReading text second) : first = second := by
  have same : (.ok (some first) : Except Thrown (Option Int)) = .ok (some second) := (left (fun _ wall => .ok wall) "").symm.trans (right _ "")
  exact Option.some.inj (Except.ok.inj same)

def SkippedTwice (offset : Int → Int) (wall : Int) : Prop :=
  ¬(LocalTime.possible offset wall).Nonempty ∧
    ∃ u, LocalTime.Reads offset (wall + LocalTime.shift offset MS_PER_DAY wall) u ∧ wall + MS_PER_DAY < u

/-- What Temporal gives for an answer of `epochFromWall`, the same but for a reading that is skipped twice. -/
theorem means_of_answers {offset : Int → Int} (small : ∀ t, |offset t| < MS_PER_DAY) {wall : Int} (answer : Answers offset wall .compatible epochMs) :
    ∃ t, LocalTime.Means offset MS_PER_DAY wall .compatible t ∧ (t = epochMs ↔ ¬SkippedTwice offset wall) := by
  by_cases exists_ : (LocalTime.possible offset wall).Nonempty
  · exact ⟨epochMs, answer.exists_ exists_, iff_of_true rfl fun skipped => skipped.1 exists_⟩
  obtain ⟨-, is, means⟩ := answer.skipped exists_
  rw [if_neg (by decide)] at is means
  by_cases again : ∃ u, LocalTime.Reads offset (wall + LocalTime.shift offset MS_PER_DAY wall) u ∧ wall + MS_PER_DAY < u
  · obtain ⟨u, reads, far⟩ := again
    obtain ⟨t, isRead, greatest⟩ := Int.exists_greatest_of_bdd (P := LocalTime.Reads offset (wall + LocalTime.shift offset MS_PER_DAY wall))
      ⟨_, fun t reads => (LocalTime.reads_near small reads).2.le⟩ ⟨u, reads⟩
    have later := greatest u reads
    have wide := abs_lt.mp (small (wall - MS_PER_DAY))
    exact ⟨t, .inr ⟨exists_, isRead, greatest⟩, iff_of_false (by omega) (not_not.mpr ⟨exists_, u, reads, far⟩)⟩
  · have near := means.mpr fun u reads => not_lt.mp fun far => again ⟨u, reads, far⟩
    exact ⟨epochMs, near, iff_of_true rfl fun skipped => again skipped.2⟩

/-- A text that the fast reader answers is accepted by the lenient reader, which gives the same instant, but for a reading that is skipped
twice. Temporal's lookup of a reading is as it is documented. -/
theorem iso_readers_agree (small : ∀ t, |temporalOffset zone t| < MS_PER_DAY) (forward : NeverBack (temporalOffset zone))
    {toZonedDateTime : String → Int → Except Thrown Int}
    (documented : ∀ wall, |wall| ≤ LIMIT_MS → ∀ t,
      toZonedDateTime zone wall = .ok t ↔ LocalTime.Means (temporalOffset zone) MS_PER_DAY wall .compatible t)
    (history : List Lookup) (text : Text) {epochMs : Int}
    (answers : ((readCommonISO temporalOffset text zone).run (cacheAfter temporalOffset history)).1 = some epochMs) :
    ∃ t, readLenientISO toZonedDateTime text zone = .ok (some t) ∧
      (t = epochMs ↔ ¬∃ wall, IsReading text wall ∧ SkippedTwice (temporalOffset zone) wall) := by
  rcases readCommonISO_cases answers with same | ⟨wall, near, reading, looked⟩
  · refine ⟨epochMs, same _ _, iff_of_true rfl ?_⟩
    rintro ⟨wall, reading, -⟩
    -- an instant does not depend on what Temporal answers for a reading
    have refused := (same (fun _ _ => .error .rangeError) zone).symm.trans (reading _ zone)
    cases refused
  · have answer := (epochFromWall_yields small forward wall .compatible _ (sound_after history)).1 epochMs looked
    obtain ⟨t, means, same⟩ := means_of_answers small answer
    refine ⟨t, by rw [reading, (documented wall near t).mpr means]; rfl, same.trans (not_congr ⟨fun skipped => ⟨wall, reading, skipped⟩, ?_⟩)⟩
    rintro ⟨other, readingToo, skipped⟩
    rwa [← IsReading.unique reading readingToo] at skipped

theorem means_utc (wall t : Int) : .ok wall = (.ok t : Except Thrown Int) ↔ LocalTime.Means (fun _ => 0) MS_PER_DAY wall .compatible t := by
  have only (u : Int) : LocalTime.Reads (fun _ => 0) wall u ↔ u = wall := by
    simp [LocalTime.Reads]
  have answer := Answers.of_unique only .compatible
  have exists_ : (LocalTime.possible (fun _ => 0) wall).Nonempty := ⟨wall, (only wall).mpr rfl⟩
  constructor
  · intro is
    rw [← Except.ok.inj is]
    exact answer.exists_ exists_
  · rintro (⟨-, least⟩ | ⟨none, -⟩)
    · rw [(only t).mp least.1]
    · exact absurd exists_ none

/-- A day in a zone without offsets. -/
theorem iso_readers_agree_utc :
    ((readCommonISO (fun _ _ => 0) ("1970-01-02T12:30".toList.map code) "UTC").run (cacheAfter (fun _ _ => 0) [])).1 = some 131400000 ∧
      ∃ t, readLenientISO (fun _ wall => .ok wall) ("1970-01-02T12:30".toList.map code) "UTC" = .ok (some t) ∧
        (t = 131400000 ↔ ¬∃ wall, IsReading ("1970-01-02T12:30".toList.map code) wall ∧ SkippedTwice (fun _ => 0) wall) := by
  have answers : ((readCommonISO (fun _ _ => 0) ("1970-01-02T12:30".toList.map code) "UTC").run (cacheAfter (fun _ _ => 0) [])).1 =
      some 131400000 := by decide +kernel
  have forward : NeverBack fun _ => 0 := fun _ _ _ _ _ _ _ _ _ => rfl
  exact ⟨answers, @iso_readers_agree (fun _ _ => 0) "UTC" (fun _ => by decide) forward (fun _ wall => .ok wall) (fun wall _ t => means_utc wall t) [] _ _ answers⟩

/-- A zone is put on by 23 hours and put back by 26 a day after. The time that was skipped, moved on by 23 hours, comes once in that day, which
the fast reader finds, and once after it, which Temporal gives. -/
theorem readCommonISO_skipped_twice :
    ∃ offset : Int → Int, (∀ t, |offset t| < MS_PER_DAY) ∧
      (∀ t u, LocalTime.Changes offset t → LocalTime.Changes offset u → t / MS_PER_DAY = u / MS_PER_DAY → t = u) ∧
      ∃ text epochMs, ((readCommonISO (fun _ => offset) text "Test/Back").run (cacheAfter (fun _ => offset) [])).1 = some epochMs ∧
        ∀ toZonedDateTime : String → Int → Except Thrown Int,
          (∀ wall, |wall| ≤ LIMIT_MS → ∀ t, toZonedDateTime "Test/Back" wall = .ok t ↔ LocalTime.Means offset MS_PER_DAY wall .compatible t) →
          readLenientISO toZonedDateTime text "Test/Back" ≠ .ok (some epochMs) := by
  have changes {t : Int} (changes : LocalTime.Changes (fun t => if t < 0 then -39600000 else putOn 86400000 43200000 (-50400000) t) t) :
      t = 0 ∨ t = 86400000 := by
    simp only [LocalTime.Changes, putOn] at changes
    split_ifs at changes <;> omega
  have answers : ((readCommonISO (fun _ t => if t < 0 then -39600000 else putOn 86400000 43200000 (-50400000) t)
      ("1969-12-31T13:00".toList.map code) "Test/Back").run []).1 = some 0 := by decide +kernel
  refine ⟨fun t => if t < 0 then -39600000 else putOn 86400000 43200000 (-50400000) t, fun t => ?_, fun t u first second same => ?_,
    "1969-12-31T13:00".toList.map code, 0, answers, fun toZonedDateTime documented is => ?_⟩
  · simp only [putOn]
    split_ifs <;> decide
  · unfold MS_PER_DAY at same
    rcases changes first with rfl | rfl <;> rcases changes second with rfl | rfl <;> omega
  · have value : (readLenientISO (fun _ wall => .ok wall) ("1969-12-31T13:00".toList.map code) "Test/Back").toOption = some (some (-39600000)) := by
      decide +kernel
    obtain ⟨wall, reading⟩ : ∃ wall, IsReading ("1969-12-31T13:00".toList.map code) wall := by
      rcases readCommonISO_cases answers with same | ⟨wall, -, reading, -⟩
      · rw [same] at value
        cases value
      · exact ⟨wall, reading⟩
    rw [reading] at value
    obtain rfl : wall = -39600000 := by simpa [Except.toOption] using value
    rw [reading] at is
    have zero : toZonedDateTime "Test/Back" (-39600000) = .ok 0 := by
      cases ran : toZonedDateTime "Test/Back" (-39600000) with
      | error thrown => rw [ran] at is; cases is
      | ok t => rw [ran] at is; cases is; rfl
    rcases (documented (-39600000) (by decide) 0).mp zero with ⟨⟨t, reads⟩, -⟩ | ⟨-, greatest⟩
    · simp only [LocalTime.possible, LocalTime.Reads, putOn, Set.mem_ofPred_eq] at reads
      split_ifs at reads <;> omega
    · have later := greatest.2 (show (93600000 : Int) ∈ LocalTime.possible _ _ by
        simp [LocalTime.possible, LocalTime.Reads, LocalTime.shift, MS_PER_DAY, putOn])
      omega

end Agreement

end Arki.Dates
