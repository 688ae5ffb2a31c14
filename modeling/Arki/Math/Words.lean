import Arki.Library.Spoken
import Arki.Math.Decimal

/-! Numbers as words. The core handles the sign, fractions and thresholds; the grammar of a language is its rules. -/

set_option autoImplicit false

namespace Arki.Math.Words

inductive Gender where
  | masculine
  | feminine
  | neuter
  deriving DecidableEq

structure NumberWordsLocale where
  code : String
  negative : String
  decimalSeparator : String
  maxGroups : Nat
  spell : Nat → Option Gender → Checked String

/-- The loop of `thousandsGroups`. -/
def groupsLoop (n : Nat) (groups : List Nat) : List Nat :=
  if 0 < n then groupsLoop (n / 1000) (groups ++ [n % 1000]) else groups
  termination_by n

def thousandsGroups (n : Nat) : List Nat := if n = 0 then [0] else (groupsLoop n []).reverse

def assertFits (n : Nat) (locale : NumberWordsLocale) : Checked Unit :=
  let limit := locale.maxGroups * 3
  if 10 ^ limit ≤ n then
    .error (.numericRange ("The number has more than " ++ toString limit ++ " digits, beyond what the " ++ locale.code ++
      " words can spell"))
  else .ok ()

def isInteger (d : Decimal) : Bool := d.scale = 0 || d.coefficient.tmod (10 ^ d.scale) = 0

def toBigInt (d : Decimal) : Checked Int :=
  if !isInteger d then
    .error (.roundingNecessary (d.toString ++ " is not an integer; round it first, e.g. .toScale(0, 'halfEven')"))
  else .ok (d.coefficient.tdiv (10 ^ d.scale))

structure SpellOptions where
  locale : NumberWordsLocale
  gender : Option Gender := none
  until_ : Option DecimalInput := none
  after : Option DecimalInput := none

def outside (magnitude : Decimal) (options : SpellOptions) : Checked Bool := do
  let above ← match options.until_ with
    | none => pure false
    | some bound => return decide (0 < (← magnitude.compareTo bound))
  if above then return true
  match options.after with
  | none => return false
  | some bound => return decide ((← magnitude.compareTo bound) ≤ 0)

def fractionWords (magnitude : Decimal) (options : SpellOptions) : Checked (List String) :=
  if magnitude.scale = 0 then .ok []
  else do
    let fraction := (magnitude.text.dropWhile (· ≠ '.')).drop 1
    let digits ← fraction.mapM fun digit => options.locale.spell (digit.toNat - '0'.toNat) options.gender
    return options.locale.decimalSeparator :: digits

/-- Spells a number; fractions are read digit by digit. The digits of a locale are its own. -/
def spellNumber (digitsOf : Decimal → NumberWordsLocale → String) (value : DecimalInput) (options : SpellOptions) : Checked String := do
  let d := (← Decimal.from_ value).trim
  let magnitude := d.abs
  if ← outside magnitude options then return digitsOf d options.locale
  let integer := (← toBigInt (← magnitude.toScale (.whole 0) .down)).toNat
  assertFits integer options.locale
  let whole ← options.locale.spell integer options.gender
  let fraction ← fractionWords magnitude options
  let words := whole :: fraction
  return " ".intercalate (if d.coefficient < 0 then options.locale.negative :: words else words)

def enOnes : List String :=
  ["zero", "one", "two", "three", "four", "five", "six", "seven", "eight", "nine", "ten", "eleven", "twelve", "thirteen",
    "fourteen", "fifteen", "sixteen", "seventeen", "eighteen", "nineteen"]

def enTens : List String := ["", "", "twenty", "thirty", "forty", "fifty", "sixty", "seventy", "eighty", "ninety"]

def enScales : List String :=
  ["", "thousand", "million", "billion", "trillion", "quadrillion", "quintillion", "sextillion", "septillion", "octillion",
    "nonillion", "decillion"]

def enBelowHundred (n : Nat) : String :=
  if n < 20 then enOnes.getD n ""
  else
    let unit := n % 10
    if unit = 0 then enTens.getD (n / 10) "" else enTens.getD (n / 10) "" ++ "-" ++ enOnes.getD unit ""

def enGroup (n : Nat) (and : Bool) : String :=
  let hundreds := n / 100
  let rest := n % 100
  if hundreds = 0 then enBelowHundred rest
  else if rest = 0 then enOnes.getD hundreds "" ++ " hundred"
  else enOnes.getD hundreds "" ++ " hundred " ++ (if and then "and " else "") ++ enBelowHundred rest

def enWords (and : Bool) : List Nat → List String → List String
  | [], words => words
  | group :: groups, words =>
    if group = 0 then enWords and groups words
    else
      let needsAnd := and && groups.isEmpty && !words.isEmpty && group < 100
      let scale := enScales.getD groups.length ""
      enWords and groups
        (words ++ [(if needsAnd then "and " else "") ++ enGroup group and ++ (if scale = "" then "" else " " ++ scale)])

def enSpell (n : Nat) (and : Bool) : Checked String :=
  if n = 0 then .ok "zero"
  else
    let groups := thousandsGroups n
    if enScales.length < groups.length then
      .error (.numericRange (toString n ++ " is beyond the largest English scale word (decillion)"))
    else .ok (" ".intercalate (enWords and groups []))

def en : NumberWordsLocale := ⟨"en-US", "minus", "point", 12, fun n _ => enSpell n false⟩

def enGB : NumberWordsLocale := ⟨"en-GB", "minus", "point", 12, fun n _ => enSpell n true⟩

def roOnes : List String :=
  ["zero", "unu", "doi", "trei", "patru", "cinci", "șase", "șapte", "opt", "nouă", "zece", "unsprezece", "doisprezece",
    "treisprezece", "paisprezece", "cincisprezece", "șaisprezece", "șaptesprezece", "optsprezece", "nouăsprezece"]

def roTens : List String :=
  ["", "", "douăzeci", "treizeci", "patruzeci", "cincizeci", "șaizeci", "șaptezeci", "optzeci", "nouăzeci"]

def roScalesSingular : List String := ["", "mie", "milion", "miliard", "trilion"]

def roScalesPlural : List String := ["", "mii", "milioane", "miliarde", "trilioane"]

def roScaleGender : List Gender := [.masculine, .feminine, .neuter, .neuter, .neuter]

def roOne (n : Nat) (gender : Gender) : String :=
  match gender, n with
  | .feminine, 1 => "una"
  | .neuter, 1 => "unu"
  | .feminine, 2 | .neuter, 2 => "două"
  | .feminine, 12 | .neuter, 12 => "douăsprezece"
  | _, n => roOnes.getD n ""

def roBelow100 (n : Nat) (gender : Gender) : String :=
  if n < 20 then roOne n gender
  else
    let unit := n % 10
    let tens := roTens.getD (n / 10) ""
    if unit = 0 then tens else tens ++ " și " ++ roOne unit gender

def roGroup (n : Nat) (gender : Gender) : String :=
  let hundreds := n / 100
  let rest := n % 100
  " ".intercalate ((if hundreds = 1 then ["o sută"] else if 1 < hundreds then [roOne hundreds .feminine ++ " sute"] else []) ++
    (if 0 < rest then [roBelow100 rest gender] else []))

/-- Whether `de` joins a multiplier and its scale noun. -/
def needsDe (multiplier : Nat) : Bool :=
  let lastTwo := multiplier % 100
  20 ≤ multiplier && (lastTwo = 0 || 20 ≤ lastTwo)

def roWords (gender : Gender) : List Nat → List String → List String
  | [], words => words
  | group :: groups, words =>
    let scale := groups.length
    if group = 0 then roWords gender groups words
    else if scale = 0 then roWords gender groups (words ++ [roGroup group gender])
    else if group = 1 then
      roWords gender groups (words ++ [(if scale = 1 then "o" else "un") ++ " " ++ roScalesSingular.getD scale ""])
    else
      roWords gender groups (words ++ [roGroup group (roScaleGender.getD scale .masculine) ++ (if needsDe group then " de" else "") ++
        " " ++ roScalesPlural.getD scale ""])

def roSpell (n : Nat) (gender : Option Gender) : Checked String :=
  if n = 0 then .ok (roOnes.getD 0 "")
  else
    let groups := thousandsGroups n
    if roScalesSingular.length < groups.length then
      .error (.numericRange (toString n ++ " is beyond the largest Romanian scale word (trilion)"))
    else .ok (" ".intercalate (roWords (gender.getD .masculine) groups []))

def ro : NumberWordsLocale := ⟨"ro-RO", "minus", "virgulă", 5, roSpell⟩

open Spoken

variable {n : Nat}

theorem groupsLoop_eq (n : Nat) : ∀ groups, groupsLoop n groups = groups ++ Nat.digits 1000 n := by
  induction n using Nat.strong_induction_on with
  | _ n ih =>
    intro groups
    rw [groupsLoop]
    split
    · next more =>
      rw [ih (n / 1000) (by omega), Nat.digits_def' (by decide) more, List.append_assoc, List.singleton_append]
    · next none_ =>
      have zero : n = 0 := by omega
      rw [zero, Nat.digits_zero, List.append_nil]

theorem thousandsGroups_eq (positive : 0 < n) : thousandsGroups n = (List.range (Nat.digits 1000 n).length).reverse.map (group n) := by
  rw [thousandsGroups, if_neg positive.ne', groupsLoop_eq, List.nil_append]
  conv => lhs; rw [digits_eq n]
  rw [List.map_reverse]

theorem thousandsGroups_length (positive : 0 < n) (k : Nat) : (thousandsGroups n).length ≤ k ↔ n < 1000 ^ k := by
  rw [thousandsGroups_eq positive, List.length_map, List.length_reverse, List.length_range]
  exact Nat.digits_length_le_iff (by decide) n

end Arki.Math.Words
