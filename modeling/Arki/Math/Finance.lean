import Arki.Math.Rational

/-! Time value of money: balances, present values, level payments and schedules on exact decimals, rounded once. -/

set_option autoImplicit false

namespace Arki.Math.Finance

open Decimal (ScaleOptions one)

inductive PaymentTiming where
  | atEnd
  | atBegin
  deriving DecidableEq

structure AnnuityOptions where
  payment : Option DecimalInput
  timing : Option PaymentTiming

/-- `payment: level = 0` -/
def AnnuityOptions.level (options : AnnuityOptions) : DecimalInput := options.payment.getD (.number (.whole 0))

structure AmortizationRow where
  period : Nat
  payment : Decimal
  interest : Decimal
  principal : Decimal
  balance : Decimal
  deriving DecidableEq

def maxSchedulePeriods : Nat := 100000

def resolveRounding (options : ScaleOptions) : RoundingMode := options.rounding.getD .halfEven

def isBegin (timing : Option PaymentTiming) : Bool := timing == some .atBegin

/-! Checks. -/

def assertFinite (value : JsNumber) (name : String) : Checked Unit :=
  match value with
  | .notFinite spelling => .error (.invalidArgument (name ++ " must be finite, got " ++ spelling))
  | _ => .ok ()

/-- `value < 0` of a finite number. -/
def isNegative : JsNumber → Bool
  | .whole value => value < 0
  | .fraction spelling | .notFinite spelling => spelling.toList.head? == some '-'

def assertPeriods (periods : JsNumber) : Checked Unit := do
  assertFinite periods "periods"
  if isNegative periods then throw (.invalidArgument ("periods must not be negative, got " ++ periods.spelling))
  match periods with
  | .whole value =>
    if isSafeInteger value then return ()
    else throw (.invalidArgument ("periods must be a safe integer, got " ++ periods.spelling))
  | _ => throw (.invalidArgument ("periods must be a safe integer, got " ++ periods.spelling))

def assertPositivePeriods (periods : JsNumber) : Checked Unit := do
  assertPeriods periods
  if periods = .whole 0 then throw (.invalidArgument "periods must be at least 1")

/-- `1 + rate`, which must stay positive. -/
def growthFactor (rate : DecimalInput) : Checked Decimal := do
  let factor ← one.plus rate
  if sign factor.coefficient ≤ 0 then
    throw (.invalidArgument ("rate must be greater than -1 (-100 %), got " ++ (← Decimal.from_ rate).toString))
  return factor

/-- `(1 + rate)^periods`. -/
def growth (rate : DecimalInput) (periods : JsNumber) : Checked Decimal := do
  assertPeriods periods
  (← growthFactor rate).pow periods

/-! Balances. -/

def finish (value : Decimal) (options : Option ScaleOptions) : Checked Decimal :=
  match options with
  | none => .ok value
  | some options => value.toScale options.scale (resolveRounding options)

def dueBy (timing : Option PaymentTiming) (perUnit : Decimal) (factor : Checked Decimal) : Checked Decimal :=
  if isBegin timing then do perUnit.times (.decimal (← factor)) else .ok perUnit

def grownPayments (rate : DecimalInput) (periods : JsNumber) (compounded : Decimal) (options : AnnuityOptions) : Checked Decimal := do
  let periodRate ← Decimal.from_ rate
  if periodRate.isZero then (← Decimal.from_ options.level).times (.number periods)
  else
    let perUnit ← (← compounded.minus (.number (.whole 1))).dividedBy (.decimal periodRate) none
    let due ← dueBy options.timing perUnit (one.plus (.decimal periodRate))
    due.times options.level

def withPayments (amount : Decimal) (rate : DecimalInput) (periods : JsNumber) (compounded : Decimal) (options : AnnuityOptions) :
    Checked Decimal :=
  match options.payment with
  | none => .ok amount
  | some _ => do amount.plus (.decimal (← grownPayments rate periods compounded options))

def futureValue (principal rate : DecimalInput) (periods : JsNumber) (options : AnnuityOptions) (scaled : Option ScaleOptions) :
    Checked Decimal := do
  let compounded ← growth rate periods
  let grown ← (← Decimal.from_ principal).times (.decimal compounded)
  finish (← withPayments grown rate periods compounded options) scaled

def presentValue (amount rate : DecimalInput) (periods : JsNumber) (options : AnnuityOptions) (scaled : ScaleOptions) :
    Checked Decimal := do
  let compounded ← growth rate periods
  let atEnd ← withPayments (← Decimal.from_ amount) rate periods compounded options
  atEnd.dividedBy (.decimal compounded) (some ⟨scaled.scale, some (resolveRounding scaled)⟩)

/-! Loans. -/

def payment (principal rate : DecimalInput) (periods : JsNumber) (timing : Option PaymentTiming) (scaled : ScaleOptions) :
    Checked Decimal := do
  assertPositivePeriods periods
  let factor ← growthFactor rate
  let loan ← Decimal.from_ principal
  let periodRate ← Decimal.from_ rate
  let options : Option ScaleOptions := some ⟨scaled.scale, some (resolveRounding scaled)⟩
  if periodRate.isZero then loan.dividedBy (.number periods) options
  else
    let compounded ← factor.pow periods
    let numerator ← (← loan.times (.decimal periodRate)).times (.decimal compounded)
    let denominator ← compounded.minus (.number (.whole 1))
    let due ← dueBy timing denominator (.ok factor)
    numerator.dividedBy (.decimal due) options

/-- `periods > MAX_SCHEDULE_PERIODS`. -/
def isPastSchedule : JsNumber → Bool
  | .whole value => (maxSchedulePeriods : Int) < value
  | .fraction spelling =>
    match decimalParts spelling with
    | .ok parts => (maxSchedulePeriods * 10 ^ parts.scale : Int) < parts.coefficient
    | .error _ => false
  | .notFinite spelling => spelling == "Infinity"

def interestOf (periodRate : Decimal) (atBegin : Bool) (scaled : ScaleOptions) (period : Nat) (balance : Decimal) : Checked Decimal :=
  if atBegin && period == 1 then do (← Decimal.from_ (.number (.whole 0))).toScale scaled.scale .unnecessary
  else do (← balance.times (.decimal periodRate)).toScale scaled.scale (resolveRounding scaled)

def principalPartOf (isLast : Bool) (level balance interest : Decimal) : Checked Decimal :=
  if isLast then .ok balance else level.minus (.decimal interest)

def rowsFrom (level periodRate : Decimal) (atBegin : Bool) (scaled : ScaleOptions) : Nat → Nat → Decimal → Checked (List AmortizationRow)
  | 0, _, _ => return []
  | left + 1, period, balance => do
    let interest ← interestOf periodRate atBegin scaled period balance
    let principalPart ← principalPartOf (left = 0) level balance interest
    let rest ← balance.minus (.decimal principalPart)
    let paid ← principalPart.plus (.decimal interest)
    return ⟨period, paid, interest, principalPart, rest⟩ :: (← rowsFrom level periodRate atBegin scaled left (period + 1) rest)

def amortizationSchedule (principal rate : DecimalInput) (periods : JsNumber) (timing : Option PaymentTiming) (scaled : ScaleOptions) :
    Checked (List AmortizationRow) := do
  if isPastSchedule periods then
    throw (.resourceLimit ("amortizationSchedule supports at most " ++ toString maxSchedulePeriods ++ " periods, got " ++
      periods.spelling))
  let level ← payment principal rate periods timing scaled
  let periodRate ← Decimal.from_ rate
  let balance ← (← Decimal.from_ principal).toScale scaled.scale (resolveRounding scaled)
  match periods with
  | .whole count => rowsFrom level periodRate (isBegin timing) scaled count.toNat 1 balance
  | _ => return []

/-! Flows and rates. -/

def netPresentValue (rate : DecimalInput) (cashFlows : List DecimalInput) (scaled : ScaleOptions) : Checked Decimal := do
  if cashFlows = [] then throw (.invalidArgument "cashFlows must not be empty")
  let factor ← growthFactor rate
  let start ← Decimal.from_ (.number (.whole 0))
  let numerator ← cashFlows.foldlM (fun sum flow => do (← sum.times (.decimal factor)).plus flow) start
  numerator.dividedBy (.decimal (← factor.pow (.whole cashFlows.length))) (some ⟨scaled.scale, some (resolveRounding scaled)⟩)

def assertPeriodsPerYear (periodsPerYear : JsNumber) : Checked Unit := do
  assertFinite periodsPerYear "periodsPerYear"
  match periodsPerYear with
  | .whole value =>
    if !isSafeInteger value || value < 1 then
      throw (.invalidArgument ("periodsPerYear must be a positive safe integer, got " ++ periodsPerYear.spelling))
  | _ => throw (.invalidArgument ("periodsPerYear must be a positive safe integer, got " ++ periodsPerYear.spelling))

/-- `(1 + nominal ÷ n)^n − 1` as a fraction. -/
def yearlyGrowth (nominalRate : DecimalInput) (periodsPerYear : JsNumber) : Checked Rational := do
  let unit ← Rational.from_ (.other (.number (.whole 1)))
  let nominal ← Rational.from_ (.other nominalRate)
  let factor ← unit.plus (.rational (← nominal.dividedBy (.other (.number periodsPerYear))))
  if sign factor.numerator ≤ 0 then
    throw (.invalidArgument ("nominalRate ÷ periodsPerYear must be greater than -1 (-100 %), got " ++
      (← Decimal.from_ nominalRate).toString ++ " ÷ " ++ periodsPerYear.spelling))
  (← factor.pow periodsPerYear).minus (.other (.number (.whole 1)))

def effectiveRate (nominalRate : DecimalInput) (periodsPerYear : JsNumber) (scaled : Option ScaleOptions) : Checked Decimal := do
  assertPeriodsPerYear periodsPerYear
  let result ← yearlyGrowth nominalRate periodsPerYear
  match scaled with
  | none => result.toDecimal none
  | some scaled => result.toDecimal (some ⟨scaled.scale, some (resolveRounding scaled)⟩)

end Arki.Math.Finance
