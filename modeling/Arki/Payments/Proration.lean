import Arki.Money.Sums

/-! What a move of a subscription to another plan credits and charges for the time left of its period. -/

set_option autoImplicit false

namespace Arki.Proration

open Arki (Double)
open Arki.Money

structure Instant where
  epochNanoseconds : Int
  inRange : epochNanoseconds.natAbs ≤ 8640000000000000000000
  deriving DecidableEq

def isBefore (a b : Instant) : Bool := a.epochNanoseconds < b.epochNanoseconds

def isAfter (a b : Instant) : Bool := b.epochNanoseconds < a.epochNanoseconds

/-- Whole milliseconds, truncated. -/
def toMillis (value : Instant) : Int := value.epochNanoseconds / 1000000

/-- The difference of two whole numbers, which past `2^53` is rounded to another one. -/
def minusMs (a b : Int) : Int := (Double.round ((a - b : Int) : ℚ)).num

def quotient (a b : Int) : ℚ := Double.round ((a : ℚ) / b)

structure Plan where
  id : String
  priceMinor : Nat
  currency : String
  isActive : Bool

structure Subscription where
  id : String
  currentPeriodStart : Instant
  currentPeriodEnd : Instant

structure ProrationReads where
  findSubscriptionById : String → Option (Subscription × Plan)
  findPlanById : String → Option Plan

/-- What the service stands on: the clock, how an instant is written, upper case, and the currencies. -/
structure Host where
  now : Instant
  toISO : Instant → String
  toUpperCase : String → String
  table : Iso4217

inductive ProrationFailure where
  | referenceNotFound (kind id missing : String)
  | planInactive (planId : String)
  | planCurrencyMismatch (currentPlanId newPlanId currentCurrency newCurrency : String)
  | effectiveDateOutsidePeriod (subscriptionId effectiveDate periodStart periodEnd : String)
  deriving DecidableEq

inductive Stop where
  | returned (failure : ProrationFailure)
  | thrown (error : Raised)
  | error (message : String)
  deriving DecidableEq

abbrev Call := Except Stop

/-- What is left of the current period. Costs use the milliseconds; `percentage` is not a number in an empty period. -/
structure RemainingTime where
  days : Int
  percentage : Option ℚ
  remainingMs : Int
  totalPeriodMs : Int
  deriving DecidableEq

inductive ProrationBehavior where
  | createProrations
  | none
  | alwaysInvoice
  deriving DecidableEq

structure ProrationOptions where
  effectiveDate : Option Instant
  prorationBehavior : ProrationBehavior

structure ProrationCosts where
  unusedCredit : Money
  newPlanProrated : Money
  immediateCharge : Money
  nextInvoiceTotal : Money
  deriving DecidableEq

structure ProrationCalculation where
  currentPlan : Plan
  newPlan : Plan
  subscription : Subscription
  remainingTime : RemainingTime
  costs : ProrationCosts
  effectiveDate : Instant

variable (host : Host)

def planPrice (plan : Plan) : Call Money :=
  (Money.fromMinor host.table plan.priceMinor (host.toUpperCase plan.currency)).mapError .thrown

def calculateRemainingTime (subscription : Subscription) (effective : Instant) : Call RemainingTime :=
  let currentPeriodStart := subscription.currentPeriodStart
  let currentPeriodEnd := subscription.currentPeriodEnd
  -- an empty stored period has no time to split, so no date is inside it
  if !isBefore currentPeriodStart currentPeriodEnd || isBefore effective currentPeriodStart ||
      isAfter effective currentPeriodEnd then
    .error (.returned (.effectiveDateOutsidePeriod subscription.id (host.toISO effective) (host.toISO currentPeriodStart)
      (host.toISO currentPeriodEnd)))
  else
    let totalPeriodMs := minusMs (toMillis currentPeriodEnd) (toMillis currentPeriodStart)
    let remainingMs := minusMs (toMillis currentPeriodEnd) (toMillis effective)
    let days := ⌈quotient remainingMs (1000 * 60 * 60 * 24)⌉
    let hundredths := Double.round (Double.round (quotient remainingMs totalPeriodMs * 100) * 100)
    let percentage := if totalPeriodMs = 0 then .none else some (quotient ⌊hundredths + 1 / 2⌋ 100)
    .ok ⟨days, percentage, remainingMs, totalPeriodMs⟩

def remainingShare (price : Money) (remainingTime : RemainingTime) : Call Money := do
  let parts ← (price.allocate [.number (.whole remainingTime.remainingMs),
    .number (.whole (minusMs remainingTime.totalPeriodMs remainingTime.remainingMs))] .none).mapError fun error => .thrown (.math error)
  match parts.head? with
  | some remaining => return remaining
  | .none => throw (.error "allocate returned no parts")

def calculateProrationCosts (currentPlan newPlan : Plan) (remainingTime : RemainingTime) (prorationBehavior : ProrationBehavior) :
    Call ProrationCosts := do
  let currentPrice ← planPrice host currentPlan
  let newPrice ← planPrice host newPlan
  -- plans in two currencies were refused, so a credit always meets a charge in one currency
  let zero := Money.zero newPrice.currency
  let currentPlanProrated ← remainingShare currentPrice remainingTime
  let newPlanProrated ← remainingShare newPrice remainingTime
  match prorationBehavior with
  | .createProrations =>
    let difference ← (newPlanProrated.minus currentPlanProrated).mapError .thrown
    let immediateCharge ← (Money.max zero [difference]).mapError .thrown
    return ⟨currentPlanProrated, newPlanProrated, immediateCharge, newPrice⟩
  | .none => return ⟨zero, newPlanProrated, zero, newPrice⟩
  | .alwaysInvoice => return ⟨zero, newPlanProrated, newPlanProrated, newPrice⟩

def calculateProration (reads : ProrationReads) (subscriptionId newPlanId : String) (options : ProrationOptions) :
    Call ProrationCalculation := do
  let some (subscription, currentPlan) := reads.findSubscriptionById subscriptionId
    | throw (.returned (.referenceNotFound "subscription" subscriptionId "row"))
  let some newPlan := reads.findPlanById newPlanId
    | throw (.returned (.referenceNotFound "plan" newPlanId "row"))
  if !newPlan.isActive then throw (.returned (.planInactive newPlanId))
  if currentPlan.currency ≠ newPlan.currency then
    throw (.returned (.planCurrencyMismatch currentPlan.id newPlanId currentPlan.currency newPlan.currency))
  let effectiveDate := options.effectiveDate.getD host.now
  let remainingTime ← calculateRemainingTime host subscription effectiveDate
  let costs ← calculateProrationCosts host currentPlan newPlan remainingTime options.prorationBehavior
  return ⟨currentPlan, newPlan, subscription, remainingTime, costs, effectiveDate⟩

def chargeMoves (remainingTime : RemainingTime) (currentPlan : Plan) : List Plan → Call ℚ
  | [] => return 0
  | newPlan :: moves => do
    let costs ← calculateProrationCosts host currentPlan newPlan remainingTime .createProrations
    return costs.immediateCharge.units.value + (← chargeMoves remainingTime newPlan moves)

end Arki.Proration
