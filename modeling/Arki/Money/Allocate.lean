import Arki.Money.Decimal

/-! Splitting an amount by ratios into parts that add back to it. -/

set_option autoImplicit false
set_option linter.dupNamespace false

namespace Arki.Money

open Arki (Double)
open Arki.Math (MathError Checked JsNumber)

structure Currency where
  code : String
  numeric : Option String
  scale : Nat
  iso : Bool
  deriving DecidableEq

structure Money where
  units : Units
  scale : Nat
  currency : Currency
  deriving DecidableEq

inductive RemainderPolicy where
  | largest
  | first
  | last
  deriving DecidableEq

/-- A ratio; the number `-0` is told apart from `0`. -/
inductive Ratio where
  | number (value : JsNumber)
  | negZero
  | bigint (value : Int)
  | text (value : String)
  deriving DecidableEq

def Ratio.spelling : Ratio → String
  | number value => value.spelling
  | negZero => "0"
  | bigint value => toString value
  | text value => value

def wholeWeight : Ratio → Option Units
  | .number (.whole value) => if Math.isSafeInteger value && 0 ≤ value then some (.number (.of value)) else none
  | .negZero => some (.number .negZero)
  | _ => none

def parseRatio : Ratio → Checked Parsed
  | .number value => orRaise (parseNumber value)
  | .negZero => .ok ⟨.number (.of 0), 0⟩
  | .bigint value => .ok ⟨canon value, 0⟩
  | .text value => orRaise (parseDecimal value.toList)

def readRatio (ratio : Ratio) : Checked Parsed := do
  let parsed ← parseRatio ratio
  if parsed.coefficient.value < 0 then
    throw (.invalidArgument ("Ratios must not be negative, got " ++ ratio.spelling))
  return parsed

def scaledWeights (ratios : List Ratio) : Checked (List Units) := do
  let parsed ← ratios.mapM readRatio
  let common := parsed.foldl (fun common one => max common one.fraction) 0
  if 0 < common then parsed.mapM fun one => mulUnits one.coefficient (pow10 (common - one.fraction))
  else return parsed.map Parsed.coefficient

def ratioWeights (ratios : List Ratio) : Checked (List Units) :=
  match ratios.mapM wholeWeight with
  | some weights => .ok weights
  | none => scaledWeights ratios

def isZero : Units → Bool
  | .number value => value.value = 0
  | .bigint _ => false

/-- `===`. -/
def sameUnits : Units → Units → Bool
  | .number a, .number b => a.value = b.value
  | .bigint a, .bigint b => a = b
  | _, _ => false

def divide (magnitude weight total : Units) : Checked (Units × Units) :=
  let big := do
    let exact ← mulUnits magnitude weight
    let share ← mulDiv exact (.number (.of 1)) total (some .down)
    let rest ← addUnits exact (negUnits (← mulUnits share total))
    return (share, rest)
  match magnitude, weight, total with
  | .number magnitude, .number weight, .number total =>
    let product := magnitude.mul weight
    if product.value ≤ maxSafe then
      let rest := product.rem total
      .ok (.number ((product.sub rest).div total), .number rest)
    else big
  | _, _, _ => big

/-- The variables of the first loop of `distribute`. -/
structure Dealt where
  shares : List Units
  firstRest : Units
  rests : Option (List Units)
  given : Units

def Dealt.start : Dealt := ⟨[], .number (.of 0), none, .number (.of 0)⟩

def deal (magnitude total : Units) (dealt : Dealt) (weight : Units) : Checked Dealt := do
  let (share, rest) ← divide magnitude weight total
  let given ← addUnits dealt.given share
  let shares := dealt.shares ++ [share]
  if dealt.shares = [] then return { dealt with shares, given, firstRest := rest }
  else
    match dealt.rests with
    | some rests => return { dealt with shares, given, rests := some (rests ++ [rest]) }
    | none =>
      if sameUnits rest dealt.firstRest then return { dealt with shares, given }
      else
        let before := List.replicate dealt.shares.length dealt.firstRest
        return { dealt with shares, given, rests := some (before ++ [rest]) }

def weighted (weights : List Units) : List Nat :=
  (List.range weights.length).filter fun index => !isZero (weights.getD index (.number (.of 0)))

def byRest (rests : List Units) (x y : Nat) : Bool :=
  match compareUnits (rests.getD y (.number (.of 0))) (rests.getD x (.number (.of 0))) with
  | .lt => true
  | .eq => x ≤ y
  | .gt => false

def topUp : List Nat → List Units → Int → Checked (List Units)
  | [], shares, _ => .ok shares
  | index :: order, shares, left =>
    if left ≤ 0 then .ok shares
    else do
      let more ← addUnits (shares.getD index (.number (.of 0))) (.number (.of 1))
      topUp order (shares.set index more) (left - 1)

def topUpOrder (weights : List Units) (rests : Option (List Units)) (policy : RemainderPolicy) : List Nat :=
  match policy, rests with
  | .largest, some rests => (weighted weights).mergeSort (byRest rests)
  | .last, _ => (weighted weights).reverse
  | _, _ => weighted weights

def distribute (whole : Money) (weights : List Units) (total : Units) (policy : RemainderPolicy) : Checked (List Money) := do
  let negative := whole.units.value < 0
  let magnitude := if negative then negUnits whole.units else whole.units
  let dealt ← weights.foldlM (deal magnitude total) .start
  -- fewer than the number of parts are left
  let left ← addUnits magnitude (negUnits dealt.given)
  let shares ← topUp (topUpOrder weights dealt.rests policy) dealt.shares left.big
  return shares.map fun share => ⟨if negative then negUnits share else share, whole.scale, whole.currency⟩

def Money.allocate (this : Money) (ratios : List Ratio) (remainder : Option RemainderPolicy) : Checked (List Money) := do
  if ratios = [] then throw (.invalidArgument "allocate needs at least one ratio")
  if maxParts < ratios.length then
    throw (.resourceLimit ("allocate makes at most " ++ toString maxParts ++ " parts"))
  let weights ← ratioWeights ratios
  let total ← weights.foldlM addUnits (.number (.of 0))
  if isZero total then throw (.invalidArgument "Ratios must not all be zero")
  distribute this weights total (remainder.getD .largest)

end Arki.Money
