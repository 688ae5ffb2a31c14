import Mathlib.Data.List.SplitBy
import Arki.Library.Run

/-! `debounce` and `throttle`: one schedule of calls, driven by the calls and by the expiry of its timer. -/

set_option autoImplicit false

namespace Arki.Async.Scheduling

open Arki.Run

structure AsyncError where
  code : String
  message : String
  remediation : String

def maxWaitMs : Int := 2147483647

def invalidWait (fn name : String) (value : Int) : AsyncError where
  code := "ARKI_ASYNC_E001"
  message := "ARKI_ASYNC_E001: " ++ fn ++ "() needs " ++ name ++ " to be a number from 0 to " ++ toString maxWaitMs ++ " milliseconds, got " ++ toString value
  remediation := "Pass a finite " ++ name ++ " between 0 and " ++ toString maxWaitMs ++
    ". For longer waits, schedule again when the timer fires."

def isValidWait (value : Int) : Bool := decide (0 ≤ value) && decide (value ≤ maxWaitMs)

def assertWait (fn name : String) (value : Int) : Except AsyncError Unit :=
  if isValidWait value then .ok () else .error (invalidWait fn name value)

/-- What a schedule closes over. Times and waits are whole milliseconds. -/
structure Schedule where
  wait : Int
  leading : Bool
  trailing : Bool
  maxWait : Option Int

def Schedule.longest (options : Schedule) : Option Int := options.maxWait.map (max · options.wait)

def schedule (name : String) (wait : Int) (leading trailing : Bool) (maxWait : Option Int) : Except AsyncError Schedule := do
  assertWait name "wait" wait
  match maxWait with
  | none => pure ()
  | some maxWait => assertWait name "maxWait" maxWait
  return ⟨wait, leading, trailing, maxWait⟩

def debounce (wait : Int) (leading trailing : Option Bool) (maxWait : Option Int) : Except AsyncError Schedule :=
  schedule "debounce" wait (leading.getD false) (trailing.getD true) maxWait

def throttle (wait : Int) (leading trailing : Option Bool) : Except AsyncError Schedule :=
  schedule "throttle" wait (leading.getD true) (trailing.getD true) (some wait)

section Machine

variable {Args : Type}

/-- `timer` is the time the running timer is due. -/
structure Scheduled (Args : Type) where
  lastArgs : Option Args
  timer : Option Int
  lastCallTime : Option Int
  lastInvokeTime : Int

/-- A call of the scheduled function, or of `fn`. -/
structure Call (Args : Type) where
  time : Int
  args : Args
  deriving DecidableEq

namespace Scheduled

def start : Scheduled Args := ⟨none, none, none, 0⟩

def invoke (state : Scheduled Args) (time : Int) : Scheduled Args × Option (Call Args) :=
  ({ state with lastArgs := none, lastInvokeTime := time }, state.lastArgs.map (⟨time, ·⟩))

def remaining (options : Schedule) (state : Scheduled Args) (time : Int) : Int :=
  let waiting := options.wait - (time - state.lastCallTime.getD time)
  match options.longest with
  | none => waiting
  | some longest => min waiting (longest - (time - state.lastInvokeTime))

def shouldInvoke (options : Schedule) (state : Scheduled Args) (time : Int) : Bool :=
  match state.lastCallTime with
  | none => true
  | some last =>
    decide (time - last ≥ options.wait) || decide (time - last < 0) ||
      options.longest.any fun longest => decide (time - state.lastInvokeTime ≥ longest)

def trailingEdge (options : Schedule) (state : Scheduled Args) (time : Int) : Scheduled Args × Option (Call Args) :=
  if options.trailing && state.lastArgs.isSome then invoke { state with timer := none } time
  else ({ state with timer := none, lastArgs := none }, none)

def expired (options : Schedule) (state : Scheduled Args) (time : Int) : Scheduled Args × Option (Call Args) :=
  if state.shouldInvoke options time then state.trailingEdge options time
  else ({ state with timer := some (time + state.remaining options time) }, none)

def called (options : Schedule) (state : Scheduled Args) (time : Int) (args : Args) : Scheduled Args × Option (Call Args) :=
  let noted : Scheduled Args := { state with lastArgs := some args, lastCallTime := some time }
  if state.shouldInvoke options time && state.timer.isNone then
    let begun : Scheduled Args := { noted with lastInvokeTime := time, timer := some (time + options.wait) }
    if options.leading then begun.invoke time else (begun, none)
  else if state.shouldInvoke options time && options.longest.isSome then
    { noted with timer := some (time + options.wait) }.invoke time
  else ({ noted with timer := some (state.timer.getD (time + options.wait)) }, none)

end Scheduled

structure World (Args : Type) where
  now : Int
  state : Scheduled Args
  calls : List (Call Args)
  invoked : List (Call Args)

inductive Action (Args : Type) where
  | call (time : Int) (args : Args)
  | expire

def World.start (now : Int) : World Args := ⟨now, .start, [], []⟩

def World.IsQuiet (world : World Args) : Prop := world.state.timer = none

/-- Time does not go back, and a timer fires when it is due, ahead of the calls of that time. -/
def World.step (options : Schedule) (world : World Args) : Action Args → Option (World Args)
  | .call time args =>
    if world.now ≤ time ∧ ∀ due ∈ world.state.timer, time < due then
      let after := world.state.called options time args
      some ⟨time, after.1, world.calls ++ [⟨time, args⟩], world.invoked ++ after.2.toList⟩
    else none
  | .expire =>
    world.state.timer.map fun due =>
      let after := world.state.expired options due
      ⟨due, after.1, world.calls, world.invoked ++ after.2.toList⟩

/-- The maximal bursts of calls less than `wait` apart. -/
def bursts (wait : Int) (calls : List (Call Args)) : List (List (Call Args)) :=
  calls.splitBy fun first second => decide (second.time - first.time < wait)

/-- The invocation a burst is due: `wait` after its last call, with its arguments. -/
def answer (wait : Int) (burst : List (Call Args)) : Option (Call Args) :=
  burst.getLast?.map fun last => ⟨last.time + wait, last.args⟩

end Machine

end Arki.Async.Scheduling
