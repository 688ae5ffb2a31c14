import Mathlib.Data.List.Basic

/-! The app of a server process over hot updates: a chain of module instances, each of which hands the app over to the next.

A synchronous section of the source is one step. The hand-over promise is what a module leaves in `hot.data`.
-/

set_option autoImplicit false

namespace Arki.Dot

inductive StartPhase where
  | waiting
  /-- `app.start()` is called. -/
  | starting
  /-- `onStarted` threw, and the app is disposed. -/
  | undoing
  | answered (started : Bool)
  /-- The continuation in `get` has seen the answer. -/
  | finished (started : Bool)
  deriving DecidableEq

/-- One call of `start`, with the history of its app. -/
structure Start where
  phase : StartPhase
  /-- `app.start()` was called. -/
  called : Bool
  started : Bool
  /-- Calls of the app's `dispose`. -/
  disposals : Nat
  /-- Whether the resources are gone, once that is known. -/
  released : Option Bool
  deriving DecidableEq

/-- The app may hold resources. -/
def Start.mayHold (start : Start) : Bool := start.called && start.released != some true

inductive Handover where
  | waiting
  | awaiting (start : Nat)
  | disposing (start : Nat)
  /-- `gone` for `undefined`, the outcome that the next module takes for a release. -/
  | settled (gone : Bool)
  deriving DecidableEq

structure Module where
  /-- `previousGone`, once it has settled: no failure. -/
  previous : Option Bool
  running : Option Nat
  replaced : Bool
  releaseFailure : Bool
  starts : List Start
  /-- `running` as the dispose callback found it. -/
  current : Option Nat
  handover : Option Handover
  deriving DecidableEq

/-- What `app.start()` came to. -/
inductive StartAnswer where
  | app (onStartedThrows : Bool)
  /-- `cleanupFailed` of the outcome. -/
  | failure (cleanupFailed : Bool)
  | throws
  deriving DecidableEq

inductive ModuleAction where
  | get
  | hotDispose
  | previousGone (gone : Bool)
  | resume (start : Nat)
  | appAnswers (start : Nat) (answer : StartAnswer)
  /-- The disposal after `onStarted` threw. -/
  | undone (start : Nat) (released : Bool)
  | clear (start : Nat)
  | handoverResume
  | handoverCurrent
  | handoverDisposed (released : Bool)
  deriving DecidableEq

def Module.new : Module := ⟨none, none, false, false, [], none, none⟩

def Module.setStart (module_ : Module) (index : Nat) (start : Start) : Module :=
  { module_ with starts := module_.starts.set index start }

/-- `get`: the start under way, or a new one. -/
def Module.get (module_ : Module) : Module :=
  if module_.replaced then module_
  else
    match module_.running with
    | some _ => module_
    | none => { module_ with
        running := some module_.starts.length
        starts := module_.starts ++ [⟨.waiting, false, false, 0, none⟩] }

/-- `start` after its first await. -/
def Module.resume (module_ : Module) (index : Nat) (start : Start) (gone : Bool) : Module :=
  if !gone || module_.releaseFailure || module_.replaced then module_.setStart index { start with phase := .answered false }
  else module_.setStart index { start with phase := .starting, called := true }

def Module.appAnswers (module_ : Module) (index : Nat) (start : Start) : StartAnswer → Module
  | .app false => module_.setStart index { start with phase := .answered true, started := true }
  | .app true =>
    module_.setStart index { start with phase := .undoing, started := true, disposals := start.disposals + 1 }
  | .failure cleanupFailed =>
    { module_.setStart index { start with phase := .answered false, released := some !cleanupFailed } with
      releaseFailure := module_.releaseFailure || cleanupFailed }
  | .throws =>
    -- nothing proves that a thrown start rolled back
    { module_.setStart index { start with phase := .answered false, released := some false } with releaseFailure := true }

def Module.handoverResume (module_ : Module) (gone : Bool) : Handover :=
  if !gone then .settled false
  else if module_.releaseFailure then .settled false
  else
    match module_.current with
    | none => .settled true
    | some start => .awaiting start

def Module.step (module_ : Module) : ModuleAction → Option Module
  | .get => some module_.get
  | .hotDispose =>
    if module_.replaced then none
    else some { module_ with replaced := true, current := module_.running, running := none, handover := some .waiting }
  | .previousGone gone => if module_.previous = none then some { module_ with previous := some gone } else none
  | .resume index =>
    match module_.starts[index]?, module_.previous with
    | some start, some gone => if start.phase = .waiting then some (module_.resume index start gone) else none
    | _, _ => none
  | .appAnswers index answer =>
    match module_.starts[index]? with
    | some start => if start.phase = .starting then some (module_.appAnswers index start answer) else none
    | none => none
  | .undone index released =>
    match module_.starts[index]? with
    | some start =>
      if start.phase = .undoing then
        some { module_.setStart index { start with phase := .answered false, released := some released } with
          releaseFailure := module_.releaseFailure || !released }
      else none
    | none => none
  | .clear index =>
    match module_.starts[index]? with
    | some start =>
      match start.phase with
      | .answered true => some (module_.setStart index { start with phase := .finished true })
      | .answered false => some { module_.setStart index { start with phase := .finished false } with running := none }
      | _ => none
    | none => none
  | .handoverResume =>
    match module_.handover, module_.previous with
    | some .waiting, some gone => some { module_ with handover := some (module_.handoverResume gone) }
    | _, _ => none
  | .handoverCurrent =>
    match module_.handover with
    | some (.awaiting index) =>
      match module_.starts[index]? with
      | some start =>
        match start.phase with
        | .finished true =>
          some { module_.setStart index { start with disposals := start.disposals + 1 } with handover := some (.disposing index) }
        | .finished false => some { module_ with handover := some (.settled !module_.releaseFailure) }
        | _ => none
      | none => none
    | _ => none
  | .handoverDisposed released =>
    match module_.handover with
    | some (.disposing index) =>
      match module_.starts[index]? with
      | some start =>
        some { module_.setStart index { start with released := some released } with handover := some (.settled released) }
      | none => none
    | _ => none

inductive Action where
  /-- The module runs: after its predecessor's dispose callback, if it has one. -/
  | create (eager : Bool)
  | at_ (index : Nat) (action : ModuleAction)
  deriving DecidableEq

def left (modules : List Module) (index : Nat) : Option Bool :=
  match index with
  | 0 => some true
  | index + 1 =>
    match (modules[index]?).bind Module.handover with
    | some (.settled gone) => some gone
    | _ => none

def step (modules : List Module) : Action → Option (List Module)
  | .create eager =>
    if modules.getLast?.all Module.replaced then some (modules ++ [if eager then Module.new.get else Module.new]) else none
  | .at_ index action =>
    match modules[index]? with
    | none => none
    | some module_ =>
      match action with
      | .previousGone gone =>
        if left modules index = some gone then (module_.step (.previousGone gone)).map (modules.set index) else none
      | action => (module_.step action).map (modules.set index)

end Arki.Dot
