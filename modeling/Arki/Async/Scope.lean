import Mathlib.Data.List.Basic

/-! One scope: what it admits, how its work settles, and how it closes.

A synchronous section of the source is one step. A callback that runs inside one, such as a listener of the signal, calls the
scope after the state has changed, so its calls are steps of their own. Failures are compared as objects.
-/

set_option autoImplicit false

namespace Arki.Async

inductive Entry where
  | acquisition (number : Nat)
  | cleanup (number : Nat)
  deriving DecidableEq

inductive Acquisition where
  | pending
  | opened
  | refused
  deriving DecidableEq

section

variable (F : Type)

inductive Outcome where
  | value
  | single (failure : F)
  | scopeFailed (primary cleanup : List F)
  deriving DecidableEq

/-- The promise of `quiesce`. -/
inductive Quieting where
  | called
  /-- It waits for as many children and acquisitions as there were. -/
  | joining (children acquisitions : Nat)
  | settled (outcome : Outcome F)
  deriving DecidableEq

/-- The promise of `close`. -/
inductive Closing where
  | waiting
  | finalizing (index : Nat) (running : Bool)
  | unwatching (watch : Nat) (running : Bool)
  | done (outcome : Outcome F)
  deriving DecidableEq

structure Watch where
  notified : Bool
  closed : Bool
  deriving DecidableEq

structure Scope where
  admission : Bool
  /-- `controller.signal.aborted`; the reason is always the scope's own. -/
  aborted : Bool
  primary : List F
  cleanupFailures : List F
  finalizers : List Entry
  children : List Bool
  acquisitions : List Acquisition
  deferred : Nat
  watches : List Watch
  quieting : Option (Quieting F)
  closing : Option (Closing F)
  registered : List Entry
  finalized : List Entry
  reported : List F
  deriving DecidableEq

end

variable {F : Type}

def finish (primary cleanup : List F) : Outcome F :=
  match primary, cleanup with
  | [], [] => .value
  | [failure], [] => .single failure
  | [], [failure] => .single failure
  | primary, cleanup => .scopeFailed primary cleanup

def Outcome.members : Outcome F → List F
  | .value => []
  | .single failure => [failure]
  | .scopeFailed primary cleanup => primary ++ cleanup

theorem members_finish (primary cleanup : List F) : (finish primary cleanup).members = primary ++ cleanup := by
  unfold finish
  split <;> simp [Outcome.members]

def Scope.start : Scope F where
  admission := true
  aborted := false
  primary := []
  cleanupFailures := []
  finalizers := []
  children := []
  acquisitions := []
  deferred := 0
  watches := [⟨false, false⟩, ⟨false, false⟩]
  quieting := none
  closing := none
  registered := []
  finalized := []
  reported := []

def Scope.accepting (scope : Scope F) : Bool := scope.admission && !scope.aborted

def Scope.abort [DecidableEq F] (isOwned : F → Bool) (scope : Scope F) (failure : F) : Scope F :=
  if isOwned failure then scope
  else { scope with
    primary := if failure ∈ scope.primary then scope.primary else scope.primary ++ [failure]
    aborted := true
    reported := scope.reported ++ [failure] }

/-- `undefined` for the scope's own reason thrown after it aborted, else the defect that wraps the error. -/
def Scope.normalize (scope : Scope F) (isOwnReason : Bool) (defect : F) : Option F :=
  if scope.aborted && isOwnReason then none else some defect

def Scope.register (scope : Scope F) (entry : Entry) : Scope F :=
  { scope with finalizers := scope.finalizers ++ [entry], registered := scope.registered ++ [entry] }

def Scope.quiesce (scope : Scope F) : Scope F :=
  match scope.quieting with
  | some _ => scope
  | none => { scope with admission := false, quieting := some .called, aborted := true }

def Scope.close (scope : Scope F) : Scope F :=
  match scope.closing with
  | some _ => scope
  | none => { scope.quiesce with closing := some .waiting }

def Scope.retain (scope : Scope F) (failure : Option F) : Scope F :=
  { scope with
    cleanupFailures := scope.cleanupFailures ++ failure.toList
    reported := scope.reported ++ failure.toList }

inductive Action (F : Type) where
  | acquire
  | opened (number : Nat)
  | acquireRefused (number : Nat) (failure : F)
  | acquireThrows (number : Nat) (isOwnReason : Bool) (defect : F)
  | defer
  | fork
  | childReturns (number : Nat) (failure : Option F)
  | childThrows (number : Nat) (isOwnReason : Bool) (defect : F)
  | fail (failure : F)
  | notify (watch : Nat) (failure : F)
  | registrationFails (watch : Nat) (defect : F)
  | quiesce
  | close
  /-- The microtask of `quiesce` lists what to join. -/
  | list
  | join
  | proceed
  | startFinalizer
  | endFinalizer (failure : Option F)
  | startUnwatch
  | endUnwatch (failure : Option F)
  | end_
  deriving DecidableEq

def Scope.settle (scope : Scope F) (number : Nat) : Scope F := { scope with children := scope.children.set number true }

def Scope.setAcquisition (scope : Scope F) (number : Nat) (acquisition : Acquisition) : Scope F :=
  { scope with acquisitions := scope.acquisitions.set number acquisition }

def Scope.setWatch (scope : Scope F) (number : Nat) (watch : Watch) : Scope F :=
  { scope with watches := scope.watches.set number watch }

def step [DecidableEq F] (isOwned : F → Bool) (scope : Scope F) : Action F → Option (Scope F)
  | .acquire =>
    some (if scope.accepting then { scope with acquisitions := scope.acquisitions ++ [.pending] } else scope)
  | .opened number =>
    if scope.acquisitions[number]? = some .pending then
      -- even late resources stay until every admitted child has joined
      some ((scope.setAcquisition number .opened).register (.acquisition number))
    else none
  | .acquireRefused number failure =>
    if scope.acquisitions[number]? = some .pending then
      some ((scope.setAcquisition number .refused).abort isOwned failure)
    else none
  | .acquireThrows number isOwnReason defect =>
    if scope.acquisitions[number]? = some .pending then
      let settled := scope.setAcquisition number .refused
      match scope.normalize isOwnReason defect with
      | some failure => some (settled.abort isOwned failure)
      | none => some settled
    else none
  | .defer =>
    some (if scope.accepting then { scope.register (.cleanup scope.deferred) with deferred := scope.deferred + 1 } else scope)
  | .fork => some (if scope.accepting then { scope with children := scope.children ++ [false] } else scope)
  | .childReturns number failure =>
    if scope.children[number]? = some false then
      match failure with
      | some failure =>
        if isOwned failure && scope.aborted then some (scope.settle number)
        else some ((scope.settle number).abort isOwned failure)
      | none => some (scope.settle number)
    else none
  | .childThrows number isOwnReason defect =>
    if scope.children[number]? = some false then
      match scope.normalize isOwnReason defect with
      | some failure => some ((scope.settle number).abort isOwned failure)
      | none => some (scope.settle number)
    else none
  | .fail failure => some (scope.abort isOwned failure)
  | .notify number failure =>
    match scope.watches[number]? with
    | some ⟨false, false⟩ => some ((scope.setWatch number ⟨true, false⟩).abort isOwned failure)
    | _ => none
  | .registrationFails number defect =>
    match scope.watches[number]? with
    | some ⟨_, false⟩ => some (scope.abort isOwned defect)
    | _ => none
  | .quiesce => some scope.quiesce
  | .close => some scope.close
  | .list =>
    match scope.quieting with
    | some .called => some { scope with quieting := some (.joining scope.children.length scope.acquisitions.length) }
    | _ => none
  | .join =>
    match scope.quieting with
    | some (.joining children acquisitions) =>
      if (scope.children.take children).all id && (scope.acquisitions.take acquisitions).all (· ≠ .pending) then
        some { scope with quieting := some (.settled (finish scope.primary [])) }
      else none
    | _ => none
  | .proceed =>
    match scope.closing, scope.quieting with
    | some .waiting, some (.settled _) =>
      some { scope with closing := some (.finalizing 0 false), finalizers := scope.finalizers.reverse }
    | _, _ => none
  | .startFinalizer =>
    match scope.closing with
    | some (.finalizing index false) =>
      match scope.finalizers[index]? with
      | some entry => some { scope with closing := some (.finalizing index true), finalized := scope.finalized ++ [entry] }
      | none => some { scope with closing := some (.unwatching 0 false) }
    | _ => none
  | .endFinalizer failure =>
    match scope.closing with
    | some (.finalizing index true) => some { scope.retain failure with closing := some (.finalizing (index + 1) false) }
    | _ => none
  | .startUnwatch =>
    match scope.closing with
    | some (.unwatching number false) =>
      match scope.watches[number]? with
      | some watch => some { scope.setWatch number { watch with closed := true } with closing := some (.unwatching number true) }
      | none => none
    | _ => none
  | .endUnwatch failure =>
    match scope.closing with
    | some (.unwatching number true) => some { scope.retain failure with closing := some (.unwatching (number + 1) false) }
    | _ => none
  | .end_ =>
    match scope.closing with
    | some (.unwatching number false) =>
      if number = scope.watches.length then
        some { scope with closing := some (.done (finish scope.primary scope.cleanupFailures)) }
      else none
    | _ => none

-- a scope that is not closing has nothing to finalize
example [DecidableEq F] (isOwned : F → Bool) (scope : Scope F) (isOpen : scope.closing = none) :
    step isOwned scope .startFinalizer = none := by
  simp only [step, isOpen]

end Arki.Async
