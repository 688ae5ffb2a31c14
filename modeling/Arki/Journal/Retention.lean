import Arki.Journal.Tables

/-! How long a finished job's archive row is kept. The settings stand here as
`resolveRetention` and `parseKeep` leave them: an age is in milliseconds, and a bad
one stopped the journal at its start.
-/

set_option autoImplicit false

namespace Arki.Journal

inductive ResolvedKeep where
  | dropped
  | stored (ageMs : Option Nat) (untilExported : Bool) (max : Option Nat)
  deriving DecidableEq, Repr

structure EffectRetention where
  completed : Option ResolvedKeep
  dead : Option ResolvedKeep
  retryableForMs : Option Nat
  deriving DecidableEq, Repr

structure ResolvedRetention where
  retryableForMs : Nat
  completed : ResolvedKeep
  dead : ResolvedKeep
  deriving DecidableEq, Repr

/-- `dead`, `discarded` and `cancelled` share the `dead` class. -/
def keepFor (policy : ResolvedRetention) (outcome : ArchiveOutcome) (override : Option EffectRetention) :
    ResolvedKeep :=
  match outcome with
  | .completed => (override.bind (·.completed)).getD policy.completed
  | .dead | .discarded | .cancelled => (override.bind (·.dead)).getD policy.dead

def keepUntil (ageMs : Option Nat) (now : Nat) : Option Nat := ageMs.map (now + ·)

def retryableForMs (policy : ResolvedRetention) (override : Option EffectRetention) : Nat :=
  (override.bind (·.retryableForMs)).getD policy.retryableForMs

/-- Completed jobs for 7 days, the others for 90, and a dead job is retryable for 30. -/
def defaultRetention : ResolvedRetention where
  retryableForMs := 2592000000
  completed := .stored (some 604800000) false none
  dead := .stored (some 7776000000) false none

end Arki.Journal
