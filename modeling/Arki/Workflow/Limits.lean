import Mathlib.Data.String.Basic
import Mathlib.Data.Prod.Lex
import Arki.Library.Ordered
import Arki.Workflow.Definition

/-! Named limits: what an operator changed, and the start gate's reads.

A transaction that writes holds the append lock from its first write to its commit, so the limit
locks that the gate takes inside it are always free, and left out.
-/

set_option autoImplicit false

namespace Arki.Workflow

open Arki.Journal (Value)

/-- The `perKey` of one key, until a time. -/
structure KeyOverride where
  perKey : Nat
  until_ : Nat
  deriving DecidableEq

abbrev KeyOverrides := AList fun _ : String => KeyOverride

/-- One row of `journal_limits`. A limit that nobody changed has none. -/
structure LimitRow where
  paused : Bool
  total : Option Nat
  perKey : Option Nat
  keys : KeyOverrides

inductive LimitEvent where
  | limitOverridden (total perKey : Option Nat)
  | limitKeyOverridden (key : String) (perKey until_ : Nat) (expired : List String)
  | limitReset (key : Option String)
  | limitPaused
  | limitResumed
  deriving DecidableEq

namespace LimitRow

def unchanged : LimitRow := ⟨false, none, none, ∅⟩

def keyed (keys : KeyOverrides) (key : String) (perKey until_ : Nat) (expired : List String) : KeyOverrides :=
  (expired.foldl (fun kept gone => kept.erase gone) keys).insert key ⟨perKey, until_⟩

/-- A value that the event leaves out keeps what the row has. The events that create a row start from
`unchanged`; a reset and a resume are only written on a row that is there. -/
def on (row : LimitRow) : LimitEvent → LimitRow
  | .limitOverridden total perKey => { row with total := total <|> row.total, perKey := perKey <|> row.perKey }
  | .limitKeyOverridden key perKey until_ expired => { row with keys := keyed row.keys key perKey until_ expired }
  | .limitReset none => { row with total := none, perKey := none, keys := ∅ }
  | .limitReset (some key) => { row with keys := row.keys.erase key }
  | .limitPaused => { row with paused := true }
  | .limitResumed => { row with paused := false }

end LimitRow

def liveKeyOverride (keys : KeyOverrides) (key : String) (now : Nat) : Option KeyOverride :=
  (keys.lookup key).filter fun found => now < found.until_

def expiredKeys (keys : KeyOverrides) (now : Nat) : List String :=
  keys.keys.filter fun key => (liveKeyOverride keys key now).isNone

/-- One limit that a start holds, with its code values. A workflow's own limit counts the runs of that
workflow by name; a shared one counts the runs whose `limits` name it. -/
structure HeldLimit where
  name : String
  total : Option Nat
  perKey : Option Nat
  workflow : Option String
  deriving DecidableEq

def workflowLimitName (workflow : String) : String := "workflow/" ++ workflow

def LimitDef.held (shared : LimitDef) : HeldLimit := ⟨shared.name, shared.total, shared.perKey, none⟩

namespace WorkflowDef

def sharedLimits (def_ : WorkflowDef) : List LimitDef := (def_.concurrency.map (·.shared)).getD []

def ownLimit (def_ : WorkflowDef) : HeldLimit where
  name := workflowLimitName def_.name
  total := def_.concurrency.bind (·.total)
  perKey := def_.concurrency.bind (·.limit)
  workflow := some def_.name

def heldLimits (def_ : WorkflowDef) : List HeldLimit :=
  Ordered.inOrder (·.name) (def_.ownLimit :: def_.sharedLimits.map LimitDef.held)

end WorkflowDef

structure Gate where
  runs : List Row
  limits : String → Option LimitRow

/-- What blocks a start. `perKey` says that the count of the start's key is the one that is full. -/
structure LimitBlock where
  limit : HeldLimit
  reason : BusyReason
  perKey : Bool
  value : Nat
  deriving DecidableEq

/-- A start as the gate sees it. Only the pause of its own limit applies to one that is not gated. -/
structure GateStart where
  held : List HeldLimit
  key : Option String
  gated : Bool

def HeldLimit.holds (limit : HeldLimit) (row : Row) : Bool :=
  match limit.workflow with
  | none => row.limits.contains limit.name
  | some workflow => row.name = workflow

/-- An unfinished run that holds the limit, with the key when there is one. A queued run holds no slot. -/
def HeldLimit.holding (limit : HeldLimit) (key : Option String) (row : Row) : Bool :=
  row.finishedAt.isNone && row.state ≠ .queued && limit.holds row && (key.isNone || row.concurrencyKey = key)

structure LimitCheck where
  limit : HeldLimit
  perKey : Bool
  value : Nat
  deriving DecidableEq

namespace Gate

variable (gate : Gate)

/-- Whether `value` runs hold the limit already. The count stops there. -/
def full (limit : HeldLimit) (key : Option String) (value : Nat) : Bool :=
  value = 0 || value ≤ ((gate.runs.filter (limit.holding key)).take value).length

def isPaused (limit : HeldLimit) : Bool := (gate.limits limit.name).any (·.paused)

/-- The `perKey` in force for a key: its own override, that of the limit, or the code's. -/
def perKeyOf (limit : HeldLimit) (key : String) (now : Nat) : Option Nat :=
  (((gate.limits limit.name).bind fun row => liveKeyOverride row.keys key now).map (·.perKey))
    <|> ((gate.limits limit.name).bind (·.perKey)) <|> limit.perKey

def totalOf (limit : HeldLimit) : Option Nat := ((gate.limits limit.name).bind (·.total)) <|> limit.total

def checksOf (key : Option String) (now : Nat) (limit : HeldLimit) : List LimitCheck :=
  ((key.bind fun key => gate.perKeyOf limit key now).map fun value => ⟨limit, true, value⟩).toList
    ++ ((gate.totalOf limit).map fun value => ⟨limit, false, value⟩).toList

/-- A workflow's own `perKey` comes first: it is the one that a join can answer. -/
def arranged (checks : List LimitCheck) : List LimitCheck :=
  let first (check : LimitCheck) : Bool := check.limit.workflow.isSome && check.perKey
  checks.filter first ++ checks.filter fun check => !first check

def blocking (start : GateStart) (now : Nat) : Option LimitBlock :=
  if start.gated then
    match start.held.find? gate.isPaused with
    | some paused => some ⟨paused, .paused, false, 0⟩
    | none =>
      let checks := arranged (start.held.flatMap (gate.checksOf start.key now))
      (checks.find? fun check => gate.full check.limit (if check.perKey then start.key else none) check.value).map
        fun check => ⟨check.limit, .full, check.perKey, check.value⟩
  else
    (start.held.find? fun limit => limit.workflow.isSome).bind fun own =>
      if gate.isPaused own then some ⟨own, .paused, false, 0⟩ else none

end Gate

def Row.age (row : Row) : Nat ×ₗ String := toLex (row.startedAt, row.id)

/-- The runs of a scope that hold the limit that blocks, oldest first: those that a refusal may name. -/
def Gate.holdersIn (gate : Gate) (block : LimitBlock) (key scope : Option String) : List String :=
  let held := gate.runs.filter fun row =>
    block.limit.holding (if block.perKey then key else none) row && decide (row.scope = scope)
  ((Ordered.inOrder Row.age held).take (min (max block.value 1) 100)).map (·.id)

/-- What a promotion leaves out of its next look: a run that cannot start now, or the queued runs that hold a
limit found paused or full, with the key when only that key's count is. -/
inductive PromoteSkip where
  | run (id : String)
  | limit (busy : HeldLimit) (key : Option String)
  deriving DecidableEq

def PromoteSkip.leaves (skip : PromoteSkip) (row : Row) : Bool :=
  match skip with
  | .run id => row.id ≠ id
  | .limit busy none => !busy.holds row
  | .limit busy (some key) => !(busy.holds row && row.concurrencyKey = some key)

/-- A queued run that a promotion may look at. A run past its ttl is left to its timer. -/
def Row.awaits (row : Row) (among : List HeldLimit) (key : Option String) (skips : List PromoteSkip) (now : Nat) : Bool :=
  row.state = .queued && among.any (·.holds row) && (key.isNone || row.concurrencyKey = key) &&
    row.ttlAt.all (now < ·) && skips.all (·.leaves row)

def Gate.oldestQueued (gate : Gate) (among : List HeldLimit) (key : Option String) (skips : List PromoteSkip) (now : Nat) :
    Option Row :=
  (Ordered.inOrder Row.age (gate.runs.filter (·.awaits among key skips now))).head?

end Arki.Workflow
