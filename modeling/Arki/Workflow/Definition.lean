import Arki.Journal.Tables
import Arki.Workflow.Machine

/-! Workflow definitions, and which code a run goes on with.

The functions an app writes are fields: pure functions of what they read. What a step body does
is not here: its outcome comes with the checkpoint that reports it.
-/

set_option autoImplicit false

namespace Arki.Workflow

open Arki.Journal (Value StoredEvent)

/-- What `when`, `next`, `match`, `where` and `finish` read. An event wait's result is a pointer; `took` has the event
itself, under the label that wanted it, as the log holds it now. -/
structure View where
  runId : String
  input : Value
  results : Results
  took : String → Option (String × StoredEvent)

/-- One label of an event wait. `wants` decodes an event and asks `where`. -/
structure EventSource where
  label : String
  entityKind : String
  types : List String
  matches_ : View → String
  wants : View → StoredEvent → Except String Bool

/-- A wait for a signal. `schema` reads its payload. -/
structure SignalWait where
  signal : String
  schema : Value → Except String Value

structure Branch where
  name : String
  ref : DefRef
  waits : List SignalWait

inductive NodeKind where
  /-- `keeps`: some failures are kept as the result. -/
  | step (undo keeps : Bool)
  | waitFor (wait : SignalWait) (failsOnTimeout : Bool)
  | eventWait (sources : List EventSource) (failsOnTimeout : Bool)
  | sleep (next : Option (View → String))
  | child (undo detached : Bool)
  | map (concurrency : Option Nat) (any : Bool)
  | parallel (any : Bool) (branches : List Branch)
  | command (undo keeps : Bool)

def NodeKind.shape : NodeKind → ShapeKind
  | step .. => .step
  | waitFor .. => .waitFor
  | eventWait .. => .eventWait
  | sleep .. => .sleep
  | child .. => .child
  | map .. => .map
  | parallel .. => .parallel
  | command .. => .command

structure Node where
  name : String
  kind : NodeKind

structure LimitDef where
  name : String
  total : Option Nat
  perKey : Option Nat
  deriving DecidableEq

inductive OnBusy where
  | refuse
  | join
  | queue
  deriving DecidableEq

structure Concurrency where
  key : Option (Value → String)
  limit : Option Nat
  total : Option Nat
  shared : List LimitDef
  onBusy : OnBusy

structure WorkflowDef where
  name : String
  version : Nat
  shapeHash : String
  nodes : List Node
  deadline : Option Nat
  concurrency : Option Concurrency
  /-- `startOn` with the timing `with-event`. -/
  startsWithEvent : Bool
  /-- `onDeadStep: 'wait'`: a dead step leaves the run for an operator. -/
  waitsOnDeadStep : Bool
  finish : View → Value → Except String Value
  output : Value → Except String Value
  /-- Refuses what JSON cannot hold and what is longer than `limits.payload`, saying what it is. -/
  storable : String → Value → Except String Value
  keepUntil : RunState → Nat → Option Nat

namespace WorkflowDef

def ref (def_ : WorkflowDef) : DefRef := ⟨def_.name, def_.version⟩

def shape (def_ : WorkflowDef) : List ShapeNode := def_.nodes.map fun node => ⟨node.name, node.kind.shape⟩

def node (def_ : WorkflowDef) (name : String) : Option Node := def_.nodes.find? fun node => node.name = name

def indexOf (def_ : WorkflowDef) (name : String) : Option Nat := def_.nodes.findIdx? fun node => node.name = name

end WorkflowDef

abbrev Registry := List WorkflowDef

def Registry.get (registry : Registry) (ref : DefRef) : Option WorkflowDef := registry.find? fun def_ => def_.ref = ref

def codeOf (registry : Registry) (row : Row) : Option WorkflowDef :=
  (registry.get ⟨row.name, row.workflowVersion⟩).filter fun def_ => def_.shapeHash = row.shapeHash

end Arki.Workflow
