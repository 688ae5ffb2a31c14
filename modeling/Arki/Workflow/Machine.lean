import Mathlib.Data.List.AList
import Arki.Journal.Value

/-! The run row, its events and its step rows.

Times are in milliseconds. What only describes a run (its tags, its metadata, its batch, the
priority of its jobs, who asked for a move) is read by no function here, and left out.
-/

set_option autoImplicit false

namespace Arki.Workflow

open Arki.Journal (Value)

inductive RunState where
  | queued
  | running
  | parked
  | compensating
  | completed
  | failed
  | cancelled
  | expired
  deriving DecidableEq

inductive StepPhase where
  | do_
  | undo
  deriving DecidableEq

inductive StepStatus where
  | scheduled
  | done
  | skipped
  | failed
  deriving DecidableEq

inductive SkipCause where
  | when
  | compensating
  | noUndo
  | detached
  | operator
  | expired
  deriving DecidableEq

inductive BusyReason where
  | full
  | paused
  deriving DecidableEq

inductive ShapeKind where
  | step
  | waitFor
  | eventWait
  | sleep
  | child
  | map
  | command
  | parallel
  deriving DecidableEq

structure ShapeNode where
  name : String
  kind : ShapeKind
  deriving DecidableEq

structure DefRef where
  name : String
  version : Nat
  deriving DecidableEq

structure ChildPlan where
  id : String
  input : Value
  ref : Option DefRef
  deriving DecidableEq

structure Plan where
  path : String
  base : String
  ref : DefRef
  children : List ChildPlan
  start : Option Nat
  deriving DecidableEq

abbrev Results := AList fun _ : String => Value

structure RunStarted where
  name : String
  workflowVersion : Nat
  shape : List ShapeNode
  shapeHash : String
  input : Value
  deadlineAt : Option Nat
  parentId : Option String
  parentPath : Option String
  concurrencyKey : Option String
  scope : Option String
  startAt : Option Nat
  ttlAt : Option Nat
  ttlMs : Option Nat
  limits : List String
  triggerSeq : Option Nat
  results : Results
  time : Nat

inductive RunEvent where
  | runStarted (data : RunStarted)
  | runQueued (limitName : String) (reason : BusyReason) (ttlAt : Option Nat) (time : Nat)
  | runDequeued (time : Nat)
  /-- `time` is when the node is due. -/
  | nodeScheduled (path : String) (phase : StepPhase) (attempt : Nat) (key : String) (resolution : Option Value) (time : Nat)
  | nodeCompleted (path : String) (phase : StepPhase) (result : Value) (resolvedBy : Option String) (time : Nat)
  | nodeSkipped (path : String) (phase : StepPhase) (cause : SkipCause) (reason : String) (time : Nat)
  | nodeFailed (path : String) (phase : StepPhase) (attempt : Nat) (error : String) (time : Nat)
  | parked (node : String) (waitingFor : Option String) (wakeAt : Option Nat) (time : Nat)
  | childrenPlanned (plan : Plan) (time : Nat)
  | jobRetried (node : Option String) (time : Nat)
  | signalReceived (name deliveryId : String) (time : Nat)
  | waitEventTaken (node label : String) (seq : Nat) (deliveryId : String) (time : Nat)
  | timerFired (node : String) (time : Nat)
  | deadlineReached (time : Nat)
  | cancelRequested (reason : String) (time : Nat)
  | compensationStarted (time : Nat)
  | metadataChanged (time : Nat)
  | runTagged (time : Nat)
  | runCompleted (output : Value) (time : Nat) (keepUntil : Option Nat)
  | runFailed (error : String) (time : Nat) (keepUntil : Option Nat)
  | runCancelled (time : Nat) (keepUntil : Option Nat)
  | runExpired (time : Nat) (keepUntil : Option Nat)
  | runRescheduled (startAt : Nat) (ttlAt deadlineAt : Option Nat) (time : Nat)

def RunEvent.ends : RunEvent → Bool
  | runCompleted .. | runFailed .. | runCancelled .. | runExpired .. => true
  | _ => false

structure Row where
  id : String
  name : String
  workflowVersion : Nat
  shape : List ShapeNode
  shapeHash : String
  input : Value
  state : RunState
  results : Results
  output : Value
  node : Option String
  waitingFor : Option String
  wakeAt : Option Nat
  deadlineAt : Option Nat
  parentId : Option String
  parentPath : Option String
  concurrencyKey : Option String
  scope : Option String
  startAt : Option Nat
  ttlAt : Option Nat
  ttlMs : Option Nat
  transitions : Nat
  limits : List String
  cancelledAt : Option Nat
  cancelReason : Option String
  startedAt : Nat
  finishedAt : Option Nat
  keepUntil : Option Nat

namespace Row

def create (id : String) (data : RunStarted) : Row where
  id := id
  name := data.name
  workflowVersion := data.workflowVersion
  shape := data.shape
  shapeHash := data.shapeHash
  input := data.input
  state := .running
  results := data.results
  output := .null
  node := none
  waitingFor := none
  wakeAt := none
  deadlineAt := data.deadlineAt
  parentId := data.parentId
  parentPath := data.parentPath
  concurrencyKey := data.concurrencyKey
  scope := data.scope
  startAt := data.startAt
  ttlAt := data.ttlAt
  ttlMs := data.ttlMs
  transitions := 0
  limits := data.limits
  cancelledAt := none
  cancelReason := none
  startedAt := data.time
  finishedAt := none
  keepUntil := none

def finish (row : Row) (state : RunState) (time : Nat) (keepUntil : Option Nat) : Row :=
  { row with
    state := state, node := none, wakeAt := none, waitingFor := none, finishedAt := some time, keepUntil := keepUntil }

/-- What an event makes of the row. `runStarted` only creates one. -/
def on (row : Row) : RunEvent → Row
  | .runStarted _ => row
  | .runQueued .. => { row with state := .queued, node := none }
  | .runDequeued _ => { row with state := .running }
  | .nodeScheduled path phase attempt .. =>
    { row with
      node := some path
      state := if row.state = .compensating then .compensating else .running
      wakeAt := none
      waitingFor := none
      transitions := if phase = .do_ ∧ attempt = 1 then row.transitions + 1 else row.transitions }
  | .nodeCompleted path .do_ result .. => { row with results := row.results.insert path result }
  | .nodeCompleted _ .undo .. => row
  -- A node that never ran leaves no key.
  | .nodeSkipped path .do_ cause .. =>
    if cause ≠ .compensating ∧ cause ≠ .expired then { row with results := row.results.insert path .null } else row
  | .nodeSkipped _ .undo .. => row
  | .nodeFailed .. => row
  | .parked node waitingFor wakeAt _ =>
    { row with state := .parked, node := some node, waitingFor := waitingFor, wakeAt := wakeAt }
  | .childrenPlanned plan _ =>
    { row with state := .parked, node := some plan.path, waitingFor := none, wakeAt := none }
  | .jobRetried .. | .signalReceived .. | .waitEventTaken .. | .deadlineReached _ | .metadataChanged _ | .runTagged _ => row
  | .timerFired .. =>
    { row with state := if row.state = .parked then .running else row.state, wakeAt := none, waitingFor := none }
  | .cancelRequested reason time =>
    { row with
      cancelledAt := row.cancelledAt <|> some time
      cancelReason := row.cancelReason <|> some reason }
  | .compensationStarted _ =>
    { row with state := .compensating, wakeAt := none, waitingFor := none, finishedAt := none, keepUntil := none }
  | .runCompleted output time keepUntil => { row with output := output }.finish .completed time keepUntil
  | .runFailed _ time keepUntil => row.finish .failed time keepUntil
  | .runCancelled time keepUntil => row.finish .cancelled time keepUntil
  | .runExpired time keepUntil => row.finish .expired time keepUntil
  | .runRescheduled startAt ttlAt deadlineAt _ =>
    { row with startAt := some startAt, ttlAt := ttlAt, deadlineAt := deadlineAt }

end Row

/-- One row of `workflow_steps`. `jobId` is the job of the event with that number. -/
structure Step where
  status : StepStatus
  attempt : Nat
  key : Option String
  jobId : Option Nat
  deriving DecidableEq

abbrev Steps := AList fun _ : String × StepPhase => Step

def Step.blank (status : StepStatus) (attempt : Nat) : Step := ⟨status, attempt, none, none⟩

def Steps.settle (steps : Steps) (path : String) (phase : StepPhase) (status : StepStatus) : Steps :=
  steps.insert (path, phase) (match steps.lookup (path, phase) with
    | none => .blank status 0
    | some step => { step with status := status })

/-- The step rows after the event numbered `seq`, with the job that it queues. -/
def Steps.on (steps : Steps) (seq : Nat) : RunEvent → Steps
  | .nodeScheduled path phase attempt key .. => steps.insert (path, phase) ⟨.scheduled, attempt, some key, some seq⟩
  | .nodeCompleted path phase .. => steps.settle path phase .done
  | .nodeSkipped path phase .. => steps.settle path phase .skipped
  | .childrenPlanned plan _ =>
    match steps.lookup (plan.path, .do_) with
    | some step => if step.status = .failed then steps.settle plan.path .do_ .scheduled else steps
    | none => steps
  | .nodeFailed path phase attempt .. =>
    steps.insert (path, phase) (match steps.lookup (path, phase) with
      | none => .blank .failed attempt
      | some step => { step with status := .failed, attempt := attempt })
  | _ => steps

def Steps.anyScheduled (steps : Steps) : Bool := steps.entries.any fun entry => entry.2.status = .scheduled

structure Recorded where
  seq : Nat
  event : RunEvent

/-- One row of `workflow_signals`. -/
structure Signal where
  id : String
  name : String
  deliveryId : String
  payload : Value
  receivedAt : Nat
  consumedAt : Option Nat
  consumedBy : Option String
  deriving DecidableEq

/-- One row of `workflow_waits`: a label of the event wait that the run is parked on. -/
structure Wait where
  node : String
  label : String
  entityKind : String
  entityId : String
  types : List String
  afterSeq : Nat
  deriving DecidableEq

structure Run where
  row : Row
  log : List Recorded
  steps : Steps
  signals : List Signal
  waits : List Wait

namespace Run

def on (run : Run) (seq : Nat) (event : RunEvent) : Run :=
  { run with row := run.row.on event, log := run.log ++ [⟨seq, event⟩], steps := run.steps.on seq event }

/-- Write the events, the first of them numbered `seq`. -/
def write (run : Run) (seq : Nat) : List RunEvent → Run
  | [] => run
  | event :: rest => (run.on seq event).write (seq + 1) rest

/-- The first write of a run: `runStarted`, then `rest`. -/
def create (id : String) (seq : Nat) (data : RunStarted) (rest : List RunEvent) : Run :=
  Run.write ⟨.create id data, [⟨seq, .runStarted data⟩], ∅, [], []⟩ (seq + 1) rest

end Run

end Arki.Workflow
