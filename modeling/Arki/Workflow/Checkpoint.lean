import Arki.Workflow.Children

/-! Checkpoints: what the outcome of an attempt, or a timer, makes of its run. -/

set_option autoImplicit false

namespace Arki.Workflow

open Arki.Journal (Value StoredEvent)

inductive Outcome where
  | completed (result : Value) (route : Route) (resolvedBy : Option String)
  | skipped (reason : String) (route : Route)
  | undone (result : Value)
  | retry (error key : String) (due : Nat)
  | dead (error : String)
  | transitionLimit (error : String)
  | children (plan : Plan)
  | park (waitingFor : Option String) (wakeAt : Option Nat) (waits : List WaitKey)
  | dropped
  | expired

structure Draft where
  run : Run
  events : List RunEvent

namespace Draft

def idle (run : Run) : Draft := ⟨run, []⟩

def endsPark : RunEvent → Bool
  | .nodeCompleted .. | .compensationStarted _ => true
  | _ => false

def commit (draft : Draft) (seq : Nat) : Run :=
  let written := draft.run.write seq draft.events
  let left := draft.run.row.state = .parked ∧ draft.events.any endsPark ∧ written.row.shape.any (·.kind = .eventWait)
  if left then { written with waits := [] } else written

end Draft

def NodeKind.isWait : NodeKind → Bool
  | .waitFor .. | .eventWait .. | .sleep _ => true
  | _ => false

/-- The node of the attempt is still open: no other checkpoint moved it on, and no later attempt replaced this one. -/
def Run.openAttempt (run : Run) (path : String) (phase : StepPhase) (attempt : Nat) : Bool :=
  run.row.finishedAt.isNone && (run.steps.lookup (path, phase)).any fun step =>
    step.attempt = attempt && (step.status = .scheduled || step.status = .failed)

def Row.notStarted (row : Row) : Bool := row.finishedAt.isNone && row.state = .running && row.results.entries.isEmpty

def Row.expiresNow (row : Row) (dbNow : Nat) (path : String) (phase : StepPhase) (attempt : Nat) : Bool :=
  row.ttlAt.any (· < dbNow) && row.notStarted && (row.shape.head?).any (·.name = path) && phase = .do_ && attempt = 1

def expiredReason : String := "the run expired before its first node started"

section Checkpoint

variable (def_ : WorkflowDef) (run : Run) (env : Env)

/-- A `do` attempt that ends badly while the run compensates is not retried: the undos go on. -/
def failedWhileCompensating (path : String) (attempt : Nat) (error : String) : List RunEvent :=
  .nodeFailed path .do_ attempt error env.now :: compensate def_ run env .onward

def droppedNode (path : String) : RunEvent := .nodeSkipped path .do_ .compensating compensatingReason env.now

/-- A wait that began to park, or a node that began to plan its children, and may not. -/
def refusedPark (path : String) : Option (List RunEvent) :=
  if run.row.state = .compensating then some (droppedNode env path :: compensate def_ run env .onward)
  else if pastDeadline run.row env.now then
    some (beginCompensation def_ run env [.deadlineReached env.now, droppedNode env path] true (some deadlineCause) false)
  else none

/-- A signal that came before the wait is taken. An event that committed before this read is taken too, and one that
commits after it finds the rows written here. -/
def parkNode (node : Node) (waitingFor : Option String) (wakeAt : Option Nat) (keys : List WaitKey) : Draft :=
  let parked : RunEvent := .parked node.name waitingFor wakeAt env.now
  match node.kind with
  | .waitFor wait _ =>
    match oldestSignal run.signals wait.signal with
    | some early =>
      let taken := run.takeSignal early node.name env.now
      ⟨taken, wakeOnSignal def_ taken env node.name wait early.payload⟩
    | none => ⟨run, [parked]⟩
  | .eventWait sources _ =>
    let waits := keys.map fun key => key.after node.name (run.waitStartOf node.name)
    match oldestEligible def_ sources run env waits with
    | .error error => ⟨run, failWait def_ run env node.name error⟩
    | .ok (some (label, stored)) => ⟨run, takeEvent def_ run env node.name label stored⟩
    | .ok none => ⟨{ run with waits := run.waits ++ waits }, [parked]⟩
  | _ => ⟨run, [parked]⟩

/-- What the outcome of the open attempt writes. A definition without the node that the outcome needs throws. -/
def answer (path : String) (phase : StepPhase) (attempt : Nat) (outcome : Outcome) : Option Draft :=
  let compensating := run.row.state = .compensating
  let failed (error : String) : RunEvent := .nodeFailed path phase attempt error env.now
  match outcome with
  | .completed result route resolvedBy =>
    -- a step in flight when the run began to compensate did its work: it is undone like the rest
    let next := if compensating then compensate def_ run env ⟨none, false, some (path, result), 0⟩ else eventsAfter run env route
    some ⟨run, .nodeCompleted path phase result resolvedBy env.now :: next⟩
  | .skipped reason route =>
    let next := if compensating then compensate def_ run env .onward else eventsAfter run env route
    some ⟨run, .nodeSkipped path phase .when reason env.now :: next⟩
  | .undone result =>
    some ⟨run, .nodeCompleted path phase result none env.now :: compensate def_ run env ⟨none, false, none, 1⟩⟩
  | .retry error key due =>
    if compensating ∧ phase = .do_ then some ⟨run, failedWhileCompensating def_ run env path attempt error⟩
    else some ⟨run, [failed error, .nodeScheduled path phase (attempt + 1) key none due]⟩
  | .dead error =>
    if compensating ∧ phase = .do_ then some ⟨run, failedWhileCompensating def_ run env path attempt error⟩
    -- an undo that keeps failing leaves the run for an operator
    else if phase = .undo ∨ def_.waitsOnDeadStep then some ⟨run, [failed error]⟩
    else some ⟨run, beginCompensation def_ run env [failed error] true (some error) false⟩
  | .transitionLimit error =>
    if compensating ∧ phase = .do_ then some ⟨run, failedWhileCompensating def_ run env path attempt error⟩
    else some ⟨run, beginCompensation def_ run env [failed error] true (some error) false⟩
  | .children plan =>
    if run.row.state = .parked then some (.idle run)
    else
      match (def_.node path).filter (·.kind.isFan) with
      | none => none
      | some _ =>
        match refusedPark def_ run env path with
        | some refused => some ⟨run, refused⟩
        | none => some ⟨run, [.childrenPlanned { plan with path := path } env.now]⟩
  | .park waitingFor wakeAt keys =>
    -- the park of this attempt is already in: the step row stays scheduled while a run is parked
    if run.row.state = .parked then some (.idle run)
    else
      match (def_.node path).filter (·.kind.isWait) with
      | none => none
      | some node =>
        match refusedPark def_ run env path with
        | some refused => some ⟨run, refused⟩
        | none => some (parkNode def_ run env node waitingFor wakeAt keys)
  | .dropped => some ⟨run, .nodeSkipped path phase .compensating compensatingReason env.now :: compensate def_ run env .onward⟩
  | .expired =>
    -- a reschedule or a cancel may have come between
    if run.row.expiresNow env.dbNow path phase attempt then
      some ⟨run, [.nodeSkipped path phase .expired expiredReason env.now, .runExpired env.now (def_.keepUntil .expired env.now)]⟩
    else some (.idle run)

def checkpoint (path : String) (phase : StepPhase) (attempt : Nat) (outcome : Outcome) : Option Draft :=
  if run.openAttempt path phase attempt then answer def_ run env path phase attempt outcome else some (.idle run)

end Checkpoint

/-! Timers. -/

inductive Timer where
  | wake (node : String) (parkSeq : Nat)
  | deadline
  | ttl
  deriving DecidableEq

def Run.latestPark (run : Run) : Option Nat :=
  run.log.reverse.findSome? fun recorded => match recorded.event with
    | .parked .. => some recorded.seq
    | _ => none

section Timers

variable (def_ : WorkflowDef) (run : Run) (env : Env)

def waitOver (node : Node) : Option (List RunEvent) :=
  let fired : RunEvent := .timerFired node.name env.now
  match node.kind with
  | .waitFor wait failsOnTimeout =>
    if failsOnTimeout then
      some (fired :: failWait def_ run env node.name ("waitFor '" ++ node.name ++ "' got no '" ++ wait.signal ++ "' signal in time"))
    else some (fired :: completeWait def_ run env node.name .null)
  | .eventWait sources failsOnTimeout =>
    -- an event that committed before this timer wins, even when its wake job has not run yet
    match wakeOnEvent def_ run env node.name sources with
    | [] =>
      if failsOnTimeout then
        some (fired :: failWait def_ run env node.name ("waitFor '" ++ node.name ++ "' got no event in time"))
      else some (fired :: completeWait def_ run env node.name .null)
    | woke => some woke
  | .sleep _ => some (fired :: completeWait def_ run env node.name .null)
  | _ => none

def onTimer : Timer → Option (List RunEvent)
  | .deadline => if run.row.state = .compensating then some [] else some (deadlineEvents def_ run env)
  | .ttl =>
    if run.row.state = .queued ∧ run.row.ttlAt.any (· < env.dbNow) then
      some [.runExpired env.now (def_.keepUntil .expired env.now)]
    else some []
  | .wake path parkSeq =>
    if run.row.state ≠ .parked ∨ run.row.node ≠ some path ∨ run.latestPark ≠ some parkSeq then some []
    else if pastDeadline run.row env.now then some (deadlineEvents def_ run env)
    else (def_.node path).bind (waitOver def_ run env)

def fire (timer : Timer) : Option Draft :=
  if run.row.finishedAt.isSome then some (.idle run) else (onTimer def_ run env timer).map (⟨run, ·⟩)

end Timers

end Arki.Workflow
