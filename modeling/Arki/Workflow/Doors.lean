import Arki.Workflow.Checkpoint
import Arki.Workflow.Queue

/-! The other transactions on a run: command nodes, signals, wakes, cancels, the ends of its children, and the verbs of
an operator.

Each gives what it writes on this run. A refusal writes nothing and a throw is rolled back: both are `none`.
-/

set_option autoImplicit false

namespace Arki.Workflow

open Arki.Journal (Value StoredEvent)

/-! Command nodes. -/

inductive CommandRan where
  | returned (result : Value)
  | refused (envelope : Value)
  | failed (error : String)

/-- An attempt of a command node, on the app's side: whether `when` wants it, what the command came to, and when a
failure is tried again. -/
structure CommandTried where
  wanted : Bool
  ran : CommandRan
  retryAt : Option Nat

def refusedValue (envelope : Value) : Value := .object [(refusedKey, envelope)]

section Commands

variable (def_ : WorkflowDef) (run : Run) (env : Env)

def failureOutcome (tried : CommandTried) (key error : String) : Outcome :=
  match tried.retryAt with
  | some due => .retry error key due
  | none => .dead error

def settleCommand (path : String) (stored : Value) : Except String Outcome := do
  let kept ← def_.storable ("the result of command '" ++ path ++ "'") stored
  let route ← def_.routeAt env (def_.placeOf path + 1) run.row path kept
  return .completed kept route none

/-- The `do` of a command node: its outcome, and whether the command's own writes stay. Whatever fails in the savepoint
rolls them back. -/
def doCommand (path key : String) (tried : CommandTried) : Outcome × Bool :=
  if run.row.state = .compensating then (.dropped, false)
  else if !tried.wanted then
    match def_.routeAt env (def_.placeOf path + 1) run.row path .null with
    | .ok route => (.skipped "when" route, false)
    | .error error => (.dead error, false)
  else
    match tried.ran with
    | .failed error => (failureOutcome tried key error, false)
    | .refused envelope =>
      match settleCommand def_ run env path (refusedValue envelope) with
      | .ok outcome => (outcome, false)
      | .error error => (failureOutcome tried key error, false)
    | .returned result =>
      if isRefused result then
        -- readers tell a refusal by its shape alone
        (.dead ("the result of command '" ++ path ++ "' has the shape the journal keeps for a refused result"), false)
      else
        match settleCommand def_ run env path result with
        | .ok outcome => (outcome, true)
        | .error error => (failureOutcome tried key error, false)

def undoCommand (path key : String) (tried : CommandTried) : Option (Outcome × Bool) :=
  match def_.remainingUndos run.settled none 0 with
  | done :: _ =>
    if done.path ≠ path then none
    else
      match tried.ran with
      | .returned result =>
        match def_.storable ("the undo result of command '" ++ path ++ "'") result with
        | .ok kept => some (.undone kept, true)
        | .error error => some (failureOutcome tried key error, false)
      | .refused _ => some (failureOutcome tried key "the undo was refused", false)
      | .failed error => some (failureOutcome tried key error, false)
  | [] => none

def tryCommand (path : String) (phase : StepPhase) (key : String) (tried : CommandTried) : Option (Outcome × Bool) :=
  match phase with
  | .do_ => some (doCommand def_ run env path key tried)
  | .undo => undoCommand def_ run path key tried

/-- One attempt of a command node: one transaction, with the command and its checkpoint. The flag says that the
command's own writes commit with it. -/
def commandNode (path : String) (phase : StepPhase) (attempt : Nat) (key : String) (tried : CommandTried) :
    Option (Draft × Bool) :=
  if run.openAttempt path phase attempt then
    match def_.node path with
    | some ⟨_, .command ..⟩ =>
      (tryCommand def_ run env path phase key tried).bind fun (outcome, committed) =>
        (checkpoint def_ run env path phase attempt outcome).map (·, committed)
    | _ => none
  else some (.idle run, false)

end Commands

/-! Signals and wakes. -/

structure Delivery where
  name : String
  deliveryId : String
  payload : Value
  id : String
  receivedAt : Nat

inductive SignalStatus where
  | finished
  | duplicate
  | kept
  | woke
  deriving DecidableEq

def signalWaits (nodes : List Node) : List SignalWait :=
  nodes.flatMap fun node => match node.kind with
    | .waitFor wait _ => [wait]
    | .parallel _ branches => branches.flatMap (·.waits)
    | _ => []

def WorkflowDef.waitsFor (def_ : WorkflowDef) (name : String) : Bool :=
  def_.nodes.any fun node => match node.kind with
    | .waitFor wait _ => wait.signal = name
    | _ => false

def parkedFor (def_ : WorkflowDef) (run : Run) (name : String) : Option (String × SignalWait) :=
  if run.row.state = .parked ∧ run.row.waitingFor = some name then
    match run.row.node.bind def_.node with
    | some ⟨path, .waitFor wait _⟩ => if wait.signal = name then some (path, wait) else none
    | _ => none
  else none

def NodeKind.isResolvable : NodeKind → Bool
  | .step .. | .command .. => true
  | _ => false

section Doors

variable (def_ : WorkflowDef) (run : Run) (env : Env)

def deliverSignal (delivery : Delivery) : Option (Draft × SignalStatus) :=
  -- a signal for a finished run is dropped
  if run.row.finishedAt.isSome then some (.idle run, .finished)
  else do
    let waited ← (signalWaits def_.nodes).find? (·.signal = delivery.name)
    let stored ← (def_.storable ("the payload of signal '" ++ delivery.name ++ "'") delivery.payload).toOption
    let _ ← (waited.schema stored).toOption
    -- only a branch waits for it: nothing is kept for this run
    if !def_.waitsFor delivery.name then return (.idle run, .finished)
    if run.signals.any fun signal => signal.name = delivery.name ∧ signal.deliveryId = delivery.deliveryId then
      return (.idle run, .duplicate)
    let signal : Signal := ⟨delivery.id, delivery.name, delivery.deliveryId, stored, delivery.receivedAt, none, none⟩
    let kept := { run with signals := run.signals ++ [signal] }
    let received : RunEvent := .signalReceived delivery.name delivery.deliveryId env.now
    if pastDeadline run.row env.now ∧ run.row.state ≠ .compensating then
      return (⟨kept, received :: deadlineEvents def_ run env⟩, .kept)
    match parkedFor def_ run delivery.name with
    | none => return (⟨kept, [received]⟩, .kept)
    | some (path, wait) =>
      -- the run waits for this signal: the oldest is taken, and the run moves on with the payload of this one
      let taken := match oldestSignal kept.signals delivery.name with
        | some oldest => kept.takeSignal oldest path env.now
        | none => kept
      return (⟨taken, received :: wakeOnSignal def_ run env path wait stored⟩, .woke)

def wakeWait (path : String) : Option Draft :=
  if run.row.state ≠ .parked ∨ run.row.node ≠ some path then some (.idle run)
  else
    match def_.node path with
    | some ⟨_, .eventWait sources _⟩ =>
      if pastDeadline run.row env.now then some ⟨run, deadlineEvents def_ run env⟩
      else some ⟨run, wakeOnEvent def_ run env path sources⟩
    | _ => none

/-! Cancels, and the ends of children. -/

def cancelRun (reason : String) : Option Draft :=
  if run.row.finishedAt.isSome ∨ run.row.state = .compensating then none
  else some ⟨run, beginCompensation def_ run env [.cancelRequested reason env.now] false none true⟩

/-- The parent of a run moves it into compensation: a live one is cancelled, a completed one is reopened. -/
def compensateChild (reason : String) (reopen : Bool) : Draft :=
  let eligible : Bool := if reopen then run.row.state = .completed else run.row.state.isLive
  if eligible then
    ⟨run, beginCompensation def_ run env [.cancelRequested reason env.now] false none true⟩
  else .idle run

def wakeParent (base : String) : Option (Draft × Moves) :=
  if run.row.finishedAt.isSome then some (.idle run, .none)
  else (onChildEnded def_ run env base).map fun found => (⟨run, found.1⟩, found.2)

def failChildrenNode (path error : String) : Draft :=
  if run.row.finishedAt.isSome ∨ run.row.state ≠ .parked ∨ run.row.node ≠ some path then .idle run
  else ⟨run, deadNode def_ run env path error⟩

/-! The verbs of an operator. -/

/-- `~2`, then `~3`: the id that a failed child is started again under. -/
def retriedChildId (id : String) : String :=
  let (stem, count) := retriedOf id.toList
  String.ofList stem ++ "~" ++ toString (count + 1)
where
  retriedOf (chars : List Char) : List Char × Nat :=
    let digits := chars.reverse.takeWhile Char.isDigit
    match chars.reverse.drop digits.length with
    | '~' :: stem =>
      if digits = [] then (chars, 1) else (stem.reverse, ((String.ofList digits.reverse).toNat?).getD 1)
    | _ => (chars, 1)

def replanned (plan : Plan) (kids : List Kid) : Plan :=
  { plan with
    children := plan.children.map fun child =>
      if kids.any fun kid => kid.id = child.id && kid.finishedAt.isSome && kid.state ≠ .completed then
        { child with id := retriedChildId child.id }
      else child }

/-- `dead` are the nodes of the dead jobs of the run. -/
def retryStep (path : String) (phase : StepPhase) (dead : List (Option String)) : Option Draft :=
  if run.row.finishedAt.isSome then none
  else do
    let step ← run.steps.lookup (path, phase)
    match step.status with
    | .scheduled => if dead = [] then none else some ⟨run, dead.map fun node => .jobRetried node env.now⟩
    | .failed =>
      if phase = .do_ ∧ run.row.state = .compensating ∨ phase = .undo ∧ run.row.state ≠ .compensating then none
      else
        let plan := if (def_.node path).any (·.kind.isFan) then run.plannedOf none else none
        match plan.filter fun plan => phase = .do_ ∧ run.row.state = .parked ∧ plan.path = path with
        | some plan => some ⟨run, [.childrenPlanned (replanned plan env.kids) env.now]⟩
        | none => step.key.map fun key => ⟨run, [.nodeScheduled path phase (step.attempt + 1) key none env.now]⟩
    | _ => none

/-- The result of a failed `do` step. A worker routes it, and sends the usual completion. -/
def resolveStep (path : String) (result : Value) : Option Draft :=
  if run.row.finishedAt.isSome ∨ run.row.state ≠ .running then none
  else do
    let step ← run.steps.lookup (path, .do_)
    let node ← def_.node path
    if step.status = .failed ∧ node.kind.isResolvable then
      let kept ← (def_.storable ("the result of step '" ++ path ++ "'") result).toOption
      step.key.map fun key => ⟨run, [.nodeScheduled path .do_ (step.attempt + 1) key (some kept) env.now]⟩
    else none

def skipUndo (path reason : String) : Option Draft :=
  if run.row.finishedAt.isSome ∨ run.row.state ≠ .compensating then none
  else do
    let step ← run.steps.lookup (path, .undo)
    if step.status = .failed then
      some ⟨run, .nodeSkipped path .undo .operator reason env.now :: compensate def_ run env ⟨none, false, none, 1⟩⟩
    else none

/-- The first node of a run that has not started moves. `unclaimed`: its job was never claimed. -/
def reschedule (startAt : Nat) (unclaimed : Bool) : Option Draft :=
  let first := (run.row.shape.head?).bind fun node => run.steps.lookup (node.name, .do_)
  let waiting := first.any fun step => step.status = .scheduled && step.attempt = 1
  if run.row.state = .queued ∨ (run.row.notStarted ∧ waiting ∧ unclaimed) then
    let shifted := run.row.deadlineAt.map fun deadline => deadline + startAt - run.row.startAt.getD run.row.startedAt
    some ⟨run, [.runRescheduled startAt (run.row.ttlMs.map (startAt + ·)) shifted env.now]⟩
  else none

def changeFields (tags : Bool) : Option Draft :=
  if run.row.finishedAt.isSome then none
  else some ⟨run, [if tags then .runTagged env.now else .metadataChanged env.now]⟩

def dequeueRun : Draft :=
  match run.row.shape.head? with
  | some first =>
    if run.row.state = .queued then
      let due := max (run.row.startAt.getD env.now) env.now
      ⟨run, [.runDequeued env.now, .nodeScheduled first.name .do_ 1 (firstKeyOf run.row.id first.name) none due]⟩
    else .idle run
  | none => .idle run

end Doors

end Arki.Workflow
