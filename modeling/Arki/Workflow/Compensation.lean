import Arki.Workflow.Definition

/-! Compensation: the undos of a run, newest first, and the end of the run when none is left. -/

set_option autoImplicit false

namespace Arki.Workflow

open Arki.Journal (Value StoredEvent)

structure Kid where
  id : String
  name : String
  state : RunState
  parentPath : Option String
  finishedAt : Option Nat
  output : Value

/-- What a transaction on a run reads elsewhere: the registered definitions, the clocks, the log, the child runs, and
the job of the node that the run is on (whether a worker tried it, and whether one holds it). -/
structure Env where
  registry : Registry
  now : Nat
  dbNow : Nat
  journal : List StoredEvent
  kids : List Kid
  tried : Bool
  held : Bool

structure Done where
  path : String
  visit : Nat
  result : Value
  deriving DecidableEq

def refusedKey : String := "~refused"

def isRefused : Value → Bool
  | .object [(key, .object fields)] =>
    key = refusedKey && fields.any fun field => field.1 = "code" && match field.2 with
      | .string code => code ≠ ""
      | _ => false
  | _ => false

def NodeKind.isFan : NodeKind → Bool
  | .child .. | .map .. | .parallel .. => true
  | _ => false

def Node.isDetached (node : Node) : Bool :=
  match node.kind with
  | .child _ detached => detached
  | _ => false

def NodeKind.isUndoable : NodeKind → Bool
  | .step .. | .child .. | .map .. | .parallel .. | .command .. => true
  | _ => false

namespace Run

def settled (run : Run) : List (String × StepPhase × Option Value) :=
  run.log.filterMap fun recorded => match recorded.event with
    | .nodeCompleted path phase result .. => some (path, phase, some result)
    | .nodeSkipped path phase .. => some (path, phase, none)
    | _ => none

def visits (run : Run) (path : String) : Nat :=
  (run.settled.filter fun entry => entry.1 = path && entry.2.1 = .do_).length

end Run

def keyOfNextVisit (run : Run) (path : String) : String :=
  let visit := run.visits path + 1
  if visit = 1 then run.row.id ++ ":" ++ path ++ ":do" else run.row.id ++ ":" ++ path ++ ":do:" ++ toString visit

def undoKey (runId : String) (done : Done) : String :=
  runId ++ ":" ++ done.path ++ ":undo" ++ if done.visit = 1 then "" else ":" ++ toString done.visit

def childBase (path : String) (visit : Nat) : String := if visit = 1 then path else path ++ ":" ++ toString visit

namespace WorkflowDef

variable (def_ : WorkflowDef)

def undoable (path : String) : Bool := def_.nodes.any fun node => node.name = path && node.kind.isUndoable

/-- The completed nodes, oldest first. `seen` are the paths settled before. -/
def doneOf : List String → List (String × Option Value) → List Done
  | _, [] => []
  | seen, (path, result) :: rest =>
    let later := doneOf (path :: seen) rest
    match result with
    | some result => if def_.undoable path then ⟨path, seen.count path + 1, result⟩ :: later else later
    | none => later

/-- The completed nodes still to undo, newest first. Each settled undo takes the newest away. `doneNow` and
`undoneNow` are what the write in progress adds. -/
def remainingUndos (settled : List (String × StepPhase × Option Value)) (doneNow : Option (String × Value)) (undoneNow : Nat) :
    List Done :=
  let forward := (settled.filter (·.2.1 = .do_)).map fun entry => (entry.1, entry.2.2)
  let done := def_.doneOf [] (forward ++ (doneNow.map fun now => (now.1, some now.2)).toList)
  let undone := (settled.filter (·.2.1 = .undo)).length + undoneNow
  (done.take (done.length - undone)).reverse

def loopedBase (base path : String) : Bool :=
  let rest := base.toList.drop path.length
  path.toList ++ rest = base.toList && match rest with
    | ':' :: digits => !digits.isEmpty && digits.all Char.isDigit
    | _ => false

def nodeOfBase (base : String) : Option Node :=
  def_.node base <|> def_.nodes.find? fun node => loopedBase base node.name

def waitsForKid (kid : Kid) : Bool :=
  kid.finishedAt.isNone && !(def_.nodeOfBase (kid.parentPath.getD "")).any (·.isDetached)

end WorkflowDef

def causeOf (log : List Recorded) : String :=
  let causes := log.filterMap fun recorded => match recorded.event with
    | .deadlineReached _ => some "the run deadline passed before it finished"
    | .nodeFailed _ .do_ _ error _ => some error
    | _ => none
  causes.getLast?.getD "the run failed"

def NodeKind.hasUndo : NodeKind → Bool
  | .step undo _ | .child undo _ | .command undo _ => undo
  | _ => false

def NodeKind.keeps : NodeKind → Bool
  | .step _ keeps | .command _ keeps => keeps
  | _ => false

structure CompensateOptions where
  cause : Option String
  cancelling : Bool
  doneNow : Option (String × Value)
  undoneNow : Nat

def CompensateOptions.onward : CompensateOptions := ⟨none, false, none, 0⟩

section Compensate

variable (def_ : WorkflowDef) (run : Run) (env : Env)

def endOf (options : CompensateOptions) : RunEvent :=
  if run.row.cancelledAt.isSome ∨ options.cancelling then .runCancelled env.now (def_.keepUntil .cancelled env.now)
  else .runFailed (options.cause.getD (causeOf run.log)) env.now (def_.keepUntil .failed env.now)

def undoAll (options : CompensateOptions) : List Done → List RunEvent
  | [] => [endOf def_ run env options]
  | item :: rest =>
    let skip (cause : SkipCause) (reason : String) : List RunEvent :=
      .nodeSkipped item.path .undo cause reason env.now :: undoAll options rest
    let kind := (def_.node item.path).map (·.kind)
    -- an accepted failure did nothing
    if kind.any (·.keeps) ∧ isRefused item.result then skip .noUndo "the command was refused, so it did nothing to undo"
    else if kind.any (·.hasUndo) then [.nodeScheduled item.path .undo 1 (undoKey run.row.id item) none env.now]
    else if kind.any (·.isFan) then
      if (def_.node item.path).any (·.isDetached) then skip .detached "the child was detached, so it is left running"
      else if env.kids.any fun kid => kid.parentPath = some (childBase item.path item.visit) && kid.state = .completed then []
      else .nodeCompleted item.path .undo .null none env.now :: undoAll options rest
    else skip .noUndo "the step declares no undo"

/-- One step of compensation. While a child that the run waits for is unfinished, nothing moves. -/
def compensate (options : CompensateOptions) : List RunEvent :=
  if env.kids.any def_.waitsForKid then []
  else undoAll def_ run env options (def_.remainingUndos run.settled options.doneNow options.undoneNow)

def compensatingReason : String := "the run began compensating"

/-- The node that a run is on when compensation starts: the events that drop it, and whether it is in flight. A
job that a worker holds or tried may have done its work: it stays. -/
def dropCurrentNode : List RunEvent × Bool :=
  match run.row.node with
  | none => ([], false)
  | some node =>
    match run.steps.lookup (node, .do_) with
    | none => ([], false)
    | some step =>
      let dropped : List RunEvent := [.nodeSkipped node .do_ .compensating compensatingReason env.now]
      if step.status ≠ .scheduled then ([], false)
      else if run.row.state = .parked then (dropped, false)
      else if step.jobId.isNone ∨ 1 < step.attempt ∨ env.tried ∨ env.held then ([], true)
      else (dropped, false)

/-- `head`, then the start of compensation, the drop of the node the run is on (unless `head` closes it) and the
first undo. A queued run never ran: it ends at once. -/
def beginCompensation (head : List RunEvent) (closed : Bool) (cause : Option String) (cancelling : Bool) : List RunEvent :=
  let next := compensate def_ run env ⟨cause, cancelling, none, 0⟩
  if run.row.state = .queued then head ++ next
  else
    let (dropped, inFlight) := if closed then ([], false) else dropCurrentNode run env
    head ++ [.compensationStarted env.now] ++ dropped ++ if inFlight then [] else next

def deadlineCause : String := "the run deadline passed before it finished"

def deadlineEvents : List RunEvent :=
  beginCompensation def_ run env [.deadlineReached env.now] false (some deadlineCause) false

def pastDeadline (row : Row) (now : Nat) : Bool := row.deadlineAt.any (· ≤ now)

def attemptOf (path : String) : Nat := max (((run.steps.lookup (path, .do_)).map (·.attempt)).getD 1) 1

def failWait (path error : String) : List RunEvent :=
  beginCompensation def_ run env [.nodeFailed path .do_ (attemptOf run path) error env.now] true (some error) false

def deadNode (path error : String) : List RunEvent :=
  let failed : RunEvent := .nodeFailed path .do_ (attemptOf run path) error env.now
  if def_.waitsOnDeadStep then [failed] else beginCompensation def_ run env [failed] true (some error) false

end Compensate

end Arki.Workflow
