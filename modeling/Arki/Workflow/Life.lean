import Arki.Workflow.Doors

/-! The life of one run: every transaction that writes it, in any order.

What the transactions read of other runs, of the log and of the clocks is their environment's, and arbitrary. A worker may
run a job any number of times, also after the run moved on.
-/

set_option autoImplicit false

namespace Arki.Workflow

open Arki.Journal (Value)

structure Committed where
  path : String
  seq : Nat
  deriving DecidableEq

structure Life where
  run : Run
  nextSeq : Nat
  commands : List Committed

def Run.recordKey (run : Run) (path : String) (attempt : Nat) (key : String) : Run :=
  match run.steps.lookup (path, .do_) with
  | some step =>
    if step.attempt = attempt ∧ (step.status = .scheduled ∨ step.status = .failed) then
      { run with steps := run.steps.insert (path, .do_) { step with key := some key } }
    else run
  | none => run

inductive Move where
  /-- An attempt of the job that the event `job` queued reports. -/
  | checkpoint (job : Nat) (path : String) (phase : StepPhase) (attempt : Nat) (outcome : Outcome)
  | commandNode (job : Nat) (path : String) (phase : StepPhase) (attempt : Nat) (key : String) (tried : CommandTried)
  | recordKey (path : String) (attempt : Nat) (key : String)
  | fire (timer : Timer)
  | deliverSignal (delivery : Delivery)
  | wakeWait (path : String)
  | cancelRun (reason : String)
  | compensateChild (reason : String) (reopen : Bool)
  | wakeParent (base : String)
  | failChildrenNode (path error : String)
  | retryStep (path : String) (phase : StepPhase) (dead : List (Option String))
  | resolveStep (path : String) (result : Value)
  | skipUndo (path reason : String)
  | reschedule (startAt : Nat) (unclaimed : Bool)
  | changeFields (tags : Bool)
  | dequeueRun

/-- One transaction. `gap` numbers were given to other entities since the last. -/
structure Turn where
  env : Env
  gap : Nat
  move : Move

namespace Life

def seqOf (life : Life) (turn : Turn) : Nat := life.nextSeq + turn.gap

def draftOf (def_ : WorkflowDef) (run : Run) (env : Env) : Move → Option (Draft × Bool)
  | .checkpoint _ path phase attempt outcome => (checkpoint def_ run env path phase attempt outcome).map (·, false)
  | .commandNode _ path phase attempt key tried => commandNode def_ run env path phase attempt key tried
  | .recordKey path attempt key => some (.idle (run.recordKey path attempt key), false)
  | .fire timer => (fire def_ run env timer).map (·, false)
  | .deliverSignal delivery => (deliverSignal def_ run env delivery).map (·.1, false)
  | .wakeWait path => (wakeWait def_ run env path).map (·, false)
  | .cancelRun reason => (cancelRun def_ run env reason).map (·, false)
  | .compensateChild reason reopen => some (compensateChild def_ run env reason reopen, false)
  | .wakeParent base => (wakeParent def_ run env base).map (·.1, false)
  | .failChildrenNode path error => some (failChildrenNode def_ run env path error, false)
  | .retryStep path phase dead => (retryStep def_ run env path phase dead).map (·, false)
  | .resolveStep path result => (resolveStep def_ run env path result).map (·, false)
  | .skipUndo path reason => (skipUndo def_ run env path reason).map (·, false)
  | .reschedule startAt unclaimed => (reschedule run env startAt unclaimed).map (·, false)
  | .changeFields tags => (changeFields run env tags).map (·, false)
  | .dequeueRun => some (dequeueRun run env, false)

def step (def_ : WorkflowDef) (life : Life) (turn : Turn) : Option Life :=
  (draftOf def_ life.run turn.env turn.move).map fun (draft, committed) =>
    let seq := life.seqOf turn
    { run := draft.commit seq
      nextSeq := seq + draft.events.length
      commands := match turn.move with
        | .commandNode _ path .do_ .. => if committed then ⟨path, seq⟩ :: life.commands else life.commands
        | _ => life.commands }

end Life

/-! What the workers send. -/

def attemptWait (node : Node) (view : View) : Option String × List WaitKey :=
  match node.kind with
  | .waitFor wait _ => (some wait.signal, [])
  | .eventWait sources _ =>
    let text := " | ".intercalate (sources.map (·.label))
    (some (String.ofList (text.toList.take 128)),
      sources.map fun source => ⟨source.label, source.entityKind, source.matches_ view, source.types⟩)
  | _ => (none, [])

def Node.sends (node : Node) : StepPhase → Outcome → Prop
  | .do_, .completed _ _ resolvedBy => match node.kind with
    | .step .. | .map .. => True
    | .command .. => resolvedBy.isSome
    | _ => False
  | .do_, .skipped .. => match node.kind with
    | .step .. | .waitFor .. | .eventWait .. => True
    | _ => False
  | .do_, .children _ => node.kind.isFan
  | .do_, .park waitingFor _ keys => node.kind.isWait ∧ ∃ view, (waitingFor, keys) = attemptWait node view
  | .do_, .retry .. | .do_, .dead _ | .do_, .transitionLimit _ | .do_, .expired => True
  | .undo, .undone _ => node.kind.hasUndo
  | .undo, .retry .. | .undo, .dead _ => True
  | _, _ => False

/-- The event numbered `job` queued this attempt. -/
def Run.queuedJob (run : Run) (job : Nat) (path : String) (phase : StepPhase) (attempt : Nat) : Prop :=
  ∃ key resolution due, ⟨job, .nodeScheduled path phase attempt key resolution due⟩ ∈ run.log

/-- A checkpoint comes from an attempt of a job that was queued once, and a delivery gets a new id. -/
def Life.fair (def_ : WorkflowDef) (life : Life) (turn : Turn) : Prop :=
  match turn.move with
  | .checkpoint job path phase attempt outcome =>
    life.run.queuedJob job path phase attempt ∧ ∃ node, def_.node path = some node ∧ node.sends phase outcome
  | .commandNode job path phase attempt _ _ => life.run.queuedJob job path phase attempt
  -- each row of a signal gets an id of its own
  | .deliverSignal delivery => ∀ signal ∈ life.run.signals, signal.id ≠ delivery.id
  | _ => True

inductive Life.Begins (def_ : WorkflowDef) : Life → Prop where
  | scheduled (id : String) (seq : Nat) (data : RunStarted) (first : Node) (due : Nat) (shape : data.shape = def_.shape)
      (head : def_.nodes.head? = some first) :
      Life.Begins def_ ⟨Run.create id seq data [.nodeScheduled first.name .do_ 1 (firstKeyOf id first.name) none due], seq + 2, []⟩
  | queued (id : String) (seq : Nat) (data : RunStarted) (limitName : String) (reason : BusyReason) (ttlAt : Option Nat)
      (time : Nat) (shape : data.shape = def_.shape) (filled : def_.nodes ≠ []) :
      Life.Begins def_ ⟨Run.create id seq data [.runQueued limitName reason ttlAt time], seq + 2, []⟩

def Life.Reaches (def_ : WorkflowDef) (life : Life) : Prop :=
  ∃ start, Life.Begins def_ start ∧ Arki.Run.Reach (Life.step def_) (Life.fair def_) start life

end Arki.Workflow
