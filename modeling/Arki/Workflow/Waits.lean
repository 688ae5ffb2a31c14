import Mathlib.Data.Prod.Lex
import Mathlib.Data.String.Basic
import Arki.Library.Ordered
import Arki.Workflow.Compensation

/-! Routing, and the waits of a run: what wakes a `waitFor`, an event wait and a sleep, and where the run goes then. -/

set_option autoImplicit false

namespace Arki.Workflow

open Arki.Journal (Value StoredEvent)

def storedEventValue (stored : StoredEvent) : Value :=
  .object
    [ ("seq", .number stored.seq), ("id", .string stored.id), ("kind", .string stored.kind)
    , ("entityId", .string stored.entityId), ("version", .number stored.version), ("type", .string stored.type)
    , ("data", stored.data), ("meta", stored.stamped), ("recordedAt", .number stored.recordedAt)
    , ("schemaVersion", .number stored.schemaVersion) ]

def storedWaitResult (label : String) (stored : StoredEvent) : Value :=
  .object [("via", .string label), ("event", storedEventValue stored)]

def waitPointer (label : String) (seq : Nat) : Value := .object [("seq", .number seq), ("via", .string label)]

def pointerOf : Value → Option (String × Nat)
  | .object fields =>
    match fields.lookup "via", fields.lookup "seq" with
    | some (.string label), some (.number seq) =>
      if label ≠ "" ∧ seq.den = 1 ∧ 0 < seq then some (label, seq.num.toNat) else none
    | _, _ => none
  | _ => none

def viewOf (def_ : WorkflowDef) (journal : List StoredEvent) (row : Row) (results : Results) : View where
  runId := row.id
  input := row.input
  results := results
  took name :=
    match def_.node name with
    | some ⟨_, .eventWait ..⟩ => do
      let (label, seq) ← (results.lookup name).bind pointerOf
      let stored ← journal.find? (·.seq = seq)
      return (label, stored)
    | _ => none

inductive Route where
  | node (name : String)
  | finish (output : Value) (keepUntil : Option Nat)

namespace WorkflowDef

variable (def_ : WorkflowDef)

def routeAt (env : Env) (target : Nat) (row : Row) (lastPath : String) (lastResult : Value) : Except String Route :=
  match def_.nodes[target]? with
  | some node => .ok (.node node.name)
  | none => do
    let produced ← def_.finish (viewOf def_ env.journal row (row.results.insert lastPath lastResult)) lastResult
    let parsed ← def_.output produced
    let output ← def_.storable "the output" parsed
    return .finish output (def_.keepUntil .completed env.now)

/-- `next` is the following node. Anything else must be an earlier one. -/
def jumpTarget (index : Nat) (target : String) : Except String Nat :=
  if target = "next" then .ok (index + 1)
  else
    let name := ((def_.nodes[index]?).map (·.name)).getD "undefined"
    let refused := "node '" ++ name ++ "' routed to '" ++ target ++ "', which is not an earlier node; next may only jump back"
    match def_.indexOf target with
    | some earlier => if earlier < index then .ok earlier else .error refused
    | none => .error refused

/-- The node after a wait, or where a sleep's `next` says. -/
def indexAfterWait (env : Env) (index : Nat) (row : Row) (result : Value) : Except String Nat :=
  match def_.nodes[index]? with
  | some ⟨name, .sleep (some next)⟩ =>
    def_.jumpTarget index (next (viewOf def_ env.journal row (row.results.insert name result)))
  | _ => .ok (index + 1)

def placeOf (path : String) : Nat := (def_.indexOf path).getD def_.nodes.length

end WorkflowDef

def eventsAfter (run : Run) (env : Env) : Route → List RunEvent
  | .node name => [.nodeScheduled name .do_ 1 (keyOfNextVisit run name) none env.now]
  | .finish output keepUntil => [.runCompleted output env.now keepUntil]

/-- The wait `path` is over with `result`: it completes and the run goes on. A route that fails now would fail again. -/
def completeWait (def_ : WorkflowDef) (run : Run) (env : Env) (path : String) (result : Value) : List RunEvent :=
  let index := def_.placeOf path
  let routed := do
    let target ← def_.indexAfterWait env index run.row result
    def_.routeAt env target run.row path result
  match routed with
  | .error error => failWait def_ run env path error
  | .ok route => .nodeCompleted path .do_ result none env.now :: eventsAfter run env route

/-! Signals. -/

def Signal.age (signal : Signal) : Nat ×ₗ String := toLex (signal.receivedAt, signal.id)

def Signal.awaits (signal : Signal) (name : String) : Bool := signal.name = name && signal.consumedAt.isNone

def oldestSignal (signals : List Signal) (name : String) : Option Signal :=
  (Ordered.inOrder Signal.age (signals.filter (·.awaits name))).head?

def Signal.take (path : String) (now : Nat) (signal : Signal) : Signal :=
  { signal with consumedAt := some now, consumedBy := some path }

/-- Mark the signal as taken by `path`. -/
def Run.takeSignal (run : Run) (signal : Signal) (path : String) (now : Nat) : Run :=
  { run with signals := Table.update run.signals (·.id = signal.id) (Signal.take path now) }

/-- A `waitFor` got its signal: the payload, read with the node's schema, is the node's result. -/
def wakeOnSignal (def_ : WorkflowDef) (run : Run) (env : Env) (path : String) (wait : SignalWait) (payload : Value) :
    List RunEvent :=
  match wait.schema payload with
  | .error error => failWait def_ run env path error
  | .ok parsed =>
    match def_.storable ("the payload of '" ++ path ++ "'") parsed with
    | .error error => failWait def_ run env path ("waitFor '" ++ path ++ "': " ++ error)
    | .ok value => completeWait def_ run env path value

/-! Events. -/

structure WaitKey where
  label : String
  entityKind : String
  entityId : String
  types : List String
  deriving DecidableEq

def WaitKey.after (key : WaitKey) (node : String) (afterSeq : Nat) : Wait :=
  ⟨node, key.label, key.entityKind, key.entityId, key.types, afterSeq⟩

def Wait.watches (wait : Wait) (stored : StoredEvent) : Bool :=
  stored.kind = wait.entityKind && stored.entityId = wait.entityId && wait.types.contains stored.type

/-- What the event waits of a run took so far: which node took it, and the event's `seq`. -/
def Run.takenBy (run : Run) : List (String × Nat) :=
  run.log.filterMap fun recorded => match recorded.event with
    | .waitEventTaken node _ seq .. => some (node, seq)
    | _ => none

/-- Where the event waits of a run begin to count: after the event that started it, or after `RunStarted`. -/
def Run.startSeq (run : Run) : Nat :=
  ((run.log.findSome? fun recorded => match recorded.event with
    | .runStarted data => some (data.triggerSeq.getD recorded.seq)
    | _ => none)).getD 0

/-- Where a visit of an event wait starts counting: after the last event that the node took. -/
def Run.waitStartOf (run : Run) (node : String) : Nat :=
  ((run.takenBy.reverse.find? (·.1 = node)).map (·.2)).getD run.startSeq

def labelFor (waits : List Wait) (view : View) (stored : StoredEvent) : List EventSource → Except String (Option String)
  | [] => .ok none
  | source :: rest =>
    if (waits.find? (·.label = source.label)).any (·.watches stored) then
      match source.wants view stored with
      | .error error => .error error
      | .ok true => .ok (some source.label)
      | .ok false => labelFor waits view stored rest
    else labelFor waits view stored rest

def firstEligible (sources : List EventSource) (waits : List Wait) (view : View) (used : List Nat) :
    List StoredEvent → Except String (Option (String × StoredEvent))
  | [] => .ok none
  | stored :: rest =>
    if used.contains stored.seq then firstEligible sources waits view used rest
    else
      match labelFor waits view stored sources with
      | .error error => .error error
      | .ok (some label) => .ok (some (label, stored))
      | .ok none => firstEligible sources waits view used rest

def waitReadBatch : Nat := 100

/-- One page of the log after `readTo`, in `seq` order. -/
def pageAfter (journal : List StoredEvent) (waits : List Wait) (readTo : Nat) : List StoredEvent :=
  (Ordered.inOrder (·.seq) (journal.filter fun stored => readTo < stored.seq && waits.any (·.watches stored))).take
    waitReadBatch

/-- Page after page, until one is short. Every page but the last moves `readTo`, so the log's length bounds the pages. -/
def readPages (sources : List EventSource) (waits : List Wait) (view : View) (used : List Nat) (journal : List StoredEvent) :
    Nat → Nat → Except String (Option (String × StoredEvent))
  | 0, _ => .ok none
  | pages + 1, readTo =>
    let found := pageAfter journal waits readTo
    match firstEligible sources waits view used found with
    | .error error => .error error
    | .ok (some taken) => .ok (some taken)
    | .ok none =>
      match found.getLast? with
      | some last =>
        if found.length < waitReadBatch then .ok none else readPages sources waits view used journal pages last.seq
      | none => .ok none

/-- The oldest event in the log that the wait may take, in `seq` order, which is commit order. -/
def oldestEligible (def_ : WorkflowDef) (sources : List EventSource) (run : Run) (env : Env) (waits : List Wait) :
    Except String (Option (String × StoredEvent)) :=
  -- the labels of one visit share one start
  let start := (waits.map (·.afterSeq)).min?
  match start with
  | none => .ok none
  | some start =>
    readPages sources waits (viewOf def_ env.journal run.row run.row.results) (run.takenBy.map (·.2)) env.journal
      (env.journal.length + 1) start

/-- The wait `path` takes `stored`: the taking is recorded, and a pointer to the event is the node's result. -/
def takeEvent (def_ : WorkflowDef) (run : Run) (env : Env) (path label : String) (stored : StoredEvent) : List RunEvent :=
  match def_.storable ("the event '" ++ path ++ "' took") (storedWaitResult label stored) with
  | .error error => failWait def_ run env path error
  | .ok _ =>
    .waitEventTaken path label stored.seq stored.id env.now
      :: completeWait def_ run env path (waitPointer label stored.seq)

/-- The run is parked on the event wait `path`: it takes what the log holds for it now, if anything. -/
def wakeOnEvent (def_ : WorkflowDef) (run : Run) (env : Env) (path : String) (sources : List EventSource) : List RunEvent :=
  match oldestEligible def_ sources run env (run.waits.filter (·.node = path)) with
  | .error error => failWait def_ run env path error
  | .ok none => []
  | .ok (some (label, stored)) => takeEvent def_ run env path label stored

end Arki.Workflow
