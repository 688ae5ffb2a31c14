import Arki.Library.Run
import Arki.Workflow.Limits

/-! Starts, queued runs and the limit verbs, over any number of runs.

Each action is one transaction. It names the definitions that its process registered, what its clock
reads each time it is asked, and the database's `now()`.
-/

set_option autoImplicit false

namespace Arki.Workflow

open Arki.Journal (Value)

inductive Delay where
  | by_ (ms : Nat)
  | until_ (time : Nat)

structure StartTiming where
  startAt : Option Nat
  due : Nat
  ttlAt : Option Nat
  ttlMs : Option Nat

def startTiming (delay : Option Delay) (ttl : Option Nat) (now : Nat) : StartTiming :=
  let wanted := match delay with
    | none => now
    | some (.by_ ms) => now + ms
    | some (.until_ time) => time
  let startAt := if now < wanted then some wanted else none
  let due := startAt.getD now
  ⟨startAt, due, ttl.map (due + ·), ttl⟩

structure Parent where
  id : String
  path : String
  scope : Option String

structure StartArgs where
  runId : String
  input : Value
  scope : Option String
  delay : Option Delay
  ttl : Option Nat

inductive AdmissionRefusal where
  | refuse
  | queue
  deriving DecidableEq

structure StartHow where
  parent : Option Parent
  refusal : AdmissionRefusal
  trigger : Option Nat
  results : Results

structure WorkflowBusy where
  name : String
  key : Option String
  limit : Nat
  running : List String
  limitName : String
  reason : BusyReason
  deriving DecidableEq

inductive StartRefusal where
  | workflowUnknown
  | workflowVersionRetired
  | badDefinition
  | conflict
  | busy (busy : WorkflowBusy)
  deriving DecidableEq

inductive Admission where
  | open_
  | joins (runId : String)
  | queues (block : LimitBlock)
  | refuses (busy : WorkflowBusy)

def admitStart (gate : Gate) (def_ : WorkflowDef) (key : Option String) (parent : Option Parent) (scope : Option String)
    (refusal : AdmissionRefusal) (now : Nat) : Admission :=
  match gate.blocking ⟨def_.heldLimits, key, def_.concurrency.isSome⟩ now with
  | none => .open_
  | some block =>
    let onBusy := def_.concurrency.map (·.onBusy)
    if onBusy = some .queue then .queues block
    else if block.reason = .paused then
      if refusal = .queue then .queues block
      else .refuses ⟨def_.name, key, 0, [], block.limit.name, .paused⟩
    else
      let ownScope := gate.holdersIn block key scope
      let refused : Admission :=
        if refusal = .queue then .queues block
        else .refuses ⟨def_.name, key, block.value, ownScope, block.limit.name, .full⟩
      match ownScope with
      | oldest :: _ =>
        if block.perKey ∧ block.limit.workflow.isSome ∧ onBusy = some .join ∧ parent.isNone then .joins oldest else refused
      | [] => refused

def concurrencyKeyOf (def_ : WorkflowDef) (input : Value) : Except StartRefusal (Option String) :=
  match def_.concurrency.bind (·.key) with
  | none => .ok none
  | some keyOf =>
    let key := keyOf input
    if key = "" ∨ 256 < key.length then .error .badDefinition else .ok (some key)

def firstKeyOf (runId path : String) : String := runId ++ ":" ++ path ++ ":do"

def Registry.newestVersionOf (registry : Registry) (name : String) : Nat :=
  ((registry.filter fun def_ => def_.name = name).map (·.version)).foldr max 0

structure Entry where
  registry : Registry
  gate : Gate
  def_ : WorkflowDef
  row : Row
  now : Nat
  dbNow : Nat
  dequeued : Bool

structure World where
  runs : AList fun _ : String => Run
  limits : AList fun _ : String => LimitRow
  nextSeq : Nat
  entries : List Entry

namespace World

def start : World := ⟨∅, ∅, 1, []⟩

def rows (world : World) : List Row := world.runs.entries.map fun entry => entry.2.row

def gate (world : World) : Gate := ⟨world.rows, world.limits.lookup⟩

def put (world : World) (id : String) (run : Run) (count : Nat) : World :=
  { world with runs := world.runs.insert id run, nextSeq := world.nextSeq + count }

def enter (world : World) (entry : Entry) : World := { world with entries := entry :: world.entries }

/-- What `startRun` stores of a run. -/
def startedOf (def_ : WorkflowDef) (args : StartArgs) (how : StartHow) (key : Option String) (now : Nat) : RunStarted :=
  let timing := if how.parent.isNone then startTiming args.delay args.ttl now else startTiming none none now
  { name := def_.name
    workflowVersion := def_.version
    shape := def_.shape
    shapeHash := def_.shapeHash
    input := args.input
    deadlineAt := def_.deadline.map (timing.due + ·)
    parentId := how.parent.map (·.id)
    parentPath := how.parent.map (·.path)
    concurrencyKey := key
    scope := match how.parent with
      | none => args.scope
      | some parent => parent.scope
    startAt := timing.startAt
    ttlAt := timing.ttlAt
    ttlMs := timing.ttlMs
    limits := def_.sharedLimits.map (·.name)
    triggerSeq := how.trigger
    results := how.results
    time := now }

def sameStart (row : Row) (data : RunStarted) : Bool :=
  row.name = data.name && row.workflowVersion = data.workflowVersion && row.input = data.input &&
    row.parentId = data.parentId && row.parentPath = data.parentPath && row.scope = data.scope

def startRun (world : World) (registry : Registry) (ref : DefRef) (args : StartArgs) (how : StartHow) (clock : Nat → Nat)
    (dbNow : Nat) : Except StartRefusal (World × String) := do
  let some def_ := registry.get ref | .error .workflowUnknown
  if how.parent.isNone ∧ def_.version < registry.newestVersionOf def_.name then
    .error .workflowVersionRetired
  let some first := def_.nodes.head? | .error .badDefinition
  let key ← concurrencyKeyOf def_ args.input
  let now := clock 0
  let data := startedOf def_ args how key now
  match world.runs.lookup args.runId with
  | some run => if sameStart run.row data then return (world, args.runId) else .error .conflict
  | none =>
    match admitStart world.gate def_ key how.parent data.scope how.refusal (clock 1) with
    | .refuses busy => .error (.busy busy)
    | .joins runId => return (world, runId)
    | .queues block =>
      let run := Run.create args.runId world.nextSeq data [.runQueued block.limit.name block.reason data.ttlAt now]
      return (world.put args.runId run 2, args.runId)
    | .open_ =>
      let due := data.startAt.getD now
      let run := Run.create args.runId world.nextSeq data
        [.nodeScheduled first.name .do_ 1 (firstKeyOf args.runId first.name) none due]
      let entry : Entry := ⟨registry, world.gate, def_, .create args.runId data, clock 1, dbNow, false⟩
      return ((world.enter entry).put args.runId run 2, args.runId)

def judge (world : World) (registry : Registry) (row : Row) (now : Nat) : Except PromoteSkip (WorkflowDef × ShapeNode) :=
  match codeOf registry row, row.shape.head? with
  | some code, some first =>
    match world.gate.blocking ⟨code.heldLimits, row.concurrencyKey, true⟩ now with
    | some block => .error (.limit block.limit (if block.perKey then row.concurrencyKey else none))
    | none => .ok (code, first)
  | _, _ => .error (.run row.id)

/-- A queued run starts: its first node is due at its `startAt`, or now. -/
def dequeue (world : World) (run : Run) (first : ShapeNode) (now : Nat) : World :=
  let due := max (run.row.startAt.getD now) now
  world.put run.row.id (run.write world.nextSeq
    [.runDequeued now, .nodeScheduled first.name .do_ 1 (firstKeyOf run.row.id first.name) none due]) 2

/-- Start the oldest queued runs that fit, with at most `tries` looks. -/
def promoteQueued (registry : Registry) (among : List HeldLimit) (key : Option String) (dbNow : Nat) :
    Nat → (Nat → Nat) → List PromoteSkip → World → World × List PromoteSkip
  | 0, _, skips, world => (world, skips)
  | tries + 1, clock, skips, world =>
    match world.gate.oldestQueued among key skips dbNow with
    | none => (world, skips)
    | some row =>
      match world.runs.lookup row.id with
      | none => (world, skips)
      | some run =>
        let next := promoteQueued registry among key dbNow tries fun reading => clock (reading + 1)
        match world.judge registry run.row (clock 0) with
        | .error skip => next (skips ++ [skip]) world
        | .ok (code, first) =>
          let entry : Entry := ⟨registry, world.gate, code, run.row, clock 0, dbNow, true⟩
          next skips ((world.enter entry).dequeue run first (clock 0))

def promoteTries : Nat := 50

def queues (registry : Registry) : Bool :=
  registry.any fun def_ => def_.concurrency.any (·.onBusy = .queue) || def_.startsWithEvent

def promoteAfterEnd (world : World) (registry : Registry) (row : Row) (clock : Nat → Nat) (dbNow : Nat) : World :=
  if !queues registry then world
  else
    match codeOf registry row with
    | none => world
    | some code =>
      if code.concurrency.isNone then world
      else
        let among := code.heldLimits
        let promote (key : Option String) := promoteQueued registry among key dbNow promoteTries
        let (world, skips) := if row.concurrencyKey.isNone then (world, []) else promote row.concurrencyKey clock [] world
        (promote none (fun reading => clock (reading + promoteTries)) skips world).1

end World

/-- What another write may record on a queued run: it never ran, so it moves, gets a signal, or ends. -/
def RunEvent.fitsQueued : RunEvent → Bool
  | metadataChanged _ | runTagged _ | signalReceived .. | runRescheduled .. | deadlineReached _ | cancelRequested ..
  | runFailed .. | runCancelled .. | runExpired .. => true
  | _ => false

def RunEvent.ofGate : RunEvent → Bool
  | runStarted _ | runQueued .. | runDequeued _ => true
  | _ => false

/-- A run that is over takes nothing more, but a completed one may be reopened to undo its work. -/
def Row.mayRecord (row : Row) (events : List RunEvent) : Bool :=
  (row.finishedAt.isNone || row.state = .completed) &&
    events.all fun event => !event.ofGate && (row.state ≠ .queued || event.fitsQueued)

structure KnownLimit where
  held : HeldLimit
  gated : Bool
  keyed : Bool

def WorkflowDef.keyed (def_ : WorkflowDef) : Bool := (def_.concurrency.bind (·.key)).isSome

def Registry.knownLimit (registry : Registry) (name : String) : Option KnownLimit :=
  let newest (def_ : WorkflowDef) : Bool := def_.version = registry.newestVersionOf def_.name
  let own := (registry.find? fun def_ => newest def_ && def_.ownLimit.name = name).map fun def_ =>
    (⟨def_.ownLimit, def_.concurrency.isSome, def_.keyed⟩ : KnownLimit)
  let holders := registry.filter fun def_ => def_.sharedLimits.any (·.name = name)
  let shared := (holders.flatMap (·.sharedLimits)).find? (·.name = name)
  (shared.map fun limit => ⟨limit.held, true, holders.any (·.keyed)⟩) <|> own

inductive LimitVerb where
  | overrideKey (key : String) (perKey ttl : Nat)
  | override (total perKey : Option Nat)
  | reset (key : Option String)
  | pause
  | resume
  deriving DecidableEq

inductive LimitRefusal where
  | notFound
  | invalid
  deriving DecidableEq

def LimitVerb.allowed (verb : LimitVerb) (known : KnownLimit) : Bool :=
  match verb with
  | overrideKey .. => known.gated && known.keyed
  | override _ perKey => known.gated && (perKey.isNone || known.keyed)
  | reset _ | pause | resume => true

def LimitVerb.events (verb : LimitVerb) (row : Option LimitRow) (now : Nat) : List LimitEvent :=
  match verb with
  | overrideKey key perKey ttl =>
    [.limitKeyOverridden key perKey (now + ttl) ((row.map fun row => expiredKeys row.keys now).getD [])]
  | override total perKey => [.limitOverridden total perKey]
  | reset key => if row.isNone ∨ key.any (fun key => (row.bind (·.keys.lookup key)).isNone) then [] else [.limitReset key]
  | pause => if row.any (·.paused) then [] else [.limitPaused]
  | resume => if row.any (·.paused) then [.limitResumed] else []

namespace World

def setLimit (world : World) (name : String) (row : LimitRow) : World :=
  { world with limits := world.limits.insert name row }

def changeLimit (world : World) (registry : Registry) (name : String) (verb : LimitVerb) (clock : Nat → Nat) (dbNow : Nat) :
    Except LimitRefusal World :=
  match registry.knownLimit name with
  | none => .error .notFound
  | some known =>
    if !verb.allowed known then .error .invalid
    else
      let row := world.limits.lookup name
      match verb.events row (clock 0) with
      | [] => .ok world
      | events =>
        let changed := world.setLimit name (events.foldl LimitRow.on (row.getD .unchanged))
        if events.any (· ≠ .limitPaused) then
          .ok (promoteQueued registry [known.held] none dbNow promoteTries (fun reading => clock (reading + 1)) [] changed).1
        else .ok changed

def promoteLimit (world : World) (registry : Registry) (name : String) (clock : Nat → Nat) (dbNow : Nat) : World :=
  match registry.knownLimit name with
  | none => world
  | some known =>
    if known.gated then (promoteQueued registry [known.held] none dbNow promoteTries clock [] world).1 else world

def record (world : World) (registry : Registry) (id : String) (events : List RunEvent) (clock : Nat → Nat) (dbNow : Nat) :
    Option World :=
  match world.runs.lookup id with
  | none => none
  | some run =>
    if run.row.mayRecord events then
      let written := run.write world.nextSeq events
      let world := world.put id written events.length
      some (if events.any (·.ends) then world.promoteAfterEnd registry written.row clock dbNow else world)
    else none

def prune (world : World) (id : String) : World :=
  match world.runs.lookup id with
  | some run => if run.row.finishedAt.isSome then { world with runs := world.runs.erase id } else world
  | none => world

end World

inductive Deed where
  | startRun (ref : DefRef) (args : StartArgs) (how : StartHow)
  | record (id : String) (events : List RunEvent)
  | changeLimit (name : String) (verb : LimitVerb)
  | promoteLimit (name : String)
  | prune (id : String)

structure Action where
  registry : Registry
  clock : Nat → Nat
  dbNow : Nat
  deed : Deed

def World.step (world : World) (action : Action) : Option World :=
  match action.deed with
  | .startRun ref args how =>
    (world.startRun action.registry ref args how action.clock action.dbNow).toOption.map (·.1)
  | .record id events => world.record action.registry id events action.clock action.dbNow
  | .changeLimit name verb => (world.changeLimit action.registry name verb action.clock action.dbNow).toOption
  | .promoteLimit name => some (world.promoteLimit action.registry name action.clock action.dbNow)
  | .prune id => some (world.prune id)

end Arki.Workflow
