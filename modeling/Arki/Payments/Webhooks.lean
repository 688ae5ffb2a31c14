import Mathlib.Data.List.Basic

/-! Deliveries of one webhook event: the claim of its row, the attempts, and what each of them writes.

The row and its event id are one here; a server reads one clock. A delivery that is cut short takes no further step.
-/

set_option autoImplicit false

namespace Arki.Payments.Webhooks

structure WebhookHandlerConfig where
  maxRetries : Nat
  processingLeaseMs : Int
  enableAsync : Bool

structure WebhookEvent where
  processed : Bool
  attempts : Nat
  lastAttemptAt : Option Int
  errorMessage : Option String
  deriving DecidableEq

inductive AttemptPhase where
  | handling
  | handled
  | marked
  | failing (errorMessage : String)
  | failed
  | done
  | gone
  deriving DecidableEq

structure Attempt where
  /-- What the claim wrote as `last_attempt_at`. -/
  began : Int
  first : Bool
  completed : Bool
  phase : AttemptPhase
  deriving DecidableEq

def Attempt.isRunning (attempt : Attempt) : Bool :=
  match attempt.phase with
  | .failed | .done | .gone => false
  | _ => true

inductive Answer where
  | processed
  | queued
  | duplicate
  | retriesExhausted (attempts : Nat)
  | inProgress
  | refused
  deriving DecidableEq

/-- Where a delivery, or a sweep of `retryFailedWebhooks` at this event, stands. -/
inductive CallerPhase where
  | received
  | conflicted
  | seen (processed : Bool) (attempts : Nat)
  | reclaiming (seenAttempts : Nat) (leaseCutoff : Int)
  | givingUp
  | attempting (number : Nat)
  | answered (answer : Answer)
  | finished
  deriving DecidableEq

inductive CallerKind where
  | delivery
  | sweep
  deriving DecidableEq

structure Caller where
  kind : CallerKind
  phase : CallerPhase
  deriving DecidableEq

structure World where
  clock : Int
  row : Option WebhookEvent
  /-- In the order of their claims. -/
  attempts : List Attempt
  callers : List Caller
  deriving DecidableEq

def claimWebhookEvent (lastAttemptAt : Int) : WebhookEvent := ⟨false, 1, some lastAttemptAt, none⟩

/-- Take over an unprocessed event: failed, or begun before the cutoff, and nobody else since it was read. -/
def reclaimWebhookEvent (row : WebhookEvent) (seenAttempts : Nat) (leaseCutoff attemptAt : Int) : Option WebhookEvent :=
  if !row.processed && row.attempts == seenAttempts &&
      (row.errorMessage.isSome || row.lastAttemptAt.all (decide <| · < leaseCutoff)) then
    some { row with attempts := row.attempts + 1, lastAttemptAt := some attemptAt, errorMessage := none }
  else none

inductive Action where
  | tick (milliseconds : Nat)
  | deliver
  /-- `findUnprocessedWebhookEvents` listed the row. -/
  | list
  | claim (caller : Nat) (lastAttemptAt : Int)
  | read (caller : Nat)
  | decide_ (caller : Nat)
  | reclaim (caller : Nat) (attemptAt : Int)
  | giveUp (caller : Nat)
  | handle (number : Nat) (outcome : Option String)
  | mark (number : Nat)
  /-- The mark threw; its commit may be in the database all the same. -/
  | markThrows (number : Nat) (committed : Bool) (errorMessage : String)
  | emitThrows (number : Nat) (errorMessage : String)
  | finish (number : Nat)
  | recordError (number : Nat)
  | crash (number : Nat)
  | answer (caller : Nat)
  deriving DecidableEq

def World.setCaller (world : World) (caller : Nat) (kind : CallerKind) (phase : CallerPhase) : World :=
  { world with callers := world.callers.set caller ⟨kind, phase⟩ }

def World.setAttempt (world : World) (number : Nat) (attempt : Attempt) : World :=
  { world with attempts := world.attempts.set number attempt }

def World.begin_ (config : WebhookHandlerConfig) (world : World) (caller : Nat) (kind : CallerKind) (row : WebhookEvent)
    (began : Int) (first : Bool) : World :=
  let number := world.attempts.length
  let phase := if config.enableAsync && kind == .delivery then .answered .queued else .attempting number
  { world with
    row := some row
    attempts := world.attempts ++ [⟨began, first, false, .handling⟩]
    callers := world.callers.set caller ⟨kind, phase⟩ }

def decideSeen (config : WebhookHandlerConfig) (clock : Int) (kind : CallerKind) (processed : Bool) (attempts : Nat) : CallerPhase :=
  let reclaim := CallerPhase.reclaiming attempts (clock - config.processingLeaseMs)
  match kind with
  | .delivery =>
    if processed then .answered .duplicate
    else if config.maxRetries ≤ attempts then .answered (.retriesExhausted attempts)
    else reclaim
  | .sweep => if attempts < config.maxRetries then reclaim else .givingUp

def answerOf (attempt : Attempt) : Option Answer :=
  match attempt.phase with
  | .done => some .processed
  | .failed | .gone => some .refused
  | _ => none

def step (config : WebhookHandlerConfig) (world : World) : Action → Option World
  | .tick milliseconds => some { world with clock := world.clock + milliseconds }
  | .deliver => some { world with callers := world.callers ++ [⟨.delivery, .received⟩] }
  | .list =>
    match world.row with
    | some row =>
      if row.processed then none
      else some { world with callers := world.callers ++ [⟨.sweep, .seen false row.attempts⟩] }
    | none => none
  | .claim caller lastAttemptAt =>
    match world.callers[caller]? with
    | some ⟨kind, .received⟩ =>
      if world.clock < lastAttemptAt then none
      else
        match world.row with
        | none => some (world.begin_ config caller kind (claimWebhookEvent lastAttemptAt) lastAttemptAt true)
        | some _ => some (world.setCaller caller kind .conflicted)
    | _ => none
  | .read caller =>
    match world.callers[caller]?, world.row with
    | some ⟨kind, .conflicted⟩, some row => some (world.setCaller caller kind (.seen row.processed row.attempts))
    | _, _ => none
  | .decide_ caller =>
    match world.callers[caller]? with
    | some ⟨kind, .seen processed attempts⟩ =>
      some (world.setCaller caller kind (decideSeen config world.clock kind processed attempts))
    | _ => none
  | .reclaim caller attemptAt =>
    match world.callers[caller]?, world.row with
    | some ⟨kind, .reclaiming seenAttempts leaseCutoff⟩, some row =>
      -- the attempt's time is read after the cutoff's and before the update runs
      if attemptAt < leaseCutoff + config.processingLeaseMs ∨ world.clock < attemptAt then none
      else
        match reclaimWebhookEvent row seenAttempts leaseCutoff attemptAt with
        | some taken => some (world.begin_ config caller kind taken attemptAt false)
        | none => some (world.setCaller caller kind (if kind = .delivery then .answered .inProgress else .finished))
    | _, _ => none
  | .giveUp caller =>
    match world.callers[caller]?, world.row with
    | some ⟨kind, .givingUp⟩, some row =>
      some { world.setCaller caller kind .finished with
        row := some { row with errorMessage := some "Max retry attempts exceeded" } }
    | _, _ => none
  | .handle number outcome =>
    match world.attempts[number]? with
    | some attempt =>
      if attempt.phase = .handling then
        match outcome with
        | none => some (world.setAttempt number { attempt with completed := true, phase := .handled })
        | some errorMessage => some (world.setAttempt number { attempt with phase := .failing errorMessage })
      else none
    | none => none
  | .mark number =>
    match world.attempts[number]?, world.row with
    | some attempt, some row =>
      if attempt.phase = .handled then
        some { world.setAttempt number { attempt with phase := .marked } with row := some { row with processed := true } }
      else none
    | _, _ => none
  | .markThrows number committed errorMessage =>
    match world.attempts[number]?, world.row with
    | some attempt, some row =>
      if attempt.phase = .handled then
        some { world.setAttempt number { attempt with phase := .failing errorMessage } with
          row := some { row with processed := row.processed || committed } }
      else none
    | _, _ => none
  | .emitThrows number errorMessage =>
    match world.attempts[number]? with
    | some attempt =>
      if attempt.phase = .marked then some (world.setAttempt number { attempt with phase := .failing errorMessage }) else none
    | none => none
  | .finish number =>
    match world.attempts[number]? with
    | some attempt => if attempt.phase = .marked then some (world.setAttempt number { attempt with phase := .done }) else none
    | none => none
  | .recordError number =>
    match world.attempts[number]?, world.row with
    | some ⟨began, first, completed, .failing errorMessage⟩, some row =>
      some { world.setAttempt number ⟨began, first, completed, .failed⟩ with
        row := some { row with errorMessage := some errorMessage } }
    | _, _ => none
  | .crash number =>
    match world.attempts[number]? with
    | some attempt => if attempt.isRunning then some (world.setAttempt number { attempt with phase := .gone }) else none
    | none => none
  | .answer caller =>
    match world.callers[caller]? with
    | some ⟨kind, .attempting number⟩ =>
      (world.attempts[number]?.bind answerOf).map fun answer =>
        world.setCaller caller kind (if kind = .delivery then .answered answer else .finished)
    | _ => none

def start (clock : Int) : World := ⟨clock, none, [], []⟩

def World.latestFailed (world : World) : Bool := world.attempts.getLast?.any (·.phase == .failed)

/-- An error is recorded by the latest attempt, or where it changes nothing: on a row that is processed, given up, or
failed already. -/
def recordsInTurn (config : WebhookHandlerConfig) (world : World) : Action → Bool
  | .recordError number =>
    number + 1 == world.attempts.length || world.latestFailed || world.row.any (·.processed) ||
      config.maxRetries ≤ world.attempts.length
  | _ => true

end Arki.Payments.Webhooks
