import Arki.Journal.Value
import Arki.Library.Table

/-! The journal's job tables and its events, row by row.

Times are database times in milliseconds. `journal_job_operations`, the audit of
the operator verbs, is written by them and read by none, so it is left out.
-/

set_option autoImplicit false

namespace Arki.Journal

inductive ErrorCode where
  | conflict
  | forwardPending
  | forwardDiverged
  | forwardBehind
  | idMismatch
  | jobNotDead
  | jobNotPending
  | jobRunning
  | jobExists
  | jobManaged
  | badArgument
  | leaseLost
  | ignoredFailure
  | invalidAccept
  | badDefinition
  | unstableSchema
  | unknownEvent
  | noRow
  | rowExists
  | noHistory
  | historyGap
  | replayFailed
  | versionMismatch
  | valueMismatch
  | uniqueViolation
  deriving DecidableEq, Repr

/-- What a refused operation throws. `forwardBehind` is the worker's own class of error, and
`uniqueViolation` the database's: the others are `JournalError` codes. -/
structure JournalError where
  code : ErrorCode
  kind : String
  id : String
  detail : String
  deriving DecidableEq, Repr

/-- One row of `journal_events`. -/
structure StoredEvent where
  seq : Nat
  id : String
  kind : String
  entityId : String
  version : Nat
  type : String
  data : Value
  stamped : Value
  recordedAt : Nat
  commandId : Option String
  causeSeq : Option Nat
  correlationId : Option String
  erasedAt : Option Nat
  schemaVersion : Nat
  deriving DecidableEq

def streamOf (kind entityId : String) : String := kind ++ "/" ++ entityId

/-- The columns that a job's kind decides. Each kind sets its own and leaves the others' empty. -/
inductive JobBody where
  | effect (name : String) (eventSeq : Option Nat) (args : StoredEvent)
  | queue (jobName : String) (dedupeKey : Option String) (args : Value)
  | forward (jobName : String) (events : List StoredEvent)
  deriving DecidableEq

def JobBody.isForward : JobBody → Bool
  | .forward .. => true
  | _ => false

def JobBody.effectName : JobBody → Option String
  | .effect name .. => some name
  | _ => none

def JobBody.copies : JobBody → List StoredEvent
  | .effect _ _ args => [args]
  | .queue .. => []
  | .forward _ events => events

/-- What a job runs and where it stands in line: the columns that the archive keeps and a replay
restores. A forward job is always in a stream. -/
structure Work where
  body : JobBody
  stream : Option (String × Nat)
  priority : Int
  placed : body.isForward = true → stream.isSome = true
  deriving DecidableEq

/-- One row of `journal_jobs`. -/
structure Job where
  id : String
  work : Work
  attempts : Nat
  availableAt : Nat
  enqueuedAt : Nat
  replayOf : Option String
  leaseUntil : Option Nat
  leaseToken : Option String
  lastError : Option String
  deadAt : Option Nat
  runId : Option String
  deriving DecidableEq

inductive AttemptOutcome where
  | ok
  | retry
  | dead
  | superseded
  deriving DecidableEq, Repr

/-- One row of `journal_job_attempts`. It is open while `finishedAt` is null. -/
structure JobAttempt where
  id : String
  jobId : String
  attempt : Nat
  startedAt : Nat
  finishedAt : Option Nat
  outcome : Option AttemptOutcome
  error : Option String
  deriving DecidableEq, Repr

inductive ArchiveOutcome where
  | completed
  | dead
  | discarded
  | cancelled
  deriving DecidableEq, Repr

/-- An attempt as the archive's `attempt_log` holds it. -/
structure LoggedAttempt where
  attempt : Nat
  startedAt : Nat
  finishedAt : Nat
  outcome : AttemptOutcome
  error : Option String
  deriving DecidableEq, Repr

/-- One row of `journal_job_archive`. -/
structure ArchivedJob where
  id : String
  work : Work
  enqueuedAt : Nat
  attempts : Nat
  lastError : Option String
  outcome : ArchiveOutcome
  attemptLog : List LoggedAttempt
  replayOf : Option String
  finishedAt : Nat
  archivedAt : Nat
  keepUntil : Option Nat
  exportedAt : Option Nat
  runId : Option String
  deriving DecidableEq

structure Tables where
  jobs : List Job
  attempts : List JobAttempt
  archive : List ArchivedJob
  deriving DecidableEq

def Tables.empty : Tables := ⟨[], [], []⟩

def JobAttempt.isOpen (row : JobAttempt) : Bool := row.finishedAt.isNone

/-- `where job_id = id and finished_at is null`. -/
def JobAttempt.openOf (id : String) (row : JobAttempt) : Bool := row.jobId == id && row.isOpen

def JobBody.effectEvent : JobBody → Option (String × String)
  | .effect name _ args => some (args.id, name)
  | _ => none

def JobBody.eventSeqEffect : JobBody → Option (Nat × String)
  | .effect name (some eventSeq) _ => some (eventSeq, name)
  | _ => none

def JobBody.dedupe : JobBody → Option (String × String)
  | .queue jobName (some dedupeKey) _ => some (jobName, dedupeKey)
  | _ => none

def clash {Key : Type} [DecidableEq Key] (left right : Option Key) : Bool := left.isSome && left == right

/-- The unique indexes of `journal_jobs`: a row with this id and work cannot stand beside `other`. -/
def conflicts (id : String) (work : Work) (other : Job) : Bool :=
  id == other.id ||
  clash work.body.eventSeqEffect other.work.body.eventSeqEffect ||
  clash work.stream other.work.stream ||
  clash work.body.effectEvent other.work.body.effectEvent ||
  clash work.body.dedupe other.work.body.dedupe

end Arki.Journal
