import Arki.Journal.Retention

/-! The worker's statements on a job: the claim, the lease renewal, the ack, and the two ways
an attempt ends without one. Each is one transaction, at the database time `now`.
-/

set_option autoImplicit false

namespace Arki.Journal

/-- What one drain was started with. `queueRetention` is the runner's, `effectOverride` the schedule's. -/
structure Drain where
  known : List String
  queued : List String
  forwarded : List String
  leaseMs : Nat
  policy : ResolvedRetention
  effectOverride : String → Option EffectRetention
  queueRetention : Job → Option EffectRetention

def Drain.takes (drain : Drain) : JobBody → Bool
  | .effect name .. => drain.known.contains name
  | .queue jobName .. => drain.queued.contains jobName
  | .forward jobName .. => drain.forwarded.contains jobName

def Work.behind (work : Work) (earlier : Job) : Bool :=
  match work.stream, earlier.work.stream with
  | some (stream, position), some (other, before) => other == stream && decide (before < position)
  | _, _ => false

def streamHead (jobs : List Job) (job : Job) : Bool := jobs.all fun earlier => !job.work.behind earlier

def due (drain : Drain) (now : Nat) (jobs : List Job) (job : Job) : Bool :=
  job.deadAt.isNone && decide (job.availableAt ≤ now) && job.leaseUntil.all (decide <| · ≤ now) &&
    drain.takes job.work.body && streamHead jobs job

/-- `order by priority desc, available_at asc`. -/
def comesBefore (left right : Job) : Bool :=
  decide (right.work.priority < left.work.priority) ||
    left.work.priority == right.work.priority && decide (left.availableAt < right.availableAt)

/-- The job `id` when it may come first among the due jobs that no other transaction locks. -/
def firstDue (drain : Drain) (now : Nat) (locked : List String) (id : String) (jobs : List Job) : Option Job :=
  let unlocked := jobs.filter fun job => due drain now jobs job && !locked.contains job.id
  (unlocked.find? (·.id == id)).filter fun first => unlocked.all fun other => !comesBefore other first

def Job.lease (now leaseMs : Nat) (token : String) (job : Job) : Job :=
  { job with leaseToken := some token, leaseUntil := some (now + leaseMs), attempts := job.attempts + 1 }

theorem Job.lease_id (now leaseMs : Nat) (token : String) (job : Job) : (job.lease now leaseMs token).id = job.id := rfl

def JobAttempt.supersede (now : Nat) (row : JobAttempt) : JobAttempt :=
  { row with finishedAt := some now, outcome := some .superseded }

theorem JobAttempt.supersede_jobId (now : Nat) (row : JobAttempt) : (row.supersede now).jobId = row.jobId := rfl

theorem JobAttempt.supersede_isOpen (now : Nat) (row : JobAttempt) : (row.supersede now).isOpen = false := rfl

def JobAttempt.close (now : Nat) (outcome : AttemptOutcome) (error : String) (row : JobAttempt) : JobAttempt :=
  { row with finishedAt := some now, outcome := some outcome, error := some error }

def openAttempt (id jobId : String) (attempt now : Nat) : JobAttempt where
  id := id
  jobId := jobId
  attempt := attempt
  startedAt := now
  finishedAt := none
  outcome := none
  error := none

/-- Take the lease of one due job and open its attempt row. An attempt still open belongs to a worker
whose lease ran out. The worker goes on with the row it gets back. -/
def claimOne (drain : Drain) (now : Nat) (locked : List String) (id token attempt : String)
    (tables : Tables) : Option (Job × Tables) :=
  match firstDue drain now locked id tables.jobs with
  | none => none
  | some first =>
    if tables.attempts.any (·.id == attempt) then none
    else
      let claimed := first.lease now drain.leaseMs token
      some (claimed, { tables with
        jobs := Table.update tables.jobs (·.id == id) (Job.lease now drain.leaseMs token)
        attempts := Table.update tables.attempts (JobAttempt.openOf id) (JobAttempt.supersede now) ++
          [openAttempt attempt id claimed.attempts now] })

/-- `where id = job.id and lease_token = job.leaseToken`: the row is still this worker's. -/
def holds (held row : Job) : Bool := row.id == held.id && row.leaseToken == some (held.leaseToken.getD "")

def renew (drain : Drain) (now : Nat) (held : Job) (tables : Tables) : Tables :=
  { tables with
    jobs := Table.update tables.jobs (holds held) fun job => { job with leaseUntil := some (now + drain.leaseMs) } }

/-- `order by started_at, attempt`. -/
def startsBefore (left right : JobAttempt) : Prop :=
  left.startedAt < right.startedAt ∨ left.startedAt = right.startedAt ∧ left.attempt ≤ right.attempt

instance : DecidableRel startsBefore := fun _ _ => inferInstanceAs (Decidable (_ ∨ _))

/-- The attempts of a job as the archive keeps them. One still open ends as `ended`. -/
def attemptLog (now : Nat) (ended : AttemptOutcome) (attempts : List JobAttempt) (id : String) : List LoggedAttempt :=
  ((attempts.filter (·.jobId == id)).insertionSort startsBefore).map fun row =>
    ⟨row.attempt, row.startedAt, row.finishedAt.getD now, row.outcome.getD ended, row.error⟩

def archiveRow (now : Nat) (ended : AttemptOutcome) (outcome : ArchiveOutcome) (finishedAt : Nat)
    (keepUntil : Option Nat) (attempts : List JobAttempt) (job : Job) : ArchivedJob where
  id := job.id
  work := job.work
  enqueuedAt := job.enqueuedAt
  attempts := job.attempts
  lastError := job.lastError
  outcome := outcome
  attemptLog := attemptLog now ended attempts job.id
  replayOf := job.replayOf
  finishedAt := finishedAt
  archivedAt := now
  keepUntil := keepUntil
  exportedAt := none
  runId := job.runId

def Tables.remove (tables : Tables) (matches_ : Job → Bool) : Tables :=
  { tables with
    jobs := Table.delete tables.jobs matches_
    attempts := Table.delete tables.attempts fun row =>
      tables.jobs.any fun job => matches_ job && job.id == row.jobId }

/-- Delete the jobs and put `rows` in the archive, in one statement. An id the archive already holds
fails it. -/
def Tables.moveToArchive (tables : Tables) (matches_ : Job → Bool) (rows : List ArchivedJob) : Option Tables :=
  if rows.any fun row => tables.archive.any (·.id == row.id) then none
  else some { tables.remove matches_ with archive := tables.archive ++ rows }

/-- The queue job's override comes from its runner, an effect's from its schedule. -/
def Drain.overrideFor (drain : Drain) (job : Job) : Option EffectRetention :=
  match job.work.body with
  | .queue .. => drain.queueRetention job
  | .effect name .. => drain.effectOverride name
  | .forward .. => none

/-- One fenced statement: a lost lease deletes nothing, so it archives nothing. `clock` is the worker's. -/
def ack (drain : Drain) (now clock : Nat) (held : Job) (tables : Tables) : Option Tables :=
  match keepFor drain.policy .completed (drain.overrideFor held) with
  | .dropped => some (tables.remove (holds held))
  | .stored ageMs _ _ =>
    tables.moveToArchive (holds held)
      ((tables.jobs.filter (holds held)).map
        (archiveRow now .ok .completed now (keepUntil ageMs clock) tables.attempts))

def Tables.endAttempt (tables : Tables) (held : Job) (set : Job → Job) (close : JobAttempt → JobAttempt) : Tables :=
  if tables.jobs.any (holds held) then
    { tables with
      jobs := Table.update tables.jobs (holds held) set
      attempts := Table.update tables.attempts (JobAttempt.openOf held.id) close }
  else tables

/-- A failed try. `delayMs` is what the job's retry policy gives: without a delay the job is dead. -/
def recordFailure (now : Nat) (held : Job) (error : String) (delayMs : Option Nat) (tables : Tables) : Tables :=
  tables.endAttempt held
    (fun job => { job with
      lastError := some error
      leaseToken := none
      leaseUntil := none
      deadAt := if delayMs.isNone then some now else job.deadAt
      availableAt := delayMs.elim job.availableAt (now + ·) })
    (JobAttempt.close now (if delayMs.isNone then .dead else .retry) error)

def cancelledText : String :=
  "\x7b\"code\":\"async.cancelled\",\"message\":\"async.cancelled\",\"status\":499," ++
    "\"remediation\":\"Honor the owned signal and handle cancellation.\"\x7d"

def releaseInterrupted (now : Nat) (held : Job) (tables : Tables) : Tables :=
  tables.endAttempt held (fun job => { job with leaseToken := none, leaseUntil := none })
    (JobAttempt.close now .retry cancelledText)

end Arki.Journal
