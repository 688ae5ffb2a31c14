import Arki.Journal.Worker

/-! The operator verbs over jobs, and the sweeper's. A verb runs in one transaction: what it
throws rolls it back. Who asked, and why, goes to the audit only and is left out with it.
-/

set_option autoImplicit false

namespace Arki.Journal

/-- Whether the verbs refuse a job that a workflow run owns. Only the workflow runner's allow it. -/
inductive Managed where
  | refuse
  | allow
  deriving DecidableEq, Repr

def managedError (id : String) : JournalError :=
  ⟨.jobManaged, "job", id, "a workflow run owns this job; use the workflow's own actions"⟩

def argument (what detail : String) : JournalError := ⟨.badArgument, "job", what, detail⟩

def bounded (what : String) (limit max : Nat) : Except JournalError Unit :=
  if limit < 1 ∨ max < limit then .error (argument what s!"limit {limit} must be a whole number from 1 to {max}")
  else .ok ()

def retryDeadLimit : Nat := 500

def purgeLimit : Nat := 5000

def archiveTaken : JournalError := ⟨.uniqueViolation, "journal_job_archive", "id", ""⟩

def Managed.mayMove (managed : Managed) (runId : Option String) : Bool := managed == .allow || runId.isNone

def assertUnmanaged (managed : Managed) (tables : Tables) (id : String) : Except JournalError Unit :=
  match tables.jobs.find? (·.id == id) with
  | some job => if managed.mayMove job.runId then .ok () else .error (managedError id)
  | none => .ok ()

structure Keeping where
  policy : ResolvedRetention
  overrideOf : String → Option EffectRetention

def Keeping.override (keeping : Keeping) (job : Job) : Option EffectRetention :=
  job.work.body.effectName.bind keeping.overrideOf

def Keeping.keepOf (keeping : Keeping) (outcome : ArchiveOutcome) (job : Job) : ResolvedKeep :=
  keepFor keeping.policy outcome (keeping.override job)

def Keeping.archived (keeping : Keeping) (now clock : Nat) (outcome : ArchiveOutcome) (finishedAt : Job → Nat)
    (attempts : List JobAttempt) (job : Job) : Option ArchivedJob :=
  match keeping.keepOf outcome job with
  | .dropped => none
  | .stored ageMs _ _ =>
    some (archiveRow now .superseded outcome (finishedAt job) (keepUntil ageMs clock) attempts job)

def removeJobs (keeping : Keeping) (now clock : Nat) (outcome : ArchiveOutcome) (finishedAt : Job → Nat)
    (found : List Job) (tables : Tables) : Except JournalError Tables :=
  match tables.moveToArchive (fun job => found.any (·.id == job.id))
      (found.filterMap (keeping.archived now clock outcome finishedAt tables.attempts)) with
  | none => .error archiveTaken
  | some next => .ok next

def retryPatch (now : Nat) (job : Job) : Job :=
  { job with deadAt := none, attempts := 0, lastError := none, leaseToken := none, leaseUntil := none, availableAt := now }

theorem retryPatch_id (now : Nat) (job : Job) : (retryPatch now job).id = job.id := rfl

def retry (managed : Managed) (now : Nat) (id : String) (tables : Tables) : Except JournalError Tables := do
  assertUnmanaged managed tables id
  let dead (job : Job) := job.id == id && job.deadAt.isSome
  if tables.jobs.any dead then
    return { tables with jobs := Table.update tables.jobs dead (retryPatch now) }
  throw ⟨.jobNotDead, "job", id, "not a dead job; only a dead job is retried"⟩

/-- The dead jobs among `picked` that the verb may move. -/
def retryable (managed : Managed) (picked : List String) (job : Job) : Bool :=
  picked.contains job.id && job.deadAt.isSome && managed.mayMove job.runId

def retryDead (managed : Managed) (now : Nat) (ids : List String) (tables : Tables) : Except JournalError Tables :=
  let picked := ids.dedup
  let missing := picked.filter fun id => !tables.jobs.any fun job => job.id == id && retryable managed picked job
  if picked.isEmpty ∨ retryDeadLimit < picked.length then
    .error (argument "ids" s!"select 1 to {retryDeadLimit} ids, got {picked.length}")
  else if missing.isEmpty then
    .ok { tables with jobs := Table.update tables.jobs (retryable managed picked) (retryPatch now) }
  else
    match tables.jobs.find? fun job => missing.contains job.id && job.runId.isSome with
    | some job => .error (managedError job.id)
    | none => .error ⟨.jobNotDead, "job", ",".intercalate missing, "not dead jobs; nothing was retried"⟩

/-- `order by dead_at, id`. -/
def deadBefore (left right : Job) : Prop :=
  left.deadAt.getD 0 < right.deadAt.getD 0 ∨ left.deadAt = right.deadAt ∧ left.id ≤ right.id

instance : DecidableRel deadBefore := fun _ _ => inferInstanceAs (Decidable (_ ∨ _))

/-- Rows a filter picks, oldest dead first, up to `limit`, past the rows that others lock. -/
def pickDead (wanted : Job → Bool) (limit : Nat) (locked : List String) (jobs : List Job) : List Job :=
  ((jobs.filter fun job => job.deadAt.isSome && wanted job && !locked.contains job.id).insertionSort deadBefore).take limit

def retryDeadWhere (managed : Managed) (now : Nat) (wanted : Job → Bool) (limit : Nat) (locked : List String)
    (tables : Tables) : Except JournalError Tables := do
  bounded "retryDead" limit retryDeadLimit
  let picked := (pickDead (fun job => wanted job && managed.mayMove job.runId) limit locked tables.jobs).map (·.id)
  return { tables with jobs := Table.update tables.jobs (retryable managed picked) (retryPatch now) }

/-- What a forward log answers to `highestVersion`; an entity with no log is at 0. -/
abbrev LogTop := String → String → Nat

/-- A dead forward job may leave only once its log holds every version it carries. -/
def assertForwardLanded (top : LogTop) (tables : Tables) (id : String) : Except JournalError Unit :=
  match tables.jobs.find? (·.id == id) with
  | some job =>
    match job.work.body with
    | .forward _ events =>
      match events.getLast? with
      | some last =>
        if top last.kind last.entityId < last.version then
          .error ⟨.forwardPending, "job", id,
            s!"its log ends at version {top last.kind last.entityId}, below version {last.version} this job carries; retry the job instead, or the events are lost"⟩
        else .ok ()
      | none => .ok ()
    | _ => .ok ()
  | none => .ok ()

def discard (managed : Managed) (keeping : Keeping) (now clock : Nat) (top : LogTop) (id : String)
    (tables : Tables) : Except JournalError Tables := do
  assertUnmanaged managed tables id
  assertForwardLanded top tables id
  match tables.jobs.filter fun job => job.id == id && job.deadAt.isSome with
  | [] => throw ⟨.jobNotDead, "job", id, "not a dead job; only a dead job is discarded"⟩
  | found => removeJobs keeping now clock .discarded (fun _ => now) found tables

def Job.runningAt (now : Nat) (job : Job) : Bool := job.deadAt.isNone && job.leaseUntil.any (decide <| now < ·)

def cancel (managed : Managed) (keeping : Keeping) (now clock : Nat) (id : String) (tables : Tables) :
    Except JournalError Tables := do
  assertUnmanaged managed tables id
  if tables.jobs.any fun job => job.id == id && job.work.body.isForward then
    throw ⟨.forwardPending, "job", id,
      "a forward job carries events its log does not have yet; cancelling it would lose them for good"⟩
  match tables.jobs.filter fun job => job.id == id && job.deadAt.isNone && !job.runningAt now with
  | [] =>
    if tables.jobs.any fun job => job.id == id && job.runningAt now then
      throw ⟨.jobRunning, "job", id, "a worker holds the lease; cancel after it finishes"⟩
    throw ⟨.jobNotPending, "job", id, "not a waiting job; only a ready or delayed job is cancelled"⟩
  | found => removeJobs keeping now clock .cancelled (fun _ => now) found tables

def lastOfStream (jobs : List Job) (job : Job) : Bool := jobs.all fun later => !later.work.behind job

/-- The jobs a purge takes: dead before `olderThan`, in its scope, past their own horizon, and with
nothing behind them in their stream. -/
def purgePicks (keeping : Keeping) (clock olderThan limit : Nat) (locked : List String) (scope : Job → Bool)
    (jobs : List Job) : List Job :=
  (pickDead (fun job => job.deadAt.any (decide <| · < olderThan) && scope job && lastOfStream jobs job)
      limit locked jobs).filter fun job =>
    job.deadAt.any (decide <| · + retryableForMs keeping.policy (keeping.override job) ≤ clock)

/-- Dead jobs that died before `olderThan` and that `scope` allows leave the hot table. -/
def purgeDeadWhere (keeping : Keeping) (now clock olderThan limit : Nat) (locked : List String)
    (scope : Job → Bool) (tables : Tables) : Except JournalError Tables := do
  bounded "purgeDead" limit purgeLimit
  if clock < olderThan + keeping.policy.retryableForMs then
    throw (argument "olderThan"
      s!"a dead job stays retryable for {keeping.policy.retryableForMs} ms; olderThan must be that far in the past or more")
  removeJobs keeping now clock .dead (fun job => job.deadAt.getD now)
    (purgePicks keeping clock olderThan limit locked scope tables.jobs) tables

def newJob (id : String) (work : Work) (now availableAt : Nat) (replayOf runId : Option String) : Job where
  id := id
  work := work
  attempts := 0
  availableAt := availableAt
  enqueuedAt := now
  replayOf := replayOf
  leaseUntil := none
  leaseToken := none
  lastError := none
  deadAt := none
  runId := runId

def Tables.insertJob (tables : Tables) (job : Job) : Option Tables :=
  if tables.jobs.any (conflicts job.id job.work) then none else some { tables with jobs := tables.jobs ++ [job] }

def replay (managed : Managed) (now : Nat) (id archivedId : String) (tables : Tables) : Except JournalError Tables :=
  match tables.archive.find? (·.id == archivedId) with
  | none => .error (argument archivedId "no archived job with this id")
  | some source =>
    if managed.mayMove source.runId then
      match tables.insertJob (newJob id source.work now now (some source.id) none) with
      | some next => .ok next
      | none => .error ⟨.jobExists, "job", archivedId, "an unfinished job holds the same dedupe key"⟩
    else .error (managedError archivedId)

def reschedule (moved : Job → Bool) (startAt : Nat) (tables : Tables) : Tables :=
  { tables with
    jobs := Table.update tables.jobs (fun job => moved job && job.deadAt.isNone && job.leaseUntil.isNone)
      fun job => { job with availableAt := startAt } }

/-- Delete archive rows. `pruned` is the caller's pick among those past `keep_until` or over the cap. -/
def pruneArchive (pruned : ArchivedJob → Bool) (tables : Tables) : Tables :=
  { tables with archive := Table.delete tables.archive pruned }

def exportArchive (now : Nat) (sent : ArchivedJob → Bool) (tables : Tables) : Tables :=
  { tables with
    archive := Table.update tables.archive (fun row => row.exportedAt.isNone && sent row)
      fun row => { row with exportedAt := some now } }

end Arki.Journal
