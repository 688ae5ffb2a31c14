import Arki.Journal.Movement
import Arki.Library.Batches

/-! The forward lane: an entity whose event log cannot join the row's transaction. A write leaves
its events in a forward job; the worker appends them to the log later.
-/

set_option autoImplicit false

namespace Arki.Journal

structure EntityKey where
  kind : String
  id : String

def EntityKey.stream (entity : EntityKey) : String := streamOf entity.kind entity.id

def highestVersion (log : List StoredEvent) : Nat := ((log.map (·.version)).max?).getD 0

def Work.inStream (work : Work) (stream : String) : Bool := work.stream.any (·.1 == stream)

def Job.endIn (stream : String) (job : Job) : Option Nat :=
  match job.work.body, job.work.stream with
  | .forward _ events, some (name, position) => if name == stream then some (position + events.length) else none
  | _, _ => none

def pendingTop (jobs : List Job) (stream : String) : Option Nat := (jobs.filterMap (Job.endIn stream)).max?

/-- Append one entity's events, all or nothing. The same events again is a success that changes
nothing; a version that another event holds is a conflict. -/
def append (entity : EntityKey) (expectedVersion : Nat) (events log : List StoredEvent) :
    Except JournalError (List StoredEvent) :=
  if events.isEmpty then .ok log
  else if expectedVersion = highestVersion log then .ok (log ++ events)
  else if events.all fun event => log.any fun row => row.id == event.id && row.version == event.version then .ok log
  else .error ⟨.conflict, entity.kind, entity.id,
    s!"version {expectedVersion + 1} is already in the log: another writer appended it first"⟩

/-- The first half of `runForward`: the log's top must have reached the version the events follow. -/
def forwardCheck (log : List StoredEvent) (job : Job) : Except JournalError Unit :=
  match job.work.body, job.work.stream with
  | .forward _ (first :: _), some (_, expectedVersion) =>
    if highestVersion log < expectedVersion then
      .error ⟨.forwardBehind, first.kind, first.entityId,
        s!"the log of {first.kind} {first.entityId} ends at version {highestVersion log}, below {expectedVersion}: an earlier batch has not landed"⟩
    else .ok ()
  | _, _ => .error ⟨.forwardBehind, "job", job.id, s!"journal: forward job {job.id} carries no events"⟩

/-- The second half: the append. Other events at those versions mean something else wrote to the log. -/
def forwardAppend (log : List StoredEvent) (job : Job) : Except JournalError (List StoredEvent) :=
  match job.work.body, job.work.stream with
  | .forward _ events@(first :: _), some (_, expectedVersion) =>
    match append ⟨first.kind, first.entityId⟩ expectedVersion (events.map ({ · with erasedAt := none })) log with
    | .ok next => .ok next
    | .error _ => .error ⟨.forwardDiverged, first.kind, first.entityId,
        s!"versions {expectedVersion + 1} to {expectedVersion + events.length} hold other events in the log"⟩
  | _, _ => .error ⟨.forwardDiverged, "job", job.id, s!"journal: forward job {job.id} carries no events"⟩

/-- What a write has read under the append lock. `pending` is read only when there is no row to go by. -/
structure Reading where
  row : Option Nat
  pending : Option Nat
  deriving DecidableEq

/-- The version the next event follows. A create asks the pending jobs first, then the log. -/
def Reading.baseVersion (reading : Reading) (log : List StoredEvent) : Nat :=
  match reading.row with
  | none => reading.pending.getD (highestVersion log)
  | some 0 => 1
  | some stored => stored

def numberEvents (entity : EntityKey) (baseVersion : Nat) (drafts : List StoredEvent) : List StoredEvent :=
  drafts.mapIdx fun index draft =>
    { draft with kind := entity.kind, entityId := entity.id, version := baseVersion + index + 1, erasedAt := none }

structure Stored (entity : EntityKey) (event : StoredEvent) : Prop where
  kind : event.kind = entity.kind
  entityId : event.entityId = entity.id
  whole : event.erasedAt = none

section Numbers

variable (entity : EntityKey)

theorem numberEvents_numbered (base : Nat) (drafts : List StoredEvent) :
    Batches.Numbered StoredEvent.version base (numberEvents entity base drafts) := by
  refine List.ext_getElem (by simp [numberEvents]) fun i first second => ?_
  simp only [numberEvents, List.getElem_map, List.getElem_mapIdx, List.getElem_range', Nat.one_mul]
  omega

theorem numberEvents_stored (base : Nat) (drafts : List StoredEvent) :
    ∀ event ∈ numberEvents entity base drafts, Stored entity event := by
  intro event member
  obtain ⟨i, inside, rfl⟩ := List.getElem_of_mem member
  simp only [numberEvents, List.getElem_mapIdx]
  exact ⟨rfl, rfl, rfl⟩

end Numbers

def forwardWork (entity : EntityKey) (events : List StoredEvent) (streamPosition : Nat) : Work :=
  ⟨.forward entity.kind events, some (entity.stream, streamPosition), 0, fun _ => rfl⟩

/-- One forwarded entity among the job tables. `checked` and `landed` are the claims whose worker saw
the log reach their position, and whose append the log answered; `batches` holds the events of every
committed write. -/
structure Lane where
  world : World
  row : Option Nat
  log : List StoredEvent
  writer : Option Reading
  checked : List Claim
  landed : List Claim
  batches : List (List StoredEvent)

def Lane.start : Lane := ⟨.start, none, [], none, [], [], []⟩

/-- `alive` says whether the reducers leave a row. `answered` is whether the log's answer arrives. -/
inductive LaneAction where
  | lease (action : Action)
  | openWrite
  | write (now : Nat) (id : String) (drafts : List StoredEvent) (alive : Bool)
  | abortWrite
  | check (claim : Claim)
  | append (claim : Claim) (answered : Bool)

/-- The retries of a forward job before it dies, unless it waits for an earlier batch or has diverged. -/
def forwardRetries : Nat := 7

/-- `forwardDelay` gives no delay: the retries ran out, or other events hold the versions. -/
def Lane.mayDie (lane : Lane) (job : Job) : Bool :=
  decide (forwardRetries < job.attempts) || (forwardAppend lane.log job).toOption.isNone

/-- A worker acks a forward job only after its append returned, and the verbs read the real log. -/
def Lane.admits (entity : EntityKey) (lane : Lane) : Action → Bool
  | .ack _ _ _ claim => !claim.job.work.inStream entity.stream || lane.landed.contains claim
  | .fail _ claim _ delayMs => !claim.job.work.inStream entity.stream || delayMs.isSome || lane.mayDie claim.job
  | .discard _ _ _ _ top _ => top entity.kind entity.id == highestVersion lane.log
  | _ => true

def Lane.step (entity : EntityKey) (lane : Lane) : LaneAction → Option Lane
  | .lease action =>
    if lane.admits entity action then (lane.world.step action).map fun world => { lane with world := world } else none
  | .openWrite =>
    if lane.writer.isSome then none
    else some { lane with writer := some ⟨lane.row, pendingTop lane.world.tables.jobs entity.stream⟩ }
  | .write now id drafts alive =>
    match lane.writer with
    | none => none
    | some reading =>
      if drafts.isEmpty then none
      else
        let baseVersion := reading.baseVersion lane.log
        let events := numberEvents entity baseVersion drafts
        (lane.world.step (.enqueue now now id (forwardWork entity events baseVersion) none)).map fun world =>
          { lane with
            world := world
            row := if alive then some (baseVersion + events.length) else none
            writer := none
            batches := lane.batches ++ [events] }
  | .abortWrite => some { lane with writer := none }
  | .check claim =>
    if claim ∈ lane.world.claims ∧ claim.job.work.inStream entity.stream = true then
      match forwardCheck lane.log claim.job with
      | .ok () => some { lane with checked := claim :: lane.checked }
      | .error _ => none
    else none
  | .append claim answered =>
    if claim ∈ lane.checked then
      match forwardAppend lane.log claim.job with
      | .ok log => some { lane with log := log, landed := if answered then claim :: lane.landed else lane.landed }
      | .error _ => none
    else none

section Orderly

def LaneAction.enqueues : LaneAction → Option Work
  | .lease (.enqueue _ _ _ work _) => some work
  | _ => none

def LaneAction.purges (jobs : List Job) : LaneAction → List Job
  | .lease (.purgeDead keeping _ clock olderThan limit locked scope) =>
    purgePicks keeping clock olderThan limit locked scope jobs
  | _ => []

def LaneAction.opens : LaneAction → Bool
  | .openWrite => true
  | _ => false

/-- The steps under which the lane is safe: no other entity's job uses the stream's name, a purge takes
only jobs whose versions the log holds, and a write that finds no row finds no pending job that ends
below the log. -/
structure Orderly (entity : EntityKey) (lane : Lane) (action : LaneAction) : Prop where
  stream : ∀ work ∈ action.enqueues, work.inStream entity.stream = false
  purge : ∀ job ∈ action.purges lane.world.tables.jobs, job.work.inStream entity.stream = true →
    ∀ event ∈ job.work.body.copies, event.version ≤ highestVersion lane.log
  create : action.opens = true → lane.row = none →
    ∀ top ∈ pendingTop lane.world.tables.jobs entity.stream, highestVersion lane.log ≤ top

instance (entity : EntityKey) (lane : Lane) (action : LaneAction) : Decidable (Orderly entity lane action) :=
  decidable_of_iff
    ((∀ work ∈ action.enqueues, work.inStream entity.stream = false) ∧
      (∀ job ∈ action.purges lane.world.tables.jobs, job.work.inStream entity.stream = true →
        ∀ event ∈ job.work.body.copies, event.version ≤ highestVersion lane.log) ∧
      (action.opens = true → lane.row = none →
        ∀ top ∈ pendingTop lane.world.tables.jobs entity.stream, highestVersion lane.log ≤ top))
    ⟨fun ⟨stream, purge, create⟩ => ⟨stream, purge, create⟩, fun ⟨stream, purge, create⟩ => ⟨stream, purge, create⟩⟩

end Orderly

def Lane.recorded (lane : Lane) : List StoredEvent := lane.batches.flatten

end Arki.Journal
