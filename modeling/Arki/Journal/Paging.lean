import Arki.Journal.Cursor
import Arki.Library.Ordered

/-! The paged listings of jobs, of the archive and of the operations, and the walk from page to page.

A listing sorts by a time and the id, oldest first or newest first, and asks for one row
more than the page holds: that row says whether a next page exists.
-/

set_option autoImplicit false

namespace Arki.Journal.Paging

open Arki.Ordered

/-- A cursor's time that Postgres does not take is the database's refusal, not the journal's. -/
inductive Refused where
  | thrown (error : JournalError)
  | database (text : List Char)
  deriving DecidableEq

structure Page (Row : Type) where
  items : List Row
  next : Option (List Char)

section
variable {Row : Type} [LinearOrder Varchar]

def sortKey (at_ : Row → Timestamp) (id : Row → JobId) (row : Row) : Timestamp ×ₗ Varchar :=
  toLex (at_ row, (id row).varchar)

/-- `(column, id)` strictly past the cursor in the sort direction. -/
def pastCursor (after : Option (List Char)) (at_ : Row → Timestamp) (id : Row → JobId) (newestFirst : Bool) :
    Except Refused (Row → Bool) :=
  match after with
  | none => .ok fun _ => true
  | some after =>
    match decodeCursor after with
    | .error error => .error (.thrown error)
    | .ok (text, cursorId) =>
      match timestampOf text with
      | none => .error (.database text)
      | some time =>
        .ok fun row =>
          if newestFirst then decide (sortKey at_ id row < toLex (time, cursorId))
          else decide (toLex (time, cursorId) < sortKey at_ id row)

/-- `order by (column, id)` in the listing's direction. -/
def ordered (at_ : Row → Timestamp) (id : Row → JobId) (newestFirst : Bool) (rows : List Row) : List Row :=
  if newestFirst then inOrder (fun row => OrderDual.toDual (sortKey at_ id row)) rows else inOrder (sortKey at_ id) rows

/-- Cut a `limit + 1` fetch into a page and the cursor of its last row. -/
def pageOf (at_ : Row → Timestamp) (id : Row → JobId) (rows : List Row) (limit : Nat) : Page Row :=
  ⟨rows.take limit, (rows.take limit).zipIdx.foldl (fun next entry =>
    if entry.2 + 1 = limit ∧ limit < rows.length then
      some (encodeCursor (cursorText (at_ entry.1)) (id entry.1))
    else next) none⟩

/-- `default: 100, max: 200`. -/
def listLimit : Nat × Nat := (100, 200)

def listing (what : String) (at_ : Row → Timestamp) (id : Row → JobId) (newestFirst : Bool) (wanted : Row → Bool)
    (limit : Option Nat) (after : Option (List Char)) (rows : List Row) : Except Refused (Page Row) := do
  (bounded what (limit.getD listLimit.1) listLimit.2).mapError .thrown
  let past ← pastCursor after at_ id newestFirst
  let fetched := (ordered at_ id newestFirst (rows.filter fun row => wanted row && past row)).take
    (limit.getD listLimit.1 + 1)
  return pageOf at_ id fetched (limit.getD listLimit.1)

end

/-- The columns of `journal_jobs` that the listing reads. -/
structure JobRow where
  id : JobId
  effect : Option String
  jobName : Option String
  availableAt : Timestamp
  leaseUntil : Option Timestamp
  deadAt : Option Timestamp

inductive JobStatus where
  | pending
  | ready
  | delayed
  | running
  | dead
  | all
  deriving DecidableEq, Repr

structure JobFilter where
  status : Option JobStatus
  effect : Option String
  job : Option String

def JobRow.leased (now : Timestamp) (row : JobRow) : Bool := row.leaseUntil.any (decide <| now < ·)

/-- The rows of a status at the database's `now()`. -/
def JobStatus.holds (now : Timestamp) (row : JobRow) : JobStatus → Bool
  | .dead => row.deadAt.isSome
  | .pending => row.deadAt.isNone
  | .running => row.deadAt.isNone && row.leased now
  | .delayed => row.deadAt.isNone && !row.leased now && decide (now < row.availableAt)
  | .ready => row.deadAt.isNone && !row.leased now && decide (row.availableAt ≤ now)
  | .all => true

def JobFilter.chosen (filter : JobFilter) : JobStatus := filter.status.getD .pending

/-- `where`: the status and the names. -/
def JobFilter.wants (filter : JobFilter) (now : Timestamp) (row : JobRow) : Bool :=
  filter.chosen.holds now row && (filter.effect.isNone || row.effect == filter.effect) &&
    (filter.job.isNone || row.jobName == filter.job)

def JobFilter.newestFirst (filter : JobFilter) : Bool := filter.chosen == .dead

/-- `dead_at` of the dead jobs, else `available_at`. A row without `dead_at` is not among the dead. -/
def JobFilter.key (filter : JobFilter) (row : JobRow) : Timestamp :=
  if filter.newestFirst then row.deadAt.getD row.availableAt else row.availableAt

/-- Pending jobs by `(available_at, id)` ascending; dead jobs by `(dead_at, id)` descending. -/
def jobs [LinearOrder Varchar] (now : Timestamp) (filter : JobFilter) (limit : Option Nat) (after : Option (List Char))
    (rows : List JobRow) : Except Refused (Page JobRow) :=
  listing "jobs" filter.key JobRow.id filter.newestFirst (filter.wants now) limit after rows

/-- The columns of `journal_job_archive` that the listing reads. -/
structure ArchiveRow where
  id : JobId
  outcome : ArchiveOutcome
  effect : Option String
  jobName : Option String
  archivedAt : Timestamp

structure ArchiveFilter where
  outcome : Option ArchiveOutcome
  effect : Option String
  job : Option String

def ArchiveFilter.wants (filter : ArchiveFilter) (row : ArchiveRow) : Bool :=
  (filter.outcome.isNone || some row.outcome == filter.outcome) &&
    (filter.effect.isNone || row.effect == filter.effect) && (filter.job.isNone || row.jobName == filter.job)

/-- Newest first by `(archived_at, id)`. -/
def archivedJobs [LinearOrder Varchar] (filter : ArchiveFilter) (limit : Option Nat) (after : Option (List Char))
    (rows : List ArchiveRow) : Except Refused (Page ArchiveRow) :=
  listing "archivedJobs" ArchiveRow.archivedAt ArchiveRow.id true filter.wants limit after rows

end Arki.Journal.Paging
