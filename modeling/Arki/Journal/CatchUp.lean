import Arki.Journal.Tables
import Arki.Library.Ordered
import Arki.Library.Run

/-! Writers of the built-in log and the batches of async projections that read it.

A position is the seq it stands for. A transaction that waits for a lock takes no
step, and the statements of a batch each see the log as it is when they run. Rows
of `journal_events` lie in the order their transactions committed.
-/

set_option autoImplicit false

namespace Arki.Journal
open Ordered (upto between inOrder)

structure Projection where
  name : String
  kinds : List String
  types : List String
  deriving DecidableEq

def Projection.wants (projection : Projection) (row : StoredEvent) : Bool :=
  projection.kinds.contains row.kind && projection.types.contains row.type

def wanted (registered : List Projection) (name : String) (row : StoredEvent) : Bool :=
  (registered.find? (·.name == name)).any (·.wants row)

def seqAt (position : Option Nat) : Nat := position.getD 0

/-- `select max(seq)`. -/
def topSeq (log : List StoredEvent) : Option Nat := (log.map (·.seq)).max?

/-- What `all.after` answers. -/
structure Page where
  events : List StoredEvent
  next : Option Nat
  deriving DecidableEq

/-- The rows up to a top that was read before. `next` is the page's end when the limit cut it. -/
def pageUpto (log : List StoredEvent) (position : Option Nat) (top limit : Nat) : Page :=
  let rows := (inOrder (·.seq) (log.filter fun row => seqAt position < row.seq ∧ row.seq ≤ top)).take limit
  let next := match rows.getLast? with
    | some last => if rows.length = limit then last.seq else top
    | none => top
  ⟨rows, some next⟩

/-- The transaction that holds the append lock. `stamps` are taken from the sequence and have no row. -/
structure Writer where
  stamps : List Nat
  staged : List StoredEvent

/-- A `batchFor` transaction, by the last statement it ran. -/
inductive Batch where
  | locked (position : Option Nat) (limit : Nat)
  | topped (position : Option Nat) (limit top : Nat)
  | read (position : Option Nat) (page : Page)

def Batch.position : Batch → Option Nat
  | .locked position _ | .topped position _ _ | .read position _ => position

/-- The database as its transactions see it, with the batches in flight by the cursor they lock.
`handled` are the events whose handlers committed, in the order they ran. A cursor that has no row
yet reads as `null`, like the row that `lockCursor` inserts. -/
structure Feed where
  log : List StoredEvent
  nextSeq : Nat
  writer : Option Writer
  cursors : String → Option Nat
  batches : String → Option Batch
  handled : String → List StoredEvent

def Feed.start : Feed := ⟨[], 1, none, fun _ => none, fun _ => none, fun _ => []⟩

inductive WriterAction where
  | lock
  | stamp (count : Nat)
  | append (rows : List StoredEvent)
  | rollbackTo (kept : Nat)
  | release
  | commit
  | rollback

inductive BatchAction where
  | lockCursor (limit : Nat)
  | readTop
  | readRows
  | finish
  | fail

inductive FeedAction where
  | writer (action : WriterAction)
  | batch (name : String) (action : BatchAction)

def Feed.write (feed : Feed) : WriterAction → Option Feed
  -- `seq.lock`: the second writer waits for the first to end
  | .lock =>
    match feed.writer with
    | none => some { feed with writer := some ⟨[], []⟩ }
    | some _ => none
  -- `seq.stamp`: a stamp is spent for good, whatever becomes of the transaction
  | .stamp count =>
    match feed.writer with
    | none => none
    | some writer => some { feed with
        nextSeq := feed.nextSeq + count
        writer := some { writer with stamps := writer.stamps ++ List.range' feed.nextSeq count } }
  -- the rows of one insert; an event without a row leaves its stamp behind
  | .append rows =>
    match feed.writer with
    | none => none
    | some writer =>
      if (rows.map (·.seq)).Nodup ∧ ∀ row ∈ rows, row.seq ∈ writer.stamps then
        some { feed with writer := some {
          stamps := writer.stamps.filter fun seq => seq ∉ rows.map (·.seq)
          staged := writer.staged ++ rows } }
      else none
  -- a failed write takes back the rows it inserted
  | .rollbackTo kept =>
    match feed.writer with
    | none => none
    | some writer => some { feed with writer := some { writer with staged := writer.staged.take kept } }
  -- the write that took the lock is rolled back: the lock goes with its savepoint, as does every row
  | .release =>
    match feed.writer with
    | none => none
    | some writer => if writer.staged = [] then some { feed with writer := none } else none
  | .commit =>
    match feed.writer with
    | none => none
    | some writer => some { feed with log := feed.log ++ writer.staged, writer := none }
  | .rollback =>
    match feed.writer with
    | none => none
    | some _ => some { feed with writer := none }

def Feed.setBatch (feed : Feed) (name : String) (batch : Option Batch) : Feed :=
  { feed with batches := Function.update feed.batches name batch }

def Feed.scan (registered : List Projection) (feed : Feed) (name : String) : BatchAction → Option Feed
  -- `lockCursor`: a second batch of one projection waits for the first to end
  | .lockCursor limit =>
    if registered.any (·.name == name) then
      match feed.batches name with
      | none => some (feed.setBatch name (some (.locked (feed.cursors name) limit)))
      | some _ => none
    else none
  | .readTop =>
    match feed.batches name with
    | some (.locked position limit) =>
      match topSeq feed.log with
      | none => some (feed.setBatch name (some (.read position ⟨[], position⟩)))
      | some top =>
        if top ≤ seqAt position then some (feed.setBatch name (some (.read position ⟨[], position⟩)))
        else some (feed.setBatch name (some (.topped position limit top)))
    | _ => none
  | .readRows =>
    match feed.batches name with
    | some (.topped position limit top) =>
      some (feed.setBatch name (some (.read position (pageUpto feed.log position top limit))))
    | _ => none
  -- the handlers run, the cursor moves to where the scan ended, and the batch commits
  | .finish =>
    match feed.batches name with
    | some (.read _ page) =>
      if page.events = [] then some (feed.setBatch name none)
      else some { feed.setBatch name none with
        cursors := Function.update feed.cursors name page.next
        handled := Function.update feed.handled name
          (feed.handled name ++ page.events.filter (wanted registered name)) }
    | _ => none
  -- a handler or a decode throws, or the connection is lost: the batch rolls back
  | .fail =>
    match feed.batches name with
    | some _ => some (feed.setBatch name none)
    | none => none

def Feed.step (registered : List Projection) (feed : Feed) : FeedAction → Option Feed
  | .writer action => feed.write action
  | .batch name action => feed.scan registered name action

/-- What an async projection promises about one state: the handlers that committed are those of the
wanted events up to the cursor, in seq order and once each, and no event commits behind the cursor. -/
structure ExactlyOnce (registered : List Projection) (feed : Feed) : Prop where
  applied : ∀ name, feed.handled name =
    inOrder (·.seq) (feed.log.filter fun row => row.seq ≤ seqAt (feed.cursors name) && wanted registered name row)
  once : ∀ name, ((feed.handled name).map (·.seq)).Pairwise (· < ·)
  behind : ∀ name later, Run.Reach (Feed.step registered) Run.always feed later →
    ∀ row ∈ later.log, row ∈ feed.log ∨ seqAt (feed.cursors name) < row.seq

def Writer.pending (writer : Writer) : List Nat := writer.stamps ++ writer.staged.map (·.seq)

def Feed.pending (feed : Feed) : List Nat := (feed.writer.map Writer.pending).getD []

/-- No event at or below `seq` commits from here on. -/
def Feed.Settled (feed : Feed) (seq : Nat) : Prop := seq < feed.nextSeq ∧ ∀ other ∈ feed.pending, seq < other

def Batch.Holds (feed : Feed) : Batch → Prop
  | .locked _ _ => True
  | .topped position _ top => seqAt position < top ∧ feed.Settled top
  | .read position page => page.events ≠ [] → ∃ next, page.next = some next ∧ seqAt position ≤ next ∧
      feed.Settled next ∧ page.events = between (·.seq) feed.log (seqAt position) next

structure LogInv (feed : Feed) : Prop where
  distinct : (feed.log.map (·.seq)).Nodup
  apart : feed.pending.Nodup
  numbered : ∀ seq ∈ feed.pending, seq < feed.nextSeq
  logged : ∀ row ∈ feed.log, feed.Settled row.seq

structure FeedInv (registered : List Projection) (feed : Feed) : Prop extends LogInv feed where
  cursor : ∀ name, feed.Settled (seqAt (feed.cursors name))
  handled : ∀ name, feed.handled name =
    (upto (·.seq) feed.log (seqAt (feed.cursors name))).filter (wanted registered name)
  batches : ∀ name batch, feed.batches name = some batch →
    batch.position = feed.cursors name ∧ batch.Holds feed

structure Written (before after : Feed) : Prop where
  cursors : after.cursors = before.cursors
  batches : after.batches = before.batches
  handled : after.handled = before.handled
  settled : ∀ seq, before.Settled seq → after.Settled seq
  grows : ∃ more, after.log = before.log ++ more ∧ ∀ seq, before.Settled seq → ∀ row ∈ more, seq < row.seq

section Writers

variable {registered : List Projection} {feed next : Feed} {writer : Writer}

theorem pending_some (holds : feed.writer = some writer) : feed.pending = writer.pending := by
  simp [Feed.pending, holds]

theorem Feed.Settled.below {seq lower : Nat} (settled : feed.Settled seq) (le : lower ≤ seq) : feed.Settled lower :=
  ⟨Nat.lt_of_le_of_lt le settled.1, fun other member => Nat.lt_of_le_of_lt le (settled.2 other member)⟩

/-- What survives of the stamps is settled past the same seqs, and later stamps are larger still. -/
theorem Feed.Settled.mono {seq : Nat} (settled : feed.Settled seq) (le : feed.nextSeq ≤ next.nextSeq)
    (from_ : ∀ other ∈ next.pending, other ∈ feed.pending ∨ feed.nextSeq ≤ other) : next.Settled seq := by
  refine ⟨Nat.lt_of_lt_of_le settled.1 le, ?_⟩
  intro other member
  rcases from_ other member with old | fresh
  · exact settled.2 other old
  · exact Nat.lt_of_lt_of_le settled.1 fresh

theorem written_of_quiet (same : next = { feed with writer := next.writer, nextSeq := next.nextSeq })
    (le : feed.nextSeq ≤ next.nextSeq)
    (from_ : ∀ other ∈ next.pending, other ∈ feed.pending ∨ feed.nextSeq ≤ other) : Written feed next := by
  rw [same] at from_ le ⊢
  exact {
    cursors := rfl
    batches := rfl
    handled := rfl
    settled := fun _ settled => settled.mono le from_
    grows := ⟨[], by simp, by simp⟩ }

theorem append_pending {rows : List StoredEvent} (stamps : writer.stamps.Nodup) (fresh : (rows.map (·.seq)).Nodup)
    (taken : ∀ row ∈ rows, row.seq ∈ writer.stamps) :
    (Writer.pending ⟨writer.stamps.filter fun seq => seq ∉ rows.map (·.seq), writer.staged ++ rows⟩).Perm
      writer.pending := by
  have used : (rows.map (·.seq)).Perm (writer.stamps.filter fun seq => seq ∈ rows.map (·.seq)) := by
    apply (List.perm_ext_iff_of_nodup fresh (stamps.filter _)).mpr
    intro seq
    simp only [List.mem_filter, decide_eq_true_eq]
    constructor
    · intro listed
      obtain ⟨row, member, rfl⟩ := List.mem_map.mp listed
      exact ⟨taken row member, listed⟩
    · exact And.right
  have parts := List.filter_append_perm (fun seq => decide (seq ∈ rows.map (·.seq))) writer.stamps
  have whole : (writer.stamps.filter (fun seq => seq ∉ rows.map (·.seq)) ++ rows.map (·.seq)).Perm writer.stamps := by
    refine List.perm_append_comm.trans ((used.append_right _).trans (List.Perm.trans ?_ parts))
    apply List.Perm.of_eq
    simp only [decide_not]
  simp only [Writer.pending, List.map_append]
  refine List.Perm.trans ?_ (whole.append_right _)
  rw [List.append_assoc]
  exact List.Perm.append_left _ List.perm_append_comm

theorem LogInv.quiet (inv : LogInv feed) (written : Written feed next) (log : next.log = feed.log)
    (apart : next.pending.Nodup) (numbered : ∀ seq ∈ next.pending, seq < next.nextSeq) : LogInv next where
  distinct := log ▸ inv.distinct
  apart := apart
  numbered := numbered
  logged := fun row member => written.settled _ (inv.logged row (log ▸ member))

theorem LogInv.shrink (inv : LogInv feed) (same : next = { feed with writer := next.writer })
    (fewer : next.pending.Subperm feed.pending) : LogInv next ∧ Written feed next := by
  have member : ∀ seq ∈ next.pending, seq ∈ feed.pending := fun seq listed => fewer.subset listed
  have nextSeq : next.nextSeq = feed.nextSeq := by rw [same]
  have log : next.log = feed.log := by rw [same]
  have written : Written feed next := by
    apply written_of_quiet
    · rw [same]
    · exact Nat.le_of_eq nextSeq.symm
    · exact fun seq listed => Or.inl (member seq listed)
  refine ⟨inv.quiet written log ?_ ?_, written⟩
  · obtain ⟨kept, perm, sub⟩ := fewer
    exact perm.nodup_iff.mp (inv.apart.sublist sub)
  · intro seq listed
    exact nextSeq ▸ inv.numbered seq (member seq listed)

theorem logInv_stamp {count : Nat} (inv : LogInv feed) (holds : feed.writer = some writer)
    (stamped : next = { feed with
      nextSeq := feed.nextSeq + count
      writer := some { writer with stamps := writer.stamps ++ List.range' feed.nextSeq count } }) :
    LogInv next ∧ Written feed next := by
  have before := pending_some holds
  have after : next.pending.Perm (feed.pending ++ List.range' feed.nextSeq count) := by
    rw [before, stamped]
    simp only [Feed.pending, Writer.pending, Option.map_some, Option.getD_some, List.append_assoc]
    exact List.Perm.append_left _ List.perm_append_comm
  have from_ : ∀ seq ∈ next.pending, seq ∈ feed.pending ∨ feed.nextSeq ≤ seq ∧ seq < feed.nextSeq + count := by
    intro seq listed
    rcases List.mem_append.mp (after.mem_iff.mp listed) with old | fresh
    · exact Or.inl old
    · exact Or.inr (List.mem_range'_1.mp fresh)
  have nextSeq : next.nextSeq = feed.nextSeq + count := by rw [stamped]
  have written : Written feed next := by
    apply written_of_quiet
    · rw [stamped]
    · omega
    · exact fun seq listed => (from_ seq listed).imp id And.left
  refine ⟨inv.quiet written (by rw [stamped]) ?_ ?_, written⟩
  · apply after.nodup_iff.mpr
    refine List.nodup_append.mpr ⟨inv.apart, List.nodup_range', ?_⟩
    rintro seq old _ fresh rfl
    have := inv.numbered seq old
    have := (List.mem_range'_1.mp fresh).1
    omega
  · intro seq listed
    rcases from_ seq listed with old | fresh
    · have := inv.numbered seq old
      omega
    · omega

/-- A commit adds rows above everything settled, and leaves no stamp that may commit. -/
theorem logInv_commit (inv : LogInv feed) (holds : feed.writer = some writer)
    (committed : next = { feed with log := feed.log ++ writer.staged, writer := none }) :
    LogInv next ∧ Written feed next := by
  have pending := pending_some holds
  have none_ : next.pending = [] := by rw [committed]; rfl
  have log : next.log = feed.log ++ writer.staged := by rw [committed]
  have nextSeq : next.nextSeq = feed.nextSeq := by rw [committed]
  have listed : ∀ row ∈ writer.staged, row.seq ∈ feed.pending := by
    intro row member
    rw [pending]
    exact List.mem_append_right _ (List.mem_map_of_mem member)
  have settled : ∀ seq, seq < feed.nextSeq → next.Settled seq := by
    intro seq lt
    exact ⟨nextSeq ▸ lt, by simp [none_]⟩
  constructor
  · refine ⟨?_, ?_, ?_, ?_⟩
    · rw [log, List.map_append]
      refine List.nodup_append.mpr ⟨inv.distinct, ?_, ?_⟩
      · exact (pending ▸ inv.apart).sublist (List.sublist_append_right _ _)
      · intro old was new fresh same
        obtain ⟨row, member, rfl⟩ := List.mem_map.mp was
        obtain ⟨other, staged, rfl⟩ := List.mem_map.mp fresh
        have := (inv.logged row member).2 _ (listed other staged)
        omega
    · simp [none_]
    · simp [none_]
    · intro row member
      rw [log] at member
      rcases List.mem_append.mp member with old | fresh
      · exact settled _ (inv.logged row old).1
      · exact settled _ (inv.numbered _ (listed row fresh))
  · refine ⟨by rw [committed], by rw [committed], by rw [committed], fun seq before => settled seq before.1, ?_⟩
    exact ⟨writer.staged, log, fun seq before row member => before.2 _ (listed row member)⟩

theorem logInv_write {action : WriterAction} (inv : LogInv feed) (taken : feed.write action = some next) :
    LogInv next ∧ Written feed next := by
  cases action with
  | lock =>
    simp only [Feed.write] at taken
    split at taken
    · cases taken
      exact inv.shrink rfl (by simp [Feed.pending, Writer.pending])
    · cases taken
  | stamp count =>
    simp only [Feed.write] at taken
    split at taken
    · cases taken
    · next writer holds =>
      exact logInv_stamp inv holds (Option.some.inj taken).symm
  | append rows =>
    simp only [Feed.write] at taken
    split at taken
    · cases taken
    · next writer holds =>
      split at taken
      · next fits =>
        cases taken
        refine inv.shrink rfl (List.Perm.subperm ?_)
        rw [pending_some holds]
        exact append_pending ((pending_some holds ▸ inv.apart).sublist (List.sublist_append_left _ _)) fits.1 fits.2
      · cases taken
  | rollbackTo kept =>
    simp only [Feed.write] at taken
    split at taken
    · cases taken
    · next writer holds =>
      cases taken
      refine inv.shrink rfl (List.Sublist.subperm ?_)
      rw [pending_some holds]
      exact List.Sublist.append_left ((List.take_sublist kept writer.staged).map _) _
  | release =>
    simp only [Feed.write] at taken
    split at taken
    · cases taken
    · next writer holds =>
      split at taken
      · cases taken
        exact inv.shrink rfl (List.nil_subperm)
      · cases taken
  | commit =>
    simp only [Feed.write] at taken
    split at taken
    · cases taken
    · next writer holds =>
      exact logInv_commit inv holds (Option.some.inj taken).symm
  | rollback =>
    simp only [Feed.write] at taken
    split at taken
    · cases taken
    · cases taken
      exact inv.shrink rfl (List.nil_subperm)

theorem Written.holds (written : Written feed next) {batch : Batch} (known : batch.Holds feed) : batch.Holds next := by
  cases batch with
  | locked => trivial
  | topped => exact ⟨known.1, written.settled _ known.2⟩
  | read position page =>
    intro some_
    obtain ⟨last, at_, le, settled, rows⟩ := known some_
    obtain ⟨more, log, above⟩ := written.grows
    refine ⟨last, at_, le, written.settled _ settled, ?_⟩
    rw [rows, log, Ordered.between_append fun row member => above _ settled row member]

theorem FeedInv.write (inv : FeedInv registered feed) (written : Written feed next) (log : LogInv next) :
    FeedInv registered next where
  toLogInv := log
  cursor := by
    intro name
    rw [written.cursors]
    exact written.settled _ (inv.cursor name)
  handled := by
    intro name
    obtain ⟨more, grown, above⟩ := written.grows
    rw [written.handled, written.cursors, inv.handled name, grown,
      Ordered.upto_append fun row member => above _ (inv.cursor name) row member]
  batches := by
    intro name batch open_
    rw [written.batches] at open_
    obtain ⟨position, known⟩ := inv.batches name batch open_
    exact ⟨position.trans (by rw [written.cursors]), written.holds known⟩

end Writers

section Readers

variable {registered : List Projection} {feed next : Feed} {name : String}

theorem topSeq_mem {log : List StoredEvent} {top : Nat} (read : topSeq log = some top) :
    ∃ row ∈ log, row.seq = top := List.mem_map.mp (List.max?_mem read)

theorem FeedInv.setBatch (inv : FeedInv registered feed) {batch : Option Batch}
    (known : ∀ inner, batch = some inner → inner.position = feed.cursors name ∧ inner.Holds feed) :
    FeedInv registered (feed.setBatch name batch) where
  toLogInv := ⟨inv.distinct, inv.apart, inv.numbered, inv.logged⟩
  cursor := inv.cursor
  handled := inv.handled
  batches := by
    intro other inner open_
    simp only [Feed.setBatch] at open_
    by_cases same : other = name
    · subst other
      rw [Function.update_self] at open_
      exact known inner open_
    · rw [Function.update_of_ne same] at open_
      exact inv.batches other inner open_

/-- The page that a scan reads is the window from the cursor to where the scan says that it ended. -/
theorem pageUpto_holds (inv : LogInv feed) {position : Option Nat} {limit top : Nat}
    (under : seqAt position < top) (settled : feed.Settled top) :
    (Batch.read position (pageUpto feed.log position top limit)).Holds feed := by
  intro some_
  have rows : (pageUpto feed.log position top limit).events =
      (between (·.seq) feed.log (seqAt position) top).take limit := rfl
  cases ends : ((between (·.seq) feed.log (seqAt position) top).take limit).getLast? with
  | none => exact absurd (List.getLast?_eq_none_iff.mp ends) some_
  | some last =>
    have shape : (pageUpto feed.log position top limit).next =
        some (if ((between (·.seq) feed.log (seqAt position) top).take limit).length = limit then last.seq else top) := by
      simp only [pageUpto]
      rw [show ((inOrder (·.seq) _).take limit).getLast? = some last from ends]
      rfl
    have listed := Ordered.mem_between.mp (List.mem_of_mem_take (List.mem_of_getLast? ends))
    by_cases full : ((between (·.seq) feed.log (seqAt position) top).take limit).length = limit
    · refine ⟨last.seq, by rw [shape, if_pos full], Nat.le_of_lt listed.2.1, settled.below listed.2.2, ?_⟩
      rw [rows, Ordered.take_between inv.distinct ends]
    · refine ⟨top, by rw [shape, if_neg full], Nat.le_of_lt under, settled, ?_⟩
      -- the limit did not cut the window
      rw [rows]
      apply List.take_of_length_le
      rw [List.length_take] at full
      omega

theorem FeedInv.finish (inv : FeedInv registered feed) {position : Option Nat} {page : Page}
    (open_ : feed.batches name = some (.read position page)) (some_ : page.events ≠ []) :
    FeedInv registered { feed.setBatch name none with
      cursors := Function.update feed.cursors name page.next
      handled := Function.update feed.handled name
        (feed.handled name ++ page.events.filter (wanted registered name)) } := by
  obtain ⟨at_, known⟩ := inv.batches name _ open_
  obtain ⟨last, next_, le, settled, rows⟩ := known some_
  have here : position = feed.cursors name := at_
  have closed : FeedInv registered (feed.setBatch name none) := inv.setBatch (by simp)
  refine ⟨⟨inv.distinct, inv.apart, inv.numbered, inv.logged⟩, ?_, ?_, ?_⟩
  · intro other
    by_cases same : other = name
    · subst other
      simp only [Function.update_self, next_]
      exact settled
    · simp only [Function.update_of_ne same]
      exact inv.cursor other
  · intro other
    by_cases same : other = name
    · subst other
      simp only [Function.update_self, next_]
      rw [inv.handled name, rows, here, ← List.filter_append]
      congr 1
      exact (Ordered.upto_append_between inv.distinct (here ▸ le)).symm
    · simp only [Function.update_of_ne same]
      exact inv.handled other
  · intro other inner still
    have apart : other ≠ name := by
      rintro rfl
      simp [Feed.setBatch] at still
    obtain ⟨same, holds⟩ := closed.batches other inner still
    simp only [Function.update_of_ne apart]
    refine ⟨same, ?_⟩
    cases inner <;> exact holds

theorem FeedInv.scan (inv : FeedInv registered feed) {action : BatchAction}
    (taken : feed.scan registered name action = some next) : FeedInv registered next := by
  cases action with
  | lockCursor limit =>
    simp only [Feed.scan] at taken
    split at taken
    · split at taken
      · cases taken
        apply inv.setBatch
        rintro _ ⟨⟩
        exact ⟨rfl, trivial⟩
      · cases taken
    · cases taken
  | readTop =>
    simp only [Feed.scan] at taken
    split at taken
    · next position limit open_ =>
      have here := (inv.batches name _ open_).1
      split at taken
      · cases taken
        apply inv.setBatch
        rintro _ ⟨⟩
        exact ⟨here, fun some_ => absurd rfl some_⟩
      · next top read =>
        split at taken
        · cases taken
          apply inv.setBatch
          rintro _ ⟨⟩
          exact ⟨here, fun some_ => absurd rfl some_⟩
        · next beyond =>
          cases taken
          obtain ⟨row, member, rfl⟩ := topSeq_mem read
          apply inv.setBatch
          rintro _ ⟨⟩
          exact ⟨here, Nat.lt_of_not_le beyond, inv.logged row member⟩
    · cases taken
  | readRows =>
    simp only [Feed.scan] at taken
    split at taken
    · next position limit top open_ =>
      cases taken
      obtain ⟨here, under, settled⟩ := inv.batches name _ open_
      apply inv.setBatch
      rintro _ ⟨⟩
      exact ⟨here, pageUpto_holds inv.toLogInv under settled⟩
    · cases taken
  | finish =>
    simp only [Feed.scan] at taken
    split at taken
    · next position page open_ =>
      split at taken
      · cases taken
        exact inv.setBatch (by simp)
      · next some_ =>
        cases taken
        exact inv.finish open_ some_
    · cases taken
  | fail =>
    simp only [Feed.scan] at taken
    split at taken
    · cases taken
      exact inv.setBatch (by simp)
    · cases taken

theorem scan_log {action : BatchAction} (taken : feed.scan registered name action = some next) :
    next.log = feed.log ∧ next.nextSeq = feed.nextSeq ∧ next.writer = feed.writer := by
  cases action <;> simp only [Feed.scan] at taken <;> repeat' split at taken
  all_goals cases taken
  all_goals exact ⟨rfl, rfl, rfl⟩

end Readers

section Runs

variable {registered : List Projection} {feed next : Feed}

theorem feedInv_start : FeedInv registered Feed.start where
  distinct := List.nodup_nil
  apart := List.nodup_nil
  numbered := by simp [Feed.pending, Feed.start]
  logged := by simp [Feed.start]
  cursor := by simp [Feed.Settled, Feed.pending, Feed.start, seqAt]
  handled := by simp [Feed.start, upto, inOrder]
  batches := by simp [Feed.start]

theorem feedInv_step {action : FeedAction} (inv : FeedInv registered feed)
    (taken : feed.step registered action = some next) : FeedInv registered next := by
  cases action with
  | writer action =>
    obtain ⟨log, written⟩ := logInv_write inv.toLogInv taken
    exact inv.write written log
  | batch name action => exact inv.scan taken

theorem feedInv_run (inv : FeedInv registered feed)
    (reached : Run.Reach (Feed.step registered) Run.always feed next) : FeedInv registered next :=
  reached.invariant _ inv fun _ _ _ inv _ taken => feedInv_step inv taken

theorem settled_step {action : FeedAction} (inv : FeedInv registered feed)
    (taken : feed.step registered action = some next) {seq : Nat} (settled : feed.Settled seq) :
    next.Settled seq ∧ ∀ row ∈ next.log, row ∈ feed.log ∨ seq < row.seq := by
  cases action with
  | writer action =>
    obtain ⟨_, written⟩ := logInv_write inv.toLogInv taken
    obtain ⟨more, log, above⟩ := written.grows
    refine ⟨written.settled _ settled, ?_⟩
    intro row member
    rw [log] at member
    rcases List.mem_append.mp member with old | fresh
    · exact Or.inl old
    · exact Or.inr (above _ settled row fresh)
  | batch name action =>
    obtain ⟨log, nextSeq, writer⟩ := scan_log taken
    constructor
    · simpa only [Feed.Settled, Feed.pending, nextSeq, writer] using settled
    · intro row member
      exact Or.inl (log ▸ member)

theorem settled_run (inv : FeedInv registered feed)
    (reached : Run.Reach (Feed.step registered) Run.always feed next) {seq : Nat} (settled : feed.Settled seq) :
    next.Settled seq ∧ ∀ row ∈ next.log, row ∈ feed.log ∨ seq < row.seq := by
  induction reached with
  | start => exact ⟨settled, fun row member => Or.inl member⟩
  | next before _ taken ih =>
    obtain ⟨still, above⟩ := settled_step (feedInv_run inv before) taken ih.1
    refine ⟨still, ?_⟩
    intro row member
    rcases above row member with old | new
    · exact ih.2 row old
    · exact Or.inr new

/-- Every async projection applies every event exactly once and in order, under any interleaving of
writers and batches. -/
theorem projections_exactly_once (registered : List Projection) {feed : Feed}
    (reached : Run.Reach (Feed.step registered) Run.always Feed.start feed) : ExactlyOnce registered feed := by
  have inv := feedInv_run feedInv_start reached
  have applied : ∀ name, feed.handled name =
      inOrder (·.seq) (feed.log.filter fun row => row.seq ≤ seqAt (feed.cursors name) && wanted registered name row) := by
    intro name
    rw [inv.handled name, upto, Ordered.filter_inOrder (Ordered.distinct_filter inv.distinct _), List.filter_filter]
    congr 1
    apply List.filter_congr
    intro row _
    exact Bool.and_comm _ _
  refine ⟨applied, ?_, ?_⟩
  · intro name
    rw [applied name]
    exact List.pairwise_map.mpr (Ordered.inOrder_increasing (Ordered.distinct_filter inv.distinct _))
  · intro name later run
    exact (settled_run inv run (inv.cursor name)).2

end Runs

def counts : Projection := ⟨"async-counts", ["order"], ["OrderPlaced"]⟩

def placed (seq : Nat) (id : String) : StoredEvent where
  seq := seq
  id := id
  kind := "order"
  entityId := "o1"
  version := seq
  type := "OrderPlaced"
  data := .null
  stamped := .null
  recordedAt := 0
  commandId := none
  causeSeq := none
  correlationId := none
  erasedAt := none
  schemaVersion := 1

def interleaved : List FeedAction :=
  [.writer .lock, .writer (.stamp 2), .writer (.append [placed 2 "evt_2", placed 1 "evt_1"]),
    .batch "async-counts" (.lockCursor 1), .writer .commit, .batch "async-counts" .readTop,
    .writer .lock, .writer (.stamp 1), .writer (.append [placed 3 "evt_3"]), .writer .rollback,
    .writer .lock, .writer (.stamp 1), .writer (.append [placed 4 "evt_4"]), .writer .commit,
    .batch "async-counts" .readRows, .batch "async-counts" .finish,
    .batch "async-counts" (.lockCursor 5), .batch "async-counts" .readTop, .batch "async-counts" .readRows,
    .batch "async-counts" .finish]

theorem projections_exactly_once_interleaved :
    ∃ feed, Run.run (Feed.step [counts]) Feed.start interleaved = some feed ∧
      (feed.handled "async-counts").map (·.seq) = [1, 2, 4] ∧ feed.cursors "async-counts" = some 4 ∧
      ExactlyOnce [counts] feed :=
  ⟨_, rfl, by decide, by decide, projections_exactly_once [counts] (Run.Reach.of_run
    (rfl : Run.run (Feed.step [counts]) Feed.start interleaved = some _))⟩

end Arki.Journal
