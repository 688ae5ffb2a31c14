import Arki.Journal.Transactions
import Arki.Library.Run

/-! The lease protocol of the job tables: any number of workers and operators, each step one
transaction at a time of its own, so a lease may run out before any step.
-/

set_option autoImplicit false

namespace Arki.Journal

structure Claim where
  job : Job
  row : String
  deriving DecidableEq

/-- The tables, and what happened so far: the claims made, the ids and tokens handed out, and the
jobs that acks took away. -/
structure World where
  tables : Tables
  claims : List Claim
  spent : List String
  acked : List String

def World.start : World := ⟨.empty, [], [], []⟩

/-- A worker may act on any claim it ever made, as often as it likes and in any order. -/
inductive Action where
  | enqueue (now availableAt : Nat) (id : String) (work : Work) (runId : Option String)
  | claim (drain : Drain) (now : Nat) (locked : List String) (id token attempt : String)
  | renew (drain : Drain) (now : Nat) (claim : Claim)
  | ack (drain : Drain) (now clock : Nat) (claim : Claim)
  | fail (now : Nat) (claim : Claim) (error : String) (delayMs : Option Nat)
  | release (now : Nat) (claim : Claim)
  | retry (managed : Managed) (now : Nat) (id : String)
  | retryDead (managed : Managed) (now : Nat) (ids : List String)
  | retryDeadWhere (managed : Managed) (now : Nat) (wanted : Job → Bool) (limit : Nat) (locked : List String)
  | discard (managed : Managed) (keeping : Keeping) (now clock : Nat) (top : LogTop) (id : String)
  | cancel (managed : Managed) (keeping : Keeping) (now clock : Nat) (id : String)
  | purgeDead (keeping : Keeping) (now clock olderThan limit : Nat) (locked : List String) (scope : Job → Bool)
  | replay (managed : Managed) (now : Nat) (id archivedId : String)
  | reschedule (moved : Job → Bool) (startAt : Nat)
  | pruneArchive (pruned : ArchivedJob → Bool)
  | exportArchive (now : Nat) (sent : ArchivedJob → Bool)

def World.unspent (world : World) (names : List String) : Bool :=
  decide names.Nodup && names.all (!world.spent.contains ·)

def World.set (world : World) (tables : Tables) : World := { world with tables := tables }

def World.verb (world : World) (result : Except JournalError Tables) : Option World := result.toOption.map world.set

def World.spend (world : World) (names : List String) (result : Option World) : Option World :=
  if world.unspent names then result.map fun next => { next with spent := names ++ world.spent } else none

def World.held (world : World) (claim : Claim) (result : Option World) : Option World :=
  if claim ∈ world.claims then result else none

def World.ackedBy (world : World) (claim : Claim) : List String :=
  (world.tables.jobs.filter (holds claim.job)).map (·.id)

def World.step (world : World) : Action → Option World
  | .enqueue now availableAt id work runId =>
    world.spend [id] ((world.tables.insertJob (newJob id work now availableAt none runId)).map world.set)
  | .claim drain now locked id token attempt =>
    world.spend [token, attempt] ((claimOne drain now locked id token attempt world.tables).map fun (claimed, tables) =>
      { world with tables := tables, claims := ⟨claimed, attempt⟩ :: world.claims })
  | .renew drain now claim => world.held claim (some (world.set (renew drain now claim.job world.tables)))
  | .ack drain now clock claim =>
    world.held claim ((ack drain now clock claim.job world.tables).map fun tables =>
      { world with tables := tables, acked := world.acked ++ world.ackedBy claim })
  | .fail now claim error delayMs =>
    world.held claim (some (world.set (recordFailure now claim.job error delayMs world.tables)))
  | .release now claim => world.held claim (some (world.set (releaseInterrupted now claim.job world.tables)))
  | .retry managed now id => world.verb (retry managed now id world.tables)
  | .retryDead managed now ids => world.verb (retryDead managed now ids world.tables)
  | .retryDeadWhere managed now wanted limit locked =>
    world.verb (retryDeadWhere managed now wanted limit locked world.tables)
  | .discard managed keeping now clock top id => world.verb (discard managed keeping now clock top id world.tables)
  | .cancel managed keeping now clock id => world.verb (cancel managed keeping now clock id world.tables)
  | .purgeDead keeping now clock olderThan limit locked scope =>
    world.verb (purgeDeadWhere keeping now clock olderThan limit locked scope world.tables)
  | .replay managed now id archivedId => world.spend [id] (world.verb (replay managed now id archivedId world.tables))
  | .reschedule moved startAt => some (world.set (reschedule moved startAt world.tables))
  | .pruneArchive pruned => some (world.set (pruneArchive pruned world.tables))
  | .exportArchive now sent => some (world.set (exportArchive now sent world.tables))

variable {world next : World}

theorem unspent_iff {names : List String} :
    world.unspent names = true ↔ names.Nodup ∧ ∀ name ∈ names, name ∉ world.spent := by
  simp [World.unspent]

theorem verb_some {result : Except JournalError Tables} (taken : world.verb result = some next) :
    ∃ tables, result = .ok tables ∧ next = world.set tables := by
  cases result with
  | error error => simp [World.verb, Except.toOption] at taken
  | ok tables =>
    simp only [World.verb, Except.toOption, Option.map_some, Option.some.injEq] at taken
    exact ⟨tables, rfl, taken.symm⟩

theorem spend_some {names : List String} {result : Option World} (taken : world.spend names result = some next) :
    world.unspent names = true ∧ ∃ made, result = some made ∧ next = { made with spent := names ++ world.spent } := by
  simp only [World.spend] at taken
  split at taken
  · next free =>
    simp only [Option.map_eq_some_iff] at taken
    obtain ⟨made, same, rfl⟩ := taken
    exact ⟨free, made, same, rfl⟩
  · cases taken

theorem held_some {claim : Claim} {result : Option World} (taken : world.held claim result = some next) :
    claim ∈ world.claims ∧ result = some next := by
  simp only [World.held] at taken
  split at taken
  · next member => exact ⟨member, taken⟩
  · cases taken

variable {drain : Drain} {now : Nat} {tables : Tables}

theorem claim_some {locked : List String} {id token attempt : String}
    (taken : world.step (.claim drain now locked id token attempt) = some next) :
    ∃ first ∈ world.tables.jobs, first.id = id ∧
      next.claims = ⟨first.lease now drain.leaseMs token, attempt⟩ :: world.claims ∧
      next.tables.attempts =
        Table.update world.tables.attempts (JobAttempt.openOf first.id) (JobAttempt.supersede now) ++
          [openAttempt attempt first.id (first.attempts + 1) now] := by
  obtain ⟨_, made, claimed, rfl⟩ := spend_some taken
  obtain ⟨⟨job, tables⟩, done, rfl⟩ := Option.map_eq_some_iff.mp claimed
  obtain ⟨first, member, same, _, _, rfl, rfl⟩ := claimOne_some done
  exact ⟨first, member, same, rfl, rfl⟩

/-- What a step does besides its change of the tables: new names are spent, a claim is remembered, an
ack is counted. -/
inductive Noted (world next : World) : Action → List String → Prop where
  | enqueue {now availableAt : Nat} {id : String} {work : Work} {runId : Option String}
      (claims : next.claims = world.claims) (acked : next.acked = world.acked) :
      Noted world next (.enqueue now availableAt id work runId) [id]
  | claim {drain : Drain} {now : Nat} {locked : List String} {id token attempt : String} (first : Job)
      (member : first ∈ world.tables.jobs)
      (claims : next.claims = ⟨first.lease now drain.leaseMs token, attempt⟩ :: world.claims)
      (acked : next.acked = world.acked) :
      Noted world next (.claim drain now locked id token attempt) [token, attempt]
  | ack {drain : Drain} {now clock : Nat} {claim : Claim} (member : claim ∈ world.claims)
      (gone : next.tables.jobs = Table.delete world.tables.jobs (holds claim.job))
      (claims : next.claims = world.claims) (acked : next.acked = world.acked ++ world.ackedBy claim) :
      Noted world next (.ack drain now clock claim) []
  | replay {managed : Managed} {now : Nat} {id archivedId : String}
      (claims : next.claims = world.claims) (acked : next.acked = world.acked) :
      Noted world next (.replay managed now id archivedId) [id]
  | plain {action : Action} (claims : next.claims = world.claims) (acked : next.acked = world.acked) :
      Noted world next action []

structure Inv (world : World) : Prop where
  settled : Settled world.tables
  named : Named world.spent world.tables
  claimed : ∀ claim ∈ world.claims, claim.job.leaseToken.isSome = true ∧ claim.job.id ∈ world.spent
  acked : ∀ id ∈ world.acked, id ∈ world.spent ∧ ∀ job ∈ world.tables.jobs, job.id ≠ id
  once : world.acked.Nodup

theorem inv_start : Inv .start where
  settled := settled_empty
  named := named_empty
  claimed := by simp [World.start]
  acked := by simp [World.start]
  once := List.nodup_nil

theorem ack_jobs {after : Tables} {clock : Nat} {held : Job}
    (acked : ack drain now clock held tables = some after) :
    after.jobs = Table.delete tables.jobs (holds held) := by
  unfold ack at acked
  split at acked
  · cases acked
    rfl
  · obtain ⟨_, rfl⟩ := moveToArchive_some.mp acked
    rfl

theorem step_change (inv : Inv world) {action : Action} (taken : world.step action = some next) :
    ∃ names, Change world.tables names next.tables ∧ Noted world next action names ∧
      next.spent = names ++ world.spent ∧ ∀ name ∈ names, name ∉ world.spent := by
  have unarchived : ∀ id, id ∉ world.spent → ∀ row ∈ world.tables.archive, row.id ≠ id :=
    fun id free row member same => free (same ▸ inv.named.archived row member)
  cases action with
  | enqueue now availableAt id work runId =>
    obtain ⟨free, made, inserted, rfl⟩ := spend_some taken
    have fresh := (unspent_iff.mp free).2
    obtain ⟨tables, done, rfl⟩ := Option.map_eq_some_iff.mp inserted
    exact ⟨[id], insertJob_change (unarchived id (fresh id (by simp))) done, .enqueue rfl rfl, rfl, fresh⟩
  | claim drain now locked id token attempt =>
    obtain ⟨free, made, claimed, rfl⟩ := spend_some taken
    obtain ⟨⟨job, tables⟩, done, rfl⟩ := Option.map_eq_some_iff.mp claimed
    obtain ⟨first, member, _, _, _, rfl, _⟩ := claimOne_some done
    exact ⟨_, claimOne_change done, .claim first member rfl rfl, rfl, (unspent_iff.mp free).2⟩
  | renew drain now claim =>
    obtain ⟨_, same⟩ := held_some taken
    cases same
    exact ⟨[], renew_change drain now claim.job, .plain rfl rfl, rfl, by simp⟩
  | ack drain now clock claim =>
    obtain ⟨member, acked⟩ := held_some taken
    obtain ⟨tables, done, rfl⟩ := Option.map_eq_some_iff.mp acked
    exact ⟨[], ack_change inv.settled done, .ack member (ack_jobs done) rfl rfl, rfl, by simp⟩
  | fail now claim error delayMs =>
    obtain ⟨_, same⟩ := held_some taken
    cases same
    exact ⟨[], recordFailure_change now claim.job error delayMs, .plain rfl rfl, rfl, by simp⟩
  | release now claim =>
    obtain ⟨_, same⟩ := held_some taken
    cases same
    exact ⟨[], releaseInterrupted_change now claim.job, .plain rfl rfl, rfl, by simp⟩
  | retry managed now id =>
    obtain ⟨tables, done, rfl⟩ := verb_some taken
    exact ⟨[], retry_change done, .plain rfl rfl, rfl, by simp⟩
  | retryDead managed now ids =>
    obtain ⟨tables, done, rfl⟩ := verb_some taken
    exact ⟨[], retryDead_change done, .plain rfl rfl, rfl, by simp⟩
  | retryDeadWhere managed now wanted limit locked =>
    obtain ⟨tables, done, rfl⟩ := verb_some taken
    exact ⟨[], retryDeadWhere_change done, .plain rfl rfl, rfl, by simp⟩
  | discard managed keeping now clock top id =>
    obtain ⟨tables, done, rfl⟩ := verb_some taken
    exact ⟨[], discard_change inv.settled done, .plain rfl rfl, rfl, by simp⟩
  | cancel managed keeping now clock id =>
    obtain ⟨tables, done, rfl⟩ := verb_some taken
    exact ⟨[], cancel_change inv.settled done, .plain rfl rfl, rfl, by simp⟩
  | purgeDead keeping now clock olderThan limit locked scope =>
    obtain ⟨tables, done, rfl⟩ := verb_some taken
    exact ⟨[], purgeDeadWhere_change inv.settled done, .plain rfl rfl, rfl, by simp⟩
  | replay managed now id archivedId =>
    obtain ⟨free, made, replayed, rfl⟩ := spend_some taken
    have fresh := (unspent_iff.mp free).2
    obtain ⟨tables, done, rfl⟩ := verb_some replayed
    exact ⟨[id], replay_change (unarchived id (fresh id (by simp))) done, .replay rfl rfl, rfl, fresh⟩
  | reschedule moved startAt =>
    cases taken
    exact ⟨[], reschedule_change moved startAt, .plain rfl rfl, rfl, by simp⟩
  | pruneArchive pruned =>
    cases taken
    exact ⟨[], pruneArchive_change pruned, .plain rfl rfl, rfl, by simp⟩
  | exportArchive now sent =>
    cases taken
    exact ⟨[], exportArchive_change now sent, .plain rfl rfl, rfl, by simp⟩

theorem ackedBy_nodup (settled : Settled world.tables) (claim : Claim) : (world.ackedBy claim).Nodup :=
  settled.jobs.sublist (List.filter_sublist.map _)

theorem inv_step (inv : Inv world) {action : Action} (taken : world.step action = some next) : Inv next := by
  obtain ⟨names, change, noted, spent, fresh⟩ := step_change inv taken
  -- a job that an ack took never comes back: its id is spent
  have gone : ∀ id ∈ world.acked, id ∈ next.spent ∧ ∀ job ∈ next.tables.jobs, job.id ≠ id := by
    intro id was
    obtain ⟨used, absent⟩ := inv.acked id was
    refine ⟨spent ▸ List.mem_append_right _ used, fun job member same => ?_⟩
    rcases change.job_ids member with ⟨old, present, its, _⟩ | rfl
    · exact absent old present (its.trans same)
    · exact fresh _ (by simp) (same ▸ used)
  have claimed : ∀ claim ∈ world.claims, claim.job.leaseToken.isSome = true ∧ claim.job.id ∈ next.spent := by
    intro claim was
    obtain ⟨leased, used⟩ := inv.claimed claim was
    exact ⟨leased, spent ▸ List.mem_append_right _ used⟩
  have settled := inv.settled.change change
  have named : Named next.spent next.tables := spent ▸ inv.named.change change
  cases noted with
  | enqueue claims acked => exact ⟨settled, named, claims ▸ claimed, acked ▸ gone, acked ▸ inv.once⟩
  | replay claims acked => exact ⟨settled, named, claims ▸ claimed, acked ▸ gone, acked ▸ inv.once⟩
  | plain claims acked => exact ⟨settled, named, claims ▸ claimed, acked ▸ gone, acked ▸ inv.once⟩
  | claim first member claims acked =>
    refine ⟨settled, named, ?_, acked ▸ gone, acked ▸ inv.once⟩
    rw [claims]
    intro claim was
    rcases List.mem_cons.mp was with rfl | older
    · exact ⟨rfl, spent ▸ List.mem_append_right _ (inv.named.jobs first member)⟩
    · exact claimed claim older
  | @ack drain now clock claim member left claims acked =>
    refine ⟨settled, named, claims ▸ claimed, ?_, ?_⟩
    · rw [acked]
      intro id was
      rcases List.mem_append.mp was with old | new
      · exact gone id old
      · obtain ⟨job, hit, rfl⟩ := List.mem_map.mp new
        obtain ⟨present, fenced⟩ := List.mem_filter.mp hit
        refine ⟨spent ▸ List.mem_append_right _ (inv.named.jobs job present), fun other found same => ?_⟩
        rw [left] at found
        obtain ⟨stays, miss⟩ := Table.mem_delete.mp found
        have := Table.eq_of_key inv.settled.jobs stays present same
        subst this
        simp [fenced] at miss
    · rw [acked]
      refine List.nodup_append.mpr ⟨inv.once, ackedBy_nodup inv.settled claim, ?_⟩
      intro id was other new same
      obtain ⟨job, hit, rfl⟩ := List.mem_map.mp new
      exact (inv.acked id was).2 job (List.mem_filter.mp hit).1 same.symm

theorem inv_reach (reached : Run.Reach World.step Run.always .start world) : Inv world :=
  reached.invariant Inv inv_start fun _ _ _ inv _ taken => inv_step inv taken

def Claim.stale (claim : Claim) (tables : Tables) : Prop :=
  ∀ job ∈ tables.jobs, job.id = claim.job.id → job.leaseToken ≠ claim.job.leaseToken

theorem stale_misses {claim : Claim} (leased : claim.job.leaseToken.isSome = true)
    (stale : claim.stale tables) : ∀ job ∈ tables.jobs, holds claim.job job = false := by
  intro job member
  obtain ⟨token, same⟩ := Option.isSome_iff_exists.mp leased
  by_contra hit
  simp only [Bool.not_eq_false, holds, same, Option.getD_some, Bool.and_eq_true, beq_iff_eq] at hit
  exact stale job member hit.1 (hit.2.trans same.symm)

theorem endAttempt_missed {held : Job} {set : Job → Job} {close : JobAttempt → JobAttempt}
    (missed : ∀ job ∈ tables.jobs, holds held job = false) : tables.endAttempt held set close = tables := by
  have nobody : tables.jobs.any (holds held) = false := List.any_eq_false.mpr fun job member => by simp [missed job member]
  simp only [Tables.endAttempt, nobody, Bool.false_eq_true, ↓reduceIte]

theorem remove_missed {gone : Job → Bool} (missed : ∀ job ∈ tables.jobs, gone job = false) :
    tables.remove gone = tables := by
  simp only [Tables.remove, Table.delete_eq_self missed]
  rw [Table.delete_eq_self]
  intro row _
  exact List.any_eq_false.mpr fun job member => by simp [missed job member]

theorem ack_missed {clock : Nat} {held : Job}
    (missed : ∀ job ∈ tables.jobs, holds held job = false) : ack drain now clock held tables = some tables := by
  have nothing : tables.jobs.filter (holds held) = [] :=
    List.filter_eq_nil_iff.mpr fun job member => by simp [missed job member]
  unfold ack
  split
  · rw [remove_missed missed]
  · refine moveToArchive_some.mpr ?_
    simp [nothing, remove_missed missed]

theorem renew_missed {held : Job}
    (missed : ∀ job ∈ tables.jobs, holds held job = false) : renew drain now held tables = tables := by
  simp only [renew, Table.update_eq_self _ missed]

structure LeaseProtocol (world : World) : Prop where
  /-- At most one attempt is open, and a leased job has one, with the job's own number. -/
  attempts : ∀ id, (openAttempts world.tables id).length ≤ 1
  leased : ∀ job ∈ world.tables.jobs, job.leaseToken.isSome = true →
    ∃ row, openAttempts world.tables job.id = [row] ∧ row.attempt = job.attempts
  dead : ∀ job ∈ world.tables.jobs, job.deadAt.isSome = true →
    job.leaseToken = none ∧ openAttempts world.tables job.id = []
  /-- A worker that lost its lease changes nothing, whatever it does. -/
  stale : ∀ claim ∈ world.claims, claim.stale world.tables → ∀ drain now clock error delayMs,
    ack drain now clock claim.job world.tables = some world.tables ∧
      recordFailure now claim.job error delayMs world.tables = world.tables ∧
      releaseInterrupted now claim.job world.tables = world.tables ∧
      renew drain now claim.job world.tables = world.tables
  /-- An ack takes a job once, for good, and no job is in both tables. -/
  acked : world.acked.Nodup ∧ ∀ id ∈ world.acked, ∀ job ∈ world.tables.jobs, job.id ≠ id
  archived : (world.tables.archive.map (·.id)).Nodup ∧
    ∀ row ∈ world.tables.archive, ∀ job ∈ world.tables.jobs, row.id ≠ job.id

theorem lease_protocol (reached : Run.Reach World.step Run.always .start world) : LeaseProtocol world := by
  have inv := inv_reach reached
  have leased : ∀ job ∈ world.tables.jobs, job.leaseToken.isSome = true →
      ∃ row, openAttempts world.tables job.id = [row] ∧ row.attempt = job.attempts := by
    intro job member held
    have rows := inv.settled.leased job member
    rw [if_pos held] at rows
    obtain ⟨row, only, number⟩ := List.map_eq_singleton_iff.mp rows
    exact ⟨row, only, number⟩
  have free : ∀ job ∈ world.tables.jobs, job.leaseToken = none → openAttempts world.tables job.id = [] := by
    intro job member idle
    simpa [idle] using inv.settled.leased job member
  refine ⟨inv.settled.open_le_one, leased, fun job member died => ?_, ?_,
    ⟨inv.once, fun id was => (inv.acked id was).2⟩, inv.settled.archived, inv.settled.apart⟩
  · have idle := inv.settled.dead job member died
    exact ⟨idle, free job member idle⟩
  · intro claim member stale drain now clock error delayMs
    have missed := stale_misses (inv.claimed claim member).1 stale
    exact ⟨ack_missed missed, endAttempt_missed missed, endAttempt_missed missed, renew_missed missed⟩

/-! A mail job that two workers claim in turn. -/

def mailEvent : StoredEvent where
  seq := 1
  id := "evt_1"
  kind := "order"
  entityId := "o1"
  version := 1
  type := "Placed"
  data := .object [("total", .number 3)]
  stamped := .object []
  recordedAt := 0
  commandId := some "cmd_1"
  causeSeq := none
  correlationId := some "cor_1"
  erasedAt := none
  schemaVersion := 1

def mailWork : Work := ⟨.effect "mail" (some 1) mailEvent, none, 0, by decide⟩

def mailDrain : Drain where
  known := ["mail"]
  queued := []
  forwarded := ["order"]
  leaseMs := 60000
  policy := defaultRetention
  effectOverride _ := none
  queueRetention _ := none

/-- The mail job as the claim that takes its `attempts`th try at `now` returns it. -/
def mailClaim (attempts now : Nat) (token row : String) : Claim :=
  ⟨{ newJob "job_1" mailWork 0 0 none none with
      attempts := attempts, leaseToken := some token, leaseUntil := some (now + 60000) }, row⟩

def takeover : List Action :=
  [.enqueue 0 0 "job_1" mailWork none,
   .claim mailDrain 10 [] "job_1" "lease_1" "att_1",
   .claim mailDrain 60010 [] "job_1" "lease_2" "att_2",
   .fail 60020 (mailClaim 1 10 "lease_1" "att_1") "late" (some 1000),
   .ack mailDrain 60030 60030 (mailClaim 2 60010 "lease_2" "att_2")]

theorem lease_protocol_takeover : ∃ world, Run.run World.step .start takeover = some world ∧
    world.acked = ["job_1"] ∧ world.tables.archive.map (·.attempts) = [2] ∧ LeaseProtocol world :=
  ⟨_, rfl, by decide, by decide, lease_protocol (Run.Reach.of_run (rfl : Run.run World.step .start takeover = _))⟩

end Arki.Journal
