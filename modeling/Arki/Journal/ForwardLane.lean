import Arki.Journal.ForwardSafety

/-! The two promises of the forward lane: a version is given once, and an event is never lost. Both
hold in every run of orderly steps, and each breaks on a run with one step that is not.
-/

set_option autoImplicit false

namespace Arki.Journal

variable {entity : EntityKey} {lane : Lane}

structure VersionsFresh (entity : EntityKey) (lane : Lane) : Prop where
  base : ∀ reading ∈ lane.writer, reading.baseVersion lane.log = highestVersion lane.recorded
  write : ∀ now id drafts alive next, lane.step entity (.write now id drafts alive) = some next →
    ∃ events, events ≠ [] ∧ next.batches = lane.batches ++ [events] ∧
      Batches.Numbered StoredEvent.version (highestVersion lane.recorded) events

theorem versions_fresh (reached : Run.Reach (Lane.step entity) (Orderly entity) .start lane) :
    VersionsFresh entity lane := by
  obtain ⟨landed, inv⟩ := laneInv_reach reached
  have base : ∀ reading ∈ lane.writer, reading.baseVersion lane.log = highestVersion lane.recorded :=
    fun reading open_ => (inv.base open_).trans inv.recorded_top.symm
  refine ⟨base, fun now id drafts alive next taken => ?_⟩
  obtain ⟨reading, open_, some_, world, moved, rfl⟩ := lane_write_some taken
  refine ⟨_, fun empty => some_ ?_, rfl, ?_⟩
  · have := congrArg List.length empty
    simpa [numberEvents] using this
  · rw [base reading open_]
    exact numberEvents_numbered _ _ drafts

/-- A recorded event is in the log or in a hot forward job, and a job of the stream leaves the hot table
only when the log has its events. -/
structure NothingLost (entity : EntityKey) (lane : Lane) : Prop where
  kept : ∀ event ∈ lane.recorded, event ∈ lane.log ∨
    ∃ job ∈ lane.world.tables.jobs, job.work.body.isForward = true ∧ event ∈ job.work.body.copies
  leaves : ∀ action next, Orderly entity lane (.lease action) → lane.step entity (.lease action) = some next →
    ∀ job ∈ lane.world.tables.jobs, job.work.inStream entity.stream = true →
      (∀ other ∈ next.world.tables.jobs, other.id ≠ job.id) → ∀ event ∈ job.work.body.copies, event ∈ lane.log

theorem nothing_lost (reached : Run.Reach (Lane.step entity) (Orderly entity) .start lane) :
    NothingLost entity lane := by
  obtain ⟨landed, inv⟩ := laneInv_reach reached
  constructor
  · intro event member
    obtain ⟨batch, listed, inside⟩ := List.mem_flatten.mp member
    obtain ⟨i, selected⟩ := List.mem_iff_getElem?.mp listed
    rcases Nat.lt_or_ge i landed with early | late
    · exact .inl (inv.log ▸ Batches.mem_flatten_take selected early inside)
    · obtain ⟨job, hot, work⟩ := inv.hot i batch late selected
      exact .inr ⟨job, hot, by rw [work]; rfl, by rw [work]; exact inside⟩
  · intro action next orderly taken job member ours gone event carried
    obtain ⟨admitted, world, moved, rfl⟩ := lane_lease_some taken
    obtain ⟨i, batch, selected, work⟩ := inv.jobs job member ours
    rcases Nat.lt_or_ge i landed with early | late
    · rw [work] at carried
      exact inv.log ▸ Batches.mem_flatten_take selected early carried
    · obtain ⟨other, found, same⟩ := inv.stays orderly admitted moved member selected work late
      exact absurd same (gone other found)

/-! One order, created, deleted and created again. -/

def order : EntityKey := ⟨"order", "o1"⟩

def draft (id type : String) : StoredEvent := { mailEvent with id := id, type := type }

def orderJob (id event type : String) (position : Nat) (replayOf : Option String) (now : Nat) : Job :=
  newJob id (forwardWork order (numberEvents order position [draft event type]) position) now now replayOf none

def orderClaim (job : Job) (attempts now : Nat) (token row : String) : Claim :=
  ⟨{ job with attempts := attempts, leaseToken := some token, leaseUntil := some (now + 60000) }, row⟩

def deliver (job : Job) (now : Nat) (token row : String) : List LaneAction :=
  [.lease (.claim mailDrain now [] job.id token row),
   .check (orderClaim job 1 now token row),
   .append (orderClaim job 1 now token row) true,
   .lease (.ack mailDrain now now (orderClaim job 1 now token row))]

def createAndDeliver : List LaneAction :=
  [.openWrite, .write 0 "job_1" [draft "evt_1" "Placed"] true] ++
    deliver (orderJob "job_1" "evt_1" "Placed" 0 none 0) 10 "lease_1" "att_1"

def deleteAndDeliver : List LaneAction :=
  [.openWrite, .write 20 "job_2" [draft "evt_2" "Removed"] false] ++
    deliver (orderJob "job_2" "evt_2" "Removed" 1 none 20) 30 "lease_2" "att_2"

theorem versions_fresh_order : ∃ lane,
    Run.run (Run.guarded (Lane.step order) (Orderly order)) .start
      (createAndDeliver ++ deleteAndDeliver ++ [.openWrite]) = some lane ∧
    lane.log.length = 2 ∧ lane.row = none ∧ VersionsFresh order lane :=
  ⟨_, rfl, by decide, by decide, versions_fresh (Run.Reach.of_guarded
    (rfl : Run.run (Run.guarded (Lane.step order) (Orderly order)) .start
      (createAndDeliver ++ deleteAndDeliver ++ [.openWrite]) = some _))⟩

def replayedCreate : List LaneAction :=
  createAndDeliver ++ deleteAndDeliver ++ [.lease (.replay .refuse 40 "job_3" "job_1"), .openWrite]

/-- The log ends at version 2, and the create is given version 2 again. -/
theorem version_reused : ∃ lane, Run.run (Lane.step order) .start replayedCreate = some lane ∧
    highestVersion lane.recorded = 2 ∧
    ((lane.step order (.write 50 "job_4" [draft "evt_3" "Placed"] true)).map fun next =>
      (next.recorded.map (·.version))) = some [1, 2, 2] ∧
    ¬ VersionsFresh order lane := by
  refine ⟨_, rfl, by decide, by decide, fun fresh => ?_⟩
  exact absurd (fresh.base ⟨none, some 1⟩ rfl) (by decide)

theorem nothing_lost_order : ∃ lane,
    Run.run (Run.guarded (Lane.step order) (Orderly order)) .start
      (createAndDeliver ++ [.openWrite, .write 20 "job_2" [draft "evt_2" "Removed"] false]) = some lane ∧
    lane.log.length = 1 ∧ lane.world.tables.jobs.length = 1 ∧ NothingLost order lane :=
  ⟨_, rfl, by decide, by decide, nothing_lost (Run.Reach.of_guarded
    (rfl : Run.run (Run.guarded (Lane.step order) (Orderly order)) .start
      (createAndDeliver ++ [.openWrite, .write 20 "job_2" [draft "evt_2" "Removed"] false]) = some _))⟩

def orderKeeping : Keeping := ⟨defaultRetention, fun _ => none⟩

def failedTry (attempts now : Nat) (token row : String) (delayMs : Option Nat) : List LaneAction :=
  let job := orderJob "job_1" "evt_1" "Placed" 0 none 0
  let tried := if attempts = 1 then job else { job with availableAt := now, lastError := some "Error: down" }
  [.lease (.claim mailDrain now [] "job_1" token row),
   .lease (.fail now (orderClaim tried attempts now token row) "Error: down" delayMs)]

def purgedForward : List LaneAction :=
  [.openWrite, .write 0 "job_1" [draft "evt_1" "Placed"] true] ++
    failedTry 1 10 "lease_1" "att_1" (some 10) ++ failedTry 2 20 "lease_2" "att_2" (some 10) ++
    failedTry 3 30 "lease_3" "att_3" (some 10) ++ failedTry 4 40 "lease_4" "att_4" (some 10) ++
    failedTry 5 50 "lease_5" "att_5" (some 10) ++ failedTry 6 60 "lease_6" "att_6" (some 10) ++
    failedTry 7 70 "lease_7" "att_7" (some 10) ++ failedTry 8 80 "lease_8" "att_8" none ++
    [.lease (.purgeDead orderKeeping 2592000100 2592000100 100 1000 [] fun _ => true)]

/-- The event is in no log and in no hot job. -/
theorem purged_event_lost : ∃ lane, Run.run (Lane.step order) .start purgedForward = some lane ∧
    lane.recorded.length = 1 ∧ lane.log = [] ∧ lane.world.tables.jobs = [] ∧ ¬ NothingLost order lane := by
  refine ⟨_, rfl, by decide, by decide, by decide, fun kept => ?_⟩
  exact absurd (kept.kept (draft "evt_1" "Placed") (by decide)) (by decide)

end Arki.Journal
