import Arki.Journal.Lease

/-! Where the jobs of the hot table come from, and why one is not there any more. -/

set_option autoImplicit false

namespace Arki.Journal

variable {world next : World}

theorem enqueue_jobs {now availableAt : Nat} {id : String} {work : Work} {runId : Option String}
    (taken : world.step (.enqueue now availableAt id work runId) = some next) :
    next.tables.jobs = world.tables.jobs ++ [newJob id work now availableAt none runId] := by
  obtain ⟨_, made, inserted, rfl⟩ := spend_some taken
  obtain ⟨tables, done, rfl⟩ := Option.map_eq_some_iff.mp inserted
  obtain ⟨_, rfl⟩ := insertJob_some.mp done
  rfl

theorem enqueue_rest {now availableAt : Nat} {id : String} {work : Work} {runId : Option String}
    (taken : world.step (.enqueue now availableAt id work runId) = some next) :
    next.tables.archive = world.tables.archive ∧ next.claims = world.claims := by
  obtain ⟨_, made, inserted, rfl⟩ := spend_some taken
  obtain ⟨tables, done, rfl⟩ := Option.map_eq_some_iff.mp inserted
  obtain ⟨_, rfl⟩ := insertJob_some.mp done
  exact ⟨rfl, rfl⟩

theorem replay_jobs {managed : Managed} {now : Nat} {id archivedId : String}
    (taken : world.step (.replay managed now id archivedId) = some next) :
    ∃ source ∈ world.tables.archive,
      next.tables.jobs = world.tables.jobs ++ [newJob id source.work now now (some source.id) none] := by
  obtain ⟨_, made, replayed, rfl⟩ := spend_some taken
  obtain ⟨tables, done, rfl⟩ := verb_some replayed
  obtain ⟨source, member, inserted⟩ := replay_ok done
  obtain ⟨_, rfl⟩ := insertJob_some.mp inserted
  exact ⟨source, member, rfl⟩

inductive Arrival (world : World) (job : Job) : Action → Prop where
  | stays {action : Action} (old : Job) (member : old ∈ world.tables.jobs) (id : old.id = job.id)
      (work : old.work = job.work) : Arrival world job action
  | enqueued {now availableAt : Nat} {runId : Option String} :
      Arrival world job (.enqueue now availableAt job.id job.work runId)
  | replayed {managed : Managed} {now : Nat} {archivedId : String} (source : ArchivedJob)
      (member : source ∈ world.tables.archive) (work : source.work = job.work) :
      Arrival world job (.replay managed now job.id archivedId)

theorem step_arrival (inv : Inv world) {action : Action} (taken : world.step action = some next) {job : Job}
    (member : job ∈ next.tables.jobs) : Arrival world job action := by
  obtain ⟨names, change, noted, _, _⟩ := step_change inv taken
  rcases change.job_ids member with ⟨old, was, id, work⟩ | rfl
  · exact .stays old was id work
  · cases noted with
    | enqueue =>
      rw [enqueue_jobs taken] at member
      rcases List.mem_append.mp member with was | last
      · exact .stays job was rfl rfl
      · rw [List.mem_singleton.mp last]
        exact .enqueued
    | replay =>
      obtain ⟨source, archived, jobs⟩ := replay_jobs taken
      rw [jobs] at member
      rcases List.mem_append.mp member with was | last
      · exact .stays job was rfl rfl
      · rw [List.mem_singleton.mp last]
        exact .replayed source archived rfl

theorem step_work (inv : Inv world) {action : Action} (taken : world.step action = some next) {job : Job}
    (member : job ∈ next.tables.jobs) (known : job.id ∈ world.spent) :
    ∃ old ∈ world.tables.jobs, old.id = job.id ∧ old.work = job.work := by
  obtain ⟨names, change, _, _, fresh⟩ := step_change inv taken
  rcases change.job_ids member with stays | rfl
  · exact stays
  · exact absurd known (fresh job.id (by simp))

theorem step_claims (inv : Inv world) {action : Action} (taken : world.step action = some next) {claim : Claim}
    (member : claim ∈ next.claims) : claim ∈ world.claims ∨
      ∃ first ∈ world.tables.jobs, first.id = claim.job.id ∧ first.work = claim.job.work := by
  obtain ⟨names, _, noted, _, _⟩ := step_change inv taken
  cases noted with
  | claim first present claims =>
    rcases List.mem_cons.mp (claims ▸ member) with rfl | older
    · exact .inr ⟨first, present, rfl, rfl⟩
    · exact .inl older
  | enqueue claims => exact .inl (claims ▸ member)
  | ack _ _ claims => exact .inl (claims ▸ member)
  | replay claims => exact .inl (claims ▸ member)
  | plain claims => exact .inl (claims ▸ member)

theorem step_archive (inv : Inv world) {action : Action} (taken : world.step action = some next) {row : ArchivedJob}
    (member : row ∈ next.tables.archive) :
    (∃ old ∈ world.tables.archive, row.work = old.work) ∨ ∃ job ∈ world.tables.jobs, row.work = job.work := by
  obtain ⟨names, change, _, _, _⟩ := step_change inv taken
  rcases change.archive_rows member with ⟨old, was, _, work⟩ | ⟨job, was, _, work⟩
  · exact .inl ⟨old, was, work⟩
  · exact .inr ⟨job, was, work⟩

/-- Why a job leaves the hot table: the guards of the four statements that remove jobs. -/
inductive Departure (world : World) (job : Job) : Action → Prop where
  | acked {drain : Drain} {now clock : Nat} {claim : Claim} (member : claim ∈ world.claims)
      (held : holds claim.job job = true) : Departure world job (.ack drain now clock claim)
  | discarded {managed : Managed} {keeping : Keeping} {now clock : Nat} {top : LogTop}
      (landed : assertForwardLanded top world.tables job.id = .ok ()) :
      Departure world job (.discard managed keeping now clock top job.id)
  | cancelled {managed : Managed} {keeping : Keeping} {now clock : Nat} {id : String}
      (kind : job.work.body.isForward = false) : Departure world job (.cancel managed keeping now clock id)
  | purged {keeping : Keeping} {now clock olderThan limit : Nat} {locked : List String} {scope : Job → Bool}
      (picked : job ∈ purgePicks keeping clock olderThan limit locked scope world.tables.jobs) :
      Departure world job (.purgeDead keeping now clock olderThan limit locked scope)

theorem removed_found (settled : Settled world.tables) {keeping : Keeping} {now clock : Nat} {outcome : ArchiveOutcome}
    {finishedAt : Job → Nat} {found : List Job} {tables : Tables}
    (removed : removeJobs keeping now clock outcome finishedAt found world.tables = .ok tables)
    (present : ∀ job ∈ found, job ∈ world.tables.jobs) {job : Job} (member : job ∈ world.tables.jobs)
    (gone : ∀ other ∈ tables.jobs, other.id ≠ job.id) : job ∈ found := by
  by_contra absent
  refine gone job ?_ rfl
  rw [removeJobs_jobs removed]
  refine Table.mem_delete.mpr ⟨member, List.any_eq_false.mpr fun other its same => absent ?_⟩
  have := Table.eq_of_key settled.jobs (present other its) member (by simpa using same)
  exact this ▸ its

theorem step_departure (inv : Inv world) {action : Action} (taken : world.step action = some next) {job : Job}
    (member : job ∈ world.tables.jobs) (gone : ∀ other ∈ next.tables.jobs, other.id ≠ job.id) :
    Departure world job action := by
  -- most statements keep every id
  have kept : ∀ {matches_ : Job → Bool} {set : Job → Job}, (∀ job, (set job).id = job.id) →
      next.tables.jobs = Table.update world.tables.jobs matches_ set → Departure world job action := by
    intro matches_ set id jobs
    have there : ∃ other ∈ Table.update world.tables.jobs matches_ set, other.id = job.id :=
      owner_update id ⟨job, member, rfl⟩
    obtain ⟨other, found, same⟩ := there
    exact absurd same (gone other (jobs ▸ found))
  have ended : ∀ {held : Job} {set : Job → Job} {close : JobAttempt → JobAttempt}, (∀ job, (set job).id = job.id) →
      next.tables = world.tables.endAttempt held set close → Departure world job action := by
    intro held set close id tables
    unfold Tables.endAttempt at tables
    split at tables
    · exact kept id (congrArg Tables.jobs tables)
    · exact absurd rfl (gone job (tables ▸ member))
  have grown : ∀ {more : List Job}, next.tables.jobs = world.tables.jobs ++ more → Departure world job action := by
    intro more jobs
    exact absurd rfl (gone job (jobs ▸ List.mem_append_left _ member))
  cases action with
  | enqueue => exact grown (enqueue_jobs taken)
  | replay =>
    obtain ⟨_, _, jobs⟩ := replay_jobs taken
    exact grown jobs
  | claim drain now locked id token attempt =>
    obtain ⟨_, made, claimed, rfl⟩ := spend_some taken
    obtain ⟨⟨claimed, tables⟩, done, rfl⟩ := Option.map_eq_some_iff.mp claimed
    obtain ⟨first, _, _, _, _, _, rfl⟩ := claimOne_some done
    exact kept (Job.lease_id now drain.leaseMs token) rfl
  | renew drain now claim =>
    obtain ⟨_, same⟩ := held_some taken
    cases same
    exact kept (by intro; rfl) rfl
  | ack drain now clock claim =>
    obtain ⟨was, acked⟩ := held_some taken
    obtain ⟨tables, done, rfl⟩ := Option.map_eq_some_iff.mp acked
    refine .acked was ?_
    by_contra missed
    refine gone job ?_ rfl
    have jobs : tables.jobs = _ := ack_jobs done
    exact jobs ▸ Table.mem_delete.mpr ⟨member, by simpa using missed⟩
  | fail now claim error delayMs =>
    obtain ⟨_, same⟩ := held_some taken
    cases same
    exact ended (by intro; rfl) rfl
  | release now claim =>
    obtain ⟨_, same⟩ := held_some taken
    cases same
    exact ended (by intro; rfl) rfl
  | retry managed now id =>
    obtain ⟨tables, done, rfl⟩ := verb_some taken
    obtain rfl := retry_ok done
    exact kept (retryPatch_id now) rfl
  | retryDead managed now ids =>
    obtain ⟨tables, done, rfl⟩ := verb_some taken
    obtain ⟨picked, rfl⟩ := retryDead_ok done
    exact kept (retryPatch_id now) rfl
  | retryDeadWhere managed now wanted limit locked =>
    obtain ⟨tables, done, rfl⟩ := verb_some taken
    obtain ⟨picked, rfl⟩ := retryDeadWhere_ok done
    exact kept (retryPatch_id now) rfl
  | discard managed keeping now clock top id =>
    obtain ⟨tables, done, rfl⟩ := verb_some taken
    obtain ⟨landed, removed⟩ := discard_ok done
    have its := removed_found inv.settled removed (fun _ was => (List.mem_filter.mp was).1) member gone
    have same : job.id = id := by
      have := (List.mem_filter.mp its).2
      simp only [Bool.and_eq_true, beq_iff_eq] at this
      exact this.1
    subst same
    exact .discarded landed
  | cancel managed keeping now clock id =>
    obtain ⟨tables, done, rfl⟩ := verb_some taken
    obtain ⟨unforwarded, removed⟩ := cancel_ok done
    have its := removed_found inv.settled removed (fun _ was => (List.mem_filter.mp was).1) member gone
    have same : job.id = id := by
      have := (List.mem_filter.mp its).2
      simp only [Bool.and_eq_true, beq_iff_eq] at this
      exact this.1.1
    exact .cancelled (unforwarded job member same)
  | purgeDead keeping now clock olderThan limit locked scope =>
    obtain ⟨tables, done, rfl⟩ := verb_some taken
    exact .purged (removed_found inv.settled (purgeDeadWhere_ok done) (fun _ => purgePicks_mem) member gone)
  | reschedule moved startAt =>
    cases taken
    exact kept (by intro; rfl) rfl
  | pruneArchive pruned =>
    cases taken
    exact absurd rfl (gone job member)
  | exportArchive now sent =>
    cases taken
    exact absurd rfl (gone job member)

end Arki.Journal
