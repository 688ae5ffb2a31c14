import Arki.Journal.Change

/-! Each statement of the worker and each verb as a change of the tables. -/

set_option autoImplicit false

namespace Arki.Journal

variable {tables next : Tables}

variable {managed : Managed} {keeping : Keeping} {drain : Drain} {now clock limit olderThan : Nat} {id : String} {locked : List String}
  {job : Job} {jobs : List Job} {wanted : Job → Bool} {finishedAt : Job → Nat} {outcome : ArchiveOutcome}

theorem firstDue_some {first : Job}
    (found : firstDue drain now locked id jobs = some first) :
    first ∈ jobs ∧ first.id = id ∧ due drain now jobs first = true := by
  simp only [firstDue, Option.filter_eq_some_iff] at found
  obtain ⟨picked, _⟩ := found
  have member := List.mem_filter.mp (List.mem_of_find?_eq_some picked)
  have same := List.find?_some picked
  exact ⟨member.1, by simpa using same, (Bool.and_eq_true _ _ |>.mp member.2).1⟩

theorem due_alive (ready : due drain now jobs job = true) :
    job.deadAt = none := by
  simp only [due, Bool.and_eq_true, Option.isNone_iff_eq_none] at ready
  exact ready.1.1.1.1

theorem claimOne_some {token attempt : String} {claimed : Job}
    (taken : claimOne drain now locked id token attempt tables = some (claimed, next)) :
    ∃ first ∈ tables.jobs, first.id = id ∧ due drain now tables.jobs first = true ∧
      (∀ row ∈ tables.attempts, row.id ≠ attempt) ∧ claimed = first.lease now drain.leaseMs token ∧
      next = { tables with
        jobs := Table.update tables.jobs (·.id == first.id) (Job.lease now drain.leaseMs token)
        attempts := Table.update tables.attempts (JobAttempt.openOf first.id) (JobAttempt.supersede now) ++
          [openAttempt attempt first.id (first.attempts + 1) now] } := by
  unfold claimOne at taken
  split at taken
  case h_1 => cases taken
  case h_2 first found =>
    obtain ⟨member, rfl, ready⟩ := firstDue_some found
    split at taken
    case isTrue => cases taken
    case isFalse fresh =>
      cases taken
      refine ⟨first, member, rfl, ready, fun row was same => fresh ?_, rfl, rfl⟩
      exact List.any_eq_true.mpr ⟨row, was, by simpa using same⟩

theorem claimOne_change {token attempt : String} {claimed : Job}
    (taken : claimOne drain now locked id token attempt tables = some (claimed, next)) : Change tables [token, attempt] next := by
  obtain ⟨first, member, _, ready, fresh, _, rfl⟩ := claimOne_some taken
  exact .claim first now drain.leaseMs token attempt member (due_alive ready) fresh

theorem renew_change (drain : Drain) (now : Nat) (held : Job) : Change tables [] (renew drain now held tables) :=
  .adjust (holds held) _ (fun _ => rfl) (fun _ => rfl) (fun _ => rfl) (fun _ => rfl) (fun _ => rfl)

theorem recordFailure_change (now : Nat) (held : Job) (error : String) (delayMs : Option Nat) :
    Change tables [] (recordFailure now held error delayMs tables) :=
  .finish held _ _ (fun _ => rfl) (fun _ => rfl) (fun _ => rfl) (fun _ => rfl) (fun _ => rfl) (fun _ => rfl)
    (fun _ => rfl)

theorem releaseInterrupted_change (now : Nat) (held : Job) : Change tables [] (releaseInterrupted now held tables) :=
  .finish held _ _ (fun _ => rfl) (fun _ => rfl) (fun _ => rfl) (fun _ => rfl) (fun _ => rfl) (fun _ => rfl)
    (fun _ => rfl)

theorem moveToArchive_some {gone : Job → Bool} {rows : List ArchivedJob} :
    tables.moveToArchive gone rows = some next ↔
      (∀ row ∈ rows, ∀ old ∈ tables.archive, old.id ≠ row.id) ∧
        next = { tables.remove gone with archive := tables.archive ++ rows } := by
  unfold Tables.moveToArchive
  split
  case isTrue taken =>
    refine ⟨fun absurd => (by cases absurd), fun ⟨fresh, _⟩ => ?_⟩
    obtain ⟨row, member, hit⟩ := List.any_eq_true.mp taken
    obtain ⟨old, was, same⟩ := List.any_eq_true.mp hit
    exact (fresh row member old was (by simpa using same)).elim
  case isFalse free =>
    constructor
    · rintro ⟨⟩
      refine ⟨fun row member old was same => free ?_, rfl⟩
      exact List.any_eq_true.mpr ⟨row, member, List.any_eq_true.mpr ⟨old, was, by simpa using same⟩⟩
    · rintro ⟨_, rfl⟩
      rfl

theorem remove_change (gone : Job → Bool) : Change tables [] (tables.remove gone) := by
  have change : Change tables [] { tables.remove gone with archive := tables.archive ++ [] } :=
    .remove gone [] (by simp) (by simp) (by simp)
  simpa [Tables.remove] using change

theorem moveToArchive_change {gone : Job → Bool} {found : List Job} {row : Job → Option ArchivedJob}
    (present : ∀ job ∈ found, job ∈ tables.jobs ∧ gone job = true) (once : (found.map (·.id)).Nodup)
    (copied : ∀ job made, row job = some made → made.id = job.id ∧ made.work = job.work)
    (moved : tables.moveToArchive gone (found.filterMap row) = some next) : Change tables [] next := by
  obtain ⟨fresh, rfl⟩ := moveToArchive_some.mp moved
  refine .remove gone _ (fun made member => ?_) ?_ fresh
  · obtain ⟨job, was, same⟩ := List.mem_filterMap.mp member
    obtain ⟨id, work⟩ := copied job made same
    exact ⟨job, (present job was).1, (present job was).2, id, work⟩
  · refine once.sublist ?_
    clear present once moved fresh
    induction found with
    | nil => simp
    | cons job rest ih =>
      cases made : row job with
      | none => simpa [made] using ih.cons job.id
      | some value =>
        simp only [List.filterMap_cons, made, List.map_cons, (copied job value made).1]
        exact ih.cons_cons job.id

theorem ack_change (settled : Settled tables) {held : Job}
    (acked : ack drain now clock held tables = some next) : Change tables [] next := by
  unfold ack at acked
  split at acked
  case h_1 =>
    cases acked
    exact remove_change _
  case h_2 ageMs _ _ _ =>
    rw [← List.filterMap_eq_map] at acked
    refine moveToArchive_change (fun job member => ?_) ?_ ?_ acked
    · exact List.mem_filter.mp member
    · exact settled.jobs.sublist (List.filter_sublist.map _)
    · rintro job made ⟨⟩
      exact ⟨rfl, rfl⟩

theorem archived_copies
    {attempts : List JobAttempt} {made : ArchivedJob}
    (stored : keeping.archived now clock outcome finishedAt attempts job = some made) :
    made.id = job.id ∧ made.work = job.work := by
  unfold Keeping.archived at stored
  split at stored
  · cases stored
  · cases stored
    exact ⟨rfl, rfl⟩

theorem removeJobs_change
    {found : List Job} (present : ∀ job ∈ found, job ∈ tables.jobs) (once : (found.map (·.id)).Nodup)
    (removed : removeJobs keeping now clock outcome finishedAt found tables = .ok next) : Change tables [] next := by
  unfold removeJobs at removed
  split at removed
  case h_1 => cases removed
  case h_2 moved =>
    cases removed
    refine moveToArchive_change (fun job member => ⟨present job member, ?_⟩) once
      (fun _ _ => archived_copies) moved
    exact List.any_eq_true.mpr ⟨job, member, by simp⟩

theorem removeJobs_jobs
    {found : List Job} (removed : removeJobs keeping now clock outcome finishedAt found tables = .ok next) :
    next.jobs = Table.delete tables.jobs fun job => found.any (·.id == job.id) := by
  unfold removeJobs at removed
  split at removed
  case h_1 => cases removed
  case h_2 moved =>
    cases removed
    obtain ⟨_, rfl⟩ := moveToArchive_some.mp moved
    rfl

theorem retry_ok
    (retried : retry managed now id tables = .ok next) :
    next = { tables with
      jobs := Table.update tables.jobs (fun job => job.id == id && job.deadAt.isSome) (retryPatch now) } := by
  simp only [retry, bind, Except.bind] at retried
  split at retried
  · cases retried
  · split at retried
    · cases retried
      rfl
    · cases retried

theorem retry_change
    (retried : retry managed now id tables = .ok next) : Change tables [] next := by
  obtain rfl := retry_ok retried
  exact .revive _ now fun job hit => (Bool.and_eq_true _ _ |>.mp hit).2

theorem retryable_dead {picked : List String}
    (hit : retryable managed picked job = true) : job.deadAt.isSome = true := by
  simp only [retryable, Bool.and_eq_true] at hit
  exact hit.1.2

theorem retryDead_ok {ids : List String}
    (retried : retryDead managed now ids tables = .ok next) :
    ∃ picked, next = { tables with
      jobs := Table.update tables.jobs (retryable managed picked) (retryPatch now) } := by
  simp only [retryDead] at retried
  split at retried
  · cases retried
  · split at retried
    · cases retried
      exact ⟨_, rfl⟩
    · split at retried <;> cases retried

theorem retryDead_change {ids : List String}
    (retried : retryDead managed now ids tables = .ok next) : Change tables [] next := by
  obtain ⟨picked, rfl⟩ := retryDead_ok retried
  exact .revive _ now fun _ => retryable_dead

theorem retryDeadWhere_ok
    (retried : retryDeadWhere managed now wanted limit locked tables = .ok next) :
    ∃ picked, next = { tables with
      jobs := Table.update tables.jobs (retryable managed picked) (retryPatch now) } := by
  simp only [retryDeadWhere, bind, Except.bind] at retried
  split at retried
  · cases retried
  · cases retried
    exact ⟨_, rfl⟩

theorem retryDeadWhere_change
    (retried : retryDeadWhere managed now wanted limit locked tables = .ok next) : Change tables [] next := by
  obtain ⟨picked, rfl⟩ := retryDeadWhere_ok retried
  exact .revive _ now fun _ => retryable_dead

theorem discard_ok {top : LogTop}
    (discarded : discard managed keeping now clock top id tables = .ok next) :
    assertForwardLanded top tables id = .ok () ∧
      removeJobs keeping now clock .discarded (fun _ => now)
        (tables.jobs.filter fun job => job.id == id && job.deadAt.isSome) tables = .ok next := by
  simp only [discard, bind, Except.bind] at discarded
  split at discarded
  · cases discarded
  · split at discarded
    · cases discarded
    · next landed =>
      split at discarded
      · cases discarded
      · exact ⟨landed, discarded⟩

theorem discard_change (settled : Settled tables)
    {top : LogTop} (discarded : discard managed keeping now clock top id tables = .ok next) :
    Change tables [] next :=
  removeJobs_change (fun _ member => (List.mem_filter.mp member).1)
    (settled.jobs.sublist (List.filter_sublist.map _)) (discard_ok discarded).2

theorem cancel_ok
    (cancelled : cancel managed keeping now clock id tables = .ok next) :
    (∀ job ∈ tables.jobs, job.id = id → job.work.body.isForward = false) ∧
      removeJobs keeping now clock .cancelled (fun _ => now)
        (tables.jobs.filter fun job => job.id == id && job.deadAt.isNone && !job.runningAt now) tables = .ok next := by
  simp only [cancel, bind, Except.bind] at cancelled
  split at cancelled
  · cases cancelled
  · split at cancelled
    · cases cancelled
    · next unforwarded =>
      split at cancelled
      · split at cancelled <;> cases cancelled
      · exact ⟨by simpa using unforwarded, cancelled⟩

theorem cancel_change (settled : Settled tables) (cancelled : cancel managed keeping now clock id tables = .ok next) : Change tables [] next :=
  removeJobs_change (fun _ member => (List.mem_filter.mp member).1)
    (settled.jobs.sublist (List.filter_sublist.map _)) (cancel_ok cancelled).2

theorem pickDead_mem
    (picked : job ∈ pickDead wanted limit locked jobs) :
    job ∈ jobs ∧ job.deadAt.isSome = true ∧ wanted job = true := by
  have member := (List.mem_insertionSort _).mp (List.mem_of_mem_take picked)
  obtain ⟨was, fits⟩ := List.mem_filter.mp member
  simp only [Bool.and_eq_true] at fits
  exact ⟨was, fits.1⟩

theorem pickDead_nodup
    (unique : (jobs.map (·.id)).Nodup) : ((pickDead wanted limit locked jobs).map (·.id)).Nodup := by
  refine List.Nodup.sublist ((List.take_sublist _ _).map _) ?_
  refine ((List.perm_insertionSort _ _).map _).nodup_iff.mpr ?_
  exact unique.sublist (List.filter_sublist.map _)

theorem purgeDeadWhere_ok
    {scope : Job → Bool} (purged : purgeDeadWhere keeping now clock olderThan limit locked scope tables = .ok next) :
    removeJobs keeping now clock .dead (fun job => job.deadAt.getD now)
      (purgePicks keeping clock olderThan limit locked scope tables.jobs) tables = .ok next := by
  simp only [purgeDeadWhere, bind, Except.bind] at purged
  split at purged
  · cases purged
  · split at purged
    · cases purged
    · exact purged

theorem purgePicks_mem
    {scope : Job → Bool}
    (picked : job ∈ purgePicks keeping clock olderThan limit locked scope jobs) : job ∈ jobs :=
  (pickDead_mem (List.mem_filter.mp picked).1).1

theorem purgeDeadWhere_change (settled : Settled tables) {scope : Job → Bool}
    (purged : purgeDeadWhere keeping now clock olderThan limit locked scope tables = .ok next) : Change tables [] next := by
  refine removeJobs_change (fun job => purgePicks_mem) ?_ (purgeDeadWhere_ok purged)
  exact (pickDead_nodup settled.jobs).sublist (List.filter_sublist.map _)

theorem insertJob_some :
    tables.insertJob job = some next ↔
      tables.jobs.any (conflicts job.id job.work) = false ∧ next = { tables with jobs := tables.jobs ++ [job] } := by
  unfold Tables.insertJob
  split
  · next taken => simp [taken]
  · next free => simp [eq_comm, Bool.eq_false_iff.mpr free]

theorem insertJob_change {work : Work} {availableAt : Nat} {replayOf runId : Option String}
    (unarchived : ∀ row ∈ tables.archive, row.id ≠ id)
    (inserted : tables.insertJob (newJob id work now availableAt replayOf runId) = some next) : Change tables [id] next := by
  obtain ⟨fresh, rfl⟩ := insertJob_some.mp inserted
  exact .insert _ rfl rfl fresh unarchived

theorem replay_ok {archivedId : String}
    (replayed : replay managed now id archivedId tables = .ok next) :
    ∃ source ∈ tables.archive, tables.insertJob (newJob id source.work now now (some source.id) none) = some next := by
  unfold replay at replayed
  split at replayed
  case h_1 => cases replayed
  case h_2 source found =>
    split at replayed
    · split at replayed
      · next inserted =>
        cases replayed
        exact ⟨source, List.mem_of_find?_eq_some found, inserted⟩
      · cases replayed
    · cases replayed

theorem replay_change {archivedId : String}
    (unarchived : ∀ row ∈ tables.archive, row.id ≠ id)
    (replayed : replay managed now id archivedId tables = .ok next) : Change tables [id] next := by
  obtain ⟨source, _, inserted⟩ := replay_ok replayed
  exact insertJob_change unarchived inserted

theorem reschedule_change (moved : Job → Bool) (startAt : Nat) : Change tables [] (reschedule moved startAt tables) :=
  .adjust _ _ (fun _ => rfl) (fun _ => rfl) (fun _ => rfl) (fun _ => rfl) (fun _ => rfl)

theorem pruneArchive_change (pruned : ArchivedJob → Bool) : Change tables [] (pruneArchive pruned tables) :=
  .rearchive _ ((Table.delete_sublist _ _).map _) fun row member => ⟨row, (Table.mem_delete.mp member).1, rfl, rfl⟩

theorem exportArchive_change (now : Nat) (sent : ArchivedJob → Bool) :
    Change tables [] (exportArchive now sent tables) := by
  have ids : (exportArchive now sent tables).archive.map (·.id) = tables.archive.map (·.id) :=
    Table.map_update _ (by intro row; rfl) _
  refine .rearchive _ (ids ▸ List.Sublist.refl _) fun row member => ?_
  rcases Table.mem_update.mp member with ⟨old, was, _, rfl⟩ | ⟨was, _⟩
  · exact ⟨old, was, rfl, rfl⟩
  · exact ⟨row, was, rfl, rfl⟩

end Arki.Journal
