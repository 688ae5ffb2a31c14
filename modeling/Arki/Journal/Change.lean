import Arki.Journal.Outbox

/-! What one transaction can do to the job tables, said once, and the invariant of the tables
that every such change keeps.
-/

set_option autoImplicit false

namespace Arki.Journal

def openAttempts (tables : Tables) (id : String) : List JobAttempt := tables.attempts.filter (JobAttempt.openOf id)

/-- Every transaction on the job tables is one of these, with the ids and tokens it brings in. A
constructor holds what its callers check. -/
inductive Change (before : Tables) : List String → Tables → Prop where
  | insert (job : Job) (idle : job.leaseToken = none) (alive : job.deadAt = none)
      (fresh : before.jobs.any (conflicts job.id job.work) = false)
      (unarchived : ∀ row ∈ before.archive, row.id ≠ job.id) :
      Change before [job.id] { before with jobs := before.jobs ++ [job] }
  | claim (first : Job) (now leaseMs : Nat) (token attempt : String) (member : first ∈ before.jobs)
      (alive : first.deadAt = none) (fresh : ∀ row ∈ before.attempts, row.id ≠ attempt) :
      Change before [token, attempt] { before with
        jobs := Table.update before.jobs (·.id == first.id) (Job.lease now leaseMs token)
        attempts := Table.update before.attempts (JobAttempt.openOf first.id) (JobAttempt.supersede now) ++
          [openAttempt attempt first.id (first.attempts + 1) now] }
  | adjust (matches_ : Job → Bool) (set : Job → Job) (id : ∀ job, (set job).id = job.id)
      (work : ∀ job, (set job).work = job.work) (token : ∀ job, (set job).leaseToken = job.leaseToken)
      (deadAt : ∀ job, (set job).deadAt = job.deadAt) (attempts : ∀ job, (set job).attempts = job.attempts) :
      Change before [] { before with jobs := Table.update before.jobs matches_ set }
  | finish (held : Job) (set : Job → Job) (close : JobAttempt → JobAttempt) (id : ∀ job, (set job).id = job.id)
      (work : ∀ job, (set job).work = job.work) (token : ∀ job, (set job).leaseToken = none)
      (rowId : ∀ row, (close row).id = row.id) (owner : ∀ row, (close row).jobId = row.jobId)
      (number : ∀ row, (close row).attempt = row.attempt)
      (closed : ∀ row, (close row).isOpen = false) :
      Change before [] (before.endAttempt held set close)
  | revive (matches_ : Job → Bool) (now : Nat) (dead : ∀ job, matches_ job = true → job.deadAt.isSome = true) :
      Change before [] { before with jobs := Table.update before.jobs matches_ (retryPatch now) }
  | remove (gone : Job → Bool) (rows : List ArchivedJob)
      (origin : ∀ row ∈ rows, ∃ job ∈ before.jobs, gone job = true ∧ row.id = job.id ∧ row.work = job.work)
      (once : (rows.map (·.id)).Nodup) (fresh : ∀ row ∈ rows, ∀ old ∈ before.archive, old.id ≠ row.id) :
      Change before [] { before.remove gone with archive := before.archive ++ rows }
  | rearchive (rows : List ArchivedJob) (ids : (rows.map (·.id)).Sublist (before.archive.map (·.id)))
      (origin : ∀ row ∈ rows, ∃ old ∈ before.archive, row.id = old.id ∧ row.work = old.work) :
      Change before [] { before with archive := rows }

structure Settled (tables : Tables) : Prop where
  jobs : (tables.jobs.map (·.id)).Nodup
  attempts : (tables.attempts.map (·.id)).Nodup
  owned : ∀ row ∈ tables.attempts, ∃ job ∈ tables.jobs, job.id = row.jobId
  leased : ∀ job ∈ tables.jobs,
    (openAttempts tables job.id).map (·.attempt) = if job.leaseToken.isSome then [job.attempts] else []
  dead : ∀ job ∈ tables.jobs, job.deadAt.isSome = true → job.leaseToken = none
  archived : (tables.archive.map (·.id)).Nodup
  apart : ∀ row ∈ tables.archive, ∀ job ∈ tables.jobs, row.id ≠ job.id

theorem settled_empty : Settled .empty := by
  constructor <;> simp [Tables.empty]

section Attempts

variable {attempts : List JobAttempt} {id other : String} {close : JobAttempt → JobAttempt}

theorem open_close (closed : ∀ row, (close row).isOpen = false) :
    (Table.update attempts (JobAttempt.openOf id) close).filter (JobAttempt.openOf other) =
      if other = id then [] else attempts.filter (JobAttempt.openOf other) := by
  induction attempts with
  | nil => simp [Table.update]
  | cons row rest ih =>
    simp only [Table.update, List.map_cons, List.filter_cons] at ih ⊢
    cases hit : JobAttempt.openOf id row with
    | true =>
      have missed : JobAttempt.openOf other (close row) = false := by simp [JobAttempt.openOf, closed]
      simp only [↓reduceIte, missed, Bool.false_eq_true, ih]
      split
      · rfl
      · next differs =>
        have : JobAttempt.openOf other row = false := by
          simp only [JobAttempt.openOf, Bool.and_eq_true, beq_iff_eq] at hit ⊢
          simp [hit.1, Ne.symm differs]
        simp [this]
    | false =>
      simp only [Bool.false_eq_true, ↓reduceIte, ih]
      by_cases same : other = id
      · subst same
        simp [hit]
      · simp [same]

theorem ids_close (kept : ∀ row, (close row).id = row.id) :
    (Table.update attempts (JobAttempt.openOf id) close).map (·.id) = attempts.map (·.id) :=
  Table.map_update _ kept attempts

theorem owner_close (kept : ∀ row, (close row).jobId = row.jobId) {row : JobAttempt}
    (member : row ∈ Table.update attempts (JobAttempt.openOf id) close) : ∃ old ∈ attempts, old.jobId = row.jobId := by
  rcases Table.mem_update.mp member with ⟨old, found, _, rfl⟩ | ⟨found, _⟩
  · exact ⟨old, found, (kept old).symm⟩
  · exact ⟨row, found, rfl⟩

theorem open_after_claim {attempt : String} {number now : Nat} {row : JobAttempt}
    (member : row ∈ Table.update attempts (JobAttempt.openOf id) (JobAttempt.supersede now) ++
      [openAttempt attempt id number now]) (opened : row.isOpen = true) :
    row = openAttempt attempt id number now ∨ row ∈ attempts ∧ row.jobId ≠ id := by
  rcases List.mem_append.mp member with closed | last
  · rcases Table.mem_update.mp closed with ⟨old, _, _, rfl⟩ | ⟨was, miss⟩
    · cases opened
    · exact .inr ⟨was, by simpa [JobAttempt.openOf, opened] using miss⟩
  · exact .inl (List.mem_singleton.mp last)

end Attempts

section Jobs

variable {jobs : List Job} {matches_ : Job → Bool} {set : Job → Job}

theorem ids_update (kept : ∀ job, (set job).id = job.id) :
    (Table.update jobs matches_ set).map (·.id) = jobs.map (·.id) :=
  Table.map_update _ kept jobs

/-- Ids are not touched by an update, so a row that had an owner still has one. -/
theorem owner_update (kept : ∀ job, (set job).id = job.id) {id : String}
    (owner : ∃ job ∈ jobs, job.id = id) : ∃ job ∈ Table.update jobs matches_ set, job.id = id := by
  have same : id ∈ (Table.update jobs matches_ set).map (·.id) := by
    rw [ids_update kept]
    simpa using owner
  simpa using same

theorem id_update (kept : ∀ job, (set job).id = job.id) {job : Job} (member : job ∈ Table.update jobs matches_ set) :
    ∃ old ∈ jobs, old.id = job.id := by
  rcases Table.mem_update.mp member with ⟨old, found, _, rfl⟩ | ⟨found, _⟩
  · exact ⟨old, found, (kept old).symm⟩
  · exact ⟨job, found, rfl⟩

end Jobs

variable {before after : Tables}

theorem Settled.open_none (settled : Settled before) {id : String} (absent : ∀ job ∈ before.jobs, job.id ≠ id) :
    openAttempts before id = [] := by
  refine List.filter_eq_nil_iff.mpr fun row member hit => ?_
  obtain ⟨job, found, same⟩ := settled.owned row member
  simp only [JobAttempt.openOf, Bool.and_eq_true, beq_iff_eq] at hit
  exact absent job found (same.trans hit.1)

theorem Settled.open_le_one (settled : Settled before) (id : String) : (openAttempts before id).length ≤ 1 := by
  by_cases known : ∃ job ∈ before.jobs, job.id = id
  · obtain ⟨job, member, rfl⟩ := known
    have rows := congrArg List.length (settled.leased job member)
    rw [List.length_map] at rows
    rw [rows]
    split <;> simp
  · simp [settled.open_none fun job member same => known ⟨job, member, same⟩]

theorem Settled.insert (settled : Settled before) {job : Job} (idle : job.leaseToken = none)
    (alive : job.deadAt = none) (fresh : ∀ other ∈ before.jobs, other.id ≠ job.id)
    (unarchived : ∀ row ∈ before.archive, row.id ≠ job.id) :
    Settled { before with jobs := before.jobs ++ [job] } where
  jobs := Table.nodup_append_row settled.jobs (by simpa using fresh)
  attempts := settled.attempts
  owned row member := by
    obtain ⟨owner, found, same⟩ := settled.owned row member
    exact ⟨owner, List.mem_append_left _ found, same⟩
  leased other member := by
    rcases List.mem_append.mp member with found | last
    · exact settled.leased other found
    · obtain rfl := List.mem_singleton.mp last
      simp [idle, show openAttempts { before with jobs := before.jobs ++ [other] } other.id = [] from
        settled.open_none fresh]
  dead other member died := by
    rcases List.mem_append.mp member with found | last
    · exact settled.dead other found died
    · obtain rfl := List.mem_singleton.mp last
      exact idle
  archived := settled.archived
  apart row member other found := by
    rcases List.mem_append.mp found with found | last
    · exact settled.apart row member other found
    · obtain rfl := List.mem_singleton.mp last
      exact unarchived row member

theorem Settled.claim (settled : Settled before) {first : Job} {now leaseMs : Nat} {token attempt : String}
    (member : first ∈ before.jobs) (alive : first.deadAt = none) (fresh : ∀ row ∈ before.attempts, row.id ≠ attempt) :
    Settled { before with
      jobs := Table.update before.jobs (·.id == first.id) (Job.lease now leaseMs token)
      attempts := Table.update before.attempts (JobAttempt.openOf first.id) (JobAttempt.supersede now) ++
        [openAttempt attempt first.id (first.attempts + 1) now] } where
  jobs := by simpa only [ids_update (Job.lease_id now leaseMs token)] using settled.jobs
  attempts := by
    have kept : (Table.update before.attempts (JobAttempt.openOf first.id) (JobAttempt.supersede now)).map (·.id) =
        before.attempts.map (·.id) := ids_close fun _ => rfl
    refine Table.nodup_append_row (kept ▸ settled.attempts) ?_
    rw [kept]
    simpa [openAttempt] using fresh
  owned row found := by
    rcases List.mem_append.mp found with old | last
    · obtain ⟨source, was, same⟩ := owner_close (JobAttempt.supersede_jobId now) old
      exact same ▸ owner_update (Job.lease_id now leaseMs token) (settled.owned source was)
    · obtain rfl := List.mem_singleton.mp last
      exact owner_update (Job.lease_id now leaseMs token) ⟨first, member, rfl⟩
  leased job found := by
    have closed : (openAttempts { before with
        jobs := Table.update before.jobs (·.id == first.id) (Job.lease now leaseMs token)
        attempts := Table.update before.attempts (JobAttempt.openOf first.id) (JobAttempt.supersede now) ++
          [openAttempt attempt first.id (first.attempts + 1) now] } job.id) =
        if job.id = first.id then [openAttempt attempt first.id (first.attempts + 1) now]
        else openAttempts before job.id := by
      simp only [openAttempts, List.filter_append]
      rw [open_close (JobAttempt.supersede_isOpen now)]
      by_cases same : job.id = first.id
      · simp [same, JobAttempt.openOf, JobAttempt.isOpen, openAttempt]
      · simp [same, JobAttempt.openOf, openAttempt, Ne.symm same]
    rw [closed]
    rcases Table.mem_update.mp found with ⟨old, was, hit, rfl⟩ | ⟨was, miss⟩
    · have same : old = first := Table.eq_of_key settled.jobs was member (by simpa using hit)
      subst same
      simp [Job.lease, openAttempt]
    · have differs : job.id ≠ first.id := by simpa using miss
      simpa [differs] using settled.leased job was
  dead job found died := by
    rcases Table.mem_update.mp found with ⟨old, was, hit, rfl⟩ | ⟨was, _⟩
    · have same : old = first := Table.eq_of_key settled.jobs was member (by simpa using hit)
      subst same
      simp [Job.lease, alive] at died
    · exact settled.dead job was died
  archived := settled.archived
  apart row was job found := by
    obtain ⟨old, source, same⟩ := id_update (Job.lease_id now leaseMs token) found
    exact same ▸ settled.apart row was old source

theorem Settled.adjust (settled : Settled before) {matches_ : Job → Bool} {set : Job → Job}
    (id : ∀ job, (set job).id = job.id) (token : ∀ job, (set job).leaseToken = job.leaseToken)
    (deadAt : ∀ job, (set job).deadAt = job.deadAt) (attempts : ∀ job, (set job).attempts = job.attempts) :
    Settled { before with jobs := Table.update before.jobs matches_ set } where
  jobs := by simpa only [ids_update id] using settled.jobs
  attempts := settled.attempts
  owned row member := owner_update id (settled.owned row member)
  leased job found := by
    rcases Table.mem_update.mp found with ⟨old, was, _, rfl⟩ | ⟨was, _⟩
    · rw [id, token, attempts]
      exact settled.leased old was
    · exact settled.leased job was
  dead job found died := by
    rcases Table.mem_update.mp found with ⟨old, was, _, rfl⟩ | ⟨was, _⟩
    · rw [token]
      exact settled.dead old was (deadAt old ▸ died)
    · exact settled.dead job was died
  archived := settled.archived
  apart row was job found := by
    obtain ⟨old, source, same⟩ := id_update id found
    exact same ▸ settled.apart row was old source

theorem Settled.finish (settled : Settled before) {held : Job} {set : Job → Job} {close : JobAttempt → JobAttempt}
    (id : ∀ job, (set job).id = job.id) (token : ∀ job, (set job).leaseToken = none)
    (rowId : ∀ row, (close row).id = row.id) (owner : ∀ row, (close row).jobId = row.jobId)
    (closed : ∀ row, (close row).isOpen = false) : Settled (before.endAttempt held set close) := by
  unfold Tables.endAttempt
  split
  case isFalse => exact settled
  case isTrue mine =>
    obtain ⟨current, present, fenced⟩ := List.any_eq_true.mp mine
    have sameId : current.id = held.id := by simpa using (Bool.and_eq_true _ _ |>.mp fenced).1
    exact {
      jobs := by simpa only [ids_update id] using settled.jobs
      attempts := by simpa only [ids_close rowId] using settled.attempts
      owned row member := by
        obtain ⟨source, was, same⟩ := owner_close owner member
        exact same ▸ owner_update id (settled.owned source was)
      leased job found := by
        simp only [openAttempts, open_close closed]
        rcases Table.mem_update.mp found with ⟨old, was, hit, rfl⟩ | ⟨was, miss⟩
        · have : (set old).id = held.id := by
            rw [id]
            simpa using (Bool.and_eq_true _ _ |>.mp hit).1
          simp [this, token]
        · have differs : job.id ≠ held.id := fun same => by
            have := Table.eq_of_key settled.jobs was present (same.trans sameId.symm)
            subst this
            simp [fenced] at miss
          simpa [differs, openAttempts] using settled.leased job was
      dead job found died := by
        rcases Table.mem_update.mp found with ⟨old, was, _, rfl⟩ | ⟨was, _⟩
        · exact token old
        · exact settled.dead job was died
      archived := settled.archived
      apart row was job found := by
        obtain ⟨old, source, same⟩ := id_update id found
        exact same ▸ settled.apart row was old source }

theorem Settled.revive (settled : Settled before) {matches_ : Job → Bool} {now : Nat}
    (dead : ∀ job, matches_ job = true → job.deadAt.isSome = true) :
    Settled { before with jobs := Table.update before.jobs matches_ (retryPatch now) } where
  jobs := by simpa only [ids_update (retryPatch_id now)] using settled.jobs
  attempts := settled.attempts
  owned row member := owner_update (retryPatch_id now) (settled.owned row member)
  leased job found := by
    rcases Table.mem_update.mp found with ⟨old, was, hit, rfl⟩ | ⟨was, _⟩
    · have idle := settled.dead old was (dead old hit)
      simpa [idle, retryPatch, openAttempts] using settled.leased old was
    · exact settled.leased job was
  dead job found died := by
    rcases Table.mem_update.mp found with ⟨old, was, _, rfl⟩ | ⟨was, _⟩
    · rfl
    · exact settled.dead job was died
  archived := settled.archived
  apart row was job found := by
    obtain ⟨old, source, same⟩ := id_update (retryPatch_id now) found
    exact same ▸ settled.apart row was old source

theorem Settled.remove (settled : Settled before) {gone : Job → Bool} {rows : List ArchivedJob}
    (origin : ∀ row ∈ rows, ∃ job ∈ before.jobs, gone job = true ∧ row.id = job.id ∧ row.work = job.work)
    (once : (rows.map (·.id)).Nodup) (fresh : ∀ row ∈ rows, ∀ old ∈ before.archive, old.id ≠ row.id) :
    Settled { before.remove gone with archive := before.archive ++ rows } := by
  -- an attempt goes with its job only
  have kept : ∀ job ∈ before.jobs, gone job = false → ∀ row : JobAttempt, row.jobId = job.id →
      (before.jobs.any fun other => gone other && other.id == row.jobId) = false := by
    intro job was stays row same
    refine List.any_eq_false.mpr fun other found => ?_
    simp only [Bool.and_eq_true, beq_iff_eq, not_and]
    intro leaves its
    have := Table.eq_of_key settled.jobs found was (its.trans same)
    subst this
    simp [stays] at leaves
  exact {
    jobs := Table.nodup_delete settled.jobs
    attempts := Table.nodup_delete settled.attempts
    owned row member := by
      obtain ⟨was, stays⟩ := Table.mem_delete.mp member
      obtain ⟨job, found, same⟩ := settled.owned row was
      refine ⟨job, Table.mem_delete.mpr ⟨found, ?_⟩, same⟩
      have := List.any_eq_false.mp stays job found
      simpa [same] using this
    leased job member := by
      obtain ⟨was, stays⟩ := Table.mem_delete.mp member
      rw [← settled.leased job was]
      congr 1
      simp only [openAttempts, Tables.remove, Table.delete, List.filter_filter]
      refine List.filter_congr fun row _ => ?_
      cases hit : JobAttempt.openOf job.id row with
      | false => simp
      | true =>
        have same : row.jobId = job.id := by simpa using (Bool.and_eq_true _ _ |>.mp hit).1
        simp [kept job was stays row same]
    dead job member died := settled.dead job (Table.mem_delete.mp member).1 died
    archived := by
      simp only [List.map_append]
      refine List.nodup_append.mpr ⟨settled.archived, once, ?_⟩
      intro left first right second same
      obtain ⟨old, was, rfl⟩ := List.mem_map.mp first
      obtain ⟨row, new, rfl⟩ := List.mem_map.mp second
      exact fresh row new old was same
    apart row member job found := by
      obtain ⟨was, stays⟩ := Table.mem_delete.mp found
      rcases List.mem_append.mp member with old | new
      · exact settled.apart row old job was
      · obtain ⟨source, present, leaves, same, _⟩ := origin row new
        intro equal
        have := Table.eq_of_key settled.jobs present was (same.symm.trans equal)
        subst this
        simp [stays] at leaves }

theorem Settled.rearchive (settled : Settled before) {rows : List ArchivedJob}
    (ids : (rows.map (·.id)).Sublist (before.archive.map (·.id))) :
    Settled { before with archive := rows } where
  jobs := settled.jobs
  attempts := settled.attempts
  owned := settled.owned
  leased := settled.leased
  dead := settled.dead
  archived := settled.archived.sublist ids
  apart row member job found := by
    obtain ⟨old, was, same⟩ := List.mem_map.mp (ids.subset (List.mem_map_of_mem member))
    exact same ▸ settled.apart old was job found

variable {names : List String}

theorem Settled.change (settled : Settled before) (change : Change before names after) : Settled after := by
  cases change with
  | insert job idle alive fresh unarchived =>
    refine settled.insert idle alive (fun other member same => ?_) unarchived
    have := List.any_eq_false.mp fresh other member
    simp [conflicts, same] at this
  | claim first now leaseMs token attempt member alive fresh => exact settled.claim member alive fresh
  | adjust matches_ set id work token deadAt attempts => exact settled.adjust id token deadAt attempts
  | finish held set close id work token rowId owner number closed =>
    exact settled.finish id token rowId owner closed
  | revive matches_ now dead => exact settled.revive dead
  | remove gone rows origin once fresh => exact settled.remove origin once fresh
  | rearchive rows ids origin => exact settled.rearchive ids

structure Named (spent : List String) (tables : Tables) : Prop where
  jobs : ∀ job ∈ tables.jobs, job.id ∈ spent
  tokens : ∀ job ∈ tables.jobs, ∀ token ∈ job.leaseToken, token ∈ spent
  attempts : ∀ row ∈ tables.attempts, row.id ∈ spent
  archived : ∀ row ∈ tables.archive, row.id ∈ spent

theorem named_empty : Named [] .empty := by
  constructor <;> simp [Tables.empty]

/-- A job was there before with the same work, or it is what the change brings in. -/
theorem Change.job_ids (change : Change before names after) {job : Job} (member : job ∈ after.jobs) :
    (∃ old ∈ before.jobs, old.id = job.id ∧ old.work = job.work) ∨ names = [job.id] := by
  cases change with
  | insert new idle alive fresh unarchived =>
    rcases List.mem_append.mp member with was | last
    · exact .inl ⟨job, was, rfl, rfl⟩
    · obtain rfl := List.mem_singleton.mp last
      exact .inr rfl
  | claim first now leaseMs token attempt present alive fresh =>
    rcases Table.mem_update.mp member with ⟨old, was, _, rfl⟩ | ⟨was, _⟩
    · exact .inl ⟨old, was, rfl, rfl⟩
    · exact .inl ⟨job, was, rfl, rfl⟩
  | adjust matches_ set id work token deadAt attempts =>
    rcases Table.mem_update.mp member with ⟨old, was, _, rfl⟩ | ⟨was, _⟩
    · exact .inl ⟨old, was, (id old).symm, (work old).symm⟩
    · exact .inl ⟨job, was, rfl, rfl⟩
  | finish held set close id work token rowId owner number closed =>
    unfold Tables.endAttempt at member
    split at member
    · rcases Table.mem_update.mp member with ⟨old, was, _, rfl⟩ | ⟨was, _⟩
      · exact .inl ⟨old, was, (id old).symm, (work old).symm⟩
      · exact .inl ⟨job, was, rfl, rfl⟩
    · exact .inl ⟨job, member, rfl, rfl⟩
  | revive matches_ now dead =>
    rcases Table.mem_update.mp member with ⟨old, was, _, rfl⟩ | ⟨was, _⟩
    · exact .inl ⟨old, was, rfl, rfl⟩
    · exact .inl ⟨job, was, rfl, rfl⟩
  | remove gone rows origin once fresh => exact .inl ⟨job, (Table.mem_delete.mp member).1, rfl, rfl⟩
  | rearchive rows ids origin => exact .inl ⟨job, member, rfl, rfl⟩

theorem Change.tokens (change : Change before names after) {job : Job} (member : job ∈ after.jobs) {token : String}
    (leased : token ∈ job.leaseToken) : (∃ old ∈ before.jobs, token ∈ old.leaseToken) ∨ token ∈ names := by
  cases change with
  | insert new idle alive fresh unarchived =>
    rcases List.mem_append.mp member with was | last
    · exact .inl ⟨job, was, leased⟩
    · obtain rfl := List.mem_singleton.mp last
      simp [idle] at leased
  | claim first now leaseMs given attempt present alive fresh =>
    rcases Table.mem_update.mp member with ⟨old, _, _, rfl⟩ | ⟨was, _⟩
    · exact .inr (by simpa [Job.lease, eq_comm] using Or.inl leased)
    · exact .inl ⟨job, was, leased⟩
  | adjust matches_ set id work kept deadAt attempts =>
    rcases Table.mem_update.mp member with ⟨old, was, _, rfl⟩ | ⟨was, _⟩
    · exact .inl ⟨old, was, kept old ▸ leased⟩
    · exact .inl ⟨job, was, leased⟩
  | finish held set close id work freed rowId owner number closed =>
    unfold Tables.endAttempt at member
    split at member
    · rcases Table.mem_update.mp member with ⟨old, _, _, rfl⟩ | ⟨was, _⟩
      · simp [freed] at leased
      · exact .inl ⟨job, was, leased⟩
    · exact .inl ⟨job, member, leased⟩
  | revive matches_ now dead =>
    rcases Table.mem_update.mp member with ⟨old, _, _, rfl⟩ | ⟨was, _⟩
    · simp [retryPatch] at leased
    · exact .inl ⟨job, was, leased⟩
  | remove gone rows origin once fresh => exact .inl ⟨job, (Table.mem_delete.mp member).1, leased⟩
  | rearchive rows ids origin => exact .inl ⟨job, member, leased⟩

/-- An open attempt row was open before, or it is the one a claim opens. Any row was there before, or
its id comes in with the claim. -/
theorem Change.attempt_rows (change : Change before names after) {row : JobAttempt} (member : row ∈ after.attempts) :
    (∃ old ∈ before.attempts, old.id = row.id ∧ old.jobId = row.jobId ∧ old.attempt = row.attempt ∧
      (row.isOpen = true → old.isOpen = true)) ∨
      ∃ first ∈ before.jobs, ∃ token attempt now, names = [token, attempt] ∧
        row = openAttempt attempt first.id (first.attempts + 1) now := by
  cases change with
  | insert new idle alive fresh unarchived => exact .inl ⟨row, member, rfl, rfl, rfl, fun its => its⟩
  | claim first now leaseMs token attempt present alive fresh =>
    rcases List.mem_append.mp member with closed | last
    · rcases Table.mem_update.mp closed with ⟨old, was, _, rfl⟩ | ⟨was, _⟩
      · exact .inl ⟨old, was, rfl, rfl, rfl, fun its => by cases its⟩
      · exact .inl ⟨row, was, rfl, rfl, rfl, fun its => its⟩
    · obtain rfl := List.mem_singleton.mp last
      exact .inr ⟨first, present, token, attempt, now, rfl, rfl⟩
  | adjust matches_ set id work token deadAt attempts => exact .inl ⟨row, member, rfl, rfl, rfl, fun its => its⟩
  | finish held set close id work token rowId owner number closed =>
    unfold Tables.endAttempt at member
    split at member
    · rcases Table.mem_update.mp member with ⟨old, was, _, rfl⟩ | ⟨was, _⟩
      · exact .inl ⟨old, was, (rowId old).symm, (owner old).symm, (number old).symm, fun its => by simp [closed] at its⟩
      · exact .inl ⟨row, was, rfl, rfl, rfl, fun its => its⟩
    · exact .inl ⟨row, member, rfl, rfl, rfl, fun its => its⟩
  | revive matches_ now dead => exact .inl ⟨row, member, rfl, rfl, rfl, fun its => its⟩
  | remove gone rows origin once fresh =>
    exact .inl ⟨row, (Table.mem_delete.mp member).1, rfl, rfl, rfl, fun its => its⟩
  | rearchive rows ids origin => exact .inl ⟨row, member, rfl, rfl, rfl, fun its => its⟩

theorem Change.archive_rows (change : Change before names after) {row : ArchivedJob} (member : row ∈ after.archive) :
    (∃ old ∈ before.archive, row.id = old.id ∧ row.work = old.work) ∨
      ∃ job ∈ before.jobs, row.id = job.id ∧ row.work = job.work := by
  cases change with
  | insert | claim | adjust | revive => exact .inl ⟨row, member, rfl, rfl⟩
  | finish held set close id work token rowId owner number closed =>
    unfold Tables.endAttempt at member
    split at member <;> exact .inl ⟨row, member, rfl, rfl⟩
  | remove gone rows origin once fresh =>
    rcases List.mem_append.mp member with was | new
    · exact .inl ⟨row, was, rfl, rfl⟩
    · obtain ⟨job, present, _, id, work⟩ := origin row new
      exact .inr ⟨job, present, id, work⟩
  | rearchive rows ids origin => exact .inl (origin row member)

theorem Named.change {spent : List String} (named : Named spent before) (change : Change before names after) :
    Named (names ++ spent) after where
  jobs job member := by
    rcases change.job_ids member with ⟨old, was, same, _⟩ | rfl
    · exact List.mem_append_right _ (same ▸ named.jobs old was)
    · exact List.mem_append_left _ (by simp)
  tokens job member token leased := by
    rcases change.tokens member leased with ⟨old, was, its⟩ | new
    · exact List.mem_append_right _ (named.tokens old was token its)
    · exact List.mem_append_left _ new
  attempts row member := by
    rcases change.attempt_rows member with ⟨old, was, same, _⟩ | ⟨_, _, token, attempt, now, rfl, rfl⟩
    · exact List.mem_append_right _ (same ▸ named.attempts old was)
    · exact List.mem_append_left _ (by simp [openAttempt])
  archived row member := by
    rcases change.archive_rows member with ⟨old, was, same, _⟩ | ⟨job, was, same, _⟩
    · exact List.mem_append_right _ (same ▸ named.archived old was)
    · exact List.mem_append_right _ (same ▸ named.jobs job was)

end Arki.Journal
