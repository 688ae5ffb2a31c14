import Arki.Journal.Forward

/-! Under orderly steps the log of a forwarded entity is a prefix of what was written, and the rest
waits in the hot table: no version is given twice and no event is lost.
-/

set_option autoImplicit false

namespace Arki.Journal

variable {entity : EntityKey} {lane next : Lane} {landed : Nat}

def Carries (entity : EntityKey) (batches : List (List StoredEvent)) (work : Work) : Prop :=
  ∃ (i : Nat) (batch : List StoredEvent), batches[i]? = some batch ∧
    work = forwardWork entity batch (Batches.offset batches i)

/-- The first `landed` batches are in the log, the others in the hot table. -/
structure LaneInv (entity : EntityKey) (lane : Lane) (landed : Nat) : Prop where
  world : Inv lane.world
  filled : ∀ batch ∈ lane.batches, batch ≠ []
  numbered : Batches.Numbered StoredEvent.version 0 lane.recorded
  stored : ∀ event ∈ lane.recorded, Stored entity event
  few : landed ≤ lane.batches.length
  log : lane.log = (lane.batches.take landed).flatten
  row : ∀ version ∈ lane.row, version = lane.recorded.length ∧ 0 < version
  jobs : ∀ job ∈ lane.world.tables.jobs, job.work.inStream entity.stream = true → Carries entity lane.batches job.work
  archive : ∀ row ∈ lane.world.tables.archive, row.work.inStream entity.stream = true →
    Carries entity lane.batches row.work
  claims : ∀ claim ∈ lane.world.claims, claim.job.work.inStream entity.stream = true →
    Carries entity lane.batches claim.job.work
  same : ∀ claim ∈ lane.world.claims, ∀ job ∈ lane.world.tables.jobs, job.id = claim.job.id →
    job.work = claim.job.work
  hot : ∀ i batch, landed ≤ i → lane.batches[i]? = some batch →
    ∃ job ∈ lane.world.tables.jobs, job.work = forwardWork entity batch (Batches.offset lane.batches i)
  checked : ∀ claim ∈ lane.checked, ∃ i batch, lane.batches[i]? = some batch ∧
    claim.job.work = forwardWork entity batch (Batches.offset lane.batches i) ∧
    Batches.offset lane.batches i ≤ lane.log.length
  appended : ∀ claim ∈ lane.landed, ∃ i batch, i < landed ∧ lane.batches[i]? = some batch ∧
    claim.job.work = forwardWork entity batch (Batches.offset lane.batches i)
  writer : ∀ reading ∈ lane.writer, reading.row = lane.row ∧ (lane.row = none →
    reading.pending = some lane.recorded.length ∨ reading.pending = none ∧ landed = lane.batches.length)

theorem laneInv_start : LaneInv entity .start 0 := by
  constructor <;> simp [Lane.start, World.start, Tables.empty, Lane.recorded, Batches.Numbered]
  exact inv_start

section Facts

variable (inv : LaneInv entity lane landed)
include inv

theorem LaneInv.log_length : lane.log.length = Batches.offset lane.batches landed := by
  rw [inv.log]
  rfl

theorem LaneInv.log_top : highestVersion lane.log = lane.log.length := by
  refine Batches.Numbered.top ?_
  rw [inv.log]
  exact inv.numbered.take landed

theorem LaneInv.recorded_top : highestVersion lane.recorded = lane.recorded.length := inv.numbered.top

theorem LaneInv.batch {i : Nat} {batch : List StoredEvent} (selected : lane.batches[i]? = some batch) :
    Batches.Numbered StoredEvent.version (Batches.offset lane.batches i) batch := by
  have := inv.numbered.batch selected
  rwa [Nat.zero_add] at this

theorem LaneInv.unlanded {i : Nat} (late : landed ≤ i) : lane.log.length ≤ Batches.offset lane.batches i :=
  inv.log_length ▸ Batches.offset_mono lane.batches late

theorem LaneInv.landed_of_lt {i : Nat} (before : Batches.offset lane.batches i < lane.log.length) : i < landed := by
  by_contra late
  have := inv.unlanded (Nat.le_of_not_lt late)
  omega

/-- Of the batches that begin at the log's end, only the next one can be there. -/
theorem LaneInv.next_of_eq {i : Nat} {batch : List StoredEvent} (selected : lane.batches[i]? = some batch)
    (at_end : Batches.offset lane.batches i = lane.log.length) : i = landed := by
  rw [inv.log_length] at at_end
  rcases Nat.lt_trichotomy i landed with before | same | after
  · have := Batches.offset_lt inv.filled selected before
    omega
  · exact same
  · obtain ⟨inside, _⟩ := List.getElem?_eq_some_iff.mp selected
    have following : ∃ other, lane.batches[landed]? = some other := ⟨_, List.getElem?_eq_getElem (after.trans inside)⟩
    obtain ⟨other, there⟩ := following
    have := Batches.offset_lt inv.filled there after
    omega

theorem LaneInv.place_unique {i j : Nat} {first second : List StoredEvent} (left : lane.batches[i]? = some first)
    (right : lane.batches[j]? = some second)
    (same : forwardWork entity first (Batches.offset lane.batches i) =
      forwardWork entity second (Batches.offset lane.batches j)) : i = j := by
  have equal : Batches.offset lane.batches i = Batches.offset lane.batches j := by
    have places := congrArg Work.stream same
    simpa [forwardWork] using places
  rcases Nat.lt_trichotomy i j with before | same | after
  · have := Batches.offset_lt inv.filled left before
    omega
  · exact same
  · have := Batches.offset_lt inv.filled right after
    omega

theorem LaneInv.end_le {job : Job} (member : job ∈ lane.world.tables.jobs) {last : Nat}
    (ends : job.endIn entity.stream = some last) : last ≤ lane.recorded.length := by
  have ours : job.work.inStream entity.stream = true := by
    unfold Job.endIn at ends
    split at ends
    · next stream =>
      split at ends
      · next same => simpa [Work.inStream, stream] using same
      · cases ends
    · cases ends
  obtain ⟨i, batch, selected, work⟩ := inv.jobs job member ours
  have : last = Batches.offset lane.batches i + batch.length := by
    simp only [Job.endIn, work, forwardWork, beq_self_eq_true, ↓reduceIte, Option.some.injEq] at ends
    exact ends.symm
  rw [this]
  exact Batches.end_le_total selected

theorem LaneInv.last_pending (behind : landed < lane.batches.length) :
    pendingTop lane.world.tables.jobs entity.stream = some lane.recorded.length := by
  obtain ⟨n, size⟩ := Nat.exists_eq_succ_of_ne_zero (Nat.ne_of_gt (Nat.zero_lt_of_lt behind))
  rw [Nat.succ_eq_add_one] at size
  have final : ∃ batch, lane.batches[n]? = some batch := ⟨_, List.getElem?_eq_getElem (by omega)⟩
  obtain ⟨batch, selected⟩ := final
  obtain ⟨job, member, work⟩ := inv.hot n batch (by omega) selected
  have total : Batches.offset lane.batches n + batch.length = lane.recorded.length := by
    rw [← Batches.offset_succ selected, ← size]
    exact Batches.offset_length lane.batches
  refine List.max?_eq_some_iff.mpr ⟨?_, fun last listed => ?_⟩
  · refine List.mem_filterMap.mpr ⟨job, member, ?_⟩
    simp only [Job.endIn, work, forwardWork, beq_self_eq_true, ↓reduceIte, total]
  · obtain ⟨other, present, ends⟩ := List.mem_filterMap.mp listed
    exact inv.end_le present ends

theorem LaneInv.reading
    (orderly : lane.row = none → ∀ top ∈ pendingTop lane.world.tables.jobs entity.stream,
      highestVersion lane.log ≤ top) (gone : lane.row = none) :
    pendingTop lane.world.tables.jobs entity.stream = some lane.recorded.length ∨
      pendingTop lane.world.tables.jobs entity.stream = none ∧ landed = lane.batches.length := by
  rcases Nat.lt_or_eq_of_le inv.few with behind | all
  · exact .inl (inv.last_pending behind)
  · cases pending : pendingTop lane.world.tables.jobs entity.stream with
    | none => exact .inr ⟨rfl, all⟩
    | some top =>
      have whole : lane.log.length = lane.recorded.length := by
        rw [inv.log_length, all]
        exact Batches.offset_length lane.batches
      have above := orderly gone top pending
      rw [inv.log_top, whole] at above
      obtain ⟨listed, _⟩ := List.max?_eq_some_iff.mp pending
      obtain ⟨job, present, ends⟩ := List.mem_filterMap.mp listed
      have below := inv.end_le present ends
      exact .inl (congrArg some (Nat.le_antisymm below above))

theorem LaneInv.base {reading : Reading} (open_ : reading ∈ lane.writer) :
    reading.baseVersion lane.log = lane.recorded.length := by
  obtain ⟨row, pending⟩ := inv.writer reading open_
  unfold Reading.baseVersion
  rw [row]
  split
  · next gone =>
    rcases pending gone with top | ⟨nothing, all⟩
    · simp [top]
    · rw [nothing, Option.getD_none, inv.log_top, inv.log_length, all]
      exact Batches.offset_length lane.batches
  · next zero => exact absurd (inv.row 0 zero).2 (Nat.lt_irrefl 0)
  · next version _ present => exact (inv.row version present).1

end Facts

theorem Carries.append {batches more : List (List StoredEvent)} {work : Work} (carries : Carries entity batches work) :
    Carries entity (batches ++ more) work := by
  obtain ⟨i, batch, selected, rfl⟩ := carries
  obtain ⟨inside, _⟩ := List.getElem?_eq_some_iff.mp selected
  refine ⟨i, batch, ?_, ?_⟩
  · rwa [List.getElem?_append_left inside]
  · rw [Batches.offset_append _ _ (Nat.le_of_lt inside)]

theorem forwardWork_inStream (events : List StoredEvent) (position : Nat) :
    (forwardWork entity events position).inStream entity.stream = true := by
  simp [forwardWork, Work.inStream]

/-! Each step of the lane. -/

theorem lane_lease_some {action : Action} (taken : lane.step entity (.lease action) = some next) :
    lane.admits entity action = true ∧ ∃ world, lane.world.step action = some world ∧
      next = { lane with world := world } := by
  simp only [Lane.step] at taken
  split at taken
  · next admitted =>
    obtain ⟨world, moved, rfl⟩ := Option.map_eq_some_iff.mp taken
    exact ⟨admitted, world, moved, rfl⟩
  · cases taken

theorem lane_write_some {now : Nat} {id : String} {drafts : List StoredEvent} {alive : Bool}
    (taken : lane.step entity (.write now id drafts alive) = some next) :
    ∃ reading ∈ lane.writer, drafts ≠ [] ∧ ∃ world,
      lane.world.step (.enqueue now now id (forwardWork entity
        (numberEvents entity (reading.baseVersion lane.log) drafts) (reading.baseVersion lane.log)) none) = some world ∧
      next = { lane with
        world := world
        row := if alive then some (reading.baseVersion lane.log +
          (numberEvents entity (reading.baseVersion lane.log) drafts).length) else none
        writer := none
        batches := lane.batches ++ [numberEvents entity (reading.baseVersion lane.log) drafts] } := by
  simp only [Lane.step] at taken
  split at taken
  · cases taken
  · next reading open_ =>
    split at taken
    · cases taken
    · next some_ =>
      obtain ⟨world, moved, rfl⟩ := Option.map_eq_some_iff.mp taken
      exact ⟨reading, open_, by simpa using some_, world, moved, rfl⟩

theorem lane_check_some {claim : Claim} (taken : lane.step entity (.check claim) = some next) :
    claim ∈ lane.world.claims ∧ claim.job.work.inStream entity.stream = true ∧
      forwardCheck lane.log claim.job = .ok () ∧ next = { lane with checked := claim :: lane.checked } := by
  simp only [Lane.step] at taken
  split at taken
  · next may =>
    split at taken
    · next passed =>
      cases taken
      exact ⟨may.1, may.2, passed, rfl⟩
    · cases taken
  · cases taken

theorem lane_append_some {claim : Claim} {answered : Bool} (taken : lane.step entity (.append claim answered) = some next) :
    claim ∈ lane.checked ∧ ∃ log, forwardAppend lane.log claim.job = .ok log ∧
      next = { lane with log := log, landed := if answered then claim :: lane.landed else lane.landed } := by
  simp only [Lane.step] at taken
  split at taken
  · next member =>
    split at taken
    · next log appended =>
      cases taken
      exact ⟨member, log, appended, rfl⟩
    · cases taken
  · cases taken

theorem LaneInv.stays (inv : LaneInv entity lane landed) {action : Action}
    (orderly : Orderly entity lane (.lease action)) (admitted : lane.admits entity action = true) {world : World}
    (moved : lane.world.step action = some world) {job : Job} (member : job ∈ lane.world.tables.jobs) {i : Nat}
    {batch : List StoredEvent} (selected : lane.batches[i]? = some batch)
    (work : job.work = forwardWork entity batch (Batches.offset lane.batches i)) (late : landed ≤ i) :
    ∃ other ∈ world.tables.jobs, other.id = job.id := by
  by_contra gone
  simp only [not_exists, not_and] at gone
  have filled := inv.filled batch (List.mem_of_getElem? selected)
  have begins := inv.unlanded late
  cases step_departure inv.world moved member gone with
  | @acked drain now clock claim held fenced =>
    -- the worker acked a batch that its log has, so it is not this one
    have sameId : job.id = claim.job.id := by
      simpa using (Bool.and_eq_true _ _ |>.mp fenced).1
    have sameWork := inv.same claim held job member sameId
    have ours : claim.job.work.inStream entity.stream = true := by
      rw [← sameWork, work]
      exact forwardWork_inStream batch _
    have done : claim ∈ lane.landed := by simpa [Lane.admits, ours] using admitted
    obtain ⟨j, other, early, there, its⟩ := inv.appended claim done
    have := inv.place_unique selected there (work.symm.trans (sameWork.trans its))
    omega
  | @discarded managed keeping now clock top landed_ =>
    have found : lane.world.tables.jobs.find? (·.id == job.id) = some job := by
      obtain ⟨other, hit⟩ := Option.isSome_iff_exists.mp
        (List.find?_isSome.mpr ⟨job, member, by simp⟩ : (lane.world.tables.jobs.find? (·.id == job.id)).isSome = true)
      rw [hit, Table.eq_of_key inv.world.settled.jobs (List.mem_of_find?_eq_some hit) member
        (by simpa using List.find?_some hit)]
    obtain ⟨last, final⟩ := Option.ne_none_iff_exists'.mp (mt List.getLast?_eq_none_iff.mp filled)
    have inside : last ∈ lane.recorded :=
      List.mem_flatten.mpr ⟨batch, List.mem_of_getElem? selected, List.mem_of_getLast? final⟩
    have real : top entity.kind entity.id = highestVersion lane.log := by simpa [Lane.admits] using admitted
    have version := (inv.batch selected).bounds (List.mem_of_getLast? final)
    have short : highestVersion lane.log < last.version := by
      rw [inv.log_top]
      omega
    simp [assertForwardLanded, found, work, forwardWork, final, (inv.stored last inside).kind,
      (inv.stored last inside).entityId, real, short] at landed_
  | cancelled kind => simp [work, forwardWork, JobBody.isForward] at kind
  | purged picked =>
    obtain ⟨first, rest, rfl⟩ := List.exists_cons_of_ne_nil filled
    have held := orderly.purge job picked (work ▸ forwardWork_inStream _ _) first
      (by simp [work, forwardWork, JobBody.copies])
    rw [inv.log_top] at held
    have version := (inv.batch selected).bounds (List.mem_cons_self (a := first) (l := rest))
    omega

theorem LaneInv.lease (inv : LaneInv entity lane landed) {action : Action}
    (orderly : Orderly entity lane (.lease action)) (admitted : lane.admits entity action = true) {world : World}
    (moved : lane.world.step action = some world) : LaneInv entity { lane with world := world } landed := by
  have known : ∀ job ∈ lane.world.tables.jobs, job.id ∈ lane.world.spent := inv.world.named.jobs
  exact {
    world := inv_step inv.world moved
    filled := inv.filled
    numbered := inv.numbered
    stored := inv.stored
    few := inv.few
    log := inv.log
    row := inv.row
    jobs job member ours := by
      cases step_arrival inv.world moved member with
      | stays old was id work => exact work ▸ inv.jobs old was (work.symm ▸ ours)
      | enqueued =>
        have := orderly.stream job.work rfl
        simp [this] at ours
      | replayed source archived work => exact work ▸ inv.archive source archived (work.symm ▸ ours)
    archive row member ours := by
      rcases step_archive inv.world moved member with ⟨old, was, work⟩ | ⟨job, was, work⟩
      · exact work ▸ inv.archive old was (work ▸ ours)
      · exact work ▸ inv.jobs job was (work ▸ ours)
    claims claim member ours := by
      rcases step_claims inv.world moved member with was | ⟨first, was, _, work⟩
      · exact inv.claims claim was ours
      · exact work ▸ inv.jobs first was (work.symm ▸ ours)
    same claim member job found sameId := by
      rcases step_claims inv.world moved member with was | ⟨first, was, its, work⟩
      · obtain ⟨old, there, oldId, oldWork⟩ :=
          step_work inv.world moved found (sameId ▸ (inv.world.claimed claim was).2)
        exact oldWork ▸ inv.same claim was old there (oldId.trans sameId)
      · obtain ⟨old, there, oldId, oldWork⟩ :=
          step_work inv.world moved found (sameId ▸ its ▸ known first was)
        have := Table.eq_of_key inv.world.settled.jobs there was (oldId.trans (sameId.trans its.symm))
        exact oldWork.symm.trans (this ▸ work)
    hot i batch late selected := by
      obtain ⟨job, member, work⟩ := inv.hot i batch late selected
      obtain ⟨other, found, its⟩ := inv.stays orderly admitted moved member selected work late
      obtain ⟨old, there, oldId, oldWork⟩ := step_work inv.world moved found (its ▸ known job member)
      have := Table.eq_of_key inv.world.settled.jobs there member (oldId.trans its)
      exact ⟨other, found, oldWork.symm.trans (this ▸ work)⟩
    checked := inv.checked
    appended := inv.appended
    writer := inv.writer }

theorem LaneInv.write (inv : LaneInv entity lane landed) {now : Nat} {id : String} {drafts : List StoredEvent}
    {alive : Bool} (taken : lane.step entity (.write now id drafts alive) = some next) :
    LaneInv entity next landed := by
  obtain ⟨reading, open_, some_, world, moved, rfl⟩ := lane_write_some taken
  have base := inv.base open_
  rw [base] at moved ⊢
  have events : Batches.Numbered StoredEvent.version lane.recorded.length
      (numberEvents entity lane.recorded.length drafts) := numberEvents_numbered _ _ drafts
  generalize made : numberEvents entity lane.recorded.length drafts = batch at moved events ⊢
  have filled : batch ≠ [] := by
    intro empty
    have := congrArg List.length made
    simp [numberEvents, empty, some_] at this
  have total : Batches.offset lane.batches lane.batches.length = lane.recorded.length :=
    Batches.offset_length lane.batches
  have recorded : ({ lane with
      world := world, row := if alive then some (lane.recorded.length + batch.length) else none, writer := none,
      batches := lane.batches ++ [batch] } : Lane).recorded = lane.recorded ++ batch := by
    simp [Lane.recorded]
  have fresh : Carries entity (lane.batches ++ [batch]) (forwardWork entity batch lane.recorded.length) := by
    refine ⟨lane.batches.length, batch, by simp, ?_⟩
    rw [Batches.offset_append _ _ (Nat.le_refl _), total]
  obtain ⟨archive, claims⟩ := enqueue_rest moved
  have jobs := enqueue_jobs moved
  -- what was at its place before still is
  have keep : ∀ {i : Nat} {old : List StoredEvent}, lane.batches[i]? = some old →
      (lane.batches ++ [batch])[i]? = some old ∧
        Batches.offset (lane.batches ++ [batch]) i = Batches.offset lane.batches i := by
    intro i old selected
    obtain ⟨inside, _⟩ := List.getElem?_eq_some_iff.mp selected
    exact ⟨by rwa [List.getElem?_append_left inside], Batches.offset_append _ _ (Nat.le_of_lt inside)⟩
  exact {
    world := inv_step inv.world moved
    filled other member := by
      rcases List.mem_append.mp member with was | last
      · exact inv.filled other was
      · exact List.mem_singleton.mp last ▸ filled
    numbered := by
      rw [recorded]
      exact Batches.numbered_append.mpr ⟨inv.numbered, by rwa [Nat.zero_add]⟩
    stored event member := by
      rcases List.mem_append.mp (recorded ▸ member) with was | new
      · exact inv.stored event was
      · exact numberEvents_stored _ lane.recorded.length drafts event (made ▸ new)
    few := by
      have := inv.few
      simp only [List.length_append, List.length_singleton]
      omega
    log := by rw [List.take_append_of_le_length inv.few, inv.log]
    row version present := by
      rw [recorded, List.length_append]
      have : 0 < batch.length := List.length_pos_iff.mpr filled
      cases alive with
      | false => simp at present
      | true =>
        simp only [↓reduceIte, Option.mem_def, Option.some.injEq] at present
        omega
    jobs job member ours := by
      rw [jobs] at member
      rcases List.mem_append.mp member with was | last
      · exact (inv.jobs job was ours).append
      · rw [List.mem_singleton.mp last]
        exact fresh
    archive row member ours := (inv.archive row (archive ▸ member) ours).append
    claims claim member ours := (inv.claims claim (claims ▸ member) ours).append
    same claim member job found sameId := by
      have was : claim ∈ lane.world.claims := claims ▸ member
      obtain ⟨old, there, oldId, oldWork⟩ :=
        step_work inv.world moved found (sameId ▸ (inv.world.claimed claim was).2)
      exact oldWork ▸ inv.same claim was old there (oldId.trans sameId)
    hot i other late selected := by
      rcases Nat.lt_or_ge i lane.batches.length with old | new
      · have was : lane.batches[i]? = some other := by rwa [List.getElem?_append_left old] at selected
        obtain ⟨job, member, work⟩ := inv.hot i other late was
        refine ⟨job, jobs ▸ List.mem_append_left _ member, ?_⟩
        rw [(keep was).2, work]
      · rw [List.getElem?_append_right new] at selected
        obtain ⟨last, same⟩ := List.getElem?_eq_some_iff.mp selected
        have place : i = lane.batches.length := by
          simp only [List.length_singleton] at last
          omega
        subst place
        simp only [Nat.sub_self, List.getElem_cons_zero] at same
        refine ⟨_, jobs ▸ List.mem_append_right _ (List.mem_singleton.mpr rfl), ?_⟩
        rw [Batches.offset_append _ _ (Nat.le_refl _), total, ← same]
        rfl
    checked claim member := by
      obtain ⟨i, old, selected, work, reached⟩ := inv.checked claim member
      obtain ⟨there, place⟩ := keep selected
      exact ⟨i, old, there, place ▸ work, place ▸ reached⟩
    appended claim member := by
      obtain ⟨i, old, early, selected, work⟩ := inv.appended claim member
      obtain ⟨there, place⟩ := keep selected
      exact ⟨i, old, early, there, place ▸ work⟩
    writer := by simp }

theorem LaneInv.openWrite (inv : LaneInv entity lane landed) (orderly : Orderly entity lane .openWrite)
    (taken : lane.step entity .openWrite = some next) : LaneInv entity next landed := by
  simp only [Lane.step] at taken
  split at taken
  · cases taken
  · cases taken
    exact { inv with
      writer := by
        rintro reading ⟨⟩
        exact ⟨rfl, inv.reading (orderly.create rfl)⟩ }

theorem LaneInv.abortWrite (inv : LaneInv entity lane landed) (taken : lane.step entity .abortWrite = some next) :
    LaneInv entity next landed := by
  cases taken
  exact { inv with writer := by simp }

theorem LaneInv.check (inv : LaneInv entity lane landed) {claim : Claim}
    (taken : lane.step entity (.check claim) = some next) : LaneInv entity next landed := by
  obtain ⟨member, ours, passed, rfl⟩ := lane_check_some taken
  obtain ⟨i, batch, selected, work⟩ := inv.claims claim member ours
  have reached : Batches.offset lane.batches i ≤ lane.log.length := by
    obtain ⟨first, rest, rfl⟩ := List.exists_cons_of_ne_nil (inv.filled batch (List.mem_of_getElem? selected))
    simp only [forwardCheck, work, forwardWork, inv.log_top] at passed
    split at passed
    · cases passed
    · omega
  exact { inv with
    checked := by
      intro other found
      rcases List.mem_cons.mp found with rfl | older
      · exact ⟨i, batch, selected, work, reached⟩
      · exact inv.checked other older }

theorem LaneInv.appends (inv : LaneInv entity lane landed) {claim : Claim} (checked : claim ∈ lane.checked)
    {log : List StoredEvent} (appended : forwardAppend lane.log claim.job = .ok log) :
    ∃ i batch, lane.batches[i]? = some batch ∧
      claim.job.work = forwardWork entity batch (Batches.offset lane.batches i) ∧
      (i < landed ∧ log = lane.log ∨ i = landed ∧ log = lane.log ++ batch) := by
  obtain ⟨i, batch, selected, work, reached⟩ := inv.checked claim checked
  refine ⟨i, batch, selected, work, ?_⟩
  have filled := inv.filled batch (List.mem_of_getElem? selected)
  have whole : batch.map ({ · with erasedAt := none }) = batch := by
    rw [List.map_congr_left (g := id), List.map_id]
    intro event member
    have := (inv.stored event (List.mem_flatten.mpr ⟨batch, List.mem_of_getElem? selected, member⟩)).whole
    cases event
    simp_all
  obtain ⟨first, rest, rfl⟩ := List.exists_cons_of_ne_nil filled
  simp only [forwardAppend, work, forwardWork, whole, append, List.isEmpty_cons, Bool.false_eq_true, ↓reduceIte,
    inv.log_top] at appended
  split at appended
  · next log' result =>
    cases appended
    split at result
    · next at_end =>
      cases result
      exact .inr ⟨inv.next_of_eq selected at_end, rfl⟩
    · next inside =>
      split at result
      · cases result
        exact .inl ⟨inv.landed_of_lt (by omega), rfl⟩
      · cases result
  · cases appended

theorem LaneInv.append (inv : LaneInv entity lane landed) {claim : Claim} {answered : Bool}
    (taken : lane.step entity (.append claim answered) = some next) : ∃ more, LaneInv entity next more := by
  obtain ⟨member, log, appended, rfl⟩ := lane_append_some taken
  obtain ⟨i, batch, selected, work, ⟨early, rfl⟩ | ⟨rfl, rfl⟩⟩ := inv.appends member appended
  · refine ⟨landed, { inv with appended := ?_ }⟩
    intro other found
    cases answered with
    | false => exact inv.appended other found
    | true =>
      rcases List.mem_cons.mp found with rfl | older
      · exact ⟨i, batch, early, selected, work⟩
      · exact inv.appended other older
  · obtain ⟨inside, _⟩ := List.getElem?_eq_some_iff.mp selected
    refine ⟨i + 1, { inv with
      few := inside
      log := ?_
      hot := fun j other late => inv.hot j other (by omega)
      checked := fun other found => ?_
      appended := fun other found => ?_
      writer := fun reading open_ => ?_ }⟩
    · rw [Batches.flatten_take_succ selected, inv.log]
    · obtain ⟨j, old, there, its, reached⟩ := inv.checked other found
      refine ⟨j, old, there, its, ?_⟩
      simp only [List.length_append]
      omega
    · have earlier : ∀ old ∈ lane.landed, ∃ j batch, j < i + 1 ∧ lane.batches[j]? = some batch ∧
          old.job.work = forwardWork entity batch (Batches.offset lane.batches j) := by
        intro old was
        obtain ⟨j, batch, early, there⟩ := inv.appended old was
        exact ⟨j, batch, by omega, there⟩
      cases answered with
      | false => exact earlier other found
      | true =>
        rcases List.mem_cons.mp found with rfl | older
        · exact ⟨i, batch, by omega, selected, work⟩
        · exact earlier other older
    · obtain ⟨row, pending⟩ := inv.writer reading open_
      refine ⟨row, fun gone => ?_⟩
      rcases pending gone with top | ⟨_, all⟩
      · exact .inl top
      · omega

theorem laneInv_step (inv : ∃ landed, LaneInv entity lane landed) {action : LaneAction}
    (orderly : Orderly entity lane action) (taken : lane.step entity action = some next) :
    ∃ landed, LaneInv entity next landed := by
  obtain ⟨landed, inv⟩ := inv
  cases action with
  | lease action =>
    obtain ⟨admitted, world, moved, rfl⟩ := lane_lease_some taken
    exact ⟨landed, inv.lease orderly admitted moved⟩
  | openWrite => exact ⟨landed, inv.openWrite orderly taken⟩
  | write now id drafts alive => exact ⟨landed, inv.write taken⟩
  | abortWrite => exact ⟨landed, inv.abortWrite taken⟩
  | check claim => exact ⟨landed, inv.check taken⟩
  | append claim answered => exact inv.append taken

theorem laneInv_reach (reached : Run.Reach (Lane.step entity) (Orderly entity) .start lane) :
    ∃ landed, LaneInv entity lane landed :=
  reached.invariant (fun lane => ∃ landed, LaneInv entity lane landed) ⟨0, laneInv_start⟩
    fun _ _ _ inv orderly taken => laneInv_step inv orderly taken

end Arki.Journal
