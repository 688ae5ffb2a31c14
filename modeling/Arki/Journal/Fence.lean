import Arki.Journal.Lease

/-! The fence of the commands that an attempt runs. A command's first statement locks its attempt's
open row `for share`; a statement that would change or delete a locked row waits for the command.
-/

set_option autoImplicit false

namespace Arki.Journal

def Claim.current (claim : Claim) (tables : Tables) : Prop :=
  ∃ row ∈ tables.attempts, row.id = claim.row ∧ row.isOpen = true

instance (claim : Claim) (tables : Tables) : Decidable (claim.current tables) :=
  inferInstanceAs (Decidable (∃ row ∈ tables.attempts, _))

/-- `where job_id = held.jobId and attempt = held.attempt and finished_at is null`. -/
def heldOpen (held : Job) (row : JobAttempt) : Bool := JobAttempt.openOf held.id row && row.attempt == held.attempts

def fence (held : Job) (tables : Tables) : Except JournalError (List String) :=
  let effect := held.work.body.effectName.getD ""
  match tables.attempts.filter (heldOpen held) with
  | [] => .error ⟨.leaseLost, "job", held.id, s!"attempt {held.attempts} of \"{effect}\" is no longer open"⟩
  | rows => .ok (rows.map (·.id))

structure Command where
  claim : Claim
  rows : List String
  deriving DecidableEq

/-- `stopped` are the claims whose worker has ended the handler and will start no more commands. -/
structure Fenced where
  world : World
  stopped : List Claim
  running : List Command

def Fenced.start : Fenced := ⟨.start, [], []⟩

inductive FencedAction where
  | lease (action : Action)
  | begin (claim : Claim)
  | commit (command : Command)
  | rollback (command : Command)
  | stop (claim : Claim)

def undisturbed (running : List Command) (before after : Tables) : Bool :=
  before.attempts.all fun row => !(running.any (·.rows.contains row.id)) || after.attempts.contains row

def Fenced.step (state : Fenced) : FencedAction → Option Fenced
  | .lease action =>
    match state.world.step action with
    | none => none
    | some next =>
      if undisturbed state.running state.world.tables next.tables then some { state with world := next } else none
  | .begin claim =>
    if claim ∈ state.world.claims ∧ claim ∉ state.stopped then
      match fence claim.job state.world.tables with
      | .error _ => none
      | .ok rows => some { state with running := ⟨claim, rows⟩ :: state.running }
    else none
  | .commit command =>
    if command ∈ state.running then some { state with running := state.running.erase command } else none
  | .rollback command =>
    if command ∈ state.running then some { state with running := state.running.erase command } else none
  | .stop claim => some { state with stopped := claim :: state.stopped }

/-- No command of an attempt that is not the open one commits, and the fence lets none begin. -/
structure Fencing (state : Fenced) : Prop where
  begins : ∀ claim next, state.step (.begin claim) = some next → claim.current state.world.tables
  commits : ∀ command next, state.step (.commit command) = some next → command.claim.current state.world.tables

def FencedAction.claims : FencedAction → Option String
  | .lease (.claim _ _ _ id _ _) => some id
  | _ => none

/-- A claim hands out no number that a worker still runs an attempt of the same job under. -/
def NumbersApart (state : Fenced) (action : FencedAction) : Prop :=
  ∀ id ∈ action.claims, ∀ claim ∈ state.world.claims, claim ∉ state.stopped → claim.job.id = id →
    ∀ job ∈ state.world.tables.jobs, job.id = id → claim.job.attempts ≠ job.attempts + 1

instance (state : Fenced) (action : FencedAction) : Decidable (NumbersApart state action) :=
  inferInstanceAs (Decidable (∀ id ∈ action.claims, _))

variable {state next : Fenced}

theorem fence_ok {held : Job} {tables : Tables} {rows : List String} (passed : fence held tables = .ok rows) :
    rows = (tables.attempts.filter (heldOpen held)).map (·.id) ∧ rows ≠ [] := by
  unfold fence at passed
  split at passed
  · cases passed
  · next some_ =>
    cases passed
    exact ⟨rfl, fun none_ => some_ (List.map_eq_nil_iff.mp none_)⟩

section

-- The lemmas below unfold these at the same time: their equations are made once, here.
attribute [local simp] Fenced.step

end

theorem lease_some {action : Action} (taken : state.step (.lease action) = some next) :
    ∃ world, state.world.step action = some world ∧
      undisturbed state.running state.world.tables world.tables = true ∧ next = { state with world := world } := by
  simp only [Fenced.step] at taken
  split at taken
  · cases taken
  · next world moved =>
    split at taken
    · next kept =>
      cases taken
      exact ⟨world, moved, kept, rfl⟩
    · cases taken

theorem begin_some {claim : Claim} (taken : state.step (.begin claim) = some next) :
    claim ∈ state.world.claims ∧ claim ∉ state.stopped ∧ ∃ rows, fence claim.job state.world.tables = .ok rows ∧
      next = { state with running := ⟨claim, rows⟩ :: state.running } := by
  simp only [Fenced.step] at taken
  split at taken
  · next may =>
    split at taken
    · cases taken
    · next rows passed =>
      cases taken
      exact ⟨may.1, may.2, rows, passed, rfl⟩
  · cases taken

theorem undisturbed_row {running : List Command} {before after : Tables}
    (kept : undisturbed running before after = true) {command : Command} (member : command ∈ running)
    {row : JobAttempt} (was : row ∈ before.attempts) (locked : row.id ∈ command.rows) : row ∈ after.attempts := by
  have := List.all_eq_true.mp kept row was
  simp only [Bool.or_eq_true, Bool.not_eq_true', List.any_eq_false, List.contains_iff_mem] at this
  rcases this with free | stays
  · exact absurd locked (free command member)
  · exact stays

structure FencedInv (state : Fenced) : Prop where
  world : Inv state.world
  apart : ∀ claim ∈ state.world.claims, claim ∉ state.stopped → ∀ row ∈ state.world.tables.attempts,
    heldOpen claim.job row = true → row.id = claim.row
  locked : ∀ command ∈ state.running, ∃ row ∈ state.world.tables.attempts,
    row.id = command.claim.row ∧ row.isOpen = true ∧ row.id ∈ command.rows

theorem fencedInv_start : FencedInv .start where
  world := inv_start
  apart := by simp [Fenced.start, World.start]
  locked := by simp [Fenced.start]

theorem FencedInv.admitted (inv : FencedInv state) {claim : Claim} {rows : List String}
    (member : claim ∈ state.world.claims) (runs : claim ∉ state.stopped)
    (passed : fence claim.job state.world.tables = .ok rows) :
    ∃ row ∈ state.world.tables.attempts, row.id = claim.row ∧ row.isOpen = true ∧ row.id ∈ rows := by
  obtain ⟨rfl, some_⟩ := fence_ok passed
  obtain ⟨id, listed⟩ := List.exists_mem_of_ne_nil _ some_
  obtain ⟨row, hit, rfl⟩ := List.mem_map.mp listed
  obtain ⟨was, fits⟩ := List.mem_filter.mp hit
  have opened : row.isOpen = true := by
    simp only [heldOpen, JobAttempt.openOf, Bool.and_eq_true] at fits
    exact fits.1.2
  exact ⟨row, was, inv.apart claim member runs row was fits, opened, listed⟩

theorem FencedInv.apart_step (inv : FencedInv state) {action : Action} {world : World}
    (permitted : NumbersApart state (.lease action)) (taken : state.world.step action = some world) :
    ∀ claim ∈ world.claims, claim ∉ state.stopped → ∀ row ∈ world.tables.attempts,
      heldOpen claim.job row = true → row.id = claim.row := by
  obtain ⟨names, change, noted, _, _⟩ := step_change inv.world taken
  intro claim member runs row found fits
  obtain ⟨its, number⟩ := Bool.and_eq_true _ _ |>.mp fits
  obtain ⟨owner, opened⟩ := Bool.and_eq_true _ _ |>.mp its
  rw [beq_iff_eq] at owner number
  -- a step that opens no row
  have quiet : world.claims = state.world.claims → names.length ≤ 1 → row.id = claim.row := by
    intro claims few
    rcases change.attempt_rows found with ⟨old, was, id, sameJob, sameNumber, stillOpen⟩ | ⟨_, _, _, _, _, rfl, _⟩
    · rw [← id]
      refine inv.apart claim (claims ▸ member) runs old was ?_
      simp [heldOpen, JobAttempt.openOf, stillOpen opened, sameJob, owner, sameNumber, number]
    · simp at few
  cases noted with
  | @claim drain now locked id token attempt =>
    obtain ⟨first, present, same, claims, rows⟩ := claim_some taken
    rw [claims] at member
    rw [rows] at found
    rcases open_after_claim found opened with rfl | ⟨was, other⟩
    · rcases List.mem_cons.mp member with rfl | older
      · rfl
      · have mine : claim.job.id = id := owner.symm.trans same
        exact absurd number.symm (permitted id rfl claim older runs mine first present same)
    · rcases List.mem_cons.mp member with rfl | older
      · exact absurd owner other
      · exact inv.apart claim older runs row was fits
  | enqueue claims => exact quiet claims (by simp)
  | ack _ _ claims => exact quiet claims (by simp)
  | replay claims => exact quiet claims (by simp)
  | plain claims => exact quiet claims (by simp)

theorem fencedInv_step (inv : FencedInv state) {action : FencedAction} (permitted : NumbersApart state action)
    (taken : state.step action = some next) : FencedInv next := by
  cases action with
  | lease action =>
    obtain ⟨world, moved, kept, rfl⟩ := lease_some taken
    refine ⟨inv_step inv.world moved, inv.apart_step permitted moved, fun command member => ?_⟩
    obtain ⟨row, was, mine, opened, locked⟩ := inv.locked command member
    exact ⟨row, undisturbed_row kept member was locked, mine, opened, locked⟩
  | begin claim =>
    obtain ⟨member, runs, rows, passed, rfl⟩ := begin_some taken
    refine ⟨inv.world, inv.apart, fun command found => ?_⟩
    rcases List.mem_cons.mp found with rfl | older
    · exact inv.admitted member runs passed
    · exact inv.locked command older
  | commit command =>
    simp only [Fenced.step] at taken
    split at taken
    · cases taken
      exact ⟨inv.world, inv.apart, fun other member => inv.locked other (List.mem_of_mem_erase member)⟩
    · cases taken
  | rollback command =>
    simp only [Fenced.step] at taken
    split at taken
    · cases taken
      exact ⟨inv.world, inv.apart, fun other member => inv.locked other (List.mem_of_mem_erase member)⟩
    · cases taken
  | stop claim =>
    cases taken
    refine ⟨inv.world, fun other member runs => inv.apart other member fun was => runs ?_, inv.locked⟩
    exact List.mem_cons_of_mem _ was

/-- As long as no number is given out while an attempt still runs under it, a stale attempt's command
neither begins nor commits. -/
theorem fence_admits_current (reached : Run.Reach Fenced.step NumbersApart .start state) : Fencing state := by
  have inv : FencedInv state := reached.invariant FencedInv fencedInv_start
    fun _ _ _ inv permitted taken => fencedInv_step inv permitted taken
  constructor
  · intro claim next taken
    obtain ⟨member, runs, rows, passed, _⟩ := begin_some taken
    obtain ⟨row, was, mine, opened, _⟩ := inv.admitted member runs passed
    exact ⟨row, was, mine, opened⟩
  · intro command next taken
    simp only [Fenced.step] at taken
    split at taken
    · next member =>
      obtain ⟨row, was, mine, opened, _⟩ := inv.locked command member
      exact ⟨row, was, mine, opened⟩
    · cases taken

def fencedTakeover : List FencedAction :=
  [.lease (.enqueue 0 0 "job_1" mailWork none),
   .lease (.claim mailDrain 10 [] "job_1" "lease_1" "att_1"),
   .lease (.claim mailDrain 60010 [] "job_1" "lease_2" "att_2"),
   .begin (mailClaim 2 60010 "lease_2" "att_2")]

theorem fence_admits_current_takeover :
    ∃ state, Run.run (Run.guarded Fenced.step NumbersApart) .start fencedTakeover = some state ∧
      state.running.length = 1 ∧ Fencing state :=
  ⟨_, rfl, by decide, fence_admits_current
    (Run.Reach.of_guarded (rfl : Run.run (Run.guarded Fenced.step NumbersApart) .start fencedTakeover = some _))⟩

/-- After a retry a third worker gets the first one's number, and the stalled first worker starts a command. -/
def reusedNumber : List FencedAction :=
  [.lease (.enqueue 0 0 "job_1" mailWork none),
   .lease (.claim mailDrain 10 [] "job_1" "lease_1" "att_1"),
   .lease (.claim mailDrain 60010 [] "job_1" "lease_2" "att_2"),
   .lease (.fail 60020 (mailClaim 2 60010 "lease_2" "att_2") "Error: boom" none),
   .lease (.retry .refuse 70000 "job_1"),
   .lease (.claim mailDrain 70010 [] "job_1" "lease_3" "att_3"),
   .begin (mailClaim 1 10 "lease_1" "att_1")]

/-- The first worker's attempt ended as superseded, and its command commits. -/
theorem fence_admits_reused_number : ∃ state, Run.run Fenced.step .start reusedNumber = some state ∧
    ¬ (mailClaim 1 10 "lease_1" "att_1").current state.world.tables ∧
    (state.step (.commit ⟨mailClaim 1 10 "lease_1" "att_1", ["att_3"]⟩)).isSome = true ∧ ¬ Fencing state := by
  refine ⟨_, rfl, by decide, by decide, fun fencing => ?_⟩
  exact absurd (fencing.commits ⟨mailClaim 1 10 "lease_1" "att_1", ["att_3"]⟩ _ rfl) (by decide)

end Arki.Journal
