import Arki.Journal.Forward
import Mathlib

/-! The tries of a forward job: when a failed one runs again, and when the job is dead. -/

set_option autoImplicit false

namespace Arki.Journal

inductive Reason where
  | forwardBehind
  | forwardDiverged
  | error
  | failure
  deriving DecidableEq, Repr

def Reason.isFailure : Reason → Bool
  | failure => true
  | _ => false

/-- How long to wait before each retry, and when to stop. Without `maxRetries` it goes on for ever. -/
structure Backoff where
  wait : Nat → Nat
  maxRetries : Option Nat
  retryable : Option (Reason → Bool)

/-- The wait before retry number `attempt`, or none to stop. -/
def Backoff.delay (backoff : Backoff) (attempt : Nat) (reason : Reason) : Except String (Option Nat) :=
  if attempt < 1 then .error s!"backoff: delay(attempt) needs a whole number from 1, got {attempt}"
  else if backoff.maxRetries.any (· < attempt) then .ok none
  else if backoff.retryable.elim reason.isFailure fun retryable => !retryable reason then .ok none
  else .ok (some (backoff.wait attempt))

def Backoff.upTo (backoff : Backoff) (retries : Nat) : Backoff :=
  { backoff with maxRetries := some (backoff.maxRetries.elim retries (min · retries)) }

/-- `jitter` is what the random number of the moment makes of the exact wait. -/
def Backoff.exponential (base most : Nat) (jitter : Nat → Nat) : Backoff where
  wait attempt := min most (jitter (min most (base * 2 ^ min (attempt - 1) 1023)))
  maxRetries := none
  retryable := none

def defaultEffectRetry (jitter : Nat → Nat) : Backoff := (Backoff.exponential 1000 300000 jitter).upTo forwardRetries

def forwardBehindDelayMs : Nat := 5000

/-- When a failed forward job runs again. A diverged one never; a waiting one soon. -/
def forwardDelay (jitter : Nat → Nat) (job : Job) : Reason → Except String (Option Nat)
  | .forwardBehind => .ok (some forwardBehindDelayMs)
  | .forwardDiverged => .ok none
  | reason => (defaultEffectRetry jitter).delay job.attempts reason

inductive TryEnd where
  | behind
  | diverged
  | failed
  | done
  deriving DecidableEq, Repr

def TryEnd.reason : TryEnd → Option Reason
  | behind => some .forwardBehind
  | diverged => some .forwardDiverged
  | failed => some .error
  | done => none

def Tables.standing (tables : Tables) (id : String) : List (Nat × Option Nat × Option String) :=
  (tables.jobs.filter (·.id == id)).map fun job => (job.attempts, job.deadAt, job.leaseToken)

structure Trying where
  tables : Tables
  held : Option Job
  tries : List TryEnd

inductive TryStep where
  | elsewhere (tables : Tables)
  | claim (drain : Drain) (now : Nat) (locked : List String) (token attempt : String)
  | finish (drain : Drain) (now clock : Nat) (error : String) (jitter : Nat → Nat) (end_ : TryEnd)

def endTry (drain : Drain) (now clock : Nat) (error : String) (jitter : Nat → Nat) (held : Job) (end_ : TryEnd)
    (tables : Tables) : Option Tables :=
  match end_.reason with
  | none => ack drain now clock held tables
  | some reason => (forwardDelay jitter held reason).toOption.map fun delayMs => recordFailure now held error delayMs tables

def Trying.step (id : String) (trying : Trying) : TryStep → Option Trying
  | .elsewhere tables => if tables.standing id = trying.tables.standing id then some { trying with tables := tables } else none
  | .claim drain now locked token attempt =>
    match trying.held with
    | some _ => none
    | none => (claimOne drain now locked id token attempt trying.tables).map fun (job, tables) =>
      { trying with tables := tables, held := some job }
  | .finish drain now clock error jitter end_ =>
    match trying.held with
    | none => none
    | some job => (endTry drain now clock error jitter job end_ trying.tables).map fun tables =>
      ⟨tables, none, trying.tries ++ [end_]⟩

def Tables.dead (tables : Tables) (id : String) : Prop := ∃ job ∈ tables.jobs, job.id = id ∧ job.deadAt.isSome = true

variable {id : String} {tables : Tables}

theorem dead_iff : tables.dead id ↔ ∃ row ∈ tables.standing id, row.2.1.isSome = true := by
  simp only [Tables.dead, Tables.standing, List.mem_map, List.mem_filter, beq_iff_eq]
  constructor
  · rintro ⟨job, listed, same, dead⟩
    exact ⟨_, ⟨job, ⟨listed, same⟩, rfl⟩, dead⟩
  · rintro ⟨_, ⟨job, ⟨listed, same⟩, rfl⟩, dead⟩
    exact ⟨job, listed, same, dead⟩

theorem standing_single {attempts : Nat} {deadAt : Option Nat} {token : Option String}
    (is : tables.standing id = [(attempts, deadAt, token)]) : ∃ job, tables.jobs.filter (·.id == id) = [job] ∧ job.id = id ∧
      job.attempts = attempts ∧ job.deadAt = deadAt ∧ job.leaseToken = token := by
  obtain ⟨job, only, same⟩ := List.map_eq_singleton_iff.mp is
  cases same
  have listed : job ∈ tables.jobs.filter (·.id == id) := by rw [only]; exact List.mem_singleton_self job
  exact ⟨job, only, by simpa using (List.mem_filter.mp listed).2, rfl, rfl, rfl⟩

variable {job : Job}

theorem standing_update (only : tables.jobs.filter (·.id == id) = [job]) {matches_ : Job → Bool} {set : Job → Job}
    (sameId : ∀ row, (set row).id = row.id) (hit : matches_ job = true) {next : Tables}
    (jobs : next.jobs = Table.update tables.jobs matches_ set) :
    next.standing id = [((set job).attempts, (set job).deadAt, (set job).leaseToken)] := by
  have rows : next.jobs.filter (·.id == id) = Table.update (tables.jobs.filter (·.id == id)) matches_ set := by
    rw [jobs]
    exact Table.filter_update (fun row : Job => row.id == id) (fun row _ => by rw [sameId]) tables.jobs
  unfold Tables.standing
  rw [rows, only]
  simp only [Table.update, List.map_cons, List.map_nil, hit, if_true]

theorem claimOne_standing {attempts now : Nat} {deadAt : Option Nat} {was : Option String} {drain : Drain} {locked : List String}
    {token attempt : String} {claimed : Job} {next : Tables} (is : tables.standing id = [(attempts, deadAt, was)])
    (taken : claimOne drain now locked id token attempt tables = some (claimed, next)) :
    (claimed.id = id ∧ claimed.attempts = attempts + 1 ∧ claimed.leaseToken = some token) ∧ deadAt = none ∧
      next.standing id = [(attempts + 1, none, some token)] := by
  obtain ⟨job, only, sameId, sameAttempts, sameDeath, -⟩ := standing_single is
  obtain ⟨first, member, isId, ready, -, rfl, isNext⟩ := claimOne_some taken
  have listed : first ∈ tables.jobs.filter (·.id == id) := List.mem_filter.mpr ⟨member, by simpa using isId⟩
  rw [only, List.mem_singleton] at listed
  cases listed
  have alive : job.deadAt = none := due_alive ready
  have jobs : next.jobs = Table.update tables.jobs (·.id == job.id) (Job.lease now drain.leaseMs token) := by rw [isNext]
  have left := @standing_update id tables job only (·.id == job.id) (Job.lease now drain.leaseMs token) (fun _ => rfl) (beq_self_eq_true job.id) next jobs
  refine ⟨⟨isId, by show job.attempts + 1 = _; rw [sameAttempts], rfl⟩, sameDeath ▸ alive, left.trans ?_⟩
  show [(job.attempts + 1, job.deadAt, some token)] = _
  rw [sameAttempts, alive]

theorem recordFailure_standing {attempts : Nat} {token : String} {held : Job} (is : tables.standing id = [(attempts, none, some token)])
    (sameId : held.id = id) (leased : held.leaseToken = some token) (now : Nat) (error : String) (delayMs : Option Nat) :
    (recordFailure now held error delayMs tables).standing id = [(attempts, if delayMs.isNone then some now else none, none)] := by
  obtain ⟨job, only, isId, sameAttempts, sameDeath, sameToken⟩ := standing_single is
  have hit : holds held job = true := by
    simp [holds, isId, sameId, leased, sameToken]
  have listed : job ∈ tables.jobs := (List.mem_filter.mp (by rw [only]; exact List.mem_singleton_self job)).1
  have found : tables.jobs.any (holds held) = true := List.any_eq_true.mpr ⟨job, listed, hit⟩
  unfold recordFailure Tables.endAttempt
  rw [if_pos found, ← sameAttempts]
  refine (@standing_update id tables job only (holds held) _ (fun _ => ?_) hit _ rfl).trans ?_
  · rfl
  · rw [sameDeath]

theorem ack_standing {attempts now clock : Nat} {token : String} {held : Job} {drain : Drain} {next : Tables}
    (is : tables.standing id = [(attempts, none, some token)]) (sameId : held.id = id) (leased : held.leaseToken = some token)
    (taken : ack drain now clock held tables = some next) : next.standing id = [] := by
  obtain ⟨job, only, isId, -, -, sameToken⟩ := standing_single is
  have hit : holds held job = true := by
    simp [holds, isId, sameId, leased, sameToken]
  have jobs : next.jobs = Table.delete tables.jobs (holds held) := ack_jobs taken
  unfold Tables.standing
  have swapped : (Table.delete tables.jobs (holds held)).filter (·.id == id) = (tables.jobs.filter (·.id == id)).filter (!holds held ·) := by
    rw [Table.delete, List.filter_filter, List.filter_filter]
    exact List.filter_congr fun row _ => Bool.and_comm _ _
  rw [jobs, swapped, only]
  simp [hit]

/-- Tries that leave the job alive: from the eighth on they only found the log behind. -/
def Spare (tries : List TryEnd) : Prop :=
  (∀ end_ ∈ tries, end_ = .behind ∨ end_ = .failed) ∧ TryEnd.failed ∉ tries.drop forwardRetries

/-- The tries of the condition: one that fails from the eighth on follows seven that failed. -/
def Counted (tries : List TryEnd) : Prop := TryEnd.behind ∈ tries.take forwardRetries → TryEnd.failed ∉ tries.drop forwardRetries

theorem forwardDelay_ok (jitter : Nat → Nat) (counted : 0 < job.attempts) {end_ : TryEnd} {reason : Reason}
    (is : end_.reason = some reason) : ∃ delayMs, forwardDelay jitter job reason = .ok delayMs ∧
      (delayMs.isNone = true ↔ end_ = .diverged ∨ end_ = .failed ∧ forwardRetries < job.attempts) := by
  cases end_ with
  | behind =>
    cases is
    exact ⟨_, rfl, by simp⟩
  | diverged =>
    cases is
    exact ⟨_, rfl, by simp⟩
  | done => cases is
  | failed =>
    cases is
    have once : ¬ job.attempts < 1 := by omega
    by_cases more : forwardRetries < job.attempts
    · refine ⟨none, ?_, by simp [more]⟩
      simp [forwardDelay, Backoff.delay, defaultEffectRetry, Backoff.upTo, Backoff.exponential, once, more]
    · refine ⟨some ((defaultEffectRetry jitter).wait job.attempts), ?_, by simp [more]⟩
      simp [forwardDelay, Backoff.delay, defaultEffectRetry, Backoff.upTo, Backoff.exponential, once, more, Reason.isFailure]

inductive Standing (id : String) (trying : Trying) : Prop where
  | waiting : trying.held = none → trying.tables.standing id = [(trying.tries.length, none, none)] → Spare trying.tries →
      Standing id trying
  | running {job : Job} {token : String} : trying.held = some job → job.id = id → job.attempts = trying.tries.length + 1 →
      job.leaseToken = some token → trying.tables.standing id = [(trying.tries.length + 1, none, some token)] →
      Spare trying.tries → Standing id trying
  | dead {tries : List TryEnd} {end_ : TryEnd} {attempts deadAt : Nat} : trying.held = none →
      trying.tables.standing id = [(attempts, some deadAt, none)] → trying.tries = tries ++ [end_] → Spare tries →
      end_ = .diverged ∨ end_ = .failed ∧ forwardRetries ≤ tries.length → Standing id trying
  | gone {tries : List TryEnd} : trying.held = none → trying.tables.standing id = [] → trying.tries = tries ++ [.done] →
      Spare tries → Standing id trying

theorem Spare.next {tries : List TryEnd} {end_ : TryEnd} (spare : Spare tries)
    (goesOn : end_ = .behind ∨ end_ = .failed ∧ tries.length < forwardRetries) : Spare (tries ++ [end_]) := by
  constructor
  · intro other inside
    rcases List.mem_append.mp inside with before | last
    · exact spare.1 other before
    · rw [List.mem_singleton.mp last]
      exact goesOn.imp_right And.left
  · rcases goesOn with rfl | ⟨rfl, few⟩
    · intro inside
      rw [List.drop_append] at inside
      rcases List.mem_append.mp inside with before | last
      · exact spare.2 before
      · have one := List.mem_of_mem_drop last
        rw [List.mem_singleton] at one
        cases one
    · rw [List.drop_eq_nil_of_le]
      · exact List.not_mem_nil
      · rw [List.length_append, List.length_singleton]
        omega

variable {trying next : Trying}

theorem Standing.step (standing : Standing id trying) {action : TryStep} (taken : trying.step id action = some next) :
    Standing id next := by
  cases action with
  | elsewhere tables =>
    simp only [Trying.step] at taken
    split at taken
    · next same =>
      cases taken
      cases standing with
      | waiting free is spare => exact .waiting free (same.trans is) spare
      | running held isId counted leased is spare => exact .running held isId counted leased (same.trans is) spare
      | dead free is split_ spare why => exact .dead free (same.trans is) split_ spare why
      | gone free is split_ spare => exact .gone free (same.trans is) split_ spare
    · cases taken
  | claim drain now locked token attempt =>
    simp only [Trying.step] at taken
    cases standing with
    | waiting free is spare =>
      rw [free] at taken
      obtain ⟨⟨job, tables⟩, claimed, rfl⟩ := Option.map_eq_some_iff.mp taken
      obtain ⟨⟨isId, counted, leased⟩, -, left⟩ := claimOne_standing is claimed
      exact .running rfl isId counted leased left spare
    | running held =>
      rw [held] at taken
      cases taken
    | dead free is =>
      rw [free] at taken
      obtain ⟨⟨job, tables⟩, claimed, rfl⟩ := Option.map_eq_some_iff.mp taken
      obtain ⟨-, alive, -⟩ := claimOne_standing is claimed
      cases alive
    | gone free is =>
      rw [free] at taken
      obtain ⟨⟨job, tables⟩, claimed, rfl⟩ := Option.map_eq_some_iff.mp taken
      obtain ⟨first, member, isId, -⟩ := claimOne_some claimed
      have listed : first ∈ trying.tables.jobs.filter (·.id == id) := List.mem_filter.mpr ⟨member, by simpa using isId⟩
      rw [List.map_eq_nil_iff.mp is] at listed
      cases listed
  | finish drain now clock error jitter end_ =>
    simp only [Trying.step] at taken
    cases standing with
    | waiting free | dead free | gone free =>
      rw [free] at taken
      cases taken
    | @running job token held isId counted leased is spare =>
      rw [held] at taken
      obtain ⟨tables, ended, rfl⟩ := Option.map_eq_some_iff.mp taken
      cases reason : end_.reason with
      | none =>
        -- only a success has no reason
        have isDone : end_ = .done := by
          cases end_ with
          | done => rfl
          | _ => cases reason
        simp only [endTry, reason] at ended
        exact .gone rfl (ack_standing is isId leased ended) (by rw [isDone]) spare
      | some why =>
        have once : 0 < job.attempts := by omega
        obtain ⟨delayMs, delay, dies⟩ := forwardDelay_ok jitter once reason
        simp only [endTry, reason, delay, Except.toOption, Option.map_some, Option.some.injEq] at ended
        cases ended
        have left := recordFailure_standing is isId leased now error delayMs
        rw [counted] at dies
        by_cases stops : delayMs.isNone = true
        · rw [if_pos stops] at left
          refine .dead rfl left rfl spare ((dies.mp stops).imp_right fun both => ⟨both.1, ?_⟩)
          exact Nat.le_of_lt_succ both.2
        · rw [if_neg stops] at left
          refine .waiting rfl (left.trans (by simp)) (spare.next ?_)
          cases end_ with
          | behind => exact .inl rfl
          | diverged => exact absurd (dies.mpr (.inl rfl)) stops
          | done => cases reason
          | failed => exact .inr ⟨rfl, by
              by_contra many
              exact stops (dies.mpr (.inr ⟨rfl, by omega⟩))⟩

theorem Standing.reached {tables : Tables} (fresh : tables.standing id = [(0, none, none)])
    (reached : Run.Reach (Trying.step id) Run.always ⟨tables, none, []⟩ trying) : Standing id trying :=
  reached.invariant (Standing id) (.waiting rfl fresh ⟨nofun, List.not_mem_nil⟩) fun _ _ _ standing _ taken => standing.step taken

variable {tries : List TryEnd}

theorem Spare.counted (spare : Spare tries) (last : TryEnd) (other : last ≠ .failed) : Counted (tries ++ [last]) := by
  intro _ inside
  rw [List.drop_append] at inside
  rcases List.mem_append.mp inside with before | late
  · exact spare.2 before
  · exact other (List.mem_singleton.mp (List.mem_of_mem_drop late)).symm

theorem Spare.count_le (spare : Spare tries) : tries.count .failed ≤ forwardRetries := by
  have late : (tries.drop forwardRetries).count .failed = 0 := List.count_eq_zero.mpr spare.2
  have early := List.count_le_length (a := TryEnd.failed) (l := tries.take forwardRetries)
  have parts : tries.count .failed = (tries.take forwardRetries).count .failed + (tries.drop forwardRetries).count .failed := by
    rw [← List.count_append, List.take_append_drop]
  rw [List.length_take] at early
  omega

theorem Spare.alive (spare : Spare tries) : ¬ (TryEnd.diverged ∈ tries ∨ forwardRetries < tries.count .failed) := by
  rintro (diverged | many)
  · rcases spare.1 _ diverged with same | same
    · cases same
    · cases same
  · exact absurd spare.count_le (not_le.mpr many)

theorem Spare.failed_iff (spare : Spare tries) (enough : forwardRetries ≤ tries.length) :
    forwardRetries ≤ tries.count .failed ↔ TryEnd.behind ∉ tries.take forwardRetries := by
  have late : (tries.drop forwardRetries).count .failed = 0 := List.count_eq_zero.mpr spare.2
  have parts : tries.count .failed = (tries.take forwardRetries).count .failed + (tries.drop forwardRetries).count .failed := by
    rw [← List.count_append, List.take_append_drop]
  have size : (tries.take forwardRetries).length = forwardRetries := by
    rw [List.length_take]
    omega
  rw [parts, late, Nat.add_zero]
  constructor
  · intro all waited
    have full : (tries.take forwardRetries).count .failed = (tries.take forwardRetries).length := by
      have most := List.count_le_length (a := TryEnd.failed) (l := tries.take forwardRetries)
      omega
    have same := List.count_eq_length.mp full _ waited
    cases same
  · intro never
    have full : (tries.take forwardRetries).count .failed = (tries.take forwardRetries).length := by
      apply List.count_eq_length.mpr
      intro end_ inside
      rcases spare.1 end_ (List.mem_of_mem_take inside) with rfl | rfl
      · exact absurd inside never
      · rfl
    omega

/-- The job is dead for divergence or for failures over the budget if, and only if, no try that failed from the eighth on came
after one of the first seven that only waited. -/
theorem waiting_counted {tables : Tables} (fresh : tables.standing id = [(0, none, none)])
    (reached : Run.Reach (Trying.step id) Run.always ⟨tables, none, []⟩ trying) :
    (trying.tables.dead id ↔ TryEnd.diverged ∈ trying.tries ∨ forwardRetries < trying.tries.count .failed) ↔
      Counted trying.tries := by
  cases Standing.reached fresh reached with
  | waiting _ is spare | running _ _ _ _ is spare =>
    have alive : ¬ trying.tables.dead id := by
      rw [dead_iff, is]
      simp
    exact ⟨fun _ _ => spare.2, fun _ => ⟨fun dead => absurd dead alive, fun dead => absurd dead spare.alive⟩⟩
  | @gone tries _ is split_ spare =>
    have alive : ¬ trying.tables.dead id := by
      rw [dead_iff, is]
      simp
    rw [split_]
    refine ⟨fun _ => spare.counted _ nofun, fun _ => ⟨fun dead => absurd dead alive, fun dead => absurd ?_ spare.alive⟩⟩
    simpa using dead
  | @dead tries end_ _ _ _ is split_ spare why =>
    have dead : trying.tables.dead id := by
      rw [dead_iff, is]
      simp
    rw [split_]
    rcases why with rfl | ⟨rfl, enough⟩
    · exact ⟨fun _ => spare.counted _ nofun, fun _ => ⟨fun _ => .inl (by simp), fun _ => dead⟩⟩
    · have more : forwardRetries < (tries ++ [TryEnd.failed]).count .failed ↔ forwardRetries ≤ tries.count .failed := by
        rw [List.count_append, List.count_singleton_self]
        omega
      have never : TryEnd.diverged ∉ tries ++ [TryEnd.failed] := by
        intro inside
        rcases List.mem_append.mp inside with before | last
        · exact spare.alive (.inl before)
        · cases List.mem_singleton.mp last
      have late : TryEnd.failed ∈ (tries ++ [TryEnd.failed]).drop forwardRetries := by
        rw [List.drop_append_of_le_length enough]
        exact List.mem_append_right _ (List.mem_singleton_self _)
      have early : (tries ++ [TryEnd.failed]).take forwardRetries = tries.take forwardRetries := List.take_append_of_le_length enough
      unfold Counted
      rw [early, more, spare.failed_iff enough]
      constructor
      · intro exactly waited
        rcases exactly.mp dead with diverged | few
        · exact absurd diverged never
        · exact absurd waited few
      · intro condition
        exact ⟨fun _ => .inr fun waited => condition waited late, fun _ => dead⟩

def forwarded : Tables :=
  ⟨[⟨"job_1", forwardWork ⟨"order", "o"⟩ [mailEvent] 1, 0, 0, 0, none, none, none, none, none, none⟩], [], []⟩

/-- One try, the `number`th. -/
def oneTry (number : Nat) (end_ : TryEnd) : List TryStep :=
  [.claim mailDrain (10000 * number) [] "lease" (toString number), .finish mailDrain (10000 * number) 0 "" (fun wait => wait) end_]

def waitedThenFailed : List TryStep := (List.range 7).flatMap (oneTry · .behind) ++ oneTry 7 .failed

/-- One failure kills the job. -/
theorem waiting_kills : ¬ ∀ trying, Run.Reach (Trying.step "job_1") Run.always ⟨forwarded, none, []⟩ trying →
    (trying.tables.dead "job_1" ↔ TryEnd.diverged ∈ trying.tries ∨ forwardRetries < trying.tries.count .failed) := by
  intro never
  obtain ⟨trying, ran, dead, tries⟩ : ∃ trying, Run.run (Trying.step "job_1") ⟨forwarded, none, []⟩ waitedThenFailed = some trying ∧
      trying.tables.standing "job_1" = [(8, some 70000, none)] ∧
        trying.tries = [.behind, .behind, .behind, .behind, .behind, .behind, .behind, .failed] := ⟨_, rfl, by decide +kernel⟩
  have one := (never trying (.of_run ran)).mp (by rw [dead_iff, dead]; simp)
  rw [tries] at one
  revert one
  decide

def waitedThenDiverged : List TryStep := (List.range 7).flatMap (oneTry · .behind) ++ oneTry 7 .diverged

theorem waiting_counted_diverged : ∃ trying, Run.run (Trying.step "job_1") ⟨forwarded, none, []⟩ waitedThenDiverged = some trying ∧
    trying.tables.dead "job_1" := by
  obtain ⟨trying, ran, tries⟩ : ∃ trying, Run.run (Trying.step "job_1") ⟨forwarded, none, []⟩ waitedThenDiverged = some trying ∧
      trying.tries = [.behind, .behind, .behind, .behind, .behind, .behind, .behind, .diverged] := ⟨_, rfl, by decide +kernel⟩
  have counts := waiting_counted (by decide) (.of_run ran)
  rw [tries] at counts
  exact ⟨trying, ran, (counts.mpr (by unfold Counted; decide)).mpr (by decide)⟩

end Arki.Journal
