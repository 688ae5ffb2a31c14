import Arki.Library.Run
import Arki.Payments.Webhooks

/-! Attempts at one event, over the runs where errors are recorded in turn: no two within the lease run at once. -/

set_option autoImplicit false

namespace Arki.Payments.Webhooks

open Arki.Run

variable {config : WebhookHandlerConfig} {world next : World} {inTurn : Prop}

/-! ### What a step does -/

def World.isProcessed (world : World) : Bool := world.row.any (·.processed)

def Stands (config : WebhookHandlerConfig) (world : World) : CallerPhase → Prop
  | .seen processed attempts => (processed = true → world.isProcessed = true) ∧ attempts ≤ world.attempts.length
  | .reclaiming seenAttempts leaseCutoff =>
    seenAttempts < config.maxRetries ∧ leaseCutoff + config.processingLeaseMs ≤ world.clock
  | .givingUp => config.maxRetries ≤ world.attempts.length
  | .answered .processed | .answered .duplicate => world.isProcessed = true
  | _ => True

structure Later (world next : World) : Prop where
  clock : world.clock ≤ next.clock
  marked : world.isProcessed = true → next.isProcessed = true
  attempts : world.attempts.length ≤ next.attempts.length

theorem Stands.mono (later : Later world next) {phase : CallerPhase} (stands : Stands config world phase) :
    Stands config next phase := by
  cases phase with
  | seen processed attempts => exact ⟨fun is => later.marked (stands.1 is), Nat.le_trans stands.2 later.attempts⟩
  | reclaiming seenAttempts leaseCutoff => exact ⟨stands.1, Int.le_trans stands.2 later.clock⟩
  | givingUp => exact Nat.le_trans stands later.attempts
  | answered answer =>
    cases answer with
    | processed => exact later.marked stands
    | duplicate => exact later.marked stands
    | _ => trivial
  | _ => trivial

def AttemptPhase.isPastHandler (phase : AttemptPhase) : Bool := phase ∈ [AttemptPhase.handled, .marked, .done]

def AttemptPhase.isPastMark (phase : AttemptPhase) : Bool := phase ∈ [AttemptPhase.marked, .done]

structure Attempted (world next : World) (number : Nat) (old new : Attempt) (row row_ : WebhookEvent) : Prop where
  was : world.attempts[number]? = some old
  attempts : next.attempts = world.attempts.set number new
  callers : next.callers = world.callers
  clock : next.clock = world.clock
  hasRow : world.row = some row
  wrote : next.row = some row_
  began : new.began = old.began
  first : new.first = old.first
  runs : old.isRunning = true
  completed : old.completed = true → new.completed = true
  pastHandler : new.phase.isPastHandler = true → new.completed = true
  pastMark : new.phase.isPastMark = true → row_.processed = true
  sameAttempts : row_.attempts = row.attempts
  sameTime : row_.lastAttemptAt = row.lastAttemptAt
  keepsMark : row.processed = true → row_.processed = true
  marks : row_.processed = true → row.processed = true ∨ new.completed = true
  records : row_.errorMessage = row.errorMessage ∨ new.phase = .failed

/-- The effects of a step; `inTurn` is what the step's state says of an error that it records. -/
inductive Effect (config : WebhookHandlerConfig) (world : World) (inTurn : Prop) (next : World) : Prop where
  | wait (clock : world.clock ≤ next.clock) (row : next.row = world.row) (attempts : next.attempts = world.attempts)
      (callers : ∀ caller ∈ next.callers, caller ∈ world.callers ∨ Stands config next caller.phase)
  | first (began : Int) (noRow : world.row = none) (clock : next.clock = world.clock)
      (row : next.row = some (claimWebhookEvent began))
      (attempts : next.attempts = world.attempts ++ [⟨began, true, false, .handling⟩])
      (callers : ∀ caller ∈ next.callers, caller ∈ world.callers ∨ Stands config next caller.phase)
  | again (row taken : WebhookEvent) (seenAttempts : Nat) (leaseCutoff attemptAt : Int) (hasRow : world.row = some row)
      (bounded : seenAttempts < config.maxRetries) (cutoff : leaseCutoff + config.processingLeaseMs ≤ world.clock)
      (reclaimed : reclaimWebhookEvent row seenAttempts leaseCutoff attemptAt = some taken) (clock : next.clock = world.clock)
      (wrote : next.row = some taken) (attempts : next.attempts = world.attempts ++ [⟨attemptAt, false, false, .handling⟩])
      (callers : ∀ caller ∈ next.callers, caller ∈ world.callers ∨ Stands config next caller.phase)
  | giveUp (row : WebhookEvent) (message : String) (hasRow : world.row = some row)
      (exhausted : config.maxRetries ≤ world.attempts.length) (clock : next.clock = world.clock)
      (wrote : next.row = some { row with errorMessage := some message }) (attempts : next.attempts = world.attempts)
      (callers : ∀ caller ∈ next.callers, caller ∈ world.callers ∨ Stands config next caller.phase)
  | attempt (number : Nat) (old new : Attempt) (row row_ : WebhookEvent) (attempted : Attempted world next number old new row row_)
      (ordered : inTurn → row_.errorMessage = row.errorMessage ∨ recordsInTurn config world (.recordError number) = true)

/-! ### What every run keeps -/

structure Tracked (config : WebhookHandlerConfig) (world : World) : Prop where
  empty : world.row = none → world.attempts = []
  counted : ∀ row, world.row = some row → world.attempts.length = row.attempts ∧
    ∃ latest, world.attempts.getLast? = some latest ∧ row.lastAttemptAt = some latest.began
  firsts : ∀ number attempt, world.attempts[number]? = some attempt → (attempt.first = true ↔ number = 0)
  marked : world.isProcessed = true → ∃ attempt ∈ world.attempts, attempt.completed = true
  pastHandler : ∀ attempt ∈ world.attempts, attempt.phase.isPastHandler = true → attempt.completed = true
  pastMark : ∀ attempt ∈ world.attempts, attempt.phase.isPastMark = true → world.isProcessed = true
  callers : ∀ caller ∈ world.callers, Stands config world caller.phase
  limit : 0 < config.maxRetries → world.attempts.length ≤ config.maxRetries

theorem Tracked.start (clock : Int) : Tracked config (start clock) where
  empty _ := rfl
  counted _ is := by cases is
  firsts number attempt is := by simp [Webhooks.start] at is
  marked is := by cases is
  pastHandler _ inside := by cases inside
  pastMark _ inside := by cases inside
  callers _ inside := by cases inside
  limit _ := Nat.zero_le _

variable {number caller : Nat} {row : WebhookEvent} {old new : Attempt}

theorem Tracked.hasRow (tracked : Tracked config world) {attempt : Attempt}
    (is : world.attempts[number]? = some attempt) : ∃ row, world.row = some row := by
  cases found : world.row with
  | none =>
    rw [tracked.empty found] at is
    cases is
  | some row => exact ⟨row, rfl⟩

theorem World.isProcessed_of (hasRow : world.row = some row) : world.isProcessed = row.processed := by
  simp [World.isProcessed, hasRow]

theorem getElem_mem {attempts : List Attempt} {attempt : Attempt} (is : attempts[number]? = some attempt) :
    attempt ∈ attempts := List.mem_of_getElem? is

theorem wait_effect {kind : CallerKind} {phase : CallerPhase}
    (stands : Stands config (world.setCaller caller kind phase) phase) : Effect config world inTurn (world.setCaller caller kind phase) := by
  refine .wait (Int.le_refl _) rfl rfl fun found member => ?_
  rcases List.mem_or_eq_of_mem_set member with isOld | rfl
  · exact .inl isOld
  · exact .inr stands

theorem decideSeen_stands {kind : CallerKind} {processed : Bool} {attempts : Nat}
    (seen : Stands config world (.seen processed attempts)) :
    Stands config world (decideSeen config world.clock kind processed attempts) := by
  have cutoff : world.clock - config.processingLeaseMs + config.processingLeaseMs ≤ world.clock := by omega
  cases kind with
  | delivery =>
    unfold decideSeen
    dsimp only
    split
    · next isProcessed => exact seen.1 isProcessed
    split
    · trivial
    · next fewer => exact ⟨by omega, cutoff⟩
  | sweep =>
    unfold decideSeen
    dsimp only
    split
    · next fewer => exact ⟨fewer, cutoff⟩
    · next exhausted => exact Nat.le_trans (Nat.le_of_not_lt exhausted) seen.2

theorem begin_callers {kind : CallerKind} {began : Int} {first : Bool} :
    ∀ found ∈ (world.begin_ config caller kind row began first).callers,
      found ∈ world.callers ∨ Stands config (world.begin_ config caller kind row began first) found.phase := by
  intro found member
  rcases List.mem_or_eq_of_mem_set member with isOld | rfl
  · exact .inl isOld
  · refine .inr ?_
    dsimp only
    split <;> trivial

theorem quiet_effect (tracked : Tracked config world)
    (was : world.attempts[number]? = some old) (began : new.began = old.began) (first : new.first = old.first)
    (runs : old.isRunning = true) (completed : old.completed = true → new.completed = true)
    (pastHandler : new.phase.isPastHandler = true → new.completed = true)
    (pastMark : new.phase.isPastMark = true → old.phase.isPastMark = true) :
    Effect config world inTurn (world.setAttempt number new) := by
  obtain ⟨row, hasRow⟩ := tracked.hasRow was
  refine .attempt number old new row row ⟨was, rfl, rfl, rfl, hasRow, hasRow, began, first, runs, completed, pastHandler,
    fun is => ?_, rfl, rfl, id, .inl, .inl rfl⟩ fun _ => .inl rfl
  rw [← World.isProcessed_of hasRow]
  exact tracked.pastMark old (getElem_mem was) (pastMark is)

section

-- The lemmas below unfold these at the same time: their equations are made once, here.
attribute [local simp] step

end

theorem handle_effect (tracked : Tracked config world) {outcome : Option String}
    (taken : step config world (.handle number outcome) = some next) : Effect config world inTurn next := by
  cases was : world.attempts[number]? with
  | none => simp [step, was] at taken
  | some attempt =>
    simp only [step, was] at taken
    split at taken
    · next isHandling =>
      have runs : attempt.isRunning = true := by simp [Attempt.isRunning, isHandling]
      cases outcome with
      | none =>
        cases taken
        exact quiet_effect tracked was rfl rfl runs (fun _ => rfl) (fun _ => rfl) fun is => by cases is
      | some errorMessage =>
        cases taken
        exact quiet_effect tracked was rfl rfl runs id (fun is => by cases is) fun is => by cases is
    · cases taken

theorem mark_effect (tracked : Tracked config world) (taken : step config world (.mark number) = some next) :
    Effect config world inTurn next := by
  cases was : world.attempts[number]? with
  | none => simp [step, was] at taken
  | some attempt =>
    obtain ⟨row, hasRow⟩ := tracked.hasRow was
    simp only [step, was, hasRow] at taken
    split at taken
    · next isHandled =>
      cases taken
      have completed := tracked.pastHandler attempt (getElem_mem was) (by rw [isHandled]; rfl)
      exact .attempt number attempt { attempt with phase := .marked } row { row with processed := true }
        ⟨was, rfl, rfl, rfl, hasRow, rfl, rfl, rfl, by simp [Attempt.isRunning, isHandled], id, fun _ => completed, fun _ => rfl,
          rfl, rfl, fun _ => rfl, fun _ => .inr completed, .inl rfl⟩ fun _ => .inl rfl
    · cases taken

theorem markThrows_effect (tracked : Tracked config world) {committed : Bool} {errorMessage : String}
    (taken : step config world (.markThrows number committed errorMessage) = some next) : Effect config world inTurn next := by
  cases was : world.attempts[number]? with
  | none => simp [step, was] at taken
  | some attempt =>
    obtain ⟨row, hasRow⟩ := tracked.hasRow was
    simp only [step, was, hasRow] at taken
    split at taken
    · next isHandled =>
      cases taken
      have completed := tracked.pastHandler attempt (getElem_mem was) (by rw [isHandled]; rfl)
      exact .attempt number attempt { attempt with phase := .failing errorMessage } row
        { row with processed := row.processed || committed }
        ⟨was, rfl, rfl, rfl, hasRow, rfl, rfl, rfl, by simp [Attempt.isRunning, isHandled], id, (fun is => by cases is),
          (fun is => by cases is), rfl, rfl, (fun is => by simp [is]), fun _ => .inr completed, .inl rfl⟩ fun _ => .inl rfl
    · cases taken

theorem after_mark_effect (tracked : Tracked config world) {phase : AttemptPhase}
    (taken : (match world.attempts[number]? with
      | some attempt => if attempt.phase = .marked then some (world.setAttempt number { attempt with phase := phase }) else none
      | none => none) = some next) : Effect config world inTurn next := by
  cases was : world.attempts[number]? with
  | none => simp [was] at taken
  | some attempt =>
    simp only [was] at taken
    split at taken
    · next isMarked =>
      cases taken
      refine quiet_effect tracked was rfl rfl (by simp [Attempt.isRunning, isMarked]) id (fun _ => ?_) fun _ => ?_
      · exact tracked.pastHandler attempt (getElem_mem was) (by rw [isMarked]; rfl)
      · rw [isMarked]
        rfl
    · cases taken

theorem recordError_effect (taken : step config world (.recordError number) = some next) :
    Effect config world (recordsInTurn config world (.recordError number) = true) next := by
  simp only [step] at taken
  split at taken
  · next began first completed errorMessage row was hasRow =>
    cases taken
    exact .attempt number ⟨began, first, completed, .failing errorMessage⟩ ⟨began, first, completed, .failed⟩ row
      { row with errorMessage := some errorMessage }
      ⟨was, rfl, rfl, rfl, hasRow, rfl, rfl, rfl, rfl, id, (fun is => by cases is), (fun is => by cases is), rfl, rfl, id, .inl,
        .inr rfl⟩ .inr
  · cases taken

theorem crash_effect (tracked : Tracked config world) (taken : step config world (.crash number) = some next) :
    Effect config world inTurn next := by
  cases was : world.attempts[number]? with
  | none => simp [step, was] at taken
  | some attempt =>
    simp only [step, was] at taken
    split at taken
    · next runs =>
      cases taken
      exact quiet_effect tracked was rfl rfl runs id (fun is => by cases is) fun is => by cases is
    · cases taken

theorem claim_effect {lastAttemptAt : Int} (taken : step config world (.claim caller lastAttemptAt) = some next)
    (tracked : Tracked config world) : Effect config world inTurn next := by
  simp only [step] at taken
  split at taken
  · split at taken
    · cases taken
    split at taken
    · next noRow =>
      cases taken
      exact .first lastAttemptAt noRow rfl rfl (by rw [World.begin_, tracked.empty noRow]) begin_callers
    · cases taken
      exact wait_effect trivial
  · cases taken

theorem reclaim_effect (tracked : Tracked config world) {attemptAt : Int}
    (taken : step config world (.reclaim caller attemptAt) = some next) : Effect config world inTurn next := by
  simp only [step] at taken
  split at taken
  · next kind seenAttempts leaseCutoff row isCaller hasRow =>
    have stands := tracked.callers _ (List.mem_of_getElem? isCaller)
    split at taken
    · cases taken
    split at taken
    · next reclaimed row_ won =>
      cases taken
      exact .again row row_ seenAttempts leaseCutoff attemptAt hasRow stands.1 stands.2 won rfl rfl rfl begin_callers
    · cases taken
      refine wait_effect ?_
      split <;> trivial
  · cases taken

theorem answer_effect (tracked : Tracked config world) (taken : step config world (.answer caller) = some next) :
    Effect config world inTurn next := by
  simp only [step] at taken
  split at taken
  · next kind number isCaller =>
    obtain ⟨answer, found, rfl⟩ := Option.map_eq_some_iff.mp taken
    obtain ⟨attempt, was, answered⟩ := Option.bind_eq_some_iff.mp found
    refine wait_effect ?_
    split
    · unfold answerOf at answered
      split at answered
      · next isDone =>
        cases answered
        exact tracked.pastMark attempt (getElem_mem was) (by rw [isDone]; rfl)
      · cases answered
        trivial
      · cases answered
        trivial
      · cases answered
    · trivial
  · cases taken

theorem step_effect (tracked : Tracked config world) {action : Action} (taken : step config world action = some next) :
    Effect config world (recordsInTurn config world action = true) next := by
  cases action with
  | tick milliseconds =>
    cases taken
    exact .wait (by dsimp only; omega) rfl rfl fun _ => .inl
  | deliver =>
    cases taken
    refine .wait (Int.le_refl _) rfl rfl fun found member => ?_
    rcases List.mem_append.mp member with isOld | isLast
    · exact .inl isOld
    · cases List.mem_singleton.mp isLast
      exact .inr trivial
  | list =>
    simp only [step] at taken
    split at taken
    · next row hasRow =>
      split at taken
      · cases taken
      cases taken
      refine .wait (Int.le_refl _) rfl rfl fun found member => ?_
      rcases List.mem_append.mp member with isOld | isLast
      · exact .inl isOld
      · cases List.mem_singleton.mp isLast
        exact .inr ⟨(fun is => by cases is), Nat.le_of_eq (tracked.counted row hasRow).1.symm⟩
    · cases taken
  | claim => exact claim_effect taken tracked
  | read caller =>
    simp only [step] at taken
    split at taken
    · next kind row isCaller hasRow =>
      cases taken
      refine wait_effect ⟨fun is => ?_, Nat.le_of_eq (tracked.counted row hasRow).1.symm⟩
      exact (World.isProcessed_of hasRow).trans is
    · cases taken
  | decide_ caller =>
    simp only [step] at taken
    split at taken
    · next kind processed attempts isCaller =>
      cases taken
      exact wait_effect (decideSeen_stands (tracked.callers _ (List.mem_of_getElem? isCaller)))
    · cases taken
  | reclaim => exact reclaim_effect tracked taken
  | giveUp caller =>
    simp only [step] at taken
    split at taken
    · next kind row isCaller hasRow =>
      cases taken
      have exhausted := tracked.callers _ (List.mem_of_getElem? isCaller)
      refine .giveUp row "Max retry attempts exceeded" hasRow exhausted rfl rfl rfl fun found member => ?_
      rcases List.mem_or_eq_of_mem_set member with isOld | rfl
      · exact .inl isOld
      · exact .inr trivial
    · cases taken
  | handle => exact handle_effect tracked taken
  | mark => exact mark_effect tracked taken
  | markThrows => exact markThrows_effect tracked taken
  | emitThrows => exact after_mark_effect tracked taken
  | finish => exact after_mark_effect tracked taken
  | recordError number => exact recordError_effect taken
  | crash => exact crash_effect tracked taken
  | answer => exact answer_effect tracked taken

theorem getLast?_set (attempts : List Attempt) (number : Nat) (new : Attempt) (inside : number < attempts.length) :
    (attempts.set number new).getLast? = if number + 1 = attempts.length then some new else attempts.getLast? := by
  rw [List.getLast?_eq_getElem?, List.getLast?_eq_getElem?, List.length_set, List.getElem?_set]
  by_cases last : number + 1 = attempts.length
  · rw [if_pos last, if_pos (by omega), if_pos inside]
  · rw [if_neg last, if_neg (by omega)]

theorem Attempted.inside {row_ : WebhookEvent}
    (attempted : Attempted world next number old new row row_) : number < world.attempts.length :=
  (List.getElem?_eq_some_iff.mp attempted.was).1

theorem Attempted.each {row_ : WebhookEvent}
    (attempted : Attempted world next number old new row row_) {index : Nat} {found : Attempt}
    (is : next.attempts[index]? = some found) : index = number ∧ found = new ∨ world.attempts[index]? = some found := by
  rw [attempted.attempts, List.getElem?_set] at is
  split at is
  · next same =>
    rw [if_pos attempted.inside] at is
    exact .inl ⟨same.symm, (Option.some.inj is).symm⟩
  · exact .inr is

theorem reclaim_won {taken : WebhookEvent} {seenAttempts : Nat} {leaseCutoff attemptAt : Int}
    (reclaimed : reclaimWebhookEvent row seenAttempts leaseCutoff attemptAt = some taken) :
    row.processed = false ∧ row.attempts = seenAttempts ∧
      (row.errorMessage.isSome = true ∨ ∀ began, row.lastAttemptAt = some began → began < leaseCutoff) ∧
        taken = { row with attempts := row.attempts + 1, lastAttemptAt := some attemptAt, errorMessage := none } := by
  unfold reclaimWebhookEvent at reclaimed
  split at reclaimed
  · next free =>
    cases reclaimed
    simp only [Bool.and_eq_true, Bool.not_eq_true', beq_iff_eq, Bool.or_eq_true, Option.all_eq_true, decide_eq_true_eq] at free
    exact ⟨free.1.1, free.1.2, free.2, rfl⟩
  · cases reclaimed

theorem Effect.later (effect : Effect config world inTurn next) : Later world next := by
  cases effect with
  | wait clock row attempts callers => exact ⟨clock, fun is => by rwa [World.isProcessed, row], Nat.le_of_eq (by rw [attempts])⟩
  | first began noRow clock row attempts callers =>
    exact ⟨Int.le_of_eq clock.symm, fun is => by simp [World.isProcessed, noRow] at is, by rw [attempts]; simp⟩
  | again row taken seenAttempts leaseCutoff attemptAt hasRow bounded cutoff reclaimed clock wrote attempts callers =>
    refine ⟨Int.le_of_eq clock.symm, fun is => ?_, by rw [attempts]; simp⟩
    rw [World.isProcessed_of hasRow, (reclaim_won reclaimed).1] at is
    cases is
  | giveUp row message hasRow exhausted clock wrote attempts callers =>
    refine ⟨Int.le_of_eq clock.symm, fun is => ?_, Nat.le_of_eq (by rw [attempts])⟩
    rw [World.isProcessed_of hasRow] at is
    exact (World.isProcessed_of wrote).trans is
  | attempt number old new row row_ attempted ordered =>
    refine ⟨Int.le_of_eq attempted.clock.symm, fun is => ?_, Nat.le_of_eq (by rw [attempted.attempts, List.length_set])⟩
    rw [World.isProcessed_of attempted.hasRow] at is
    exact (World.isProcessed_of attempted.wrote).trans (attempted.keepsMark is)

theorem Tracked.stands (tracked : Tracked config world) (later : Later world next)
    (callers : ∀ caller ∈ next.callers, caller ∈ world.callers ∨ Stands config next caller.phase) :
    ∀ caller ∈ next.callers, Stands config next caller.phase := by
  intro caller member
  rcases callers caller member with isOld | stands
  · exact (tracked.callers caller isOld).mono later
  · exact stands

theorem Tracked.append (tracked : Tracked config world) (later : Later world next)
    (attempts : next.attempts = world.attempts ++ [new]) (wrote : next.row = some row)
    (counted : row.attempts = world.attempts.length + 1) (time : row.lastAttemptAt = some new.began)
    (isFirst : new.first = true ↔ world.attempts = []) (handling : new.phase = .handling) (unmarked : row.processed = false)
    (limit : 0 < config.maxRetries → world.attempts.length < config.maxRetries)
    (callers : ∀ caller ∈ next.callers, caller ∈ world.callers ∨ Stands config next caller.phase) : Tracked config next := by
  have each {holds : Attempt → Prop} (was : ∀ attempt ∈ world.attempts, holds attempt) (is : holds new) :
      ∀ attempt ∈ next.attempts, holds attempt := by
    rw [attempts]
    intro attempt member
    rcases List.mem_append.mp member with isOld | isLast
    · exact was attempt isOld
    · exact List.mem_singleton.mp isLast ▸ is
  exact {
    empty := fun noRow => by
      rw [wrote] at noRow
      cases noRow
    counted := fun found is => by
      rw [wrote] at is
      cases is
      rw [attempts, List.length_append, List.getLast?_concat]
      exact ⟨counted.symm, new, rfl, time⟩
    firsts := fun number attempt is => by
      rw [attempts, List.getElem?_append] at is
      split at is
      · exact tracked.firsts number attempt is
      · next outside =>
        obtain ⟨at_, rfl⟩ := List.getElem?_eq_some_iff.mp is
        have last : number = world.attempts.length := by
          simp only [List.length_cons, List.length_nil] at at_
          omega
        subst last
        simp only [Nat.sub_self, List.getElem_cons_zero, isFirst, List.length_eq_zero_iff]
    marked := fun is => by
      rw [World.isProcessed_of wrote, unmarked] at is
      cases is
    pastHandler := each tracked.pastHandler fun is => by
      rw [handling] at is
      cases is
    pastMark := each (fun attempt member is => later.marked (tracked.pastMark attempt member is)) fun is => by
      rw [handling] at is
      cases is
    callers := tracked.stands later callers
    limit := fun positive => by
      rw [attempts, List.length_append]
      exact limit positive }

theorem Tracked.attempted (tracked : Tracked config world) (later : Later world next)
    {row_ : WebhookEvent} (attempted : Attempted world next number old new row row_) : Tracked config next := by
  have inside := attempted.inside
  have each {holds : Attempt → Prop} (was : ∀ attempt ∈ world.attempts, holds attempt) (is : holds new) :
      ∀ attempt ∈ next.attempts, holds attempt := by
    rw [attempted.attempts]
    intro attempt member
    rcases List.mem_or_eq_of_mem_set member with isOld | rfl
    · exact was attempt isOld
    · exact is
  obtain ⟨length, latest, isLatest, time⟩ := tracked.counted row attempted.hasRow
  exact {
    empty := fun noRow => by
      rw [attempted.wrote] at noRow
      cases noRow
    counted := fun found is => by
      rw [attempted.wrote] at is
      cases is
      rw [attempted.attempts, List.length_set, attempted.sameAttempts, attempted.sameTime, getLast?_set _ _ _ inside]
      refine ⟨length, ?_⟩
      split
      · next last =>
        -- the latest attempt is the one that moved
        have same : world.attempts.getLast? = some old := by
          rw [List.getLast?_eq_getElem?, ← attempted.was]
          congr 1
          omega
        rw [isLatest] at same
        cases same
        exact ⟨new, rfl, attempted.began ▸ time⟩
      · exact ⟨latest, isLatest, time⟩
    firsts := fun index found is => by
      rcases attempted.each is with ⟨rfl, rfl⟩ | was
      · rw [attempted.first]
        exact tracked.firsts index old attempted.was
      · exact tracked.firsts index found was
    marked := fun is => by
      rw [World.isProcessed_of attempted.wrote] at is
      have moved : new ∈ next.attempts := by
        rw [attempted.attempts]
        exact List.mem_set inside new
      rcases attempted.marks is with was | completed
      · obtain ⟨attempt, member, completed⟩ := tracked.marked ((World.isProcessed_of attempted.hasRow).trans was)
        obtain ⟨index, at_⟩ := List.mem_iff_getElem?.mp member
        by_cases here : index = number
        · subst here
          rw [attempted.was] at at_
          cases at_
          exact ⟨new, moved, attempted.completed completed⟩
        · refine ⟨attempt, List.mem_of_getElem? (i := index) ?_, completed⟩
          rw [attempted.attempts, List.getElem?_set, if_neg (Ne.symm here)]
          exact at_
      · exact ⟨new, moved, completed⟩
    pastHandler := each tracked.pastHandler attempted.pastHandler
    pastMark := each (fun attempt member is => later.marked (tracked.pastMark attempt member is)) fun is =>
      (World.isProcessed_of attempted.wrote).trans (attempted.pastMark is)
    callers := tracked.stands later (attempted.callers ▸ fun _ => .inl)
    limit := by
      rw [attempted.attempts, List.length_set]
      exact tracked.limit }

theorem Effect.tracked (effect : Effect config world inTurn next) (tracked : Tracked config world) : Tracked config next := by
  have later := effect.later
  cases effect with
  | wait clock row attempts callers =>
    have same : next.isProcessed = world.isProcessed := by rw [World.isProcessed, row]; rfl
    exact {
      empty := by rw [row, attempts]; exact tracked.empty
      counted := by rw [row, attempts]; exact tracked.counted
      firsts := by rw [attempts]; exact tracked.firsts
      marked := by rw [same, attempts]; exact tracked.marked
      pastHandler := by rw [attempts]; exact tracked.pastHandler
      pastMark := by rw [same, attempts]; exact tracked.pastMark
      callers := tracked.stands later callers
      limit := by rw [attempts]; exact tracked.limit }
  | first began noRow clock row attempts callers =>
    have none_ := tracked.empty noRow
    refine tracked.append later attempts row ?_ rfl ?_ rfl rfl (fun positive => ?_) callers
    · rw [none_]
      rfl
    · simp [none_]
    · rw [none_]
      exact positive
  | again row taken seenAttempts leaseCutoff attemptAt hasRow bounded cutoff reclaimed clock wrote attempts callers =>
    obtain ⟨unmarked, same, -, rfl⟩ := reclaim_won reclaimed
    obtain ⟨length, latest, isLatest, -⟩ := tracked.counted row hasRow
    refine tracked.append later attempts wrote ?_ rfl ?_ rfl unmarked (fun _ => ?_) callers
    · show row.attempts + 1 = world.attempts.length + 1
      rw [length]
    · constructor
      · intro is
        cases is
      · intro none_
        rw [none_] at isLatest
        cases isLatest
    · rw [length, same]
      exact bounded
  | giveUp row message hasRow exhausted clock wrote attempts callers =>
    have same : next.isProcessed = world.isProcessed := by
      rw [World.isProcessed_of hasRow, World.isProcessed_of wrote]
    exact {
      empty := fun noRow => by
        rw [wrote] at noRow
        cases noRow
      counted := fun found is => by
        rw [wrote] at is
        cases is
        rw [attempts]
        exact tracked.counted row hasRow
      firsts := by rw [attempts]; exact tracked.firsts
      marked := by rw [same, attempts]; exact tracked.marked
      pastHandler := by rw [attempts]; exact tracked.pastHandler
      pastMark := by rw [same, attempts]; exact tracked.pastMark
      callers := tracked.stands later callers
      limit := by rw [attempts]; exact tracked.limit }
  | attempt number old new row row_ attempted ordered => exact tracked.attempted later attempted

/-! ### Attempts within the lease -/

/-- Superseded attempts that still run are past the lease, and an error on the row is the latest attempt's or changes nothing. -/
structure Fenced (config : WebhookHandlerConfig) (world : World) : Prop where
  older : ∀ number attempt, world.attempts[number]? = some attempt → number + 1 < world.attempts.length →
    attempt.isRunning = true → attempt.began < world.clock - config.processingLeaseMs
  errors : ∀ row, world.row = some row → row.errorMessage.isSome = true →
    world.latestFailed = true ∨ row.processed = true ∨ config.maxRetries ≤ world.attempts.length

theorem Fenced.start (clock : Int) : Fenced config (start clock) where
  older number attempt is := by simp [Webhooks.start] at is
  errors _ is := by cases is

theorem latestFailed_iff {latest : Attempt} (isLatest : world.attempts.getLast? = some latest) :
    world.latestFailed = true ↔ latest.phase = .failed := by
  simp [World.latestFailed, isLatest]

theorem Fenced.takeover (tracked : Tracked config world) (fenced : Fenced config world) {taken : WebhookEvent}
    {seenAttempts : Nat} {leaseCutoff attemptAt : Int} (hasRow : world.row = some row)
    (bounded : seenAttempts < config.maxRetries) (cutoff : leaseCutoff + config.processingLeaseMs ≤ world.clock)
    (reclaimed : reclaimWebhookEvent row seenAttempts leaseCutoff attemptAt = some taken) {latest : Attempt}
    (isLatest : world.attempts.getLast? = some latest) :
    latest.phase = .failed ∨ latest.began < world.clock - config.processingLeaseMs := by
  obtain ⟨unmarked, same, free, -⟩ := reclaim_won reclaimed
  obtain ⟨length, found, isFound, time⟩ := tracked.counted row hasRow
  rw [isLatest] at isFound
  cases isFound
  rcases free with error | old
  · rcases fenced.errors row hasRow error with failed | marked | exhausted
    · exact .inl ((latestFailed_iff isLatest).mp failed)
    · rw [unmarked] at marked
      cases marked
    · omega
  · have before := old latest.began time
    exact .inr (by omega)

theorem Effect.fenced (effect : Effect config world inTurn next) (tracked : Tracked config world) (fenced : Fenced config world)
    (isInTurn : inTurn) : Fenced config next := by
  cases effect with
  | wait clock row attempts callers =>
    refine ⟨fun number attempt is inside runs => ?_, ?_⟩
    · rw [attempts] at is inside
      have before := fenced.older number attempt is inside runs
      omega
    · rw [row, World.latestFailed, attempts]
      exact fenced.errors
  | first began noRow clock row attempts callers =>
    refine ⟨fun number attempt is inside => ?_, fun found is error => ?_⟩
    · rw [attempts, tracked.empty noRow] at inside
      simp only [List.nil_append, List.length_singleton] at inside
      omega
    · rw [row] at is
      cases is
      cases error
  | again row taken seenAttempts leaseCutoff attemptAt hasRow bounded cutoff reclaimed clock wrote attempts callers =>
    refine ⟨fun number attempt is inside runs => ?_, fun found is error => ?_⟩
    · rw [attempts, List.length_append, List.length_singleton] at inside
      rw [attempts, List.getElem?_append, if_pos (by omega)] at is
      rw [clock]
      by_cases last : number + 1 = world.attempts.length
      · have isLatest : world.attempts.getLast? = some attempt := by
          rw [List.getLast?_eq_getElem?, ← is]
          congr 1
          omega
        rcases fenced.takeover tracked hasRow bounded cutoff reclaimed isLatest with failed | before
        · rw [Attempt.isRunning, failed] at runs
          cases runs
        · exact before
      · exact fenced.older number attempt is (by omega) runs
    · obtain ⟨-, -, -, rfl⟩ := reclaim_won reclaimed
      rw [wrote] at is
      cases is
      cases error
  | giveUp row message hasRow exhausted clock wrote attempts callers =>
    refine ⟨?_, fun found is error => .inr (.inr ?_)⟩
    · rw [attempts, clock]
      exact fenced.older
    · rw [attempts]
      exact exhausted
  | attempt number old new row row_ attempted ordered =>
    have inside := attempted.inside
    have length : next.attempts.length = world.attempts.length := by rw [attempted.attempts, List.length_set]
    obtain ⟨-, latest, isLatest, -⟩ := tracked.counted row attempted.hasRow
    have keeps : world.latestFailed = true → next.latestFailed = true := by
      intro failed
      rw [latestFailed_iff isLatest] at failed
      have same : next.attempts.getLast? = some latest := by
        rw [attempted.attempts, getLast?_set _ _ _ inside, if_neg, isLatest]
        intro last
        -- a failed attempt moves no more
        have is : world.attempts.getLast? = some old := by
          rw [List.getLast?_eq_getElem?, ← attempted.was]
          congr 1
          omega
        rw [isLatest] at is
        cases is
        have runs := attempted.runs
        rw [Attempt.isRunning, failed] at runs
        cases runs
      exact (latestFailed_iff same).mpr failed
    refine ⟨fun index found is under runs => ?_, fun found is error => ?_⟩
    · rw [length] at under
      rw [attempted.clock]
      rcases attempted.each is with ⟨rfl, rfl⟩ | was
      · rw [attempted.began]
        exact fenced.older index old attempted.was under attempted.runs
      · exact fenced.older index found was under runs
    · rw [attempted.wrote] at is
      cases is
      rw [length]
      rcases attempted.records with same | failed
      · rw [same] at error
        rcases fenced.errors row attempted.hasRow error with failed | marked | exhausted
        · exact .inl (keeps failed)
        · exact .inr (.inl (attempted.keepsMark marked))
        · exact .inr (.inr exhausted)
      · rcases ordered isInTurn with same | allowed
        · rw [same] at error
          rcases fenced.errors row attempted.hasRow error with failed | marked | exhausted
          · exact .inl (keeps failed)
          · exact .inr (.inl (attempted.keepsMark marked))
          · exact .inr (.inr exhausted)
        · simp only [recordsInTurn, Bool.or_eq_true, beq_iff_eq, decide_eq_true_eq] at allowed
          rcases allowed with ((last | latestFailed) | marked) | exhausted
          · have same : next.attempts.getLast? = some new := by
              rw [attempted.attempts, getLast?_set _ _ _ inside, if_pos last]
            exact .inl ((latestFailed_iff same).mpr failed)
          · exact .inl (keeps latestFailed)
          · exact .inr (.inl (attempted.keepsMark (by simpa [attempted.hasRow] using marked)))
          · exact .inr (.inr exhausted)

/-! ### Runs -/

theorem reached_tracked {clock : Int} (reached : Reach (step config) always (start clock) world) : Tracked config world :=
  reached.invariant (Tracked config) (.start clock) fun _ _ _ tracked _ taken => (step_effect tracked taken).tracked tracked

theorem reached_fenced {clock : Int}
    (reached : Reach (step config) (fun world action => recordsInTurn config world action = true) (start clock) world) :
    Tracked config world ∧ Fenced config world :=
  reached.invariant (fun world => Tracked config world ∧ Fenced config world) ⟨.start clock, .start clock⟩
    fun _ _ _ holds isInTurn taken =>
      have effect := step_effect holds.1 taken
      ⟨effect.tracked holds.1, effect.fenced holds.1 holds.2 isInTurn⟩

theorem Effect.begins (effect : Effect config world inTurn next) (tracked : Tracked config world) (fenced : Fenced config world)
    {latest : Attempt} (isLatest : world.attempts.getLast? = some latest)
    (more : world.attempts.length < next.attempts.length) :
    latest.phase = .failed ∨ latest.began < world.clock - config.processingLeaseMs := by
  cases effect with
  | wait clock row attempts callers =>
    rw [attempts] at more
    exact absurd more (Nat.lt_irrefl _)
  | first began noRow clock row attempts callers =>
    rw [tracked.empty noRow] at isLatest
    cases isLatest
  | again row taken seenAttempts leaseCutoff attemptAt hasRow bounded cutoff reclaimed clock wrote attempts callers =>
    exact fenced.takeover tracked hasRow bounded cutoff reclaimed isLatest
  | giveUp row message hasRow exhausted clock wrote attempts callers =>
    rw [attempts] at more
    exact absurd more (Nat.lt_irrefl _)
  | attempt number old new row row_ attempted ordered =>
    rw [attempted.attempts, List.length_set] at more
    exact absurd more (Nat.lt_irrefl _)

theorem Fenced.one (fenced : Fenced config world) {first second : Nat} {left right : Attempt}
    (isLeft : world.attempts[first]? = some left) (isRight : world.attempts[second]? = some right)
    (leftRuns : left.isRunning = true) (rightRuns : right.isRunning = true)
    (leftWithin : world.clock - config.processingLeaseMs ≤ left.began)
    (rightWithin : world.clock - config.processingLeaseMs ≤ right.began) : first = second := by
  have insideLeft := (List.getElem?_eq_some_iff.mp isLeft).1
  have insideRight := (List.getElem?_eq_some_iff.mp isRight).1
  rcases Nat.lt_trichotomy first second with less | same | more
  · have before := fenced.older first left isLeft (by omega) leftRuns
    omega
  · exact same
  · have before := fenced.older second right isRight (by omega) rightRuns
    omega

theorem filter_first (tracked : Tracked config world) (hasRow : world.row.isSome = true) :
    (world.attempts.filter (·.first)).length = 1 := by
  obtain ⟨row, isRow⟩ := Option.isSome_iff_exists.mp hasRow
  obtain ⟨-, latest, isLatest, -⟩ := tracked.counted row isRow
  cases found : world.attempts with
  | nil =>
    rw [found] at isLatest
    cases isLatest
  | cons head rest =>
    have isFirst : head.first = true := (tracked.firsts 0 head (by rw [found]; rfl)).mpr rfl
    have others : rest.filter (·.first) = [] := by
      refine List.filter_eq_nil_iff.mpr fun attempt member => ?_
      obtain ⟨index, at_⟩ := List.mem_iff_getElem?.mp member
      have first := tracked.firsts (index + 1) attempt (by rw [found]; exact at_)
      intro is
      exact absurd (first.mp is) (Nat.succ_ne_zero index)
    rw [List.filter_cons, if_pos isFirst, others]
    rfl

/-- Where errors are recorded in turn, an attempt begins only after the latest failed or left its lease, and no two within the
lease run at once; in every run one attempt is the first, `processed` and `duplicate` are answered of a marked event only,
and the attempts stay within the maximum. -/
theorem one_attempt_at_a_time (config : WebhookHandlerConfig) (clock : Int) :
    (∀ world, Reach (step config) (fun world action => recordsInTurn config world action = true) (start clock) world →
      (∀ action next, recordsInTurn config world action = true → step config world action = some next →
        ∀ latest, world.attempts.getLast? = some latest → world.attempts.length < next.attempts.length →
          latest.phase = .failed ∨ latest.began < world.clock - config.processingLeaseMs) ∧
      ∀ (first second : Nat) (left right : Attempt), world.attempts[first]? = some left → world.attempts[second]? = some right →
        left.isRunning = true → right.isRunning = true → world.clock - config.processingLeaseMs ≤ left.began →
          world.clock - config.processingLeaseMs ≤ right.began → first = second) ∧
    ∀ world, Reach (step config) always (start clock) world →
      (world.row.isSome = true → (world.attempts.filter (·.first)).length = 1) ∧
      (∀ caller ∈ world.callers, caller.phase = .answered .processed ∨ caller.phase = .answered .duplicate →
        (∃ row, world.row = some row ∧ row.processed = true) ∧ ∃ attempt ∈ world.attempts, attempt.completed = true) ∧
      (0 < config.maxRetries → world.attempts.length ≤ config.maxRetries) := by
  refine ⟨fun world reached => ?_, fun world reached => ?_⟩
  · obtain ⟨tracked, fenced⟩ := reached_fenced reached
    exact ⟨fun action next _ taken latest isLatest more => (step_effect tracked taken).begins tracked fenced isLatest more,
      fun first second left right isLeft isRight => fenced.one isLeft isRight⟩
  · have tracked := reached_tracked reached
    refine ⟨filter_first tracked, fun caller member answered => ?_, tracked.limit⟩
    have stands := tracked.callers caller member
    have marked : world.isProcessed = true := by
      rcases answered with is | is
      · rw [is] at stands
        exact stands
      · rw [is] at stands
        exact stands
    refine ⟨?_, tracked.marked marked⟩
    simpa [World.isProcessed, Option.any_eq_true] using marked

/-! Two deliveries, the first of which fails; and three, the first of which outlives its lease. -/

def fewRetries : WebhookHandlerConfig := ⟨3, 10, false⟩

def resent : List Action :=
  [.deliver, .claim 0 0, .handle 0 (some "timeout"), .recordError 0, .answer 0, .deliver, .claim 1 0, .read 1, .decide_ 1,
    .reclaim 1 0, .handle 1 none, .mark 1, .finish 1, .answer 1]

def outlived : List Action :=
  [.deliver, .claim 0 0, .tick 20, .deliver, .claim 1 20, .read 1, .decide_ 1, .reclaim 1 20, .handle 0 (some "timeout"),
    .recordError 0, .deliver, .claim 2 20, .read 2, .decide_ 2, .reclaim 2 20]

theorem one_attempt_at_a_time_resent :
    ∃ world, Reach (step fewRetries) (fun world action => recordsInTurn fewRetries world action = true) (start 0) world ∧
      world.attempts.length = 2 ∧ world.attempts.length ≤ fewRetries.maxRetries ∧
        (world.attempts.filter (·.first)).length = 1 ∧ (∃ row, world.row = some row ∧ row.processed = true) ∧
        ∀ action next, recordsInTurn fewRetries world action = true → step fewRetries world action = some next →
          ∀ latest, world.attempts.getLast? = some latest → world.attempts.length < next.attempts.length →
            latest.phase = .failed ∨ latest.began < world.clock - fewRetries.processingLeaseMs := by
  have ran : (run (guarded (step fewRetries) fun world action => recordsInTurn fewRetries world action = true) (start 0)
      resent).any (fun world => world.attempts.length = 2 ∧ world.row.isSome = true ∧
        ∃ caller ∈ world.callers, caller.phase = .answered .processed) = true := by
    decide +kernel
  obtain ⟨world, ran, facts⟩ := (Option.any_eq_true _ _).mp ran
  obtain ⟨two, hasRow, caller, member, answered⟩ := of_decide_eq_true facts
  have inTurn := Reach.of_guarded ran
  obtain ⟨within, always_⟩ := one_attempt_at_a_time fewRetries 0
  obtain ⟨first, marked, limit⟩ := always_ world (inTurn.mono fun _ _ _ => trivial)
  exact ⟨world, inTurn, two, limit (by decide), first hasRow, (marked caller member (.inl answered)).1, (within world inTurn).1⟩

/-- The error of the superseded attempt frees the event while its successor runs. -/
theorem two_attempts_within_lease : ¬ ∀ config clock world, Reach (step config) always (start clock) world →
    ∀ (first second : Nat) (left right : Attempt), world.attempts[first]? = some left → world.attempts[second]? = some right →
      left.isRunning = true → right.isRunning = true → world.clock - config.processingLeaseMs ≤ left.began →
        world.clock - config.processingLeaseMs ≤ right.began → first = second := by
  intro alone
  have ran : (run (step fewRetries) (start 0) outlived).any (fun world => world.clock = 20 ∧
      world.attempts[1]? = some ⟨20, false, false, .handling⟩ ∧ world.attempts[2]? = some ⟨20, false, false, .handling⟩) = true := by
    decide +kernel
  obtain ⟨world, ran, facts⟩ := (Option.any_eq_true _ _).mp ran
  obtain ⟨clock, one, two⟩ := of_decide_eq_true facts
  have within : world.clock - fewRetries.processingLeaseMs ≤ 20 := by
    rw [clock]
    decide
  exact absurd (alone fewRetries 0 world (Reach.of_run ran) 1 2 _ _ one two rfl rfl within within) (by decide)

end Arki.Payments.Webhooks
