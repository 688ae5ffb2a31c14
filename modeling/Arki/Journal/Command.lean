import Arki.Journal.Refusals

/-! Commands as they ran: what a handler started, accepted and returned, in the order in which it
came about.

A handler may start an operation and not await it. Its operations are in flight one
at a time, so a step is an operation that settled, with the changes it made inside
its savepoint. `before` came about before the handler settled and `after` between
that and the end of the run, which `running` had not settled by then.
-/

set_option autoImplicit false

namespace Arki.Journal

structure Database (Change : Type) where
  changes : List Change
  savepoints : List (List Change)
  deriving DecidableEq

section Database

variable {Change : Type}

def Database.savepoint (db : Database Change) : Database Change :=
  { db with savepoints := db.changes :: db.savepoints }

def Database.add (db : Database Change) (made : List Change) : Database Change :=
  { db with changes := db.changes ++ made }

def Database.release (db : Database Change) : Database Change := { db with savepoints := db.savepoints.tail }

def Database.rollback (db : Database Change) : Database Change :=
  match db.savepoints with
  | [] => db
  | before :: rest => ⟨before, rest⟩

end Database

inductive Fault where
  | journal (error : JournalError)
  | message (text : String)
  deriving DecidableEq, Repr

inductive Ending where
  | value (value : Value)
  | failure (failure : Failure)
  | threw (fault : Fault)
  deriving DecidableEq

def Ending.succeeded : Ending → Bool
  | .value _ => true
  | _ => false

inductive WriteOutcome where
  | recorded
  | refused (failure : Failure)
  | threw (fault : Fault)
  /-- An event that the command's `writes` does not declare. -/
  | undeclared (error : JournalError)
  deriving DecidableEq

mutual

/-- A write or a child command of a handler. A child that threw comes back as the failure `defect`. -/
inductive Operation (Change : Type) where
  | write (kind id : String) (made : List Change) (outcome : WriteOutcome)
  | run (child : Invocation Change) (defect : Failure)

inductive Step (Change : Type) where
  | settled (operation : Operation Change)
  | accept (argument : Option Failure)

/-- One run of a command. `stopped` is how it ended before its handler, if it did: by a refused input,
by `authorize`, or by a receipt. `fault` is what was thrown after the handler. -/
inductive Invocation (Change : Type) where
  | mk (name : String) (stopped : Option Ending) (before : List (Step Change)) (returned : Ending)
    (after : List (Step Change)) (running : List (Operation Change)) (fault : Option Fault)

end

/-- What a run keeps beside its transaction: its tracker, the last undeclared write, and for the record
the failures that it was handed and those that it accepted. -/
structure Desk where
  tracker : Tracker
  undeclared : Option JournalError
  handed : List Failure
  accepted : List Failure

def Desk.start (name : String) : Desk := ⟨trackRefusals "command" name "write or run", none, [], []⟩

def Desk.watch (desk : Desk) (source : String) (failure : Failure) : Desk :=
  { desk with tracker := desk.tracker.watch source failure, handed := desk.handed ++ [failure] }

def Desk.accept (desk : Desk) (argument : Option Failure) : Desk :=
  match desk.tracker.accept argument with
  | .ok tracker => { desk with tracker := tracker, accepted := desk.accepted ++ argument.toList }
  | .error _ => desk

def Desk.finish (desk : Desk) : Desk := { desk with tracker := desk.tracker.finish }

def handle (name : String) (desk : Desk) (returned : Ending) : Ending :=
  match returned with
  | .threw fault => .threw fault
  | returned =>
    match desk.undeclared with
    | some error => .threw (.journal error)
    | none =>
      match returned, desk.tracker.unhandled with
      | .value _, some ignored =>
        let source := ignored.source
        let code := ignored.failure.code
        .threw (.journal ⟨.ignoredFailure, "command", name,
          s!"{source} returned the failure \"{code}\", but the handler returned a success"⟩)
      | returned, _ => returned

def close (name : String) (unfinished : Nat) (fault : Option Fault) (result : Ending) : Ending :=
  match result, fault with
  | .threw fault, _ => .threw fault
  | _, some fault => .threw fault
  | .failure failure, none => .failure failure
  | .value value, none =>
    if unfinished > 0 then
      let plural := if unfinished = 1 then "" else "s"
      .threw (.message (s!"journal: command \"{name}\" returned with {unfinished} journal operation{plural} still running; " ++
        "await every write and run before the handler returns"))
    else .value value

def Invocation.name {Change : Type} : Invocation Change → String
  | .mk name .. => name

mutual

def runOperation {Change : Type} : Operation Change → Database Change × Desk → Database Change × Desk
  | .write kind id made outcome, (db, desk) =>
    let inside := db.savepoint.add made
    match outcome with
    | .recorded => (inside.release, desk)
    | .refused failure => (inside.rollback, desk.watch s!"the write to {kind} {id}" failure)
    | .threw _ => (inside.rollback, desk)
    | .undeclared error => (inside.rollback, { desk with undeclared := some error })
  | .run child defect, (db, desk) =>
    let name := child.name
    match runCommand child db with
    | (.value _, next) => (next, desk)
    | (.failure failure, next) => (next, desk.watch s!"the child command \"{name}\"" failure)
    | (.threw _, next) => (next, desk.watch s!"the child command \"{name}\"" defect)

def runSteps {Change : Type} : List (Step Change) → Database Change × Desk → Database Change × Desk
  | [], state => state
  | .settled operation :: rest, state => runSteps rest (runOperation operation state)
  | .accept argument :: rest, (db, desk) => runSteps rest (db, desk.accept argument)

def runOperations {Change : Type} : List (Operation Change) → Database Change × Desk → Database Change × Desk
  | [], state => state
  | operation :: rest, state => runOperations rest (runOperation operation state)

/-- `runCommand`: a transaction, or a savepoint of the one around it, that a failure or a throw rolls back. -/
def runCommand {Change : Type} : Invocation Change → Database Change → Ending × Database Change
  | .mk name stopped before returned after running fault, db =>
    match stopped with
    | some ending => (ending, if ending.succeeded then db.savepoint.release else db.savepoint.rollback)
    | none =>
      let (inside, desk) := runSteps before (db.savepoint, Desk.start name)
      let result := handle name desk returned
      let (inside, desk) := runSteps after (inside, desk.finish)
      -- what is still in flight settles before the transaction closes
      let (inside, _) := runOperations running (inside, desk)
      let ending := close name running.length fault result
      (ending, if ending.succeeded then inside.release else inside.rollback)

end

def Database.empty {Change : Type} : Database Change := ⟨[], []⟩

section Meaning

variable {Change : Type}

def Invocation.stopped : Invocation Change → Option Ending
  | .mk _ stopped .. => stopped

def Invocation.before : Invocation Change → List (Step Change)
  | .mk _ _ before .. => before

def Invocation.after : Invocation Change → List (Step Change)
  | .mk _ _ _ _ after .. => after

def Invocation.ending (invocation : Invocation Change) : Ending := (runCommand invocation .empty).1

def Operation.noted (operation : Operation Change) (desk : Desk) : Desk :=
  (runOperation operation (.empty, desk)).2

def stepsNoted (steps : List (Step Change)) (desk : Desk) : Desk := (runSteps steps (.empty, desk)).2

def Invocation.settledDesk (invocation : Invocation Change) : Desk :=
  (stepsNoted invocation.before (Desk.start invocation.name)).finish

def Operation.refusal : Operation Change → Option Failure
  | .write _ _ _ outcome =>
    match outcome with
    | .refused failure => some failure
    | _ => none
  | .run child defect =>
    match child.ending with
    | .value _ => none
    | .failure failure => some failure
    | .threw _ => some defect

def refusals : List (Step Change) → List Failure
  | [] => []
  | .settled operation :: rest => operation.refusal.toList ++ refusals rest
  | .accept _ :: rest => refusals rest

mutual

def Operation.kept : Operation Change → List Change
  | .write _ _ made outcome => if outcome = .recorded then made else []
  | .run child _ => if child.ending.succeeded then child.kept else []

def stepsKept : List (Step Change) → List Change
  | [] => []
  | .settled operation :: rest => operation.kept ++ stepsKept rest
  | .accept _ :: rest => stepsKept rest

def Invocation.kept : Invocation Change → List Change
  | .mk _ stopped before _ after _ _ => if stopped.isSome then [] else stepsKept before ++ stepsKept after

end

mutual

/-- Every failure that the command was handed was accepted by its handler, and so below it in every
child whose changes it keeps. -/
def Invocation.Accepted : Invocation Change → Prop
  | .mk name stopped before _ after _ _ => stopped = none →
    let desk := stepsNoted after (stepsNoted before (Desk.start name)).finish
    desk.handed.Perm desk.accepted ∧ stepsAccepted before ∧ stepsAccepted after

def stepsAccepted : List (Step Change) → Prop
  | [] => True
  | .settled operation :: rest => operation.Accepted ∧ stepsAccepted rest
  | .accept _ :: rest => stepsAccepted rest

def Operation.Accepted : Operation Change → Prop
  | .write .. => True
  | .run child _ => child.ending.succeeded = true → child.Accepted

end

mutual

/-- No operation returned a failure between the settling of the handler that started it and the end of
its run, and so below it in every child whose changes it keeps. -/
def Invocation.Prompt : Invocation Change → Prop
  | .mk _ stopped before _ after _ _ =>
    stopped = none → refusals after = [] ∧ stepsPrompt before ∧ stepsPrompt after

def stepsPrompt : List (Step Change) → Prop
  | [] => True
  | .settled operation :: rest => operation.Prompt ∧ stepsPrompt rest
  | .accept _ :: rest => stepsPrompt rest

def Operation.Prompt : Operation Change → Prop
  | .write .. => True
  | .run child _ => child.ending.succeeded = true → child.Prompt

end

structure Whole (invocation : Invocation Change) (db : Database Change) : Prop where
  undone : (runCommand invocation db).1.succeeded = false → (runCommand invocation db).2 = db
  /-- A success leaves the changes of every operation that was not refused, and no others. -/
  kept : (runCommand invocation db).1.succeeded = true → (runCommand invocation db).2 = db.add invocation.kept
  accepted : (runCommand invocation db).1.succeeded = true → invocation.Accepted
  /-- While the handler runs, a failure can be accepted as often as it was returned. -/
  accepts : ∀ front rest, invocation.before = front ++ rest → ∀ failure,
    let desk := stepsNoted front (Desk.start invocation.name)
    (∃ next, desk.tracker.accept (some failure) = .ok next) ↔ desk.accepted.count failure < desk.handed.count failure
  late : ∀ front rest, invocation.after = front ++ rest → ∀ argument,
    ∃ error, (stepsNoted front invocation.settledDesk).tracker.accept argument = .error error

variable {db : Database Change} {desk : Desk}

@[simp] theorem release_savepoint (made : List Change) : (db.savepoint.add made).release = db.add made := rfl

@[simp] theorem rollback_savepoint (made : List Change) : (db.savepoint.add made).rollback = db := rfl

@[simp] theorem add_nil : db.add [] = db := by simp [Database.add]

@[simp] theorem add_add (first second : List Change) : (db.add first).add second = db.add (first ++ second) := by
  simp [Database.add]

theorem close_value {name : String} {unfinished : Nat} {fault : Option Fault} {result : Ending}
    (succeeded : (close name unfinished fault result).succeeded = true) :
    unfinished = 0 ∧ result.succeeded = true := by
  unfold close at succeeded
  split at succeeded
  · cases succeeded
  · cases succeeded
  · cases succeeded
  · split at succeeded
    · cases succeeded
    · next none_ => exact ⟨by omega, rfl⟩

mutual

theorem runOperation_eq : ∀ (operation : Operation Change) (db : Database Change) (desk : Desk),
    runOperation operation (db, desk) = (db.add operation.kept, operation.noted desk)
  | .write kind id made outcome, db, desk => by
    cases outcome <;> simp [runOperation, Operation.noted, Operation.kept]
  | .run child defect, db, desk => by
    have here := runCommand_eq child db
    have there := runCommand_eq child .empty
    simp only [Operation.noted, runOperation, here, there, Operation.kept]
    cases child.ending <;> simp [Ending.succeeded]

theorem runSteps_eq : ∀ (steps : List (Step Change)) (db : Database Change) (desk : Desk),
    runSteps steps (db, desk) = (db.add (stepsKept steps), stepsNoted steps desk)
  | [], db, desk => by simp [runSteps, stepsKept, stepsNoted]
  | .settled operation :: rest, db, desk => by
    have noted : stepsNoted (.settled operation :: rest) desk = stepsNoted rest (operation.noted desk) := by
      rw [stepsNoted, runSteps, runOperation_eq operation, runSteps_eq rest]
    rw [noted, runSteps, runOperation_eq operation, runSteps_eq rest, add_add, stepsKept]
  | .accept argument :: rest, db, desk => by
    have noted : stepsNoted (.accept argument :: rest) desk = stepsNoted rest (desk.accept argument) := by
      rw [stepsNoted, runSteps, runSteps_eq rest]
    rw [noted, runSteps, runSteps_eq rest, stepsKept]

theorem runOperations_eq : ∀ (operations : List (Operation Change)) (db : Database Change) (desk : Desk),
    ∃ made, (operations = [] → made = []) ∧ (runOperations operations (db, desk)).1 = db.add made
  | [], db, desk => ⟨[], fun _ => rfl, by simp [runOperations]⟩
  | operation :: rest, db, desk => by
    obtain ⟨made, _, ran⟩ := runOperations_eq rest (db.add operation.kept) (operation.noted desk)
    refine ⟨operation.kept ++ made, by simp, ?_⟩
    rw [runOperations, runOperation_eq operation, ran, add_add]

/-- A run does to its database what its ending says: it adds what it keeps, or nothing. -/
theorem runCommand_eq : ∀ (invocation : Invocation Change) (db : Database Change),
    runCommand invocation db =
      (invocation.ending, db.add (if invocation.ending.succeeded then invocation.kept else []))
  | .mk name (some ending) before returned after running fault, db => by
    cases ending <;> simp [runCommand, Invocation.ending, Invocation.kept, Ending.succeeded, Database.savepoint,
      Database.release, Database.rollback, Database.add]
  | .mk name none before returned after running fault, db => by
    obtain ⟨made, nothing, ran⟩ := runOperations_eq running
      (db.savepoint.add (stepsKept before ++ stepsKept after))
      (stepsNoted after (stepsNoted before (Desk.start name)).finish)
    have ends : (Invocation.mk name none before returned after running fault).ending =
        close name running.length fault (handle name (stepsNoted before (Desk.start name)) returned) := by
      simp only [Invocation.ending, runCommand, runSteps_eq before]
    simp only [runCommand, runSteps_eq before, runSteps_eq after, add_add, ran, ends]
    cases succeeded : (close name running.length fault (handle name (stepsNoted before (Desk.start name)) returned)).succeeded with
    | true =>
      have empty : made = [] := nothing (List.length_eq_zero_iff.mp (close_value succeeded).1)
      simp [empty, Invocation.kept]
    | false => simp

end

theorem runCommand_ending (invocation : Invocation Change) (db : Database Change) :
    (runCommand invocation db).1 = invocation.ending := by rw [runCommand_eq]

theorem ending_handler {name : String} {before after : List (Step Change)} {returned : Ending}
    {running : List (Operation Change)} {fault : Option Fault} :
    (Invocation.mk name none before returned after running fault).ending =
      close name running.length fault (handle name (stepsNoted before (Desk.start name)) returned) := by
  simp only [Invocation.ending, runCommand, runSteps_eq before]

@[simp] theorem stepsNoted_nil : stepsNoted ([] : List (Step Change)) desk = desk := rfl

theorem stepsNoted_settled (operation : Operation Change) (rest : List (Step Change)) :
    stepsNoted (.settled operation :: rest) desk = stepsNoted rest (operation.noted desk) := by
  rw [stepsNoted, runSteps, runOperation_eq operation, runSteps_eq rest]

theorem stepsNoted_accept (argument : Option Failure) (rest : List (Step Change)) :
    stepsNoted (.accept argument :: rest) desk = stepsNoted rest (desk.accept argument) := by
  rw [stepsNoted, runSteps, runSteps_eq rest]

/-- A refused operation puts its failure on the desk, and no other operation is noticed there. -/
theorem noted_tracker (desk : Desk) (operation : Operation Change) :
    (operation.refusal = none ∧ (operation.noted desk).tracker = desk.tracker ∧
      (operation.noted desk).handed = desk.handed ∧ (operation.noted desk).accepted = desk.accepted) ∨
    ∃ source failure, operation.refusal = some failure ∧ operation.noted desk = desk.watch source failure := by
  cases operation with
  | write kind id made outcome =>
    cases outcome with
    | refused failure => exact Or.inr ⟨_, failure, rfl, rfl⟩
    | recorded => exact Or.inl ⟨rfl, rfl, rfl, rfl⟩
    | threw fault => exact Or.inl ⟨rfl, rfl, rfl, rfl⟩
    | undeclared error => exact Or.inl ⟨rfl, rfl, rfl, rfl⟩
  | run child defect =>
    have ran := runCommand_eq child .empty
    simp only [Operation.noted, runOperation, Operation.refusal, ran]
    cases child.ending with
    | value value => exact Or.inl ⟨rfl, rfl, rfl, rfl⟩
    | failure failure => exact Or.inr ⟨_, failure, rfl, rfl⟩
    | threw fault => exact Or.inr ⟨_, defect, rfl, rfl⟩

def Desk.Balanced (desk : Desk) : Prop :=
  desk.handed.Perm (desk.accepted ++ desk.tracker.pending.map (·.failure))

theorem balanced_start (name : String) : (Desk.start name).Balanced := List.Perm.refl _

theorem Desk.Balanced.watch (balanced : desk.Balanced) (source : String) (failure : Failure) :
    (desk.watch source failure).Balanced := by
  simp only [Desk.Balanced, Desk.watch, Tracker.watch, List.map_append, ← List.append_assoc]
  exact List.Perm.append_right _ balanced

theorem Desk.Balanced.accept (balanced : desk.Balanced) (argument : Option Failure) :
    (desk.accept argument).Balanced := by
  simp only [Desk.accept]
  split
  · next tracker accepted =>
    cases argument with
    | none =>
      obtain ⟨error, refused⟩ := accept_none desk.tracker
      rw [refused] at accepted
      cases accepted
    | some failure =>
      obtain ⟨_, taken, _⟩ := accept_ok accepted
      simp only [Desk.Balanced, Option.toList_some, List.append_assoc, List.singleton_append]
      exact balanced.trans (List.Perm.append_left _ taken)
  · exact balanced

theorem Desk.Balanced.noted (balanced : desk.Balanced) (operation : Operation Change) :
    (operation.noted desk).Balanced := by
  rcases noted_tracker desk operation with ⟨_, tracker, handed, accepted⟩ | ⟨source, failure, _, noted⟩
  · simp only [Desk.Balanced, tracker, handed, accepted]
    exact balanced
  · rw [noted]
    exact balanced.watch source failure

theorem Desk.Balanced.steps {steps : List (Step Change)} (balanced : desk.Balanced) :
    (stepsNoted steps desk).Balanced := by
  induction steps generalizing desk with
  | nil => exact balanced
  | cons step rest ih =>
    cases step with
    | settled operation =>
      rw [stepsNoted_settled]
      exact ih (balanced.noted operation)
    | accept argument =>
      rw [stepsNoted_accept]
      exact ih (balanced.accept argument)

/-- A running handler's tracker runs: nothing before the end of the handler finishes it. -/
theorem steps_running {steps : List (Step Change)} (running : desk.tracker.finished = false) :
    (stepsNoted steps desk).tracker.finished = false := by
  induction steps generalizing desk with
  | nil => exact running
  | cons step rest ih =>
    cases step with
    | settled operation =>
      rw [stepsNoted_settled]
      apply ih
      rcases noted_tracker desk operation with ⟨_, tracker, _⟩ | ⟨source, failure, _, noted⟩
      · rw [tracker, running]
      · rw [noted]
        exact running
    | accept argument =>
      rw [stepsNoted_accept]
      apply ih
      simp only [Desk.accept]
      split
      · next tracker accepted =>
        cases argument with
        | none =>
          obtain ⟨error, refused⟩ := accept_none desk.tracker
          rw [refused] at accepted
          cases accepted
        | some failure => exact (accept_ok accepted).2.2
      · exact running

theorem steps_finished (steps : List (Step Change)) (finished : desk.tracker.finished = true) :
    (stepsNoted steps desk).tracker.finished = true ∧ (stepsNoted steps desk).accepted = desk.accepted ∧
      (stepsNoted steps desk).handed = desk.handed ++ refusals steps := by
  induction steps generalizing desk with
  | nil => exact ⟨finished, rfl, by simp [refusals]⟩
  | cons step rest ih =>
    cases step with
    | settled operation =>
      rw [stepsNoted_settled, refusals]
      rcases noted_tracker desk operation with ⟨none_, tracker, handed, accepted⟩ | ⟨source, failure, some_, noted⟩
      · obtain ⟨still, same, grown⟩ := ih (show (operation.noted desk).tracker.finished = true by rw [tracker, finished])
        exact ⟨still, same.trans accepted, by rw [grown, handed, none_]; rfl⟩
      · obtain ⟨still, same, grown⟩ := ih (show (operation.noted desk).tracker.finished = true by rw [noted]; exact finished)
        refine ⟨still, same.trans (by rw [noted]; rfl), ?_⟩
        rw [grown, noted, some_]
        simp [Desk.watch]
    | accept argument =>
      rw [stepsNoted_accept, refusals]
      obtain ⟨error, refused⟩ := accept_finished finished argument
      have same : desk.accept argument = desk := by simp [Desk.accept, refused]
      rw [same]
      exact ih finished

theorem handle_value {name : String} {returned : Ending} (succeeded : (handle name desk returned).succeeded = true) :
    desk.tracker.pending = [] := by
  unfold handle at succeeded
  split at succeeded
  · cases succeeded
  · split at succeeded
    · cases succeeded
    · split at succeeded
      · cases succeeded
      · next other _ _ _ free =>
        cases other with
        | value value =>
          cases waits : desk.tracker.pending with
          | nil => rfl
          | cons refusal rest => exact absurd (by simp [Tracker.unhandled, waits]) (free value refusal rfl)
        | failure failure => cases succeeded
        | threw fault => cases succeeded

mutual

/-- Of a run that succeeds, every failure was accepted exactly when none came late. -/
theorem accepted_iff : ∀ (invocation : Invocation Change), invocation.ending.succeeded = true →
    (invocation.Accepted ↔ invocation.Prompt)
  | .mk name (some ending) before returned after running fault, _ => by
    simp [Invocation.Accepted, Invocation.Prompt]
  | .mk name none before returned after running fault, succeeded => by
    rw [ending_handler] at succeeded
    have free := handle_value (close_value succeeded).2
    have balanced : (stepsNoted before (Desk.start name)).Balanced := (balanced_start name).steps
    have even : (stepsNoted before (Desk.start name)).handed.Perm (stepsNoted before (Desk.start name)).accepted := by
      simpa [Desk.Balanced, free] using balanced
    obtain ⟨_, same, grown⟩ := steps_finished after
      (show (stepsNoted before (Desk.start name)).finish.tracker.finished = true from rfl)
    have late : (stepsNoted after (stepsNoted before (Desk.start name)).finish).handed.Perm
        (stepsNoted after (stepsNoted before (Desk.start name)).finish).accepted ↔ refusals after = [] := by
      rw [same, grown]
      constructor
      · intro perm
        have sizes := perm.length_eq
        have equal := even.length_eq
        apply List.eq_nil_of_length_eq_zero
        simp only [List.length_append, Desk.finish] at sizes
        omega
      · intro none_
        simpa [none_, Desk.finish] using even
    simp only [Invocation.Accepted, Invocation.Prompt, forall_const, late, stepsAccepted_iff]

theorem stepsAccepted_iff : ∀ (steps : List (Step Change)), stepsAccepted steps ↔ stepsPrompt steps
  | [] => Iff.rfl
  | .settled operation :: rest => by
    simp only [stepsAccepted, stepsPrompt, operationAccepted_iff operation, stepsAccepted_iff rest]
  | .accept _ :: rest => by
    simp only [stepsAccepted, stepsPrompt, stepsAccepted_iff rest]

theorem operationAccepted_iff : ∀ (operation : Operation Change), operation.Accepted ↔ operation.Prompt
  | .write .. => Iff.rfl
  | .run child defect => by
    simp only [Operation.Accepted, Operation.Prompt]
    exact forall_congr' (accepted_iff child)

end

theorem finish_finished : desk.finish.tracker.finished = true := rfl

end Meaning

/-- A write that is not awaited is refused while the receipt of its command is being stored. -/
def lateRefusal : Invocation String :=
  .mk "place-order" none [.settled (.write "order" "o1" ["OrderPlaced"] .recorded)] (.value (.boolean true))
    [.settled (.write "stock" "s1" [] (.refused ⟨1, "OUT_OF_STOCK"⟩))] [] none

end Arki.Journal
