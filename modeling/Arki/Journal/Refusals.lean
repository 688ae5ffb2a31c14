import Arki.Journal.Tables
import Mathlib.Data.List.Count
import Mathlib.Data.List.Perm.Basic

/-! The refusals that one handler run was handed, and the calls that accept them. -/

set_option autoImplicit false

namespace Arki.Journal

/-- A returned failure. Two failures are the same object when they have the same `object`. -/
structure Failure where
  object : Nat
  code : String
  deriving DecidableEq, Repr

structure Refusal where
  failure : Failure
  source : String
  deriving DecidableEq, Repr

/-- `trackRefusals`: `kind`, `name` and `sources` are its arguments. -/
structure Tracker where
  kind : String
  name : String
  sources : String
  pending : List Refusal
  received : List Failure
  finished : Bool

def trackRefusals (kind name sources : String) : Tracker := ⟨kind, name, sources, [], [], false⟩

def Tracker.misuse (tracker : Tracker) (detail : String) : JournalError :=
  ⟨.invalidAccept, tracker.kind, tracker.name, detail⟩

def Tracker.watch (tracker : Tracker) (source : String) (failure : Failure) : Tracker :=
  { tracker with pending := tracker.pending ++ [⟨failure, source⟩], received := failure :: tracker.received }

/-- `accept(argument)`, where `none` is a value that is not a failure. -/
def Tracker.accept (tracker : Tracker) : Option Failure → Except JournalError Tracker
  | none =>
    if tracker.finished then .error (tracker.misuse "accept() was called after the handler finished")
    else .error (tracker.misuse "accept() expects an @arki/failure value")
  | some failure =>
    if tracker.finished then .error (tracker.misuse "accept() was called after the handler finished")
    else if tracker.pending.any (·.failure = failure) then
      .ok { tracker with pending := tracker.pending.eraseP (·.failure = failure) }
    else
      let code := failure.code
      let sources := tracker.sources
      let kind := tracker.kind
      .error (tracker.misuse (if failure ∈ tracker.received then s!"the failure \"{code}\" was already accepted"
        else s!"accept() was given the failure \"{code}\", but no {sources} of this {kind} returned it"))

def Tracker.unhandled (tracker : Tracker) : Option Refusal := tracker.pending.head?

def Tracker.finish (tracker : Tracker) : Tracker := { tracker with finished := true }

variable {tracker next : Tracker} {failure : Failure}

theorem accept_ok (accepted : tracker.accept (some failure) = .ok next) : tracker.finished = false ∧
    (tracker.pending.map (·.failure)).Perm (failure :: next.pending.map (·.failure)) ∧ next.finished = false := by
  simp only [Tracker.accept] at accepted
  split at accepted
  · cases accepted
  · next running =>
    split at accepted
    · next waits =>
      cases accepted
      refine ⟨by simpa using running, ?_, by simpa using running⟩
      obtain ⟨refusal, member, same⟩ := List.any_eq_true.mp waits
      obtain ⟨first, ahead, rest, _, hit, parts, erased⟩ :=
        List.exists_of_eraseP (p := fun refusal : Refusal => decide (refusal.failure = failure)) member same
      dsimp only
      rw [erased]
      simp only [parts, List.map_append, List.map_cons, decide_eq_true_eq.mp hit]
      exact List.perm_middle
    · cases accepted

theorem accept_none (tracker : Tracker) : ∃ error, tracker.accept none = .error error := by
  simp only [Tracker.accept]
  split <;> exact ⟨_, rfl⟩

/-- An accept succeeds on a pending failure of a handler that still runs, and on nothing else. -/
theorem accept_ok_iff : (∃ next, tracker.accept (some failure) = .ok next) ↔
    tracker.finished = false ∧ failure ∈ tracker.pending.map (·.failure) := by
  constructor
  · rintro ⟨next, accepted⟩
    obtain ⟨running, taken, _⟩ := accept_ok accepted
    exact ⟨running, taken.mem_iff.mpr (by simp)⟩
  · rintro ⟨running, listed⟩
    obtain ⟨refusal, member, same⟩ := List.mem_map.mp listed
    have waits : tracker.pending.any (·.failure = failure) = true := List.any_eq_true.mpr ⟨refusal, member, by simp [same]⟩
    refine ⟨{ tracker with pending := tracker.pending.eraseP (·.failure = failure) }, ?_⟩
    simp [Tracker.accept, running, waits]

theorem accept_finished (done : tracker.finished = true) (argument : Option Failure) :
    ∃ error, tracker.accept argument = .error error := by
  refine ⟨tracker.misuse "accept() was called after the handler finished", ?_⟩
  cases argument <;> simp [Tracker.accept, done]

end Arki.Journal
