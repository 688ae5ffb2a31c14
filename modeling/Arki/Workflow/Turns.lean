import Arki.Workflow.Discipline
import Mathlib

/-! Every transaction on a run writes events that fit. -/

set_option autoImplicit false

namespace Arki.Workflow

open Arki.Journal (Value StoredEvent)

variable {def_ : WorkflowDef} {env : Env} {old run : Run} {seq : Nat} {path : String}

theorem Orderly.append {first rest : List RunEvent} (before : Orderly def_ run seq first)
    (after : Orderly def_ (run.write seq first) (seq + first.length) rest) : Orderly def_ run seq (first ++ rest) := by
  induction first generalizing run seq with
  | nil => exact after
  | cons event tail ih =>
    refine ⟨before.1, ?_, ih before.2.2 ?_⟩
    · obtain ⟨parks, reopens⟩ := before.2.1
      cases tail with
      | nil =>
        refine ⟨fun settles parked => ?_, fun cancel ended => ?_⟩
        · cases parks settles parked
        · cases reopens cancel ended
      | cons head tail => exact ⟨parks, reopens⟩
    · have same : seq + 1 + tail.length = seq + (event :: tail).length := by
        simp only [List.length_cons]
        omega
      rw [same]
      exact after

/-! ### Undoing -/

structure Undoing (run : Run) : Prop where
  phase : run.lifePhase = some .open_
  state : run.row.state = .compensating
  free : ∀ node, run.isScheduled (node, .do_) = false

theorem Undoing.legal (undoing : Undoing run) (event : RunEvent) : (run.lifePhase.bind (·.on event)).isSome := by
  rw [undoing.phase]
  rfl

theorem Undoing.settled (undoing : Undoing run) (def_ : WorkflowDef) {event : RunEvent} (seq : Nat)
    (undo : (∃ path result by_ time, event = .nodeCompleted path .undo result by_ time) ∨
      ∃ path cause reason time, event = .nodeSkipped path .undo cause reason time) :
    Fits def_ run event ∧ Undoing (run.on seq event) := by
  have free : ∀ node, event.isPlan = false → (∀ status, event.moves ≠ some ((node, .do_), status)) →
      (run.on seq event).isScheduled (node, .do_) = false := by
    intro node notPlan other
    rw [Run.isScheduled_on notPlan]
    cases moved : event.moves with
    | none => exact undoing.free node
    | some step =>
      have apart : (node, StepPhase.do_) ≠ step.1 := by
        intro same
        exact other step.2 (by rw [moved, same])
      simp only [if_neg apart]
      exact undoing.free node
  rcases undo with ⟨path, result, by_, time, rfl⟩ | ⟨path, cause, reason, time, rfl⟩
  all_goals
    refine ⟨⟨undoing.legal _, undoing.state⟩, ?_, undoing.state, fun node => free node rfl fun status same => nomatch same⟩
    rw [Run.lifePhase_on, undoing.phase]
    rfl

theorem orderly_end (options : CompensateOptions) (phase : run.lifePhase = some .open_)
    (free : ∀ node, run.isScheduled (node, .do_) = false) : Orderly def_ run seq [endOf def_ old env options] := by
  simp only [endOf]
  split
  · exact ⟨⟨by rw [phase]; rfl, free⟩, ⟨nofun, nofun⟩, trivial⟩
  · exact ⟨⟨by rw [phase]; rfl, free⟩, ⟨nofun, nofun⟩, trivial⟩

theorem orderly_undoAll (options : CompensateOptions) (undoing : Undoing run) (left : List Done) :
    Orderly def_ run seq (undoAll def_ old env options left) := by
  induction left generalizing run seq with
  | nil => exact orderly_end options undoing.phase undoing.free
  | cons item rest ih =>
    have skip (cause : SkipCause) (reason : String) :
        Orderly def_ run seq (.nodeSkipped item.path .undo cause reason env.now :: undoAll def_ old env options rest) := by
      obtain ⟨fits, next⟩ := undoing.settled def_ seq (.inr ⟨item.path, cause, reason, env.now, rfl⟩)
      exact ⟨fits, ⟨nofun, nofun⟩, ih next⟩
    simp only [undoAll]
    split
    · exact skip _ _
    split
    · exact ⟨⟨undoing.legal _, undoing.state, undoing.free⟩, ⟨nofun, nofun⟩, trivial⟩
    split
    · split
      · exact skip _ _
      split
      · trivial
      · obtain ⟨fits, next⟩ := undoing.settled def_ seq (.inl ⟨item.path, .null, none, env.now, rfl⟩)
        exact ⟨fits, ⟨nofun, nofun⟩, ih next⟩
    · exact skip _ _

theorem orderly_compensate (options : CompensateOptions) (undoing : Undoing run) :
    Orderly def_ run seq (compensate def_ old env options) := by
  simp only [compensate]
  split
  · trivial
  · exact orderly_undoAll options undoing _

/-! ### Compensation begins -/

theorem Run.isScheduled_steps {other : Run} (same : run.steps = other.steps) (key : String × StepPhase) :
    run.isScheduled key = other.isScheduled key := by
  unfold Run.isScheduled Run.status
  rw [same]

theorem Run.isOpen_steps {other : Run} (same : run.steps = other.steps) (key : String × StepPhase) :
    run.isOpen key = other.isOpen key := by
  unfold Run.isOpen Run.status
  rw [same]

/-- What settles the open `do` step, or fails it, leaves no attempt in flight. -/
theorem Kept.freed (kept : Kept run) (opened : run.isOpen (path, .do_) = true) {event : RunEvent} {status : StepStatus}
    (notPlan : event.isPlan = false) (moved : event.moves = some ((path, .do_), status)) (done : status ≠ .scheduled)
    (node : String) : (run.on seq event).isScheduled (node, .do_) = false := by
  rw [Run.isScheduled_on notPlan, moved]
  by_cases same : (node, StepPhase.do_) = (path, .do_)
  · simp only [if_pos same, decide_eq_false_iff_not]
    exact done
  · simp only [if_neg same]
    cases scheduled : run.isScheduled (node, .do_) with
    | false => rfl
    | true =>
      have one := kept.single node path (Run.isOpen_scheduled scheduled) opened
      exact absurd (one ▸ rfl) same

theorem dropCurrentNode_cases (kept : Kept run) (env : Env) :
    dropCurrentNode run env = ([], true) ∨
      (dropCurrentNode run env = ([], false) ∧ ∀ node, run.isScheduled (node, .do_) = false) ∨
      ∃ node, dropCurrentNode run env = ([droppedNode env node], false) ∧ run.isScheduled (node, .do_) = true := by
  -- only the node of the row can be in flight
  have elsewhere (idle : ∀ node, run.row.node = some node → run.isScheduled (node, .do_) = false) (node : String) :
      run.isScheduled (node, .do_) = false := by
    cases scheduled : run.isScheduled (node, .do_) with
    | false => rfl
    | true => exact scheduled.symm.trans (idle node (kept.onRow node scheduled))
  simp only [dropCurrentNode]
  cases here : run.row.node with
  | none => exact .inr (.inl ⟨rfl, elsewhere fun node same => by rw [here] at same; cases same⟩)
  | some node =>
    simp only
    cases found : run.steps.lookup (node, .do_) with
    | none =>
      refine .inr (.inl ⟨rfl, elsewhere fun other same => ?_⟩)
      rw [here] at same
      cases same
      simp [Run.isScheduled, Run.status, found]
    | some step =>
      simp only
      by_cases scheduled : step.status = .scheduled
      · rw [if_neg (not_not_intro scheduled)]
        have inFlight : run.isScheduled (node, .do_) = true := by simp [Run.isScheduled, Run.status, found, scheduled]
        split
        · exact .inr (.inr ⟨node, rfl, inFlight⟩)
        split
        · exact .inl rfl
        · exact .inr (.inr ⟨node, rfl, inFlight⟩)
      · rw [if_pos scheduled]
        refine .inr (.inl ⟨rfl, elsewhere fun other same => ?_⟩)
        rw [here] at same
        cases same
        simp [Run.isScheduled, Run.status, found, scheduled]

theorem orderly_begin {head : List RunEvent} {closed : Bool} {cause : Option String} {cancelling : Bool} (keptOld : Kept old)
    (before : ∀ rest, (old.row.finishedAt.isSome → rest.head?.any (·.isStart)) →
      Orderly def_ (run.write seq head) (seq + head.length) rest → Orderly def_ run seq (head ++ rest))
    (kept : Kept (run.write seq head))
    (queued : (run.write seq head).row.state = .queued ↔ old.row.state = .queued)
    (phase : (run.write seq head).lifePhase = some .open_ ∨ (run.write seq head).lifePhase = some .reopening)
    (closes : if closed then ∀ node, (run.write seq head).isScheduled (node, .do_) = false
      else (run.write seq head).steps = old.steps) :
    Orderly def_ run seq (beginCompensation def_ old env head closed cause cancelling) := by
  simp only [beginCompensation]
  by_cases never : old.row.state = .queued
  · -- a run that never ran has nothing to undo
    rw [if_pos never]
    refine before _ ?_ ?_
    · intro ended
      rw [keptOld.ended.mpr (.inl (by rw [never]; rfl))] at ended
      cases ended
    have still := queued.mpr never
    have bare := (kept.queued still).1
    have open_ : (run.write seq head).lifePhase = some .open_ := by
      obtain ⟨now, read, open_⟩ := kept.phase
      rw [read, open_.mpr (kept.ended.mpr (.inl (by rw [still]; rfl)))]
    have free (node : String) : (run.write seq head).isScheduled (node, .do_) = false := by
      simp [Run.isScheduled, Run.status, bare]
    simp only [compensate]
    split
    · trivial
    · rw [(keptOld.queued never).2]
      exact orderly_end _ open_ free
  · rw [if_neg never, List.append_assoc, List.append_assoc]
    refine before _ (fun _ => rfl) ?_
    generalize start : run.write seq head = begun at kept queued phase closes ⊢
    have fits : Fits def_ begun (.compensationStarted env.now) := by
      refine ⟨?_, fun still => never (queued.mp still)⟩
      rcases phase with open_ | reopening
      · rw [open_]
        rfl
      · rw [reopening]
        rfl
    have phaseNow (first : Nat) : (begun.on first (.compensationStarted env.now)).lifePhase = some .open_ := by
      rw [Run.lifePhase_on]
      rcases phase with open_ | reopening
      · rw [open_]
        rfl
      · rw [reopening]
        rfl
    refine ⟨fits, ⟨by rintro ⟨⟩, by rintro ⟨⟩⟩, ?_⟩
    generalize seq + head.length = first
    have keptNow := kept.on fits first
    have undoing (free : ∀ node, begun.isScheduled (node, .do_) = false) :
        Undoing (begun.on first (.compensationStarted env.now)) := ⟨phaseNow first, rfl, free⟩
    cases closed with
    | true => exact orderly_compensate _ (undoing (by simpa using closes))
    | false =>
      simp only [Bool.false_eq_true, if_false] at closes ⊢
      rcases dropCurrentNode_cases keptOld env with inFlight | ⟨nobody, free⟩ | ⟨node, dropped, scheduled⟩
      · rw [inFlight]
        trivial
      · rw [nobody]
        exact orderly_compensate _ (undoing fun node => (Run.isScheduled_steps closes _).trans (free node))
      · rw [dropped]
        have open_ : begun.isOpen (node, .do_) = true :=
          (Run.isOpen_steps closes _).trans (Run.isOpen_scheduled scheduled)
        have nowOpen : (begun.on first (.compensationStarted env.now)).isOpen (node, .do_) = true := by
          rw [Run.isOpen_on rfl]
          exact open_
        show Orderly def_ (begun.on first (.compensationStarted env.now)) (first + 1)
          (droppedNode env node :: compensate def_ old env ⟨cause, cancelling, none, 0⟩)
        refine ⟨⟨by rw [phaseNow]; rfl, nowOpen⟩, ?_, ?_⟩
        · refine ⟨fun _ parked => ?_, by rintro ⟨⟩⟩
          cases parked
        refine orderly_compensate _ ⟨?_, rfl, keptNow.freed nowOpen rfl rfl (by decide)⟩
        rw [Run.lifePhase_on, phaseNow]
        rfl

/-! ### Waits and joins -/

/-- `run` is `old` after events that move no step. -/
structure Behind (old run : Run) : Prop where
  kept : Kept run
  phase : run.lifePhase = some .open_
  steps : run.steps = old.steps
  queued : run.row.state = .queued ↔ old.row.state = .queued
  moves : run.row.state.moves = old.row.state.moves

theorem Kept.phase_open (kept : Kept run) (unfinished : run.row.finishedAt = none) : run.lifePhase = some .open_ := by
  obtain ⟨now, read, open_⟩ := kept.phase
  rw [read, open_.mpr unfinished]

theorem Behind.refl (kept : Kept run) (unfinished : run.row.finishedAt = none) : Behind run run :=
  ⟨kept, kept.phase_open unfinished, rfl, .rfl, rfl⟩

def RunEvent.tells : RunEvent → Bool
  | .signalReceived .. | .waitEventTaken .. | .timerFired .. | .deadlineReached _ => true
  | _ => false

theorem Behind.on (behind : Behind old run) (def_ : WorkflowDef) {event : RunEvent} (tells : event.tells = true) (seq : Nat) :
    Fits def_ run event ∧ Behind old (run.on seq event) := by
  have legal : (run.lifePhase.bind (·.on event)).isSome := by
    rw [behind.phase]
    rfl
  have fits : Fits def_ run event := by
    cases event with
    | signalReceived | waitEventTaken | timerFired | deadlineReached => exact ⟨legal, trivial⟩
    | _ => cases tells
  refine ⟨fits, behind.kept.on fits seq, ?_, ?_, ?_, ?_⟩
  · rw [Run.lifePhase_on, behind.phase]
    cases event with
    | signalReceived | waitEventTaken | timerFired | deadlineReached => rfl
    | _ => cases tells
  · cases event with
    | signalReceived | waitEventTaken | timerFired | deadlineReached => exact behind.steps
    | _ => cases tells
  · refine Iff.trans ?_ behind.queued
    cases event with
    | timerFired =>
      simp only [Run.on, Row.on]
      by_cases parked : run.row.state = .parked <;> simp [parked]
    | signalReceived | waitEventTaken | deadlineReached => exact .rfl
    | _ => cases tells
  · refine Eq.trans ?_ behind.moves
    cases event with
    | timerFired =>
      simp only [Run.on, Row.on]
      by_cases parked : run.row.state = .parked <;> simp [parked, RunState.moves]
    | signalReceived | waitEventTaken | deadlineReached => rfl
    | _ => cases tells

theorem Behind.tell (behind : Behind old run) {event : RunEvent} {rest : List RunEvent} (tells : event.tells = true)
    (after : ∀ told, Behind old told → told.steps = run.steps → Orderly def_ told (seq + 1) rest) :
    Orderly def_ run seq (event :: rest) := by
  obtain ⟨fits, next⟩ := behind.on def_ tells seq
  refine ⟨fits, ?_, after _ next ?_⟩
  · cases event with
    | signalReceived | waitEventTaken | timerFired | deadlineReached => exact ⟨nofun, nofun⟩
    | _ => cases tells
  · exact next.steps.trans behind.steps.symm

theorem orderly_fail {attempt : Nat} {error : String} {time : Nat} {cause : Option String} {cancelling : Bool}
    (keptOld : Kept old) (behind : Behind old run) (opened : run.isOpen (path, .do_) = true) (positive : 0 < attempt) :
    Orderly def_ run seq
      (beginCompensation def_ old env [.nodeFailed path .do_ attempt error time] true cause cancelling) := by
  have fits : Fits def_ run (.nodeFailed path .do_ attempt error time) := by
    refine ⟨?_, opened, positive⟩
    rw [behind.phase]
    rfl
  apply orderly_begin keptOld
  · exact fun rest _ after => Orderly.append ⟨fits, ⟨nofun, nofun⟩, trivial⟩ after
  · exact behind.kept.on fits seq
  · exact behind.queued
  · refine .inl ?_
    show (run.on seq _).lifePhase = _
    rw [Run.lifePhase_on, behind.phase]
    rfl
  · exact behind.kept.freed opened rfl rfl (by decide)

theorem orderly_failWait {error : String} (keptOld : Kept old) (behind : Behind old run)
    (opened : run.isOpen (path, .do_) = true) : Orderly def_ run seq (failWait def_ old env path error) :=
  orderly_fail keptOld behind opened (by simp [attemptOf])

theorem orderly_deadNode {error : String} (keptOld : Kept old) (behind : Behind old run)
    (opened : run.isOpen (path, .do_) = true) : Orderly def_ run seq (deadNode def_ old env path error) := by
  simp only [deadNode]
  split
  · refine ⟨⟨?_, opened, by simp [attemptOf]⟩, ⟨nofun, nofun⟩, trivial⟩
    rw [behind.phase]
    rfl
  · exact orderly_fail keptOld behind opened (by simp [attemptOf])

theorem orderly_deadline (keptOld : Kept old) (behind : Behind old run) :
    Orderly def_ run seq (deadlineEvents def_ old env) := by
  obtain ⟨fits, next⟩ := @Behind.on _ _ behind def_ (.deadlineReached env.now) rfl seq
  apply orderly_begin keptOld
  · exact fun rest _ after => Orderly.append ⟨fits, ⟨nofun, nofun⟩, trivial⟩ after
  · exact next.kept
  · exact next.queued
  · exact .inl next.phase
  · exact next.steps

theorem Behind.settle (behind : Behind old run) (def_ : WorkflowDef) (opened : run.isOpen (path, .do_) = true)
    {event : RunEvent} {status : StepStatus} (settles : event.settles = true) (moved : event.moves = some ((path, .do_), status)) (seq : Nat) :
    Fits def_ run event ∧ Kept (run.on seq event) ∧ (run.on seq event).lifePhase = some .open_ ∧
      (run.on seq event).row.state = run.row.state ∧ ∀ node, (run.on seq event).isOpen (node, .do_) = false := by
  have legal : (run.lifePhase.bind (·.on event)).isSome := by
    rw [behind.phase]
    rfl
  have shape : (∃ result by_ time, event = .nodeCompleted path .do_ result by_ time ∧ status = .done) ∨
      ∃ cause reason time, event = .nodeSkipped path .do_ cause reason time ∧ status = .skipped := by
    cases event with
    | nodeCompleted node phase result by_ time =>
      cases moved
      exact .inl ⟨result, by_, time, rfl, rfl⟩
    | nodeSkipped node phase cause reason time =>
      cases moved
      exact .inr ⟨cause, reason, time, rfl, rfl⟩
    | _ => cases settles
  have fits : Fits def_ run event := by
    rcases shape with ⟨result, by_, time, rfl, -⟩ | ⟨cause, reason, time, rfl, -⟩
    all_goals exact ⟨legal, opened⟩
  have notPlan : event.isPlan = false := by
    rcases shape with ⟨result, by_, time, rfl, -⟩ | ⟨cause, reason, time, rfl, -⟩
    all_goals rfl
  refine ⟨fits, behind.kept.on fits seq, ?_, ?_, fun node => ?_⟩
  · rw [Run.lifePhase_on, behind.phase]
    rcases shape with ⟨result, by_, time, rfl, -⟩ | ⟨cause, reason, time, rfl, -⟩
    all_goals rfl
  · rcases shape with ⟨result, by_, time, rfl, -⟩ | ⟨cause, reason, time, rfl, -⟩
    · rfl
    · simp only [Run.on, Row.on]
      split <;> rfl
  · rw [Run.isOpen_on notPlan, moved]
    by_cases same : (node, StepPhase.do_) = (path, .do_)
    · simp only [if_pos same]
      rcases shape with ⟨result, by_, time, -, rfl⟩ | ⟨cause, reason, time, -, rfl⟩
      all_goals rfl
    · simp only [if_neg same]
      cases open_ : run.isOpen (node, .do_) with
      | false => rfl
      | true => exact absurd (behind.kept.single node path open_ opened ▸ rfl) same

theorem orderly_settled {event : RunEvent} {status : StepStatus} {other : Run} {route : Route} (behind : Behind old run)
    (opened : run.isOpen (path, .do_) = true) (settles : event.settles = true)
    (moved : event.moves = some ((path, .do_), status)) (going : run.row.state.moves = true) :
    Orderly def_ run seq (event :: eventsAfter other env route) := by
  obtain ⟨fits, kept, phase, state, closed⟩ := behind.settle def_ opened settles moved seq
  have notCancel : event.isCancel = true → run.row.finishedAt.isSome = true → False := by
    cases event with
    | cancelRequested => cases settles
    | _ => exact nofun
  cases route with
  | node name =>
    refine ⟨fits, ⟨fun _ _ => rfl, fun cancel ended => (notCancel cancel ended).elim⟩, ⟨?_, ?_, .inl ⟨rfl, closed⟩⟩, ⟨nofun, nofun⟩, trivial⟩
    · rw [phase]
      rfl
    · rw [state]
      exact going
  | finish output keepUntil =>
    refine ⟨fits, ⟨fun _ _ => rfl, fun cancel ended => (notCancel cancel ended).elim⟩, ⟨?_, closed⟩, ⟨nofun, nofun⟩, trivial⟩
    rw [phase]
    rfl

theorem orderly_completeWait {result : Value} (keptOld : Kept old) (behind : Behind old run)
    (opened : run.isOpen (path, .do_) = true) (going : run.row.state.moves = true) :
    Orderly def_ run seq (completeWait def_ old env path result) := by
  simp only [completeWait]
  split
  · exact orderly_failWait keptOld behind opened
  · exact orderly_settled behind opened rfl rfl going

theorem orderly_wakeOnSignal {wait : SignalWait} {payload : Value} (keptOld : Kept old) (behind : Behind old run)
    (opened : run.isOpen (path, .do_) = true) (going : run.row.state.moves = true) :
    Orderly def_ run seq (wakeOnSignal def_ old env path wait payload) := by
  simp only [wakeOnSignal]
  split
  · exact orderly_failWait keptOld behind opened
  split
  · exact orderly_failWait keptOld behind opened
  · exact orderly_completeWait keptOld behind opened going

theorem orderly_takeEvent {label : String} {stored : StoredEvent} (keptOld : Kept old) (behind : Behind old run)
    (opened : run.isOpen (path, .do_) = true) (going : run.row.state.moves = true) :
    Orderly def_ run seq (takeEvent def_ old env path label stored) := by
  simp only [takeEvent]
  split
  · exact orderly_failWait keptOld behind opened
  · apply behind.tell rfl
    intro told next steps
    have still : told.isOpen (path, .do_) = true := (Run.isOpen_steps steps _).trans opened
    exact orderly_completeWait keptOld next still (next.moves.trans (behind.moves.symm.trans going))

theorem orderly_wakeOnEvent {sources : List EventSource} (keptOld : Kept old) (behind : Behind old run)
    (opened : run.isOpen (path, .do_) = true) (going : run.row.state.moves = true) :
    Orderly def_ run seq (wakeOnEvent def_ old env path sources) := by
  simp only [wakeOnEvent]
  split
  · exact orderly_failWait keptOld behind opened
  · trivial
  · exact orderly_takeEvent keptOld behind opened going

/-! ### Attempts -/

/-- An outcome is about its phase, a park says what its node waits for, and only a compensating run drops a node. -/
def Outcome.Apt (def_ : WorkflowDef) (run : Run) (path : String) (phase : StepPhase) : Outcome → Prop
  | .undone _ => phase = .undo
  | .retry .. | .dead _ => True
  | .park waitingFor .. =>
    phase = .do_ ∧ ∀ wait fails, def_.node path = some ⟨path, .waitFor wait fails⟩ → waitingFor = some wait.signal
  | .dropped => phase = .do_ ∧ run.row.state = .compensating
  | _ => phase = .do_

structure Draft.Sound (def_ : WorkflowDef) (run : Run) (draft : Draft) : Prop where
  row : draft.run.row = run.row
  log : draft.run.log = run.log
  steps : draft.run.steps = run.steps
  orderly : ∀ seq, Orderly def_ draft.run seq draft.events

theorem Draft.Sound.idle : Draft.Sound def_ run (.idle run) := ⟨rfl, rfl, rfl, fun _ => trivial⟩

theorem Draft.Sound.of_events {events : List RunEvent} (orderly : ∀ seq, Orderly def_ run seq events) :
    Draft.Sound def_ run ⟨run, events⟩ := ⟨rfl, rfl, rfl, orderly⟩

theorem Kept.of_same {other : Run} (kept : Kept run) (row : other.row = run.row) (log : other.log = run.log)
    (steps : other.steps = run.steps) : Kept other := by
  have status (key : String × StepPhase) : other.status key = run.status key := by
    unfold Run.status
    rw [steps]
  have open_ (key : String × StepPhase) : other.isOpen key = run.isOpen key := Run.isOpen_steps steps key
  have scheduled (key : String × StepPhase) : other.isScheduled key = run.isScheduled key := Run.isScheduled_steps steps key
  constructor
  · simpa only [Run.lifePhase, Run.events, log, row] using kept.phase
  · intro path
    have was := kept.visits path
    simp only [Run.visiting, Run.events, log, open_] at was ⊢
    exact was
  · simpa only [open_] using kept.single
  · simpa only [scheduled, row] using kept.onRow
  · simpa only [open_, steps] using kept.attempts
  · simpa only [open_, scheduled, row] using kept.undoing
  · simpa only [row, steps, Run.settled, log] using kept.queued
  · simpa only [row] using kept.ended

theorem Kept.going (kept : Kept run) (unfinished : run.row.finishedAt = none) {key : String × StepPhase}
    (opened : run.isOpen key = true) : run.row.state = .compensating ∨ run.row.state.moves = true := by
  have live := kept.ended.mp unfinished
  have notQueued : run.row.state ≠ .queued := by
    intro queued
    simp [Run.isOpen, Run.status, (kept.queued queued).1] at opened
  cases state : run.row.state with
  | queued => exact absurd state notQueued
  | running | parked => exact .inr rfl
  | compensating => exact .inl rfl
  | _ =>
    rw [state] at live
    rcases live with live | live <;> cases live

theorem Run.openAttempt_iff {phase : StepPhase} {attempt : Nat} : run.openAttempt path phase attempt = true ↔
    run.row.finishedAt = none ∧ run.isOpen (path, phase) = true ∧
      ∃ step, run.steps.lookup (path, phase) = some step ∧ step.attempt = attempt := by
  rw [Run.isOpen_iff]
  simp only [Run.openAttempt, Run.status, Bool.and_eq_true, Option.isNone_iff_eq_none]
  cases run.steps.lookup (path, phase) with
  | none => simp
  | some step =>
    simp only [Option.any_some, Option.map_some, Option.some.injEq, Bool.and_eq_true, Bool.or_eq_true, decide_eq_true_eq]
    constructor
    · rintro ⟨unfinished, same, opened⟩
      exact ⟨unfinished, opened, step, rfl, same⟩
    · rintro ⟨unfinished, opened, _, rfl, same⟩
      exact ⟨unfinished, same, opened⟩

theorem oldestSignal_none {signals : List Signal} {name : String} (none_ : oldestSignal signals name = none) :
    ∀ signal ∈ signals, signal.awaits name = false := by
  intro signal member
  cases awaits : signal.awaits name with
  | false => rfl
  | true =>
    have listed : signal ∈ Ordered.inOrder Signal.age (signals.filter (·.awaits name)) :=
      Ordered.mem_inOrder.mpr (List.mem_filter.mpr ⟨member, awaits⟩)
    rw [List.head?_eq_none_iff.mp none_] at listed
    cases listed

section Answer

variable {phase : StepPhase} {attempt : Nat}

theorem Kept.undoes (kept : Kept run) (unfinished : run.row.finishedAt = none) (opened : run.isOpen (path, .do_) = true)
    (compensating : run.row.state = .compensating) {event : RunEvent} {status : StepStatus} (fits : Fits def_ run event)
    (moved : event.moves = some ((path, .do_), status)) (done : status ≠ .scheduled) (seq : Nat) :
    Undoing (run.on seq event) := by
  have notPlan : event.isPlan = false := by
    cases event with
    | childrenPlanned => cases moved
    | _ => rfl
  have ends : event.ends = false := by
    cases event with
    | runCompleted | runFailed | runCancelled | runExpired => cases moved
    | _ => rfl
  refine ⟨?_, ?_, kept.freed opened notPlan moved done⟩
  · rw [Run.lifePhase_on, kept.phase_open unfinished, Option.bind_some, LifePhase.on, ends]
    rfl
  · show (run.row.on event).state = _
    cases event with
    | nodeScheduled => cases moved; exact absurd rfl done
    | nodeCompleted node phase => cases phase <;> exact compensating
    | nodeSkipped node phase =>
      cases phase with
      | do_ =>
        simp only [Row.on]
        split <;> exact compensating
      | undo => exact compensating
    | nodeFailed => exact compensating
    | _ => cases moved

theorem orderly_dropped (kept : Kept run) (unfinished : run.row.finishedAt = none) (opened : run.isOpen (path, .do_) = true)
    (compensating : run.row.state = .compensating) {event : RunEvent} {status : StepStatus} (fits : Fits def_ run event)
    (moved : event.moves = some ((path, .do_), status)) (done : status ≠ .scheduled) {options : CompensateOptions} :
    Orderly def_ run seq (event :: compensate def_ run env options) := by
  refine ⟨fits, ⟨?_, ?_⟩, orderly_compensate options (kept.undoes unfinished opened compensating fits moved done seq)⟩
  · intro _ parked
    rw [compensating] at parked
    cases parked
  · intro _ ended
    rw [unfinished] at ended
    cases ended

theorem orderly_failedWhileCompensating {error : String} (kept : Kept run) (unfinished : run.row.finishedAt = none)
    (opened : run.isOpen (path, .do_) = true) (compensating : run.row.state = .compensating) (positive : 0 < attempt) :
    Orderly def_ run seq (failedWhileCompensating def_ run env path attempt error) := by
  refine orderly_dropped kept unfinished opened compensating ?_ rfl ?_
  · refine ⟨?_, opened, positive⟩
    rw [kept.phase_open unfinished]
    rfl
  · exact nofun

theorem orderly_refusedPark {events : List RunEvent} (kept : Kept run) (unfinished : run.row.finishedAt = none)
    (opened : run.isOpen (path, .do_) = true) (notParked : run.row.state ≠ .parked)
    (refused : refusedPark def_ run env path = some events) : Orderly def_ run seq events := by
  have behind := Behind.refl kept unfinished
  simp only [refusedPark] at refused
  split at refused
  · next compensating =>
    cases refused
    refine orderly_dropped kept unfinished opened compensating ?_ rfl ?_
    · refine ⟨?_, opened⟩
      rw [kept.phase_open unfinished]
      rfl
    · exact nofun
  · next going =>
    split at refused
    · cases refused
      obtain ⟨reached, next⟩ := @Behind.on _ _ behind def_ (.deadlineReached env.now) rfl seq
      have still : (run.on seq (.deadlineReached env.now)).isOpen (path, .do_) = true := by
        rw [Run.isOpen_on rfl]
        exact opened
      obtain ⟨fits, settled, phase, state, closed⟩ :=
        @Behind.settle _ _ path next def_ still (droppedNode env path) .skipped rfl rfl (seq + 1)
      apply orderly_begin kept
      · intro rest _ after
        have head : Orderly def_ run seq [.deadlineReached env.now, droppedNode env path] :=
          ⟨reached, ⟨nofun, nofun⟩, fits, ⟨fun _ parked => absurd parked notParked, nofun⟩, trivial⟩
        exact head.append after
      · exact settled
      · show ((run.on seq (.deadlineReached env.now)).on (seq + 1) (droppedNode env path)).row.state = .queued ↔ _
        rw [state]
        exact .rfl
      · exact .inl phase
      · intro node
        show ((run.on seq (.deadlineReached env.now)).on (seq + 1) (droppedNode env path)).isScheduled (node, .do_) = false
        cases scheduled : ((run.on seq (.deadlineReached env.now)).on (seq + 1) (droppedNode env path)).isScheduled (node, .do_) with
        | false => rfl
        | true =>
          have open_ := Run.isOpen_scheduled scheduled
          rw [closed node] at open_
          cases open_
    · cases refused

theorem WorkflowDef.node_name {node : Node} (found : def_.node path = some node) : node.name = path :=
  of_decide_eq_true (@List.find?_some _ (fun node : Node => decide (node.name = path)) node _ found)

theorem sound_parkNode {node : Node} {waitingFor : Option String} {wakeAt : Option Nat} {keys : List WaitKey} (kept : Kept run)
    (unfinished : run.row.finishedAt = none) (opened : run.isOpen (path, .do_) = true) (running : run.row.state = .running)
    (found : def_.node path = some node)
    (names : ∀ wait fails, def_.node path = some ⟨path, .waitFor wait fails⟩ → waitingFor = some wait.signal) :
    (parkNode def_ run env node waitingFor wakeAt keys).Sound def_ run := by
  obtain ⟨name, kind⟩ := node
  have same : name = path := WorkflowDef.node_name found
  subst same
  have behind := Behind.refl kept unfinished
  have going : run.row.state.moves = true := by
    rw [running]
    rfl
  -- the park itself, once no signal waits
  have parks (other : Run) (row : other.row = run.row) (log : other.log = run.log) (steps : other.steps = run.steps)
      (quiet : ∀ wait fails, kind = .waitFor wait fails → ∀ signal ∈ other.signals, signal.awaits wait.signal = false) :
      Draft.Sound def_ run ⟨other, [.parked name waitingFor wakeAt env.now]⟩ := by
    refine ⟨row, log, steps, fun seq => ⟨⟨?_, by rw [row, running], ?_, ?_⟩, ⟨nofun, nofun⟩, trivial⟩⟩
    · have keptOther := kept.of_same row log steps
      rw [keptOther.phase_open (by rw [row, unfinished])]
      rfl
    · exact (Run.isOpen_steps steps _).trans opened
    · intro wait fails node
      rw [found] at node
      cases node
      exact ⟨names wait fails found, quiet wait fails rfl⟩
  simp only [parkNode]
  cases kind with
  | waitFor wait fails =>
    simp only
    cases oldest : oldestSignal run.signals wait.signal with
    | none =>
      refine parks run rfl rfl rfl fun other fails same => ?_
      cases same
      exact oldestSignal_none oldest
    | some early =>
      refine ⟨rfl, rfl, rfl, fun seq => ?_⟩
      have keptTaken : Kept (run.takeSignal early name env.now) := kept.of_same rfl rfl rfl
      exact orderly_wakeOnSignal keptTaken (.refl keptTaken unfinished) opened going
  | eventWait sources fails =>
    simp only
    split
    · exact .of_events fun seq => orderly_failWait kept behind opened
    · exact .of_events fun seq => orderly_takeEvent kept behind opened going
    · exact parks _ rfl rfl rfl nofun
  | _ => exact parks run rfl rfl rfl nofun

theorem sound_answer {outcome : Outcome} {draft : Draft} (kept : Kept run) (attempted : run.openAttempt path phase attempt = true)
    (apt : outcome.Apt def_ run path phase) (answered : answer def_ run env path phase attempt outcome = some draft) : draft.Sound def_ run := by
  obtain ⟨unfinished, opened, step, found, number⟩ := Run.openAttempt_iff.mp attempted
  have legal (event : RunEvent) : (run.lifePhase.bind (·.on event)).isSome := by
    rw [kept.phase_open unfinished]
    rfl
  have behind := Behind.refl kept unfinished
  -- an undo is open while the run compensates, with no attempt in flight
  have undoing (undo : phase = .undo) : Undoing run := by
    subst undo
    obtain ⟨still, free⟩ := kept.undoing path opened
    rcases kept.going unfinished opened with compensating | moves
    · exact ⟨kept.phase_open unfinished, compensating, free⟩
    · rw [still] at moves
      cases moves
  have doOpen (isDo : phase = .do_) : run.isOpen (path, .do_) = true := isDo ▸ opened
  have positive (isDo : phase = .do_) : 0 < attempt := by
    subst isDo
    exact number ▸ kept.attempts path step found opened
  have moves (isDo : phase = .do_) (going : run.row.state ≠ .compensating) : run.row.state.moves = true :=
    (kept.going unfinished opened).resolve_left going
  simp only [answer] at answered
  cases outcome with
  | completed result route resolvedBy =>
    have isDo : phase = .do_ := apt
    subst isDo
    cases answered
    refine .of_events fun seq => ?_
    split
    · next compensating => exact orderly_dropped kept unfinished opened compensating ⟨legal _, opened⟩ rfl (by decide)
    · next going => exact orderly_settled behind opened rfl rfl (moves rfl going)
  | skipped reason route =>
    have isDo : phase = .do_ := apt
    subst isDo
    cases answered
    refine .of_events fun seq => ?_
    split
    · next compensating => exact orderly_dropped kept unfinished opened compensating ⟨legal _, opened⟩ rfl (by decide)
    · next going => exact orderly_settled behind opened rfl rfl (moves rfl going)
  | undone result =>
    have isUndo : phase = .undo := apt
    subst isUndo
    cases answered
    refine .of_events fun seq => ?_
    obtain ⟨fits, next⟩ := (undoing rfl).settled def_ seq (.inl ⟨path, result, none, env.now, rfl⟩)
    exact ⟨fits, ⟨nofun, nofun⟩, orderly_compensate _ next⟩
  | retry error key due =>
    simp only at answered
    split at answered
    · next both =>
      cases answered
      exact .of_events fun seq => orderly_failedWhileCompensating kept unfinished (doOpen both.2) both.1 (positive both.2)
    · next notBoth =>
      cases answered
      refine .of_events fun seq => ?_
      cases phase with
      | do_ =>
        have going : run.row.state ≠ .compensating := fun compensating => notBoth ⟨compensating, rfl⟩
        have fits : Fits def_ run (.nodeFailed path .do_ attempt error env.now) := ⟨legal _, opened, positive rfl⟩
        refine ⟨fits, ⟨nofun, nofun⟩, ⟨?_, moves rfl going, .inr ⟨by have := positive rfl; omega, ?_, ?_⟩⟩, ⟨nofun, nofun⟩, trivial⟩
        · rw [Run.lifePhase_on, kept.phase_open unfinished]
          rfl
        · rw [Run.isOpen_on rfl]
          simp [RunEvent.moves]
        · exact kept.freed opened rfl rfl (by decide) path
      | undo =>
        have now := undoing rfl
        have fits : Fits def_ run (.nodeFailed path .undo attempt error env.now) := ⟨legal _, now.state, now.free⟩
        refine ⟨fits, ⟨nofun, nofun⟩, ⟨?_, now.state, fun node => ?_⟩, ⟨nofun, nofun⟩, trivial⟩
        · rw [Run.lifePhase_on, kept.phase_open unfinished]
          rfl
        · rw [Run.isScheduled_on rfl]
          simpa [RunEvent.moves] using now.free node
  | dead error =>
    simp only at answered
    split at answered
    · next both =>
      cases answered
      exact .of_events fun seq => orderly_failedWhileCompensating kept unfinished (doOpen both.2) both.1 (positive both.2)
    split at answered
    · cases answered
      refine .of_events fun seq => ⟨?_, ⟨nofun, nofun⟩, trivial⟩
      cases phase with
      | do_ => exact ⟨legal _, opened, positive rfl⟩
      | undo => exact ⟨legal _, (undoing rfl).state, (undoing rfl).free⟩
    · next live =>
      cases answered
      have isDo : phase = .do_ := by
        cases phase with
        | do_ => rfl
        | undo => exact absurd (.inl rfl) live
      subst isDo
      exact .of_events fun seq => orderly_fail kept behind opened (positive rfl)
  | transitionLimit error =>
    have isDo : phase = .do_ := apt
    subst isDo
    simp only at answered
    split at answered
    · next both =>
      cases answered
      exact .of_events fun seq => orderly_failedWhileCompensating kept unfinished opened both.1 (positive rfl)
    · cases answered
      exact .of_events fun seq => orderly_fail kept behind opened (positive rfl)
  | children plan =>
    have isDo : phase = .do_ := apt
    subst isDo
    simp only at answered
    split at answered
    · cases answered
      exact .idle
    · next notParked =>
      split at answered
      · cases answered
      · next node fan =>
        split at answered
        · next refused =>
          cases answered
          exact .of_events fun seq => orderly_refusedPark kept unfinished opened notParked refused
        · next allowed =>
          cases answered
          have going : run.row.state ≠ .compensating := by
            intro compensating
            rw [refusedPark, if_pos compensating] at allowed
            cases allowed
          obtain ⟨here, isFan⟩ := Option.filter_eq_some_iff.mp fan
          exact .of_events fun seq => ⟨⟨legal _, moves rfl going, opened, node, here, isFan⟩, ⟨nofun, nofun⟩, trivial⟩
  | park waitingFor wakeAt keys =>
    obtain ⟨rfl, names⟩ := apt
    simp only at answered
    split at answered
    · cases answered
      exact .idle
    · next notParked =>
      split at answered
      · cases answered
      · next node wait =>
        split at answered
        · next refused =>
          cases answered
          exact .of_events fun seq => orderly_refusedPark kept unfinished opened notParked refused
        · next allowed =>
          cases answered
          have going : run.row.state ≠ .compensating := by
            intro compensating
            rw [refusedPark, if_pos compensating] at allowed
            cases allowed
          have running : run.row.state = .running := by
            have live := moves rfl going
            cases state : run.row.state with
            | running => rfl
            | parked => exact absurd state notParked
            | _ =>
              rw [state] at live
              cases live
          exact sound_parkNode kept unfinished opened running (Option.filter_eq_some_iff.mp wait).1 names
  | dropped =>
    obtain ⟨rfl, compensating⟩ := apt
    cases answered
    exact .of_events fun seq =>
      orderly_dropped kept unfinished opened compensating ⟨legal _, opened⟩ rfl (by decide)
  | expired =>
    have isDo : phase = .do_ := apt
    subst isDo
    simp only at answered
    split at answered
    · cases answered
      refine .of_events fun seq => ?_
      obtain ⟨fits, -, open_, -, closed⟩ :=
        @Behind.settle _ _ path behind def_ opened (.nodeSkipped path .do_ .expired expiredReason env.now) .skipped rfl rfl seq
      refine ⟨fits, ⟨fun _ _ => rfl, nofun⟩, ⟨by rw [open_]; rfl, fun node => ?_⟩, ⟨nofun, nofun⟩, trivial⟩
      have shut := closed node
      simp only [Run.isOpen, Bool.or_eq_false_iff] at shut
      exact shut.1
    · cases answered
      exact .idle

end Answer

end Arki.Workflow
