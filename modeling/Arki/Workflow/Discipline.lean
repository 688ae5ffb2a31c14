import Arki.Workflow.Admission
import Arki.Workflow.Life

/-! When an event may be written, and what every event that may keeps of its run. -/

set_option autoImplicit false

namespace Arki.Workflow

/-- The life of a run: an event that ends it is the last, until the parent's compensation reopens it. -/
inductive LifePhase where
  | open_
  | ended
  | reopening
  deriving DecidableEq

def LifePhase.on : LifePhase → RunEvent → Option LifePhase
  | .open_, event => some (if event.ends then .ended else .open_)
  | .ended, .cancelRequested .. => some .reopening
  | .reopening, .compensationStarted _ => some .open_
  | _, _ => none

/-- Whether the run is on a visit of the node: a visit begins with the first attempt, and is settled once. -/
def onVisit (path : String) (visiting : Bool) : RunEvent → Option Bool
  | .nodeScheduled node .do_ attempt .. =>
    if node = path ∧ attempt = 1 then if visiting then none else some true else some visiting
  | .nodeCompleted node .do_ .. | .nodeSkipped node .do_ .. =>
    if node = path then if visiting then some false else none else some visiting
  | _ => some visiting

namespace Run

variable (run : Run)

def events : List RunEvent := run.log.map (·.event)

def lifePhase : Option LifePhase := Arki.Run.run LifePhase.on .open_ run.events

def visiting (path : String) : Option Bool := Arki.Run.run (onVisit path) false run.events

def status (key : String × StepPhase) : Option StepStatus := (run.steps.lookup key).map (·.status)

def isOpen (key : String × StepPhase) : Bool := run.status key = some .scheduled || run.status key = some .failed

def isScheduled (key : String × StepPhase) : Bool := run.status key = some .scheduled

end Run

def RunState.moves : RunState → Bool
  | .running | .parked => true
  | _ => false

def Fits (def_ : WorkflowDef) (run : Run) (event : RunEvent) : Prop :=
  (run.lifePhase.bind (·.on event)).isSome ∧ match event with
    | .runStarted _ | .runQueued .. => False
    | .runDequeued _ => run.row.state = .queued
    | .nodeScheduled path .do_ attempt .. => run.row.state.moves ∧
        (attempt = 1 ∧ (∀ node, run.isOpen (node, .do_) = false) ∨
          1 < attempt ∧ run.isOpen (path, .do_) ∧ run.isScheduled (path, .do_) = false)
    | .nodeScheduled _ .undo .. => run.row.state = .compensating ∧ ∀ node, run.isScheduled (node, .do_) = false
    | .nodeCompleted path .do_ .. | .nodeSkipped path .do_ .. => run.isOpen (path, .do_)
    | .nodeFailed path .do_ attempt .. => run.isOpen (path, .do_) ∧ 0 < attempt
    | .nodeFailed _ .undo .. => run.row.state = .compensating ∧ ∀ node, run.isScheduled (node, .do_) = false
    | .nodeCompleted _ .undo .. | .nodeSkipped _ .undo .. => run.row.state = .compensating
    | .parked path waitingFor .. => run.row.state = .running ∧ run.isOpen (path, .do_) ∧
        ∀ wait fails, def_.node path = some ⟨path, .waitFor wait fails⟩ →
          waitingFor = some wait.signal ∧ ∀ signal ∈ run.signals, signal.awaits wait.signal = false
    | .childrenPlanned plan _ => run.row.state.moves ∧ run.isOpen (plan.path, .do_) ∧
        ∃ node, def_.node plan.path = some node ∧ node.kind.isFan
    | .cancelRequested .. => run.row.finishedAt.isSome → run.row.state = .completed
    | .compensationStarted _ => run.row.state ≠ .queued
    | .runCompleted .. => ∀ node, run.isOpen (node, .do_) = false
    | .runFailed .. | .runCancelled .. | .runExpired .. => ∀ node, run.isScheduled (node, .do_) = false
    | _ => True

def RunEvent.settles : RunEvent → Bool
  | .nodeCompleted _ .do_ .. | .nodeSkipped _ .do_ .. => true
  | _ => false

def RunEvent.unparks : RunEvent → Bool
  | .nodeScheduled .. | .compensationStarted _ => true
  | event => event.ends

def RunEvent.isPlan : RunEvent → Bool
  | .childrenPlanned .. => true
  | _ => false

def RunEvent.isCancel : RunEvent → Bool
  | .cancelRequested .. => true
  | _ => false

def RunEvent.isStart : RunEvent → Bool
  | .compensationStarted _ => true
  | _ => false

/-- What settles the node of a parked run is followed at once by what takes the run from its park, and the request that
reopens a run by the start of its compensation. -/
def Followed (run : Run) (event : RunEvent) (rest : List RunEvent) : Prop :=
  (event.settles → run.row.state = .parked → rest.head?.any (·.unparks)) ∧
    (event.isCancel → run.row.finishedAt.isSome → rest.head?.any (·.isStart))

def Orderly (def_ : WorkflowDef) (run : Run) (seq : Nat) : List RunEvent → Prop
  | [] => True
  | event :: rest => Fits def_ run event ∧ Followed run event rest ∧ Orderly def_ (run.on seq event) (seq + 1) rest

structure Kept (run : Run) : Prop where
  phase : ∃ phase, run.lifePhase = some phase ∧ (phase = .open_ ↔ run.row.finishedAt = none)
  visits : ∀ path, run.visiting path = some (run.isOpen (path, .do_))
  /-- One `do` step is open at a time. -/
  single : ∀ first second, run.isOpen (first, .do_) → run.isOpen (second, .do_) → first = second
  onRow : ∀ path, run.isScheduled (path, .do_) → run.row.node = some path
  attempts : ∀ path step, run.steps.lookup (path, .do_) = some step → run.isOpen (path, .do_) → 0 < step.attempt
  undoing : ∀ path, run.isOpen (path, .undo) → run.row.state.moves = false ∧ ∀ node, run.isScheduled (node, .do_) = false
  queued : run.row.state = .queued → run.steps = ∅ ∧ run.settled = []
  ended : run.row.finishedAt = none ↔ run.row.state.isLive ∨ run.row.state = .compensating

section Event

variable {def_ : WorkflowDef} {run : Run} {seq : Nat} {event : RunEvent}

theorem Run.isOpen_iff {key : String × StepPhase} :
    run.isOpen key = true ↔ run.status key = some .scheduled ∨ run.status key = some .failed := by
  simp [Run.isOpen]

theorem Run.isOpen_scheduled {key : String × StepPhase} (scheduled : run.isScheduled key = true) : run.isOpen key = true :=
  Run.isOpen_iff.mpr (.inl (of_decide_eq_true scheduled))

def RunEvent.moves : RunEvent → Option ((String × StepPhase) × StepStatus)
  | .nodeScheduled path phase .. => some ((path, phase), .scheduled)
  | .nodeCompleted path phase .. => some ((path, phase), .done)
  | .nodeSkipped path phase .. => some ((path, phase), .skipped)
  | .nodeFailed path phase .. => some ((path, phase), .failed)
  | _ => none

section

-- The lemmas below unfold these at the same time: their equations are made once, here.
attribute [local simp] RunEvent.moves onVisit Steps.on

end

theorem Steps.settle_status (steps : Steps) (path : String) (phase : StepPhase) (status : StepStatus)
    (key : String × StepPhase) : ((steps.settle path phase status).lookup key).map (·.status) =
      if key = (path, phase) then some status else (steps.lookup key).map (·.status) := by
  by_cases same : key = (path, phase)
  · subst same
    simp only [Steps.settle, AList.lookup_insert, if_true, Option.map_some]
    cases steps.lookup (path, phase) <;> rfl
  · simp only [Steps.settle, AList.lookup_insert_ne same, if_neg same]

theorem Run.status_on (notPlan : event.isPlan = false) (key : String × StepPhase) :
    (run.on seq event).status key =
      match event.moves with
      | some (step, status) => if key = step then some status else run.status key
      | none => run.status key := by
  cases event with
  | nodeScheduled path phase =>
    by_cases same : key = (path, phase)
    · subst same
      simp [Run.status, Run.on, Steps.on, RunEvent.moves]
    · simp [Run.status, Run.on, Steps.on, RunEvent.moves, same, AList.lookup_insert_ne]
  | nodeFailed path phase =>
    by_cases same : key = (path, phase)
    · subst same
      simp only [Run.status, Run.on, Steps.on, RunEvent.moves, AList.lookup_insert, if_true, Option.map_some]
      cases run.steps.lookup (path, phase) <;> rfl
    · simp [Run.status, Run.on, Steps.on, RunEvent.moves, same, AList.lookup_insert_ne]
  | nodeCompleted | nodeSkipped => exact Steps.settle_status ..
  | childrenPlanned => cases notPlan
  | _ => rfl

theorem Run.status_planned (plan : Plan) (time : Nat) (key : String × StepPhase) :
    (run.on seq (.childrenPlanned plan time)).status key =
      if key = (plan.path, .do_) ∧ run.status key = some .failed then some .scheduled else run.status key := by
  simp only [Run.status, Run.on, Steps.on]
  cases found : run.steps.lookup (plan.path, .do_) with
  | none =>
    by_cases same : key = (plan.path, .do_)
    · subst same
      simp [found]
    · simp [same]
  | some step =>
    by_cases failed : step.status = .failed
    · simp only [failed, if_true, Steps.settle_status]
      by_cases same : key = (plan.path, .do_)
      · subst same
        simp [found, failed]
      · simp [same]
    · by_cases same : key = (plan.path, .do_)
      · subst same
        simp [found, failed]
      · simp [same, failed]

theorem Run.lifePhase_on : (run.on seq event).lifePhase = run.lifePhase.bind (·.on event) := by
  simp only [Run.lifePhase, Run.events, Run.on, List.map_append, List.map_cons, List.map_nil, Arki.Run.run_append]
  congr 1
  funext phase
  exact Option.bind_fun_some _

theorem Run.visiting_on (path : String) :
    (run.on seq event).visiting path = (run.visiting path).bind fun visiting => onVisit path visiting event := by
  simp only [Run.visiting, Run.events, Run.on, List.map_append, List.map_cons, List.map_nil, Arki.Run.run_append]
  congr 1
  funext visiting
  exact Option.bind_fun_some _

theorem Row.on_finishedAt (row : Row) (notEnd : event.ends = false) (notStart : event.isStart = false) :
    (row.on event).finishedAt = row.finishedAt := by
  cases event with
  | nodeCompleted path phase => cases phase <;> rfl
  | nodeSkipped path phase =>
    cases phase with
    | do_ =>
      simp only [Row.on]
      split <;> rfl
    | undo => rfl
  | compensationStarted => cases notStart
  | runCompleted | runFailed | runCancelled | runExpired => cases notEnd
  | _ => rfl

theorem Row.ends_finishedAt (row : Row) (ends : event.ends = true) : (row.on event).finishedAt ≠ none := by
  cases event with
  | runCompleted | runFailed | runCancelled | runExpired => exact Option.some_ne_none _
  | _ => cases ends

theorem Fits.unfinished (kept : Kept run) (fits : Fits def_ run event) (notCancel : event.isCancel = false)
    (notStart : event.isStart = false) : run.row.finishedAt = none := by
  obtain ⟨phase, read, open_⟩ := kept.phase
  have legal := fits.1
  rw [read, Option.bind_some] at legal
  cases phase with
  | open_ => exact open_.mp rfl
  | ended =>
    cases event with
    | cancelRequested => cases notCancel
    | _ => cases legal
  | reopening =>
    cases event with
    | compensationStarted => cases notStart
    | _ => cases legal

theorem Kept.phase_on (kept : Kept run) (fits : Fits def_ run event) :
    ∃ phase, (run.on seq event).lifePhase = some phase ∧ (phase = .open_ ↔ (run.on seq event).row.finishedAt = none) := by
  obtain ⟨phase, read, open_⟩ := kept.phase
  obtain ⟨next, moved⟩ := Option.isSome_iff_exists.mp fits.1
  refine ⟨next, Run.lifePhase_on.trans moved, ?_⟩
  rw [read, Option.bind_some] at moved
  show next = .open_ ↔ (run.row.on event).finishedAt = none
  cases phase with
  | open_ =>
    simp only [LifePhase.on, Option.some.injEq] at moved
    subst moved
    cases ends : event.ends with
    | true => simp [Row.ends_finishedAt run.row ends]
    | false =>
      simp only [Bool.false_eq_true, if_false, true_iff]
      cases start : event.isStart with
      | true =>
        cases event with
        | compensationStarted => rfl
        | _ => cases start
      | false => exact (Row.on_finishedAt run.row ends start).trans (open_.mp rfl)
  | ended =>
    cases event with
    | cancelRequested =>
      cases moved
      constructor
      · intro same
        cases same
      · intro unfinished
        cases open_.mpr unfinished
    | _ => cases moved
  | reopening =>
    cases event with
    | compensationStarted =>
      cases moved
      simp [Row.on]
    | _ => cases moved

theorem Run.isOpen_on (notPlan : event.isPlan = false) (key : String × StepPhase) :
    (run.on seq event).isOpen key =
      match event.moves with
      | some (step, status) => if key = step then status = .scheduled || status = .failed else run.isOpen key
      | none => run.isOpen key := by
  simp only [Run.isOpen, Run.status_on notPlan]
  cases event.moves with
  | none => rfl
  | some moved => by_cases same : key = moved.1 <;> simp [same]

theorem Run.isOpen_planned (plan : Plan) (time : Nat) (key : String × StepPhase) :
    (run.on seq (.childrenPlanned plan time)).isOpen key = run.isOpen key := by
  simp only [Run.isOpen, Run.status_planned]
  by_cases failed : key = (plan.path, .do_) ∧ run.status key = some .failed
  · rw [if_pos failed, failed.2]
    rfl
  · rw [if_neg failed]

theorem Kept.visits_on (kept : Kept run) (fits : Fits def_ run event) (path : String) :
    (run.on seq event).visiting path = some ((run.on seq event).isOpen (path, .do_)) := by
  rw [Run.visiting_on, kept.visits path, Option.bind_some]
  cases event with
  | childrenPlanned plan time =>
    rw [Run.isOpen_planned]
    rfl
  | nodeScheduled node phase attempt =>
    rw [Run.isOpen_on rfl]
    cases phase with
    | undo => simp [RunEvent.moves, onVisit]
    | do_ =>
      rcases fits.2.2 with ⟨first, closed⟩ | ⟨again, opened, _⟩
      · by_cases same : node = path
        · simp [RunEvent.moves, onVisit, same, first, closed path]
        · simp [RunEvent.moves, onVisit, same, Ne.symm same]
      · have later : attempt ≠ 1 := by omega
        by_cases same : node = path
        · subst same
          simp [RunEvent.moves, onVisit, later, opened]
        · simp [RunEvent.moves, onVisit, later, Ne.symm same]
  | nodeCompleted node phase | nodeSkipped node phase =>
    rw [Run.isOpen_on rfl]
    cases phase with
    | undo => simp [RunEvent.moves, onVisit]
    | do_ =>
      have opened : run.isOpen (node, .do_) = true := fits.2
      by_cases same : node = path
      · subst same
        simp [RunEvent.moves, onVisit, opened]
      · simp [RunEvent.moves, onVisit, same, Ne.symm same]
  | nodeFailed node phase =>
    rw [Run.isOpen_on rfl]
    cases phase with
    | undo => simp [RunEvent.moves, onVisit]
    | do_ =>
      have opened : run.isOpen (node, .do_) = true := fits.2.1
      by_cases same : node = path
      · subst same
        simp [RunEvent.moves, onVisit, opened]
      · simp [RunEvent.moves, onVisit, Ne.symm same]
  | _ =>
    rw [Run.isOpen_on rfl]
    rfl

theorem Run.isScheduled_on (notPlan : event.isPlan = false) (key : String × StepPhase) :
    (run.on seq event).isScheduled key =
      match event.moves with
      | some (step, status) => if key = step then decide (status = .scheduled) else run.isScheduled key
      | none => run.isScheduled key := by
  simp only [Run.isScheduled, Run.status_on notPlan]
  cases event.moves with
  | none => rfl
  | some moved => by_cases same : key = moved.1 <;> simp [same]

/-- A `do` step that is open was open, or its visit begins and no other is open. -/
theorem Fits.opened (fits : Fits def_ run event) {node : String} (opened : (run.on seq event).isOpen (node, .do_) = true) :
    run.isOpen (node, .do_) = true ∨
      (∀ other, run.isOpen (other, .do_) = false) ∧ event.moves = some ((node, .do_), .scheduled) := by
  cases event with
  | childrenPlanned => exact .inl (Run.isOpen_planned .. ▸ opened)
  | nodeScheduled path phase attempt =>
    rw [Run.isOpen_on rfl] at opened
    by_cases same : (node, StepPhase.do_) = (path, phase)
    · cases same
      rcases fits.2.2 with ⟨_, closed⟩ | ⟨_, was, _⟩
      · exact .inr ⟨closed, rfl⟩
      · exact .inl was
    · exact .inl (by simpa only [RunEvent.moves, if_neg same] using opened)
  | nodeFailed path phase attempt =>
    rw [Run.isOpen_on rfl] at opened
    by_cases same : (node, StepPhase.do_) = (path, phase)
    · cases same
      exact .inl fits.2.1
    · exact .inl (by simpa only [RunEvent.moves, if_neg same] using opened)
  | nodeCompleted path phase | nodeSkipped path phase =>
    rw [Run.isOpen_on rfl] at opened
    by_cases same : (node, StepPhase.do_) = (path, phase)
    · simp [RunEvent.moves, same] at opened
    · exact .inl (by simpa only [RunEvent.moves, if_neg same] using opened)
  | _ => exact .inl opened

theorem Kept.single_on (kept : Kept run) (fits : Fits def_ run event) (first second : String)
    (left : (run.on seq event).isOpen (first, .do_) = true) (right : (run.on seq event).isOpen (second, .do_) = true) :
    first = second := by
  rcases fits.opened left with was | ⟨closed, moved⟩
  · rcases fits.opened right with also | ⟨closed, -⟩
    · exact kept.single first second was also
    · rw [closed first] at was
      cases was
  · rcases fits.opened right with also | ⟨-, again⟩
    · rw [closed second] at also
      cases also
    · rw [moved] at again
      cases again
      rfl

/-- A `do` step that is scheduled was, or its attempt begins now, or its children are planned anew. -/
theorem Fits.scheduled (fits : Fits def_ run event) {node : String}
    (scheduled : (run.on seq event).isScheduled (node, .do_) = true) :
    run.isScheduled (node, .do_) = true ∨ run.row.state.moves = true ∧ (run.row.on event).node = some node := by
  cases event with
  | childrenPlanned plan =>
    by_cases same : node = plan.path
    · subst same
      exact .inr ⟨fits.2.1, rfl⟩
    · refine .inl ?_
      have other : ¬ ((node, StepPhase.do_) = (plan.path, .do_) ∧ run.status (node, .do_) = some .failed) := by
        rintro ⟨again, -⟩
        cases again
        exact same rfl
      simpa only [Run.isScheduled, Run.status_planned, if_neg other] using scheduled
  | nodeScheduled path phase attempt =>
    rw [Run.isScheduled_on rfl] at scheduled
    by_cases same : (node, StepPhase.do_) = (path, phase)
    · cases same
      exact .inr ⟨fits.2.1, rfl⟩
    · exact .inl (by simpa only [RunEvent.moves, if_neg same] using scheduled)
  | nodeFailed path phase | nodeCompleted path phase | nodeSkipped path phase =>
    rw [Run.isScheduled_on rfl] at scheduled
    by_cases same : (node, StepPhase.do_) = (path, phase)
    · simp [RunEvent.moves, same] at scheduled
    · exact .inl (by simpa only [RunEvent.moves, if_neg same] using scheduled)
  | _ => exact .inl scheduled

theorem Kept.onRow_on (kept : Kept run) (fits : Fits def_ run event) (node : String)
    (scheduled : (run.on seq event).isScheduled (node, .do_) = true) : (run.on seq event).row.node = some node := by
  show (run.row.on event).node = some node
  rcases fits.scheduled scheduled with was | ⟨-, now⟩
  · have here := kept.onRow node was
    cases event with
    | runStarted | runQueued => cases fits.2
    | nodeScheduled path phase =>
      cases phase with
      | undo =>
        rw [fits.2.2 node] at was
        cases was
      | do_ =>
        rcases fits.2.2 with ⟨-, closed⟩ | ⟨-, opened, -⟩
        · have open_ := Run.isOpen_scheduled was
          rw [closed node] at open_
          cases open_
        · rw [kept.single node path (Run.isOpen_scheduled was) opened]
          rfl
    | nodeCompleted path phase => cases phase <;> exact here
    | nodeSkipped path phase =>
      cases phase with
      | do_ =>
        simp only [Row.on]
        split <;> exact here
      | undo => exact here
    | parked path =>
      rw [kept.single node path (Run.isOpen_scheduled was) fits.2.2.1]
      rfl
    | childrenPlanned plan =>
      rw [kept.single node plan.path (Run.isOpen_scheduled was) fits.2.2.1]
      rfl
    | runCompleted =>
      have open_ := Run.isOpen_scheduled was
      rw [fits.2 node] at open_
      cases open_
    | runFailed | runCancelled | runExpired =>
      rw [fits.2 node] at was
      cases was
    | _ => exact here
  · exact now

theorem Kept.attempts_on (kept : Kept run) (fits : Fits def_ run event) (path : String) (step : Step)
    (found : (run.on seq event).steps.lookup (path, .do_) = some step)
    (opened : (run.on seq event).isOpen (path, .do_) = true) : 0 < step.attempt := by
  cases event with
  | nodeScheduled node phase attempt =>
    simp only [Run.on, Steps.on] at found
    by_cases same : (path, StepPhase.do_) = (node, phase)
    · cases same
      rw [AList.lookup_insert] at found
      cases found
      rcases fits.2.2 with ⟨first, -⟩ | ⟨later, -⟩
      · exact first ▸ Nat.one_pos
      · exact Nat.lt_of_succ_lt later
    · rw [AList.lookup_insert_ne same] at found
      rw [Run.isOpen_on rfl] at opened
      exact kept.attempts path step found (by simpa only [RunEvent.moves, if_neg same] using opened)
  | nodeFailed node phase attempt =>
    simp only [Run.on, Steps.on] at found
    by_cases same : (path, StepPhase.do_) = (node, phase)
    · cases same
      rw [AList.lookup_insert] at found
      have positive := fits.2.2
      cases was : run.steps.lookup (path, .do_) with
      | none =>
        rw [was] at found
        cases found
        exact positive
      | some old =>
        rw [was] at found
        cases found
        exact positive
    · rw [AList.lookup_insert_ne same] at found
      rw [Run.isOpen_on rfl] at opened
      exact kept.attempts path step found (by simpa only [RunEvent.moves, if_neg same] using opened)
  | nodeCompleted node phase | nodeSkipped node phase =>
    rw [Run.isOpen_on rfl] at opened
    by_cases same : (path, StepPhase.do_) = (node, phase)
    · simp [RunEvent.moves, same] at opened
    · simp only [Run.on, Steps.on, Steps.settle, AList.lookup_insert_ne same] at found
      exact kept.attempts path step found (by simpa only [RunEvent.moves, if_neg same] using opened)
  | childrenPlanned plan =>
    rw [Run.isOpen_planned] at opened
    simp only [Run.on, Steps.on] at found
    cases was : run.steps.lookup (plan.path, .do_) with
    | none =>
      rw [was] at found
      exact kept.attempts path step found opened
    | some old =>
      rw [was] at found
      by_cases failed : old.status = .failed
      · simp only [failed, if_true, Steps.settle, was] at found
        by_cases same : path = plan.path
        · subst same
          rw [AList.lookup_insert] at found
          cases found
          exact kept.attempts _ old was opened
        · rw [AList.lookup_insert_ne (fun again => same (congrArg Prod.fst again))] at found
          exact kept.attempts path step found opened
      · simp only [failed, if_false] at found
        exact kept.attempts path step found opened
  | _ => exact kept.attempts path step found opened

/-- An undo that is open was, or the run compensates with no attempt in flight. -/
theorem Fits.undoOpened (fits : Fits def_ run event) {path : String} (opened : (run.on seq event).isOpen (path, .undo) = true) :
    run.isOpen (path, .undo) = true ∨
      run.row.state = .compensating ∧ (run.row.on event).state = .compensating ∧
        ∀ node, run.isScheduled (node, .do_) = false := by
  cases event with
  | childrenPlanned => exact .inl (Run.isOpen_planned .. ▸ opened)
  | nodeScheduled node phase | nodeFailed node phase =>
    rw [Run.isOpen_on rfl] at opened
    by_cases same : (path, StepPhase.undo) = (node, phase)
    · cases same
      refine .inr ⟨fits.2.1, ?_, fits.2.2⟩
      simp [Row.on, fits.2.1]
    · exact .inl (by simpa only [RunEvent.moves, if_neg same] using opened)
  | nodeCompleted node phase | nodeSkipped node phase =>
    rw [Run.isOpen_on rfl] at opened
    by_cases same : (path, StepPhase.undo) = (node, phase)
    · simp [RunEvent.moves, same] at opened
    · exact .inl (by simpa only [RunEvent.moves, if_neg same] using opened)
  | _ => exact .inl opened

theorem Fits.starts (fits : Fits def_ run event) (still : run.row.state.moves = false) (notQueued : run.row.state ≠ .queued) :
    (run.row.on event).state.moves = false := by
  cases event with
  | runStarted | runQueued => cases fits.2
  | runDequeued => exact absurd fits.2 notQueued
  | nodeScheduled path phase =>
    cases phase with
    | do_ =>
      rw [fits.2.1] at still
      cases still
    | undo => simp [Row.on, fits.2.1, RunState.moves]
  | nodeCompleted path phase => cases phase <;> exact still
  | nodeSkipped path phase =>
    cases phase with
    | do_ =>
      simp only [Row.on]
      split <;> exact still
    | undo => exact still
  | parked =>
    rw [fits.2.1] at still
    cases still
  | childrenPlanned =>
    rw [fits.2.1] at still
    cases still
  | timerFired =>
    simp only [Row.on]
    split
    · next parked =>
      rw [parked] at still
      cases still
    · exact still
  | compensationStarted | runCompleted | runFailed | runCancelled | runExpired => rfl
  | _ => exact still

theorem Kept.undoing_on (kept : Kept run) (fits : Fits def_ run event) (path : String)
    (opened : (run.on seq event).isOpen (path, .undo) = true) :
    (run.on seq event).row.state.moves = false ∧ ∀ node, (run.on seq event).isScheduled (node, .do_) = false := by
  have were : run.row.state.moves = false ∧ (run.row.on event).state.moves = false ∧
      ∀ node, run.isScheduled (node, .do_) = false := by
    rcases fits.undoOpened opened with was | ⟨compensating, after, free⟩
    · obtain ⟨still, free⟩ := kept.undoing path was
      refine ⟨still, fits.starts still fun queued => ?_, free⟩
      have none_ := (kept.queued queued).1
      simp [Run.isOpen, Run.status, none_] at was
    · exact ⟨by rw [compensating]; rfl, by rw [after]; rfl, free⟩
  refine ⟨were.2.1, fun node => ?_⟩
  cases scheduled : (run.on seq event).isScheduled (node, .do_) with
  | false => rfl
  | true =>
    rcases fits.scheduled scheduled with was | ⟨moves, -⟩
    · rw [were.2.2 node] at was
      cases was
    · rw [were.1] at moves
      cases moves

theorem Kept.queued_on (kept : Kept run) (fits : Fits def_ run event) (queued : (run.on seq event).row.state = .queued) :
    (run.on seq event).steps = ∅ ∧ (run.on seq event).settled = [] := by
  have other : event.ofGate = false := by
    cases event with
    | runStarted | runQueued => cases fits.2
    | runDequeued => cases queued
    | _ => rfl
  have was := Row.on_queued other queued
  obtain ⟨none_, unsettled⟩ := kept.queued was
  have closed (key : String × StepPhase) : run.isOpen key = false := by simp [Run.isOpen, Run.status, none_]
  -- whatever moves a step needs one that is open, or a run that moves or compensates
  have bare : event.moves = none ∧ event.isPlan = false := by
    cases event with
    | nodeScheduled path phase =>
      cases phase with
      | do_ =>
        have needs := fits.2.1
        simp [was, RunState.moves] at needs
      | undo =>
        have needs := fits.2.1
        simp [was] at needs
    | nodeCompleted path phase | nodeSkipped path phase =>
      have needs := fits.2
      cases phase <;> simp [was, closed] at needs
    | nodeFailed path phase =>
      cases phase with
      | do_ =>
        have needs := fits.2.1
        simp [closed] at needs
      | undo =>
        have needs := fits.2.1
        simp [was] at needs
    | childrenPlanned =>
      have needs := fits.2.1
      simp [was, RunState.moves] at needs
    | _ => exact ⟨rfl, rfl⟩
  simp only [Run.settled] at unsettled
  cases event with
  | nodeScheduled | nodeCompleted | nodeSkipped | nodeFailed => cases bare.1
  | childrenPlanned => cases bare.2
  | _ => exact ⟨none_, by simp [Run.settled, Run.on, unsettled]⟩

theorem RunState.moves_live {state : RunState} (moves : state.moves = true) : state.isLive = true := by
  cases state with
  | running | parked => rfl
  | _ => cases moves

theorem Kept.ended_on (kept : Kept run) (fits : Fits def_ run event) :
    (run.on seq event).row.finishedAt = none ↔
      (run.on seq event).row.state.isLive = true ∨ (run.on seq event).row.state = .compensating := by
  have ended := kept.ended
  show (run.row.on event).finishedAt = none ↔ (run.row.on event).state.isLive = true ∨ (run.row.on event).state = .compensating
  cases event with
  | runStarted | runQueued => cases fits.2
  | runDequeued =>
    have queued : run.row.state = .queued := fits.2
    have unfinished := ended.mpr (.inl (by rw [queued]; rfl))
    simp [Row.on, unfinished, RunState.isLive]
  | nodeScheduled path phase =>
    have unfinished := fits.unfinished kept rfl rfl
    have state : (if run.row.state = .compensating then RunState.compensating else .running).isLive = true ∨
        (if run.row.state = .compensating then RunState.compensating else .running) = .compensating := by
      split
      · exact .inr rfl
      · exact .inl rfl
    simp only [Row.on, unfinished, true_iff]
    exact state
  | nodeCompleted path phase => cases phase <;> exact ended
  | nodeSkipped path phase =>
    cases phase with
    | do_ =>
      simp only [Row.on]
      split <;> exact ended
    | undo => exact ended
  | parked | childrenPlanned =>
    have unfinished := fits.unfinished kept rfl rfl
    simp [Row.on, unfinished, RunState.isLive]
  | timerFired =>
    have unfinished := fits.unfinished kept rfl rfl
    have live := ended.mp unfinished
    simp only [Row.on, unfinished, true_iff]
    split
    · exact .inl rfl
    · exact live
  | compensationStarted => simp [Row.on]
  | runCompleted | runFailed | runCancelled | runExpired => simp [Row.on, Row.finish, RunState.isLive]
  | _ => exact ended

theorem Kept.on (kept : Kept run) (fits : Fits def_ run event) (seq : Nat) : Kept (run.on seq event) where
  phase := kept.phase_on fits
  visits := kept.visits_on fits
  single := kept.single_on fits
  onRow := kept.onRow_on fits
  attempts := kept.attempts_on fits
  undoing := kept.undoing_on fits
  queued := kept.queued_on fits
  ended := kept.ended_on fits

end Event

end Arki.Workflow
