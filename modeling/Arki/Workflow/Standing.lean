import Arki.Workflow.Turns

/-! How a run stands between two transactions, in every state that it comes to. -/

set_option autoImplicit false

namespace Arki.Workflow

open Arki.Journal (Value StoredEvent)

variable {def_ : WorkflowDef} {env : Env} {run : Run} {seq : Nat} {path : String} {event : RunEvent} {events rest : List RunEvent}

structure Standing (run : Run) : Prop where
  kept : Kept run
  parked : run.row.state = .parked → ∃ path, run.row.node = some path ∧ run.isOpen (path, .do_) = true
  whole : run.lifePhase ≠ some .reopening

theorem Standing.of_same {other : Run} (standing : Standing run) (row : other.row = run.row) (log : other.log = run.log)
    (steps : other.steps = run.steps) : Standing other := by
  refine ⟨standing.kept.of_same row log steps, fun parked => ?_, ?_⟩
  · rw [row] at parked ⊢
    obtain ⟨path, here, opened⟩ := standing.parked parked
    exact ⟨path, here, (Run.isOpen_steps steps _).trans opened⟩
  · simpa only [Run.lifePhase, Run.events, log] using standing.whole

theorem RunEvent.unparks_state (unparks : event.unparks = true) (row : Row) : (row.on event).state ≠ .parked := by
  cases event with
  | nodeScheduled =>
    simp only [Row.on]
    split
    · rintro ⟨⟩
    · rintro ⟨⟩
  | compensationStarted | runCompleted | runFailed | runCancelled | runExpired => rintro ⟨⟩
  | _ => cases unparks

theorem RunEvent.settles_state (settles : event.settles = true) (row : Row) : (row.on event).state = row.state := by
  cases event with
  | nodeCompleted path phase => cases phase <;> rfl
  | nodeSkipped path phase =>
    cases phase with
    | do_ =>
      simp only [Row.on]
      split <;> rfl
    | undo => rfl
  | _ => cases settles

/-- An event that neither settles a node nor ends a park leaves a parked run on its open node. -/
theorem Fits.parked_on (fits : Fits def_ run event) (stays : event.unparks = false) (opens : event.settles = false)
    (here : run.row.state = .parked → ∃ path, run.row.node = some path ∧ run.isOpen (path, .do_) = true)
    (parked : (run.row.on event).state = .parked) :
    ∃ path, (run.row.on event).node = some path ∧ (run.on seq event).isOpen (path, .do_) = true := by
  cases event with
  | runStarted | runQueued => cases fits.2
  | runDequeued => cases parked
  | nodeScheduled | compensationStarted | runCompleted | runFailed | runCancelled | runExpired => cases stays
  | nodeCompleted node phase =>
    cases phase with
    | do_ => cases opens
    | undo =>
      have compensating : run.row.state = .compensating := fits.2
      have still : run.row.state = .parked := parked
      rw [compensating] at still
      cases still
  | nodeSkipped node phase =>
    cases phase with
    | do_ => cases opens
    | undo =>
      have compensating : run.row.state = .compensating := fits.2
      have still : run.row.state = .parked := parked
      rw [compensating] at still
      cases still
  | nodeFailed node phase =>
    obtain ⟨path, row, opened⟩ := here parked
    refine ⟨path, row, ?_⟩
    rw [Run.isOpen_on rfl]
    by_cases same : (path, StepPhase.do_) = (node, phase)
    · simp [RunEvent.moves, same]
    · simpa only [RunEvent.moves, if_neg same] using opened
  | parked node => exact ⟨node, rfl, by rw [Run.isOpen_on rfl]; exact fits.2.2.1⟩
  | childrenPlanned plan => exact ⟨plan.path, rfl, by rw [Run.isOpen_planned]; exact fits.2.2.1⟩
  | timerFired =>
    simp only [Row.on] at parked
    split at parked
    · cases parked
    · next not_ => exact absurd parked not_
  | _ => exact here parked

theorem Standing.write (standing : Standing run) (orderly : Orderly def_ run seq events) :
    Standing (run.write seq events) := by
  -- in the midst of a write, what the run lacks is about to be written
  suffices general : ∀ (events : List RunEvent) (run : Run) (seq : Nat), Kept run →
      ((run.row.state = .parked → ∃ path, run.row.node = some path ∧ run.isOpen (path, .do_) = true) ∨
        events.head?.any (·.unparks) = true) →
      (run.lifePhase ≠ some .reopening ∨ events.head?.any (·.isStart) = true) →
      Orderly def_ run seq events → Standing (run.write seq events) from
    general events run seq standing.kept (.inl standing.parked) (.inl standing.whole) orderly
  intro events
  induction events with
  | nil =>
    intro run seq kept parked whole _
    exact ⟨kept, parked.resolve_right (by rintro ⟨⟩), whole.resolve_right (by rintro ⟨⟩)⟩
  | cons event rest ih =>
    rintro run seq kept parked whole ⟨fits, ⟨unparks, starts⟩, later⟩
    refine ih (run.on seq event) (seq + 1) (kept.on fits seq) ?_ ?_ later
    · cases leaves : event.unparks with
      | true => exact .inl fun still => absurd still (RunEvent.unparks_state leaves run.row)
      | false =>
        cases settles : event.settles with
        | true =>
          by_cases was : run.row.state = .parked
          · exact .inr (unparks settles was)
          · exact .inl fun still => absurd ((RunEvent.settles_state settles run.row).symm.trans still) was
        | false =>
          refine .inl (fits.parked_on leaves settles (parked.resolve_right ?_))
          simp [leaves]
    · rw [Run.lifePhase_on]
      obtain ⟨phase, read, open_⟩ := kept.phase
      rw [read, Option.bind_some]
      cases phase with
      | open_ =>
        refine .inl ?_
        simp only [LifePhase.on]
        split <;> rintro ⟨⟩
      | ended =>
        cases event with
        | cancelRequested =>
          refine .inr (starts rfl ?_)
          cases ended : run.row.finishedAt with
          | none => cases open_.mpr ended
          | some _ => rfl
        | _ => exact .inl (by rintro ⟨⟩)
      | reopening =>
        have start : event.isStart = true := by
          simpa [read] using whole
        cases event with
        | compensationStarted => exact .inl (by rintro ⟨⟩)
        | _ => cases start

section Transactions

variable {draft : Draft}

theorem Standing.on_node (standing : Standing run) (parked : run.row.state = .parked) (here : run.row.node = some path) :
    run.isOpen (path, .do_) = true := by
  obtain ⟨node, row, opened⟩ := standing.parked parked
  rw [here] at row
  cases row
  exact opened

theorem Standing.unfinished (standing : Standing run) (live : run.row.state.isLive = true) : run.row.finishedAt = none :=
  standing.kept.ended.mpr (.inl live)

theorem Kept.behind (kept : Kept run) (live : run.row.finishedAt = none) {other : Run} (row : other.row = run.row)
    (log : other.log = run.log) (steps : other.steps = run.steps) : Behind run other :=
  ⟨kept.of_same row log steps, (kept.of_same row log steps).phase_open (by rw [row, live]), steps, by rw [row], by rw [row]⟩

variable {phase : StepPhase} {tried : CommandTried} {key reason : String}

theorem sound_checkpoint {attempt : Nat} {outcome : Outcome} (standing : Standing run)
    (apt : run.openAttempt path phase attempt = true → outcome.Apt def_ run path phase)
    (answered : checkpoint def_ run env path phase attempt outcome = some draft) : draft.Sound def_ run := by
  simp only [checkpoint] at answered
  split at answered
  · next attempted => exact sound_answer standing.kept attempted (apt attempted) answered
  · cases answered
    exact .idle

theorem orderly_waitOver {node : Node} (standing : Standing run) (parked : run.row.state = .parked)
    (here : run.row.node = some path) (found : def_.node path = some node) (ended : waitOver def_ run env node = some events) :
    Orderly def_ run seq events := by
  have same := WorkflowDef.node_name found
  have opened : run.isOpen (node.name, .do_) = true := by
    rw [same]
    exact standing.on_node parked here
  have going : run.row.state.moves = true := by
    rw [parked]
    rfl
  have live := standing.unfinished (RunState.moves_live going)
  have behind := Behind.refl standing.kept live
  have told (rest : List RunEvent) (after : ∀ told, Behind run told → told.isOpen (node.name, .do_) = true →
      told.row.state.moves = true → Orderly def_ told (seq + 1) rest) :
      Orderly def_ run seq (.timerFired node.name env.now :: rest) :=
    behind.tell rfl fun told next steps =>
      after told next ((Run.isOpen_steps steps _).trans opened) (next.moves.trans going)
  have fails (error : String) :
      Orderly def_ run seq (.timerFired node.name env.now :: failWait def_ run env node.name error) :=
    told _ fun told next still _ => orderly_failWait standing.kept next still
  have goesOn : Orderly def_ run seq (.timerFired node.name env.now :: completeWait def_ run env node.name .null) :=
    told _ fun told next still moves => orderly_completeWait standing.kept next still moves
  simp only [waitOver] at ended
  split at ended
  · split at ended
    · cases ended
      exact fails _
    · cases ended
      exact goesOn
  · next sources failsOnTimeout kind =>
    split at ended
    · split at ended
      · cases ended
        exact fails _
      · cases ended
        exact goesOn
    · cases ended
      exact orderly_wakeOnEvent standing.kept behind opened going
  · cases ended
    exact goesOn
  · cases ended

theorem sound_fire {timer : Timer} (standing : Standing run) (fired : fire def_ run env timer = some draft) :
    draft.Sound def_ run := by
  simp only [fire] at fired
  split at fired
  · cases fired
    exact .idle
  · next open_ =>
    have unfinished : run.row.finishedAt = none := by simpa using open_
    have behind := Behind.refl standing.kept unfinished
    obtain ⟨events, found, rfl⟩ := Option.map_eq_some_iff.mp fired
    refine .of_events fun seq => ?_
    cases timer with
    | deadline =>
      simp only [onTimer] at found
      split at found
      · cases found
        trivial
      · cases found
        exact orderly_deadline standing.kept behind
    | ttl =>
      simp only [onTimer] at found
      split at found
      · next late =>
        cases found
        have bare := (standing.kept.queued late.1).1
        refine ⟨⟨?_, fun node => by simp [Run.isScheduled, Run.status, bare]⟩, ⟨nofun, nofun⟩, trivial⟩
        rw [behind.phase]
        rfl
      · cases found
        trivial
    | wake path parkSeq =>
      simp only [onTimer] at found
      split at found
      · cases found
        trivial
      · next here =>
        simp only [not_or, ne_eq, not_not] at here
        split at found
        · cases found
          exact orderly_deadline standing.kept behind
        · obtain ⟨node, known, ended⟩ := Option.bind_eq_some_iff.mp found
          exact orderly_waitOver standing here.1 here.2.1 known ended

theorem failureOutcome_apt {error : String} :
    (failureOutcome tried key error).Apt def_ run path phase := by
  simp only [failureOutcome]
  split <;> trivial

theorem settleCommand_completed {stored : Value} {outcome : Outcome} (settled : settleCommand def_ run env path stored = .ok outcome) :
    ∃ kept route, outcome = .completed kept route none := by
  simp only [settleCommand, bind, Except.bind] at settled
  split at settled
  · cases settled
  split at settled
  · cases settled
  · cases settled
    exact ⟨_, _, rfl⟩

theorem doCommand_apt :
    (doCommand def_ run env path key tried).1.Apt def_ run path .do_ := by
  have settles {stored : Value} {outcome : Outcome} (settled : settleCommand def_ run env path stored = .ok outcome) :
      outcome.Apt def_ run path .do_ := by
    obtain ⟨kept, route, rfl⟩ := settleCommand_completed settled
    rfl
  simp only [doCommand]
  split
  · next compensating => exact ⟨rfl, compensating⟩
  split
  · split
    · rfl
    · trivial
  split
  · exact failureOutcome_apt
  · split
    · next settled => exact settles settled
    · exact failureOutcome_apt
  · split
    · trivial
    split
    · next settled => exact settles settled
    · exact failureOutcome_apt

theorem undoCommand_apt {found : Outcome × Bool}
    (undone : undoCommand def_ run path key tried = some found) : found.1.Apt def_ run path .undo := by
  simp only [undoCommand] at undone
  split at undone
  · split at undone
    · cases undone
    split at undone
    · split at undone
      · cases undone
        rfl
      · cases undone
        exact failureOutcome_apt
    · cases undone
      exact failureOutcome_apt
    · cases undone
      exact failureOutcome_apt
  · cases undone

theorem sound_commandNode {attempt : Nat} {committed : Bool}
    (standing : Standing run) (ran : commandNode def_ run env path phase attempt key tried = some (draft, committed)) :
    draft.Sound def_ run := by
  simp only [commandNode] at ran
  split at ran
  · split at ran
    · simp only [Option.bind_eq_some_iff, Option.map_eq_some_iff, Prod.mk.injEq] at ran
      obtain ⟨⟨outcome, flag⟩, came, _, answered, rfl, -⟩ := ran
      refine sound_checkpoint standing (fun _ => ?_) answered
      cases phase with
      | do_ =>
        have outcomeIs := congrArg Prod.fst (Option.some.inj came)
        exact outcomeIs ▸ doCommand_apt
      | undo => exact undoCommand_apt came
    · cases ran
  · cases ran
    exact .idle

theorem parkedFor_some {name : String} {wait : SignalWait} (found : parkedFor def_ run name = some (path, wait)) :
    run.row.state = .parked ∧ run.row.node = some path ∧ (∃ fails, def_.node path = some ⟨path, .waitFor wait fails⟩) ∧
      wait.signal = name := by
  simp only [parkedFor] at found
  split at found
  · next parked =>
    split at found
    · next node known =>
      split at found
      · next same =>
        cases found
        obtain ⟨here, row, isNode⟩ := Option.bind_eq_some_iff.mp known
        have named : path = here := WorkflowDef.node_name isNode
        subst named
        exact ⟨parked.1, row, ⟨_, isNode⟩, same⟩
      · cases found
    · cases found
  · cases found

theorem sound_deliverSignal {delivery : Delivery} {status : SignalStatus} (standing : Standing run)
    (delivered : deliverSignal def_ run env delivery = some (draft, status)) : draft.Sound def_ run := by
  simp only [deliverSignal] at delivered
  split at delivered
  · cases delivered
    exact .idle
  next open_ =>
  have unfinished : run.row.finishedAt = none := by simpa using open_
  simp only [Option.bind_eq_bind, Option.bind_eq_some_iff, Option.pure_def] at delivered
  obtain ⟨waited, _, stored, _, _, _, delivered⟩ := delivered
  split at delivered
  · cases delivered
    exact .idle
  split at delivered
  · cases delivered
    exact .idle
  let kept : Run :=
    { run with signals := run.signals ++ [⟨delivery.id, delivery.name, delivery.deliveryId, stored, delivery.receivedAt, none, none⟩] }
  have stands : Behind run kept := standing.kept.behind unfinished rfl rfl rfl
  split at delivered
  · cases delivered
    refine ⟨rfl, rfl, rfl, fun seq => ?_⟩
    obtain ⟨fits, next⟩ := @Behind.on run kept stands def_
      (.signalReceived delivery.name delivery.deliveryId env.now) rfl seq
    exact ⟨fits, ⟨nofun, nofun⟩, orderly_deadline standing.kept next⟩
  split at delivered
  · cases delivered
    refine ⟨rfl, rfl, rfl, fun seq => ?_⟩
    obtain ⟨fits, next⟩ := @Behind.on run kept stands def_
      (.signalReceived delivery.name delivery.deliveryId env.now) rfl seq
    exact ⟨fits, ⟨nofun, nofun⟩, trivial⟩
  · next path wait found =>
    obtain ⟨parked, here, -, -⟩ := parkedFor_some found
    have opened := standing.on_node parked here
    have going : run.row.state.moves = true := by
      rw [parked]
      rfl
    have told (other : Run) (row : other.row = run.row) (log : other.log = run.log) (steps : other.steps = run.steps) :
        Draft.Sound def_ run ⟨other, .signalReceived delivery.name delivery.deliveryId env.now ::
          wakeOnSignal def_ run env path wait stored⟩ := by
      refine ⟨row, log, steps, fun seq => ?_⟩
      have behind := standing.kept.behind unfinished row log steps
      refine behind.tell rfl fun told next same => ?_
      refine orderly_wakeOnSignal standing.kept next ?_ (next.moves.trans going)
      exact (Run.isOpen_steps (same.trans steps) _).trans opened
    cases delivered
    apply told
    · split <;> rfl
    · split <;> rfl
    · split <;> rfl

theorem sound_wakeWait (standing : Standing run) (woke : wakeWait def_ run env path = some draft) : draft.Sound def_ run := by
  simp only [wakeWait] at woke
  split at woke
  · cases woke
    exact .idle
  next here =>
  simp only [not_or, ne_eq, not_not] at here
  have going : run.row.state.moves = true := by
    rw [here.1]
    rfl
  have behind := Behind.refl standing.kept (standing.unfinished (RunState.moves_live going))
  split at woke
  · split at woke
    · cases woke
      exact .of_events fun seq => orderly_deadline standing.kept behind
    · cases woke
      exact .of_events fun seq => orderly_wakeOnEvent standing.kept behind (standing.on_node here.1 here.2) going
  · cases woke

theorem orderly_cancel (standing : Standing run)
    (may : run.row.finishedAt.isSome → run.row.state = .completed) :
    Orderly def_ run seq
      (beginCompensation def_ run env [.cancelRequested reason env.now] false none true) := by
  obtain ⟨phase, read, open_⟩ := standing.kept.phase
  have whole := standing.whole
  rw [read] at whole
  have fits : Fits def_ run (.cancelRequested reason env.now) := by
    refine ⟨?_, may⟩
    rw [read]
    cases phase with
    | open_ | ended => rfl
    | reopening => exact absurd rfl whole
  apply orderly_begin standing.kept
  · intro rest starts after
    exact ⟨fits, ⟨nofun, fun _ => starts⟩, after⟩
  · exact standing.kept.on fits seq
  · exact .rfl
  · show (run.on seq (.cancelRequested reason env.now)).lifePhase = _ ∨ (run.on seq (.cancelRequested reason env.now)).lifePhase = _
    rw [Run.lifePhase_on, read]
    cases phase with
    | open_ => exact .inl rfl
    | ended => exact .inr rfl
    | reopening => exact absurd rfl whole
  · rfl

theorem sound_cancelRun (standing : Standing run) (cancelled : cancelRun def_ run env reason = some draft) :
    draft.Sound def_ run := by
  simp only [cancelRun] at cancelled
  split at cancelled
  · cases cancelled
  next live =>
  cases cancelled
  refine .of_events fun seq => orderly_cancel standing fun ended => ?_
  exact absurd (.inl ended) live

theorem sound_compensateChild {reopen : Bool} (standing : Standing run) :
    (compensateChild def_ run env reason reopen).Sound def_ run := by
  unfold compensateChild
  cases reopen with
  | true =>
    by_cases completed : run.row.state = .completed
    · simp only [completed, if_true, decide_true]
      exact .of_events fun seq => orderly_cancel standing fun _ => completed
    · simp only [completed, if_true, decide_false, Bool.false_eq_true, if_false]
      exact .idle
  | false =>
    simp only [Bool.false_eq_true, if_false]
    split
    · next live =>
      refine .of_events fun seq => orderly_cancel standing fun ended => ?_
      rw [standing.unfinished live] at ended
      cases ended
    · exact .idle

theorem orderly_joinChildren {kind : NodeKind} {plan : Plan} (standing : Standing run) (parked : run.row.state = .parked)
    (here : run.row.node = some plan.path) : Orderly def_ run seq (joinChildren def_ run env kind plan).1 := by
  have going : run.row.state.moves = true := by
    rw [parked]
    rfl
  have behind := Behind.refl standing.kept (standing.unfinished (RunState.moves_live going))
  have opened := standing.on_node parked here
  have dead (error : String) : Orderly def_ run seq (deadNode def_ run env plan.path error) :=
    orderly_deadNode standing.kept behind opened
  have completes (ids : List String) (list : Bool) : Orderly def_ run seq (completeChildren def_ run env kind plan ids list) := by
    simp only [completeChildren]
    split
    · exact dead _
    · exact orderly_completeWait standing.kept behind opened going
  simp only [joinChildren]
  split
  · split
    · split
      · exact dead _
      · trivial
    · split
      · trivial
      · exact completes _ _
  · split
    · exact dead _
    · split
      · exact completes _ _
      · trivial

theorem sound_wakeParent {base : String} {moves : Moves} (standing : Standing run)
    (woke : wakeParent def_ run env base = some (draft, moves)) : draft.Sound def_ run := by
  simp only [wakeParent] at woke
  split at woke
  · cases woke
    exact .idle
  next open_ =>
  have unfinished : run.row.finishedAt = none := by simpa using open_
  have behind := Behind.refl standing.kept unfinished
  obtain ⟨found, looked, same⟩ := Option.map_eq_some_iff.mp woke
  cases same
  refine .of_events fun seq => ?_
  simp only [onChildEnded] at looked
  split at looked
  · next compensating =>
    split at looked
    · cases looked
      trivial
    split at looked
    · cases looked
      trivial
    · next idle =>
      cases looked
      simp only [not_or, Bool.not_eq_true] at idle
      refine orderly_compensate _ ⟨behind.phase, compensating, fun node => ?_⟩
      cases scheduled : run.isScheduled (node, .do_) with
      | false => rfl
      | true =>
        obtain ⟨step, row, status⟩ := Option.map_eq_some_iff.mp (of_decide_eq_true scheduled)
        have any : run.steps.anyScheduled = true := by
          refine List.any_eq_true.mpr ⟨⟨(node, .do_), step⟩, AList.mem_lookup_iff.mp row, ?_⟩
          exact decide_eq_true status
        rw [any] at idle
        cases idle.2
  split at looked
  · cases looked
    trivial
  next notMoved =>
  have parked : run.row.state = .parked := not_not.mp notMoved
  split at looked
  · cases looked
    trivial
  split at looked
  · cases looked
    trivial
  next plan _ here =>
  simp only [not_or, ne_eq, not_not] at here
  split at looked
  · cases looked
  split at looked
  · cases looked
    trivial
  split at looked
  · cases looked
    exact orderly_deadline standing.kept behind
  · have result := Option.some.inj looked
    rw [← result]
    exact orderly_joinChildren standing parked here.2

theorem sound_failChildrenNode {error : String} (standing : Standing run) :
    (failChildrenNode def_ run env path error).Sound def_ run := by
  simp only [failChildrenNode]
  split
  · exact .idle
  · next here =>
    simp only [not_or, ne_eq, not_not] at here
    have unfinished : run.row.finishedAt = none := by simpa using here.1
    exact .of_events fun seq =>
      orderly_deadNode standing.kept (.refl standing.kept unfinished) (standing.on_node here.2.1 here.2.2)

theorem orderly_retried {dead : List (Option String)} (phase : run.lifePhase = some .open_) :
    Orderly def_ run seq (dead.map fun node => .jobRetried node env.now) := by
  induction dead generalizing run seq with
  | nil => trivial
  | cons node rest ih =>
    refine ⟨⟨by rw [phase]; rfl, trivial⟩, ⟨nofun, nofun⟩, ih ?_⟩
    rw [Run.lifePhase_on, phase]
    rfl

theorem Standing.rescheduled (standing : Standing run) (unfinished : run.row.finishedAt = none) {step : Step}
    (found : run.steps.lookup (path, .do_) = some step) (failed : step.status = .failed)
    (notCompensating : run.row.state ≠ .compensating) (key : String) (resolution : Option Value) (due : Nat) :
    Orderly def_ run seq [.nodeScheduled path .do_ (step.attempt + 1) key resolution due] := by
  have status : run.status (path, .do_) = some .failed := by simp [Run.status, found, failed]
  have opened : run.isOpen (path, .do_) = true := Run.isOpen_iff.mpr (.inr status)
  have going := (standing.kept.going unfinished opened).resolve_left notCompensating
  have positive := standing.kept.attempts path step found opened
  refine ⟨⟨by rw [standing.kept.phase_open unfinished]; rfl, going, .inr ⟨by omega, opened, ?_⟩⟩, ⟨by rintro ⟨⟩, by rintro ⟨⟩⟩, trivial⟩
  simp [Run.isScheduled, status]

theorem sound_retryStep {dead : List (Option String)} (standing : Standing run)
    (retried : retryStep def_ run env path phase dead = some draft) : draft.Sound def_ run := by
  simp only [retryStep] at retried
  split at retried
  · cases retried
  next open_ =>
  have unfinished : run.row.finishedAt = none := by simpa using open_
  obtain ⟨step, found, retried⟩ := Option.bind_eq_some_iff.mp retried
  split at retried
  · split at retried
    · cases retried
    · cases retried
      exact .of_events fun seq => orderly_retried (standing.kept.phase_open unfinished)
  · next failed =>
    have status : run.status (path, phase) = some .failed := by simp [Run.status, found, failed]
    have opened : run.isOpen (path, phase) = true := Run.isOpen_iff.mpr (.inr status)
    split at retried
    · cases retried
    next may =>
    simp only [not_or, not_and, ne_eq, not_not] at may
    split at retried
    · next plan planned =>
      cases retried
      obtain ⟨isPlan, does⟩ := Option.filter_eq_some_iff.mp planned
      simp only [Bool.decide_and, Bool.and_eq_true, decide_eq_true_eq] at does
      obtain ⟨isDo, parked, here⟩ := does
      subst isDo
      refine .of_events fun seq => ⟨⟨by rw [standing.kept.phase_open unfinished]; rfl, by rw [parked]; rfl, ?_, ?_⟩,
        ⟨nofun, nofun⟩, trivial⟩
      · show run.isOpen (plan.path, .do_) = true
        rw [here]
        exact opened
      · show ∃ node, def_.node plan.path = some node ∧ node.kind.isFan = true
        rw [here]
        split at isPlan
        · next fan =>
          cases known : def_.node path with
          | none =>
            rw [known] at fan
            cases fan
          | some node => exact ⟨node, rfl, by simpa [known] using fan⟩
        · cases isPlan
    · obtain ⟨key, -, same⟩ := Option.map_eq_some_iff.mp retried
      cases same
      refine .of_events fun seq => ?_
      cases phase with
      | do_ => exact standing.rescheduled unfinished found failed (may.1 rfl) _ _ _
      | undo =>
        refine ⟨⟨by rw [standing.kept.phase_open unfinished]; rfl, may.2 rfl, ?_⟩, ⟨nofun, nofun⟩, trivial⟩
        exact (standing.kept.undoing path opened).2
  · cases retried

theorem sound_resolveStep {result : Value} (standing : Standing run)
    (resolved : resolveStep def_ run env path result = some draft) : draft.Sound def_ run := by
  simp only [resolveStep] at resolved
  split at resolved
  · cases resolved
  next open_ =>
  simp only [not_or, ne_eq, not_not] at open_
  have unfinished : run.row.finishedAt = none := by simpa using open_.1
  obtain ⟨step, found, resolved⟩ := Option.bind_eq_some_iff.mp resolved
  obtain ⟨node, -, resolved⟩ := Option.bind_eq_some_iff.mp resolved
  split at resolved
  · next may =>
    obtain ⟨kept, -, resolved⟩ := Option.bind_eq_some_iff.mp resolved
    obtain ⟨key, -, same⟩ := Option.map_eq_some_iff.mp resolved
    cases same
    exact .of_events fun seq => standing.rescheduled unfinished found may.1 (by rw [open_.2]; rintro ⟨⟩) _ _ _
  · cases resolved

theorem sound_skipUndo (standing : Standing run) (skipped : skipUndo def_ run env path reason = some draft) :
    draft.Sound def_ run := by
  simp only [skipUndo] at skipped
  split at skipped
  · cases skipped
  next open_ =>
  simp only [not_or, ne_eq, not_not] at open_
  have unfinished : run.row.finishedAt = none := by simpa using open_.1
  obtain ⟨step, found, skipped⟩ := Option.bind_eq_some_iff.mp skipped
  split at skipped
  · next failed =>
    cases skipped
    have opened : run.isOpen (path, .undo) = true :=
      Run.isOpen_iff.mpr (.inr (by simp [Run.status, found, failed]))
    have undoing : Undoing run := ⟨standing.kept.phase_open unfinished, open_.2, (standing.kept.undoing path opened).2⟩
    refine .of_events fun seq => ?_
    obtain ⟨fits, next⟩ := undoing.settled def_ seq (.inr ⟨path, .operator, reason, env.now, rfl⟩)
    exact ⟨fits, ⟨nofun, nofun⟩, orderly_compensate _ next⟩
  · cases skipped

theorem Standing.tells (standing : Standing run) (unfinished : run.row.finishedAt = none)
    (fits : (run.lifePhase.bind (·.on event)).isSome = true → Fits def_ run event) (notCancel : event.isCancel = false)
    (notSettles : event.settles = false) : Orderly def_ run seq [event] := by
  refine ⟨fits (by rw [standing.kept.phase_open unfinished]; rfl), ⟨fun settles => ?_, fun cancels => ?_⟩, trivial⟩
  · rw [notSettles] at settles
    cases settles
  · rw [notCancel] at cancels
    cases cancels

theorem sound_reschedule {startAt : Nat} {unclaimed : Bool} (standing : Standing run)
    (moved : reschedule run env startAt unclaimed = some draft) : draft.Sound def_ run := by
  simp only [reschedule] at moved
  split at moved
  · next may =>
    cases moved
    have unfinished : run.row.finishedAt = none := by
      rcases may with queued | ⟨notStarted, -⟩
      · exact standing.unfinished (by rw [queued]; rfl)
      · simp only [Row.notStarted, Bool.and_eq_true, Option.isNone_iff_eq_none] at notStarted
        exact notStarted.1.1
    exact .of_events fun seq => standing.tells unfinished (fun legal => ⟨legal, trivial⟩) rfl rfl
  · cases moved

theorem sound_changeFields {tags : Bool} (standing : Standing run) (changed : changeFields run env tags = some draft) :
    draft.Sound def_ run := by
  simp only [changeFields] at changed
  split at changed
  · cases changed
  next open_ =>
  cases changed
  have unfinished : run.row.finishedAt = none := by simpa using open_
  cases tags with
  | true => exact .of_events fun seq => standing.tells unfinished (fun legal => ⟨legal, trivial⟩) rfl rfl
  | false => exact .of_events fun seq => standing.tells unfinished (fun legal => ⟨legal, trivial⟩) rfl rfl

theorem sound_dequeueRun (standing : Standing run) : (dequeueRun run env).Sound def_ run := by
  unfold dequeueRun
  split
  · split
    · next first _ queued =>
      have unfinished := standing.unfinished (by rw [queued]; rfl)
      have phase := standing.kept.phase_open unfinished
      obtain ⟨none_, -⟩ := standing.kept.queued queued
      refine .of_events fun seq => ⟨⟨by rw [phase]; rfl, queued⟩, ⟨nofun, nofun⟩, ⟨?_, rfl, .inl ⟨rfl, fun node => ?_⟩⟩,
        ⟨nofun, nofun⟩, trivial⟩
      · rw [Run.lifePhase_on, phase]
        rfl
      · rw [Run.isOpen_on rfl]
        simp [RunEvent.moves, Run.isOpen, Run.status, none_]
    · exact .idle
  · exact .idle

end Transactions

end Arki.Workflow
