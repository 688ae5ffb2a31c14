import Arki.Workflow.Completions

/-! Every transaction is explained: what it does to the signals, and where the results it records come from. -/

set_option autoImplicit false

namespace Arki.Workflow

open Arki.Journal (Value StoredEvent)

variable {def_ : WorkflowDef} {env : Env} {run : Run} {path : String} {events : List RunEvent}
  {move : Move} {committed : Bool} {draft : Draft} {life next : Life} {turn : Turn}

theorem oldestSignal_new {signals : List Signal} {signal : Signal} {name : String} (awaits : signal.awaits name = true)
    (quiet : ∀ other ∈ signals, other.awaits name = false) : oldestSignal (signals ++ [signal]) name = some signal := by
  have none_ : signals.filter (·.awaits name) = [] := by
    refine List.filter_eq_nil_iff.mpr fun other member => ?_
    rw [quiet other member]
    exact nofun
  simp [oldestSignal, List.filter_append, none_, awaits, Ordered.inOrder]

theorem explained_parkNode {node : Node} {waitingFor : Option String} {wakeAt : Option Nat} {keys : List WaitKey}
    (found : def_.node path = some node) :
    Explained def_ run env move committed (parkNode def_ run env node waitingFor wakeAt keys) := by
  obtain ⟨name, kind⟩ := node
  have same : name = path := WorkflowDef.node_name found
  subst same
  unfold parkNode
  cases kind with
  | waitFor wait fails =>
    simp only
    cases oldest : oldestSignal run.signals wait.signal with
    | none => exact .silent rfl (.cons rfl .nil)
    | some early => exact .takes .same oldest found rfl [] rfl .nil fun _ => .inl
  | eventWait sources fails =>
    simp only
    split
    · exact .silent rfl silent_failWait
    · exact .onlyAt rfl onlyAt_takeEvent fun _ => .tookEvent sources fails found
    · exact .silent rfl (.cons rfl .nil)
  | _ => exact .silent rfl (.cons rfl .nil)

def Outcome.isResult : Outcome → Bool
  | .completed .. => true
  | _ => false

theorem explained_answer {phase : StepPhase} {attempt : Nat} {outcome : Outcome} (apt : outcome.Apt def_ run path phase)
    (notResult : outcome.isResult = false) (answered : answer def_ run env path phase attempt outcome = some draft) :
    Explained def_ run env move committed draft := by
  have failed (error : String) : Silent (failedWhileCompensating def_ run env path attempt error) :=
    .cons rfl (silent_compensate _)
  have begins (error : String) :
      Silent (beginCompensation def_ run env [.nodeFailed path phase attempt error env.now] true (some error) false) :=
    silent_begin (.cons rfl .nil)
  simp only [answer] at answered
  cases outcome with
  | completed => cases notResult
  | skipped reason route =>
    cases answered
    refine .silent rfl (.cons rfl ?_)
    split
    · exact silent_compensate _
    · exact silent_eventsAfter _
  | undone result =>
    have isUndo : phase = .undo := apt
    subst isUndo
    cases answered
    exact .silent rfl (.cons rfl (silent_compensate _))
  | retry error key due =>
    simp only at answered
    split at answered
    · cases answered
      exact .silent rfl (failed error)
    · cases answered
      exact .silent rfl (.cons rfl (.cons rfl .nil))
  | dead error =>
    simp only at answered
    split at answered
    · cases answered
      exact .silent rfl (failed error)
    split at answered
    · cases answered
      exact .silent rfl (.cons rfl .nil)
    · cases answered
      exact .silent rfl (begins error)
  | transitionLimit error =>
    simp only at answered
    split at answered
    · cases answered
      exact .silent rfl (failed error)
    · cases answered
      exact .silent rfl (begins error)
  | children plan =>
    simp only at answered
    split at answered
    · cases answered
      exact .idle
    split at answered
    · cases answered
    split at answered
    · next refused =>
      cases answered
      exact .silent rfl (silent_refusedPark refused)
    · cases answered
      exact .silent rfl (.cons rfl .nil)
  | park waitingFor wakeAt keys =>
    simp only at answered
    split at answered
    · cases answered
      exact .idle
    split at answered
    · cases answered
    next node wait =>
    split at answered
    · next refused =>
      cases answered
      exact .silent rfl (silent_refusedPark refused)
    · cases answered
      exact explained_parkNode (Option.filter_eq_some_iff.mp wait).1
  | dropped =>
    cases answered
    exact .silent rfl (.cons rfl (silent_compensate _))
  | expired =>
    simp only at answered
    split at answered
    · cases answered
      exact .silent rfl (.cons rfl (.cons rfl .nil))
    · cases answered
      exact .idle

theorem explained_completed {phase : StepPhase} {attempt : Nat} {result : Value} {route : Route} {resolvedBy : Option String}
    (isDo : phase = .do_) (answered : answer def_ run env path phase attempt (.completed result route resolvedBy) = some draft)
    (source : Source def_ run env move committed draft path result resolvedBy) :
    Explained def_ run env move committed draft := by
  subst isDo
  have silent : Silent (if run.row.state = .compensating then compensate def_ run env ⟨none, false, some (path, result), 0⟩
      else eventsAfter run env route) := by
    split
    · exact silent_compensate _
    · exact silent_eventsAfter _
  cases answered
  refine ⟨.untouched _ .same, fun event member other found by_ completes => ?_, fun listening _ => .inl listening⟩
  have only : Only _ path result resolvedBy := .completed env.now silent
  cases only event member _ completes
  exact source

theorem explained_checkpoint {job attempt : Nat} {phase : StepPhase} {outcome : Outcome} {node : Node}
    (known : def_.node path = some node) (sends : node.sends phase outcome)
    (answered : checkpoint def_ run env path phase attempt outcome = some draft) :
    Explained def_ run env (.checkpoint job path phase attempt outcome) committed draft := by
  simp only [checkpoint] at answered
  split at answered
  · cases isResult : outcome.isResult with
    | false => exact explained_answer (sends.apt known) isResult answered
    | true =>
      cases outcome with
      | completed result route resolvedBy =>
        have isDo : phase = .do_ := @Node.sends.apt _ run _ _ _ _ known sends
        subst isDo
        exact explained_completed rfl answered (.reported job attempt route resolvedBy node rfl known sends)
      | _ => cases isResult
  · cases answered
    exact .idle

/-- A command node completes with its command's own writes, or by a failure that it accepts. -/
theorem doCommand_completed {key : String} {tried : CommandTried} {result : Value} {route : Route} {resolvedBy : Option String}
    (ran : doCommand def_ run env path key tried = (.completed result route resolvedBy, committed)) :
    resolvedBy = none ∧ (committed = false → ∃ envelope, tried.ran = .refused envelope) := by
  have settles {what : String} {stored : Value} {outcome : Outcome} (settled : settleCommand def_ run env what stored = .ok outcome)
      (same : outcome = .completed result route resolvedBy) : resolvedBy = none := by
    subst same
    simp only [settleCommand, bind, Except.bind] at settled
    split at settled
    · cases settled
    split at settled
    · cases settled
    · cases settled
      rfl
  have retries {error : String} : failureOutcome tried key error ≠ .completed result route resolvedBy := by
    simp only [failureOutcome]
    split <;> rintro ⟨⟩
  simp only [doCommand] at ran
  split at ran
  · cases ran
  split at ran
  · split at ran <;> cases ran
  · cases came : tried.ran with
    | failed error =>
      simp only [came, Prod.mk.injEq] at ran
      exact absurd ran.1 retries
    | refused envelope =>
      simp only [came] at ran
      split at ran
      · next settled =>
        simp only [Prod.mk.injEq] at ran
        exact ⟨settles settled ran.1, fun _ => ⟨envelope, rfl⟩⟩
      · simp only [Prod.mk.injEq] at ran
        exact absurd ran.1 retries
    | returned value =>
      simp only [came] at ran
      split at ran
      · cases ran
      split at ran
      · next settled =>
        simp only [Prod.mk.injEq] at ran
        refine ⟨settles settled ran.1, fun not_ => ?_⟩
        rw [← ran.2] at not_
        cases not_
      · simp only [Prod.mk.injEq] at ran
        exact absurd ran.1 retries

theorem explained_commandNode {job attempt : Nat} {phase : StepPhase} {key : String} {tried : CommandTried}
    (ran : commandNode def_ run env path phase attempt key tried = some (draft, committed)) :
    Explained def_ run env (.commandNode job path phase attempt key tried) committed draft := by
  simp only [commandNode] at ran
  split at ran
  · next attempted =>
    split at ran
    · next name undo keeps known =>
      have named : name = path := WorkflowDef.node_name known
      subst named
      simp only [Option.bind_eq_some_iff, Option.map_eq_some_iff, Prod.mk.injEq] at ran
      obtain ⟨⟨outcome, flag⟩, came, other, answered, rfl, rfl⟩ := ran
      rw [checkpoint, if_pos attempted] at answered
      have apt : outcome.Apt def_ run name phase := by
        cases phase with
        | do_ =>
          have outcomeIs : (doCommand def_ run env name key tried).1 = outcome := congrArg Prod.fst (Option.some.inj came)
          exact outcomeIs ▸ doCommand_apt
        | undo => exact undoCommand_apt came
      cases isResult : outcome.isResult with
      | false => exact explained_answer apt isResult answered
      | true =>
        cases outcome with
        | completed result route resolvedBy =>
          have isDo : phase = .do_ := apt
          subst isDo
          obtain ⟨rfl, refused⟩ := doCommand_completed (Option.some.inj came)
          exact explained_completed rfl answered (.commanded job attempt key tried undo keeps rfl known refused)
        | _ => cases isResult
    · cases ran
  · cases ran
    exact .idle

theorem explained_fire {timer : Timer} (fired : fire def_ run env timer = some draft) :
    Explained def_ run env move committed draft := by
  simp only [fire] at fired
  split at fired
  · cases fired
    exact .idle
  obtain ⟨events, ended, rfl⟩ := Option.map_eq_some_iff.mp fired
  cases timer with
  | deadline =>
    simp only [onTimer] at ended
    split at ended
    · cases ended
      exact .idle
    · cases ended
      exact .silent rfl silent_deadline
  | ttl =>
    simp only [onTimer] at ended
    split at ended
    · cases ended
      exact .silent rfl (.cons rfl .nil)
    · cases ended
      exact .idle
  | wake path parkSeq =>
    simp only [onTimer] at ended
    split at ended
    · cases ended
      exact .idle
    split at ended
    · cases ended
      exact .silent rfl silent_deadline
    obtain ⟨node, known, waited⟩ := Option.bind_eq_some_iff.mp ended
    obtain ⟨name, kind⟩ := node
    have same : name = path := WorkflowDef.node_name known
    subst same
    -- the timer that fired stands beside the completion
    have goesOn (isWait : kind.isWait = true) (rest : List RunEvent) (only : OnlyAt rest name) :
        Explained def_ run env move committed ⟨run, .timerFired name env.now :: rest⟩ :=
      .onlyAt rfl (.cons rfl only) fun _ => .timed env.now ⟨name, kind⟩ List.mem_cons_self known isWait
    simp only [waitOver] at waited
    cases kind with
    | waitFor wait fails =>
      simp only at waited
      split at waited
      · cases waited
        exact goesOn rfl _ silent_failWait.onlyAt
      · cases waited
        exact goesOn rfl _ only_completeWait.here
    | eventWait sources fails =>
      simp only at waited
      split at waited
      · split at waited
        · cases waited
          exact goesOn rfl _ silent_failWait.onlyAt
        · cases waited
          exact goesOn rfl _ only_completeWait.here
      · cases waited
        exact .onlyAt rfl onlyAt_wakeOnEvent fun _ => .tookEvent sources fails known
    | sleep =>
      cases waited
      exact goesOn rfl _ only_completeWait.here
    | _ => cases waited

/-- A signal that comes past the deadline is kept, and the run begins to compensate. -/
theorem starts_deadline (run : Run) (env : Env) (notQueued : run.row.state ≠ .queued) :
    ∃ event ∈ deadlineEvents def_ run env, event.isStart = true := by
  refine ⟨.compensationStarted env.now, ?_, rfl⟩
  simp [deadlineEvents, beginCompensation, notQueued]

theorem explained_deliverSignal {delivery : Delivery} {status : SignalStatus} (listening : Listening def_ run)
    (own : ∀ signal ∈ run.signals, signal.id ≠ delivery.id)
    (delivered : deliverSignal def_ run env delivery = some (draft, status)) : Explained def_ run env move committed draft := by
  simp only [deliverSignal] at delivered
  split at delivered
  · cases delivered
    exact .idle
  simp only [Option.bind_eq_bind, Option.bind_eq_some_iff, Option.pure_def] at delivered
  obtain ⟨waited, _, stored, _, _, _, delivered⟩ := delivered
  split at delivered
  · cases delivered
    exact .idle
  split at delivered
  · cases delivered
    exact .idle
  next fresh =>
  let signal : Signal := ⟨delivery.id, delivery.name, delivery.deliveryId, stored, delivery.receivedAt, none, none⟩
  have posted : Posted run (run.signals ++ [signal]) := by
    refine .stored signal rfl own fun other member same => fresh ?_
    exact List.any_eq_true.mpr ⟨other, member, decide_eq_true same⟩
  have kept {events : List RunEvent} (silent : Silent events)
      (listens : Listening def_ { run with signals := run.signals ++ [signal] } ∨ ∃ event ∈ events, event.isStart = true) :
      Explained def_ run env move committed ⟨{ run with signals := run.signals ++ [signal] }, events⟩ := by
    refine ⟨.untouched _ posted, fun event member node result by_ completes => ?_, fun _ _ => listens⟩
    rw [silent event member] at completes
    cases completes
  split at delivered
  · cases delivered
    refine kept (.cons rfl silent_deadline) ?_
    by_cases parked : run.row.state = .parked
    · obtain ⟨event, member, starts⟩ := @starts_deadline def_ run env (by rw [parked]; rintro ⟨⟩)
      exact .inr ⟨event, List.mem_cons_of_mem _ member, starts⟩
    · exact .inl fun still => absurd still parked
  split at delivered
  · next alone =>
    cases delivered
    refine kept (.cons rfl .nil) (.inl fun parked path wait fails here known => ?_)
    obtain ⟨waits, quiet⟩ := listening parked path wait fails here known
    refine ⟨waits, fun other member => ?_⟩
    rcases List.mem_append.mp member with member | member
    · exact quiet other member
    · cases List.mem_singleton.mp member
      -- a run that is parked for this name would have been found
      have differs : delivery.name ≠ wait.signal := by
        intro same
        have found : parkedFor def_ run delivery.name = some (path, wait) := by
          change run.row.state = .parked at parked
          change run.row.node = some path at here
          change run.row.waitingFor = some wait.signal at waits
          simp [parkedFor, parked, here, waits, known, same]
        rw [alone] at found
        cases found
      simp [Signal.awaits, signal, differs]
  · next path wait found =>
    obtain ⟨parked, here, ⟨fails, known⟩, named⟩ := parkedFor_some found
    obtain ⟨-, quiet⟩ := listening parked path wait fails here known
    have oldest : oldestSignal (run.signals ++ [signal]) wait.signal = some signal := by
      refine oldestSignal_new ?_ quiet
      simp [Signal.awaits, signal, named]
    have oldestNamed : oldestSignal (run.signals ++ [signal]) delivery.name = some signal := named ▸ oldest
    cases delivered
    refine .takes posted oldest known ?_ [.signalReceived delivery.name delivery.deliveryId env.now] rfl (.cons rfl .nil) ?_
    · simp only [signal] at oldestNamed
      rw [oldestNamed]
      rfl
    · intro other member
      exact (List.mem_append.mp member).imp_right List.mem_singleton.mp

theorem explained_wakeWait (woke : wakeWait def_ run env path = some draft) : Explained def_ run env move committed draft := by
  simp only [wakeWait] at woke
  split at woke
  · cases woke
    exact .idle
  split at woke
  · next name sources fails known =>
    have named : name = path := WorkflowDef.node_name known
    subst named
    split at woke
    · cases woke
      exact .silent rfl silent_deadline
    · cases woke
      exact .onlyAt rfl onlyAt_wakeOnEvent fun _ => .tookEvent sources fails known
  · cases woke

theorem explained_wakeParent {base : String} {moves : Moves} (woke : wakeParent def_ run env base = some (draft, moves)) :
    Explained def_ run env move committed draft := by
  simp only [wakeParent] at woke
  split at woke
  · cases woke
    exact .idle
  obtain ⟨found, looked, same⟩ := Option.map_eq_some_iff.mp woke
  cases same
  simp only [onChildEnded] at looked
  split at looked
  · split at looked
    · cases looked
      exact .idle
    split at looked
    · cases looked
      exact .idle
    · cases looked
      exact .silent rfl (silent_compensate _)
  split at looked
  · cases looked
    exact .idle
  split at looked
  · cases looked
    exact .idle
  next plan _ =>
  split at looked
  · cases looked
    exact .idle
  split at looked
  · cases looked
  next node fan =>
  split at looked
  · cases looked
    exact .idle
  split at looked
  · cases looked
    exact .silent rfl silent_deadline
  · obtain ⟨known, isFan⟩ := Option.filter_eq_some_iff.mp fan
    have result := Option.some.inj looked
    rw [← result]
    exact .onlyAt rfl onlyAt_joinChildren fun _ => .joined node known isFan

def Move.isVerb : Move → Bool
  | .cancelRun _ | .compensateChild .. | .failChildrenNode .. | .retryStep .. | .resolveStep .. | .skipUndo .. |
    .reschedule .. | .changeFields _ | .dequeueRun => true
  | _ => false

theorem silent_verbs (verb : move.isVerb = true)
    (drafted : Life.draftOf def_ run env move = some (draft, committed)) : draft.run.signals = run.signals ∧ Silent draft.events := by
  have begins {reason : String} :
      Silent (beginCompensation def_ run env [.cancelRequested reason env.now] false none true) := silent_begin (.cons rfl .nil)
  cases move with
  | cancelRun reason =>
    obtain ⟨other, made, pair⟩ := Option.map_eq_some_iff.mp drafted
    cases pair
    simp only [cancelRun] at made
    split at made
    · cases made
    · cases made
      exact ⟨rfl, begins⟩
  | compensateChild reason reopen =>
    cases drafted
    unfold compensateChild
    generalize (if reopen = true then decide (run.row.state = .completed) else run.row.state.isLive) = eligible
    cases eligible with
    | true => exact ⟨rfl, begins⟩
    | false => exact ⟨rfl, .nil⟩
  | failChildrenNode path error =>
    cases drafted
    unfold failChildrenNode
    split
    · exact ⟨rfl, .nil⟩
    · exact ⟨rfl, silent_deadNode⟩
  | retryStep path phase dead =>
    obtain ⟨other, made, pair⟩ := Option.map_eq_some_iff.mp drafted
    cases pair
    simp only [retryStep] at made
    split at made
    · cases made
    obtain ⟨step, -, made⟩ := Option.bind_eq_some_iff.mp made
    split at made
    · split at made
      · cases made
      · cases made
        exact ⟨rfl, silent_jobRetried dead⟩
    · split at made
      · cases made
      split at made
      · cases made
        exact ⟨rfl, .cons rfl .nil⟩
      · obtain ⟨key, -, same⟩ := Option.map_eq_some_iff.mp made
        cases same
        exact ⟨rfl, .cons rfl .nil⟩
    · cases made
  | resolveStep path result =>
    obtain ⟨other, made, pair⟩ := Option.map_eq_some_iff.mp drafted
    cases pair
    simp only [resolveStep] at made
    split at made
    · cases made
    obtain ⟨step, -, made⟩ := Option.bind_eq_some_iff.mp made
    obtain ⟨node, -, made⟩ := Option.bind_eq_some_iff.mp made
    split at made
    · obtain ⟨kept, -, made⟩ := Option.bind_eq_some_iff.mp made
      obtain ⟨key, -, same⟩ := Option.map_eq_some_iff.mp made
      cases same
      exact ⟨rfl, .cons rfl .nil⟩
    · cases made
  | skipUndo path reason =>
    obtain ⟨other, made, pair⟩ := Option.map_eq_some_iff.mp drafted
    cases pair
    simp only [skipUndo] at made
    split at made
    · cases made
    obtain ⟨step, -, made⟩ := Option.bind_eq_some_iff.mp made
    split at made
    · cases made
      exact ⟨rfl, .cons rfl (silent_compensate _)⟩
    · cases made
  | reschedule startAt unclaimed =>
    obtain ⟨other, made, pair⟩ := Option.map_eq_some_iff.mp drafted
    cases pair
    simp only [reschedule] at made
    split at made
    · cases made
      exact ⟨rfl, .cons rfl .nil⟩
    · cases made
  | changeFields tags =>
    obtain ⟨other, made, pair⟩ := Option.map_eq_some_iff.mp drafted
    cases pair
    simp only [changeFields] at made
    split at made
    · cases made
    · cases made
      refine ⟨rfl, .cons ?_ .nil⟩
      split <;> rfl
  | dequeueRun =>
    cases drafted
    unfold dequeueRun
    split
    · split
      · exact ⟨rfl, .cons rfl (.cons rfl .nil)⟩
      · exact ⟨rfl, .nil⟩
    · exact ⟨rfl, .nil⟩
  | _ => cases verb

theorem Life.explained (fair : life.fair def_ turn) (listening : Listening def_ life.run)
    (drafted : Life.draftOf def_ life.run turn.env turn.move = some (draft, committed)) :
    Explained def_ life.run turn.env turn.move committed draft := by
  simp only [Life.fair] at fair
  have verb (silent : draft.run.signals = life.run.signals ∧ Silent draft.events) :
      Explained def_ life.run turn.env turn.move committed draft := .silent silent.1 silent.2
  cases move : turn.move with
  | checkpoint job path phase attempt outcome =>
    rw [move] at drafted fair
    obtain ⟨other, made, pair⟩ := Option.map_eq_some_iff.mp drafted
    cases pair
    obtain ⟨-, node, known, sends⟩ := fair
    exact explained_checkpoint known sends made
  | commandNode job path phase attempt key tried =>
    rw [move] at drafted
    exact explained_commandNode drafted
  | recordKey path attempt key =>
    rw [move] at drafted
    cases drafted
    exact .silent (Run.recordKey_row ..).2.2 .nil
  | fire timer =>
    rw [move] at drafted
    obtain ⟨other, made, pair⟩ := Option.map_eq_some_iff.mp drafted
    cases pair
    exact explained_fire made
  | deliverSignal delivery =>
    rw [move] at drafted fair
    obtain ⟨⟨other, status⟩, made, pair⟩ := Option.map_eq_some_iff.mp drafted
    cases pair
    exact explained_deliverSignal listening fair made
  | wakeWait path =>
    rw [move] at drafted
    obtain ⟨other, made, pair⟩ := Option.map_eq_some_iff.mp drafted
    cases pair
    exact explained_wakeWait made
  | wakeParent base =>
    rw [move] at drafted
    obtain ⟨⟨other, moves⟩, made, pair⟩ := Option.map_eq_some_iff.mp drafted
    cases pair
    exact explained_wakeParent made
  | _ => exact move ▸ verb (silent_verbs (by rw [move]; rfl) drafted)

end Arki.Workflow
