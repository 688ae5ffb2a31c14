import Arki.Workflow.Signals

/-! One visit of a node moves its run once: one result, one command, one end of each life. -/

set_option autoImplicit false

namespace Arki.Workflow

open Arki.Journal (Value)

variable {def_ : WorkflowDef} {env : Env} {run : Run} {seq : Nat} {path : String} {event : RunEvent} {events : List RunEvent}
  {life next : Life} {turn : Turn} {draft : Draft} {committed : Bool}

def RunEvent.result (path : String) : RunEvent → Option Value
  | .nodeCompleted node .do_ result .. => if node = path then some result else none
  | .nodeSkipped node .do_ cause .. => if node = path ∧ cause ≠ .compensating ∧ cause ≠ .expired then some .null else none
  | _ => none

def Run.lastResult (run : Run) (path : String) : Option Value := run.events.reverse.findSome? (·.result path)

def Run.startResults (run : Run) : Results :=
  (run.log.findSome? fun recorded => match recorded.event with
    | .runStarted data => some data.results
    | _ => none).getD ∅

def Run.Current (run : Run) : Prop :=
  ∀ path, run.row.results.lookup path = (run.lastResult path).or (run.startResults.lookup path)

theorem Row.on_results (row : Row) (event : RunEvent) (path : String) :
    (row.on event).results.lookup path = (event.result path).or (row.results.lookup path) := by
  cases event with
  | nodeCompleted node phase result =>
    cases phase with
    | undo => rfl
    | do_ =>
      simp only [Row.on, RunEvent.result]
      by_cases same : node = path
      · subst same
        simp
      · simp [same, AList.lookup_insert_ne (Ne.symm same)]
  | nodeSkipped node phase cause =>
    cases phase with
    | undo => rfl
    | do_ =>
      simp only [Row.on, RunEvent.result]
      by_cases ran : cause ≠ .compensating ∧ cause ≠ .expired
      · by_cases same : node = path
        · subst same
          simp [ran]
        · simp [ran, same, AList.lookup_insert_ne (Ne.symm same)]
      · simp [ran]
  | _ => rfl

theorem Run.lastResult_on (path : String) : (run.on seq event).lastResult path = (event.result path).or (run.lastResult path) := by
  simp only [Run.lastResult, Run.events, Run.on, List.map_append, List.map_cons, List.map_nil, List.reverse_append,
    List.reverse_singleton, List.singleton_append, List.findSome?_cons]
  cases event.result path <;> rfl

theorem Run.startResults_on (fits : Fits def_ run event) : (run.on seq event).startResults = run.startResults := by
  have quiet : (match event with
      | .runStarted data => some data.results
      | _ => none) = none := by
    cases event with
    | runStarted => cases fits.2
    | _ => rfl
  simp only [Run.startResults, Run.on, List.findSome?_append, List.findSome?_cons, List.findSome?_nil, quiet, Option.or_none]

theorem Run.Current.on (current : run.Current) (fits : Fits def_ run event) : (run.on seq event).Current := by
  intro path
  rw [Run.lastResult_on, Run.startResults_on fits, Option.or_assoc, ← current path]
  exact Row.on_results run.row event path

theorem Run.Current.write (current : run.Current) (orderly : Orderly def_ run seq events) : (run.write seq events).Current := by
  induction events generalizing run seq with
  | nil => exact current
  | cons event rest ih => exact ih (current.on orderly.1) orderly.2.2

theorem Run.Current.of_same {other : Run} (current : run.Current) (row : other.row = run.row) (log : other.log = run.log) :
    other.Current := by
  intro path
  rw [row, current path]
  simp only [Run.lastResult, Run.events, Run.startResults, log]

structure Run.Numbered (run : Run) (nextSeq : Nat) : Prop where
  below : ∀ recorded ∈ run.log, recorded.seq < nextSeq
  distinct : (run.log.map (·.seq)).Nodup

theorem Run.Numbered.on (numbered : run.Numbered seq) : (run.on seq event).Numbered (seq + 1) := by
  constructor
  · intro recorded member
    rcases List.mem_append.mp member with member | member
    · exact Nat.lt_succ_of_lt (numbered.below recorded member)
    · cases List.mem_singleton.mp member
      exact Nat.lt_succ_self seq
  · simp only [Run.on, List.map_append, List.map_cons, List.map_nil]
    refine numbered.distinct.append (List.nodup_singleton _) ?_
    rw [List.disjoint_singleton]
    intro member
    obtain ⟨recorded, known, same⟩ := List.mem_map.mp member
    exact absurd (numbered.below recorded known) (by omega)

theorem Run.Numbered.write (numbered : run.Numbered seq) : (run.write seq events).Numbered (seq + events.length) := by
  induction events generalizing run seq with
  | nil => exact numbered
  | cons event rest ih =>
    rw [List.length_cons, Nat.add_comm rest.length, ← Nat.add_assoc]
    exact ih numbered.on

theorem Run.Numbered.of_same {other : Run} (numbered : run.Numbered seq) (log : other.log = run.log) : other.Numbered seq :=
  ⟨log ▸ numbered.below, log ▸ numbered.distinct⟩

theorem Run.Numbered.later {nextSeq : Nat} (numbered : run.Numbered seq) (le : seq ≤ nextSeq) : run.Numbered nextSeq :=
  ⟨fun recorded member => Nat.lt_of_lt_of_le (numbered.below recorded member) le, numbered.distinct⟩

theorem doCommand_committed {key : String} {tried : CommandTried} {outcome : Outcome}
    (ran : doCommand def_ run env path key tried = (outcome, true)) :
    ∃ result route, outcome = .completed result route none := by
  simp only [doCommand] at ran
  split at ran
  · cases ran
  split at ran
  · split at ran <;> cases ran
  split at ran
  · cases ran
  · split at ran <;> cases ran
  · split at ran
    · cases ran
    split at ran
    · next settled =>
      cases ran
      simp only [settleCommand, bind, Except.bind] at settled
      split at settled
      · cases settled
      split at settled
      · cases settled
      · cases settled
        exact ⟨_, _, rfl⟩
    · cases ran

theorem commandNode_committed {attempt : Nat} {key : String} {tried : CommandTried}
    (ran : commandNode def_ run env path .do_ attempt key tried = some (draft, true)) :
    ∃ undo keeps result rest, def_.node path = some ⟨path, .command undo keeps⟩ ∧
      draft.events = .nodeCompleted path .do_ result none env.now :: rest ∧ Silent rest := by
  simp only [commandNode] at ran
  split at ran
  · next attempted =>
    split at ran
    · next name undo keeps known =>
      have named : name = path := WorkflowDef.node_name known
      subst named
      simp only [Option.bind_eq_some_iff, Option.map_eq_some_iff, Prod.mk.injEq] at ran
      obtain ⟨⟨outcome, flag⟩, came, other, answered, rfl, rfl⟩ := ran
      obtain ⟨result, route, rfl⟩ := doCommand_committed (Option.some.inj came)
      rw [checkpoint, if_pos attempted] at answered
      cases answered
      refine ⟨undo, keeps, result, _, known, rfl, ?_⟩
      split
      · exact silent_compensate _
      · exact silent_eventsAfter _
    · cases ran
  · cases ran

structure Life.Commanded (life : Life) : Prop where
  recorded : ∀ command ∈ life.commands, ∃ result time,
    ⟨command.seq, .nodeCompleted command.path .do_ result none time⟩ ∈ life.run.log
  once : (life.commands.map (·.seq)).Nodup

structure VisitsHold (life : Life) : Prop where
  current : life.run.Current
  numbered : life.run.Numbered life.nextSeq
  commanded : life.Commanded

theorem VisitsHold.step (holds : VisitsHold life) (standing : Standing life.run) (fair : life.fair def_ turn)
    (stepped : Life.step def_ life turn = some next) : VisitsHold next := by
  obtain ⟨draft, committed, drafted, run_, nextSeq, commands⟩ := Life.step_cases stepped
  obtain ⟨row, log, orderly⟩ := Life.draft_same standing fair drafted
  have written : next.run.log = life.run.log ++ numberedFrom (life.seqOf turn) draft.events := by
    rw [run_, Draft.commit_log, log]
  have keeps (recorded : Recorded) (member : recorded ∈ life.run.log) : recorded ∈ next.run.log := by
    rw [written]
    exact List.mem_append_left _ member
  have gap : life.nextSeq ≤ life.seqOf turn := Nat.le_add_right _ _
  refine ⟨?_, ?_, ?_⟩
  · have after := (holds.current.of_same row log).write (orderly (life.seqOf turn))
    rw [run_]
    exact after.of_same (Draft.commit_row ..) (by rw [Draft.commit_log, Run.write_log])
  · have before : draft.run.Numbered (life.seqOf turn) := (holds.numbered.of_same log).later gap
    rw [run_, nextSeq]
    exact Run.Numbered.of_same before.write (by rw [Draft.commit_log, Run.write_log])
  · have same (unchanged : next.commands = life.commands) : next.Commanded := by
      refine ⟨fun command member => ?_, unchanged ▸ holds.commanded.once⟩
      obtain ⟨result, time, there⟩ := holds.commanded.recorded command (unchanged ▸ member)
      exact ⟨result, time, keeps _ there⟩
    split at commands
    · next job path attempt key tried move =>
      cases committed with
      | false => exact same commands
      | true =>
        rw [move] at drafted
        obtain ⟨undo, keeps_, result, rest, -, events, -⟩ := commandNode_committed drafted
        simp only [if_true] at commands
        refine ⟨fun command member => ?_, ?_⟩
        · rw [commands] at member
          rcases List.mem_cons.mp member with rfl | member
          · refine ⟨result, turn.env.now, ?_⟩
            rw [written, events]
            exact List.mem_append_right _ List.mem_cons_self
          · obtain ⟨other, time, there⟩ := holds.commanded.recorded command member
            exact ⟨other, time, keeps _ there⟩
        · rw [commands, List.map_cons, List.nodup_cons]
          refine ⟨fun member => ?_, holds.commanded.once⟩
          obtain ⟨command, there, seq⟩ := List.mem_map.mp member
          obtain ⟨other, time, recorded⟩ := holds.commanded.recorded command there
          have below := holds.numbered.below _ recorded
          simp only at seq below
          omega
    · exact same commands

theorem Life.Begins.holds (begins : Life.Begins def_ life) : VisitsHold life := by
  cases begins with
  | scheduled id seq data first due shape head =>
    refine ⟨fun path => ?_, ⟨?_, ?_⟩, ⟨by rintro _ ⟨⟩, List.nodup_nil⟩⟩
    · rfl
    · intro recorded member
      simp [Run.create, Run.write, Run.on] at member
      rcases member with rfl | rfl <;> simp
    · simp [Run.create, Run.write, Run.on]
  | queued id seq data limitName reason ttlAt time shape filled =>
    refine ⟨fun path => ?_, ⟨?_, ?_⟩, ⟨by rintro _ ⟨⟩, List.nodup_nil⟩⟩
    · rfl
    · intro recorded member
      simp [Run.create, Run.write, Run.on] at member
      rcases member with rfl | rfl <;> simp
    · simp [Run.create, Run.write, Run.on]

theorem Life.Reaches.holds (reaches : Life.Reaches def_ life) : VisitsHold life := by
  obtain ⟨start, begins, reach⟩ := reaches
  refine (reach.invariant (fun life => Standing life.run ∧ VisitsHold life) ⟨begins.standing, begins.holds⟩ ?_).2
  exact fun _ _ _ ⟨standing, holds⟩ fair stepped => ⟨standing.step fair stepped, holds.step standing fair stepped⟩

def Move.attempted : Move → Option (String × StepPhase × Nat)
  | .checkpoint _ path phase attempt _ => some (path, phase, attempt)
  | .commandNode _ path phase attempt .. => some (path, phase, attempt)
  | _ => none

def Run.current (run : Run) (path : String) (phase : StepPhase) (attempt : Nat) : Prop :=
  ∃ step, run.steps.lookup (path, phase) = some step ∧ step.attempt = attempt ∧
    (step.status = .scheduled ∨ step.status = .failed)

structure VisitTurn (def_ : WorkflowDef) (life : Life) (turn : Turn) (next : Life) : Prop where
  stale : ∀ path phase attempt, turn.move.attempted = some (path, phase, attempt) →
    ¬ life.run.current path phase attempt → next.run = life.run ∧ next.commands = life.commands
  commits : next.commands = life.commands ∨ ∃ path undo keeps result time,
    next.commands = ⟨path, life.seqOf turn⟩ :: life.commands ∧ def_.node path = some ⟨path, .command undo keeps⟩ ∧
      ⟨life.seqOf turn, .nodeCompleted path .do_ result none time⟩ ∈ next.run.log
  /-- And a command node completes with its command, with a failure that it accepts, or by an operator. -/
  completes : ∃ fresh, next.run.log = life.run.log ++ fresh ∧ ∀ recorded ∈ fresh, ∀ path result resolvedBy time,
    recorded.event = .nodeCompleted path .do_ result resolvedBy time →
      ∀ undo keeps, def_.node path = some ⟨path, .command undo keeps⟩ →
        resolvedBy.isSome ∨ next.commands = ⟨path, recorded.seq⟩ :: life.commands ∨
          ∃ job attempt key tried envelope, turn.move = .commandNode job path .do_ attempt key tried ∧
            tried.ran = .refused envelope ∧ next.commands = life.commands
  /-- Nothing is recorded on a run that is over, until its parent reopens it. -/
  ended : life.run.row.finishedAt.isSome → next.run.log = life.run.log ∨
    ∃ reason, turn.move = .compensateChild reason true ∧ life.run.row.state = .completed

theorem openAttempt_over {phase : StepPhase} {attempt : Nat} (ended : run.row.finishedAt.isSome = true) :
    run.openAttempt path phase attempt = false := by
  cases opened : run.openAttempt path phase attempt with
  | false => rfl
  | true =>
    rw [(Run.openAttempt_iff.mp opened).1] at ended
    cases ended

theorem openAttempt_current {phase : StepPhase} {attempt : Nat} (opened : run.openAttempt path phase attempt = true) :
    run.current path phase attempt := by
  obtain ⟨-, isOpen, step, found, same⟩ := Run.openAttempt_iff.mp opened
  refine ⟨step, found, same, ?_⟩
  rcases Run.isOpen_iff.mp isOpen with status | status
  · exact .inl (by simpa [Run.status, found] using status)
  · exact .inr (by simpa [Run.status, found] using status)

theorem drafted_closed {phase : StepPhase} {attempt : Nat} (attempted : turn.move.attempted = some (path, phase, attempt))
    (closed : run.openAttempt path phase attempt = false)
    (drafted : Life.draftOf def_ run env turn.move = some (draft, committed)) : draft = .idle run ∧ committed = false := by
  have shut : ¬ run.openAttempt path phase attempt = true := by simp [closed]
  cases move : turn.move with
  | checkpoint job node phase attempt outcome =>
    rw [move] at attempted drafted
    cases attempted
    obtain ⟨other, made, pair⟩ := Option.map_eq_some_iff.mp drafted
    cases pair
    rw [checkpoint, if_neg shut] at made
    cases made
    exact ⟨rfl, rfl⟩
  | commandNode job node phase attempt key tried =>
    rw [move] at attempted drafted
    cases attempted
    simp only [Life.draftOf] at drafted
    rw [commandNode, if_neg shut] at drafted
    cases drafted
    exact ⟨rfl, rfl⟩
  | _ =>
    rw [move] at attempted
    cases attempted

theorem drafted_over (standing : Standing run) (ended : run.row.finishedAt.isSome = true)
    (drafted : Life.draftOf def_ run env turn.move = some (draft, committed)) :
    draft.events = [] ∨ ∃ reason, turn.move = .compensateChild reason true ∧ run.row.state = .completed := by
  have dead : run.row.state.isLive = false ∧ run.row.state ≠ .compensating := by
    have live := standing.kept.ended
    constructor
    · cases isLive : run.row.state.isLive with
      | false => rfl
      | true =>
        rw [live.mpr (.inl isLive)] at ended
        cases ended
    · intro compensating
      rw [live.mpr (.inr compensating)] at ended
      cases ended
  have attempts {path : String} {phase : StepPhase} {attempt : Nat}
      (attempted : turn.move.attempted = some (path, phase, attempt)) : draft.events = [] := by
    rw [(drafted_closed attempted (openAttempt_over ended) drafted).1]
    rfl
  cases move : turn.move with
  | checkpoint => exact .inl (attempts (by rw [move]; rfl))
  | commandNode => exact .inl (attempts (by rw [move]; rfl))
  | recordKey =>
    rw [move] at drafted
    cases drafted
    exact .inl rfl
  | fire timer =>
    rw [move] at drafted
    simp only [Life.draftOf, fire, ended, if_true] at drafted
    cases drafted
    exact .inl rfl
  | deliverSignal delivery =>
    rw [move] at drafted
    simp only [Life.draftOf, deliverSignal, ended, if_true] at drafted
    cases drafted
    exact .inl rfl
  | wakeWait path =>
    rw [move] at drafted
    have left : run.row.state ≠ .parked ∨ run.row.node ≠ some path := by
      refine .inl fun parked => ?_
      rw [parked] at dead
      cases dead.1
    simp only [Life.draftOf, wakeWait, if_pos left] at drafted
    cases drafted
    exact .inl rfl
  | cancelRun reason =>
    rw [move] at drafted
    simp only [Life.draftOf, cancelRun, ended, true_or, if_true] at drafted
    cases drafted
  | compensateChild reason reopen =>
    rw [move] at drafted
    cases drafted
    cases reopen with
    | true =>
      by_cases completed : run.row.state = .completed
      · exact .inr ⟨reason, rfl, completed⟩
      · refine .inl ?_
        simp [compensateChild, completed, Draft.idle]
    | false =>
      refine .inl ?_
      simp [compensateChild, dead.1, Draft.idle]
  | wakeParent base =>
    rw [move] at drafted
    simp only [Life.draftOf, wakeParent, ended, if_true] at drafted
    cases drafted
    exact .inl rfl
  | failChildrenNode path error =>
    rw [move] at drafted
    simp only [Life.draftOf, failChildrenNode, ended, true_or, if_true] at drafted
    cases drafted
    exact .inl rfl
  | retryStep path phase deadNodes =>
    rw [move] at drafted
    simp only [Life.draftOf, retryStep, ended, if_true] at drafted
    cases drafted
  | resolveStep path result =>
    rw [move] at drafted
    simp only [Life.draftOf, resolveStep, ended, true_or, if_true] at drafted
    cases drafted
  | skipUndo path reason =>
    rw [move] at drafted
    simp only [Life.draftOf, skipUndo, ended, true_or, if_true] at drafted
    cases drafted
  | reschedule startAt unclaimed =>
    rw [move] at drafted
    have not_ (waiting : Bool) : ¬ (run.row.state = .queued ∨ (run.row.notStarted = true ∧ waiting = true ∧ unclaimed = true)) := by
      rintro (queued | ⟨notStarted, -⟩)
      · rw [queued] at dead
        cases dead.1
      · simp only [Row.notStarted, Bool.and_eq_true, Option.isNone_iff_eq_none] at notStarted
        rw [notStarted.1.1] at ended
        cases ended
    simp only [Life.draftOf, reschedule, if_neg (not_ _)] at drafted
    cases drafted
  | changeFields tags =>
    rw [move] at drafted
    simp only [Life.draftOf, changeFields, ended, if_true] at drafted
    cases drafted
  | dequeueRun =>
    rw [move] at drafted
    cases drafted
    refine .inl ?_
    unfold dequeueRun
    split
    · split
      · next queued =>
        rw [queued] at dead
        cases dead.1
      · rfl
    · rfl

theorem visitTurn (mailbox : Mailbox def_ life.run) (standing : Standing life.run) (fair : life.fair def_ turn)
    (stepped : Life.step def_ life turn = some next) : VisitTurn def_ life turn next := by
  obtain ⟨draft, committed, drafted, run_, -, commands⟩ := Life.step_cases stepped
  have explained := Life.explained fair mailbox.listening drafted
  obtain ⟨-, log, -⟩ := Life.draft_same standing fair drafted
  have written : next.run.log = life.run.log ++ numberedFrom (life.seqOf turn) draft.events := by
    rw [run_, Draft.commit_log, log]
  have uncommitted (not_ : committed = false) : next.commands = life.commands := by
    rw [commands, not_]
    split <;> rfl
  constructor
  · intro path phase attempt attempted other
    have closed : life.run.openAttempt path phase attempt = false := by
      cases opened : life.run.openAttempt path phase attempt with
      | false => rfl
      | true => exact absurd (openAttempt_current opened) other
    obtain ⟨idle, not_⟩ := drafted_closed attempted closed drafted
    exact ⟨by rw [run_, idle, Draft.commit_idle], uncommitted not_⟩
  · split at commands
    · next job path attempt key tried move =>
      cases committed with
      | false => exact .inl commands
      | true =>
        rw [move] at drafted
        obtain ⟨undo, keeps, result, rest, known, events, -⟩ := commandNode_committed drafted
        refine .inr ⟨path, undo, keeps, result, turn.env.now, commands, known, ?_⟩
        rw [written, events]
        exact List.mem_append_right _ List.mem_cons_self
    · exact .inl commands
  · refine ⟨_, written, fun recorded member path result resolvedBy time event undo keeps known => ?_⟩
    have listed : recorded.event ∈ draft.events := by
      rw [← numberedFrom_events (life.seqOf turn) draft.events]
      exact List.mem_map_of_mem member
    have completion : recorded.event.completion = some (path, result, resolvedBy) := by rw [event]; rfl
    cases explained.source recorded.event listed path result resolvedBy completion with
    | reported job attempt route _ node moved found sends =>
      rw [known] at found
      cases found
      exact .inl sends
    | commanded job attempt key tried undo keeps moved found refused =>
      refine .inr ?_
      cases committed with
      | false =>
        obtain ⟨envelope, ran⟩ := refused rfl
        exact .inr ⟨job, attempt, key, tried, envelope, moved, ran, uncommitted rfl⟩
      | true =>
        rw [moved] at commands drafted
        obtain ⟨_, _, value, rest, -, events, silent⟩ := commandNode_committed drafted
        rw [events] at member
        rcases List.mem_cons.mp member with rfl | member
        · exact .inl commands
        · have later : recorded.event ∈ rest := by
            rw [← numberedFrom_events (life.seqOf turn + 1) rest]
            exact List.mem_map_of_mem member
          rw [silent _ later] at completion
          cases completion
    | signalled before other _ signal parsed found =>
      rw [known] at found
      cases found
    | timed at_ node fired found isWait =>
      rw [known] at found
      cases found
      cases isWait
    | tookEvent sources _ found =>
      rw [known] at found
      cases found
    | joined node found isFan =>
      rw [known] at found
      cases found
      cases isFan
  · intro ended
    rcases drafted_over standing ended drafted with nothing | reopens
    · refine .inl ?_
      rw [written, nothing]
      exact List.append_nil _
    · exact .inr reopens

/-- In every life of a run, each visit of a node is settled once and leaves its result, one attempt is scheduled at a
time, commands commit with their nodes, and every life ends once. -/
theorem visits_move_once (reaches : Life.Reaches def_ life) :
    ((∀ path, (life.run.visiting path).isSome) ∧ life.run.Current ∧
      (∀ first second, life.run.isScheduled (first, .do_) = true → life.run.isScheduled (second, .do_) = true → first = second) ∧
      (∀ path, life.run.isScheduled (path, .do_) = true → life.run.row.node = some path) ∧
      (life.run.lifePhase = some (if life.run.row.finishedAt.isSome then .ended else .open_)) ∧ life.Commanded) ∧
    ∀ turn next, life.fair def_ turn → Life.step def_ life turn = some next → VisitTurn def_ life turn next := by
  have standing := reaches.standing
  have holds := reaches.holds
  have kept := standing.kept
  refine ⟨⟨fun path => ?_, holds.current, ?_, kept.onRow, ?_, holds.commanded⟩, fun turn next fair stepped =>
    visitTurn reaches.mailbox standing fair stepped⟩
  · rw [kept.visits path]
    rfl
  · exact fun first second left right => kept.single first second (Run.isOpen_scheduled left) (Run.isOpen_scheduled right)
  · obtain ⟨phase, read, open_⟩ := kept.phase
    have whole := standing.whole
    rw [read] at whole ⊢
    cases phase with
    | open_ => simp [open_.mp rfl]
    | reopening => exact absurd rfl whole
    | ended =>
      cases finished : life.run.row.finishedAt with
      | none => cases open_.mpr finished
      | some _ => rfl

def charge : WorkflowDef where
  name := "charge"
  version := 1
  shapeHash := "h"
  nodes := [⟨"card", .command false true⟩]
  deadline := none
  concurrency := none
  startsWithEvent := false
  waitsOnDeadStep := false
  finish _ last := .ok last
  output value := .ok value
  storable _ value := .ok value
  keepUntil _ _ := none

def chargeData : RunStarted :=
  ⟨"charge", 1, charge.shape, "h", .null, none, none, none, none, none, none, none, none, [], none, ∅, 1⟩

def chargeBegun : Life :=
  ⟨Run.create "r1" 1 chargeData [.nodeScheduled "card" .do_ 1 (firstKeyOf "r1" "card") none 1], 3, []⟩

theorem chargeBegun_reached : Life.Reaches charge chargeBegun :=
  ⟨chargeBegun, .scheduled "r1" 1 chargeData ⟨"card", .command false true⟩ 1 rfl rfl, .start⟩

def charging (ran : CommandRan) : Turn :=
  ⟨⟨[charge], 10, 10, [], [], false, false⟩, 0, .commandNode 2 "card" .do_ 1 (firstKeyOf "r1" "card") ⟨true, ran, none⟩⟩

theorem charging_fair (ran : CommandRan) : chargeBegun.fair charge (charging ran) :=
  ⟨firstKeyOf "r1" "card", none, 1, .tail _ (.head _)⟩

/-- A command node may complete, and no command with it. -/
theorem completed_uncommitted : ¬ ∀ def_ life, Life.Reaches def_ life → ∀ recorded ∈ life.run.log,
    ∀ path result resolvedBy time, recorded.event = .nodeCompleted path .do_ result resolvedBy time →
      ∀ undo keeps, def_.node path = some ⟨path, .command undo keeps⟩ → ⟨path, recorded.seq⟩ ∈ life.commands := by
  intro committed
  have reached : Life.Reaches charge (Life.after charge chargeBegun (charging (.refused (.string "declined")))) :=
    chargeBegun_reached.after (charging_fair _) (by decide +kernel)
  have missing := committed charge _ reached
    ⟨3, .nodeCompleted "card" .do_ (refusedValue (.string "declined")) none 10⟩ (.tail _ (.tail _ (.head _)))
    "card" _ none 10 rfl false true rfl
  exact absurd missing (by decide +kernel)

/-- The command of the only node commits, and the life of the run ends. -/
theorem visits_move_once_charged :
    (Life.after charge chargeBegun (charging (.returned (.string "paid")))).commands = [⟨"card", 3⟩] ∧
      (Life.after charge chargeBegun (charging (.returned (.string "paid")))).run.lifePhase = some .ended := by
  refine ⟨by decide +kernel, ?_⟩
  have reached : Life.Reaches charge (Life.after charge chargeBegun (charging (.returned (.string "paid")))) :=
    chargeBegun_reached.after (charging_fair _) (by decide +kernel)
  obtain ⟨⟨-, -, -, -, lives, -⟩, -⟩ := visits_move_once reached
  rw [lives]
  decide +kernel

end Arki.Workflow
