import Arki.Workflow.Standing

/-! Every state of a life stands. -/

set_option autoImplicit false

namespace Arki.Workflow

variable {def_ : WorkflowDef} {env : Env} {run : Run} {seq : Nat} {path : String} {life next : Life} {turn : Turn}

theorem Draft.Sound.standing {draft : Draft} (sound : draft.Sound def_ run) (standing : Standing run) (seq : Nat) :
    Standing (draft.commit seq) := by
  have written := (standing.of_same sound.row sound.log sound.steps).write (sound.orderly seq)
  simp only [Draft.commit]
  split
  · exact written.of_same rfl rfl rfl
  · exact written

theorem Run.recordKey_lookup (run : Run) (path : String) (attempt : Nat) (key : String) (step : String × StepPhase) :
    ((run.recordKey path attempt key).steps.lookup step).map (fun found => (found.status, found.attempt)) =
      (run.steps.lookup step).map fun found => (found.status, found.attempt) := by
  simp only [Run.recordKey]
  split
  · next found known =>
    split
    · by_cases same : step = (path, .do_)
      · subst same
        simp [known]
      · simp [AList.lookup_insert_ne same]
    · rfl
  · rfl

theorem Run.recordKey_row (run : Run) (path : String) (attempt : Nat) (key : String) :
    (run.recordKey path attempt key).row = run.row ∧ (run.recordKey path attempt key).log = run.log ∧
      (run.recordKey path attempt key).signals = run.signals := by
  simp only [Run.recordKey]
  split
  · split <;> exact ⟨rfl, rfl, rfl⟩
  · exact ⟨rfl, rfl, rfl⟩

theorem Standing.recordKey (standing : Standing run) (path : String) (attempt : Nat) (key : String) :
    Standing (run.recordKey path attempt key) := by
  obtain ⟨row, log, -⟩ := Run.recordKey_row run path attempt key
  have look := Run.recordKey_lookup run path attempt key
  have status (step : String × StepPhase) : (run.recordKey path attempt key).status step = run.status step := by
    have pair := congrArg (Option.map Prod.fst) (look step)
    simp only [Option.map_map] at pair
    exact pair
  have open_ (step : String × StepPhase) : (run.recordKey path attempt key).isOpen step = run.isOpen step := by
    simp only [Run.isOpen, status]
  have scheduled (step : String × StepPhase) : (run.recordKey path attempt key).isScheduled step = run.isScheduled step := by
    simp only [Run.isScheduled, status]
  have kept := standing.kept
  refine ⟨⟨?_, ?_, ?_, ?_, ?_, ?_, ?_, ?_⟩, ?_, ?_⟩
  · simpa only [Run.lifePhase, Run.events, log, row] using kept.phase
  · intro node
    have was := kept.visits node
    simp only [Run.visiting, Run.events, log, open_] at was ⊢
    exact was
  · simpa only [open_] using kept.single
  · simpa only [scheduled, row] using kept.onRow
  · intro node step found opened
    have pair := look (node, .do_)
    rw [found] at pair
    obtain ⟨old, known, same⟩ := Option.map_eq_some_iff.mp pair.symm
    simp only [Prod.mk.injEq] at same
    rw [← same.2]
    exact kept.attempts node old known (open_ _ ▸ opened)
  · simpa only [open_, scheduled, row] using kept.undoing
  · intro queued
    obtain ⟨none_, unsettled⟩ := kept.queued (row ▸ queued)
    refine ⟨?_, by simpa only [Run.settled, log] using unsettled⟩
    have absent : run.steps.lookup (path, .do_) = none := by
      rw [none_]
      rfl
    have same : run.recordKey path attempt key = run := by
      unfold Run.recordKey
      rw [absent]
    rw [same, none_]
  · simpa only [row] using kept.ended
  · simpa only [open_, row] using standing.parked
  · simpa only [Run.lifePhase, Run.events, log] using standing.whole

theorem Node.sends.apt {node : Node} {phase : StepPhase} {outcome : Outcome} (known : def_.node path = some node)
    (sends : node.sends phase outcome) : outcome.Apt def_ run path phase := by
  cases phase with
  | do_ =>
    cases outcome with
    | undone | dropped => cases sends
    | retry | dead => trivial
    | park waitingFor wakeAt keys =>
      refine ⟨rfl, fun wait fails isWait => ?_⟩
      obtain ⟨-, view, same⟩ := sends
      rw [known] at isWait
      cases isWait
      exact congrArg Prod.fst same
    | _ => rfl
  | undo =>
    cases outcome with
    | undone => rfl
    | retry | dead => trivial
    | _ => cases sends

/-- The drafts of a fair turn are sound, but for the one that only stores a key. -/
theorem Life.sound_draft {draft : Draft} {committed : Bool} (standing : Standing life.run) (fair : life.fair def_ turn)
    (drafted : Life.draftOf def_ life.run turn.env turn.move = some (draft, committed)) :
    draft.Sound def_ life.run ∨
      ∃ path attempt key, turn.move = .recordKey path attempt key ∧ draft = .idle (life.run.recordKey path attempt key) := by
  simp only [Life.fair] at fair
  have paired {found : Option Draft} (same : found.map (·, false) = some (draft, committed))
      (sound : ∀ draft, found = some draft → draft.Sound def_ life.run) : draft.Sound def_ life.run := by
    obtain ⟨other, made, pair⟩ := Option.map_eq_some_iff.mp same
    cases pair
    exact sound _ made
  cases move : turn.move with
  | recordKey path attempt key =>
    rw [move] at drafted
    cases drafted
    exact .inr ⟨path, attempt, key, rfl, rfl⟩
  | checkpoint job path phase attempt outcome =>
    rw [move] at drafted fair
    obtain ⟨-, node, known, sends⟩ := fair
    exact .inl (paired drafted fun _ => sound_checkpoint standing fun _ => sends.apt known)
  | commandNode job path phase attempt key tried =>
    rw [move] at drafted
    exact .inl (sound_commandNode standing drafted)
  | fire timer =>
    rw [move] at drafted
    exact .inl (paired drafted fun _ => sound_fire standing)
  | deliverSignal delivery =>
    rw [move] at drafted
    obtain ⟨⟨other, status⟩, made, pair⟩ := Option.map_eq_some_iff.mp drafted
    cases pair
    exact .inl (sound_deliverSignal standing made)
  | wakeWait path =>
    rw [move] at drafted
    exact .inl (paired drafted fun _ => sound_wakeWait standing)
  | cancelRun reason =>
    rw [move] at drafted
    exact .inl (paired drafted fun _ => sound_cancelRun standing)
  | compensateChild reason reopen =>
    rw [move] at drafted
    cases drafted
    exact .inl (sound_compensateChild standing)
  | wakeParent base =>
    rw [move] at drafted
    obtain ⟨⟨other, moves⟩, made, pair⟩ := Option.map_eq_some_iff.mp drafted
    cases pair
    exact .inl (sound_wakeParent standing made)
  | failChildrenNode path error =>
    rw [move] at drafted
    cases drafted
    exact .inl (sound_failChildrenNode standing)
  | retryStep path phase dead =>
    rw [move] at drafted
    exact .inl (paired drafted fun _ => sound_retryStep standing)
  | resolveStep path result =>
    rw [move] at drafted
    exact .inl (paired drafted fun _ => sound_resolveStep standing)
  | skipUndo path reason =>
    rw [move] at drafted
    exact .inl (paired drafted fun _ => sound_skipUndo standing)
  | reschedule startAt unclaimed =>
    rw [move] at drafted
    exact .inl (paired drafted fun _ => sound_reschedule standing)
  | changeFields tags =>
    rw [move] at drafted
    exact .inl (paired drafted fun _ => sound_changeFields standing)
  | dequeueRun =>
    rw [move] at drafted
    cases drafted
    exact .inl (sound_dequeueRun standing)

theorem Life.step_cases (stepped : Life.step def_ life turn = some next) : ∃ draft committed,
    Life.draftOf def_ life.run turn.env turn.move = some (draft, committed) ∧
      next.run = draft.commit (life.seqOf turn) ∧ next.nextSeq = life.seqOf turn + draft.events.length ∧
      next.commands = (match turn.move with
        | .commandNode _ path .do_ .. => if committed then ⟨path, life.seqOf turn⟩ :: life.commands else life.commands
        | _ => life.commands) := by
  obtain ⟨⟨draft, committed⟩, drafted, same⟩ := Option.map_eq_some_iff.mp stepped
  subst same
  exact ⟨draft, committed, drafted, rfl, rfl, rfl⟩

theorem Standing.step (standing : Standing life.run) (fair : life.fair def_ turn)
    (stepped : Life.step def_ life turn = some next) : Standing next.run := by
  obtain ⟨draft, committed, drafted, run_, -⟩ := Life.step_cases stepped
  rw [run_]
  rcases Life.sound_draft standing fair drafted with sound | ⟨path, attempt, key, -, rfl⟩
  · exact sound.standing standing _
  · exact (@Draft.Sound.idle def_ _).standing (standing.recordKey path attempt key) _

theorem Standing.fresh (steps : run.steps = ∅) (unsettled : run.settled = []) (phase : run.lifePhase = some .open_)
    (visits : ∀ path, run.visiting path = some false) (open_ : run.row.finishedAt = none)
    (state : run.row.state = .running ∨ run.row.state = .queued) : Standing run := by
  have closed (key : String × StepPhase) : run.isOpen key = false := by simp [Run.isOpen, Run.status, steps]
  have idle (key : String × StepPhase) : run.isScheduled key = false := by simp [Run.isScheduled, Run.status, steps]
  refine ⟨⟨⟨.open_, phase, by simp [open_]⟩, ?_, ?_, ?_, ?_, ?_, fun _ => ⟨steps, unsettled⟩, ?_⟩, ?_, ?_⟩
  · intro path
    rw [visits, closed]
  · intro first second left
    rw [closed] at left
    cases left
  · intro path left
    rw [idle] at left
    cases left
  · intro path step _ left
    rw [closed] at left
    cases left
  · intro path left
    rw [closed] at left
    cases left
  · simp only [open_, true_iff]
    rcases state with state | state <;> exact .inl (by rw [state]; rfl)
  · intro parked
    rcases state with state | state <;> · rw [state] at parked; cases parked
  · rw [phase]
    rintro ⟨⟩

theorem Life.Begins.standing (begins : Life.Begins def_ life) : Standing life.run := by
  cases begins with
  | scheduled id seq data first due shape head =>
    have started : Standing ⟨.create id data, [⟨seq, .runStarted data⟩], ∅, [], []⟩ :=
      .fresh rfl rfl rfl (fun _ => rfl) rfl (.inl rfl)
    have orderly : Orderly def_ ⟨.create id data, [⟨seq, .runStarted data⟩], ∅, [], []⟩ (seq + 1)
        [.nodeScheduled first.name .do_ 1 (firstKeyOf id first.name) none due] :=
      ⟨⟨rfl, rfl, .inl ⟨rfl, fun node => rfl⟩⟩, ⟨nofun, nofun⟩, trivial⟩
    exact started.write orderly
  | queued id seq data limitName reason ttlAt time shape filled => exact .fresh rfl rfl rfl (fun _ => rfl) rfl (.inr rfl)

theorem Life.Reaches.standing (reaches : Life.Reaches def_ life) : Standing life.run := by
  obtain ⟨start, begins, reach⟩ := reaches
  exact reach.invariant (fun life => Standing life.run) begins.standing fun _ _ _ standing fair stepped =>
    Standing.step standing fair stepped

end Arki.Workflow
