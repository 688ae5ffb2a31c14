import Arki.Workflow.Queue

/-! Limits are kept and the queue is fair, whatever the order of transactions. -/

set_option autoImplicit false

namespace Arki.Workflow

open Arki.Run (Reach ok_of_toOption)

variable {registry : Registry} {world next : World} {gate : Gate} {limit : HeldLimit} {run : Run} {row : Row} {id : String}

namespace Gate

def held (gate : Gate) (limit : HeldLimit) (key : Option String) : Nat := (gate.runs.filter (limit.holding key)).length

theorem full_eq_false {key : Option String} {value : Nat} :
    gate.full limit key value = false ↔ gate.held limit key < value := by
  simp only [full, held, Bool.or_eq_false_iff, decide_eq_false_iff_not, List.length_take]
  omega

theorem mem_arranged {checks : List LimitCheck} {check : LimitCheck} : check ∈ arranged checks ↔ check ∈ checks := by
  simp only [arranged, List.mem_append, List.mem_filter, Bool.not_eq_true']
  by_cases first : check.limit.workflow.isSome && check.perKey <;> simp [first]

theorem blocking_gated {start : GateStart} {now : Nat} (gated : start.gated = true) (free : gate.blocking start now = none)
    (mem : limit ∈ start.held) :
    gate.isPaused limit = false ∧ (∀ total ∈ gate.totalOf limit, gate.held limit none < total) ∧
      ∀ key ∈ start.key, ∀ value ∈ gate.perKeyOf limit key now, gate.held limit (some key) < value := by
  rw [blocking, if_pos gated] at free
  split at free
  · cases free
  next unpaused =>
    rw [Option.map_eq_none_iff, List.find?_eq_none] at free
    have fits : ∀ check ∈ gate.checksOf start.key now limit,
        gate.held check.limit (if check.perKey then start.key else none) < check.value := by
      intro check listed
      have room := free check (mem_arranged.mpr (List.mem_flatMap.mpr ⟨limit, mem, listed⟩))
      exact full_eq_false.mp (Bool.eq_false_iff.mpr room)
    refine ⟨Bool.eq_false_iff.mpr (List.find?_eq_none.mp unpaused limit mem), ?_, ?_⟩
    · intro total inForce
      exact fits ⟨limit, false, total⟩ (by simp [checksOf, Option.mem_def.mp inForce])
    · intro key given value inForce
      have room := fits ⟨limit, true, value⟩ (by simp [checksOf, Option.mem_def.mp given, Option.mem_def.mp inForce])
      rwa [if_pos rfl, Option.mem_def.mp given] at room

theorem blocking_own {start : GateStart} {now : Nat} (free : gate.blocking start now = none)
    (ungated : start.gated = false) (own : start.held = [limit]) (named : limit.workflow.isSome = true) :
    gate.isPaused limit = false := by
  simp only [blocking, ungated, Bool.false_eq_true, if_false, own, List.find?_cons, named, Option.bind_some] at free
  split at free
  · cases free
  next open_ => exact Bool.eq_false_iff.mpr open_

theorem oldestQueued_mem {among : List HeldLimit} {key : Option String} {skips : List PromoteSkip} {now : Nat}
    (found : gate.oldestQueued among key skips now = some row) : row ∈ gate.runs ∧ row.awaits among key skips now = true := by
  exact List.mem_filter.mp (Ordered.mem_inOrder.mp (List.mem_of_mem_head? found))

theorem oldestQueued_le {among : List HeldLimit} {key : Option String} {skips : List PromoteSkip} {now : Nat} {other : Row}
    (found : gate.oldestQueued among key skips now = some row) (member : other ∈ gate.runs)
    (awaits : other.awaits among key skips now = true) : row.age ≤ other.age :=
  Ordered.inOrder_head_le found (List.mem_filter.mpr ⟨member, awaits⟩)

end Gate

structure SameOrigin (old new : Row) : Prop where
  id : new.id = old.id
  name : new.name = old.name
  version : new.workflowVersion = old.workflowVersion
  hash : new.shapeHash = old.shapeHash
  shape : new.shape = old.shape
  limits : new.limits = old.limits
  key : new.concurrencyKey = old.concurrencyKey
  startedAt : new.startedAt = old.startedAt

theorem SameOrigin.refl (row : Row) : SameOrigin row row := ⟨rfl, rfl, rfl, rfl, rfl, rfl, rfl, rfl⟩

theorem SameOrigin.trans {first second third : Row} (one : SameOrigin first second) (two : SameOrigin second third) :
    SameOrigin first third :=
  ⟨two.id.trans one.id, two.name.trans one.name, two.version.trans one.version, two.hash.trans one.hash,
    two.shape.trans one.shape, two.limits.trans one.limits, two.key.trans one.key, two.startedAt.trans one.startedAt⟩

theorem Row.on_origin (row : Row) (event : RunEvent) : SameOrigin row (row.on event) := by
  cases event with
  | nodeCompleted path phase => cases phase <;> exact ⟨rfl, rfl, rfl, rfl, rfl, rfl, rfl, rfl⟩
  | nodeSkipped path phase =>
    cases phase with
    | do_ =>
      simp only [Row.on]
      split <;> exact ⟨rfl, rfl, rfl, rfl, rfl, rfl, rfl, rfl⟩
    | undo => exact .refl row
  | _ => exact ⟨rfl, rfl, rfl, rfl, rfl, rfl, rfl, rfl⟩

theorem Run.write_origin (run : Run) (seq : Nat) (events : List RunEvent) : SameOrigin run.row (run.write seq events).row := by
  induction events generalizing run seq with
  | nil => exact .refl run.row
  | cons event rest ih => exact (run.row.on_origin event).trans (ih (run.on seq event) (seq + 1))

structure Quiet (run : Run) : Prop where
  node : run.row.node = none
  unfinished : run.row.finishedAt = none
  steps : run.steps.anyScheduled = false

theorem Row.on_queued {event : RunEvent} (other : event.ofGate = false) (queued : (row.on event).state = .queued) :
    row.state = .queued := by
  cases event with
  | runStarted | runQueued | runDequeued => cases other
  | nodeScheduled =>
    simp only [Row.on] at queued
    split at queued <;> cases queued
  | timerFired =>
    simp only [Row.on] at queued
    split at queued
    · cases queued
    · exact queued
  | nodeCompleted path phase => cases phase <;> exact queued
  | nodeSkipped path phase =>
    cases phase with
    | do_ =>
      simp only [Row.on] at queued
      split at queued <;> exact queued
    | undo => exact queued
  | parked | childrenPlanned | compensationStarted | runCompleted | runFailed | runCancelled | runExpired => cases queued
  | _ => exact queued

theorem Run.on_quiet {event : RunEvent} (seq : Nat) (fits : event.fitsQueued = true) (queued : (row.on event).state = .queued)
    (same : run.row = row) (quiet : Quiet run) : Quiet (run.on seq event) := by
  subst same
  cases event with
  | runFailed | runCancelled | runExpired => cases queued
  | metadataChanged | runTagged | signalReceived | runRescheduled | deadlineReached | cancelRequested =>
    exact ⟨quiet.node, quiet.unfinished, quiet.steps⟩
  | _ => cases fits

theorem Run.write_quiet {events : List RunEvent} (seq : Nat)
    (may : ∀ event ∈ events, event.ofGate = false ∧ (run.row.state = .queued → event.fitsQueued = true))
    (quiet : run.row.state = .queued → Quiet run) (queued : (run.write seq events).row.state = .queued) :
    Quiet (run.write seq events) := by
  induction events generalizing run seq with
  | nil => exact quiet queued
  | cons event rest ih =>
    obtain ⟨other, fits⟩ := may event (.head _)
    refine @ih (run.on seq event) (seq + 1) ?_ ?_ queued
    · intro later member
      have laterFits := may later (.tail _ member)
      exact ⟨laterFits.1, fun still => laterFits.2 (Row.on_queued other still)⟩
    · intro still
      have was := Row.on_queued other still
      exact Run.on_quiet seq (fits was) still rfl (quiet was)

theorem Row.mayRecord_iff {events : List RunEvent} :
    row.mayRecord events = true ↔ (row.finishedAt = none ∨ row.state = .completed) ∧
      ∀ event ∈ events, event.ofGate = false ∧ (row.state = .queued → event.fitsQueued = true) := by
  simp only [mayRecord, Bool.and_eq_true, Bool.or_eq_true, Option.isNone_iff_eq_none, decide_eq_true_eq, List.all_eq_true,
    Bool.not_eq_true', Decidable.imp_iff_not_or]

def Row.EndedUnrun (row : Row) : Prop :=
  (row.state = .failed ∨ row.state = .cancelled ∨ row.state = .expired) ∧ row.finishedAt ≠ none

theorem Run.write_unrun {events : List RunEvent} (seq : Nat) (fits : ∀ event ∈ events, event.fitsQueued = true)
    (unrun : run.row.state = .queued ∨ run.row.EndedUnrun) :
    (run.write seq events).row.state = .queued ∨ (run.write seq events).row.EndedUnrun := by
  induction events generalizing run seq with
  | nil => exact unrun
  | cons event rest ih =>
    refine @ih (run.on seq event) (seq + 1) (fun later member => fits later (.tail _ member)) ?_
    have fit := fits event (.head _)
    cases event with
    | runFailed => exact .inr ⟨.inl rfl, nofun⟩
    | runCancelled => exact .inr ⟨.inr (.inl rfl), nofun⟩
    | runExpired => exact .inr ⟨.inr (.inr rfl), nofun⟩
    | metadataChanged | runTagged | signalReceived | runRescheduled | deadlineReached | cancelRequested => exact unrun
    | _ => cases fit

abbrev Catalog := DefRef → String → List LimitDef

/-- A process registers versions with the limits that the catalog has for them. -/
def Catalog.Has (catalog : Catalog) (registry : Registry) : Prop :=
  ∀ def_ ∈ registry, def_.sharedLimits = catalog def_.ref def_.shapeHash

structure Entry.Fits (entry : Entry) : Prop where
  name : entry.row.name = entry.def_.name
  limits : entry.row.limits = entry.def_.sharedLimits.map (·.name)
  unpaused : ∀ limit ∈ entry.def_.heldLimits, entry.gate.isPaused limit = false
  total : entry.def_.concurrency.isSome = true → ∀ limit ∈ entry.def_.heldLimits,
    ∀ total ∈ entry.gate.totalOf limit, entry.gate.held limit none < total
  perKey : entry.def_.concurrency.isSome = true → ∀ limit ∈ entry.def_.heldLimits, ∀ key ∈ entry.row.concurrencyKey,
    ∀ value ∈ entry.gate.perKeyOf limit key entry.now, entry.gate.held limit (some key) < value

structure Row.Alike (row other : Row) : Prop where
  limits : ∀ limit : HeldLimit, limit.holds row = limit.holds other
  key : row.concurrencyKey = other.concurrencyKey

/-- No older run waits for the same: none but runs past their ttl, and runs without their code. -/
def Entry.Fair (entry : Entry) : Prop :=
  ∀ older ∈ entry.gate.runs, older.state = .queued → older.age < entry.row.age → older.Alike entry.row →
    older.ttlAt.all (entry.dbNow < ·) = true → codeOf entry.registry older = none

structure Run.Kept (catalog : Catalog) (id : String) (run : Run) : Prop where
  id : run.row.id = id
  limits : run.row.limits = (catalog ⟨run.row.name, run.row.workflowVersion⟩ run.row.shapeHash).map (·.name)
  shape : run.row.shape ≠ []
  quiet : run.row.state = .queued → Quiet run

def Entered (entries : List Entry) (id : String) (row : Row) : Prop :=
  row.state = .queued ∨ row.EndedUnrun ∨ ∃ entry ∈ entries, entry.row.id = id ∧ entry.row.startedAt = row.startedAt

structure World.Kept (catalog : Catalog) (world : World) : Prop where
  runs : ∀ id run, world.runs.lookup id = some run → run.Kept catalog id
  entered : ∀ id run, world.runs.lookup id = some run → Entered world.entries id run.row
  entries : ∀ entry ∈ world.entries, entry.Fits ∧ (entry.dequeued = true → entry.Fair)

def SkipsKept (registry : Registry) (world : World) (skips : List PromoteSkip) : Prop :=
  ∀ id, .run id ∈ skips → ∀ run, world.runs.lookup id = some run → run.row.state = .queued → codeOf registry run.row = none

variable {catalog : Catalog}

theorem World.mem_rows : row ∈ world.rows ↔ ∃ id run, world.runs.lookup id = some run ∧ run.row = row := by
  simp only [World.rows, List.mem_map]
  constructor
  · rintro ⟨⟨id, run⟩, member, rfl⟩
    exact ⟨id, run, AList.mem_lookup_iff.mpr member, rfl⟩
  · rintro ⟨id, run, found, rfl⟩
    exact ⟨⟨id, run⟩, AList.mem_lookup_iff.mp found, rfl⟩

theorem World.Kept.lookup (kept : world.Kept catalog) (member : row ∈ world.rows) :
    ∃ run, world.runs.lookup row.id = some run ∧ run.row = row := by
  obtain ⟨id, run, found, rfl⟩ := World.mem_rows.mp member
  rw [(kept.runs id run found).id]
  exact ⟨run, found, rfl⟩

theorem World.Kept.put (kept : world.Kept catalog) (count : Nat) (runKept : run.Kept catalog id)
    (entered : Entered world.entries id run.row) : (world.put id run count).Kept catalog := by
  have each {holds : String → Run → Prop} (here : holds id run)
      (elsewhere : ∀ other found, world.runs.lookup other = some found → holds other found) :
      ∀ other found, (world.put id run count).runs.lookup other = some found → holds other found := by
    intro other found isThere
    by_cases same : other = id
    · subst same
      simp only [World.put, AList.lookup_insert, Option.some.injEq] at isThere
      exact isThere ▸ here
    · rw [World.put, AList.lookup_insert_ne same] at isThere
      exact elsewhere other found isThere
  exact ⟨each runKept kept.runs, each entered kept.entered, kept.entries⟩

theorem World.Kept.enter {entry : Entry} (kept : world.Kept catalog) (fits : entry.Fits)
    (fair : entry.dequeued = true → entry.Fair) : (world.enter entry).Kept catalog := by
  refine ⟨kept.runs, fun id run isThere => ?_, fun other member => ?_⟩
  · refine (kept.entered id run isThere).imp_right (Or.imp_right ?_)
    rintro ⟨earlier, member, same⟩
    exact ⟨earlier, .tail _ member, same⟩
  · rcases List.mem_cons.mp member with rfl | earlier
    · exact ⟨fits, fair⟩
    · exact kept.entries other earlier

theorem Run.Kept.write {events : List RunEvent} (kept : run.Kept catalog id) (seq : Nat)
    (quiet : (run.write seq events).row.state = .queued → Quiet (run.write seq events)) :
    (run.write seq events).Kept catalog id := by
  have same := run.write_origin seq events
  refine ⟨same.id.trans kept.id, ?_, ?_, quiet⟩
  · rw [same.limits, same.name, same.version, same.hash]
    exact kept.limits
  · rw [same.shape]
    exact kept.shape

theorem Registry.get_some {ref : DefRef} {def_ : WorkflowDef} (found : registry.get ref = some def_) :
    def_ ∈ registry ∧ def_.ref = ref :=
  ⟨List.mem_of_find?_eq_some found, by simpa using List.find?_some found⟩

theorem codeOf_some {code : WorkflowDef} (found : codeOf registry row = some code) :
    code ∈ registry ∧ code.name = row.name ∧ code.version = row.workflowVersion ∧ code.shapeHash = row.shapeHash := by
  obtain ⟨registered, hash⟩ := Option.filter_eq_some_iff.mp found
  obtain ⟨member, ref⟩ := Registry.get_some registered
  simp only [WorkflowDef.ref, DefRef.mk.injEq] at ref
  exact ⟨member, ref.1, ref.2, by simpa using hash⟩

theorem codeOf_limits {code : WorkflowDef} (has : catalog.Has registry) (found : codeOf registry row = some code)
    (kept : row.limits = (catalog ⟨row.name, row.workflowVersion⟩ row.shapeHash).map (·.name)) :
    row.limits = code.sharedLimits.map (·.name) := by
  obtain ⟨member, name, version, hash⟩ := codeOf_some found
  rw [kept, has code member, WorkflowDef.ref, name, version, hash]

theorem Gate.blocking_fits {def_ : WorkflowDef} {now dbNow : Nat} {gated dequeued : Bool}
    (free : gate.blocking ⟨def_.heldLimits, row.concurrencyKey, gated⟩ now = none)
    (ungated : def_.concurrency.isSome = true → gated = true) (name : row.name = def_.name)
    (limits : row.limits = def_.sharedLimits.map (·.name)) :
    Entry.Fits ⟨registry, gate, def_, row, now, dbNow, dequeued⟩ := by
  refine ⟨name, limits, ?_, ?_, ?_⟩
  · intro limit mem
    cases gated with
    | true => exact (Gate.blocking_gated rfl free mem).1
    | false =>
      -- without `concurrency` there are no shared limits
      have none_ : def_.concurrency = none := by
        cases shape : def_.concurrency with
        | none => rfl
        | some concurrency => cases ungated (by rw [shape]; rfl)
      have own : def_.heldLimits = [def_.ownLimit] := by
        rw [WorkflowDef.heldLimits, WorkflowDef.sharedLimits, none_]
        rfl
      rw [own] at mem
      rw [List.mem_singleton.mp mem]
      exact Gate.blocking_own free rfl own rfl
  · intro has limit mem
    exact (Gate.blocking_gated (ungated has) free mem).2.1
  · intro has limit mem
    exact (Gate.blocking_gated (ungated has) free mem).2.2

/-- A queued run that may be dequeued fits; one that may not has no code, or is blocked. -/
theorem World.judge_kept {now : Nat} (kept : run.Kept catalog id) (has : catalog.Has registry) :
    match world.judge registry run.row now with
    | .error (.run skipped) => skipped = run.row.id ∧ codeOf registry run.row = none
    | .error (.limit _ key) => ∀ given ∈ key, run.row.concurrencyKey = some given
    | .ok (code, _) => codeOf registry run.row = some code ∧
        ∀ dbNow dequeued, Entry.Fits ⟨registry, world.gate, code, run.row, now, dbNow, dequeued⟩ := by
  rw [World.judge]
  cases first : run.row.shape.head? with
  | none => exact absurd (List.head?_eq_none_iff.mp first) kept.shape
  | some node =>
    cases found : codeOf registry run.row with
    | none => exact ⟨rfl, rfl⟩
    | some code =>
      simp only
      cases blocked : world.gate.blocking ⟨code.heldLimits, run.row.concurrencyKey, true⟩ now with
      | some block =>
        simp only
        split
        · exact fun _ given => given
        · exact fun _ given => nomatch given
      | none =>
        refine ⟨rfl, fun dbNow dequeued => ?_⟩
        exact Gate.blocking_fits blocked (fun _ => rfl) (codeOf_some found).2.1.symm (codeOf_limits has found kept.limits)

/-- Runs that hold the same with the same key are looked at alike, unless one is left out by its id. -/
theorem Row.Alike.awaits {older : Row} {among : List HeldLimit} {key : Option String} {skips : List PromoteSkip} {dbNow : Nat}
    (alike : older.Alike row) (awaits : row.awaits among key skips dbNow = true) (queued : older.state = .queued)
    (live : older.ttlAt.all (dbNow < ·) = true) (kept : ∀ skipped, .run skipped ∈ skips → older.id ≠ skipped) :
    older.awaits among key skips dbNow = true := by
  simp only [Row.awaits, Bool.and_eq_true, decide_eq_true_eq, List.any_eq_true, List.all_eq_true] at awaits ⊢
  obtain ⟨⟨⟨⟨_, limit, mem, holds⟩, sameKey⟩, _⟩, left⟩ := awaits
  refine ⟨⟨⟨⟨queued, limit, mem, (alike.limits limit).trans holds⟩, ?_⟩, live⟩, ?_⟩
  · rw [alike.key]
    exact sameKey
  · intro skip member
    cases skip with
    | run skipped => exact decide_eq_true (kept skipped member)
    | limit busy key =>
      have leaves := left _ member
      cases key <;> simpa only [PromoteSkip.leaves, alike.limits busy, alike.key] using leaves

theorem World.promoteQueued_kept (has : catalog.Has registry) {among : List HeldLimit} {key : Option String} {dbNow : Nat} :
    ∀ (tries : Nat) (clock : Nat → Nat) (skips : List PromoteSkip) (world : World), world.Kept catalog →
      SkipsKept registry world skips →
      (promoteQueued registry among key dbNow tries clock skips world).1.Kept catalog ∧
        SkipsKept registry (promoteQueued registry among key dbNow tries clock skips world).1
          (promoteQueued registry among key dbNow tries clock skips world).2
  | 0, _, _, _, kept, skipsKept => ⟨kept, skipsKept⟩
  | tries + 1, clock, skips, world, kept, skipsKept => by
    rw [promoteQueued]
    cases found : world.gate.oldestQueued among key skips dbNow with
    | none => exact ⟨kept, skipsKept⟩
    | some row =>
      obtain ⟨member, awaits⟩ := Gate.oldestQueued_mem found
      obtain ⟨run, isThere, rfl⟩ := kept.lookup member
      have runKept := kept.runs _ run isThere
      have queued : run.row.state = .queued := by
        simp only [Row.awaits, Bool.and_eq_true, decide_eq_true_eq] at awaits
        exact awaits.1.1.1.1
      have judged := @World.judge_kept registry world run _ catalog (clock 0) runKept has
      simp only [isThere]
      cases verdict : world.judge registry run.row (clock 0) with
      | error skip =>
        rw [verdict] at judged
        refine promoteQueued_kept has tries _ _ world kept fun skipped listed other present still => ?_
        rcases List.mem_append.mp listed with earlier | now
        · exact skipsKept skipped earlier other present still
        · obtain rfl := List.mem_singleton.mp now
          obtain ⟨rfl, stranded⟩ := judged
          cases isThere.symm.trans present
          exact stranded
      | ok start =>
        obtain ⟨code, first⟩ := start
        rw [verdict] at judged
        obtain ⟨coded, fits⟩ := judged
        have fair : Entry.Fair ⟨registry, world.gate, code, run.row, clock 0, dbNow, true⟩ := by
          intro older present still older_ alike live
          obtain ⟨other, otherThere, rfl⟩ := kept.lookup present
          by_contra registered
          have candidate := alike.awaits awaits still live fun skipped listed same =>
            registered (skipsKept skipped listed other (same ▸ otherThere) still)
          exact absurd (Gate.oldestQueued_le found present candidate) (not_le.mpr older_)
        have entered := kept.enter (fits dbNow true) fun _ => fair
        refine promoteQueued_kept has tries _ _ _ ?_ ?_
        · refine entered.put 2 (runKept.write _ fun running => nomatch running) (.inr (.inr ⟨_, .head _, runKept.id, ?_⟩))
          exact (run.write_origin _ _).startedAt.symm
        · intro skipped listed other present still
          by_cases same : skipped = run.row.id
          · subst same
            rw [World.dequeue, World.put, AList.lookup_insert, Option.some.injEq] at present
            subst present
            cases still
          · rw [World.dequeue, World.put, AList.lookup_insert_ne same] at present
            exact skipsKept skipped listed other present still

theorem World.promoteAfterEnd_kept (has : catalog.Has registry) (kept : world.Kept catalog) (row : Row) (clock : Nat → Nat)
    (dbNow : Nat) : (world.promoteAfterEnd registry row clock dbNow).Kept catalog := by
  have nothing (world : World) : SkipsKept registry world [] := fun _ listed => nomatch listed
  rw [promoteAfterEnd]
  split
  · exact kept
  split
  · exact kept
  split
  · exact kept
  simp only
  split
  · exact (promoteQueued_kept has _ _ _ _ kept (nothing world)).1
  · obtain ⟨first, skips⟩ := promoteQueued_kept has promoteTries clock [] world kept (nothing world)
    exact (promoteQueued_kept has _ _ _ _ first skips).1

theorem Run.create_origin {data : RunStarted} {rest : List RunEvent} (seq : Nat) :
    SameOrigin (.create id data) (Run.create id seq data rest).row :=
  Run.write_origin ⟨.create id data, [⟨seq, .runStarted data⟩], ∅, [], []⟩ (seq + 1) rest

theorem admit_open {def_ : WorkflowDef} {key scope : Option String} {parent : Option Parent} {refusal : AdmissionRefusal}
    {now : Nat} (admitted : admitStart gate def_ key parent scope refusal now = .open_) :
    gate.blocking ⟨def_.heldLimits, key, def_.concurrency.isSome⟩ now = none := by
  simp only [admitStart] at admitted
  split at admitted
  next free => exact free
  next block _ =>
    repeat' split at admitted
    all_goals cases admitted

theorem Run.create_kept {data : RunStarted} {rest : List RunEvent} (seq : Nat)
    (limits : data.limits = (catalog ⟨data.name, data.workflowVersion⟩ data.shapeHash).map (·.name)) (shape : data.shape ≠ [])
    (quiet : (Run.create id seq data rest).row.state = .queued → Quiet (Run.create id seq data rest)) :
    (Run.create id seq data rest).Kept catalog id := by
  have fresh : Run.Kept catalog id ⟨.create id data, [⟨seq, .runStarted data⟩], ∅, [], []⟩ :=
    ⟨rfl, limits, shape, fun queued => nomatch queued⟩
  exact fresh.write (seq + 1) quiet

theorem World.startRun_kept (has : catalog.Has registry) (kept : world.Kept catalog) {ref : DefRef} {args : StartArgs}
    {how : StartHow} {clock : Nat → Nat} {dbNow : Nat} {runId : String}
    (ran : world.startRun registry ref args how clock dbNow = .ok (next, runId)) : next.Kept catalog := by
  simp only [startRun] at ran
  split at ran
  swap
  · cases ran
  next def_ found =>
  obtain ⟨member, rfl⟩ := Registry.get_some found
  split at ran
  · cases ran
  split at ran
  swap
  · cases ran
  next first node =>
  cases keyed : concurrencyKeyOf def_ args.input with
  | error _ =>
    rw [keyed] at ran
    cases ran
  | ok key =>
    rw [keyed] at ran
    simp only [bind, Except.bind] at ran
    have limits : (startedOf def_ args how key (clock 0)).limits =
        (catalog ⟨def_.name, def_.version⟩ def_.shapeHash).map (·.name) :=
      congrArg (List.map fun shared : LimitDef => shared.name) (has def_ member)
    have shape : def_.shape ≠ [] := by
      intro none_
      rw [List.map_eq_nil_iff.mp none_] at node
      cases node
    split at ran
    · split at ran <;> cases ran
      exact kept
    cases admitted : admitStart world.gate def_ key how.parent (startedOf def_ args how key (clock 0)).scope how.refusal (clock 1) with
    | refuses busy =>
      rw [admitted] at ran
      cases ran
    | joins joined =>
      rw [admitted] at ran
      cases ran
      exact kept
    | queues block =>
      rw [admitted] at ran
      cases ran
      exact kept.put 2 (Run.create_kept _ limits shape fun _ => ⟨rfl, rfl, rfl⟩) (.inl rfl)
    | open_ =>
      rw [admitted] at ran
      cases ran
      have fits : Entry.Fits ⟨registry, world.gate, def_, .create args.runId (startedOf def_ args how key (clock 0)), clock 1,
          dbNow, false⟩ := Gate.blocking_fits (admit_open admitted) (fun has => has) rfl rfl
      refine (kept.enter fits fun fromQueue => nomatch fromQueue).put 2
        (Run.create_kept _ limits shape fun queued => nomatch queued) (.inr (.inr ⟨_, .head _, rfl, ?_⟩))
      exact (Run.create_origin world.nextSeq).startedAt.symm

theorem World.step_kept {action : Action} (has : catalog.Has action.registry) (kept : world.Kept catalog)
    (taken : world.step action = some next) : next.Kept catalog := by
  have nothing (world : World) : SkipsKept action.registry world [] := fun _ listed => nomatch listed
  obtain ⟨registry, clock, dbNow, deed⟩ := action
  cases deed with
  | startRun ref args how =>
    simp only [step, Option.map_eq_some_iff] at taken
    obtain ⟨⟨world', runId⟩, ran, rfl⟩ := taken
    exact startRun_kept has kept (ok_of_toOption ran)
  | record id events =>
    simp only [step, record] at taken
    split at taken
    · cases taken
    next run isThere =>
      split at taken
      next may =>
        cases taken
        obtain ⟨open_, each⟩ := Row.mayRecord_iff.mp may
        have entered : Entered world.entries id (run.write world.nextSeq events).row := by
          rcases kept.entered id run isThere with queued | ended | ⟨entry, member, same, startedAt⟩
          · rw [Entered, ← or_assoc]
            exact .inl (Run.write_unrun world.nextSeq (fun event member => (each event member).2 queued) (.inl queued))
          · rcases open_ with unfinished | completed
            · exact absurd unfinished ended.2
            · rcases ended.1 with bad | bad | bad <;> cases completed.symm.trans bad
          · exact .inr (.inr ⟨entry, member, same, startedAt.trans (run.write_origin world.nextSeq events).startedAt.symm⟩)
        have written := kept.put events.length ((kept.runs id run isThere).write world.nextSeq
          (Run.write_quiet world.nextSeq each (kept.runs id run isThere).quiet)) entered
        split
        · exact promoteAfterEnd_kept has written _ _ _
        · exact written
      next => cases taken
  | changeLimit name verb =>
    have ran := ok_of_toOption taken
    simp only [changeLimit] at ran
    split at ran
    · cases ran
    split at ran
    · cases ran
    split at ran
    · cases ran
      exact kept
    have changed (row : LimitRow) : (world.setLimit name row).Kept catalog :=
      ⟨kept.runs, kept.entered, kept.entries⟩
    split at ran <;> cases ran
    · exact (promoteQueued_kept has _ _ _ _ (changed _) (nothing _)).1
    · exact changed _
  | promoteLimit name =>
    cases taken
    simp only [promoteLimit]
    split
    · exact kept
    split
    · exact (promoteQueued_kept has _ _ _ _ kept (nothing world)).1
    · exact kept
  | prune id =>
    cases taken
    simp only [prune]
    split
    swap
    · exact kept
    split
    swap
    · exact kept
    have remains {other : String} {run : Run} (isThere : (world.runs.erase id).lookup other = some run) :
        world.runs.lookup other = some run := by
      by_cases same : other = id
      · subst same
        rw [AList.lookup_erase] at isThere
        cases isThere
      · rwa [AList.lookup_erase_ne same] at isThere
    exact ⟨fun other run isThere => kept.runs other run (remains isThere),
      fun other run isThere => kept.entered other run (remains isThere), kept.entries⟩

/-- The states that processes reach which register versions with the limits of the catalog. -/
abbrev Reachable (catalog : Catalog) (world : World) : Prop :=
  Reach World.step (fun _ action => catalog.Has action.registry) .start world

theorem Reachable.kept (reached : Reachable catalog world) : world.Kept catalog := by
  refine reached.invariant (World.Kept catalog) ⟨?_, ?_, ?_⟩ fun _ _ _ kept has taken => World.step_kept has kept taken
  · intro id run isThere
    cases isThere
  · intro id run isThere
    cases isThere
  · intro entry member
    cases member

/-- A limit is never overfilled, a queued run holds no slot, and the queue is fair. -/
theorem Reachable.limits_kept (reached : Reachable catalog world) :
    (∀ id run, world.runs.lookup id = some run → Entered world.entries id run.row) ∧
      (∀ entry ∈ world.entries, entry.Fits) ∧
      (∀ id run, world.runs.lookup id = some run → run.row.state = .queued →
        Quiet run ∧ ∀ (limit : HeldLimit) (key : Option String), limit.holding key run.row = false) ∧
      ∀ entry ∈ world.entries, entry.dequeued = true → entry.Fair := by
  have kept := reached.kept
  refine ⟨kept.entered, fun entry member => (kept.entries entry member).1, ?_, fun entry member => (kept.entries entry member).2⟩
  intro id run isThere queued
  refine ⟨(kept.runs id run isThere).quiet queued, fun limit key => ?_⟩
  simp [HeldLimit.holding, queued]

def oneAtATime : WorkflowDef where
  name := "ship"
  version := 1
  shapeHash := "h"
  nodes := [⟨"pack", .step false false⟩]
  deadline := none
  concurrency := some ⟨none, none, some 1, [], .queue⟩
  startsWithEvent := false
  waitsOnDeadStep := false
  finish _ last := .ok last
  output value := .ok value
  storable _ value := .ok value
  keepUntil _ _ := none

def shipping (deed : Deed) : Action := ⟨[oneAtATime], fun reading => 10 + reading, 10, deed⟩

def ship (runId : String) : Action :=
  shipping (.startRun ⟨"ship", 1⟩ ⟨runId, .null, none, none, none⟩ ⟨none, .refuse, none, ∅⟩)

instance {catalog : Catalog} {registry : Registry} : Decidable (catalog.Has registry) :=
  inferInstanceAs (Decidable (∀ def_ ∈ registry, def_.sharedLimits = catalog def_.ref def_.shapeHash))

/-- The second run waits for the end of the first. -/
theorem Reachable.limits_kept_ship :
    ∃ world : World, world.entries.map (fun entry => (entry.row.id, entry.dequeued)) = [("b", true), ("a", false)] ∧
      (∀ entry ∈ world.entries, entry.Fits) ∧ ∀ entry ∈ world.entries, entry.dequeued = true → entry.Fair := by
  obtain ⟨world, ran, entered⟩ := Option.map_eq_some_iff.mp
    (by decide +kernel :
      (Run.run (Run.guarded World.step fun _ action => Catalog.Has (fun _ _ => []) action.registry) World.start
        [ship "a", ship "b", shipping (.record "a" [.runCompleted .null 20 none])]).map
          (fun world => world.entries.map fun entry => (entry.row.id, entry.dequeued)) = some [("b", true), ("a", false)])
  have reached : Reachable (fun _ _ => []) world := Run.Reach.of_guarded ran
  obtain ⟨_, fits, _, fair⟩ := Reachable.limits_kept reached
  exact ⟨world, entered, fits, fair⟩

end Arki.Workflow
