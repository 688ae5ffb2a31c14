import Arki.Workflow.Sources

/-! Signals: each is stored once, taken at most once, and no wait sleeps on one. -/

set_option autoImplicit false

namespace Arki.Workflow

open Arki.Journal (Value StoredEvent)

variable {def_ : WorkflowDef} {env : Env} {run : Run} {seq : Nat} {path : String} {event : RunEvent} {events : List RunEvent}
  {life next : Life} {turn : Turn}

theorem Orderly.still (orderly : Orderly def_ run seq events) (still : run.row.state.moves = false)
    (notQueued : run.row.state ≠ .queued) : (run.write seq events).row.state.moves = false := by
  induction events generalizing run seq with
  | nil => exact still
  | cons event rest ih =>
    obtain ⟨fits, -, later⟩ := orderly
    refine ih later (fits.starts still notQueued) fun queued => ?_
    cases event with
    | runStarted | runQueued => cases fits.2
    | runDequeued => cases queued
    | _ => exact notQueued (Row.on_queued rfl queued)

theorem Orderly.begun (orderly : Orderly def_ run seq events) (begins : ∃ event ∈ events, event.isStart = true) :
    (run.write seq events).row.state.moves = false := by
  induction events generalizing run seq with
  | nil =>
    obtain ⟨event, member, -⟩ := begins
    cases member
  | cons event rest ih =>
    obtain ⟨-, -, later⟩ := orderly
    cases start : event.isStart with
    | true =>
      cases event with
      | compensationStarted time =>
        have stopped : (run.on seq (.compensationStarted time)).row.state.moves = false := rfl
        exact later.still stopped nofun
      | _ => cases start
    | false =>
      refine ih later ?_
      obtain ⟨other, member, starts⟩ := begins
      rcases List.mem_cons.mp member with rfl | member
      · rw [start] at starts
        cases starts
      · exact ⟨other, member, starts⟩

theorem Row.on_skipped (row : Row) (node : String) (phase : StepPhase) (cause : SkipCause) (reason : String) (time : Nat) :
    (row.on (.nodeSkipped node phase cause reason time)).state = row.state ∧
      (row.on (.nodeSkipped node phase cause reason time)).node = row.node ∧
      (row.on (.nodeSkipped node phase cause reason time)).waitingFor = row.waitingFor := by
  cases phase with
  | undo => exact ⟨rfl, rfl, rfl⟩
  | do_ =>
    simp only [Row.on]
    split <;> exact ⟨rfl, rfl, rfl⟩

theorem Listening.on (listening : Listening def_ run) (fits : Fits def_ run event) : Listening def_ (run.on seq event) := by
  intro parked path wait fails here known
  change (run.row.on event).state = .parked at parked
  change (run.row.on event).node = some path at here
  change (run.row.on event).waitingFor = some wait.signal ∧ ∀ signal ∈ run.signals, signal.awaits wait.signal = false
  cases event with
  | runStarted | runQueued => cases fits.2
  | runDequeued | compensationStarted | runCompleted | runFailed | runCancelled | runExpired => cases parked
  | nodeScheduled => exact absurd parked (RunEvent.unparks_state rfl run.row)
  | nodeCompleted node phase => cases phase <;> exact listening parked path wait fails here known
  | nodeSkipped node phase cause reason time =>
    obtain ⟨state, place, waits⟩ := Row.on_skipped run.row node phase cause reason time
    rw [state] at parked
    rw [place] at here
    rw [waits]
    exact listening parked path wait fails here known
  | parked node waitingFor =>
    cases here
    exact fits.2.2.2 wait fails known
  | childrenPlanned plan =>
    cases here
    obtain ⟨node, fan, isFan⟩ := fits.2.2.2
    rw [known] at fan
    cases fan
    cases isFan
  | timerFired =>
    simp only [Row.on] at parked
    split at parked
    · cases parked
    · next not_ => exact absurd parked not_
  | _ => exact listening parked path wait fails here known

theorem Listening.write (listening : Listening def_ run) (orderly : Orderly def_ run seq events) :
    Listening def_ (run.write seq events) := by
  induction events generalizing run seq with
  | nil => exact listening
  | cons event rest ih => exact ih (listening.on orderly.1) orderly.2.2

theorem Run.write_signals (run : Run) (seq : Nat) (events : List RunEvent) : (run.write seq events).signals = run.signals := by
  induction events generalizing run seq with
  | nil => rfl
  | cons event rest ih => exact ih (run.on seq event) (seq + 1)

theorem Draft.commit_signals (draft : Draft) (seq : Nat) : (draft.commit seq).signals = draft.run.signals := by
  simp only [Draft.commit]
  split <;> exact Run.write_signals ..

def Signal.delivered (signal : Signal) : String × String := (signal.name, signal.deliveryId)

structure Distinct (signals : List Signal) : Prop where
  ids : (signals.map (·.id)).Nodup
  once : (signals.map Signal.delivered).Nodup

section Mail

variable {before after : List Signal} {now : Nat} {signal : Signal}

theorem Posted.distinct (posted : Posted run before) (distinct : Distinct run.signals) : Distinct before := by
  cases posted with
  | same => exact distinct
  | stored signal untaken own first =>
    constructor
    · rw [List.map_append, List.map_singleton]
      refine distinct.ids.append (List.nodup_singleton _) ?_
      rw [List.disjoint_singleton]
      intro member
      obtain ⟨other, known, same⟩ := List.mem_map.mp member
      exact own other known same
    · rw [List.map_append, List.map_singleton]
      refine distinct.once.append (List.nodup_singleton _) ?_
      rw [List.disjoint_singleton]
      intro member
      obtain ⟨other, known, same⟩ := List.mem_map.mp member
      exact first other known (Prod.mk.inj same)

theorem Posted.keeps (posted : Posted run before) (member : signal ∈ run.signals) : signal ∈ before := by
  cases posted with
  | same => exact member
  | stored => exact List.mem_append_left _ member

theorem Posted.fresh (posted : Posted run before) (member : signal ∈ before) (new : signal ∉ run.signals) :
    signal.consumedAt = none := by
  cases posted with
  | same => exact absurd member new
  | stored stored untaken =>
    cases List.mem_singleton.mp ((List.mem_append.mp member).resolve_left new)
    exact untaken

theorem Mail.distinct (mail : Mail run now after) (distinct : Distinct run.signals) : Distinct after := by
  cases mail with
  | untouched _ posted => exact posted.distinct distinct
  | taken before path name signal posted oldest =>
    obtain ⟨ids, once⟩ := posted.distinct distinct
    constructor
    · rwa [@Table.map_update Signal _ _ (Signal.take path now) (fun row => row.id) fun _ => rfl]
    · rwa [@Table.map_update Signal _ _ (Signal.take path now) Signal.delivered fun _ => rfl]

theorem oldestSignal_some {signals : List Signal} {name : String} (oldest : oldestSignal signals name = some signal) :
    signal ∈ signals ∧ signal.awaits name = true ∧ ∀ other ∈ signals, other.awaits name = true → signal.age ≤ other.age := by
  have listed := Ordered.mem_inOrder.mp (List.mem_of_mem_head? (Option.mem_def.mpr oldest))
  obtain ⟨member, awaits⟩ := List.mem_filter.mp listed
  exact ⟨member, awaits, fun other known waits => Ordered.inOrder_head_le oldest (List.mem_filter.mpr ⟨known, waits⟩)⟩

theorem Mail.persists (mail : Mail run now after) (distinct : Distinct run.signals) (member : signal ∈ run.signals) :
    signal ∈ after ∨ signal.consumedAt = none ∧ ∃ path, signal.take path now ∈ after := by
  cases mail with
  | untouched _ posted => exact .inl (posted.keeps member)
  | taken before path name early posted oldest =>
    obtain ⟨there, awaits, -⟩ := oldestSignal_some oldest
    have known := posted.keeps member
    by_cases same : signal.id = early.id
    · have isEarly : signal = early := List.inj_on_of_nodup_map (posted.distinct distinct).ids known there same
      subst isEarly
      simp only [Signal.awaits, Bool.and_eq_true, Option.isNone_iff_eq_none] at awaits
      exact .inr ⟨awaits.2, path, Table.mem_update.mpr (.inl ⟨signal, known, by simp, rfl⟩)⟩
    · exact .inl (Table.mem_update.mpr (.inr ⟨known, by simpa using same⟩))

theorem Mail.ordered (mail : Mail run now after) (distinct : Distinct run.signals) (member : signal ∈ after) (taken : signal.consumedAt.isSome = true)
    (new : signal ∉ run.signals) {other : Signal} (there : other ∈ after) (waits : other.awaits signal.name = true) :
    signal.age ≤ other.age := by
  cases mail with
  | untouched _ posted =>
    rw [posted.fresh member new] at taken
    cases taken
  | taken before path name early posted oldest =>
    obtain ⟨listed, awaits, least⟩ := oldestSignal_some oldest
    have named : early.name = name := by
      simp only [Signal.awaits, Bool.and_eq_true, decide_eq_true_eq] at awaits
      exact awaits.1
    rcases Table.mem_update.mp member with ⟨old, known, same, rfl⟩ | ⟨was, -⟩
    · have isEarly : old = early := List.inj_on_of_nodup_map (posted.distinct distinct).ids known listed (by simpa using same)
      subst isEarly
      rcases Table.mem_update.mp there with ⟨gone, -, -, rfl⟩ | ⟨still, -⟩
      · simp [Signal.awaits, Signal.take] at waits
      · exact least other still (named ▸ waits)
    · rw [posted.fresh was new] at taken
      cases taken

end Mail

structure Mailbox (def_ : WorkflowDef) (run : Run) : Prop where
  distinct : Distinct run.signals
  listening : Listening def_ run

/-- The events as they are recorded, the first of them numbered `seq`. -/
def numberedFrom (seq : Nat) : List RunEvent → List Recorded
  | [] => []
  | event :: rest => ⟨seq, event⟩ :: numberedFrom (seq + 1) rest

theorem numberedFrom_events (seq : Nat) (events : List RunEvent) : (numberedFrom seq events).map (·.event) = events := by
  induction events generalizing seq with
  | nil => rfl
  | cons event rest ih => simp [numberedFrom, ih]

theorem Run.write_log (run : Run) (seq : Nat) (events : List RunEvent) :
    (run.write seq events).log = run.log ++ numberedFrom seq events := by
  induction events generalizing run seq with
  | nil => simp [Run.write, numberedFrom]
  | cons event rest ih =>
    rw [Run.write, ih, numberedFrom]
    simp [Run.on]

theorem Draft.commit_log (draft : Draft) (seq : Nat) :
    (draft.commit seq).log = draft.run.log ++ numberedFrom seq draft.events := by
  simp only [Draft.commit]
  split <;> exact Run.write_log ..

theorem Draft.commit_row (draft : Draft) (seq : Nat) : (draft.commit seq).row = (draft.run.write seq draft.events).row := by
  simp only [Draft.commit]
  split <;> rfl

theorem Life.draft_same (standing : Standing life.run) (fair : life.fair def_ turn) {draft : Draft} {committed : Bool}
    (drafted : Life.draftOf def_ life.run turn.env turn.move = some (draft, committed)) :
    draft.run.row = life.run.row ∧ draft.run.log = life.run.log ∧ ∀ seq, Orderly def_ draft.run seq draft.events := by
  rcases Life.sound_draft standing fair drafted with sound | ⟨path, attempt, key, -, rfl⟩
  · exact ⟨sound.row, sound.log, sound.orderly⟩
  · obtain ⟨row, log, -⟩ := Run.recordKey_row life.run path attempt key
    exact ⟨row, log, fun _ => trivial⟩

theorem Mailbox.step (mailbox : Mailbox def_ life.run) (standing : Standing life.run) (fair : life.fair def_ turn)
    (stepped : Life.step def_ life turn = some next) : Mailbox def_ next.run := by
  obtain ⟨draft, committed, drafted, run_, -⟩ := Life.step_cases stepped
  have explained := Life.explained fair mailbox.listening drafted
  obtain ⟨row, -, orderly⟩ := Life.draft_same standing fair drafted
  rw [run_]
  refine ⟨?_, ?_⟩
  · rw [Draft.commit_signals]
    exact explained.mail.distinct mailbox.distinct
  · have written : Listening def_ (draft.run.write (life.seqOf turn) draft.events) := by
      rcases explained.listens mailbox.listening row with listening | begins
      · exact listening.write (orderly _)
      · have still := (orderly (life.seqOf turn)).begun begins
        refine fun parked => ?_
        rw [parked] at still
        cases still
    exact written.of_same (Draft.commit_row ..) fun signal member => .inl (by
      rwa [Draft.commit_signals, ← Run.write_signals] at member)

theorem Life.Begins.mailbox (begins : Life.Begins def_ life) : Mailbox def_ life.run := by
  have bare : life.run.signals = [] ∧ life.run.row.state ≠ .parked := by
    cases begins with
    | scheduled => exact ⟨rfl, nofun⟩
    | queued => exact ⟨rfl, nofun⟩
  refine ⟨⟨?_, ?_⟩, fun parked => absurd parked bare.2⟩
  · rw [bare.1]
    exact List.nodup_nil
  · rw [bare.1]
    exact List.nodup_nil

theorem Life.Reaches.mailbox (reaches : Life.Reaches def_ life) : Mailbox def_ life.run := by
  obtain ⟨start, begins, reach⟩ := reaches
  refine (reach.invariant (fun life => Standing life.run ∧ Mailbox def_ life.run) ⟨begins.standing, begins.mailbox⟩ ?_).2
  exact fun _ _ _ ⟨standing, mailbox⟩ fair stepped => ⟨standing.step fair stepped, mailbox.step standing fair stepped⟩

def TakenNow (life next : Life) (signal : Signal) : Prop :=
  signal ∈ next.run.signals ∧ signal ∉ life.run.signals ∧ signal.consumedAt.isSome = true

structure SignalTurn (def_ : WorkflowDef) (life : Life) (turn : Turn) (next : Life) : Prop where
  /-- A delivery that the run's own nodes wait for is in the table afterwards. -/
  stored : ∀ delivery, turn.move = .deliverSignal delivery → life.run.row.finishedAt = none →
    def_.waitsFor delivery.name = true → (delivery.name, delivery.deliveryId) ∈ next.run.signals.map Signal.delivered
  repeated : ∀ delivery, turn.move = .deliverSignal delivery →
    (delivery.name, delivery.deliveryId) ∈ life.run.signals.map Signal.delivered → next.run = life.run
  /-- No stored signal is lost, and a taken one stays taken by the same node. -/
  persists : ∀ signal ∈ life.run.signals, signal ∈ next.run.signals ∨
    signal.consumedAt = none ∧ ∃ path, signal.take path turn.env.now ∈ next.run.signals
  ordered : ∀ signal, TakenNow life next signal → ∀ other ∈ next.run.signals, other.awaits signal.name = true →
    signal.age ≤ other.age
  /-- A `waitFor` that completes before its time has the payload of the signal that it took. -/
  payload : ∃ fresh, next.run.log = life.run.log ++ fresh ∧ ∀ recorded ∈ fresh, ∀ path result resolvedBy time,
    recorded.event = .nodeCompleted path .do_ result resolvedBy time →
      ∀ wait fails, def_.node path = some ⟨path, .waitFor wait fails⟩ →
        (∃ timer ∈ fresh, ∃ at_, timer.event = .timerFired path at_) ∨
          ∃ signal, TakenNow life next signal ∧ signal.consumedBy = some path ∧ signal.name = wait.signal ∧
            ∃ parsed, wait.schema signal.payload = .ok parsed ∧
              def_.storable ("the payload of '" ++ path ++ "'") parsed = .ok result

theorem Draft.commit_idle (run : Run) (seq : Nat) : (Draft.idle run).commit seq = run := by
  simp [Draft.commit, Draft.idle, Run.write]

/-- A delivery that was stored before is a duplicate; one that the run waits for is stored. -/
theorem deliverSignal_table {delivery : Delivery} {status : SignalStatus} {draft : Draft}
    (delivered : deliverSignal def_ run env delivery = some (draft, status)) :
    ((delivery.name, delivery.deliveryId) ∈ run.signals.map Signal.delivered → draft = .idle run) ∧
      (run.row.finishedAt = none → def_.waitsFor delivery.name = true →
        (delivery.name, delivery.deliveryId) ∈ draft.run.signals.map Signal.delivered) := by
  simp only [deliverSignal] at delivered
  split at delivered
  · next ended =>
    cases delivered
    refine ⟨fun _ => rfl, fun unfinished => ?_⟩
    rw [unfinished] at ended
    cases ended
  simp only [Option.bind_eq_bind, Option.bind_eq_some_iff, Option.pure_def] at delivered
  obtain ⟨waited, _, stored, _, _, _, delivered⟩ := delivered
  split at delivered
  · next foreign =>
    cases delivered
    refine ⟨fun _ => rfl, fun _ waits => ?_⟩
    rw [waits] at foreign
    cases foreign
  split at delivered
  · next known =>
    cases delivered
    refine ⟨fun _ => rfl, fun _ _ => ?_⟩
    obtain ⟨other, member, same⟩ := List.any_eq_true.mp known
    obtain ⟨name, deliveryId⟩ := of_decide_eq_true same
    exact List.mem_map.mpr ⟨other, member, Prod.ext name deliveryId⟩
  · next fresh =>
    have isNew : (delivery.name, delivery.deliveryId) ∉ run.signals.map Signal.delivered := by
      intro known
      obtain ⟨other, member, same⟩ := List.mem_map.mp known
      exact fresh (List.any_eq_true.mpr ⟨other, member, decide_eq_true (Prod.mk.inj same)⟩)
    have appended : (delivery.name, delivery.deliveryId) ∈ (run.signals ++
        [(⟨delivery.id, delivery.name, delivery.deliveryId, stored, delivery.receivedAt, none, none⟩ : Signal)]).map
          Signal.delivered := by
      simp [Signal.delivered]
    refine ⟨fun known => absurd known isNew, fun _ _ => ?_⟩
    split at delivered
    · cases delivered
      exact appended
    split at delivered
    · cases delivered
      exact appended
    · cases delivered
      simp only
      split
      · rw [Run.takeSignal, @Table.map_update Signal _ _ (Signal.take _ env.now) Signal.delivered fun _ => rfl]
        exact appended
      · exact appended

theorem signalTurn (mailbox : Mailbox def_ life.run) (standing : Standing life.run) (fair : life.fair def_ turn)
    (stepped : Life.step def_ life turn = some next) : SignalTurn def_ life turn next := by
  obtain ⟨draft, committed, drafted, run_, -⟩ := Life.step_cases stepped
  have explained := Life.explained fair mailbox.listening drafted
  obtain ⟨-, log, -⟩ := Life.draft_same standing fair drafted
  have signals : next.run.signals = draft.run.signals := by rw [run_, Draft.commit_signals]
  have mail : Mail life.run turn.env.now next.run.signals := signals ▸ explained.mail
  have delivers (delivery : Delivery) (moved : turn.move = .deliverSignal delivery) :
      ∃ status, deliverSignal def_ life.run turn.env delivery = some (draft, status) := by
    rw [moved] at drafted
    obtain ⟨⟨other, status⟩, made, pair⟩ := Option.map_eq_some_iff.mp drafted
    cases pair
    exact ⟨status, made⟩
  constructor
  · intro delivery moved unfinished waits
    obtain ⟨status, made⟩ := delivers delivery moved
    rw [signals]
    exact (deliverSignal_table made).2 unfinished waits
  · intro delivery moved known
    obtain ⟨status, made⟩ := delivers delivery moved
    rw [run_, (deliverSignal_table made).1 known, Draft.commit_idle]
  · exact fun signal member => mail.persists mailbox.distinct member
  · exact fun signal ⟨member, new, taken⟩ other there waits => mail.ordered mailbox.distinct member taken new there waits
  · have events := numberedFrom_events (life.seqOf turn) draft.events
    refine ⟨_, by rw [run_, Draft.commit_log, log], ?_⟩
    intro recorded member path result resolvedBy time event wait fails known
    have listed : recorded.event ∈ draft.events := by
      rw [← events]
      exact List.mem_map_of_mem member
    have source := explained.source recorded.event listed path result resolvedBy (by rw [event]; rfl)
    cases source with
    | reported job attempt route _ node moved found sends =>
      rw [known] at found
      cases found
      cases sends
    | commanded job attempt key tried undo keeps moved found =>
      rw [known] at found
      cases found
    | signalled before other _ signal parsed found posted oldest took read kept =>
      rw [known] at found
      cases found
      obtain ⟨there, awaits, -⟩ := oldestSignal_some oldest
      simp only [Signal.awaits, Bool.and_eq_true, decide_eq_true_eq, Option.isNone_iff_eq_none] at awaits
      refine .inr ⟨signal.take path turn.env.now, ⟨?_, fun was => ?_, rfl⟩, rfl, awaits.1, parsed, read, kept⟩
      · rw [signals, took]
        exact Table.mem_update.mpr (.inl ⟨signal, there, by simp, rfl⟩)
      · -- the row that was there before is untaken
        have same : signal = signal.take path turn.env.now :=
          List.inj_on_of_nodup_map (posted.distinct mailbox.distinct).ids there (posted.keeps was) rfl
        have untaken := awaits.2
        rw [same] at untaken
        cases untaken
    | timed at_ node fired found isWait =>
      rw [← events] at fired
      obtain ⟨timer, there, same⟩ := List.mem_map.mp fired
      exact .inl ⟨timer, there, at_, same⟩
    | tookEvent sources _ found =>
      rw [known] at found
      cases found
    | joined node found isFan =>
      rw [known] at found
      cases found
      cases isFan

/-- In every life of a run, each delivery is stored once and taken at most once, the oldest first, and no wait sleeps
on a stored signal. -/
theorem signals_taken_once (reaches : Life.Reaches def_ life) : Mailbox def_ life.run ∧
    ∀ turn next, life.fair def_ turn → Life.step def_ life turn = some next → SignalTurn def_ life turn next :=
  ⟨reaches.mailbox, fun _ _ fair stepped => signalTurn reaches.mailbox reaches.standing fair stepped⟩

def Life.after (def_ : WorkflowDef) (life : Life) (turn : Turn) : Life := (Life.step def_ life turn).getD life

theorem Life.step_after (works : (Life.step def_ life turn).isSome = true) :
    Life.step def_ life turn = some (Life.after def_ life turn) := by
  obtain ⟨next, stepped⟩ := Option.isSome_iff_exists.mp works
  rw [Life.after, stepped]
  rfl

theorem Life.Reaches.after (reaches : Life.Reaches def_ life) (fair : life.fair def_ turn)
    (works : (Life.step def_ life turn).isSome = true) : Life.Reaches def_ (Life.after def_ life turn) := by
  obtain ⟨start, begins, reach⟩ := reaches
  exact ⟨start, begins, .next reach fair (Life.step_after works)⟩

def payment : WorkflowDef where
  name := "pay"
  version := 1
  shapeHash := "h"
  nodes := [⟨"paid", .waitFor ⟨"card", .ok⟩ false⟩]
  deadline := none
  concurrency := none
  startsWithEvent := false
  waitsOnDeadStep := false
  finish _ last := .ok last
  output value := .ok value
  storable _ value := .ok value
  keepUntil _ _ := none

def paymentData : RunStarted :=
  ⟨"pay", 1, payment.shape, "h", .null, none, none, none, none, none, none, none, none, [], none, ∅, 1⟩

def paymentBegun : Life :=
  ⟨Run.create "r1" 1 paymentData [.nodeScheduled "paid" .do_ 1 (firstKeyOf "r1" "paid") none 1], 3, []⟩

theorem paymentBegun_reached : Life.Reaches payment paymentBegun :=
  ⟨paymentBegun, .scheduled "r1" 1 paymentData ⟨"paid", .waitFor ⟨"card", .ok⟩ false⟩ 1 rfl rfl, .start⟩

def payEnv : Env := ⟨[payment], 10, 10, [], [], false, false⟩

/-- The transaction that stored this delivery began at `began`. -/
def paying (id payload : String) (began : Nat) : Turn :=
  ⟨payEnv, 0, .deliverSignal ⟨"card", id, .string payload, id, began⟩⟩

def paymentParks : Turn := ⟨payEnv, 0, .checkpoint 2 "paid" .do_ 1 (.park (some "card") none [])⟩

def paidTwice : Life := Life.after payment (Life.after payment paymentBegun (paying "a" "first" 5)) (paying "b" "second" 3)

theorem paidTwice_reached : Life.Reaches payment paidTwice := by
  refine Life.Reaches.after (paymentBegun_reached.after ?_ (by decide +kernel)) ?_ (by decide +kernel)
  · show ∀ signal ∈ paymentBegun.run.signals, signal.id ≠ "a"
    decide +kernel
  · show ∀ signal ∈ (Life.after payment paymentBegun (paying "a" "first" 5)).run.signals, signal.id ≠ "b"
    decide +kernel

theorem paymentParks_fair : paidTwice.fair payment paymentParks := by
  refine ⟨⟨firstKeyOf "r1" "paid", none, 1, ?_⟩, ⟨"paid", .waitFor ⟨"card", .ok⟩ false⟩, rfl, rfl, ?_⟩
  · exact .tail _ (.head _)
  · exact ⟨⟨"r1", .null, ∅, fun _ => none⟩, rfl⟩

/-- The signals of one name are not always taken in the order they were stored. -/
theorem stored_order_broken : ¬ ∀ def_ life turn next, Life.Reaches def_ life → life.fair def_ turn →
    Life.step def_ life turn = some next → ∀ before signal after, next.run.signals = before ++ signal :: after →
      TakenNow life next signal → ∀ earlier ∈ before, earlier.awaits signal.name = false := by
  intro inOrder
  have stepped : Life.step payment paidTwice paymentParks = some (Life.after payment paidTwice paymentParks) :=
    Life.step_after (by decide +kernel)
  have refuted := inOrder payment paidTwice paymentParks _ paidTwice_reached paymentParks_fair stepped
    [⟨"a", "card", "a", .string "first", 5, none, none⟩] ⟨"b", "card", "b", .string "second", 3, some 10, some "paid"⟩ []
    (by decide +kernel) ⟨by decide +kernel, by decide +kernel, rfl⟩ _ (List.mem_singleton_self _)
  exact absurd refuted (by decide +kernel)

/-- The wait completes with the older of the two. -/
theorem signals_taken_once_paid : ∃ next, Life.step payment paidTwice paymentParks = some next ∧
    SignalTurn payment paidTwice paymentParks next ∧ next.run.row.results.lookup "paid" = some (.string "second") := by
  refine ⟨Life.after payment paidTwice paymentParks, Life.step_after (by decide +kernel), ?_, by decide +kernel⟩
  exact (signals_taken_once paidTwice_reached).2 paymentParks _ paymentParks_fair (Life.step_after (by decide +kernel))

end Arki.Workflow
