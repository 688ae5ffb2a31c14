import Arki.Workflow.Reached

/-! What completes a node: which transaction records the result, and where that result comes from. -/

set_option autoImplicit false

namespace Arki.Workflow

open Arki.Journal (Value StoredEvent)

variable {def_ : WorkflowDef} {env : Env} {run : Run} {path : String} {events first rest : List RunEvent}

def RunEvent.completion : RunEvent → Option (String × Value × Option String)
  | .nodeCompleted path .do_ result resolvedBy _ => some (path, result, resolvedBy)
  | _ => none

def Silent (events : List RunEvent) : Prop := ∀ event ∈ events, event.completion = none

def Only (events : List RunEvent) (path : String) (result : Value) (resolvedBy : Option String) : Prop :=
  ∀ event ∈ events, ∀ completion, event.completion = some completion → completion = (path, result, resolvedBy)

theorem Silent.nil : Silent [] := nofun

theorem Silent.cons {event : RunEvent} (quiet : event.completion = none) (silent : Silent rest) : Silent (event :: rest) := by
  intro other member
  rcases List.mem_cons.mp member with rfl | member
  · exact quiet
  · exact silent other member

theorem Silent.append (before : Silent first) (after : Silent rest) : Silent (first ++ rest) := by
  intro event member
  rcases List.mem_append.mp member with member | member
  · exact before event member
  · exact after event member

theorem Silent.only (silent : Silent events) {result : Value} {resolvedBy : Option String} :
    Only events path result resolvedBy := by
  intro event member completion completes
  rw [silent event member] at completes
  cases completes

theorem Only.completed {result : Value} {resolvedBy : Option String} (time : Nat) (silent : Silent rest) :
    Only (.nodeCompleted path .do_ result resolvedBy time :: rest) path result resolvedBy := by
  intro event member completion completes
  rcases List.mem_cons.mp member with rfl | member
  · exact (Option.some.inj completes).symm
  · rw [silent event member] at completes
    cases completes

theorem silent_eventsAfter (route : Route) : Silent (eventsAfter run env route) := by
  cases route <;> exact .cons rfl .nil

theorem silent_undoAll (options : CompensateOptions) (left : List Done) : Silent (undoAll def_ run env options left) := by
  induction left with
  | nil =>
    refine .cons ?_ .nil
    simp only [endOf]
    split <;> rfl
  | cons item rest ih =>
    simp only [undoAll]
    split
    · exact .cons rfl ih
    split
    · exact .cons rfl .nil
    split
    · split
      · exact .cons rfl ih
      split
      · exact .nil
      · exact .cons rfl ih
    · exact .cons rfl ih

theorem silent_compensate (options : CompensateOptions) : Silent (compensate def_ run env options) := by
  simp only [compensate]
  split
  · exact .nil
  · exact silent_undoAll options _

theorem silent_begin {closed : Bool} {cause : Option String} {cancelling : Bool} (silent : Silent events) :
    Silent (beginCompensation def_ run env events closed cause cancelling) := by
  have dropped : Silent (dropCurrentNode run env).1 := by
    simp only [dropCurrentNode]
    split
    · exact .nil
    split
    · exact .nil
    split
    · exact .nil
    split
    · exact .cons rfl .nil
    split
    · exact .nil
    · exact .cons rfl .nil
  simp only [beginCompensation]
  split
  · exact silent.append (silent_compensate _)
  · cases closed with
    | true => exact ((silent.append (.cons rfl .nil)).append .nil).append (silent_compensate _)
    | false =>
      refine ((silent.append (.cons rfl .nil)).append dropped).append ?_
      simp only [Bool.false_eq_true, if_false]
      split
      · exact .nil
      · exact silent_compensate _

theorem silent_deadline : Silent (deadlineEvents def_ run env) := silent_begin (.cons rfl .nil)

theorem silent_failWait {error : String} : Silent (failWait def_ run env path error) := silent_begin (.cons rfl .nil)

theorem silent_deadNode {error : String} : Silent (deadNode def_ run env path error) := by
  simp only [deadNode]
  split
  · exact .cons rfl .nil
  · exact silent_begin (.cons rfl .nil)

theorem silent_refusedPark (refused : refusedPark def_ run env path = some events) : Silent events := by
  simp only [refusedPark] at refused
  split at refused
  · cases refused
    exact .cons rfl (silent_compensate _)
  split at refused
  · cases refused
    exact silent_begin (.cons rfl (.cons rfl .nil))
  · cases refused

theorem silent_jobRetried (dead : List (Option String)) : Silent (dead.map fun node => .jobRetried node env.now) := by
  intro event member
  obtain ⟨node, -, rfl⟩ := List.mem_map.mp member
  rfl

theorem only_completeWait {result : Value} : Only (completeWait def_ run env path result) path result none := by
  simp only [completeWait]
  split
  · exact silent_failWait.only
  · exact .completed _ (silent_eventsAfter _)

/-- A `waitFor` that a signal wakes fails, or completes with what its schema makes of the payload. -/
theorem wakeOnSignal_cases {wait : SignalWait} {payload : Value} :
    Silent (wakeOnSignal def_ run env path wait payload) ∨ ∃ parsed result, wait.schema payload = .ok parsed ∧
      def_.storable ("the payload of '" ++ path ++ "'") parsed = .ok result ∧
        Only (wakeOnSignal def_ run env path wait payload) path result none := by
  unfold wakeOnSignal
  cases wait.schema payload with
  | error error => exact .inl silent_failWait
  | ok parsed =>
    cases kept : def_.storable ("the payload of '" ++ path ++ "'") parsed with
    | error error =>
      simp only [kept]
      exact .inl silent_failWait
    | ok result =>
      simp only [kept]
      exact .inr ⟨parsed, result, rfl, kept, only_completeWait⟩

/-- Only the node `path` may be completed, and no operator did. -/
def OnlyAt (events : List RunEvent) (path : String) : Prop :=
  ∀ event ∈ events, ∀ completion, event.completion = some completion → completion.1 = path ∧ completion.2.2 = none

theorem Only.here {result : Value} (only : Only events path result none) : OnlyAt events path := by
  intro event member completion completes
  rw [only event member completion completes]
  exact ⟨rfl, rfl⟩

theorem Silent.onlyAt (silent : Silent events) : OnlyAt events path := by
  intro event member completion completes
  rw [silent event member] at completes
  cases completes

theorem OnlyAt.cons {event : RunEvent} (quiet : event.completion = none) (only : OnlyAt rest path) :
    OnlyAt (event :: rest) path := by
  intro other member completion completes
  rcases List.mem_cons.mp member with rfl | member
  · rw [quiet] at completes
    cases completes
  · exact only other member completion completes

theorem onlyAt_takeEvent {label : String} {stored : StoredEvent} : OnlyAt (takeEvent def_ run env path label stored) path := by
  simp only [takeEvent]
  split
  · exact silent_failWait.onlyAt
  · exact .cons rfl only_completeWait.here

theorem onlyAt_wakeOnEvent {sources : List EventSource} : OnlyAt (wakeOnEvent def_ run env path sources) path := by
  simp only [wakeOnEvent]
  split
  · exact silent_failWait.onlyAt
  · exact Silent.nil.onlyAt
  · exact onlyAt_takeEvent

theorem onlyAt_joinChildren {kind : NodeKind} {plan : Plan} : OnlyAt (joinChildren def_ run env kind plan).1 plan.path := by
  have completes (ids : List String) (list : Bool) : OnlyAt (completeChildren def_ run env kind plan ids list) plan.path := by
    simp only [completeChildren]
    split
    · exact silent_deadNode.onlyAt
    · exact only_completeWait.here
  simp only [joinChildren]
  split
  · split
    · split
      · exact silent_deadNode.onlyAt
      · exact Silent.nil.onlyAt
    · split
      · exact Silent.nil.onlyAt
      · exact completes _ _
  · split
    · exact silent_deadNode.onlyAt
    · split
      · exact completes _ _
      · exact Silent.nil.onlyAt

inductive Posted (run : Run) : List Signal → Prop where
  | same : Posted run run.signals
  | stored (signal : Signal) (untaken : signal.consumedAt = none)
      (own : ∀ other ∈ run.signals, other.id ≠ signal.id)
      (first : ∀ other ∈ run.signals, ¬ (other.name = signal.name ∧ other.deliveryId = signal.deliveryId)) :
      Posted run (run.signals ++ [signal])

inductive Mail (run : Run) (now : Nat) : List Signal → Prop where
  | untouched (before : List Signal) (posted : Posted run before) : Mail run now before
  | taken (before : List Signal) (path name : String) (signal : Signal) (posted : Posted run before)
      (oldest : oldestSignal before name = some signal) :
      Mail run now (Table.update before (·.id = signal.id) (Signal.take path now))

/-- Where a `do` completion comes from. -/
inductive Source (def_ : WorkflowDef) (run : Run) (env : Env) (move : Move) (committed : Bool) (draft : Draft)
    (path : String) (result : Value) : Option String → Prop where
  | reported (job attempt : Nat) (route : Route) (resolvedBy : Option String) (node : Node)
      (moved : move = .checkpoint job path .do_ attempt (.completed result route resolvedBy))
      (known : def_.node path = some node) (sends : node.sends .do_ (.completed result route resolvedBy)) :
      Source def_ run env move committed draft path result resolvedBy
  | commanded (job attempt : Nat) (key : String) (tried : CommandTried) (undo keeps : Bool)
      (moved : move = .commandNode job path .do_ attempt key tried)
      (known : def_.node path = some ⟨path, .command undo keeps⟩)
      (ran : committed = false → ∃ envelope, tried.ran = .refused envelope) :
      Source def_ run env move committed draft path result none
  | signalled (before : List Signal) (wait : SignalWait) (fails : Bool) (signal : Signal) (parsed : Value)
      (known : def_.node path = some ⟨path, .waitFor wait fails⟩)
      (posted : Posted run before) (oldest : oldestSignal before wait.signal = some signal)
      (took : draft.run.signals = Table.update before (·.id = signal.id) (Signal.take path env.now))
      (read : wait.schema signal.payload = .ok parsed)
      (kept : def_.storable ("the payload of '" ++ path ++ "'") parsed = .ok result) :
      Source def_ run env move committed draft path result none
  | timed (time : Nat) (node : Node) (fired : .timerFired path time ∈ draft.events)
      (known : def_.node path = some node) (isWait : node.kind.isWait) :
      Source def_ run env move committed draft path result none
  | tookEvent (sources : List EventSource) (fails : Bool) (known : def_.node path = some ⟨path, .eventWait sources fails⟩) :
      Source def_ run env move committed draft path result none
  | joined (node : Node) (known : def_.node path = some node) (isFan : node.kind.isFan) :
      Source def_ run env move committed draft path result none

/-- No run is parked on a `waitFor` while a signal waits that the node would take. -/
def Listening (def_ : WorkflowDef) (run : Run) : Prop :=
  run.row.state = .parked → ∀ path wait fails, run.row.node = some path →
    def_.node path = some ⟨path, .waitFor wait fails⟩ →
      run.row.waitingFor = some wait.signal ∧ ∀ signal ∈ run.signals, signal.awaits wait.signal = false

theorem Listening.of_same {other : Run} (listening : Listening def_ run) (row : other.row = run.row)
    (signals : ∀ signal ∈ other.signals, signal ∈ run.signals ∨ signal.consumedAt.isSome) : Listening def_ other := by
  intro parked path wait fails here known
  rw [row] at parked here ⊢
  obtain ⟨waits, quiet⟩ := listening parked path wait fails here known
  refine ⟨waits, fun signal member => ?_⟩
  rcases signals signal member with was | taken
  · exact quiet signal was
  · simp [Signal.awaits, taken]

structure Explained (def_ : WorkflowDef) (run : Run) (env : Env) (move : Move) (committed : Bool) (draft : Draft) : Prop where
  mail : Mail run env.now draft.run.signals
  source : ∀ event ∈ draft.events, ∀ path result resolvedBy, event.completion = some (path, result, resolvedBy) →
    Source def_ run env move committed draft path result resolvedBy
  /-- Either the transaction leaves no signal for a wait that goes on, or it begins compensation. -/
  listens : Listening def_ run → draft.run.row = run.row →
    Listening def_ draft.run ∨ ∃ event ∈ draft.events, event.isStart = true

section Explained

variable {move : Move} {committed : Bool} {draft : Draft}

theorem Explained.silent (same : draft.run.signals = run.signals) (silent : Silent draft.events) :
    Explained def_ run env move committed draft := by
  refine ⟨same ▸ .untouched _ .same, fun event member path result resolvedBy completes => ?_, fun listening row => ?_⟩
  · rw [silent event member] at completes
    cases completes
  · exact .inl (listening.of_same row fun signal member => .inl (same ▸ member))

theorem Explained.onlyAt (same : draft.run.signals = run.signals) (only : OnlyAt draft.events path)
    (source : ∀ result, Source def_ run env move committed draft path result none) :
    Explained def_ run env move committed draft := by
  refine ⟨same ▸ .untouched _ .same, fun event member other result resolvedBy completes => ?_, fun listening row => ?_⟩
  · obtain ⟨here, nobody⟩ := only event member _ completes
    simp only at here nobody
    rw [here, nobody]
    exact source result
  · exact .inl (listening.of_same row fun signal member => .inl (same ▸ member))

theorem Explained.idle : Explained def_ run env move committed (.idle run) := .silent rfl .nil

theorem Explained.takes {before : List Signal} {wait : SignalWait} {fails : Bool} {signal : Signal} {other : Run}
    (posted : Posted run before) (oldest : oldestSignal before wait.signal = some signal)
    (known : def_.node path = some ⟨path, .waitFor wait fails⟩)
    (took : draft.run.signals = Table.update before (·.id = signal.id) (Signal.take path env.now)) (events : List RunEvent)
    (woke : draft.events = events ++ wakeOnSignal def_ other env path wait signal.payload) (quiet : Silent events)
    (from_ : ∀ other ∈ before, other ∈ run.signals ∨ other = signal) :
    Explained def_ run env move committed draft := by
  refine ⟨took ▸ .taken before path wait.signal signal posted oldest, fun event member node result resolvedBy completes => ?_,
    fun listening row => ?_⟩
  · rw [woke] at member
    rcases List.mem_append.mp member with member | member
    · rw [quiet event member] at completes
      cases completes
    rcases @wakeOnSignal_cases def_ env other path wait signal.payload with silent | ⟨parsed, value, read, kept, only⟩
    · rw [silent event member] at completes
      cases completes
    · cases only event member _ completes
      exact .signalled before wait fails signal parsed known posted oldest took read kept
  · refine .inl (listening.of_same row fun kept member => ?_)
    rw [took] at member
    rcases Table.mem_update.mp member with ⟨old, -, -, rfl⟩ | ⟨was, other⟩
    · exact .inr rfl
    · refine .inl ((from_ kept was).resolve_right fun same => ?_)
      rw [same] at other
      simp at other

end Explained

end Arki.Workflow
