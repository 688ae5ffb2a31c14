import Arki.Dot.RuntimeChain

/-! At most one app of a chain of modules is live, and a replaced module's app is disposed once. -/

set_option autoImplicit false

namespace Arki.Dot

open Arki.Run

variable {modules later : List Module} {module_ : Module} {index called : Nat} {start : Start}

def startAt (modules : List Module) (index start : Nat) : Option Start :=
  (modules[index]?).bind fun module_ => module_.starts[start]?

def calledAt (modules : List Module) (index start : Nat) : Bool := (startAt modules index start).any Start.called

def failedAt (modules : List Module) (index start : Nat) : Bool :=
  (startAt modules index start).any fun start => start.released == some false

/-- A call of `start` that has not answered. -/
def Start.isUnderWay (start : Start) : Bool :=
  match start.phase with
  | .waiting | .starting | .undoing => true
  | _ => false

theorem startAt_of (here : modules[index]? = some module_) : startAt modules index called = module_.starts[called]? := by
  rw [startAt, here, Option.bind_some]

theorem ChainEffect.calls {action : Action} (effect : ChainEffect modules action later) (linked : Linked modules)
    (before : calledAt modules index called = false) (after : calledAt later index called = true) :
    ∃ module_, modules[index]? = some module_ ∧ Calls module_ called := by
  obtain ⟨new, is, isCalled⟩ := Option.any_eq_true _ _ |>.mp after
  obtain ⟨moved, there, at_⟩ := Option.bind_eq_some_iff.mp is
  have same (here : modules[index]? = some moved) : ∃ module_, modules[index]? = some module_ ∧ Calls module_ called := by
    rw [calledAt, startAt_of here, at_] at before
    rw [Option.any_some, isCalled] at before
    cases before
  cases effect with
  | created eager _ =>
    rw [List.getElem?_append] at there
    split at there
    · exact same there
    · have inside := List.mem_singleton.mp (List.mem_of_getElem? there)
      rw [inside] at at_
      rw [created_uncalled eager new (List.mem_of_getElem? at_)] at isCalled
      cases isCalled
  | @moved moving old next _ was effect _ =>
    rw [List.getElem?_set] at there
    split at there
    · next here =>
      subst here
      rw [if_pos (List.getElem?_eq_some_iff.mp was).1] at there
      cases there
      cases known : old.starts[called]? with
      | none =>
        rw [effect.fresh known at_] at isCalled
        cases isCalled
      | some start =>
        obtain ⟨kept, keptAt, -, uncalled | calls⟩ := effect.kept (linked.okAt was) known
        · rw [at_] at keptAt
          cases keptAt
          rw [calledAt, startAt_of was, known, Option.any_some, ← uncalled, isCalled] at before
          cases before
        · exact ⟨old, was, calls⟩
    · exact same there

theorem Linked.idle (linked : Linked modules) (here : modules[index]? = some module_) (calls : Calls module_ called) :
    ∀ other ∈ modules, ∀ start ∈ other.starts, start.mayHold = false := by
  intro other inside start member
  obtain ⟨place, at_⟩ := List.mem_iff_getElem?.mp inside
  rw [Start.mayHold, Bool.and_eq_false_iff, or_iff_not_imp_left]
  intro isCalled
  have isCalled : start.called = true := by simpa using isCalled
  have released : start.released = some true := by
    rcases Nat.lt_trichotomy place index with below | same | above
    · have handover := (linked.okAt at_).handover
      rw [linked.gone below at_ here calls.gone] at handover
      exact (handover.1 rfl).2 start member isCalled
    · subst same
      rw [here] at at_
      cases at_
      have ok := linked.okAt here
      obtain ⟨waiting, is, phase⟩ := calls.waiting
      obtain ⟨found, foundAt⟩ := List.mem_iff_getElem?.mp member
      have apart : found ≠ called := by
        rintro rfl
        rw [is] at foundAt
        cases foundAt
        have holds := ok.starts start member
        rw [StartOk, phase] at holds
        rw [isCalled] at holds
        cases holds.1
      have holds := ok.starts start member
      rw [StartOk, ok.one is (by simp [Start.isCurrent, phase]) foundAt apart, calls.safe] at holds
      rcases holds with ⟨uncalled, -⟩ | ⟨-, -, released | ⟨-, failed⟩⟩
      · rw [isCalled] at uncalled
        cases uncalled
      · exact released
      · cases failed
    · -- a module with a successor is replaced
      have below := (List.getElem?_eq_some_iff.mp at_).1
      have replaced := linked.replaced index module_ here (by omega)
      rw [calls.unreplaced] at replaced
      cases replaced
  rw [released]
  rfl

theorem StartOk.wasCalled (holds : StartOk module_ start) (known : start.started = true ∨ start.released ≠ none) :
    start.called = true := by
  have past {failed : Bool} (isPast : start.IsPast failed) : start.called = true := by
    rcases isPast with ⟨-, unstarted, -, nothing⟩ | ⟨isCalled, -⟩
    · rw [unstarted, nothing] at known
      simp at known
    · exact isCalled
  cases phase : start.phase with
  | waiting =>
    rw [StartOk, phase] at holds
    rw [holds.2.1, holds.2.2.2] at known
    simp at known
  | starting | undoing =>
    rw [StartOk, phase] at holds
    exact holds.1
  | answered ended | finished ended =>
    rw [StartOk, phase] at holds
    cases ended with
    | true => exact holds.1
    | false => exact past holds

theorem ChainEffect.failed_stays {action : Action} (effect : ChainEffect modules action later) (linked : Linked modules)
    (failed : failedAt modules index called = true) : failedAt later index called = true := by
  obtain ⟨start, is, released⟩ := Option.any_eq_true _ _ |>.mp failed
  obtain ⟨module_, here, at_⟩ := Option.bind_eq_some_iff.mp is
  cases effect with
  | created =>
    rw [failedAt, startAt, List.getElem?_append_left (List.getElem?_eq_some_iff.mp here).1, here, Option.bind_some, at_]
    exact released
  | @moved moving old next _ was effect _ =>
    rw [failedAt, startAt, List.getElem?_set]
    by_cases same : moving = index
    · subst same
      rw [here] at was
      cases was
      obtain ⟨kept, keptAt, stays, -⟩ := effect.kept (linked.okAt here) at_
      rw [if_pos rfl, if_pos (List.getElem?_eq_some_iff.mp here).1, Option.bind_some, keptAt, Option.any_some,
        stays (by simpa using released)]
      rfl
    · rw [if_neg same, here, Option.bind_some, at_]
      exact released

theorem Linked.uncalled (linked : Linked modules) (failed : failedAt modules index called = true) {after : Nat} (above : index < after)
    (here : modules[after]? = some module_) : ∀ start ∈ module_.starts, start.called = false := by
  intro start inside
  by_contra isCalled
  have isCalled : start.called = true := by simpa using isCalled
  obtain ⟨past, is, released⟩ := Option.any_eq_true _ _ |>.mp failed
  obtain ⟨earlier, was, at_⟩ := Option.bind_eq_some_iff.mp is
  have released : past.released = some false := by simpa using released
  have known := (linked.okAt here).called start inside isCalled
  have handover := (linked.okAt was).handover
  rw [linked.gone above was here known] at handover
  have holds := (linked.okAt was).starts past (mem_of_at at_)
  have pastCalled := holds.wasCalled (.inr (by rw [released]; exact Option.some_ne_none _))
  rw [(handover.1 rfl).2 past (mem_of_at at_) pastCalled] at released
  cases released

/-- A module disposes an app once, and has done so when its hand-over is over. -/
theorem StartOk.disposals (holds : StartOk module_ start) : start.disposals ≤ 1 ∧ (start.started = false → start.disposals = 0) ∧
    (∀ gone, module_.handover = some (.settled gone) → start.isOver = true → start.started = true → start.disposals = 1) := by
  have past {failed : Bool} (isPast : start.IsPast failed) : start.disposals ≤ 1 ∧ (start.started = false → start.disposals = 0) ∧
      (start.started = true → start.disposals = 1) := by
    rcases isPast with ⟨-, unstarted, disposals, -⟩ | ⟨-, disposals, -⟩
    · rw [unstarted, disposals]
      exact ⟨Nat.zero_le 1, fun _ => rfl, fun is => (by cases is)⟩
    · rw [disposals]
      cases start.started <;> simp
  cases phase : start.phase with
  | waiting | starting =>
    rw [StartOk, phase] at holds
    obtain ⟨-, unstarted, disposals, -⟩ := holds
    rw [unstarted, disposals]
    exact ⟨Nat.zero_le 1, fun _ => rfl, fun _ _ _ is => (by cases is)⟩
  | undoing =>
    rw [StartOk, phase] at holds
    obtain ⟨-, started, disposals, -⟩ := holds
    rw [started, disposals]
    exact ⟨Nat.le_refl 1, fun is => (by cases is), fun _ _ _ _ => rfl⟩
  | answered started =>
    rw [StartOk, phase] at holds
    cases started with
    | true =>
      obtain ⟨-, started, disposals, -⟩ := holds
      rw [started, disposals, Start.isOver, phase]
      exact ⟨Nat.zero_le 1, fun _ => rfl, fun _ _ is => (by cases is)⟩
    | false =>
      obtain ⟨atMost, unstarted, once⟩ := past holds
      exact ⟨atMost, unstarted, fun _ _ _ => once⟩
  | finished started =>
    rw [StartOk, phase] at holds
    cases started with
    | true =>
      obtain ⟨-, started, live, -⟩ := holds
      rw [started]
      refine ⟨?_, fun is => (by cases is), fun gone settled _ _ => ?_⟩
      · unfold Start.IsLive at live
        split at live <;> omega
      · rw [settled] at live
        exact live.1
    | false =>
      obtain ⟨atMost, unstarted, once⟩ := past holds
      exact ⟨atMost, unstarted, fun _ _ _ => once⟩

def Quiet (modules : List Module) : Prop :=
  ∀ index action, action ≠ .get → action ≠ .hotDispose → step modules (.at_ index action) = none

theorem Quiet.off (quiet : Quiet modules) (here : modules[index]? = some module_) {action : ModuleAction} (isGet : action ≠ .get)
    (isDispose : action ≠ .hotDispose) (awaits : ∀ gone, action = .previousGone gone → left modules index = some gone) :
    module_.step action = none := by
  have off := quiet index action isGet isDispose
  simp only [step, here] at off
  split at off
  · next gone =>
    rw [if_pos (awaits gone rfl)] at off
    exact Option.map_eq_none_iff.mp off
  · exact Option.map_eq_none_iff.mp off

theorem Module.Ok.handed_over (ok : module_.Ok) (replaced : module_.replaced = true) {gone : Bool}
    (known : module_.previous = some gone)
    (quiet : ∀ action, action ≠ .get → action ≠ .hotDispose → (∀ gone, action ≠ .previousGone gone) → module_.step action = none) :
    ∃ gone, module_.handover = some (.settled gone) := by
  have handover := ok.handover
  cases stage : module_.handover with
  | none =>
    rw [ok.handed.mp stage] at replaced
    cases replaced
  | some handover_ =>
    rw [stage] at handover
    cases handover_ with
    | settled gone => exact ⟨gone, rfl⟩
    | waiting =>
      have off := quiet .handoverResume (by simp) (by simp) (by simp)
      simp [Module.step, stage, known] at off
    | disposing index =>
      obtain ⟨-, start, is, -⟩ := handover
      have off := quiet (.handoverDisposed true) (by simp) (by simp) (by simp)
      simp [Module.step, stage, is] at off
    | awaiting index =>
      obtain ⟨start, is⟩ : ∃ start, module_.starts[index]? = some start :=
        ⟨_, List.getElem?_eq_getElem (ok.held index handover.2)⟩
      cases phase : start.phase with
      | waiting =>
        have off := quiet (.resume index) (by simp) (by simp) (by simp)
        simp [Module.step, is, known, phase] at off
      | starting =>
        have off := quiet (.appAnswers index .throws) (by simp) (by simp) (by simp)
        simp [Module.step, is, phase] at off
      | undoing =>
        have off := quiet (.undone index true) (by simp) (by simp) (by simp)
        simp [Module.step, is, phase] at off
      | answered started =>
        have off := quiet (.clear index) (by simp) (by simp) (by simp)
        cases started <;> simp [Module.step, is, phase] at off
      | finished started =>
        have off := quiet .handoverCurrent (by simp) (by simp) (by simp)
        cases started <;> simp [Module.step, stage, is, phase] at off

theorem Linked.handed_over (linked : Linked modules) (quiet : Quiet modules) (here : modules[index]? = some module_)
    (replaced : module_.replaced = true) : ∃ gone, module_.handover = some (.settled gone) := by
  have ends {index : Nat} {module_ : Module} (here : modules[index]? = some module_) (replaced : module_.replaced = true)
      (isLeft : ∃ gone, Dot.left modules index = some gone) : ∃ gone, module_.handover = some (.settled gone) := by
    obtain ⟨gone, isLeft⟩ := isLeft
    cases previous : module_.previous with
    | none =>
      have off : module_.step (.previousGone gone) = none :=
        quiet.off here (by simp) (by simp) fun _ is => by
          cases is
          exact isLeft
      rw [Module.step, if_pos previous] at off
      cases off
    | some gone =>
      exact (linked.okAt here).handed_over replaced previous fun action isGet isDispose isPrevious =>
        quiet.off here isGet isDispose fun gone is => absurd is (isPrevious gone)
  induction index generalizing module_ with
  | zero => exact ends here replaced ⟨true, rfl⟩
  | succ index ih =>
    have below := (List.getElem?_eq_some_iff.mp here).1
    obtain ⟨before, was⟩ : ∃ before, modules[index]? = some before :=
      ⟨_, List.getElem?_eq_getElem (Nat.lt_of_succ_lt below)⟩
    obtain ⟨gone, settled⟩ := ih was (linked.replaced index before was below)
    refine ends here replaced ⟨gone, ?_⟩
    simp only [Dot.left, was, Option.bind_some, settled]

/-- At most one live app across hot updates. A start is called only while no app of the chain may hold resources, and never by a
replaced module. A failed release keeps every later module from calling its app. Calls in one module do not overlap. A replaced
module has disposed each app it started exactly once when its hand-over is over, and its hand-over is over when every await has
answered. -/
theorem one_live_app (reached : Reach step always [] modules) :
    (∀ action next index called, step modules action = some next → calledAt modules index called = false →
      calledAt next index called = true →
        (∀ module_ ∈ modules, ∀ start ∈ module_.starts, start.mayHold = false) ∧
          ∀ module_, modules[index]? = some module_ → module_.replaced = false) ∧
    (∀ index called, failedAt modules index called = true → ∀ later, Reach step always modules later →
      ∀ after module_, index < after → later[after]? = some module_ → ∀ start ∈ module_.starts, start.called = false) ∧
    (∀ module_ ∈ modules, ∀ (first second : Nat) (one other : Start), module_.starts[first]? = some one → module_.starts[second]? = some other →
      one.isUnderWay = true → other.isUnderWay = true → first = second) ∧
    (∀ module_ ∈ modules, ∀ start ∈ module_.starts, start.disposals ≤ 1 ∧ (start.started = false → start.disposals = 0) ∧
      ∀ gone, module_.handover = some (.settled gone) → start.started = true → start.disposals = 1) ∧
    (Quiet modules → ∀ module_ ∈ modules, module_.replaced = true → ∃ gone, module_.handover = some (.settled gone)) ∧
    (∀ index module_, modules[index]? = some module_ → module_.replaced = true → step modules (.at_ index .get) = some modules) := by
  have linked := Linked.reached reached
  refine ⟨fun action next index called taken before after => ?_, fun index called failed later runs after module_ above here => ?_,
    fun module_ inside first second one other is at_ isOn otherOn => ?_, fun module_ inside start member => ?_,
    fun quiet module_ inside replaced => ?_, fun index module_ here replaced => ?_⟩
  · obtain ⟨module_, here, calls⟩ := (step_effect taken).calls linked before after
    refine ⟨linked.idle here calls, fun found at_ => ?_⟩
    rw [here] at at_
    cases at_
    exact calls.unreplaced
  · have stays : Linked later ∧ failedAt later index called = true :=
      runs.invariant (fun state => Linked state ∧ failedAt state index called = true) ⟨linked, failed⟩
        fun _ _ _ holds _ taken => ⟨holds.1.step (step_effect taken), (step_effect taken).failed_stays holds.1 holds.2⟩
    exact stays.1.uncalled stays.2 above here
  · have current {start : Start} (on : start.isUnderWay = true) : start.isCurrent = true := by
      cases phase : start.phase <;> simp_all [Start.isUnderWay, Start.isCurrent]
    by_contra apart
    have past := (linked.ok module_ inside).one at_ (current otherOn) is apart
    rw [Start.isUnderWay, past] at isOn
    cases isOn
  · have ok := linked.ok module_ inside
    obtain ⟨atMost, unstarted, once⟩ := (ok.starts start member).disposals
    refine ⟨atMost, unstarted, fun gone settled started => ?_⟩
    have handover := ok.handover
    rw [settled] at handover
    exact once gone settled (handover.2 start member ((ok.starts start member).wasCalled (.inl started))) started
  · obtain ⟨index, here⟩ := List.mem_iff_getElem?.mp inside
    exact linked.handed_over quiet here replaced
  · have still : module_.get = module_ := by rw [Module.get, if_pos replaced]
    have inside := List.getElem?_eq_some_iff.mp here
    simp only [step, here, Module.step, still, Option.map_some]
    rw [← inside.2, List.set_getElem_self]

def handedOver : List Action :=
  [.create true, .at_ 0 (.previousGone true), .at_ 0 (.resume 0), .at_ 0 (.appAnswers 0 (.app false)), .at_ 0 (.clear 0),
    .at_ 0 .hotDispose, .create true, .at_ 0 .handoverResume, .at_ 0 .handoverCurrent, .at_ 0 (.handoverDisposed true),
    .at_ 1 (.previousGone true)]

/-- An app that starts and is handed over is gone before the next module calls its own. -/
theorem one_live_app_handed_over : ∃ modules next, run step [] handedOver = some modules ∧
    step modules (.at_ 1 (.resume 0)) = some next ∧ calledAt next 1 0 = true ∧
    ∀ module_ ∈ modules, ∀ start ∈ module_.starts, start.mayHold = false :=
  ⟨_, _, rfl, rfl, by decide, ((one_live_app (Reach.of_run (show run step [] handedOver = some _ from rfl))).1
    (.at_ 1 (.resume 0)) _ 1 0 rfl (by decide) (by decide)).1⟩

end Arki.Dot
