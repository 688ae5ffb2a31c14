import Arki.Library.Run
import Arki.Dot.Runtime

/-! What one module keeps over every order of its calls, callbacks, starts and disposals. -/

set_option autoImplicit false

namespace Arki.Dot

open Arki.Run

variable {module_ next : Module} {index : Nat} {start : Start}

/-- A start whose promise is still in `running`, or was when the module was replaced. -/
def Start.isCurrent (start : Start) : Bool := start.phase != .finished false

def Start.isOver (start : Start) : Bool :=
  match start.phase with
  | .answered false | .finished _ => true
  | _ => false

/-- What is left of a start that failed: nothing was called, or its resources are gone, or the module knows they are not. -/
def Start.IsPast (releaseFailure : Bool) (start : Start) : Prop :=
  start.called = false ∧ start.started = false ∧ start.disposals = 0 ∧ start.released = none ∨
    start.called = true ∧ start.disposals = (if start.started then 1 else 0) ∧
      (start.released = some true ∨ start.released = some false ∧ releaseFailure = true)

def Start.IsLive (handover : Option Handover) (start : Start) : Prop :=
  match handover with
  | some (.disposing _) => start.disposals = 1 ∧ start.released = none
  | some (.settled released) => start.disposals = 1 ∧ start.released = some released
  | _ => start.disposals = 0 ∧ start.released = none

def StartOk (module_ : Module) (start : Start) : Prop :=
  match start.phase with
  | .waiting => start.called = false ∧ start.started = false ∧ start.disposals = 0 ∧ start.released = none
  | .starting =>
    start.called = true ∧ start.started = false ∧ start.disposals = 0 ∧ start.released = none ∧ module_.releaseFailure = false
  | .undoing =>
    start.called = true ∧ start.started = true ∧ start.disposals = 1 ∧ start.released = none ∧ module_.releaseFailure = false
  | .answered true =>
    start.called = true ∧ start.started = true ∧ start.disposals = 0 ∧ start.released = none ∧ module_.releaseFailure = false
  | .finished true =>
    start.called = true ∧ start.started = true ∧ start.IsLive module_.handover ∧ module_.releaseFailure = false
  | .answered false | .finished false => start.IsPast module_.releaseFailure

def HandoverOk (module_ : Module) : Option Handover → Prop
  | none | some .waiting => True
  | some (.awaiting current) => module_.previous = some true ∧ module_.current = some current
  | some (.disposing current) =>
    module_.previous = some true ∧ ∃ start, module_.starts[current]? = some start ∧ start.phase = .finished true
  | some (.settled gone) =>
    (gone = true → module_.previous = some true ∧ ∀ start ∈ module_.starts, start.called = true → start.released = some true) ∧
      ∀ start ∈ module_.starts, start.called = true → start.isOver = true

structure Module.Ok (module_ : Module) : Prop where
  starts : ∀ start ∈ module_.starts, StartOk module_ start
  called : ∀ start ∈ module_.starts, start.called = true → module_.previous = some true
  last : ∀ index start, module_.starts[index]? = some start → start.isCurrent = true → index + 1 = module_.starts.length
  runs : module_.replaced = false → ∀ index start, module_.starts[index]? = some start → start.isCurrent = true →
    module_.running = some index
  running : ∀ index, module_.running = some index → ∃ start, module_.starts[index]? = some start ∧ start.isCurrent = true
  replaced : module_.replaced = true → module_.running = none ∧
    ∀ index start, module_.starts[index]? = some start → start.isCurrent = true → module_.current = some index
  held : ∀ index, module_.current = some index → index < module_.starts.length
  handed : module_.handover = none ↔ module_.replaced = false
  handover : HandoverOk module_ module_.handover

theorem Module.Ok.new : Module.new.Ok where
  starts _ inside := by cases inside
  called _ inside := by cases inside
  last index start is := by simp [Module.new] at is
  runs _ index start is := by simp [Module.new] at is
  running index is := by cases is
  replaced is := by cases is
  held index is := by cases is
  handed := by simp [Module.new]
  handover := trivial

theorem mem_of_at (is : module_.starts[index]? = some start) : start ∈ module_.starts := List.mem_of_getElem? is

theorem Module.Ok.one (ok : module_.Ok) {other : Nat} {found : Start} (is : module_.starts[index]? = some start)
    (isCurrent : start.isCurrent = true) (at_ : module_.starts[other]? = some found) (apart : other ≠ index) :
    found.phase = .finished false := by
  by_contra some_
  have first := ok.last index start is isCurrent
  have second := ok.last other found at_ (by simpa [Start.isCurrent] using some_)
  omega

theorem IsPast.mono {before after : Bool} (later : before = true → after = true) (past : start.IsPast before) :
    start.IsPast after := by
  rcases past with none_ | ⟨called, disposals, released | ⟨failed, known⟩⟩
  · exact .inl none_
  · exact .inr ⟨called, disposals, .inl released⟩
  · exact .inr ⟨called, disposals, .inr ⟨failed, later known⟩⟩

theorem Module.Ok.set (ok : module_.Ok) (is : module_.starts[index]? = some start) (isCurrent : start.isCurrent = true)
    {new : Start} {releaseFailure : Bool} {running : Option Nat} {handover : Option Handover}
    (worse : module_.releaseFailure = true → releaseFailure = true)
    (newOk : StartOk { module_ with releaseFailure := releaseFailure, handover := handover } new)
    (called : new.called = true → module_.previous = some true)
    (moves : running = module_.running ∧ new.isCurrent = true ∨ running = none ∧ new.isCurrent = false)
    (handed : handover = none ↔ module_.handover = none)
    (handoverOk : HandoverOk { module_ with releaseFailure := releaseFailure, starts := module_.starts.set index new } handover) :
    { module_ with releaseFailure := releaseFailure, running := running, handover := handover,
                   starts := module_.starts.set index new }.Ok := by
  have inside := (List.getElem?_eq_some_iff.mp is).1
  have each {other : Nat} {found : Start} (at_ : (module_.starts.set index new)[other]? = some found) :
      other = index ∧ found = new ∨
        other ≠ index ∧ module_.starts[other]? = some found ∧ found.phase = .finished false := by
    rw [List.getElem?_set] at at_
    by_cases here : index = other
    · rw [if_pos here, if_pos inside] at at_
      exact .inl ⟨here.symm, (Option.some.inj at_).symm⟩
    · rw [if_neg here] at at_
      exact .inr ⟨Ne.symm here, at_, ok.one is isCurrent at_ (Ne.symm here)⟩
  have notCurrent {found : Start} (past : found.phase = .finished false) : ¬ found.isCurrent = true := by
    simp [Start.isCurrent, past]
  exact {
    starts := fun found member => by
      obtain ⟨other, at_⟩ := List.mem_iff_getElem?.mp member
      rcases each at_ with ⟨-, rfl⟩ | ⟨-, was, past⟩
      · exact newOk
      · have before := ok.starts found (mem_of_at was)
        rw [StartOk, past] at before ⊢
        exact IsPast.mono worse before
    called := fun found member isCalled => by
      obtain ⟨other, at_⟩ := List.mem_iff_getElem?.mp member
      rcases each at_ with ⟨-, rfl⟩ | ⟨-, was, -⟩
      · exact called isCalled
      · exact ok.called found (mem_of_at was) isCalled
    last := fun other found at_ current => by
      rw [List.length_set]
      rcases each at_ with ⟨rfl, -⟩ | ⟨-, -, past⟩
      · exact ok.last other start is isCurrent
      · exact absurd current (notCurrent past)
    runs := fun unreplaced other found at_ current => by
      rcases each at_ with ⟨rfl, rfl⟩ | ⟨-, -, past⟩
      · rcases moves with ⟨same, -⟩ | ⟨-, gone⟩
        · rw [same]
          exact ok.runs unreplaced other start is isCurrent
        · rw [gone] at current
          cases current
      · exact absurd current (notCurrent past)
    running := fun other isRunning => by
      rcases moves with ⟨same, newCurrent⟩ | ⟨none_, -⟩
      · rw [same] at isRunning
        obtain ⟨found, at_, current⟩ := ok.running other isRunning
        by_cases here : other = index
        · subst here
          exact ⟨new, by rw [List.getElem?_set, if_pos rfl, if_pos inside], newCurrent⟩
        · exact absurd current (notCurrent (ok.one is isCurrent at_ here))
      · rw [none_] at isRunning
        cases isRunning
    replaced := fun isReplaced => by
      obtain ⟨none_, currents⟩ := ok.replaced isReplaced
      refine ⟨?_, fun other found at_ current => ?_⟩
      · rcases moves with ⟨same, -⟩ | ⟨gone, -⟩
        · exact same.trans none_
        · exact gone
      · rcases each at_ with ⟨rfl, -⟩ | ⟨-, -, past⟩
        · exact currents other start is isCurrent
        · exact absurd current (notCurrent past)
    held := fun other isHeld => by
      rw [List.length_set]
      exact ok.held other isHeld
    handed := handed.trans ok.handed
    handover := handoverOk }

theorem Module.Ok.under_way (ok : module_.Ok) (is : module_.starts[index]? = some start) (isCalled : start.called = true)
    (isOn : start.isOver = false) (gone : Bool) : module_.handover ≠ some (.settled gone) := by
  intro settled
  have handover := ok.handover
  rw [settled] at handover
  rw [handover.2 start (mem_of_at is) isCalled] at isOn
  cases isOn

theorem Module.Ok.get (ok : module_.Ok) : module_.get.Ok := by
  unfold Module.get
  split
  · exact ok
  next unreplaced =>
  split
  · exact ok
  next idle =>
  have unreplaced : module_.replaced = false := by simpa using unreplaced
  have noCurrent {other : Nat} {found : Start} (at_ : module_.starts[other]? = some found) : ¬ found.isCurrent = true := by
    intro current
    have running := ok.runs unreplaced other found at_ current
    rw [idle] at running
    cases running
  have noHandover : module_.handover = none := ok.handed.mpr unreplaced
  have each {other : Nat} {found : Start} (at_ : (module_.starts ++ [⟨.waiting, false, false, 0, none⟩])[other]? = some found)
      (current : found.isCurrent = true) : other = module_.starts.length := by
    rw [List.getElem?_append] at at_
    by_cases inside : other < module_.starts.length
    · rw [if_pos inside] at at_
      exact absurd current (noCurrent at_)
    · rw [if_neg inside] at at_
      have below := (List.getElem?_eq_some_iff.mp at_).1
      simp only [List.length_singleton] at below
      omega
  exact {
    starts := fun found member => by
      rcases List.mem_append.mp member with isOld | isLast
      · exact ok.starts found isOld
      · cases List.mem_singleton.mp isLast
        exact ⟨rfl, rfl, rfl, rfl⟩
    called := fun found member isCalled => by
      rcases List.mem_append.mp member with isOld | isLast
      · exact ok.called found isOld isCalled
      · cases List.mem_singleton.mp isLast
        cases isCalled
    last := fun other found at_ current => by
      rw [each at_ current, List.length_append]
      rfl
    runs := fun _ other found at_ current => by rw [each at_ current]
    running := fun other isRunning => by
      cases isRunning
      exact ⟨⟨.waiting, false, false, 0, none⟩, by rw [List.getElem?_concat_length], rfl⟩
    replaced := fun isReplaced => by
      rw [unreplaced] at isReplaced
      cases isReplaced
    held := fun other isHeld => by
      rw [List.length_append]
      exact Nat.lt_add_right 1 (ok.held other isHeld)
    handed := ok.handed
    handover := by
      rw [noHandover]
      trivial }

theorem Module.Ok.hotDispose (ok : module_.Ok) (unreplaced : module_.replaced = false) :
    { module_ with replaced := true, current := module_.running, running := none, handover := some .waiting }.Ok := by
  have noHandover : module_.handover = none := ok.handed.mpr unreplaced
  exact {
    starts := fun found member => by
      have before := ok.starts found member
      cases phase : found.phase with
      | finished started =>
        cases started with
        | true =>
          simp only [StartOk, phase, noHandover] at before ⊢
          exact before
        | false =>
          simp only [StartOk, phase] at before ⊢
          exact before
      | answered started => cases started <;> simpa only [StartOk, phase] using before
      | _ => simpa only [StartOk, phase] using before
    called := ok.called
    last := ok.last
    runs := fun is => by cases is
    running := fun _ is => by cases is
    replaced := fun _ => ⟨rfl, ok.runs unreplaced⟩
    held := fun other isHeld => by
      obtain ⟨found, at_, -⟩ := ok.running other isHeld
      exact (List.getElem?_eq_some_iff.mp at_).1
    handed := by simp
    handover := trivial }

theorem Module.Ok.previousGone (ok : module_.Ok) (unknown : module_.previous = none) (gone : Bool) :
    { module_ with previous := some gone }.Ok := by
  have uncalled : ∀ found ∈ module_.starts, found.called ≠ true := fun found member isCalled => by
    have known := ok.called found member isCalled
    rw [unknown] at known
    cases known
  have handover := ok.handover
  exact {
    starts := ok.starts
    called := fun found member isCalled => absurd isCalled (uncalled found member)
    last := ok.last
    runs := ok.runs
    running := ok.running
    replaced := ok.replaced
    held := ok.held
    handed := ok.handed
    handover := by
      show HandoverOk { module_ with previous := some gone } module_.handover
      cases stage : module_.handover with
      | none => trivial
      | some handover_ =>
        rw [stage] at handover
        cases handover_ with
        | waiting => trivial
        | awaiting current =>
          have known := handover.1
          rw [unknown] at known
          cases known
        | disposing current =>
          have known := handover.1
          rw [unknown] at known
          cases known
        | settled released =>
          refine ⟨fun is => ?_, handover.2⟩
          have known := (handover.1 is).1
          rw [unknown] at known
          cases known }

theorem Module.Ok.handoverSet (ok : module_.Ok) (is : module_.starts[index]? = some start) (isCurrent : start.isCurrent = true)
    (unfinished : start.phase ≠ .finished true) {new : Start} {releaseFailure : Bool}
    (settled : ∀ gone, module_.handover = some (.settled gone) → new.called = true →
      new.isOver = true ∧ (gone = true → new.released = some true)) :
    HandoverOk { module_ with releaseFailure := releaseFailure, starts := module_.starts.set index new } module_.handover := by
  have handover := ok.handover
  cases stage : module_.handover with
  | none => trivial
  | some handover_ =>
    rw [stage] at handover
    cases handover_ with
    | waiting => trivial
    | awaiting current => exact handover
    | disposing current =>
      obtain ⟨-, live, at_, phase⟩ := handover
      by_cases here : current = index
      · subst here
        rw [is] at at_
        cases at_
        exact absurd phase unfinished
      · have past := ok.one is isCurrent at_ here
        rw [phase] at past
        cases past
    | settled gone =>
      refine ⟨fun isGone => ⟨(handover.1 isGone).1, fun found member isCalled => ?_⟩, fun found member isCalled => ?_⟩
      · rcases List.mem_or_eq_of_mem_set member with isOld | rfl
        · exact (handover.1 isGone).2 found isOld isCalled
        · exact (settled gone stage isCalled).2 isGone
      · rcases List.mem_or_eq_of_mem_set member with isOld | rfl
        · exact handover.2 found isOld isCalled
        · exact (settled gone stage isCalled).1

theorem Module.Ok.move (ok : module_.Ok) (is : module_.starts[index]? = some start) (isOn : start.isOver = false) {new : Start}
    {releaseFailure : Bool} (worse : module_.releaseFailure = true → releaseFailure = true)
    (newOk : StartOk { module_ with releaseFailure := releaseFailure } new)
    (called : new.called = true → module_.previous = some true) (newCurrent : new.isCurrent = true)
    (settled : ∀ gone, module_.handover = some (.settled gone) → new.called = false) :
    { module_ with releaseFailure := releaseFailure, starts := module_.starts.set index new }.Ok := by
  have isCurrent : start.isCurrent = true := by
    by_contra past
    have phase : start.phase = .finished false := by simpa [Start.isCurrent] using past
    rw [Start.isOver, phase] at isOn
    cases isOn
  have unfinished : start.phase ≠ .finished true := by
    intro phase
    rw [Start.isOver, phase] at isOn
    cases isOn
  refine ok.set is isCurrent worse newOk called (.inl ⟨rfl, newCurrent⟩) Iff.rfl (ok.handoverSet is isCurrent unfinished ?_)
  intro gone stage isCalled
  rw [settled gone stage] at isCalled
  cases isCalled

theorem Module.Ok.resume (ok : module_.Ok) (is : module_.starts[index]? = some start) (waiting : start.phase = .waiting) {gone : Bool}
    (known : module_.previous = some gone) : (module_.resume index start gone).Ok := by
  have before := ok.starts start (mem_of_at is)
  rw [StartOk, waiting] at before
  obtain ⟨uncalled, unstarted, disposals, released⟩ := before
  have isOn : start.isOver = false := by rw [Start.isOver, waiting]
  unfold Module.resume
  split
  · refine ok.move is isOn id ?_ (fun isCalled => ?_) rfl fun _ _ => uncalled
    · exact .inl ⟨uncalled, unstarted, disposals, released⟩
    · rw [show start.called = true from isCalled] at uncalled
      cases uncalled
  · next allowed =>
    simp only [Bool.or_eq_true, Bool.not_eq_true', not_or, Bool.not_eq_false, Bool.not_eq_true] at allowed
    obtain ⟨⟨isGone, safe⟩, unreplaced⟩ := allowed
    refine ok.move is isOn id ⟨rfl, unstarted, disposals, released, safe⟩ (fun _ => isGone ▸ known) rfl fun released_ stage => ?_
    -- a module that is not replaced has no hand-over
    rw [ok.handed.mpr unreplaced] at stage
    cases stage

theorem Module.Ok.appAnswers (ok : module_.Ok) (is : module_.starts[index]? = some start) (starting : start.phase = .starting)
    (answer : StartAnswer) : (module_.appAnswers index start answer).Ok := by
  have before := ok.starts start (mem_of_at is)
  rw [StartOk, starting] at before
  obtain ⟨called, unstarted, disposals, released, safe⟩ := before
  have isOn : start.isOver = false := by rw [Start.isOver, starting]
  have gone := ok.called start (mem_of_at is) called
  have open_ (new : Start) : ∀ gone, module_.handover = some (.settled gone) → new.called = false := fun gone stage =>
    absurd stage (ok.under_way is called isOn gone)
  unfold Module.appAnswers
  split
  · exact ok.move is isOn id ⟨called, rfl, disposals, released, safe⟩ (fun _ => gone) rfl (open_ _)
  · exact ok.move is isOn id ⟨called, rfl, by rw [disposals], released, safe⟩ (fun _ => gone) rfl (open_ _)
  · next cleanupFailed =>
    refine ok.move is isOn (fun was => by rw [was, Bool.true_or]) ?_ (fun _ => gone) rfl (open_ _)
    refine .inr ⟨called, ?_, ?_⟩
    · simp only [unstarted, disposals, Bool.false_eq_true, if_false]
    · cases cleanupFailed with
      | false => exact .inl rfl
      | true => exact .inr ⟨rfl, Bool.or_true _⟩
  · refine ok.move is isOn (fun _ => rfl) ?_ (fun _ => gone) rfl (open_ _)
    refine .inr ⟨called, ?_, .inr ⟨rfl, rfl⟩⟩
    simp only [unstarted, disposals, Bool.false_eq_true, if_false]

theorem Module.Ok.undone (ok : module_.Ok) (is : module_.starts[index]? = some start) (undoing : start.phase = .undoing)
    (released : Bool) :
    { module_.setStart index { start with phase := .answered false, released := some released } with
      releaseFailure := module_.releaseFailure || !released }.Ok := by
  have before := ok.starts start (mem_of_at is)
  rw [StartOk, undoing] at before
  obtain ⟨called, started, disposals, -, -⟩ := before
  have isOn : start.isOver = false := by rw [Start.isOver, undoing]
  have gone := ok.called start (mem_of_at is) called
  refine ok.move is isOn (fun was => by rw [was, Bool.true_or]) ?_ (fun _ => gone) rfl fun gone stage =>
    absurd stage (ok.under_way is called isOn gone)
  refine .inr ⟨called, ?_, ?_⟩
  · simp only [started, disposals, if_true]
  · cases released with
    | true => exact .inl rfl
    | false => exact .inr ⟨rfl, Bool.or_true _⟩

theorem Module.Ok.finished (ok : module_.Ok) (is : module_.starts[index]? = some start) (phase : start.phase = .answered true) :
    (module_.setStart index { start with phase := .finished true }).Ok := by
  have before := ok.starts start (mem_of_at is)
  rw [StartOk, phase] at before
  obtain ⟨called, started, disposals, released, safe⟩ := before
  have isOn : start.isOver = false := by rw [Start.isOver, phase]
  have open_ (gone : Bool) := ok.under_way is called isOn gone
  refine ok.move is isOn id ⟨called, started, ?_, safe⟩ (fun _ => ok.called start (mem_of_at is) called) rfl
    fun gone stage => absurd stage (open_ gone)
  -- a hand-over that disposes an app has seen its start finish
  have handover := ok.handover
  have isCurrent : start.isCurrent = true := by simp [Start.isCurrent, phase]
  cases stage : module_.handover with
  | none => exact ⟨disposals, released⟩
  | some handover_ =>
    rw [stage] at handover
    cases handover_ with
    | disposing current =>
      obtain ⟨-, live, at_, finished⟩ := handover
      by_cases here : current = index
      · subst here
        rw [is] at at_
        cases at_
        rw [phase] at finished
        cases finished
      · have past := ok.one is isCurrent at_ here
        rw [finished] at past
        cases past
    | settled gone => exact absurd stage (open_ gone)
    | _ => exact ⟨disposals, released⟩

theorem Module.Ok.cleared (ok : module_.Ok) (is : module_.starts[index]? = some start) (phase : start.phase = .answered false) :
    { module_.setStart index { start with phase := .finished false } with running := none }.Ok := by
  have before := ok.starts start (mem_of_at is)
  rw [StartOk, phase] at before
  have isCurrent : start.isCurrent = true := by simp [Start.isCurrent, phase]
  refine ok.set is isCurrent id before (fun isCalled => ok.called start (mem_of_at is) isCalled) (.inr ⟨rfl, rfl⟩) Iff.rfl
    (ok.handoverSet is isCurrent (by simp [phase]) fun gone stage isCalled => ⟨rfl, fun isGone => ?_⟩)
  have handover := ok.handover
  rw [stage] at handover
  exact (handover.1 isGone).2 start (mem_of_at is) isCalled

theorem Module.Ok.isReplaced (ok : module_.Ok) (handing : module_.handover ≠ none) : module_.replaced = true := by
  cases replaced : module_.replaced with
  | true => rfl
  | false => exact absurd (ok.handed.mpr replaced) handing

theorem Module.Ok.hand (ok : module_.Ok) (handing : module_.handover ≠ none) {handover : Handover}
    (live : ∀ start ∈ module_.starts, start.phase = .finished true → start.IsLive module_.handover → start.IsLive (some handover))
    (handoverOk : HandoverOk module_ (some handover)) : { module_ with handover := some handover }.Ok := by
  exact {
    starts := fun found member => by
      have before := ok.starts found member
      cases phase : found.phase with
      | finished started =>
        cases started with
        | true =>
          simp only [StartOk, phase] at before ⊢
          exact ⟨before.1, before.2.1, live found member phase before.2.2.1, before.2.2.2⟩
        | false => simpa only [StartOk, phase] using before
      | answered started => cases started <;> simpa only [StartOk, phase] using before
      | _ => simpa only [StartOk, phase] using before
    called := ok.called
    last := ok.last
    runs := ok.runs
    running := ok.running
    replaced := ok.replaced
    held := ok.held
    handed := by simp [← ok.handed, handing]
    handover := handoverOk }

/-- A replaced module whose last start is over has nothing under way: its hand-over may settle. -/
theorem Module.Ok.settled (ok : module_.Ok) (gone : module_.previous = some true)
    (past : ∀ start ∈ module_.starts, start.phase = .finished false) :
    HandoverOk module_ (some (.settled !module_.releaseFailure)) := by
  have each : ∀ start ∈ module_.starts, start.IsPast module_.releaseFailure := fun start inside => by
    have holds := ok.starts start inside
    rwa [StartOk, past start inside] at holds
  refine ⟨fun safe => ⟨gone, fun start inside isCalled => ?_⟩, fun start inside _ => ?_⟩
  · rcases each start inside with ⟨uncalled, -⟩ | ⟨-, -, released | ⟨-, failed⟩⟩
    · rw [isCalled] at uncalled
      cases uncalled
    · exact released
    · rw [failed] at safe
      cases safe
  · rw [Start.isOver, past start inside]

theorem Module.Ok.handoverResume (ok : module_.Ok) (waiting : module_.handover = some .waiting) {gone : Bool}
    (known : module_.previous = some gone) : { module_ with handover := some (module_.handoverResume gone) }.Ok := by
  have handing : module_.handover ≠ none := by rw [waiting]; exact Option.some_ne_none _
  have isReplaced := ok.isReplaced handing
  cases gone with
  | false =>
    -- nothing was ever called
    have uncalled : ∀ start ∈ module_.starts, start.called ≠ true := fun start inside isCalled => by
      have other := ok.called start inside isCalled
      rw [known] at other
      cases other
    have ended : HandoverOk module_ (some (.settled false)) :=
      ⟨fun is => (by cases is), fun start inside isCalled => absurd isCalled (uncalled start inside)⟩
    refine ok.hand handing (fun start inside phase _ => ?_) ended
    have holds := ok.starts start inside
    rw [StartOk, phase] at holds
    exact absurd holds.1 (uncalled start inside)
  | true =>
    by_cases failed : module_.releaseFailure = true
    · -- a module that knows of a failed release has no start under way
      have over_ : ∀ start ∈ module_.starts, start.called = true → start.isOver = true := fun start inside isCalled => by
        have holds := ok.starts start inside
        cases phase : start.phase with
        | waiting =>
          rw [StartOk, phase] at holds
          rw [isCalled] at holds
          cases holds.1
        | starting => simp only [StartOk, phase, failed, Bool.true_eq_false, and_false] at holds
        | undoing => simp only [StartOk, phase, failed, Bool.true_eq_false, and_false] at holds
        | answered started =>
          cases started with
          | true => simp only [StartOk, phase, failed, Bool.true_eq_false, and_false] at holds
          | false => rw [Start.isOver, phase]
        | finished started => rw [Start.isOver, phase]
      have shape : module_.handoverResume true = .settled false := by simp [Module.handoverResume, failed]
      have ended : HandoverOk module_ (some (.settled false)) := ⟨fun is => (by cases is), over_⟩
      rw [shape]
      refine ok.hand handing (fun start inside phase _ => ?_) ended
      have holds := ok.starts start inside
      simp only [StartOk, phase, failed, Bool.true_eq_false, and_false] at holds
    · by_cases current : module_.current = none
      · have past : ∀ start ∈ module_.starts, start.phase = .finished false := fun start inside => by
          by_contra some_
          obtain ⟨index, is⟩ := List.mem_iff_getElem?.mp inside
          have isCurrent := (ok.replaced isReplaced).2 index start is (by simpa [Start.isCurrent] using some_)
          rw [current] at isCurrent
          cases isCurrent
        have shape : module_.handoverResume true = .settled !module_.releaseFailure := by
          simp [Module.handoverResume, failed, current]
        rw [shape]
        refine ok.hand handing (fun start inside phase _ => ?_) (ok.settled known past)
        rw [past start inside] at phase
        cases phase
      · obtain ⟨index, current⟩ := Option.ne_none_iff_exists'.mp current
        have shape : module_.handoverResume true = .awaiting index := by simp [Module.handoverResume, failed, current]
        have awaited : HandoverOk module_ (some (.awaiting index)) := ⟨known, current⟩
        rw [shape]
        refine ok.hand handing (fun start _ _ live => ?_) awaited
        rwa [waiting] at live

theorem Module.Ok.disposing (ok : module_.Ok) (awaiting : module_.handover = some (.awaiting index))
    (is : module_.starts[index]? = some start) (phase : start.phase = .finished true) :
    { module_.setStart index { start with disposals := start.disposals + 1 } with handover := some (.disposing index) }.Ok := by
  have handing : module_.handover ≠ none := by rw [awaiting]; exact Option.some_ne_none _
  have handover := ok.handover
  rw [awaiting] at handover
  have holds := ok.starts start (mem_of_at is)
  rw [StartOk, phase] at holds
  obtain ⟨called, started, live, safe⟩ := holds
  rw [awaiting] at live
  have isCurrent : start.isCurrent = true := by simp [Start.isCurrent, phase]
  have inside := (List.getElem?_eq_some_iff.mp is).1
  refine ok.set is isCurrent id ?_ (fun _ => handover.1) (.inl ⟨rfl, ?_⟩) (by simp [handing]) ?_
  · simp only [StartOk, phase]
    exact ⟨called, started, ⟨by rw [live.1], live.2⟩, safe⟩
  · simp [Start.isCurrent, phase]
  · exact ⟨handover.1, { start with disposals := start.disposals + 1 }, by rw [List.getElem?_set, if_pos rfl, if_pos inside],
      phase⟩

theorem Module.Ok.failed (ok : module_.Ok) (awaiting : module_.handover = some (.awaiting index))
    (is : module_.starts[index]? = some start) (phase : start.phase = .finished false) :
    { module_ with handover := some (.settled !module_.releaseFailure) }.Ok := by
  have handing : module_.handover ≠ none := by rw [awaiting]; exact Option.some_ne_none _
  have handover := ok.handover
  rw [awaiting] at handover
  have isReplaced := ok.isReplaced handing
  have past : ∀ found ∈ module_.starts, found.phase = .finished false := fun found inside => by
    by_contra some_
    obtain ⟨other, at_⟩ := List.mem_iff_getElem?.mp inside
    have isCurrent := (ok.replaced isReplaced).2 other found at_ (by simpa [Start.isCurrent] using some_)
    rw [handover.2] at isCurrent
    cases isCurrent
    rw [is] at at_
    cases at_
    exact some_ phase
  refine ok.hand handing (fun found inside phase _ => ?_) (ok.settled handover.1 past)
  rw [past found inside] at phase
  cases phase

theorem Module.Ok.disposed (ok : module_.Ok) (disposing : module_.handover = some (.disposing index))
    (is : module_.starts[index]? = some start) (released : Bool) :
    { module_.setStart index { start with released := some released } with handover := some (.settled released) }.Ok := by
  have handing : module_.handover ≠ none := by rw [disposing]; exact Option.some_ne_none _
  have handover := ok.handover
  rw [disposing] at handover
  obtain ⟨gone, live, at_, phase⟩ := handover
  rw [is] at at_
  cases at_
  have holds := ok.starts start (mem_of_at is)
  rw [StartOk, phase] at holds
  obtain ⟨called, started, isLive, safe⟩ := holds
  rw [disposing] at isLive
  have isCurrent : start.isCurrent = true := by simp [Start.isCurrent, phase]
  have inside := (List.getElem?_eq_some_iff.mp is).1
  -- the other starts of the module failed before this one was made
  have others {found : Start} (member : found ∈ module_.starts.set index { start with released := some released })
      (isCalled : found.called = true) :
      found = { start with released := some released } ∨ found.phase = .finished false ∧ found.released = some true := by
    obtain ⟨other, at_⟩ := List.mem_iff_getElem?.mp member
    rw [List.getElem?_set] at at_
    by_cases here : index = other
    · rw [if_pos here, if_pos inside] at at_
      exact .inl (Option.some.inj at_).symm
    · rw [if_neg here] at at_
      have past := ok.one is isCurrent at_ (Ne.symm here)
      have holds := ok.starts found (mem_of_at at_)
      rw [StartOk, past, safe] at holds
      rcases holds with ⟨uncalled, -⟩ | ⟨-, -, released_ | ⟨-, failed⟩⟩
      · rw [isCalled] at uncalled
        cases uncalled
      · exact .inr ⟨past, released_⟩
      · cases failed
  refine ok.set is isCurrent id ?_ (fun _ => gone) (.inl ⟨rfl, ?_⟩) (by simp [handing]) ?_
  · simp only [StartOk, phase]
    exact ⟨called, started, ⟨isLive.1, rfl⟩, safe⟩
  · simp [Start.isCurrent, phase]
  · refine ⟨fun isGone => ⟨gone, fun found member isCalled => ?_⟩, fun found member isCalled => ?_⟩
    · rcases others member isCalled with rfl | ⟨-, released_⟩
      · rw [isGone]
      · exact released_
    · rcases others member isCalled with rfl | ⟨past, -⟩
      · simp only [Start.isOver, phase]
      · simp only [Start.isOver, past]

inductive Effect (module_ : Module) : ModuleAction → Module → Prop where
  | get : Effect module_ .get module_.get
  | hotDispose (unreplaced : module_.replaced = false) : Effect module_ .hotDispose
      { module_ with replaced := true, current := module_.running, running := none, handover := some .waiting }
  | previousGone {gone : Bool} (unknown : module_.previous = none) :
      Effect module_ (.previousGone gone) { module_ with previous := some gone }
  | resume {index : Nat} {start : Start} {gone : Bool} (is : module_.starts[index]? = some start)
      (known : module_.previous = some gone) (phase : start.phase = .waiting) :
      Effect module_ (.resume index) (module_.resume index start gone)
  | appAnswers {index : Nat} {start : Start} {answer : StartAnswer} (is : module_.starts[index]? = some start)
      (phase : start.phase = .starting) : Effect module_ (.appAnswers index answer) (module_.appAnswers index start answer)
  | undone {index : Nat} {start : Start} {released : Bool} (is : module_.starts[index]? = some start)
      (phase : start.phase = .undoing) : Effect module_ (.undone index released)
        { module_.setStart index { start with phase := .answered false, released := some released } with
          releaseFailure := module_.releaseFailure || !released }
  | finished {index : Nat} {start : Start} (is : module_.starts[index]? = some start) (phase : start.phase = .answered true) :
      Effect module_ (.clear index) (module_.setStart index { start with phase := .finished true })
  | cleared {index : Nat} {start : Start} (is : module_.starts[index]? = some start) (phase : start.phase = .answered false) :
      Effect module_ (.clear index) { module_.setStart index { start with phase := .finished false } with running := none }
  | handoverResume {gone : Bool} (waiting : module_.handover = some .waiting) (known : module_.previous = some gone) :
      Effect module_ .handoverResume { module_ with handover := some (module_.handoverResume gone) }
  | disposing {index : Nat} {start : Start} (awaiting : module_.handover = some (.awaiting index))
      (is : module_.starts[index]? = some start) (phase : start.phase = .finished true) : Effect module_ .handoverCurrent
        { module_.setStart index { start with disposals := start.disposals + 1 } with handover := some (.disposing index) }
  | failed {index : Nat} {start : Start} (awaiting : module_.handover = some (.awaiting index))
      (is : module_.starts[index]? = some start) (phase : start.phase = .finished false) :
      Effect module_ .handoverCurrent { module_ with handover := some (.settled !module_.releaseFailure) }
  | disposed {index : Nat} {start : Start} {released : Bool} (disposing : module_.handover = some (.disposing index))
      (is : module_.starts[index]? = some start) : Effect module_ (.handoverDisposed released)
        { module_.setStart index { start with released := some released } with handover := some (.settled released) }

theorem Module.step_effect {action : ModuleAction} (taken : module_.step action = some next) : Effect module_ action next := by
  cases action with
  | get =>
    cases taken
    exact .get
  | hotDispose =>
    simp only [Module.step] at taken
    split at taken
    · cases taken
    · next unreplaced =>
      cases taken
      exact .hotDispose (by simpa using unreplaced)
  | previousGone gone =>
    simp only [Module.step] at taken
    split at taken
    · next unknown =>
      cases taken
      exact .previousGone unknown
    · cases taken
  | resume index =>
    simp only [Module.step] at taken
    split at taken
    · next start gone is known =>
      split at taken
      · next waiting =>
        cases taken
        exact .resume is known waiting
      · cases taken
    · cases taken
  | appAnswers index answer =>
    simp only [Module.step] at taken
    split at taken
    · next start is =>
      split at taken
      · next starting =>
        cases taken
        exact .appAnswers is starting
      · cases taken
    · cases taken
  | undone index released =>
    simp only [Module.step] at taken
    split at taken
    · next start is =>
      split at taken
      · next undoing =>
        cases taken
        exact .undone is undoing
      · cases taken
    · cases taken
  | clear index =>
    simp only [Module.step] at taken
    split at taken
    · next start is =>
      split at taken
      · next phase =>
        cases taken
        exact .finished is phase
      · next phase =>
        cases taken
        exact .cleared is phase
      · cases taken
    · cases taken
  | handoverResume =>
    simp only [Module.step] at taken
    split at taken
    · next gone waiting known =>
      cases taken
      exact .handoverResume waiting known
    · cases taken
  | handoverCurrent =>
    simp only [Module.step] at taken
    split at taken
    · next index awaiting =>
      split at taken
      · next start is =>
        split at taken
        · next phase =>
          cases taken
          exact .disposing awaiting is phase
        · next phase =>
          cases taken
          exact .failed awaiting is phase
        · cases taken
      · cases taken
    · cases taken
  | handoverDisposed released =>
    simp only [Module.step] at taken
    split at taken
    · next index disposing =>
      split at taken
      · next start is =>
        cases taken
        exact .disposed disposing is
      · cases taken
    · cases taken

theorem Effect.ok {action : ModuleAction} (effect : Effect module_ action next) (ok : module_.Ok) : next.Ok := by
  cases effect with
  | get => exact ok.get
  | hotDispose unreplaced => exact ok.hotDispose unreplaced
  | previousGone unknown => exact ok.previousGone unknown _
  | resume is known phase => exact ok.resume is phase known
  | appAnswers is phase => exact ok.appAnswers is phase _
  | undone is phase => exact ok.undone is phase _
  | finished is phase => exact ok.finished is phase
  | cleared is phase => exact ok.cleared is phase
  | handoverResume waiting known => exact ok.handoverResume waiting known
  | disposing awaiting is phase => exact ok.disposing awaiting is phase
  | failed awaiting is phase => exact ok.failed awaiting is phase
  | disposed disposing is => exact ok.disposed disposing is _

end Arki.Dot
