import Arki.Dot.RuntimeModule

/-! At most one live app over a chain of modules, in every order of their calls, callbacks, starts and disposals. -/

set_option autoImplicit false

namespace Arki.Dot

open Arki.Run

variable {module_ next : Module} {action : ModuleAction} {index : Nat} {start : Start}

/-- What `start` finds when it calls the app. -/
structure Calls (module_ : Module) (index : Nat) : Prop where
  gone : module_.previous = some true
  safe : module_.releaseFailure = false
  unreplaced : module_.replaced = false
  waiting : ∃ start, module_.starts[index]? = some start ∧ start.phase = .waiting

/-- A start keeps its place; it is called by `start` alone, and a failed release stays known. -/
theorem Effect.kept (effect : Effect module_ action next) (ok : module_.Ok) (is : module_.starts[index]? = some start) :
    ∃ new, next.starts[index]? = some new ∧ (start.released = some false → new.released = some false) ∧
      (new.called = start.called ∨ Calls module_ index) := by
  have same : ∃ new, module_.starts[index]? = some new ∧ (start.released = some false → new.released = some false) ∧
      (new.called = start.called ∨ Calls module_ index) := ⟨start, is, id, .inl rfl⟩
  have set {other : Nat} {old new : Start} (was : module_.starts[other]? = some old)
      (released : old.released = some false → new.released = some false)
      (called : new.called = old.called ∨ Calls module_ other) :
      ∃ new', (module_.starts.set other new)[index]? = some new' ∧ (start.released = some false → new'.released = some false) ∧
        (new'.called = start.called ∨ Calls module_ index) := by
    by_cases here : other = index
    · subst here
      rw [is] at was
      cases was
      exact ⟨new, by rw [List.getElem?_set, if_pos rfl, if_pos (List.getElem?_eq_some_iff.mp is).1], released, called⟩
    · exact ⟨start, by rw [List.getElem?_set, if_neg here, is], id, .inl rfl⟩
  cases effect with
  | get =>
    unfold Module.get
    split
    · exact same
    · split
      · exact same
      · exact ⟨start, by rw [List.getElem?_append_left (List.getElem?_eq_some_iff.mp is).1, is], id, .inl rfl⟩
  | hotDispose | previousGone | handoverResume | failed => exact same
  | resume was known phase =>
    unfold Module.resume
    split
    · exact set was id (.inl rfl)
    · next allowed =>
      simp only [Bool.or_eq_true, Bool.not_eq_true', not_or, Bool.not_eq_false, Bool.not_eq_true] at allowed
      obtain ⟨⟨isGone, safe⟩, unreplaced⟩ := allowed
      exact set was id (.inr ⟨isGone ▸ known, safe, unreplaced, _, was, phase⟩)
  | @appAnswers _ old _ was phase =>
    have unknown := ok.starts _ (mem_of_at was)
    rw [StartOk, phase] at unknown
    have released (new : Option Bool) (known : old.released = some false) : new = some false := by
      rw [unknown.2.2.2.1] at known
      cases known
    unfold Module.appAnswers
    split <;> exact set was (released _) (.inl rfl)
  | undone was phase =>
    have unknown := ok.starts _ (mem_of_at was)
    rw [StartOk, phase] at unknown
    refine set was (fun known => ?_) (.inl rfl)
    rw [unknown.2.2.2.1] at known
    cases known
  | finished was | cleared was | disposing _ was => exact set was id (.inl rfl)
  | disposed disposing was =>
    have handover := ok.handover
    rw [disposing] at handover
    obtain ⟨-, live, at_, phase⟩ := handover
    rw [was] at at_
    cases at_
    have unknown := ok.starts _ (mem_of_at was)
    rw [StartOk, phase, disposing] at unknown
    refine set was (fun known => ?_) (.inl rfl)
    rw [unknown.2.2.1.2] at known
    cases known

theorem Effect.fresh (effect : Effect module_ action next) (absent : module_.starts[index]? = none)
    (is : next.starts[index]? = some start) : start.called = false := by
  have outside := List.getElem?_eq_none_iff.mp absent
  have gone {other : Nat} {new : Start} (at_ : (module_.starts.set other new)[index]? = some start) : start.called = false := by
    have inside := (List.getElem?_eq_some_iff.mp at_).1
    rw [List.length_set] at inside
    omega
  have none_ (at_ : module_.starts[index]? = some start) : start.called = false := by
    rw [absent] at at_
    cases at_
  cases effect with
  | get =>
    unfold Module.get at is
    split at is
    · exact none_ is
    · split at is
      · exact none_ is
      · rw [List.getElem?_append_right outside] at is
        have place := (List.getElem?_eq_some_iff.mp is).2
        rw [List.getElem_singleton] at place
        rw [← place]
  | hotDispose | previousGone | handoverResume | failed => exact none_ is
  | resume =>
    unfold Module.resume at is
    split at is <;> exact gone is
  | appAnswers =>
    unfold Module.appAnswers at is
    split at is <;> exact gone is
  | undone | finished | cleared | disposing | disposed => exact gone is

theorem Effect.previous (effect : Effect module_ action next) {gone : Bool} (known : next.previous = some gone) :
    module_.previous = some gone ∨ action = .previousGone gone := by
  cases effect with
  | previousGone =>
    cases known
    exact .inr rfl
  | get =>
    unfold Module.get at known
    split at known
    · exact .inl known
    · split at known <;> exact .inl known
  | resume =>
    unfold Module.resume at known
    split at known <;> exact .inl known
  | appAnswers =>
    unfold Module.appAnswers at known
    split at known <;> exact .inl known
  | _ => exact .inl known

theorem Effect.replaced (effect : Effect module_ action next) (isReplaced : module_.replaced = true) : next.replaced = true := by
  cases effect with
  | get =>
    unfold Module.get
    rw [if_pos isReplaced]
    exact isReplaced
  | hotDispose => rfl
  | resume =>
    unfold Module.resume
    split <;> exact isReplaced
  | appAnswers =>
    unfold Module.appAnswers
    split <;> exact isReplaced
  | _ => exact isReplaced

theorem Effect.settled (effect : Effect module_ action next) (ok : module_.Ok) {gone : Bool}
    (settled : module_.handover = some (.settled gone)) : next.handover = some (.settled gone) := by
  cases effect with
  | get =>
    unfold Module.get
    split
    · exact settled
    · split <;> exact settled
  | hotDispose unreplaced =>
    rw [ok.handed.mpr unreplaced] at settled
    cases settled
  | resume =>
    unfold Module.resume
    split <;> exact settled
  | appAnswers =>
    unfold Module.appAnswers
    split <;> exact settled
  | handoverResume other | disposing other | failed other | disposed other =>
    rw [other] at settled
    cases settled
  | _ => exact settled

variable {modules later : List Module}

structure Linked (modules : List Module) : Prop where
  ok : ∀ module_ ∈ modules, module_.Ok
  replaced : ∀ index module_, modules[index]? = some module_ → index + 1 < modules.length → module_.replaced = true
  left : ∀ index module_ gone, modules[index]? = some module_ → module_.previous = some gone → left modules index = some gone

theorem Linked.okAt (linked : Linked modules) (here : modules[index]? = some module_) : module_.Ok :=
  linked.ok module_ (List.mem_of_getElem? here)

def created (eager : Bool) : Module := if eager then Module.new.get else Module.new

theorem created_ok (eager : Bool) : (created eager).Ok := by
  cases eager with
  | true => exact Module.Ok.new.get
  | false => exact Module.Ok.new

theorem created_previous (eager : Bool) : (created eager).previous = none := by cases eager <;> rfl

theorem created_uncalled (eager : Bool) (start : Start) (inside : start ∈ (created eager).starts) : start.called = false := by
  cases eager with
  | true =>
    cases List.mem_singleton.mp inside
    rfl
  | false => cases inside

inductive ChainEffect (modules : List Module) : Action → List Module → Prop where
  | created (eager : Bool) (replaced : ∀ index module_, modules[index]? = some module_ → index + 1 = modules.length →
      module_.replaced = true) : ChainEffect modules (.create eager) (modules ++ [created eager])
  | moved {index : Nat} {module_ next : Module} {action : ModuleAction} (here : modules[index]? = some module_)
      (effect : Effect module_ action next) (previous : ∀ gone, action = .previousGone gone → left modules index = some gone) :
      ChainEffect modules (.at_ index action) (modules.set index next)

theorem step_effect {action : Action} (taken : step modules action = some later) : ChainEffect modules action later := by
  cases action with
  | create eager =>
    simp only [step] at taken
    split at taken
    · next replaced =>
      cases taken
      refine .created eager fun index module_ here isLast => ?_
      rw [List.getLast?_eq_getElem?, show modules.length - 1 = index by omega, here] at replaced
      exact replaced
    · cases taken
  | at_ index action =>
    simp only [step] at taken
    split at taken
    · cases taken
    next module_ here =>
    split at taken
    · next gone =>
      split at taken
      · next isLeft =>
        obtain ⟨moved, moves, rfl⟩ := Option.map_eq_some_iff.mp taken
        refine .moved here (Module.step_effect moves) fun other is => ?_
        cases is
        exact isLeft
      · cases taken
    · next other =>
      obtain ⟨moved, moves, rfl⟩ := Option.map_eq_some_iff.mp taken
      exact .moved here (Module.step_effect moves) fun gone is => absurd is (other gone)

theorem Linked.left_stays (linked : Linked modules) {action : Action} (effect : ChainEffect modules action later) {gone : Bool}
    (isLeft : Dot.left modules index = some gone) : Dot.left later index = some gone := by
  cases index with
  | zero => exact isLeft
  | succ index =>
    simp only [Dot.left] at isLeft ⊢
    split at isLeft
    · next outcome settled =>
      cases isLeft
      obtain ⟨module_, here, ended⟩ := Option.bind_eq_some_iff.mp settled
      cases effect with
      | created => rw [List.getElem?_append_left (List.getElem?_eq_some_iff.mp here).1, here, Option.bind_some, ended]
      | @moved other old next _ was effect previous =>
        by_cases same : other = index
        · subst same
          rw [here] at was
          cases was
          have stays := effect.settled (linked.okAt here) ended
          rw [List.getElem?_set, if_pos rfl, if_pos (List.getElem?_eq_some_iff.mp here).1, Option.bind_some, stays]
        · rw [List.getElem?_set, if_neg same, here, Option.bind_some, ended]
    · cases isLeft

theorem Linked.step (linked : Linked modules) {action : Action} (effect : ChainEffect modules action later) : Linked later := by
  have stays {index : Nat} {gone : Bool} (isLeft : Dot.left modules index = some gone) : Dot.left later index = some gone :=
    linked.left_stays effect isLeft
  cases effect with
  | created eager replaced =>
    have at_ {index : Nat} {module_ : Module} (here : (modules ++ [created eager])[index]? = some module_) :
        modules[index]? = some module_ ∨ index = modules.length ∧ module_ = created eager := by
      rw [List.getElem?_append] at here
      split at here
      · exact .inl here
      · next outside =>
        have inside := (List.getElem?_eq_some_iff.mp here).1
        rw [List.length_singleton] at inside
        rw [show index - modules.length = 0 by omega] at here
        cases here
        exact .inr ⟨by omega, rfl⟩
    exact {
      ok := fun module_ inside => by
        rcases List.mem_append.mp inside with isOld | isLast
        · exact linked.ok module_ isOld
        · cases List.mem_singleton.mp isLast
          exact created_ok eager
      replaced := fun index module_ here below => by
        rw [List.length_append, List.length_singleton] at below
        rcases at_ here with here | ⟨isLast, -⟩
        · by_cases isLast : index + 1 = modules.length
          · exact replaced index module_ here isLast
          · exact linked.replaced index module_ here (by omega)
        · omega
      left := fun index module_ gone here known => by
        rcases at_ here with here | ⟨-, rfl⟩
        · exact stays (linked.left index module_ gone here known)
        · rw [created_previous] at known
          cases known }
  | @moved moving old next _ was effect previous =>
    have at_ {index : Nat} {module_ : Module} (here : (modules.set moving next)[index]? = some module_) :
        index = moving ∧ module_ = next ∨ modules[index]? = some module_ := by
      rw [List.getElem?_set] at here
      split at here
      · next same =>
        rw [if_pos (List.getElem?_eq_some_iff.mp was).1] at here
        exact .inl ⟨same.symm, (Option.some.inj here).symm⟩
      · exact .inr here
    exact {
      ok := fun module_ inside => by
        rcases List.mem_or_eq_of_mem_set inside with isOld | rfl
        · exact linked.ok module_ isOld
        · exact effect.ok (linked.okAt was)
      replaced := fun index module_ here below => by
        rw [List.length_set] at below
        rcases at_ here with ⟨rfl, rfl⟩ | here
        · exact effect.replaced (linked.replaced index old was below)
        · exact linked.replaced index module_ here below
      left := fun index module_ gone here known => by
        rcases at_ here with ⟨rfl, rfl⟩ | here
        · rcases effect.previous known with known | action
          · exact stays (linked.left index old gone was known)
          · exact stays (previous gone action)
        · exact stays (linked.left index module_ gone here known) }

theorem Linked.reached (reached : Reach Dot.step always [] modules) : Linked modules :=
  reached.invariant Linked ⟨fun _ inside => (by cases inside), fun _ _ here => (by cases here), fun _ _ _ here => (by cases here)⟩
    fun _ _ _ linked _ taken => linked.step (step_effect taken)

/-- A module that found its predecessor gone has only modules before it that are gone. -/
theorem Linked.gone (linked : Linked modules) {before : Nat} {earlier : Module} (below : before < index)
    (was : modules[before]? = some earlier) (here : modules[index]? = some module_) (known : module_.previous = some true) :
    earlier.handover = some (.settled true) := by
  induction index generalizing module_ with
  | zero => omega
  | succ index ih =>
    have isLeft := linked.left (index + 1) module_ true here known
    simp only [Dot.left] at isLeft
    split at isLeft
    · next outcome settled =>
      cases isLeft
      obtain ⟨previous, at_, settled⟩ := Option.bind_eq_some_iff.mp settled
      by_cases same : before = index
      · subst same
        rw [was] at at_
        cases at_
        exact settled
      · have handover := (linked.okAt at_).handover
        rw [settled] at handover
        exact ih (by omega) at_ (handover.1 rfl).1
    · cases isLeft

end Arki.Dot
