import Mathlib.Logic.Basic

/-! Runs of a labelled partial step function.

A step that is not enabled gives `none`. The rules below turn facts about one
step into facts about every state a run reaches, where a run may be held to
steps that its environment allows.
-/

set_option autoImplicit false

namespace Arki.Run

variable {State Action : Type}

def run (step : State → Action → Option State) : State → List Action → Option State
  | state, [] => some state
  | state, action :: rest => (step state action).bind fun next => run step next rest

/-- The states that allowed steps lead to from `start`. -/
inductive Reach (step : State → Action → Option State) (allowed : State → Action → Prop)
    (start : State) : State → Prop where
  | start : Reach step allowed start start
  | next {state next : State} {action : Action} : Reach step allowed start state →
      allowed state action → step state action = some next → Reach step allowed start next

def always (_ : State) (_ : Action) : Prop := True

theorem run_append (step : State → Action → Option State) (state : State) (first rest : List Action) :
    run step state (first ++ rest) = (run step state first).bind fun next => run step next rest := by
  induction first generalizing state with
  | nil => rfl
  | cons action tail ih =>
    simp only [List.cons_append, run]
    cases step state action with
    | none => rfl
    | some next => exact ih next

variable {step : State → Action → Option State} {allowed : State → Action → Prop} {start : State}

/-- What holds at the start and survives every allowed step holds in every state reached. -/
theorem Reach.invariant {state : State} (reached : Reach step allowed start state) (holds : State → Prop)
    (initial : holds start)
    (preserved : ∀ state action next, holds state → allowed state action →
      step state action = some next → holds next) : holds state := by
  induction reached with
  | start => exact initial
  | next _ permitted taken ih => exact preserved _ _ _ ih permitted taken

theorem Reach.trans {middle final : State} (first : Reach step allowed start middle)
    (rest : Reach step allowed middle final) : Reach step allowed start final := by
  induction rest with
  | start => exact first
  | next _ permitted taken ih => exact .next ih permitted taken

theorem Reach.mono {looser : State → Action → Prop} {state : State}
    (reached : Reach step allowed start state)
    (weaker : ∀ state action, allowed state action → looser state action) :
    Reach step looser start state := by
  induction reached with
  | start => exact .start
  | next _ permitted taken ih => exact .next ih (weaker _ _ permitted) taken

theorem Reach.of_run {actions : List Action} {state : State}
    (ran : run step start actions = some state) : Reach step always start state := by
  induction actions generalizing start with
  | nil =>
    cases ran
    exact .start
  | cons action rest ih =>
    simp only [run, Option.bind_eq_some_iff] at ran
    obtain ⟨next, taken, tail⟩ := ran
    exact Reach.trans (.next .start trivial taken) (ih tail)

def guarded (step : State → Action → Option State) (allowed : State → Action → Prop)
    [∀ state action, Decidable (allowed state action)] (state : State) (action : Action) : Option State :=
  if allowed state action then step state action else none

theorem Reach.of_guarded [∀ state action, Decidable (allowed state action)] {actions : List Action} {state : State}
    (ran : run (guarded step allowed) start actions = some state) : Reach step allowed start state := by
  induction actions generalizing start with
  | nil =>
    cases ran
    exact .start
  | cons action rest ih =>
    simp only [run, Option.bind_eq_some_iff] at ran
    obtain ⟨next, taken, tail⟩ := ran
    simp only [guarded] at taken
    split at taken
    · next permitted => exact Reach.trans (.next .start permitted taken) (ih tail)
    · cases taken

theorem ok_of_toOption {Stopped Answer : Type} {ran : Except Stopped Answer} {answer : Answer}
    (same : ran.toOption = some answer) : ran = .ok answer := by
  cases ran with
  | error _ => cases same
  | ok _ =>
    cases same
    rfl

end Arki.Run
