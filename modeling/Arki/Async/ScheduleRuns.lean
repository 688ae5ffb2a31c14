import Arki.Async.Schedule
import Mathlib

/-! What `debounce` and `throttle` keep over every sequence of calls. -/

set_option autoImplicit false

namespace Arki.Async.Scheduling

open Arki.Run

variable {Args : Type} {options : Schedule} {state : Scheduled Args} {world next : World Args}

section Steps

theorem shouldInvoke_iff {time : Int} :
    state.shouldInvoke options time = true ↔
      ∀ last, state.lastCallTime = some last →
        options.wait ≤ time - last ∨ time < last ∨ ∃ longest, options.longest = some longest ∧ longest ≤ time - state.lastInvokeTime := by
  rw [Scheduled.shouldInvoke]
  cases state.lastCallTime with
  | none => simp
  | some last =>
    have before : time - last < 0 ↔ time < last := by omega
    cases options.longest with
    | none => simp [before]
    | some longest => simp [or_assoc, before]

/-- What a call does: it opens the schedule, it invokes because the longest delay is over, or it only leaves its arguments. -/
theorem called_cases (options : Schedule) (state : Scheduled Args) (time : Int) (args : Args) :
    (state.shouldInvoke options time = true ∧ state.timer = none ∧ state.called options time args =
        (⟨if options.leading then none else some args, some (time + options.wait), some time, time⟩,
          if options.leading then some ⟨time, args⟩ else none)) ∨
      (state.shouldInvoke options time = true ∧ state.timer ≠ none ∧ options.longest ≠ none ∧
        state.called options time args = (⟨none, some (time + options.wait), some time, time⟩, some ⟨time, args⟩)) ∨
      ((state.timer = none → state.shouldInvoke options time = false) ∧ (state.shouldInvoke options time = true → options.longest = none) ∧
        state.called options time args =
          (⟨some args, some (state.timer.getD (time + options.wait)), some time, state.lastInvokeTime⟩, none)) := by
  rw [Scheduled.called]
  by_cases should : state.shouldInvoke options time = true
  · cases timer : state.timer with
    | none =>
      refine .inl ⟨should, rfl, ?_⟩
      cases leads : options.leading <;> simp [should, Scheduled.invoke]
    | some due =>
      cases longest : options.longest with
      | none => exact .inr (.inr ⟨nofun, fun _ => rfl, by simp [should]⟩)
      | some span => exact .inr (.inl ⟨should, by simp, by simp, by simp [should, Scheduled.invoke]⟩)
  · refine .inr (.inr ⟨fun _ => by simpa using should, fun is => absurd is should, ?_⟩)
    simp [should]

/-- What an expiry does: the trailing invocation, the end of the schedule without one, or a new timer. -/
theorem expired_cases (options : Schedule) (state : Scheduled Args) (time : Int) :
    (state.shouldInvoke options time = true ∧ options.trailing = true ∧ ∃ args, state.lastArgs = some args ∧
        state.expired options time = (⟨none, none, state.lastCallTime, time⟩, some ⟨time, args⟩)) ∨
      (state.shouldInvoke options time = true ∧ (options.trailing = true → state.lastArgs = none) ∧
        state.expired options time = (⟨none, none, state.lastCallTime, state.lastInvokeTime⟩, none)) ∨
      (state.shouldInvoke options time = false ∧
        state.expired options time = ({ state with timer := some (time + state.remaining options time) }, none)) := by
  rw [Scheduled.expired]
  by_cases should : state.shouldInvoke options time = true
  · rw [if_pos should, Scheduled.trailingEdge]
    cases held : state.lastArgs with
    | none => exact .inr (.inl ⟨should, fun _ => rfl, by simp⟩)
    | some args =>
      by_cases trails : options.trailing = true
      · exact .inl ⟨should, trails, args, rfl, by simp [trails, Scheduled.invoke]⟩
      · exact .inr (.inl ⟨should, fun is => absurd is trails, by simp [trails]⟩)
  · exact .inr (.inr ⟨by simpa using should, by rw [if_neg should]⟩)

theorem step_call {time : Int} {args : Args} (taken : world.step options (.call time args) = some next) :
    (world.now ≤ time ∧ ∀ due, world.state.timer = some due → time < due) ∧
      next = ⟨time, (world.state.called options time args).1, world.calls ++ [⟨time, args⟩],
        world.invoked ++ (world.state.called options time args).2.toList⟩ := by
  rw [World.step] at taken
  split at taken
  · rename_i allowed
    exact ⟨⟨allowed.1, fun due is => allowed.2 due is⟩, (Option.some.inj taken).symm⟩
  · cases taken

theorem step_expire (taken : world.step options .expire = some next) :
    ∃ due, world.state.timer = some due ∧
      next = ⟨due, (world.state.expired options due).1, world.calls, world.invoked ++ (world.state.expired options due).2.toList⟩ := by
  rw [World.step] at taken
  obtain ⟨due, is, same⟩ := Option.map_eq_some_iff.mp taken
  exact ⟨due, is, same.symm⟩

theorem called_time {time : Int} {args : Args} {call : Call Args} (is : (state.called options time args).2 = some call) : call.time = time := by
  rcases called_cases options state time args with ⟨-, -, same⟩ | ⟨-, -, -, same⟩ | ⟨-, -, same⟩
  · rw [same] at is
    cases leads : options.leading <;> simp [leads] at is
    rw [← is]
  · rw [same] at is
    obtain rfl := Option.some.inj is
    rfl
  · rw [same] at is
    cases is

theorem expired_time {time : Int} {call : Call Args} (is : (state.expired options time).2 = some call) : call.time = time := by
  rcases expired_cases options state time with ⟨-, -, args, -, same⟩ | ⟨-, -, same⟩ | ⟨-, same⟩
  · rw [same] at is
    obtain rfl := Option.some.inj is
    rfl
  · rw [same] at is
    cases is
  · rw [same] at is
    cases is

/-- An expiry that does not end the schedule sets a timer for a later time, at which it ends. -/
theorem remaining_spec {time last : Int} (is : state.lastCallTime = some last) (early : state.shouldInvoke options time = false) :
    0 < state.remaining options time ∧ time + state.remaining options time ≤ last + options.wait ∧
      (options.longest = none → time + state.remaining options time = last + options.wait) ∧
      ∀ timer, ({ state with timer } : Scheduled Args).shouldInvoke options (time + state.remaining options time) = true := by
  have not_ : ¬ state.shouldInvoke options time = true := by simp [early]
  rw [shouldInvoke_iff] at not_
  push Not at not_
  obtain ⟨last', is', soon, _, short⟩ := not_
  obtain rfl : last = last' := Option.some.inj (is.symm.trans is')
  cases longest : options.longest with
  | none =>
    have value : state.remaining options time = options.wait - (time - last) := by
      rw [Scheduled.remaining, is, longest]
      rfl
    rw [value]
    refine ⟨by omega, by omega, fun _ => by omega, fun timer => shouldInvoke_iff.mpr fun last'' same => .inl ?_⟩
    obtain rfl : last = last'' := Option.some.inj (is.symm.trans same)
    omega
  | some span =>
    have room := short span longest
    have value : state.remaining options time =
        min (options.wait - (time - last)) (span - (time - state.lastInvokeTime)) := by
      rw [Scheduled.remaining, is, longest]
      rfl
    rw [value]
    refine ⟨by omega, by omega, by rintro ⟨⟩, fun timer => shouldInvoke_iff.mpr fun last'' same => ?_⟩
    obtain rfl : last = last'' := Option.some.inj (is.symm.trans same)
    by_cases which : options.wait - (time - last) ≤ span - (time - state.lastInvokeTime)
    · exact .inl (by omega)
    · refine .inr (.inr ⟨span, longest, ?_⟩)
      simp only
      omega

end Steps

section Clocked

structure Clocked (options : Schedule) (world : World Args) : Prop where
  timed : ∀ due, world.state.timer = some due → world.now ≤ due ∧ ∃ last, world.state.lastCallTime = some last ∧ due ≤ last + options.wait
  last : world.state.lastCallTime = world.calls.getLast?.map Call.time
  past : ∀ call ∈ world.calls, call.time ≤ world.now
  answered : ∀ call ∈ world.invoked, call.time ≤ world.now
  silent : world.calls = [] → world.invoked = []
  args : ∀ args, world.state.lastArgs = some args → world.state.timer ≠ none ∧ world.calls.getLast?.map Call.args = some args

theorem Clocked.start (options : Schedule) (now : Int) : Clocked options (World.start now : World Args) where
  timed _ is := by cases is
  last := rfl
  past := by simp [World.start]
  answered := by simp [World.start]
  silent _ := rfl
  args _ is := by cases is

theorem Clocked.lastCall (clocked : Clocked options world) {last : Int} (is : world.state.lastCallTime = some last) : last ≤ world.now := by
  rw [clocked.last] at is
  obtain ⟨call, at_, rfl⟩ := Option.map_eq_some_iff.mp is
  exact clocked.past call (List.mem_of_getLast? at_)

theorem Clocked.step (positive : 1 ≤ options.wait) (clocked : Clocked options world) {action : Action Args}
    (taken : world.step options action = some next) : Clocked options next := by
  cases action with
  | call time args =>
    obtain ⟨⟨later, early⟩, rfl⟩ := step_call taken
    have past : ∀ call ∈ world.calls ++ [⟨time, args⟩], call.time ≤ time := by
      intro call held
      rcases List.mem_append.mp held with held | held
      · exact (clocked.past call held).trans later
      · obtain rfl := List.mem_singleton.mp held
        exact le_refl _
    have answered : ∀ call ∈ world.invoked ++ (world.state.called options time args).2.toList, call.time ≤ time := by
      intro call held
      rcases List.mem_append.mp held with held | held
      · exact (clocked.answered call held).trans later
      · exact (called_time (Option.mem_toList.mp held)).le
    rcases called_cases options world.state time args with ⟨-, -, is⟩ | ⟨-, -, -, is⟩ | ⟨-, -, is⟩
    · rw [is] at answered ⊢
      refine ⟨fun due same => ?_, by simp, past, answered, by simp, fun args' same => ?_⟩
      · obtain rfl := Option.some.inj same
        exact ⟨by simp only; omega, time, rfl, le_refl _⟩
      · refine ⟨nofun, ?_⟩
        cases leads : options.leading <;> simp [leads] at same ⊢
        exact same
    · rw [is] at answered ⊢
      refine ⟨fun due same => ?_, by simp, past, answered, by simp, nofun⟩
      obtain rfl := Option.some.inj same
      exact ⟨by simp only; omega, time, rfl, le_refl _⟩
    · rw [is] at answered ⊢
      refine ⟨fun due same => ?_, by simp, past, answered, by simp, fun args' same => ⟨nofun, by simpa using same⟩⟩
      obtain rfl := Option.some.inj same
      cases timer : world.state.timer with
      | none => exact ⟨by simp only [Option.getD_none]; omega, time, rfl, le_refl _⟩
      | some due =>
        obtain ⟨-, last, is, bound⟩ := clocked.timed due timer
        have before := clocked.lastCall is
        exact ⟨(early due timer).le, time, rfl, by simp only [Option.getD_some]; omega⟩
  | expire =>
    obtain ⟨due, timer, rfl⟩ := step_expire taken
    obtain ⟨reached, last, isLast, -⟩ := clocked.timed due timer
    have past : ∀ call ∈ world.calls, call.time ≤ due := fun call held => (clocked.past call held).trans reached
    have called : world.calls ≠ [] := by
      intro none_
      rw [clocked.last, none_] at isLast
      cases isLast
    have answered : ∀ call ∈ world.invoked ++ (world.state.expired options due).2.toList, call.time ≤ due := by
      intro call held
      rcases List.mem_append.mp held with held | held
      · exact (clocked.answered call held).trans reached
      · exact (expired_time (Option.mem_toList.mp held)).le
    rcases expired_cases options world.state due with ⟨-, -, args, held, is⟩ | ⟨-, -, is⟩ | ⟨early, is⟩
    · rw [is] at answered ⊢
      exact ⟨nofun, clocked.last, past, answered, fun none_ => absurd none_ called, nofun⟩
    · rw [is] at answered ⊢
      exact ⟨nofun, clocked.last, past, answered, fun none_ => absurd none_ called, nofun⟩
    · rw [is] at answered ⊢
      obtain ⟨ahead, bound, -, -⟩ := remaining_spec isLast early
      refine ⟨fun due' same => ?_, clocked.last, past, answered, fun none_ => absurd none_ called, fun args same => ⟨nofun, (clocked.args args same).2⟩⟩
      obtain rfl := Option.some.inj same
      exact ⟨by simp only; omega, last, isLast, bound⟩

theorem Clocked.reach (positive : 1 ≤ options.wait) {allowed : World Args → Action Args → Prop} {now : Int}
    (reached : Reach (World.step options) allowed (World.start now) world) : Clocked options world :=
  reached.invariant _ (.start options now) fun _ _ _ clocked _ taken => clocked.step positive taken

theorem Clocked.settles (clocked : Clocked options world) :
    ∃ final, Reach (World.step options) (fun _ action => action = .expire) world final ∧ final.IsQuiet ∧ final.calls = world.calls := by
  -- A timer at whose time the schedule invokes ends it.
  have ends : ∀ world : World Args, ∀ due, world.state.timer = some due → world.state.shouldInvoke options due = true →
      ∃ final, Reach (World.step options) (fun _ action => action = .expire) world final ∧ final.IsQuiet ∧ final.calls = world.calls := by
    intro world due timer should
    have taken : world.step options .expire = some ⟨due, (world.state.expired options due).1, world.calls,
        world.invoked ++ (world.state.expired options due).2.toList⟩ := by
      rw [World.step, timer]
      rfl
    refine ⟨_, .next .start rfl taken, ?_, rfl⟩
    rcases expired_cases options world.state due with ⟨-, -, args, -, is⟩ | ⟨-, -, is⟩ | ⟨early, -⟩
    · rw [World.IsQuiet, is]
    · rw [World.IsQuiet, is]
    · rw [early] at should
      cases should
  cases timer : world.state.timer with
  | none => exact ⟨world, .start, timer, rfl⟩
  | some due =>
    by_cases should : world.state.shouldInvoke options due = true
    · exact ends world due timer should
    · have early : world.state.shouldInvoke options due = false := by simpa using should
      obtain ⟨-, last, isLast, -⟩ := clocked.timed due timer
      have taken : world.step options .expire = some ⟨due, (world.state.expired options due).1, world.calls,
          world.invoked ++ (world.state.expired options due).2.toList⟩ := by
        rw [World.step, timer]
        rfl
      have is : world.state.expired options due = ({ world.state with timer := some (due + world.state.remaining options due) }, none) := by
        rw [Scheduled.expired, if_neg should]
      rw [is] at taken
      let again : Scheduled Args := { world.state with timer := some (due + world.state.remaining options due) }
      obtain ⟨final, reached, quiet, same⟩ := ends ⟨due, again, world.calls, world.invoked ++ (none : Option (Call Args)).toList⟩ _ rfl
        ((remaining_spec isLast early).2.2.2 _)
      exact ⟨final, .trans (.next .start rfl taken) reached, quiet, same⟩

end Clocked

end Arki.Async.Scheduling
