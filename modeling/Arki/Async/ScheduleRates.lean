import Arki.Async.ScheduleRuns

/-! The rate of a throttled function, and which calls a scheduled function answers. -/

set_option autoImplicit false

namespace Arki.Async.Scheduling

open Arki.Run

variable {Args : Type} {options : Schedule} {world next : World Args}

section Rate

/-- The calls that a function throttled at both edges may get: one that starts over, `wait` or more after the call before it, while no
timer runs, is not less than `wait` after an invocation. -/
def Spaced (options : Schedule) (world : World Args) : Action Args → Prop
  | .expire => True
  | .call time _ =>
    options.leading = true → options.trailing = true → world.state.timer = none →
      (∀ last, world.calls.getLast? = some last → last.time + options.wait ≤ time) →
        ∀ before ∈ world.invoked, before.time + options.wait ≤ time

/-- No two invocations in one window of `wait`, and where they lie before the last call and the last edge. -/
structure Rate (options : Schedule) (world : World Args) : Prop where
  apart : world.invoked.Pairwise fun first second => first.time + options.wait ≤ second.time
  edge : ∀ before ∈ world.invoked, before.time ≤ world.state.lastInvokeTime
  fresh : world.state.lastArgs ≠ none → ∀ before ∈ world.invoked, ∀ last, world.state.lastCallTime = some last → before.time ≤ last
  leading : options.trailing = false → ∀ last, world.state.lastCallTime = some last → world.state.lastInvokeTime ≤ last

theorem Rate.start (options : Schedule) (now : Int) : Rate options (World.start now : World Args) where
  apart := .nil
  edge _ held := by cases held
  fresh _ _ held := by cases held
  leading _ _ is := by cases is

theorem apart_append {wait : Int} {invoked : List (Call Args)} (call : Call Args)
    (apart : invoked.Pairwise fun first second => first.time + wait ≤ second.time) (far : ∀ before ∈ invoked, before.time + wait ≤ call.time) :
    (invoked ++ [call]).Pairwise fun first second => first.time + wait ≤ second.time := by
  rw [List.pairwise_append]
  refine ⟨apart, List.pairwise_singleton _ _, fun before held call' is => ?_⟩
  obtain rfl := List.mem_singleton.mp is
  exact far before held

theorem Rate.step (longest : options.longest = some options.wait) (clocked : Clocked options world)
    (rate : Rate options world) {action : Action Args} (allowed : Spaced options world action) (taken : world.step options action = some next) :
    Rate options next := by
  cases action with
  | call time args =>
    obtain ⟨⟨later, early⟩, rfl⟩ := step_call taken
    -- An invocation by this call keeps its distance, whichever reason the schedule has for it.
    have past : ∀ last, world.state.lastCallTime = some last → last ≤ time := fun last is => (clocked.lastCall is).trans later
    have far : world.state.shouldInvoke options time = true → (world.state.timer = none → options.leading = true) →
        ∀ before ∈ world.invoked, before.time + options.wait ≤ time := by
      intro should leads before held
      cases isLast : world.state.lastCallTime with
      | none =>
        have none_ : world.calls = [] := by simpa [clocked.last] using isLast
        rw [clocked.silent none_] at held
        cases held
      | some last =>
        have edge := rate.edge before held
        rcases shouldInvoke_iff.mp should last isLast with since | since | ⟨span, same, since⟩
        · cases timer : world.state.timer with
          | some due =>
            obtain ⟨-, last', is', bound⟩ := clocked.timed due timer
            obtain rfl : last = last' := Option.some.inj (isLast.symm.trans is')
            have soon := early due timer
            omega
          | none =>
            by_cases trails : options.trailing = true
            · refine allowed (leads timer) trails timer (fun call at_ => ?_) before held
              rw [clocked.last, at_] at isLast
              obtain rfl := Option.some.inj isLast
              omega
            · have bound := rate.leading (by simpa using trails) last isLast
              omega
        · have before_ := past last isLast
          omega
        · obtain rfl : options.wait = span := Option.some.inj (longest.symm.trans same)
          omega
    have past' : ∀ before ∈ world.invoked, before.time ≤ time := fun before held => (clocked.answered before held).trans later
    rcases called_cases options world.state time args with ⟨should, timer, is⟩ | ⟨should, timer, -, is⟩ | ⟨idle, -, is⟩
    · rw [is]
      cases leads : options.leading with
      | true =>
        have apart := apart_append ⟨time, args⟩ rate.apart (far should fun _ => leads)
        refine ⟨apart, fun before held => ?_, fun some_ => absurd rfl some_, fun _ last same => (Option.some.inj same).le⟩
        rcases List.mem_append.mp held with held | held
        · exact past' before held
        · obtain rfl := List.mem_singleton.mp held
          exact le_refl _
      | false =>
        simp only [Bool.false_eq_true, if_false, Option.toList_none, List.append_nil]
        refine ⟨rate.apart, past', fun _ before held last same => ?_, fun _ last same => (Option.some.inj same).le⟩
        obtain rfl := Option.some.inj same
        exact past' before held
    · rw [is]
      have apart := apart_append ⟨time, args⟩ rate.apart (far should fun none_ => absurd none_ timer)
      refine ⟨apart, fun before held => ?_, fun some_ => absurd rfl some_, fun _ last same => (Option.some.inj same).le⟩
      rcases List.mem_append.mp held with held | held
      · exact past' before held
      · obtain rfl := List.mem_singleton.mp held
        exact le_refl _
    · rw [is]
      simp only [Option.toList_none, List.append_nil]
      refine ⟨rate.apart, rate.edge, fun _ before held last same => ?_, fun trails last same => ?_⟩
      · obtain rfl := Option.some.inj same
        exact past' before held
      · obtain rfl := Option.some.inj same
        cases isLast : world.state.lastCallTime with
        | none =>
          -- A timer runs only after a call, and the first call starts over.
          have first : world.state.shouldInvoke options time = true := shouldInvoke_iff.mpr fun last is => by rw [isLast] at is; cases is
          cases timer : world.state.timer with
          | none =>
            rw [idle timer] at first
            cases first
          | some due =>
            obtain ⟨-, last, is, -⟩ := clocked.timed due timer
            rw [isLast] at is
            cases is
        | some last => exact (rate.leading trails last isLast).trans (past last isLast)
  | expire =>
    obtain ⟨due, timer, rfl⟩ := step_expire taken
    obtain ⟨reached, last, isLast, -⟩ := clocked.timed due timer
    have last_ := clocked.lastCall isLast
    rcases expired_cases options world.state due with ⟨should, trails, args, held, is⟩ | ⟨-, -, is⟩ | ⟨-, is⟩
    · rw [is]
      have far : ∀ before ∈ world.invoked, before.time + options.wait ≤ due := by
        intro before member
        have edge := rate.edge before member
        have fresh := rate.fresh (by simp [held]) before member last isLast
        rcases shouldInvoke_iff.mp should last isLast with since | since | ⟨span, same, since⟩
        · omega
        · omega
        · obtain rfl : options.wait = span := Option.some.inj (longest.symm.trans same)
          omega
      refine ⟨apart_append ⟨due, args⟩ rate.apart far, fun before member => ?_, fun some_ => absurd rfl some_, fun none_ => ?_⟩
      · rcases List.mem_append.mp member with member | member
        · exact (clocked.answered before member).trans reached
        · obtain rfl := List.mem_singleton.mp member
          exact le_refl _
      · rw [trails] at none_
        cases none_
    · rw [is]
      simp only [Option.toList_none, List.append_nil]
      exact ⟨rate.apart, rate.edge, fun some_ => absurd rfl some_, rate.leading⟩
    · rw [is]
      simp only [Option.toList_none, List.append_nil]
      exact ⟨rate.apart, rate.edge, rate.fresh, rate.leading⟩

theorem Rate.reach (positive : 1 ≤ options.wait) (longest : options.longest = some options.wait) {now : Int}
    (reached : Reach (World.step options) (Spaced options) (World.start now) world) : Rate options world := by
  have both : Clocked options world ∧ Rate options world := by
    refine reached.invariant (fun world => Clocked options world ∧ Rate options world) ⟨.start options now, .start options now⟩ ?_
    intro world action next kept allowed taken
    exact ⟨kept.1.step positive taken, kept.2.step longest kept.1 allowed taken⟩
  exact both.2

end Rate

section Heard

/-- With a trailing edge: unless arguments still wait for it, the last call was answered, and nothing called later than it. -/
structure Heard (world : World Args) : Prop where
  last : world.state.lastArgs = none → world.calls.getLast?.map Call.args = world.invoked.getLast?.map Call.args
  later : world.state.lastArgs = none → ∀ call ∈ world.calls, ∃ answer ∈ world.invoked, call.time ≤ answer.time

theorem Heard.start (now : Int) : Heard (World.start now : World Args) where
  last _ := rfl
  later _ _ held := by cases held

theorem Heard.step (trails : options.trailing = true) (clocked : Clocked options world) (heard : Heard world) {action : Action Args}
    (taken : world.step options action = some next) : Heard next := by
  cases action with
  | call time args =>
    obtain ⟨⟨later, -⟩, rfl⟩ := step_call taken
    -- A call that is answered at once is the last one, at the latest time.
    have now : ∀ call ∈ world.calls ++ [⟨time, args⟩], ∃ answer ∈ world.invoked ++ [(⟨time, args⟩ : Call Args)], call.time ≤ answer.time := by
      intro call held
      refine ⟨⟨time, args⟩, by simp, ?_⟩
      rcases List.mem_append.mp held with held | held
      · exact (clocked.past call held).trans later
      · obtain rfl := List.mem_singleton.mp held
        exact le_refl _
    rcases called_cases options world.state time args with ⟨-, -, is⟩ | ⟨-, -, -, is⟩ | ⟨-, -, is⟩
    · rw [is]
      cases leads : options.leading with
      | true => exact ⟨fun _ => by simp, fun _ => now⟩
      | false => exact ⟨nofun, nofun⟩
    · rw [is]
      exact ⟨fun _ => by simp, fun _ => now⟩
    · rw [is]
      exact ⟨nofun, nofun⟩
  | expire =>
    obtain ⟨due, timer, rfl⟩ := step_expire taken
    obtain ⟨reached, -⟩ := clocked.timed due timer
    rcases expired_cases options world.state due with ⟨-, -, args, held, is⟩ | ⟨-, none_, is⟩ | ⟨-, is⟩
    · rw [is]
      refine ⟨fun _ => ?_, fun _ call member => ⟨⟨due, args⟩, by simp, (clocked.past call member).trans reached⟩⟩
      simp only [Option.toList_some, List.getLast?_append, List.getLast?_singleton, Option.some_or, Option.map_some]
      exact (clocked.args args held).2
    · rw [is]
      simp only [Option.toList_none, List.append_nil]
      exact ⟨fun _ => heard.last (none_ trails), fun _ => heard.later (none_ trails)⟩
    · rw [is]
      simp only [Option.toList_none, List.append_nil]
      exact ⟨heard.last, heard.later⟩

theorem Heard.reach (positive : 1 ≤ options.wait) (trails : options.trailing = true) {allowed : World Args → Action Args → Prop} {now : Int}
    (reached : Reach (World.step options) allowed (World.start now) world) : Clocked options world ∧ Heard world := by
  refine reached.invariant (fun world => Clocked options world ∧ Heard world) ⟨.start options now, .start now⟩ ?_
  intro world action next kept _ taken
  exact ⟨kept.1.step positive taken, kept.2.step trails kept.1 taken⟩

theorem Clocked.quiet_args (clocked : Clocked options world) (quiet : world.IsQuiet) : world.state.lastArgs = none := by
  cases held : world.state.lastArgs with
  | none => rfl
  | some args => exact absurd quiet (clocked.args args held).1

end Heard

section Bursts

theorem bursts_single (wait : Int) (call : Call Args) : bursts wait [call] = [[call]] := List.splitBy_of_isChain (by simp) (List.isChain_singleton _)

theorem bursts_new {wait : Int} {calls : List (Call Args)} {call : Call Args} (far : ∀ last, calls.getLast? = some last → last.time + wait ≤ call.time) :
    bursts wait (calls ++ [call]) = bursts wait calls ++ [[call]] := by
  rw [← bursts_single wait call]
  refine List.splitBy_append_cons [] fun last at_ => ?_
  have gap := far last at_
  simp only [decide_eq_false_iff_not]
  omega

theorem bursts_same {wait : Int} {calls : List (Call Args)} {front : List (List (Call Args))} {burst : List (Call Args)} {last : Call Args}
    (call : Call Args) (are : bursts wait calls = front ++ [burst]) (at_ : burst.getLast? = some last) (near : call.time - last.time < wait) :
    bursts wait (calls ++ [call]) = front ++ [burst ++ [call]] := by
  obtain ⟨flat, nonempty, chains, apart⟩ := List.splitBy_eq_iff.mp are
  have some_ : burst ≠ [] := by
    rintro rfl
    cases at_
  refine List.splitBy_eq_iff.mpr ⟨?_, ?_, ?_, ?_⟩
  · rw [flat]
    simp
  · simp only [List.mem_append, List.mem_singleton, not_or] at nonempty ⊢
    exact ⟨nonempty.1, by simp⟩
  · intro member held
    rcases List.mem_append.mp held with held | held
    · exact chains member (List.mem_append_left _ held)
    · obtain rfl := List.mem_singleton.mp held
      refine List.isChain_append.mpr ⟨chains burst (by simp), List.isChain_singleton _, fun first is second same => ?_⟩
      obtain rfl : last = first := Option.some.inj (at_.symm.trans is)
      obtain rfl : call = second := Option.some.inj same
      simpa using near
  · rw [List.isChain_append] at apart ⊢
    refine ⟨apart.1, List.isChain_singleton _, fun before is second same => ?_⟩
    obtain rfl : burst ++ [call] = second := Option.some.inj same
    obtain ⟨first, _, gap⟩ := apart.2.2 before is burst rfl
    exact ⟨first, by simp, by rwa [List.head_append_of_ne_nil some_]⟩

structure Debounced (options : Schedule) (world : World Args) : Prop where
  ended : world.state.timer = none →
    world.invoked.map some = (bursts options.wait world.calls).map (answer options.wait) ∧
      ∀ last, world.calls.getLast? = some last → last.time + options.wait ≤ world.now
  running : world.state.timer ≠ none → ∃ front burst last, bursts options.wait world.calls = front ++ [burst] ∧ burst.getLast? = some last ∧
    world.calls.getLast? = some last ∧ world.state.lastArgs = some last.args ∧ world.invoked.map some = front.map (answer options.wait)

theorem Debounced.start (options : Schedule) (now : Int) : Debounced options (World.start now : World Args) where
  ended _ := ⟨rfl, nofun⟩
  running some_ := absurd rfl some_

theorem Debounced.step (leads : options.leading = false) (trails : options.trailing = true)
    (unbounded : options.maxWait = none) (clocked : Clocked options world) (debounced : Debounced options world) {action : Action Args}
    (taken : world.step options action = some next) : Debounced options next := by
  have longest : options.longest = none := by rw [Schedule.longest, unbounded]; rfl
  cases action with
  | call time args =>
    obtain ⟨⟨later, early⟩, rfl⟩ := step_call taken
    cases timer : world.state.timer with
    | none =>
      obtain ⟨same, far⟩ := debounced.ended timer
      have new : bursts options.wait (world.calls ++ [⟨time, args⟩]) = bursts options.wait world.calls ++ [[⟨time, args⟩]] :=
        bursts_new fun last at_ => (far last at_).trans later
      -- The schedule starts over: the last call is over for `wait`, or there was none.
      have should : world.state.shouldInvoke options time = true := by
        refine shouldInvoke_iff.mpr fun last is => ?_
        rw [clocked.last] at is
        obtain ⟨call, at_, rfl⟩ := Option.map_eq_some_iff.mp is
        have past := far call at_
        exact .inl (by omega)
      rcases called_cases options world.state time args with ⟨-, -, is⟩ | ⟨-, some_, -⟩ | ⟨idle, -⟩
      · rw [is, leads]
        refine ⟨nofun, fun _ => ⟨_, _, _, new, rfl, by simp, rfl, ?_⟩⟩
        simpa using same
      · exact absurd timer some_
      · rw [idle timer] at should
        cases should
    | some due =>
      obtain ⟨front, burst, last, are, at_, isLast, -, same⟩ := debounced.running (by simp [timer])
      obtain ⟨-, called, isCalled, bound⟩ := clocked.timed due timer
      have soon := early due timer
      have near : time - last.time < options.wait := by
        rw [clocked.last, isLast] at isCalled
        obtain rfl := Option.some.inj isCalled
        omega
      have grown := bursts_same ⟨time, args⟩ are at_ near
      rcases called_cases options world.state time args with ⟨-, none_, -⟩ | ⟨-, -, some_, -⟩ | ⟨-, -, is⟩
      · rw [timer] at none_
        cases none_
      · exact absurd longest some_
      · rw [is]
        refine ⟨nofun, fun _ => ⟨_, _, _, grown, by simp; rfl, by simp, rfl, ?_⟩⟩
        simpa using same
  | expire =>
    obtain ⟨due, timer, rfl⟩ := step_expire taken
    obtain ⟨front, burst, last, are, at_, isLast, held, same⟩ := debounced.running (by simp [timer])
    obtain ⟨-, called, isCalled, bound⟩ := clocked.timed due timer
    have isTime : called = last.time := by
      rw [clocked.last, isLast] at isCalled
      exact (Option.some.inj isCalled).symm
    rcases expired_cases options world.state due with ⟨should, -, args, held', is⟩ | ⟨-, none_, -⟩ | ⟨-, is⟩
    · rw [is]
      have since : options.wait ≤ due - called := by
        rcases shouldInvoke_iff.mp should called isCalled with since | since | ⟨span, some_, -⟩
        · exact since
        · have past := clocked.lastCall isCalled
          obtain ⟨reached, -⟩ := clocked.timed due timer
          omega
        · rw [longest] at some_
          cases some_
      obtain rfl : last.args = args := Option.some.inj (held.symm.trans held')
      obtain rfl : due = last.time + options.wait := by omega
      refine ⟨fun _ => ⟨?_, fun other is => ?_⟩, fun some_ => absurd rfl some_⟩
      · have due : answer options.wait burst = some ⟨last.time + options.wait, last.args⟩ := by
          rw [answer, at_]
          rfl
        rw [are, List.map_append, List.map_append, same]
        simp [due]
      · obtain rfl : last = other := Option.some.inj (isLast.symm.trans is)
        exact le_refl _
    · rw [none_ trails] at held
      cases held
    · rw [is]
      simp only [Option.toList_none, List.append_nil]
      exact ⟨nofun, fun _ => ⟨front, burst, last, are, at_, isLast, held, same⟩⟩

theorem Debounced.reach (positive : 1 ≤ options.wait) (leads : options.leading = false) (trails : options.trailing = true)
    (unbounded : options.maxWait = none) {now : Int} (reached : Reach (World.step options) always (World.start now) world) :
    Debounced options world := by
  have both : Clocked options world ∧ Debounced options world := by
    refine reached.invariant (fun world => Clocked options world ∧ Debounced options world) ⟨.start options now, .start options now⟩ ?_
    intro world action next kept _ taken
    exact ⟨kept.1.step positive taken, kept.2.step leads trails unbounded kept.1 taken⟩
  exact both.2

end Bursts

theorem schedule_ok {name : String} {wait : Int} {leading trailing : Bool} {maxWait : Option Int}
    (is : schedule name wait leading trailing maxWait = .ok options) : options = ⟨wait, leading, trailing, maxWait⟩ := by
  simp only [schedule, assertWait] at is
  cases valid : isValidWait wait with
  | false =>
    rw [valid] at is
    cases is
  | true =>
    rw [valid] at is
    cases maxWait with
    | none => exact (Except.ok.inj is).symm
    | some maxWait =>
      cases valid' : isValidWait maxWait with
      | false =>
        simp only [valid'] at is
        cases is
      | true =>
        simp only [valid'] at is
        exact (Except.ok.inj is).symm

/-- Over every sequence of calls: how often a throttled function is invoked, the answers of a debounced one, and that no call stays
without an answer. Two invocations of a throttled function are kept apart where its calls are `Spaced`. -/
theorem keeps_rate (Args : Type) {wait : Int} (positive : 1 ≤ wait) (now : Int) :
    (∀ leading trailing options, throttle wait leading trailing = .ok options →
      (∀ world : World Args, Reach (World.step options) (Spaced options) (.start now) world →
        world.invoked.Pairwise fun first second => first.time + wait ≤ second.time) ∧
      ∀ world : World Args, Reach (World.step options) always (.start now) world → options.trailing = true → world.IsQuiet →
        world.calls.getLast?.map Call.args = world.invoked.getLast?.map Call.args) ∧
    (∀ leading trailing options, debounce wait leading trailing none = .ok options → options.leading = false → options.trailing = true →
      ∀ world : World Args, Reach (World.step options) always (.start now) world → world.IsQuiet →
        world.invoked.map some = (bursts wait world.calls).map (answer wait)) ∧
    ∀ name leading trailing maxWait options, schedule name wait leading trailing maxWait = .ok options →
      ∀ world : World Args, Reach (World.step options) always (.start now) world →
        (options.trailing = true → world.IsQuiet → ∀ call ∈ world.calls, ∃ answer ∈ world.invoked, call.time ≤ answer.time) ∧
        ∃ final, Reach (World.step options) (fun _ action => action = .expire) world final ∧ final.IsQuiet ∧ final.calls = world.calls := by
  refine ⟨fun leading trailing options made => ⟨fun world reached => ?_, fun world reached trails quiet => ?_⟩,
    fun leading trailing options made leads trails world reached quiet => ?_,
    fun name leading trailing maxWait options made world reached => ⟨fun trails quiet => ?_, ?_⟩⟩
  · obtain rfl := schedule_ok made
    exact (Rate.reach positive (by simp [Schedule.longest]) reached).apart
  · obtain rfl := schedule_ok made
    have kept := Heard.reach positive trails reached
    exact kept.2.last (kept.1.quiet_args quiet)
  · obtain rfl := schedule_ok made
    exact ((Debounced.reach positive leads trails rfl reached).ended quiet).1
  · obtain rfl := schedule_ok made
    have kept := Heard.reach positive trails reached
    exact kept.2.later (kept.1.quiet_args quiet)
  · obtain rfl := schedule_ok made
    exact (Clocked.reach positive reached).settles

/-- Two calls 50 ms apart, debounced by 100 ms. -/
theorem keeps_rate_burst : [(⟨150, 2⟩ : Call Nat)].map some = (bursts 100 [⟨0, 1⟩, ⟨50, 2⟩]).map (answer 100) := by
  have ran : run (World.step ⟨100, false, true, none⟩) (.start 0) [.call 0 1, .call 50 2, .expire, .expire] =
      some (⟨150, ⟨none, none, some 50, 150⟩, [⟨0, 1⟩, ⟨50, 2⟩], [⟨150, 2⟩]⟩ : World Nat) := rfl
  exact (keeps_rate Nat (by decide) 0).2.1 none none ⟨100, false, true, none⟩ rfl rfl rfl _ (.of_run ran) rfl

/-- Throttled by 100 ms at both edges: calls at 0 and 50 are answered at 0 and 100, and a call at 150 is answered at once. -/
theorem throttled_too_soon :
    ¬ ∀ options, throttle 100 none none = .ok options → ∀ world : World Nat, Reach (World.step options) always (.start 0) world →
      world.invoked.Pairwise fun first second => first.time + 100 ≤ second.time := by
  intro every
  have ran : run (World.step ⟨100, true, true, some 100⟩) (.start 0) [.call 0 1, .call 50 2, .expire, .call 150 3] =
      some (⟨150, ⟨none, some 250, some 150, 150⟩, [⟨0, 1⟩, ⟨50, 2⟩, ⟨150, 3⟩], [⟨0, 1⟩, ⟨100, 2⟩, ⟨150, 3⟩]⟩ : World Nat) := rfl
  exact absurd (every _ rfl _ (.of_run ran)) (by decide)

end Arki.Async.Scheduling
