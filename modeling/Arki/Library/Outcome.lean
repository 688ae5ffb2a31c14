import Mathlib.Data.List.Forall2

/-! Computations that may end with an error: what a chain of them came to. -/

set_option autoImplicit false

namespace Arki.Outcome

variable {Err First Second : Type} {first : Except Err First} {rest : First → Except Err Second}

theorem bind_ok {answer : Second} :
    (first >>= rest) = .ok answer ↔ ∃ value, first = .ok value ∧ rest value = .ok answer := by
  cases first with
  | error err =>
    constructor
    · intro same
      cases same
    · rintro ⟨_, same, _⟩
      cases same
  | ok value =>
    constructor
    · intro same
      exact ⟨value, rfl, same⟩
    · rintro ⟨_, ⟨⟩, same⟩
      exact same

theorem bind_error {err : Err} :
    (first >>= rest) = .error err ↔ first = .error err ∨ ∃ value, first = .ok value ∧ rest value = .error err := by
  cases first with
  | error other =>
    constructor
    · intro same
      cases same
      exact .inl rfl
    · rintro (⟨⟨⟩⟩ | ⟨_, same, _⟩)
      · rfl
      · cases same
  | ok value =>
    constructor
    · intro same
      exact .inr ⟨value, rfl, same⟩
    · rintro (same | ⟨_, ⟨⟩, same⟩)
      · cases same
      · exact same

inductive Alike {Other : Type} (related : First → Other → Prop) : Except Err First → Except Err Other → Prop where
  | ok {value : First} {other : Other} : related value other → Alike related (.ok value) (.ok other)
  | error (err : Err) : Alike related (.error err) (.error err)

theorem Alike.bind {Other Third Fourth : Type} {related : First → Other → Prop} {after : Third → Fourth → Prop}
    {second : Except Err Other} {next : First → Except Err Third} {next_ : Other → Except Err Fourth}
    (alike : Alike related first second) (continues : ∀ value other, related value other → Alike after (next value) (next_ other)) :
    Alike after (first >>= next) (second >>= next_) := by
  cases alike with
  | ok is => exact continues _ _ is
  | error err => exact .error err

theorem Alike.mapM {Input Other : Type} {related : First → Other → Prop} {f : Input → Except Err First}
    {g : Input → Except Err Other} (inputs : List Input) (each : ∀ input, Alike related (f input) (g input)) :
    Alike (List.Forall₂ related) (inputs.mapM f) (inputs.mapM g) := by
  induction inputs with
  | nil => exact .ok .nil
  | cons input inputs ih =>
    rw [List.mapM_cons, List.mapM_cons]
    exact (each input).bind fun _ _ is => ih.bind fun _ _ are => .ok (.cons is are)

theorem Alike.refl {computation : Except Err First} : Alike Eq computation computation := by
  cases computation with
  | ok value => exact .ok rfl
  | error err => exact .error err

theorem mapM_ok {Input Output : Type} {f : Input → Except Err Output} {inputs : List Input} {outputs : List Output} :
    inputs.mapM f = .ok outputs ↔ List.Forall₂ (fun input output => f input = .ok output) inputs outputs := by
  induction inputs generalizing outputs with
  | nil =>
    rw [List.mapM_nil, List.forall₂_nil_left_iff]
    exact ⟨fun same => (Except.ok.inj same).symm, fun same => by rw [same]; rfl⟩
  | cons input inputs ih =>
    rw [List.mapM_cons, bind_ok, List.forall₂_cons_left_iff]
    constructor
    · rintro ⟨output, first, built⟩
      obtain ⟨rest, others, is⟩ := bind_ok.mp built
      cases is
      exact ⟨output, rest, first, ih.mp others, rfl⟩
    · rintro ⟨output, rest, first, others, rfl⟩
      exact ⟨output, first, bind_ok.mpr ⟨rest, ih.mpr others, rfl⟩⟩

theorem mapM_some {Input Output : Type} {f : Input → Option Output} {inputs : List Input} {outputs : List Output}
    (built : inputs.mapM f = some outputs) : List.Forall₂ (fun input output => f input = some output) inputs outputs := by
  induction inputs generalizing outputs with
  | nil =>
    cases built
    exact .nil
  | cons input inputs ih =>
    rw [List.mapM_cons] at built
    obtain ⟨output, first, others⟩ := Option.bind_eq_some_iff.mp built
    obtain ⟨rest, is, same⟩ := Option.bind_eq_some_iff.mp others
    cases same
    exact .cons first (ih is)

theorem forall₂_right {First Second : Type} {relation : First → Second → Prop} {as : List First} {bs : List Second}
    (pairs : List.Forall₂ relation as bs) {b : Second} (member : b ∈ bs) : ∃ a ∈ as, relation a b := by
  induction pairs with
  | nil => cases member
  | cons is _ ih =>
    rcases List.mem_cons.mp member with rfl | inside
    · exact ⟨_, List.mem_cons_self .., is⟩
    · obtain ⟨a, memberA, isA⟩ := ih inside
      exact ⟨a, List.mem_cons_of_mem _ memberA, isA⟩

theorem forall₂_imp {First Second : Type} {relation other : First → Second → Prop} {as : List First} {bs : List Second}
    (pairs : List.Forall₂ relation as bs) (imp : ∀ a ∈ as, ∀ b ∈ bs, relation a b → other a b) : List.Forall₂ other as bs := by
  induction pairs with
  | nil => exact .nil
  | cons is _ ih =>
    refine .cons (imp _ (List.mem_cons_self ..) _ (List.mem_cons_self ..) is) (ih fun a memberA b memberB => ?_)
    exact imp a (List.mem_cons_of_mem _ memberA) b (List.mem_cons_of_mem _ memberB)

theorem forall₂_join {First Second Third : Type} {left : First → Second → Prop} {right : First → Third → Prop}
    {both : Second → Third → Prop} {as : List First} {bs : List Second} {cs : List Third} (lefts : List.Forall₂ left as bs)
    (rights : List.Forall₂ right as cs) (join : ∀ a ∈ as, ∀ b ∈ bs, ∀ c ∈ cs, left a b → right a c → both b c) :
    List.Forall₂ both bs cs := by
  induction lefts generalizing cs with
  | nil =>
    cases rights
    exact .nil
  | cons isLeft _ ih =>
    cases rights with
    | cons isRight rest =>
      refine .cons (join _ (List.mem_cons_self ..) _ (List.mem_cons_self ..) _ (List.mem_cons_self ..) isLeft isRight) ?_
      exact ih rest fun a memberA b memberB c memberC => join a (List.mem_cons_of_mem _ memberA) b (List.mem_cons_of_mem _ memberB) c
        (List.mem_cons_of_mem _ memberC)

theorem foldlM_ok {State Input : Type} {step : State → Input → Except Err State} {inv : Nat → State → Prop} (inputs : List Input) :
    ∀ (done : Nat) (state : State), inv done state →
      (∀ index state input, inputs[index]? = some input → inv (done + index) state →
        ∃ next, step state input = .ok next ∧ inv (done + index + 1) next) →
      ∃ last, inputs.foldlM step state = .ok last ∧ inv (done + inputs.length) last := by
  induction inputs with
  | nil => exact fun done state holds _ => ⟨state, rfl, holds⟩
  | cons input inputs ih =>
    intro done state holds keeps
    obtain ⟨next, stepped, kept⟩ := keeps 0 state input rfl holds
    obtain ⟨last, ended, holds_⟩ := ih (done + 1) next kept fun index state input at_ holds => by
      have shifted := keeps (index + 1) state input (by simpa using at_) (by
        rw [show done + (index + 1) = done + 1 + index by omega]
        exact holds)
      rwa [show done + (index + 1) + 1 = done + 1 + index + 1 by omega] at shifted
    refine ⟨last, ?_, ?_⟩
    · rw [List.foldlM_cons, stepped]
      exact ended
    · rw [List.length_cons, show done + (inputs.length + 1) = done + 1 + inputs.length by omega]
      exact holds_

end Arki.Outcome
