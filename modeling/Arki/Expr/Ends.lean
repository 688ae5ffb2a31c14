import Arki.Expr.Accept

/-! The parser ends on every input: the fuel that a parse begins with is never spent.

A routine needs ten calls for each token that is left, and the few that lead to the next token.
-/

set_option autoImplicit false

namespace Arki.Expr

variable {parser : Parser} {state next : Progress} {node left : Node} {fuel : Nat}

theorem bind_ends {First Second : Type} {first : Except Stop First} {rest : First → Except Stop Second}
    (ends : first ≠ .error .fuel) (after : ∀ value, first = .ok value → rest value ≠ .error .fuel) :
    (first >>= rest) ≠ .error .fuel := by
  cases first with
  | error stop =>
    intro same
    cases same
    exact ends rfl
  | ok value => exact after value rfl

theorem finish_ends {depth : Nat} : parser.finish node depth state ≠ .error .fuel := by
  simp only [Parser.finish]
  split
  · rintro ⟨⟩
  split <;> rintro ⟨⟩

theorem enter_ends : parser.enter state ≠ .error .fuel := by
  simp only [Parser.enter]
  split <;> rintro ⟨⟩

theorem requireFunction_ends {fn : Text} {token : Token} {arity : Nat} :
    parser.requireFunction fn token arity ≠ .error .fuel := by
  simp only [Parser.requireFunction]
  split
  · split <;> rintro ⟨⟩
  · rintro ⟨⟩

theorem expectClose_ends {opening : Token} {expected : List Text} :
    parser.expectClose opening expected state ≠ .error .fuel := by
  simp only [Parser.expectClose]
  split <;> rintro ⟨⟩

theorem expectEnd_ends {allowEquals : Bool} : parser.expectEnd allowEquals state ≠ .error .fuel := by
  simp only [Parser.expectEnd]
  split <;> rintro ⟨⟩

theorem Took.shorter {level : Level} (taken : Took parser level state node next) :
    next.tokens.length < state.tokens.length := by
  obtain ⟨⟨tokens, split, derived, _⟩, _, _⟩ := taken
  have := List.length_pos_of_ne_nil derived.filled
  rw [split, List.length_append]
  omega

theorem advance_shorter (parser : Parser) (state : Progress) (kind : (parser.current state).kind ≠ .end_) :
    (Parser.advance state).tokens.length + 1 = state.tokens.length := by
  rw [current_token rfl kind, List.length_cons]
  rfl

structure Enough (parser : Parser) (fuel : Nat) : Prop where
  sum : ∀ {state}, state.nest < parser.options.limits.depth → 10 * state.tokens.length + 7 ≤ fuel →
    parser.parseSum fuel state ≠ .error .fuel
  sumLoop : ∀ {left state}, state.nest < parser.options.limits.depth → 10 * state.tokens.length + 1 ≤ fuel →
    parser.sumLoop fuel left state ≠ .error .fuel
  product : ∀ {state}, state.nest < parser.options.limits.depth → 10 * state.tokens.length + 6 ≤ fuel →
    parser.parseProduct fuel state ≠ .error .fuel
  productLoop : ∀ {left state}, state.nest < parser.options.limits.depth → 10 * state.tokens.length + 5 ≤ fuel →
    parser.productLoop fuel left state ≠ .error .fuel
  unary : ∀ {state}, state.nest < parser.options.limits.depth → 10 * state.tokens.length + 5 ≤ fuel →
    parser.parseUnary fuel state ≠ .error .fuel
  power : ∀ {state}, state.nest < parser.options.limits.depth → 10 * state.tokens.length + 4 ≤ fuel →
    parser.parsePower fuel state ≠ .error .fuel
  postfix_ : ∀ {state}, state.nest < parser.options.limits.depth → 10 * state.tokens.length + 3 ≤ fuel →
    parser.parsePostfix fuel state ≠ .error .fuel
  postfixLoop : ∀ {left state}, 10 * state.tokens.length + 1 ≤ fuel → parser.postfixLoop fuel left state ≠ .error .fuel
  primary : ∀ {state}, state.nest < parser.options.limits.depth → 10 * state.tokens.length + 2 ≤ fuel →
    parser.parsePrimary fuel state ≠ .error .fuel
  name : ∀ {state}, (parser.current state).kind = .name → 10 * state.tokens.length + 1 ≤ fuel →
    parser.parseName fuel state ≠ .error .fuel
  call : ∀ {state token spec}, 10 * state.tokens.length + 10 ≤ fuel →
    parser.parseCall fuel token spec state ≠ .error .fuel
  arguments : ∀ {state}, state.nest < parser.options.limits.depth → 10 * state.tokens.length + 9 ≤ fuel →
    parser.parseArgs fuel state ≠ .error .fuel
  argumentLoop : ∀ {state}, state.nest < parser.options.limits.depth → 10 * state.tokens.length + 8 ≤ fuel →
    parser.argsLoop fuel state ≠ .error .fuel
  group : ∀ {state}, (parser.current state).kind = .open_ → 10 * state.tokens.length + 1 ≤ fuel →
    parser.parseGroup fuel state ≠ .error .fuel
  bars : ∀ {state}, (parser.current state).kind = .bar → 10 * state.tokens.length + 1 ≤ fuel →
    parser.parseBars fuel state ≠ .error .fuel

namespace Enough

theorem stepSum (enough : Enough parser fuel) (room : state.nest < parser.options.limits.depth)
    (fed : 10 * state.tokens.length + 7 ≤ fuel + 1) : parser.parseSum (fuel + 1) state ≠ .error .fuel := by
  rw [Parser.parseSum]
  refine bind_ends (enough.product room (by omega)) ?_
  rintro ⟨left, middle⟩ ran
  have taken := (Sound.all parser fuel).product room ran
  have := taken.shorter
  exact enough.sumLoop taken.room (by omega)

theorem stepSumLoop (enough : Enough parser fuel) (room : state.nest < parser.options.limits.depth)
    (fed : 10 * state.tokens.length + 1 ≤ fuel + 1) : parser.sumLoop (fuel + 1) left state ≠ .error .fuel := by
  rw [Parser.sumLoop]
  split
  · rintro ⟨⟩
  next op found =>
    have shorter := advance_shorter parser state (by
      intro same
      simp [same, Parser.sumOperator] at found)
    refine bind_ends (enough.product (by exact room) (by omega)) ?_
    rintro ⟨right, middle⟩ ran
    have taken := (Sound.all parser fuel).product (by exact room) ran
    have := taken.shorter
    refine bind_ends finish_ends ?_
    rintro ⟨both, after⟩ built
    obtain ⟨_, rfl, _⟩ := finish_ok built
    exact enough.sumLoop taken.room (by simp only; omega)

theorem stepProduct (enough : Enough parser fuel) (room : state.nest < parser.options.limits.depth)
    (fed : 10 * state.tokens.length + 6 ≤ fuel + 1) : parser.parseProduct (fuel + 1) state ≠ .error .fuel := by
  rw [Parser.parseProduct]
  refine bind_ends (enough.unary room (by omega)) ?_
  rintro ⟨left, middle⟩ ran
  have taken := (Sound.all parser fuel).unary room ran
  have := taken.shorter
  exact enough.productLoop taken.room (by omega)

theorem stepProductLoop (enough : Enough parser fuel) (room : state.nest < parser.options.limits.depth)
    (fed : 10 * state.tokens.length + 5 ≤ fuel + 1) : parser.productLoop (fuel + 1) left state ≠ .error .fuel := by
  rw [Parser.productLoop]
  split
  next op found =>
    have shorter := advance_shorter parser state (by
      intro same
      simp [same, Parser.productOperator] at found)
    refine bind_ends (enough.unary (by exact room) (by omega)) ?_
    rintro ⟨right, middle⟩ ran
    have taken := (Sound.all parser fuel).unary (by exact room) ran
    have := taken.shorter
    refine bind_ends finish_ends ?_
    rintro ⟨both, after⟩ built
    obtain ⟨_, rfl, _⟩ := finish_ok built
    exact enough.productLoop taken.room (by simp only; omega)
  next =>
    split
    · refine bind_ends (enough.power room (by omega)) ?_
      rintro ⟨right, middle⟩ ran
      have taken := (Sound.all parser fuel).power room ran
      have := taken.shorter
      refine bind_ends finish_ends ?_
      rintro ⟨both, after⟩ built
      obtain ⟨_, rfl, _⟩ := finish_ok built
      exact enough.productLoop taken.room (by simp only; omega)
    · split <;> rintro ⟨⟩

theorem stepUnary (enough : Enough parser fuel) (room : state.nest < parser.options.limits.depth)
    (fed : 10 * state.tokens.length + 5 ≤ fuel + 1) : parser.parseUnary (fuel + 1) state ≠ .error .fuel := by
  rw [Parser.parseUnary]
  split
  · exact enough.power room (by omega)
  next op found =>
    have shorter := advance_shorter parser state (by
      intro same
      simp [same, Parser.signOf] at found)
    refine bind_ends enter_ends fun inside entered => ?_
    obtain ⟨rfl, deeper⟩ := enter_ok entered
    refine bind_ends (enough.unary deeper (by simp only; omega)) ?_
    rintro ⟨arg, after⟩ _
    exact finish_ends

theorem stepPower (enough : Enough parser fuel) (room : state.nest < parser.options.limits.depth)
    (fed : 10 * state.tokens.length + 4 ≤ fuel + 1) : parser.parsePower (fuel + 1) state ≠ .error .fuel := by
  rw [Parser.parsePower]
  refine bind_ends (enough.postfix_ room (by omega)) ?_
  rintro ⟨base, middle⟩ ran
  have shorter := ((Sound.all parser fuel).postfix_ room ran).shorter
  simp only
  split
  next kind =>
    have shorter' := advance_shorter parser middle (by simp [kind])
    refine bind_ends enter_ends fun inside entered => ?_
    obtain ⟨rfl, deeper⟩ := enter_ok entered
    refine bind_ends (enough.unary deeper (by simp only; omega)) ?_
    rintro ⟨exponent, after⟩ _
    exact finish_ends
  · rintro ⟨⟩

theorem stepPostfix (enough : Enough parser fuel) (room : state.nest < parser.options.limits.depth)
    (fed : 10 * state.tokens.length + 3 ≤ fuel + 1) : parser.parsePostfix (fuel + 1) state ≠ .error .fuel := by
  rw [Parser.parsePostfix]
  refine bind_ends (enough.primary room (by omega)) ?_
  rintro ⟨inner, middle⟩ ran
  have shorter := ((Sound.all parser fuel).primary room ran).shorter
  exact enough.postfixLoop (by omega)

theorem stepPostfixLoop (enough : Enough parser fuel) (fed : 10 * state.tokens.length + 1 ≤ fuel + 1) :
    parser.postfixLoop (fuel + 1) left state ≠ .error .fuel := by
  rw [Parser.postfixLoop]
  split
  next kind =>
    have shorter := advance_shorter parser state (by simp [kind])
    refine bind_ends finish_ends ?_
    rintro ⟨marked, after⟩ built
    obtain ⟨_, rfl, _⟩ := finish_ok built
    exact enough.postfixLoop (by simp only; omega)
  · rintro ⟨⟩

theorem stepPrimary (enough : Enough parser fuel)
    (fed : 10 * state.tokens.length + 2 ≤ fuel + 1) : parser.parsePrimary (fuel + 1) state ≠ .error .fuel := by
  rw [Parser.parsePrimary]
  split
  · exact finish_ends
  next kind => exact enough.name kind (by omega)
  next kind => exact enough.group kind (by omega)
  next kind => exact enough.bars kind (by omega)
  next kind =>
    have shorter := advance_shorter parser state (by simp [kind])
    refine bind_ends requireFunction_ends fun _ _ => ?_
    refine bind_ends enter_ends fun inside entered => ?_
    obtain ⟨rfl, deeper⟩ := enter_ok entered
    refine bind_ends (enough.primary deeper (by simp only; omega)) ?_
    rintro ⟨arg, after⟩ _
    exact finish_ends
  · rintro ⟨⟩
  · rintro ⟨⟩

theorem stepName (enough : Enough parser fuel) (kind : (parser.current state).kind = .name)
    (fed : 10 * state.tokens.length + 1 ≤ fuel + 1) : parser.parseName (fuel + 1) state ≠ .error .fuel := by
  rw [Parser.parseName]
  have shorter := advance_shorter parser state (by simp [kind])
  split
  · split
    · exact enough.call (by omega)
    · split <;> rintro ⟨⟩
  · split
    · rintro ⟨⟩
    · exact finish_ends

theorem stepCall {token : Token} {spec : FunctionSpec} (enough : Enough parser fuel)
    (fed : 10 * state.tokens.length + 10 ≤ fuel + 1) : parser.parseCall (fuel + 1) token spec state ≠ .error .fuel := by
  rw [Parser.parseCall]
  refine bind_ends enter_ends fun inside entered => ?_
  obtain ⟨rfl, deeper⟩ := enter_ok entered
  refine bind_ends (enough.arguments (by exact deeper) ?_) ?_
  · simp only [Parser.push, Parser.advance, List.length_tail]
    omega
  rintro ⟨args, deepest, after⟩ _
  refine bind_ends expectClose_ends ?_
  rintro ⟨close, ended⟩ _
  simp only
  split
  · rintro ⟨⟩
  · exact finish_ends

theorem stepArguments (enough : Enough parser fuel) (room : state.nest < parser.options.limits.depth)
    (fed : 10 * state.tokens.length + 9 ≤ fuel + 1) : parser.parseArgs (fuel + 1) state ≠ .error .fuel := by
  rw [Parser.parseArgs]
  split
  · rintro ⟨⟩
  · exact enough.argumentLoop room (by omega)

theorem stepArgumentLoop (enough : Enough parser fuel) (room : state.nest < parser.options.limits.depth)
    (fed : 10 * state.tokens.length + 8 ≤ fuel + 1) : parser.argsLoop (fuel + 1) state ≠ .error .fuel := by
  rw [Parser.argsLoop]
  refine bind_ends (enough.sum room (by omega)) ?_
  rintro ⟨arg, middle⟩ ran
  have taken := (Sound.all parser fuel).sum room ran
  have := taken.shorter
  simp only
  split
  next kind =>
    have shorter := advance_shorter parser middle (by simp [kind])
    refine bind_ends (enough.argumentLoop (by exact taken.room) (by omega)) ?_
    rintro ⟨rest, deepest, after⟩ _ ⟨⟩
  · rintro ⟨⟩

theorem stepGroup (enough : Enough parser fuel) (kind : (parser.current state).kind = .open_)
    (fed : 10 * state.tokens.length + 1 ≤ fuel + 1) : parser.parseGroup (fuel + 1) state ≠ .error .fuel := by
  rw [Parser.parseGroup]
  have shorter := advance_shorter parser state (by simp [kind])
  refine bind_ends enter_ends fun inside entered => ?_
  obtain ⟨rfl, deeper⟩ := enter_ok entered
  refine bind_ends (enough.sum (by exact deeper) (by simp only [Parser.push]; omega)) ?_
  rintro ⟨inner, after⟩ _
  refine bind_ends expectClose_ends ?_
  rintro ⟨close, ended⟩ _
  exact finish_ends

theorem stepBars (enough : Enough parser fuel) (kind : (parser.current state).kind = .bar)
    (fed : 10 * state.tokens.length + 1 ≤ fuel + 1) : parser.parseBars (fuel + 1) state ≠ .error .fuel := by
  rw [Parser.parseBars]
  have shorter := advance_shorter parser state (by simp [kind])
  refine bind_ends requireFunction_ends fun _ _ => ?_
  simp only
  split
  · rintro ⟨⟩
  · refine bind_ends enter_ends fun inside entered => ?_
    obtain ⟨rfl, deeper⟩ := enter_ok entered
    refine bind_ends (enough.sum (by exact deeper) (by simp only [Parser.push]; omega)) ?_
    rintro ⟨inner, after⟩ _
    simp only
    split
    · exact finish_ends
    · rintro ⟨⟩

theorem zero : Enough parser 0 := by
  constructor <;> intros <;> omega

theorem all (parser : Parser) : ∀ fuel, Enough parser fuel
  | 0 => zero
  | fuel + 1 =>
    have enough := all parser fuel
    { sum := enough.stepSum
      sumLoop := enough.stepSumLoop
      product := enough.stepProduct
      productLoop := enough.stepProductLoop
      unary := enough.stepUnary
      power := enough.stepPower
      postfix_ := enough.stepPostfix
      postfixLoop := enough.stepPostfixLoop
      primary := fun _ => enough.stepPrimary
      name := enough.stepName
      call := enough.stepCall
      arguments := enough.stepArguments
      argumentLoop := enough.stepArgumentLoop
      group := enough.stepGroup
      bars := enough.stepBars }

end Enough

end Arki.Expr
