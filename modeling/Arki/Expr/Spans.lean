import Arki.Expr.Grammar

/-! Tokens stand in the order of the source, so the span of a node holds those of its parts. -/

set_option autoImplicit false

namespace Arki.Expr

/-- The tokens stand one after the other between `low` and `high`, and none is empty. -/
def Placed (low high : Nat) : List Token → Prop
  | [] => low ≤ high
  | token :: rest => low ≤ token.start ∧ token.start < token.stop ∧ Placed token.stop high rest

theorem Placed.le {low high : Nat} {tokens : List Token} (placed : Placed low high tokens) : low ≤ high := by
  induction tokens generalizing low with
  | nil => exact placed
  | cons token rest ih =>
    obtain ⟨first, filled, behind⟩ := placed
    have := ih behind
    omega

theorem Placed.earlier {low lower high : Nat} {tokens : List Token} (placed : Placed low high tokens)
    (below : lower ≤ low) : Placed lower high tokens := by
  cases tokens with
  | nil => exact Nat.le_trans below placed
  | cons token rest => exact ⟨Nat.le_trans below placed.1, placed.2⟩

theorem Placed.split {low high : Nat} {before after : List Token} (placed : Placed low high (before ++ after)) :
    ∃ middle, Placed low middle before ∧ Placed middle high after := by
  induction before generalizing low with
  | nil => exact ⟨low, Nat.le_refl low, placed⟩
  | cons token rest ih =>
    obtain ⟨first, filled, behind⟩ := placed
    obtain ⟨middle, ahead, behind⟩ := ih behind
    exact ⟨middle, ⟨first, filled, ahead⟩, behind⟩

theorem digits_le (source : Text) : digits source ≤ source.length :=
  (List.takeWhile_prefix isDigit).length_le

theorem scanExponent_le (source : Text) : scanExponent source ≤ source.length := by
  cases source with
  | nil => simp [scanExponent]
  | cons marker rest =>
    simp only [scanExponent]
    generalize (if rest.head? = some 43 ∨ rest.head? = some 45 then 1 else 0) = sign
    have count := digits_le (rest.drop sign)
    rw [List.length_drop] at count
    rw [List.length_cons]
    split
    · split <;> omega
    · exact Nat.zero_le _

theorem scanFraction_le {dot fraction : Nat} {source : Text} (scanned : scanFraction dot source = some fraction) :
    fraction ≤ source.length := by
  cases source with
  | nil =>
    cases scanned
    exact Nat.le_refl _
  | cons mark rest =>
    have := digits_le rest
    simp only [scanFraction] at scanned
    split at scanned
    · split at scanned
      · cases scanned
      · cases scanned
        rw [List.length_cons]
        omega
    · cases scanned
      exact Nat.zero_le _

theorem scanNumber_le {dot length : Nat} {source : Text} (scanned : scanNumber source dot = .ok length) :
    length ≤ source.length ∧ (startsNumber dot source = true → 0 < length) := by
  simp only [scanNumber] at scanned
  split at scanned
  · cases scanned
  next fraction found =>
    split at scanned
    · cases scanned
    · cases scanned
      have whole := digits_le source
      have more := scanFraction_le found
      have exponent := scanExponent_le (source.drop (digits source + fraction))
      rw [List.length_drop] at more exponent
      refine ⟨by omega, fun starts => ?_⟩
      cases source with
      | nil => cases starts
      | cons first rest =>
        by_cases digit : isDigit first = true
        · have : 0 < digits (first :: rest) := by simp [digits, digit]
          omega
        · -- only a decimal mark before a digit is left
          have none : digits (first :: rest) = 0 := by simp [digits, digit]
          simp only [startsNumber, digit, Bool.false_or, Bool.and_eq_true, beq_iff_eq] at starts
          obtain ⟨rfl, starts⟩ := starts
          rw [none, List.drop_zero] at found
          simp only [scanFraction, if_true] at found
          split at found
          · cases found
          · cases found
            omega

theorem nextToken_placed {syntax_ : Syntax} {index code : Nat} {rest : Text} {token : Token}
    (read : nextToken syntax_ index code (code :: rest) = .ok token) :
    token.start = index ∧ index < token.stop ∧ token.stop ≤ index + (rest.length + 1) := by
  simp only [nextToken] at read
  split at read
  next starts =>
    split at read
    · cases read
    next length scanned =>
      cases read
      obtain ⟨within, filled⟩ := scanNumber_le scanned
      have := filled starts
      rw [List.length_cons] at within
      exact ⟨rfl, by simp only; omega, by simp only; omega⟩
  · split at read
    next letter =>
      cases read
      have within := (List.takeWhile_prefix isWordChar (l := code :: rest)).length_le
      have filled : 0 < ((code :: rest).takeWhile isWordChar).length := by simp [isWordChar, letter]
      rw [List.length_cons] at within
      exact ⟨rfl, by simp only; omega, by simp only; omega⟩
    · split at read
      · cases read
        exact ⟨rfl, by simp, by simp⟩
      · split at read
        · cases read
          exact ⟨rfl, by simp, by simp⟩
        · split at read
          · cases read
            exact ⟨rfl, by simp, by simp⟩
          · cases read

theorem tokenizeFrom_placed {syntax_ : Syntax} {maxTokens : Nat} {source : Text} :
    ∀ {skip index count : Nat} {tokens : List Token}, skip ≤ source.length →
      tokenizeFrom syntax_ maxTokens skip index count source = .ok tokens →
      Placed (index + skip) (index + source.length) tokens := by
  induction source with
  | nil =>
    intro skip index count tokens short read
    cases skip <;> cases read <;> exact Nat.add_le_add_left short index
  | cons code rest ih =>
    intro skip index count tokens short read
    rw [List.length_cons, Nat.add_comm rest.length 1, ← Nat.add_assoc]
    cases skip with
    | succ skip =>
      rw [tokenizeFrom] at read
      rw [Nat.add_comm skip 1, ← Nat.add_assoc]
      exact ih (by rw [List.length_cons] at short; omega) read
    | zero =>
      simp only [tokenizeFrom] at read
      split at read
      · exact (ih (Nat.zero_le _) read).earlier (by omega)
      split at read
      · cases read
      next token first =>
        split at read
        · cases read
        split at read
        · cases read
        next others behind =>
          cases read
          obtain ⟨start, filled, short⟩ := nextToken_placed first
          have := ih (by omega) behind
          exact ⟨by omega, by omega, this.earlier (by omega)⟩

theorem tokenize_placed {syntax_ : Syntax} {maxTokens : Nat} {source : Text} {tokens : List Token}
    (read : tokenize source syntax_ maxTokens = .ok tokens) : Placed 0 source.length tokens := by
  have := tokenizeFrom_placed (Nat.zero_le _) read
  simpa using this

def Span.Holds (outer inner : Span) : Prop := outer.start ≤ inner.start ∧ inner.stop ≤ outer.stop

namespace Node

mutual

def Nested : Node → Prop
  | number .. | name .. => True
  | unary _ arg span | factorial arg span | group arg span => span.Holds arg.span ∧ arg.Nested
  | binary _ left right _ span => span.Holds left.span ∧ span.Holds right.span ∧ left.Nested ∧ right.Nested
  | call _ args _ span => AllNested span args

def AllNested (outer : Span) : List Node → Prop
  | [] => True
  | arg :: rest => outer.Holds arg.span ∧ arg.Nested ∧ AllNested outer rest

end

end Node

/-- The node stands between `low` and `high`, and its parts within it. -/
structure Stands (low high : Nat) (node : Node) : Prop where
  first : low ≤ node.span.start
  filled : node.span.start < node.span.stop
  last : node.span.stop ≤ high
  nested : node.Nested

theorem Stands.binary {low middle high : Nat} {op : BinaryOperator} {left right : Node} {implicit : Bool}
    (ahead : Stands low middle left) (behind : Stands middle high right) :
    Stands low high (.binary op left right implicit ⟨left.span.start, right.span.stop⟩) := by
  obtain ⟨first, filled, last, nested⟩ := ahead
  obtain ⟨first', filled', last', nested'⟩ := behind
  have order : left.span.start < right.span.stop := by omega
  have within : left.span.stop ≤ right.span.stop := by omega
  have after : left.span.start ≤ right.span.start := by omega
  exact ⟨first, order, last', ⟨Nat.le_refl _, within⟩, ⟨after, Nat.le_refl _⟩, nested, nested'⟩

theorem Stands.wider {low lower high higher : Nat} {node : Node} (stands : Stands low high node) (below : lower ≤ low)
    (above : high ≤ higher) : Stands lower higher node :=
  ⟨Nat.le_trans below stands.first, stands.filled, Nat.le_trans stands.last above, stands.nested⟩

theorem Stands.holds {low high : Nat} {node : Node} (stands : Stands low high node) :
    Span.Holds ⟨low, high⟩ node.span :=
  ⟨stands.first, stands.last⟩

theorem Span.Holds.wider {inner outer span : Span} (holds : inner.Holds span) (within : outer.Holds inner) :
    outer.Holds span :=
  ⟨Nat.le_trans within.1 holds.1, Nat.le_trans holds.2 within.2⟩

theorem Node.AllNested.wider {inner outer : Span} {args : List Node} (nested : AllNested inner args)
    (within : outer.Holds inner) : AllNested outer args := by
  induction args with
  | nil => trivial
  | cons arg rest ih => exact ⟨nested.1.wider within, nested.2.1, ih nested.2.2⟩

theorem Stands.made {low high start stop : Nat} {node : Node} (span : node.span = ⟨start, stop⟩) (first : low ≤ start)
    (filled : start < stop) (last : stop ≤ high) (nested : node.Nested) : Stands low high node := by
  refine ⟨?_, ?_, ?_, nested⟩ <;> rw [span] <;> assumption

section

variable {low high start stop : Nat} {arg : Node} (stands : Stands low high arg)
include stands

theorem Stands.signed {op : Sign} (before : start ≤ low) : Stands start high (.unary op arg ⟨start, arg.span.stop⟩) := by
  obtain ⟨first, filled, last, nested⟩ := stands
  have order : start < arg.span.stop := by omega
  exact ⟨Nat.le_refl _, order, last, ⟨Nat.le_trans before first, Nat.le_refl _⟩, nested⟩

theorem Stands.factorial (after : high ≤ stop) : Stands low stop (.factorial arg ⟨arg.span.start, stop⟩) := by
  obtain ⟨first, filled, last, nested⟩ := stands
  have order : arg.span.start < stop := by omega
  exact ⟨first, order, Nat.le_refl _, ⟨Nat.le_refl _, Nat.le_trans last after⟩, nested⟩

theorem Stands.group (before : start ≤ low) (after : high ≤ stop) : Stands start stop (.group arg ⟨start, stop⟩) := by
  obtain ⟨first, filled, last, nested⟩ := stands
  have order : start < stop := by omega
  exact ⟨Nat.le_refl _, order, Nat.le_refl _, ⟨Nat.le_trans before first, Nat.le_trans last after⟩, nested⟩

theorem Stands.bars {fn : Text} {written : CallNotation} (before : start ≤ low) (after : high ≤ stop) :
    Stands start stop (.call fn [arg] written ⟨start, stop⟩) := by
  obtain ⟨first, filled, last, nested⟩ := stands
  have order : start < stop := by omega
  exact ⟨Nat.le_refl _, order, Nat.le_refl _, ⟨Nat.le_trans before first, Nat.le_trans last after⟩, nested, trivial⟩

theorem Stands.radical {fn : Text} {written : CallNotation} (before : start ≤ low) :
    Stands start high (.call fn [arg] written ⟨start, arg.span.stop⟩) := by
  obtain ⟨first, filled, last, nested⟩ := stands
  have order : start < arg.span.stop := by omega
  exact ⟨Nat.le_refl _, order, last, ⟨Nat.le_trans before first, Nat.le_refl _⟩, nested, trivial⟩

end

mutual

theorem Derives.stands {options : ParseOptions} : ∀ {inBar : Bool} {level : Level} {tokens : List Token} {node : Node}
    {low high : Nat}, Derives options inBar level tokens node → Placed low high tokens → Stands low high node
  | _, _, _, _, _, _, .product derived, placed | _, _, _, _, _, _, .unary derived, placed
  | _, _, _, _, _, _, .power derived, placed | _, _, _, _, _, _, .postfixed derived, placed
  | _, _, _, _, _, _, .primary derived, placed => derived.stands placed
  | _, _, _, _, _, _, .sum left _ right, placed | _, _, _, _, _, _, .times left _ right, placed
  | _, _, _, _, _, _, .raised left _ right, placed => by
    obtain ⟨middle, ahead, _, _, behind⟩ := placed.split
    exact (left.stands ahead).binary ((right.stands behind).wider (by omega) (Nat.le_refl _))
  | _, _, _, _, _, _, .juxtaposed left right _ _ _, placed => by
    obtain ⟨middle, ahead, behind⟩ := placed.split
    exact (left.stands ahead).binary (right.stands behind)
  | _, _, _, _, _, _, .signed _ arg, ⟨first, filled, behind⟩ =>
    ((arg.stands behind).signed (Nat.le_of_lt filled)).wider first (Nat.le_refl _)
  | _, _, _, _, _, _, .factorial arg _, placed => by
    obtain ⟨middle, ahead, first, filled, last⟩ := placed.split
    exact ((arg.stands ahead).factorial (by omega)).wider (Nat.le_refl _) last
  | _, _, _, _, _, _, .number _, placed | _, _, _, _, _, _, .name _ _, placed => by
    obtain ⟨first, filled, last⟩ := placed
    exact ⟨first, filled, last, trivial⟩
  | _, _, _, _, _, _, .group _ inner _, ⟨first, filled, placed⟩ => by
    obtain ⟨middle, within, first', filled', last⟩ := placed.split
    exact ((inner.stands within).group (Nat.le_of_lt filled) (by omega)).wider first last
  | _, _, _, _, _, _, .bars _ _ inner _, ⟨first, filled, placed⟩ => by
    obtain ⟨middle, within, first', filled', last⟩ := placed.split
    exact ((inner.stands within).bars (Nat.le_of_lt filled) (by omega)).wider first last
  | _, _, _, _, _, _, .radical _ _ arg, ⟨first, filled, behind⟩ =>
    ((arg.stands behind).radical (Nat.le_of_lt filled)).wider first (Nat.le_refl _)
  | _, _, _, _, _, _, .empty _ _ _ _ _, ⟨first, filled, first', filled', first'', filled'', last⟩ =>
    .made rfl first (by omega) last trivial
  | _, _, _, _, _, _, .call _ _ _ args _ _ _, ⟨first, filled, first', filled', placed⟩ => by
    obtain ⟨middle, within, first'', filled'', last⟩ := placed.split
    have := within.le
    refine .made rfl first (by omega) last ((args.stand within).wider ⟨?_, ?_⟩)
    · exact Nat.le_trans (Nat.le_of_lt filled) (Nat.le_trans first' (Nat.le_of_lt filled'))
    · exact Nat.le_trans first'' (Nat.le_of_lt filled'')

theorem Arguments.stand {options : ParseOptions} : ∀ {tokens : List Token} {args : List Node} {low high : Nat},
    Arguments options tokens args → Placed low high tokens → Node.AllNested ⟨low, high⟩ args
  | _, _, _, _, .last arg, placed => ⟨(arg.stands placed).holds, (arg.stands placed).nested, trivial⟩
  | _, _, _, _, .more arg _ rest, placed => by
    obtain ⟨middle, ahead, first, filled, behind⟩ := placed.split
    have := behind.le
    have stands := arg.stands ahead
    have others := rest.stand behind
    have before := Nat.le_trans ahead.le (Nat.le_trans first (Nat.le_of_lt filled))
    exact ⟨(stands.wider (Nat.le_refl _) (by omega)).holds, stands.nested, others.wider ⟨before, Nat.le_refl _⟩⟩

end

end Arki.Expr
