import Mathlib.Logic.Function.Basic

/-! Patterns with numbered groups, matched from the left with backtracking, as regular expressions of JavaScript are.

What a pattern takes of a text is told by rules, one for each way to match.
-/

set_option autoImplicit false

namespace Arki.Patterns

variable {α : Type}

inductive Pattern (α : Type) where
  | empty
  | one (accepts : α → Bool)
  /-- As many as there are, and fewer where what follows needs it. -/
  | many (accepts : α → Bool)
  | both (first second : Pattern α)
  | either (first second : Pattern α)
  | optional (pattern : Pattern α)
  | group (number : Nat) (pattern : Pattern α)
  | atEnd

abbrev Groups (α : Type) := Nat → Option (List α)

abbrev Continuation (α : Type) := List α → Groups α → Option (Groups α)

def runMany (accepts : α → Bool) (then_ : List α → Option (Groups α)) : List α → Option (Groups α)
  | [] => then_ []
  | item :: rest => if accepts item then (runMany accepts then_ rest).or (then_ (item :: rest)) else then_ (item :: rest)

def Pattern.run : Pattern α → List α → Groups α → Continuation α → Option (Groups α)
  | .empty, text, groups, then_ => then_ text groups
  | .one accepts, text, groups, then_ =>
    match text with
    | [] => none
    | item :: rest => if accepts item then then_ rest groups else none
  | .many accepts, text, groups, then_ => runMany accepts (fun rest => then_ rest groups) text
  | .both first second, text, groups, then_ => first.run text groups fun rest groups => second.run rest groups then_
  | .either first second, text, groups, then_ => (first.run text groups then_).or (second.run text groups then_)
  | .optional pattern, text, groups, then_ =>
    -- a repetition that took nothing is not tried
    (pattern.run text groups fun rest groups => if rest.length = text.length then none else then_ rest groups).or (then_ text groups)
  | .group number pattern, text, groups, then_ =>
    pattern.run text groups fun rest groups => then_ rest (Function.update groups number (some (text.take (text.length - rest.length))))
  | .atEnd, text, groups, then_ => if text.isEmpty then then_ text groups else none

section

-- The lemmas below unfold these at the same time: their equations are made once, here.
attribute [local simp] Pattern.run runMany

end

/-- `exec` of a pattern that is bound to the start of the text. -/
def Pattern.exec (pattern : Pattern α) (text : List α) : Option (Groups α) := pattern.run text (fun _ => none) fun _ groups => some groups

/-- `exec` of a pattern that may start anywhere. -/
def Pattern.search (pattern : Pattern α) : List α → Option (Groups α)
  | [] => pattern.exec []
  | item :: rest => (pattern.exec (item :: rest)).or (pattern.search rest)

def exactly (accepts : α → Bool) : Nat → Pattern α
  | 0 => .empty
  | more + 1 => .both (.one accepts) (exactly accepts more)

def Takes (pattern : Pattern α) (text rest : List α) (groups after : Groups α) : Prop :=
  ∀ then_ result, then_ rest after = some result → pattern.run text groups then_ = some result

def Refuses (pattern : Pattern α) (text : List α) (groups : Groups α) : Prop := ∀ then_, pattern.run text groups then_ = none

section Rules

variable {pattern first second : Pattern α} {text rest last taken : List α} {groups between after : Groups α} {accepts : α → Bool} {item : α} {number : Nat}

theorem Takes.exec (takes : Takes pattern text rest (fun _ => none) after) : pattern.exec text = some after := takes _ _ rfl

theorem takes_empty : Takes .empty text text groups groups := fun _ _ goes => goes

theorem takes_one (accepted : accepts item = true) : Takes (.one accepts) (item :: rest) rest groups groups := by
  intro then_ result goes
  rw [Pattern.run, if_pos accepted, goes]

theorem refuses_one (refused : ∀ item, text.head? = some item → accepts item = false) : Refuses (.one accepts) text groups := by
  intro then_
  cases text with
  | nil => rfl
  | cons item rest => simp [Pattern.run, refused item rfl]

theorem takes_many (accepted : ∀ item ∈ taken, accepts item = true) (stops : ∀ item, rest.head? = some item → accepts item = false) :
    Takes (.many accepts) (taken ++ rest) rest groups groups := by
  intro then_ result goes
  rw [Pattern.run]
  induction taken with
  | nil =>
    cases rest with
    | nil => exact goes
    | cons item rest =>
      rw [List.nil_append, runMany, if_neg (by rw [stops item rfl]; exact Bool.false_ne_true)]
      exact goes
  | cons item taken ih =>
    have further := ih fun other inside => accepted other (List.mem_cons_of_mem _ inside)
    rw [List.cons_append, runMany, if_pos (accepted item List.mem_cons_self), further, Option.some_or]

theorem Takes.both (left : Takes first text rest groups between) (right : Takes second rest last between after) :
    Takes (.both first second) text last groups after :=
  fun then_ result goes => left _ result (right then_ result goes)

theorem Refuses.both (left : Refuses first text groups) : Refuses (.both first second) text groups := fun _ => left _

theorem refuses_after_one (right : ∀ item rest, text = item :: rest → accepts item = true → Refuses second rest groups) :
    Refuses (.both (.one accepts) second) text groups := by
  intro then_
  cases text with
  | nil => rfl
  | cons item rest =>
    simp only [Pattern.run]
    split
    next accepted => exact right item rest rfl accepted then_
    next => rfl

theorem Takes.left (left : Takes first text rest groups after) : Takes (.either first second) text rest groups after := by
  intro then_ result goes
  rw [Pattern.run, left then_ result goes, Option.some_or]

theorem Takes.right (left : Refuses first text groups) (right : Takes second text rest groups after) :
    Takes (.either first second) text rest groups after := by
  intro then_ result goes
  rw [Pattern.run, left then_, Option.none_or, right then_ result goes]

theorem Takes.optional (takes : Takes pattern text rest groups after) (shorter : rest.length ≠ text.length) :
    Takes (.optional pattern) text rest groups after := by
  intro then_ result goes
  rw [Pattern.run, takes _ result (by rw [if_neg shorter, goes]), Option.some_or]

theorem Refuses.skipped (refused : Refuses pattern text groups) : Takes (.optional pattern) text text groups groups := by
  intro then_ result goes
  rw [Pattern.run, refused, Option.none_or, goes]

theorem Refuses.afterOptional (left : Refuses first text groups) (right : Refuses second text groups) :
    Refuses (.both (.optional first) second) text groups := by
  intro then_
  rw [Pattern.run, Pattern.run, left, Option.none_or, right]

theorem Takes.group (takes : Takes pattern (taken ++ rest) rest groups after) :
    Takes (.group number pattern) (taken ++ rest) rest groups (Function.update after number (some taken)) := by
  intro then_ result goes
  rw [Pattern.run, takes _ result]
  rw [List.length_append, Nat.add_sub_cancel, List.take_left', goes]
  rfl

theorem Refuses.group (refused : Refuses pattern text groups) : Refuses (.group number pattern) text groups := fun _ => refused _

theorem takes_atEnd : Takes (.atEnd : Pattern α) [] [] groups groups := fun _ _ goes => goes

theorem search_append (refused : ∀ item ∈ taken, ∀ rest, pattern.exec (item :: rest) = none) : pattern.search (taken ++ rest) = pattern.search rest := by
  induction taken with
  | nil => rfl
  | cons item taken ih =>
    rw [List.cons_append, Pattern.search, refused item List.mem_cons_self, Option.none_or]
    exact ih fun other inside => refused other (List.mem_cons_of_mem _ inside)

end Rules

end Arki.Patterns
