import Arki.Workflow.Machine
import Mathlib

/-! Step keys and the ids of planned children: texts joined from run ids, node names, visits and indexes. -/

set_option autoImplicit false

namespace Arki.Workflow.Keys

abbrev Text := List Char

/-- `${n}`. -/
def number (n : Nat) : Text := Nat.toDigits 10 n

/-! ### Names -/

def withNode (nodes : List Text) (node : Text) : Except String (List Text) :=
  if node = [] then .error "a node name must not be empty"
  else if node = "next".toList then .error "a node cannot be called 'next', because `next: 'next'` means carry on"
  else if node ∈ nodes then .error s!"node '{String.ofList node}' is declared twice; node names are unique per workflow"
  else .ok (nodes ++ [node])

def startId (id : Text) : Except String Text := if id = [] then .error "id must be a non-empty string" else .ok id

/-! ### Step keys -/

structure Settled where
  path : Text
  phase : StepPhase
  deriving DecidableEq

def visitOf (settled : List Settled) (path : Text) : Nat := (settled.filter (· == ⟨path, .do_⟩)).length + 1

def firstKeyOf (run path : Text) : Text := run ++ ":".toList ++ path ++ ":do".toList

def doKey (run path : Text) (visit : Nat) : Text :=
  if visit = 1 then run ++ ":".toList ++ path ++ ":do".toList else run ++ ":".toList ++ path ++ ":do:".toList ++ number visit

def keyOfNextVisit (settled : List Settled) (run path : Text) : Text := doKey run path (visitOf settled path)

def undoKey (run path : Text) (visit : Nat) : Text :=
  run ++ ":".toList ++ path ++ ":undo".toList ++ (if visit = 1 then [] else ":".toList ++ number visit)

structure StepRow where
  path : Text
  phase : StepPhase
  attempt : Nat
  key : Text

def StepRow.retry (row : StepRow) : StepRow := { row with attempt := row.attempt + 1, key := row.key }

/-! ### Children -/

def childBase (path : Text) (visit : Nat) : Text := if visit = 1 then path else path ++ ":".toList ++ number visit

def maxRunIdLength : Nat := 256

/-- `text.length`, in UTF-16 units. -/
def utf16Length (text : Text) : Nat := (text.map fun c => if c.toNat < 65536 then 1 else 2).sum

def limited (id : Text) : Except String Text :=
  if maxRunIdLength < utf16Length id then
    .error s!"the child run id \"{String.ofList id}\" is longer than {maxRunIdLength} characters"
  else .ok id

/-- What `.` does not match. -/
def isLineEnd (c : Char) : Bool := c.toNat == 10 || c.toNat == 13 || c.toNat == 8232 || c.toNat == 8233

/-- `/^(.*)~(\d+)$/`. -/
def retriedChild (id : Text) : Option (Text × Text) :=
  let digits := (id.reverse.takeWhile Char.isDigit).reverse
  match id.reverse.dropWhile Char.isDigit with
  | '~' :: stem => if digits.isEmpty || stem.any isLineEnd then none else some (stem.reverse, digits)
  | _ => none

def maxExact : Nat := 2 ^ 53

/-- `${Number(digits) + 1}`. Past the exact integers it is what `rounded` says. -/
def plusOne (rounded : Nat → Text) (n : Nat) : Text := if n < maxExact then number (n + 1) else rounded n

def nextChildId (rounded : Nat → Text) (id : Text) : Text :=
  match retriedChild id with
  | some (stem, digits) => stem ++ '~' :: plusOne rounded (Nat.ofDigitChars 10 digits 0)
  | none => id ++ '~' :: plusOne rounded 1

def retriedChildId (rounded : Nat → Text) (id : Text) : Except String Text := limited (nextChildId rounded id)

inductive FanKind where
  | child
  | map
  | parallel
  deriving DecidableEq

structure FanNode where
  name : Text
  kind : FanKind
  deriving DecidableEq

inductive Spot where
  | only
  | item (index : Nat)
  | branch (name : Text)
  deriving DecidableEq

/-- `/^[A-Za-z0-9_-]+$/`. -/
def isBranchName (name : Text) : Bool := !name.isEmpty && name.all fun c => c.isAlphanum || c == '_' || c == '-'

def Spot.fits : Spot → FanKind → Bool
  | only, .child | item _, .map => true
  | branch name, .parallel => isBranchName name
  | _, _ => false

structure Planned where
  node : FanNode
  visit : Nat
  spot : Spot
  retries : Nat
  counted : 1 ≤ visit
  fits : spot.fits node.kind = true

def Spot.mark : Spot → Text
  | only => []
  | item index => '[' :: number index ++ "]".toList
  | branch name => '[' :: name ++ "]".toList

def Planned.firstId (run : Text) (child : Planned) : Text :=
  run ++ "/".toList ++ childBase child.node.name child.visit ++ child.spot.mark

def retryId (rounded : Nat → Text) (id : Text) : Nat → Except String Text
  | 0 => .ok id
  | retries + 1 => (retryId rounded id retries).bind (retriedChildId rounded)

def Planned.id (rounded : Nat → Text) (run : Text) (child : Planned) : Except String Text :=
  (limited (child.firstId run)).bind fun id => retryId rounded id child.retries

/-! ### Numbers in texts -/

theorem number_injective {m n : Nat} (same : number m = number n) : m = n := by
  have read := congrArg (Nat.ofDigitChars 10 · 0) same
  simpa only [number, Nat.ofDigitChars_ten_toDigits] using read

theorem isDigit_number {c : Char} {n : Nat} (inside : c ∈ number n) : c.isDigit = true :=
  Nat.isDigit_of_mem_toDigits (by decide) (by decide) inside

theorem not_mem_number {c : Char} {n : Nat} (other : c.isDigit = false) : c ∉ number n := by
  intro inside
  rw [isDigit_number inside] at other
  cases other

theorem number_ne_nil {n : Nat} : number n ≠ [] := Nat.toDigits_ne_nil

theorem digits_append {digits digits' rest rest' : Text} (all : ∀ c ∈ digits, c.isDigit = true) (all' : ∀ c ∈ digits', c.isDigit = true)
    (stops : ∀ c ∈ rest.head?, c.isDigit = false) (stops' : ∀ c ∈ rest'.head?, c.isDigit = false)
    (same : digits ++ rest = digits' ++ rest') : digits = digits' ∧ rest = rest' := by
  have taken (digits rest : Text) (all : ∀ c ∈ digits, c.isDigit = true) (stops : ∀ c ∈ rest.head?, c.isDigit = false) :
      (digits ++ rest).takeWhile Char.isDigit = digits := by
    rw [List.takeWhile_append_of_pos all]
    cases rest with
    | nil => simp
    | cons c rest =>
      have other := stops c rfl
      rw [List.takeWhile_cons_of_neg (by simp [other]), List.append_nil]
  have first := taken digits rest all stops
  rw [same, taken digits' rest' all' stops'] at first
  cases first
  exact ⟨rfl, List.append_cancel_left same⟩

/-! ### Step keys differ -/

structure Visit where
  run : Text
  path : Text
  phase : StepPhase
  visit : Nat
  counted : 1 ≤ visit

def Visit.key (step : Visit) : Text :=
  match step.phase with
  | .do_ => doKey step.run step.path step.visit
  | .undo => undoKey step.run step.path step.visit

def visitMark (visit : Nat) : Text := if visit = 1 then [] else ':' :: number visit

def phaseMark : StepPhase → Text
  | .do_ => ":do".toList
  | .undo => ":undo".toList

def Visit.mark (step : Visit) : Text := phaseMark step.phase ++ visitMark step.visit

variable {step other : Visit}

section

-- The lemmas below unfold these at the same time: their equations are made once, here.
attribute [local simp] phaseMark visitMark Visit.mark Visit.key doKey undoKey

end

theorem key_eq (step : Visit) : step.key = step.run ++ ':' :: step.path ++ step.mark := by
  obtain ⟨run, path, phase, visit, counted⟩ := step
  cases phase with
  | do_ =>
    by_cases first : visit = 1
    · simp [Visit.key, doKey, Visit.mark, phaseMark, visitMark, first]
    · simp [Visit.key, doKey, Visit.mark, phaseMark, visitMark, first]
  | undo =>
    by_cases first : visit = 1
    · simp [Visit.key, undoKey, Visit.mark, phaseMark, visitMark, first]
    · simp [Visit.key, undoKey, Visit.mark, phaseMark, visitMark, first]

theorem count_mark (step : Visit) : step.mark.count ':' = if step.visit = 1 then 1 else 2 := by
  obtain ⟨run, path, phase, visit, counted⟩ := step
  have none_ : (number visit).count ':' = 0 := List.count_eq_zero.mpr (not_mem_number (by decide))
  cases phase with
  | do_ | undo =>
    by_cases first : visit = 1
    · simp [Visit.mark, phaseMark, visitMark, first]
    · simp [Visit.mark, phaseMark, visitMark, first, none_]

theorem mark_head (step : Visit) : ∃ rest, step.mark = ':' :: rest := by
  obtain ⟨run, path, phase, visit, counted⟩ := step
  cases phase with
  | do_ => exact ⟨"do".toList ++ visitMark visit, rfl⟩
  | undo => exact ⟨"undo".toList ++ visitMark visit, rfl⟩

theorem mark_last (step : Visit) : ∃ c, step.mark.getLast? = some c ∧ (c.isDigit = true ↔ step.visit ≠ 1) := by
  obtain ⟨run, path, phase, visit, counted⟩ := step
  by_cases first : visit = 1
  · refine ⟨'o', ?_, by simp [first]⟩
    cases phase with
    | do_ => simp [Visit.mark, phaseMark, visitMark, first]
    | undo => simp [Visit.mark, phaseMark, visitMark, first]
  · have last : (number visit).getLast? = some ((number visit).getLast number_ne_nil) := List.getLast?_eq_some_getLast number_ne_nil
    generalize (number visit).getLast number_ne_nil = c at last
    refine ⟨c, ?_, fun _ => first, fun _ => isDigit_number (List.mem_of_getLast? last)⟩
    have some_ : ':' :: number visit ≠ [] := List.cons_ne_nil _ _
    show (phaseMark phase ++ visitMark visit).getLast? = some c
    rw [visitMark, if_neg first, List.getLast?_append_of_ne_nil _ some_, List.getLast?_cons_of_ne_nil number_ne_nil, last]

theorem mark_suffix {before : Text} (same : step.mark = before ++ other.mark) :
    before = [] ∧ step.phase = other.phase ∧ step.visit = other.visit := by
  have nothing : before = [] := by
    cases before with
    | nil => rfl
    | cons c before =>
      obtain ⟨rest, head⟩ := mark_head step
      have isColon : c = ':' := by
        rw [head] at same
        exact (List.cons.inj same).1.symm
      have counts := congrArg (List.count ':') same
      rw [count_mark, List.count_append, count_mark, isColon, List.count_cons_self] at counts
      obtain ⟨last, isLast, digit⟩ := mark_last step
      obtain ⟨last', isLast', digit'⟩ := mark_last other
      have some_ : other.mark ≠ [] := by
        obtain ⟨rest, is⟩ := mark_head other
        rw [is]
        exact List.cons_ne_nil _ _
      rw [same, List.getLast?_append_of_ne_nil _ some_, isLast'] at isLast
      cases isLast
      -- a first visit has one colon, a later one two
      have agree : step.visit ≠ 1 ↔ other.visit ≠ 1 := digit.symm.trans digit'
      by_cases first : step.visit = 1
      · rw [if_pos first] at counts
        split at counts
        · omega
        · omega
      · rw [if_neg first, if_neg (agree.mp first)] at counts
        omega
  rw [nothing, List.nil_append] at same
  refine ⟨nothing, ?_⟩
  have counts := congrArg (List.count ':') same
  rw [count_mark, count_mark] at counts
  have phases : step.phase = other.phase := by
    unfold Visit.mark at same
    cases one : step.phase with
    | do_ =>
      cases two : other.phase with
      | do_ => rfl
      | undo =>
        rw [one, two] at same
        have differ := (List.cons.inj (List.cons.inj same).2).1
        revert differ
        decide
    | undo =>
      cases two : other.phase with
      | undo => rfl
      | do_ =>
        rw [one, two] at same
        have differ := (List.cons.inj (List.cons.inj same).2).1
        revert differ
        decide
  refine ⟨phases, ?_⟩
  unfold Visit.mark at same
  rw [phases] at same
  have visits := List.append_cancel_left same
  unfold visitMark at visits
  by_cases first : step.visit = 1
  · rw [if_pos first] at counts
    split at counts
    · next also => rw [first, also]
    · omega
  · rw [if_neg first] at counts visits
    split at counts
    · omega
    · next also =>
      rw [if_neg also] at visits
      exact number_injective (List.cons.inj visits).2

/-- One run id is the other one, a colon and the beginning of a node name, and the rest of that name is the other node. -/
def Crossed (step other : Visit) : Prop :=
  step.phase = other.phase ∧ step.visit = other.visit ∧ ∃ between : Text,
    (other.run = step.run ++ ':' :: between ∧ step.path = between ++ ':' :: other.path) ∨
      step.run = other.run ++ ':' :: between ∧ other.path = between ++ ':' :: step.path

theorem joined_eq {run run' path path' : Text} : run ++ ':' :: path = run' ++ ':' :: path' ↔ (run = run' ∧ path = path') ∨
    ∃ between : Text, (run' = run ++ ':' :: between ∧ path = between ++ ':' :: path') ∨
      run = run' ++ ':' :: between ∧ path' = between ++ ':' :: path := by
  constructor
  · intro same
    rcases List.append_eq_append_iff.mp same with ⟨more, isRun, isPath⟩ | ⟨more, isRun, isPath⟩
    · cases more with
      | nil =>
        rw [List.append_nil] at isRun
        exact .inl ⟨isRun.symm, (List.cons.inj isPath).2⟩
      | cons c more =>
        obtain ⟨isColon, rest⟩ := List.cons.inj isPath
        exact .inr ⟨more, .inl ⟨by rw [isRun, ← isColon], rest⟩⟩
    · cases more with
      | nil =>
        rw [List.append_nil] at isRun
        exact .inl ⟨isRun, (List.cons.inj isPath).2.symm⟩
      | cons c more =>
        obtain ⟨isColon, rest⟩ := List.cons.inj isPath
        exact .inr ⟨more, .inr ⟨by rw [isRun, ← isColon], rest⟩⟩
  · rintro (⟨rfl, rfl⟩ | ⟨between, ⟨rfl, rfl⟩ | ⟨rfl, rfl⟩⟩)
    · rfl
    · simp
    · simp

theorem keys_eq : step.key = other.key ↔ step.run ++ ':' :: step.path = other.run ++ ':' :: other.path ∧ step.phase = other.phase ∧
    step.visit = other.visit := by
  rw [key_eq, key_eq]
  constructor
  · intro same
    rcases List.append_eq_append_iff.mp same with ⟨more, isFront, isMark⟩ | ⟨more, isFront, isMark⟩
    · obtain ⟨rfl, phase, visit⟩ := mark_suffix isMark
      rw [List.append_nil] at isFront
      exact ⟨isFront.symm, phase, visit⟩
    · obtain ⟨rfl, phase, visit⟩ := mark_suffix isMark
      rw [List.append_nil] at isFront
      exact ⟨isFront, phase.symm, visit.symm⟩
  · rintro ⟨front, phase, visit⟩
    unfold Visit.mark
    rw [front, phase, visit]

/-- Two different steps have different keys if, and only if, their names do not cross. -/
theorem keys_differ (apart : step ≠ other) : step.key ≠ other.key ↔ ¬ Crossed step other := by
  rw [Ne, keys_eq, joined_eq]
  apply not_congr
  constructor
  · rintro ⟨⟨run, path⟩ | crossed, phase, visit⟩
    · refine absurd ?_ apart
      obtain ⟨_, _, _, _, _⟩ := step
      obtain ⟨_, _, _, _, _⟩ := other
      cases run
      cases path
      cases phase
      cases visit
      rfl
    · exact ⟨phase, visit, crossed⟩
  · rintro ⟨phase, visit, crossed⟩
    exact ⟨.inr crossed, phase, visit⟩

/-! ### What a retry makes of an id -/

variable {rounded : Nat → Text} {id stem digits : Text}

def Lined (text : Text) : Prop := ∃ c ∈ text, isLineEnd c = true

instance (text : Text) : Decidable (Lined text) := decidable_of_iff (text.any isLineEnd = true) List.any_eq_true

theorem lined_append {left right : Text} : Lined (left ++ right) ↔ Lined left ∨ Lined right := by
  simp only [Lined, List.mem_append, or_and_right, exists_or]

theorem not_lined_digits (all : ∀ c ∈ digits, c.isDigit = true) : ¬ Lined digits := by
  rintro ⟨c, inside, ends⟩
  have digit := all c inside
  simp only [isLineEnd, Bool.or_eq_true, beq_iff_eq] at ends
  simp only [Char.isDigit, Bool.and_eq_true, decide_eq_true_eq, ge_iff_le] at digit
  have low : 48 ≤ c.toNat := digit.1
  have high : c.toNat ≤ 57 := digit.2
  omega

theorem isLineEnd_iff {c : Char} : isLineEnd c = true ↔ c ∈ [Char.ofNat 10, Char.ofNat 13, Char.ofNat 8232, Char.ofNat 8233] := by
  constructor
  · intro ends
    simp only [isLineEnd, Bool.or_eq_true, beq_iff_eq] at ends
    rw [← Char.ofNat_toNat c]
    rcases ends with ((is | is) | is) | is
    all_goals
      rw [is]
      decide
  · intro inside
    simp only [List.mem_cons, List.not_mem_nil, or_false] at inside
    rcases inside with rfl | rfl | rfl | rfl
    all_goals decide

theorem isBranchName_mem {name : Text} (named : isBranchName name = true) {c : Char} (inside : c ∈ name) :
    isLineEnd c = false ∧ c ≠ ']' := by
  unfold isBranchName at named
  have one := List.all_eq_true.mp (Bool.and_eq_true_iff.mp named).2 c inside
  constructor
  · cases ends : isLineEnd c with
    | false => rfl
    | true =>
      have among := isLineEnd_iff.mp ends
      revert one
      simp only [List.mem_cons, List.not_mem_nil, or_false] at among
      rcases among with rfl | rfl | rfl | rfl
      all_goals decide
  · rintro rfl
    revert one
    decide

theorem retriedChild_mark (all : ∀ c ∈ digits, c.isDigit = true) (some_ : digits ≠ []) (plain : ¬ Lined stem) :
    retriedChild (stem ++ '~' :: digits) = some (stem, digits) := by
  have back : (stem ++ '~' :: digits).reverse = digits.reverse ++ '~' :: stem.reverse := by simp
  have taken : (stem ++ '~' :: digits).reverse.takeWhile Char.isDigit = digits.reverse := by
    rw [back, List.takeWhile_append_of_pos (by simpa using all), List.takeWhile_cons_of_neg (by decide), List.append_nil]
  have dropped : (stem ++ '~' :: digits).reverse.dropWhile Char.isDigit = '~' :: stem.reverse := by
    rw [back, List.dropWhile_append_of_pos (by simpa using all), List.dropWhile_cons_of_neg (by decide)]
  have noEnd : stem.reverse.any isLineEnd = false := by
    rw [List.any_reverse, List.any_eq_false]
    exact fun c inside ends => plain ⟨c, inside, ends⟩
  unfold retriedChild
  rw [taken, dropped, List.reverse_reverse]
  simp [noEnd, some_]

theorem retriedChild_some (found : retriedChild id = some (stem, digits)) :
    id = stem ++ '~' :: digits ∧ (∀ c ∈ digits, c.isDigit = true) ∧ digits ≠ [] ∧ ¬ Lined stem := by
  unfold retriedChild at found
  dsimp only at found
  split at found
  · next back is =>
    split at found
    · cases found
    · next fine =>
      cases found
      simp only [Bool.or_eq_true, not_or, Bool.not_eq_true, List.isEmpty_eq_false_iff, List.any_eq_false] at fine
      refine ⟨?_, fun c inside => ?_, fine.1, ?_⟩
      · have whole := congrArg List.reverse (@List.takeWhile_append_dropWhile _ Char.isDigit id.reverse)
        rw [is, List.reverse_reverse] at whole
        exact whole.symm.trans (by simp)
      · exact List.mem_takeWhile_imp (List.mem_reverse.mp inside)
      · rintro ⟨c, inside, ends⟩
        have plain := fine.2 c (List.mem_reverse.mp inside)
        rw [ends] at plain
        cases plain
  · cases found

theorem retriedChild_lined (lined : Lined id) : retriedChild id = none := by
  cases found : retriedChild id with
  | none => rfl
  | some parts =>
    obtain ⟨stem, digits⟩ := parts
    obtain ⟨rfl, all, -, plain⟩ := retriedChild_some found
    rcases lined_append.mp lined with inStem | ⟨c, inside, ends⟩
    · exact absurd inStem plain
    · rcases List.mem_cons.mp inside with rfl | inside
      · cases ends
      · exact absurd ⟨c, inside, ends⟩ (not_lined_digits all)

def again (rounded : Nat → Text) (id : Text) : Nat → Text
  | 0 => id
  | retries + 1 => nextChildId rounded (again rounded id retries)

theorem limited_ok {text : Text} (ok : limited text = .ok id) : id = text := by
  unfold limited at ok
  split at ok
  · cases ok
  · cases ok
    rfl

theorem retryId_ok {start : Text} : ∀ {retries : Nat} {id : Text}, retryId rounded start retries = .ok id → id = again rounded start retries := by
  intro retries
  induction retries with
  | zero =>
    intro id ok
    cases ok
    rfl
  | succ retries ih =>
    intro id ok
    unfold retryId at ok
    cases before : retryId rounded start retries with
    | error _ =>
      rw [before] at ok
      cases ok
    | ok middle =>
      rw [before] at ok
      have next := limited_ok ok
      rw [next, ih before]
      rfl

theorem id_ok {run : Text} {child : Planned} (ok : child.id rounded run = .ok id) :
    id = again rounded (child.firstId run) child.retries := by
  unfold Planned.id at ok
  cases first : limited (child.firstId run) with
  | error _ =>
    rw [first] at ok
    cases ok
  | ok start =>
    rw [first] at ok
    rw [retryId_ok ok, limited_ok first]

/-- A retry of an id with a line end adds a mark each time: `.` does not cross the line end. -/
theorem again_lined (lined : Lined id) (retries : Nat) :
    again rounded id retries = id ++ (List.replicate retries "~2".toList).flatten := by
  induction retries with
  | zero => exact (List.append_nil id).symm
  | succ retries ih =>
    have still : Lined (again rounded id retries) := by
      rw [ih]
      exact lined_append.mpr (.inl lined)
    unfold again nextChildId
    rw [retriedChild_lined still, ih, List.replicate_succ', List.flatten_append, List.append_assoc]
    rfl

def retryMark (retries : Nat) : Text := if retries = 0 then [] else '~' :: number (retries + 1)

theorem plusOne_eq {n : Nat} (exact_ : n < maxExact) : plusOne rounded n = number (n + 1) := if_pos exact_

theorem nextChildId_mark {n : Nat} (plain : ¬ Lined stem) (exact_ : n < maxExact) :
    nextChildId rounded (stem ++ '~' :: number n) = stem ++ '~' :: number (n + 1) := by
  unfold nextChildId
  rw [retriedChild_mark (fun _ => isDigit_number) number_ne_nil plain]
  show stem ++ '~' :: plusOne rounded (Nat.ofDigitChars 10 (Nat.toDigits 10 n) 0) = _
  rw [Nat.ofDigitChars_ten_toDigits, plusOne_eq exact_]

theorem again_plain (plain : ¬ Lined id) (none_ : retriedChild id = none) {retries : Nat} (exact_ : retries < maxExact) :
    again rounded id retries = id ++ retryMark retries := by
  induction retries with
  | zero => exact (List.append_nil id).symm
  | succ retries ih =>
    rw [again, ih (by omega)]
    by_cases first : retries = 0
    · have small : 1 < maxExact := by decide
      unfold nextChildId
      rw [first, retryMark, if_pos rfl, List.append_nil, none_]
      show id ++ '~' :: plusOne rounded 1 = _
      rw [plusOne_eq small]
      rfl
    · rw [retryMark, if_neg first, nextChildId_mark plain (by omega)]
      rfl

theorem again_numbered (found : retriedChild id = some (stem, digits)) {retries : Nat}
    (exact_ : Nat.ofDigitChars 10 digits 0 + retries < maxExact) :
    again rounded id (retries + 1) = stem ++ '~' :: number (Nat.ofDigitChars 10 digits 0 + retries + 1) := by
  induction retries with
  | zero =>
    show nextChildId rounded id = _
    unfold nextChildId
    rw [found]
    show stem ++ '~' :: plusOne rounded _ = _
    rw [plusOne_eq (by omega)]
  | succ retries ih =>
    obtain ⟨-, -, -, plain⟩ := retriedChild_some found
    rw [again, ih (by omega), nextChildId_mark plain (by omega)]
    rfl

/-! ### The name and the marks of a child -/

def Planned.renumbered (run : Text) (child : Planned) : Option (Text × Text) :=
  if (Lined run ∨ Lined child.node.name) ∨ child.visit ≠ 1 ∨ child.spot ≠ .only ∨ child.retries = 0 then none
  else retriedChild child.node.name

/-- The name in the id of a child: the node's, less the number that retries count up. -/
def Planned.written (run : Text) (child : Planned) : Text := (child.renumbered run).elim child.node.name Prod.fst

def Planned.marks (run : Text) (child : Planned) : Text :=
  match child.renumbered run with
  | some (_, digits) => '~' :: number (Nat.ofDigitChars 10 digits 0 + child.retries)
  | none => visitMark child.visit ++ (child.spot.mark ++
      if Lined run ∨ Lined child.node.name then (List.replicate child.retries "~2".toList).flatten else retryMark child.retries)

def Planned.Exact (child : Planned) : Prop :=
  child.retries < maxExact ∧ ∀ parts ∈ retriedChild child.node.name, Nat.ofDigitChars 10 parts.2 0 + child.retries ≤ maxExact

variable {run : Text} {child : Planned}

theorem mark_plain (child : Planned) : ¬ Lined (visitMark child.visit ++ child.spot.mark) := by
  obtain ⟨node, visit, spot, retries, counted, fits⟩ := child
  have visits : ¬ Lined (visitMark visit) := by
    unfold visitMark
    split
    · rintro ⟨_, inside, _⟩
      cases inside
    · rintro ⟨c, inside, ends⟩
      rcases List.mem_cons.mp inside with rfl | inside
      · cases ends
      · exact not_lined_digits (fun _ => isDigit_number) ⟨c, inside, ends⟩
  have closing : ¬ Lined "]".toList := by decide
  have spots : ¬ Lined spot.mark := by
    cases spot with
    | only =>
      rintro ⟨_, inside, _⟩
      cases inside
    | item index =>
      rintro ⟨c, inside, ends⟩
      rcases List.mem_cons.mp inside with rfl | inside
      · cases ends
      · rcases List.mem_append.mp inside with digit | last
        · exact not_lined_digits (fun _ => isDigit_number) ⟨c, digit, ends⟩
        · exact closing ⟨c, last, ends⟩
    | branch name =>
      have named : isBranchName name = true := by
        cases kind : node.kind with
        | parallel =>
          rw [kind] at fits
          exact fits
        | child | map =>
          rw [kind] at fits
          cases fits
      rintro ⟨c, inside, ends⟩
      rcases List.mem_cons.mp inside with rfl | inside
      · cases ends
      · rcases List.mem_append.mp inside with letter | last
        · rw [(isBranchName_mem named letter).1] at ends
          cases ends
        · exact closing ⟨c, last, ends⟩
  rw [lined_append]
  exact fun either => either.elim visits spots

theorem firstId_eq (run : Text) (child : Planned) :
    child.firstId run = (run ++ '/' :: child.node.name) ++ (visitMark child.visit ++ child.spot.mark) := by
  unfold Planned.firstId childBase visitMark
  split
  · simp
  · simp

theorem firstId_lined : Lined (child.firstId run) ↔ Lined run ∨ Lined child.node.name := by
  have slash : ¬ Lined ("/".toList : Text) := by decide
  have front : Lined (run ++ '/' :: child.node.name) ↔ Lined run ∨ Lined child.node.name := by
    rw [← List.singleton_append, lined_append, lined_append]
    exact ⟨fun either => either.imp_right fun rest => rest.resolve_left slash, fun either => either.imp_right .inr⟩
  rw [firstId_eq, lined_append, front]
  exact ⟨fun either => either.resolve_right (mark_plain child), .inl⟩

theorem retriedChild_marked (front : Text) (marked : child.visit ≠ 1 ∨ child.spot ≠ .only) :
    retriedChild (front ++ (visitMark child.visit ++ child.spot.mark)) = none := by
  cases found : retriedChild (front ++ (visitMark child.visit ++ child.spot.mark)) with
  | none => rfl
  | some parts =>
    obtain ⟨stem, digits⟩ := parts
    obtain ⟨is, all, some_, -⟩ := retriedChild_some found
    have back := congrArg List.reverse is
    have allBack : ∀ c ∈ digits.reverse, c.isDigit = true := by simpa using all
    obtain ⟨last, more, ends⟩ := List.exists_cons_of_ne_nil (fun none_ => some_ (List.reverse_eq_nil_iff.mp none_) : digits.reverse ≠ [])
    have digit : last.isDigit = true := allBack last (by rw [ends]; exact List.mem_cons_self)
    have bracket (before : Text) : front ++ (visitMark child.visit ++ ('[' :: before ++ "]".toList)) ≠ stem ++ '~' :: digits := by
      intro same
      have reversed := congrArg List.reverse same
      simp only [List.reverse_append, List.reverse_cons, ends] at reversed
      have sign := (List.cons.inj reversed).1
      rw [← sign] at digit
      cases digit
    cases spot : child.spot with
    | item index =>
      rw [spot] at is
      exact absurd is (bracket _)
    | branch name =>
      rw [spot] at is
      exact absurd is (bracket _)
    | only =>
      have later : child.visit ≠ 1 := marked.resolve_right fun other => other spot
      rw [spot, visitMark, if_neg later] at back
      simp only [Spot.mark, List.append_nil, List.reverse_append, List.reverse_cons, List.append_assoc, List.singleton_append] at back
      have signs := (digits_append (by simpa using fun _ => isDigit_number) allBack (by simp) (by simp) back).2
      exact absurd (List.cons.inj signs).1 (by decide)

theorem retriedChild_front {front name : Text} (plain : ¬ (Lined front ∨ Lined name)) :
    retriedChild (front ++ '/' :: name) = (retriedChild name).map fun parts => (front ++ '/' :: parts.1, parts.2) := by
  have slash : ¬ Lined ("/".toList : Text) := by decide
  have joined (rest : Text) : Lined (front ++ '/' :: rest) → Lined front ∨ Lined rest := by
    rw [← List.singleton_append, lined_append, lined_append]
    exact fun either => either.imp_right fun rest => rest.resolve_left slash
  cases found : retriedChild name with
  | some parts =>
    obtain ⟨stem, digits⟩ := parts
    obtain ⟨rfl, all, some_, noEnd⟩ := retriedChild_some found
    have whole : front ++ '/' :: (stem ++ '~' :: digits) = (front ++ '/' :: stem) ++ '~' :: digits := by simp
    rw [whole, retriedChild_mark all some_]
    · rfl
    · exact fun lined => (joined stem lined).elim (fun inFront => plain (.inl inFront)) noEnd
  | none =>
    cases whole : retriedChild (front ++ '/' :: name) with
    | none => rfl
    | some parts =>
      obtain ⟨stem, digits⟩ := parts
      obtain ⟨is, all, some_, noEnd⟩ := retriedChild_some whole
      rcases List.append_eq_append_iff.mp is with ⟨more, isStem, isName⟩ | ⟨more, isFront, isDigits⟩
      · cases more with
        | nil =>
          exact absurd (List.cons.inj isName).1 (by decide)
        | cons c more =>
          obtain ⟨-, isName⟩ := List.cons.inj isName
          have plainMore : ¬ Lined more := by
            intro lined
            apply plain
            rw [isName]
            exact .inr (lined_append.mpr (.inl lined))
          rw [isName] at found
          cases found.symm.trans (retriedChild_mark all some_ plainMore)
      · cases more with
        | nil =>
          exact absurd (List.cons.inj isDigits).1 (by decide)
        | cons c more =>
          obtain ⟨-, isDigits⟩ := List.cons.inj isDigits
          have digit := all '/' (by rw [isDigits]; simp)
          cases digit

theorem again_eq (exact_ : child.Exact) :
    again rounded (child.firstId run) child.retries = run ++ '/' :: (child.written run ++ child.marks run) := by
  by_cases lined : Lined run ∨ Lined child.node.name
  · have none_ : child.renumbered run = none := if_pos (.inl lined)
    rw [again_lined (firstId_lined.mpr lined), firstId_eq, Planned.written, Planned.marks, none_]
    simp [lined]
  have plain : ¬ Lined (child.firstId run) := fun first => lined (firstId_lined.mp first)
  by_cases marked : child.visit ≠ 1 ∨ child.spot ≠ .only
  · have none_ : child.renumbered run = none := if_pos (.inr (marked.imp_right .inl))
    have first : retriedChild (child.firstId run) = none := by
      rw [firstId_eq]
      exact retriedChild_marked _ marked
    rw [again_plain plain first exact_.1, firstId_eq, Planned.written, Planned.marks, none_]
    simp [lined]
  simp only [not_or, ne_eq, not_not] at marked
  have start : child.firstId run = run ++ '/' :: child.node.name := by
    rw [firstId_eq, marked.1, marked.2]
    simp [visitMark, Spot.mark]
  have first := retriedChild_front lined
  rw [← start] at first
  cases found : retriedChild child.node.name with
  | none =>
    have none_ : child.renumbered run = none := by
      unfold Planned.renumbered
      split
      · rfl
      · exact found
    rw [found] at first
    rw [again_plain plain first exact_.1, start, Planned.written, Planned.marks, none_]
    simp [lined, marked, visitMark, Spot.mark]
  | some parts =>
    obtain ⟨stem, digits⟩ := parts
    rw [found] at first
    cases count : child.retries with
    | zero =>
      have none_ : child.renumbered run = none := if_pos (.inr (.inr (.inr count)))
      rw [again, start, Planned.written, Planned.marks, none_]
      simp [lined, marked, visitMark, Spot.mark, count, retryMark]
    | succ retries =>
      have is : child.renumbered run = some (stem, digits) := by
        unfold Planned.renumbered
        rw [if_neg, found]
        simp [lined, marked, count]
      have most := exact_.2 _ (Option.mem_def.mpr found)
      rw [count] at most
      rw [again_numbered first (by simp only at most ⊢; omega), Planned.written, Planned.marks, is, count]
      simp [Nat.add_assoc]

/-! ### Children of one node -/

def Tail (text : Text) : Prop := ∀ c ∈ text.head?, c = '~'

theorem Tail.nil : Tail [] := nofun

theorem Tail.cons {rest : Text} : Tail ('~' :: rest) := fun _ is => (Option.some.inj is).symm

theorem bracket_split {text text' rest rest' : Text} (closed : ']' ∉ text) (closed' : ']' ∉ text')
    (same : text ++ ']' :: rest = text' ++ ']' :: rest') : text = text' ∧ rest = rest' := by
  rcases List.append_eq_append_iff.mp same with ⟨more, is, others⟩ | ⟨more, is, others⟩
  · cases more with
    | nil => exact ⟨by simpa using is.symm, (List.cons.inj others).2⟩
    | cons c more =>
      obtain ⟨sign, -⟩ := List.cons.inj others
      exact absurd (by rw [is, ← sign]; simp) closed'
  · cases more with
    | nil => exact ⟨by simpa using is, (List.cons.inj others).2.symm⟩
    | cons c more =>
      obtain ⟨sign, -⟩ := List.cons.inj others
      exact absurd (by rw [is, ← sign]; simp) closed

theorem spot_inj {spot spot' : Spot} {kind : FanKind} (fits : spot.fits kind = true) (fits' : spot'.fits kind = true)
    {tail tail' : Text} (same : spot.mark ++ tail = spot'.mark ++ tail') : spot = spot' ∧ tail = tail' := by
  cases kind with
  | child =>
    cases spot with
    | only =>
      cases spot' with
      | only => exact ⟨rfl, same⟩
      | _ => cases fits'
    | _ => cases fits
  | map =>
    cases spot with
    | item index =>
      cases spot' with
      | item index' =>
        simp only [Spot.mark, List.cons_append, List.cons.injEq, true_and, List.append_assoc] at same
        obtain ⟨digits, rest⟩ := bracket_split (not_mem_number (by decide)) (not_mem_number (by decide)) same
        exact ⟨congrArg Spot.item (number_injective digits), rest⟩
      | _ => cases fits'
    | _ => cases fits
  | parallel =>
    cases spot with
    | branch name =>
      cases spot' with
      | branch name' =>
        simp only [Spot.mark, List.cons_append, List.cons.injEq, true_and, List.append_assoc] at same
        have closed {name : Text} (named : isBranchName name = true) : ']' ∉ name := fun inside => (isBranchName_mem named inside).2 rfl
        obtain ⟨rfl, rest⟩ := bracket_split (closed fits) (closed fits') same
        exact ⟨rfl, rest⟩
      | _ => cases fits'
    | _ => cases fits

theorem spot_head (spot : Spot) {tail : Text} (isTail : Tail tail) : ∀ c ∈ (spot.mark ++ tail).head?, c.isDigit = false ∧ c ≠ ':' := by
  intro c is
  cases spot with
  | only =>
    rw [isTail c is]
    decide
  | item index | branch name =>
    cases Option.mem_def.mp is
    decide

theorem marks_inj {visit visit' : Nat} {spot spot' : Spot} {kind : FanKind} (fits : spot.fits kind = true) (fits' : spot'.fits kind = true)
    {tail tail' : Text} (isTail : Tail tail) (isTail' : Tail tail')
    (same : visitMark visit ++ (spot.mark ++ tail) = visitMark visit' ++ (spot'.mark ++ tail')) :
    visit = visit' ∧ spot = spot' ∧ tail = tail' := by
  have head := spot_head spot isTail
  have head' := spot_head spot' isTail'
  unfold visitMark at same
  by_cases first : visit = 1
  · rw [if_pos first] at same
    by_cases first' : visit' = 1
    · rw [if_pos first'] at same
      exact ⟨first.trans first'.symm, spot_inj fits fits' same⟩
    · rw [if_neg first', List.nil_append] at same
      exact absurd rfl (head ':' (by rw [same]; rfl)).2
  · rw [if_neg first] at same
    by_cases first' : visit' = 1
    · rw [if_pos first', List.nil_append] at same
      exact absurd rfl ( head' ':' (by rw [← same]; rfl)).2
    · rw [if_neg first'] at same
      obtain ⟨-, rest⟩ := List.cons.inj same
      obtain ⟨digits, marks⟩ := digits_append (fun _ => isDigit_number) (fun _ => isDigit_number) (fun c is => (head c is).1)
        (fun c is => (head' c is).1) rest
      exact ⟨number_injective digits, spot_inj fits fits' marks⟩

theorem retryMark_tail (retries : Nat) : Tail (retryMark retries) := by
  unfold retryMark
  split
  · exact .nil
  · exact .cons

theorem repeated_tail (retries : Nat) : Tail (List.replicate retries "~2".toList).flatten := by
  cases retries with
  | zero => exact .nil
  | succ retries =>
    rw [List.replicate_succ, List.flatten_cons]
    exact .cons

theorem retryMark_inj {retries retries' : Nat} (same : retryMark retries = retryMark retries') : retries = retries' := by
  unfold retryMark at same
  split at same
  · split at same
    · omega
    · cases same
  · split at same
    · cases same
    · exact Nat.succ.inj (number_injective (List.cons.inj same).2)

theorem repeated_inj {retries retries' : Nat}
    (same : (List.replicate retries "~2".toList).flatten = (List.replicate retries' "~2".toList).flatten) : retries = retries' := by
  have sizes := congrArg List.length same
  simp only [List.length_flatten, List.map_replicate, List.sum_replicate_nat] at sizes
  have two : ("~2".toList : Text).length = 2 := by decide
  rw [two] at sizes
  omega

variable {other : Planned}

theorem Planned.ext_of {child other : Planned} (node : child.node = other.node) (visit : child.visit = other.visit)
    (spot : child.spot = other.spot) (retries : child.retries = other.retries) : child = other := by
  obtain ⟨_, _, _, _, _, _⟩ := child
  obtain ⟨_, _, _, _, _, _⟩ := other
  cases node
  cases visit
  cases spot
  cases retries
  rfl

theorem renumbered_some {parts : Text × Text} (is : child.renumbered run = some parts) :
    child.visit = 1 ∧ child.spot = .only ∧ child.retries ≠ 0 ∧ retriedChild child.node.name = some parts ∧
      ¬ (Lined run ∨ Lined child.node.name) := by
  unfold Planned.renumbered at is
  split at is
  · cases is
  · next fine =>
    simp only [not_or, ne_eq, not_not] at fine
    exact ⟨fine.2.1, fine.2.2.1, fine.2.2.2, is, fun lined => lined.elim fine.1.1 fine.1.2⟩

theorem renumbered_apart {parts : Text × Text} (node : child.node = other.node) (is : child.renumbered run = some parts) :
    parts.1 ++ '~' :: number (Nat.ofDigitChars 10 parts.2 0 + child.retries) ≠
      other.node.name ++ (visitMark other.visit ++ (other.spot.mark ++ retryMark other.retries)) := by
  intro same
  obtain ⟨-, only, again_, found, plain⟩ := renumbered_some is
  obtain ⟨stem, digits⟩ := parts
  obtain ⟨name, all, -, -⟩ := retriedChild_some found
  rw [node] at name found plain
  rw [name, List.append_assoc] at same
  have numbers : number (Nat.ofDigitChars 10 digits 0 + child.retries) =
      digits ++ (visitMark other.visit ++ (other.spot.mark ++ retryMark other.retries)) := (List.cons.inj (List.append_cancel_left same)).2
  -- the rest of the name and the marks are digits
  have rest : visitMark other.visit ++ (other.spot.mark ++ retryMark other.retries) = [] := by
    have head : ∀ c ∈ (visitMark other.visit ++ (other.spot.mark ++ retryMark other.retries)).head?, c.isDigit = false := by
      intro c head
      by_cases first : other.visit = 1
      · rw [visitMark, if_pos first, List.nil_append] at head
        exact (spot_head _ (retryMark_tail _) c head).1
      · rw [visitMark, if_neg first] at head
        cases Option.mem_def.mp head
        decide
    have empty : ∀ c ∈ ([] : Text).head?, c.isDigit = false := nofun
    have split_ := digits_append (fun _ => isDigit_number) all empty head ((List.append_nil _).trans numbers)
    exact split_.2.symm
  rw [rest, List.append_nil] at numbers
  have values := congrArg (Nat.ofDigitChars 10 · 0) numbers
  simp only [number, Nat.ofDigitChars_ten_toDigits] at values
  omega

theorem same_node (node : child.node = other.node)
    (same : child.written run ++ child.marks run = other.written run ++ other.marks run) : child = other := by
  unfold Planned.written Planned.marks at same
  cases one : child.renumbered run with
  | some parts =>
    obtain ⟨visit, spot, -, found, plain⟩ := renumbered_some one
    cases two : other.renumbered run with
    | some parts' =>
      obtain ⟨visit', spot', -, found', -⟩ := renumbered_some two
      rw [node] at found
      cases found.symm.trans found'
      rw [one, two] at same
      have values := number_injective (List.cons.inj (List.append_cancel_left same)).2
      exact Planned.ext_of node (visit.trans visit'.symm) (spot.trans spot'.symm) (by omega)
    | none =>
      rw [one, two] at same
      rw [node] at plain
      simp only [Option.elim_some, Option.elim_none, if_neg plain] at same
      exact absurd same (renumbered_apart node one)
  | none =>
    cases two : other.renumbered run with
    | some parts' =>
      obtain ⟨-, -, -, -, plain⟩ := renumbered_some two
      rw [one, two] at same
      rw [← node] at plain
      simp only [Option.elim_some, Option.elim_none, if_neg plain] at same
      exact absurd same.symm (renumbered_apart node.symm two)
    | none =>
      rw [one, two] at same
      have fits' := other.fits
      rw [← node] at fits'
      simp only [Option.elim_none, ← node] at same
      have marks := List.append_cancel_left same
      by_cases lined : Lined run ∨ Lined child.node.name
      · simp only [if_pos lined] at marks
        obtain ⟨visit, spot, tail⟩ := marks_inj child.fits fits' (repeated_tail _) (repeated_tail _) marks
        exact Planned.ext_of node visit spot (repeated_inj tail)
      · simp only [if_neg lined] at marks
        obtain ⟨visit, spot, tail⟩ := marks_inj child.fits fits' (retryMark_tail _) (retryMark_tail _) marks
        exact Planned.ext_of node visit spot (retryMark_inj tail)

/-- One name is the other one and the beginning of its marks, and the rest of those marks are the other's. -/
def Overlaps (run : Text) (child other : Planned) : Prop :=
  ∃ between : Text, (other.written run = child.written run ++ between ∧ child.marks run = between ++ other.marks run) ∨
    child.written run = other.written run ++ between ∧ other.marks run = between ++ child.marks run

/-- Two children of one run have different ids, unless they are of two nodes whose names and marks overlap. -/
theorem ids_differ {id' : Text} (apart : child ≠ other) (exact_ : child.Exact) (exact' : other.Exact)
    (is : child.id rounded run = .ok id) (is' : other.id rounded run = .ok id') :
    id ≠ id' ↔ ¬ (child.node ≠ other.node ∧ Overlaps run child other) := by
  have joined : id = id' ↔ child.written run ++ child.marks run = other.written run ++ other.marks run := by
    rw [id_ok is, id_ok is', again_eq exact_, again_eq exact']
    constructor
    · intro same
      exact (List.cons.inj (List.append_cancel_left same)).2
    · intro same
      rw [same]
  have overlap : child.written run ++ child.marks run = other.written run ++ other.marks run ↔ Overlaps run child other := by
    rw [List.append_eq_append_iff, Overlaps, exists_or]
  rw [Ne, joined]
  apply not_congr
  constructor
  · intro same
    exact ⟨fun node => apart (same_node node same), overlap.mp same⟩
  · exact fun both => overlap.mpr both.2

def StepRow.retried (row : StepRow) : Nat → StepRow
  | 0 => row
  | retries + 1 => (row.retried retries).retry

theorem retried_key (row : StepRow) (retries : Nat) : (row.retried retries).key = row.key := by
  induction retries with
  | zero => rfl
  | succ retries ih => exact ih

/-- Node `x` the second time, and node `x:2`. -/
def secondVisit : Planned := ⟨⟨"x".toList, .child⟩, 2, .only, 0, by decide, rfl⟩

def likeSecond : Planned := ⟨⟨"x:2".toList, .child⟩, 1, .only, 0, by decide, rfl⟩

def builds (names : List Text) : Prop := names.foldlM withNode [] = .ok names

end Arki.Workflow.Keys
