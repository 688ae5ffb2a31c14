import Arki.Journal.Value
import Arki.Library.Run

/-! The runs of one idempotency key, in transactions that interleave freely.

A run is a savepoint: of its own transaction, of its caller's, or of the run whose
handler called it. Other keys and the journal's other operations are savepoints
without a run. Rolling back to a savepoint takes back the receipt inserted and the
handlers run after it. An insert of the key waits while another transaction holds
an uncommitted row of it.
-/

set_option autoImplicit false

namespace Arki.Journal
open Value (throughJson sameValue)

structure Call where
  commandId : String
  command : String
  input : Value

/-- One row of `journal_receipts`. `result` is null while the run is unfinished, and then `{}` (an
inner `none`) or the `value` it holds. -/
structure Receipt where
  command : String
  input : Value
  commandId : String
  result : Option (Option Value)

inductive Thrown where
  | keyInUse (command : String)
  | unstableSchema (command : String)
  | unstorableInput (command : String)
  | other (message : String)

/-- What a run gives its caller. A throw comes back as `TransactionDefect`. -/
inductive Result where
  | value (value : Value)
  | failure (code : String)
  | conflict (detail : String)
  | threw (error : Thrown)

def Result.succeeded : Result → Bool
  | .value _ => true
  | _ => false

/-- `throughJson(input) ?? null`. -/
def inputForm (input : Value) : Option Value :=
  (throughJson input).map fun stored => if stored.isUndefined then .null else stored

/-- The column that `storeReceipt` writes, unless the result does not survive storage. -/
def storedResult (value : Value) : Option (Option Value) :=
  match throughJson value with
  | none => none
  | some stored =>
    if sameValue stored value then some (if stored.isUndefined then none else some stored) else none

/-- What `claimReceipt` makes of the receipt that holds the key. -/
def Receipt.answer (held : Receipt) (call : Call) : Result :=
  match inputForm call.input with
  | none => .threw (.unstorableInput call.command)
  | some input =>
    match held.result with
    | none => .threw (.keyInUse held.command)
    | some stored =>
      let holder := held.command
      let name := call.command
      if holder ≠ name then .conflict s!"the idempotency key is held by command \"{holder}\", not \"{name}\""
      else if sameValue held.input input then .value (stored.getD .undefined)
      else .conflict s!"the idempotency key was used by command \"{name}\" with a different input"

inductive Phase where
  | started
  | authorised
  | handling
  deriving DecidableEq

structure Savepoint where
  run : Option (Call × Phase)
  receipt : Option Receipt
  handled : List String

structure Transaction where
  handled : List String
  frames : List Savepoint

structure Ended where
  call : Call
  phase : Phase
  result : Result

structure KeyUse where
  receipt : Option Receipt
  handled : List String
  uncommitted : Option (Nat × Receipt)
  transactions : Nat → Option Transaction
  ended : List Ended

def KeyUse.start : KeyUse := ⟨none, [], none, fun _ => none, []⟩

inductive KeyAction where
  | begin (t : Nat)
  | savepoint (t : Nat)
  | release (t : Nat)
  | rollbackTo (t : Nat)
  | start (t : Nat) (call : Call)
  | refuse (t : Nat) (code : String)
  | letOn (t : Nat)
  | claim (t : Nat)
  | succeed (t : Nat) (value : Value)
  | fail (t : Nat) (code : String)
  | throw (t : Nat) (message : String)
  | commit (t : Nat)
  | abort (t : Nat)

def KeyUse.row (state : KeyUse) (t : Nat) : Option Receipt :=
  match state.uncommitted with
  | none => none
  | some (holder, receipt) => if holder = t then some receipt else none

def KeyUse.setRow (state : KeyUse) (t : Nat) : Option Receipt → KeyUse
  | some receipt => { state with uncommitted := some (t, receipt) }
  | none => if (state.row t).isSome then { state with uncommitted := none } else state

def KeyUse.setTransaction (state : KeyUse) (t : Nat) (transaction : Option Transaction) : KeyUse :=
  { state with transactions := Function.update state.transactions t transaction }

def KeyUse.push (state : KeyUse) (t : Nat) (transaction : Transaction) (run : Option (Call × Phase)) : KeyUse :=
  state.setTransaction t
    (some { transaction with frames := ⟨run, state.row t, transaction.handled⟩ :: transaction.frames })

def KeyUse.undo (state : KeyUse) (t : Nat) (frame : Savepoint) (rest : List Savepoint) : KeyUse :=
  (state.setRow t frame.receipt).setTransaction t (some ⟨frame.handled, rest⟩)

def KeyUse.log (state : KeyUse) (more : List Ended) : KeyUse := { state with ended := state.ended ++ more }

def KeyUse.answer (state : KeyUse) (call : Call) (phase : Phase) (result : Result) : KeyUse :=
  state.log [⟨call, phase, result⟩]

def KeyUse.claim (state : KeyUse) (t : Nat) (handled : List String) (frame : Savepoint) (rest : List Savepoint)
    (call : Call) : Option KeyUse :=
  match inputForm call.input with
  | none => some ((state.undo t frame rest).answer call .authorised (.threw (.unstorableInput call.command)))
  | some input =>
    match (state.row t).or state.receipt with
    | some held =>
      -- a replay ends its savepoint, and everything else rolls it back
      let ended := if (held.answer call).succeeded then state.setTransaction t (some ⟨handled, rest⟩)
        else state.undo t frame rest
      some (ended.answer call .authorised (held.answer call))
    | none =>
      match state.uncommitted with
      | some _ => none
      | none =>
        some ((state.setRow t (some ⟨call.command, input, call.commandId, none⟩)).setTransaction t (some
          ⟨handled ++ [call.commandId], { frame with run := some (call, .handling) } :: rest⟩))

def KeyUse.settle (state : KeyUse) (t : Nat) (handled : List String) (frame : Savepoint) (rest : List Savepoint)
    (call : Call) (value : Value) : KeyUse :=
  match storedResult value with
  | none => (state.undo t frame rest).answer call .handling (.threw (.unstableSchema call.command))
  | some stored =>
    ((state.setRow t ((state.row t).map fun held => { held with result := some stored })).setTransaction t
      (some ⟨handled, rest⟩)).answer call .handling (.value value)

/-- A step of the innermost savepoint of `t`. -/
def KeyUse.atTop (state : KeyUse) (t : Nat) (enter : List String → Savepoint → List Savepoint → Option KeyUse) :
    Option KeyUse :=
  match state.transactions t with
  | some ⟨handled, frame :: rest⟩ => enter handled frame rest
  | _ => none

/-- A step of the innermost run of `t`. -/
def KeyUse.inRun (state : KeyUse) (t : Nat)
    (enter : List String → Savepoint → List Savepoint → Call → Phase → Option KeyUse) : Option KeyUse :=
  state.atTop t fun handled frame rest => frame.run.bind fun run => enter handled frame rest run.1 run.2

def KeyUse.step (state : KeyUse) : KeyAction → Option KeyUse
  | .begin t =>
    match state.transactions t with
    | none => some (state.setTransaction t (some ⟨[], []⟩))
    | some _ => none
  | .savepoint t => (state.transactions t).map fun transaction => state.push t transaction none
  | .start t call => (state.transactions t).map fun transaction => state.push t transaction (some (call, .started))
  | .release t => state.atTop t fun handled frame rest =>
    if frame.run.isNone then some (state.setTransaction t (some ⟨handled, rest⟩)) else none
  | .rollbackTo t => state.atTop t fun _ frame rest =>
    if frame.run.isNone then some (state.undo t frame rest) else none
  -- `authorize` returns a failure
  | .refuse t code => state.inRun t fun _ frame rest call phase =>
    if phase = .started then some ((state.undo t frame rest).answer call phase (.failure code)) else none
  | .letOn t => state.inRun t fun handled frame rest call phase =>
    if phase = .started then
      some (state.setTransaction t (some ⟨handled, { frame with run := some (call, .authorised) } :: rest⟩))
    else none
  | .claim t => state.inRun t fun handled frame rest call phase =>
    if phase = .authorised then state.claim t handled frame rest call else none
  | .succeed t value => state.inRun t fun handled frame rest call phase =>
    if phase = .handling then some (state.settle t handled frame rest call value) else none
  -- the handler returns a failure
  | .fail t code => state.inRun t fun _ frame rest call phase =>
    if phase = .handling then some ((state.undo t frame rest).answer call phase (.failure code)) else none
  -- `authorize`, a hook, the handler or an operation it left running throws
  | .throw t message => state.inRun t fun _ frame rest call phase =>
    if phase = .authorised then none
    else some ((state.undo t frame rest).answer call phase (.threw (.other message)))
  | .commit t =>
    match state.transactions t with
    | some ⟨handled, []⟩ =>
      some { (state.setRow t none).setTransaction t none with
        receipt := (state.row t).or state.receipt
        handled := state.handled ++ handled }
    | _ => none
  -- the caller throws, or the connection is lost
  | .abort t =>
    match state.transactions t with
    | some _ => some ((state.setRow t none).setTransaction t none)
    | none => none

/-- The command and the input of the run that holds the key, as JSON storage compares inputs. -/
def Receipt.repeatedBy (held : Receipt) (call : Call) : Bool :=
  held.command == call.command && (inputForm call.input).any (sameValue held.input)

structure Receipt.Answers (held : Receipt) (call : Call) (result : Result) : Prop where
  repeat_ : held.repeatedBy call = true → ∃ stored, held.result = some stored ∧ result = .value (stored.getD .undefined)
  other : held.repeatedBy call = false → (inputForm call.input).isSome = true → ∃ detail, result = .conflict detail
  unstorable : inputForm call.input = none → result = .threw (.unstorableInput call.command)

/-- The run that a finished receipt names ended with the result that the receipt holds. -/
def Receipt.Settled (ended : List Ended) (receipt : Receipt) : Prop :=
  ∃ entry ∈ ended, ∃ value, entry.call.commandId = receipt.commandId ∧ entry.call.command = receipt.command ∧
    inputForm entry.call.input = some receipt.input ∧ entry.result = .value value ∧
    (storedResult value).isSome = true ∧ receipt.result = storedResult value

structure RunsOnce (state : KeyUse) : Prop where
  /-- At most one run has committed its handler's effects: the one that the receipt names. -/
  once : state.handled = (state.receipt.map (·.commandId)).toList
  stored : ∀ receipt, state.receipt = some receipt → receipt.Settled state.ended
  /-- After it, no handler's effects are committed, and every run that is let through gets its answer. -/
  repeats : ∀ receipt, state.receipt = some receipt → ∀ later, Run.Reach KeyUse.step Run.always state later →
    later.receipt = some receipt ∧ later.handled = state.handled ∧ ∃ more, later.ended = state.ended ++ more ∧
    ∀ ended ∈ more, ended.phase ≠ .started → receipt.Answers ended.call ended.result
  /-- A run that ends without a success leaves no trace, and a key that it took is free again. -/
  free : ∀ action next ended, state.step action = some next → next.ended = state.ended ++ [ended] →
    ended.result.succeeded = false → next.receipt = state.receipt ∧ next.handled = state.handled ∧
    (ended.phase = .handling → next.receipt = none ∧ next.uncommitted = none)
  /-- With the key free, the next run that is let through takes it and runs its handler. -/
  afresh : ∀ t handled frame rest call, state.receipt = none → state.uncommitted = none →
    state.transactions t = some ⟨handled, frame :: rest⟩ → frame.run = some (call, .authorised) →
    (inputForm call.input).isSome = true → ∃ next, state.step (.claim t) = some next ∧
    next.transactions t = some ⟨handled ++ [call.commandId], { frame with run := some (call, .handling) } :: rest⟩

def effects (row : Option Receipt) : List String := (row.map (·.commandId)).toList

def Receipt.Unfinished (receipt : Receipt) (call : Call) : Prop :=
  receipt.result = none ∧ receipt.commandId = call.commandId ∧ receipt.command = call.command ∧
    inputForm call.input = some receipt.input

/-- The row of a transaction against its savepoints: a run whose handler has not ended found the key
free and holds it, and every other savepoint saw the row as it is or before it was inserted. -/
def Stack (ended : List Ended) : Option Receipt → List Savepoint → Prop
  | row, [] => ∀ receipt ∈ row, receipt.Settled ended
  | row, frame :: rest =>
    (match frame.run with
      | some (call, .handling) => frame.receipt = none ∧ ∃ receipt, row = some receipt ∧ receipt.Unfinished call
      | _ => row = frame.receipt ∨ (frame.receipt = none ∧ ∀ receipt ∈ row, receipt.Settled ended)) ∧
    frame.handled = effects frame.receipt ∧ Stack ended frame.receipt rest

section Stack

variable {ended : List Ended} {row : Option Receipt} {frame : Savepoint} {rest : List Savepoint}

theorem Receipt.Settled.append {receipt : Receipt} (settled : receipt.Settled ended) (more : List Ended) :
    receipt.Settled (ended ++ more) := by
  obtain ⟨entry, member, facts⟩ := settled
  exact ⟨entry, List.mem_append_left _ member, facts⟩

theorem Receipt.Settled.result {receipt : Receipt} (settled : receipt.Settled ended) : receipt.result.isSome = true := by
  obtain ⟨_, _, value, _, _, _, _, some_, result⟩ := settled
  rw [result]
  exact some_

theorem Stack.append {frames : List Savepoint} (stack : Stack ended row frames) (more : List Ended) :
    Stack (ended ++ more) row frames := by
  induction frames generalizing row with
  | nil => exact fun receipt member => (stack receipt member).append more
  | cons frame rest ih =>
    obtain ⟨top, handled, below⟩ := stack
    refine ⟨?_, handled, ih below⟩
    split at top
    · exact top
    · exact top.imp id fun before => ⟨before.1, fun receipt member => (before.2 receipt member).append more⟩

theorem Stack.finished (stack : Stack ended none rest) (settled : ∀ receipt ∈ row, receipt.Settled ended) :
    Stack ended row rest := by
  cases rest with
  | nil => exact settled
  | cons frame rest =>
    obtain ⟨top, handled, below⟩ := stack
    refine ⟨?_, handled, below⟩
    split at top
    · obtain ⟨_, receipt, absent, _⟩ := top
      cases absent
    · have none_ : frame.receipt = none := top.elim Eq.symm And.left
      exact Or.inr ⟨none_, settled⟩

theorem Stack.release (stack : Stack ended row (frame :: rest))
    (quiet : ∀ call, frame.run ≠ some (call, .handling)) : Stack ended row rest := by
  obtain ⟨top, _, below⟩ := stack
  split at top
  · next call running => exact absurd running (quiet call)
  · rcases top with same | ⟨none_, settled⟩
    · exact same ▸ below
    · exact (none_ ▸ below).finished settled

theorem Stack.undo (stack : Stack ended row (frame :: rest)) :
    Stack ended frame.receipt rest ∧ frame.handled = effects frame.receipt := ⟨stack.2.2, stack.2.1⟩

theorem Stack.kept (stack : Stack ended row (frame :: rest)) (saw : frame.receipt.isSome = true) :
    row.isSome = true := by
  obtain ⟨top, _, _⟩ := stack
  split at top
  · simp [top.1] at saw
  · rcases top with same | ⟨none_, _⟩
    · exact same ▸ saw
    · simp [none_] at saw

theorem Stack.handling (stack : Stack ended row (frame :: rest)) {call : Call}
    (running : frame.run = some (call, .handling)) :
    frame.receipt = none ∧ ∃ receipt, row = some receipt ∧ receipt.Unfinished call := by
  obtain ⟨top, _, _⟩ := stack
  simpa only [running] using top

theorem Stack.push (stack : Stack ended row rest) (run : Option (Call × Phase))
    (quiet : ∀ call, run ≠ some (call, .handling)) : Stack ended row (⟨run, row, effects row⟩ :: rest) := by
  refine ⟨?_, rfl, stack⟩
  split
  · next call running => exact absurd running (quiet call)
  · exact Or.inl rfl

theorem Stack.phase (stack : Stack ended row (frame :: rest)) (run : Option (Call × Phase))
    (before : ∀ call, frame.run ≠ some (call, .handling)) (after : ∀ call, run ≠ some (call, .handling)) :
    Stack ended row ({ frame with run := run } :: rest) := by
  obtain ⟨top, handled, below⟩ := stack
  refine ⟨?_, handled, below⟩
  split at top
  · next call running => exact absurd running (before call)
  · exact top

end Stack

structure KeyInv (state : KeyUse) : Prop where
  holder : ∀ t, (state.row t).isSome = true → (state.transactions t).isSome = true
  committed : ∀ receipt, state.receipt = some receipt → receipt.Settled state.ended ∧ state.uncommitted = none
  handled : state.handled = effects state.receipt
  nesting : ∀ t transaction, state.transactions t = some transaction →
    Stack state.ended (state.row t) transaction.frames ∧ transaction.handled = effects (state.row t)

section Rows

variable {state : KeyUse} {t other : Nat} {receipt : Option Receipt}

@[simp] theorem row_setRow : (state.setRow t receipt).row t = receipt := by
  cases receipt with
  | some receipt => simp [KeyUse.setRow, KeyUse.row]
  | none =>
    simp only [KeyUse.setRow]
    cases own : state.row t with
    | none => simpa using own
    | some receipt => simp [KeyUse.row]

/-- Nobody else's row is touched: a row is written only where there is none, or over one's own. -/
theorem row_setRow_other (apart : other ≠ t)
    (may : receipt.isSome = true → state.uncommitted = none ∨ (state.row t).isSome = true) :
    (state.setRow t receipt).row other = state.row other := by
  have stranger : (state.row t).isSome = true → state.row other = none := by
    intro own
    cases held : state.uncommitted with
    | none => simp [KeyUse.row, held]
    | some holder =>
      have mine : holder.1 = t := by
        by_contra elsewhere
        simp [KeyUse.row, held, elsewhere] at own
      simp [KeyUse.row, held, mine, Ne.symm apart]
  cases receipt with
  | some receipt =>
    have none_ : state.row other = none := (may rfl).elim (fun free => by simp [KeyUse.row, free]) stranger
    rw [none_]
    simp [KeyUse.setRow, KeyUse.row, Ne.symm apart]
  | none =>
    simp only [KeyUse.setRow]
    split
    · next own => rw [stranger own]; simp [KeyUse.row]
    · rfl

@[simp] theorem log_nil : state.log [] = state := by simp [KeyUse.log]

@[simp] theorem setRow_receipt : (state.setRow t receipt).receipt = state.receipt := by
  cases receipt <;> simp only [KeyUse.setRow]
  split <;> rfl

@[simp] theorem setRow_handled : (state.setRow t receipt).handled = state.handled := by
  cases receipt <;> simp only [KeyUse.setRow]
  split <;> rfl

@[simp] theorem setRow_ended : (state.setRow t receipt).ended = state.ended := by
  cases receipt <;> simp only [KeyUse.setRow]
  split <;> rfl

@[simp] theorem setRow_transactions : (state.setRow t receipt).transactions = state.transactions := by
  cases receipt <;> simp only [KeyUse.setRow]
  split <;> rfl

theorem setRow_none_uncommitted (own : (state.row t).isSome = true) :
    (state.setRow t none).uncommitted = none := by
  simp [KeyUse.setRow, own]

theorem uncommitted_setRow_none (free : state.uncommitted = none) : (state.setRow t none).uncommitted = none := by
  simp only [KeyUse.setRow]
  split
  · rfl
  · exact free

end Rows

section Steps

variable {state next : KeyUse} {t : Nat} {handled : List String} {frame : Savepoint} {rest : List Savepoint}

/-- A step of transaction `t`: it may answer one run, and `t` gets a new row and new savepoints. -/
theorem KeyInv.rewrite (inv : KeyInv state) (more : List Ended) {receipt : Option Receipt} {frames : List Savepoint}
    (may : receipt.isSome = true → state.uncommitted = none ∨ (state.row t).isSome = true)
    (free : receipt.isSome = true → state.receipt = none)
    (stack : Stack (state.ended ++ more) receipt frames) :
    KeyInv (((state.setRow t receipt).setTransaction t (some ⟨effects receipt, frames⟩)).log more) where
  holder := by
    intro other own
    simp only [KeyUse.log, KeyUse.setTransaction, setRow_transactions]
    by_cases same : other = t
    · subst other
      simp
    · rw [Function.update_of_ne same]
      apply inv.holder
      rw [← row_setRow_other same may]
      exact own
  committed := by
    intro held present
    simp only [KeyUse.log, KeyUse.setTransaction, setRow_receipt, setRow_ended] at present ⊢
    obtain ⟨settled, none_⟩ := inv.committed held present
    refine ⟨settled.append more, ?_⟩
    cases receipt with
    | none => exact uncommitted_setRow_none none_
    | some receipt => simp [free rfl] at present
  handled := by simpa [KeyUse.log, KeyUse.setTransaction] using inv.handled
  nesting := by
    intro other transaction open_
    simp only [KeyUse.log, KeyUse.setTransaction, setRow_transactions, setRow_ended] at open_ ⊢
    by_cases same : other = t
    · subst other
      rw [Function.update_self] at open_
      cases open_
      have row : ((state.setRow t receipt).row t) = receipt := row_setRow
      exact ⟨row.symm ▸ stack, congrArg effects row.symm⟩
    · rw [Function.update_of_ne same] at open_
      obtain ⟨below, ran⟩ := inv.nesting other transaction open_
      have row : (state.setRow t receipt).row other = state.row other := row_setRow_other same may
      exact ⟨row.symm ▸ below.append more, ran.trans (congrArg effects row.symm)⟩

theorem atTop_some {enter : List String → Savepoint → List Savepoint → Option KeyUse}
    (taken : state.atTop t enter = some next) : ∃ handled frame rest,
      state.transactions t = some ⟨handled, frame :: rest⟩ ∧ enter handled frame rest = some next := by
  simp only [KeyUse.atTop] at taken
  split at taken
  · next handled frame rest open_ => exact ⟨handled, frame, rest, open_, taken⟩
  · cases taken

theorem inRun_some {enter : List String → Savepoint → List Savepoint → Call → Phase → Option KeyUse}
    (taken : state.inRun t enter = some next) : ∃ handled frame rest call phase,
      state.transactions t = some ⟨handled, frame :: rest⟩ ∧ frame.run = some (call, phase) ∧
      enter handled frame rest call phase = some next := by
  obtain ⟨handled, frame, rest, open_, entered⟩ := atTop_some taken
  obtain ⟨⟨call, phase⟩, run, entered⟩ := Option.bind_eq_some_iff.mp entered
  exact ⟨handled, frame, rest, call, phase, open_, run, entered⟩

theorem inPhase_some {wanted : Phase} {enter : List String → Savepoint → List Savepoint → Call → Phase → Option KeyUse}
    (taken : (state.inRun t fun handled frame rest call phase => if phase = wanted then enter handled frame rest call phase else none) = some next) :
    ∃ handled frame rest call, state.transactions t = some ⟨handled, frame :: rest⟩ ∧ frame.run = some (call, wanted) ∧
      enter handled frame rest call wanted = some next := by
  obtain ⟨handled, frame, rest, call, phase, open_, run, entered⟩ := inRun_some taken
  split at entered
  · next same =>
    subst same
    exact ⟨handled, frame, rest, call, open_, run, entered⟩
  · cases entered

theorem KeyInv.top (inv : KeyInv state) (open_ : state.transactions t = some ⟨handled, frame :: rest⟩) :
    Stack state.ended (state.row t) (frame :: rest) ∧ handled = effects (state.row t) := inv.nesting t _ open_

theorem KeyInv.uncommitted (inv : KeyInv state) (own : (state.row t).isSome = true) : state.receipt = none := by
  cases present : state.receipt with
  | none => rfl
  | some receipt => simp [KeyUse.row, (inv.committed receipt present).2] at own

theorem setRow_self : state.setRow t (state.row t) = state := by
  cases own : state.row t with
  | none => simp [KeyUse.setRow, own]
  | some receipt =>
    cases held : state.uncommitted with
    | none => simp [KeyUse.row, held] at own
    | some holder =>
      obtain ⟨id, row⟩ := holder
      simp only [KeyUse.row, held] at own
      split at own
      · next same =>
        cases own
        subst same
        simp [KeyUse.setRow, ← held]
      · cases own

theorem KeyInv.undo (inv : KeyInv state) (open_ : state.transactions t = some ⟨handled, frame :: rest⟩)
    (more : List Ended) : KeyInv ((state.undo t frame rest).log more) := by
  obtain ⟨stack, _⟩ := inv.top open_
  have own : frame.receipt.isSome = true → (state.row t).isSome = true := stack.kept
  have rewritten := inv.rewrite (t := t) more (fun saw => Or.inr (own saw))
    (fun saw => inv.uncommitted (own saw)) (stack.undo.1.append more)
  rwa [← stack.undo.2] at rewritten

theorem KeyInv.restack (inv : KeyInv state) (more : List Ended) (ran : handled = effects (state.row t))
    {frames : List Savepoint} (stack : Stack (state.ended ++ more) (state.row t) frames) :
    KeyInv ((state.setTransaction t (some ⟨handled, frames⟩)).log more) := by
  have rewritten := inv.rewrite (t := t) more Or.inr inv.uncommitted stack
  rw [setRow_self] at rewritten
  rwa [ran]

theorem KeyInv.push (inv : KeyInv state) {transaction : Transaction}
    (open_ : state.transactions t = some transaction) (run : Option (Call × Phase))
    (quiet : ∀ call, run ≠ some (call, .handling)) : KeyInv (state.push t transaction run) := by
  obtain ⟨stack, ran⟩ := inv.nesting t transaction open_
  have pushed := inv.restack [] ran (by
    rw [List.append_nil]
    exact stack.push run quiet)
  simpa [KeyUse.push, ← ran] using pushed

theorem KeyInv.claim (inv : KeyInv state) {call : Call}
    (open_ : state.transactions t = some ⟨handled, frame :: rest⟩) (run : frame.run = some (call, .authorised))
    (taken : state.claim t handled frame rest call = some next) : KeyInv next := by
  obtain ⟨stack, ran⟩ := inv.top open_
  have quiet : ∀ other, frame.run ≠ some (other, .handling) := by simp [run]
  simp only [KeyUse.claim] at taken
  split at taken
  · cases taken
    exact inv.undo open_ _
  · next input form =>
    split at taken
    · next held found =>
      cases taken
      split
      · exact inv.restack _ ran ((stack.release quiet).append _)
      · exact inv.undo open_ _
    · next free =>
      obtain ⟨none_, absent⟩ := Option.or_eq_none_iff.mp free
      split at taken
      · cases taken
      · next nobody =>
        cases taken
        have saw : frame.receipt = none := by
          cases saw : frame.receipt with
          | none => rfl
          | some receipt => simp [none_] at stack; exact absurd (stack.kept (by simp [saw])) (by simp)
        have inserted : Stack state.ended (some ⟨call.command, input, call.commandId, none⟩)
            ({ frame with run := some (call, .handling) } :: rest) :=
          ⟨⟨saw, _, rfl, rfl, rfl, rfl, form⟩, stack.undo.2, stack.undo.1⟩
        have rewritten := inv.rewrite (t := t) [] (fun _ => Or.inl nobody) (fun _ => absent)
          (by rwa [List.append_nil])
        simpa [ran, none_, effects] using rewritten

theorem KeyInv.settle (inv : KeyInv state) {call : Call} {value : Value}
    (open_ : state.transactions t = some ⟨handled, frame :: rest⟩) (run : frame.run = some (call, .handling)) :
    KeyInv (state.settle t handled frame rest call value) := by
  obtain ⟨stack, ran⟩ := inv.top open_
  obtain ⟨saw, receipt, own, unfinished⟩ := stack.handling run
  simp only [KeyUse.settle]
  split
  · exact inv.undo open_ _
  · next stored result =>
    obtain ⟨_, id, command, input⟩ := unfinished
    have settled : ({ receipt with result := some stored } : Receipt).Settled
        (state.ended ++ [⟨call, .handling, .value value⟩]) := by
      refine ⟨⟨call, .handling, .value value⟩, by simp, value, id.symm, command.symm, input, rfl, ?_, result.symm⟩
      simp [result]
    have below : Stack (state.ended ++ [⟨call, .handling, .value value⟩])
        (some { receipt with result := some stored }) rest := by
      apply Stack.finished
      · exact saw ▸ stack.undo.1.append _
      · rintro _ ⟨⟩
        exact settled
    have held : (state.row t).isSome = true := by simp [own]
    have rewritten := inv.rewrite (t := t) [⟨call, .handling, .value value⟩] (fun _ => Or.inr held) (fun _ => inv.uncommitted held) below
    simpa [ran, own, effects, KeyUse.answer] using rewritten

theorem KeyInv.close (inv : KeyInv state) : KeyInv ((state.setRow t none).setTransaction t none) where
  holder := by
    intro other own
    have apart : other ≠ t := by
      rintro rfl
      have gone : (state.setRow other none).row other = none := row_setRow
      rw [show ((state.setRow other none).setTransaction other none).row other = none from gone] at own
      cases own
    simp only [KeyUse.setTransaction, setRow_transactions, Function.update_of_ne apart]
    apply inv.holder
    rw [← show (state.setRow t none).row other = state.row other from row_setRow_other apart (by simp)]
    exact own
  committed := by
    intro receipt present
    simp only [KeyUse.setTransaction, setRow_receipt] at present
    obtain ⟨settled, free⟩ := inv.committed receipt present
    refine ⟨?_, uncommitted_setRow_none free⟩
    simpa [KeyUse.setTransaction] using settled
  handled := by simpa [KeyUse.setTransaction] using inv.handled
  nesting := by
    intro other transaction open_
    simp only [KeyUse.setTransaction, setRow_transactions] at open_
    by_cases same : other = t
    · subst other
      rw [Function.update_self] at open_
      cases open_
    · rw [Function.update_of_ne same] at open_
      have row : ((state.setRow t none).setTransaction t none).row other = state.row other :=
        row_setRow_other same (by simp)
      rw [row]
      simpa [KeyUse.setTransaction] using inv.nesting other transaction open_

theorem KeyInv.commit (inv : KeyInv state) (open_ : state.transactions t = some ⟨handled, []⟩) :
    KeyInv { (state.setRow t none).setTransaction t none with
      receipt := (state.row t).or state.receipt
      handled := state.handled ++ handled } := by
  obtain ⟨settled, ran⟩ := inv.nesting t _ open_
  have closed := inv.close (t := t)
  cases own : state.row t with
  | none =>
    have nothing : handled = [] := by simpa [own, effects] using ran
    have same : state.handled ++ handled = ((state.setRow t none).setTransaction t none).handled := by
      simp [nothing, KeyUse.setTransaction]
    have receipt : (none : Option Receipt).or state.receipt = ((state.setRow t none).setTransaction t none).receipt := by
      simp [KeyUse.setTransaction]
    rw [same, receipt]
    exact closed
  | some receipt =>
    have held : (state.row t).isSome = true := by simp [own]
    have absent := inv.uncommitted held
    have nothing : state.handled = [] := by simpa [absent, effects] using inv.handled
    refine ⟨closed.holder, ?_, ?_, ?_⟩
    · intro other present
      cases present
      refine ⟨?_, setRow_none_uncommitted held⟩
      simpa [KeyUse.setTransaction] using settled receipt own
    · simpa [nothing, own] using ran
    · exact closed.nesting

theorem keyInv_start : KeyInv .start where
  holder := by simp [KeyUse.start, KeyUse.row]
  committed := by simp [KeyUse.start]
  handled := rfl
  nesting := by simp [KeyUse.start]

theorem keyInv_step {action : KeyAction} (inv : KeyInv state) (taken : state.step action = some next) :
    KeyInv next := by
  cases action with
  | begin t =>
    simp only [KeyUse.step] at taken
    split at taken
    · next closed =>
      cases taken
      have none_ : state.row t = none := by
        cases own : state.row t with
        | none => rfl
        | some receipt => simpa [closed] using inv.holder t (by simp [own])
      have ran : [] = effects (state.row t) := by simp [none_, effects]
      have stack : Stack (state.ended ++ []) (state.row t) [] := by simp [none_, Stack]
      have opened := inv.restack [] ran stack
      rwa [log_nil] at opened
    · cases taken
  | savepoint t =>
    obtain ⟨transaction, open_, rfl⟩ := Option.map_eq_some_iff.mp taken
    exact inv.push open_ none (by simp)
  | start t call =>
    obtain ⟨transaction, open_, rfl⟩ := Option.map_eq_some_iff.mp taken
    exact inv.push open_ (some (call, .started)) (by simp)
  | release t =>
    obtain ⟨handled, frame, rest, open_, entered⟩ := atTop_some taken
    split at entered
    · next plain =>
      cases entered
      obtain ⟨stack, ran⟩ := inv.top open_
      have quiet : ∀ call, frame.run ≠ some (call, .handling) := by simp [Option.isNone_iff_eq_none.mp plain]
      have released := inv.restack [] ran ((stack.release quiet).append _)
      rwa [log_nil] at released
    · cases entered
  | rollbackTo t =>
    obtain ⟨handled, frame, rest, open_, entered⟩ := atTop_some taken
    split at entered
    · cases entered
      have undone := inv.undo open_ []
      rwa [log_nil] at undone
    · cases entered
  | refuse t code =>
    simp only [KeyUse.step] at taken
    obtain ⟨handled, frame, rest, call, open_, run, entered⟩ := inPhase_some taken
    cases entered
    exact inv.undo open_ _
  | letOn t =>
    simp only [KeyUse.step] at taken
    obtain ⟨handled, frame, rest, call, open_, run, entered⟩ := inPhase_some taken
    cases entered
    obtain ⟨stack, ran⟩ := inv.top open_
    have allowed := stack.phase (some (call, .authorised)) (by simp [run]) (by simp)
    have moved := inv.restack [] ran (allowed.append _)
    rwa [log_nil] at moved
  | claim t =>
    simp only [KeyUse.step] at taken
    obtain ⟨handled, frame, rest, call, open_, run, entered⟩ := inPhase_some taken
    exact inv.claim open_ run entered
  | succeed t value =>
    simp only [KeyUse.step] at taken
    obtain ⟨handled, frame, rest, call, open_, run, entered⟩ := inPhase_some taken
    cases entered
    exact inv.settle open_ run
  | fail t code =>
    simp only [KeyUse.step] at taken
    obtain ⟨handled, frame, rest, call, open_, run, entered⟩ := inPhase_some taken
    cases entered
    exact inv.undo open_ _
  | throw t message =>
    simp only [KeyUse.step] at taken
    obtain ⟨handled, frame, rest, call, phase, open_, run, entered⟩ := inRun_some taken
    split at entered
    · cases entered
    · cases entered
      exact inv.undo open_ _
  | commit t =>
    simp only [KeyUse.step] at taken
    split at taken
    · next open_ =>
      cases taken
      exact inv.commit open_
    · cases taken
  | abort t =>
    simp only [KeyUse.step] at taken
    split at taken
    · cases taken
      exact inv.close
    · cases taken

theorem keyInv_run (inv : KeyInv state) (reached : Run.Reach KeyUse.step Run.always state next) : KeyInv next :=
  reached.invariant _ inv fun _ _ _ inv _ taken => keyInv_step inv taken

inductive Move (state next : KeyUse) : Prop where
  | quiet : next.receipt = state.receipt → next.handled = state.handled → next.ended = state.ended → Move state next
  | commit (t : Nat) (handled : List String) : state.transactions t = some ⟨handled, []⟩ →
      next.receipt = (state.row t).or state.receipt → next.handled = state.handled ++ handled →
      next.ended = state.ended → Move state next
  | answer (t : Nat) (handled : List String) (frame : Savepoint) (rest : List Savepoint) (call : Call) (phase : Phase)
      (result : Result) : state.transactions t = some ⟨handled, frame :: rest⟩ → frame.run = some (call, phase) →
      next.receipt = state.receipt → next.handled = state.handled →
      next.ended = state.ended ++ [⟨call, phase, result⟩] →
      (phase = .authorised → ∀ held, (state.row t).or state.receipt = some held → result = held.answer call) →
      (result.succeeded = false → next.uncommitted = (state.setRow t frame.receipt).uncommitted) → Move state next

theorem move_undo {call : Call} {phase : Phase} {result : Result}
    (open_ : state.transactions t = some ⟨handled, frame :: rest⟩) (run : frame.run = some (call, phase))
    (verdict : phase = .authorised → ∀ held, (state.row t).or state.receipt = some held → result = held.answer call) :
    Move state ((state.undo t frame rest).answer call phase result) := by
  apply Move.answer t handled frame rest call phase result open_ run
  · simp [KeyUse.answer, KeyUse.log, KeyUse.undo, KeyUse.setTransaction]
  · simp [KeyUse.answer, KeyUse.log, KeyUse.undo, KeyUse.setTransaction]
  · simp [KeyUse.answer, KeyUse.log, KeyUse.undo, KeyUse.setTransaction]
  · exact verdict
  · exact fun _ => rfl

theorem move_claim {call : Call} (open_ : state.transactions t = some ⟨handled, frame :: rest⟩)
    (run : frame.run = some (call, .authorised)) (taken : state.claim t handled frame rest call = some next) :
    Move state next := by
  simp only [KeyUse.claim] at taken
  split at taken
  · next unstorable =>
    cases taken
    exact move_undo open_ run fun _ held _ => by simp [Receipt.answer, unstorable]
  · split at taken
    · next held found =>
      have verdict : ∀ other, (state.row t).or state.receipt = some other → held.answer call = other.answer call := by
        intro other same
        rw [Option.some.inj (found.symm.trans same)]
      cases taken
      split
      · next replayed =>
        refine .answer t handled frame rest call .authorised (held.answer call) open_ run rfl rfl rfl ?_ ?_
        · exact fun _ => verdict
        · intro failed
          simp [replayed] at failed
      · exact move_undo open_ run fun _ => verdict
    · split at taken
      · cases taken
      · cases taken
        apply Move.quiet <;> simp [KeyUse.setTransaction]

theorem step_move {action : KeyAction} (taken : state.step action = some next) : Move state next := by
  cases action with
  | begin t =>
    simp only [KeyUse.step] at taken
    split at taken
    · cases taken
      exact .quiet rfl rfl rfl
    · cases taken
  | savepoint t =>
    obtain ⟨transaction, open_, rfl⟩ := Option.map_eq_some_iff.mp taken
    exact .quiet rfl rfl rfl
  | start t call =>
    obtain ⟨transaction, open_, rfl⟩ := Option.map_eq_some_iff.mp taken
    exact .quiet rfl rfl rfl
  | release t =>
    obtain ⟨handled, frame, rest, open_, entered⟩ := atTop_some taken
    split at entered
    · cases entered
      exact .quiet rfl rfl rfl
    · cases entered
  | rollbackTo t =>
    obtain ⟨handled, frame, rest, open_, entered⟩ := atTop_some taken
    split at entered
    · cases entered
      apply Move.quiet <;> simp [KeyUse.undo, KeyUse.setTransaction]
    · cases entered
  | refuse t code =>
    simp only [KeyUse.step] at taken
    obtain ⟨handled, frame, rest, call, open_, run, entered⟩ := inPhase_some taken
    cases entered
    exact move_undo open_ run (by simp)
  | letOn t =>
    simp only [KeyUse.step] at taken
    obtain ⟨handled, frame, rest, call, open_, run, entered⟩ := inPhase_some taken
    cases entered
    exact .quiet rfl rfl rfl
  | claim t =>
    simp only [KeyUse.step] at taken
    obtain ⟨handled, frame, rest, call, open_, run, entered⟩ := inPhase_some taken
    exact move_claim open_ run entered
  | succeed t value =>
    simp only [KeyUse.step] at taken
    obtain ⟨handled, frame, rest, call, open_, run, entered⟩ := inPhase_some taken
    cases entered
    simp only [KeyUse.settle]
    split
    · exact move_undo open_ run (by simp)
    · next stored result =>
      apply Move.answer t handled frame rest call .handling (.value value) open_ run
      · simp [KeyUse.answer, KeyUse.log, KeyUse.setTransaction]
      · simp [KeyUse.answer, KeyUse.log, KeyUse.setTransaction]
      · simp [KeyUse.answer, KeyUse.log, KeyUse.setTransaction]
      · simp
      · simp [Result.succeeded]
  | fail t code =>
    simp only [KeyUse.step] at taken
    obtain ⟨handled, frame, rest, call, open_, run, entered⟩ := inPhase_some taken
    cases entered
    exact move_undo open_ run (by simp)
  | throw t message =>
    simp only [KeyUse.step] at taken
    obtain ⟨handled, frame, rest, call, phase, open_, run, entered⟩ := inRun_some taken
    split at entered
    · cases entered
    · next before =>
      cases entered
      exact move_undo open_ run fun authorised => absurd authorised before
  | commit t =>
    simp only [KeyUse.step] at taken
    split at taken
    · next handled open_ =>
      cases taken
      exact .commit t handled open_ rfl rfl (by simp [KeyUse.setTransaction])
    · cases taken
  | abort t =>
    simp only [KeyUse.step] at taken
    split at taken
    · cases taken
      apply Move.quiet <;> simp [KeyUse.setTransaction]
    · cases taken

theorem Receipt.answer_answers {held : Receipt} (finished : held.result.isSome = true) (call : Call) :
    held.Answers call (held.answer call) := by
  obtain ⟨stored, result⟩ := Option.isSome_iff_exists.mp finished
  cases form : inputForm call.input with
  | none => exact ⟨by simp [repeatedBy, form], by simp [form], by simp [answer, form]⟩
  | some input =>
    by_cases name : held.command = call.command
    · cases same : sameValue held.input input with
      | true => exact ⟨fun _ => ⟨stored, result, by simp [answer, form, result, name, same]⟩,
          by simp [repeatedBy, form, name, same], by simp [form]⟩
      | false => exact ⟨by simp [repeatedBy, form, same],
          fun _ _ => ⟨_, by simp only [answer, form, result, name, same, ne_eq, not_true_eq_false, if_false]; rfl⟩,
          by simp [form]⟩
    · exact ⟨by simp [repeatedBy, name],
        fun _ _ => ⟨_, by simp only [answer, form, result, name, ne_eq, not_false_eq_true, if_true]; rfl⟩, by simp [form]⟩

/-- Under a committed receipt no transaction holds a row, and no handler runs. -/
theorem KeyInv.row_none (inv : KeyInv state) {receipt : Receipt} (present : state.receipt = some receipt) (t : Nat) :
    state.row t = none := by
  simp [KeyUse.row, (inv.committed receipt present).2]

theorem repeat_step (inv : KeyInv state) {receipt : Receipt} (present : state.receipt = some receipt)
    (move : Move state next) : next.receipt = some receipt ∧ next.handled = state.handled ∧
      ∃ more, next.ended = state.ended ++ more ∧
        ∀ ended ∈ more, ended.phase ≠ .started → receipt.Answers ended.call ended.result := by
  cases move with
  | quiet same handled ended => exact ⟨same.trans present, handled, [], by simp [ended], by simp⟩
  | commit t ran open_ same handled ended =>
    have row := inv.row_none present t
    have nothing : ran = [] := by simpa [row, effects] using (inv.nesting t _ open_).2
    exact ⟨by simp [same, row, present], by simp [handled, nothing], [], by simp [ended], by simp⟩
  | answer t ran frame rest call phase result open_ run same handled ended verdict _ =>
    refine ⟨same.trans present, handled, _, ended, ?_⟩
    intro entry member late
    cases List.mem_singleton.mp member
    have row := inv.row_none present t
    cases phase with
    | started => exact absurd rfl late
    | authorised =>
      rw [show result = receipt.answer call from verdict rfl receipt (by simp [row, present])]
      exact receipt.answer_answers (inv.committed receipt present).1.result call
    | handling =>
      obtain ⟨_, held, own, _⟩ := (inv.top open_).1.handling run
      simp [row] at own

theorem repeat_run (inv : KeyInv state) {receipt : Receipt} (present : state.receipt = some receipt)
    (reached : Run.Reach KeyUse.step Run.always state next) : next.receipt = some receipt ∧
      next.handled = state.handled ∧ ∃ more, next.ended = state.ended ++ more ∧
        ∀ ended ∈ more, ended.phase ≠ .started → receipt.Answers ended.call ended.result := by
  induction reached with
  | start => exact ⟨present, rfl, [], by simp, by simp⟩
  | next before _ taken ih =>
    obtain ⟨present', handled, first, ended, verdicts⟩ := ih
    obtain ⟨still, same, more, grown, later⟩ := repeat_step (keyInv_run inv before) present' (step_move taken)
    refine ⟨still, same.trans handled, first ++ more, by rw [grown, ended, List.append_assoc], ?_⟩
    intro entry member
    exact (List.mem_append.mp member).elim (verdicts entry) (later entry)

theorem free_step (inv : KeyInv state) (move : Move state next) {entry : Ended}
    (answered : next.ended = state.ended ++ [entry]) (failed : entry.result.succeeded = false) :
    next.receipt = state.receipt ∧ next.handled = state.handled ∧
      (entry.phase = .handling → next.receipt = none ∧ next.uncommitted = none) := by
  cases move with
  | quiet _ _ ended => simp [ended] at answered
  | commit _ _ _ _ _ ended => simp [ended] at answered
  | answer t ran frame rest call phase result open_ run same handled ended _ undone =>
    rw [ended] at answered
    cases List.append_cancel_left answered
    refine ⟨same, handled, ?_⟩
    rintro rfl
    obtain ⟨saw, receipt, own, _⟩ := (inv.top open_).1.handling run
    have held : (state.row t).isSome = true := by simp [own]
    refine ⟨same.trans (inv.uncommitted held), ?_⟩
    rw [undone failed, saw]
    exact setRow_none_uncommitted held

theorem claim_free {call : Call} {input : Value} (absent : state.receipt = none) (nobody : state.uncommitted = none)
    (form : inputForm call.input = some input) : ∃ next, state.claim t handled frame rest call = some next ∧
      next.transactions t = some ⟨handled ++ [call.commandId], { frame with run := some (call, .handling) } :: rest⟩ := by
  have none_ : state.row t = none := by simp [KeyUse.row, nobody]
  refine ⟨(state.setRow t (some ⟨call.command, input, call.commandId, none⟩)).setTransaction t (some
    ⟨handled ++ [call.commandId], { frame with run := some (call, .handling) } :: rest⟩), ?_, ?_⟩
  · simp [KeyUse.claim, form, none_, absent, nobody]
  · exact Function.update_self ..

/-- An idempotency key makes a command run once, under any interleaving of its runs. -/
theorem runs_once {state : KeyUse} (reached : Run.Reach KeyUse.step Run.always .start state) : RunsOnce state := by
  have inv := keyInv_run keyInv_start reached
  refine ⟨inv.handled, ?_, ?_, ?_, ?_⟩
  · exact fun receipt present => (inv.committed receipt present).1
  · exact fun receipt present later run => repeat_run inv present run
  · exact fun action next ended taken => free_step inv (step_move taken)
  · intro t handled frame rest call absent nobody open_ run storable
    obtain ⟨input, form⟩ := Option.isSome_iff_exists.mp storable
    obtain ⟨next, claimed, runs⟩ := claim_free absent nobody form
    exact ⟨next, by simpa [KeyUse.step, KeyUse.inRun, KeyUse.atTop, open_, run] using claimed, runs⟩

end Steps

def approval (commandId orderId : String) : Call := ⟨commandId, "approve", .object [("orderId", .string orderId)]⟩

def refusedThenApproved : List KeyAction :=
  [.begin 0, .start 0 (approval "cmd_1" "o1"), .begin 1, .start 1 (approval "cmd_2" "o1"), .letOn 0, .letOn 1, .claim 0,
    .fail 0 "OUT_OF_STOCK", .claim 1, .commit 0, .succeed 1 (.object [("version", .number 2)]), .commit 1]

theorem runs_once_repeats : ∃ state, Run.run KeyUse.step .start
      (refusedThenApproved ++ [.begin 2, .start 2 (approval "cmd_3" "o1"), .letOn 2, .claim 2, .commit 2,
        .begin 3, .start 3 (approval "cmd_4" "o2"), .letOn 3, .claim 3]) = some state ∧
    state.handled = ["cmd_2"] ∧
    (state.ended.map fun ended => (ended.call.commandId, ended.result.succeeded)) =
      [("cmd_1", false), ("cmd_2", true), ("cmd_3", true), ("cmd_4", false)] ∧
    RunsOnce state :=
  ⟨_, rfl, rfl, rfl, runs_once (Run.Reach.of_run (rfl : Run.run KeyUse.step .start
    (refusedThenApproved ++ [.begin 2, .start 2 (approval "cmd_3" "o1"), .letOn 2, .claim 2, .commit 2,
      .begin 3, .start 3 (approval "cmd_4" "o2"), .letOn 3, .claim 3]) = some _))⟩

/-- A repeat that `authorize` refuses gets the refusal, and not the stored result. -/
theorem repeat_refused : ∃ state later receipt,
    Run.run KeyUse.step .start refusedThenApproved = some state ∧ state.receipt = some receipt ∧
    Run.run KeyUse.step state [.begin 2, .start 2 (approval "cmd_3" "o1"), .refuse 2 "FORBIDDEN"] = some later ∧
    later.ended = state.ended ++ [⟨approval "cmd_3" "o1", .started, .failure "FORBIDDEN"⟩] ∧
    receipt.repeatedBy (approval "cmd_3" "o1") = true ∧
    ¬ receipt.Answers (approval "cmd_3" "o1") (.failure "FORBIDDEN") := by
  refine ⟨_, _, _, rfl, rfl, rfl, rfl, by decide, ?_⟩
  intro answers
  obtain ⟨_, _, shown⟩ := answers.repeat_ (by decide)
  cases shown

end Arki.Journal
