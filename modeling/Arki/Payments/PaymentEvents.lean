import Arki.Library.Run
import Arki.Payments.Refunds

/-! Payments on the journal, and the webhook events that move them. -/

set_option autoImplicit false

namespace Arki.Payments.PaymentJournal

inductive PaymentStatus where
  | pending
  | processing
  | succeeded
  | failed
  | canceled
  | requiresAction
  deriving DecidableEq

def PaymentStatus.text : PaymentStatus → String
  | .pending => "pending"
  | .processing => "processing"
  | .succeeded => "succeeded"
  | .failed => "failed"
  | .canceled => "canceled"
  | .requiresAction => "requires_action"

structure PaymentRow where
  id : String
  amountMinor : Int
  currency : String
  status : PaymentStatus
  failureReason : Option String
  receiptUrl : Option String
  refunded : Bool
  refundedAmountMinor : Int
  updatedAt : Int
  amount_not_negative : 0 ≤ amountMinor
  refunded_not_negative : 0 ≤ refundedAmountMinor
  refunded_lte_amount : refundedAmountMinor ≤ amountMinor

inductive PaymentEvent where
  | completed (receiptUrl : Option String)
  | failed (failureReason : String)
  | requiresAction
  | refundRecorded (refundedAmount : Money)
  deriving DecidableEq

/-- The reducers. An amount that no column holds, or that breaks a check of the table, throws. -/
def reduce (recordedAt : Int) (row : PaymentRow) : PaymentEvent → Option PaymentRow
  | .completed receiptUrl => some { row with status := .succeeded, receiptUrl, updatedAt := recordedAt }
  | .failed failureReason => some { row with status := .failed, failureReason := some failureReason, updatedAt := recordedAt }
  | .requiresAction => some { row with status := .requiresAction, updatedAt := recordedAt }
  | .refundRecorded refundedAmount =>
    (toMinorColumn refundedAmount).bind fun minor =>
      if fits : 0 ≤ minor ∧ minor ≤ row.amountMinor then
        some { row with
          refunded := refundedAmount.minor ≠ 0, refundedAmountMinor := minor, updatedAt := recordedAt,
          refunded_not_negative := fits.1, refunded_lte_amount := fits.2 }
      else none

def reduceAll (recordedAt : Int) (row : PaymentRow) (events : List PaymentEvent) : Option PaymentRow := events.foldlM (reduce recordedAt) row

def isOpen (status : PaymentStatus) : Bool := status = .pending ∨ status = .processing ∨ status = .requiresAction

inductive Refusal where
  | command (failure : CommandFailure)
  | schema (message : String)
  | thrown
  deriving DecidableEq

def requirePayment (row : Option PaymentRow) (paymentId : String) : Except Refusal PaymentRow :=
  match row with
  | none => .error (.command (.notFound ("Payment " ++ paymentId ++ " not found")))
  | some row => .ok row

def conflict (detail : String) : Except Refusal (List PaymentEvent) := .error (.command (.conflict detail))

def completePayment (paymentId : String) (receiptUrl : Option String) (row : Option PaymentRow) : Except Refusal (List PaymentEvent) := do
  let current ← requirePayment row paymentId
  if !isOpen current.status && current.status ≠ .failed then conflict ("Cannot complete payment with status " ++ current.status.text)
  else .ok [.completed receiptUrl]

def failPayment (paymentId failureReason : String) (row : Option PaymentRow) : Except Refusal (List PaymentEvent) := do
  let current ← requirePayment row paymentId
  if !isOpen current.status then conflict ("Cannot fail payment with status " ++ current.status.text)
  else .ok [.failed failureReason]

def markPaymentRequiresAction (paymentId : String) (row : Option PaymentRow) : Except Refusal (List PaymentEvent) := do
  let current ← requirePayment row paymentId
  if current.status = .requiresAction then .ok []
  else if !isOpen current.status then
    conflict ("Cannot mark payment with status " ++ current.status.text ++ " as requiring action")
  else .ok [.requiresAction]

def recordPaymentRefund (currencies : Currencies) (paymentId : String) (refundedAmount : Money) (row : Option PaymentRow) :
    Except Refusal (List PaymentEvent) :=
  if refundedAmount.isNegative then .error (.schema "Amount must not be negative")
  else do
    let current ← requirePayment row paymentId
    if current.status ≠ .succeeded then conflict ("Cannot refund payment with status " ++ current.status.text)
    else if refundedAmount.code ≠ currencies.toUpperCase current.currency then
      .error (.command (.invalid ("Refund is in " ++ refundedAmount.code ++ ", payment is in " ++ current.currency)))
    else
      match toMinorColumn refundedAmount with
      | none => .error .thrown
      | some refundedMinor =>
        if refundedMinor > current.amountMinor then
          .error (.command (.invalid ("Refund of " ++ toString refundedMinor ++ " exceeds the payment of " ++ toString current.amountMinor)))
        -- Not higher than what is recorded: a resent or out-of-order report.
        else if refundedMinor ≤ current.refundedAmountMinor then .ok []
        else .ok [.refundRecorded refundedAmount]

inductive PaymentOutcome where
  | succeeded
  | failed
  | requiresAction
  deriving DecidableEq

def paymentMovesFrom : PaymentOutcome → List PaymentStatus
  | .succeeded => [.pending, .processing, .requiresAction, .failed]
  | .failed => [.pending, .processing, .requiresAction]
  | .requiresAction => [.pending, .processing]

/-- A webhook event as the handler read it. A refunded total that `@arki/money` refuses is missing. -/
inductive WebhookEvent where
  | outcome (outcome : PaymentOutcome) (failureReason : Option String)
  | refunded (refundedAmount : Option Money)
  deriving DecidableEq

def commandOf (currencies : Currencies) (paymentId : String) (event : WebhookEvent) (row : Option PaymentRow) : Except Refusal (List PaymentEvent) :=
  match event with
  | .outcome .succeeded _ => completePayment paymentId none row
  | .outcome .failed failureReason => failPayment paymentId (failureReason.getD "payment_failed") row
  | .outcome .requiresAction _ => markPaymentRequiresAction paymentId row
  | .refunded none => .error (.schema "the amount is refused")
  | .refunded (some refundedAmount) => recordPaymentRefund currencies paymentId refundedAmount row

/-- Whether the handler calls the command for the row it read; otherwise the event changes nothing and counts as done. -/
def callsCommand (event : WebhookEvent) (status : PaymentStatus) : Bool :=
  match event with
  | .outcome outcome _ => status ∈ paymentMovesFrom outcome
  | .refunded _ => true

section Deliveries

inductive HandlerPhase where
  | writing
  | reconciling
  | answered (acknowledged : Bool)
  deriving DecidableEq

structure Handler where
  event : Nat
  phase : HandlerPhase

structure World where
  row : PaymentRow
  handlers : List Handler

inductive Action where
  | deliver (event : Nat)
  | write (handler : Nat) (recordedAt : Int)
  | reconcile (handler : Nat) (done : Bool)

def World.setHandler (world : World) (number : Nat) (handler : Handler) : World := { world with handlers := world.handlers.set number handler }

def written (currencies : Currencies) (recordedAt : Int) (event : WebhookEvent) (row : PaymentRow) : Except Refusal PaymentRow :=
  match commandOf currencies row.id event (some row) with
  | .error refusal => .error refusal
  | .ok events =>
    match reduceAll recordedAt row events with
    | none => .error .thrown
    | some row => .ok row

def afterWrite (event : WebhookEvent) : HandlerPhase :=
  match event with
  | .outcome .. => .answered true
  | .refunded _ => .reconciling

/-- The deliveries of the events: any event at any time and any number of times, the handlers interleaved with each other. -/
def step (currencies : Currencies) (events : List WebhookEvent) (world : World) : Action → Option World
  | .deliver number =>
    events[number]?.map fun event =>
      let phase := if callsCommand event world.row.status then .writing else .answered true
      { world with handlers := world.handlers ++ [⟨number, phase⟩] }
  | .write number recordedAt =>
    world.handlers[number]?.bind fun handler =>
      if handler.phase = .writing then
        events[handler.event]?.map fun event =>
          match written currencies recordedAt event world.row with
          | .error _ => world.setHandler number ⟨handler.event, .answered false⟩
          | .ok row => { world.setHandler number ⟨handler.event, afterWrite event⟩ with row }
      else none
  | .reconcile number done =>
    world.handlers[number]?.bind fun handler =>
      if handler.phase = .reconciling then some (world.setHandler number ⟨handler.event, .answered done⟩) else none

def start (row : PaymentRow) : World := ⟨row, []⟩

def World.AllAcknowledged (events : List WebhookEvent) (world : World) : Prop :=
  ∀ number event, events[number]? = some event → ∃ handler ∈ world.handlers, handler.event = number ∧ handler.phase = .answered true

end Deliveries

end Arki.Payments.PaymentJournal
