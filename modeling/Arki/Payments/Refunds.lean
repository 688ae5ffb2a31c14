import Arki.Library.Outcome
import Arki.Payments.Money

/-! Refunds: the rows, the events with their reducers, and what each command decides for the row it reads. -/

set_option autoImplicit false

namespace Arki.Payments

open Arki.Outcome

inductive RefundStatus where
  | pending
  | approved
  | processing
  | completed
  | failed
  | rejected
  | canceled
  deriving DecidableEq

def RefundStatus.text : RefundStatus → String
  | .pending => "pending"
  | .approved => "approved"
  | .processing => "processing"
  | .completed => "completed"
  | .failed => "failed"
  | .rejected => "rejected"
  | .canceled => "canceled"

def RefundStatus.holdsMoney (status : RefundStatus) : Bool :=
  status ∈ [RefundStatus.pending, .approved, .processing, .completed]

inductive RefundReason where
  | customerRequest
  | duplicateCharge
  | fraudulentTransaction
  | serviceNotDelivered
  | billingError
  | technicalIssue
  | goodwillGesture
  | chargebackPrevention
  | other
  deriving DecidableEq

structure RefundRow where
  id : String
  paymentId : String
  originalAmountMinor : Int
  refundAmountMinor : Int
  currency : String
  reason : RefundReason
  status : RefundStatus
  providerRefundId : Option String
  providerResponse : Option String
  requestedBy : String
  approvedBy : Option String
  rejectedBy : Option String
  rejectionReason : Option String
  approvalNotes : Option String
  requestedAt : Int
  approvedAt : Option Int
  processedAt : Option Int
  completedAt : Option Int
  internalNotes : Option String
  customerNote : Option String
  metadata : Option String
  createdAt : Int
  updatedAt : Int
  version : Nat
  deriving DecidableEq

structure RefundRequest where
  paymentId : String
  reason : RefundReason
  customerNote : Option String
  internalNotes : Option String
  requestedBy : String
  metadata : Option String
  deriving DecidableEq

inductive RefundEvent where
  | refundRequested (data : RefundRequest) (originalAmount refundAmount : ℚ) (currency : String)
  | refundRequestedV2 (data : RefundRequest) (originalAmount refundAmount : Money)
  | refundApproved (approvedBy : String) (notes : Option String)
  | refundRejected (rejectedBy rejectionReason : String)
  | refundProcessed
  | refundCompleted (providerRefundId : String) (providerResponse : Option String)
  | refundFailed (errorMessage : String)
  deriving DecidableEq

/-- What a `decimal(10,2)` column held for an older amount, in minor units of the currency. -/
def legacyMinor (currencies : Currencies) (amount : ℚ) (currency : String) : Option Int :=
  (fromStoredNumber currencies (toFixed2 amount) currency).bind toMinorColumn

def requested (id : String) (data : RefundRequest) (originalAmountMinor refundAmountMinor : Int) (currency : String)
    (recordedAt : Int) : RefundRow where
  id := id
  paymentId := data.paymentId
  originalAmountMinor := originalAmountMinor
  refundAmountMinor := refundAmountMinor
  currency := currency
  reason := data.reason
  status := .pending
  providerRefundId := none
  providerResponse := none
  requestedBy := data.requestedBy
  approvedBy := none
  rejectedBy := none
  rejectionReason := none
  approvalNotes := none
  requestedAt := recordedAt
  approvedAt := none
  processedAt := none
  completedAt := none
  internalNotes := data.internalNotes
  customerNote := data.customerNote
  metadata := data.metadata
  createdAt := recordedAt
  updatedAt := recordedAt
  version := 1

/-- The reducers that create a row. An older event keeps the currency as its writer spelled it. -/
def createRow (currencies : Currencies) (id : String) (recordedAt : Int) : RefundEvent → Option RefundRow
  | .refundRequested data originalAmount refundAmount currency => do
    let originalMinor ← legacyMinor currencies originalAmount currency
    let refundMinor ← legacyMinor currencies refundAmount currency
    return requested id data originalMinor refundMinor currency recordedAt
  | .refundRequestedV2 data originalAmount refundAmount => do
    let originalMinor ← toMinorColumn originalAmount
    let refundMinor ← toMinorColumn refundAmount
    return requested id data originalMinor refundMinor refundAmount.code recordedAt
  | _ => none

/-- `JSON.stringify({ error })`; the escapes of a JSON text are the parameter. -/
def errorResponse (quoted : String → String) (errorMessage : String) : String :=
  "\x7b\"error\":" ++ quoted errorMessage ++ "\x7d"

def reduceRow (quoted : String → String) (recordedAt : Int) (row : RefundRow) : RefundEvent → Option RefundRow
  | .refundRequested .. | .refundRequestedV2 .. => none
  | .refundApproved approvedBy notes =>
    some { row with status := .approved, approvedBy := some approvedBy, approvalNotes := notes, approvedAt := some recordedAt,
                    updatedAt := recordedAt, version := row.version + 1 }
  | .refundRejected rejectedBy rejectionReason =>
    some { row with status := .rejected, rejectedBy := some rejectedBy, rejectionReason := some rejectionReason,
                    updatedAt := recordedAt, version := row.version + 1 }
  | .refundProcessed =>
    some { row with status := .processing, processedAt := some recordedAt, updatedAt := recordedAt, version := row.version + 1 }
  | .refundCompleted providerRefundId providerResponse =>
    some { row with status := .completed, providerRefundId := some providerRefundId, providerResponse := providerResponse,
                    completedAt := some recordedAt, updatedAt := recordedAt, version := row.version + 1 }
  | .refundFailed errorMessage =>
    some { row with status := .failed, providerResponse := some (errorResponse quoted errorMessage), updatedAt := recordedAt,
                    version := row.version + 1 }

/-- One event on the row or on its absence; an event that has no reducer there is refused. -/
def reduceOne (currencies : Currencies) (quoted : String → String) (id : String) (recordedAt : Int) (state : Option RefundRow)
    (event : RefundEvent) : Option RefundRow :=
  match state with
  | none => createRow currencies id recordedAt event
  | some row => reduceRow quoted recordedAt row event

def fold (currencies : Currencies) (quoted : String → String) (id : String) (recordedAt : Int) :
    Option RefundRow → List RefundEvent → Option (Option RefundRow)
  | state, [] => some state
  | state, event :: rest =>
    (reduceOne currencies quoted id recordedAt state event).bind fun row =>
      fold currencies quoted id recordedAt (some row) rest

inductive CommandFailure where
  | notFound (detail : String)
  | conflict (detail : String)
  | invalid (detail : String)
  | refundCurrencyMismatch (paymentId refundCurrency paymentCurrency : String)
  deriving DecidableEq

structure RequestRefundInput where
  refundId : Option String
  paymentId : String
  originalAmount : Money
  refundAmount : Money
  reason : RefundReason
  customerNote : Option String
  internalNotes : Option String
  requestedBy : String
  metadata : Option String
  deriving DecidableEq

def RequestRefundInput.request (input : RequestRefundInput) : RefundRequest where
  paymentId := input.paymentId
  reason := input.reason
  customerNote := input.customerNote
  internalNotes := input.internalNotes
  requestedBy := input.requestedBy
  metadata := input.metadata

/-- The columns that `requestRefund` reads of a payment. -/
structure PaymentRow where
  id : String
  amountMinor : Int
  currency : String
  deriving DecidableEq

def totalMinor (wanted : RefundRow → Bool) (refunds : List RefundRow) : Int :=
  ((refunds.filter wanted).map RefundRow.refundAmountMinor).sum

/-- `SUM(refund_amount_minor)` of the payment's refunds that hold money in one currency text. -/
def heldInCurrency (paymentId paymentCurrency : String) (refunds : List RefundRow) : Int :=
  totalMinor (fun row => row.paymentId == paymentId && row.currency == paymentCurrency && row.status.holdsMoney) refunds

/-- The first check, on the payment row just locked: a refund pays back the payment's own money. -/
def checkCurrency (currencies : Currencies) (input : RequestRefundInput) (payment : PaymentRow) : Except CommandFailure Unit :=
  let paymentCurrency := currencies.toUpperCase payment.currency
  if input.refundAmount.code ≠ paymentCurrency then
    .error (.refundCurrencyMismatch input.paymentId input.refundAmount.code paymentCurrency)
  else .ok ()

/-- What `requestRefund` decides; `text` prints an amount and `held` is the sum read under the lock. -/
def requestRefund (text : Money → String) (refundId : String) (input : RequestRefundInput) (payment : PaymentRow) (held : Int)
    (row : Option RefundRow) : Except CommandFailure (List RefundEvent) :=
  let exceedsPayment := payment.amountMinor < held + input.refundAmount.minor
  if row.isSome then .error (.conflict s!"Refund {refundId} already exists")
  else if !input.refundAmount.hasSameCurrency input.originalAmount then
    .error (.invalid ("Refund currency (" ++ input.refundAmount.code ++ ") differs from the original currency (" ++
      input.originalAmount.code ++ ")"))
  else if input.refundAmount.gt input.originalAmount then
    .error (.invalid ("Refund amount (" ++ text input.refundAmount ++ ") cannot exceed original amount (" ++
      text input.originalAmount ++ ")"))
  else if !input.refundAmount.isPositive then .error (.invalid "Refund amount must be positive")
  else if exceedsPayment then
    .error (.conflict ("Refund of " ++ text input.refundAmount ++ " exceeds what is left of the payment"))
  else .ok [.refundRequestedV2 input.request input.originalAmount input.refundAmount]

def requireRefund (row : Option RefundRow) (refundId : String) : Except CommandFailure RefundRow :=
  match row with
  | none => .error (.notFound s!"Refund {refundId} not found")
  | some row => .ok row

def leave (wanted : RefundStatus) (detail : String → String) (event : RefundEvent) (row : RefundRow) :
    Except CommandFailure (List RefundEvent) :=
  if row.status ≠ wanted then .error (.conflict (detail row.status.text)) else .ok [event]

def approveRefund (refundId approvedBy : String) (notes : Option String) (row : Option RefundRow) :
    Except CommandFailure (List RefundEvent) := do
  let current ← requireRefund row refundId
  leave .pending (fun status => s!"Cannot approve refund with status {status}") (.refundApproved approvedBy notes) current

def rejectRefund (refundId rejectedBy rejectionReason : String) (row : Option RefundRow) :
    Except CommandFailure (List RefundEvent) := do
  let current ← requireRefund row refundId
  leave .pending (fun status => s!"Cannot reject refund with status {status}") (.refundRejected rejectedBy rejectionReason)
    current

def processRefund (refundId : String) (row : Option RefundRow) : Except CommandFailure (List RefundEvent) := do
  let current ← requireRefund row refundId
  leave .approved (fun status => s!"Cannot process refund with status {status}. Must be approved first.") .refundProcessed
    current

/-- The provider's webhook and the service both report the same refund: the second changes nothing. -/
def completeRefund (refundId providerRefundId : String) (providerResponse : Option String) (row : Option RefundRow) :
    Except CommandFailure (List RefundEvent) := do
  let current ← requireRefund row refundId
  if current.status = .completed ∧ current.providerRefundId = some providerRefundId then .ok []
  else
    leave .processing (fun status => s!"Cannot complete refund with status {status}. Must be processing first.")
      (.refundCompleted providerRefundId providerResponse) current

def failRefund (refundId errorMessage : String) (row : Option RefundRow) : Except CommandFailure (List RefundEvent) := do
  let current ← requireRefund row refundId
  leave .processing (fun status => s!"Cannot fail refund with status {status}. Must be processing first.")
    (.refundFailed errorMessage) current

inductive RefundStatus.Moves : RefundStatus → RefundStatus → Prop where
  | approve : Moves .pending .approved
  | reject : Moves .pending .rejected
  | process : Moves .approved .processing
  | complete : Moves .processing .completed
  | fail : Moves .processing .failed

/-- One row as a command may leave it: the same, or one move further, with its payment, amount and currency kept. -/
structure RefundRow.Follows (row next : RefundRow) : Prop where
  sameId : next.id = row.id
  samePayment : next.paymentId = row.paymentId
  sameAmount : next.refundAmountMinor = row.refundAmountMinor
  sameCurrency : next.currency = row.currency
  moved : next = row ∨ row.status.Moves next.status
  provided : next.status = .completed → next = row ∨ next.providerRefundId.isSome

theorem RefundRow.Follows.refl (row : RefundRow) : row.Follows row :=
  ⟨rfl, rfl, rfl, rfl, .inl rfl, fun _ => .inl rfl⟩

theorem RefundStatus.Moves.holdsMoney {from_ next : RefundStatus} (moved : from_.Moves next) : from_.holdsMoney = true := by
  cases moved <;> rfl

theorem RefundStatus.Moves.not_completed {from_ next : RefundStatus} (moved : from_.Moves next) : from_ ≠ .completed := by
  cases moved <;> decide

section Decisions

variable {currencies : Currencies} {quoted : String → String} {row : RefundRow} {events : List RefundEvent} {refundId : String}

def Advances (currencies : Currencies) (quoted : String → String) (row : RefundRow) (events : List RefundEvent) : Prop :=
  ∀ id recordedAt next, fold currencies quoted id recordedAt (some row) events = some (some next) → row.Follows next

theorem leave_ok {wanted : RefundStatus} {detail : String → String} {event : RefundEvent}
    (decided : leave wanted detail event row = .ok events) : row.status = wanted ∧ events = [event] := by
  unfold leave at decided
  split at decided
  · cases decided
  · next same =>
    cases decided
    exact ⟨by simpa using same, rfl⟩

/-- A command that takes a refund out of one status, where the event's reducer follows from that status. -/
theorem leave_advances {wanted : RefundStatus} {detail : String → String} {event : RefundEvent}
    (decided : leave wanted detail event row = .ok events)
    (follows : row.status = wanted → ∀ recordedAt next, reduceRow quoted recordedAt row event = some next → row.Follows next) :
    Advances currencies quoted row events := by
  obtain ⟨was, rfl⟩ := leave_ok decided
  intro id recordedAt next folded
  simp only [fold, reduceOne, Option.bind_eq_some_iff] at folded
  obtain ⟨reached, reduced, same⟩ := folded
  cases same
  exact follows was recordedAt next reduced

theorem approveRefund_advances {approvedBy : String} {notes : Option String}
    (decided : approveRefund refundId approvedBy notes (some row) = .ok events) : Advances currencies quoted row events := by
  obtain ⟨current, found, decided⟩ := bind_ok.mp decided
  cases found
  refine leave_advances decided fun was recordedAt next reduced => ?_
  cases reduced
  exact ⟨rfl, rfl, rfl, rfl, .inr (was ▸ .approve), fun is => by cases is⟩

theorem rejectRefund_advances {rejectedBy rejectionReason : String}
    (decided : rejectRefund refundId rejectedBy rejectionReason (some row) = .ok events) :
    Advances currencies quoted row events := by
  obtain ⟨current, found, decided⟩ := bind_ok.mp decided
  cases found
  refine leave_advances decided fun was recordedAt next reduced => ?_
  cases reduced
  exact ⟨rfl, rfl, rfl, rfl, .inr (was ▸ .reject), fun is => by cases is⟩

theorem processRefund_advances (decided : processRefund refundId (some row) = .ok events) :
    Advances currencies quoted row events := by
  obtain ⟨current, found, decided⟩ := bind_ok.mp decided
  cases found
  refine leave_advances decided fun was recordedAt next reduced => ?_
  cases reduced
  exact ⟨rfl, rfl, rfl, rfl, .inr (was ▸ .process), fun is => by cases is⟩

theorem failRefund_advances {errorMessage : String} (decided : failRefund refundId errorMessage (some row) = .ok events) :
    Advances currencies quoted row events := by
  obtain ⟨current, found, decided⟩ := bind_ok.mp decided
  cases found
  refine leave_advances decided fun was recordedAt next reduced => ?_
  cases reduced
  exact ⟨rfl, rfl, rfl, rfl, .inr (was ▸ .fail), fun is => by cases is⟩

theorem completeRefund_advances {providerRefundId : String} {providerResponse : Option String}
    (decided : completeRefund refundId providerRefundId providerResponse (some row) = .ok events) :
    Advances currencies quoted row events := by
  obtain ⟨current, found, decided⟩ := bind_ok.mp decided
  cases found
  split at decided
  · -- the second report of one refund
    cases decided
    intro id recordedAt next folded
    cases folded
    exact .refl row
  · refine leave_advances decided fun was recordedAt next reduced => ?_
    cases reduced
    exact ⟨rfl, rfl, rfl, rfl, .inr (was ▸ .complete), fun _ => .inr rfl⟩

theorem requestRefund_ok {text : Money → String} {input : RequestRefundInput} {payment : PaymentRow} {held : Int}
    {found : Option RefundRow} (decided : requestRefund text refundId input payment held found = .ok events) :
    found = none ∧ 0 < input.refundAmount.minor ∧ held + input.refundAmount.minor ≤ payment.amountMinor ∧
      events = [.refundRequestedV2 input.request input.originalAmount input.refundAmount] := by
  unfold requestRefund at decided
  dsimp only at decided
  split at decided
  · cases decided
  split at decided
  · cases decided
  split at decided
  · cases decided
  split at decided
  · cases decided
  split at decided
  · cases decided
  next isNew _ _ positive fits =>
    cases decided
    exact ⟨by simpa using isNew, by simpa [Money.isPositive] using positive, by omega, rfl⟩

end Decisions

end Arki.Payments
