import Mathlib.Algebra.Order.BigOperators.Group.List
import Arki.Library.Run
import Arki.Library.Table
import Arki.Payments.Refunds

/-! The payments and refunds tables under transactions that overlap: `requestRefund` holds its payment's row from its first
statement to its commit, the other commands are one statement on one row.
-/

set_option autoImplicit false

namespace Arki.Payments

open Arki.Run

/-- What the package takes from the language and from `@arki/money`. -/
structure Texts where
  currencies : Currencies
  quoted : String → String
  amount : Money → String

/-- A `requestRefund` that has locked its payment and not committed; `held` is the sum once it is read. -/
structure OpenRequest where
  refundId : String
  input : RequestRefundInput
  payment : PaymentRow
  held : Option Int
  deriving DecidableEq

structure Store where
  payments : List PaymentRow
  refunds : List RefundRow
  open_ : List OpenRequest
  deriving DecidableEq

def Store.empty : Store := ⟨[], [], []⟩

def Store.payment? (store : Store) (paymentId : String) : Option PaymentRow := store.payments.find? (·.id == paymentId)

def Store.refund? (store : Store) (refundId : String) : Option RefundRow := store.refunds.find? (·.id == refundId)

/-- The row lock of an open request. The foreign key of a new refund waits for it as well. -/
def Store.isLocked (store : Store) (paymentId : String) : Bool := store.open_.any (·.payment.id == paymentId)

def Store.request? (store : Store) (paymentId : String) : Option OpenRequest := store.open_.find? (·.payment.id == paymentId)

def Store.pay (store : Store) (payment : PaymentRow) : Store := { store with payments := store.payments ++ [payment] }

def Store.close (store : Store) (paymentId : String) : Store :=
  { store with open_ := store.open_.filter fun request => !(request.payment.id == paymentId) }

/-- A new row, unless another refund of the payment is pending: `refunds_one_pending_per_payment_idx`. -/
def Store.insert (store : Store) (row : RefundRow) : Store :=
  if store.refunds.any fun other => other.paymentId == row.paymentId && other.status == .pending then store
  else { store with refunds := store.refunds ++ [row] }

def Store.replace (store : Store) (row next : RefundRow) : Store :=
  { store with refunds := Table.update store.refunds (·.id == row.id) fun _ => next }

/-- Read the row, decide, fold the events and save. What is refused or throws leaves the tables as they are. -/
def Store.write (texts : Texts) (store : Store) (refundId : String) (recordedAt : Int)
    (decide_ : Option RefundRow → Except CommandFailure (List RefundEvent)) : Store :=
  match decide_ (store.refund? refundId) with
  | .error _ => store
  | .ok events =>
    match store.refund? refundId, fold texts.currencies texts.quoted refundId recordedAt (store.refund? refundId) events with
    | none, some (some next) => store.insert next
    | some row, some (some next) => store.replace row next
    | _, _ => store

inductive Action where
  /-- `PaymentInitiatedV2`, by `initiatePayment`. -/
  | initiatePayment (paymentId : String) (amount : Money)
  | paymentInitiated (paymentId : String) (amount : ℚ) (currency : String)
  | refundRequested (refundId : String) (recordedAt : Int) (data : RefundRequest) (originalAmount refundAmount : ℚ)
      (currency : String)
  /-- The three parts of `requestRefund`; `made` is the id for an input without one. -/
  | requestLock (input : RequestRefundInput) (made : String)
  | requestSum (paymentId : String)
  | requestWrite (paymentId : String) (recordedAt : Int)
  | requestEnd (paymentId : String)
  | approveRefund (refundId : String) (recordedAt : Int) (approvedBy : String) (notes : Option String)
  | rejectRefund (refundId : String) (recordedAt : Int) (rejectedBy rejectionReason : String)
  | processRefund (refundId : String) (recordedAt : Int)
  | completeRefund (refundId : String) (recordedAt : Int) (providerRefundId : String) (providerResponse : Option String)
  | failRefund (refundId : String) (recordedAt : Int) (errorMessage : String)
  deriving DecidableEq

def Store.initiate (store : Store) (paymentId : String) (amount : Option Int) (currency : String) : Store :=
  match store.payment? paymentId, amount with
  | none, some minor => store.pay ⟨paymentId, minor, currency⟩
  | _, _ => store

def legacyPayment (currencies : Currencies) (amount : ℚ) (currency : String) : Option Int :=
  (storedReal amount).bind fun stored => (fromStoredNumber currencies stored currency).bind toMinorColumn

/-- The first statement and the check on what it read. A payment that another request holds makes it wait. -/
def Store.lock (texts : Texts) (store : Store) (input : RequestRefundInput) (made : String) : Option Store :=
  match store.payment? input.paymentId with
  | none => some store
  | some payment =>
    if store.isLocked payment.id then none
    else
      match checkCurrency texts.currencies input payment, toMinorColumn input.refundAmount with
      | .ok _, some _ => some { store with open_ := store.open_ ++ [⟨input.refundId.getD made, input, payment, none⟩] }
      | _, _ => some store

/-- The second statement: the sum over the rows in the payment's currency, its code in upper case. -/
def OpenRequest.read (texts : Texts) (refunds : List RefundRow) (request : OpenRequest) : OpenRequest :=
  let paymentCurrency := texts.currencies.toUpperCase request.payment.currency
  { request with held := some (heldInCurrency request.payment.id paymentCurrency refunds) }

def Store.sum (texts : Texts) (store : Store) (paymentId : String) : Store :=
  let isHere (request : OpenRequest) := request.payment.id == paymentId && request.held.isNone
  { store with open_ := Table.update store.open_ isHere (OpenRequest.read texts store.refunds) }

def step (texts : Texts) (store : Store) : Action → Option Store
  | .initiatePayment paymentId amount =>
    some (if amount.isNegative then store else store.initiate paymentId (toMinorColumn amount) amount.code)
  | .paymentInitiated paymentId amount currency =>
    some (store.initiate paymentId (legacyPayment texts.currencies amount currency) currency)
  | .refundRequested refundId recordedAt data originalAmount refundAmount currency =>
    if store.isLocked data.paymentId then none
    else if (store.payment? data.paymentId).isNone then some store
    else some (store.write texts refundId recordedAt fun _ => .ok [.refundRequested data originalAmount refundAmount currency])
  | .requestLock input made => store.lock texts input made
  | .requestSum paymentId => some (store.sum texts paymentId)
  | .requestWrite paymentId recordedAt =>
    match store.request? paymentId with
    | none => none
    | some request =>
      request.held.map fun held => ((store.close paymentId).write texts request.refundId recordedAt
        (Payments.requestRefund texts.amount request.refundId request.input request.payment held))
  | .requestEnd paymentId => some (store.close paymentId)
  | .approveRefund refundId recordedAt approvedBy notes =>
    some (store.write texts refundId recordedAt (Payments.approveRefund refundId approvedBy notes))
  | .rejectRefund refundId recordedAt rejectedBy rejectionReason =>
    some (store.write texts refundId recordedAt (Payments.rejectRefund refundId rejectedBy rejectionReason))
  | .processRefund refundId recordedAt => some (store.write texts refundId recordedAt (Payments.processRefund refundId))
  | .completeRefund refundId recordedAt providerRefundId providerResponse =>
    some (store.write texts refundId recordedAt (Payments.completeRefund refundId providerRefundId providerResponse))
  | .failRefund refundId recordedAt errorMessage =>
    some (store.write texts refundId recordedAt (Payments.failRefund refundId errorMessage))

def heldMinor (paymentId : String) (refunds : List RefundRow) : Int :=
  totalMinor (fun row => row.paymentId == paymentId && row.status.holdsMoney) refunds

/-- The steps that count every refund: an older payment is not negative, an older refund is not negative and fits what is left
of its payment, and no refund with money is spelled in another way than the text that the sum is taken over. -/
def countsAll (texts : Texts) (store : Store) : Action → Bool
  | .paymentInitiated _ amount currency => (legacyPayment texts.currencies amount currency).all fun minor => 0 ≤ minor
  | .refundRequested _ _ data _ refundAmount currency =>
    (legacyMinor texts.currencies refundAmount currency).all fun minor => 0 ≤ minor &&
      (store.payment? data.paymentId).all fun payment =>
        heldMinor payment.id store.refunds + minor ≤ payment.amountMinor
  | .requestSum paymentId =>
    (store.payment? paymentId).all fun payment => store.refunds.all fun row =>
      !(row.paymentId == payment.id && row.status.holdsMoney && 0 < row.refundAmountMinor) ||
        row.currency == texts.currencies.toUpperCase payment.currency
  | _ => true

end Arki.Payments
