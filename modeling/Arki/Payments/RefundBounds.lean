import Arki.Payments.RefundRuns

/-! What refunds hold stays within what was paid, over the runs whose sums count every refund. -/

set_option autoImplicit false

namespace Arki.Payments

open Arki.Run

section Totals

variable {wanted other : RefundRow → Bool} {rows : List RefundRow}

@[simp] theorem totalMinor_nil : totalMinor wanted [] = 0 := rfl

theorem totalMinor_cons (row : RefundRow) :
    totalMinor wanted (row :: rows) = (if wanted row then row.refundAmountMinor else 0) + totalMinor wanted rows := by
  unfold totalMinor
  rw [List.filter_cons]
  split
  · rw [List.map_cons, List.sum_cons]
  · rw [zero_add]

theorem totalMinor_append (row : RefundRow) :
    totalMinor wanted (rows ++ [row]) = totalMinor wanted rows + if wanted row then row.refundAmountMinor else 0 := by
  induction rows with
  | nil => rw [List.nil_append, totalMinor_cons, totalMinor_nil, add_comm]
  | cons first rest ih => rw [List.cons_append, totalMinor_cons, ih, totalMinor_cons, add_assoc]

/-- A condition that leaves out only rows without money selects the same total. -/
theorem totalMinor_le_of_cover (cover : ∀ row ∈ rows, wanted row = true → other row = true ∨ row.refundAmountMinor ≤ 0)
    (positive : ∀ row ∈ rows, 0 ≤ row.refundAmountMinor) : totalMinor wanted rows ≤ totalMinor other rows := by
  induction rows with
  | nil => exact le_refl 0
  | cons row rest ih =>
    rw [totalMinor_cons, totalMinor_cons]
    have tail := ih (fun row member => cover row (.tail _ member)) fun row member => positive row (.tail _ member)
    have amount := positive row (.head _)
    have head : (if wanted row then row.refundAmountMinor else 0) ≤ if other row then row.refundAmountMinor else 0 := by
      split
      · next isWanted =>
        rcases cover row (.head _) isWanted with isOther | nothing
        · rw [if_pos isOther]
        · split <;> omega
      · split <;> omega
    omega

/-- Rows replaced by rows that the condition selects no more often, at the same amount. -/
theorem totalMinor_update_le {matches_ : RefundRow → Bool} {set : RefundRow → RefundRow}
    (fewer : ∀ row ∈ rows, matches_ row = true → wanted (set row) = true →
      wanted row = true ∧ (set row).refundAmountMinor = row.refundAmountMinor)
    (positive : ∀ row ∈ rows, 0 ≤ row.refundAmountMinor) :
    totalMinor wanted (Table.update rows matches_ set) ≤ totalMinor wanted rows := by
  induction rows with
  | nil => exact le_refl 0
  | cons row rest ih =>
    have tail := ih (fun row member => fewer row (.tail _ member)) fun row member => positive row (.tail _ member)
    have amount := positive row (.head _)
    simp only [Table.update, List.map_cons] at tail ⊢
    rw [totalMinor_cons, totalMinor_cons]
    split
    · next hit =>
      split
      · next isWanted =>
        obtain ⟨was, same⟩ := fewer row (.head _) hit isWanted
        rw [if_pos was, same]
        omega
      · split <;> omega
    · omega

theorem totalMinor_eq_zero (none_ : ∀ row ∈ rows, wanted row = false) : totalMinor wanted rows = 0 := by
  unfold totalMinor
  rw [List.filter_eq_nil_iff.mpr fun row member => by simp [none_ row member]]
  rfl

end Totals

variable {texts : Texts} {store next : Store} {refundId : String} {recordedAt : Int}

variable {row later : RefundRow} {paymentId : String} {counts : Prop}

theorem find_id (found : store.refund? refundId = some row) : row ∈ store.refunds ∧ row.id = refundId :=
  ⟨List.mem_of_find?_eq_some found, by simpa using List.find?_some found⟩

theorem find_payment {payment : PaymentRow} (found : store.payment? paymentId = some payment) :
    payment ∈ store.payments ∧ payment.id = paymentId :=
  ⟨List.mem_of_find?_eq_some found, by simpa using List.find?_some found⟩

/-- A decision that only takes refunds further writes nothing or takes one row further. -/
theorem write_advances {decide_ : Option RefundRow → Except CommandFailure (List RefundEvent)}
    (refuses : ∀ events, decide_ none ≠ .ok events)
    (advances : ∀ row events, decide_ (some row) = .ok events → Advances texts.currencies texts.quoted row events) :
    store.write texts refundId recordedAt decide_ = store ∨
      ∃ row ∈ store.refunds, ∃ later, row.Follows later ∧
        store.write texts refundId recordedAt decide_ = store.replace row later := by
  unfold Store.write
  cases found : store.refund? refundId with
  | none =>
    cases decided : decide_ none with
    | error _ => exact .inl rfl
    | ok events => exact absurd decided (refuses events)
  | some row =>
    cases decided : decide_ (some row) with
    | error _ => exact .inl rfl
    | ok events =>
      dsimp only
      split
      · next missing _ => cases missing
      · next current later same folded =>
        cases same
        exact .inr ⟨row, (find_id found).1, later, advances row events decided _ _ later folded, rfl⟩
      · exact .inl rfl

structure Creates (texts : Texts) (refundId : String) (recordedAt : Int) (event : RefundEvent) (row : RefundRow) : Prop where
  built : createRow texts.currencies refundId recordedAt event = some row
  sameId : row.id = refundId
  isPending : row.status = .pending

theorem createRow_creates {event : RefundEvent}
    (built : createRow texts.currencies refundId recordedAt event = some row) : Creates texts refundId recordedAt event row := by
  refine ⟨built, ?_, ?_⟩ <;>
  · cases event <;> simp only [createRow, Option.bind_eq_bind, Option.bind_eq_some_iff, reduceCtorEq] at built
    all_goals
      obtain ⟨_, _, _, _, made⟩ := built
      cases made
      rfl

theorem write_creates {decide_ : Option RefundRow → Except CommandFailure (List RefundEvent)} {event : RefundEvent}
    (creates : ∀ row events, decide_ row = .ok events → events = [event])
    (noReducer : ∀ row, reduceRow texts.quoted recordedAt row event = none) :
    store.write texts refundId recordedAt decide_ = store ∨
      ∃ row, Creates texts refundId recordedAt event row ∧ store.refund? refundId = none ∧
        decide_ none = .ok [event] ∧ store.write texts refundId recordedAt decide_ = store.insert row := by
  unfold Store.write
  cases found : store.refund? refundId with
  | none =>
    cases decided : decide_ none with
    | error _ => exact .inl rfl
    | ok events =>
      cases creates none events decided
      simp only [fold, reduceOne]
      cases built : createRow texts.currencies refundId recordedAt event with
      | none => exact .inl rfl
      | some row => exact .inr ⟨row, createRow_creates built, trivial, trivial, rfl⟩
  | some row =>
    cases decided : decide_ (some row) with
    | error _ => exact .inl rfl
    | ok events =>
      cases creates (some row) events decided
      simp only [fold, reduceOne, noReducer]
      exact .inl rfl

/-- What every run keeps: ids name one row, and a completed refund has its provider's id. -/
structure Keyed (store : Store) : Prop where
  uniqueIds : (store.refunds.map RefundRow.id).Nodup
  provided : ∀ row ∈ store.refunds, row.status = .completed → row.providerRefundId.isSome

/-- The refunds after a step: each is one of before, perhaps one move further, or it is new and pending. -/
structure Carried (before after : List RefundRow) : Prop where
  kept : ∀ row ∈ before, ∃ later ∈ after, row.Follows later
  from_ : ∀ later ∈ after, (∃ row ∈ before, row.Follows later) ∨ later.status = .pending ∧ later.id ∉ before.map RefundRow.id

theorem Carried.refl (rows : List RefundRow) : Carried rows rows :=
  ⟨fun row member => ⟨row, member, .refl row⟩, fun row member => .inl ⟨row, member, .refl row⟩⟩

theorem Carried.replace (keyed : Keyed store) (member : row ∈ store.refunds)
    (follows : row.Follows later) : Carried store.refunds (store.replace row later).refunds := by
  refine ⟨fun old isOld => ?_, fun found isFound => ?_⟩
  · by_cases same : old.id = row.id
    · cases Table.eq_of_key keyed.uniqueIds isOld member same
      exact ⟨later, Table.mem_update.mpr (.inl ⟨row, member, by simp, rfl⟩), follows⟩
    · exact ⟨old, Table.mem_update.mpr (.inr ⟨isOld, by simpa using same⟩), .refl old⟩
  · rcases Table.mem_update.mp isFound with ⟨old, isOld, hit, rfl⟩ | ⟨isOld, -⟩
    · exact .inl ⟨row, member, follows⟩
    · exact .inl ⟨found, isOld, .refl found⟩

theorem Keyed.replace (keyed : Keyed store) (member : row ∈ store.refunds)
    (follows : row.Follows later) : Keyed (store.replace row later) := by
  refine ⟨?_, fun found isFound isCompleted => ?_⟩
  · have ids : (store.replace row later).refunds.map RefundRow.id = store.refunds.map RefundRow.id := by
      simp only [Store.replace, Table.update, List.map_map]
      refine List.map_congr_left fun old _ => ?_
      simp only [Function.comp_apply]
      split
      · next same => exact follows.sameId.trans (by simpa using same : old.id = row.id).symm
      · rfl
    rw [ids]
    exact keyed.uniqueIds
  · rcases Table.mem_update.mp isFound with ⟨old, -, -, rfl⟩ | ⟨isOld, -⟩
    · rcases follows.provided isCompleted with same | some_
      · exact same ▸ keyed.provided row member (same ▸ isCompleted)
      · exact some_
    · exact keyed.provided found isOld isCompleted

theorem not_mem_ids (missing : store.refund? refundId = none) : refundId ∉ store.refunds.map RefundRow.id := by
  intro inside
  obtain ⟨row, member, same⟩ := List.mem_map.mp inside
  have apart := List.find?_eq_none.mp missing row member
  simp [same] at apart

theorem insert_cases (row : RefundRow) :
    store.insert row = store ∨ (store.insert row).refunds = store.refunds ++ [row] ∧
      (store.insert row).payments = store.payments ∧ (store.insert row).open_ = store.open_ := by
  unfold Store.insert
  split
  · exact .inl rfl
  · exact .inr ⟨rfl, rfl, rfl⟩

theorem Keyed.append (keyed : Keyed store) (isNew : row.id ∉ store.refunds.map RefundRow.id)
    (isPending : row.status = .pending) (same : next.refunds = store.refunds ++ [row]) :
    Keyed next ∧ Carried store.refunds next.refunds := by
  refine ⟨⟨?_, ?_⟩, ?_, ?_⟩
  · rw [same]
    exact Table.nodup_append_row keyed.uniqueIds isNew
  · rw [same]
    intro found isFound isCompleted
    rcases List.mem_append.mp isFound with isOld | isLast
    · exact keyed.provided found isOld isCompleted
    · cases List.mem_singleton.mp isLast
      rw [isPending] at isCompleted
      cases isCompleted
  · intro old isOld
    exact ⟨old, same ▸ List.mem_append_left _ isOld, .refl old⟩
  · rw [same]
    intro found isFound
    rcases List.mem_append.mp isFound with isOld | isLast
    · exact .inl ⟨found, isOld, .refl found⟩
    · cases List.mem_singleton.mp isLast
      exact .inr ⟨isPending, isNew⟩

structure Fresh (store : Store) (row : RefundRow) : Prop where
  isNew : row.id ∉ store.refunds.map RefundRow.id
  isPending : row.status = .pending

/-- The effects of a step; `counts` is what the step's input and state say of older amounts. -/
inductive Effect (texts : Texts) (store : Store) (counts : Prop) : Store → Prop where
  | none_ : Effect texts store counts store
  | pay (payment : PaymentRow) (isNew : store.payment? payment.id = none) (positive : counts → 0 ≤ payment.amountMinor) :
      Effect texts store counts (store.pay payment)
  | replace (row later : RefundRow) (member : row ∈ store.refunds) (follows : row.Follows later) :
      Effect texts store counts (store.replace row later)
  | replay (row : RefundRow) (payment : PaymentRow) (fresh : Fresh store row) (isFree : store.isLocked row.paymentId = false)
      (paid : store.payment? row.paymentId = some payment)
      (fits : counts → 0 ≤ row.refundAmountMinor ∧
        heldMinor payment.id store.refunds + row.refundAmountMinor ≤ payment.amountMinor) :
      Effect texts store counts (store.insert row)
  | lock (request : OpenRequest) (member : request.payment ∈ store.payments) (isFree : store.isLocked request.payment.id = false)
      (sameId : request.payment.id = request.input.paymentId) (unread : request.held = none) :
      Effect texts store counts { store with open_ := store.open_ ++ [request] }
  | sum (paymentId : String) (counted : counts → countsAll texts store (.requestSum paymentId) = true) :
      Effect texts store counts (store.sum texts paymentId)
  | close (paymentId : String) : Effect texts store counts (store.close paymentId)
  | request (request : OpenRequest) (held : Int) (row : RefundRow) (member : request ∈ store.open_)
      (read : request.held = some held) (fresh : Fresh store row) (sameId : row.paymentId = request.input.paymentId)
      (positive : 0 < row.refundAmountMinor) (fits : held + row.refundAmountMinor ≤ request.payment.amountMinor) :
      Effect texts store counts ((store.close request.payment.id).insert row)

theorem initiate_effect {currency : String} {amount : Option Int}
    (positive : counts → ∀ minor, amount = some minor → 0 ≤ minor) :
    Effect texts store counts (store.initiate paymentId amount currency) := by
  unfold Store.initiate
  split
  · next minor isNew =>
    exact .pay ⟨paymentId, minor, currency⟩ isNew fun counted => positive counted minor rfl
  · exact .none_

theorem advances_effect {decide_ : Option RefundRow → Except CommandFailure (List RefundEvent)}
    (refuses : ∀ events, decide_ none ≠ .ok events)
    (advances : ∀ row events, decide_ (some row) = .ok events → Advances texts.currencies texts.quoted row events) :
    Effect texts store counts (store.write texts refundId recordedAt decide_) := by
  rcases @write_advances texts store refundId recordedAt decide_ refuses advances with same | ⟨row, member, later, follows, same⟩
  · rw [same]
    exact .none_
  · rw [same]
    exact .replace row later member follows

theorem lock_effect {input : RequestRefundInput} {made : String}
    (taken : store.lock texts input made = some next) : Effect texts store counts next := by
  unfold Store.lock at taken
  split at taken
  · cases taken
    exact .none_
  · next payment found =>
    obtain ⟨member, sameId⟩ := find_payment found
    split at taken
    · cases taken
    · next isFree =>
      split at taken
      · cases taken
        exact .lock ⟨input.refundId.getD made, input, payment, none⟩ member (by simpa using isFree) sameId rfl
      · cases taken
        exact .none_

theorem replayed {data : RefundRequest} {originalAmount refundAmount : ℚ} {currency : String}
    (created : Creates texts refundId recordedAt (.refundRequested data originalAmount refundAmount currency) row) :
    row.paymentId = data.paymentId ∧ legacyMinor texts.currencies refundAmount currency = some row.refundAmountMinor := by
  have built := created.built
  simp only [createRow, Option.bind_eq_bind, Option.bind_eq_some_iff] at built
  obtain ⟨_, _, refundMinor, held, made⟩ := built
  cases made
  exact ⟨rfl, held⟩

theorem requested_row {data : RefundRequest} {originalAmount refundAmount : Money}
    (created : Creates texts refundId recordedAt (.refundRequestedV2 data originalAmount refundAmount) row) :
    row.paymentId = data.paymentId ∧ row.refundAmountMinor = refundAmount.minor := by
  have built := created.built
  simp only [createRow, Option.bind_eq_bind, Option.bind_eq_some_iff] at built
  obtain ⟨_, _, refundMinor, held, made⟩ := built
  cases made
  refine ⟨rfl, ?_⟩
  unfold toMinorColumn at held
  split at held
  · exact (Option.some.inj held).symm
  · cases held

theorem replay_effect {data : RefundRequest} {originalAmount refundAmount : ℚ} {currency : String}
    (taken : step texts store (.refundRequested refundId recordedAt data originalAmount refundAmount currency) = some next) :
    Effect texts store
      (countsAll texts store (.refundRequested refundId recordedAt data originalAmount refundAmount currency) = true) next := by
  unfold step at taken
  dsimp only at taken
  split at taken
  · cases taken
  next isFree =>
  split at taken
  · cases taken
    exact .none_
  next isPaid =>
  cases taken
  have wrote := @write_creates texts store refundId recordedAt
    (fun _ => .ok [.refundRequested data originalAmount refundAmount currency])
    (.refundRequested data originalAmount refundAmount currency) (fun _ _ decided => (Except.ok.inj decided).symm) fun _ => rfl
  rcases wrote with same | ⟨row, created, missing, -, same⟩
  · rw [same]
    exact .none_
  · obtain ⟨samePayment, minor⟩ := replayed created
    cases found : store.payment? data.paymentId with
    | none => exact absurd (by rw [found]; rfl) isPaid
    | some payment =>
      rw [same]
      refine .replay row payment ⟨created.sameId ▸ not_mem_ids missing, created.isPending⟩ (by simpa [samePayment] using isFree)
        (samePayment ▸ found) fun counted => ?_
      simp only [countsAll, minor, found, Option.all_some, Bool.and_eq_true, decide_eq_true_eq] at counted
      exact counted

theorem write_effect
    (taken : step texts store (.requestWrite paymentId recordedAt) = some next) : Effect texts store counts next := by
  unfold step at taken
  dsimp only at taken
  split at taken
  · cases taken
  next request found =>
  obtain ⟨held, read, rfl⟩ := Option.map_eq_some_iff.mp taken
  have member : request ∈ store.open_ := List.mem_of_find?_eq_some found
  have same : request.payment.id = paymentId := by simpa using List.find?_some found
  subst same
  have wrote := @write_creates texts (store.close request.payment.id) request.refundId recordedAt
    (requestRefund texts.amount request.refundId request.input request.payment held)
    (.refundRequestedV2 request.input.request request.input.originalAmount request.input.refundAmount)
    (fun _ _ decided => (requestRefund_ok decided).2.2.2) fun _ => rfl
  rcases wrote with same | ⟨row, created, missing, decided, same⟩
  · rw [same]
    exact .close _
  · obtain ⟨-, positive, fits, -⟩ := requestRefund_ok decided
    obtain ⟨samePayment, amount⟩ := requested_row created
    rw [same]
    exact .request request held row member read ⟨created.sameId ▸ not_mem_ids missing, created.isPending⟩ samePayment
      (amount ▸ positive) (amount ▸ fits)

theorem step_effect {action : Action} (taken : step texts store action = some next) :
    Effect texts store (countsAll texts store action = true) next := by
  cases action with
  | initiatePayment paymentId amount =>
    cases taken
    split
    · exact .none_
    · next positive =>
      refine initiate_effect fun _ minor is => ?_
      unfold toMinorColumn at is
      split at is
      · cases is
        simpa [Money.isNegative] using positive
      · cases is
  | paymentInitiated paymentId amount currency =>
    cases taken
    refine initiate_effect fun counted minor is => ?_
    simpa [countsAll, is] using counted
  | refundRequested => exact replay_effect taken
  | requestLock => exact lock_effect taken
  | requestSum paymentId =>
    cases taken
    exact .sum paymentId id
  | requestWrite => exact write_effect taken
  | requestEnd paymentId =>
    cases taken
    exact .close paymentId
  | approveRefund =>
    cases taken
    exact advances_effect (fun _ decided => by cases decided) fun _ _ => approveRefund_advances
  | rejectRefund =>
    cases taken
    exact advances_effect (fun _ decided => by cases decided) fun _ _ => rejectRefund_advances
  | processRefund =>
    cases taken
    exact advances_effect (fun _ decided => by cases decided) fun _ _ => processRefund_advances
  | completeRefund =>
    cases taken
    exact advances_effect (fun _ decided => by cases decided) fun _ _ => completeRefund_advances
  | failRefund =>
    cases taken
    exact advances_effect (fun _ decided => by cases decided) fun _ _ => failRefund_advances

/-- Every step keeps the ids and the provider's ids, and carries every refund on. -/
theorem Effect.keyed (effect : Effect texts store counts next) (keyed : Keyed store) :
    Keyed next ∧ Carried store.refunds next.refunds := by
  cases effect with
  | replace row later member follows => exact ⟨keyed.replace member follows, .replace keyed member follows⟩
  | replay row payment fresh isFree paid fits =>
    rcases @insert_cases store row with same | ⟨same, -, -⟩
    · rw [same]
      exact ⟨keyed, .refl _⟩
    · exact keyed.append fresh.isNew fresh.isPending same
  | request request held row member read fresh sameId positive fits =>
    have closed : Keyed (store.close request.payment.id) := ⟨keyed.uniqueIds, keyed.provided⟩
    rcases @insert_cases (store.close request.payment.id) row with same | ⟨same, -, -⟩
    · rw [same]
      exact ⟨closed, .refl _⟩
    · exact closed.append fresh.isNew fresh.isPending same
  | _ => exact ⟨⟨keyed.uniqueIds, keyed.provided⟩, .refl _⟩

/-- Refunds within their payments, and open requests that have counted all that is held. -/
structure Sound (store : Store) : Prop extends Keyed store where
  uniquePayments : (store.payments.map PaymentRow.id).Nodup
  referenced : ∀ row ∈ store.refunds, ∃ payment ∈ store.payments, payment.id = row.paymentId
  positive : ∀ row ∈ store.refunds, 0 ≤ row.refundAmountMinor
  bounded : ∀ payment ∈ store.payments, heldMinor payment.id store.refunds ≤ payment.amountMinor
  uniqueOpen : (store.open_.map fun request => request.payment.id).Nodup
  opened : ∀ request ∈ store.open_, request.payment ∈ store.payments ∧ request.payment.id = request.input.paymentId ∧
    ∀ held, request.held = some held → heldMinor request.payment.id store.refunds ≤ held

theorem Sound.empty : Sound .empty where
  uniqueIds := .nil
  provided _ inside := by cases inside
  uniquePayments := .nil
  referenced _ inside := by cases inside
  positive _ inside := by cases inside
  bounded _ inside := by cases inside
  uniqueOpen := .nil
  opened _ inside := by cases inside

theorem not_mem_payments (missing : store.payment? paymentId = none) :
    paymentId ∉ store.payments.map PaymentRow.id := by
  intro inside
  obtain ⟨payment, member, same⟩ := List.mem_map.mp inside
  have apart := List.find?_eq_none.mp missing payment member
  simp [same] at apart

theorem free_iff :
    store.isLocked paymentId = false ↔ ∀ request ∈ store.open_, request.payment.id ≠ paymentId := by
  simp [Store.isLocked]

theorem heldMinor_replace (sound : Sound store) (member : row ∈ store.refunds)
    (follows : row.Follows later) (paymentId : String) :
    heldMinor paymentId (store.replace row later).refunds ≤ heldMinor paymentId store.refunds := by
  refine totalMinor_update_le (fun old isOld hit isWanted => ?_) sound.positive
  cases Table.eq_of_key sound.uniqueIds isOld member (by simpa using hit)
  simp only [Bool.and_eq_true, beq_iff_eq, follows.samePayment] at isWanted ⊢
  refine ⟨⟨isWanted.1, ?_⟩, follows.sameAmount⟩
  rcases follows.moved with same | moved
  · exact same ▸ isWanted.2
  · exact moved.holdsMoney

theorem Sound.replace (sound : Sound store) (member : row ∈ store.refunds)
    (follows : row.Follows later) : Sound (store.replace row later) := by
  have fewer := heldMinor_replace sound member follows
  have each {holds : RefundRow → Prop} (was : ∀ old ∈ store.refunds, holds old) (is : holds row → holds later) :
      ∀ found ∈ (store.replace row later).refunds, holds found := by
    intro found isFound
    rcases Table.mem_update.mp isFound with ⟨old, -, -, rfl⟩ | ⟨isOld, -⟩
    · exact is (was row member)
    · exact was found isOld
  exact {
    toKeyed := sound.toKeyed.replace member follows
    uniquePayments := sound.uniquePayments
    referenced := each sound.referenced fun is => by
      rw [follows.samePayment]
      exact is
    positive := each sound.positive fun is => by
      rw [follows.sameAmount]
      exact is
    bounded := fun payment isPayment => (fewer payment.id).trans (sound.bounded payment isPayment)
    uniqueOpen := sound.uniqueOpen
    opened := fun request isOpen =>
      ⟨(sound.opened request isOpen).1, (sound.opened request isOpen).2.1, fun held read =>
        (fewer request.payment.id).trans ((sound.opened request isOpen).2.2 held read)⟩ }

theorem Sound.pay (sound : Sound store) {payment : PaymentRow} (isNew : store.payment? payment.id = none)
    (positive : 0 ≤ payment.amountMinor) : Sound (store.pay payment) := by
  have fresh := not_mem_payments isNew
  exact {
    toKeyed := ⟨sound.uniqueIds, sound.provided⟩
    uniquePayments := Table.nodup_append_row sound.uniquePayments fresh
    referenced := fun row member => by
      obtain ⟨paid, isPaid, same⟩ := sound.referenced row member
      exact ⟨paid, List.mem_append_left _ isPaid, same⟩
    positive := sound.positive
    bounded := fun paid isPaid => by
      rcases List.mem_append.mp isPaid with isOld | isLast
      · exact sound.bounded paid isOld
      · -- no refund is of a payment that was not there
        cases List.mem_singleton.mp isLast
        have nothing : heldMinor payment.id store.refunds = 0 := totalMinor_eq_zero fun row member => by
          obtain ⟨other, isOther, same⟩ := sound.referenced row member
          have apart : row.paymentId ≠ payment.id := fun is => fresh (List.mem_map.mpr ⟨other, isOther, same.trans is⟩)
          simp [apart]
        show heldMinor payment.id store.refunds ≤ payment.amountMinor
        omega
    uniqueOpen := sound.uniqueOpen
    opened := fun request isOpen =>
      ⟨List.mem_append_left _ (sound.opened request isOpen).1, (sound.opened request isOpen).2⟩ }

theorem heldMinor_append (paymentId : String) (rows : List RefundRow) (row : RefundRow) :
    heldMinor paymentId (rows ++ [row]) = heldMinor paymentId rows +
      if (row.paymentId == paymentId && row.status.holdsMoney) = true then row.refundAmountMinor else 0 :=
  totalMinor_append row

/-- A new refund that fits its payment, while no request has that payment's row. -/
theorem Sound.insert (sound : Sound store) {payment : PaymentRow} (fresh : Fresh store row)
    (isFree : ∀ request ∈ store.open_, request.payment.id ≠ row.paymentId) (paid : payment ∈ store.payments)
    (same : payment.id = row.paymentId) (positive : 0 ≤ row.refundAmountMinor)
    (fits : heldMinor payment.id store.refunds + row.refundAmountMinor ≤ payment.amountMinor) : Sound (store.insert row) := by
  rcases @insert_cases store row with unchanged | ⟨refunds, payments, opens⟩
  · rw [unchanged]
    exact sound
  · have other {paymentId : String} (apart : row.paymentId ≠ paymentId) :
        heldMinor paymentId (store.insert row).refunds = heldMinor paymentId store.refunds := by
      rw [refunds, heldMinor_append, if_neg (by simp [apart]), add_zero]
    exact {
      toKeyed := (sound.toKeyed.append fresh.isNew fresh.isPending refunds).1
      uniquePayments := payments ▸ sound.uniquePayments
      referenced := fun found isFound => by
        rw [payments]
        rw [refunds] at isFound
        rcases List.mem_append.mp isFound with isOld | isLast
        · exact sound.referenced found isOld
        · cases List.mem_singleton.mp isLast
          exact ⟨payment, paid, same⟩
      positive := fun found isFound => by
        rw [refunds] at isFound
        rcases List.mem_append.mp isFound with isOld | isLast
        · exact sound.positive found isOld
        · cases List.mem_singleton.mp isLast
          exact positive
      bounded := fun found isPaid => by
        rw [payments] at isPaid
        by_cases here : row.paymentId = found.id
        · cases Table.eq_of_key sound.uniquePayments isPaid paid (here.symm.trans same.symm)
          rw [refunds, heldMinor_append]
          split <;> omega
        · rw [other here]
          exact sound.bounded found isPaid
      uniqueOpen := opens ▸ sound.uniqueOpen
      opened := fun request isOpen => by
        rw [opens] at isOpen
        obtain ⟨isPayment, isInput, counted⟩ := sound.opened request isOpen
        refine ⟨payments ▸ isPayment, isInput, fun held read => ?_⟩
        rw [other (isFree request isOpen).symm]
        exact counted held read }

theorem Sound.close (sound : Sound store) (paymentId : String) : Sound (store.close paymentId) where
  uniqueIds := sound.uniqueIds
  provided := sound.provided
  uniquePayments := sound.uniquePayments
  referenced := sound.referenced
  positive := sound.positive
  bounded := sound.bounded
  uniqueOpen := sound.uniqueOpen.sublist (List.filter_sublist.map _)
  opened request isOpen := sound.opened request (List.mem_filter.mp isOpen).1

theorem Sound.lock (sound : Sound store) {request : OpenRequest} (member : request.payment ∈ store.payments)
    (isFree : store.isLocked request.payment.id = false) (sameId : request.payment.id = request.input.paymentId)
    (unread : request.held = none) : Sound { store with open_ := store.open_ ++ [request] } where
  uniqueIds := sound.uniqueIds
  provided := sound.provided
  uniquePayments := sound.uniquePayments
  referenced := sound.referenced
  positive := sound.positive
  bounded := sound.bounded
  uniqueOpen := by
    refine Table.nodup_append_row sound.uniqueOpen fun inside => ?_
    obtain ⟨other, isOther, same⟩ := List.mem_map.mp inside
    exact free_iff.mp isFree other isOther same
  opened found isFound := by
    rcases List.mem_append.mp isFound with isOld | isLast
    · exact sound.opened found isOld
    · cases List.mem_singleton.mp isLast
      refine ⟨member, sameId, fun held read => ?_⟩
      rw [unread] at read
      cases read

theorem Sound.sum (sound : Sound store)
    (counted : countsAll texts store (.requestSum paymentId) = true) : Sound (store.sum texts paymentId) where
  uniqueIds := sound.uniqueIds
  provided := sound.provided
  uniquePayments := sound.uniquePayments
  referenced := sound.referenced
  positive := sound.positive
  bounded := sound.bounded
  uniqueOpen := by
    have same : (store.sum texts paymentId).open_.map (fun request => request.payment.id) =
        store.open_.map fun request => request.payment.id :=
      @Table.map_update _ _ _ (OpenRequest.read texts store.refunds) _ (fun _ => rfl) store.open_
    rw [same]
    exact sound.uniqueOpen
  opened found isFound := by
    rcases Table.mem_update.mp isFound with ⟨request, isOpen, hit, rfl⟩ | ⟨isOpen, -⟩
    · obtain ⟨isPaid, sameId, -⟩ := sound.opened request isOpen
      refine ⟨isPaid, sameId, fun held read => ?_⟩
      cases read
      have here : request.payment.id = paymentId := by
        simp only [Bool.and_eq_true, beq_iff_eq] at hit
        exact hit.1
      refine totalMinor_le_of_cover (fun row member isHeld => ?_) sound.positive
      have locked : store.payment? paymentId = some request.payment := by
        cases found : store.payment? paymentId with
        | none => exact absurd (List.mem_map.mpr ⟨request.payment, isPaid, here⟩) (not_mem_payments found)
        | some payment =>
          obtain ⟨isPayment, isId⟩ := find_payment found
          cases Table.eq_of_key sound.uniquePayments isPayment isPaid (isId.trans here.symm)
          rfl
      simp only [countsAll, locked, Option.all_some, List.all_eq_true] at counted
      have spelled := counted row member
      simp only [OpenRequest.read, Bool.and_eq_true, beq_iff_eq, Bool.or_eq_true, Bool.not_eq_true', Bool.and_eq_false_iff,
        decide_eq_false_iff_not, not_lt, beq_eq_false_iff_ne, ne_eq] at isHeld spelled ⊢
      rcases spelled with ((apart | idle) | nothing) | same
      · exact absurd isHeld.1 apart
      · rw [isHeld.2] at idle
        cases idle
      · exact .inr nothing
      · exact .inl ⟨⟨isHeld.1, same⟩, isHeld.2⟩
    · exact sound.opened found isOpen

theorem Effect.sound (effect : Effect texts store counts next) (counted : counts) (sound : Sound store) :
    Sound next := by
  cases effect with
  | none_ => exact sound
  | pay payment isNew positive => exact sound.pay isNew (positive counted)
  | replace row later member follows => exact sound.replace member follows
  | replay row payment fresh isFree paid fits =>
    obtain ⟨isPaid, same⟩ := find_payment paid
    obtain ⟨positive, fits⟩ := fits counted
    exact sound.insert fresh (free_iff.mp isFree) isPaid same positive fits
  | lock request member isFree sameId unread => exact sound.lock member isFree sameId unread
  | sum paymentId all => exact sound.sum (all counted)
  | close paymentId => exact sound.close paymentId
  | request request held row member read fresh sameId positive fits =>
    obtain ⟨isPaid, isInput, bounds⟩ := sound.opened request member
    have bound := bounds held read
    have isFree : ∀ other ∈ (store.close request.payment.id).open_, other.payment.id ≠ row.paymentId := by
      intro other isOpen
      rw [sameId, ← isInput]
      simpa using (List.mem_filter.mp isOpen).2
    refine (sound.close request.payment.id).insert ⟨fresh.isNew, fresh.isPending⟩ isFree isPaid (isInput.trans sameId.symm)
      positive.le ?_
    show heldMinor request.payment.id store.refunds + row.refundAmountMinor ≤ request.payment.amountMinor
    omega

theorem Reach.keyed (reached : Reach (step texts) always .empty store) : Keyed store :=
  reached.invariant Keyed Sound.empty.toKeyed fun _ _ _ keyed _ taken => ((step_effect taken).keyed keyed).1

theorem completed_stays {later : Store} (keyed : Keyed store) (member : row ∈ store.refunds)
    (isCompleted : row.status = .completed) (reached : Reach (step texts) always store later) :
    Keyed later ∧ row ∈ later.refunds := by
  refine reached.invariant (fun current => Keyed current ∧ row ∈ current.refunds) ⟨keyed, member⟩ ?_
  intro current action after holds _ taken
  obtain ⟨keyed, carried⟩ := (step_effect taken).keyed holds.1
  obtain ⟨moved, isMoved, follows⟩ := carried.kept row holds.2
  rcases follows.moved with same | moves
  · exact ⟨keyed, same ▸ isMoved⟩
  · exact absurd isCompleted moves.not_completed

/-- Where every sum counts every refund, no payment's refunds hold more than was paid; in every run each refund moves only
along its graph, and a completed one keeps the provider's id. -/
theorem refunds_within_payment (texts : Texts) :
    (∀ store, Reach (step texts) (fun store action => countsAll texts store action = true) .empty store →
      ∀ payment ∈ store.payments, heldMinor payment.id store.refunds ≤ payment.amountMinor) ∧
    (∀ store, Reach (step texts) always .empty store → ∀ action next, step texts store action = some next →
      (∀ row ∈ store.refunds, ∃ later ∈ next.refunds, later.id = row.id ∧ (later = row ∨ row.status.Moves later.status)) ∧
      ∀ later ∈ next.refunds, later.status = .pending ∨ ∃ row ∈ store.refunds, later.id = row.id) ∧
    ∀ store later, Reach (step texts) always .empty store → Reach (step texts) always store later →
      ∀ row ∈ store.refunds, row.status = .completed → row.providerRefundId.isSome = true ∧
        ∃ kept ∈ later.refunds, kept.id = row.id ∧ kept.status = .completed ∧ kept.providerRefundId = row.providerRefundId := by
  refine ⟨fun store reached => ?_, fun store reached action next taken => ?_, fun store later reached further row member is => ?_⟩
  · exact (reached.invariant Sound .empty fun _ _ _ sound counted taken => (step_effect taken).sound counted sound).bounded
  · obtain ⟨-, carried⟩ := (step_effect taken).keyed (Reach.keyed reached)
    refine ⟨fun row member => ?_, fun later member => ?_⟩
    · obtain ⟨later, isLater, follows⟩ := carried.kept row member
      exact ⟨later, isLater, follows.sameId, follows.moved⟩
    · rcases carried.from_ later member with ⟨row, isRow, follows⟩ | ⟨isPending, -⟩
      · exact .inr ⟨row, isRow, follows.sameId⟩
      · exact .inl isPending
  · have keyed := Reach.keyed reached
    exact ⟨keyed.provided row member is, row, (completed_stays keyed member is further).2, rfl, is, rfl⟩

/-! A payment of 100.00 USD, an older refund and a request of 80.00 USD each. -/

def dollars : Texts where
  currencies := ⟨String.toUpper, fun code => if code = "USD" then some 2 else none⟩
  quoted := fun text => "\"" ++ text ++ "\""
  amount := fun money => money.code

def asked (minor : Int) : RequestRefundInput :=
  ⟨some "new", "paid", ⟨minor, "USD"⟩, ⟨minor, "USD"⟩, .customerRequest, none, none, "ana", none⟩

def afterOlder (spelled : String) (minor : Int) : List Action :=
  [.initiatePayment "paid" ⟨10000, "USD"⟩,
    .refundRequested "old" 1 ⟨"paid", .customerRequest, none, none, "ana", none⟩ 80 80 spelled,
    .approveRefund "old" 2 "bo" none, .processRefund "old" 3, .completeRefund "old" 4 "re_1" none,
    .requestLock (asked minor) "made", .requestSum "paid", .requestWrite "paid" 5]

theorem refunds_within_payment_spelled :
    ∃ store, Reach (step dollars) (fun store action => countsAll dollars store action = true) .empty store ∧
      store.refunds.length = 2 ∧ (∀ payment ∈ store.payments, heldMinor payment.id store.refunds ≤ payment.amountMinor) ∧
      ∃ row ∈ store.refunds, row.status = .completed ∧ row.providerRefundId.isSome = true ∧
        ∃ kept ∈ store.refunds, kept.id = row.id ∧ kept.status = .completed ∧ kept.providerRefundId = row.providerRefundId := by
  have ran : (run (guarded (step dollars) fun store action => countsAll dollars store action = true) .empty
      (afterOlder "USD" 2000)).any (fun store => store.refunds.length = 2 ∧ ∃ row ∈ store.refunds, row.status = .completed) =
        true := by
    decide +kernel
  obtain ⟨store, ran, facts⟩ := (Option.any_eq_true _ _).mp ran
  obtain ⟨two, row, member, isCompleted⟩ := of_decide_eq_true facts
  have counted := Reach.of_guarded ran
  have reached : Reach (step dollars) always .empty store := counted.mono fun _ _ _ => trivial
  obtain ⟨within, -, keeps⟩ := refunds_within_payment dollars
  exact ⟨store, counted, two, within store counted, row, member, isCompleted,
    keeps store store reached .start row member isCompleted⟩

/-- The sum for `USD` does not see a refund that was stored as `usd`. -/
theorem refund_over_payment : ¬ ∀ texts store, Reach (step texts) always .empty store →
    ∀ payment ∈ store.payments, heldMinor payment.id store.refunds ≤ payment.amountMinor := by
  intro within
  have ran : (run (step dollars) .empty (afterOlder "usd" 8000)).any (fun store =>
      ∃ payment ∈ store.payments, payment.amountMinor < heldMinor payment.id store.refunds) = true := by
    decide +kernel
  obtain ⟨store, ran, facts⟩ := (Option.any_eq_true _ _).mp ran
  obtain ⟨payment, member, more⟩ := of_decide_eq_true facts
  have bound := within dollars store (Reach.of_run ran) payment member
  omega

end Arki.Payments
