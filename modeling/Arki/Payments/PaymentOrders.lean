import Arki.Payments.PaymentEvents

/-! What the webhook events of one payment come to, in any order of their deliveries. -/

set_option autoImplicit false

namespace Arki.Payments.PaymentJournal

open Arki.Run

variable {currencies : Currencies} {events : List WebhookEvent} {row row' : PaymentRow} {world next : World}

def PaymentOutcome.target : PaymentOutcome → PaymentStatus
  | .succeeded => .succeeded
  | .failed => .failed
  | .requiresAction => .requiresAction

def has (events : List WebhookEvent) (outcome : PaymentOutcome) : Prop := ∃ failureReason, WebhookEvent.outcome outcome failureReason ∈ events

def Settles (outcomes : PaymentOutcome → Prop) (status final : PaymentStatus) : Prop :=
  match status with
  | .succeeded => final = .succeeded
  | .canceled => final = .canceled
  | .failed => (outcomes .succeeded → final = .succeeded) ∧ (¬ outcomes .succeeded → final = .failed)
  | .requiresAction =>
    (outcomes .succeeded → final = .succeeded) ∧ (¬ outcomes .succeeded → outcomes .failed → final = .failed) ∧
      (¬ outcomes .succeeded → ¬ outcomes .failed → final = .requiresAction)
  | status =>
    (outcomes .succeeded → final = .succeeded) ∧ (¬ outcomes .succeeded → outcomes .failed → final = .failed) ∧
      (¬ outcomes .succeeded → ¬ outcomes .failed → outcomes .requiresAction → final = .requiresAction) ∧
        (¬ outcomes .succeeded → ¬ outcomes .failed → ¬ outcomes .requiresAction → final = status)

variable {status : PaymentStatus} {first : PaymentRow}

theorem settles_move {outcomes : PaymentOutcome → Prop} {final : PaymentStatus} {outcome : PaymentOutcome}
    (moves : status ∈ paymentMovesFrom outcome) (delivered : outcomes outcome) :
    Settles outcomes outcome.target final ↔ Settles outcomes status final := by
  cases outcome <;> cases status <;> simp [paymentMovesFrom] at moves <;> simp only [PaymentOutcome.target, Settles] <;> tauto

theorem settles_fixed {outcomes : PaymentOutcome → Prop}
    (fixed : ∀ outcome, outcomes outcome → status ∉ paymentMovesFrom outcome) : Settles outcomes status status := by
  have succeeded := fixed .succeeded
  have failed := fixed .failed
  have requiresAction := fixed .requiresAction
  cases status <;> simp [paymentMovesFrom] at succeeded failed requiresAction <;> simp [Settles] <;> tauto

theorem settles_unique {outcomes : PaymentOutcome → Prop} {final final' : PaymentStatus} (first : Settles outcomes status final)
    (second : Settles outcomes status final') : final = final' := by
  by_cases succeeded : outcomes .succeeded <;> by_cases failed : outcomes .failed <;> by_cases requiresAction : outcomes .requiresAction <;>
    cases status <;> simp_all [Settles]

def WebhookEvent.total : WebhookEvent → Option Int
  | .refunded (some refundedAmount) => some refundedAmount.minor
  | _ => none

/-- The row shows the event: no move of its outcome is left, or its total is covered. -/
def Shows (row : PaymentRow) : WebhookEvent → Prop
  | .outcome outcome _ => row.status ∉ paymentMovesFrom outcome
  | .refunded none => False
  | .refunded (some refundedAmount) => refundedAmount.minor ≤ row.refundedAmountMinor

structure Later (row row' : PaymentRow) : Prop where
  moved : ∀ outcome, row.status ∉ paymentMovesFrom outcome → row'.status ∉ paymentMovesFrom outcome
  final : row.status = .succeeded ∨ row.status = .canceled → row'.status = row.status
  grows : row.refundedAmountMinor ≤ row'.refundedAmountMinor
  amount : row'.amountMinor = row.amountMinor

theorem Later.refl (row : PaymentRow) : Later row row := ⟨fun _ => id, fun _ => rfl, le_refl _, rfl⟩

theorem Later.trans {row'' : PaymentRow} (first : Later row row') (second : Later row' row'') : Later row row'' where
  moved outcome fixed := second.moved outcome (first.moved outcome fixed)
  final is := by
    have same := first.final is
    rw [second.final (same ▸ is), same]
  grows := first.grows.trans second.grows
  amount := second.amount.trans first.amount

theorem Shows.later (later : Later row row') {event : WebhookEvent} (shows_ : Shows row event) : Shows row' event := by
  match event, shows_ with
  | .outcome outcome _, fixed => exact later.moved outcome fixed
  | .refunded (some _), covered => exact le_trans covered later.grows

section Commands

/-- The table and the commands agree: a command writes its event exactly for the statuses of the table. -/
theorem command_moves (currencies : Currencies) (outcome : PaymentOutcome) (failureReason : Option String) (row : PaymentRow) :
    (row.status ∈ paymentMovesFrom outcome ↔
      ∃ event, commandOf currencies row.id (.outcome outcome failureReason) (some row) = .ok [event]) ∧
    ∀ events, commandOf currencies row.id (.outcome outcome failureReason) (some row) = .ok events →
      (events = [] ∧ row.status ∉ paymentMovesFrom outcome) ∨
        ∃ event, events = [event] ∧ row.status ∈ paymentMovesFrom outcome ∧
          ∀ recordedAt, ∃ row', reduce recordedAt row event = some row' ∧ row'.status = outcome.target ∧
            row'.refundedAmountMinor = row.refundedAmountMinor ∧ row'.amountMinor = row.amountMinor := by
  obtain ⟨id, amountMinor, currency, status, reason, receiptUrl, refunded, refundedAmountMinor, updatedAt, low, low', high⟩ := row
  constructor
  · cases outcome <;> cases status <;>
      simp [commandOf, completePayment, failPayment, markPaymentRequiresAction, requirePayment, isOpen, conflict, paymentMovesFrom, bind, Except.bind]
  · intro events is
    cases outcome <;> cases status <;>
      simp [commandOf, completePayment, failPayment, markPaymentRequiresAction, requirePayment, isOpen, conflict, bind, Except.bind] at is <;>
      subst is <;> simp [paymentMovesFrom, reduce, PaymentOutcome.target]

theorem refund_writes {refundedAmount : Money} {written_ : List PaymentEvent}
    (is : recordPaymentRefund currencies row.id refundedAmount (some row) = .ok written_) :
    row.status = .succeeded ∧ 0 ≤ refundedAmount.minor ∧ refundedAmount.minor ≤ row.amountMinor ∧
      toMinorColumn refundedAmount = some refundedAmount.minor ∧
      ((written_ = [] ∧ refundedAmount.minor ≤ row.refundedAmountMinor) ∨
        (written_ = [.refundRecorded refundedAmount] ∧ row.refundedAmountMinor < refundedAmount.minor)) := by
  rw [recordPaymentRefund] at is
  by_cases negative : refundedAmount.isNegative = true
  · rw [if_pos negative] at is
    cases is
  · rw [if_neg negative] at is
    have positive : 0 ≤ refundedAmount.minor := by simpa [Money.isNegative] using negative
    simp only [requirePayment, bind, Except.bind] at is
    split at is
    · cases is
    rename_i succeeded
    split at is
    · cases is
    split at is
    · cases is
    rename_i minor column
    have same : minor = refundedAmount.minor := by
      rw [toMinorColumn] at column
      split at column
      · exact (Option.some.inj column).symm
      · cases column
    subst same
    split at is
    · cases is
    rename_i fits
    split at is
    · rename_i low
      exact ⟨not_not.mp succeeded, positive, by omega, column, .inl ⟨(Except.ok.inj is).symm, low⟩⟩
    · rename_i high
      exact ⟨not_not.mp succeeded, positive, by omega, column, .inr ⟨(Except.ok.inj is).symm, by omega⟩⟩

structure Wrote (event : WebhookEvent) (row row' : PaymentRow) : Prop where
  later : Later row row'
  shows_ : Shows row' event
  moved : row'.status = row.status ∨ ∃ outcome failureReason, event = .outcome outcome failureReason ∧
    row.status ∈ paymentMovesFrom outcome ∧ row'.status = outcome.target
  total : row'.refundedAmountMinor = row.refundedAmountMinor ∨ event.total = some row'.refundedAmountMinor

theorem target_not_from (outcome : PaymentOutcome) : outcome.target ∉ paymentMovesFrom outcome := by cases outcome <;> decide

theorem moved_target {outcome other : PaymentOutcome} (moves : status ∈ paymentMovesFrom outcome)
    (fixed : status ∉ paymentMovesFrom other) : outcome.target ∉ paymentMovesFrom other := by
  cases outcome <;> cases other <;> cases status <;> simp_all [paymentMovesFrom, PaymentOutcome.target]

theorem not_final {outcome : PaymentOutcome} (moves : status ∈ paymentMovesFrom outcome) :
    ¬ (status = .succeeded ∨ status = .canceled) := by
  cases outcome <;> cases status <;> simp_all [paymentMovesFrom]

theorem written_wrote {recordedAt : Int} {event : WebhookEvent} (is : written currencies recordedAt event row = .ok row') :
    Wrote event row row' := by
  rw [written] at is
  cases ran : commandOf currencies row.id event (some row) with
  | error refusal =>
    rw [ran] at is
    cases is
  | ok written_ =>
    rw [ran] at is
    cases reduced : reduceAll recordedAt row written_ with
    | none =>
      simp only [reduced] at is
      cases is
    | some row'' =>
      simp only [reduced] at is
      obtain rfl : row'' = row' := Except.ok.inj is
      match event, ran with
      | .outcome outcome failureReason, ran =>
        rcases (command_moves currencies outcome failureReason row).2 written_ ran with ⟨rfl, fixed⟩ | ⟨event, rfl, moves, reduces⟩
        · obtain rfl : row = row'' := Option.some.inj reduced
          exact ⟨.refl row, fixed, .inl rfl, .inl rfl⟩
        · obtain ⟨row', is, target, total, amount⟩ := reduces recordedAt
          have single : reduceAll recordedAt row [event] = some row' := by simp [reduceAll, is]
          obtain rfl : row'' = row' := Option.some.inj (reduced.symm.trans single)
          refine ⟨⟨fun other fixed => target ▸ moved_target moves fixed, fun is => absurd is (not_final moves), total.ge, amount⟩, ?_,
            .inr ⟨outcome, failureReason, rfl, moves, target⟩, .inl total⟩
          change row''.status ∉ paymentMovesFrom outcome
          rw [target]
          exact target_not_from outcome
      | .refunded (some refundedAmount), ran =>
        obtain ⟨succeeded, low, high, column, ⟨rfl, covered⟩ | ⟨rfl, more⟩⟩ := refund_writes ran
        · obtain rfl : row = row'' := Option.some.inj reduced
          exact ⟨.refl row, covered, .inl rfl, .inl rfl⟩
        · have fits : 0 ≤ refundedAmount.minor ∧ refundedAmount.minor ≤ row.amountMinor := ⟨low, high⟩
          simp [reduceAll, reduce, column, fits] at reduced
          subst reduced
          exact ⟨⟨fun _ => id, fun _ => rfl, more.le, rfl⟩, le_refl _, .inl rfl, .inr rfl⟩

end Commands

section Runs

theorem step_later {action : Action} (taken : step currencies events world action = some next) : Later world.row next.row := by
  cases action with
  | deliver number =>
    obtain ⟨event, -, rfl⟩ := Option.map_eq_some_iff.mp taken
    exact .refl _
  | write number recordedAt =>
    obtain ⟨handler, -, taken⟩ := Option.bind_eq_some_iff.mp taken
    split at taken
    · obtain ⟨event, -, taken⟩ := Option.map_eq_some_iff.mp taken
      cases wrote : written currencies recordedAt event world.row with
      | error refusal =>
        simp only [wrote] at taken
        subst taken
        exact .refl _
      | ok row' =>
        simp only [wrote] at taken
        subst taken
        exact (written_wrote wrote).later
    · cases taken
  | reconcile number done =>
    obtain ⟨handler, -, taken⟩ := Option.bind_eq_some_iff.mp taken
    split at taken
    · obtain rfl := Option.some.inj taken
      exact .refl _
    · cases taken

/-- What holds in every state of a run from the row `first`. -/
structure Kept (first : PaymentRow) (events : List WebhookEvent) (world : World) : Prop where
  later : Later first world.row
  settles : ∀ final, Settles (has events) world.row.status final ↔ Settles (has events) first.status final
  total : world.row.refundedAmountMinor = first.refundedAmountMinor ∨ ∃ event ∈ events, event.total = some world.row.refundedAmountMinor
  handled : ∀ handler ∈ world.handlers, ∀ event, events[handler.event]? = some event → handler.phase ≠ .writing →
    handler.phase ≠ .answered false → Shows world.row event

theorem Kept.start (first : PaymentRow) (events : List WebhookEvent) : Kept first events (start first) where
  later := .refl first
  settles _ := .rfl
  total := .inl rfl
  handled _ held := by cases held

theorem mem_setHandler {number : Nat} {handler other : Handler} (held : other ∈ (world.setHandler number handler).handlers) :
    other = handler ∨ other ∈ world.handlers := (List.mem_or_eq_of_mem_set held).symm

theorem Kept.step (kept : Kept first events world) {action : Action}
    (taken : step currencies events world action = some next) : Kept first events next := by
  cases action with
  | deliver number =>
    rw [PaymentJournal.step] at taken
    obtain ⟨event, found, rfl⟩ := Option.map_eq_some_iff.mp taken
    refine ⟨kept.later, kept.settles, kept.total, fun handler held other is wrote failed => ?_⟩
    rcases List.mem_append.mp held with held | held
    · exact kept.handled handler held other is wrote failed
    · obtain rfl := List.mem_singleton.mp held
      obtain rfl : event = other := Option.some.inj (found.symm.trans is)
      -- The handler read the row and left the event at that.
      match event with
      | .outcome outcome _ =>
        simp only [callsCommand, decide_eq_true_eq] at wrote
        split at wrote
        · exact absurd rfl wrote
        · assumption
      | .refunded _ => exact absurd rfl wrote
  | write number recordedAt =>
    rw [PaymentJournal.step] at taken
    obtain ⟨handler, at_, taken⟩ := Option.bind_eq_some_iff.mp taken
    split at taken
    · obtain ⟨event, found, taken⟩ := Option.map_eq_some_iff.mp taken
      cases wrote : written currencies recordedAt event world.row with
      | error refusal =>
        simp only [wrote] at taken
        subst taken
        refine ⟨kept.later, kept.settles, kept.total, fun other held event' is wrote failed => ?_⟩
        rcases mem_setHandler held with rfl | held
        · exact absurd rfl failed
        · exact kept.handled other held event' is wrote failed
      | ok row' =>
        simp only [wrote] at taken
        subst taken
        have effect := written_wrote wrote
        refine ⟨kept.later.trans effect.later, fun final => ?_, ?_, fun other held event' is wrote failed => ?_⟩
        · rcases effect.moved with same | ⟨outcome, failureReason, rfl, moves, target⟩
          · rw [← kept.settles final]
            simp only [same]
          · have delivered : has events outcome := ⟨failureReason, List.mem_of_getElem? found⟩
            rw [← kept.settles final]
            simp only [target]
            exact settles_move moves delivered
        · rcases effect.total with same | total
          · rcases kept.total with first_ | ⟨other, held, is⟩
            · exact .inl (same.trans first_)
            · exact .inr ⟨other, held, is.trans (congrArg some same.symm)⟩
          · exact .inr ⟨event, List.mem_of_getElem? found, total⟩
        · rcases mem_setHandler held with rfl | held
          · obtain rfl : event = event' := Option.some.inj (found.symm.trans is)
            exact effect.shows_
          · exact (kept.handled other held event' is wrote failed).later effect.later
    · cases taken
  | reconcile number done =>
    rw [PaymentJournal.step] at taken
    obtain ⟨handler, at_, taken⟩ := Option.bind_eq_some_iff.mp taken
    split at taken
    · rename_i reconciling
      obtain rfl := Option.some.inj taken
      refine ⟨kept.later, kept.settles, kept.total, fun other held event is wrote failed => ?_⟩
      rcases mem_setHandler held with rfl | held
      · exact kept.handled handler (List.mem_of_getElem? at_) event is (by rw [reconciling]; nofun) (by rw [reconciling]; nofun)
      · exact kept.handled other held event is wrote failed
    · cases taken

theorem Kept.reach (reached : Reach (PaymentJournal.step currencies events) always (PaymentJournal.start first) world) :
    Kept first events world :=
  reached.invariant _ (.start first events) fun _ _ _ kept _ taken => kept.step taken

theorem Kept.shows_all (kept : Kept first events world) (all : world.AllAcknowledged events) :
    ∀ event ∈ events, Shows world.row event := by
  intro event held
  obtain ⟨number, is⟩ := List.mem_iff_getElem?.mp held
  obtain ⟨handler, at_, rfl, acknowledged⟩ := all number event is
  exact kept.handled handler at_ event is (by rw [acknowledged]; nofun) (by rw [acknowledged]; nofun)

theorem has_perm {events' : List WebhookEvent} (same : events'.Perm events) : has events' = has events := by
  funext outcome
  simp only [has, same.mem_iff]

def totals (events : List WebhookEvent) : Set Int := {total | ∃ event ∈ events, event.total = some total}

/-- The recorded total is the greatest of the first one and those of the events. -/
theorem Kept.greatest (kept : Kept first events world) (all : world.AllAcknowledged events) :
    IsGreatest (insert first.refundedAmountMinor (totals events)) world.row.refundedAmountMinor := by
  constructor
  · rcases kept.total with same | ⟨event, held, is⟩
    · exact .inl same
    · exact .inr ⟨event, held, is⟩
  · rintro total (rfl | ⟨event, held, is⟩)
    · exact kept.later.grows
    · have shown := kept.shows_all all event held
      match event, is with
      | .refunded (some refundedAmount), is =>
        obtain rfl := Option.some.inj is
        exact shown

theorem Kept.settled (kept : Kept first events world) (all : world.AllAcknowledged events) :
    Settles (has events) first.status world.row.status := by
  refine (kept.settles _).mp (settles_fixed ?_)
  rintro outcome ⟨failureReason, held⟩
  exact kept.shows_all all _ held

end Runs

/-- Whatever the order of the deliveries: a payment that succeeded or was cancelled stays so, the refunded total never falls or exceeds the
amount, and once every event is acknowledged status and total are those that the row and the events determine. -/
theorem webhooks_settle (currencies : Currencies) (first : PaymentRow) (events : List WebhookEvent) {world : World}
    (reached : Reach (step currencies events) always (start first) world) :
    (∀ world', Reach (step currencies events) always world world' →
      (world.row.status = .succeeded ∨ world.row.status = .canceled → world'.row.status = world.row.status) ∧
        world.row.refundedAmountMinor ≤ world'.row.refundedAmountMinor ∧ world'.row.refundedAmountMinor ≤ first.amountMinor) ∧
    (world.AllAcknowledged events →
      (has events .succeeded → first.status ≠ .canceled → world.row.status = .succeeded) ∧
        IsGreatest (insert first.refundedAmountMinor (totals events)) world.row.refundedAmountMinor ∧
        ∀ events' world', events'.Perm events → Reach (step currencies events') always (start first) world' → world'.AllAcknowledged events' →
          world'.row.status = world.row.status ∧ world'.row.refundedAmountMinor = world.row.refundedAmountMinor) ∧
    ∀ outcome failureReason row, row.status ∈ paymentMovesFrom outcome ↔
      ∃ event, commandOf currencies row.id (.outcome outcome failureReason) (some row) = .ok [event] := by
  have kept := Kept.reach reached
  refine ⟨fun world' further => ?_, fun all => ⟨fun delivered open_ => ?_, kept.greatest all, ?_⟩,
    fun outcome failureReason row => (command_moves currencies outcome failureReason row).1⟩
  · have later : Later world.row world'.row := by
      refine further.invariant (fun world' => Later world.row world'.row) (.refl _) ?_
      intro middle action next held _ taken
      exact held.trans (step_later taken)
    have kept' := Kept.reach (reached.trans further)
    exact ⟨later.final, later.grows, kept'.later.amount ▸ world'.row.refunded_lte_amount⟩
  · have settled := kept.settled all
    cases is : first.status with
    | canceled => exact absurd is open_
    | succeeded => rw [is] at settled; exact settled
    | _ => rw [is] at settled; exact settled.1 delivered
  · intro events' world' same reached' all'
    have kept' := Kept.reach reached'
    constructor
    · have settled' := kept'.settled all'
      rw [has_perm same] at settled'
      exact settles_unique settled' (kept.settled all)
    · have equal : totals events' = totals events := by
        ext total
        simp only [totals, same.mem_iff]
      have greatest' := kept'.greatest all'
      rw [equal] at greatest'
      exact greatest'.unique (kept.greatest all)

def pendingPayment : PaymentRow := ⟨"pay_1", 1000, "USD", .pending, none, none, false, 0, 0, by decide, by decide, by decide⟩

/-- A refund reported before the success, and again after it. -/
theorem webhooks_settle_late :
    ∃ row : PaymentRow, row.status = .succeeded ∧ IsGreatest (insert 0 (totals [.outcome .succeeded none, .refunded (some ⟨300, "USD"⟩)])) row.refundedAmountMinor := by
  have ran : ∃ world, run (step ⟨id, fun _ => some 2⟩ [.outcome .succeeded none, .refunded (some ⟨300, "USD"⟩)]) (start pendingPayment)
      [.deliver 1, .write 0 1, .deliver 0, .write 1 2, .deliver 1, .write 2 3, .reconcile 2 true] = some world ∧
        world.handlers = [⟨1, .answered false⟩, ⟨0, .answered true⟩, ⟨1, .answered true⟩] := ⟨_, rfl, rfl⟩
  obtain ⟨world, ran, handlers⟩ := ran
  have settled := (webhooks_settle _ _ _ (.of_run ran)).2.1 (by
    rintro number event found
    match number, found with
    | 0, _ => exact ⟨⟨0, .answered true⟩, by simp [handlers], rfl, rfl⟩
    | 1, _ => exact ⟨⟨1, .answered true⟩, by simp [handlers], rfl, rfl⟩)
  exact ⟨world.row, settled.1 ⟨none, by simp⟩ (by decide), settled.2.1⟩

/-- A payment with 5.00 refunded before: a late report of 3.00 is acknowledged, and the total stays. -/
theorem reported_low :
    ¬ ∀ (currencies : Currencies) (first : PaymentRow) (events : List WebhookEvent) (world : World),
      Reach (step currencies events) always (start first) world → world.AllAcknowledged events →
        ∀ largest, IsGreatest (totals events) largest → world.row.refundedAmountMinor = largest := by
  intro every
  let first : PaymentRow := ⟨"pay_1", 1000, "USD", .succeeded, none, none, true, 500, 0, by decide, by decide, by decide⟩
  have ran : ∃ world, run (step ⟨id, fun _ => some 2⟩ [.refunded (some ⟨300, "USD"⟩)]) (start first)
      [.deliver 0, .write 0 1, .reconcile 0 true] = some world ∧ world.handlers = [⟨0, .answered true⟩] ∧ world.row.refundedAmountMinor = 500 :=
    ⟨_, rfl, rfl, rfl⟩
  obtain ⟨world, ran, handlers, total⟩ := ran
  have greatest : IsGreatest (totals [.refunded (some ⟨300, "USD"⟩)]) 300 := by
    refine ⟨⟨_, List.mem_singleton_self _, rfl⟩, ?_⟩
    rintro total ⟨event, held, is⟩
    obtain rfl := List.mem_singleton.mp held
    exact (Option.some.inj is).ge
  have same := every _ first _ world (.of_run ran) (by
    rintro number event found
    match number, found with
    | 0, _ => exact ⟨⟨0, .answered true⟩, by simp [handlers], rfl, rfl⟩) 300 greatest
  rw [total] at same
  exact absurd same (by decide)

end Arki.Payments.PaymentJournal
