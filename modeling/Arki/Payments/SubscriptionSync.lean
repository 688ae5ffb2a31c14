import Arki.Payments.SameJson
import Mathlib

/-! Bringing a subscription's row in line with what its provider delivers. Events carry times as ISO text, reducers build the
instants back, and a delivery that changes nothing writes no event. -/

set_option autoImplicit false

namespace Arki.Payments.SubscriptionJournal

open Arki.Journal (Value)

inductive SubscriptionStatus where
  | active
  | canceled
  | incomplete
  | incompleteExpired
  | pastDue
  | paused
  | trialing
  | unpaid
  deriving DecidableEq

def SubscriptionStatus.text : SubscriptionStatus → String
  | .active => "active"
  | .canceled => "canceled"
  | .incomplete => "incomplete"
  | .incompleteExpired => "incomplete_expired"
  | .pastDue => "past_due"
  | .paused => "paused"
  | .trialing => "trialing"
  | .unpaid => "unpaid"

abbrev Json := { value : Value // Value.Keyed value }

def Json.null : Json := ⟨.null, trivial⟩

structure IsoTexts (Instant : Type) where
  toIso : Instant → String
  toInstant : String → Option Instant
  reads : ∀ time, toInstant (toIso time) = some time

variable {Instant : Type}

structure Columns (Instant : Type) where
  userId : String
  planId : String
  customerId : String
  status : SubscriptionStatus
  currentPeriodStart : Instant
  currentPeriodEnd : Instant
  trialStart : Option Instant
  trialEnd : Option Instant
  canceledAt : Option Instant
  cancelAtPeriodEnd : Bool
  metadata : Json

structure SubscriptionRow (Instant : Type) extends Columns Instant where
  id : String
  providerSubscriptionId : String
  createdAt : Instant
  updatedAt : Instant

structure Snapshot where
  userId : String
  planId : String
  customerId : String
  status : SubscriptionStatus
  currentPeriodStart : String
  currentPeriodEnd : String
  trialStart : Option String
  trialEnd : Option String
  canceledAt : Option String
  cancelAtPeriodEnd : Bool
  metadata : Json

/-- A delivery. A field that is `none` was left undefined. -/
structure SyncInput (Instant : Type) where
  userId : String
  planId : String
  customerId : String
  providerSubscriptionId : String
  status : SubscriptionStatus
  currentPeriodStart : Instant
  currentPeriodEnd : Instant
  trialStart : Option (Option Instant)
  trialEnd : Option (Option Instant)
  canceledAt : Option (Option Instant)
  cancelAtPeriodEnd : Option Bool
  metadata : Option Json

inductive SubscriptionEvent where
  | created (providerSubscriptionId : String) (data : Snapshot)
  | synced (data : Snapshot)

namespace Snapshot

def nullable : Option String → Value
  | none => .null
  | some text => .string text

def toValue (snapshot : Snapshot) : Value :=
  .object [("userId", .string snapshot.userId), ("planId", .string snapshot.planId), ("customerId", .string snapshot.customerId),
    ("status", .string snapshot.status.text), ("currentPeriodStart", .string snapshot.currentPeriodStart),
    ("currentPeriodEnd", .string snapshot.currentPeriodEnd), ("trialStart", nullable snapshot.trialStart),
    ("trialEnd", nullable snapshot.trialEnd), ("canceledAt", nullable snapshot.canceledAt),
    ("cancelAtPeriodEnd", .boolean snapshot.cancelAtPeriodEnd), ("metadata", snapshot.metadata.1)]

end Snapshot

section Texts

variable (texts : IsoTexts Instant)

def resolveTime (given : Option (Option Instant)) (kept : Option Instant) : Option String := (given.getD kept).map texts.toIso

def snapshotOfRow (row : Columns Instant) : Snapshot where
  userId := row.userId
  planId := row.planId
  customerId := row.customerId
  status := row.status
  currentPeriodStart := texts.toIso row.currentPeriodStart
  currentPeriodEnd := texts.toIso row.currentPeriodEnd
  trialStart := resolveTime texts none row.trialStart
  trialEnd := resolveTime texts none row.trialEnd
  canceledAt := resolveTime texts none row.canceledAt
  cancelAtPeriodEnd := row.cancelAtPeriodEnd
  metadata := row.metadata

/-- A row that is already canceled keeps its time: a provider may stamp "now" on every delivery of one cancellation. -/
def alreadyCanceled (input : SyncInput Instant) (row : Option (Columns Instant)) : Bool :=
  match row with
  | none => false
  | some row => row.status = .canceled && row.canceledAt.isSome && input.status = .canceled

def canceledAtOf (input : SyncInput Instant) (row : Option (Columns Instant)) : Option (Option Instant) :=
  match input.canceledAt with
  | some (some time) => if alreadyCanceled input row then some (row.bind (·.canceledAt)) else some (some time)
  | given => given

def snapshotOfDelivery (input : SyncInput Instant) (row : Option (Columns Instant)) : Snapshot where
  userId := input.userId
  planId := input.planId
  customerId := input.customerId
  status := input.status
  currentPeriodStart := texts.toIso input.currentPeriodStart
  currentPeriodEnd := texts.toIso input.currentPeriodEnd
  trialStart := resolveTime texts input.trialStart (row.bind (·.trialStart))
  trialEnd := resolveTime texts input.trialEnd (row.bind (·.trialEnd))
  canceledAt := resolveTime texts (canceledAtOf input row) (row.bind (·.canceledAt))
  cancelAtPeriodEnd := input.cancelAtPeriodEnd.getD ((row.map (·.cancelAtPeriodEnd)).getD false)
  metadata := input.metadata.getD ((row.map (·.metadata)).getD Json.null)

def syncEvents (input : SyncInput Instant) (row : Option (Columns Instant)) : List SubscriptionEvent :=
  let next := snapshotOfDelivery texts input row
  match row with
  | none => [.created input.providerSubscriptionId next]
  | some row => if sameJson (snapshotOfRow texts row).toValue next.toValue then [] else [.synced next]

/-- `toNullableInstant`; a text that is no instant throws. -/
def toNullableInstant : Option String → Option (Option Instant)
  | none => some none
  | some iso => (texts.toInstant iso).map some

def columnsOf (data : Snapshot) : Option (Columns Instant) := do
  let currentPeriodStart ← texts.toInstant data.currentPeriodStart
  let currentPeriodEnd ← texts.toInstant data.currentPeriodEnd
  let trialStart ← toNullableInstant texts data.trialStart
  let trialEnd ← toNullableInstant texts data.trialEnd
  let canceledAt ← toNullableInstant texts data.canceledAt
  return ⟨data.userId, data.planId, data.customerId, data.status, currentPeriodStart, currentPeriodEnd, trialStart, trialEnd,
    canceledAt, data.cancelAtPeriodEnd, data.metadata⟩

/-- The reducers: the row an event folds to. An event without the row it needs folds to nothing. -/
def reduce (id : String) (recordedAt : Instant) (row : Option (SubscriptionRow Instant)) : SubscriptionEvent → Option (SubscriptionRow Instant)
  | .created providerSubscriptionId data =>
    match row with
    | some _ => none
    | none => (columnsOf texts data).map fun columns => ⟨columns, id, providerSubscriptionId, recordedAt, recordedAt⟩
  | .synced data =>
    row.bind fun row => (columnsOf texts data).map fun columns =>
      ⟨columns, row.id, row.providerSubscriptionId, row.createdAt, recordedAt⟩

end Texts

/-- What the columns of the database give back for what was written to them, and what the event's schema takes. -/
structure Database (Instant : Type) where
  text : String → String
  instant : Instant → Instant
  jsonb : Json → Json
  accepts : SubscriptionEvent → Bool

inductive SyncRefusal where
  | schema
  | thrown
  | idGeneration
  deriving DecidableEq

def SubscriptionEvent.data : SubscriptionEvent → Snapshot
  | created _ data | synced data => data

def roundTrips (event : SubscriptionEvent) : Bool :=
  match Value.throughJson event.data.metadata.1 with
  | none => false
  | some stored => Value.sameJson stored event.data.metadata.1

namespace Database

variable (database : Database Instant)

def columns (columns : Columns Instant) : Columns Instant where
  userId := database.text columns.userId
  planId := database.text columns.planId
  customerId := database.text columns.customerId
  status := columns.status
  currentPeriodStart := database.instant columns.currentPeriodStart
  currentPeriodEnd := database.instant columns.currentPeriodEnd
  trialStart := columns.trialStart.map database.instant
  trialEnd := columns.trialEnd.map database.instant
  canceledAt := columns.canceledAt.map database.instant
  cancelAtPeriodEnd := columns.cancelAtPeriodEnd
  metadata := database.jsonb columns.metadata

def stored (row : Option (SubscriptionRow Instant)) (next : SubscriptionRow Instant) : SubscriptionRow Instant :=
  match row with
  | none => ⟨database.columns next.toColumns, database.text next.id, database.text next.providerSubscriptionId,
      database.instant next.createdAt, database.instant next.updatedAt⟩
  | some _ => { next with toColumns := database.columns next.toColumns, updatedAt := database.instant next.updatedAt }

end Database

/-- `assertStoredId` and `assertStoredValues`: the row that comes back holds what the reducers produced. -/
def holds [DecidableEq Instant] (want have_ : SubscriptionRow Instant) : Bool :=
  want.id = have_.id && want.providerSubscriptionId = have_.providerSubscriptionId && want.userId = have_.userId &&
    want.planId = have_.planId && want.customerId = have_.customerId && want.status = have_.status &&
    want.currentPeriodStart = have_.currentPeriodStart && want.currentPeriodEnd = have_.currentPeriodEnd &&
    want.trialStart = have_.trialStart && want.trialEnd = have_.trialEnd && want.canceledAt = have_.canceledAt &&
    want.cancelAtPeriodEnd = have_.cancelAtPeriodEnd && Value.sameValue want.metadata.1 have_.metadata.1 &&
    want.createdAt = have_.createdAt && want.updatedAt = have_.updatedAt

def save [DecidableEq Instant] (texts : IsoTexts Instant) (database : Database Instant) (id : String) (recordedAt : Instant)
    (row : Option (SubscriptionRow Instant)) (event : SubscriptionEvent) : Except SyncRefusal (SubscriptionRow Instant) :=
  if !database.accepts event then .error .schema
  else if !roundTrips event then .error .thrown
  else
    match reduce texts id recordedAt row event with
    | none => .error .thrown
    | some next => if holds next (database.stored row next) then .ok (database.stored row next) else .error .thrown

structure Subscriptions (Instant : Type) where
  rows : List (SubscriptionRow Instant)
  ids : (rows.map (·.id)).Nodup
  providers : (rows.map (·.providerSubscriptionId)).Nodup

namespace Subscriptions

def withId (table : Subscriptions Instant) (id : String) : Option (SubscriptionRow Instant) := table.rows.find? (·.id = id)

def withProvider (table : Subscriptions Instant) (providerSubscriptionId : String) : Option (SubscriptionRow Instant) :=
  table.rows.find? (·.providerSubscriptionId = providerSubscriptionId)

def put (table : Subscriptions Instant) (saved : SubscriptionRow Instant) : Except SyncRefusal (Subscriptions Instant) :=
  let rows := saved :: table.rows.filter (·.id ≠ saved.id)
  if legal : (rows.map (·.id)).Nodup ∧ (rows.map (·.providerSubscriptionId)).Nodup then .ok ⟨rows, legal.1, legal.2⟩
  else .error .thrown

end Subscriptions

def subscriptionIdOf (newId : Except SyncRefusal String) (existing : Option (SubscriptionRow Instant)) : Except SyncRefusal String :=
  match existing with
  | some existing => .ok existing.id
  | none => newId

def syncSubscription [DecidableEq Instant] (texts : IsoTexts Instant) (database : Database Instant) (newId : Except SyncRefusal String) (recordedAt : Instant)
    (input : SyncInput Instant) (table : Subscriptions Instant) : Except SyncRefusal (Subscriptions Instant × List SubscriptionEvent) := do
  let subscriptionId ← subscriptionIdOf newId (table.withProvider input.providerSubscriptionId)
  let row := table.withId subscriptionId
  match syncEvents texts input (row.map (·.toColumns)) with
  | [] => return (table, [])
  | event :: _ =>
    let saved ← save texts database subscriptionId recordedAt row event
    return (← table.put saved, [event])

variable {texts : IsoTexts Instant} {database : Database Instant} {input : SyncInput Instant} {a b : Snapshot}

structure Snapshot.Same (a b : Snapshot) : Prop where
  userId : a.userId = b.userId
  planId : a.planId = b.planId
  customerId : a.customerId = b.customerId
  status : a.status = b.status
  currentPeriodStart : a.currentPeriodStart = b.currentPeriodStart
  currentPeriodEnd : a.currentPeriodEnd = b.currentPeriodEnd
  trialStart : a.trialStart = b.trialStart
  trialEnd : a.trialEnd = b.trialEnd
  canceledAt : a.canceledAt = b.canceledAt
  cancelAtPeriodEnd : a.cancelAtPeriodEnd = b.cancelAtPeriodEnd
  metadata : sameJson a.metadata.1 b.metadata.1 = true

theorem SubscriptionStatus.text_inj {status other : SubscriptionStatus} (same : status.text = other.text) : status = other := by
  revert same
  cases status <;> cases other <;> decide

theorem sameJson_nullable {left right : Option String} :
    sameJson (Snapshot.nullable left) (Snapshot.nullable right) = true ↔ left = right := by
  cases left <;> cases right <;> simp [Snapshot.nullable, sameJson, Value.equal]

theorem nullable_inj {left right : Option String} (same : Snapshot.nullable left = Snapshot.nullable right) : left = right :=
  sameJson_nullable.mp (same ▸ sameJson_refl _)

theorem same_iff : sameJson a.toValue b.toValue = true ↔ a.Same b := by
  unfold Snapshot.toValue
  simp only [sameJson, recordOf, Option.any_some, sameFields, Value.field, List.lookup, onlyUndefined]
  simp only [Value.equal, Bool.or_eq_true, Bool.and_eq_true]
  constructor
  · rintro (same | same)
    · have equal := (Value.equalEntries_iff _ _).mp same
      simp only [List.cons.injEq, Prod.mk.injEq, Value.string.injEq, Value.boolean.injEq, true_and, and_true] at equal
      obtain ⟨userId, planId, customerId, status, start, end_, trialStart, trialEnd, canceledAt, atEnd, metadata⟩ := equal
      exact ⟨userId, planId, customerId, SubscriptionStatus.text_inj status, start, end_, nullable_inj trialStart, nullable_inj trialEnd,
        nullable_inj canceledAt, atEnd, by rw [metadata]; exact sameJson_refl _⟩
    · simp at same
      obtain ⟨userId, planId, customerId, status, start, end_, trialStart, trialEnd, canceledAt, atEnd, metadata⟩ := same
      exact ⟨userId, planId, customerId, SubscriptionStatus.text_inj status, start, end_, sameJson_nullable.mp trialStart,
        sameJson_nullable.mp trialEnd, sameJson_nullable.mp canceledAt, atEnd, metadata⟩
  · intro same
    right
    simp [same.userId, same.planId, same.customerId, same.status, same.currentPeriodStart, same.currentPeriodEnd,
      sameJson_nullable.mpr same.trialStart, sameJson_nullable.mpr same.trialEnd, sameJson_nullable.mpr same.canceledAt,
      same.cancelAtPeriodEnd, same.metadata]

theorem syncEvents_some (texts : IsoTexts Instant) (input : SyncInput Instant) (row : Columns Instant) : syncEvents texts input (some row) = [] ↔
    (snapshotOfRow texts row).Same (snapshotOfDelivery texts input (some row)) := by
  rw [← same_iff]
  simp only [syncEvents]
  split
  · next same => exact iff_of_true rfl same
  · next apart => exact iff_of_false (by simp) apart

theorem toIso_inj {time other : Instant} (same : texts.toIso time = texts.toIso other) : time = other :=
  Option.some.inj ((texts.reads time).symm.trans (same ▸ texts.reads other))

theorem times_inj {time other : Option Instant} (same : time.map texts.toIso = other.map texts.toIso) : time = other :=
  Option.map_injective (fun _ _ => toIso_inj) same

theorem alreadyCanceled_true {row : Option (Columns Instant)} (already : alreadyCanceled input row = true) :
    ∃ first, input.status = .canceled ∧ row.bind (·.canceledAt) = some first := by
  cases row with
  | none => cases already
  | some row =>
    simp only [alreadyCanceled, Bool.and_eq_true, decide_eq_true_eq] at already
    obtain ⟨first, recorded⟩ := Option.isSome_iff_exists.mp already.1.2
    exact ⟨first, already.2, recorded⟩

def Restamps (row : Columns Instant) (given : SyncInput Instant) : Prop :=
  row.status = .canceled ∧ row.canceledAt.isSome ∧ ∃ time, given.canceledAt = some (some time)

/-- A row that holds what a delivery led to holds what the same delivery leads to again, and what another time for a cancellation
it has leads to. -/
theorem repeats (row : Option (Columns Instant)) {row' : Columns Instant}
    (holds_ : (snapshotOfRow texts row').Same (snapshotOfDelivery texts input row)) {given : Option (Option Instant)}
    (again : given = input.canceledAt ∨ Restamps row' { input with canceledAt := given }) :
    (snapshotOfRow texts row').Same (snapshotOfDelivery texts { input with canceledAt := given } (some row')) where
  userId := holds_.userId
  planId := holds_.planId
  customerId := holds_.customerId
  status := holds_.status
  currentPeriodStart := holds_.currentPeriodStart
  currentPeriodEnd := holds_.currentPeriodEnd
  trialStart := by
    have is := holds_.trialStart
    simp only [snapshotOfRow, snapshotOfDelivery, resolveTime, Option.bind_some] at is ⊢
    cases same : input.trialStart with
    | none => rfl
    | some time => rwa [same] at is
  trialEnd := by
    have is := holds_.trialEnd
    simp only [snapshotOfRow, snapshotOfDelivery, resolveTime, Option.bind_some] at is ⊢
    cases same : input.trialEnd with
    | none => rfl
    | some time => rwa [same] at is
  canceledAt := by
    have is := times_inj holds_.canceledAt
    have status : row'.status = input.status := holds_.status
    change (none.getD row'.canceledAt) = _ at is
    rw [Option.getD_none] at is
    simp only [snapshotOfRow, snapshotOfDelivery, resolveTime, Option.bind_some, Option.getD_none]
    congr 1
    -- a time that is stamped on a recorded cancellation gives way to the first one
    have stamped (restamps : Restamps row' { input with canceledAt := given }) :
        canceledAtOf { input with canceledAt := given } (some row') = some row'.canceledAt := by
      obtain ⟨canceled, recorded, time, isTime⟩ := restamps
      have isGiven : given = some (some time) := isTime
      rw [isGiven]
      simp [canceledAtOf, alreadyCanceled, canceled, recorded, ← status]
    rcases again with rfl | restamps
    · cases said : input.canceledAt with
      | none => simp [canceledAtOf]
      | some said' =>
        cases said' with
        | none =>
          rw [is]
          simp [canceledAtOf, said]
        | some time =>
          by_cases restamps : Restamps row' { input with canceledAt := some (some time) }
          · rw [said] at stamped
            rw [stamped restamps, Option.getD_some]
          · have first : alreadyCanceled input row = false := by
              rw [← Bool.not_eq_true]
              intro already
              obtain ⟨kept, canceled, recorded⟩ := alreadyCanceled_true already
              refine restamps ⟨status.trans canceled, ?_, time, rfl⟩
              rw [is, canceledAtOf, said]
              simp only [if_pos already, Option.getD_some, recorded, Option.isSome_some]
            have second : alreadyCanceled { input with canceledAt := some (some time) } (some row') = false := by
              rw [← Bool.not_eq_true]
              intro already
              simp only [alreadyCanceled, Bool.and_eq_true, decide_eq_true_eq] at already
              exact restamps ⟨already.1.1, already.1.2, time, rfl⟩
            rw [is]
            simp [canceledAtOf, said, first, second]
    · rw [stamped restamps, Option.getD_some]
  cancelAtPeriodEnd := by
    have is := holds_.cancelAtPeriodEnd
    simp only [snapshotOfRow, snapshotOfDelivery, Option.map_some, Option.getD_some] at is ⊢
    cases same : input.cancelAtPeriodEnd with
    | none => rfl
    | some flag => rwa [same] at is
  metadata := by
    have is := holds_.metadata
    simp only [snapshotOfRow, snapshotOfDelivery, Option.map_some, Option.getD_some] at is ⊢
    cases same : input.metadata with
    | none => exact sameJson_refl _
    | some metadata => rwa [same] at is

def columnsOfDelivery (input : SyncInput Instant) (row : Option (Columns Instant)) : Columns Instant where
  userId := input.userId
  planId := input.planId
  customerId := input.customerId
  status := input.status
  currentPeriodStart := input.currentPeriodStart
  currentPeriodEnd := input.currentPeriodEnd
  trialStart := input.trialStart.getD (row.bind (·.trialStart))
  trialEnd := input.trialEnd.getD (row.bind (·.trialEnd))
  canceledAt := (canceledAtOf input row).getD (row.bind (·.canceledAt))
  cancelAtPeriodEnd := input.cancelAtPeriodEnd.getD ((row.map (·.cancelAtPeriodEnd)).getD false)
  metadata := input.metadata.getD ((row.map (·.metadata)).getD Json.null)

theorem toNullableInstant_toIso (time : Option Instant) : toNullableInstant texts (time.map texts.toIso) = some time := by
  cases time with
  | none => rfl
  | some time => simp [toNullableInstant, texts.reads]

theorem columnsOf_delivery (input : SyncInput Instant) (row : Option (Columns Instant)) :
    columnsOf texts (snapshotOfDelivery texts input row) = some (columnsOfDelivery input row) := by
  simp only [columnsOf, snapshotOfDelivery, resolveTime, texts.reads, toNullableInstant_toIso, Option.bind_eq_bind, Option.bind_some,
    Option.pure_def]
  rfl

variable [DecidableEq Instant] {row : Option (SubscriptionRow Instant)} {saved : SubscriptionRow Instant} {event : SubscriptionEvent}
  {id : String} {recordedAt : Instant}

theorem holds_same (texts : IsoTexts Instant) {want have_ : SubscriptionRow Instant} (is : holds want have_ = true) :
    (snapshotOfRow texts have_.toColumns).Same (snapshotOfRow texts want.toColumns) ∧ have_.id = want.id ∧
      have_.providerSubscriptionId = want.providerSubscriptionId := by
  simp only [holds, Bool.and_eq_true, decide_eq_true_eq] at is
  obtain ⟨⟨⟨⟨⟨⟨⟨⟨⟨⟨⟨⟨⟨⟨id, provider⟩, user⟩, plan⟩, customer⟩, status⟩, start⟩, end_⟩, trialStart⟩, trialEnd⟩, canceled⟩, atEnd⟩,
    metadata⟩, _⟩, _⟩ := is
  refine ⟨⟨user.symm, plan.symm, customer.symm, status.symm, ?_, ?_, ?_, ?_, ?_, atEnd.symm, ?_⟩, id.symm, provider.symm⟩
  · exact congrArg texts.toIso start.symm
  · exact congrArg texts.toIso end_.symm
  · exact congrArg (resolveTime texts none) trialStart.symm
  · exact congrArg (resolveTime texts none) trialEnd.symm
  · exact congrArg (resolveTime texts none) canceled.symm
  · exact sameJson_of_same metadata want.metadata.2 have_.metadata.2

/-- A saved event: the row it folds to holds exactly the snapshot that was compared, and the row that is stored holds the same. -/
theorem save_ok (written : event ∈ syncEvents texts input (row.map (·.toColumns)))
    (isSaved : save texts database id recordedAt row event = .ok saved) :
    ∃ folded, reduce texts id recordedAt row event = some folded ∧
      snapshotOfRow texts folded.toColumns = snapshotOfDelivery texts input (row.map (·.toColumns)) ∧
      (snapshotOfRow texts saved.toColumns).Same (snapshotOfDelivery texts input (row.map (·.toColumns))) ∧
      saved.id = folded.id ∧ saved.providerSubscriptionId = folded.providerSubscriptionId := by
  unfold save at isSaved
  split at isSaved
  · cases isSaved
  split at isSaved
  · cases isSaved
  split at isSaved
  · cases isSaved
  next folded isFolded =>
  split at isSaved
  · next isHeld =>
    obtain rfl := Except.ok.inj isSaved
    obtain ⟨same, sameId, sameProvider⟩ := holds_same texts isHeld
    have exactly : snapshotOfRow texts folded.toColumns = snapshotOfDelivery texts input (row.map (·.toColumns)) := by
      cases row with
      | none =>
        obtain rfl := List.mem_singleton.mp written
        simp only [reduce, Option.map_none, columnsOf_delivery, Option.map_some, Option.some.injEq] at isFolded
        rw [← isFolded]
        rfl
      | some row =>
        simp only [syncEvents, Option.map_some] at written
        split at written
        · cases written
        · obtain rfl := List.mem_singleton.mp written
          simp only [reduce, columnsOf_delivery, Option.bind_some, Option.map_some, Option.some.injEq] at isFolded
          rw [← isFolded]
          rfl
    exact ⟨folded, isFolded, exactly, exactly ▸ same, sameId, sameProvider⟩
  · cases isSaved

theorem find_of_mem {α β : Type} [DecidableEq β] {key : α → β} {items : List α} {item : α} (distinct : (items.map key).Nodup)
    (member : item ∈ items) : items.find? (key · = key item) = some item := by
  obtain ⟨ahead, rest, rfl⟩ := List.append_of_mem member
  have apart : ∀ other ∈ ahead, ¬ key other = key item := by
    intro other listed same
    rw [List.map_append, List.map_cons, List.nodup_append] at distinct
    exact distinct.2.2 _ (List.mem_map_of_mem listed) _ List.mem_cons_self same
  rw [List.find?_append, List.find?_eq_none.mpr (by simpa using apart), Option.none_or]
  simp

variable {table table' : Subscriptions Instant} {newId : Except SyncRefusal String} {events : List SubscriptionEvent}

namespace Subscriptions

omit [DecidableEq Instant] in
theorem withProvider_withId {row : SubscriptionRow Instant} {providerSubscriptionId : String}
    (found : table.withProvider providerSubscriptionId = some row) :
    table.withId row.id = some row ∧ row.providerSubscriptionId = providerSubscriptionId :=
  ⟨find_of_mem table.ids (List.mem_of_find?_eq_some found), by simpa using List.find?_some found⟩

omit [DecidableEq Instant] in
theorem put_ok (isPut : table.put saved = .ok table') : table'.withProvider saved.providerSubscriptionId = some saved := by
  unfold put at isPut
  simp only at isPut
  split at isPut
  · rw [← Except.ok.inj isPut]
    simp [withProvider]
  · cases isPut

end Subscriptions

/-- What a row holds after a delivery: a field that was left undefined keeps the row's value, or the empty value of a new row, and
every other field takes the delivered value; a canceled row keeps its first time where a cancellation is stamped again. -/
structure Follows (input : SyncInput Instant) (row : Option (Columns Instant)) (row' : Columns Instant) : Prop where
  userId : row'.userId = input.userId
  planId : row'.planId = input.planId
  customerId : row'.customerId = input.customerId
  status : row'.status = input.status
  currentPeriodStart : row'.currentPeriodStart = input.currentPeriodStart
  currentPeriodEnd : row'.currentPeriodEnd = input.currentPeriodEnd
  trialStart : row'.trialStart = input.trialStart.getD (row.bind (·.trialStart))
  trialEnd : row'.trialEnd = input.trialEnd.getD (row.bind (·.trialEnd))
  cancelAtPeriodEnd : row'.cancelAtPeriodEnd = input.cancelAtPeriodEnd.getD ((row.map (·.cancelAtPeriodEnd)).getD false)
  metadata : sameJson row'.metadata.1 (input.metadata.getD ((row.map (·.metadata)).getD Json.null)).1 = true
  first : (∃ old, row = some old ∧ input.status = .canceled ∧ Restamps old input) → row'.canceledAt = row.bind (·.canceledAt)
  canceledAt : ¬ (∃ old, row = some old ∧ input.status = .canceled ∧ Restamps old input) →
    row'.canceledAt = input.canceledAt.getD (row.bind (·.canceledAt))

omit [DecidableEq Instant] in
theorem alreadyCanceled_iff {row : Option (Columns Instant)} {time : Instant} (stamped : input.canceledAt = some (some time)) :
    alreadyCanceled input row = true ↔ ∃ old, row = some old ∧ input.status = .canceled ∧ Restamps old input := by
  cases row with
  | none => simp [alreadyCanceled]
  | some row =>
    simp only [alreadyCanceled, Restamps, stamped, Bool.and_eq_true, decide_eq_true_eq, Option.some.injEq, exists_eq_left', exists_eq',
      and_true]
    tauto

omit [DecidableEq Instant] in
theorem Snapshot.Same.follows {row : Option (Columns Instant)} {row' : Columns Instant}
    (same : (snapshotOfRow texts row').Same (snapshotOfDelivery texts input row)) : Follows input row row' where
  userId := same.userId
  planId := same.planId
  customerId := same.customerId
  status := same.status
  currentPeriodStart := toIso_inj same.currentPeriodStart
  currentPeriodEnd := toIso_inj same.currentPeriodEnd
  trialStart := times_inj same.trialStart
  trialEnd := times_inj same.trialEnd
  cancelAtPeriodEnd := same.cancelAtPeriodEnd
  metadata := same.metadata
  first := by
    rintro ⟨old, isOld, canceled, restamps⟩
    obtain ⟨time, stamped⟩ := restamps.2.2
    have already := (alreadyCanceled_iff stamped).mpr ⟨old, isOld, canceled, restamps⟩
    have is : row'.canceledAt = _ := times_inj same.canceledAt
    rw [is, canceledAtOf, stamped]
    simp only [if_pos already, Option.getD_some]
  canceledAt := by
    intro fresh
    have is : row'.canceledAt = _ := times_inj same.canceledAt
    rw [is]
    congr 1
    unfold canceledAtOf
    split
    · next time stamped =>
      have first : ¬ alreadyCanceled input row = true := fun already => fresh ((alreadyCanceled_iff stamped).mp already)
      rw [if_neg first, stamped]
    · rfl

theorem sync_row (fresh : ∀ id, newId = .ok id → table.withId id = none)
    (accepted : syncSubscription texts database newId recordedAt input table = .ok (table', events)) :
    ∃ id, (∀ row, table.withProvider input.providerSubscriptionId = some row → row.id = id) ∧
      ((syncEvents texts input ((table.withProvider input.providerSubscriptionId).map (·.toColumns)) = [] ∧ table' = table ∧ events = []) ∨
        ∃ event saved, event ∈ syncEvents texts input ((table.withProvider input.providerSubscriptionId).map (·.toColumns)) ∧
          save texts database id recordedAt (table.withProvider input.providerSubscriptionId) event = .ok saved ∧
          table.put saved = .ok table' ∧ events = [event]) := by
  have working : ∃ id, (∀ row, table.withProvider input.providerSubscriptionId = some row → row.id = id) ∧
      subscriptionIdOf newId (table.withProvider input.providerSubscriptionId) = .ok id ∧
      table.withId id = table.withProvider input.providerSubscriptionId := by
    cases found : table.withProvider input.providerSubscriptionId with
    | some row =>
      refine ⟨row.id, ?_, rfl, (Subscriptions.withProvider_withId found).1⟩
      rintro _ ⟨⟩
      rfl
    | none =>
      unfold syncSubscription at accepted
      rw [found] at accepted
      cases isNew : newId with
      | error refusal =>
        rw [isNew] at accepted
        cases accepted
      | ok id => exact ⟨id, by simp, rfl, fresh id isNew⟩
  obtain ⟨id, isId, chosen, isRow⟩ := working
  refine ⟨id, isId, ?_⟩
  unfold syncSubscription at accepted
  simp only [chosen, bind, Except.bind, isRow] at accepted
  cases wrote : syncEvents texts input ((table.withProvider input.providerSubscriptionId).map (·.toColumns)) with
  | nil =>
    rw [wrote] at accepted
    cases accepted
    exact .inl ⟨rfl, rfl, rfl⟩
  | cons event rest =>
    rw [wrote] at accepted
    cases isSaved : save texts database id recordedAt (table.withProvider input.providerSubscriptionId) event with
    | error refusal =>
      simp only [isSaved] at accepted
      cases accepted
    | ok saved =>
      cases isPut : table.put saved with
      | error refusal =>
        simp only [isSaved, isPut] at accepted
        cases accepted
      | ok stored =>
        simp only [isSaved, isPut] at accepted
        cases accepted
        exact .inr ⟨event, saved, List.mem_cons_self, isSaved, isPut, rfl⟩

omit [DecidableEq Instant] in
theorem reduce_keys {folded : SubscriptionRow Instant} (written : event ∈ syncEvents texts input (row.map (·.toColumns)))
    (provider : ∀ old, row = some old → old.providerSubscriptionId = input.providerSubscriptionId ∧ old.id = id)
    (isFolded : reduce texts id recordedAt row event = some folded) :
    folded.providerSubscriptionId = input.providerSubscriptionId ∧ folded.id = id := by
  cases row with
  | none =>
    obtain rfl := List.mem_singleton.mp written
    obtain ⟨columns, _, rfl⟩ := Option.map_eq_some_iff.mp isFolded
    exact ⟨rfl, rfl⟩
  | some old =>
    simp only [syncEvents, Option.map_some] at written
    split at written
    · cases written
    · obtain rfl := List.mem_singleton.mp written
      obtain ⟨columns, _, rfl⟩ := Option.map_eq_some_iff.mp isFolded
      exact provider old rfl

theorem sync_ok (fresh : ∀ id, newId = .ok id → table.withId id = none)
    (accepted : syncSubscription texts database newId recordedAt input table = .ok (table', events)) :
    ∃ row', table'.withProvider input.providerSubscriptionId = some row' ∧
      (snapshotOfRow texts row'.toColumns).Same
        (snapshotOfDelivery texts input ((table.withProvider input.providerSubscriptionId).map (·.toColumns))) ∧
      ∀ event ∈ events, ∃ folded,
        reduce texts row'.id recordedAt (table.withProvider input.providerSubscriptionId) event = some folded ∧
        snapshotOfRow texts folded.toColumns =
          snapshotOfDelivery texts input ((table.withProvider input.providerSubscriptionId).map (·.toColumns)) := by
  obtain ⟨id, isId, ⟨silent, rfl, rfl⟩ | ⟨event, saved, written, isSaved, isPut, rfl⟩⟩ := sync_row fresh accepted
  · cases found : table'.withProvider input.providerSubscriptionId with
    | none =>
      rw [found] at silent
      cases silent
    | some row =>
      rw [found] at silent
      exact ⟨row, rfl, (syncEvents_some texts input row.toColumns).mp silent, by simp⟩
  · obtain ⟨folded, isFolded, exactly, same, sameId, sameProvider⟩ := save_ok written isSaved
    have keys := reduce_keys written (fun old isOld => ⟨(Subscriptions.withProvider_withId isOld).2, isId old isOld⟩) isFolded
    have found := Subscriptions.put_ok isPut
    rw [sameProvider, keys.1] at found
    refine ⟨saved, found, same, ?_⟩
    intro other member
    obtain rfl := List.mem_singleton.mp member
    exact ⟨folded, by rw [sameId, keys.2]; exact isFolded, exactly⟩

theorem sync_silent {row' : SubscriptionRow Instant} (found : table.withProvider input.providerSubscriptionId = some row')
    (same : (snapshotOfRow texts row'.toColumns).Same (snapshotOfDelivery texts input (some row'.toColumns))) :
    syncSubscription texts database newId recordedAt input table = .ok (table, []) := by
  have silent := (syncEvents_some texts input row'.toColumns).mpr same
  unfold syncSubscription
  simp only [found, subscriptionIdOf, bind, Except.bind, (Subscriptions.withProvider_withId found).1, Option.map_some, silent]
  rfl

/-- An accepted delivery leaves a row that follows it, the events fold to the snapshot that was compared, and the same delivery
again, or with another time for a cancellation the row has, writes nothing. -/
theorem sync_is_idempotent (fresh : ∀ id, newId = .ok id → table.withId id = none)
    (accepted : syncSubscription texts database newId recordedAt input table = .ok (table', events)) :
    ∃ row', table'.withProvider input.providerSubscriptionId = some row' ∧
      Follows input ((table.withProvider input.providerSubscriptionId).map (·.toColumns)) row'.toColumns ∧
      (∀ event ∈ events, ∃ folded,
        reduce texts row'.id recordedAt (table.withProvider input.providerSubscriptionId) event = some folded ∧
        snapshotOfRow texts folded.toColumns =
          snapshotOfDelivery texts input ((table.withProvider input.providerSubscriptionId).map (·.toColumns))) ∧
      sameJson (snapshotOfRow texts row'.toColumns).toValue
        (snapshotOfDelivery texts input ((table.withProvider input.providerSubscriptionId).map (·.toColumns))).toValue = true ∧
      ∀ given, given = input.canceledAt ∨ Restamps row'.toColumns { input with canceledAt := given } → ∀ newId' recordedAt',
        syncSubscription texts database newId' recordedAt' { input with canceledAt := given } table' = .ok (table', []) := by
  obtain ⟨row', found, same, folds⟩ := sync_ok fresh accepted
  refine ⟨row', found, same.follows, folds, same_iff.mpr same, ?_⟩
  intro given again newId' recordedAt'
  have silent : (snapshotOfRow texts row'.toColumns).Same
      (snapshotOfDelivery texts { input with canceledAt := given } (some row'.toColumns)) := repeats _ same again
  exact sync_silent found silent

def namedInstants : IsoTexts String := ⟨fun name => name, some, fun _ => rfl⟩

def faithfulDatabase : Database String := ⟨fun text => text, fun time => time, fun json => json, fun _ => true⟩

def canceledRow : SubscriptionRow String where
  userId := "user_1"
  planId := "plan_1"
  customerId := "cus_1"
  status := .canceled
  currentPeriodStart := "2026-01-01T00:00:00Z"
  currentPeriodEnd := "2026-02-01T00:00:00Z"
  trialStart := none
  trialEnd := none
  canceledAt := some "2026-01-15T00:00:00Z"
  cancelAtPeriodEnd := false
  metadata := Json.null
  id := "sub_1"
  providerSubscriptionId := "provider_1"
  createdAt := "2026-01-01T00:00:00Z"
  updatedAt := "2026-01-15T00:00:00Z"

def canceledTable : Subscriptions String := ⟨[canceledRow], by simp, by simp⟩

def cancellation (canceledAt : Option (Option String)) : SyncInput String where
  userId := "user_1"
  planId := "plan_1"
  customerId := "cus_1"
  providerSubscriptionId := "provider_1"
  status := .canceled
  currentPeriodStart := "2026-01-01T00:00:00Z"
  currentPeriodEnd := "2026-02-01T00:00:00Z"
  trialStart := none
  trialEnd := none
  canceledAt := canceledAt
  cancelAtPeriodEnd := none
  metadata := none

theorem sync_is_idempotent_restamped :
    ∃ row', canceledTable.withProvider "provider_1" = some row' ∧ row'.canceledAt = some "2026-01-15T00:00:00Z" ∧
      syncSubscription namedInstants faithfulDatabase (.ok "sub_2") "2026-01-17T00:00:00Z"
        (cancellation (some (some "2026-01-17T00:00:00Z"))) canceledTable = .ok (canceledTable, []) := by
  have accepted : syncSubscription namedInstants faithfulDatabase (.ok "sub_2") "2026-01-16T00:00:00Z"
      (cancellation (some (some "2026-01-16T00:00:00Z"))) canceledTable = .ok (canceledTable, []) := by rfl
  obtain ⟨row', found, follows, _, _, again⟩ := sync_is_idempotent (by rintro _ ⟨⟩; rfl) accepted
  have same : canceledRow = row' := Option.some.inj found
  subst same
  exact ⟨canceledRow, found, rfl, again (some (some "2026-01-17T00:00:00Z")) (.inr ⟨rfl, rfl, _, rfl⟩) _ _⟩

/-- A canceled row whose time the delivery clears does not keep it. -/
theorem first_time_cleared : canceledRow.status = .canceled ∧ canceledRow.canceledAt = some "2026-01-15T00:00:00Z" ∧
    (syncSubscription namedInstants faithfulDatabase (.ok "sub_2") "2026-01-16T00:00:00Z" (cancellation (some none)) canceledTable).toOption.map
      (fun after => (after.1.withProvider "provider_1").map (·.canceledAt)) = some (some none) := by
  refine ⟨rfl, rfl, ?_⟩
  rfl

end Arki.Payments.SubscriptionJournal
