import Arki.Journal.Outbox
import Arki.Library.Ordered
import Arki.Library.Outcome
import Mathlib.Data.List.Dedup
import Mathlib.Data.Prod.Lex
import Mathlib.Data.String.Basic

/-! Pruning of the archive: the rows past their time first, then each group's rows over its cap.

One call is one transaction. It passes the rows that other transactions lock.
-/

set_option autoImplicit false

namespace Arki.Journal.Prune

open Arki.Ordered Arki.Outcome

/-- One call, at the database's `now()`. The database lists the groups in any order. -/
structure PruneCall where
  now : Nat
  limit : Nat
  locked : List String
  arrange : List (ArchiveOutcome × Option String × Option String) → List (ArchiveOutcome × Option String × Option String)
  arranged : ∀ groups, (arrange groups).Perm groups

abbrev Group := ArchiveOutcome × Option String × Option String

def jobName : JobBody → Option String
  | .effect .. => none
  | .queue jobName .. => some jobName
  | .forward jobName _ => some jobName

/-- `group by outcome, effect, job_name`. -/
def groupOf (row : ArchivedJob) : Group := (row.outcome, row.work.body.effectName, jobName row.work.body)

/-- `keep_until <= now()` -/
def expired (now : Nat) (row : ArchivedJob) : Bool := row.keepUntil.any (decide <| · ≤ now)

/-- With a sink, a row goes only after the sink has it; without one nothing is ever exported. -/
def prunable (sink : Bool) (row : ArchivedJob) : Bool := !sink || row.exportedAt.isSome

def capOf (keeping : Keeping) (group : Group) : Option Nat :=
  match keepFor keeping.policy group.1 (group.2.1.bind keeping.overrideOf) with
  | .stored _ _ max => max
  | .dropped => none

def deleteIds (rows : List ArchivedJob) (ids : List String) : List ArchivedJob :=
  Table.delete rows fun row => ids.contains row.id

/-- `order by keep_until, id limit …` of the rows whose time is over. -/
def expiredRows (sink : Bool) (call : PruneCall) (rows : List ArchivedJob) : List ArchivedJob :=
  (inOrder (fun row => toLex (row.keepUntil.getD 0, row.id)) (rows.filter fun row =>
    expired call.now row && prunable sink row && !call.locked.contains row.id)).take call.limit

/-- `order by archived_at desc, id desc`. -/
def newestFirst (rows : List ArchivedJob) : List ArchivedJob :=
  inOrder (fun row => OrderDual.toDual (toLex (row.archivedAt, row.id))) rows

def inGroup (group : Group) (row : ArchivedJob) : Bool := groupOf row == group

/-- `limit … offset max` of a group. The offset counts the rows that may not go too, so that the cap keeps the newest
rows overall. -/
def overflow (sink : Bool) (call : PruneCall) (left : Nat) (group : Group) (max : Nat) (rows : List ArchivedJob) :
    List ArchivedJob :=
  (((newestFirst (rows.filter fun row => inGroup group row && !call.locked.contains row.id)).drop max).take left).filter
    (prunable sink)

def pruneGroup (keeping : Keeping) (sink : Bool) (call : PruneCall) (state : List ArchivedJob × List String)
    (group : Group × Nat) : List ArchivedJob × List String :=
  if call.limit ≤ state.2.length then state
  else
    match capOf keeping group.1 with
    | none => state
    | some max =>
      if group.2 ≤ max then state
      else
        let past := (overflow sink call (call.limit - state.2.length) group.1 max state.1).map (·.id)
        (deleteIds state.1 past, state.2 ++ past)

def groups (call : PruneCall) (rows : List ArchivedJob) : List (Group × Nat) :=
  (call.arrange (rows.map groupOf).dedup).map fun group => (group, (rows.filter (inGroup group)).length)

def pruneArchive (keeping : Keeping) (sink : Bool) (call : PruneCall) (rows : List ArchivedJob) :
    Except JournalError (List ArchivedJob × List String) := do
  bounded "pruneArchive" call.limit purgeLimit
  let ids := (expiredRows sink call rows).map (·.id)
  let left := deleteIds rows ids
  return (groups call left).foldl (pruneGroup keeping sink call) (left, ids)

def pruneAll (keeping : Keeping) (sink : Bool) : List PruneCall → List ArchivedJob → Except JournalError (List ArchivedJob)
  | [], rows => .ok rows
  | call :: rest, rows => do
    let (left, _) ← pruneArchive keeping sink call rows
    pruneAll keeping sink rest left

def newestKept (now : Nat) (group : Group) (max : Nat) (rows : List ArchivedJob) : List ArchivedJob :=
  (newestFirst (rows.filter fun row => inGroup group row && !expired now row)).take max

section

variable {α : Type} {items : List α} {keep : α → Bool} {count : Nat}

theorem take_filter (kept : ∀ item ∈ items.take count, keep item = true) : (items.filter keep).take count = items.take count := by
  rcases le_total items.length count with short | long
  · rw [List.take_of_length_le short] at kept ⊢
    rw [List.filter_eq_self.mpr kept, List.take_of_length_le short]
  · have whole := List.take_append_drop count items
    rw [← whole, List.filter_append, List.filter_eq_self.mpr kept, whole, List.take_left']
    exact List.length_take_of_le long

theorem mem_drop_filter {item : α} (dropped : item ∈ (items.filter keep).drop count) : item ∈ items.drop count :=
  (List.filter_sublist.drop count).subset dropped

theorem not_mem_take (distinct : items.Nodup) {item : α} (dropped : item ∈ items.drop count) : item ∉ items.take count := by
  have whole := List.take_append_drop count items
  rw [← whole, List.nodup_append] at distinct
  exact fun taken => distinct.2.2 item taken item dropped rfl

end

section

variable {keeping : Keeping} {sink : Bool} {call : PruneCall} {rows left : List ArchivedJob} {row : ArchivedJob} {ids : List String}
  {group : Group} {max now start finish : Nat}

theorem mem_deleteIds : row ∈ deleteIds rows ids ↔ row ∈ rows ∧ row.id ∉ ids := by
  simp [deleteIds, Table.mem_delete]

theorem deleteIds_nil (rows : List ArchivedJob) : deleteIds rows [] = rows :=
  Table.delete_eq_self fun _ _ => rfl

theorem deleteIds_deleteIds (rows : List ArchivedJob) (first second : List String) :
    deleteIds (deleteIds rows first) second = deleteIds rows (first ++ second) := by
  simp [deleteIds, Table.delete, List.filter_filter, Bool.and_comm]

theorem keyed_deleteIds (keyed : (rows.map (·.id)).Nodup) (ids : List String) : ((deleteIds rows ids).map (·.id)).Nodup :=
  distinct_filter keyed _

theorem same_of_id (keyed : (rows.map (·.id)).Nodup) {other : ArchivedJob} (member : row ∈ rows) (member' : other ∈ rows)
    (same : row.id = other.id) : row = other := List.inj_on_of_nodup_map keyed member member' same

theorem distinct_newest (keyed : (rows.map (·.id)).Nodup) :
    (rows.map fun row => OrderDual.toDual (toLex (row.archivedAt, row.id))).Nodup := by
  refine List.Nodup.of_map (fun key => (ofLex (OrderDual.ofDual key)).2) ?_
  rw [List.map_map]
  exact keyed

theorem mem_newestFirst : row ∈ newestFirst rows ↔ row ∈ rows := mem_inOrder

theorem nodup_newestFirst (keyed : (rows.map (·.id)).Nodup) : (newestFirst rows).Nodup :=
  (inOrder_perm rows).nodup_iff.mpr (List.Nodup.of_map _ keyed)

theorem filter_newestFirst (keyed : (rows.map (·.id)).Nodup) (keep : ArchivedJob → Bool) :
    (newestFirst rows).filter keep = newestFirst (rows.filter keep) := filter_inOrder (distinct_newest keyed) keep

/-- Deletions that spare the newest rows of a group, as many as its cap, do not change which they are. -/
theorem newestKept_deleteIds (keyed : (rows.map (·.id)).Nodup) (spared : ∀ row ∈ newestKept now group max rows, row.id ∉ ids) :
    newestKept now group max (deleteIds rows ids) = newestKept now group max rows := by
  have filtered : (deleteIds rows ids).filter (fun row => inGroup group row && !expired now row) =
      (rows.filter fun row => inGroup group row && !expired now row).filter fun row => !ids.contains row.id := by
    simp only [deleteIds, Table.delete, List.filter_filter, Bool.and_comm]
  rw [newestKept, filtered, ← filter_newestFirst (distinct_filter keyed _), take_filter]
  · rfl
  · intro row member
    simpa using spared row member

theorem mem_newestKept (member : row ∈ newestKept now group max rows) : row ∈ rows ∧ inGroup group row = true ∧ expired now row = false := by
  have listed := mem_newestFirst.mp (List.mem_of_mem_take member)
  rw [List.mem_filter, Bool.and_eq_true, Bool.not_eq_true'] at listed
  exact listed

def Overflows (keeping : Keeping) (rows : List ArchivedJob) (row : ArchivedJob) : Prop :=
  ∃ max, capOf keeping (groupOf row) = some max ∧ row ∈ (newestFirst (rows.filter (inGroup (groupOf row)))).drop max

/-- What holds in one call between the groups: only rows that may go have gone, and no more than the limit. -/
structure Pruned (keeping : Keeping) (sink : Bool) (call : PruneCall) (rows : List ArchivedJob) (state : List ArchivedJob × List String) : Prop where
  left : state.1 = deleteIds rows state.2
  there : ∀ id ∈ state.2, ∃ row ∈ rows, row.id = id
  few : state.2.length ≤ call.limit
  owed : ∀ row ∈ rows, row.id ∈ state.2 → prunable sink row = true ∧ (expired call.now row = true ∨ Overflows keeping rows row)

theorem mem_expiredRows (member : row ∈ expiredRows sink call rows) :
    row ∈ rows ∧ (expired call.now row = true ∧ prunable sink row = true) ∧ call.locked.contains row.id = false := by
  have listed := mem_inOrder.mp (List.mem_of_mem_take member)
  rw [List.mem_filter, Bool.and_eq_true, Bool.and_eq_true, Bool.not_eq_true'] at listed
  exact listed

theorem pruned_expired (keyed : (rows.map (·.id)).Nodup) :
    Pruned keeping sink call rows (deleteIds rows ((expiredRows sink call rows).map (·.id)), (expiredRows sink call rows).map (·.id)) := by
  refine ⟨rfl, fun id gone => ?_, ?_, fun row member gone => ?_⟩
  · obtain ⟨row, listed, is⟩ := List.mem_map.mp gone
    exact ⟨row, (mem_expiredRows listed).1, is⟩
  · rw [List.length_map]
    exact List.length_take_le _ _
  · obtain ⟨other, listed, same⟩ := List.mem_map.mp gone
    obtain ⟨inside, may, -⟩ := mem_expiredRows listed
    obtain rfl := same_of_id keyed inside member same
    exact ⟨may.2, .inl may.1⟩

theorem mem_overflow {count : Nat} (member : row ∈ overflow sink call count group max rows) :
    (row ∈ rows ∧ groupOf row = group) ∧ prunable sink row = true ∧
      row ∈ (newestFirst (rows.filter fun row => inGroup group row && !call.locked.contains row.id)).drop max := by
  obtain ⟨listed, may⟩ := List.mem_filter.mp member
  have dropped := List.mem_of_mem_take listed
  have inside := mem_newestFirst.mp (List.mem_of_mem_drop dropped)
  rw [List.mem_filter, Bool.and_eq_true, inGroup, beq_iff_eq] at inside
  exact ⟨⟨inside.1, inside.2.1⟩, may, dropped⟩

theorem pruneGroup_cases (state : List ArchivedJob × List String) (entry : Group × Nat) :
    pruneGroup keeping sink call state entry = state ∨ ∃ max past, capOf keeping entry.1 = some max ∧ state.2.length < call.limit ∧
      past = (overflow sink call (call.limit - state.2.length) entry.1 max state.1).map (·.id) ∧
      pruneGroup keeping sink call state entry = (deleteIds state.1 past, state.2 ++ past) := by
  unfold pruneGroup
  split
  · exact .inl rfl
  next below =>
    split
    · exact .inl rfl
    next max cap =>
      split
      · exact .inl rfl
      · exact .inr ⟨max, _, cap, not_le.mp below, rfl, rfl⟩

theorem Pruned.turn {state : List ArchivedJob × List String} (keyed : (rows.map (·.id)).Nodup) (pruned : Pruned keeping sink call rows state)
    (entry : Group × Nat) : Pruned keeping sink call rows (pruneGroup keeping sink call state entry) := by
  rcases pruneGroup_cases state entry with same | ⟨max, past, cap, below, isPast, is⟩
  · rwa [same]
  rw [is]
  refine ⟨?_, fun id gone => ?_, ?_, fun row member gone => ?_⟩
  · rw [pruned.left, deleteIds_deleteIds]
  · rcases List.mem_append.mp gone with before | gone
    · exact pruned.there id before
    rw [isPast] at gone
    obtain ⟨row, listed, is⟩ := List.mem_map.mp gone
    have inside := (mem_overflow listed).1.1
    rw [pruned.left] at inside
    exact ⟨row, (mem_deleteIds.mp inside).1, is⟩
  · have few : past.length ≤ call.limit - state.2.length := by
      rw [isPast, List.length_map]
      exact (List.length_filter_le _ _).trans (List.length_take_le _ _)
    rw [List.length_append]
    omega
  · rcases List.mem_append.mp gone with before | gone
    · exact pruned.owed row member before
    rw [isPast] at gone
    obtain ⟨other, listed, same⟩ := List.mem_map.mp gone
    obtain ⟨⟨inside, isGroup⟩, may, dropped⟩ := mem_overflow listed
    rw [pruned.left] at inside dropped
    obtain rfl := same_of_id keyed (mem_deleteIds.mp inside).1 member same
    rw [← isGroup] at cap dropped
    refine ⟨may, .inr ⟨max, cap, ?_⟩⟩
    have part : (deleteIds rows state.2).filter (fun row => inGroup (groupOf other) row && !call.locked.contains row.id) =
        (rows.filter (inGroup (groupOf other))).filter fun row => !state.2.contains row.id && !call.locked.contains row.id := by
      simp only [deleteIds, Table.delete, List.filter_filter]
      refine List.filter_congr fun row _ => ?_
      cases inGroup (groupOf other) row <;> cases call.locked.contains row.id <;> simp
    rw [part, ← filter_newestFirst (distinct_filter keyed _)] at dropped
    exact mem_drop_filter dropped

def Orderly (start finish : Nat) (rows : List ArchivedJob) : Prop :=
  ∀ newer ∈ rows, ∀ older ∈ rows, groupOf newer = groupOf older → toLex (older.archivedAt, older.id) < toLex (newer.archivedAt, newer.id) →
    expired finish newer = true → expired start newer = true ∨ expired finish older = true

/-- Where every row may go: the rows that a capped group is to have at last stay, and a call that is not at its limit has left no row past its time. -/
structure Settles (keeping : Keeping) (finish : Nat) (call : PruneCall) (rows : List ArchivedJob) (state : List ArchivedJob × List String) : Prop where
  kept : ∀ group max, capOf keeping group = some max → newestKept finish group max state.1 = newestKept finish group max rows
  overdue : state.2.length < call.limit → ∀ row ∈ state.1, call.locked.contains row.id = false → expired call.now row = false

theorem expired_later {early late : Nat} (later : early ≤ late) (overdue : expired early row = true) : expired late row = true := by
  rw [expired, Option.any_eq_true] at overdue ⊢
  obtain ⟨time, is, passed⟩ := overdue
  exact ⟨time, is, decide_eq_true ((of_decide_eq_true passed).trans later)⟩

theorem settles_expired (keyed : (rows.map (·.id)).Nodup) (free : ∀ row ∈ rows, prunable sink row = true) (before : call.now ≤ finish) :
    Settles keeping finish call rows (deleteIds rows ((expiredRows sink call rows).map (·.id)), (expiredRows sink call rows).map (·.id)) := by
  constructor
  · refine fun group max _ => newestKept_deleteIds keyed fun row member gone => ?_
    obtain ⟨other, listed, same⟩ := List.mem_map.mp gone
    obtain ⟨inside, may, -⟩ := mem_expiredRows listed
    obtain ⟨member_, -, current⟩ := mem_newestKept member
    rw [same_of_id keyed inside member_ same] at may
    rw [expired_later before may.1] at current
    cases current
  · intro below row member unlocked
    obtain ⟨inside, stays⟩ := mem_deleteIds.mp member
    by_contra overdue
    refine stays (List.mem_map.mpr ⟨row, ?_, rfl⟩)
    rw [List.length_map, expiredRows, List.length_take] at below
    rw [expiredRows, List.take_of_length_le (by omega), mem_inOrder, List.mem_filter]
    refine ⟨inside, ?_⟩
    rw [Bool.not_eq_false] at overdue
    rw [overdue, free row inside, unlocked]
    rfl

/-- A row that the cap of this moment leaves no place for has none at last either. -/
theorem overflow_not_kept {free : List ArchivedJob} (keyed : (rows.map (·.id)).Nodup) (open_ : ArchivedJob → Bool)
    (isFree : free = rows.filter fun row => inGroup group row && open_ row) (dropped : row ∈ (newestFirst free).drop max)
    (unexpired : ∀ other ∈ free, toLex (row.archivedAt, row.id) < toLex (other.archivedAt, other.id) → expired now other = false) :
    row ∉ newestKept now group max rows := by
  intro member
  have keyed_ : (free.map (·.id)).Nodup := isFree ▸ distinct_filter keyed _
  have ordered : Increasing _ (newestFirst free) := inOrder_increasing (distinct_newest keyed_)
  have whole := List.take_append_drop max (newestFirst free)
  rw [← whole] at ordered
  -- those ahead of it are not past their time at last, so they come ahead of it at last too
  have ahead : ∀ other ∈ (newestFirst free).take max, (!expired now other) = true := by
    intro other taken
    rw [unexpired other (mem_newestFirst.mp (List.mem_of_mem_take taken)) ((List.pairwise_append.mp ordered).2.2 other taken row dropped)]
    rfl
  have place : row ∈ ((newestFirst free).filter fun other => !expired now other).drop max := by
    have listed : row ∈ (newestFirst free).filter fun other => !expired now other := by
      refine List.mem_filter.mpr ⟨List.mem_of_mem_drop dropped, ?_⟩
      rw [(mem_newestKept member).2.2]
      rfl
    rw [← List.take_append_drop max (List.filter _ _), take_filter ahead] at listed
    exact (List.mem_append.mp listed).resolve_left (not_mem_take (nodup_newestFirst keyed_) dropped)
  have part : free.filter (fun other => !expired now other) =
      (rows.filter fun row => inGroup group row && !expired now row).filter open_ := by
    rw [isFree, List.filter_filter, List.filter_filter]
    refine List.filter_congr fun row _ => ?_
    cases inGroup group row <;> cases open_ row <;> simp
  rw [filter_newestFirst keyed_, part, ← filter_newestFirst (distinct_filter keyed _)] at place
  exact not_mem_take (nodup_newestFirst (distinct_filter keyed _)) (mem_drop_filter place) member

theorem Settles.turn {state : List ArchivedJob × List String} (keyed : (state.1.map (·.id)).Nodup)
    (settles : Settles keeping finish call rows state) (orderly : Orderly start finish state.1) (after : start ≤ call.now) (entry : Group × Nat) :
    Settles keeping finish call rows (pruneGroup keeping sink call state entry) := by
  rcases pruneGroup_cases state entry with same | ⟨max, past, cap, below, isPast, is⟩
  · rwa [same]
  rw [is]
  have current := settles.overdue below
  constructor
  · intro group cap_ isCap
    rw [← settles.kept group cap_ isCap]
    refine newestKept_deleteIds keyed fun row member gone => ?_
    rw [isPast] at gone
    obtain ⟨other, listed, same⟩ := List.mem_map.mp gone
    obtain ⟨⟨inside, isGroup⟩, -, dropped⟩ := mem_overflow listed
    obtain ⟨member_, inGroup_, stays⟩ := mem_newestKept member
    obtain rfl := same_of_id keyed inside member_ same
    rw [inGroup, isGroup, beq_iff_eq] at inGroup_
    subst inGroup_
    obtain rfl := Option.some.inj (cap.symm.trans isCap)
    refine overflow_not_kept keyed _ rfl dropped (fun newer free less => ?_) member
    obtain ⟨inside_, listed_⟩ := List.mem_filter.mp free
    rw [Bool.and_eq_true, inGroup, beq_iff_eq, Bool.not_eq_true'] at listed_
    by_contra overdue
    rw [Bool.not_eq_false] at overdue
    rcases orderly newer inside_ _ inside (listed_.1.trans isGroup.symm) less overdue with early | late
    · have soon := current newer inside_ listed_.2
      rw [expired_later after early] at soon
      cases soon
    · rw [late] at stays
      cases stays
  · intro _ row member
    exact current row (mem_deleteIds.mp member).1

theorem Orderly.deleteIds (orderly : Orderly start finish rows) (ids : List String) : Orderly start finish (deleteIds rows ids) :=
  fun newer inside older inside_ => orderly newer (mem_deleteIds.mp inside).1 older (mem_deleteIds.mp inside_).1

theorem pruned_groups (keyed : (rows.map (·.id)).Nodup) (entries : List (Group × Nat)) {state : List ArchivedJob × List String}
    (pruned : Pruned keeping sink call rows state) : Pruned keeping sink call rows (entries.foldl (pruneGroup keeping sink call) state) ∧
      (Orderly start finish rows → start ≤ call.now → Settles keeping finish call rows state →
        Settles keeping finish call rows (entries.foldl (pruneGroup keeping sink call) state)) := by
  induction entries generalizing state with
  | nil => exact ⟨pruned, fun _ _ settles => settles⟩
  | cons entry entries step =>
    obtain ⟨whole, settled⟩ := step (pruned.turn keyed entry)
    refine ⟨whole, fun orderly after settles => settled orderly after (settles.turn ?_ ?_ after entry)⟩
    · rw [pruned.left]
      exact keyed_deleteIds keyed _
    · rw [pruned.left]
      exact orderly.deleteIds _

theorem pruneArchive_ok (start finish : Nat) (keyed : (rows.map (·.id)).Nodup) (ran : pruneArchive keeping sink call rows = .ok (left, ids)) :
    1 ≤ call.limit ∧ Pruned keeping sink call rows (left, ids) ∧
      ((∀ row ∈ rows, prunable sink row = true) → Orderly start finish rows → start ≤ call.now → call.now ≤ finish →
        Settles keeping finish call rows (left, ids)) := by
  obtain ⟨_, fits, ran⟩ := bind_ok.mp ran
  have whole := Except.ok.inj ran
  have positive : 1 ≤ call.limit := by
    by_contra below
    rw [bounded, if_pos (.inl (not_le.mp below))] at fits
    cases fits
  rw [← whole]
  have expiring : Pruned keeping sink call rows _ := pruned_expired keyed
  obtain ⟨pruned, settles⟩ := pruned_groups keyed (groups call (deleteIds rows ((expiredRows sink call rows).map (·.id)))) expiring
  exact ⟨positive, pruned, fun free orderly after before => settles orderly after (settles_expired keyed free before)⟩

theorem pruneGroup_nothing (positive : 1 ≤ call.limit) {entry : Group × Nat} (nothing : (pruneGroup keeping sink call (rows, []) entry).2 = []) :
    pruneGroup keeping sink call (rows, []) entry = (rows, []) ∧
      ∀ max, capOf keeping entry.1 = some max → entry.2 ≤ max ∨ overflow sink call call.limit entry.1 max rows = [] := by
  have room : ¬ call.limit ≤ ([] : List String).length := by
    rw [List.length_nil]
    omega
  unfold pruneGroup at nothing ⊢
  rw [if_neg room] at nothing ⊢
  cases cap : capOf keeping entry.1 with
  | none => exact ⟨rfl, fun _ isCap => nomatch isCap⟩
  | some max =>
    by_cases few : entry.2 ≤ max
    · refine ⟨if_pos few, fun _ isCap => .inl ?_⟩
      rwa [← Option.some.inj isCap]
    · simp only [cap, if_neg few, List.nil_append, List.map_eq_nil_iff] at nothing ⊢
      refine ⟨?_, fun _ isCap => .inr ?_⟩
      · rw [nothing, List.map_nil, deleteIds_nil]
      · rwa [← Option.some.inj isCap]

theorem pruneGroup_grows (state : List ArchivedJob × List String) (entries : List (Group × Nat))
    (nothing : (entries.foldl (pruneGroup keeping sink call) state).2 = []) : state.2 = [] := by
  induction entries generalizing state with
  | nil => exact nothing
  | cons entry entries step =>
    have next := step _ nothing
    rcases pruneGroup_cases state entry with same | ⟨_, past, _, _, _, is⟩
    · rwa [same] at next
    · rw [is] at next
      exact (List.append_eq_nil_iff.mp next).1

theorem groups_nothing (positive : 1 ≤ call.limit) {entries : List (Group × Nat)}
    (nothing : (entries.foldl (pruneGroup keeping sink call) (rows, [])).2 = []) :
    ∀ entry ∈ entries, ∀ max, capOf keeping entry.1 = some max → entry.2 ≤ max ∨ overflow sink call call.limit entry.1 max rows = [] := by
  induction entries with
  | nil => exact fun _ member => absurd member List.not_mem_nil
  | cons entry entries step =>
    obtain ⟨same, fits⟩ := pruneGroup_nothing positive (pruneGroup_grows _ entries nothing)
    rw [List.foldl_cons, same] at nothing
    rintro other (_ | ⟨_, member⟩)
    · exact fits
    · exact step nothing other member

theorem mem_groups (member : row ∈ rows) :
    (groupOf row, (rows.filter (inGroup (groupOf row))).length) ∈ groups call rows := by
  refine List.mem_map.mpr ⟨groupOf row, (call.arranged _).mem_iff.mpr ?_, rfl⟩
  exact List.mem_dedup.mpr (List.mem_map_of_mem member)

theorem settled_groups (ran : pruneArchive keeping sink call rows = .ok (left, [])) (free : ∀ row ∈ rows, prunable sink row = true)
    (unlocked : call.locked = []) (cap : capOf keeping group = some max) : (rows.filter (inGroup group)).length ≤ max := by
  obtain ⟨_, fits, ran⟩ := bind_ok.mp ran
  have positive : 1 ≤ call.limit := by
    by_contra below
    rw [bounded, if_pos (.inl (not_le.mp below))] at fits
    cases fits
  have nothing := congrArg Prod.snd (Except.ok.inj ran)
  have early : (expiredRows sink call rows).map (·.id) = [] := pruneGroup_grows _ _ nothing
  rw [early, deleteIds_nil] at nothing
  rcases Nat.eq_zero_or_pos (rows.filter (inGroup group)).length with empty | some
  · rw [empty]
    exact Nat.zero_le max
  obtain ⟨row, member⟩ := List.exists_mem_of_length_pos some
  obtain ⟨inside, isGroup⟩ := List.mem_filter.mp member
  rw [inGroup, beq_iff_eq] at isGroup
  subst isGroup
  rcases groups_nothing positive nothing _ (mem_groups inside) max cap with few | stays
  · exact few
  have every : rows.filter (fun row' => inGroup (groupOf row) row' && !call.locked.contains row'.id) = rows.filter (inGroup (groupOf row)) :=
    List.filter_congr fun row' _ => by simp [unlocked]
  rw [overflow, every, List.filter_eq_self.mpr] at stays
  · rw [List.take_eq_nil_iff, List.drop_eq_nil_iff, newestFirst, (inOrder_perm _).length_eq] at stays
    exact stays.resolve_left (by omega)
  · intro other listed
    have inside := mem_newestFirst.mp (List.mem_of_mem_drop (List.mem_of_mem_take listed))
    exact free other (List.mem_of_mem_filter inside)

theorem pruneAll_kept {calls : List PruneCall} (keyed : (rows.map (·.id)).Nodup) (free : ∀ row ∈ rows, prunable sink row = true)
    (orderly : Orderly start finish rows) (during : ∀ call ∈ calls, start ≤ call.now ∧ call.now ≤ finish)
    (ran : pruneAll keeping sink calls rows = .ok left) :
    (∃ ids, left = deleteIds rows ids) ∧
      ∀ group max, capOf keeping group = some max → newestKept finish group max left = newestKept finish group max rows := by
  induction calls generalizing rows with
  | nil =>
    obtain rfl := Except.ok.inj ran
    exact ⟨⟨[], (deleteIds_nil rows).symm⟩, fun _ _ _ => rfl⟩
  | cons call calls step =>
    obtain ⟨⟨mid, ids⟩, first, ran⟩ := bind_ok.mp ran
    obtain ⟨-, pruned, settles⟩ := pruneArchive_ok start finish keyed first
    have isMid : mid = deleteIds rows ids := pruned.left
    subst isMid
    obtain ⟨after, before⟩ := during call List.mem_cons_self
    obtain ⟨⟨more, is⟩, kept⟩ := step (keyed_deleteIds keyed _) (fun row member => free row (mem_deleteIds.mp member).1)
      (orderly.deleteIds ids) (fun call' member => during call' (List.mem_cons_of_mem _ member)) ran
    refine ⟨⟨ids ++ more, ?_⟩, fun group max cap => ?_⟩
    · rw [is, deleteIds_deleteIds]
    · rw [kept group max cap, (settles free orderly after before).kept group max cap]

theorem deleteIds_fewer (there : ∀ id ∈ ids, ∃ row ∈ rows, row.id = id) (some : ids ≠ []) : (deleteIds rows ids).length < rows.length := by
  obtain ⟨id, member⟩ := List.exists_mem_of_ne_nil ids some
  obtain ⟨row, inside, rfl⟩ := there id member
  refine List.length_filter_lt_length_iff_exists.mpr ⟨row, inside, ?_⟩
  simpa using member

/-- A call deletes rows past their time or over their cap, exported ones where there is a sink, no more than its limit.
Calls on rows that may all go, up to one that finds nothing, leave each capped group its newest rows of those not past
their time, when meanwhile no row's time ends before that of an older row of its group. -/
theorem prune_policy (keyed : (rows.map (·.id)).Nodup) :
    (∀ call left ids, pruneArchive keeping sink call rows = .ok (left, ids) →
      left = deleteIds rows ids ∧ ids.length ≤ call.limit ∧ (ids ≠ [] → left.length < rows.length) ∧
      ∀ row ∈ rows, row.id ∈ ids → prunable sink row = true ∧ (expired call.now row = true ∨ Overflows keeping rows row)) ∧
    ((∀ row ∈ rows, prunable sink row = true) → ∀ start calls left, ∀ last : PruneCall, Orderly start last.now rows →
      (∀ call ∈ calls, start ≤ call.now ∧ call.now ≤ last.now) → start ≤ last.now → last.locked = [] →
      pruneAll keeping sink calls rows = .ok left → pruneArchive keeping sink last left = .ok (left, []) →
      ∀ group max, capOf keeping group = some max →
        newestFirst (left.filter (inGroup group)) = newestKept last.now group max rows) := by
  constructor
  · intro call left ids ran
    obtain ⟨-, pruned, -⟩ := pruneArchive_ok 0 0 keyed ran
    refine ⟨pruned.left, pruned.few, fun some => ?_, pruned.owed⟩
    have is : left = deleteIds rows ids := pruned.left
    rw [is]
    exact deleteIds_fewer pruned.there some
  · intro free start calls left last orderly during after unlocked ran nothing group max cap
    obtain ⟨⟨ids, is⟩, kept⟩ := pruneAll_kept keyed free orderly during ran
    have free_ : ∀ row ∈ left, prunable sink row = true := fun row member => free row (mem_deleteIds.mp (is ▸ member)).1
    have keyed_ : (left.map (·.id)).Nodup := is ▸ keyed_deleteIds keyed ids
    have orderly_ : Orderly start last.now left := is ▸ orderly.deleteIds ids
    obtain ⟨positive, -, settles⟩ := pruneArchive_ok start last.now keyed_ nothing
    have current : left.filter (fun row => inGroup group row && !expired last.now row) = left.filter (inGroup group) := by
      refine List.filter_congr fun row member => ?_
      rw [(settles free_ orderly_ after le_rfl).overdue positive row member (by simp [unlocked]), Bool.not_false, Bool.and_true]
    rw [← kept group max cap, newestKept, current, List.take_of_length_le]
    rw [newestFirst, (inOrder_perm _).length_eq]
    exact settled_groups nothing free_ unlocked cap

end

def exportedRow (id : String) (archivedAt keepUntil : Nat) : ArchivedJob where
  id := id
  work := ⟨.queue "mail" none .null, none, 0, nofun⟩
  enqueuedAt := 0
  attempts := 1
  lastError := none
  outcome := .completed
  attemptLog := []
  replayOf := none
  finishedAt := archivedAt
  archivedAt := archivedAt
  keepUntil := some keepUntil
  exportedAt := some archivedAt
  runId := none

def newestTwo : Keeping where
  policy := { defaultRetention with completed := .stored none false (some 2) }
  overrideOf := fun _ => none

def callAt (now : Nat) : PruneCall where
  now := now
  limit := 5
  locked := []
  arrange := id
  arranged := fun _ => .rfl

def threeRows : List ArchivedJob := [exportedRow "1" 1 20, exportedRow "2" 2 50, exportedRow "3" 3 100]

theorem prune_policy_two :
    newestFirst ([exportedRow "2" 2 50, exportedRow "3" 3 100].filter (inGroup (.completed, none, some "mail"))) =
      newestKept 10 (.completed, none, some "mail") 2 threeRows := by
  have distinct : (threeRows.map (·.id)).Nodup := by decide
  have orderly : Orderly 0 10 threeRows := by
    have fresh : ∀ row ∈ threeRows, expired 10 row = false := by decide
    intro newer inside _ _ _ _ overdue
    rw [fresh newer inside] at overdue
    cases overdue
  have first : pruneAll newestTwo true [callAt 0] threeRows = .ok [exportedRow "2" 2 50, exportedRow "3" 3 100] := rfl
  have second : pruneArchive newestTwo true (callAt 10) [exportedRow "2" 2 50, exportedRow "3" 3 100] =
    .ok ([exportedRow "2" 2 50, exportedRow "3" 3 100], []) := rfl
  exact (prune_policy distinct).2 (by decide) 0 [callAt 0] _ (callAt 10) orderly (by decide) (by decide) rfl first second _ 2 rfl

/-- The third row is the newest when the first goes, and its time ends next. -/
theorem cap_spares_expiring :
    pruneAll newestTwo true [callAt 0, callAt 10] [exportedRow "1" 1 100, exportedRow "2" 2 100, exportedRow "3" 3 5] =
        .ok [exportedRow "2" 2 100] ∧
      pruneArchive newestTwo true (callAt 10) [exportedRow "2" 2 100] = .ok ([exportedRow "2" 2 100], []) ∧
      newestFirst ([exportedRow "2" 2 100].filter (inGroup (.completed, none, some "mail"))) ≠
        newestKept 10 (.completed, none, some "mail") 2 [exportedRow "1" 1 100, exportedRow "2" 2 100, exportedRow "3" 3 5] := by
  refine ⟨rfl, rfl, ?_⟩
  decide +kernel

end Arki.Journal.Prune
