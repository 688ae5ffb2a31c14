import Arki.Journal.Write

/-! The built-in event log: an append is all or nothing, and may be repeated. -/

set_option autoImplicit false

namespace Arki.Journal.BuiltInLog

/-- One entity's events, at versions `expectedVersion + 1` onwards. -/
structure AppendBatch where
  kind : String
  entityId : String
  expectedVersion : Nat
  events : List StoredEvent

def place (event : StoredEvent) : String × String × Nat := (event.kind, event.entityId, event.version)

def sameAs (row event : StoredEvent) : Bool :=
  row.id == event.id && row.kind == event.kind && row.entityId == event.entityId && row.version == event.version

/-- An event as the table stores it. `column` is what the `entity_id` column makes of a text. -/
def stored (column : String → String) (event : StoredEvent) : StoredEvent :=
  { event.inStorage with entityId := column event.entityId, erasedAt := none }

/-- `INSERT … ON CONFLICT DO NOTHING RETURNING`: the rows that are new, where each is seen by the next. -/
def insertEvents (column : String → String) : List StoredEvent → List StoredEvent → List StoredEvent
  | _, [] => []
  | log, event :: rest =>
    if log.any (stored column event).clashes then insertEvents column log rest
    else stored column event :: insertEvents column (log ++ [stored column event]) rest

def appendOn (column : String → String) (batch : AppendBatch) (log : List StoredEvent) :
    List StoredEvent × Except JournalError Unit :=
  if batch.events.isEmpty then (log, .ok ())
  else
    let inserted := insertEvents column log batch.events
    let after := log ++ inserted
    let undone := Table.delete after fun row => inserted.any (·.id == row.id)
    match inserted.find? (·.entityId != batch.entityId) with
    | some changed => (undone, .error ⟨.idMismatch, batch.kind, batch.entityId,
        s!"the log stored the entity id {changed.entityId.quote} but the id given is {batch.entityId.quote}"⟩)
    | none =>
      if inserted.length = batch.events.length then (after, .ok ())
      else
        let found := after.filter fun row => batch.events.any (·.id == row.id)
        if batch.events.all fun event => found.any (sameAs · event) then (after, .ok ())
        else (undone, .error ⟨.conflict, batch.kind, batch.entityId,
          s!"version {batch.expectedVersion + 1} is already in the log: another writer appended it first, or the row is behind its history"⟩)

structure Unique (log : List StoredEvent) : Prop where
  ids : (log.map (·.id)).Nodup
  places : (log.map place).Nodup
  seqs : (log.map (·.seq)).Nodup

variable {column : String → String} {log : List StoredEvent} {event row : StoredEvent} {batch : AppendBatch}

section

-- The lemmas below unfold these at the same time: their equations are made once, here.
attribute [local simp] insertEvents StoredEvent.clashes sameAs

end

theorem sameAs_iff : sameAs row event = true ↔ row.id = event.id ∧ place row = place event := by
  simp [sameAs, place, and_assoc]

theorem not_clashes_iff : event.clashes row = false ↔ row.id ≠ event.id ∧ row.seq ≠ event.seq ∧ place row ≠ place event := by
  simp [StoredEvent.clashes, place, and_assoc]

theorem Unique.insert (unique : Unique log) (fresh : ∀ row ∈ log, event.clashes row = false) : Unique (log ++ [event]) := by
  constructor
  · apply Table.nodup_append_row unique.ids
    rintro inside
    obtain ⟨row, listed, same⟩ := List.mem_map.mp inside
    exact (not_clashes_iff.mp (fresh row listed)).1 same
  · apply Table.nodup_append_row unique.places
    rintro inside
    obtain ⟨row, listed, same⟩ := List.mem_map.mp inside
    exact (not_clashes_iff.mp (fresh row listed)).2.2 same
  · apply Table.nodup_append_row unique.seqs
    rintro inside
    obtain ⟨row, listed, same⟩ := List.mem_map.mp inside
    exact (not_clashes_iff.mp (fresh row listed)).2.1 same

theorem insertEvents_unique (events : List StoredEvent) : ∀ log, Unique log → Unique (log ++ insertEvents column log events) := by
  induction events with
  | nil =>
    intro log unique
    rw [insertEvents, List.append_nil]
    exact unique
  | cons event events ih =>
    intro log unique
    unfold insertEvents
    split
    · exact ih log unique
    · next fresh =>
      simp only [List.any_eq_true, not_exists, not_and, Bool.not_eq_true] at fresh
      rw [← List.singleton_append, ← List.append_assoc]
      exact ih _ (unique.insert fresh)

theorem mem_insertEvents (events : List StoredEvent) : ∀ log, row ∈ insertEvents column log events →
    ∃ event ∈ events, row = stored column event := by
  induction events with
  | nil =>
    intro log inside
    cases inside
  | cons event events ih =>
    intro log inside
    unfold insertEvents at inside
    split at inside
    · obtain ⟨other, listed, is⟩ := ih log inside
      exact ⟨other, List.mem_cons_of_mem _ listed, is⟩
    · rcases List.mem_cons.mp inside with rfl | later
      · exact ⟨event, List.mem_cons_self, rfl⟩
      · obtain ⟨other, listed, is⟩ := ih _ later
        exact ⟨other, List.mem_cons_of_mem _ listed, is⟩

theorem length_insertEvents_le (events : List StoredEvent) : ∀ log, (insertEvents column log events).length ≤ events.length := by
  induction events with
  | nil => exact fun _ => le_rfl
  | cons event events ih =>
    intro log
    unfold insertEvents
    split
    · exact (ih log).trans (Nat.le_succ _)
    · exact Nat.succ_le_succ (ih _)

theorem insertEvents_full (events : List StoredEvent) : ∀ log, (insertEvents column log events).length = events.length →
    insertEvents column log events = events.map (stored column) := by
  induction events with
  | nil => exact fun _ _ => rfl
  | cons event events ih =>
    intro log full
    unfold insertEvents at full ⊢
    split at full
    · have most := @length_insertEvents_le column events log
      rw [List.length_cons] at full
      omega
    · next fresh =>
      rw [if_neg fresh, ih _ (Nat.succ.inj full), List.map_cons]

theorem undo_eq (unique : Unique log) (events : List StoredEvent) :
    (Table.delete (log ++ insertEvents column log events) fun row =>
      (insertEvents column log events).any (·.id == row.id)) = log := by
  have apart := (@insertEvents_unique column events log unique).ids
  rw [List.map_append] at apart
  unfold Table.delete
  rw [List.filter_append, List.filter_eq_self.mpr, List.filter_eq_nil_iff.mpr, List.append_nil]
  · intro row inside
    simp only [Bool.not_eq_true', Bool.not_eq_false]
    exact List.any_eq_true.mpr ⟨row, inside, beq_self_eq_true row.id⟩
  · intro row inside
    simp only [Bool.not_eq_true', List.any_eq_false, beq_iff_eq]
    intro new listed same
    exact List.disjoint_of_nodup_append apart (List.mem_map_of_mem inside) (same ▸ List.mem_map_of_mem listed)

def Lands (column : String → String) (batch : AppendBatch) (log : List StoredEvent) : Prop :=
  (∀ row ∈ insertEvents column log batch.events, row.entityId = batch.entityId) ∧
    ∀ event ∈ batch.events, ∃ row ∈ log ++ insertEvents column log batch.events, sameAs row event = true

def AppendBatch.OneEntity (batch : AppendBatch) : Prop :=
  ∀ event ∈ batch.events, event.kind = batch.kind ∧ event.entityId = batch.entityId

theorem mismatch_none : (insertEvents column log batch.events).find? (·.entityId != batch.entityId) = none ↔
    ∀ row ∈ insertEvents column log batch.events, row.entityId = batch.entityId := by
  simp [List.find?_eq_none]

theorem found_iff {after : List StoredEvent} : (batch.events.all fun event =>
      (after.filter fun row => batch.events.any (·.id == row.id)).any (sameAs · event)) = true ↔
    ∀ event ∈ batch.events, ∃ row ∈ after, sameAs row event = true := by
  rw [List.all_eq_true]
  apply forall₂_congr
  intro event listed
  rw [List.any_eq_true]
  constructor
  · rintro ⟨row, inside, same⟩
    exact ⟨row, (List.mem_filter.mp inside).1, same⟩
  · rintro ⟨row, inside, same⟩
    refine ⟨row, List.mem_filter.mpr ⟨inside, List.any_eq_true.mpr ⟨event, listed, ?_⟩⟩, same⟩
    exact beq_iff_eq.mpr (sameAs_iff.mp same).1.symm

theorem appendOn_lands (lands : Lands column batch log) :
    appendOn column batch log = (log ++ insertEvents column log batch.events, .ok ()) := by
  unfold appendOn
  by_cases none_ : batch.events.isEmpty = true
  · rw [if_pos none_, List.isEmpty_iff.mp none_, insertEvents, List.append_nil]
  · rw [if_neg none_]
    dsimp only
    rw [mismatch_none.mpr lands.1]
    dsimp only
    rw [if_pos (found_iff.mpr lands.2), ite_self]

theorem full_lands (one : batch.OneEntity) (given : ∀ row ∈ insertEvents column log batch.events, row.entityId = batch.entityId)
    (full : (insertEvents column log batch.events).length = batch.events.length) : Lands column batch log := by
  refine ⟨given, fun event listed => ?_⟩
  have row : stored column event ∈ insertEvents column log batch.events := by
    rw [insertEvents_full batch.events log full]
    exact List.mem_map_of_mem listed
  -- the row has the id given, which is the event's own
  have own : column event.entityId = event.entityId := (given _ row).trans (one event listed).2.symm
  refine ⟨stored column event, List.mem_append_right _ row, sameAs_iff.mpr ⟨rfl, ?_⟩⟩
  show (event.kind, column event.entityId, event.version) = (event.kind, event.entityId, event.version)
  rw [own]

theorem appendOn_refuses (unique : Unique log) (one : batch.OneEntity) (refused : ¬ Lands column batch log) :
    ∃ error, (error.code = .conflict ∨ error.code = .idMismatch) ∧ appendOn column batch log = (log, .error error) := by
  unfold appendOn
  by_cases none_ : batch.events.isEmpty = true
  · refine absurd ⟨?_, ?_⟩ refused
    · rw [List.isEmpty_iff.mp none_]
      exact fun _ inside => absurd inside List.not_mem_nil
    · rw [List.isEmpty_iff.mp none_]
      exact fun _ inside => absurd inside List.not_mem_nil
  · rw [if_neg none_]
    dsimp only
    rw [undo_eq unique]
    cases mismatch : (insertEvents column log batch.events).find? (·.entityId != batch.entityId) with
    | some changed => exact ⟨_, .inr rfl, rfl⟩
    | none =>
      have given := mismatch_none.mp mismatch
      have missing : ¬ ∀ event ∈ batch.events, ∃ row ∈ log ++ insertEvents column log batch.events, sameAs row event = true :=
        fun all => refused ⟨given, all⟩
      have short : (insertEvents column log batch.events).length ≠ batch.events.length :=
        fun full => refused (full_lands one given full)
      dsimp only
      rw [if_neg short, if_neg (fun found => missing (found_iff.mp found))]
      exact ⟨_, .inl rfl, rfl⟩

def There (log : List StoredEvent) (event : StoredEvent) : Prop := ∃ row ∈ log, sameAs row event = true

def Fits (column : String → String) (log : List StoredEvent) (event : StoredEvent) : Prop :=
  column event.entityId = event.entityId ∧ ∀ row ∈ log, event.clashes row = false

def AppendBatch.Distinct (batch : AppendBatch) : Prop := batch.events.Pairwise fun first second => second.clashes first = false

theorem stored_clashes (own : column event.entityId = event.entityId) (other : StoredEvent) :
    (stored column event).clashes other = event.clashes other := by
  unfold StoredEvent.clashes stored StoredEvent.inStorage
  dsimp only
  rw [own]

theorem clashes_stored (own : column event.entityId = event.entityId) (other : StoredEvent) :
    other.clashes (stored column event) = other.clashes event := by
  unfold StoredEvent.clashes stored StoredEvent.inStorage
  dsimp only
  rw [own]

/-- Events that are there or fit are in the log after the insert, and the new ones keep their entity id. -/
theorem insertEvents_lands (events : List StoredEvent) : ∀ log, events.Pairwise (fun first second => second.clashes first = false) →
    (∀ event ∈ events, There log event ∨ Fits column log event) →
    (∀ event ∈ events, There (log ++ insertEvents column log events) event) ∧
      ∀ row ∈ insertEvents column log events, ∃ event ∈ events, row.entityId = event.entityId := by
  induction events with
  | nil => exact fun _ _ _ => ⟨nofun, nofun⟩
  | cons event events ih =>
    intro log apart able
    obtain ⟨first, rest⟩ := List.pairwise_cons.mp apart
    have later := fun other (listed : other ∈ events) => able other (List.mem_cons_of_mem _ listed)
    unfold insertEvents
    by_cases clash : log.any (stored column event).clashes = true
    · rw [if_pos clash]
      have there : There log event := by
        refine (able event List.mem_cons_self).resolve_right fun fits => ?_
        obtain ⟨row, inside, clashing⟩ := List.any_eq_true.mp clash
        rw [stored_clashes fits.1, fits.2 row inside] at clashing
        cases clashing
      obtain ⟨all, given⟩ := ih log rest later
      constructor
      · intro other listed
        rcases List.mem_cons.mp listed with rfl | listed
        · obtain ⟨row, inside, same⟩ := there
          exact ⟨row, List.mem_append_left _ inside, same⟩
        · exact all other listed
      · intro row inside
        obtain ⟨other, listed, same⟩ := given row inside
        exact ⟨other, List.mem_cons_of_mem _ listed, same⟩
    · rw [if_neg clash]
      have fits : Fits column log event := by
        refine (able event List.mem_cons_self).resolve_left fun there => clash ?_
        obtain ⟨row, inside, same⟩ := there
        refine List.any_eq_true.mpr ⟨row, inside, ?_⟩
        have sameId : event.id = row.id := (sameAs_iff.mp same).1.symm
        simp [StoredEvent.clashes, stored, StoredEvent.inStorage, sameId]
      have grown : ∀ other ∈ events, There (log ++ [stored column event]) other ∨ Fits column (log ++ [stored column event]) other := by
        intro other listed
        rcases later other listed with ⟨row, inside, same⟩ | ⟨own, free⟩
        · exact .inl ⟨row, List.mem_append_left _ inside, same⟩
        · refine .inr ⟨own, fun row inside => ?_⟩
          rcases List.mem_append.mp inside with before | new
          · exact free row before
          · rw [List.mem_singleton.mp new, clashes_stored fits.1]
            exact first other listed
      obtain ⟨all, given⟩ := ih _ rest grown
      rw [List.append_assoc, List.singleton_append] at all
      constructor
      · intro other listed
        rcases List.mem_cons.mp listed with rfl | listed
        · refine ⟨stored column other, List.mem_append_right _ List.mem_cons_self, sameAs_iff.mpr ⟨rfl, ?_⟩⟩
          show (other.kind, column other.entityId, other.version) = (other.kind, other.entityId, other.version)
          rw [fits.1]
        · exact all other listed
      · intro row inside
        rcases List.mem_cons.mp inside with rfl | inside
        · exact ⟨event, List.mem_cons_self, fits.1⟩
        · obtain ⟨other, listed, same⟩ := given row inside
          exact ⟨other, List.mem_cons_of_mem _ listed, same⟩

def orderBatch : AppendBatch :=
  ⟨"order", "o1", 0, [mailEvent, { mailEvent with seq := 2, id := "evt_2", version := 2 }]⟩

end Arki.Journal.BuiltInLog
