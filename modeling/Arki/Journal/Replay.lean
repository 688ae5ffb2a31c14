import Arki.Journal.Write

/-! Write and replay agree: after every write the log is whole, and the row that it builds from
nothing is the stored one, in every column that a reducer set.
-/

set_option autoImplicit false

namespace Arki.Journal

variable {Col : Type} {columns : Columns Col} {entity : EntityDef Col} {id : String}

/-! The log takes a write's events as they are. -/

theorem insertNew_kept (log events : List StoredEvent) : ∃ kept, List.Sublist kept events ∧
    insertNew log events = log ++ kept.map StoredEvent.inStorage := by
  induction events generalizing log with
  | nil => exact ⟨[], List.Sublist.refl _, by simp [insertNew]⟩
  | cons event rest ih =>
    rw [insertNew]
    split
    · obtain ⟨kept, part, same⟩ := ih log
      exact ⟨kept, part.cons event, same⟩
    · obtain ⟨kept, part, same⟩ := ih (log ++ [event.inStorage])
      exact ⟨event :: kept, part.cons_cons event, by simp [same]⟩

variable {kind : String} {events : List StoredEvent} {filled : Col → Value} {want : Row Col}

/-- Events numbered after the log's last are new: the append takes all of them, or it is a conflict. -/
theorem appendOn_ok {base : Nat} {log next : List StoredEvent}
    (old : ∀ row ∈ log, row.version ≤ base) (numbered : Batches.Numbered StoredEvent.version base events)
    (appended : appendOn kind id base events log = .ok next) : next = log ++ events.map StoredEvent.inStorage := by
  obtain ⟨kept, part, same⟩ := insertNew_kept log events
  suffices whole : events.length ≤ kept.length by
    have all := part.eq_of_length_le whole
    simp only [appendOn, same, all] at appended
    split at appended
    · cases appended
      rfl
    · split at appended
      · cases appended
        rfl
      · cases appended
  simp only [appendOn, same] at appended
  split at appended
  next full =>
    simp only [List.length_append, List.length_map] at full
    omega
  next short =>
    split at appended
    next repeated =>
      -- each event stands among the rows with its own version, and no old row has that
      have distinct : (events.map StoredEvent.version).Nodup := by
        rw [numbered]
        exact List.nodup_range'
      have among : events.map StoredEvent.version ⊆ kept.map StoredEvent.version := by
        intro version member
        obtain ⟨event, inside, rfl⟩ := List.mem_map.mp member
        obtain ⟨row, found, is⟩ := List.any_eq_true.mp (List.all_eq_true.mp repeated event inside)
        simp only [Bool.and_eq_true, beq_iff_eq] at is
        rcases List.mem_append.mp found with before | now
        · have := old row before
          have := numbered.bounds inside
          omega
        · obtain ⟨stored, kept_, rfl⟩ := List.mem_map.mp now
          exact List.mem_map.mpr ⟨stored, kept_, is.2⟩
      simpa using (List.subperm_of_subset distinct among).length_le
    · cases appended

theorem sortedByVersion_eq {base : Nat} {rows : List StoredEvent}
    (numbered : Batches.Numbered StoredEvent.version base rows) : sortedByVersion rows = rows := by
  have increasing : Ordered.Increasing StoredEvent.version rows := by
    apply List.pairwise_map.mp
    rw [numbered]
    exact List.pairwise_lt_range'
  exact (increasing.eq_inOrder (List.Perm.refl rows)).symm

/-! What a write has checked is read back. -/

def Passed (parse : Value → Except String Value) (value : Value) : Prop :=
  ∃ input stored again, parse input = .ok value ∧ value.throughJson = some stored ∧ parse stored = .ok again ∧
    Value.sameJson again value = true

structure Checked (entity : EntityDef Col) (row : StoredEvent) : Prop where
  declared : ∃ definition, entity.events row.type = some definition ∧ row.schemaVersion = definition.version ∧
    Passed definition.parse row.data
  stamped : Passed entity.parseMeta row.stamped

theorem validated_passed {parse : Value → Except String Value} {what : String} {input value : Value}
    (passed : validated parse kind id what input = .ok value) : Passed parse value := by
  simp only [validated] at passed
  split at passed
  · cases passed
  next given parsed =>
    split at passed
    · cases passed
    next held =>
      cases passed
      simp only [assertRoundTrips] at held
      split at held
      · cases held
      · cases held
      next stored _ through =>
        split at held
        · cases held
        next again reparsed =>
          split at held
          next same => exact ⟨input, stored, again, parsed, through, reparsed, same⟩
          · cases held

theorem validateEvents_checked {stamped : Value} (meta_ : Passed entity.parseMeta stamped) {version : Nat}
    {drafts : List StoredEvent} (passed : validateEvents entity id stamped version drafts = .ok events) :
    ∀ event ∈ events, Checked entity event := by
  induction drafts generalizing version events with
  | nil =>
    cases passed
    simp
  | cons draft rest ih =>
    simp only [validateEvents] at passed
    split at passed
    · cases passed
    next definition declared =>
      split at passed
      · cases passed
      next data parsed =>
        split at passed
        · cases passed
        next others following =>
          cases passed
          intro event member
          rcases List.mem_cons.mp member with rfl | later
          · exact ⟨⟨definition, declared, rfl, validated_passed parsed⟩, meta_⟩
          · exact ih following event later

theorem numberEvents_checked (key : EntityKey) (base : Nat) {drafts : List StoredEvent}
    (checked : ∀ draft ∈ drafts, Checked entity draft) : ∀ row ∈ numberEvents key base drafts, Checked entity row := by
  intro row member
  obtain ⟨i, inside, rfl⟩ := List.getElem_of_mem member
  simp only [numberEvents, List.length_mapIdx] at inside
  obtain ⟨declared, stamped⟩ := checked _ (List.getElem_mem inside)
  simp only [numberEvents, List.getElem_mapIdx]
  exact ⟨declared, stamped⟩

theorem Passed.twice {parse : Value → Except String Value} {value : Value} (passed : Passed parse value)
    (reads : ReadsItsOutput parse) : ∃ again next, parse (value.throughJson.getD .null) = .ok again ∧
      parse value = .ok next ∧ ReadSame again next := by
  obtain ⟨input, stored, again, parsed, through, reparsed, same⟩ := passed
  obtain ⟨next, twice, same'⟩ := reads input value stored again parsed through reparsed same
  exact ⟨again, next, by simpa [through] using reparsed, twice, value, same, same'⟩

/-- The stored row and the row that the write still has in memory decode to the same event. -/
theorem Checked.decode (steady : entity.Steady) {row : StoredEvent} (checked : Checked entity row) :
    ∃ past event, decodeStoredEvent entity row.inStorage = .ok past ∧ decodeStoredEvent entity row = .ok event ∧
      Twins past event ∧ event.version = row.version := by
  obtain ⟨⟨definition, declared, current, passed⟩, stamped⟩ := checked
  obtain ⟨again, next, stored, memory, same⟩ := passed.twice (steady.schemas _ _ declared)
  obtain ⟨again', next', stored', memory', same'⟩ := stamped.twice steady.metaSchema
  refine ⟨{ row with data := again, stamped := again' }, { row with data := next, stamped := next' }, ?_, ?_,
    ⟨same, same', rfl⟩, rfl⟩
  · simp [decodeStoredEvent, StoredEvent.inStorage, declared, upcast, current, EventDef.lift, stored, stored']
  · simp [decodeStoredEvent, declared, upcast, current, EventDef.lift, memory, memory']

theorem decodeHistory_checked (steady : entity.Steady) {rows : List StoredEvent}
    (checked : ∀ row ∈ rows, Checked entity row) : ∃ pasts events,
      decodeHistory entity (rows.map StoredEvent.inStorage) = .ok pasts ∧ decodeHistory entity rows = .ok events ∧
      List.Forall₂ Twins pasts events ∧ events.map StoredEvent.version = rows.map StoredEvent.version := by
  induction rows with
  | nil => exact ⟨[], [], rfl, rfl, List.Forall₂.nil, rfl⟩
  | cons row rest ih =>
    obtain ⟨past, event, stored, memory, twins, version⟩ := (checked row List.mem_cons_self).decode steady
    obtain ⟨pasts, events, stored', memory', twins', versions⟩ := ih fun other later => checked other (List.mem_cons_of_mem _ later)
    refine ⟨past :: pasts, event :: events, ?_, ?_, twins'.cons twins, ?_⟩
    · simp [decodeHistory, stored, stored']
    · simp [decodeHistory, memory, memory']
    · simp [version, versions]

theorem twins_versions {pasts : List StoredEvent} (twins : List.Forall₂ Twins pasts events) :
    pasts.map StoredEvent.version = events.map StoredEvent.version := by
  induction twins with
  | nil => rfl
  | @cons past event _ _ same _ ih =>
    have : event.version = past.version := by rw [same.rest]
    simp [ih, this]

theorem decodeHistory_append {first rest pasts : List StoredEvent} (before : decodeHistory entity first = .ok pasts)
    (after : decodeHistory entity rest = .ok events) : decodeHistory entity (first ++ rest) = .ok (pasts ++ events) := by
  induction first generalizing pasts with
  | nil =>
    cases before
    exact after
  | cons row tail ih =>
    simp only [decodeHistory] at before
    split at before
    · cases before
    next event decoded =>
      split at before
      · cases before
      next others following =>
        cases before
        simp [decodeHistory, decoded, ih following]

/-! The invariant. -/

/-- `history` is the decoded log and `replay` the fold of it from nothing. -/
structure StateInv (columns : Columns Col) (entity : EntityDef Col) (id : String) (state : EntityState Col)
    (history : List StoredEvent) (replay : Folding Col) : Prop where
  numbered : Batches.Numbered StoredEvent.version 0 state.log
  decoded : decodeHistory entity state.log = .ok history
  versions : history.map StoredEvent.version = state.log.map StoredEvent.version
  replayed : foldEvents entity .replay id (.start none) history = .ok replay
  alive : replay.state.isSome = state.row.isSome
  row : ∀ row ∈ state.row, row.id = id ∧ row.version = state.log.length
  same : ∀ row ∈ state.row, ∀ values ∈ replay.state, ∀ column, values column ≠ .undefined →
    Value.sameValue (values column) (row.values column) = true ∧
    columns.store column (row.values column) = row.values column

theorem stateInv_start : StateInv columns entity id .start [] (.start none) := by
  constructor <;> simp [EntityState.start, Batches.Numbered, decodeHistory, foldEvents, Folding.start]

variable {state next : EntityState Col} {history : List StoredEvent} {replay : Folding Col}

def foldedRow (id : String) (start : Option (Row Col)) (events : List StoredEvent) (folding : Folding Col) :
    Option (Row Col) := folding.state.map fun values => ⟨id, foldedVersion start events, values⟩

theorem fold_ok {mode : FoldMode} {start : Option (Row Col)} {folded : Folded Col}
    (ran : fold entity start id events mode = .ok folded) : ∃ folding,
      foldEvents entity mode id (.start start) events = .ok folding ∧
      folded.row = foldedRow id start events folding ∧
      (folded.row.isSome = true → folded.recreated = folding.deleted) ∧
      folded.reducerColumns = folding.reducerColumns := by
  simp only [fold] at ran
  split at ran
  · cases ran
  next folding through =>
    refine ⟨folding, through, ?_⟩
    split at ran
    next gone =>
      cases ran
      simp [foldedRow, gone]
    next values alive =>
      cases ran
      simp [foldedRow, alive]

theorem fold_replay {folding : Folding Col}
    (ran : foldEvents entity .replay id (.start none) events = .ok folding) : ∃ folded,
      fold entity none id events .replay = .ok folded ∧
      folded.row = foldedRow id none events folding := by
  simp only [fold, ran]
  cases alive : folding.state with
  | none => exact ⟨_, rfl, by simp [foldedRow, alive]⟩
  | some values => exact ⟨_, rfl, by simp [foldedRow, alive]⟩

theorem foldedVersion_eq {start : Option (Row Col)} {base : Nat} (filled : events ≠ [])
    (numbered : Batches.Numbered StoredEvent.version base events) : foldedVersion start events = base + events.length := by
  cases last : events.getLast? with
  | none => exact absurd (List.getLast?_eq_none_iff.mp last) filled
  | some event => simpa [foldedVersion, last] using numbered.last last

theorem StateInv.beside (inv : StateInv columns entity id state history replay) :
    Beside replay.state (state.row.map (·.values)) replay (.start state.row) := by
  constructor
  · simpa [Folding.start] using inv.alive
  · intro values here stored there column some_
    obtain ⟨row, found, rfl⟩ := Option.map_eq_some_iff.mp there
    exact Or.inr (inv.same row found values here column some_).1
  · intro values here stored there column some_
    right
    exact ⟨rfl, values, here, stored, there, rfl, rfl⟩
  · intro values _ column set
    cases set

@[simp]
theorem put_version {row : Option (Row Col)} {recreated : Bool} :
    (columns.put filled row recreated want).version = want.version := by
  cases row <;> cases recreated <;> rfl

theorem put_set {row : Option (Row Col)} {recreated : Bool} {column : Col}
    (set : want.values column ≠ .undefined) :
    (columns.put filled row recreated want).values column = columns.store column (want.values column) := by
  cases row <;> cases recreated <;> simp [Columns.put, Columns.insert, Columns.update, set]

theorem assertSaved_ok {marks : Col → Bool} {saved : Row Col}
    (held : assertSaved columns kind id marks want saved = .ok ()) : saved.id = id ∧
      ∀ column, marks column = true → Value.sameValue (want.values column) (saved.values column) = true := by
  simp only [assertSaved] at held
  split at held
  · cases held
  next same =>
    refine ⟨not_not.mp same, ?_⟩
    split at held
    next all =>
      intro column set
      simpa [set] using List.find?_eq_none.mp all column (columns.complete column)
    · cases held

theorem save_ok {row saved : Option (Row Col)} {folded : Folded Col}
    (ran : save columns kind id filled row folded = .ok saved) :
    saved = folded.row.map (columns.put filled row folded.recreated) ∧ ∀ want ∈ folded.row,
      (columns.put filled row folded.recreated want).id = id ∧ ∀ column, folded.reducerColumns column = true →
        Value.sameValue (want.values column) ((columns.put filled row folded.recreated want).values column) = true := by
  simp only [save] at ran
  split at ran
  next gone =>
    cases ran
    simp [gone]
  next want some_ =>
    split at ran
    · cases ran
    next held =>
      cases ran
      refine ⟨by simp [some_], ?_⟩
      intro _ is
      cases some_.symm.trans is
      exact assertSaved_ok held

/-- A column that this write set was compared with what was stored. One that it did not set is written
back as it was read. -/
theorem StateInv.same_saved (inv : StateInv columns entity id state history replay) {after folding : Folding Col}
    (beside : Beside replay.state (state.row.map (·.values)) after folding)
    (alive : folding.state = some want.values) {recreated : Bool}
    (held : ∀ column, folding.reducerColumns column = true →
      Value.sameValue (want.values column) ((columns.put filled state.row recreated want).values column) = true) :
    ∀ values ∈ after.state, ∀ column, values column ≠ .undefined →
      Value.sameValue (values column) ((columns.put filled state.row recreated want).values column) = true ∧
      columns.store column ((columns.put filled state.row recreated want).values column) =
        (columns.put filled state.row recreated want).values column := by
  intro values here column set
  have alike := beside.agrees values here _ alive column set
  rcases beside.kept values here _ alive column set with marked | ⟨_, old, before, kept, stored, was, is⟩
  · refine ⟨alike.same (held column marked), ?_⟩
    rw [put_set (alike.defined set), columns.stable]
  · obtain ⟨row, found, rfl⟩ := Option.map_eq_some_iff.mp stored
    obtain ⟨same, stays⟩ := inv.same row found old before column (was ▸ set)
    rw [put_set (alike.defined set), ← is, stays, ← was]
    exact ⟨same, stays⟩

@[simp]
theorem inStorage_versions (rows : List StoredEvent) :
    (rows.map StoredEvent.inStorage).map StoredEvent.version = rows.map StoredEvent.version := by
  simp [Function.comp_def, StoredEvent.inStorage]

/-- The part of a write that stores: the events of the batch have been checked, and follow the log. -/
theorem StateInv.store (steady : entity.Steady) (inv : StateInv columns entity id state history replay) (some_ : events ≠ [])
    (checked : ∀ event ∈ events, Checked entity event)
    (ran : store columns entity id state filled state.log.length events = .ok next) :
    ∃ history' replay', StateInv columns entity id next history' replay' := by
  simp only [Arki.Journal.store] at ran
  split at ran
  · cases ran
  next log appended =>
    have numbered := numberEvents_numbered ⟨entity.kind, id⟩ state.log.length events
    obtain ⟨pasts, recorded, stored, memory, twins, versions⟩ := decodeHistory_checked steady
      (numberEvents_checked ⟨entity.kind, id⟩ state.log.length checked)
    have whole := appendOn_ok (fun row member => by simpa using (inv.numbered.bounds member).2) numbered appended
    rw [sortedByVersion_eq numbered, memory] at ran
    simp only at ran
    split at ran
    · cases ran
    next folded folds =>
      split at ran
      · cases ran
      next saved saves =>
        cases ran
        obtain ⟨folding, through, gives, recreated, marks⟩ := fold_ok folds
        obtain ⟨after, replayed, beside⟩ := inv.beside.events steady twins inv.replayed through
        have count : Batches.Numbered StoredEvent.version state.log.length recorded := by
          have size : recorded.length = events.length := by simpa [numberEvents] using congrArg List.length versions
          rw [Batches.Numbered, versions, size]
          simpa [numberEvents, Batches.Numbered] using numbered
        have filled_ : recorded ≠ [] := by
          rintro rfl
          simp [numberEvents, some_] at versions
        obtain ⟨place, held⟩ := save_ok saves
        refine ⟨history ++ pasts, after, ?_, ?_, ?_, replayed, ?_, ?_, ?_⟩
        · rw [whole]
          apply Batches.numbered_append.mpr
          refine ⟨inv.numbered, ?_⟩
          rw [Batches.Numbered, inStorage_versions, Nat.zero_add, List.length_map]
          exact numbered
        · rw [whole]
          exact decodeHistory_append inv.decoded stored
        · rw [whole, List.map_append, List.map_append, inv.versions, inStorage_versions, twins_versions twins, versions]
        · rw [beside.alive, place, gives]
          simp [foldedRow]
        · intro row found
          simp only [place, Option.mem_def, Option.map_eq_some_iff] at found
          obtain ⟨want, built, rfl⟩ := found
          refine ⟨(held want built).1, ?_⟩
          rw [gives, foldedRow, Option.map_eq_some_iff] at built
          obtain ⟨values, _, rfl⟩ := built
          rw [put_version, foldedVersion_eq filled_ count, whole]
          simpa using congrArg List.length versions
        · intro row found
          simp only [place, Option.mem_def, Option.map_eq_some_iff] at found
          obtain ⟨want, built, rfl⟩ := found
          have kept := (held want built).2
          rw [marks] at kept
          rw [gives, foldedRow, Option.map_eq_some_iff] at built
          obtain ⟨values, alive, rfl⟩ := built
          exact inv.same_saved beside alive kept

theorem StateInv.positive (inv : StateInv columns entity id state history replay) {row : Row Col}
    (found : row ∈ state.row) : 0 < row.version := by
  rw [(inv.row row found).2]
  by_contra empty
  have none_ : state.log = [] := List.length_eq_zero_iff.mp (by omega)
  have decoded := inv.decoded
  rw [none_] at decoded
  cases decoded
  have replayed := inv.replayed
  cases replayed
  have alive := inv.alive
  simp [Folding.start, Option.mem_def.mp found] at alive

theorem StateInv.log_top (inv : StateInv columns entity id state history replay) :
    highestVersion state.log = state.log.length := inv.numbered.top

theorem StateInv.base (inv : StateInv columns entity id state history replay) :
    baseVersion state.row state.latestLogVersion = state.log.length := by
  cases found : state.row with
  | none => simp [baseVersion, EntityState.latestLogVersion, found, inv.log_top]
  | some row =>
    have := inv.positive found
    have := (inv.row row found).2
    simp only [baseVersion]
    rw [if_neg (by omega), this]

theorem validateEvents_filled {stamped : Value} {version : Nat} {drafts : List StoredEvent}
    (passed : validateEvents entity id stamped version drafts = .ok events) : events.length = drafts.length := by
  induction drafts generalizing version events with
  | nil =>
    cases passed
    rfl
  | cons draft rest ih =>
    simp only [validateEvents] at passed
    split at passed
    · cases passed
    split at passed
    · cases passed
    split at passed
    · cases passed
    next following =>
      cases passed
      simp [ih following]

theorem StateInv.write (steady : entity.Steady) (inv : StateInv columns entity id state history replay)
    {call : WriteCall Col} (ran : write columns entity id state call = .ok next) :
    ∃ history' replay', StateInv columns entity id next history' replay' := by
  simp only [Arki.Journal.write] at ran
  split at ran
  · cases ran
  next stamped meta_ =>
    split at ran
    · cases ran
    split at ran
    · cases ran
      exact ⟨history, replay, inv⟩
    next filled =>
      split at ran
      · cases ran
      split at ran
      · cases ran
      next events checked =>
        split at ran
        · cases ran
        have some_ : events ≠ [] := by
          rintro rfl
          have length := validateEvents_filled checked
          rw [List.isEmpty_iff] at filled
          exact filled (List.length_eq_zero_iff.mp length.symm)
        rw [inv.base] at ran
        exact inv.store steady some_ (validateEvents_checked (validated_passed meta_) checked) ran

theorem stateInv_step (steady : entity.Steady) (inv : ∃ history replay, StateInv columns entity id state history replay)
    {call : WriteCall Col} (taken : state.step columns entity id call = some next) :
    ∃ history replay, StateInv columns entity id next history replay := by
  obtain ⟨history, replay, inv⟩ := inv
  simp only [EntityState.step] at taken
  split at taken
  next written =>
    cases taken
    exact inv.write steady written
  · cases taken
    exact ⟨history, replay, inv⟩

/-! What the history verbs answer. -/

theorem assertNoHoles_ok {index : Nat} {rows : List StoredEvent}
    (numbered : Batches.Numbered StoredEvent.version index rows) : assertNoHoles kind id index rows = .ok () := by
  induction rows generalizing index with
  | nil => rfl
  | cons row rest ih =>
    obtain ⟨first, others⟩ := Batches.numbered_cons.mp numbered
    simp [assertNoHoles, first, ih others]

theorem StateInv.version (inv : StateInv columns entity id state history replay) (alive : replay.state.isSome = true) :
    foldedVersion (none : Option (Row Col)) history = state.log.length := by
  have length : history.length = state.log.length := by simpa using congrArg List.length inv.versions
  have numbered : Batches.Numbered StoredEvent.version 0 history := by
    rw [Batches.Numbered, inv.versions, length]
    exact inv.numbered
  have filled : history ≠ [] := by
    rintro rfl
    cases inv.replayed
    simp [Folding.start] at alive
  rw [foldedVersion_eq filled numbered, length, Nat.zero_add]

theorem StateInv.replayFrom (inv : StateInv columns entity id state history replay) {folded : Folded Col}
    (ran : fold entity none id history .replay = .ok folded) : replayFrom entity id state = .ok folded.row := by
  have whole := inv.numbered
  have ahead : assertRowNotAhead entity.kind id folded.row ((state.log.getLast?.map (·.version)).getD 0) state.row =
      .ok () := by
    cases found : state.row with
    | none => cases folded.row <;> rfl
    | some row =>
      have top := (inv.row row found).2
      cases last : state.log.getLast? with
      | none =>
        have := inv.positive found
        simp [top, List.getLast?_eq_none_iff.mp last] at this
      | some event =>
        have reaches := whole.last last
        cases folded.row <;> simp [assertRowNotAhead, top, reaches]
  have kept : (state.log.isEmpty && state.row.isSome) = false := by
    cases found : state.row with
    | none => simp
    | some row =>
      have := inv.positive found
      rw [(inv.row row found).2] at this
      simpa using List.length_pos_iff.mp this
  have begins : (!state.log.isEmpty && (state.log.head?.map (·.version)).getD 0 != 1) = false := by
    cases log : state.log with
    | nil => rfl
    | cons row rest =>
      rw [log] at whole
      simp [(Batches.numbered_cons.mp whole).1]
  simp [Arki.Journal.replayFrom, sortedByVersion_eq whole, kept, begins, assertNoHoles_ok whole, inv.decoded, ran, ahead]

theorem StateInv.verify (inv : StateInv columns entity id state history replay) :
    verify columns entity id state = .ok true := by
  obtain ⟨folded, ran, row⟩ := fold_replay inv.replayed
  simp only [Arki.Journal.verify, inv.replayFrom ran, row]
  have alive := inv.alive
  cases here : replay.state with
  | none =>
    rw [here, Option.isSome_none] at alive
    cases found : state.row with
    | none => simp [foldedRow, here]
    | some row => simp [found] at alive
  | some values =>
    have version := inv.version (by simp [here])
    cases found : state.row with
    | none => simp [here, found] at alive
    | some row =>
      obtain ⟨key, top⟩ := inv.row row found
      have same : ∀ column ∈ columns.names, ((values column).isUndefined ||
          Value.sameValue (values column) (row.values column)) = true := by
        intro column _
        by_cases gone : values column = .undefined
        · simp [gone, Value.isUndefined]
        · simp [(inv.same row found values here column gone).1]
      simp only [foldedRow, here, Option.map_some, key, version, top, beq_self_eq_true, Bool.true_and, Except.ok.injEq]
      exact List.all_eq_true.mpr same

/-- After every write the log is whole, the row stands at its end, and the log builds that row. -/
theorem write_replay_agree (steady : entity.Steady)
    (reached : Run.Reach (EntityState.step columns entity id) Run.always .start state) :
    Batches.Numbered StoredEvent.version 0 state.log ∧ (∀ row ∈ state.row, row.id = id ∧ row.version = state.log.length) ∧
    (∃ history folded, decodeHistory entity state.log = .ok history ∧
      fold entity none id history .replay = .ok folded ∧ replayFrom entity id state = .ok folded.row ∧
      (state.row = none ↔ folded.row = none) ∧ ∀ want ∈ folded.row, ∀ row ∈ state.row, ∀ column,
        folded.reducerColumns column = true → Value.sameValue (want.values column) (row.values column) = true) ∧
    verify columns entity id state = .ok true := by
  obtain ⟨history, replay, inv⟩ := reached.invariant (fun state => ∃ history replay,
    StateInv columns entity id state history replay) ⟨[], _, stateInv_start⟩
    fun _ _ _ inv _ taken => stateInv_step steady inv taken
  obtain ⟨folded, ran, row⟩ := fold_replay inv.replayed
  obtain ⟨replay', through, _, _, marks⟩ := fold_ok ran
  cases inv.replayed.symm.trans through
  refine ⟨inv.numbered, inv.row, ⟨history, folded, inv.decoded, ran, inv.replayFrom ran, ?_, ?_⟩, inv.verify⟩
  · rw [row, foldedRow, Option.map_eq_none_iff, ← Option.isNone_iff_eq_none, ← Option.isNone_iff_eq_none,
      ← Option.isSome_eq_false_iff, ← Option.isSome_eq_false_iff, inv.alive]
  · intro want built stored found column set
    rw [row, foldedRow, Option.mem_def, Option.map_eq_some_iff] at built
    obtain ⟨values, here, rfl⟩ := built
    refine (inv.same stored found values here column ?_).1
    exact foldEvents_marks (by simp [Folding.start]) inv.replayed values here column (marks ▸ set)

/-! A lamp. Its `installed` sets `lit` to what `fresh` makes of the event's data, or leaves it to the database. -/

inductive LampColumn where
  | lit
  | note
  deriving DecidableEq

/-- `z.object({})`, strict. -/
def parseEmpty : Value → Except String Value
  | .object [] => .ok (.object [])
  | _ => .error "expected an empty object"

/-- `!value`, for what a boolean column can hold. -/
def negate : Value → Value
  | .boolean value => .boolean !value
  | _ => .boolean true

def lampReducers (fresh : Value → Value) : String → Option (Reducers LampColumn)
  | "installed" => some ⟨some fun event column => if column = .lit then fresh event.data else .undefined, none⟩
  | "switched" => some ⟨none, some fun row _ =>
      some fun column => if column = .lit then negate (row.values .lit) else .undefined⟩
  | "removed" => some ⟨none, some fun _ _ => none⟩
  | _ => none

def lamp (parse : Value → Except String Value) (fresh : Value → Value) : EntityDef LampColumn where
  kind := "lamp"
  events := fun _ => some ⟨1, parse, []⟩
  reducers := lampReducers fresh
  parseMeta := parseEmpty

def lampColumns : Columns LampColumn where
  names := [.lit, .note]
  title := fun column => if column = .lit then "lit" else "note"
  complete := by rintro (_ | _) <;> simp
  store := fun _ value => value
  stable := fun _ _ => rfl
  storeId := fun id => id

def lampEvent (id : String) (seq : Nat) (type : String) (data : Value) : StoredEvent where
  seq := seq
  id := id
  kind := "lamp"
  entityId := "l1"
  version := 0
  type := type
  data := data
  stamped := .null
  recordedAt := seq
  commandId := none
  causeSeq := none
  correlationId := none
  erasedAt := none
  schemaVersion := 1

/-- The table's defaults: a lamp that is lit, and the text `new`. -/
def lampWrite (drafts : List StoredEvent) : WriteCall LampColumn :=
  ⟨none, .object [], drafts, fun column => if column = .lit then .boolean true else .string "new"⟩

theorem parseEmpty_reads : ReadsItsOutput parseEmpty := by
  intro input value stored again parsed _ _ _
  have empty : value = .object [] := by
    unfold parseEmpty at parsed
    split at parsed
    · cases parsed
      rfl
    · cases parsed
  subst empty
  exact ⟨.object [], rfl, rfl⟩

theorem lamp_lit {mode : FoldMode} {history : List StoredEvent} {folding next : Folding LampColumn}
    (lit : ∀ values ∈ folding.state, ∃ flag, values .lit = .boolean flag)
    (ran : foldEvents (lamp parseEmpty fun _ => .boolean false) mode id folding history = .ok next) :
    ∀ values ∈ next.state, ∃ flag, values .lit = .boolean flag := by
  induction history generalizing folding with
  | nil =>
    cases ran
    exact lit
  | cons event rest ih =>
    simp only [foldEvents] at ran
    split at ran
    · cases ran
    next middle one =>
      apply ih _ ran
      obtain ⟨reducers, found, branch⟩ := foldOne_ok one
      simp only [lamp, lampReducers] at found
      split at found <;> cases found
      · obtain ⟨_, _, _, missing, _⟩ | ⟨create, _, is, rfl⟩ := branch
        · cases missing
        · cases is
          rintro _ ⟨⟩
          exact ⟨false, rfl⟩
      · obtain ⟨values, on, alive, is, branch⟩ | ⟨_, _, missing, _⟩ := branch
        · cases is
          obtain ⟨gone, _⟩ | ⟨patch, is, rfl⟩ := branch
          · cases gone
          · cases is
            obtain ⟨flag, was⟩ := lit values alive
            rintro _ ⟨⟩
            exact ⟨!flag, by simp [merge, was, negate, Value.isUndefined]⟩
        · cases missing
      · obtain ⟨values, on, _, is, branch⟩ | ⟨_, _, missing, _⟩ := branch
        · cases is
          obtain ⟨_, rfl⟩ | ⟨_, is, _⟩ := branch
          · simp
          · cases is
        · cases missing

theorem lamp_steady : (lamp parseEmpty fun _ => .boolean false).Steady := by
  constructor
  · rintro type definition ⟨⟩
    exact parseEmpty_reads
  · exact parseEmpty_reads
  · intro type reducers create found has left right _
    simp only [lamp, lampReducers] at found
    split at found <;> cases found <;> cases has
    exact fun column => ⟨Iff.rfl, .refl _⟩
  · intro type reducers on found has id history folding replayed ran alive stored agrees left right _ version
    simp only [lamp, lampReducers] at found
    split at found <;> cases found <;> cases has
    · obtain ⟨flag, was⟩ := lamp_lit (by simp [Folding.start]) ran replayed alive
      have is : stored .lit = .boolean flag := by
        rcases agrees .lit (by simp [was]) with same | same
        · exact same.symm.trans was
        · rw [was] at same
          exact ((Value.equal_iff _ _).mp (by simpa [Value.sameValue] using same)).symm
      intro column
      simp only [was, is, true_and]
      exact .refl _
    · trivial

theorem write_replay_agree_lamp : ∃ state,
    Run.run (EntityState.step lampColumns (lamp parseEmpty fun _ => .boolean false) "l1") .start
      [lampWrite [lampEvent "e1" 1 "installed" (.object []), lampEvent "e2" 2 "switched" (.object [])],
        lampWrite [lampEvent "e3" 3 "removed" (.object []), lampEvent "e4" 4 "installed" (.object [])],
        lampWrite [lampEvent "e5" 5 "switched" (.object [])]] = some state ∧
    state.row.map (fun row => (row.version, row.values .lit, row.values .note)) =
      some (5, .boolean true, .string "new") ∧
    verify lampColumns (lamp parseEmpty fun _ => .boolean false) "l1" state = .ok true := by
  have ends : (Run.run (EntityState.step lampColumns (lamp parseEmpty fun _ => .boolean false) "l1") .start
      [lampWrite [lampEvent "e1" 1 "installed" (.object []), lampEvent "e2" 2 "switched" (.object [])],
        lampWrite [lampEvent "e3" 3 "removed" (.object []), lampEvent "e4" 4 "installed" (.object [])],
        lampWrite [lampEvent "e5" 5 "switched" (.object [])]]).map (fun state =>
      state.row.map fun row => (row.version, row.values .lit, row.values .note)) =
      some (some (5, .boolean true, .string "new")) := by
    decide +kernel
  obtain ⟨state, ran, row⟩ := Option.map_eq_some_iff.mp ends
  exact ⟨state, ran, row, (write_replay_agree lamp_steady (Run.Reach.of_run ran)).2.2.2⟩

/-- A strict schema with an optional `note`, which keeps a key that holds `undefined`. -/
def parseNote : Value → Except String Value
  | .object [] => .ok (.object [])
  | .object [("note", .undefined)] => .ok (.object [("note", .undefined)])
  | _ => .error "expected an optional note"

/-- A schema that gives a `note` of `undefined`, and reads one as another value. -/
def parseFilling : Value → Except String Value
  | .object [] => .ok (.object [])
  | .object [("note", .undefined)] => .ok (.object [("note", .boolean true)])
  | _ => .ok (.object [("note", .undefined)])

/-- `'note' in data`. -/
def hasNote : Value → Value
  | .object entries => .boolean (entries.any (·.1 == "note"))
  | _ => .boolean false

/-- Where an entity breaks a rule, a run of writes ends with a row that its log does not build: a
reducer reads a column that only the database set, a reducer tells an absent key from one that holds
`undefined`, and a schema does not read its own output as it is. -/
theorem unsteady_diverges :
    (Run.run (EntityState.step lampColumns (lamp parseEmpty fun _ => .undefined) "l1") .start
      [lampWrite [lampEvent "e1" 1 "installed" (.object [])],
        lampWrite [lampEvent "e2" 2 "switched" (.object [])]]).map
      (verify lampColumns (lamp parseEmpty fun _ => .undefined) "l1") = some (.ok false) ∧
    (Run.run (EntityState.step lampColumns (lamp parseNote hasNote) "l1") .start
      [lampWrite [lampEvent "e1" 1 "installed" (.object [("note", .undefined)])]]).map
      (verify lampColumns (lamp parseNote hasNote) "l1") = some (.ok false) ∧
    (Run.run (EntityState.step lampColumns (lamp parseFilling hasNote) "l1") .start
      [lampWrite [lampEvent "e1" 1 "installed" .null]]).map
      (verify lampColumns (lamp parseFilling hasNote) "l1") = some (.ok false) := by
  refine ⟨?_, ?_, ?_⟩ <;> decide +kernel

end Arki.Journal
