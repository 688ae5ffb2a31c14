import Arki.Journal.Fold
import Arki.Journal.Forward
import Arki.Library.Ordered

/-! `journal.write` on an entity whose log shares the row's transaction, and the replay that reads
the log back.

The append lock lets one write run at a time, so a write is one step. The loaded row is locked: the
version guards of its update and its delete hold. The id has passed `assertExactId`.
-/

set_option autoImplicit false

namespace Arki.Journal

variable {Col : Type}

/-- What the database does to a column's value: the driver's encoding, the column's type and back. -/
structure Columns (Col : Type) where
  names : List Col
  title : Col → String
  complete : ∀ column, column ∈ names
  store : Col → Value → Value
  stable : ∀ column value, store column (store column value) = store column value
  storeId : String → String

structure EntityState (Col : Type) where
  log : List StoredEvent
  row : Option (Row Col)

def EntityState.start : EntityState Col := ⟨[], none⟩

inductive WriteRefusal where
  | journal (error : JournalError)
  | schema (message : String)
  deriving DecidableEq

/-- `drafts` are the events that the `events` callback returned, with the ids, `seq` and times that
they will get. `filled` is what the database puts in the columns that an insert leaves out. -/
structure WriteCall (Col : Type) where
  expectedVersion : Option Nat
  stamped : Value
  drafts : List StoredEvent
  filled : Col → Value

/-! Schemas and decoding. -/

def assertRoundTrips (parse : Value → Except String Value) (kind id what : String) (value : Value) :
    Except WriteRefusal Unit :=
  match value.throughJson with
  | none | some .undefined =>
    .error (.journal ⟨.unstableSchema, kind, id, s!"{what}: the value cannot be stored as JSON"⟩)
  | some stored =>
    match parse stored with
    | .error _ => .error (.journal
        ⟨.unstableSchema, kind, id, s!"{what}: the schema must accept its own stored output unchanged"⟩)
    | .ok again =>
      if Value.sameJson again value then .ok ()
      else .error (.journal
        ⟨.unstableSchema, kind, id, s!"{what}: the schema must accept its own stored output unchanged"⟩)

def validated (parse : Value → Except String Value) (kind id what : String) (input : Value) :
    Except WriteRefusal Value :=
  match parse input with
  | .error message => .error (.schema message)
  | .ok value =>
    match assertRoundTrips parse kind id what value with
    | .error refusal => .error refusal
    | .ok () => .ok value

/-- The steps from schema version `version` on, `left` of them. -/
def EventDef.lift (definition : EventDef) : Nat → Nat → Value → Except String Value
  | 0, _, value => .ok value
  | left + 1, version, value =>
    match definition.upcasters[version - 1]? with
    | none => .error s!"no upcaster for schema version {version}"
    | some step =>
      match step.old value with
      | .error message => .error s!"the data does not fit schema version {version}: {message}"
      | .ok old =>
        match step.up old with
        | .error message => .error s!"the upcaster from version {version} threw: {message}"
        | .ok lifted => definition.lift left (version + 1) lifted

def upcast (row : StoredEvent) (definition : EventDef) : Except String Value :=
  let schemaVersion := row.schemaVersion
  let version := definition.version
  if version < schemaVersion then
    .error s!"written at schema version {schemaVersion}, but the event declares version {version}"
  else definition.lift (version - schemaVersion) schemaVersion row.data

def decodeStoredEvent (entity : EntityDef Col) (row : StoredEvent) : Except JournalError StoredEvent :=
  let eventId := row.id
  let type := row.type
  let version := row.version
  let location := s!"event {eventId} (\"{type}\" at version {version})"
  let failed (why : String) : JournalError := ⟨.replayFailed, row.kind, row.entityId, s!"{location}: {why}"⟩
  match entity.events type with
  | none => .error (failed "the entity declares no event of this type")
  | some definition =>
    match upcast row definition with
    | .error why => .error (failed why)
    | .ok lifted =>
      match definition.parse lifted with
      | .error message =>
        let from_ := row.schemaVersion
        let after := if from_ < definition.version then s!" after upcasting from version {from_}" else ""
        .error (failed s!"the data does not fit the current schema{after}: {message}")
      | .ok data =>
        match entity.parseMeta row.stamped with
        | .error message => .error (failed s!"the meta does not fit the current meta schema: {message}")
        | .ok stamped => .ok { row with data := data, stamped := stamped }

def decodeHistory (entity : EntityDef Col) : List StoredEvent → Except JournalError (List StoredEvent)
  | [] => .ok []
  | row :: rest =>
    match decodeStoredEvent entity row with
    | .error error => .error error
    | .ok event =>
      match decodeHistory entity rest with
      | .error error => .error error
      | .ok events => .ok (event :: events)

/-! The log. -/

/-- The row that `jsonb` columns keep of an event. -/
def StoredEvent.inStorage (event : StoredEvent) : StoredEvent :=
  { event with
    data := event.data.throughJson.getD .null
    stamped := event.stamped.throughJson.getD .null }

/-- Two rows that the unique indexes of `journal_events` do not let stand together. -/
def StoredEvent.clashes (event row : StoredEvent) : Bool :=
  row.id == event.id || row.seq == event.seq ||
    (row.kind == event.kind && row.entityId == event.entityId && row.version == event.version)

/-- `insert … on conflict do nothing`. -/
def insertNew : List StoredEvent → List StoredEvent → List StoredEvent
  | log, [] => log
  | log, event :: rest => if log.any event.clashes then insertNew log rest else insertNew (log ++ [event.inStorage]) rest

def appendOn (kind id : String) (expectedVersion : Nat) (events log : List StoredEvent) :
    Except JournalError (List StoredEvent) :=
  let inserted := insertNew log events
  if inserted.length = log.length + events.length then .ok inserted
  else if events.all fun event => inserted.any fun row =>
      row.id == event.id && row.kind == event.kind && row.entityId == event.entityId && row.version == event.version
  then .ok inserted
  else
    let taken := expectedVersion + 1
    .error ⟨.conflict, kind, id,
      s!"version {taken} is already in the log: another writer appended it first, or the row is behind its history"⟩

/-- `order by version asc`. -/
def sortedByVersion (rows : List StoredEvent) : List StoredEvent := Ordered.inOrder StoredEvent.version rows

/-! Replay. -/

def assertNoHoles (kind id : String) : Nat → List StoredEvent → Except JournalError Unit
  | _, [] => .ok ()
  | index, row :: rest =>
    let missing := index + 1
    let version := row.version
    if row.version = index + 1 then assertNoHoles kind id (index + 1) rest
    else .error ⟨.historyGap, kind, id,
      s!"version {missing} is missing from the log; the next stored version is {version}"⟩

def assertRowNotAhead (kind id : String) (folded : Option (Row Col)) (top : Nat) (current : Option (Row Col)) :
    Except JournalError Unit :=
  match folded, current with
  | some _, some row =>
    let version := row.version
    if top < version then .error ⟨.historyGap, kind, id, s!"the row is at version {version} but the log ends at version {top}"⟩
    else .ok ()
  | _, _ => .ok ()

def replayFrom (entity : EntityDef Col) (id : String) (state : EntityState Col) :
    Except JournalError (Option (Row Col)) :=
  let rows := sortedByVersion state.log
  let first := (rows.head?.map (·.version)).getD 0
  if rows.isEmpty && state.row.isSome then
    .error ⟨.noHistory, entity.kind, id, "the row exists but the log holds no event for it"⟩
  -- a history that starts later belongs to a row that existed before the journal
  else if !rows.isEmpty && first != 1 then
    .error ⟨.noHistory, entity.kind, id, s!"the first stored version is {first}"⟩
  else
    match assertNoHoles entity.kind id 0 rows with
    | .error error => .error error
    | .ok () =>
      match decodeHistory entity rows with
      | .error error => .error error
      | .ok all =>
        match fold entity none id all .replay with
        | .error error => .error error
        | .ok full =>
          match assertRowNotAhead entity.kind id full.row ((rows.getLast?.map (·.version)).getD 0) state.row with
          | .error error => .error error
          | .ok () => .ok full.row

def verify (columns : Columns Col) (entity : EntityDef Col) (id : String) (state : EntityState Col) :
    Except JournalError Bool :=
  match replayFrom entity id state with
  | .error error => .error error
  | .ok expected =>
    match expected, state.row with
    | none, none => .ok true
    | some want, some have_ => .ok (want.id == have_.id && want.version == have_.version &&
        columns.names.all fun column =>
          (want.values column).isUndefined || Value.sameValue (want.values column) (have_.values column))
    | _, _ => .ok false

def assertLogSaysGone (entity : EntityDef Col) (id : String) (log : List StoredEvent) (latestLogVersion : Nat) :
    Except JournalError Unit :=
  let rows := sortedByVersion log
  if rows.head?.map (·.version) = some 1 then
    match decodeHistory entity rows with
    | .error error => .error error
    | .ok events =>
      match fold entity none id events .replay with
      | .error error => .error error
      | .ok folded =>
        if folded.row.isSome then .error ⟨.conflict, entity.kind, id,
          s!"the row is missing but its history says it exists at version {latestLogVersion}; it was removed outside the journal, and repair restores it"⟩
        else .ok ()
  else .ok ()

/-! The write. -/

/-- Every event of the batch, its data parsed and held to survive storage. `version` is the next event's. -/
def validateEvents (entity : EntityDef Col) (id : String) (stamped : Value) :
    Nat → List StoredEvent → Except WriteRefusal (List StoredEvent)
  | _, [] => .ok []
  | version, draft :: rest =>
    let type := draft.type
    match entity.events type with
    | none => .error (.journal ⟨.unknownEvent, entity.kind, id, s!"event \"{type}\" at version {version}"⟩)
    | some definition =>
      match validated definition.parse entity.kind id s!"event \"{type}\"" draft.data with
      | .error refusal => .error refusal
      | .ok data =>
        match validateEvents entity id stamped (version + 1) rest with
        | .error refusal => .error refusal
        | .ok events =>
          .ok ({ draft with data := data, stamped := stamped, schemaVersion := definition.version } :: events)

def checkFirst (entity : EntityDef Col) (id : String) (row : Option (Row Col)) (baseVersion : Nat) :
    List StoredEvent → Except WriteRefusal Unit
  | [] => .ok ()
  | first :: _ =>
    let type := first.type
    let version := baseVersion + 1
    let location := s!"event \"{type}\" at version {version}"
    match entity.reducers type with
    | none => .ok ()
    | some reducers =>
      if row.isSome && reducers.on.isNone then .error (.journal ⟨.rowExists, entity.kind, id, location⟩)
      else if row.isNone && reducers.create.isNone then .error (.journal ⟨.noRow, entity.kind, id, location⟩)
      else .ok ()

def Columns.insert (columns : Columns Col) (filled : Col → Value) (next : Row Col) : Row Col :=
  ⟨columns.storeId next.id, next.version, fun column =>
    if (next.values column).isUndefined then filled column else columns.store column (next.values column)⟩

/-- `set` with a key that holds `undefined` leaves the column as it is. -/
def Columns.update (columns : Columns Col) (row next : Row Col) : Row Col :=
  ⟨columns.storeId next.id, next.version, fun column =>
    if (next.values column).isUndefined then row.values column else columns.store column (next.values column)⟩

/-- The row that the database wrote back: the id as it was given, and what the reducers set as they set it. -/
def assertSaved (columns : Columns Col) (kind id : String) (reducerColumns : Col → Bool) (next saved : Row Col) :
    Except WriteRefusal Unit :=
  if saved.id ≠ id then
    let stored := saved.id
    .error (.journal ⟨.idMismatch, kind, id, s!"the stored key is \"{stored}\" but the id given is \"{id}\"; use the stored form"⟩)
  else
    match columns.names.find? fun column =>
        reducerColumns column && !Value.sameValue (next.values column) (saved.values column) with
    | none => .ok ()
    | some column =>
      let title := columns.title column
      .error (.journal ⟨.valueMismatch, kind, id,
        s!"column \"{title}\": the database stored another value than the reducer produced"⟩)

/-- The row that is stored in the place of `row`. -/
def Columns.put (columns : Columns Col) (filled : Col → Value) (row : Option (Row Col)) (recreated : Bool)
    (next : Row Col) : Row Col :=
  match row with
  | none => columns.insert filled next
  -- delete then insert, so that columns the create omits get their defaults, not the old values
  | some old => if recreated then columns.insert filled next else columns.update old next

def save (columns : Columns Col) (kind id : String) (filled : Col → Value) (row : Option (Row Col))
    (folded : Folded Col) : Except WriteRefusal (Option (Row Col)) :=
  match folded.row with
  | none => .ok none
  | some next =>
    let saved := columns.put filled row folded.recreated next
    match assertSaved columns kind id folded.reducerColumns next saved with
    | .error refusal => .error refusal
    | .ok () => .ok (some saved)

/-- The version that the next event follows. A row at version 0 existed before the journal: its history starts at 2. -/
def baseVersion (row : Option (Row Col)) (latestLogVersion : Nat) : Nat :=
  match row with
  | none => latestLogVersion
  | some row => if row.version = 0 then 1 else row.version

/-- The log's top, read only where the row does not say what the next event follows. -/
def EntityState.latestLogVersion (state : EntityState Col) : Nat :=
  if (state.row.map (·.version)).getD 0 = 0 then highestVersion state.log else 0

def checkLog (entity : EntityDef Col) (id : String) (state : EntityState Col) : Except JournalError Unit :=
  let latest := state.latestLogVersion
  if latest = 0 then .ok ()
  else if state.row.isSome then .error ⟨.conflict, entity.kind, id,
    s!"the row is at version 0 but its log already holds version {latest}"⟩
  else assertLogSaysGone entity id state.log latest

def store (columns : Columns Col) (entity : EntityDef Col) (id : String) (state : EntityState Col)
    (filled : Col → Value) (base : Nat) (events : List StoredEvent) : Except WriteRefusal (EntityState Col) :=
  let rows := numberEvents ⟨entity.kind, id⟩ base events
  match appendOn entity.kind id base rows state.log with
  | .error error => .error (.journal error)
  | .ok log =>
    match decodeHistory entity (sortedByVersion rows) with
    | .error error => .error (.journal error)
    | .ok recorded =>
      match fold entity state.row id recorded .write with
      | .error error => .error (.journal error)
      | .ok folded =>
        match save columns entity.kind id filled state.row folded with
        | .error refusal => .error refusal
        | .ok saved => .ok ⟨log, saved⟩

/-- `journal.write`. A refusal rolls the savepoint back, so it has no state to give. -/
def write (columns : Columns Col) (entity : EntityDef Col) (id : String) (state : EntityState Col)
    (call : WriteCall Col) : Except WriteRefusal (EntityState Col) :=
  match validated entity.parseMeta entity.kind id "meta" call.stamped with
  | .error refusal => .error refusal
  | .ok stamped =>
    let stored := (state.row.map (·.version)).getD 0
    let expected := call.expectedVersion.getD stored
    if expected ≠ stored then .error (.journal ⟨.conflict, entity.kind, id,
      s!"expected version {expected} but the row is at version {stored}"⟩)
    else if call.drafts.isEmpty then .ok state
    else
      match checkLog entity id state with
      | .error error => .error (.journal error)
      | .ok () =>
        let base := baseVersion state.row state.latestLogVersion
        match validateEvents entity id stamped (base + 1) call.drafts with
        | .error refusal => .error refusal
        | .ok events =>
          match checkFirst entity id state.row base call.drafts with
          | .error refusal => .error refusal
          | .ok () => store columns entity id state call.filled base events

def EntityState.step (columns : Columns Col) (entity : EntityDef Col) (id : String) (state : EntityState Col)
    (call : WriteCall Col) : Option (EntityState Col) :=
  match write columns entity id state call with
  | .ok next => some next
  | .error _ => some state

end Arki.Journal
