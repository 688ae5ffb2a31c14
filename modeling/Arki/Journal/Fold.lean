import Arki.Journal.Tables

/-! The fold that write and replay share: recorded events applied to a row in memory.

`Col` are the columns of the entity's table but for its key and `version`. A value of
`undefined` is a column that is left out, so that a reducer's result sets the columns
where it is something else.
-/

set_option autoImplicit false

namespace Arki.Journal

variable {Col : Type}

structure Row (Col : Type) where
  id : String
  version : Nat
  values : Col → Value

/-- What an event's type does to a row: build it where there is none, and patch or delete (`none`) it. -/
structure Reducers (Col : Type) where
  create : Option (StoredEvent → Col → Value)
  on : Option (Row Col → StoredEvent → Option (Col → Value))

structure Upcaster where
  old : Value → Except String Value
  up : Value → Except String Value

/-- `parse` is the current schema, and `upcasters` lead up to it from version 1. -/
structure EventDef where
  version : Nat
  parse : Value → Except String Value
  upcasters : List Upcaster

/-- An entity that keeps its events. `parseMeta` is the journal's meta schema. -/
structure EntityDef (Col : Type) where
  kind : String
  events : String → Option EventDef
  reducers : String → Option (Reducers Col)
  parseMeta : Value → Except String Value

inductive FoldMode where
  | write
  | replay
  deriving DecidableEq

/-- `definedOnly`, over a state: the columns that `patch` leaves out stay. -/
def merge (values patch : Col → Value) (column : Col) : Value :=
  if (patch column).isUndefined then values column else patch column

/-- The loop of `fold`: the state, whether it passed through `null`, and the columns that reducers set. -/
structure Folding (Col : Type) where
  state : Option (Col → Value)
  deleted : Bool
  reducerColumns : Col → Bool

/-- A write names the exact refusal. A replay reports each one as `REPLAY_FAILED`. -/
def foldRefusal (mode : FoldMode) (code : ErrorCode) (kind id location why : String) : JournalError :=
  match mode with
  | .write => ⟨code, kind, id, location⟩
  | .replay => ⟨.replayFailed, kind, id, location ++ why⟩

/-- One event: the checks of `fold` with `reduceOne`. -/
def foldOne (entity : EntityDef Col) (mode : FoldMode) (id : String) (folding : Folding Col) (event : StoredEvent) :
    Except JournalError (Folding Col) :=
  let type := event.type
  let version := event.version
  let location := s!"event \"{type}\" at version {version}"
  match entity.reducers type with
  | none => .error (foldRefusal mode .unknownEvent entity.kind id location " has no reducer on this entity")
  | some reducers =>
    match folding.state with
    | some values =>
      match reducers.on with
      | none => .error (foldRefusal mode .rowExists entity.kind id location
          " has no .on reducer, but the history has a row at that point")
      | some on =>
        match on ⟨id, version - 1, values⟩ event with
        | none => .ok ⟨none, true, fun _ => false⟩
        | some patch => .ok ⟨some (merge values patch), folding.deleted,
            fun column => folding.reducerColumns column || !(patch column).isUndefined⟩
    | none =>
      match reducers.create with
      | none => .error (foldRefusal mode .noRow entity.kind id location
          " has no .create reducer, but the history has no row at that point")
      | some create => .ok ⟨some (create event), folding.deleted, fun column => !(create event column).isUndefined⟩

def foldEvents (entity : EntityDef Col) (mode : FoldMode) (id : String) :
    Folding Col → List StoredEvent → Except JournalError (Folding Col)
  | folding, [] => .ok folding
  | folding, event :: rest =>
    match foldOne entity mode id folding event with
    | .error error => .error error
    | .ok next => foldEvents entity mode id next rest

structure Folded (Col : Type) where
  row : Option (Row Col)
  recreated : Bool
  reducerColumns : Col → Bool

def Folding.start (row : Option (Row Col)) : Folding Col := ⟨row.map (·.values), false, fun _ => false⟩

def foldedVersion (start : Option (Row Col)) (history : List StoredEvent) : Nat :=
  match history.getLast? with
  | none => (start.map (·.version)).getD 0
  | some last => last.version

/-- Fold events onto a starting row. `recreated`: the state passed through `null` and ended with a row. -/
def fold (entity : EntityDef Col) (start : Option (Row Col)) (id : String) (history : List StoredEvent)
    (mode : FoldMode) : Except JournalError (Folded Col) :=
  match foldEvents entity mode id (.start start) history with
  | .error error => .error error
  | .ok folding =>
    match folding.state with
    | none => .ok ⟨none, false, folding.reducerColumns⟩
    | some values =>
      .ok ⟨some ⟨id, foldedVersion start history, values⟩, folding.deleted, folding.reducerColumns⟩

/-- What `sameValue` lets pass for a column, or the very same value. -/
def Alike (left right : Value) : Prop := left = right ∨ Value.sameValue left right = true

/-- What the replay has of a row is what the stored row has, where the replay has anything. -/
def Agrees (replayed stored : Col → Value) : Prop :=
  ∀ column, replayed column ≠ .undefined → Alike (replayed column) (stored column)

def SamePatch : Option (Col → Value) → Option (Col → Value) → Prop
  | none, none => True
  | some left, some right => ∀ column, (left column = .undefined ↔ right column = .undefined) ∧
      Alike (left column) (right column)
  | _, _ => False

/-- The two are the same JSON: an absent key and one that holds `undefined` read the same way. -/
def ReadSame (left right : Value) : Prop := ∃ value, Value.sameJson left value = true ∧ Value.sameJson right value = true

structure Twins (left right : StoredEvent) : Prop where
  data : ReadSame left.data right.data
  stamped : ReadSame left.stamped right.stamped
  rest : right = { left with data := right.data, stamped := right.stamped }

/-- A schema that the round-trip check lets pass in storage also reads its own output as it is in memory. -/
def ReadsItsOutput (parse : Value → Except String Value) : Prop :=
  ∀ input value stored again, parse input = .ok value → value.throughJson = some stored → parse stored = .ok again →
    Value.sameJson again value = true → ∃ next, parse value = .ok next ∧ Value.sameJson next value = true

/-- The rules for an entity's definition. `reads` is that a reducer sets every column that any reducer
later reads: its answer on the stored row, where the database has filled the columns that no reducer
set, is its answer on the row that a replay has at that point. -/
structure EntityDef.Steady (entity : EntityDef Col) : Prop where
  schemas : ∀ type definition, entity.events type = some definition → ReadsItsOutput definition.parse
  metaSchema : ReadsItsOutput entity.parseMeta
  creates : ∀ type reducers create, entity.reducers type = some reducers → reducers.create = some create →
    ∀ left right, Twins left right → SamePatch (some (create left)) (some (create right))
  reads : ∀ type reducers on, entity.reducers type = some reducers → reducers.on = some on →
    ∀ id history folding replayed, foldEvents entity .replay id (.start none) history = .ok folding →
    folding.state = some replayed → ∀ stored, Agrees replayed stored → ∀ left right, Twins left right →
    ∀ version, SamePatch (on ⟨id, version, replayed⟩ left) (on ⟨id, version, stored⟩ right)

section Alike

variable {first second third : Value}

theorem Alike.refl (value : Value) : Alike value value := Or.inl rfl

theorem Alike.same (left : Alike first second) (right : Value.sameValue second third = true) :
    Value.sameValue first third = true := by
  rcases left with rfl | left
  · exact right
  · exact Value.sameValue_trans left right

theorem Alike.defined (alike : Alike first second) (some_ : first ≠ .undefined) : second ≠ .undefined := by
  rcases alike with rfl | same
  · exact some_
  · rintro rfl
    exact some_ (Value.undefined_of_same same)

end Alike

@[simp]
theorem isUndefined_iff {value : Value} : value.isUndefined = true ↔ value = .undefined := by
  cases value <;> simp [Value.isUndefined]

@[simp]
theorem isUndefined_eq_false {value : Value} : value.isUndefined = false ↔ value ≠ .undefined := by
  cases value <;> simp [Value.isUndefined]

@[simp]
theorem merge_undefined {values patch : Col → Value} {column : Col} (leaves : patch column = .undefined) :
    merge values patch column = values column := by
  simp [merge, leaves]

@[simp]
theorem merge_set {values patch : Col → Value} {column : Col} (sets : patch column ≠ .undefined) :
    merge values patch column = patch column := by
  simp [merge, sets]

theorem foldEvents_append (entity : EntityDef Col) (mode : FoldMode) (id : String) (folding : Folding Col)
    (first rest : List StoredEvent) : foldEvents entity mode id folding (first ++ rest) =
      match foldEvents entity mode id folding first with
      | .error error => .error error
      | .ok next => foldEvents entity mode id next rest := by
  induction first generalizing folding with
  | nil => rfl
  | cons event tail ih =>
    simp only [List.cons_append, foldEvents]
    cases foldOne entity mode id folding event with
    | error error => rfl
    | ok next => exact ih next

/-- A write's fold beside the replay of its whole history: `ahead` is the replayed state before the
write, `row` the stored one. A column that the write has not set since the last create was there
before it, in both, and is as it was. -/
structure Beside (ahead row : Option (Col → Value)) (replay write : Folding Col) : Prop where
  alive : replay.state.isSome = write.state.isSome
  agrees : ∀ replayed ∈ replay.state, ∀ stored ∈ write.state, Agrees replayed stored
  kept : ∀ replayed ∈ replay.state, ∀ stored ∈ write.state, ∀ column, replayed column ≠ .undefined →
    write.reducerColumns column = true ∨ write.deleted = false ∧
      ∃ old ∈ ahead, ∃ kept ∈ row, old column = replayed column ∧ kept column = stored column
  set : ∀ replayed ∈ replay.state, ∀ column, write.reducerColumns column = true → replayed column ≠ .undefined

section Beside

variable {entity : EntityDef Col} {mode : FoldMode} {id : String} {folding replay write next : Folding Col}
  {event past : StoredEvent} {ahead row : Option (Col → Value)}

theorem foldOne_ok (folded : foldOne entity mode id folding event = .ok next) :
    ∃ reducers, entity.reducers event.type = some reducers ∧
      ((∃ values on, folding.state = some values ∧ reducers.on = some on ∧
        ((on ⟨id, event.version - 1, values⟩ event = none ∧ next = ⟨none, true, fun _ => false⟩) ∨
          ∃ patch, on ⟨id, event.version - 1, values⟩ event = some patch ∧
            next = ⟨some (merge values patch), folding.deleted,
              fun column => folding.reducerColumns column || !(patch column).isUndefined⟩)) ∨
      (∃ create, folding.state = none ∧ reducers.create = some create ∧
        next = ⟨some (create event), folding.deleted, fun column => !(create event column).isUndefined⟩)) := by
  simp only [foldOne] at folded
  split at folded
  · cases folded
  next reducers found =>
    refine ⟨reducers, found, ?_⟩
    split at folded
    next values alive =>
      left
      split at folded
      · cases folded
      next on has =>
        refine ⟨values, on, alive, has, ?_⟩
        split at folded
        next gone =>
          cases folded
          exact Or.inl ⟨gone, rfl⟩
        next patch patched =>
          cases folded
          exact Or.inr ⟨patch, patched, rfl⟩
    next gone =>
      right
      split at folded
      · cases folded
      next create has =>
        cases folded
        exact ⟨create, gone, has, rfl⟩

theorem foldOne_on {reducers : Reducers Col} {values : Col → Value} {on : Row Col → StoredEvent → Option (Col → Value)}
    (found : entity.reducers event.type = some reducers) (alive : folding.state = some values)
    (has : reducers.on = some on) : foldOne entity mode id folding event =
      match on ⟨id, event.version - 1, values⟩ event with
      | none => .ok ⟨none, true, fun _ => false⟩
      | some patch => .ok ⟨some (merge values patch), folding.deleted,
          fun column => folding.reducerColumns column || !(patch column).isUndefined⟩ := by
  simp only [foldOne, found, alive, has]

theorem foldOne_create {reducers : Reducers Col} {create : StoredEvent → Col → Value}
    (found : entity.reducers event.type = some reducers) (gone : folding.state = none)
    (has : reducers.create = some create) : foldOne entity mode id folding event =
      .ok ⟨some (create event), folding.deleted, fun column => !(create event column).isUndefined⟩ := by
  simp only [foldOne, found, gone, has]

theorem Beside.patched (beside : Beside ahead row replay write) {values stored before patch : Col → Value}
    (here : replay.state = some values) (alive : write.state = some stored)
    (same : SamePatch (some before) (some patch)) :
    Beside ahead row
      ⟨some (merge values before), replay.deleted,
        fun column => replay.reducerColumns column || !(before column).isUndefined⟩
      ⟨some (merge stored patch), write.deleted,
        fun column => write.reducerColumns column || !(patch column).isUndefined⟩ := by
  constructor
  · rfl
  · rintro _ ⟨⟩ _ ⟨⟩ column some_
    obtain ⟨sets, alike⟩ := same column
    by_cases left : before column = .undefined
    · rw [merge_undefined left] at some_ ⊢
      rw [merge_undefined (sets.mp left)]
      exact beside.agrees values here stored alive column some_
    · rw [merge_set left, merge_set fun gone => left (sets.mpr gone)]
      exact alike
  · rintro _ ⟨⟩ _ ⟨⟩ column some_
    obtain ⟨sets, _⟩ := same column
    by_cases left : before column = .undefined
    · rw [merge_undefined left] at some_ ⊢
      rw [merge_undefined (sets.mp left)]
      simpa [sets.mp left] using beside.kept values here stored alive column some_
    · have right : patch column ≠ .undefined := fun gone => left (sets.mpr gone)
      simp [right]
  · rintro _ ⟨⟩ column set
    obtain ⟨sets, _⟩ := same column
    by_cases left : before column = .undefined
    · rw [merge_undefined left]
      exact beside.set values here column (by simpa [sets.mp left] using set)
    · rw [merge_set left]
      exact left

/-- A replay takes the same branch and gives the same, where the write has the row that it has. -/
theorem Beside.one (steady : entity.Steady) (beside : Beside ahead row replay write)
    {history : List StoredEvent} (replayed : foldEvents entity .replay id (.start none) history = .ok replay)
    (twins : Twins past event) (folded : foldOne entity .write id write event = .ok next) :
    ∃ after, foldOne entity .replay id replay past = .ok after ∧ Beside ahead row after next := by
  have type : event.type = past.type := by rw [twins.rest]
  have version : event.version = past.version := by rw [twins.rest]
  obtain ⟨reducers, found, branch⟩ := foldOne_ok folded
  rw [type] at found
  rcases branch with ⟨stored, on, alive, has, branch⟩ | ⟨create, gone, has, rfl⟩
  · obtain ⟨values, here⟩ : ∃ values, replay.state = some values := by
      apply Option.isSome_iff_exists.mp
      rw [beside.alive, alive, Option.isSome_some]
    have agrees := beside.agrees values here stored alive
    have same := steady.reads _ _ _ found has id history replay values replayed here stored agrees past event twins
      (past.version - 1)
    rw [version] at branch
    rw [foldOne_on found here has]
    rcases branch with ⟨deletes, rfl⟩ | ⟨patch, patches, rfl⟩
    · rw [deletes] at same
      cases answer : on ⟨id, past.version - 1, values⟩ past with
      | some _ => simp [answer, SamePatch] at same
      | none =>
        refine ⟨⟨none, true, fun _ => false⟩, rfl, ?_⟩
        constructor <;> simp
    · rw [patches] at same
      cases answer : on ⟨id, past.version - 1, values⟩ past with
      | none => simp [answer, SamePatch] at same
      | some before =>
        rw [answer] at same
        refine ⟨_, rfl, beside.patched here alive same⟩
  · have here : replay.state = none := by
      have same := beside.alive
      rw [gone, Option.isSome_none, Option.isSome_eq_false_iff, Option.isNone_iff_eq_none] at same
      exact same
    have same := steady.creates _ _ _ found has past event twins
    refine ⟨_, foldOne_create found here has, ?_⟩
    constructor
    · rfl
    · rintro _ ⟨⟩ _ ⟨⟩ column _
      exact (same column).2
    · rintro _ ⟨⟩ _ ⟨⟩ column some_
      left
      have right : create event column ≠ .undefined := fun gone => some_ ((same column).1.mpr gone)
      simpa using right
    · rintro _ ⟨⟩ column set gone
      simp [(same column).1.mp gone] at set

/-- A write's whole fold, and the replay of the history before it with the write's own events. -/
theorem Beside.events (steady : entity.Steady) {pasts events : List StoredEvent} (twins : List.Forall₂ Twins pasts events)
    (beside : Beside ahead row replay write) {history : List StoredEvent}
    (replayed : foldEvents entity .replay id (.start none) history = .ok replay)
    (folded : foldEvents entity .write id write events = .ok next) :
    ∃ after, foldEvents entity .replay id (.start none) (history ++ pasts) = .ok after ∧ Beside ahead row after next := by
  induction twins generalizing replay write history with
  | nil =>
    cases folded
    exact ⟨replay, by simpa using replayed, beside⟩
  | @cons past event pasts events first _ ih =>
    simp only [foldEvents] at folded
    split at folded
    · cases folded
    next middle one =>
      obtain ⟨replay', taken, beside'⟩ := beside.one steady replayed first one
      have longer : foldEvents entity .replay id (.start none) (history ++ [past]) = .ok replay' := by
        rw [foldEvents_append, replayed]
        simp [foldEvents, taken]
      have whole := ih beside' longer folded
      rwa [List.append_assoc] at whole

theorem foldEvents_marks {history : List StoredEvent}
    (marks : ∀ values ∈ folding.state, ∀ column, folding.reducerColumns column = true → values column ≠ .undefined)
    (folded : foldEvents entity mode id folding history = .ok next) :
    ∀ values ∈ next.state, ∀ column, next.reducerColumns column = true → values column ≠ .undefined := by
  induction history generalizing folding with
  | nil =>
    cases folded
    exact marks
  | cons event rest ih =>
    simp only [foldEvents] at folded
    split at folded
    · cases folded
    next middle one =>
      apply ih _ folded
      obtain ⟨reducers, _, ⟨values, on, alive, _, ⟨_, rfl⟩ | ⟨patch, _, rfl⟩⟩ | ⟨create, _, _, rfl⟩⟩ := foldOne_ok one
      · simp
      · rintro _ ⟨⟩ column set
        by_cases given : patch column = .undefined
        · rw [merge_undefined given]
          exact marks values alive column (by simpa [given] using set)
        · rw [merge_set given]
          exact given
      · rintro _ ⟨⟩ column set
        simpa using set

end Beside

end Arki.Journal
