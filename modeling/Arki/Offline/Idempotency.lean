import Mathlib.Data.List.Chain

/-! The server's cache of replayed mutations: one lookup, one run, one insert a call. -/

set_option autoImplicit false

namespace Arki.Offline

variable {Json : Type}

/-- What a handler returns. `json` is any JSON value but null. -/
inductive Output (Json : Type) where
  | nothing
  | null
  | json (value : Json)
  deriving DecidableEq

def ttlDays : Nat := 7

def ttl : Nat := ttlDays * (24 * 60 * 60 * 1000)

theorem ttl_pos : 0 < ttl := by decide

/-- The server's clock in milliseconds, with the local time `setDate` counts days in. -/
structure Zone where
  localTime : Nat → Nat
  utc : Nat → Nat
  week : ∀ now, now < utc (localTime now + ttl)

def Zone.zulu : Zone := ⟨fun now => now, fun now => now, fun _ => Nat.lt_add_of_pos_right ttl_pos⟩

structure Entry (Json : Type) where
  responseJson : Output Json
  expiresAt : Nat
  deriving DecidableEq

/-- The table under its unique index: one row at most for a key, a path and a user. -/
abbrev IdempotencyKeys (Json : Type) := String × String × String → Option (Entry Json)

def empty : IdempotencyKeys Json := fun _ => none

structure Call (Json : Type) where
  offlineSafe : Bool
  path : List String
  idempotencyKey : Option String
  offlineActor : Option String
  user : Option String
  handler : Except String (Output Json)
  asked : Nat
  done : Nat
  forward : asked ≤ done

inductive Answer (Json : Type) where
  | output (output : Output Json)
  | failed (error : String)
  | forbidden (message : String)
  deriving DecidableEq

structure Served (Json : Type) where
  table : IdempotencyKeys Json
  answer : Answer Json
  ran : Bool

def truthy (text : Option String) : Option String := text.filter (· ≠ "")

def Call.procedurePath (call : Call Json) : String := ".".intercalate call.path

def find (table : IdempotencyKeys Json) (key path userId : String) (now : Nat) : Option Json :=
  match table (key, path, userId) with
  | none => none
  | some entry =>
    if now < entry.expiresAt then
      match entry.responseJson with
      | .json value => some value
      | _ => none
    else none

def expiresAt (zone : Zone) (now : Nat) : Nat := zone.utc (zone.localTime now + ttl)

/-- What a row holds of a response. The column is not null: a driver that writes no JSON null for a missing value is refused. -/
def written (writesNull : Bool) : Output Json → Option (Output Json)
  | .json value => some (.json value)
  | _ => if writesNull then some .null else none

def store (zone : Zone) (writesNull : Bool) (table : IdempotencyKeys Json) (key path userId : String)
    (response : Output Json) (now : Nat) : IdempotencyKeys Json :=
  match written writesNull response with
  | none => table
  | some responseJson =>
    match table (key, path, userId) with
    | some _ => table
    | none => Function.update table (key, path, userId) (some ⟨responseJson, expiresAt zone now⟩)

def Call.next (call : Call Json) (table : IdempotencyKeys Json) : Served Json :=
  match call.handler with
  | .error error => ⟨table, .failed error, true⟩
  | .ok output => ⟨table, .output output, true⟩

def idempotency (zone : Zone) (writesNull : Bool) (table : IdempotencyKeys Json) (call : Call Json) : Served Json :=
  if call.offlineSafe = false then call.next table
  else
    match truthy call.idempotencyKey with
    | none => call.next table
    | some key =>
      if call.offlineActor ≠ call.user then
        ⟨table, .forbidden "Queued under another account; not run under the account signed in now", false⟩
      else
        match truthy call.user with
        | none => call.next table
        | some userId =>
          match find table key call.procedurePath userId call.asked with
          | some cached => ⟨table, .output (.json cached), false⟩
          | none =>
            match call.handler with
            | .error error => ⟨table, .failed error, true⟩
            | .ok output => ⟨store zone writesNull table key call.procedurePath userId output call.done, .output output, true⟩

def serve (zone : Zone) (writesNull : Bool) (table : IdempotencyKeys Json) (calls : List (Call Json)) : IdempotencyKeys Json :=
  calls.foldl (fun table call => (idempotency zone writesNull table call).table) table

structure Keyed (key : String) (path : List String) (userId : String) (call : Call Json) : Prop where
  offlineSafe : call.offlineSafe = true
  key : truthy call.idempotencyKey = some key
  path : call.path = path
  user : truthy call.user = some userId

def keyOf (key : String) (path : List String) (userId : String) : String × String × String := (key, ".".intercalate path, userId)

variable {zone : Zone} {writesNull : Bool} {table : IdempotencyKeys Json} {call : Call Json} {key userId : String} {path : List String}
  {at_ : String × String × String} {entry : Entry Json}

theorem idempotency_keyed (keyed : Keyed key path userId call) (own : call.offlineActor = call.user) :
    idempotency zone writesNull table call =
      match find table key (".".intercalate path) userId call.asked with
      | some cached => ⟨table, .output (.json cached), false⟩
      | none =>
        match call.handler with
        | .error error => ⟨table, .failed error, true⟩
        | .ok output => ⟨store zone writesNull table key (".".intercalate path) userId output call.done, .output output, true⟩ := by
  simp [idempotency, keyed.offlineSafe, keyed.key, keyed.user, own, Call.procedurePath, keyed.path]

theorem idempotency_other
    (safe : call.offlineSafe = true) (keyed : truthy call.idempotencyKey = some key) (other : call.offlineActor ≠ call.user) :
    idempotency zone writesNull table call =
      ⟨table, .forbidden "Queued under another account; not run under the account signed in now", false⟩ := by
  simp [idempotency, safe, keyed, other]

theorem find_some {path : String} {now : Nat} {cached : Json} :
    find table key path userId now = some cached ↔
      ∃ entry, table (key, path, userId) = some entry ∧ now < entry.expiresAt ∧ entry.responseJson = .json cached := by
  unfold find
  constructor
  · intro found
    split at found
    · cases found
    · rename_i entry held
      split at found
      · rename_i fresh
        split at found
        · rename_i value same
          cases found
          exact ⟨entry, held, fresh, same⟩
        · cases found
      · cases found
  · rintro ⟨entry, held, fresh, same⟩
    simp [held, fresh, same]

theorem store_keeps {path : String}
    {response : Output Json} {now : Nat} (held : table at_ = some entry) :
    store zone writesNull table key path userId response now at_ = some entry := by
  unfold store
  rcases written writesNull response with _ | responseJson
  · exact held
  · cases free : table (key, path, userId) with
    | some _ => exact held
    | none =>
      have apart : at_ ≠ (key, path, userId) := by
        rintro rfl
        rw [free] at held
        cases held
      simp only
      rw [Function.update_of_ne apart, held]

theorem next_table (call : Call Json) (table : IdempotencyKeys Json) : (call.next table).table = table := by
  unfold Call.next
  split <;> rfl

theorem idempotency_keeps (held : table at_ = some entry) (call : Call Json) :
    (idempotency zone writesNull table call).table at_ = some entry := by
  unfold idempotency
  split
  · rw [next_table, held]
  · split
    · rw [next_table, held]
    · split
      · exact held
      · split
        · rw [next_table, held]
        · split
          · exact held
          · split
            · exact held
            · exact store_keeps held

theorem serve_keeps (held : table at_ = some entry) (calls : List (Call Json)) :
    serve zone writesNull table calls at_ = some entry := by
  induction calls generalizing table with
  | nil => exact held
  | cons call rest ih => exact ih (idempotency_keeps held call)

theorem ran_keyed {output : Output Json} (keyed : Keyed key path userId call)
    (ran : (idempotency zone writesNull table call).ran = true) (answered : (idempotency zone writesNull table call).answer = .output output) :
    find table key (".".intercalate path) userId call.asked = none ∧ call.handler = .ok output ∧ call.offlineActor = call.user ∧
    (idempotency zone writesNull table call).table = store zone writesNull table key (".".intercalate path) userId output call.done := by
  by_cases own : call.offlineActor = call.user
  · rw [idempotency_keyed keyed own] at ran answered ⊢
    split at ran
    · cases ran
    · rename_i missing
      simp only [missing] at answered ⊢
      split at answered
      · cases answered
      · rename_i made handled
        cases answered
        simp only [handled]
        exact ⟨trivial, trivial, own, trivial⟩
  · rw [idempotency_other keyed.offlineSafe keyed.key own] at ran
    cases ran

def InTurn (calls : List (Call Json)) : Prop := calls.IsChain fun first second => first.done ≤ second.asked

/-- The law of the cache for a call that ran: until its window ends, a replay of it is answered with its output and does not run. -/
def Replayed (zone : Zone) (writesNull : Bool) (table : IdempotencyKeys Json) (key : String) (path : List String) (userId : String)
    (call : Call Json) (output : Output Json) : Prop :=
  ∀ (between : List (Call Json)) (again : Call Json), InTurn (call :: between ++ [again]) →
    Keyed key path userId again → again.offlineActor = again.user → again.asked < expiresAt zone call.done →
    (idempotency zone writesNull (serve zone writesNull table (call :: between)) again).answer = .output output ∧
    (idempotency zone writesNull (serve zone writesNull table (call :: between)) again).ran = false

/-- The output is a value that does not look like nothing, and no earlier run of the key left a row. -/
def Cacheable (table : IdempotencyKeys Json) (at_ : String × String × String) (output : Output Json) : Prop :=
  (∃ value, output = .json value) ∧ table at_ = none

theorem replayed_iff {output : Output Json} (keyed : Keyed key path userId call)
    (ran : (idempotency zone writesNull table call).ran = true) (answered : (idempotency zone writesNull table call).answer = .output output) :
    Replayed zone writesNull table key path userId call output ↔ Cacheable table (keyOf key path userId) output := by
  obtain ⟨missing, handled, own, left⟩ := ran_keyed keyed ran answered
  constructor
  · intro replayed
    -- the same call once more, as soon as the first is done
    let again : Call Json := { call with asked := call.done, forward := le_rfl }
    have again_keyed : Keyed key path userId again := ⟨keyed.offlineSafe, keyed.key, keyed.path, keyed.user⟩
    obtain ⟨answer, quiet⟩ := replayed [] again (by simp [InTurn, again]) again_keyed own (zone.week call.done)
    rw [idempotency_keyed again_keyed own] at answer quiet
    simp only [serve, List.foldl_cons, List.foldl_nil, left] at answer quiet
    split at quiet
    · rename_i cached found
      simp only [found, Answer.output.injEq] at answer
      refine ⟨⟨cached, answer.symm⟩, ?_⟩
      rw [keyOf]
      by_contra taken
      obtain ⟨entry, held⟩ := Option.ne_none_iff_exists'.mp taken
      obtain ⟨after, held', fresh, same⟩ := find_some.mp found
      rw [store_keeps held] at held'
      cases held'
      have early : find table key (".".intercalate path) userId call.asked = some cached :=
        find_some.mpr ⟨entry, held, lt_of_le_of_lt call.forward fresh, same⟩
      rw [missing] at early
      cases early
    · rw [handled] at quiet
      cases quiet
  · rintro ⟨⟨value, rfl⟩, free⟩ between again - again_keyed again_own fresh
    have held : (idempotency zone writesNull table call).table (key, ".".intercalate path, userId) =
        some ⟨.json value, expiresAt zone call.done⟩ := by
      rw [keyOf] at free
      simp [left, store, written, free]
    have found : find (serve zone writesNull table (call :: between)) key (".".intercalate path) userId again.asked = some value :=
      find_some.mpr ⟨_, serve_keeps held between, fresh, rfl⟩
    rw [idempotency_keyed again_keyed again_own, found]
    exact ⟨rfl, rfl⟩

/-- After any calls: a call that ran is answered from the cache until its window ends exactly when its output could be cached,
and a replay under another account does not run. -/
theorem idempotency_replays (zone : Zone) (writesNull : Bool) (history : List (Call Json)) :
    (∀ (call : Call Json) (key : String) (path : List String) (userId : String) (output : Output Json), Keyed key path userId call →
      (idempotency zone writesNull (serve zone writesNull empty history) call).ran = true →
      (idempotency zone writesNull (serve zone writesNull empty history) call).answer = .output output →
      (Replayed zone writesNull (serve zone writesNull empty history) key path userId call output ↔
        Cacheable (serve zone writesNull empty history) (keyOf key path userId) output)) ∧
    ∀ (call : Call Json) (key : String), call.offlineSafe = true → truthy call.idempotencyKey = some key →
      call.offlineActor ≠ call.user → (idempotency zone writesNull (serve zone writesNull empty history) call).ran = false := by
  refine ⟨fun call key path userId output keyed ran answered => replayed_iff keyed ran answered, ?_⟩
  intro call key safe keyed other
  rw [idempotency_other safe keyed other]

def callAt (now : Nat) (handler : Except String (Output Nat)) : Call Nat :=
  ⟨true, ["highlights", "create"], some "k1", some "usr_1", some "usr_1", handler, now, now, le_rfl⟩

/-- The first run of a key is answered from the cache. -/
theorem idempotency_replays_first :
    Replayed .zulu false (serve .zulu false empty []) "k1" ["highlights", "create"] "usr_1" (callAt 0 (.ok (.json 1))) (.json 1) ∧
    (idempotency .zulu false (serve .zulu false empty []) { callAt 0 (.ok (.json 1)) with offlineActor := some "usr_2" }).ran = false :=
  ⟨((idempotency_replays .zulu false []).1 (callAt 0 (.ok (.json 1))) "k1" ["highlights", "create"] "usr_1" (.json 1)
      ⟨rfl, by decide, rfl, by decide⟩ (by decide) (by decide)).mpr ⟨⟨1, rfl⟩, rfl⟩,
    (idempotency_replays .zulu false []).2 { callAt 0 (.ok (.json 1)) with offlineActor := some "usr_2" } "k1" rfl (by decide) (by decide)⟩

/-- A null output runs again at once, whatever the driver writes for it. So does the output of a run behind a row that expired. -/
theorem ran_again :
    (∀ writesNull, (idempotency .zulu writesNull empty (callAt 0 (.ok .null))).ran = true ∧
      ¬ Replayed .zulu writesNull empty "k1" ["highlights", "create"] "usr_1" (callAt 0 (.ok .null)) .null) ∧
    (idempotency .zulu false (serve .zulu false empty [callAt 0 (.ok (.json 1))]) (callAt ttl (.ok (.json 2)))).ran = true ∧
    ¬ Replayed .zulu false (serve .zulu false empty [callAt 0 (.ok (.json 1))]) "k1" ["highlights", "create"] "usr_1"
      (callAt ttl (.ok (.json 2))) (.json 2) := by
  refine ⟨fun writesNull => ⟨by cases writesNull <;> decide, fun law => ?_⟩, by decide, fun law => ?_⟩
  · obtain ⟨-, quiet⟩ := law [] (callAt 1 (.ok .null)) (by simp [InTurn, callAt]) ⟨rfl, by decide, rfl, by decide⟩ rfl (by decide)
    cases writesNull <;> exact absurd quiet (by decide)
  · obtain ⟨-, quiet⟩ := law [] (callAt (ttl + 1) (.ok (.json 3))) (by simp [InTurn, callAt]) ⟨rfl, by decide, rfl, by decide⟩ rfl (by decide)
    exact absurd quiet (by decide)

end Arki.Offline
