import Arki.Lock.Memory
import Mathlib.Data.List.Nodup

/-! What the store keeps of one key, and what a call on another key leaves alone. -/

set_option autoImplicit false

namespace Arki.Lock

namespace MemoryStore

variable {store next other : MemoryStore} {full key : LockKey} {ref place : Ref} {session found : Session}

def IsIn (store : MemoryStore) (ref : Ref) (full : LockKey) (kind : WaitKind) (state : WaitState) : Prop :=
  ∃ session : Session, store.sessions[ref]? = some session ∧ session.full = full ∧ session.kind = kind ∧ session.state = state

def reservedWeight (full : LockKey) (session : Session) : Nat :=
  if session.full = full ∧ session.kind = .permits ∧ session.state = .reserved then session.weight else 0

def reservedReader (full : LockKey) (session : Session) : Nat :=
  if session.full = full ∧ session.kind = .read ∧ session.state = .reserved then 1 else 0

structure Lists (store : MemoryStore) (full : LockKey) (reading : Bool) (line : List Ref) : Prop where
  nodup : line.Nodup
  member : ∀ ref : Ref, ref ∈ line ↔ ∃ session : Session, store.sessions[ref]? = some session ∧ session.full = full ∧
    decide (session.kind = .read) = reading ∧ session.state = .queued

structure Alone (store : MemoryStore) (full : LockKey) : Prop where
  mutexes : full.primitive ≠ .mutex → store.mutexes full = none
  pools : full.primitive ≠ .semaphore → store.pools full = none
  shareds : full.primitive ≠ .readWrite → store.shareds full = none

/-- The lines of a key hold its queued waiters, and only the table of its family knows it. -/
structure Lined (store : MemoryStore) (full : LockKey) : Prop where
  line : Lists store full false (store.lines full)
  readerLine : Lists store full true (store.readerLines full)
  family : ∀ (ref : Ref) (session : Session), store.sessions[ref]? = some session → session.full = full →
    session.kind.primitive = full.primitive
  sleeps : ∀ (ref : Ref) (session : Session), store.sessions[ref]? = some session → session.full = full → session.asleep = true →
    session.state = .queued
  alone : Alone store full

structure Same (full : LockKey) (store next : MemoryStore) : Prop where
  mutexes : next.mutexes full = store.mutexes full
  pools : next.pools full = store.pools full
  shareds : next.shareds full = store.shareds full
  lines : next.lines full = store.lines full
  readerLines : next.readerLines full = store.readerLines full
  watchers : next.watchers full = store.watchers full
  sessions : ∀ (ref : Ref) (session : Session), session.full = full → (next.sessions[ref]? = some session ↔ store.sessions[ref]? = some session)
  total : ∀ weigh : Session → Nat, (∀ session, session.full ≠ full → weigh session = 0) →
    Heap.total weigh next.sessions = Heap.total weigh store.sessions

def Apart (key : LockKey) (store next : MemoryStore) : Prop := ∀ full, full ≠ key → Same full store next

theorem Same.refl (full : LockKey) (store : MemoryStore) : Same full store store :=
  ⟨rfl, rfl, rfl, rfl, rfl, rfl, fun _ _ _ => .rfl, fun _ _ => rfl⟩

theorem Same.trans (first : Same full store next) (second : Same full next other) : Same full store other where
  mutexes := second.mutexes.trans first.mutexes
  pools := second.pools.trans first.pools
  shareds := second.shareds.trans first.shareds
  lines := second.lines.trans first.lines
  readerLines := second.readerLines.trans first.readerLines
  watchers := second.watchers.trans first.watchers
  sessions ref session here := (second.sessions ref session here).trans (first.sessions ref session here)
  total weigh light := (second.total weigh light).trans (first.total weigh light)

theorem Apart.refl (key : LockKey) (store : MemoryStore) : Apart key store store := fun full _ => .refl full store

theorem Apart.trans (first : Apart key store next) (second : Apart key next other) : Apart key store other :=
  fun full apart => (first full apart).trans (second full apart)

theorem apart_setMutex (state : Option MutexState) : Apart key store (store.setMutex key state) := fun _ apart =>
  ⟨Function.update_of_ne apart _ _, rfl, rfl, rfl, rfl, rfl, fun _ _ _ => .rfl, fun _ _ => rfl⟩

theorem apart_setPool (pool : Option Pool) : Apart key store (store.setPool key pool) := fun _ apart =>
  ⟨rfl, Function.update_of_ne apart _ _, rfl, rfl, rfl, rfl, fun _ _ _ => .rfl, fun _ _ => rfl⟩

theorem apart_setShared (state : Option Shared) : Apart key store (store.setShared key state) := fun _ apart =>
  ⟨rfl, rfl, Function.update_of_ne apart _ _, rfl, rfl, rfl, fun _ _ _ => .rfl, fun _ _ => rfl⟩

theorem apart_wakeWatchers : Apart key store (store.wakeWatchers key) := fun _ apart =>
  ⟨rfl, rfl, rfl, rfl, rfl, Function.update_of_ne apart _ _, fun _ _ _ => .rfl, fun _ _ => rfl⟩

theorem apart_setLine (line : List Ref) : Apart session.full store (store.setLine session line) := by
  intro full apart
  unfold setLine
  split
  · exact ⟨rfl, rfl, rfl, rfl, Function.update_of_ne apart _ _, rfl, fun _ _ _ => .rfl, fun _ _ => rfl⟩
  · exact ⟨rfl, rfl, rfl, Function.update_of_ne apart _ _, rfl, rfl, fun _ _ _ => .rfl, fun _ _ => rfl⟩

theorem apart_change {change : Session → Session}
    (here : ∀ session, store.sessions[ref]? = some session → session.full = key ∧ (change session).full = key) :
    Apart key store (store.change ref change) := by
  intro full apart
  refine ⟨rfl, rfl, rfl, rfl, rfl, rfl, fun place session at_ => ?_, fun weigh light => ?_⟩
  · by_cases same : ref = place
    · subst same
      have elsewhere (other : Session) (same : other.full = key) : other ≠ session := by
        rintro rfl
        exact apart (at_.symm.trans same)
      cases there : store.sessions[ref]? with
      | none => simp [MemoryStore.change, there]
      | some old =>
        obtain ⟨was, stays⟩ := here old there
        simp [MemoryStore.change, there, elsewhere _ was, elsewhere _ stays]
    · simp only [MemoryStore.change, Heap.getElem?_modify_other same]
  · refine Heap.total_modify_same fun old there => ?_
    obtain ⟨was, stays⟩ := here old there
    rw [light _ (by rw [stays]; exact apart.symm), light _ (by rw [was]; exact apart.symm)]

theorem apart_push (here : session.full = key) : Apart key store (store.push session) := by
  intro full apart
  refine ⟨rfl, rfl, rfl, rfl, rfl, rfl, fun place found at_ => ?_, fun weigh light => ?_⟩
  · simp only [push, List.getElem?_append]
    split
    · rfl
    · next past =>
      have none_ : store.sessions[place]? = none := by simpa using past
      rw [none_]
      constructor
      · intro same
        have isSession := List.mem_singleton.mp (List.mem_of_getElem? same)
        rw [isSession, here] at at_
        exact absurd at_.symm apart
      · intro same
        cases same
  · rw [push, Heap.total_push, light session (by rw [here]; exact apart.symm), Nat.add_zero]

theorem apart_setState (there : store.sessions[ref]? = some session) (state : WaitState) :
    Apart session.full store (store.setState ref state) := by
  refine apart_change fun old found => ?_
  rw [there] at found
  cases found
  exact ⟨rfl, rfl⟩

structure Moves (store next : MemoryStore) (ref : Ref) (old new : Session) : Prop where
  there : store.sessions[ref]? = some old
  lookup : ∀ place : Ref, next.sessions[place]? = if place = ref then some new else store.sessions[place]?
  total : ∀ weigh : Session → Nat,
    Heap.total weigh next.sessions + weigh old = Heap.total weigh store.sessions + weigh new

variable {old middle new : Session}

theorem Moves.trans (first : Moves store next ref old middle) (second : Moves next other ref middle new) :
    Moves store other ref old new := by
  refine ⟨first.there, fun place => ?_, fun weigh => ?_⟩
  · rw [second.lookup, first.lookup]
    split <;> rfl
  · have left := first.total weigh
    have right := second.total weigh
    omega

theorem moves_change (there : store.sessions[ref]? = some old) (change : Session → Session) :
    Moves store (store.change ref change) ref old (change old) := by
  refine ⟨there, fun place => ?_, fun weigh => Heap.total_modify there change⟩
  split
  · next same =>
    subst same
    exact Heap.getElem?_modify_self there change
  · next apart => exact Heap.getElem?_modify_other (Ne.symm apart) change

theorem moves_setState (there : store.sessions[ref]? = some old) (state : WaitState) :
    Moves store (store.setState ref state) ref old { old with state := state } := moves_change there _

theorem Moves.at_self (moves : Moves store next ref old new) : next.sessions[ref]? = some new := by
  rw [moves.lookup, if_pos rfl]

theorem Moves.isIn (moves : Moves store next ref old new) (kind : WaitKind) (state : WaitState) (place : Ref) :
    IsIn next place full kind state ↔
      if place = ref then new.full = full ∧ new.kind = kind ∧ new.state = state else IsIn store place full kind state := by
  simp only [IsIn, moves.lookup]
  split
  · simp
  · exact .rfl

theorem setLine_lineOf (line : List Ref) : (store.setLine session line).lineOf session = line := by
  unfold setLine lineOf
  split <;> simp

theorem setLine_other (line : List Ref) : if session.kind = .read then (store.setLine session line).lines = store.lines
    else (store.setLine session line).readerLines = store.readerLines := by
  unfold setLine
  split <;> rfl

theorem setLine_sessions (line : List Ref) : (store.setLine session line).sessions = store.sessions := by
  unfold setLine
  split <;> rfl

theorem moves_setLine (line : List Ref) (there : store.sessions[ref]? = some old) :
    Moves store (store.setLine session line) ref old old := by
  refine ⟨there, fun place => ?_, fun weigh => by rw [setLine_sessions]⟩
  rw [setLine_sessions]
  split
  · next same => rw [same, there]
  · rfl

theorem Lists.joined {reading : Bool} {line : List Ref} (lists : Lists store full reading line) (moves : Moves store next ref old new)
    (was : old.state ≠ .queued) (here : new.full = full) (side : decide (new.kind = .read) = reading)
    (queued : new.state = .queued) : Lists next full reading (line ++ [ref]) := by
  have absent : ref ∉ line := by
    intro member
    obtain ⟨found, there, -, -, waits⟩ := (lists.member ref).mp member
    rw [moves.there] at there
    cases there
    exact was waits
  refine ⟨?_, fun place => ?_⟩
  · refine List.Nodup.append lists.nodup (List.nodup_singleton ref) ?_
    rw [List.disjoint_singleton]
    exact absent
  · rw [List.mem_append, List.mem_singleton, moves.lookup]
    by_cases same : place = ref
    · subst same
      simp [here, side, queued]
    · simp [same, lists.member]

theorem Lists.left {reading : Bool} {line : List Ref} (lists : Lists store full reading line) (moves : Moves store next ref old new)
    (leaves : new.state ≠ .queued) : Lists next full reading (line.erase ref) := by
  refine ⟨lists.nodup.erase ref, fun place => ?_⟩
  rw [lists.nodup.mem_erase_iff, moves.lookup, lists.member]
  by_cases same : place = ref
  · subst same
    simp [leaves]
  · simp [same]

theorem Lists.stays {reading : Bool} {line : List Ref} (lists : Lists store full reading line) (moves : Moves store next ref old new)
    (same : old.full = full ∧ decide (old.kind = .read) = reading ∧ old.state = .queued ↔
      new.full = full ∧ decide (new.kind = .read) = reading ∧ new.state = .queued) : Lists next full reading line := by
  refine ⟨lists.nodup, fun place => ?_⟩
  rw [lists.member, moves.lookup]
  split
  · next here =>
    subst here
    simpa [moves.there] using same
  · exact .rfl

inductive Follows (store next : MemoryStore) (ref : Ref) (old new : Session) : Prop where
  | joins (was : old.state ≠ .queued) (queued : new.state = .queued)
      (line : next.lineOf old = store.lineOf old ++ [ref]) : Follows store next ref old new
  | leaves (was : old.state = .queued) (left : new.state ≠ .queued)
      (line : next.lineOf old = (store.lineOf old).erase ref) : Follows store next ref old new
  | stays (same : old.state = .queued ↔ new.state = .queued) (line : next.lineOf old = store.lineOf old) :
      Follows store next ref old new

theorem Lined.moved (lined : Lined store full) (moves : Moves store next ref old new) (here : old.full = full)
    (stays : new.full = old.full) (kind : new.kind = old.kind) (awake : new.asleep = true → new.state = .queued)
    (follows : Follows store next ref old new)
    (otherLine : if old.kind = .read then next.lines full = store.lines full else next.readerLines full = store.readerLines full)
    (alone : Alone next full) : Lined next full := by
  have family := lined.family ref old moves.there here
  -- one side of the key has the waiter, and its line follows
  have side (reading : Bool) (isSide : decide (old.kind = .read) = reading) (line : List Ref)
      (lists : Lists store full reading line) (isLine : store.lineOf old = line) : Lists next full reading (next.lineOf old) := by
    cases follows with
    | joins was queued joined =>
      rw [joined, isLine]
      exact lists.joined moves was (stays.trans here) (kind ▸ isSide) queued
    | leaves was left gone =>
      rw [gone, isLine]
      exact lists.left moves left
    | stays same still =>
      rw [still, isLine]
      refine lists.stays moves ?_
      rw [stays, kind, here, same]
  have away (reading : Bool) (isOther : decide (old.kind = .read) ≠ reading) {line : List Ref}
      (lists : Lists store full reading line) : Lists next full reading line := by
    refine lists.stays moves ?_
    rw [kind]
    simp [isOther]
  refine ⟨?_, ?_, ?_, ?_, alone⟩
  · by_cases reads : old.kind = .read
    · rw [if_pos reads] at otherLine
      rw [otherLine]
      exact away false (by simp [reads]) lined.line
    · have lineIs : next.lineOf old = next.lines full := by simp [lineOf, reads, here]
      rw [← lineIs]
      exact side false (by simp [reads]) _ lined.line (by simp [lineOf, reads, here])
  · by_cases reads : old.kind = .read
    · have lineIs : next.lineOf old = next.readerLines full := by simp [lineOf, reads, here]
      rw [← lineIs]
      exact side true (by simp [reads]) _ lined.readerLine (by simp [lineOf, reads, here])
    · rw [if_neg reads] at otherLine
      rw [otherLine]
      exact away true (by simp [reads]) lined.readerLine
  · intro place found at_ isHere
    rw [moves.lookup] at at_
    split at at_
    · cases at_
      rw [kind]
      exact family
    · exact lined.family place found at_ isHere
  · intro place found at_ isHere asleep
    rw [moves.lookup] at at_
    split at at_
    · cases at_
      exact awake asleep
    · exact lined.sleeps place found at_ isHere asleep

/-- The tables beside the waiters and lines may change, where only the family's own does. -/
theorem Lined.of_tables (lined : Lined store full) (sessions : next.sessions = store.sessions)
    (lines : next.lines full = store.lines full) (readerLines : next.readerLines full = store.readerLines full)
    (alone : Alone next full) : Lined next full := by
  obtain ⟨line, readerLine, family, sleeps, -⟩ := lined
  refine ⟨⟨lines ▸ line.nodup, ?_⟩, ⟨readerLines ▸ readerLine.nodup, ?_⟩, sessions ▸ family, sessions ▸ sleeps, alone⟩
  · rw [lines, sessions]
    exact line.member
  · rw [readerLines, sessions]
    exact readerLine.member

theorem Same.alone (same : Same full store next) (alone : Alone store full) : Alone next full :=
  ⟨fun apart => same.mutexes.trans (alone.mutexes apart), fun apart => same.pools.trans (alone.pools apart),
    fun apart => same.shareds.trans (alone.shareds apart)⟩

theorem Same.isIn (same : Same full store next) (kind : WaitKind) (state : WaitState) (ref : Ref) :
    IsIn next ref full kind state ↔ IsIn store ref full kind state := by
  constructor
  · rintro ⟨session, there, here, rest⟩
    exact ⟨session, (same.sessions ref session here).mp there, here, rest⟩
  · rintro ⟨session, there, here, rest⟩
    exact ⟨session, (same.sessions ref session here).mpr there, here, rest⟩

theorem Same.lists (same : Same full store next) {reading : Bool} {line : List Ref} (lists : Lists store full reading line) :
    Lists next full reading line := by
  refine ⟨lists.nodup, fun ref => (lists.member ref).trans ⟨?_, ?_⟩⟩
  · rintro ⟨session, there, here, rest⟩
    exact ⟨session, (same.sessions ref session here).mpr there, here, rest⟩
  · rintro ⟨session, there, here, rest⟩
    exact ⟨session, (same.sessions ref session here).mp there, here, rest⟩

theorem Same.lined (same : Same full store next) (lined : Lined store full) : Lined next full where
  line := same.lines ▸ same.lists lined.line
  readerLine := same.readerLines ▸ same.lists lined.readerLine
  family ref session there here := lined.family ref session ((same.sessions ref session here).mp there) here
  sleeps ref session there here := lined.sleeps ref session ((same.sessions ref session here).mp there) here
  alone := same.alone lined.alone

theorem moves_join (there : store.sessions[ref]? = some old) (session : Session) :
    Moves store (store.join ref session) ref old { old with state := .queued } :=
  (moves_setLine _ there).trans (moves_change ((setLine_sessions _).symm ▸ there) _)

theorem moves_leave (there : store.sessions[ref]? = some old) (session : Session) :
    Moves store (store.leave ref session) ref old { old with state := .idle } :=
  (moves_setLine _ there).trans (moves_change ((setLine_sessions _).symm ▸ there) _)

theorem moves_handTo (there : store.sessions[ref]? = some old) (session : Session) :
    Moves store (store.handTo ref session) ref old { old with state := .reserved, asleep := false } :=
  (moves_leave there session).trans (moves_change (moves_leave there session).at_self _)

structure Beside (store next : MemoryStore) (session : Session) : Prop where
  otherLine : if session.kind = .read then next.lines = store.lines else next.readerLines = store.readerLines
  mutexes : next.mutexes = store.mutexes
  pools : next.pools = store.pools
  shareds : next.shareds = store.shareds
  watchers : next.watchers = store.watchers
  lastFence : next.lastFence = store.lastFence

theorem beside_setLine (line : List Ref) : Beside store (store.setLine session line) session := by
  refine ⟨setLine_other line, ?_, ?_, ?_, ?_, ?_⟩
  all_goals
    unfold setLine
    split <;> rfl

theorem Beside.change (beside : Beside store next session) (change : Session → Session) :
    Beside store (next.change ref change) session :=
  ⟨beside.otherLine, beside.mutexes, beside.pools, beside.shareds, beside.watchers, beside.lastFence⟩

theorem beside_join : Beside store (store.join ref session) session := (beside_setLine _).change _

theorem beside_leave : Beside store (store.leave ref session) session := (beside_setLine _).change _

theorem beside_handTo : Beside store (store.handTo ref session) session := beside_leave.change _

theorem Beside.alone (beside : Beside store next session) (alone : Alone store full) : Alone next full :=
  ⟨beside.mutexes ▸ alone.mutexes, beside.pools ▸ alone.pools, beside.shareds ▸ alone.shareds⟩

theorem Beside.lines (beside : Beside store next session) :
    if session.kind = .read then next.lines full = store.lines full else next.readerLines full = store.readerLines full := by
  have other := beside.otherLine
  split at other
  · next reads => simp only [if_pos reads, other]
  · next writes => simp only [if_neg writes, other]

theorem lined_join (lined : Lined store full) (there : store.sessions[ref]? = some session) (here : session.full = full)
    (idle : session.state = .idle) : Lined (store.join ref session) full := by
  refine lined.moved (moves_join there session) here rfl rfl (fun _ => rfl) (.joins ?_ rfl ?_) beside_join.lines
    (beside_join.alone lined.alone)
  · rw [idle]
    exact nofun
  · exact setLine_lineOf _

theorem lined_handTo (lined : Lined store full) (there : store.sessions[ref]? = some session) (here : session.full = full)
    (queued : session.state = .queued) : Lined (store.handTo ref session) full := by
  refine lined.moved (moves_handTo there session) here rfl rfl nofun (.leaves queued nofun ?_) beside_handTo.lines
    (beside_handTo.alone lined.alone)
  exact setLine_lineOf _

theorem lined_leave (lined : Lined store full) (there : store.sessions[ref]? = some old) (here : old.full = full)
    (queued : old.state = .queued) (awake : old.asleep = false) (likeness : session.full = old.full ∧ session.kind = old.kind) :
    Lined (store.leave ref session) full := by
  have lineOf_ (any : MemoryStore) : any.lineOf old = any.lineOf session := by
    unfold lineOf
    rw [likeness.1, likeness.2]
  refine lined.moved (moves_leave there session) here rfl rfl ?_ (.leaves queued nofun ?_) ?_ (beside_leave.alone lined.alone)
  · intro asleep
    rw [awake] at asleep
    cases asleep
  · rw [lineOf_, lineOf_]
    exact setLine_lineOf _
  · rw [← likeness.2]
    exact beside_leave.lines

theorem lined_change (lined : Lined store full) (there : store.sessions[ref]? = some old) (here : old.full = full)
    {change : Session → Session} (stays : (change old).full = old.full) (kind : (change old).kind = old.kind)
    (awake : (change old).asleep = true → (change old).state = .queued)
    (same : old.state = .queued ↔ (change old).state = .queued) : Lined (store.change ref change) full := by
  refine lined.moved (moves_change there change) here stays kind awake (.stays same rfl) ?_ ⟨?_, ?_, ?_⟩
  · split <;> rfl
  · exact lined.alone.mutexes
  · exact lined.alone.pools
  · exact lined.alone.shareds

theorem apart_join (there : store.sessions[ref]? = some session) : Apart session.full store (store.join ref session) :=
  (apart_setLine _).trans (apart_setState ((setLine_sessions _).symm ▸ there) _)

theorem apart_leave (there : store.sessions[ref]? = some old) (likeness : old.full = session.full) :
    Apart session.full store (store.leave ref session) :=
  (apart_setLine _).trans (likeness ▸ apart_setState ((setLine_sessions _).symm ▸ there) _)

theorem apart_handTo (there : store.sessions[ref]? = some session) : Apart session.full store (store.handTo ref session) := by
  refine (apart_leave there rfl).trans (apart_change fun old found => ?_)
  rw [(moves_leave there session).at_self] at found
  cases found
  exact ⟨rfl, rfl⟩

theorem lined_push (lined : Lined store full) (out : session.state ≠ .queued) (awake : session.asleep = false)
    (family : session.full = full → session.kind.primitive = full.primitive) : Lined (store.push session) full := by
  have look (place : Ref) (found : Session) : (store.push session).sessions[place]? = some found ↔
      store.sessions[place]? = some found ∨ place = store.sessions.length ∧ found = session := by
    simp only [push, List.getElem?_append]
    split
    · next inside =>
      have apart : place ≠ store.sessions.length := Nat.ne_of_lt inside
      simp [apart]
    · next outside =>
      have none_ : store.sessions[place]? = none := by simpa using outside
      rw [none_]
      by_cases last : place = store.sessions.length
      · subst last
        simp [eq_comm]
      · have past : store.sessions.length < place := Nat.lt_of_le_of_ne (Nat.le_of_not_lt outside) (Ne.symm last)
        have empty : [session][place - store.sessions.length]? = none := by
          simp
          omega
        simp [empty, last]
  have lists {reading : Bool} {line : List Ref} (was : Lists store full reading line) :
      Lists (store.push session) full reading line := by
    refine ⟨was.nodup, fun place => (was.member place).trans ⟨?_, ?_⟩⟩
    · rintro ⟨found, there, rest⟩
      exact ⟨found, (look place found).mpr (.inl there), rest⟩
    · rintro ⟨found, there, here, side, queued⟩
      rcases (look place found).mp there with there | ⟨-, rfl⟩
      · exact ⟨found, there, here, side, queued⟩
      · exact absurd queued out
  refine ⟨lists lined.line, lists lined.readerLine, ?_, ?_, ⟨?_, ?_, ?_⟩⟩
  · intro place found there here
    rcases (look place found).mp there with there | ⟨-, rfl⟩
    · exact lined.family place found there here
    · exact family here
  · intro place found there here asleep
    rcases (look place found).mp there with there | ⟨-, rfl⟩
    · exact lined.sleeps place found there here asleep
    · rw [awake] at asleep
      cases asleep
  · exact lined.alone.mutexes
  · exact lined.alone.pools
  · exact lined.alone.shareds

theorem push_isIn (kind : WaitKind) (state : WaitState) (place : Ref) : IsIn (store.push session) place full kind state ↔
    IsIn store place full kind state ∨
      place = store.sessions.length ∧ session.full = full ∧ session.kind = kind ∧ session.state = state := by
  simp only [IsIn, push, List.getElem?_append]
  split
  · next inside =>
    have apart : place ≠ store.sessions.length := Nat.ne_of_lt inside
    simp [apart]
  · next outside =>
    have none_ : store.sessions[place]? = none := by simpa using outside
    by_cases last : place = store.sessions.length
    · subst last
      simp
    · have past : store.sessions.length < place := Nat.lt_of_le_of_ne (Nat.le_of_not_lt outside) (Ne.symm last)
      have empty : [session][place - store.sessions.length]? = none := by
        simp
        omega
      simp [empty, last, none_]

def Weighs (store : MemoryStore) (ref : Ref) (full : LockKey) (weight : Nat) : Prop :=
  ∃ session : Session, store.sessions[ref]? = some session ∧ session.full = full ∧ session.weight = weight

structure Alike (full : LockKey) (store next : MemoryStore) : Prop where
  mutexes : next.mutexes full = store.mutexes full
  pools : next.pools full = store.pools full
  shareds : next.shareds full = store.shareds full
  lines : next.lines full = store.lines full
  readerLines : next.readerLines full = store.readerLines full
  watchers : next.watchers full = store.watchers full
  isIn : ∀ kind state ref, IsIn next ref full kind state ↔ IsIn store ref full kind state
  weighs : ∀ ref weight, Weighs next ref full weight ↔ Weighs store ref full weight
  weights : Heap.total (reservedWeight full) next.sessions = Heap.total (reservedWeight full) store.sessions
  readers : Heap.total (reservedReader full) next.sessions = Heap.total (reservedReader full) store.sessions

theorem reservedWeight_other (apart : session.full ≠ full) : reservedWeight full session = 0 := by
  simp [reservedWeight, apart]

theorem reservedReader_other (apart : session.full ≠ full) : reservedReader full session = 0 := by
  simp [reservedReader, apart]

theorem reservedWeight_reserved (here : session.full = full) (kind : session.kind = .permits) (reserved : session.state = .reserved) :
    reservedWeight full session = session.weight := by
  simp [reservedWeight, here, kind, reserved]

theorem reservedWeight_out (out : session.state ≠ .reserved) : reservedWeight full session = 0 := by
  simp [reservedWeight, out]

theorem reservedReader_reserved (here : session.full = full) (kind : session.kind = .read) (reserved : session.state = .reserved) :
    reservedReader full session = 1 := by
  simp [reservedReader, here, kind, reserved]

theorem reservedReader_out (out : session.state ≠ .reserved) : reservedReader full session = 0 := by
  simp [reservedReader, out]

theorem reservedReader_writes (kind : session.kind ≠ .read) : reservedReader full session = 0 := by
  simp [reservedReader, kind]

theorem Same.alike (same : Same full store next) : Alike full store next where
  mutexes := same.mutexes
  pools := same.pools
  shareds := same.shareds
  lines := same.lines
  readerLines := same.readerLines
  watchers := same.watchers
  isIn := same.isIn
  weighs ref weight := by
    constructor
    · rintro ⟨session, there, here, rest⟩
      exact ⟨session, (same.sessions ref session here).mp there, here, rest⟩
    · rintro ⟨session, there, here, rest⟩
      exact ⟨session, (same.sessions ref session here).mpr there, here, rest⟩
  weights := same.total _ fun _ => reservedWeight_other
  readers := same.total _ fun _ => reservedReader_other

theorem Moves.isIn_same {kind : WaitKind} {state : WaitState} (moves : Moves store next ref old new)
    (same : old.full = full ∧ old.kind = kind ∧ old.state = state ↔ new.full = full ∧ new.kind = kind ∧ new.state = state)
    (place : Ref) : IsIn next place full kind state ↔ IsIn store place full kind state := by
  rw [moves.isIn]
  split
  · next here =>
    subst here
    simp only [← same, IsIn, moves.there, Option.some.injEq, exists_eq_left']
  · rfl

theorem alike_change (there : store.sessions[ref]? = some old) {change : Session → Session}
    (same : (change old).full = old.full ∧ (change old).kind = old.kind ∧ (change old).state = old.state ∧
      (change old).weight = old.weight) : Alike full store (store.change ref change) := by
  obtain ⟨stays, kind, state, weight⟩ := same
  have moves := moves_change there change
  refine ⟨rfl, rfl, rfl, rfl, rfl, rfl, fun kind_ state_ => moves.isIn_same (by rw [stays, kind, state]), ?_, ?_, ?_⟩
  · intro place heft
    simp only [Weighs, moves.lookup]
    split
    · next here =>
      subst here
      simp [there, stays, weight]
    · exact .rfl
  · refine Heap.total_modify_same fun other found => ?_
    rw [there] at found
    cases found
    simp only [reservedWeight, stays, kind, state, weight]
  · refine Heap.total_modify_same fun other found => ?_
    rw [there] at found
    cases found
    simp only [reservedReader, stays, kind, state]

end MemoryStore

end Arki.Lock
