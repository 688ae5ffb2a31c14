import Arki.Lock.RedisSets

/-! Mutexes and read/write locks: one holder, or readers only. -/

set_option autoImplicit false

namespace Arki.Lock.Redis

open Expiring (Cell Fields)

variable {now : Nat} {token : LockToken} {ttl : Nat}

structure MutexGranted (lock : Granted MutexKeys) : Prop where
  recorded : Recorded lock.grants lock.keys.fence
  given : ∀ cell, lock.keys.lock = some cell → ∃ ttl fence,
    lock.grants.last cell.value = some (.acquire cell.value ttl, fence) ∧ lock.keys.fence = some fence

variable {mutex : Granted MutexKeys} {keys : MutexKeys}

theorem MutexGranted.initial : MutexGranted ⟨⟨none, none⟩, []⟩ where
  recorded := ⟨.nil, nofun⟩
  given _ is := by cases is

theorem live_iff : keys.Live now token ↔ ∃ cell, Cell.seen now keys.lock = some cell ∧ cell.value = token := by
  rw [MutexKeys.Live, Option.map_eq_some_iff]

theorem MutexGranted.kept (granted : MutexGranted mutex) {lock : Option (Cell LockToken)}
    (same : ∀ cell, lock = some cell → ∃ before, mutex.keys.lock = some before ∧ before.value = cell.value) :
    MutexGranted ⟨⟨lock, mutex.keys.fence⟩, mutex.grants⟩ where
  recorded := granted.recorded
  given cell is := by
    obtain ⟨before, was, value⟩ := same cell is
    rw [← value]
    exact granted.given before was

theorem runMutex_granted (granted : MutexGranted mutex) (now : Nat) (script : Script) : MutexGranted (runMutex now mutex script) := by
  have dropped : MutexGranted ⟨⟨none, mutex.keys.fence⟩, mutex.grants⟩ := granted.kept nofun
  cases script with
  | acquire token ttl =>
    show MutexGranted ⟨(acquire now mutex.keys token ttl).1, noted mutex.grants _ _ (acquire now mutex.keys token ttl).2⟩
    unfold acquire
    cases found : Cell.seen now mutex.keys.lock with
    | none =>
      have fresh : ¬ mutex.keys.Live now token := by
        rw [live_iff, found]
        rintro ⟨_, is, _⟩
        cases is
      dsimp only
      rw [show decide (mutex.keys.Live now token) = false from decide_eq_false fresh, noted_new]
      refine ⟨granted.recorded.next _, fun cell is => ?_⟩
      cases is
      exact ⟨ttl, _, last_cons_self, rfl⟩
    | some cell =>
      have was := (Cell.seen_some found).1
      dsimp only
      by_cases own : cell.value = token
      · have live : mutex.keys.Live now token := live_iff.mpr ⟨cell, found, own⟩
        obtain ⟨_, fence, -, counter⟩ := granted.given cell was
        simp only [if_pos own, counter, Option.getD_some]
        rw [show decide (mutex.keys.Live now token) = true from decide_eq_true live, noted_held, ← counter]
        apply granted.kept
        intro other is
        cases is
        exact ⟨cell, was, rfl⟩
      · simp only [if_neg own]
        rw [noted_refused (le_refl (0 : Int))]
        apply granted.kept
        intro other is
        cases is
        exact ⟨cell, was, rfl⟩
  | release token =>
    show MutexGranted ⟨(release now mutex.keys token).1, mutex.grants⟩
    unfold release
    cases found : Cell.seen now mutex.keys.lock with
    | none =>
      dsimp only
      exact dropped
    | some cell =>
      dsimp only
      split
      · exact dropped
      · apply granted.kept
        intro other is
        cases is
        exact ⟨cell, (Cell.seen_some found).1, rfl⟩
  | extend token ttl =>
    show MutexGranted ⟨(extend now mutex.keys token ttl).1, mutex.grants⟩
    unfold extend
    cases found : Cell.seen now mutex.keys.lock with
    | none =>
      dsimp only
      exact dropped
    | some cell =>
      dsimp only
      split
      all_goals
        apply granted.kept
        intro other is
        cases is
        exact ⟨cell, (Cell.seen_some found).1, rfl⟩
  | _ => exact granted

theorem live_unique {other : LockToken} (live : keys.Live now token) (also : keys.Live now other) : token = other :=
  Option.some.inj (live.symm.trans also)

theorem acquire_again (granted : MutexGranted mutex) (live : mutex.keys.Live now token) : ∃ ttl fence,
    mutex.grants.last token = some (.acquire token ttl, fence) ∧ (acquire now mutex.keys token ttl).2 = ((fence : Int), now) := by
  obtain ⟨cell, found, rfl⟩ := live_iff.mp live
  obtain ⟨ttl, fence, last, counter⟩ := granted.given cell (Cell.seen_some found).1
  refine ⟨ttl, fence, last, ?_⟩
  unfold acquire
  simp only [found, counter, ↓reduceIte, Option.getD_some]

def MutexKeys.Same (now : Nat) (before after : MutexKeys) : Prop :=
  ∀ later, now ≤ later → Cell.seen later after.lock = Cell.seen later before.lock

theorem release_lapsed (lapsed : ¬ keys.Live now token) :
    (release now keys token).2 = 0 ∧ MutexKeys.Same now keys (release now keys token).1 := by
  unfold release
  cases found : Cell.seen now keys.lock with
  | none =>
    refine ⟨rfl, fun later le => ?_⟩
    dsimp only
    rw [← Cell.seen_seen keys.lock le, found]
  | some cell =>
    have other : cell.value ≠ token := fun own => lapsed (live_iff.mpr ⟨cell, found, own⟩)
    simp only [if_neg other]
    refine ⟨trivial, fun later le => ?_⟩
    rw [← Cell.seen_seen keys.lock le, found]

theorem extend_lapsed (lapsed : ¬ keys.Live now token) (ttl : Nat) :
    (extend now keys token ttl).2 = 0 ∧ MutexKeys.Same now keys (extend now keys token ttl).1 := by
  unfold extend
  cases found : Cell.seen now keys.lock with
  | none =>
    refine ⟨rfl, fun later le => ?_⟩
    dsimp only
    rw [← Cell.seen_seen keys.lock le, found]
  | some cell =>
    have other : cell.value ≠ token := fun own => lapsed (live_iff.mpr ⟨cell, found, own⟩)
    simp only [if_neg other]
    refine ⟨trivial, fun later le => ?_⟩
    rw [← Cell.seen_seen keys.lock le, found]

structure SharedGranted (lock : Granted SharedKeys) : Prop where
  fences : ∀ token, lock.keys.readerFences.get token = none ↔ lock.keys.readers.get token = none
  timed : Timed lock.keys.readers lock.keys.readerFences
  exclusive : lock.keys.writer = none ∨ ∀ token, lock.keys.readers.get token = none
  recorded : Recorded lock.grants lock.keys.fence
  reading : ∀ token fence, lock.keys.readerFences.get token = some fence → ∃ ttl,
    lock.grants.last token = some (.sharedAcquire token ttl .read, fence)
  writing : ∀ cell, lock.keys.writer = some cell → ∃ ttl fence,
    lock.grants.last cell.value = some (.sharedAcquire cell.value ttl .write, fence) ∧ lock.keys.fence = some fence

variable {lock : Granted SharedKeys} {shared : SharedKeys}

theorem SharedGranted.initial : SharedGranted ⟨⟨Fields.empty, none, none, Fields.empty⟩, []⟩ where
  fences _ := Iff.rfl
  timed := .empty
  exclusive := .inl rfl
  recorded := ⟨.nil, nofun⟩
  reading _ _ is := by cases is
  writing _ is := by cases is

theorem writes_iff : shared.Writes now token ↔ ∃ cell, Cell.seen now shared.writer = some cell ∧ cell.value = token := by
  rw [SharedKeys.Writes, Option.map_eq_some_iff]

theorem drops_shared (tokens : List LockToken) : ∀ keys : SharedKeys, tokens.foldl SharedKeys.drop keys =
    ⟨keys.readers.removeAll tokens, keys.writer, keys.fence, keys.readerFences.removeAll tokens⟩ := by
  induction tokens with
  | nil => exact fun _ => rfl
  | cons token tokens ih => exact fun keys => ih (keys.drop token)

theorem SharedGranted.without (granted : SharedGranted lock) (tokens : List LockToken) :
    SharedGranted ⟨tokens.foldl SharedKeys.drop lock.keys, lock.grants⟩ := by
  rw [drops_shared]
  have readers (token : LockToken) : (lock.keys.readers.removeAll tokens).get token = if token ∈ tokens then none else _ :=
    Fields.get_removeAll _ _
  have fences (token : LockToken) : (lock.keys.readerFences.removeAll tokens).get token = if token ∈ tokens then none else _ :=
    Fields.get_removeAll _ _
  refine ⟨fun token => ?_, ?_, granted.exclusive.imp_right fun nobody token => ?_, granted.recorded, fun token fence is => ?_,
    granted.writing⟩
  · show (lock.keys.readerFences.removeAll tokens).get token = none ↔ (lock.keys.readers.removeAll tokens).get token = none
    rw [readers, fences]
    split
    · exact Iff.rfl
    · exact granted.fences token
  · show Timed (lock.keys.readers.removeAll tokens) (lock.keys.readerFences.removeAll tokens)
    by_cases left : ∃ token, (lock.keys.readers.removeAll tokens).get token ≠ none
    · obtain ⟨token, left⟩ := left
      have leftFence : (lock.keys.readerFences.removeAll tokens).get token ≠ none := by
        rw [readers] at left
        rw [fences]
        split at left
        · exact absurd rfl left
        · next apart =>
          rw [if_neg apart, Ne, granted.fences token]
          exact left
      constructor
      · rw [Fields.expiry_removeAll _ _ left, Fields.expiry_removeAll _ _ leftFence]
        exact granted.timed.together
      · intro other score is
        rw [readers] at is
        rw [Fields.expiry_removeAll _ _ left]
        split at is
        · cases is
        · exact granted.timed.covered other score is
    · simp only [not_exists, ne_eq, not_not] at left
      have leftFence (token : LockToken) : (lock.keys.readerFences.removeAll tokens).get token = none := by
        have gone := left token
        rw [readers] at gone
        rw [fences]
        split
        · rfl
        · next apart =>
          rw [if_neg apart] at gone
          exact (granted.fences token).mpr gone
      constructor
      · rw [Fields.expiry_of_isEmpty (Fields.isEmpty_iff.mpr left), Fields.expiry_of_isEmpty (Fields.isEmpty_iff.mpr leftFence)]
      · intro other score is
        rw [left] at is
        cases is
  · show (lock.keys.readers.removeAll tokens).get token = none
    rw [readers, nobody, ite_self]
  · have is : (lock.keys.readerFences.removeAll tokens).get token = some fence := is
    rw [fences] at is
    split at is
    · cases is
    · exact granted.reading token fence is

theorem SharedGranted.seen (granted : SharedGranted lock) (now : Nat) : SharedGranted ⟨lock.keys.seen now, lock.grants⟩ := by
  have writer (cell : Cell LockToken) (is : (lock.keys.seen now).writer = some cell) : lock.keys.writer = some cell :=
    (Cell.seen_some is).1
  have exclusive : (lock.keys.seen now).writer = none ∨ ∀ token, lock.keys.readers.get token = none := by
    rcases granted.exclusive with nobody | readers
    · left
      show Cell.seen now lock.keys.writer = none
      rw [nobody]
      rfl
    · exact .inr readers
  rcases granted.timed.seen now with ⟨set, hash⟩ | ⟨set, hash⟩
  · refine ⟨fun token => ?_, ?_, ?_, granted.recorded, fun token fence is => ?_, fun cell is => granted.writing cell (writer cell is)⟩
    · show (lock.keys.readerFences.seen now).get token = none ↔ (lock.keys.readers.seen now).get token = none
      rw [set, hash]
      exact granted.fences token
    · show Timed (lock.keys.readers.seen now) (lock.keys.readerFences.seen now)
      rw [set, hash]
      exact granted.timed
    · show _ ∨ ∀ token, (lock.keys.readers.seen now).get token = none
      rw [set]
      exact exclusive
    · have is : (lock.keys.readerFences.seen now).get token = some fence := is
      rw [hash] at is
      exact granted.reading token fence is
  · refine ⟨fun token => ?_, ?_, ?_, granted.recorded, fun token fence is => ?_, fun cell is => granted.writing cell (writer cell is)⟩
    · show (lock.keys.readerFences.seen now).get token = none ↔ (lock.keys.readers.seen now).get token = none
      rw [set, hash]
    · show Timed (lock.keys.readers.seen now) (lock.keys.readerFences.seen now)
      rw [set, hash]
      exact .empty
    · show _ ∨ ∀ token, (lock.keys.readers.seen now).get token = none
      rw [set]
      exact .inr fun _ => rfl
    · have is : (lock.keys.readerFences.seen now).get token = some fence := is
      rw [hash] at is
      cases is

/-- The keys that `sharedAcquire` counts. -/
def SharedKeys.counted (now : Nat) (keys : SharedKeys) : SharedKeys := (keys.seen now).pruned now

theorem SharedGranted.counted (granted : SharedGranted lock) (now : Nat) : SharedGranted ⟨lock.keys.counted now, lock.grants⟩ :=
  (granted.seen now).without _

theorem counted_eq : shared.counted now = ⟨(shared.readers.seen now).removeAll (upTo now (shared.readers.seen now)),
    Cell.seen now shared.writer, shared.fence, (shared.readerFences.seen now).removeAll (upTo now (shared.readers.seen now))⟩ :=
  drops_shared _ _

theorem counted_reads : (shared.counted now).readers.get token ≠ none ↔ Ahead now shared.readers token := by
  rw [counted_eq]
  show ((shared.readers.seen now).removeAll (upTo now (shared.readers.seen now))).get token ≠ none ↔ _
  rw [Fields.get_removeAll]
  simp only [mem_upTo]
  constructor
  · intro some_
    split at some_
    · exact absurd rfl some_
    · next apart =>
      obtain ⟨score, is⟩ := Option.ne_none_iff_exists'.mp some_
      refine ⟨score, is, ?_⟩
      by_contra past
      exact apart ⟨score, is, not_lt.mp past⟩
  · rintro ⟨score, is, ahead⟩
    rw [if_neg]
    · rw [Option.mem_def.mp is]
      exact Option.some_ne_none _
    · rintro ⟨other, same, past⟩
      rw [Option.mem_def.mp is] at same
      cases same
      omega

theorem SharedGranted.kept {keys : SharedKeys} {grants : Grants} (reader : keys.readers.get token ≠ none) (nobody : keys.writer = none)
    (fences : ∀ token, keys.readerFences.get token = none ↔ keys.readers.get token = none) (recorded : Recorded grants keys.fence)
    (reading : ∀ token fence, keys.readerFences.get token = some fence → ∃ ttl,
      grants.last token = some (.sharedAcquire token ttl .read, fence)) : SharedGranted ⟨keys.kept now, grants⟩ where
  fences other := by
    show (keep now keys.readers keys.readerFences).2.get other = none ↔ (keep now keys.readers keys.readerFences).1.get other = none
    rw [keep_get_left, keep_get_right]
    exact fences other
  timed := keep_timed reader fun missing => reader ((fences token).mp missing)
  exclusive := .inl nobody
  recorded := recorded
  reading other fence is := by
    have is : (keep now keys.readers keys.readerFences).2.get other = some fence := is
    rw [keep_get_right] at is
    exact reading other fence is
  writing cell is := by
    have is : keys.writer = some cell := is
    rw [nobody] at is
    cases is

theorem SharedGranted.renewed (granted : SharedGranted lock) (reader : lock.keys.readers.get token ≠ none) (score : Nat) :
    SharedGranted ⟨SharedKeys.kept now { lock.keys with readers := lock.keys.readers.put token score }, lock.grants⟩ := by
  apply @SharedGranted.kept now token { lock.keys with readers := lock.keys.readers.put token score }
  · show (lock.keys.readers.put token score).get token ≠ none
    rw [Fields.get_put_self]
    nofun
  · exact granted.exclusive.resolve_right fun nobody => reader (nobody token)
  · intro other
    show _ ↔ (lock.keys.readers.put token score).get other = none
    rw [Fields.get_put]
    by_cases same : other = token
    · rw [if_pos same, same]
      exact ⟨fun missing => absurd ((granted.fences token).mp missing) reader, nofun⟩
    · rw [if_neg same]
      exact granted.fences other
  · exact granted.recorded
  · exact granted.reading

theorem SharedGranted.reader (granted : SharedGranted lock) (nobody : lock.keys.writer = none) (score : Nat) :
    SharedGranted ⟨SharedKeys.kept now
      { lock.keys with
        readers := lock.keys.readers.put token score
        fence := some (incr lock.keys.fence)
        readerFences := lock.keys.readerFences.put token (incr lock.keys.fence) },
      (.sharedAcquire token ttl .read, incr lock.keys.fence) :: lock.grants⟩ := by
  apply @SharedGranted.kept now token
  · show (lock.keys.readers.put token score).get token ≠ none
    rw [Fields.get_put_self]
    nofun
  · exact nobody
  · intro other
    show (lock.keys.readerFences.put token _).get other = none ↔ (lock.keys.readers.put token score).get other = none
    rw [Fields.get_put, Fields.get_put]
    split
    · exact ⟨nofun, nofun⟩
    · exact granted.fences other
  · exact granted.recorded.next _
  · intro other fence is
    have is : (lock.keys.readerFences.put token (incr lock.keys.fence)).get other = some fence := is
    rw [Fields.get_put] at is
    by_cases same : other = token
    · rw [if_pos same] at is
      cases is
      exact ⟨ttl, by rw [same]; exact last_cons_self⟩
    · rw [if_neg same] at is
      obtain ⟨ttl', last⟩ := granted.reading other fence is
      exact ⟨ttl', (last_cons_of_ne fun is => same is.symm).trans last⟩

theorem SharedGranted.writer (granted : SharedGranted lock) {writer : Option (Cell LockToken)}
    (same : ∀ cell, writer = some cell → ∃ before, lock.keys.writer = some before ∧ before.value = cell.value) :
    SharedGranted ⟨{ lock.keys with writer := writer }, lock.grants⟩ where
  fences := granted.fences
  timed := granted.timed
  exclusive := by
    cases writer with
    | none => exact .inl rfl
    | some cell =>
      obtain ⟨before, was, -⟩ := same cell rfl
      rcases granted.exclusive with nobody | readers
      · rw [nobody] at was
        cases was
      · exact .inr readers
  recorded := granted.recorded
  reading := granted.reading
  writing cell is := by
    obtain ⟨before, was, value⟩ := same cell is
    rw [← value]
    exact granted.writing before was

theorem SharedGranted.writes (granted : SharedGranted lock) (readers : ∀ token, lock.keys.readers.get token = none) (expiry : Option Nat) :
    SharedGranted ⟨{ lock.keys with writer := some ⟨token, expiry⟩, fence := some (incr lock.keys.fence) },
      (.sharedAcquire token ttl .write, incr lock.keys.fence) :: lock.grants⟩ where
  fences := granted.fences
  timed := granted.timed
  exclusive := .inr readers
  recorded := granted.recorded.next _
  reading other fence is := by
    have is : lock.keys.readerFences.get other = some fence := is
    rw [(granted.fences other).mpr (readers other)] at is
    cases is
  writing cell is := by
    cases is
    exact ⟨ttl, _, last_cons_self, rfl⟩

theorem counted_writer : (shared.counted now).writer = Cell.seen now shared.writer := by
  rw [counted_eq]

theorem counted_shared_fence : (shared.counted now).fence = shared.fence := by
  rw [counted_eq]

/-- What `sharedAcquire` does, by what it finds. -/
inductive SharedOutcome (now : Nat) (keys : SharedKeys) (token : LockToken) (ttl : Nat) : Mode → SharedKeys × Reply → Prop
  | refused {mode : Mode} : (mode = .read → ¬ Ahead now keys.readers token) → (mode = .write → ¬ keys.Writes now token) →
      ((Cell.seen now keys.writer).isSome = true ∨ mode = .write ∧ ∃ reader, Ahead now keys.readers reader) →
      SharedOutcome now keys token ttl mode (keys.counted now, ((0 : Int), 0))
  | reads {fence : Nat} : Ahead now keys.readers token → (keys.counted now).readerFences.get token = some fence →
      SharedOutcome now keys token ttl .read
        (SharedKeys.kept now { keys.counted now with readers := (keys.counted now).readers.put token (now + ttl) }, ((fence : Int), now))
  | reader : ¬ Ahead now keys.readers token → Cell.seen now keys.writer = none → SharedOutcome now keys token ttl .read
      (SharedKeys.kept now
        { keys.counted now with
          readers := (keys.counted now).readers.put token (now + ttl)
          fence := some (incr keys.fence)
          readerFences := (keys.counted now).readerFences.put token (incr keys.fence) }, ((incr keys.fence : Int), now))
  | writes {fence : Nat} : keys.Writes now token → keys.fence = some fence → SharedOutcome now keys token ttl .write
      ({ keys.counted now with writer := some ⟨token, some (now + ttl)⟩, fence := some fence }, ((fence : Int), now))
  | writer : Cell.seen now keys.writer = none → (∀ reader, ¬ Ahead now keys.readers reader) → SharedOutcome now keys token ttl .write
      ({ keys.counted now with writer := some ⟨token, some (now + ttl)⟩, fence := some (incr keys.fence) }, ((incr keys.fence : Int), now))

theorem sharedAcquire_read_eq : sharedAcquire now shared token ttl .read =
    if ((shared.counted now).readers.get token).isSome then
      (SharedKeys.kept now { shared.counted now with
        readers := (shared.counted now).readers.put token (now + ttl)
        fence := if ((shared.counted now).readerFences.get token).isSome then (shared.counted now).fence
          else some (incr (shared.counted now).fence) },
        (((((shared.counted now).readerFences.get token).getD (incr (shared.counted now).fence) : Nat) : Int), now))
    else if (shared.counted now).writer.isSome then (shared.counted now, ((0 : Int), 0))
    else
      (SharedKeys.kept now
        { shared.counted now with
          readers := (shared.counted now).readers.put token (now + ttl)
          fence := some (incr (shared.counted now).fence)
          readerFences := (shared.counted now).readerFences.put token (incr (shared.counted now).fence) },
        ((incr (shared.counted now).fence : Int), now)) := rfl

theorem sharedAcquire_write_eq : sharedAcquire now shared token ttl .write =
    match (shared.counted now).writer with
    | some cell =>
      if cell.value = token then
        ({ shared.counted now with
          writer := some ⟨cell.value, some (now + ttl)⟩
          fence := some ((shared.counted now).fence.getD (incr (shared.counted now).fence)) },
          ((((shared.counted now).fence.getD (incr (shared.counted now).fence) : Nat) : Int), now))
      else (shared.counted now, ((0 : Int), 0))
    | none =>
      if !(shared.counted now).readers.isEmpty then (shared.counted now, ((0 : Int), 0))
      else
        ({ shared.counted now with writer := some ⟨token, some (now + ttl)⟩, fence := some (incr (shared.counted now).fence) },
          ((incr (shared.counted now).fence : Int), now)) := rfl

theorem sharedAcquire_outcome (granted : SharedGranted lock) (now : Nat) (token : LockToken) (ttl : Nat) (mode : Mode) :
    SharedOutcome now lock.keys token ttl mode (sharedAcquire now lock.keys token ttl mode) := by
  have counted := granted.counted now
  have reader (token : LockToken) : ((lock.keys.counted now).readers.get token).isSome = true ↔ Ahead now lock.keys.readers token := by
    rw [Option.isSome_iff_ne_none]
    exact counted_reads
  cases mode with
  | read =>
    rw [sharedAcquire_read_eq]
    by_cases ahead : Ahead now lock.keys.readers token
    · have has : (lock.keys.counted now).readerFences.get token ≠ none := by
        rw [Ne, counted.fences token]
        exact counted_reads.mpr ahead
      obtain ⟨fence, is⟩ := Option.ne_none_iff_exists'.mp has
      rw [if_pos ((reader token).mpr ahead), is]
      exact .reads ahead is
    · rw [if_neg (fun held => ahead ((reader token).mp held)), counted_writer, counted_shared_fence]
      by_cases busy : (Cell.seen now lock.keys.writer).isSome = true
      · rw [if_pos busy]
        exact .refused (fun _ => ahead) nofun (.inl busy)
      · rw [if_neg busy]
        exact .reader ahead (Option.not_isSome_iff_eq_none.mp busy)
  | write =>
    rw [sharedAcquire_write_eq, counted_writer, counted_shared_fence]
    cases found : Cell.seen now lock.keys.writer with
    | some cell =>
      dsimp only
      by_cases own : cell.value = token
      · obtain ⟨_, fence, -, counter⟩ := granted.writing cell (Cell.seen_some found).1
        rw [if_pos own, own, counter]
        exact .writes (writes_iff.mpr ⟨cell, found, own⟩) counter
      · rw [if_neg own]
        refine .refused nofun (fun _ writes => ?_) (.inl (by rw [found]; rfl))
        obtain ⟨other, is, value⟩ := writes_iff.mp writes
        rw [found] at is
        cases is
        exact own value
    | none =>
      dsimp only
      have nobody : ¬ lock.keys.Writes now token := by
        rw [writes_iff, found]
        rintro ⟨_, is, _⟩
        cases is
      by_cases readers : (lock.keys.counted now).readers.isEmpty = true
      · rw [if_neg (by rw [readers]; decide)]
        refine .writer found fun reader ahead => ?_
        exact counted_reads.mpr ahead (Fields.isEmpty_iff.mp readers reader)
      · rw [if_pos (by simpa using readers)]
        refine .refused nofun (fun _ => nobody) (.inr ⟨rfl, ?_⟩)
        by_contra none_
        apply readers
        apply Fields.isEmpty_iff.mpr
        intro reader
        by_contra some_
        exact none_ ⟨reader, counted_reads.mp some_⟩

theorem runShared_granted (granted : SharedGranted lock) (now : Nat) (script : Script) : SharedGranted (runShared now lock script) := by
  have counted := granted.counted now
  have seen := granted.seen now
  cases script with
  | sharedAcquire token ttl mode =>
    show SharedGranted ⟨(sharedAcquire now lock.keys token ttl mode).1,
      noted lock.grants _ (Ahead now lock.keys.readers token || lock.keys.Writes now token) (sharedAcquire now lock.keys token ttl mode).2⟩
    have found := sharedAcquire_outcome granted now token ttl mode
    generalize sharedAcquire now lock.keys token ttl mode = result at found ⊢
    cases found with
    | refused =>
      rw [noted_refused (le_refl (0 : Int))]
      exact counted
    | reads ahead is =>
      rw [show (decide (Ahead now lock.keys.readers token) || decide (lock.keys.Writes now token)) = true by simp [ahead], noted_held]
      exact counted.renewed (counted_reads.mpr ahead) _
    | reader fresh nobody =>
      have writer : ¬ lock.keys.Writes now token := by
        rw [writes_iff, nobody]
        rintro ⟨_, is, _⟩
        cases is
      rw [show (decide (Ahead now lock.keys.readers token) || decide (lock.keys.Writes now token)) = false by simp [fresh, writer],
        noted_new]
      have next := @SharedGranted.reader now token ttl _ counted (counted_writer.trans nobody) (now + ttl)
      have counter : incr (lock.keys.counted now).fence = incr lock.keys.fence := by rw [counted_shared_fence]
      dsimp only at next
      rw [counter] at next
      exact next
    | writes writes counter =>
      rw [show (decide (Ahead now lock.keys.readers token) || decide (lock.keys.Writes now token)) = true by simp [writes], noted_held,
        ← counter]
      have next := @SharedGranted.writer _ counted (some ⟨token, some (now + ttl)⟩) fun cell is => by
        cases is
        obtain ⟨before, was, value⟩ := writes_iff.mp writes
        exact ⟨before, counted_writer.trans was, value⟩
      dsimp only at next
      rw [counted_shared_fence] at next
      exact next
    | writer nobody readers =>
      have fresh : ¬ lock.keys.Writes now token := by
        rw [writes_iff, nobody]
        rintro ⟨_, is, _⟩
        cases is
      rw [show (decide (Ahead now lock.keys.readers token) || decide (lock.keys.Writes now token)) = false by simp [readers, fresh],
        noted_new]
      have next := @SharedGranted.writes token ttl _ counted (fun reader => by
        by_contra some_
        exact readers reader (counted_reads.mp some_)) (some (now + ttl))
      have counter : incr (lock.keys.counted now).fence = incr lock.keys.fence := by rw [counted_shared_fence]
      dsimp only at next
      rw [counter] at next
      exact next
  | sharedRelease token =>
    show SharedGranted ⟨(sharedRelease now lock.keys token).1, lock.grants⟩
    unfold sharedRelease
    dsimp only
    split
    · exact seen.writer nofun
    · cases is : (lock.keys.seen now).readers.get token with
      | none => exact seen
      | some score => exact seen.without [token]
  | sharedExtend token ttl =>
    show SharedGranted ⟨(sharedExtend now lock.keys token ttl).1, lock.grants⟩
    unfold sharedExtend
    dsimp only
    split
    · next own =>
      obtain ⟨cell, was, value⟩ := (Option.any_eq_true _ _).mp own
      apply seen.writer
      intro other is
      cases is
      exact ⟨cell, was, by simpa using value⟩
    · cases is : (lock.keys.seen now).readers.get token with
      | none => exact seen
      | some score =>
        dsimp only
        split
        · exact seen
        · apply seen.renewed
          show (lock.keys.seen now).readers.get token ≠ none
          rw [is]
          nofun
  | _ => exact granted

theorem writes_excludes (granted : SharedGranted lock) {other : LockToken} (writes : lock.keys.Writes now token) :
    ¬ Ahead now lock.keys.readers other ∧ (lock.keys.Writes now other → other = token) := by
  constructor
  · intro ahead
    obtain ⟨cell, found, -⟩ := writes_iff.mp writes
    obtain ⟨score, is, -⟩ := ahead.raw
    rcases granted.exclusive with nobody | readers
    · rw [nobody] at found
      cases found
    · rw [readers] at is
      cases is
  · exact fun also => Option.some.inj (also.symm.trans writes)

theorem sharedAcquire_again (granted : SharedGranted lock) (mode : Mode)
    (holds : match mode with | .read => Ahead now lock.keys.readers token | .write => lock.keys.Writes now token) : ∃ ttl fence,
    lock.grants.last token = some (.sharedAcquire token ttl mode, fence) ∧
      (sharedAcquire now lock.keys token ttl mode).2 = ((fence : Int), now) := by
  have counted := granted.counted now
  cases mode with
  | read =>
    have has : (lock.keys.counted now).readerFences.get token ≠ none := by
      rw [Ne, counted.fences token]
      exact counted_reads.mpr holds
    obtain ⟨fence, is⟩ := Option.ne_none_iff_exists'.mp has
    obtain ⟨ttl, last⟩ := counted.reading token fence is
    refine ⟨ttl, fence, last, ?_⟩
    rw [sharedAcquire_read_eq, if_pos (Option.isSome_iff_ne_none.mpr (counted_reads.mpr holds)), is]
    rfl
  | write =>
    obtain ⟨cell, found, rfl⟩ := writes_iff.mp holds
    obtain ⟨ttl, fence, last, counter⟩ := granted.writing cell (Cell.seen_some found).1
    refine ⟨ttl, fence, last, ?_⟩
    rw [sharedAcquire_write_eq, counted_writer, found, counted_shared_fence, counter]
    dsimp only
    rw [if_pos rfl]
    rfl

def SharedKeys.Apart (now : Nat) (before after : SharedKeys) (token : LockToken) : Prop :=
  ∀ later, now ≤ later → Cell.seen later after.writer = Cell.seen later before.writer ∧
    ∀ other, other ≠ token → (after.readers.seen later).get other = (before.readers.seen later).get other ∧
      (after.readerFences.seen later).get other = (before.readerFences.seen later).get other

theorem SharedKeys.Apart.seen (now : Nat) (keys : SharedKeys) (token : LockToken) : SharedKeys.Apart now keys (keys.seen now) token := by
  intro later le
  refine ⟨Cell.seen_seen _ le, fun other _ => ?_⟩
  show (((keys.readers.seen now).seen later).get other) = _ ∧ (((keys.readerFences.seen now).seen later).get other) = _
  rw [Fields.seen_seen le, Fields.seen_seen le]
  exact ⟨rfl, rfl⟩

theorem not_writes_any (lapsed : ¬ shared.Writes now token) : ¬ (shared.seen now).writer.any (·.value = token) = true := by
  intro own
  obtain ⟨cell, is, value⟩ := (Option.any_eq_true _ _).mp own
  exact lapsed (writes_iff.mpr ⟨cell, is, by simpa using value⟩)

theorem sharedRelease_lapsed (reads : ¬ Ahead now shared.readers token) (writes : ¬ shared.Writes now token) :
    (sharedRelease now shared token).2 = 0 ∧ SharedKeys.Apart now shared (sharedRelease now shared token).1 token := by
  unfold sharedRelease
  dsimp only
  rw [if_neg (not_writes_any writes)]
  cases is : (shared.seen now).readers.get token with
  | none => exact ⟨rfl, .seen now shared token⟩
  | some score =>
    have past : ¬ now < score := fun ahead => reads ⟨score, is, ahead⟩
    refine ⟨if_neg past, fun later le => ?_⟩
    obtain ⟨writer, others⟩ := SharedKeys.Apart.seen now shared token later le
    refine ⟨writer, fun other apart => ?_⟩
    obtain ⟨readers, fences⟩ := others other apart
    have fresh : other ∉ [token] := by simpa using apart
    have left : (((shared.seen now).readers.removeAll [token]).seen later).get other = _ := Fields.get_seen_removeAll fresh
    have right : (((shared.seen now).readerFences.removeAll [token]).seen later).get other = _ := Fields.get_seen_removeAll fresh
    exact ⟨left.trans readers, right.trans fences⟩

theorem sharedExtend_lapsed (reads : ¬ Ahead now shared.readers token) (writes : ¬ shared.Writes now token) (ttl : Nat) :
    (sharedExtend now shared token ttl).2 = 0 ∧ SharedKeys.Apart now shared (sharedExtend now shared token ttl).1 token := by
  unfold sharedExtend
  dsimp only
  rw [if_neg (not_writes_any writes)]
  cases is : (shared.seen now).readers.get token with
  | none => exact ⟨rfl, .seen now shared token⟩
  | some score =>
    have past : score ≤ now := not_lt.mp fun ahead => reads ⟨score, is, ahead⟩
    dsimp only
    rw [if_pos past]
    exact ⟨rfl, .seen now shared token⟩

theorem sharedFits_iff (granted : SharedGranted lock) (mode : Mode) (reads : ¬ Ahead now lock.keys.readers token)
    (writes : ¬ lock.keys.Writes now token) (ttl : Nat) :
    0 < (sharedAcquire now lock.keys token ttl mode).2.1 ↔ sharedFits now lock.keys mode = 1 := by
  have found := sharedAcquire_outcome granted now token ttl mode
  have readers : (above now (lock.keys.seen now).readers).isEmpty = true ↔ ∀ reader, ¬ Ahead now lock.keys.readers reader := by
    rw [List.isEmpty_iff, List.eq_nil_iff_forall_not_mem]
    exact forall_congr' fun reader => not_congr mem_above_seen
  generalize sharedAcquire now lock.keys token ttl mode = result at found ⊢
  show 0 < result.2.1 ↔ (if (Cell.seen now lock.keys.writer).isSome = true then 0
    else if (mode = .write && !(above now (lock.keys.seen now).readers).isEmpty) = true then 0 else 1) = 1
  cases found with
  | refused _ _ busy =>
    refine ⟨fun positive => absurd positive (lt_irrefl _), fun fits => ?_⟩
    rcases busy with writer | ⟨rfl, reader, ahead⟩
    · rw [if_pos writer] at fits
      cases fits
    · by_cases writer : (Cell.seen now lock.keys.writer).isSome = true
      · rw [if_pos writer] at fits
        cases fits
      · rw [if_neg writer, if_pos] at fits
        · cases fits
        · rw [Bool.not_eq_true] at *
          simpa using fun none_ => readers.mp (List.isEmpty_iff.mpr none_) reader ahead
  | reads ahead => exact absurd ahead reads
  | writes own => exact absurd own writes
  | reader fresh nobody =>
    rw [nobody]
    exact ⟨fun _ => rfl, fun _ => Int.natCast_pos.mpr (Nat.succ_pos _)⟩
  | writer nobody none_ =>
    rw [nobody, readers.mpr none_]
    exact ⟨fun _ => rfl, fun _ => Int.natCast_pos.mpr (Nat.succ_pos _)⟩

end Arki.Lock.Redis
