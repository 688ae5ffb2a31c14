import Arki.Lock.MemorySafety

/-! What the in-process store promises in every state that its callers can bring it to, and in every call they make
there. -/

set_option autoImplicit false

namespace Arki.Lock

open MemoryStore

inductive User where
  | held (grant : Grant)
  | reserved (ref : Ref)

def World.Uses (world : World) (full : LockKey) (kind : WaitKind) : User → Prop
  | .held grant => grant ∈ world.grants ∧ grant.full = full ∧ grant.kind = kind
  | .reserved ref => IsIn world.store ref full kind .reserved

def MemoryStore.attempt (store : MemoryStore) (full : LockKey) (token : LockToken) (limit weight : Nat) : WaitKind → Answer
  | .mutex => (store.acquire full token none).2
  | .permits => (store.acquirePermits full token limit weight none).2
  | .read => (store.acquireShared full token .read none).2
  | .write => (store.acquireShared full token .write none).2

structure World.Excludes (world : World) : Prop where
  sole : ∀ full kind other first second, kind.isSole = true → world.Uses full kind first → world.Uses full other second →
    first = second
  counted : ∀ full, full.primitive = .semaphore →
    ((world.grants.filter fun grant => decide (grant.full = full)).map (·.weight)).sum +
      Heap.total (reservedWeight full) world.store.sessions = (world.store.pools full).elim 0 (·.inUse)
  within : ∀ full pool, world.store.pools full = some pool → pool.inUse ≤ pool.limit
  waits : ∀ full kind ref, IsIn world.store ref full kind .queued → ∃ other user, world.Uses full other user
  stays : ∀ (ref : Ref) (session : Session), world.store.sessions[ref]? = some session → session.state = .queued →
    ∀ token limit fence, world.store.attempt session.full token limit session.weight session.kind ≠ .granted fence
  awake : ∀ (ref : Ref) (session : Session), world.store.sessions[ref]? = some session → session.asleep = true →
    session.state = .queued
  fences : world.issued.Pairwise (· < ·)
  /-- A key that nobody has or waits for is forgotten, and those who watch it are told. -/
  clear : ∀ full, (∀ kind user, ¬ world.Uses full kind user) → (∀ kind ref, ¬ IsIn world.store ref full kind .queued) →
    world.store.mutexes full = none ∧ world.store.pools full = none ∧ world.store.shareds full = none ∧
      world.store.lines full = [] ∧ world.store.readerLines full = [] ∧ world.store.watchers full = []

structure World.Turn (world : World) (op : Op) : Prop where
  /-- A reservation ends when its own waiter takes it, or stops waiting. -/
  kept : ∀ full kind ref, IsIn world.store ref full kind .reserved → IsIn (world.call op).store ref full kind .reserved ∨
    op = .close ref ∨ op.waiter? = some ref ∧ ∃ fence, (world.store.call op).2 = .granted fence
  /-- Whoever is handed a mutex or the write side began to wait before all who wait on. -/
  first : ∀ full kind ref, kind.isSole = true → IsIn (world.call op).store ref full kind .reserved →
    ¬ IsIn world.store ref full kind .reserved → ∀ other, IsIn (world.call op).store other full kind .queued →
      (world.call op).began ref < (world.call op).began other
  readers : ∀ full ref, IsIn (world.call op).store ref full .read .reserved → ¬ IsIn world.store ref full .read .reserved →
    ∀ other, ¬ IsIn (world.call op).store other full .write .queued
  /-- A mutex or a side of a read/write key is granted to the waiter it was reserved for, or when nobody waits for the key
  but readers. -/
  outright : ∀ fence, (world.store.call op).2 = .granted fence → ∀ full grant, op.take = some (full, grant) →
    (∃ ref kind, op.waiter? = some ref ∧ IsIn world.store ref full kind .reserved) ∨
      ∀ other kind, kind.isSole = true → ¬ IsIn world.store other full kind .queued

variable {world : World} {op : Op} {full : LockKey} {ref : Ref}

def MemoryStore.Known (store : MemoryStore) (full : LockKey) : Prop :=
  (store.mutexes full).isSome = true ∨ (store.pools full).isSome = true ∨ (store.shareds full).isSome = true

theorem held_mem (kept : world.Kept) {grant : Grant} : grant ∈ world.store.holders full ↔ grant ∈ world.grants ∧ grant.full = full := by
  rw [← kept.held full, List.mem_filter, decide_eq_true_eq]

theorem used_of_known (kept : world.Kept) (known : world.store.Known full) : ∃ kind user, world.Uses full kind user := by
  have fine := kept.fine full
  have alone := fine.lined.alone
  have held {grant : Grant} (member : grant ∈ world.store.holders full) : ∃ kind user, world.Uses full kind user := by
    obtain ⟨inGrants, here⟩ := (held_mem kept).mp member
    exact ⟨grant.kind, .held grant, inGrants, here, rfl⟩
  cases family : full.primitive with
  | mutex =>
    have fine := fine.mutex family
    have noPool := alone.pools (by rw [family]; rintro ⟨⟩)
    have noShared := alone.shareds (by rw [family]; rintro ⟨⟩)
    simp only [MemoryStore.Known, noPool, noShared, Option.isSome_none, Bool.false_eq_true, or_false] at known
    obtain ⟨state, isState⟩ := Option.isSome_iff_exists.mp known
    rcases fine.busy state isState with isHeld | isReserved
    · obtain ⟨hold, isHolder⟩ := Option.isSome_iff_exists.mp isHeld
      apply @held (hold.grant full .mutex)
      rw [alone.mutexHolders family, isState]
      simp [MutexState.grants, isHolder]
    · obtain ⟨ref, isRef⟩ := Option.isSome_iff_exists.mp isReserved
      refine ⟨.mutex, .reserved ref, (fine.reserved ref).mp ?_⟩
      rw [isState]
      exact isRef
  | semaphore =>
    have fine := fine.permits family
    have noMutex := alone.mutexes (by rw [family]; rintro ⟨⟩)
    have noShared := alone.shareds (by rw [family]; rintro ⟨⟩)
    simp only [MemoryStore.Known, noMutex, noShared, Option.isSome_none, Bool.false_eq_true, or_false, false_or] at known
    obtain ⟨pool, isPool⟩ := Option.isSome_iff_exists.mp known
    rcases fine.busy pool isPool with isHeld | isReserved
    · obtain ⟨hold, member⟩ := List.exists_mem_of_ne_nil _ isHeld
      apply @held (hold.grant full)
      rw [alone.permitHolders family, isPool]
      exact List.mem_map_of_mem member
    · rw [(fine.counts pool isPool).reserved] at isReserved
      obtain ⟨ref, session, there, heavy⟩ := Heap.exists_of_total_pos isReserved
      unfold reservedWeight at heavy
      split at heavy
      · next reserved => exact ⟨.permits, .reserved ref, session, there, reserved.1, reserved.2.1, reserved.2.2⟩
      · cases heavy
  | readWrite =>
    have fine := fine.shared family
    have noMutex := alone.mutexes (by rw [family]; rintro ⟨⟩)
    have noPool := alone.pools (by rw [family]; rintro ⟨⟩)
    simp only [MemoryStore.Known, noMutex, noPool, Option.isSome_none, Bool.false_eq_true, false_or] at known
    obtain ⟨state, isState⟩ := Option.isSome_iff_exists.mp known
    have inHolders {grant : Grant} (member : grant ∈ state.grants full) : grant ∈ world.store.holders full := by
      rw [alone.sharedHolders family, isState]
      exact member
    rcases fine.busy state isState with isRead | isWritten
    · simp only [Shared.isRead, Bool.or_eq_true, decide_eq_true_eq] at isRead
      rcases isRead with isHeld | isReserved
      · obtain ⟨hold, member⟩ := List.exists_mem_of_ne_nil _ isHeld
        exact held (inHolders (List.mem_append_left _ (List.mem_map_of_mem member)))
      · rw [fine.readers state isState] at isReserved
        obtain ⟨ref, session, there, heavy⟩ := Heap.exists_of_total_pos isReserved
        unfold reservedReader at heavy
        split at heavy
        · next reserved => exact ⟨.read, .reserved ref, session, there, reserved.1, reserved.2.1, reserved.2.2⟩
        · cases heavy
    · simp only [Shared.isWritten, Bool.or_eq_true] at isWritten
      rcases isWritten with isHeld | isReserved
      · obtain ⟨hold, isHolder⟩ := Option.isSome_iff_exists.mp isHeld
        refine held (@inHolders (hold.grant full .write) (List.mem_append_right _ ?_))
        simp [isHolder]
      · obtain ⟨ref, isRef⟩ := Option.isSome_iff_exists.mp isReserved
        refine ⟨.write, .reserved ref, (fine.reserved ref).mp ?_⟩
        rw [isState]
        exact isRef

variable {store : MemoryStore} {kind : WaitKind}

theorem known_of_waits (fine : KeyFine store full)
    (waits : store.lines full ≠ [] ∨ store.readerLines full ≠ [] ∨ store.watchers full ≠ []) : store.Known full := by
  have lined := fine.lined
  -- only a read/write key has readers in line
  have noReaders (apart : full.primitive ≠ .readWrite) : store.readerLines full = [] := by
    by_contra reads
    obtain ⟨ref, member⟩ := List.exists_mem_of_ne_nil _ reads
    obtain ⟨session, there, here, isRead, -⟩ := (lined.readerLine.member ref).mp member
    have family := lined.family ref session there here
    rw [of_decide_eq_true isRead] at family
    exact apart family.symm
  cases family : full.primitive with
  | mutex =>
    have fine := fine.mutex family
    rcases waits with inLine | reads | watched
    · exact .inl (fine.waits inLine)
    · exact absurd (noReaders (by rw [family]; exact nofun)) reads
    · exact .inl (fine.watched watched)
  | semaphore =>
    have fine := fine.permits family
    rcases waits with inLine | reads | watched
    · exact .inr (.inl (fine.waits inLine))
    · exact absurd (noReaders (by rw [family]; exact nofun)) reads
    · exact .inr (.inl (fine.watched watched))
  | readWrite =>
    have fine := fine.shared family
    rcases waits with inLine | reads | watched
    · exact .inr (.inr (fine.waits inLine))
    · rcases fine.waitsRead reads with written | inLine
      · obtain ⟨state, isState, -⟩ := Option.any_eq_true _ _ |>.mp written
        exact .inr (.inr (by rw [isState]; rfl))
      · exact .inr (.inr (fine.waits inLine))
    · exact .inr (.inr (fine.watched watched))

theorem in_line (lined : Lined store full) (waits : IsIn store ref full kind .queued) :
    if kind = .read then ref ∈ store.readerLines full else ref ∈ store.lines full := by
  obtain ⟨session, there, here, rfl, queued⟩ := waits
  split
  · next isRead => exact (lined.readerLine.member ref).mpr ⟨session, there, here, by simp [isRead], queued⟩
  · next notRead => exact (lined.line.member ref).mpr ⟨session, there, here, by simp [notRead], queued⟩

theorem known_of_queued (fine : KeyFine store full)
    (waits : IsIn store ref full kind .queued) : store.Known full := by
  have member := in_line fine.lined waits
  apply known_of_waits fine
  split at member
  · exact .inr (.inl (List.ne_nil_of_mem member))
  · exact .inl (List.ne_nil_of_mem member)

theorem MutexState.grants_eq {state : MutexState} {grant : Grant} (member : grant ∈ state.grants full) :
    ∃ hold, state.holder = some hold ∧ grant = hold.grant full .mutex := by
  cases isHolder : state.holder with
  | none =>
    rw [MutexState.grants, isHolder] at member
    cases member
  | some hold =>
    rw [MutexState.grants, isHolder] at member
    exact ⟨hold, rfl, List.mem_singleton.mp member⟩

theorem sole_mutex (kept : world.Kept) (family : full.primitive = .mutex) {other : WaitKind} {first second : User}
    (isFirst : world.Uses full kind first) (isSecond : world.Uses full other second) : first = second := by
  have fine := (kept.fine full).mutex family
  have reserved {kind : WaitKind} {ref : Ref} (is : IsIn world.store ref full kind .reserved) :
      (world.store.mutexes full).bind (·.reserved) = some ref := by
    obtain ⟨session, there, here, isKind, isReserved⟩ := is
    have isMutex := WaitKind.of_mutex ((fine.lined.family ref session there here).trans family)
    exact (fine.reserved ref).mpr ⟨session, there, here, isMutex, isReserved⟩
  have held {kind : WaitKind} {grant : Grant} (is : world.Uses full kind (.held grant)) :
      ∃ state hold, world.store.mutexes full = some state ∧ state.holder = some hold ∧ grant = hold.grant full .mutex := by
    have member := (held_mem kept).mpr ⟨is.1, is.2.1⟩
    rw [fine.lined.alone.mutexHolders family] at member
    cases known : world.store.mutexes full with
    | none =>
      rw [known] at member
      cases member
    | some state =>
      rw [known] at member
      obtain ⟨hold, isHolder, same⟩ := MutexState.grants_eq member
      exact ⟨state, hold, rfl, isHolder, same⟩
  -- a mutex with a holder is reserved for nobody
  have apart {kind other : WaitKind} {grant : Grant} {ref : Ref} (isHeld : world.Uses full kind (.held grant))
      (isReserved : IsIn world.store ref full other .reserved) : False := by
    obtain ⟨state, hold, known, isHolder, -⟩ := held isHeld
    have isRef := reserved isReserved
    rw [known, Option.bind_some] at isRef
    rcases fine.single state known with none_ | none_
    · rw [isHolder] at none_
      cases none_
    · rw [isRef] at none_
      cases none_
  cases first with
  | held grant =>
    cases second with
    | held grant_ =>
      obtain ⟨state, hold, known, isHolder, rfl⟩ := held isFirst
      obtain ⟨state_, hold_, known_, isHolder_, rfl⟩ := held isSecond
      cases known.symm.trans known_
      cases isHolder.symm.trans isHolder_
      rfl
    | reserved ref => exact (apart isFirst isSecond).elim
  | reserved ref =>
    cases second with
    | held grant => exact (apart isSecond isFirst).elim
    | reserved ref_ =>
      have same := (reserved isFirst).symm.trans (reserved isSecond)
      cases same
      rfl

theorem uses_shared (kept : world.Kept) (family : full.primitive = .readWrite) {user : User}
    (uses : world.Uses full kind user) : ∃ state, world.store.shareds full = some state ∧
      ((kind = .read ∧ state.isRead = true) ∨ kind = .write ∧
        ((∃ hold, state.writer = some hold ∧ user = .held (hold.grant full .write)) ∨
          ∃ ref, state.reservedWriter = some ref ∧ user = .reserved ref)) := by
  have fine := (kept.fine full).shared family
  cases user with
  | held grant =>
    obtain ⟨inGrants, here, isKind⟩ := uses
    have member := (held_mem kept).mpr ⟨inGrants, here⟩
    rw [fine.lined.alone.sharedHolders family] at member
    cases known : world.store.shareds full with
    | none =>
      rw [known] at member
      cases member
    | some state =>
      refine ⟨state, rfl, ?_⟩
      rw [known] at member
      rcases List.mem_append.mp member with reads | writes
      · obtain ⟨hold, isReader, rfl⟩ := List.mem_map.mp reads
        refine .inl ⟨isKind.symm, ?_⟩
        simp [Shared.isRead, List.ne_nil_of_mem isReader]
      · cases isHolder : state.writer with
        | none =>
          rw [isHolder] at writes
          cases writes
        | some hold =>
          rw [isHolder] at writes
          cases List.mem_singleton.mp writes
          exact .inr ⟨isKind.symm, .inl ⟨hold, rfl, rfl⟩⟩
  | reserved ref =>
    obtain ⟨session, there, here, isKind, isReserved⟩ := uses
    rcases WaitKind.of_shared ((fine.lined.family ref session there here).trans family) with reads | writes
    · have enough := @Heap.le_total _ _ _ _ (reservedReader full) there
      rw [reservedReader_reserved here reads isReserved] at enough
      cases known : world.store.shareds full with
      | none =>
        have none_ := fine.unshared known
        omega
      | some state =>
        have count := fine.readers state known
        have some_ : 0 < state.reservedReaders := by omega
        exact ⟨state, rfl, .inl ⟨isKind.symm.trans reads, by simp [Shared.isRead, some_]⟩⟩
    · have isOwn := (fine.reserved ref).mpr ⟨session, there, here, writes, isReserved⟩
      obtain ⟨state, known, isRef⟩ := Option.bind_eq_some_iff.mp isOwn
      exact ⟨state, known, .inr ⟨isKind.symm.trans writes, .inr ⟨ref, isRef, rfl⟩⟩⟩

theorem sole_writer (kept : world.Kept) (family : full.primitive = .readWrite) {other : WaitKind} {first second : User}
    (isFirst : world.Uses full .write first) (isSecond : world.Uses full other second) : first = second := by
  have fine := (kept.fine full).shared family
  obtain ⟨state, known, isWrite⟩ := uses_shared kept family isFirst
  obtain ⟨state_, known_, isOther⟩ := uses_shared kept family isSecond
  cases known.symm.trans known_
  have single := fine.single state known
  rcases isWrite with ⟨isRead, -⟩ | ⟨-, isWriter⟩
  · cases isRead
  have isWritten : state.isWritten = true := by
    rcases isWriter with ⟨hold, isHolder, -⟩ | ⟨ref, isRef, -⟩
    · simp [Shared.isWritten, isHolder]
    · simp [Shared.isWritten, isRef]
  rcases isOther with ⟨-, isRead⟩ | ⟨-, isWriter_⟩
  · rw [single.readers isWritten] at isRead
    cases isRead
  rcases isWriter with ⟨hold, isHolder, rfl⟩ | ⟨ref, isRef, rfl⟩
  · rcases isWriter_ with ⟨hold_, isHolder_, rfl⟩ | ⟨ref_, isRef_, rfl⟩
    · cases isHolder.symm.trans isHolder_
      rfl
    · rcases single.writer with none_ | none_
      · rw [isHolder] at none_
        cases none_
      · rw [isRef_] at none_
        cases none_
  · rcases isWriter_ with ⟨hold_, isHolder_, rfl⟩ | ⟨ref_, isRef_, rfl⟩
    · rcases single.writer with none_ | none_
      · rw [isHolder_] at none_
        cases none_
      · rw [isRef] at none_
        cases none_
    · cases isRef.symm.trans isRef_
      rfl

theorem uses_primitive (kept : world.Kept) {user : User} (uses : world.Uses full kind user) :
    kind.primitive = full.primitive := by
  have fine := kept.fine full
  have alone := fine.lined.alone
  cases user with
  | held grant =>
    obtain ⟨inGrants, here, rfl⟩ := uses
    have member := (held_mem kept).mpr ⟨inGrants, here⟩
    cases family : full.primitive with
    | mutex =>
      rw [alone.mutexHolders family] at member
      cases known : world.store.mutexes full with
      | none =>
        rw [known] at member
        cases member
      | some state =>
        rw [known] at member
        obtain ⟨hold, -, rfl⟩ := MutexState.grants_eq member
        rfl
    | semaphore =>
      rw [alone.permitHolders family] at member
      cases known : world.store.pools full with
      | none =>
        rw [known] at member
        cases member
      | some pool =>
        rw [known] at member
        obtain ⟨hold, -, rfl⟩ := List.mem_map.mp member
        rfl
    | readWrite =>
      have uses : world.Uses full grant.kind (.held grant) := ⟨inGrants, here, rfl⟩
      rcases uses_shared kept family uses with ⟨-, -, ⟨isRead, -⟩ | ⟨isWrite, -⟩⟩
      · rw [isRead]
        rfl
      · rw [isWrite]
        rfl
  | reserved ref =>
    obtain ⟨session, there, here, rfl, -⟩ := uses
    exact fine.lined.family ref session there here

theorem sole_user (kept : world.Kept) {other : WaitKind} {first second : User} (isSole : kind.isSole = true)
    (isFirst : world.Uses full kind first) (isSecond : world.Uses full other second) : first = second := by
  have family := uses_primitive kept isFirst
  cases kind with
  | mutex => exact sole_mutex kept family.symm isFirst isSecond
  | write => exact sole_writer kept family.symm isFirst isSecond
  | permits => cases isSole
  | read => cases isSole

theorem redeeming_none {weight : Nat} : store.redeeming none full kind weight = none := rfl

theorem queueRefused_none {weight : Nat} :
    store.queueRefused none full kind weight = (store, .refused) := rfl

theorem attempt_shared (token : LockToken) {mode : SharedMode} (blocked : store.sharedBlocked full mode = true) :
    (store.acquireShared full token mode none).2 = .refused := by
  unfold acquireShared
  simp only [redeeming_none, blocked, if_true, queueRefused_none]
  split
  · next redeems => cases redeems
  · rfl

theorem attempt_refused (fine : Fine store) {session : Session} (there : store.sessions[ref]? = some session)
    (queued : session.state = .queued) (token : LockToken) (limit fence : Nat) :
    store.attempt session.full token limit session.weight session.kind ≠ .granted fence := by
  have waits : IsIn store ref session.full session.kind .queued := ⟨session, there, rfl, rfl, queued⟩
  have family := (fine session.full).lined.family ref session there rfl
  have member := in_line (fine session.full).lined waits
  cases kind : session.kind with
  | mutex =>
    rw [kind] at family member
    have fine := (fine session.full).mutex family.symm
    obtain ⟨state, known⟩ := Option.isSome_iff_exists.mp (fine.waits (List.ne_nil_of_mem member))
    simp only [attempt, acquire, redeeming_none, queueRefused_none, known, Option.bind_some]
    cases reserved : state.reserved with
    | some own => exact nofun
    | none =>
      have held := fine.busy state known
      rw [reserved] at held
      simp only [Option.isSome_none, Bool.false_eq_true, or_false] at held
      simp only [held, if_true]
      exact nofun
  | permits =>
    rw [kind] at family member waits
    have fine := (fine session.full).permits family.symm
    obtain ⟨pool, known⟩ := Option.isSome_iff_exists.mp (fine.waits (List.ne_nil_of_mem member))
    have heavy := fine.tight pool known ref session.weight waits ⟨session, there, rfl, rfl⟩
    simp only [attempt, acquirePermits, redeeming_none, queueRefused_none, known]
    split
    · exact nofun
    split
    · exact nofun
    split
    · exact nofun
    · next same =>
      -- an attempt at the limit of the pool does not fit
      have isLimit : pool.limit = limit := by
        by_contra apart
        simp [apart] at same
      have tooHeavy : limit < pool.inUse + session.weight := by omega
      simp only [Option.isSome_some, if_true, Option.getD_some, tooHeavy]
      exact nofun
  | read =>
    rw [kind] at family member
    have fine := (fine session.full).shared family.symm
    have blocked : store.sharedBlocked session.full .read = true := by
      unfold sharedBlocked
      rcases fine.waitsRead (List.ne_nil_of_mem member) with written | inLine
      · simp [written]
      · simp [inLine]
    rw [attempt, attempt_shared token blocked]
    exact nofun
  | write =>
    rw [kind] at family member
    have fine := (fine session.full).shared family.symm
    obtain ⟨state, known⟩ := Option.isSome_iff_exists.mp (fine.waits (List.ne_nil_of_mem member))
    have blocked : store.sharedBlocked session.full .write = true := by
      unfold sharedBlocked
      rcases fine.busy state known with isRead | isWritten
      · simp [known, isRead]
      · simp [known, isWritten]
    rw [attempt, attempt_shared token blocked]
    exact nofun

theorem counted_permits (kept : world.Kept) (family : full.primitive = .semaphore) :
    ((world.grants.filter fun grant => decide (grant.full = full)).map (·.weight)).sum +
      Heap.total (reservedWeight full) world.store.sessions = (world.store.pools full).elim 0 (·.inUse) := by
  have fine := (kept.fine full).permits family
  rw [kept.held full, fine.lined.alone.permitHolders family]
  cases known : world.store.pools full with
  | none => simp [fine.unpooled known]
  | some pool =>
    obtain ⟨inUse, reserved, -, -⟩ := fine.counts pool known
    have weights : ((pool.grants full).map (·.weight)).sum = heldWeight pool.holders := by
      rw [Pool.grants, List.map_map]
      rfl
    simp only [Option.elim_some]
    omega

theorem World.Kept.excludes (kept : world.Kept) : world.Excludes := by
  refine ⟨fun full kind other first second isSole => sole_user kept isSole, fun full => counted_permits kept, ?_, ?_, ?_, ?_,
    kept.issued, ?_⟩
  · intro full pool known
    cases family : full.primitive with
    | semaphore => exact (((kept.fine full).permits family).counts pool known).within
    | mutex =>
      rw [(kept.fine full).lined.alone.pools (by rw [family]; exact nofun)] at known
      cases known
    | readWrite =>
      rw [(kept.fine full).lined.alone.pools (by rw [family]; exact nofun)] at known
      cases known
  · exact fun full kind ref waits => used_of_known kept (known_of_queued (kept.fine full) waits)
  · exact fun ref session there queued token limit fence => attempt_refused kept.fine there queued token limit fence
  · exact fun ref session there => (kept.fine session.full).lined.sleeps ref session there rfl
  · intro full unused nobody
    have unknown : ¬ world.store.Known full := by
      intro known
      obtain ⟨kind, user, uses⟩ := used_of_known kept known
      exact unused kind user uses
    have still := mt (known_of_waits (kept.fine full)) unknown
    simp only [MemoryStore.Known, not_or, Bool.not_eq_true, Option.isSome_eq_false_iff, Option.isNone_iff_eq_none] at unknown
    simp only [not_or, ne_eq, not_not] at still
    exact ⟨unknown.1, unknown.2.1, unknown.2.2, still.1, still.2.1, still.2.2⟩

theorem World.Kept.turn (kept : world.Kept) (allowed : world.allowed op) : world.Turn op := by
  obtain ⟨key, spec⟩ := call_spec kept.fine (World.fresh_holders kept.held allowed.1) allowed.2
  have fine := kept.fine.apart spec.apart spec.fine
  -- nothing happens to the waiters of other keys
  have elsewhere {full : LockKey} {kind : WaitKind} {ref : Ref} (apart : full ≠ key) :
      IsIn (world.call op).store ref full kind .reserved ↔ IsIn world.store ref full kind .reserved :=
    (spec.apart full apart).isIn kind .reserved ref
  refine ⟨fun full kind ref is => ?_, fun full kind ref isSole now before other waits => ?_,
    fun full ref now before other waits => ?_, fun fence granted full grant isTake => ?_⟩
  · by_cases isKey : full = key
    · subst isKey
      exact spec.serves.kept ref kind is
    · exact .inl ((elsewhere isKey).mpr is)
  · by_cases isKey : full = key
    · subst isKey
      have inLine := in_line spec.fine.lined waits
      have notRead : kind ≠ .read := by
        rintro rfl
        cases isSole
      rw [if_neg notRead] at inLine
      rcases spec.serves.got ref kind now with already | ⟨sole, -⟩
      · exact absurd already before
      rcases sole isSole with ahead | empty
      · have order := (kept.began full).sublist ahead
        have less := (List.pairwise_cons.mp order).1 other inLine
        rw [world.began_kept op (queued_of (kept.fine full).lined (ahead.subset List.mem_cons_self)),
          world.began_kept op (queued_of (kept.fine full).lined (ahead.subset (List.mem_cons_of_mem _ inLine)))]
        exact less
      · rw [empty] at inLine
        cases inLine
    · exact absurd ((elsewhere isKey).mp now) before
  · by_cases isKey : full = key
    · subst isKey
      have inLine := in_line spec.fine.lined waits
      rw [if_neg nofun] at inLine
      rcases spec.serves.got ref .read now with already | ⟨-, reads⟩
      · exact absurd already before
      · rw [reads rfl] at inLine
        cases inLine
    · exact absurd ((elsewhere isKey).mp now) before
  · have isKey : full = key := by
      cases spec.holders with
      | takes _ isTake_ _ _ _ =>
        rw [isTake] at isTake_
        cases isTake_
        rfl
      | gives _ _ noTake _ =>
        rw [isTake] at noTake
        cases noTake
      | quiet noTake _ _ _ =>
        rw [isTake] at noTake
        cases noTake
    subst isKey
    rcases spec.outright fence granted with own | nobody
    · exact .inl own
    · refine .inr fun other kind isSole waits => ?_
      have family : kind.primitive = full.primitive := by
        obtain ⟨session, there, here, rfl, -⟩ := waits
        exact (kept.fine full).lined.family other session there here
      have inLine := in_line (kept.fine full).lined waits
      have notRead : kind ≠ .read := by
        rintro rfl
        cases isSole
      have notPermits : full.primitive ≠ .semaphore := by
        rw [← family]
        cases kind with
        | permits => cases isSole
        | _ => exact nofun
      rw [if_neg notRead, nobody notPermits] at inLine
      cases inLine

def heavyCalls : List Op := [.acquirePermits "k" "t" 5 5 none, .waiterPermits "k" 10, .releasePermits "k" "t"]

def fairCalls : List Op := [.acquire "k" "a" none, .waiter "k", .acquire "k" "b" (some 0), .release "k" "a"]

end Arki.Lock
