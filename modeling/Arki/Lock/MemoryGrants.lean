import Arki.Lock.MemoryFrame

/-! The grants that are out, and what a call does to those of its key. -/

set_option autoImplicit false

namespace Arki.Lock

structure Grant where
  full : LockKey
  owner : LockToken
  kind : WaitKind
  weight : Nat
  fence : Nat
  deriving DecidableEq

def Hold.grant (full : LockKey) (kind : WaitKind) (hold : Hold) : Grant := ⟨full, hold.owner, kind, 1, hold.fence⟩

def PermitHold.grant (full : LockKey) (hold : PermitHold) : Grant := ⟨full, hold.owner, .permits, hold.weight, hold.fence⟩

def MutexState.grants (full : LockKey) (state : MutexState) : List Grant := state.holder.toList.map (Hold.grant full .mutex)

def Pool.grants (full : LockKey) (pool : Pool) : List Grant := pool.holders.map (PermitHold.grant full)

def Shared.grants (full : LockKey) (state : Shared) : List Grant :=
  state.readers.map (Hold.grant full .read) ++ state.writer.toList.map (Hold.grant full .write)

namespace MemoryStore

variable {store next : MemoryStore} {full : LockKey} {ref : Ref} {session : Session}

def holders (store : MemoryStore) (full : LockKey) : List Grant :=
  (store.mutexes full).elim [] (·.grants full) ++ (store.pools full).elim [] (·.grants full) ++
    (store.shareds full).elim [] (·.grants full)

theorem Same.holders (same : Same full store next) : next.holders full = store.holders full := by
  unfold MemoryStore.holders
  rw [same.mutexes, same.pools, same.shareds]

theorem Alone.mutexHolders (alone : Alone store full) (isMutex : full.primitive = .mutex) :
    store.holders full = (store.mutexes full).elim [] (·.grants full) := by
  have noPool := alone.pools (by rw [isMutex]; exact nofun)
  have noShared := alone.shareds (by rw [isMutex]; exact nofun)
  simp [MemoryStore.holders, noPool, noShared]

theorem Alone.permitHolders (alone : Alone store full) (isSemaphore : full.primitive = .semaphore) :
    store.holders full = (store.pools full).elim [] (·.grants full) := by
  have noMutex := alone.mutexes (by rw [isSemaphore]; exact nofun)
  have noShared := alone.shareds (by rw [isSemaphore]; exact nofun)
  simp [MemoryStore.holders, noMutex, noShared]

theorem Alone.sharedHolders (alone : Alone store full) (isShared : full.primitive = .readWrite) :
    store.holders full = (store.shareds full).elim [] (·.grants full) := by
  have noMutex := alone.mutexes (by rw [isShared]; exact nofun)
  have noPool := alone.pools (by rw [isShared]; exact nofun)
  simp [MemoryStore.holders, noMutex, noPool]

inductive Takes (store next : MemoryStore) (full : LockKey) (answer : Answer) (grant : Nat → Grant) : Prop where
  | refused (not : ∀ fence, answer ≠ .granted fence) (same : next.holders full = store.holders full)
      (fence : next.lastFence = store.lastFence) : Takes store next full answer grant
  | granted (isGranted : answer = .granted (store.lastFence + 1))
      (more : next.holders full = store.holders full ++ [grant (store.lastFence + 1)])
      (fence : next.lastFence = store.lastFence + 1) : Takes store next full answer grant

inductive Gives (store next : MemoryStore) (full : LockKey) (token : LockToken) (answer : Answer) : Prop where
  | notOwner (not : answer = .notOwner) (same : next = store) : Gives store next full token answer
  | released (isReleased : answer = .released)
      (less : next.holders full = (store.holders full).filter (·.owner ≠ token))
      (fence : next.lastFence = store.lastFence) : Gives store next full token answer

structure Quiet (store next : MemoryStore) (full : LockKey) : Prop where
  holders : next.holders full = store.holders full
  fence : next.lastFence = store.lastFence

theorem Quiet.refl (store : MemoryStore) (full : LockKey) : Quiet store store full := ⟨rfl, rfl⟩

theorem Quiet.trans {middle : MemoryStore} (first : Quiet store middle full) (second : Quiet middle next full) :
    Quiet store next full :=
  ⟨second.holders.trans first.holders, second.fence.trans first.fence⟩

theorem Beside.quiet (beside : Beside store next session) : Quiet store next full := by
  refine ⟨?_, beside.lastFence⟩
  unfold MemoryStore.holders
  rw [beside.mutexes, beside.pools, beside.shareds]

theorem quiet_change (change : Session → Session) : Quiet store (store.change ref change) full := ⟨rfl, rfl⟩

theorem quiet_push (session : Session) : Quiet store (store.push session) full := ⟨rfl, rfl⟩

theorem quiet_queueRefused (waiter : Option Ref) (kind : WaitKind) (weight : Nat) :
    Quiet store (store.queueRefused waiter full kind weight).1 full ∧ (store.queueRefused waiter full kind weight).2 = .refused := by
  unfold queueRefused
  cases waiter with
  | none => exact ⟨.refl store full, rfl⟩
  | some ref =>
  simp only
  cases store.sessions[ref]? with
  | none => exact ⟨.refl store full, rfl⟩
  | some session =>
  simp only
  split
  · exact ⟨beside_join.quiet, rfl⟩
  · exact ⟨.refl store full, rfl⟩

theorem refused_takes (waiter : Option Ref) (kind : WaitKind) (weight : Nat) (grant : Nat → Grant) :
    Takes store (store.queueRefused waiter full kind weight).1 full (store.queueRefused waiter full kind weight).2 grant := by
  obtain ⟨quiet, refused⟩ := @quiet_queueRefused store full waiter kind weight
  refine .refused (fun fence granted => ?_) quiet.holders quiet.fence
  rw [refused] at granted
  cases granted

theorem dispatchMutex_quiet : Quiet store (store.dispatchMutex full) full := by
  unfold dispatchMutex
  split
  · exact .refl store full
  next free =>
  have unheld : (store.mutexes full).elim [] (·.grants full) = [] := by
    cases known : store.mutexes full with
    | none => rfl
    | some state =>
      rw [known] at free
      simp only [Option.any_some, Bool.or_eq_true, not_or, Option.not_isSome_iff_eq_none] at free
      simp [MutexState.grants, free.1]
  cases store.lines full with
  | nil =>
    refine ⟨?_, rfl⟩
    simp [MemoryStore.holders, wakeWatchers, setMutex, unheld]
  | cons head rest =>
    simp only
    cases store.sessions[head]? with
    | none => exact .refl store full
    | some session =>
      refine Quiet.trans ?_ beside_handTo.quiet
      refine ⟨?_, rfl⟩
      simp only [MemoryStore.holders, setMutex, Function.update_self, unheld, Option.elim_some]
      rfl

theorem acquire_takes (isMutex : full.primitive = .mutex) (fine : MutexFine store full) (token : LockToken) (waiter : Option Ref) :
    Takes store (store.acquire full token waiter).1 full (store.acquire full token waiter).2
      fun fence => ⟨full, token, .mutex, 1, fence⟩ := by
  have alone := fine.lined.alone
  have noPool := alone.pools (by rw [isMutex]; exact nofun)
  have noShared := alone.shareds (by rw [isMutex]; exact nofun)
  -- a mutex that is granted has no holder
  have unheld (free : (store.mutexes full).bind (·.holder) = none) : store.holders full = [] := by
    rw [alone.mutexHolders isMutex]
    cases known : store.mutexes full with
    | none => rfl
    | some state =>
      rw [known] at free
      have noHolder : state.holder = none := free
      simp [MutexState.grants, noHolder]
  unfold acquire
  simp only
  cases reserved : (store.mutexes full).bind (·.reserved) with
  | some holder =>
    simp only
    cases store.redeeming waiter full .mutex 1 with
    | none => exact refused_takes waiter _ _ _
    | some own =>
      simp only
      split
      · obtain ⟨state, known, isReserved⟩ := Option.bind_eq_some_iff.mp reserved
        have noHolder : (store.mutexes full).bind (·.holder) = none := by
          rw [known, Option.bind_some]
          refine (fine.single state known).resolve_right fun none_ => ?_
          rw [none_] at isReserved
          cases isReserved
        refine .granted rfl ?_ rfl
        rw [unheld noHolder]
        simp [MemoryStore.holders, setMutex, setState, MemoryStore.change, noPool, noShared, MutexState.grants, Hold.grant]
      · exact refused_takes waiter _ _ _
  | none =>
    simp only
    split
    · exact refused_takes waiter _ _ _
    · next free =>
      rw [Option.not_isSome_iff_eq_none] at free
      refine .granted rfl ?_ rfl
      rw [unheld free]
      simp [MemoryStore.holders, setMutex, noPool, noShared, MutexState.grants, Hold.grant]

theorem release_gives (isMutex : full.primitive = .mutex) (fine : MutexFine store full) (token : LockToken) :
    Gives store (store.release full token).1 full token (store.release full token).2 := by
  have alone := fine.lined.alone
  unfold release
  split
  · next holder reserved known =>
    split
    · next own =>
      have quiet := @dispatchMutex_quiet (store.setMutex full (some ⟨none, reserved⟩)) full
      refine .released rfl (quiet.holders.trans ?_) quiet.fence
      rw [alone.mutexHolders isMutex, (setMutex_alone isMutex alone _).mutexHolders isMutex, known]
      simp [setMutex, MutexState.grants, Hold.grant, own]
    · exact .notOwner rfl rfl
  · exact .notOwner rfl rfl

theorem waiter_quiet (fine : MutexFine store full) : Quiet store (store.waiter full) full := by
  unfold waiter
  simp only
  split
  · exact (quiet_push _).trans beside_join.quiet
  · next free =>
    have unknown : store.mutexes full = none := by
      cases known : store.mutexes full with
      | none => rfl
      | some state =>
        rw [known] at free
        simp only [Option.any_some, Bool.or_eq_true, not_or] at free
        cases fine.busy state known with
        | inl held => exact absurd held free.1
        | inr reserved => exact absurd reserved free.2
    refine ⟨?_, rfl⟩
    simp [MemoryStore.holders, setMutex, push, unknown, MutexState.grants]

theorem reserve_quiet {pool : Pool} (known : store.pools full = some pool) : Quiet store (store.reserve full pool ref session) full := by
  have counted : Quiet store (store.setPool full (some { pool with
      inUse := pool.inUse + session.weight, reserved := pool.reserved + session.weight })) full := by
    refine ⟨?_, rfl⟩
    simp [MemoryStore.holders, setPool, known, Pool.grants]
  exact counted.trans beside_handTo.quiet

theorem grantFitting_quiet (rest : List Ref) : ∀ {store : MemoryStore}, Quiet store (grantFitting full rest store) full := by
  induction rest with
  | nil => exact .refl _ full
  | cons head rest ih =>
    intro store
    unfold grantFitting
    cases known : store.pools full with
    | none => exact .refl store full
    | some pool =>
    cases store.sessions[head]? with
    | none => exact .refl store full
    | some session =>
    simp only
    split
    · split
      · exact (reserve_quiet known).trans ih
      · exact ih
    · exact .refl store full

theorem dispatchPermits_quiet : Quiet store (store.dispatchPermits full) full := by
  unfold dispatchPermits
  split
  · exact ⟨rfl, rfl⟩
  · have served := @grantFitting_quiet full (store.lines full) store
    simp only
    split
    · exact served
    · next idle =>
      refine served.trans ⟨?_, rfl⟩
      have unheld : ((grantFitting full (store.lines full) store).pools full).elim [] (·.grants full) = [] := by
        cases known : (grantFitting full (store.lines full) store).pools full with
        | none => rfl
        | some pool =>
          rw [known] at idle
          simp only [ne_eq, decide_not, Option.any_some, Bool.or_eq_true, Bool.not_eq_true', decide_eq_false_iff_not,
            decide_eq_true_eq, not_or, not_not] at idle
          simp [Pool.grants, idle.1]
      simp only [MemoryStore.holders, setPool, wakeWatchers, Function.update_self, unheld, Option.elim_none]

theorem acquirePermits_takes (isSemaphore : full.primitive = .semaphore) (fine : PoolFine store full) (token : LockToken)
    (fresh : ∀ grant ∈ store.holders full, grant.owner ≠ token) (limit weight : Nat) (waiter : Option Ref) :
    Takes store (store.acquirePermits full token limit weight waiter).1 full
      (store.acquirePermits full token limit weight waiter).2 fun fence => ⟨full, token, .permits, weight, fence⟩ := by
  have alone := fine.lined.alone
  have noMutex := alone.mutexes (by rw [isSemaphore]; exact nofun)
  have noShared := alone.shareds (by rw [isSemaphore]; exact nofun)
  have set_ (any : MemoryStore) (tables : any.mutexes full = none ∧ any.shareds full = none) (pool : Pool) (fence : Nat) :
      MemoryStore.holders { any.setPool full (some pool) with lastFence := fence } full = pool.grants full := by
    simp [MemoryStore.holders, setPool, tables]
  -- a new hold comes last among those of the pool, if there is one
  have more (inUse reserved : Nat) (hold : PermitHold) (own : hold.owner = token) :
      Pool.grants full { (store.pools full).getD ⟨limit, 0, 0, []⟩ with
        holders := setHolder ((store.pools full).getD ⟨limit, 0, 0, []⟩).holders hold, inUse := inUse, reserved := reserved } =
        store.holders full ++ [hold.grant full] := by
    rw [alone.permitHolders isSemaphore] at fresh ⊢
    have absent : hold.owner ∉ ((store.pools full).getD ⟨limit, 0, 0, []⟩).holders.map (·.owner) := by
      rw [own]
      intro member
      obtain ⟨other, isHolder, isOwner⟩ := List.mem_map.mp member
      cases known : store.pools full with
      | none =>
        rw [known] at isHolder
        cases isHolder
      | some pool =>
        rw [known] at isHolder fresh
        exact fresh (other.grant full) (List.mem_map_of_mem isHolder) isOwner
    rw [setHolder_fresh absent]
    cases store.pools full with
    | none => rfl
    | some pool => simp [Pool.grants]
  unfold acquirePermits
  split
  · exact .refused nofun rfl rfl
  split
  · exact .refused nofun rfl rfl
  split
  · exact .refused nofun rfl rfl
  simp only
  split
  · next own _ =>
    exact .granted rfl ((set_ (store.setState own .idle) ⟨noMutex, noShared⟩ _ _).trans (more _ _ _ rfl)) rfl
  · split
    · exact refused_takes waiter _ _ _
    · exact .granted rfl ((set_ store ⟨noMutex, noShared⟩ _ _).trans (more _ _ _ rfl)) rfl

theorem releasePermits_gives (isSemaphore : full.primitive = .semaphore) (fine : PoolFine store full) (token : LockToken) :
    Gives store (store.releasePermits full token).1 full token (store.releasePermits full token).2 := by
  have alone := fine.lined.alone
  unfold releasePermits
  cases known : store.pools full with
  | none => exact .notOwner rfl rfl
  | some pool =>
  simp only
  cases found : pool.holders.find? (·.owner = token) with
  | none => exact .notOwner rfl rfl
  | some hold =>
  simp only
  have quiet := @dispatchPermits_quiet (store.setPool full (some { pool with
    holders := pool.holders.filter (·.owner ≠ token), inUse := pool.inUse - hold.weight })) full
  refine .released rfl (quiet.holders.trans ?_) quiet.fence
  rw [alone.permitHolders isSemaphore, (setPool_alone isSemaphore alone _).permitHolders isSemaphore, known]
  simp only [setPool, Function.update_self, Option.elim_some, Pool.grants, List.filter_map]
  rfl

theorem waiterPermits_quiet (weight : Nat) : Quiet store (store.waiterPermits full weight) full := by
  unfold waiterPermits
  cases known : store.pools full with
  | none => exact quiet_push _
  | some pool =>
  simp only
  split
  · refine ⟨?_, rfl⟩
    simp [MemoryStore.holders, setPool, push, known, Pool.grants]
  · exact (quiet_push _).trans beside_join.quiet

theorem admitReader_quiet {state : Shared} (known : store.shareds full = some state) :
    Quiet store (store.admitReader full state ref session) full := by
  have counted : Quiet store (store.setShared full (some { state with reservedReaders := state.reservedReaders + 1 })) full := by
    refine ⟨?_, rfl⟩
    simp [MemoryStore.holders, setShared, known, Shared.grants]
  exact counted.trans beside_handTo.quiet

theorem admitReaders_quiet (rest : List Ref) : ∀ {store : MemoryStore}, Quiet store (admitReaders full rest store) full := by
  induction rest with
  | nil => exact .refl _ full
  | cons head rest ih =>
    intro store
    unfold admitReaders
    cases known : store.shareds full with
    | none => exact .refl store full
    | some state =>
    cases store.sessions[head]? with
    | none => exact .refl store full
    | some session =>
    exact (admitReader_quiet known).trans ih

theorem getD_grants (state : Option Shared) : (state.getD newShared).grants full = state.elim [] (·.grants full) := by
  cases state <;> rfl

theorem dispatchShared_quiet : Quiet store (store.dispatchShared full) full := by
  unfold dispatchShared
  simp only
  split
  · exact .refl store full
  next unwritten =>
  have kept (state : Shared) (same : state.grants full = ((store.shareds full).getD newShared).grants full) :
      Quiet store (store.setShared full (some state)) full := by
    refine ⟨?_, rfl⟩
    rw [getD_grants] at same
    simp [MemoryStore.holders, setShared, same]
  cases store.lines full with
  | cons head rest =>
    simp only
    split
    · exact .refl store full
    cases store.sessions[head]? with
    | none => exact .refl store full
    | some session =>
      have reserved := kept { (store.shareds full).getD newShared with reservedWriter := some head } rfl
      exact reserved.trans beside_handTo.quiet
  | nil =>
    simp only
    split
    · exact (kept _ rfl).trans (admitReaders_quiet _)
    split
    · exact .refl store full
    · next unread =>
      refine ⟨?_, rfl⟩
      have unheld : (store.shareds full).elim [] (·.grants full) = [] := by
        cases known : store.shareds full with
        | none => rfl
        | some state =>
          rw [known] at unread unwritten
          simp only [Option.any_some, Shared.isRead, Shared.isWritten, ne_eq, decide_not, Bool.or_eq_true, Bool.not_eq_true',
            decide_eq_false_iff_not, decide_eq_true_eq, not_or, not_not, Option.not_isSome_iff_eq_none] at unread unwritten
          simp [Shared.grants, unread.1, unwritten.1]
      simp [MemoryStore.holders, setShared, wakeWatchers, unheld]

theorem setReader_fresh {readers : List Hold} {hold : Hold} (fresh : hold.owner ∉ readers.map (·.owner)) :
    setReader readers hold = readers ++ [hold] := by
  have absent : ¬ (readers.any fun other => other.owner = hold.owner) = true := by
    intro known
    obtain ⟨other, member, same⟩ := List.any_eq_true.mp known
    apply fresh
    rw [← of_decide_eq_true same]
    exact List.mem_map_of_mem member
  rw [setReader, if_neg absent]

theorem grants_reader {state : Shared} {hold : Hold} (unwritten : state.writer = none)
    (fresh : ∀ grant ∈ state.grants full, grant.owner ≠ hold.owner) (reserved : Nat) :
    ({ state with readers := setReader state.readers hold, reservedReaders := reserved } : Shared).grants full =
      state.grants full ++ [hold.grant full .read] := by
  have absent : hold.owner ∉ state.readers.map (·.owner) := by
    intro member
    obtain ⟨other, isReader, isOwner⟩ := List.mem_map.mp member
    exact fresh (other.grant full .read) (List.mem_append_left _ (List.mem_map_of_mem isReader)) isOwner
  simp [Shared.grants, setReader_fresh absent, unwritten]

theorem acquireShared_takes (isShared : full.primitive = .readWrite) (fine : SharedFine store full) (token : LockToken)
    (fresh : ∀ grant ∈ store.holders full, grant.owner ≠ token) (mode : SharedMode) (waiter : Option Ref) :
    Takes store (store.acquireShared full token mode waiter).1 full (store.acquireShared full token mode waiter).2
      fun fence => ⟨full, token, mode.kind, 1, fence⟩ := by
  have alone := fine.lined.alone
  have noMutex := alone.mutexes (by rw [isShared]; rintro ⟨⟩)
  have noPool := alone.pools (by rw [isShared]; rintro ⟨⟩)
  rw [alone.sharedHolders isShared] at fresh
  have set_ (any : MemoryStore) (tables : any.mutexes full = none ∧ any.pools full = none) (state : Shared) (fence : Nat) :
      MemoryStore.holders { any.setShared full (some state) with lastFence := fence } full = state.grants full := by
    simp [MemoryStore.holders, setShared, tables]
  have refused (held : Shared) (answer : MemoryStore × Answer)
      (reads : mode = .read → held = { (store.shareds full).getD newShared with
        readers := setReader ((store.shareds full).getD newShared).readers ⟨token, store.lastFence + 1⟩ })
      (writes : mode = .write → held = { (store.shareds full).getD newShared with
        writer := some ⟨token, store.lastFence + 1⟩ })
      (is : answer = if store.sharedBlocked full mode then store.queueRefused waiter full mode.kind 1
        else ({ store.setShared full (some held) with lastFence := store.lastFence + 1 }, .granted (store.lastFence + 1))) :
      Takes store answer.1 full answer.2 fun fence => ⟨full, token, mode.kind, 1, fence⟩ := by
    rw [is]
    split
    · exact refused_takes waiter _ _ _
    · next free =>
      obtain ⟨unwritten, -, unread⟩ := fine.free free
      obtain ⟨isFree, -, -⟩ := fine.getD unwritten
      refine .granted rfl ?_ rfl
      rw [alone.sharedHolders isShared, ← getD_grants]
      rw [← getD_grants] at fresh
      cases mode with
      | read =>
        rw [reads rfl]
        refine (set_ store ⟨noMutex, noPool⟩ _ _).trans ?_
        exact grants_reader (unwritten_iff.mp isFree).1 fresh _
      | write =>
        rw [writes rfl]
        refine (set_ store ⟨noMutex, noPool⟩ _ _).trans ?_
        rw [unread rfl]
        rfl
  unfold acquireShared
  cases known : store.shareds full with
  | none =>
    rw [known] at refused
    exact refused _ _ (by rintro rfl; rfl) (by rintro rfl; rfl) rfl
  | some state =>
    cases redeems : store.redeeming waiter full mode.kind 1 with
    | none =>
      rw [known] at refused
      exact refused _ _ (by rintro rfl; rfl) (by rintro rfl; rfl) rfl
    | some own =>
      obtain ⟨-, session, there, here, kind, isReserved, -⟩ := redeeming_some redeems
      have single := fine.single state known
      rw [known] at fresh
      refine .granted rfl ?_ rfl
      rw [alone.sharedHolders isShared, known]
      cases mode with
      | read =>
        have enough := @Heap.le_total _ _ _ _ (reservedReader full) there
        rw [reservedReader_reserved here kind isReserved, ← fine.readers state known] at enough
        have unwritten : state.isWritten = false := by
          cases written : state.isWritten with
          | false => rfl
          | true =>
            have notRead := single.readers written
            simp only [Shared.isRead, Bool.or_eq_false_iff, decide_eq_false_iff_not] at notRead
            omega
        refine (set_ (store.setState own .idle) ⟨noMutex, noPool⟩ _ _).trans ?_
        exact @grants_reader full state ⟨token, _⟩ (unwritten_iff.mp unwritten).1 fresh _
      | write =>
        have isOwn := (fine.reserved own).mpr ⟨session, there, here, kind, isReserved⟩
        rw [known, Option.bind_some] at isOwn
        have isWritten : state.isWritten = true := by simp [Shared.isWritten, isOwn]
        have notRead := single.readers isWritten
        have noWriter : state.writer = none := single.writer.resolve_right (by rw [isOwn]; rintro ⟨⟩)
        simp only [Shared.isRead, ne_eq, decide_not, Bool.or_eq_false_iff, Bool.not_eq_false', decide_eq_true_eq] at notRead
        refine (set_ (store.setState own .idle) ⟨noMutex, noPool⟩ _ _).trans ?_
        simp [Shared.grants, notRead.1, noWriter, Hold.grant, SharedMode.kind]

theorem releaseShared_gives (isShared : full.primitive = .readWrite) (fine : SharedFine store full) (token : LockToken) :
    Gives store (store.releaseShared full token).1 full token (store.releaseShared full token).2 := by
  have alone := fine.lined.alone
  unfold releaseShared
  cases known : store.shareds full with
  | none => exact .notOwner rfl rfl
  | some state =>
  simp only
  have single := fine.single state known
  have left (state_ : Shared) : (store.setShared full (some state_)).holders full = state_.grants full := by
    rw [(setShared_alone isShared alone _).sharedHolders isShared]
    simp [setShared]
  split
  · next held =>
    obtain ⟨hold, isWriter, own⟩ := Option.any_eq_true _ _ |>.mp held
    have isWritten : state.isWritten = true := by simp [Shared.isWritten, isWriter]
    have notRead := single.readers isWritten
    simp only [Shared.isRead, ne_eq, decide_not, Bool.or_eq_false_iff, Bool.not_eq_false', decide_eq_true_eq] at notRead
    have quiet := @dispatchShared_quiet (store.setShared full (some { state with writer := none })) full
    refine .released rfl (quiet.holders.trans ?_) quiet.fence
    rw [left, alone.sharedHolders isShared, known]
    have same := of_decide_eq_true own
    simp [Shared.grants, notRead.1, isWriter, Hold.grant, same]
  · next notWriter =>
    split
    · have quiet := @dispatchShared_quiet (store.setShared full (some { state with
        readers := state.readers.filter (·.owner ≠ token) })) full
      refine .released rfl (quiet.holders.trans ?_) quiet.fence
      rw [left, alone.sharedHolders isShared, known]
      have keeps : (state.writer.toList.map (Hold.grant full .write)).filter (·.owner ≠ token) =
          state.writer.toList.map (Hold.grant full .write) := by
        rw [List.filter_eq_self]
        intro grant member
        cases isWriter : state.writer with
        | none =>
          rw [isWriter] at member
          cases member
        | some hold =>
          rw [isWriter] at member notWriter
          cases List.mem_singleton.mp member
          have apart : hold.owner ≠ token := by simpa using notWriter
          exact decide_eq_true apart
      simp only [Option.elim_some, Shared.grants, List.filter_append, keeps, List.filter_map]
      rfl
    · exact .notOwner rfl rfl

theorem waiterShared_quiet (mode : SharedMode) : Quiet store (store.waiterShared full mode) full := by
  unfold waiterShared
  simp only
  split
  · exact (quiet_push _).trans beside_join.quiet
  · refine ⟨?_, rfl⟩
    have same (state : Shared) (isSame : state.grants full = ((store.shareds full).getD newShared).grants full) :
        ((store.push ⟨full, mode.kind, 1, .reserved, false, false⟩).setShared full (some state)).holders full = store.holders full := by
      rw [getD_grants] at isSame
      simp [MemoryStore.holders, setShared, push, isSame]
    cases mode with
    | read => exact same _ rfl
    | write => exact same _ rfl

theorem unreserve_quiet (ref : Ref) (session : Session) : Quiet store (store.unreserve ref session) session.full := by
  unfold unreserve
  simp only
  split
  · split
    · next state known =>
      split
      · refine ⟨?_, rfl⟩
        simp [MemoryStore.holders, setMutex, setState, MemoryStore.change, known, MutexState.grants]
      · exact ⟨rfl, rfl⟩
    · exact ⟨rfl, rfl⟩
  · split
    · next pool known =>
      refine ⟨?_, rfl⟩
      simp [MemoryStore.holders, setPool, setState, MemoryStore.change, known, Pool.grants]
    · exact ⟨rfl, rfl⟩
  · split
    · next state known =>
      refine ⟨?_, rfl⟩
      simp [MemoryStore.holders, setShared, setState, MemoryStore.change, known, Shared.grants]
    · exact ⟨rfl, rfl⟩
  · split
    · next state known =>
      split
      · refine ⟨?_, rfl⟩
        simp [MemoryStore.holders, setShared, setState, MemoryStore.change, known, Shared.grants]
      · exact ⟨rfl, rfl⟩
    · exact ⟨rfl, rfl⟩

theorem dispatch_quiet (session : Session) : Quiet store (store.dispatch session) session.full := by
  unfold dispatch
  split
  · exact dispatchMutex_quiet
  · exact dispatchPermits_quiet
  · exact dispatchShared_quiet
  · exact dispatchShared_quiet

theorem close_quiet (there : store.sessions[ref]? = some session) : Quiet store (store.close ref) session.full := by
  unfold close
  simp only [there]
  split
  · exact .refl store session.full
  split
  · exact quiet_change _
  · exact ((quiet_change _).trans beside_leave.quiet).trans (dispatch_quiet session)
  · exact ((quiet_change _).trans (unreserve_quiet ref session)).trans (dispatch_quiet session)

end MemoryStore

end Arki.Lock
