import Arki.Lock.MemoryShared

/-! A call on one key leaves every other key as it was. -/

set_option autoImplicit false

namespace Arki.Lock

namespace MemoryStore

variable {store next : MemoryStore} {full key : LockKey} {ref : Ref} {session : Session}

theorem apart_fence (fence : Nat) : Apart key store { store with lastFence := fence } := fun _ _ =>
  ⟨rfl, rfl, rfl, rfl, rfl, rfl, fun _ _ _ => .rfl, fun _ _ => rfl⟩

def Here (store : MemoryStore) (full : LockKey) (line : List Ref) : Prop :=
  ∀ ref ∈ line, ∀ session : Session, store.sessions[ref]? = some session → session.full = full

theorem Lists.here {reading : Bool} {line : List Ref} (lists : Lists store full reading line) : Here store full line := by
  intro ref member session there
  obtain ⟨found, isFound, here, -⟩ := (lists.member ref).mp member
  rw [there] at isFound
  cases isFound
  exact here

theorem Here.moved {line : List Ref} {old new : Session} (here : Here store full line) (moves : Moves store next ref old new)
    (stays : new.full = old.full) (isHere : old.full = full) : Here next full line := by
  intro place member session there
  rw [moves.lookup] at there
  split at there
  · cases there
    exact stays.trans isHere
  · exact here place member session there

theorem Here.tail {head : Ref} {line : List Ref} (here : Here store full (head :: line)) : Here store full line :=
  fun ref member => here ref (List.mem_cons_of_mem _ member)

theorem apart_queueRefused (waiter : Option Ref) (kind : WaitKind) (weight : Nat) :
    Apart full store (store.queueRefused waiter full kind weight).1 := by
  unfold queueRefused
  cases waiter with
  | none => exact .refl full store
  | some ref =>
  simp only
  cases there : store.sessions[ref]? with
  | none => exact .refl full store
  | some session =>
  simp only
  split
  · next joins =>
    have here := joins.2.2.1
    exact here ▸ apart_join there
  · exact .refl full store

theorem apart_dispatchMutex (here : Here store full (store.lines full)) : Apart full store (store.dispatchMutex full) := by
  unfold dispatchMutex
  split
  · exact .refl full store
  cases line : store.lines full with
  | nil => exact (apart_setMutex _).trans apart_wakeWatchers
  | cons head rest =>
    simp only
    cases there : store.sessions[head]? with
    | none => exact .refl full store
    | some session =>
      rw [line] at here
      have isHere := here head List.mem_cons_self session there
      have handed := @apart_handTo (store.setMutex full (some ⟨none, some head⟩)) head session there
      rw [isHere] at handed
      exact (apart_setMutex _).trans handed

theorem apart_acquire (token : LockToken) (waiter : Option Ref) : Apart full store (store.acquire full token waiter).1 := by
  unfold acquire
  simp only
  cases reserved : (store.mutexes full).bind (·.reserved) with
  | some holder =>
    simp only
    cases redeems : store.redeeming waiter full .mutex 1 with
    | none => exact apart_queueRefused waiter _ _
    | some own =>
      simp only
      split
      · obtain ⟨-, session, there, here, -⟩ := redeeming_some redeems
        have idle := apart_setState there .idle
        rw [here] at idle
        exact (idle.trans (apart_setMutex _)).trans (apart_fence _)
      · exact apart_queueRefused waiter _ _
  | none =>
    simp only
    split
    · exact apart_queueRefused waiter _ _
    · exact (apart_setMutex _).trans (apart_fence _)

theorem apart_release (token : LockToken) (here : Here store full (store.lines full)) :
    Apart full store (store.release full token).1 := by
  unfold release
  split
  · split
    · exact (apart_setMutex _).trans (apart_dispatchMutex here)
    · exact .refl full store
  · exact .refl full store

theorem apart_pushJoin (here : session.full = full) : Apart full store ((store.push session).join store.sessions.length session) := by
  have there : (store.push session).sessions[store.sessions.length]? = some session := by simp [push]
  have joined := apart_join there
  rw [here] at joined
  exact (apart_push here).trans joined

theorem apart_waiter : Apart full store (store.waiter full) := by
  unfold waiter
  simp only
  split
  · exact @apart_pushJoin store full ⟨full, .mutex, 1, .idle, false, false⟩ rfl
  · exact (@apart_push store full ⟨full, .mutex, 1, .reserved, false, false⟩ rfl).trans (apart_setMutex _)

theorem apart_grantFitting (rest : List Ref) : ∀ {store : MemoryStore}, Here store full rest →
    Apart full store (grantFitting full rest store) := by
  induction rest with
  | nil => exact fun _ => .refl full _
  | cons head rest ih =>
    intro store here
    unfold grantFitting
    cases known : store.pools full with
    | none => exact .refl full store
    | some pool =>
    cases there : store.sessions[head]? with
    | none => exact .refl full store
    | some session =>
    have isHere := here head List.mem_cons_self session there
    simp only
    split
    · split
      · have handed := @apart_handTo (store.setPool full (some { pool with
          inUse := pool.inUse + session.weight, reserved := pool.reserved + session.weight })) head session there
        rw [isHere] at handed
        exact ((apart_setPool _).trans handed).trans (ih (here.tail.moved (moves_reserve there full pool) rfl isHere))
      · exact ih here.tail
    · exact .refl full store

theorem apart_dispatchPermits (here : Here store full (store.lines full)) : Apart full store (store.dispatchPermits full) := by
  unfold dispatchPermits
  split
  · exact apart_wakeWatchers
  · have served := apart_grantFitting (store.lines full) here
    simp only
    split
    · exact served
    · exact (served.trans (apart_setPool _)).trans apart_wakeWatchers

theorem apart_acquirePermits (token : LockToken) (limit weight : Nat) (waiter : Option Ref) :
    Apart full store (store.acquirePermits full token limit weight waiter).1 := by
  unfold acquirePermits
  split
  · exact .refl full store
  split
  · exact .refl full store
  split
  · exact .refl full store
  simp only
  split
  · next own redeems =>
    have redeemed : store.redeeming waiter full .permits weight = some own := by
      split at redeems
      · exact redeems
      · cases redeems
    obtain ⟨-, session, there, here, -⟩ := redeeming_some redeemed
    have idle := apart_setState there .idle
    rw [here] at idle
    exact (idle.trans (apart_setPool _)).trans (apart_fence _)
  · split
    · exact apart_queueRefused waiter _ _
    · exact (apart_setPool _).trans (apart_fence _)

theorem apart_releasePermits (token : LockToken) (here : Here store full (store.lines full)) :
    Apart full store (store.releasePermits full token).1 := by
  unfold releasePermits
  split
  · exact .refl full store
  · split
    · exact .refl full store
    · exact (apart_setPool _).trans (apart_dispatchPermits here)

theorem apart_waiterPermits (weight : Nat) : Apart full store (store.waiterPermits full weight) := by
  unfold waiterPermits
  simp only
  split
  · exact apart_push rfl
  · split
    · exact (@apart_push store full ⟨full, .permits, weight, .reserved, false, false⟩ rfl).trans (apart_setPool _)
    · exact @apart_pushJoin store full ⟨full, .permits, weight, .idle, false, false⟩ rfl

theorem apart_admitReaders (rest : List Ref) : ∀ {store : MemoryStore}, Here store full rest →
    Apart full store (admitReaders full rest store) := by
  induction rest with
  | nil => exact fun _ => .refl full _
  | cons head rest ih =>
    intro store here
    unfold admitReaders
    cases known : store.shareds full with
    | none => exact .refl full store
    | some state =>
    cases there : store.sessions[head]? with
    | none => exact .refl full store
    | some session =>
    have isHere := here head List.mem_cons_self session there
    have handed := @apart_handTo (store.setShared full (some { state with
      reservedReaders := state.reservedReaders + 1 })) head session there
    rw [isHere] at handed
    exact ((apart_setShared _).trans handed).trans (ih (here.tail.moved (moves_admitReader there full state) rfl isHere))

theorem apart_dispatchShared (here : Here store full (store.lines full)) (hereRead : Here store full (store.readerLines full)) :
    Apart full store (store.dispatchShared full) := by
  unfold dispatchShared
  simp only
  split
  · exact .refl full store
  cases line : store.lines full with
  | cons head rest =>
    simp only
    split
    · exact .refl full store
    cases there : store.sessions[head]? with
    | none => exact .refl full store
    | some session =>
      rw [line] at here
      have isHere := here head List.mem_cons_self session there
      have handed := @apart_handTo (store.setShared full (some { (store.shareds full).getD newShared with
        reservedWriter := some head })) head session there
      rw [isHere] at handed
      exact (apart_setShared _).trans handed
  | nil =>
    simp only
    split
    · exact (apart_setShared _).trans (apart_admitReaders _ hereRead)
    split
    · exact .refl full store
    · exact (apart_setShared _).trans apart_wakeWatchers

theorem apart_acquireShared (token : LockToken) (mode : SharedMode) (waiter : Option Ref) :
    Apart full store (store.acquireShared full token mode waiter).1 := by
  unfold acquireShared
  simp only
  split
  · next redeems =>
    obtain ⟨-, session, there, here, -⟩ := redeeming_some redeems
    have idle := apart_setState there .idle
    rw [here] at idle
    exact (idle.trans (apart_setShared _)).trans (apart_fence _)
  · split
    · exact apart_queueRefused waiter _ _
    · exact (apart_setShared _).trans (apart_fence _)

theorem apart_releaseShared (token : LockToken) (here : Here store full (store.lines full))
    (hereRead : Here store full (store.readerLines full)) : Apart full store (store.releaseShared full token).1 := by
  unfold releaseShared
  split
  · exact .refl full store
  split
  · exact (apart_setShared _).trans (apart_dispatchShared here hereRead)
  split
  · exact (apart_setShared _).trans (apart_dispatchShared here hereRead)
  · exact .refl full store

theorem apart_waiterShared (mode : SharedMode) : Apart full store (store.waiterShared full mode) := by
  unfold waiterShared
  simp only
  split
  · exact @apart_pushJoin store full ⟨full, mode.kind, 1, .idle, false, false⟩ rfl
  · exact (@apart_push store full ⟨full, mode.kind, 1, .reserved, false, false⟩ rfl).trans (apart_setShared _)

theorem unreserve_lines (ref : Ref) (session : Session) : (store.unreserve ref session).sessions = (store.setState ref .idle).sessions ∧
    (store.unreserve ref session).lines = store.lines ∧ (store.unreserve ref session).readerLines = store.readerLines := by
  unfold unreserve
  simp only
  split
  · split
    · split <;> exact ⟨rfl, rfl, rfl⟩
    · exact ⟨rfl, rfl, rfl⟩
  · split <;> exact ⟨rfl, rfl, rfl⟩
  · split <;> exact ⟨rfl, rfl, rfl⟩
  · split
    · split <;> exact ⟨rfl, rfl, rfl⟩
    · exact ⟨rfl, rfl, rfl⟩

theorem apart_unreserve {old : Session} (there : store.sessions[ref]? = some old) (likeness : old.full = session.full) :
    Apart session.full store (store.unreserve ref session) := by
  have idle := apart_setState there .idle
  rw [likeness] at idle
  unfold unreserve
  simp only
  split
  · split
    · split
      · exact idle.trans (apart_setMutex _)
      · exact idle
    · exact idle
  · split
    · exact idle.trans (apart_setPool _)
    · exact idle
  · split
    · exact idle.trans (apart_setShared _)
    · exact idle
  · split
    · split
      · exact idle.trans (apart_setShared _)
      · exact idle
    · exact idle

theorem apart_dispatch (here : Here store session.full (store.lines session.full))
    (hereRead : Here store session.full (store.readerLines session.full)) : Apart session.full store (store.dispatch session) := by
  unfold dispatch
  split
  · exact apart_dispatchMutex here
  · exact apart_dispatchPermits here
  · exact apart_dispatchShared here hereRead
  · exact apart_dispatchShared here hereRead

theorem apart_close (lined : Lined store session.full) (there : store.sessions[ref]? = some session) :
    Apart session.full store (store.close ref) := by
  unfold close
  simp only [there]
  split
  · exact .refl session.full store
  have closed : Apart session.full store (store.change ref fun session => { session with closed := true, asleep := false }) := by
    refine apart_change fun old found => ?_
    rw [there] at found
    cases found
    exact ⟨rfl, rfl⟩
  have moves := moves_change there fun session => { session with closed := true, asleep := false }
  have lined_ := @lined_change store session.full ref session lined there rfl
    (fun session => { session with closed := true, asleep := false }) rfl rfl nofun .rfl
  split
  · exact closed
  · next queued =>
    have left := @lined_leave _ session.full ref session _ lined_ moves.at_self rfl queued rfl ⟨rfl, rfl⟩
    exact (closed.trans (apart_leave moves.at_self rfl)).trans (apart_dispatch left.line.here left.readerLine.here)
  · next reserved =>
    obtain ⟨sessions, lines, readerLines⟩ := @unreserve_lines
      (store.change ref fun session => { session with closed := true, asleep := false }) ref session
    have idle := moves_setState moves.at_self .idle
    refine (closed.trans (apart_unreserve moves.at_self rfl)).trans (apart_dispatch ?_ ?_)
    · rw [lines]
      intro place member found isFound
      rw [sessions] at isFound
      exact (lined_.line.here.moved idle rfl rfl) place member found isFound
    · rw [readerLines]
      intro place member found isFound
      rw [sessions] at isFound
      exact (lined_.readerLine.here.moved idle rfl rfl) place member found isFound

theorem apart_watchers (watchers : List Nat) :
    Apart key store { store with watchers := Function.update store.watchers key watchers } := fun _ apart =>
  ⟨rfl, rfl, rfl, rfl, rfl, Function.update_of_ne apart _ _, fun _ _ _ => .rfl, fun _ _ => rfl⟩

def KeyFine (store : MemoryStore) (full : LockKey) : Prop :=
  match full.primitive with
  | .mutex => MutexFine store full
  | .semaphore => PoolFine store full
  | .readWrite => SharedFine store full

def Fine (store : MemoryStore) : Prop := ∀ full, KeyFine store full

theorem KeyFine.mutex (fine : KeyFine store full) (isMutex : full.primitive = .mutex) : MutexFine store full := by
  simpa only [KeyFine, isMutex] using fine

theorem KeyFine.permits (fine : KeyFine store full) (isSemaphore : full.primitive = .semaphore) : PoolFine store full := by
  simpa only [KeyFine, isSemaphore] using fine

theorem KeyFine.shared (fine : KeyFine store full) (isShared : full.primitive = .readWrite) : SharedFine store full := by
  simpa only [KeyFine, isShared] using fine

theorem MutexFine.keyFine (fine : MutexFine store full) (isMutex : full.primitive = .mutex) : KeyFine store full := by
  simpa only [KeyFine, isMutex] using fine

theorem PoolFine.keyFine (fine : PoolFine store full) (isSemaphore : full.primitive = .semaphore) : KeyFine store full := by
  simpa only [KeyFine, isSemaphore] using fine

theorem SharedFine.keyFine (fine : SharedFine store full) (isShared : full.primitive = .readWrite) : KeyFine store full := by
  simpa only [KeyFine, isShared] using fine

theorem KeyFine.lined (fine : KeyFine store full) : Lined store full := by
  cases family : full.primitive with
  | mutex => exact (fine.mutex family).lined
  | semaphore => exact (fine.permits family).lined
  | readWrite => exact (fine.shared family).lined

theorem KeyFine.of_alike (fine : KeyFine store full) (alike : Alike full store next) (lined : Lined next full) :
    KeyFine next full := by
  cases family : full.primitive with
  | mutex => exact ((fine.mutex family).of_alike alike lined).keyFine family
  | semaphore => exact ((fine.permits family).of_alike alike lined).keyFine family
  | readWrite => exact ((fine.shared family).of_alike alike lined).keyFine family

theorem Fine.apart (fine : Fine store) (apart : Apart key store next) (own : KeyFine next key) : Fine next := by
  intro full
  by_cases same : full = key
  · exact same ▸ own
  · exact (fine full).of_alike (apart full same).alike ((apart full same).lined (fine full).lined)

theorem Fine.changed (fine : Fine store) (there : store.sessions[ref]? = some session) {change : Session → Session}
    (same : (change session).full = session.full ∧ (change session).kind = session.kind ∧
      (change session).state = session.state ∧ (change session).weight = session.weight)
    (awake : (change session).asleep = true → (change session).state = .queued) : Fine (store.change ref change) := by
  refine @Fine.apart store _ session.full fine (apart_change fun old found => ?_) ((fine session.full).of_alike ?_ ?_)
  · rw [there] at found
    cases found
    exact ⟨rfl, same.1⟩
  · exact alike_change there same
  · exact lined_change (fine session.full).lined there rfl same.1 same.2.1 awake (by rw [same.2.2.1])

theorem Fine.watchers (fine : Fine store) (watchers : List Nat)
    (held : watchers ≠ [] → store.watchers key ≠ [] ∨ store.isFree key = false) :
    Fine { store with watchers := Function.update store.watchers key watchers } := by
  refine fine.apart (apart_watchers watchers) ?_
  have lined := (fine key).lined
  have lined_ : Lined { store with watchers := Function.update store.watchers key watchers } key :=
    lined.of_tables rfl rfl rfl ⟨lined.alone.mutexes, lined.alone.pools, lined.alone.shareds⟩
  have watched {present : Prop} (before : store.watchers key ≠ [] → present) (busy : store.isFree key = false → present)
      (after : Function.update store.watchers key watchers key ≠ []) : present := by
    rw [Function.update_self] at after
    exact (held after).elim before busy
  cases family : key.primitive with
  | mutex =>
    have fine := (fine key).mutex family
    refine MutexFine.keyFine ⟨⟨lined_, fine.reserved, fine.single⟩, fine.busy, fine.waits, watched fine.watched fun busy => ?_⟩ family
    have noPool := lined.alone.pools (by rw [family]; exact nofun)
    have noShared := lined.alone.shareds (by rw [family]; exact nofun)
    simp only [isFree, noPool, noShared] at busy
    cases known : store.mutexes key with
    | none => simp [known] at busy
    | some _ => rfl
  | semaphore =>
    have fine := (fine key).permits family
    refine PoolFine.keyFine ⟨⟨lined_, fun pool known => ?_, fine.unpooled, fine.queued, fine.waits⟩, fine.busy, fine.tight,
      watched fine.watched fun busy => ?_⟩ family
    · obtain ⟨inUse, reserved, within, owners⟩ := fine.counts pool known
      exact ⟨inUse, reserved, within, owners⟩
    have noMutex := lined.alone.mutexes (by rw [family]; exact nofun)
    have noShared := lined.alone.shareds (by rw [family]; exact nofun)
    simp only [isFree, noMutex, noShared] at busy
    cases known : store.pools key with
    | none => simp [known] at busy
    | some _ => rfl
  | readWrite =>
    have fine := (fine key).shared family
    refine SharedFine.keyFine ⟨⟨lined_, fine.readers, fine.unshared, fine.reserved, fine.single⟩, fine.busy, fine.waits,
      fine.waitsRead, watched fine.watched fun busy => ?_⟩ family
    have noMutex := lined.alone.mutexes (by rw [family]; exact nofun)
    have noPool := lined.alone.pools (by rw [family]; exact nofun)
    simp only [isFree, noMutex, noPool] at busy
    cases known : store.shareds key with
    | none => simp [known] at busy
    | some _ => rfl

end MemoryStore

end Arki.Lock
