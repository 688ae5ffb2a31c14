import Arki.Library.Heap

/-! The in-process hold store: mutexes, counting semaphores and read/write locks, with waiters that a release hands
the lock to.

A `Map` is a function to `Option`, and a line of waiters is the list of its members: a key without a line has the empty
one. Weights and limits are whole numbers.
-/

set_option autoImplicit false

namespace Arki.Lock

inductive Primitive where
  | mutex
  | semaphore
  | readWrite
  deriving DecidableEq

structure LockKey where
  primitive : Primitive
  name : String
  deriving DecidableEq

abbrev LockToken := String

inductive WaitKind where
  | mutex
  | permits
  | read
  | write
  deriving DecidableEq

def WaitKind.primitive : WaitKind → Primitive
  | mutex => .mutex
  | permits => .semaphore
  | read | write => .readWrite

inductive WaitState where
  | idle
  | queued
  | reserved
  deriving DecidableEq

abbrev Ref := Nat

structure Session where
  full : LockKey
  kind : WaitKind
  weight : Nat
  state : WaitState
  closed : Bool
  /-- A `waitFor` of the waiter is pending. -/
  asleep : Bool
  deriving DecidableEq

structure Hold where
  owner : LockToken
  fence : Nat
  deriving DecidableEq

structure MutexState where
  holder : Option Hold
  reserved : Option Ref
  deriving DecidableEq

structure PermitHold where
  owner : LockToken
  weight : Nat
  fence : Nat
  deriving DecidableEq

structure Pool where
  limit : Nat
  inUse : Nat
  /-- Permits reserved for woken waiters that have not taken them yet. -/
  reserved : Nat
  holders : List PermitHold
  deriving DecidableEq

structure Shared where
  readers : List Hold
  writer : Option Hold
  reservedReaders : Nat
  reservedWriter : Option Ref
  deriving DecidableEq

def Shared.isRead (state : Shared) : Bool := state.readers ≠ [] || 0 < state.reservedReaders

def Shared.isWritten (state : Shared) : Bool := state.writer.isSome || state.reservedWriter.isSome

structure MemoryStore where
  mutexes : LockKey → Option MutexState
  pools : LockKey → Option Pool
  shareds : LockKey → Option Shared
  lines : LockKey → List Ref
  readerLines : LockKey → List Ref
  /-- Plain `waitFor` callers. -/
  watchers : LockKey → List Nat
  lastFence : Nat
  sessions : List Session

def memoryStore : MemoryStore := ⟨fun _ => none, fun _ => none, fun _ => none, fun _ => [], fun _ => [], fun _ => [], 0, []⟩

inductive Answer where
  | granted (fence : Nat)
  | refused
  | config (message : String)
  | released
  | notOwner
  | done
  deriving DecidableEq

namespace MemoryStore

variable (store : MemoryStore)

def setMutex (full : LockKey) (state : Option MutexState) : MemoryStore :=
  { store with mutexes := Function.update store.mutexes full state }

def setPool (full : LockKey) (pool : Option Pool) : MemoryStore :=
  { store with pools := Function.update store.pools full pool }

def setShared (full : LockKey) (state : Option Shared) : MemoryStore :=
  { store with shareds := Function.update store.shareds full state }

def change (ref : Ref) (change : Session → Session) : MemoryStore :=
  { store with sessions := store.sessions.modify ref change }

def setState (ref : Ref) (state : WaitState) : MemoryStore := store.change ref fun session => { session with state := state }

/-! Lines of waiters. -/

def lineOf (session : Session) : List Ref :=
  if session.kind = .read then store.readerLines session.full else store.lines session.full

def setLine (session : Session) (line : List Ref) : MemoryStore :=
  if session.kind = .read then { store with readerLines := Function.update store.readerLines session.full line }
  else { store with lines := Function.update store.lines session.full line }

def join (ref : Ref) (session : Session) : MemoryStore :=
  (store.setLine session (store.lineOf session ++ [ref])).setState ref .queued

def leave (ref : Ref) (session : Session) : MemoryStore :=
  (store.setLine session ((store.lineOf session).erase ref)).setState ref .idle

def handTo (ref : Ref) (session : Session) : MemoryStore :=
  (store.leave ref session).change ref fun session => { session with state := .reserved, asleep := false }

def unreserve (ref : Ref) (session : Session) : MemoryStore :=
  let idle := store.setState ref .idle
  match session.kind with
  | .mutex =>
    match store.mutexes session.full with
    | some state =>
      if state.reserved = some ref then idle.setMutex session.full (some { state with reserved := none }) else idle
    | none => idle
  | .permits =>
    match store.pools session.full with
    | some pool =>
      idle.setPool session.full
        (some { pool with inUse := pool.inUse - session.weight, reserved := pool.reserved - session.weight })
    | none => idle
  | .read =>
    match store.shareds session.full with
    | some state => idle.setShared session.full (some { state with reservedReaders := state.reservedReaders - 1 })
    | none => idle
  | .write =>
    match store.shareds session.full with
    | some state =>
      if state.reservedWriter = some ref then idle.setShared session.full (some { state with reservedWriter := none })
      else idle
    | none => idle

def redeeming (waiter : Option Ref) (full : LockKey) (kind : WaitKind) (weight : Nat) : Option Ref :=
  waiter.filter fun ref => (store.sessions[ref]?).any fun session =>
    session.state = .reserved ∧ session.full = full ∧ session.kind = kind ∧ session.weight = weight

def queueRefused (waiter : Option Ref) (full : LockKey) (kind : WaitKind) (weight : Nat) : MemoryStore × Answer :=
  match waiter with
  | none => (store, .refused)
  | some ref =>
    match store.sessions[ref]? with
    | none => (store, .refused)
    | some session =>
      if session.state = .idle ∧ session.closed = false ∧ session.full = full ∧ session.kind = kind ∧
          session.weight = weight then (store.join ref session, .refused)
      else (store, .refused)

def wakeWatchers (full : LockKey) : MemoryStore := { store with watchers := Function.update store.watchers full [] }

/-! Mutexes. -/

def dispatchMutex (full : LockKey) : MemoryStore :=
  if (store.mutexes full).any fun state => state.holder.isSome || state.reserved.isSome then store
  else
    match store.lines full with
    | [] => (store.setMutex full none).wakeWatchers full
    | head :: _ =>
      match store.sessions[head]? with
      | none => store
      | some session => (store.setMutex full (some ⟨none, some head⟩)).handTo head session

def acquire (full : LockKey) (token : LockToken) (waiter : Option Ref) : MemoryStore × Answer :=
  let fence := store.lastFence + 1
  let grant (store : MemoryStore) : MemoryStore × Answer :=
    ({ store.setMutex full (some ⟨some ⟨token, fence⟩, none⟩) with lastFence := fence }, .granted fence)
  match (store.mutexes full).bind (·.reserved) with
  | some reserved =>
    match store.redeeming waiter full .mutex 1 with
    | some own => if reserved = own then grant (store.setState own .idle) else store.queueRefused waiter full .mutex 1
    | none => store.queueRefused waiter full .mutex 1
  | none =>
    if ((store.mutexes full).bind (·.holder)).isSome then store.queueRefused waiter full .mutex 1 else grant store

def release (full : LockKey) (token : LockToken) : MemoryStore × Answer :=
  match store.mutexes full with
  | some ⟨some holder, reserved⟩ =>
    if holder.owner = token then ((store.setMutex full (some ⟨none, reserved⟩)).dispatchMutex full, .released)
    else (store, .notOwner)
  | _ => (store, .notOwner)

def push (session : Session) : MemoryStore := { store with sessions := store.sessions ++ [session] }

def waiter (full : LockKey) : MemoryStore :=
  let ref := store.sessions.length
  let session : Session := ⟨full, .mutex, 1, .idle, false, false⟩
  if (store.mutexes full).any fun state => state.holder.isSome || state.reserved.isSome then
    (store.push session).join ref session
  -- nobody is queued on a free key, so this waiter is first
  else (store.push { session with state := .reserved }).setMutex full (some ⟨none, some ref⟩)

/-! Semaphores. -/

/-- Grant in queue order while permits are left. A waiter that does not fit keeps its place. -/
def grantFitting (full : LockKey) : List Ref → MemoryStore → MemoryStore
  | [], store => store
  | ref :: rest, store =>
    match store.pools full, store.sessions[ref]? with
    | some pool, some session =>
      if pool.inUse < pool.limit then
        if pool.inUse + session.weight ≤ pool.limit then
          let pool := { pool with inUse := pool.inUse + session.weight, reserved := pool.reserved + session.weight }
          grantFitting full rest ((store.setPool full (some pool)).handTo ref session)
        else grantFitting full rest store
      else store
    | _, _ => store

def dispatchPermits (full : LockKey) : MemoryStore :=
  match store.pools full with
  | none => store.wakeWatchers full
  | some _ =>
    let served := grantFitting full (store.lines full) store
    if (served.pools full).any fun pool => pool.holders ≠ [] || 0 < pool.reserved then served
    else (served.setPool full none).wakeWatchers full

def maxPermits : Nat := 2147483647

def isPermitCount (value : Nat) : Bool := 1 ≤ value && value ≤ maxPermits

/-- `Map.set`: a new holder comes last. -/
def setHolder (holders : List PermitHold) (hold : PermitHold) : List PermitHold :=
  if holders.any fun other => other.owner = hold.owner then
    holders.map fun other => if other.owner = hold.owner then hold else other
  else holders ++ [hold]

def acquirePermits (full : LockKey) (token : LockToken) (limit weight : Nat) (waiter : Option Ref) : MemoryStore × Answer :=
  if !isPermitCount limit || !isPermitCount weight then
    (store, .config ("limit " ++ toString limit ++ " and weight " ++ toString weight ++ " must be positive integers"))
  else if limit < weight then
    (store, .config ("weight " ++ toString weight ++ " is above the limit " ++ toString limit))
  else
    match (store.pools full).filter fun pool => pool.limit ≠ limit with
    | some pool =>
      (store, .config ("the semaphore is held with limit " ++ toString pool.limit ++ ", not " ++ toString limit))
    | none =>
      let fence := store.lastFence + 1
      let target := (store.pools full).getD ⟨limit, 0, 0, []⟩
      let grant (store : MemoryStore) (target : Pool) : MemoryStore × Answer :=
        let held := { target with holders := setHolder target.holders ⟨token, weight, fence⟩ }
        ({ store.setPool full (some held) with lastFence := fence }, .granted fence)
      match if (store.pools full).isSome then store.redeeming waiter full .permits weight else none with
      -- the permits were counted when they were reserved
      | some own => grant (store.setState own .idle) { target with reserved := target.reserved - weight }
      | none =>
        if limit < target.inUse + weight then store.queueRefused waiter full .permits weight
        else grant store { target with inUse := target.inUse + weight }

def releasePermits (full : LockKey) (token : LockToken) : MemoryStore × Answer :=
  match store.pools full with
  | none => (store, .notOwner)
  | some pool =>
    match pool.holders.find? (·.owner = token) with
    | none => (store, .notOwner)
    | some hold =>
      let left := { pool with holders := pool.holders.filter (·.owner ≠ token), inUse := pool.inUse - hold.weight }
      ((store.setPool full (some left)).dispatchPermits full, .released)

def waiterPermits (full : LockKey) (weight : Nat) : MemoryStore :=
  let ref := store.sessions.length
  let session : Session := ⟨full, .permits, weight, .idle, false, false⟩
  match store.pools full with
  | none => store.push session
  | some pool =>
    if pool.inUse + weight ≤ pool.limit then
      (store.push { session with state := .reserved }).setPool full
        (some { pool with inUse := pool.inUse + weight, reserved := pool.reserved + weight })
    else (store.push session).join ref session

/-! Read/write locks. -/

def newShared : Shared := ⟨[], none, 0, none⟩

def admitReaders (full : LockKey) : List Ref → MemoryStore → MemoryStore
  | [], store => store
  | ref :: rest, store =>
    match store.shareds full, store.sessions[ref]? with
    | some state, some session =>
      admitReaders full rest
        ((store.setShared full (some { state with reservedReaders := state.reservedReaders + 1 })).handTo ref session)
    | _, _ => store

def dispatchShared (full : LockKey) : MemoryStore :=
  let state := store.shareds full
  if state.any Shared.isWritten then store
  else
    match store.lines full with
    | writer :: _ =>
      -- readers wait while a writer does; the writer goes once the readers are out
      if state.any Shared.isRead then store
      else
        match store.sessions[writer]? with
        | none => store
        | some session =>
          (store.setShared full (some { state.getD newShared with reservedWriter := some writer })).handTo writer session
    | [] =>
      if store.readerLines full ≠ [] then
        admitReaders full (store.readerLines full) (store.setShared full (some (state.getD newShared)))
      else if state.any Shared.isRead then store
      else (store.setShared full none).wakeWatchers full

inductive SharedMode where
  | read
  | write
  deriving DecidableEq

def SharedMode.kind : SharedMode → WaitKind
  | .read => .read
  | .write => .write

/-- Whether a new hold is refused now. A read is refused while any writer holds, is reserved or waits. -/
def sharedBlocked (full : LockKey) (mode : SharedMode) : Bool :=
  let state := store.shareds full
  state.any Shared.isWritten || match mode with
    | .read => store.lines full ≠ []
    | .write => state.any Shared.isRead

/-- `Map.set`: a new reader comes last. -/
def setReader (readers : List Hold) (hold : Hold) : List Hold :=
  if readers.any fun other => other.owner = hold.owner then
    readers.map fun other => if other.owner = hold.owner then hold else other
  else readers ++ [hold]

def acquireShared (full : LockKey) (token : LockToken) (mode : SharedMode) (waiter : Option Ref) : MemoryStore × Answer :=
  let fence := store.lastFence + 1
  let grant (store : MemoryStore) (target : Shared) : MemoryStore × Answer :=
    let held := match mode with
      | .read => { target with readers := setReader target.readers ⟨token, fence⟩ }
      | .write => { target with writer := some ⟨token, fence⟩ }
    ({ store.setShared full (some held) with lastFence := fence }, .granted fence)
  match store.shareds full, store.redeeming waiter full mode.kind 1 with
  | some state, some own =>
    grant (store.setState own .idle) (match mode with
      | .read => { state with reservedReaders := state.reservedReaders - 1 }
      | .write => { state with reservedWriter := none })
  | state, _ =>
    if store.sharedBlocked full mode then store.queueRefused waiter full mode.kind 1
    else grant store (state.getD newShared)

def releaseShared (full : LockKey) (token : LockToken) : MemoryStore × Answer :=
  match store.shareds full with
  | none => (store, .notOwner)
  | some state =>
    if state.writer.any (·.owner = token) then
      ((store.setShared full (some { state with writer := none })).dispatchShared full, .released)
    else if state.readers.any (·.owner = token) then
      let left := { state with readers := state.readers.filter (·.owner ≠ token) }
      ((store.setShared full (some left)).dispatchShared full, .released)
    else (store, .notOwner)

/-- A waiter of a read/write key: it waits in line, or the free side is reserved, so that a waiting writer counts from
the start. -/
def waiterShared (full : LockKey) (mode : SharedMode) : MemoryStore :=
  let ref := store.sessions.length
  let session : Session := ⟨full, mode.kind, 1, .idle, false, false⟩
  if store.sharedBlocked full mode then (store.push session).join ref session
  else
    let target := (store.shareds full).getD newShared
    (store.push { session with state := .reserved }).setShared full (some (match mode with
      | .read => { target with reservedReaders := target.reservedReaders + 1 }
      | .write => { target with reservedWriter := some ref }))

/-! Waiters and watchers. -/

def dispatch (session : Session) : MemoryStore :=
  match session.kind with
  | .mutex => store.dispatchMutex session.full
  | .permits => store.dispatchPermits session.full
  | .read | .write => store.dispatchShared session.full

def close (ref : Ref) : MemoryStore :=
  match store.sessions[ref]? with
  | none => store
  | some session =>
    if session.closed then store
    else
      let closed := store.change ref fun session => { session with closed := true, asleep := false }
      match session.state with
      | .idle => closed
      -- a writer that leaves may let readers in
      | .queued => (closed.leave ref session).dispatch session
      | .reserved => (closed.unreserve ref session).dispatch session

/-- `waitFor` of a waiter: it sleeps only in line. -/
def sleep (ref : Ref) : MemoryStore :=
  store.change ref fun session => if session.state = .queued then { session with asleep := true } else session

def abort (ref : Ref) : MemoryStore := store.change ref fun session => { session with asleep := false }

def isFree (full : LockKey) : Bool :=
  !((store.mutexes full).any fun state => state.holder.isSome || state.reserved.isSome) && (store.pools full).isNone &&
    ((store.shareds full).isNone || !store.sharedBlocked full .write)

/-- `waitFor` without a waiter. -/
def watch (full : LockKey) (watcher : Nat) : MemoryStore :=
  if store.isFree full then store
  else { store with watchers := Function.update store.watchers full (store.watchers full ++ [watcher]) }

def unwatch (full : LockKey) (watcher : Nat) : MemoryStore :=
  { store with watchers := Function.update store.watchers full ((store.watchers full).erase watcher) }

end MemoryStore

/-! Calls. -/

open MemoryStore (SharedMode)

/-- One call of the store. A mutex, a semaphore and a read/write lock of one name have keys of their own. -/
inductive Op where
  | acquire (name : String) (token : LockToken) (waiter : Option Ref)
  | release (name : String) (token : LockToken)
  | waiter (name : String)
  | acquirePermits (name : String) (token : LockToken) (limit weight : Nat) (waiter : Option Ref)
  | releasePermits (name : String) (token : LockToken)
  | waiterPermits (name : String) (weight : Nat)
  | acquireShared (name : String) (token : LockToken) (mode : SharedMode) (waiter : Option Ref)
  | releaseShared (name : String) (token : LockToken)
  | waiterShared (name : String) (mode : SharedMode)
  | close (ref : Ref)
  | sleep (ref : Ref)
  | abort (ref : Ref)
  | watch (full : LockKey) (watcher : Nat)
  | unwatch (full : LockKey) (watcher : Nat)

def MemoryStore.call (store : MemoryStore) : Op → MemoryStore × Answer
  | .acquire name token waiter => store.acquire ⟨.mutex, name⟩ token waiter
  | .release name token => store.release ⟨.mutex, name⟩ token
  | .waiter name => (store.waiter ⟨.mutex, name⟩, .done)
  | .acquirePermits name token limit weight waiter => store.acquirePermits ⟨.semaphore, name⟩ token limit weight waiter
  | .releasePermits name token => store.releasePermits ⟨.semaphore, name⟩ token
  | .waiterPermits name weight => (store.waiterPermits ⟨.semaphore, name⟩ weight, .done)
  | .acquireShared name token mode waiter => store.acquireShared ⟨.readWrite, name⟩ token mode waiter
  | .releaseShared name token => store.releaseShared ⟨.readWrite, name⟩ token
  | .waiterShared name mode => (store.waiterShared ⟨.readWrite, name⟩ mode, .done)
  | .close ref => (store.close ref, .done)
  | .sleep ref => (store.sleep ref, .done)
  | .abort ref => (store.abort ref, .done)
  | .watch full watcher => (store.watch full watcher, .done)
  | .unwatch full watcher => (store.unwatch full watcher, .done)

end Arki.Lock
