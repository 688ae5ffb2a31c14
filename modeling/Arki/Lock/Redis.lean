import Arki.Library.Expiring
import Arki.Library.Run
import Arki.Lock.Memory

/-! The lock scripts of the Redis store. Each one is a single step on the server, under one reading of its clock.

A script sees its keys as that reading leaves them. A number that is missing is `none`.
-/

set_option autoImplicit false

namespace Arki.Lock.Redis

open Expiring (Cell Fields)

/-- `{ fence, serverNowMs }`. -/
abbrev Reply := Int × Nat

/-- What `INCR` leaves in a counter. -/
def incr (counter : Option Nat) : Nat := counter.getD 0 + 1

/-! Mutex. -/

structure MutexKeys where
  lock : Option (Cell LockToken)
  fence : Option Nat

def acquire (now : Nat) (keys : MutexKeys) (token : LockToken) (ttl : Nat) : MutexKeys × Reply :=
  match Cell.seen now keys.lock with
  | none => (⟨some ⟨token, some (now + ttl)⟩, some (incr keys.fence)⟩, (incr keys.fence, now))
  | some cell =>
    if cell.value = token then
      -- a resent command: the second run gets the fence of the first
      let fence := keys.fence.getD (incr keys.fence)
      (⟨some ⟨cell.value, some (now + ttl)⟩, some fence⟩, (fence, now))
    else (⟨some cell, keys.fence⟩, (0, 0))

def release (now : Nat) (keys : MutexKeys) (token : LockToken) : MutexKeys × Nat :=
  match Cell.seen now keys.lock with
  | none => (⟨none, keys.fence⟩, 0)
  | some cell => if cell.value = token then (⟨none, keys.fence⟩, 1) else (⟨some cell, keys.fence⟩, 0)

def extend (now : Nat) (keys : MutexKeys) (token : LockToken) (ttl : Nat) : MutexKeys × Nat :=
  match Cell.seen now keys.lock with
  | none => (⟨none, keys.fence⟩, 0)
  | some cell =>
    if cell.value = token then (⟨some ⟨cell.value, some (now + ttl)⟩, keys.fence⟩, 1) else (⟨some cell, keys.fence⟩, 0)

/-! Sorted sets: members with a score. -/

/-- `ZRANGEBYSCORE -inf now`. -/
def upTo (now : Nat) (zset : Fields LockToken) : List LockToken :=
  (zset.entries.entries.filter fun entry => entry.2 ≤ now).map Sigma.fst

/-- `ZRANGEBYSCORE (now +inf`. -/
def above (now : Nat) (zset : Fields LockToken) : List LockToken :=
  (zset.entries.entries.filter fun entry => now < entry.2).map Sigma.fst

def top (zset : Fields LockToken) : Nat := (zset.entries.entries.map Sigma.snd).foldr max 0

def keep {Name : Type} [DecidableEq Name] (now : Nat) (zset : Fields LockToken) (other : Fields Name) :
    Fields LockToken × Fields Name :=
  if zset.isEmpty then (zset, other)
  else
    let left := max (top zset - now) 1
    (zset.expireAt (now + left), other.expireAt (now + left))

/-! Semaphore. -/

inductive Field where
  | limit
  | weight (token : LockToken)
  | fence (token : LockToken)
  deriving DecidableEq

structure PermitKeys where
  holders : Fields LockToken
  meta_ : Fields Field
  fence : Option Nat

def PermitKeys.seen (now : Nat) (keys : PermitKeys) : PermitKeys :=
  { keys with holders := keys.holders.seen now, meta_ := keys.meta_.seen now }

def PermitKeys.drop (keys : PermitKeys) (token : LockToken) : PermitKeys :=
  { keys with
    holders := keys.holders.remove token
    meta_ := (keys.meta_.remove (.weight token)).remove (.fence token) }

/-- `DEL` of the hash when no member is left. -/
def PermitKeys.cleared (keys : PermitKeys) : PermitKeys :=
  { keys with meta_ := if keys.holders.isEmpty then Fields.empty else keys.meta_ }

/-- The holders whose expiry has passed are dropped before the others are counted. -/
def PermitKeys.pruned (now : Nat) (keys : PermitKeys) : PermitKeys :=
  ((upTo now keys.holders).foldl PermitKeys.drop keys).cleared

def weighs : Field → Nat → Nat
  | .weight _, weight => weight
  | _, _ => 0

def PermitKeys.kept (now : Nat) (keys : PermitKeys) : PermitKeys :=
  { keys with holders := (keep now keys.holders keys.meta_).1, meta_ := (keep now keys.holders keys.meta_).2 }

def permitAcquire (now : Nat) (keys : PermitKeys) (token : LockToken) (ttl limit weight : Nat) : PermitKeys × Reply :=
  let keys := (keys.seen now).pruned now
  if (keys.meta_.get .limit).any (· ≠ limit) then (keys, (-1, 0))
  else if (keys.holders.get token).isSome then
    let fence := (keys.meta_.get (.fence token)).getD (incr keys.fence)
    let counter := if (keys.meta_.get (.fence token)).isSome then keys.fence else some (incr keys.fence)
    (PermitKeys.kept now ⟨keys.holders.put token (now + ttl), keys.meta_, counter⟩, (fence, now))
  else if limit < keys.meta_.total weighs + weight then (keys, (0, 0))
  else
    let fence := incr keys.fence
    let meta_ := ((keys.meta_.put .limit limit).put (.weight token) weight).put (.fence token) fence
    (PermitKeys.kept now ⟨keys.holders.put token (now + ttl), meta_, some fence⟩, (fence, now))

def permitRelease (now : Nat) (keys : PermitKeys) (token : LockToken) : PermitKeys × Nat :=
  let keys := keys.seen now
  match keys.holders.get token with
  | none => (keys, 0)
  | some score => ((keys.drop token).cleared, if score ≤ now then 0 else 1)

def permitExtend (now : Nat) (keys : PermitKeys) (token : LockToken) (ttl : Nat) : PermitKeys × Nat :=
  let keys := keys.seen now
  match keys.holders.get token with
  | none => (keys, 0)
  | some score =>
    if score ≤ now then (keys, 0)
    else (PermitKeys.kept now { keys with holders := keys.holders.put token (now + ttl) }, 1)

def permitFits (now : Nat) (keys : PermitKeys) (weight : Nat) : Nat :=
  let keys := keys.seen now
  match keys.meta_.get .limit with
  | none => 1
  | some limit =>
    let used := ((above now keys.holders).map fun token => (keys.meta_.get (.weight token)).getD 0).sum
    if limit < used + weight then 0 else 1

/-! Read/write lock. -/

inductive Mode where
  | read
  | write
  deriving DecidableEq

structure SharedKeys where
  readers : Fields LockToken
  writer : Option (Cell LockToken)
  fence : Option Nat
  readerFences : Fields LockToken

def SharedKeys.seen (now : Nat) (keys : SharedKeys) : SharedKeys :=
  { keys with
    readers := keys.readers.seen now
    writer := Cell.seen now keys.writer
    readerFences := keys.readerFences.seen now }

def SharedKeys.drop (keys : SharedKeys) (token : LockToken) : SharedKeys :=
  { keys with readers := keys.readers.remove token, readerFences := keys.readerFences.remove token }

def SharedKeys.pruned (now : Nat) (keys : SharedKeys) : SharedKeys := (upTo now keys.readers).foldl SharedKeys.drop keys

def SharedKeys.kept (now : Nat) (keys : SharedKeys) : SharedKeys :=
  { keys with
    readers := (keep now keys.readers keys.readerFences).1
    readerFences := (keep now keys.readers keys.readerFences).2 }

def sharedAcquire (now : Nat) (keys : SharedKeys) (token : LockToken) (ttl : Nat) (mode : Mode) : SharedKeys × Reply :=
  let keys := (keys.seen now).pruned now
  match mode with
  | .read =>
    if (keys.readers.get token).isSome then
      let fence := (keys.readerFences.get token).getD (incr keys.fence)
      let counter := if (keys.readerFences.get token).isSome then keys.fence else some (incr keys.fence)
      (SharedKeys.kept now { keys with readers := keys.readers.put token (now + ttl), fence := counter }, (fence, now))
    else if keys.writer.isSome then (keys, (0, 0))
    else
      let fence := incr keys.fence
      (SharedKeys.kept now
        { keys with
          readers := keys.readers.put token (now + ttl)
          fence := some fence
          readerFences := keys.readerFences.put token fence }, (fence, now))
  | .write =>
    match keys.writer with
    | some cell =>
      if cell.value = token then
        let fence := keys.fence.getD (incr keys.fence)
        ({ keys with writer := some ⟨cell.value, some (now + ttl)⟩, fence := some fence }, (fence, now))
      else (keys, (0, 0))
    | none =>
      if !keys.readers.isEmpty then (keys, (0, 0))
      else
        ({ keys with writer := some ⟨token, some (now + ttl)⟩, fence := some (incr keys.fence) }, (incr keys.fence, now))

def sharedRelease (now : Nat) (keys : SharedKeys) (token : LockToken) : SharedKeys × Nat :=
  let keys := keys.seen now
  if keys.writer.any (·.value = token) then ({ keys with writer := none }, 1)
  else
    match keys.readers.get token with
    | none => (keys, 0)
    | some score => (keys.drop token, if now < score then 1 else 0)

def sharedExtend (now : Nat) (keys : SharedKeys) (token : LockToken) (ttl : Nat) : SharedKeys × Nat :=
  let keys := keys.seen now
  if keys.writer.any (·.value = token) then ({ keys with writer := some ⟨token, some (now + ttl)⟩ }, 1)
  else
    match keys.readers.get token with
    | none => (keys, 0)
    | some score =>
      if score ≤ now then (keys, 0)
      else (SharedKeys.kept now { keys with readers := keys.readers.put token (now + ttl) }, 1)

def sharedFits (now : Nat) (keys : SharedKeys) (mode : Mode) : Nat :=
  let keys := keys.seen now
  if keys.writer.isSome then 0
  else if mode = .write && !(above now keys.readers).isEmpty then 0
  else 1

inductive Script where
  | acquire (token : LockToken) (ttl : Nat)
  | release (token : LockToken)
  | extend (token : LockToken) (ttl : Nat)
  | permitAcquire (token : LockToken) (ttl limit weight : Nat)
  | permitRelease (token : LockToken)
  | permitExtend (token : LockToken) (ttl : Nat)
  | sharedAcquire (token : LockToken) (ttl : Nat) (mode : Mode)
  | sharedRelease (token : LockToken)
  | sharedExtend (token : LockToken) (ttl : Nat)
  deriving DecidableEq

def Script.token : Script → LockToken
  | acquire token _ | release token | extend token _ | permitAcquire token .. | permitRelease token | permitExtend token _
  | sharedAcquire token .. | sharedRelease token | sharedExtend token _ => token

def Script.ttl : Script → Option Nat
  | acquire _ ttl | extend _ ttl | permitAcquire _ ttl _ _ | permitExtend _ ttl | sharedAcquire _ ttl _ | sharedExtend _ ttl =>
    some ttl
  | release _ | permitRelease _ | sharedRelease _ => none

abbrev Grants := List (Script × Nat)

def Grants.last (grants : Grants) (token : LockToken) : Option (Script × Nat) := grants.find? (·.1.token = token)

structure Granted (Keys : Type) where
  keys : Keys
  grants : Grants

def MutexKeys.Live (now : Nat) (keys : MutexKeys) (token : LockToken) : Prop :=
  (Cell.seen now keys.lock).map Cell.value = some token

instance (now : Nat) (keys : MutexKeys) (token : LockToken) : Decidable (keys.Live now token) :=
  inferInstanceAs (Decidable (_ = _))

def Ahead (now : Nat) (zset : Fields LockToken) (token : LockToken) : Prop :=
  ∃ score ∈ (zset.seen now).get token, now < score

instance (now : Nat) (zset : Fields LockToken) (token : LockToken) : Decidable (Ahead now zset token) :=
  decidable_of_iff (((zset.seen now).get token).any (now < ·) = true) (by simp [Ahead, Option.any_eq_true])

def SharedKeys.Writes (now : Nat) (keys : SharedKeys) (token : LockToken) : Prop :=
  (Cell.seen now keys.writer).map Cell.value = some token

instance (now : Nat) (keys : SharedKeys) (token : LockToken) : Decidable (keys.Writes now token) :=
  inferInstanceAs (Decidable (_ = _))

/-- The grants after a reply. A command of a token that holds is a resent one, and no new grant. -/
def noted (grants : Grants) (script : Script) (held : Bool) (reply : Reply) : Grants :=
  if !held && 0 < reply.1 then (script, reply.1.toNat) :: grants else grants

structure Server where
  now : Nat
  mutexes : String → Granted MutexKeys
  semaphores : String → Granted PermitKeys
  readWrites : String → Granted SharedKeys

def Server.initial (now : Nat) : Server :=
  ⟨now, fun _ => ⟨⟨none, none⟩, []⟩, fun _ => ⟨⟨Fields.empty, Fields.empty, none⟩, []⟩,
    fun _ => ⟨⟨Fields.empty, none, none, Fields.empty⟩, []⟩⟩

inductive Action where
  | tick (ms : Nat)
  /-- A client's script runs on the keys of the lock, for the first time or again. -/
  | run (name : String) (script : Script)
  deriving DecidableEq

def runMutex (now : Nat) (lock : Granted MutexKeys) (script : Script) : Granted MutexKeys :=
  match script with
  | .acquire token ttl =>
    ⟨(acquire now lock.keys token ttl).1, noted lock.grants script (lock.keys.Live now token) (acquire now lock.keys token ttl).2⟩
  | .release token => ⟨(release now lock.keys token).1, lock.grants⟩
  | .extend token ttl => ⟨(extend now lock.keys token ttl).1, lock.grants⟩
  | _ => lock

def runPermit (now : Nat) (lock : Granted PermitKeys) (script : Script) : Granted PermitKeys :=
  match script with
  | .permitAcquire token ttl limit weight =>
    ⟨(permitAcquire now lock.keys token ttl limit weight).1,
      noted lock.grants script (Ahead now lock.keys.holders token) (permitAcquire now lock.keys token ttl limit weight).2⟩
  | .permitRelease token => ⟨(permitRelease now lock.keys token).1, lock.grants⟩
  | .permitExtend token ttl => ⟨(permitExtend now lock.keys token ttl).1, lock.grants⟩
  | _ => lock

def runShared (now : Nat) (lock : Granted SharedKeys) (script : Script) : Granted SharedKeys :=
  match script with
  | .sharedAcquire token ttl mode =>
    ⟨(sharedAcquire now lock.keys token ttl mode).1,
      noted lock.grants script (Ahead now lock.keys.readers token || lock.keys.Writes now token)
        (sharedAcquire now lock.keys token ttl mode).2⟩
  | .sharedRelease token => ⟨(sharedRelease now lock.keys token).1, lock.grants⟩
  | .sharedExtend token ttl => ⟨(sharedExtend now lock.keys token ttl).1, lock.grants⟩
  | _ => lock

def step (server : Server) : Action → Option Server
  | .tick ms => some { server with now := server.now + ms }
  | .run name script =>
    if script.ttl = some 0 then none
    else some { server with
      mutexes := Function.update server.mutexes name (runMutex server.now (server.mutexes name) script)
      semaphores := Function.update server.semaphores name (runPermit server.now (server.semaphores name) script)
      readWrites := Function.update server.readWrites name (runShared server.now (server.readWrites name) script) }

end Arki.Lock.Redis
