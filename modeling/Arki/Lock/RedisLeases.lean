import Arki.Lock.RedisPermits
import Arki.Lock.RedisShared

/-! Every order of scripts keeps the leases. -/

set_option autoImplicit false

namespace Arki.Lock.Redis

open Expiring (Cell Fields)

structure MutexLeases (now : Nat) (lock : Granted MutexKeys) : Prop where
  alone : ∀ token other, lock.keys.Live now token → lock.keys.Live now other → token = other
  fences : (lock.grants.map Prod.snd).Pairwise (· > ·)
  again : ∀ token, lock.keys.Live now token → ∃ ttl fence,
    lock.grants.last token = some (.acquire token ttl, fence) ∧ (acquire now lock.keys token ttl).2 = ((fence : Int), now)
  release : ∀ token, ¬ lock.keys.Live now token →
    (release now lock.keys token).2 = 0 ∧ MutexKeys.Same now lock.keys (release now lock.keys token).1
  extend : ∀ token ttl, ¬ lock.keys.Live now token →
    (extend now lock.keys token ttl).2 = 0 ∧ MutexKeys.Same now lock.keys (extend now lock.keys token ttl).1

structure PermitLeases (now : Nat) (lock : Granted PermitKeys) : Prop where
  within : ∀ limit, (lock.keys.seen now).meta_.get .limit = some limit → lock.keys.used now ≤ limit
  limited : ∀ token, Ahead now lock.keys.holders token → (lock.keys.seen now).meta_.get .limit ≠ none
  fences : (lock.grants.map Prod.snd).Pairwise (· > ·)
  again : ∀ token, Ahead now lock.keys.holders token → ∃ ttl limit weight fence,
    lock.grants.last token = some (.permitAcquire token ttl limit weight, fence) ∧
      (permitAcquire now lock.keys token ttl limit weight).2 = ((fence : Int), now)
  release : ∀ token, ¬ Ahead now lock.keys.holders token →
    (permitRelease now lock.keys token).2 = 0 ∧ PermitKeys.Apart now lock.keys (permitRelease now lock.keys token).1 token
  extend : ∀ token ttl, ¬ Ahead now lock.keys.holders token →
    (permitExtend now lock.keys token ttl).2 = 0 ∧ PermitKeys.Apart now lock.keys (permitExtend now lock.keys token ttl).1 token
  /-- The hash has a weight and a fence for the members, and for no others. -/
  companion : ∀ token, ((lock.keys.seen now).meta_.get (.weight token) = none ↔ (lock.keys.seen now).holders.get token = none) ∧
    ((lock.keys.seen now).meta_.get (.fence token) = none ↔ (lock.keys.seen now).holders.get token = none)

structure SharedLeases (now : Nat) (lock : Granted SharedKeys) : Prop where
  excludes : ∀ token other, lock.keys.Writes now token →
    ¬ Ahead now lock.keys.readers other ∧ (lock.keys.Writes now other → other = token)
  fences : (lock.grants.map Prod.snd).Pairwise (· > ·)
  readAgain : ∀ token, Ahead now lock.keys.readers token → ∃ ttl fence,
    lock.grants.last token = some (.sharedAcquire token ttl .read, fence) ∧
      (sharedAcquire now lock.keys token ttl .read).2 = ((fence : Int), now)
  writeAgain : ∀ token, lock.keys.Writes now token → ∃ ttl fence,
    lock.grants.last token = some (.sharedAcquire token ttl .write, fence) ∧
      (sharedAcquire now lock.keys token ttl .write).2 = ((fence : Int), now)
  release : ∀ token, ¬ Ahead now lock.keys.readers token → ¬ lock.keys.Writes now token →
    (sharedRelease now lock.keys token).2 = 0 ∧ SharedKeys.Apart now lock.keys (sharedRelease now lock.keys token).1 token
  extend : ∀ token ttl, ¬ Ahead now lock.keys.readers token → ¬ lock.keys.Writes now token →
    (sharedExtend now lock.keys token ttl).2 = 0 ∧ SharedKeys.Apart now lock.keys (sharedExtend now lock.keys token ttl).1 token
  companion : ∀ token, (lock.keys.seen now).readerFences.get token = none ↔ (lock.keys.seen now).readers.get token = none
  fits : ∀ token ttl mode, ¬ Ahead now lock.keys.readers token → ¬ lock.keys.Writes now token →
    0 < (sharedAcquire now lock.keys token ttl mode).2.1 → sharedFits now lock.keys mode = 1

theorem MutexGranted.leases {lock : Granted MutexKeys} (granted : MutexGranted lock) (now : Nat) : MutexLeases now lock where
  alone _ _ live also := live_unique live also
  fences := granted.recorded.sorted
  again _ live := acquire_again granted live
  release _ lapsed := release_lapsed lapsed
  extend _ ttl lapsed := extend_lapsed lapsed ttl

theorem PermitsGranted.leases {lock : Granted PermitKeys} (granted : PermitsGranted lock) (now : Nat) : PermitLeases now lock where
  within limit stored := by
    by_cases someone : ∃ token, Ahead now lock.keys.holders token
    · obtain ⟨token, ahead⟩ := someone
      obtain ⟨other, is, most⟩ := granted.ok.used_le now ahead
      rw [is] at stored
      cases stored
      exact most
    · rw [PermitKeys.used_eq_zero fun token ahead => someone ⟨token, ahead⟩]
      exact Nat.zero_le limit
  limited token ahead := by
    obtain ⟨limit, is, -⟩ := granted.ok.used_le now ahead
    rw [is]
    exact Option.some_ne_none limit
  fences := granted.recorded.sorted
  again _ ahead := permitAcquire_again granted ahead
  release _ lapsed := permitRelease_lapsed granted.ok lapsed
  extend _ ttl lapsed := permitExtend_lapsed lapsed ttl
  companion token := ⟨(granted.ok.seen now).weights token, (granted.ok.seen now).fences token⟩

theorem SharedGranted.leases {lock : Granted SharedKeys} (granted : SharedGranted lock) (now : Nat) : SharedLeases now lock where
  excludes _ _ writes := writes_excludes granted writes
  fences := granted.recorded.sorted
  readAgain _ ahead := sharedAcquire_again granted .read ahead
  writeAgain _ writes := sharedAcquire_again granted .write writes
  release _ reads writes := sharedRelease_lapsed reads writes
  extend _ ttl reads writes := sharedExtend_lapsed reads writes ttl
  companion := (granted.seen now).fences
  fits _ ttl mode reads writes := (sharedFits_iff granted mode reads writes ttl).mp

structure Server.Ok (server : Server) : Prop where
  mutexes : ∀ name, MutexGranted (server.mutexes name)
  semaphores : ∀ name, PermitsGranted (server.semaphores name)
  readWrites : ∀ name, SharedGranted (server.readWrites name)

variable {server next : Server} {start : Nat}

theorem Server.Ok.initial (now : Nat) : (Server.initial now).Ok := ⟨fun _ => .initial, fun _ => .initial, fun _ => .initial⟩

theorem update_holds {Lock : Type} {locks : String → Lock} {holds : Lock → Prop} (all : ∀ name, holds (locks name)) {name : String}
    {lock : Lock} (new : holds lock) (other : String) : holds (Function.update locks name lock other) := by
  by_cases same : other = name
  · rw [same, Function.update_self]
    exact new
  · rw [Function.update_of_ne same]
    exact all other

theorem Server.Ok.stepped (ok : server.Ok) {action : Action} (taken : step server action = some next) : next.Ok := by
  cases action with
  | tick ms =>
    cases taken
    exact ⟨ok.mutexes, ok.semaphores, ok.readWrites⟩
  | run name script =>
    simp only [step] at taken
    split at taken
    · cases taken
    · cases taken
      exact ⟨update_holds ok.mutexes (runMutex_granted (ok.mutexes name) _ _),
        update_holds ok.semaphores (runPermit_granted (ok.semaphores name) _ _),
        update_holds ok.readWrites (runShared_granted (ok.readWrites name) _ _)⟩

theorem Server.Ok.reached (reached : Arki.Run.Reach step Arki.Run.always (Server.initial start) server) : server.Ok :=
  reached.invariant Server.Ok (.initial start) fun _ _ _ ok _ taken => ok.stepped taken

/-- After any scripts in any order every lock has its leases, and a semaphore says that permits fit whenever they would be granted
if, and only if, it is settled for that weight. -/
theorem scripts_lease (reached : Arki.Run.Reach step Arki.Run.always (Server.initial start) server) (name : String) :
    MutexLeases server.now (server.mutexes name) ∧ PermitLeases server.now (server.semaphores name) ∧
      SharedLeases server.now (server.readWrites name) ∧
        ∀ weight, ((server.semaphores name).keys.Grantable server.now weight →
          permitFits server.now (server.semaphores name).keys weight = 1) ↔ (server.semaphores name).keys.Settled server.now weight := by
  have ok := Server.Ok.reached reached
  refine ⟨(ok.mutexes name).leases _, (ok.semaphores name).leases _, (ok.readWrites name).leases _, fun weight => ?_⟩
  exact permitFits_iff (ok.semaphores name).ok server.now weight

/-- Two holders: the longer lease is released, the shorter one runs out, and the limit of both stays for a while. -/
def leftBehind : List Action :=
  [.run "k" (.permitAcquire "a" 100 2 1), .run "k" (.permitAcquire "b" 50 2 1), .run "k" (.permitRelease "a"), .tick 60]

/-- The permits would be granted with a new limit, and do not fit. -/
theorem fits_left_behind : ¬ ∀ server, Arki.Run.Reach step Arki.Run.always (Server.initial 0) server → ∀ name weight,
    (server.semaphores name).keys.Grantable server.now weight → permitFits server.now (server.semaphores name).keys weight = 1 := by
  intro always
  obtain ⟨server, ran, fresh, granted, answer⟩ : ∃ server, Arki.Run.run step (Server.initial 0) leftBehind = some server ∧
      ¬ Ahead server.now (server.semaphores "k").keys.holders "c" ∧
        0 < (permitAcquire server.now (server.semaphores "k").keys "c" 10 3 3).2.1 ∧
          permitFits server.now (server.semaphores "k").keys 3 = 0 := ⟨_, rfl, by decide +kernel⟩
  have one := always server (.of_run ran) "k" 3 ⟨"c", 10, 3, fresh, by decide, granted⟩
  rw [answer] at one
  cases one

/-- The locks after these scripts. -/
theorem scripts_lease_left_behind : ∃ server, Arki.Run.run step (Server.initial 0) leftBehind = some server ∧
    PermitLeases server.now (server.semaphores "k") ∧ ((server.semaphores "k").keys.Grantable server.now 2 →
      permitFits server.now (server.semaphores "k").keys 2 = 1) := by
  obtain ⟨server, ran, stored⟩ : ∃ server, Arki.Run.run step (Server.initial 0) leftBehind = some server ∧
      ((server.semaphores "k").keys.seen server.now).meta_.get .limit = some 2 := ⟨_, rfl, by decide +kernel⟩
  obtain ⟨-, leases, -, fits⟩ := scripts_lease (.of_run ran) "k"
  refine ⟨server, ran, leases, (fits 2).mpr (.inr fun limit is => ?_)⟩
  rw [stored] at is
  cases is
  exact le_rfl

end Arki.Lock.Redis
