import Arki.Lock.MemoryMutex

/-! Semaphores of the in-process store: what is held and reserved is what is in use, and a waiter that fits does not
wait.

A release serves the line in order. The invariant of that walk is that nobody before the place it has reached fits.
-/

set_option autoImplicit false

namespace Arki.Lock

def heldWeight (holders : List PermitHold) : Nat := (holders.map (·.weight)).sum

theorem heldWeight_filter {holders : List PermitHold} {token : LockToken} {hold : PermitHold}
    (nodup : (holders.map (·.owner)).Nodup) (found : holders.find? (·.owner = token) = some hold) :
    heldWeight (holders.filter (·.owner ≠ token)) + hold.weight = heldWeight holders := by
  induction holders with
  | nil => cases found
  | cons first rest ih =>
    simp only [List.map_cons, List.nodup_cons] at nodup
    by_cases own : first.owner = token
    · simp only [List.find?_cons, own, decide_true, Option.some.injEq] at found
      subst found
      -- the owners differ, so the rest keeps all its holders
      have keeps : rest.filter (·.owner ≠ token) = rest := by
        rw [List.filter_eq_self]
        intro other member
        have apart : other.owner ≠ token := by
          intro same
          apply nodup.1
          rw [own, ← same]
          exact List.mem_map_of_mem member
        simpa using apart
      simp only [List.filter_cons, own, ne_eq, not_true_eq_false, decide_false, Bool.false_eq_true, if_false]
      simp only [ne_eq] at keeps
      rw [keeps]
      simp only [heldWeight, List.map_cons, List.sum_cons]
      omega
    · simp only [List.find?_cons, own, decide_false] at found
      have rest_ := ih nodup.2 found
      simp only [List.filter_cons, own, ne_eq, not_false_eq_true, decide_true, if_true]
      simp only [heldWeight, List.map_cons, List.sum_cons, ne_eq] at rest_ ⊢
      omega

theorem WaitKind.of_permits {kind : WaitKind} (same : kind.primitive = .semaphore) : kind = .permits := by
  cases kind with
  | permits => rfl
  | _ => cases same

namespace MemoryStore

variable {store next : MemoryStore} {full : LockKey} {ref : Ref} {session : Session} {pool : Pool}

theorem setHolder_fresh {holders : List PermitHold} {hold : PermitHold} (fresh : hold.owner ∉ holders.map (·.owner)) :
    setHolder holders hold = holders ++ [hold] := by
  have absent : ¬ (holders.any fun other => other.owner = hold.owner) = true := by
    intro known
    obtain ⟨other, member, same⟩ := List.any_eq_true.mp known
    apply fresh
    rw [← of_decide_eq_true same]
    exact List.mem_map_of_mem member
  rw [setHolder, if_neg absent]

structure PoolCounts (store : MemoryStore) (full : LockKey) (pool : Pool) : Prop where
  inUse : pool.inUse = heldWeight pool.holders + pool.reserved
  reserved : pool.reserved = Heap.total (reservedWeight full) store.sessions
  within : pool.inUse ≤ pool.limit
  owners : (pool.holders.map (·.owner)).Nodup

structure PoolLoose (store : MemoryStore) (full : LockKey) : Prop where
  lined : Lined store full
  counts : ∀ pool, store.pools full = some pool → PoolCounts store full pool
  unpooled : store.pools full = none → Heap.total (reservedWeight full) store.sessions = 0
  queued : ∀ ref weight, IsIn store ref full .permits .queued → Weighs store ref full weight →
    0 < weight ∧ ∀ pool, store.pools full = some pool → weight ≤ pool.limit
  waits : store.lines full ≠ [] → (store.pools full).isSome = true

structure PoolFine (store : MemoryStore) (full : LockKey) : Prop extends PoolLoose store full where
  busy : ∀ pool, store.pools full = some pool → pool.holders ≠ [] ∨ 0 < pool.reserved
  tight : ∀ pool, store.pools full = some pool → ∀ ref weight, IsIn store ref full .permits .queued →
    Weighs store ref full weight → pool.limit < pool.inUse + weight
  watched : store.watchers full ≠ [] → (store.pools full).isSome = true

theorem PoolLoose.of_alike (loose : PoolLoose store full) (alike : Alike full store next) (lined : Lined next full) :
    PoolLoose next full := by
  refine ⟨lined, fun pool known => ?_, fun unknown => ?_, fun ref weight waits weighs => ?_, ?_⟩
  · rw [alike.pools] at known
    obtain ⟨inUse, reserved, within, owners⟩ := loose.counts pool known
    exact ⟨inUse, reserved.trans alike.weights.symm, within, owners⟩
  · rw [alike.pools] at unknown
    rw [alike.weights]
    exact loose.unpooled unknown
  · rw [alike.pools]
    exact loose.queued ref weight ((alike.isIn ..).mp waits) ((alike.weighs ..).mp weighs)
  · rw [alike.lines, alike.pools]
    exact loose.waits

theorem PoolFine.of_alike (fine : PoolFine store full) (alike : Alike full store next) (lined : Lined next full) :
    PoolFine next full := by
  refine ⟨fine.toPoolLoose.of_alike alike lined, ?_, fun pool known ref weight waits weighs => ?_, ?_⟩
  · rw [alike.pools]
    exact fine.busy
  · rw [alike.pools] at known
    exact fine.tight pool known ref weight ((alike.isIn ..).mp waits) ((alike.weighs ..).mp weighs)
  · rw [alike.watchers, alike.pools]
    exact fine.watched

theorem setPool_alone (isSemaphore : full.primitive = .semaphore) (alone : Alone store full) (pool : Option Pool) :
    Alone (store.setPool full pool) full :=
  ⟨alone.mutexes, fun apart => absurd isSemaphore apart, alone.shareds⟩

theorem Lined.setPool (lined : Lined store full) (isSemaphore : full.primitive = .semaphore) (pool : Option Pool) :
    Lined (store.setPool full pool) full :=
  lined.of_tables rfl rfl rfl (setPool_alone isSemaphore lined.alone pool)

/-! ### Serving the line -/

theorem PoolLoose.member (loose : PoolLoose store full) (isSemaphore : full.primitive = .semaphore)
    (member : ref ∈ store.lines full) : ∃ session : Session, store.sessions[ref]? = some session ∧ session.full = full ∧
      session.kind = .permits ∧ session.state = .queued := by
  obtain ⟨session, there, here, -, queued⟩ := (loose.lined.line.member ref).mp member
  exact ⟨session, there, here, WaitKind.of_permits ((loose.lined.family ref session there here).trans isSemaphore), queued⟩

theorem PoolLoose.in_line (loose : PoolLoose store full) (waits : IsIn store ref full .permits .queued) :
    ref ∈ store.lines full := by
  obtain ⟨session, there, here, kind, queued⟩ := waits
  exact (loose.lined.line.member ref).mpr ⟨session, there, here, by simp [kind], queued⟩

def reserve (store : MemoryStore) (full : LockKey) (pool : Pool) (ref : Ref) (session : Session) : MemoryStore :=
  (store.setPool full (some { pool with inUse := pool.inUse + session.weight, reserved := pool.reserved + session.weight })).handTo
    ref session

theorem moves_reserve (there : store.sessions[ref]? = some session) (full : LockKey) (pool : Pool) :
    Moves store (store.reserve full pool ref session) ref session { session with state := .reserved, asleep := false } := by
  have moves := @moves_handTo (store.setPool full
    (some { pool with inUse := pool.inUse + session.weight, reserved := pool.reserved + session.weight })) ref session there session
  exact ⟨there, moves.lookup, moves.total⟩

theorem reserve_pools (full : LockKey) (pool : Pool) (ref : Ref) (session : Session) :
    (store.reserve full pool ref session).pools full =
      some { pool with inUse := pool.inUse + session.weight, reserved := pool.reserved + session.weight } := by
  rw [reserve, beside_handTo.pools]
  exact Function.update_self ..

theorem reserve_loose (isSemaphore : full.primitive = .semaphore) (loose : PoolLoose store full)
    (known : store.pools full = some pool) (there : store.sessions[ref]? = some session) (here : session.full = full)
    (kind : session.kind = .permits) (queued : session.state = .queued) (fits : pool.inUse + session.weight ≤ pool.limit) :
    PoolLoose (store.reserve full pool ref session) full := by
  have moves := moves_reserve there full pool
  have pools := @reserve_pools store full pool ref session
  have lined : Lined (store.reserve full pool ref session) full :=
    lined_handTo (loose.lined.setPool isSemaphore _) there here queued
  have total := moves.total (reservedWeight full)
  have notYet := @reservedWeight_out full session (by rw [queued]; exact nofun)
  have now := @reservedWeight_reserved full { session with state := .reserved, asleep := false } here kind rfl
  rw [notYet, now] at total
  obtain ⟨inUse, reserved, within, owners⟩ := loose.counts pool known
  refine ⟨lined, fun found isPool => ?_, fun unknown => ?_, fun other weight waits weighs => ?_, fun _ => ?_⟩
  · rw [pools] at isPool
    cases isPool
    refine ⟨?_, ?_, fits, owners⟩
    · simp only
      omega
    · simp only at total ⊢
      omega
  · rw [pools] at unknown
    cases unknown
  · rw [moves.isIn] at waits
    rw [pools]
    split at waits
    · cases waits.2.2
    · next apart =>
      obtain ⟨found, isSession, rest⟩ := weighs
      rw [moves.lookup, if_neg apart] at isSession
      obtain ⟨positive, small⟩ := loose.queued other weight waits ⟨found, isSession, rest⟩
      refine ⟨positive, fun found isPool => ?_⟩
      cases isPool
      exact small pool known
  · rw [pools]
    rfl

def Passed (store : MemoryStore) (full : LockKey) (rest : List Ref) : Prop :=
  ∀ pool, store.pools full = some pool → ∀ ref ∈ store.lines full, ref ∉ rest → ∀ weight, Weighs store ref full weight →
    pool.limit < pool.inUse + weight

theorem lines_reserve (here : session.full = full) (kind : session.kind = .permits) :
    (store.reserve full pool ref session).lines full = (store.lines full).erase ref := by
  have line := @setLine_lineOf (store.setPool full
    (some { pool with inUse := pool.inUse + session.weight, reserved := pool.reserved + session.weight })) session
    ((store.lines full).erase ref)
  have writes : session.kind ≠ .read := by rw [kind]; exact nofun
  simp only [lineOf, if_neg writes, here] at line
  simp only [reserve, handTo, leave, lineOf, if_neg writes, here]
  exact line

theorem grantFitting_loose (isSemaphore : full.primitive = .semaphore) (rest : List Ref) :
    ∀ {store : MemoryStore}, PoolLoose store full → (∀ ref ∈ rest, ref ∈ store.lines full) → rest.Nodup →
      Passed store full rest → PoolLoose (grantFitting full rest store) full ∧ Passed (grantFitting full rest store) full [] := by
  induction rest with
  | nil => exact fun loose _ _ passed => ⟨loose, passed⟩
  | cons head rest ih =>
    intro store loose members nodup passed
    obtain ⟨headApart, nodup⟩ := List.nodup_cons.mp nodup
    have member := members head List.mem_cons_self
    obtain ⟨session, there, here, kind, queued⟩ := loose.member isSemaphore member
    obtain ⟨pool, known⟩ := Option.isSome_iff_exists.mp (loose.waits (List.ne_nil_of_mem member))
    unfold grantFitting
    simp only [known, there]
    split
    · next room =>
      split
      · next fits =>
        have loose_ := reserve_loose isSemaphore loose known there here kind queued fits
        have lines := @lines_reserve store full head session pool here kind
        have moves := moves_reserve there full pool
        apply ih loose_
        · intro other isMember
          rw [lines, loose.lined.line.nodup.mem_erase_iff]
          refine ⟨?_, members other (List.mem_cons_of_mem _ isMember)⟩
          rintro rfl
          exact headApart isMember
        · exact nodup
        -- whoever did not fit before does not fit now
        · intro now isNow other isMember out weight weighs
          rw [reserve_pools] at isNow
          cases isNow
          rw [lines, loose.lined.line.nodup.mem_erase_iff] at isMember
          obtain ⟨found, isSession, rest_⟩ := weighs
          rw [moves.lookup, if_neg isMember.1] at isSession
          have before := passed pool known other isMember.2 (by simp [isMember.1, out]) weight ⟨found, isSession, rest_⟩
          simp only
          omega
      · next tooHeavy =>
        apply ih loose (fun other isMember => members other (List.mem_cons_of_mem _ isMember)) nodup
        intro now isNow other isMember out weight weighs
        by_cases same : other = head
        · subst same
          obtain ⟨found, isSession, -, isWeight⟩ := weighs
          rw [there] at isSession
          rw [known] at isNow
          cases isSession
          cases isNow
          omega
        · exact passed now isNow other isMember (by simp [same, out]) weight weighs
    · next full_ =>
      refine ⟨loose, fun now isNow other isMember _ weight weighs => ?_⟩
      rw [known] at isNow
      cases isNow
      obtain ⟨found, isSession, isHere, isKind, isQueued⟩ := loose.member isSemaphore isMember
      have positive := (loose.queued other weight ⟨found, isSession, isHere, isKind, isQueued⟩ weighs).1
      omega

theorem dispatchPermits_fine (isSemaphore : full.primitive = .semaphore) (loose : PoolLoose store full) :
    PoolFine (store.dispatchPermits full) full := by
  unfold dispatchPermits
  cases known : store.pools full with
  | none =>
    have line : store.lines full = [] := by
      by_contra waits
      have isSome := loose.waits waits
      rw [known] at isSome
      cases isSome
    have watchers : (store.wakeWatchers full).watchers full = [] := Function.update_self ..
    refine ⟨⟨?_, ?_, loose.unpooled, loose.queued, loose.waits⟩, ?_, ?_, ?_⟩
    · exact loose.lined.of_tables rfl rfl rfl ⟨loose.lined.alone.mutexes, loose.lined.alone.pools, loose.lined.alone.shareds⟩
    · intro pool isPool
      cases known.symm.trans isPool
    · intro pool isPool
      cases known.symm.trans isPool
    · intro pool isPool
      cases known.symm.trans isPool
    · intro watched
      exact absurd watchers watched
  | some pool =>
    simp only
    have none_ : Passed store full (store.lines full) := fun _ _ ref member out => absurd member out
    obtain ⟨served, passed⟩ := grantFitting_loose isSemaphore (store.lines full) loose (fun _ => id) loose.lined.line.nodup none_
    generalize grantFitting full (store.lines full) store = next_ at served passed
    have tight : ∀ pool, next_.pools full = some pool → ∀ ref weight, IsIn next_ ref full .permits .queued →
        Weighs next_ ref full weight → pool.limit < pool.inUse + weight := fun pool isPool ref weight waits weighs =>
      passed pool isPool ref (served.in_line waits) nofun weight weighs
    split
    · next busy =>
      obtain ⟨pool, isPool, has⟩ := Option.any_eq_true _ _ |>.mp busy
      refine ⟨served, fun other isOther => ?_, tight, fun _ => by rw [isPool]; rfl⟩
      rw [isPool] at isOther
      cases isOther
      simpa using has
    · next idle =>
      -- an empty pool has room for everybody in line, and the walk left nobody who fits
      have line : next_.lines full = [] := by
        by_contra waits
        obtain ⟨ref, member⟩ := List.exists_mem_of_ne_nil _ waits
        obtain ⟨pool, isPool⟩ := Option.isSome_iff_exists.mp (served.waits waits)
        obtain ⟨session, there, here, kind, queued⟩ := served.member isSemaphore member
        have small := (served.queued ref session.weight ⟨session, there, here, kind, queued⟩ ⟨session, there, here, rfl⟩).2 pool isPool
        have heavy := tight pool isPool ref session.weight ⟨session, there, here, kind, queued⟩ ⟨session, there, here, rfl⟩
        have counts := served.counts pool isPool
        rw [isPool] at idle
        simp only [ne_eq, decide_not, Option.any_some, Bool.or_eq_true, Bool.not_eq_true', decide_eq_false_iff_not,
          decide_eq_true_eq, not_or, not_not] at idle
        have inUse := counts.inUse
        rw [idle.1] at inUse
        simp only [heldWeight, List.map_nil, List.sum_nil] at inUse
        omega
      have pools : ((next_.setPool full none).wakeWatchers full).pools full = none := Function.update_self ..
      have watchers : ((next_.setPool full none).wakeWatchers full).watchers full = [] := Function.update_self ..
      refine ⟨⟨?_, ?_, ?_, ?_, ?_⟩, ?_, ?_, ?_⟩
      · have alone := setPool_alone isSemaphore served.lined.alone none
        exact served.lined.of_tables rfl rfl rfl ⟨alone.mutexes, alone.pools, alone.shareds⟩
      · intro pool isPool
        cases pools.symm.trans isPool
      · intro _
        show Heap.total (reservedWeight full) next_.sessions = 0
        cases isPool : next_.pools full with
        | none => exact served.unpooled isPool
        | some pool =>
          rw [isPool] at idle
          simp only [ne_eq, decide_not, Option.any_some, Bool.or_eq_true, Bool.not_eq_true', decide_eq_false_iff_not,
            decide_eq_true_eq, not_or, not_not] at idle
          have reserved := (served.counts pool isPool).reserved
          omega
      · intro ref weight waits weighs
        have member := served.in_line waits
        rw [line] at member
        cases member
      · intro waits
        exact absurd line waits
      · intro pool isPool
        cases pools.symm.trans isPool
      · intro pool isPool
        cases pools.symm.trans isPool
      · intro watched
        exact absurd watchers watched

/-! ### The calls -/

theorem joinPermits_fine (fine : PoolFine store full) (there : store.sessions[ref]? = some session) (here : session.full = full)
    (idle : session.state = .idle) (known : store.pools full = some pool) (positive : 0 < session.weight)
    (small : session.weight ≤ pool.limit) (heavy : pool.limit < pool.inUse + session.weight) :
    PoolFine (store.join ref session) full := by
  have pools : (store.join ref session).pools = store.pools := beside_join.pools
  have moves := moves_join there session
  have isSome : ((store.join ref session).pools full).isSome = true := by
    rw [pools, known]
    rfl
  have weights := moves.total (reservedWeight full)
  have before := @reservedWeight_out full session (by rw [idle]; exact nofun)
  have after := @reservedWeight_out full { session with state := .queued } nofun
  rw [before, after] at weights
  -- a queued waiter is the new one, or was in line before
  have who (other : Ref) (weight : Nat) (waits : IsIn (store.join ref session) other full .permits .queued)
      (weighs : Weighs (store.join ref session) other full weight) :
      weight = session.weight ∨ IsIn store other full .permits .queued ∧ Weighs store other full weight := by
    obtain ⟨found, isSession, rest⟩ := weighs
    rw [moves.isIn] at waits
    rw [moves.lookup] at isSession
    split at waits
    · next same =>
      rw [if_pos same] at isSession
      cases isSession
      exact .inl rest.2.symm
    · next apart =>
      rw [if_neg apart] at isSession
      exact .inr ⟨waits, found, isSession, rest⟩
  refine ⟨⟨lined_join fine.lined there here idle, ?_, ?_, ?_, fun _ => isSome⟩, ?_, ?_, fun _ => isSome⟩
  · rw [pools]
    intro pool isPool
    obtain ⟨inUse, reserved, within, owners⟩ := fine.counts pool isPool
    exact ⟨inUse, reserved.trans weights.symm, within, owners⟩
  · rw [pools, known]
    intro unknown
    cases unknown
  · rw [pools]
    intro other weight waits weighs
    rcases who other weight waits weighs with rfl | ⟨waits, weighs⟩
    · refine ⟨positive, fun pool isPool => ?_⟩
      rw [known] at isPool
      cases isPool
      exact small
    · exact fine.queued other weight waits weighs
  · rw [pools]
    exact fine.busy
  · rw [pools]
    intro pool isPool other weight waits weighs
    rcases who other weight waits weighs with rfl | ⟨waits, weighs⟩
    · rw [known] at isPool
      cases isPool
      exact heavy
    · exact fine.tight pool isPool other weight waits weighs

/-- A refused attempt keeps out, or joins the line of a semaphore it does not fit. -/
theorem queueRefused_permits {weight : Nat} (fine : PoolFine store full) (known : store.pools full = some pool)
    (positive : 0 < weight) (small : weight ≤ pool.limit) (heavy : pool.limit < pool.inUse + weight) (waiter : Option Ref) :
    PoolFine (store.queueRefused waiter full .permits weight).1 full := by
  unfold queueRefused
  cases waiter with
  | none => exact fine
  | some ref =>
  simp only
  cases there : store.sessions[ref]? with
  | none => exact fine
  | some session =>
  simp only
  split
  · next joins =>
    obtain ⟨idle, -, here, -, isWeight⟩ := joins
    rw [← isWeight] at positive small heavy
    exact joinPermits_fine fine there here idle known positive small heavy
  · exact fine

theorem poolFine_held (isSemaphore : full.primitive = .semaphore) (lined : Lined store full) {held : Pool}
    (counts : PoolCounts store full held) (nonempty : held.holders ≠ [])
    (queued : ∀ ref weight, IsIn store ref full .permits .queued → Weighs store ref full weight →
      0 < weight ∧ weight ≤ held.limit ∧ held.limit < held.inUse + weight) (fence : Nat) :
    PoolFine { store.setPool full (some held) with lastFence := fence } full := by
  have pool : (store.setPool full (some held)).pools full = some held := Function.update_self ..
  have isSome : ((store.setPool full (some held)).pools full).isSome = true := by rw [pool]; rfl
  have alone := setPool_alone isSemaphore lined.alone (some held)
  refine ⟨⟨?_, ?_, ?_, ?_, fun _ => isSome⟩, ?_, ?_, fun _ => isSome⟩
  · exact (lined.setPool isSemaphore (some held)).of_tables rfl rfl rfl ⟨alone.mutexes, alone.pools, alone.shareds⟩
  · intro other isOther
    cases pool.symm.trans isOther
    obtain ⟨inUse, reserved, within, owners⟩ := counts
    exact ⟨inUse, reserved, within, owners⟩
  · intro unknown
    cases pool.symm.trans unknown
  · intro ref weight waits weighs
    obtain ⟨positive, small, -⟩ := queued ref weight waits weighs
    refine ⟨positive, fun other isOther => ?_⟩
    cases pool.symm.trans isOther
    exact small
  · intro other isOther
    cases pool.symm.trans isOther
    exact .inl nonempty
  · intro other isOther ref weight waits weighs
    cases pool.symm.trans isOther
    exact (queued ref weight waits weighs).2.2

theorem isPermitCount_positive {value : Nat} (isCount : isPermitCount value = true) : 0 < value := by
  simp only [isPermitCount, Bool.and_eq_true, decide_eq_true_eq] at isCount
  exact isCount.1

theorem heldWeight_append (holders : List PermitHold) (hold : PermitHold) :
    heldWeight (holders ++ [hold]) = heldWeight holders + hold.weight := by
  simp [heldWeight]

theorem PoolLoose.nobody_waits (loose : PoolLoose store full) (unknown : store.pools full = none) :
    ¬ IsIn store ref full .permits .queued := by
  intro waits
  have isSome := loose.waits (List.ne_nil_of_mem (loose.in_line waits))
  rw [unknown] at isSome
  cases isSome

theorem acquirePermits_fine (isSemaphore : full.primitive = .semaphore) (fine : PoolFine store full) (token : LockToken)
    (fresh : ∀ pool, store.pools full = some pool → token ∉ pool.holders.map (·.owner)) (limit weight : Nat)
    (waiter : Option Ref) : PoolFine (store.acquirePermits full token limit weight waiter).1 full := by
  unfold acquirePermits
  split
  · exact fine
  next counts =>
  simp only [Bool.or_eq_true, Bool.not_eq_true', not_or, Bool.not_eq_false] at counts
  have positive := isPermitCount_positive counts.2
  split
  · exact fine
  next small =>
  split
  · exact fine
  next noOther =>
  -- the limit of the pool, if there is one, is the one asked for
  have limits (pool : Pool) (known : store.pools full = some pool) : pool.limit = limit := by
    rw [known] at noOther
    by_contra apart
    simp [apart] at noOther
  simp only
  cases known : store.pools full with
  | none =>
    simp only [Option.isSome_none, Bool.false_eq_true, if_false, Option.getD_none]
    have total := fine.unpooled known
    split
    · next heavy => omega
    · have holders : setHolder [] ⟨token, weight, store.lastFence + 1⟩ = [⟨token, weight, store.lastFence + 1⟩] := rfl
      rw [holders]
      refine @poolFine_held store full isSemaphore fine.lined ⟨limit, 0 + weight, 0, [⟨token, weight, store.lastFence + 1⟩]⟩
        ⟨?_, total.symm, ?_, List.nodup_singleton _⟩ (List.cons_ne_nil _ _) ?_ _
      · simp [heldWeight]
      · simp only
        omega
      · intro ref heft waits
        exact absurd waits (fine.nobody_waits known)
  | some pool =>
    have isLimit := limits pool known
    obtain ⟨inUse, reserved, within, owners⟩ := fine.counts pool known
    simp only [Option.isSome_some, if_true, Option.getD_some]
    rw [setHolder_fresh (fresh pool known)]
    have owners_ : ((pool.holders ++ [(⟨token, weight, store.lastFence + 1⟩ : PermitHold)]).map (·.owner)).Nodup := by
      rw [List.map_append]
      refine List.Nodup.append owners (List.nodup_singleton _) ?_
      simpa using fresh pool known
    have nonempty : pool.holders ++ [⟨token, weight, store.lastFence + 1⟩] ≠ [] := by simp
    cases redeems : store.redeeming waiter full .permits weight with
    | some own =>
      obtain ⟨-, session, there, here, kind, isReserved, isWeight⟩ := redeeming_some redeems
      have notQueued : session.state ≠ .queued := by
        rw [isReserved]
        exact nofun
      have moves := moves_setState there .idle
      have total := moves.total (reservedWeight full)
      have weighed := (reservedWeight_reserved here kind isReserved).trans isWeight
      have after := @reservedWeight_out full { session with state := .idle } nofun
      rw [weighed, after] at total
      simp only
      have lined : Lined (store.setState own .idle) full := by
        refine lined_change fine.lined there here rfl rfl ?_ ⟨fun queued => absurd queued notQueued, nofun⟩
        exact fun asleep => absurd (fine.lined.sleeps own session there here asleep) notQueued
      refine @poolFine_held (store.setState own .idle) full isSemaphore lined
        ⟨pool.limit, pool.inUse, pool.reserved - weight, pool.holders ++ [⟨token, weight, store.lastFence + 1⟩]⟩
        ⟨?_, ?_, within, owners_⟩ nonempty ?_ _
      · simp only [heldWeight_append]
        have enough := @Heap.le_total _ _ _ _ (reservedWeight full) there
        omega
      · simp only
        omega
      · intro ref heft waits weighs
        rw [moves.isIn] at waits
        split at waits
        · cases waits.2.2
        · next apart =>
          obtain ⟨found, isSession, rest⟩ := weighs
          rw [moves.lookup, if_neg apart] at isSession
          have weighs : Weighs store ref full heft := ⟨found, isSession, rest⟩
          have ⟨positive_, small_⟩ := fine.queued ref heft waits weighs
          exact ⟨positive_, small_ pool known, fine.tight pool known ref heft waits weighs⟩
    | none =>
      simp only
      split
      · next heavy =>
        refine queueRefused_permits fine known positive ?_ ?_ waiter
        · omega
        · omega
      · next fits =>
        refine @poolFine_held store full isSemaphore fine.lined
          ⟨pool.limit, pool.inUse + weight, pool.reserved, pool.holders ++ [⟨token, weight, store.lastFence + 1⟩]⟩
          ⟨?_, reserved, ?_, owners_⟩ nonempty ?_ _
        · simp only [heldWeight_append]
          omega
        · simp only
          omega
        · intro ref heft waits weighs
          have ⟨positive_, small_⟩ := fine.queued ref heft waits weighs
          have heavy := fine.tight pool known ref heft waits weighs
          refine ⟨positive_, small_ pool known, ?_⟩
          simp only
          omega

theorem releasePermits_fine (isSemaphore : full.primitive = .semaphore) (fine : PoolFine store full) (token : LockToken) :
    PoolFine (store.releasePermits full token).1 full := by
  unfold releasePermits
  cases known : store.pools full with
  | none => exact fine
  | some pool =>
  simp only
  cases found : pool.holders.find? (·.owner = token) with
  | none => exact fine
  | some hold =>
  simp only
  obtain ⟨inUse, reserved, within, owners⟩ := fine.counts pool known
  have held := heldWeight_filter owners found
  have isPool : (store.setPool full (some ⟨pool.limit, pool.inUse - hold.weight, pool.reserved,
      pool.holders.filter (·.owner ≠ token)⟩)).pools full = some ⟨pool.limit, pool.inUse - hold.weight, pool.reserved,
      pool.holders.filter (·.owner ≠ token)⟩ := Function.update_self ..
  refine dispatchPermits_fine isSemaphore ⟨fine.lined.setPool isSemaphore _, ?_, ?_, ?_, ?_⟩
  · intro other isOther
    cases isPool.symm.trans isOther
    refine ⟨?_, reserved, ?_, owners.sublist (List.filter_sublist.map _)⟩
    · simp only
      omega
    · simp only
      omega
  · intro unknown
    cases isPool.symm.trans unknown
  · intro ref weight waits weighs
    obtain ⟨positive, small⟩ := fine.queued ref weight waits weighs
    refine ⟨positive, fun other isOther => ?_⟩
    cases isPool.symm.trans isOther
    exact small pool known
  · intro _
    rw [isPool]
    rfl

theorem pushed_queued {weight : Nat} (out : session.state ≠ .queued)
    (waits : IsIn (store.push session) ref full .permits .queued) (weighs : Weighs (store.push session) ref full weight) :
    IsIn store ref full .permits .queued ∧ Weighs store ref full weight := by
  rw [push_isIn] at waits
  rcases waits with waits | ⟨-, -, -, queued⟩
  · refine ⟨waits, ?_⟩
    obtain ⟨old, there, -⟩ := waits
    obtain ⟨found, isSession, rest⟩ := weighs
    obtain ⟨inside, -⟩ := List.getElem?_eq_some_iff.mp there
    rw [push, List.getElem?_append_left inside] at isSession
    exact ⟨found, isSession, rest⟩
  · exact absurd queued out

theorem pushPermits_fine (fine : PoolFine store full) (out : session.state = .idle) (awake : session.asleep = false)
    (family : session.full = full → session.kind.primitive = full.primitive) : PoolFine (store.push session) full := by
  have notQueued : session.state ≠ .queued := by
    rw [out]
    exact nofun
  have total : Heap.total (reservedWeight full) (store.push session).sessions = Heap.total (reservedWeight full) store.sessions := by
    have nothing := @reservedWeight_out full session (by rw [out]; exact nofun)
    rw [push, Heap.total_push, nothing, Nat.add_zero]
  refine ⟨⟨lined_push fine.lined notQueued awake family, ?_, ?_, ?_, fine.waits⟩, fine.busy, ?_, fine.watched⟩
  · intro pool known
    obtain ⟨inUse, reserved, within, owners⟩ := fine.counts pool known
    exact ⟨inUse, reserved.trans total.symm, within, owners⟩
  · intro unknown
    exact total.trans (fine.unpooled unknown)
  · intro ref weight waits weighs
    obtain ⟨waits, weighs⟩ := pushed_queued notQueued waits weighs
    exact fine.queued ref weight waits weighs
  · intro pool known ref weight waits weighs
    obtain ⟨waits, weighs⟩ := pushed_queued notQueued waits weighs
    exact fine.tight pool known ref weight waits weighs

theorem waiterPermits_fine {weight : Nat} (isSemaphore : full.primitive = .semaphore) (fine : PoolFine store full)
    (small : ∀ pool, store.pools full = some pool → weight ≤ pool.limit) : PoolFine (store.waiterPermits full weight) full := by
  have family : WaitKind.permits.primitive = full.primitive := isSemaphore.symm
  have pushed := @pushPermits_fine store full ⟨full, .permits, weight, .idle, false, false⟩ fine rfl rfl fun _ => family
  unfold waiterPermits
  simp only
  cases known : store.pools full with
  | none => exact pushed
  | some pool =>
  simp only
  split
  · next fits =>
    have lined := @lined_push store full ⟨full, .permits, weight, .reserved, false, false⟩ fine.lined nofun rfl fun _ => family
    have total : Heap.total (reservedWeight full) (store.push ⟨full, .permits, weight, .reserved, false, false⟩).sessions =
        Heap.total (reservedWeight full) store.sessions + weight := by
      have weighed := @reservedWeight_reserved full ⟨full, .permits, weight, .reserved, false, false⟩ rfl rfl rfl
      rw [push, Heap.total_push, weighed]
    obtain ⟨inUse, reserved, within, owners⟩ := fine.counts pool known
    have isPool : ((store.push ⟨full, .permits, weight, .reserved, false, false⟩).setPool full
        (some { pool with inUse := pool.inUse + weight, reserved := pool.reserved + weight })).pools full =
        some { pool with inUse := pool.inUse + weight, reserved := pool.reserved + weight } := Function.update_self ..
    have isSome : ((store.push ⟨full, .permits, weight, .reserved, false, false⟩).setPool full
        (some { pool with inUse := pool.inUse + weight, reserved := pool.reserved + weight })).pools full |>.isSome := by
      rw [isPool]
      rfl
    refine ⟨⟨lined.setPool isSemaphore _, ?_, ?_, ?_, fun _ => isSome⟩, ?_, ?_, fun _ => isSome⟩
    · intro other isOther
      cases isPool.symm.trans isOther
      refine ⟨?_, ?_, fits, owners⟩
      · simp only
        omega
      · show pool.reserved + weight = _
        rw [reserved]
        exact total.symm
    · intro unknown
      cases isPool.symm.trans unknown
    · intro ref heft waits weighs
      obtain ⟨waits, weighs⟩ := @pushed_queued store full ref ⟨full, .permits, weight, .reserved, false, false⟩ heft nofun waits weighs
      obtain ⟨positive, light⟩ := fine.queued ref heft waits weighs
      refine ⟨positive, fun other isOther => ?_⟩
      cases isPool.symm.trans isOther
      exact light pool known
    · intro other isOther
      cases isPool.symm.trans isOther
      rcases fine.busy pool known with held | some_
      · exact .inl held
      · refine .inr ?_
        simp only
        omega
    · intro other isOther ref heft waits weighs
      cases isPool.symm.trans isOther
      obtain ⟨waits, weighs⟩ := @pushed_queued store full ref ⟨full, .permits, weight, .reserved, false, false⟩ heft nofun waits weighs
      have heavy := fine.tight pool known ref heft waits weighs
      simp only
      omega
  · next heavy =>
    have there : (store.push ⟨full, .permits, weight, .idle, false, false⟩).sessions[store.sessions.length]? =
        some ⟨full, .permits, weight, .idle, false, false⟩ := by simp [push]
    have within := (fine.counts pool known).within
    have positive : 0 < weight := by omega
    exact joinPermits_fine pushed there rfl rfl known positive (small pool known) (Nat.lt_of_not_le heavy)

/-! ### Waiters that stop waiting -/

theorem poolLoose_leave {old : Session} (fine : PoolFine store full) (there : store.sessions[ref]? = some old)
    (here : old.full = full) (kind : old.kind = .permits) (queued : old.state = .queued) (awake : old.asleep = false)
    (likeness : session.full = old.full ∧ session.kind = old.kind) : PoolLoose (store.leave ref session) full := by
  have pools : (store.leave ref session).pools = store.pools := beside_leave.pools
  have moves := moves_leave there session
  have weights := moves.total (reservedWeight full)
  have before := @reservedWeight_out full old (by rw [queued]; exact nofun)
  have after := @reservedWeight_out full { old with state := .idle } nofun
  rw [before, after] at weights
  refine ⟨lined_leave fine.lined there here queued awake likeness, ?_, ?_, ?_, ?_⟩
  · rw [pools]
    intro pool known
    obtain ⟨inUse, reserved, within, owners⟩ := fine.counts pool known
    exact ⟨inUse, reserved.trans weights.symm, within, owners⟩
  · rw [pools]
    intro unknown
    have none_ := fine.unpooled unknown
    omega
  · rw [pools]
    intro other weight waits weighs
    obtain ⟨found, isSession, rest⟩ := weighs
    rw [moves.isIn] at waits
    rw [moves.lookup] at isSession
    split at waits
    · cases waits.2.2
    · next apart =>
      rw [if_neg apart] at isSession
      exact fine.queued other weight waits ⟨found, isSession, rest⟩
  · intro _
    rw [pools]
    exact fine.waits (List.ne_nil_of_mem (fine.in_line ⟨old, there, here, kind, queued⟩))

theorem poolLoose_unreserve {old : Session} (isSemaphore : full.primitive = .semaphore) (fine : PoolFine store full)
    (there : store.sessions[ref]? = some old) (here : old.full = full) (kind : old.kind = .permits)
    (isReserved : old.state = .reserved)
    (likeness : session.full = old.full ∧ session.kind = old.kind ∧ session.weight = old.weight) :
    PoolLoose (store.unreserve ref session) full := by
  have isSession : session.kind = .permits := likeness.2.1.trans kind
  have isFull : session.full = full := likeness.1.trans here
  have isWeight := likeness.2.2
  have notQueued : old.state ≠ .queued := by
    rw [isReserved]
    exact nofun
  have lined : Lined (store.setState ref .idle) full := by
    refine lined_change fine.lined there here rfl rfl (fun asleep => ?_) ⟨fun queued => absurd queued notQueued, nofun⟩
    exact absurd (fine.lined.sleeps ref old there here asleep) notQueued
  have moves := moves_setState there .idle
  have weights := moves.total (reservedWeight full)
  have before := reservedWeight_reserved here kind isReserved
  have after := @reservedWeight_out full { old with state := .idle } nofun
  rw [before, after] at weights
  have queued (other : Ref) (weight : Nat) (waits : IsIn (store.setState ref .idle) other full .permits .queued)
      (weighs : Weighs (store.setState ref .idle) other full weight) :
      IsIn store other full .permits .queued ∧ Weighs store other full weight := by
    obtain ⟨found, there, rest⟩ := weighs
    rw [moves.isIn] at waits
    rw [moves.lookup] at there
    split at waits
    · cases waits.2.2
    · next apart =>
      rw [if_neg apart] at there
      exact ⟨waits, found, there, rest⟩
  unfold unreserve
  simp only [isSession, isFull]
  cases known : store.pools full with
  | none =>
    have none_ := fine.unpooled known
    show PoolLoose (store.setState ref .idle) full
    refine ⟨lined, ?_, ?_, ?_, fine.waits⟩
    · intro pool isPool
      cases known.symm.trans isPool
    · intro _
      omega
    · intro other weight waits weighs
      obtain ⟨waits, weighs⟩ := queued other weight waits weighs
      exact fine.queued other weight waits weighs
  | some pool =>
    obtain ⟨inUse, reserved, within, owners⟩ := fine.counts pool known
    have isPool : ((store.setState ref .idle).setPool full (some { pool with
        inUse := pool.inUse - session.weight, reserved := pool.reserved - session.weight })).pools full =
        some { pool with inUse := pool.inUse - session.weight, reserved := pool.reserved - session.weight } :=
      Function.update_self ..
    refine ⟨lined.setPool isSemaphore _, ?_, ?_, ?_, ?_⟩
    · intro other isOther
      cases isPool.symm.trans isOther
      refine ⟨?_, ?_, ?_, owners⟩
      · simp only
        omega
      · show pool.reserved - session.weight = Heap.total _ (store.setState ref .idle).sessions
        omega
      · simp only
        omega
    · intro unknown
      cases isPool.symm.trans unknown
    · intro other weight waits weighs
      obtain ⟨waits, weighs⟩ := queued other weight waits weighs
      obtain ⟨positive, small⟩ := fine.queued other weight waits weighs
      refine ⟨positive, fun found isFound => ?_⟩
      cases isPool.symm.trans isFound
      exact small pool known
    · intro _
      rw [isPool]
      rfl

theorem closePermits_fine (isSemaphore : full.primitive = .semaphore) (fine : PoolFine store full)
    (there : store.sessions[ref]? = some session) (here : session.full = full) : PoolFine (store.close ref) full := by
  have kind := WaitKind.of_permits ((fine.lined.family ref session there here).trans isSemaphore)
  unfold close
  simp only [there]
  split
  · exact fine
  have moves := moves_change there fun session => { session with closed := true, asleep := false }
  have closed : PoolFine (store.change ref fun session => { session with closed := true, asleep := false }) full :=
    fine.of_alike (alike_change there ⟨rfl, rfl, rfl, rfl⟩) (lined_change fine.lined there here rfl rfl nofun .rfl)
  split
  · exact closed
  · next queued =>
    simp only [dispatch, kind]
    rw [here]
    exact dispatchPermits_fine isSemaphore (poolLoose_leave closed moves.at_self here kind queued rfl ⟨rfl, rfl⟩)
  · next reserved =>
    simp only [dispatch, kind]
    rw [here]
    exact dispatchPermits_fine isSemaphore
      (poolLoose_unreserve isSemaphore closed moves.at_self here kind reserved ⟨rfl, rfl, rfl⟩)

end MemoryStore

end Arki.Lock
