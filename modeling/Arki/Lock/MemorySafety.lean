import Arki.Library.Run
import Arki.Lock.MemoryTurns

/-! The in-process store excludes, wakes and never strands, over every order of calls.

A waiter of a semaphore has to ask for no more than the pool it finds can give: a call does not check that, and the one
that asks for more is left in line on a free key.
-/

set_option autoImplicit false

namespace Arki.Lock

open MemoryStore

def Op.take : Op → Option (LockKey × (Nat → Grant))
  | .acquire name token _ => some (⟨.mutex, name⟩, fun fence => ⟨⟨.mutex, name⟩, token, .mutex, 1, fence⟩)
  | .acquirePermits name token _ weight _ =>
    some (⟨.semaphore, name⟩, fun fence => ⟨⟨.semaphore, name⟩, token, .permits, weight, fence⟩)
  | .acquireShared name token mode _ =>
    some (⟨.readWrite, name⟩, fun fence => ⟨⟨.readWrite, name⟩, token, mode.kind, 1, fence⟩)
  | _ => none

def Op.give : Op → Option (LockKey × LockToken)
  | .release name token => some (⟨.mutex, name⟩, token)
  | .releasePermits name token => some (⟨.semaphore, name⟩, token)
  | .releaseShared name token => some (⟨.readWrite, name⟩, token)
  | _ => none

def Op.waiter? : Op → Option Ref
  | .acquire _ _ own => own
  | .acquirePermits _ _ _ _ own => own
  | .acquireShared _ _ _ own => own
  | _ => none

def Op.fresh (grants : List Grant) (op : Op) : Bool :=
  match op.take with
  | some (full, grant) => grants.all fun other => !(decide (other.full = full) && decide (other.owner = (grant 0).owner))
  | none => true

def Op.fits (store : MemoryStore) : Op → Bool
  | .waiterPermits name weight => (store.pools ⟨.semaphore, name⟩).all fun pool => decide (weight ≤ pool.limit)
  | _ => true

namespace MemoryStore

variable {store next : MemoryStore} {full key : LockKey} {ref : Ref} {session : Session} {op : Op}

/-- The waiters whose reservation the call ends: the attempt's own when it is granted, or the one that closes. -/
def Ends (op : Op) (answer : Answer) (ref : Ref) : Prop :=
  op = .close ref ∨ op.waiter? = some ref ∧ ∃ fence, answer = .granted fence

inductive Holders (store : MemoryStore) (op : Op) (key : LockKey) : Prop where
  | takes (grant : Nat → Grant) (isTake : op.take = some (key, grant)) (at_ : ∀ fence, (grant fence).full = key)
      (fences : ∀ fence, (grant fence).fence = fence)
      (takes : Takes store (store.call op).1 key (store.call op).2 grant) : Holders store op key
  | gives (token : LockToken) (isGive : op.give = some (key, token)) (noTake : op.take = none)
      (gives : Gives store (store.call op).1 key token (store.call op).2) : Holders store op key
  | quiet (noTake : op.take = none) (noGive : op.give = none) (answers : (store.call op).2 = .done)
      (quiet : Quiet store (store.call op).1 key) : Holders store op key

structure Spec (store : MemoryStore) (op : Op) (key : LockKey) : Prop where
  apart : Apart key store (store.call op).1
  fine : KeyFine (store.call op).1 key
  serves : Serves store (store.call op).1 key (Ends op (store.call op).2)
  outright : Outright store key op.waiter? (store.call op).2
  holders : Holders store op key

theorem Serves.mono {taken more : Ref → Prop} (serves : Serves store next full taken) (weaker : ∀ ref, taken ref → more ref) :
    Serves store next full more :=
  ⟨fun ref kind is => (serves.kept ref kind is).imp_right (weaker ref), serves.line, serves.got⟩

theorem outright_of {answer : Answer} (not : ∀ fence, answer ≠ .granted fence) (waiter : Option Ref) :
    Outright store full waiter answer := fun fence granted => absurd granted (not fence)

theorem done_not (fence : Nat) : Answer.done ≠ .granted fence := nofun

theorem Gives.not_granted {token : LockToken} {answer : Answer} (gives : Gives store next full token answer) (fence : Nat) :
    answer ≠ .granted fence := by
  cases gives with
  | notOwner is _ =>
    rw [is]
    exact nofun
  | released is _ _ =>
    rw [is]
    exact nofun

theorem spec_quiet (fine : Fine next) (same : (store.call op).1 = next) (answers : (store.call op).2 = .done)
    (noTake : op.take = none) (noGive : op.give = none) (apart : Apart key store next)
    (serves : Serves store next key (Ends op (store.call op).2)) (quiet : Quiet store next key) : Spec store op key := by
  subst same
  refine ⟨apart, fine key, serves, outright_of (fun fence => ?_) _, .quiet noTake noGive answers quiet⟩
  rw [answers]
  exact done_not fence

theorem fresh_of {grant : Nat → Grant} (fresh : op.fresh (store.holders key) = true) (isTake : op.take = some (key, grant))
    (at_ : ∀ other ∈ store.holders key, other.full = key) : ∀ other ∈ store.holders key, other.owner ≠ (grant 0).owner := by
  intro other member same
  simp only [Op.fresh, isTake, List.all_eq_true] at fresh
  have not := fresh other member
  simp [at_ other member, same] at not

theorem holders_full : ∀ grant ∈ store.holders full, grant.full = full := by
  intro grant member
  unfold MemoryStore.holders at member
  simp only [List.mem_append] at member
  rcases member with (inMutex | inPool) | inShared
  · cases known : store.mutexes full with
    | none =>
      rw [known] at inMutex
      cases inMutex
    | some state =>
      rw [known] at inMutex
      obtain ⟨hold, -, rfl⟩ := List.mem_map.mp inMutex
      rfl
  · cases known : store.pools full with
    | none =>
      rw [known] at inPool
      cases inPool
    | some pool =>
      rw [known] at inPool
      obtain ⟨hold, -, rfl⟩ := List.mem_map.mp inPool
      rfl
  · cases known : store.shareds full with
    | none =>
      rw [known] at inShared
      cases inShared
    | some state =>
      rw [known] at inShared
      simp only [Option.elim_some, Shared.grants, List.mem_append] at inShared
      rcases inShared with reads | writes
      · obtain ⟨hold, -, rfl⟩ := List.mem_map.mp reads
        rfl
      · obtain ⟨hold, -, rfl⟩ := List.mem_map.mp writes
        rfl

theorem close_keyFine (fine : KeyFine store session.full) (there : store.sessions[ref]? = some session) :
    KeyFine (store.close ref) session.full := by
  cases family : session.full.primitive with
  | mutex => exact (closeMutex_fine family (fine.mutex family) there rfl).keyFine family
  | semaphore => exact (closePermits_fine family (fine.permits family) there rfl).keyFine family
  | readWrite => exact (closeShared_fine family (fine.shared family) there rfl).keyFine family

theorem spec_change (fine : Fine store) {change : Session → Session} (is : (store.call op).1 = store.change ref change)
    (answers : (store.call op).2 = .done) (noTake : op.take = none) (noGive : op.give = none)
    (same : ∀ session : Session, (change session).full = session.full ∧ (change session).kind = session.kind ∧
      (change session).state = session.state ∧ (change session).weight = session.weight)
    (awake : ∀ session : Session, (session.asleep = true → session.state = .queued) →
      (change session).asleep = true → (change session).state = .queued) : ∃ key, Spec store op key := by
  cases there : store.sessions[ref]? with
  | none =>
    have still : (store.call op).1 = store := by
      rw [is, MemoryStore.change, List.modify_eq_self (by simpa using there)]
    exact ⟨⟨.mutex, ""⟩, spec_quiet fine still answers noTake noGive (.refl _ store)
      (.of_same rfl rfl) (.refl store _)⟩
  | some session =>
    obtain ⟨stays, kind, state, -⟩ := same session
    have apart : Apart session.full store (store.change ref change) := by
      refine apart_change fun old found => ?_
      rw [there] at found
      cases found
      exact ⟨rfl, stays⟩
    have asleep := (fine session.full).lined.sleeps ref session there rfl
    refine ⟨session.full, spec_quiet (fine.changed there (same session) (awake session asleep)) is answers noTake noGive apart ?_
      (quiet_change change)⟩
    exact (clears_change there ⟨stays, kind, state⟩).serves

theorem call_spec (fine : Fine store) (fresh : ∀ full, op.fresh (store.holders full) = true) (fits : op.fits store = true) :
    ∃ key, Spec store op key := by
  cases op with
  | acquire name token waiter =>
    have fine_ := (fine ⟨.mutex, name⟩).mutex rfl
    obtain ⟨serves, outright⟩ := acquire_serves fine_ token waiter
    exact ⟨⟨.mutex, name⟩, apart_acquire token waiter, (acquire_fine rfl fine_ token waiter).keyFine rfl,
      serves.mono fun _ => .inr, outright, .takes _ rfl (fun _ => rfl) (fun _ => rfl) (acquire_takes rfl fine_ token waiter)⟩
  | release name token =>
    have fine_ := (fine ⟨.mutex, name⟩).mutex rfl
    have gives := release_gives rfl fine_ token
    exact ⟨⟨.mutex, name⟩, apart_release token fine_.lined.line.here, (release_fine rfl fine_ token).keyFine rfl,
      release_serves rfl fine_ token, outright_of gives.not_granted _, .gives token rfl rfl gives⟩
  | waiter name =>
    have fine_ := (fine ⟨.mutex, name⟩).mutex rfl
    exact ⟨⟨.mutex, name⟩, apart_waiter, (waiter_fine rfl fine_).keyFine rfl, waiter_serves fine_, outright_of done_not _,
      .quiet rfl rfl rfl (waiter_quiet fine_)⟩
  | acquirePermits name token limit weight waiter =>
    have fine_ := (fine ⟨.semaphore, name⟩).permits rfl
    have unheld := @fresh_of store ⟨.semaphore, name⟩ (.acquirePermits name token limit weight waiter) _ (fresh _) rfl holders_full
    obtain ⟨serves, outright⟩ := @acquirePermits_serves store ⟨.semaphore, name⟩ rfl token limit weight waiter
    refine ⟨⟨.semaphore, name⟩, apart_acquirePermits token limit weight waiter,
      (acquirePermits_fine rfl fine_ token ?_ limit weight waiter).keyFine rfl, serves.mono fun _ => .inr, outright,
      .takes _ rfl (fun _ => rfl) (fun _ => rfl) (acquirePermits_takes rfl fine_ token unheld limit weight waiter)⟩
    intro pool known member
    obtain ⟨hold, isHolder, isOwner⟩ := List.mem_map.mp member
    refine unheld (hold.grant ⟨.semaphore, name⟩) ?_ isOwner
    rw [fine_.lined.alone.permitHolders rfl, known]
    exact List.mem_map_of_mem isHolder
  | releasePermits name token =>
    have fine_ := (fine ⟨.semaphore, name⟩).permits rfl
    have gives := releasePermits_gives rfl fine_ token
    exact ⟨⟨.semaphore, name⟩, apart_releasePermits token fine_.lined.line.here, (releasePermits_fine rfl fine_ token).keyFine rfl,
      releasePermits_serves rfl fine_ token, outright_of gives.not_granted _, .gives token rfl rfl gives⟩
  | waiterPermits name weight =>
    have fine_ := (fine ⟨.semaphore, name⟩).permits rfl
    refine ⟨⟨.semaphore, name⟩, apart_waiterPermits weight, (waiterPermits_fine rfl fine_ fun pool known => ?_).keyFine rfl,
      waiterPermits_serves weight, outright_of done_not _, .quiet rfl rfl rfl (waiterPermits_quiet weight)⟩
    simp only [Op.fits, known, Option.all_some, decide_eq_true_eq] at fits
    exact fits
  | acquireShared name token mode waiter =>
    have fine_ := (fine ⟨.readWrite, name⟩).shared rfl
    have unheld := @fresh_of store ⟨.readWrite, name⟩ (.acquireShared name token mode waiter) _ (fresh _) rfl holders_full
    obtain ⟨serves, outright⟩ := acquireShared_serves fine_ token mode waiter
    exact ⟨⟨.readWrite, name⟩, apart_acquireShared token mode waiter, (acquireShared_fine rfl fine_ token mode waiter).keyFine rfl,
      serves.mono fun _ => .inr, outright,
      .takes _ rfl (fun _ => rfl) (fun _ => rfl) (acquireShared_takes rfl fine_ token unheld mode waiter)⟩
  | releaseShared name token =>
    have fine_ := (fine ⟨.readWrite, name⟩).shared rfl
    have gives := releaseShared_gives rfl fine_ token
    exact ⟨⟨.readWrite, name⟩, apart_releaseShared token fine_.lined.line.here fine_.lined.readerLine.here,
      (releaseShared_fine rfl fine_ token).keyFine rfl, releaseShared_serves rfl fine_ token, outright_of gives.not_granted _,
      .gives token rfl rfl gives⟩
  | waiterShared name mode =>
    have fine_ := (fine ⟨.readWrite, name⟩).shared rfl
    exact ⟨⟨.readWrite, name⟩, apart_waiterShared mode, (waiterShared_fine rfl fine_ mode).keyFine rfl,
      waiterShared_serves fine_ mode, outright_of done_not _, .quiet rfl rfl rfl (waiterShared_quiet mode)⟩
  | close ref =>
    cases there : store.sessions[ref]? with
    | none =>
      have same : (store.call (.close ref)).1 = store := by simp only [call, close, there]
      exact ⟨⟨.mutex, ""⟩, spec_quiet fine same rfl rfl rfl (.refl _ store) (.of_same rfl rfl) (.refl store _)⟩
    | some session =>
      have own := close_keyFine (fine session.full) there
      exact ⟨session.full, apart_close (fine session.full).lined there, own,
        (close_serves (fine session.full) there).mono fun _ same => .inl (by rw [same]), outright_of done_not _,
        .quiet rfl rfl rfl (close_quiet there)⟩
  | sleep ref =>
    refine spec_change fine rfl rfl rfl rfl (fun session => ?_) fun session asleep => ?_
    · split <;> exact ⟨rfl, rfl, rfl, rfl⟩
    · split
      · next queued => exact fun _ => queued
      · exact asleep
  | abort ref => exact spec_change fine rfl rfl rfl rfl (fun _ => ⟨rfl, rfl, rfl, rfl⟩) fun _ _ => nofun
  | watch full watcher =>
    refine ⟨full, @spec_quiet store (store.watch full watcher) full (.watch full watcher) ?_ rfl rfl rfl rfl ?_ ?_ ?_⟩
    · unfold watch
      split
      · exact fine
      · next held =>
        rw [Bool.not_eq_true] at held
        exact fine.watchers _ fun _ => .inr held
    · unfold watch
      split
      · exact .refl full store
      · exact apart_watchers _
    · unfold call watch
      simp only
      split <;> exact .of_same rfl rfl
    · unfold watch
      split <;> exact ⟨rfl, rfl⟩
  | unwatch full watcher =>
    refine ⟨full, @spec_quiet store (store.unwatch full watcher) full (.unwatch full watcher) ?_ rfl rfl rfl rfl (apart_watchers _) (.of_same rfl rfl) ⟨rfl, rfl⟩⟩
    refine fine.watchers _ fun some_ => .inl ?_
    intro none_
    rw [none_] at some_
    exact some_ rfl

end MemoryStore

structure World where
  store : MemoryStore
  grants : List Grant
  issued : List Nat
  began : Ref → Nat
  clock : Nat

def MemoryStore.isQueued (store : MemoryStore) (ref : Ref) : Bool := (store.sessions[ref]?).any fun session => session.state = .queued

def Op.after (op : Op) (answer : Answer) (grants : List Grant) : List Grant :=
  match op.take, op.give, answer with
  | some (_, grant), _, .granted fence => grants ++ [grant fence]
  | none, some (full, token), .released => grants.filter fun grant => !(decide (grant.full = full) && decide (grant.owner = token))
  | _, _, _ => grants

def World.start : World := ⟨memoryStore, [], [], fun _ => 0, 0⟩

def World.call (world : World) (op : Op) : World where
  store := (world.store.call op).1
  grants := op.after (world.store.call op).2 world.grants
  issued := match (world.store.call op).2 with
    | .granted fence => world.issued ++ [fence]
    | _ => world.issued
  began ref := if (world.store.call op).1.isQueued ref && !world.store.isQueued ref then world.clock else world.began ref
  clock := world.clock + 1

def World.step (world : World) (op : Op) : Option World := some (world.call op)

def World.allowed (world : World) (op : Op) : Prop := op.fresh world.grants = true ∧ op.fits world.store = true

instance (world : World) (op : Op) : Decidable (world.allowed op) := inferInstanceAs (Decidable (_ ∧ _))

structure World.Kept (world : World) : Prop where
  fine : Fine world.store
  held : ∀ full, world.grants.filter (fun grant => decide (grant.full = full)) = world.store.holders full
  issued : world.issued.Pairwise (· < ·)
  last : ∀ fence ∈ world.issued, fence ≤ world.store.lastFence
  began : ∀ full, (world.store.lines full).Pairwise fun first second => world.began first < world.began second
  clock : ∀ ref, world.store.isQueued ref = true → world.began ref < world.clock

variable {world : World} {op : Op} {key full : LockKey} {ref : Ref}

theorem queued_of {store : MemoryStore} (lined : Lined store full) (member : ref ∈ store.lines full) : store.isQueued ref = true := by
  obtain ⟨session, there, -, -, queued⟩ := (lined.line.member ref).mp member
  simp [MemoryStore.isQueued, there, queued]

theorem World.fresh_holders (held : ∀ full, world.grants.filter (fun grant => decide (grant.full = full)) = world.store.holders full)
    (fresh : op.fresh world.grants = true) (full : LockKey) : op.fresh (world.store.holders full) = true := by
  rw [← held full]
  unfold Op.fresh at fresh ⊢
  split at fresh
  · rw [List.all_eq_true] at fresh ⊢
    exact fun other member => fresh other (List.mem_filter.mp member).1
  · rfl

theorem World.held_call (held : ∀ full, world.grants.filter (fun grant => decide (grant.full = full)) = world.store.holders full)
    (spec : Spec world.store op key) (full : LockKey) :
    (world.call op).grants.filter (fun grant => decide (grant.full = full)) = (world.call op).store.holders full := by
  have elsewhere (apart : full ≠ key) : (world.call op).store.holders full = world.store.holders full :=
    (spec.apart full apart).holders
  have unchanged (same : op.after (world.store.call op).2 world.grants = world.grants)
      (quiet : (world.store.call op).1.holders key = world.store.holders key) :
      (world.call op).grants.filter (fun grant => decide (grant.full = full)) = (world.call op).store.holders full := by
    show (op.after _ world.grants).filter _ = (world.store.call op).1.holders full
    rw [same, held]
    by_cases isKey : full = key
    · rw [isKey, quiet]
    · exact (elsewhere isKey).symm
  cases spec.holders with
  | takes grant isTake at_ fences takes =>
    cases takes with
    | refused not same _ =>
      apply unchanged
      · unfold Op.after
        rw [isTake]
        cases answers : (world.store.call op).2 with
        | granted fence => exact absurd answers (not fence)
        | _ => rfl
      · exact same
    | granted isGranted more _ =>
      have after : (world.call op).grants = world.grants ++ [grant (world.store.lastFence + 1)] := by
        show op.after _ world.grants = _
        unfold Op.after
        rw [isTake, isGranted]
      rw [after, List.filter_append, held]
      by_cases isKey : full = key
      · subst isKey
        have inKey : [grant (world.store.lastFence + 1)].filter (fun grant => decide (grant.full = full)) =
            [grant (world.store.lastFence + 1)] := by simp [at_]
        rw [inKey]
        exact more.symm
      · have notKey : [grant (world.store.lastFence + 1)].filter (fun grant => decide (grant.full = full)) = [] := by
          simp [at_, Ne.symm isKey]
        rw [notKey, List.append_nil]
        exact (elsewhere isKey).symm
  | gives token isGive noTake gives =>
    cases gives with
    | notOwner not same =>
      apply unchanged
      · unfold Op.after
        rw [noTake, isGive, not]
      · rw [same]
    | released isReleased less _ =>
      have after : (world.call op).grants =
          world.grants.filter fun grant => !(decide (grant.full = key) && decide (grant.owner = token)) := by
        show op.after _ world.grants = _
        unfold Op.after
        rw [noTake, isGive, isReleased]
      rw [after, List.filter_filter]
      by_cases isKey : full = key
      · subst isKey
        refine Eq.trans ?_ less.symm
        rw [← held, List.filter_filter]
        apply List.filter_congr
        intro grant _
        by_cases here : grant.full = full
        · simp [here]
        · simp [here]
      · rw [elsewhere isKey, ← held]
        apply List.filter_congr
        intro grant _
        by_cases here : grant.full = full
        · have notKey : grant.full ≠ key := by rw [here]; exact isKey
          simp [here, isKey]
        · simp [here]
  | quiet noTake noGive answers quiet =>
    apply unchanged
    · unfold Op.after
      rw [noTake, noGive]
    · exact quiet.holders

theorem MemoryStore.Spec.fence {store : MemoryStore} (spec : Spec store op key) :
    (∀ fence, (store.call op).2 ≠ .granted fence) ∧ (store.call op).1.lastFence = store.lastFence ∨
      (store.call op).2 = .granted (store.lastFence + 1) ∧ (store.call op).1.lastFence = store.lastFence + 1 := by
  cases spec.holders with
  | takes _ _ _ _ takes =>
    cases takes with
    | refused not _ same => exact .inl ⟨not, same⟩
    | granted isGranted _ next => exact .inr ⟨isGranted, next⟩
  | gives _ _ _ gives =>
    refine .inl ⟨gives.not_granted, ?_⟩
    cases gives with
    | notOwner _ same => rw [same]
    | released _ _ same => exact same
  | quiet _ _ answers quiet =>
    refine .inl ⟨fun fence => ?_, quiet.fence⟩
    rw [answers]
    exact done_not fence

theorem World.began_kept (world : World) (op : Op) (waits : world.store.isQueued ref = true) :
    (world.call op).began ref = world.began ref := by
  show (if (world.store.call op).1.isQueued ref && !world.store.isQueued ref then world.clock else world.began ref) = _
  rw [waits]
  simp

theorem MemoryStore.Spec.joined {store : MemoryStore} (spec : Spec store op key) (member : ref ∈ (store.call op).1.lines key)
    (fresh : ∀ kind, ¬ IsIn store ref key kind .queued) : store.isQueued ref = false := by
  by_contra waits
  rw [Bool.not_eq_false] at waits
  obtain ⟨session, there, queued⟩ := Option.any_eq_true _ _ |>.mp waits
  have isQueued := of_decide_eq_true queued
  by_cases here : session.full = key
  · exact fresh session.kind ⟨session, there, here, rfl, isQueued⟩
  · have still := ((spec.apart session.full here).sessions ref session rfl).mpr there
    obtain ⟨found, isFound, isHere, -⟩ := (spec.fine.lined.line.member ref).mp member
    rw [still] at isFound
    cases isFound
    exact here isHere

theorem World.began_call (kept : world.Kept) (spec : Spec world.store op key) (full : LockKey) :
    ((world.call op).store.lines full).Pairwise fun first second => (world.call op).began first < (world.call op).began second := by
  have before (line : List Ref) (sub : line.Sublist (world.store.lines full)) :
      line.Pairwise fun first second => (world.call op).began first < (world.call op).began second := by
    refine List.Pairwise.imp_of_mem ?_ ((kept.began full).sublist sub)
    intro first second isFirst isSecond less
    rw [world.began_kept op (queued_of (kept.fine full).lined (sub.subset isFirst)),
      world.began_kept op (queued_of (kept.fine full).lined (sub.subset isSecond))]
    exact less
  by_cases isKey : full = key
  · subst isKey
    rcases spec.serves.line with sub | ⟨ref, fresh, isLine⟩
    · exact before _ sub
    · have member : ref ∈ (world.store.call op).1.lines full := by
        rw [isLine]
        simp
      have notBefore := spec.joined member fresh
      have now := queued_of spec.fine.lined member
      have isNow : (world.call op).began ref = world.clock := by
        show (if (world.store.call op).1.isQueued ref && !world.store.isQueued ref then world.clock else world.began ref) = _
        rw [now, notBefore]
        rfl
      show ((world.store.call op).1.lines full).Pairwise _
      rw [isLine, List.pairwise_append]
      refine ⟨before _ (List.Sublist.refl _), List.pairwise_singleton _ _, fun first isFirst second isSecond => ?_⟩
      have waits := queued_of (kept.fine full).lined isFirst
      rw [List.mem_singleton.mp isSecond, isNow, world.began_kept op waits]
      exact kept.clock first waits
  · refine before _ ?_
    show ((world.store.call op).1.lines full).Sublist _
    rw [(spec.apart full isKey).lines]

theorem World.Kept.call (kept : world.Kept) (allowed : world.allowed op) : (world.call op).Kept := by
  obtain ⟨key, spec⟩ := call_spec kept.fine (World.fresh_holders kept.held allowed.1) allowed.2
  have fine := kept.fine.apart spec.apart spec.fine
  refine ⟨fine, World.held_call kept.held spec, ?_, ?_, World.began_call kept spec, ?_⟩
  · show (match (world.store.call op).2 with | .granted fence => world.issued ++ [fence] | _ => world.issued).Pairwise (· < ·)
    rcases spec.fence with ⟨not, -⟩ | ⟨isGranted, -⟩
    · cases answers : (world.store.call op).2 with
      | granted fence => exact absurd answers (not fence)
      | _ => exact kept.issued
    · rw [isGranted]
      rw [List.pairwise_append]
      refine ⟨kept.issued, List.pairwise_singleton _ _, fun fence member last isLast => ?_⟩
      rw [List.mem_singleton.mp isLast]
      exact Nat.lt_succ_of_le (kept.last fence member)
  · show ∀ fence ∈ (match (world.store.call op).2 with | .granted fence => world.issued ++ [fence] | _ => world.issued),
      fence ≤ (world.store.call op).1.lastFence
    rcases spec.fence with ⟨not, same⟩ | ⟨isGranted, next⟩
    · rw [same]
      cases answers : (world.store.call op).2 with
      | granted fence => exact absurd answers (not fence)
      | _ => exact kept.last
    · rw [isGranted, next]
      intro fence member
      rcases List.mem_append.mp member with earlier | last
      · exact Nat.le_succ_of_le (kept.last fence earlier)
      · rw [List.mem_singleton.mp last]
  · intro ref waits
    show (if (world.store.call op).1.isQueued ref && !world.store.isQueued ref then world.clock else world.began ref) < world.clock + 1
    split
    · omega
    · next already =>
      have queued : world.store.isQueued ref = true := by
        have now : (world.store.call op).1.isQueued ref = true := waits
        rw [now] at already
        simpa using already
      have before := kept.clock ref queued
      omega

theorem start_kept : World.start.Kept := by
  have lists (full : LockKey) (reading : Bool) : Lists memoryStore full reading [] :=
    ⟨List.nodup_nil, fun ref => ⟨nofun, fun ⟨_, there, _⟩ => by cases there⟩⟩
  have lined (full : LockKey) : Lined memoryStore full :=
    ⟨lists full false, lists full true, nofun, nofun, fun _ => rfl, fun _ => rfl, fun _ => rfl⟩
  have nobody (ref : Ref) (full : LockKey) (kind : WaitKind) (state : WaitState) : ¬ IsIn memoryStore ref full kind state := by
    rintro ⟨session, there, -⟩
    cases there
  refine ⟨fun full => ?_, fun _ => rfl, List.Pairwise.nil, nofun, fun _ => List.Pairwise.nil, fun ref waits => ?_⟩
  · cases family : full.primitive with
    | mutex =>
      refine MutexFine.keyFine ⟨⟨lined full, fun ref => ⟨nofun, fun is => absurd is (nobody _ _ _ _)⟩, nofun⟩, nofun, ?_, ?_⟩ family
      · exact fun waits => absurd rfl waits
      · exact fun watched => absurd rfl watched
    | semaphore =>
      refine PoolFine.keyFine ⟨⟨lined full, nofun, fun _ => rfl, fun _ _ is => absurd is (nobody _ _ _ _), ?_⟩, nofun, nofun, ?_⟩ family
      · exact fun waits => absurd rfl waits
      · exact fun watched => absurd rfl watched
    | readWrite =>
      refine SharedFine.keyFine ⟨⟨lined full, nofun, fun _ => rfl, fun ref => ⟨nofun, fun is => absurd is (nobody _ _ _ _)⟩, nofun⟩,
        nofun, ?_, ?_, ?_⟩ family
      · exact fun waits => absurd rfl waits
      · exact fun waits => absurd rfl waits
      · exact fun watched => absurd rfl watched
  · cases waits

theorem World.reached_kept (reached : Arki.Run.Reach World.step World.allowed World.start world) : world.Kept := by
  refine reached.invariant World.Kept start_kept fun world op next kept allowed stepped => ?_
  cases stepped
  exact kept.call allowed

end Arki.Lock
