import Arki.Lock.MemoryKeys
import Mathlib

/-! Mutexes of the in-process store: one holder or one reservation, and nobody waits for a free lock. -/

set_option autoImplicit false

namespace Arki.Lock

namespace MemoryStore

variable {store next : MemoryStore} {full : LockKey} {ref : Ref} {session : Session}

structure MutexLoose (store : MemoryStore) (full : LockKey) : Prop where
  lined : Lined store full
  reserved : ∀ ref : Ref, (store.mutexes full).bind (·.reserved) = some ref ↔ IsIn store ref full .mutex .reserved
  single : ∀ state, store.mutexes full = some state → state.holder = none ∨ state.reserved = none

structure MutexFine (store : MemoryStore) (full : LockKey) : Prop extends MutexLoose store full where
  busy : ∀ state, store.mutexes full = some state → state.holder.isSome = true ∨ state.reserved.isSome = true
  waits : store.lines full ≠ [] → (store.mutexes full).isSome = true
  watched : store.watchers full ≠ [] → (store.mutexes full).isSome = true

theorem WaitKind.of_mutex {kind : WaitKind} (same : kind.primitive = .mutex) : kind = .mutex := by
  cases kind with
  | mutex => rfl
  | _ => cases same

theorem MutexLoose.of_alike (loose : MutexLoose store full) (alike : Alike full store next) (lined : Lined next full) :
    MutexLoose next full := by
  refine ⟨lined, fun ref => ?_, ?_⟩
  · rw [alike.mutexes, alike.isIn]
    exact loose.reserved ref
  · rw [alike.mutexes]
    exact loose.single

theorem MutexFine.of_alike (fine : MutexFine store full) (alike : Alike full store next) (lined : Lined next full) :
    MutexFine next full := by
  refine ⟨fine.toMutexLoose.of_alike alike lined, ?_, ?_, ?_⟩
  · rw [alike.mutexes]
    exact fine.busy
  · rw [alike.lines, alike.mutexes]
    exact fine.waits
  · rw [alike.watchers, alike.mutexes]
    exact fine.watched

theorem MutexLoose.unreserved (loose : MutexLoose store full) (free : (store.mutexes full).bind (·.reserved) = none) (ref : Ref) :
    ¬ IsIn store ref full .mutex .reserved := by
  intro isReserved
  rw [(loose.reserved ref).mpr isReserved] at free
  cases free

theorem setMutex_alone (isMutex : full.primitive = .mutex) (alone : Alone store full) (state : Option MutexState) :
    Alone (store.setMutex full state) full :=
  ⟨fun apart => absurd isMutex apart, alone.pools, alone.shareds⟩

theorem Lined.setMutex (lined : Lined store full) (isMutex : full.primitive = .mutex) (state : Option MutexState) :
    Lined (store.setMutex full state) full :=
  lined.of_tables rfl rfl rfl (setMutex_alone isMutex lined.alone state)

theorem dispatchMutex_fine (isMutex : full.primitive = .mutex) (loose : MutexLoose store full) :
    MutexFine (store.dispatchMutex full) full := by
  unfold dispatchMutex
  split
  · next busy =>
    obtain ⟨state, known, has⟩ := Option.any_eq_true _ _ |>.mp busy
    have isSome : (store.mutexes full).isSome = true := by rw [known]; rfl
    refine ⟨loose, fun other found => ?_, fun _ => isSome, fun _ => isSome⟩
    rw [known] at found
    cases found
    simpa using has
  next free =>
  have nobody : (store.mutexes full).bind (·.reserved) = none := by
    cases known : store.mutexes full with
    | none => rfl
    | some state =>
      rw [known] at free
      simp only [Option.any_some, Bool.or_eq_true, not_or, Option.not_isSome_iff_eq_none] at free
      exact free.2
  cases line : store.lines full with
  | nil =>
    have mutex : ((store.setMutex full none).wakeWatchers full).mutexes full = none := Function.update_self ..
    have watchers : ((store.setMutex full none).wakeWatchers full).watchers full = [] := Function.update_self ..
    show MutexFine ((store.setMutex full none).wakeWatchers full) full
    refine ⟨⟨?_, fun ref => ?_, ?_⟩, ?_, ?_, ?_⟩
    · have alone := setMutex_alone isMutex loose.lined.alone none
      exact loose.lined.of_tables rfl rfl rfl ⟨alone.mutexes, alone.pools, alone.shareds⟩
    · rw [mutex, Option.bind_none]
      constructor
      · intro same
        cases same
      · exact fun isReserved => absurd isReserved (loose.unreserved nobody ref)
    · intro state known
      rw [mutex] at known
      cases known
    · intro state known
      rw [mutex] at known
      cases known
    · intro waits
      exact absurd line waits
    · intro watched
      exact absurd watchers watched
  | cons head rest =>
    obtain ⟨session, there, here, -, queued⟩ := (loose.lined.line.member head).mp (by rw [line]; exact List.mem_cons_self)
    simp only [there]
    have kind := WaitKind.of_mutex ((loose.lined.family head session there here).trans isMutex)
    have lined := lined_handTo (loose.lined.setMutex isMutex (some ⟨none, some head⟩)) there here queued
    have mutex : ((store.setMutex full (some ⟨none, some head⟩)).handTo head session).mutexes full = some ⟨none, some head⟩ := by
      rw [beside_handTo.mutexes]
      exact Function.update_self ..
    have moves := @moves_handTo (store.setMutex full (some ⟨none, some head⟩)) head session there session
    refine ⟨⟨lined, fun ref => ?_, ?_⟩, ?_, ?_, ?_⟩
    · rw [mutex, moves.isIn]
      simp only [Option.bind_some]
      split
      · next same =>
        subst same
        simp [here, kind]
      · next apart =>
        have absent : ¬ IsIn (store.setMutex full (some ⟨none, some head⟩)) ref full .mutex .reserved := loose.unreserved nobody ref
        simp [absent, Ne.symm apart]
    · intro state known
      rw [mutex] at known
      cases known
      exact .inl rfl
    · intro state known
      rw [mutex] at known
      cases known
      exact .inr rfl
    · intro _
      rw [mutex]
      rfl
    · intro _
      rw [mutex]
      rfl

theorem queueRefused_mutex (fine : MutexFine store full) (busy : (store.mutexes full).isSome = true) (waiter : Option Ref) :
    MutexFine (store.queueRefused waiter full .mutex 1).1 full := by
  unfold queueRefused
  cases waiter with
  | none => exact fine
  | some ref =>
  simp only
  cases there : store.sessions[ref]? with
  | none => exact fine
  | some session =>
  simp only
  split
  · next joins =>
    obtain ⟨idle, -, here, kind, -⟩ := joins
    have mutexes : (store.join ref session).mutexes = store.mutexes := beside_join.mutexes
    refine ⟨⟨lined_join fine.lined there here idle, fun other => ?_, ?_⟩, ?_, ?_, ?_⟩
    · rw [mutexes, (moves_join there session).isIn_same (by simp [idle])]
      exact fine.reserved other
    · rw [mutexes]
      exact fine.single
    · rw [mutexes]
      exact fine.busy
    · rw [mutexes]
      exact fun _ => busy
    · rw [mutexes]
      exact fun _ => busy
  · exact fine

theorem mutexFine_held (isMutex : full.primitive = .mutex) (lined : Lined store full)
    (unreserved : ∀ ref, ¬ IsIn store ref full .mutex .reserved) (hold : Hold) (fence : Nat) :
    MutexFine { store.setMutex full (some ⟨some hold, none⟩) with lastFence := fence } full := by
  have mutex : (store.setMutex full (some ⟨some hold, none⟩)).mutexes full = some ⟨some hold, none⟩ := Function.update_self ..
  refine ⟨⟨(lined.setMutex isMutex (some ⟨some hold, none⟩)).of_tables rfl rfl rfl ?_, fun ref => ?_, ?_⟩, ?_, ?_, ?_⟩
  · have alone := setMutex_alone isMutex lined.alone (some ⟨some hold, none⟩)
    exact ⟨alone.mutexes, alone.pools, alone.shareds⟩
  · constructor
    · intro same
      simp [setMutex] at same
    · exact fun isReserved => absurd isReserved (unreserved ref)
  · intro state known
    cases mutex.symm.trans known
    exact .inr rfl
  · intro state known
    cases mutex.symm.trans known
    exact .inl rfl
  · intro _
    exact Option.isSome_iff_exists.mpr ⟨_, mutex⟩
  · intro _
    exact Option.isSome_iff_exists.mpr ⟨_, mutex⟩

theorem redeeming_some {waiter : Option Ref} {kind : WaitKind} {weight : Nat}
    (redeems : store.redeeming waiter full kind weight = some ref) : waiter = some ref ∧
      ∃ session : Session, store.sessions[ref]? = some session ∧ session.full = full ∧ session.kind = kind ∧
        session.state = .reserved ∧ session.weight = weight := by
  obtain ⟨isWaiter, matches_⟩ := Option.filter_eq_some_iff.mp redeems
  obtain ⟨session, there, same⟩ := Option.any_eq_true _ _ |>.mp matches_
  simp only [Bool.decide_and, Bool.and_eq_true, decide_eq_true_eq] at same
  exact ⟨isWaiter, session, there, same.2.1, same.2.2.1, same.1, same.2.2.2⟩

theorem acquire_fine (isMutex : full.primitive = .mutex) (fine : MutexFine store full) (token : LockToken) (waiter : Option Ref) :
    MutexFine (store.acquire full token waiter).1 full := by
  unfold acquire
  cases reserved : (store.mutexes full).bind (·.reserved) with
  | some holder =>
    have busy : (store.mutexes full).isSome = true := by
      cases known : store.mutexes full with
      | none =>
        rw [known] at reserved
        cases reserved
      | some _ => rfl
    cases redeems : store.redeeming waiter full .mutex 1 with
    | none => exact queueRefused_mutex fine busy waiter
    | some own =>
      simp only
      split
      · next same =>
        subst same
        obtain ⟨-, session, there, here, kind, isReserved, -⟩ := redeeming_some redeems
        have notQueued : session.state ≠ .queued := by
          rw [isReserved]
          exact nofun
        refine mutexFine_held isMutex (lined_change fine.lined there here rfl rfl ?_ ?_) (fun other found => ?_) _ _
        · exact fun asleep => absurd (fine.lined.sleeps holder session there here asleep) notQueued
        · exact ⟨fun queued => absurd queued notQueued, nofun⟩
        -- the reservation was for this waiter, so no other has one
        · rw [(moves_change there _).isIn] at found
          split at found
          · cases found.2.2
          · next apart =>
            have same := (fine.reserved other).mpr found
            rw [reserved] at same
            exact apart (Option.some.inj same).symm
      · exact queueRefused_mutex fine busy waiter
  | none =>
    simp only
    split
    · next held =>
      refine queueRefused_mutex fine ?_ waiter
      cases known : store.mutexes full with
      | none =>
        rw [known] at held
        cases held
      | some _ => rfl
    · exact mutexFine_held isMutex fine.lined (fine.unreserved reserved) _ _

theorem release_fine (isMutex : full.primitive = .mutex) (fine : MutexFine store full) (token : LockToken) :
    MutexFine (store.release full token).1 full := by
  unfold release
  split
  · next holder reserved known =>
    split
    · -- a lock with a holder is reserved for nobody
      have none_ : reserved = none := (fine.single _ known).resolve_left nofun
      subst none_
      have mutex : (store.setMutex full (some ⟨none, none⟩)).mutexes full = some ⟨none, none⟩ := Function.update_self ..
      refine dispatchMutex_fine isMutex ⟨fine.lined.setMutex isMutex _, fun ref => ?_, ?_⟩
      · rw [mutex]
        have same := fine.reserved ref
        rw [known] at same
        exact same
      · intro state found
        rw [mutex] at found
        cases found
        exact .inl rfl
    · exact fine
  · exact fine

theorem waiter_fine (isMutex : full.primitive = .mutex) (fine : MutexFine store full) : MutexFine (store.waiter full) full := by
  have family : WaitKind.mutex.primitive = full.primitive := isMutex.symm
  unfold waiter
  simp only
  split
  · next busy =>
    obtain ⟨state, known, -⟩ := Option.any_eq_true _ _ |>.mp busy
    have isSome : (store.mutexes full).isSome = true := by rw [known]; rfl
    have there : (store.push ⟨full, .mutex, 1, .idle, false, false⟩).sessions[store.sessions.length]? =
        some ⟨full, .mutex, 1, .idle, false, false⟩ := by simp [push]
    have mutexes : ((store.push ⟨full, .mutex, 1, .idle, false, false⟩).join store.sessions.length
        ⟨full, .mutex, 1, .idle, false, false⟩).mutexes = store.mutexes := beside_join.mutexes
    have lined := @lined_push store full ⟨full, .mutex, 1, .idle, false, false⟩ fine.lined (by rintro ⟨⟩) rfl fun _ => family
    refine ⟨⟨lined_join lined there rfl rfl, fun ref => ?_, ?_⟩, ?_, ?_, ?_⟩
    · rw [mutexes, (moves_join there _).isIn_same (by simp), push_isIn]
      simpa using fine.reserved ref
    · rw [mutexes]
      exact fine.single
    · rw [mutexes]
      exact fine.busy
    · rw [mutexes]
      exact fun _ => isSome
    · rw [mutexes]
      exact fun _ => isSome
  · next free =>
    have unknown : store.mutexes full = none := by
      cases known : store.mutexes full with
      | none => rfl
      | some state =>
        rw [known] at free
        simp only [Option.any_some, Bool.or_eq_true, not_or] at free
        cases fine.busy state known with
        | inl held => exact absurd held free.1
        | inr reserved => exact absurd reserved free.2
    have nobody : (store.mutexes full).bind (·.reserved) = none := by rw [unknown]; rfl
    have lined := @lined_push store full ⟨full, .mutex, 1, .reserved, false, false⟩ fine.lined (by rintro ⟨⟩) rfl fun _ => family
    have mutex : ((store.push ⟨full, .mutex, 1, .reserved, false, false⟩).setMutex full
        (some ⟨none, some store.sessions.length⟩)).mutexes full = some ⟨none, some store.sessions.length⟩ :=
      Function.update_self ..
    refine ⟨⟨lined.setMutex isMutex _, fun ref => ?_, ?_⟩, ?_, ?_, ?_⟩
    · have pushed := @push_isIn store full ⟨full, .mutex, 1, .reserved, false, false⟩ .mutex .reserved ref
      refine Iff.trans ?_ pushed.symm
      rw [mutex]
      have absent := fine.unreserved nobody ref
      simp [absent, eq_comm]
    · intro state known
      rw [mutex] at known
      cases known
      exact .inl rfl
    · intro state known
      rw [mutex] at known
      cases known
      exact .inr rfl
    · intro _
      rw [mutex]
      rfl
    · intro _
      rw [mutex]
      rfl

theorem mutexLoose_leave {old : Session} (fine : MutexFine store full) (there : store.sessions[ref]? = some old)
    (here : old.full = full) (queued : old.state = .queued) (awake : old.asleep = false)
    (likeness : session.full = old.full ∧ session.kind = old.kind) : MutexLoose (store.leave ref session) full := by
  have mutexes : (store.leave ref session).mutexes = store.mutexes := beside_leave.mutexes
  refine ⟨lined_leave fine.lined there here queued awake likeness, fun other => ?_, ?_⟩
  · rw [mutexes, (moves_leave there session).isIn_same (by simp [queued])]
    exact fine.reserved other
  · rw [mutexes]
    exact fine.single

theorem mutexLoose_unreserve {old : Session} (isMutex : full.primitive = .mutex) (fine : MutexFine store full)
    (there : store.sessions[ref]? = some old) (here : old.full = full) (kind : old.kind = .mutex)
    (reserved : old.state = .reserved) (likeness : session.full = old.full ∧ session.kind = old.kind) :
    MutexLoose (store.unreserve ref session) full := by
  have known := (fine.reserved ref).mpr ⟨old, there, here, kind, reserved⟩
  obtain ⟨state, isState, isReserved⟩ := Option.bind_eq_some_iff.mp known
  have notQueued : old.state ≠ .queued := by
    rw [reserved]
    exact nofun
  have isSession : session.kind = .mutex := likeness.2.trans kind
  have isFull : session.full = full := likeness.1.trans here
  have lined : Lined (store.setState ref .idle) full := by
    refine lined_change fine.lined there here rfl rfl (fun asleep => ?_) ⟨fun queued => absurd queued notQueued, nofun⟩
    exact absurd (fine.lined.sleeps ref old there here asleep) notQueued
  have is : store.unreserve ref session = (store.setState ref .idle).setMutex full (some ⟨state.holder, none⟩) := by
    unfold unreserve
    simp [isSession, isFull, isState, isReserved]
  rw [is]
  have mutex : ((store.setState ref .idle).setMutex full (some ⟨state.holder, none⟩)).mutexes full = some ⟨state.holder, none⟩ :=
    Function.update_self ..
  refine ⟨lined.setMutex isMutex _, fun other => ?_, ?_⟩
  · rw [mutex]
    refine Iff.trans ?_ ((moves_change there _).isIn .mutex .reserved other).symm
    split
    · simp
    · next apart =>
      constructor
      · intro same
        cases same
      · intro found
        have same := (fine.reserved other).mpr found
        rw [known] at same
        exact absurd (Option.some.inj same).symm apart
  · intro found isFound
    rw [mutex] at isFound
    cases isFound
    exact .inr rfl

theorem closeMutex_fine (isMutex : full.primitive = .mutex) (fine : MutexFine store full)
    (there : store.sessions[ref]? = some session) (here : session.full = full) : MutexFine (store.close ref) full := by
  have kind := WaitKind.of_mutex ((fine.lined.family ref session there here).trans isMutex)
  unfold close
  simp only [there]
  split
  · exact fine
  have moves := moves_change there fun session => { session with closed := true, asleep := false }
  have closed : MutexFine (store.change ref fun session => { session with closed := true, asleep := false }) full :=
    fine.of_alike (alike_change there ⟨rfl, rfl, rfl, rfl⟩) (lined_change fine.lined there here rfl rfl nofun .rfl)
  split
  · exact closed
  · next queued =>
    simp only [dispatch, kind]
    rw [here]
    exact dispatchMutex_fine isMutex (mutexLoose_leave closed moves.at_self here queued rfl ⟨rfl, rfl⟩)
  · next reserved =>
    simp only [dispatch, kind]
    rw [here]
    exact dispatchMutex_fine isMutex (mutexLoose_unreserve isMutex closed moves.at_self here kind reserved ⟨rfl, rfl⟩)

end MemoryStore

end Arki.Lock
