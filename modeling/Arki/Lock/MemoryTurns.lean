import Arki.Lock.MemoryGrants

/-! Whose turn it is: what a call does to the waiters of its key.

A dispatch hands a mutex or the write side to the head of the line only, and lets readers in only when no writer is
left in line. A reservation stays until its own waiter takes it or stops waiting.
-/

set_option autoImplicit false

namespace Arki.Lock

def WaitKind.isSole : WaitKind → Bool
  | .mutex | .write => true
  | .permits | .read => false

namespace MemoryStore

variable {store middle next : MemoryStore} {full : LockKey} {ref : Ref} {session : Session}

structure Hands (store next : MemoryStore) (full : LockKey) : Prop where
  kept : ∀ ref kind, IsIn store ref full kind .reserved → IsIn next ref full kind .reserved
  queued : ∀ ref kind, IsIn next ref full kind .queued → IsIn store ref full kind .queued
  line : (next.lines full).Sublist (store.lines full)
  got : ∀ ref kind, IsIn next ref full kind .reserved → IsIn store ref full kind .reserved ∨
    IsIn store ref full kind .queued ∧ (kind.isSole = true → (ref :: next.lines full).Sublist (store.lines full)) ∧
      (kind = .read → next.lines full = [])

theorem Hands.of_same (sessions : next.sessions = store.sessions) (lines : next.lines full = store.lines full) :
    Hands store next full := by
  have same (ref : Ref) (kind : WaitKind) (state : WaitState) : IsIn next ref full kind state ↔ IsIn store ref full kind state := by
    unfold IsIn
    rw [sessions]
  exact ⟨fun ref kind => (same ref kind _).mpr, fun ref kind => (same ref kind _).mp, by rw [lines],
    fun ref kind is => .inl ((same ref kind _).mp is)⟩

theorem Hands.refl (store : MemoryStore) (full : LockKey) : Hands store store full := .of_same rfl rfl

theorem hands_setMutex (state : Option MutexState) : Hands store (store.setMutex full state) full := .of_same rfl rfl

theorem hands_setPool (pool : Option Pool) : Hands store (store.setPool full pool) full := .of_same rfl rfl

theorem hands_setShared (state : Option Shared) : Hands store (store.setShared full state) full := .of_same rfl rfl

theorem Hands.trans (first : Hands store middle full) (second : Hands middle next full) : Hands store next full := by
  refine ⟨fun ref kind is => second.kept ref kind (first.kept ref kind is),
    fun ref kind is => first.queued ref kind (second.queued ref kind is), second.line.trans first.line, fun ref kind is => ?_⟩
  rcases second.got ref kind is with before | ⟨waits, sole, reads⟩
  · rcases first.got ref kind before with before | ⟨waits, sole, reads⟩
    · exact .inl before
    · refine .inr ⟨waits, fun isSole => (second.line.cons_cons ref).trans (sole isSole), fun isRead => ?_⟩
      have shorter := second.line
      rw [reads isRead] at shorter
      exact List.sublist_nil.mp shorter
  · exact .inr ⟨first.queued ref kind waits, fun isSole => (sole isSole).trans first.line, reads⟩

theorem hands_handTo (there : store.sessions[ref]? = some session) (here : session.full = full)
    (queued : session.state = .queued) (sole : session.kind.isSole = true → (store.lines full).head? = some ref)
    (reads : session.kind = .read → store.lines full = []) : Hands store (store.handTo ref session) full := by
  have moves := moves_handTo there session
  have waits : IsIn store ref full session.kind .queued := ⟨session, there, here, rfl, queued⟩
  -- the line of writers loses the waiter if it is one of them
  have line : (store.handTo ref session).lines full =
      if session.kind = .read then store.lines full else (store.lines full).erase ref := by
    have other := (@beside_handTo store ref session).otherLine
    by_cases isRead : session.kind = .read
    · rw [if_pos isRead] at other ⊢
      rw [other]
    · have left := @setLine_lineOf store session ((store.lineOf session).erase ref)
      simp only [lineOf, if_neg isRead, here] at left
      rw [if_neg isRead]
      simp only [handTo, leave, lineOf, if_neg isRead, here]
      exact left
  refine ⟨fun place kind is => ?_, fun place kind is => ?_, ?_, fun place kind is => ?_⟩
  · rw [moves.isIn]
    split
    · next same =>
      obtain ⟨found, isFound, isHere, isKind, -⟩ := is
      rw [same, there] at isFound
      cases isFound
      exact ⟨isHere, isKind, rfl⟩
    · exact is
  · rw [moves.isIn] at is
    split at is
    · cases is.2.2
    · exact is
  · rw [line]
    split
    · exact List.Sublist.refl _
    · exact List.erase_sublist
  · rw [moves.isIn] at is
    split at is
    · next same =>
      subst same
      obtain ⟨-, rfl, -⟩ := is
      refine .inr ⟨waits, fun isSole => ?_, fun isRead => ?_⟩
      · have notRead : session.kind ≠ .read := by
          intro isRead
          rw [isRead] at isSole
          cases isSole
        obtain ⟨rest, isLine⟩ := List.head?_eq_some_iff.mp (sole isSole)
        rw [line, if_neg notRead, isLine, List.erase_cons_head]
      · rw [line, if_pos isRead]
        exact reads isRead
    · exact .inl is

theorem dispatchMutex_hands (lined : Lined store full) : Hands store (store.dispatchMutex full) full := by
  unfold dispatchMutex
  split
  · exact .refl store full
  cases line : store.lines full with
  | nil => exact .of_same rfl rfl
  | cons head rest =>
    obtain ⟨session, there, here, side, queued⟩ := (lined.line.member head).mp (by rw [line]; exact List.mem_cons_self)
    simp only [there]
    have handed := @hands_handTo (store.setMutex full (some ⟨none, some head⟩)) full head session there here queued
      (fun _ => by
        show (store.lines full).head? = some head
        rw [line]
        rfl)
      (fun isRead => by simp [isRead] at side)
    exact (hands_setMutex _).trans handed

theorem grantFitting_hands (isSemaphore : full.primitive = .semaphore) (rest : List Ref) : ∀ {store : MemoryStore},
    Lined store full → (∀ ref ∈ rest, ref ∈ store.lines full) → rest.Nodup → Hands store (grantFitting full rest store) full := by
  induction rest with
  | nil => exact fun _ _ _ => .refl _ full
  | cons head rest ih =>
    intro store lined members nodup
    obtain ⟨headApart, nodup⟩ := List.nodup_cons.mp nodup
    unfold grantFitting
    cases known : store.pools full with
    | none => exact .refl store full
    | some pool =>
    obtain ⟨session, there, here, -, queued⟩ := (lined.line.member head).mp (members head List.mem_cons_self)
    have kind := WaitKind.of_permits ((lined.family head session there here).trans isSemaphore)
    simp only [there]
    split
    · split
      · have handed := @hands_handTo (store.setPool full (some { pool with
          inUse := pool.inUse + session.weight, reserved := pool.reserved + session.weight })) full head session there here queued
          (fun isSole => by rw [kind] at isSole; cases isSole) (fun isRead => by rw [kind] at isRead; cases isRead)
        have lined_ : Lined (store.reserve full pool head session) full :=
          lined_handTo (lined.setPool isSemaphore _) there here queued
        have reserved : Hands store (store.reserve full pool head session) full := (hands_setPool _).trans handed
        refine reserved.trans (ih lined_ ?_ nodup)
        intro other isMember
        rw [lines_reserve here kind, lined.line.nodup.mem_erase_iff]
        refine ⟨?_, members other (List.mem_cons_of_mem _ isMember)⟩
        rintro rfl
        exact headApart isMember
      · exact ih lined (fun other isMember => members other (List.mem_cons_of_mem _ isMember)) nodup
    · exact .refl store full

theorem dispatchPermits_hands (isSemaphore : full.primitive = .semaphore) (lined : Lined store full) :
    Hands store (store.dispatchPermits full) full := by
  unfold dispatchPermits
  split
  · exact .of_same rfl rfl
  · have served := grantFitting_hands isSemaphore (store.lines full) lined (fun _ => id) lined.line.nodup
    simp only
    split
    · exact served
    · exact served.trans (.of_same rfl rfl)

theorem admitReaders_hands (isShared : full.primitive = .readWrite) (rest : List Ref) : ∀ {store : MemoryStore},
    Lined store full → store.readerLines full = rest → store.lines full = [] → Hands store (admitReaders full rest store) full := by
  induction rest with
  | nil => exact fun _ _ _ => .refl _ full
  | cons head rest ih =>
    intro store lined line nobody
    unfold admitReaders
    cases known : store.shareds full with
    | none => exact .refl store full
    | some state =>
    obtain ⟨session, there, here, side, queued⟩ := (lined.readerLine.member head).mp (by rw [line]; exact List.mem_cons_self)
    have kind : session.kind = .read := of_decide_eq_true side
    simp only [there]
    have handed := @hands_handTo (store.setShared full (some { state with reservedReaders := state.reservedReaders + 1 })) full head
      session there here queued (fun isSole => by rw [kind] at isSole; cases isSole) (fun _ => nobody)
    have lined_ : Lined (store.admitReader full state head session) full :=
      lined_handTo (lined.setShared isShared _) there here queued
    obtain ⟨lines, readerLines⟩ := @admitReader_lines store full head session state here kind
    rw [line, List.erase_cons_head] at readerLines
    have admitted : Hands store (store.admitReader full state head session) full := (hands_setShared _).trans handed
    exact admitted.trans (ih lined_ readerLines (by rw [lines]; exact nobody))

theorem dispatchShared_hands (isShared : full.primitive = .readWrite) (lined : Lined store full) :
    Hands store (store.dispatchShared full) full := by
  unfold dispatchShared
  simp only
  split
  · exact .refl store full
  cases line : store.lines full with
  | cons head rest =>
    simp only
    split
    · exact .refl store full
    obtain ⟨session, there, here, side, queued⟩ := (lined.line.member head).mp (by rw [line]; exact List.mem_cons_self)
    simp only [there]
    have handed := @hands_handTo (store.setShared full (some { (store.shareds full).getD newShared with
      reservedWriter := some head })) full head session there here queued
      (fun _ => by
        show (store.lines full).head? = some head
        rw [line]
        rfl)
      (fun isRead => by simp [isRead] at side)
    exact (hands_setShared _).trans handed
  | nil =>
    simp only
    split
    · exact (hands_setShared _).trans (admitReaders_hands isShared _ (lined.setShared isShared _) rfl line)
    split
    · exact .refl store full
    · exact .of_same rfl rfl

/-- What a call does to the waiters of its key, where it may take the reservation of some. -/
structure Serves (store next : MemoryStore) (full : LockKey) (taken : Ref → Prop) : Prop where
  kept : ∀ ref kind, IsIn store ref full kind .reserved → IsIn next ref full kind .reserved ∨ taken ref
  line : (next.lines full).Sublist (store.lines full) ∨
    ∃ ref, (∀ kind, ¬ IsIn store ref full kind .queued) ∧ next.lines full = store.lines full ++ [ref]
  got : ∀ ref kind, IsIn next ref full kind .reserved → IsIn store ref full kind .reserved ∨
    (kind.isSole = true → (ref :: next.lines full).Sublist (store.lines full) ∨ next.lines full = []) ∧
      (kind = .read → next.lines full = [])

structure Clears (store next : MemoryStore) (full : LockKey) (taken : Ref → Prop) : Prop where
  kept : ∀ ref kind, IsIn store ref full kind .reserved → IsIn next ref full kind .reserved ∨ taken ref
  line : (next.lines full).Sublist (store.lines full)
  fresh : ∀ ref kind, IsIn next ref full kind .reserved → IsIn store ref full kind .reserved

variable {taken : Ref → Prop}

theorem Clears.of_same (sessions : next.sessions = store.sessions) (lines : next.lines full = store.lines full) :
    Clears store next full taken := by
  have same (ref : Ref) (kind : WaitKind) (state : WaitState) : IsIn next ref full kind state ↔ IsIn store ref full kind state := by
    unfold IsIn
    rw [sessions]
  exact ⟨fun ref kind is => .inl ((same ref kind _).mpr is), by rw [lines], fun ref kind => (same ref kind _).mp⟩

theorem Clears.trans (first : Clears store middle full taken) (second : Clears middle next full taken) :
    Clears store next full taken := by
  refine ⟨fun ref kind is => ?_, second.line.trans first.line, fun ref kind is => first.fresh ref kind (second.fresh ref kind is)⟩
  rcases first.kept ref kind is with still | gone
  · exact second.kept ref kind still
  · exact .inr gone

theorem Clears.hands (clears : Clears store middle full taken) (hands : Hands middle next full) : Serves store next full taken := by
  refine ⟨fun ref kind is => ?_, .inl (hands.line.trans clears.line), fun ref kind is => ?_⟩
  · exact (clears.kept ref kind is).imp_left (hands.kept ref kind)
  · rcases hands.got ref kind is with before | ⟨-, sole, reads⟩
    · exact .inl (clears.fresh ref kind before)
    · exact .inr ⟨fun isSole => .inl ((sole isSole).trans clears.line), reads⟩

theorem Clears.serves (clears : Clears store next full taken) : Serves store next full taken := clears.hands (.refl next full)

theorem Serves.of_same (sessions : next.sessions = store.sessions) (lines : next.lines full = store.lines full) :
    Serves store next full taken := (Clears.of_same sessions lines).serves

theorem clears_setState (there : store.sessions[ref]? = some session) (state : WaitState) (after : state ≠ .reserved)
    (takes : session.state = .reserved → taken ref) :
    Clears store (store.setState ref state) full taken := by
  have moves := moves_setState there state
  refine ⟨fun place kind is => ?_, List.Sublist.refl _, fun place kind is => ?_⟩
  · by_cases same : place = ref
    · obtain ⟨found, isFound, -, -, reserved⟩ := is
      rw [same, there] at isFound
      cases isFound
      rw [same]
      exact .inr (takes reserved)
    · refine .inl ?_
      rw [moves.isIn, if_neg same]
      exact is
  · rw [moves.isIn] at is
    split at is
    · exact absurd is.2.2 after
    · exact is

theorem serves_join (there : store.sessions[ref]? = some session) (here : session.full = full) (idle : session.state = .idle) :
    Serves store (store.join ref session) full taken := by
  have moves := moves_join there session
  refine ⟨fun place kind is => .inl ?_, ?_, fun place kind is => .inl ?_⟩
  · rw [moves.isIn_same (by simp [idle])]
    exact is
  · by_cases isRead : session.kind = .read
    · have other := (@beside_join store ref session).otherLine
      rw [if_pos isRead] at other
      rw [other]
      exact .inl (List.Sublist.refl _)
    · have joined := @setLine_lineOf store session (store.lineOf session ++ [ref])
      simp only [lineOf, if_neg isRead, here] at joined
      refine .inr ⟨ref, fun kind waits => ?_, ?_⟩
      · obtain ⟨found, isFound, -, -, queued⟩ := waits
        rw [there] at isFound
        cases isFound
        rw [idle] at queued
        cases queued
      · simp only [join, lineOf, if_neg isRead, here]
        exact joined
  · rw [moves.isIn_same (by simp [idle])] at is
    exact is

theorem queueRefused_serves (waiter : Option Ref) (kind : WaitKind) (weight : Nat) :
    Serves store (store.queueRefused waiter full kind weight).1 full taken := by
  have same : Serves store store full taken := .of_same rfl rfl
  unfold queueRefused
  cases waiter with
  | none => exact same
  | some ref =>
  simp only
  cases there : store.sessions[ref]? with
  | none => exact same
  | some session =>
  simp only
  split
  · next joins =>
    obtain ⟨idle, -, here, -⟩ := joins
    exact serves_join there here idle
  · exact same

theorem serves_pushJoin (here : session.full = full) (idle : session.state = .idle) :
    Serves store ((store.push session).join store.sessions.length session) full taken := by
  have there : (store.push session).sessions[store.sessions.length]? = some session := by simp [push]
  obtain ⟨kept, line, got⟩ := @serves_join (store.push session) full _ session taken there here idle
  have pushed (ref : Ref) (kind : WaitKind) (state : WaitState) (apart : state ≠ .idle) :
      IsIn (store.push session) ref full kind state ↔ IsIn store ref full kind state := by
    rw [push_isIn]
    refine or_iff_left ?_
    rintro ⟨-, -, -, same⟩
    exact apart (same.symm.trans idle)
  refine ⟨fun ref kind is => kept ref kind ((pushed ref kind .reserved (by rintro ⟨⟩)).mpr is), ?_, fun ref kind is => ?_⟩
  · refine line.imp_right ?_
    rintro ⟨ref, fresh, isLine⟩
    exact ⟨ref, fun kind waits => fresh kind ((pushed ref kind .queued (by rintro ⟨⟩)).mpr waits), isLine⟩
  · exact (got ref kind is).imp_left (pushed ref kind .reserved (by rintro ⟨⟩)).mp

/-- A new waiter that has the lock from the start, on a key where nobody waits. -/
theorem serves_reserved (nobody : session.kind = .permits ∨ store.lines full = [])
    (sessions : next.sessions = (store.push session).sessions) (lines : next.lines full = store.lines full) :
    Serves store next full taken := by
  have pushed (ref : Ref) (kind : WaitKind) (state : WaitState) :
      IsIn next ref full kind state ↔ IsIn (store.push session) ref full kind state := by
    unfold IsIn
    rw [sessions]
  refine ⟨fun ref kind is => .inl ?_, .inl (by rw [lines]), fun ref kind is => ?_⟩
  · rw [pushed, push_isIn]
    exact .inl is
  · rw [pushed, push_isIn] at is
    rcases is with before | ⟨-, -, isKind, -⟩
    · exact .inl before
    · refine .inr ?_
      rcases nobody with permits | nobody
      · rw [permits] at isKind
        subst isKind
        exact ⟨nofun, nofun⟩
      · rw [lines]
        exact ⟨fun _ => .inr nobody, fun _ => nobody⟩

def Outright (store : MemoryStore) (full : LockKey) (waiter : Option Ref) (answer : Answer) : Prop :=
  ∀ fence, answer = .granted fence → (∃ ref kind, waiter = some ref ∧ IsIn store ref full kind .reserved) ∨
    (full.primitive ≠ .semaphore → store.lines full = [])

theorem outright_refused (waiter own : Option Ref) (kind : WaitKind) (weight : Nat) :
    Outright store full own (store.queueRefused waiter full kind weight).2 := by
  intro fence granted
  rw [(quiet_queueRefused waiter kind weight).2] at granted
  cases granted

theorem acquire_serves (fine : MutexFine store full) (token : LockToken) (waiter : Option Ref) :
    Serves store (store.acquire full token waiter).1 full
      (fun ref => waiter = some ref ∧ ∃ fence, (store.acquire full token waiter).2 = .granted fence) ∧
      Outright store full waiter (store.acquire full token waiter).2 := by
  unfold acquire
  simp only
  cases reserved : (store.mutexes full).bind (·.reserved) with
  | some holder =>
    simp only
    cases redeems : store.redeeming waiter full .mutex 1 with
    | none => exact ⟨queueRefused_serves .., outright_refused _ _ _ _⟩
    | some own =>
      obtain ⟨isWaiter, session, there, here, kind, isReserved, -⟩ := redeeming_some redeems
      simp only
      split
      · refine ⟨?_, fun _ _ => .inl ⟨own, .mutex, isWaiter, session, there, here, kind, isReserved⟩⟩
        exact (clears_setState there .idle nofun fun _ => ⟨isWaiter, _, rfl⟩).hands (.of_same rfl rfl)
      · exact ⟨queueRefused_serves .., outright_refused _ _ _ _⟩
  | none =>
    simp only
    split
    · exact ⟨queueRefused_serves .., outright_refused _ _ _ _⟩
    · next unheld =>
      refine ⟨.of_same rfl rfl, fun _ _ => .inr fun _ => ?_⟩
      -- a lock with neither holder nor reservation has nobody in line
      by_contra waits
      obtain ⟨state, known⟩ := Option.isSome_iff_exists.mp (fine.waits waits)
      rw [known] at reserved unheld
      rcases fine.busy state known with held | isReserved
      · exact unheld held
      · rw [Option.bind_some] at reserved
        rw [reserved] at isReserved
        cases isReserved

theorem release_serves (isMutex : full.primitive = .mutex) (fine : MutexFine store full) (token : LockToken) :
    Serves store (store.release full token).1 full taken := by
  have same : Serves store store full taken := .of_same rfl rfl
  unfold release
  split
  · next holder reserved _ =>
    split
    · have clears : Clears store (store.setMutex full (some ⟨none, reserved⟩)) full taken := .of_same rfl rfl
      exact clears.hands (dispatchMutex_hands (fine.lined.setMutex isMutex _))
    · exact same
  · exact same

theorem waiter_serves (fine : MutexFine store full) : Serves store (store.waiter full) full taken := by
  unfold waiter
  simp only
  split
  · exact @serves_pushJoin store full ⟨full, .mutex, 1, .idle, false, false⟩ taken rfl rfl
  · next free =>
    refine @serves_reserved store _ full ⟨full, .mutex, 1, .reserved, false, false⟩ taken (.inr ?_) rfl rfl
    by_contra waits
    obtain ⟨state, known⟩ := Option.isSome_iff_exists.mp (fine.waits waits)
    rw [known] at free
    simp only [Option.any_some, Bool.or_eq_true, not_or] at free
    rcases fine.busy state known with held | isReserved
    · exact free.1 held
    · exact free.2 isReserved

theorem acquirePermits_serves (isSemaphore : full.primitive = .semaphore) (token : LockToken) (limit weight : Nat)
    (waiter : Option Ref) : Serves store (store.acquirePermits full token limit weight waiter).1 full
      (fun ref => waiter = some ref ∧ ∃ fence, (store.acquirePermits full token limit weight waiter).2 = .granted fence) ∧
      Outright store full waiter (store.acquirePermits full token limit weight waiter).2 := by
  refine ⟨?_, fun _ _ => .inr fun apart => absurd isSemaphore apart⟩
  unfold acquirePermits
  split
  · exact .of_same rfl rfl
  split
  · exact .of_same rfl rfl
  split
  · exact .of_same rfl rfl
  simp only
  split
  · next own redeems =>
    have redeemed : store.redeeming waiter full .permits weight = some own := by
      split at redeems
      · exact redeems
      · cases redeems
    obtain ⟨isWaiter, session, there, -⟩ := redeeming_some redeemed
    exact (clears_setState there .idle nofun fun _ => ⟨isWaiter, _, rfl⟩).hands (.of_same rfl rfl)
  · split
    · exact queueRefused_serves ..
    · exact .of_same rfl rfl

theorem releasePermits_serves (isSemaphore : full.primitive = .semaphore) (fine : PoolFine store full) (token : LockToken) :
    Serves store (store.releasePermits full token).1 full taken := by
  have same : Serves store store full taken := .of_same rfl rfl
  unfold releasePermits
  cases store.pools full with
  | none => exact same
  | some pool =>
  simp only
  cases pool.holders.find? (·.owner = token) with
  | none => exact same
  | some hold =>
  simp only
  have clears : Clears store (store.setPool full (some { pool with
      holders := pool.holders.filter (·.owner ≠ token), inUse := pool.inUse - hold.weight })) full taken := .of_same rfl rfl
  exact clears.hands (dispatchPermits_hands isSemaphore (fine.lined.setPool isSemaphore _))

theorem waiterPermits_serves (weight : Nat) : Serves store (store.waiterPermits full weight) full taken := by
  unfold waiterPermits
  cases store.pools full with
  | none => exact @serves_reserved store _ full ⟨full, .permits, weight, .idle, false, false⟩ taken (.inl rfl) rfl rfl
  | some pool =>
  simp only
  split
  · exact @serves_reserved store _ full ⟨full, .permits, weight, .reserved, false, false⟩ taken (.inl rfl) rfl rfl
  · exact @serves_pushJoin store full ⟨full, .permits, weight, .idle, false, false⟩ taken rfl rfl

theorem SharedFine.nobody (fine : SharedFine store full) {mode : SharedMode} (free : ¬ store.sharedBlocked full mode = true) :
    store.lines full = [] := by
  obtain ⟨-, reads, writes⟩ := fine.free free
  cases mode with
  | read => exact reads rfl
  | write =>
    by_contra waits
    have isSome := fine.waits waits
    rw [writes rfl] at isSome
    cases isSome

theorem acquireShared_serves (fine : SharedFine store full) (token : LockToken) (mode : SharedMode) (waiter : Option Ref) :
    Serves store (store.acquireShared full token mode waiter).1 full
      (fun ref => waiter = some ref ∧ ∃ fence, (store.acquireShared full token mode waiter).2 = .granted fence) ∧
      Outright store full waiter (store.acquireShared full token mode waiter).2 := by
  unfold acquireShared
  simp only
  split
  · next own _ redeems =>
    obtain ⟨isWaiter, session, there, here, kind, isReserved, -⟩ := redeeming_some redeems
    refine ⟨?_, fun _ _ => .inl ⟨_, mode.kind, isWaiter, session, there, here, kind, isReserved⟩⟩
    exact (clears_setState there .idle nofun fun _ => ⟨isWaiter, _, rfl⟩).hands (.of_same rfl rfl)
  · split
    · exact ⟨queueRefused_serves .., outright_refused _ _ _ _⟩
    · next free => exact ⟨.of_same rfl rfl, fun _ _ => .inr fun _ => fine.nobody free⟩

theorem releaseShared_serves (isShared : full.primitive = .readWrite) (fine : SharedFine store full) (token : LockToken) :
    Serves store (store.releaseShared full token).1 full taken := by
  have same : Serves store store full taken := .of_same rfl rfl
  have left (state : Shared) : Serves store ((store.setShared full (some state)).dispatchShared full) full taken := by
    have clears : Clears store (store.setShared full (some state)) full taken := .of_same rfl rfl
    exact clears.hands (dispatchShared_hands isShared (fine.lined.setShared isShared _))
  unfold releaseShared
  cases store.shareds full with
  | none => exact same
  | some state =>
  simp only
  split
  · exact left _
  split
  · exact left _
  · exact same

theorem waiterShared_serves (fine : SharedFine store full) (mode : SharedMode) :
    Serves store (store.waiterShared full mode) full taken := by
  unfold waiterShared
  simp only
  split
  · exact @serves_pushJoin store full ⟨full, mode.kind, 1, .idle, false, false⟩ taken rfl rfl
  · next free =>
    exact @serves_reserved store _ full ⟨full, mode.kind, 1, .reserved, false, false⟩ taken (.inr (fine.nobody free)) rfl rfl

theorem clears_change (there : store.sessions[ref]? = some session) {change : Session → Session}
    (same : (change session).full = session.full ∧ (change session).kind = session.kind ∧
      (change session).state = session.state) : Clears store (store.change ref change) full taken := by
  have moves := moves_change there change
  have still (place : Ref) (kind : WaitKind) (state : WaitState) :
      IsIn (store.change ref change) place full kind state ↔ IsIn store place full kind state :=
    moves.isIn_same (by rw [same.1, same.2.1, same.2.2]) place
  exact ⟨fun place kind is => .inl ((still place kind _).mpr is), List.Sublist.refl _, fun place kind => (still place kind _).mp⟩

theorem clears_leave (there : store.sessions[ref]? = some session) (queued : session.state = .queued)
    (here : session.full = full) {old : Session} (likeness : old.full = session.full ∧ old.kind = session.kind) :
    Clears store (store.leave ref old) full taken := by
  have moves := moves_leave there old
  refine ⟨fun place kind is => .inl ?_, ?_, fun place kind is => ?_⟩
  · rw [moves.isIn_same (by simp [queued])]
    exact is
  · by_cases isRead : old.kind = .read
    · have other := (@beside_leave store ref old).otherLine
      rw [if_pos isRead] at other
      rw [other]
    · have left := @setLine_lineOf store old ((store.lineOf old).erase ref)
      simp only [lineOf, if_neg isRead, likeness.1, here] at left
      simp only [leave, lineOf, if_neg isRead, likeness.1, here]
      have isLine : ((store.setLine old ((store.lines full).erase ref)).setState ref .idle).lines full =
          (store.lines full).erase ref := left
      rw [isLine]
      exact List.erase_sublist
  · rw [moves.isIn_same (by simp [queued])] at is
    exact is

theorem close_serves (fine : KeyFine store session.full) (there : store.sessions[ref]? = some session) :
    Serves store (store.close ref) session.full (· = ref) := by
  have isFamily := fine.lined.family ref session there rfl
  have dispatches {mid : MemoryStore} (lined : Lined mid session.full) : Hands mid (mid.dispatch session) session.full := by
    unfold dispatch
    cases kind : session.kind with
    | mutex => exact dispatchMutex_hands lined
    | permits => exact dispatchPermits_hands (by rw [← isFamily, kind]; rfl) lined
    | read => exact dispatchShared_hands (by rw [← isFamily, kind]; rfl) lined
    | write => exact dispatchShared_hands (by rw [← isFamily, kind]; rfl) lined
  unfold close
  simp only [there]
  split
  · exact .of_same rfl rfl
  have moves := moves_change there fun session => { session with closed := true, asleep := false }
  have lined_ := @lined_change store session.full ref session fine.lined there rfl
    (fun session => { session with closed := true, asleep := false }) rfl rfl nofun .rfl
  have closed := @clears_change store session.full ref session (· = ref) there
    (fun session => { session with closed := true, asleep := false }) ⟨rfl, rfl, rfl⟩
  split
  · exact closed.serves
  · next queued =>
    have left := @lined_leave _ session.full ref session _ lined_ moves.at_self rfl queued rfl ⟨rfl, rfl⟩
    exact (closed.trans (clears_leave moves.at_self queued rfl ⟨rfl, rfl⟩)).hands (dispatches left)
  · next reserved =>
    obtain ⟨sessions, lines, readerLines⟩ := @unreserve_lines
      (store.change ref fun session => { session with closed := true, asleep := false }) ref session
    have idle := @clears_setState _ session.full ref _ (· = ref) moves.at_self .idle nofun fun _ => rfl
    refine (closed.trans (idle.trans (.of_same sessions (by rw [lines]; rfl)))).hands (dispatches ?_)
    have fine_ := fine.of_alike (@alike_change store session.full ref session there
      (fun session => { session with closed := true, asleep := false }) ⟨rfl, rfl, rfl, rfl⟩) lined_
    cases family : session.full.primitive with
    | mutex =>
      have kind := WaitKind.of_mutex (isFamily.trans family)
      exact (mutexLoose_unreserve family (fine_.mutex family) moves.at_self rfl kind reserved ⟨rfl, rfl⟩).lined
    | semaphore =>
      have kind := WaitKind.of_permits (isFamily.trans family)
      exact (poolLoose_unreserve family (fine_.permits family) moves.at_self rfl kind reserved ⟨rfl, rfl, rfl⟩).lined
    | readWrite =>
      exact (sharedLoose_unreserve family (fine_.shared family) moves.at_self rfl reserved ⟨rfl, rfl⟩).lined

end MemoryStore

end Arki.Lock
