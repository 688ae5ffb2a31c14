import Arki.Lock.MemoryPermits

/-! Read/write locks of the in-process store: writers exclude everybody, and readers wait only behind a writer. -/

set_option autoImplicit false

namespace Arki.Lock

theorem WaitKind.of_shared {kind : WaitKind} (same : kind.primitive = .readWrite) : kind = .read ∨ kind = .write := by
  cases kind with
  | read => exact .inl rfl
  | write => exact .inr rfl
  | _ => cases same

namespace MemoryStore

variable {store next : MemoryStore} {full : LockKey} {ref : Ref} {session : Session} {state : Shared}

theorem setReader_ne_nil (readers : List Hold) (hold : Hold) : setReader readers hold ≠ [] := by
  unfold setReader
  split
  · next known =>
    intro empty
    rw [List.map_eq_nil_iff] at empty
    rw [empty] at known
    cases known
  · simp

structure Exclusive (state : Shared) : Prop where
  writer : state.writer = none ∨ state.reservedWriter = none
  readers : state.isWritten = true → state.isRead = false

/-- A read/write key in the midst of a call: a waiter that could have it may still wait. -/
structure SharedLoose (store : MemoryStore) (full : LockKey) : Prop where
  lined : Lined store full
  readers : ∀ state, store.shareds full = some state → state.reservedReaders = Heap.total (reservedReader full) store.sessions
  unshared : store.shareds full = none → Heap.total (reservedReader full) store.sessions = 0
  reserved : ∀ ref : Ref, (store.shareds full).bind (·.reservedWriter) = some ref ↔ IsIn store ref full .write .reserved
  single : ∀ state, store.shareds full = some state → Exclusive state

structure SharedFine (store : MemoryStore) (full : LockKey) : Prop extends SharedLoose store full where
  busy : ∀ state, store.shareds full = some state → state.isRead = true ∨ state.isWritten = true
  waits : store.lines full ≠ [] → (store.shareds full).isSome = true
  waitsRead : store.readerLines full ≠ [] → (store.shareds full).any Shared.isWritten = true ∨ store.lines full ≠ []
  watched : store.watchers full ≠ [] → (store.shareds full).isSome = true

theorem SharedLoose.of_alike (loose : SharedLoose store full) (alike : Alike full store next) (lined : Lined next full) :
    SharedLoose next full := by
  refine ⟨lined, ?_, ?_, fun ref => ?_, ?_⟩
  · rw [alike.shareds, alike.readers]
    exact loose.readers
  · rw [alike.shareds, alike.readers]
    exact loose.unshared
  · rw [alike.shareds, alike.isIn]
    exact loose.reserved ref
  · rw [alike.shareds]
    exact loose.single

theorem SharedFine.of_alike (fine : SharedFine store full) (alike : Alike full store next) (lined : Lined next full) :
    SharedFine next full := by
  refine ⟨fine.toSharedLoose.of_alike alike lined, ?_, ?_, ?_, ?_⟩
  · rw [alike.shareds]
    exact fine.busy
  · rw [alike.lines, alike.shareds]
    exact fine.waits
  · rw [alike.readerLines, alike.lines, alike.shareds]
    exact fine.waitsRead
  · rw [alike.watchers, alike.shareds]
    exact fine.watched

theorem setShared_alone (isShared : full.primitive = .readWrite) (alone : Alone store full) (state : Option Shared) :
    Alone (store.setShared full state) full :=
  ⟨alone.mutexes, alone.pools, fun apart => absurd isShared apart⟩

theorem Lined.setShared (lined : Lined store full) (isShared : full.primitive = .readWrite) (state : Option Shared) :
    Lined (store.setShared full state) full :=
  lined.of_tables rfl rfl rfl (setShared_alone isShared lined.alone state)

theorem SharedLoose.writer (loose : SharedLoose store full) (isShared : full.primitive = .readWrite)
    (member : ref ∈ store.lines full) : ∃ session : Session, store.sessions[ref]? = some session ∧ session.full = full ∧
      session.kind = .write ∧ session.state = .queued := by
  obtain ⟨session, there, here, side, queued⟩ := (loose.lined.line.member ref).mp member
  rcases WaitKind.of_shared ((loose.lined.family ref session there here).trans isShared) with kind | kind
  · rw [kind] at side
    cases side
  · exact ⟨session, there, here, kind, queued⟩

theorem SharedLoose.reader (loose : SharedLoose store full) (member : ref ∈ store.readerLines full) :
    ∃ session : Session, store.sessions[ref]? = some session ∧ session.full = full ∧ session.kind = .read ∧
      session.state = .queued := by
  obtain ⟨session, there, here, side, queued⟩ := (loose.lined.readerLine.member ref).mp member
  exact ⟨session, there, here, of_decide_eq_true side, queued⟩

theorem sharedFine_set (isShared : full.primitive = .readWrite) (lined : Lined store full)
    (readers : state.reservedReaders = Heap.total (reservedReader full) store.sessions)
    (reserved : ∀ ref : Ref, state.reservedWriter = some ref ↔ IsIn store ref full .write .reserved) (single : Exclusive state)
    (busy : state.isRead = true ∨ state.isWritten = true)
    (waitsRead : store.readerLines full ≠ [] → state.isWritten = true ∨ store.lines full ≠ []) (fence : Nat) :
    SharedFine { store.setShared full (some state) with lastFence := fence } full := by
  have shared : (store.setShared full (some state)).shareds full = some state := Function.update_self ..
  have isSome : ((store.setShared full (some state)).shareds full).isSome = true := by rw [shared]; rfl
  have alone := setShared_alone isShared lined.alone (some state)
  refine ⟨⟨?_, ?_, ?_, fun ref => ?_, ?_⟩, ?_, fun _ => isSome, ?_, fun _ => isSome⟩
  · exact (lined.setShared isShared (some state)).of_tables rfl rfl rfl ⟨alone.mutexes, alone.pools, alone.shareds⟩
  · intro other isOther
    cases shared.symm.trans isOther
    exact readers
  · intro unknown
    cases shared.symm.trans unknown
  · refine Iff.trans ?_ (reserved ref)
    show ((store.setShared full (some state)).shareds full).bind (·.reservedWriter) = some ref ↔ _
    rw [shared]
    exact .rfl
  · intro other isOther
    cases shared.symm.trans isOther
    exact single
  · intro other isOther
    cases shared.symm.trans isOther
    exact busy
  · intro waits
    show ((store.setShared full (some state)).shareds full).any Shared.isWritten = true ∨ _
    rw [shared]
    exact waitsRead waits

/-! ### Handing the key over -/

def admitReader (store : MemoryStore) (full : LockKey) (state : Shared) (ref : Ref) (session : Session) : MemoryStore :=
  (store.setShared full (some { state with reservedReaders := state.reservedReaders + 1 })).handTo ref session

theorem moves_admitReader (there : store.sessions[ref]? = some session) (full : LockKey) (state : Shared) :
    Moves store (store.admitReader full state ref session) ref session { session with state := .reserved, asleep := false } := by
  have moves := @moves_handTo (store.setShared full (some { state with reservedReaders := state.reservedReaders + 1 })) ref
    session there session
  exact ⟨there, moves.lookup, moves.total⟩

theorem admitReader_shareds (full : LockKey) (state : Shared) (ref : Ref) (session : Session) :
    (store.admitReader full state ref session).shareds full = some { state with reservedReaders := state.reservedReaders + 1 } := by
  rw [admitReader, beside_handTo.shareds]
  exact Function.update_self ..

theorem admitReader_lines (here : session.full = full) (kind : session.kind = .read) :
    (store.admitReader full state ref session).lines = store.lines ∧
      (store.admitReader full state ref session).readerLines full = (store.readerLines full).erase ref := by
  have beside := @beside_handTo (store.setShared full (some { state with reservedReaders := state.reservedReaders + 1 })) ref session
  have line := @setLine_lineOf (store.setShared full (some { state with reservedReaders := state.reservedReaders + 1 })) session
    ((store.readerLines full).erase ref)
  have other := beside.otherLine
  rw [if_pos kind] at other
  refine ⟨other, ?_⟩
  simp only [lineOf, if_pos kind, here] at line
  simp only [admitReader, handTo, leave, lineOf, if_pos kind, here]
  exact line

theorem admitReader_loose (isShared : full.primitive = .readWrite) (loose : SharedLoose store full)
    (known : store.shareds full = some state) (there : store.sessions[ref]? = some session) (here : session.full = full)
    (kind : session.kind = .read) (queued : session.state = .queued) (unwritten : state.isWritten = false) :
    SharedLoose (store.admitReader full state ref session) full := by
  have moves := moves_admitReader there full state
  have shareds := @admitReader_shareds store full state ref session
  have lined : Lined (store.admitReader full state ref session) full :=
    lined_handTo (loose.lined.setShared isShared _) there here queued
  have total := moves.total (reservedReader full)
  have notYet := @reservedReader_out full session (by rw [queued]; exact nofun)
  have now := @reservedReader_reserved full { session with state := .reserved, asleep := false } here kind rfl
  rw [notYet, now] at total
  have readers := loose.readers state known
  refine ⟨lined, ?_, ?_, fun other => ?_, ?_⟩
  · intro found isShared_
    cases shareds.symm.trans isShared_
    simp only at total ⊢
    omega
  · intro unknown
    cases shareds.symm.trans unknown
  · have before := loose.reserved other
    rw [known] at before
    rw [shareds, moves.isIn_same (by simp [kind])]
    exact before
  · intro found isShared_
    cases shareds.symm.trans isShared_
    exact ⟨(loose.single state known).writer, fun isWritten => absurd unwritten (by rw [Bool.not_eq_false]; exact isWritten)⟩

theorem admitReaders_loose (isShared : full.primitive = .readWrite) (rest : List Ref) :
    ∀ {store : MemoryStore} {state : Shared}, SharedLoose store full → store.readerLines full = rest →
      store.shareds full = some state → state.isWritten = false →
      SharedLoose (admitReaders full rest store) full ∧ (admitReaders full rest store).readerLines full = [] ∧
        (admitReaders full rest store).lines = store.lines ∧
        ∃ last, (admitReaders full rest store).shareds full = some last ∧ last.isWritten = false ∧
          (state.isRead = true ∨ rest ≠ [] → last.isRead = true) := by
  induction rest with
  | nil =>
    intro store state loose line known unwritten
    exact ⟨loose, line, rfl, state, known, unwritten, fun reads => reads.resolve_right fun apart => apart rfl⟩
  | cons head rest ih =>
    intro store state loose line known unwritten
    obtain ⟨session, there, here, kind, queued⟩ := loose.reader (by rw [line]; exact List.mem_cons_self)
    have loose_ := admitReader_loose isShared loose known there here kind queued unwritten
    obtain ⟨lines, readerLines⟩ := @admitReader_lines store full head session state here kind
    rw [line, List.erase_cons_head] at readerLines
    obtain ⟨served, empty, still, last, isLast, stays, reads⟩ := ih loose_ readerLines (admitReader_shareds ..) unwritten
    unfold admitReaders
    simp only [known, there]
    refine ⟨served, empty, still.trans lines, last, isLast, stays, fun _ => reads (.inl ?_)⟩
    simp [Shared.isRead]

theorem SharedLoose.unreserved (loose : SharedLoose store full) (unwritten : ¬ (store.shareds full).any Shared.isWritten = true)
    (ref : Ref) : ¬ IsIn store ref full .write .reserved := by
  intro isReserved
  obtain ⟨state, known, reserved⟩ := Option.bind_eq_some_iff.mp ((loose.reserved ref).mpr isReserved)
  rw [known] at unwritten
  apply unwritten
  simp [Shared.isWritten, reserved]

theorem SharedLoose.getD (loose : SharedLoose store full) (unwritten : ¬ (store.shareds full).any Shared.isWritten = true) :
    ((store.shareds full).getD newShared).isWritten = false ∧
      ((store.shareds full).getD newShared).reservedReaders = Heap.total (reservedReader full) store.sessions ∧
      ((store.shareds full).getD newShared).isRead = (store.shareds full).any Shared.isRead := by
  cases known : store.shareds full with
  | none => exact ⟨rfl, (loose.unshared known).symm, rfl⟩
  | some state =>
    rw [known] at unwritten
    exact ⟨by simpa using unwritten, loose.readers state known, rfl⟩

theorem unwritten_iff : state.isWritten = false ↔ state.writer = none ∧ state.reservedWriter = none := by
  simp [Shared.isWritten]

theorem dispatchShared_fine (isShared : full.primitive = .readWrite) (loose : SharedLoose store full) :
    SharedFine (store.dispatchShared full) full := by
  unfold dispatchShared
  simp only
  split
  · next written =>
    obtain ⟨state, known, isWritten⟩ := Option.any_eq_true _ _ |>.mp written
    have isSome : (store.shareds full).isSome = true := by rw [known]; rfl
    refine ⟨loose, fun other isOther => ?_, fun _ => isSome, fun _ => .inl written, fun _ => isSome⟩
    cases known.symm.trans isOther
    exact .inr isWritten
  next unwritten =>
  obtain ⟨free, count, reads⟩ := loose.getD unwritten
  cases line : store.lines full with
  | cons head rest =>
    simp only
    split
    · next read =>
      obtain ⟨state, known, isRead⟩ := Option.any_eq_true _ _ |>.mp read
      have isSome : (store.shareds full).isSome = true := by rw [known]; rfl
      refine ⟨loose, fun other isOther => ?_, fun _ => isSome, fun _ => .inr ?_, fun _ => isSome⟩
      · cases known.symm.trans isOther
        exact .inl isRead
      · rw [line]
        exact List.cons_ne_nil _ _
    next unread =>
    have member : head ∈ store.lines full := by
      rw [line]
      exact List.mem_cons_self
    obtain ⟨session, there, here, kind, queued⟩ := loose.writer isShared member
    simp only [there]
    generalize (store.shareds full).getD newShared = target at free count reads
    have state : ((store.setShared full (some { target with reservedWriter := some head })).handTo head session).shareds full =
        some { target with reservedWriter := some head } := by
      rw [beside_handTo.shareds]
      exact Function.update_self ..
    have isSome : (((store.setShared full (some { target with reservedWriter := some head })).handTo head session).shareds
        full).isSome = true := by
      rw [state]
      rfl
    have moves := @moves_handTo (store.setShared full (some { target with reservedWriter := some head })) head session there session
    have lined := lined_handTo (loose.lined.setShared isShared (some { target with reservedWriter := some head })) there here queued
    have total := moves.total (reservedReader full)
    have before := @reservedReader_writes full session (by rw [kind]; exact nofun)
    have after := @reservedReader_writes full { session with state := .reserved, asleep := false } (by simp [kind])
    rw [before, after] at total
    refine ⟨⟨lined, ?_, ?_, fun ref => ?_, ?_⟩, ?_, fun _ => isSome, fun _ => .inl ?_, fun _ => isSome⟩
    · intro other isOther
      cases state.symm.trans isOther
      exact count.trans total.symm
    · intro unknown
      cases state.symm.trans unknown
    · rw [state, moves.isIn]
      simp only [Option.bind_some]
      split
      · next same =>
        subst same
        simp [here, kind]
      · next apart =>
        have absent : ¬ IsIn (store.setShared full (some { target with reservedWriter := some head })) ref full .write .reserved :=
          loose.unreserved unwritten ref
        simp [absent, Ne.symm apart]
    · intro other isOther
      cases state.symm.trans isOther
      refine ⟨.inl (unwritten_iff.mp free).1, fun _ => ?_⟩
      rw [Bool.not_eq_true] at unread
      exact reads.trans unread
    · intro other isOther
      cases state.symm.trans isOther
      exact .inr (by simp [Shared.isWritten])
    · rw [state]
      simp [Shared.isWritten]
  | nil =>
    simp only
    split
    · next waiting =>
      -- no writer waits, so every queued reader comes in
      have known : (store.setShared full (some ((store.shareds full).getD newShared))).shareds full =
          some ((store.shareds full).getD newShared) := Function.update_self ..
      have loose_ : SharedLoose (store.setShared full (some ((store.shareds full).getD newShared))) full := by
        refine ⟨loose.lined.setShared isShared _, ?_, ?_, fun ref => ?_, ?_⟩
        · intro other isOther
          cases known.symm.trans isOther
          exact count
        · intro unknown
          cases known.symm.trans unknown
        · have absent := loose.unreserved unwritten ref
          refine ⟨fun isReserved => ?_, fun isReserved => absurd isReserved absent⟩
          rw [known, Option.bind_some, (unwritten_iff.mp free).2] at isReserved
          cases isReserved
        · intro other isOther
          cases known.symm.trans isOther
          exact ⟨.inl (unwritten_iff.mp free).1, fun isWritten => absurd free (by rw [Bool.not_eq_false]; exact isWritten)⟩
      obtain ⟨served, empty, still, last, isLast, stays, isRead⟩ := admitReaders_loose isShared _ loose_ rfl known free
      have isSome : ((admitReaders full (store.readerLines full)
          (store.setShared full (some ((store.shareds full).getD newShared)))).shareds full).isSome = true :=
        Option.isSome_iff_exists.mpr ⟨last, isLast⟩
      refine ⟨served, fun other isOther => ?_, fun _ => isSome, fun waits => absurd empty waits, fun _ => isSome⟩
      cases isLast.symm.trans isOther
      exact .inl (isRead (.inr waiting))
    · next nobody =>
      rw [ne_eq, not_not] at nobody
      split
      · next read =>
        obtain ⟨state, known, isRead⟩ := Option.any_eq_true _ _ |>.mp read
        have isSome : (store.shareds full).isSome = true := by rw [known]; rfl
        refine ⟨loose, fun other isOther => ?_, fun _ => isSome, fun waits => absurd nobody waits, fun _ => isSome⟩
        cases known.symm.trans isOther
        exact .inl isRead
      · next unread =>
        have shared : ((store.setShared full none).wakeWatchers full).shareds full = none := Function.update_self ..
        have watchers : ((store.setShared full none).wakeWatchers full).watchers full = [] := Function.update_self ..
        have alone := setShared_alone isShared loose.lined.alone none
        refine ⟨⟨?_, ?_, ?_, fun ref => ?_, ?_⟩, ?_, ?_, ?_, ?_⟩
        · exact loose.lined.of_tables rfl rfl rfl ⟨alone.mutexes, alone.pools, alone.shareds⟩
        · intro other isOther
          cases shared.symm.trans isOther
        · intro _
          show Heap.total (reservedReader full) store.sessions = 0
          -- readers with a reservation would keep the key read
          have notRead := reads
          rw [Bool.not_eq_true] at unread
          rw [unread] at notRead
          simp only [Shared.isRead, Bool.or_eq_false_iff, decide_eq_false_iff_not] at notRead
          omega
        · have absent := loose.unreserved unwritten ref
          refine ⟨fun isReserved => ?_, fun isReserved => absurd isReserved absent⟩
          rw [shared] at isReserved
          cases isReserved
        · intro other isOther
          cases shared.symm.trans isOther
        · intro other isOther
          cases shared.symm.trans isOther
        · intro waits
          exact absurd line waits
        · intro waits
          exact absurd nobody waits
        · intro watched
          exact absurd watchers watched

/-! ### The calls -/

theorem SharedMode.kind_primitive (mode : SharedMode) : mode.kind.primitive = .readWrite := by
  cases mode <;> rfl

/-- A refused side is one that somebody has, or a read behind a waiting writer. -/
theorem SharedFine.blocked (fine : SharedFine store full) {mode : SharedMode} (blocked : store.sharedBlocked full mode = true) :
    (store.shareds full).isSome = true ∧
      (mode = .read → (store.shareds full).any Shared.isWritten = true ∨ store.lines full ≠ []) := by
  unfold sharedBlocked at blocked
  simp only [Bool.or_eq_true] at blocked
  rcases blocked with written | behind
  · obtain ⟨state, known, -⟩ := Option.any_eq_true _ _ |>.mp written
    exact ⟨by rw [known]; rfl, fun _ => .inl written⟩
  · cases mode with
    | read =>
      have waits := of_decide_eq_true behind
      exact ⟨fine.waits waits, fun _ => .inr waits⟩
    | write =>
      obtain ⟨state, known, -⟩ := Option.any_eq_true _ _ |>.mp behind
      exact ⟨by rw [known]; rfl, nofun⟩

theorem joinShared_fine (fine : SharedFine store full) (there : store.sessions[ref]? = some session) (here : session.full = full)
    (idle : session.state = .idle) {mode : SharedMode} (kind : session.kind = mode.kind)
    (blocked : store.sharedBlocked full mode = true) : SharedFine (store.join ref session) full := by
  have shareds : (store.join ref session).shareds = store.shareds := beside_join.shareds
  have moves := moves_join there session
  have readers := moves.total (reservedReader full)
  have before := @reservedReader_out full session (by rw [idle]; exact nofun)
  have after := @reservedReader_out full { session with state := .queued } nofun
  rw [before, after] at readers
  have still : Heap.total (reservedReader full) (store.join ref session).sessions = Heap.total (reservedReader full) store.sessions := by
    omega
  obtain ⟨isSome, behind⟩ := fine.blocked blocked
  have beside := @beside_join store ref session
  refine ⟨⟨lined_join fine.lined there here idle, ?_, ?_, fun other => ?_, ?_⟩, ?_, fun _ => ?_, fun waits => ?_, fun _ => ?_⟩
  · rw [shareds, still]
    exact fine.readers
  · rw [shareds, still]
    exact fine.unshared
  · rw [shareds, moves.isIn_same (by simp [idle])]
    exact fine.reserved other
  · rw [shareds]
    exact fine.single
  · rw [shareds]
    exact fine.busy
  · rw [shareds]
    exact isSome
  · rw [shareds]
    have otherLine := beside.otherLine
    cases mode with
    | read =>
      have reads : session.kind = .read := kind
      rw [if_pos reads] at otherLine
      rw [otherLine]
      exact behind rfl
    | write =>
      -- the new writer waits itself
      have writes : session.kind ≠ .read := by
        rw [kind]
        exact nofun
      have joined := @setLine_lineOf store session (store.lineOf session ++ [ref])
      simp only [lineOf, if_neg writes, here] at joined
      refine .inr ?_
      simp only [join, lineOf, if_neg writes, here, setState, change]
      rw [joined]
      simp
  · rw [shareds]
    exact isSome

theorem queueRefused_shared (fine : SharedFine store full) {mode : SharedMode} (blocked : store.sharedBlocked full mode = true)
    (waiter : Option Ref) : SharedFine (store.queueRefused waiter full mode.kind 1).1 full := by
  unfold queueRefused
  cases waiter with
  | none => exact fine
  | some ref =>
  simp only
  cases there : store.sessions[ref]? with
  | none => exact fine
  | some session =>
  simp only
  split
  · next joins =>
    obtain ⟨idle, -, here, kind, -⟩ := joins
    exact joinShared_fine fine there here idle kind blocked
  · exact fine

theorem SharedFine.free (fine : SharedFine store full) {mode : SharedMode} (free : ¬ store.sharedBlocked full mode = true) :
    ¬ (store.shareds full).any Shared.isWritten = true ∧ (mode = .read → store.lines full = []) ∧
      (mode = .write → store.shareds full = none) := by
  unfold sharedBlocked at free
  simp only [Bool.or_eq_true, not_or] at free
  refine ⟨free.1, ?_, ?_⟩
  · rintro rfl
    by_contra waits
    exact free.2 (decide_eq_true waits)
  · rintro rfl
    cases known : store.shareds full with
    | none => rfl
    | some state =>
      rw [known] at free
      rcases fine.busy state known with isRead | isWritten
      · exact absurd isRead free.2
      · exact absurd isWritten free.1

theorem exclusive_reader (unwritten : state.isWritten = false) (readers : List Hold) (reserved : Nat) :
    Exclusive { state with readers := readers, reservedReaders := reserved } :=
  ⟨.inl (unwritten_iff.mp unwritten).1, fun isWritten => absurd unwritten (by rw [Bool.not_eq_false]; exact isWritten)⟩

theorem SharedLoose.reserved_none (loose : SharedLoose store full) (unwritten : ¬ (store.shareds full).any Shared.isWritten = true)
    (none_ : state.reservedWriter = none) (ref : Ref) :
    state.reservedWriter = some ref ↔ IsIn store ref full .write .reserved := by
  rw [none_]
  exact ⟨nofun, fun isReserved => absurd isReserved (loose.unreserved unwritten ref)⟩

theorem isRead_setReader (readers : List Hold) (hold : Hold) (reserved : Nat) :
    ({ state with readers := setReader readers hold, reservedReaders := reserved } : Shared).isRead = true := by
  simp [Shared.isRead, setReader_ne_nil]

theorem acquireShared_fine (isShared : full.primitive = .readWrite) (fine : SharedFine store full) (token : LockToken)
    (mode : SharedMode) (waiter : Option Ref) : SharedFine (store.acquireShared full token mode waiter).1 full := by
  have refused (held : Shared)
      (reads : mode = .read → held = { (store.shareds full).getD newShared with
        readers := setReader ((store.shareds full).getD newShared).readers ⟨token, store.lastFence + 1⟩ })
      (writes : mode = .write → held = { (store.shareds full).getD newShared with
        writer := some ⟨token, store.lastFence + 1⟩ }) :
      SharedFine (if store.sharedBlocked full mode then store.queueRefused waiter full mode.kind 1
        else ({ store.setShared full (some held) with lastFence := store.lastFence + 1 },
          .granted (store.lastFence + 1))).1 full := by
    split
    · next blocked => exact queueRefused_shared fine blocked waiter
    · next free =>
      obtain ⟨unwritten, nobody, unread⟩ := fine.free free
      obtain ⟨isFree, count, -⟩ := fine.getD unwritten
      cases mode with
      | read =>
        rw [reads rfl]
        generalize (store.shareds full).getD newShared = target at isFree count
        refine @sharedFine_set store full { target with readers := setReader target.readers ⟨token, store.lastFence + 1⟩ } isShared
          fine.lined count ?_ (exclusive_reader isFree _ _) (.inl (isRead_setReader _ _ _)) ?_ _
        · exact fine.reserved_none unwritten (unwritten_iff.mp isFree).2
        · intro waits
          have behind := fine.waitsRead waits
          exact absurd (nobody rfl) (behind.resolve_left unwritten)
      | write =>
        have none_ := unread rfl
        rw [writes rfl, none_]
        refine @sharedFine_set store full ⟨[], some ⟨token, store.lastFence + 1⟩, 0, none⟩ isShared fine.lined
          (fine.unshared none_).symm ?_ ⟨.inr rfl, fun _ => rfl⟩ (.inr rfl) (fun _ => .inl rfl) _
        exact fine.reserved_none unwritten rfl
  unfold acquireShared
  cases known : store.shareds full with
  | none =>
    rw [known] at refused
    exact refused _ (by rintro rfl; rfl) (by rintro rfl; rfl)
  | some state =>
    cases redeems : store.redeeming waiter full mode.kind 1 with
    | none =>
      rw [known] at refused
      exact refused _ (by rintro rfl; rfl) (by rintro rfl; rfl)
    | some own =>
      obtain ⟨-, session, there, here, kind, isReserved, -⟩ := redeeming_some redeems
      have notQueued : session.state ≠ .queued := by
        rw [isReserved]
        rintro ⟨⟩
      have lined : Lined (store.setState own .idle) full := by
        refine lined_change fine.lined there here rfl rfl ?_ ⟨fun queued => absurd queued notQueued, by rintro ⟨⟩⟩
        exact fun asleep => absurd (fine.lined.sleeps own session there here asleep) notQueued
      have moves := moves_setState there .idle
      have readers := moves.total (reservedReader full)
      have after := @reservedReader_out full { session with state := .idle } (by rintro ⟨⟩)
      have count := fine.readers state known
      have single := fine.single state known
      cases mode with
      | read =>
        have before := reservedReader_reserved here kind isReserved
        rw [before, after] at readers
        have isRead : state.isRead = true := by
          have some_ : 0 < state.reservedReaders := by omega
          simp [Shared.isRead, some_]
        have unwritten : state.isWritten = false := by
          cases written : state.isWritten with
          | false => rfl
          | true =>
            have notRead := single.readers written
            rw [isRead] at notRead
            cases notRead
        refine @sharedFine_set (store.setState own .idle) full ⟨setReader state.readers ⟨token, store.lastFence + 1⟩,
          state.writer, state.reservedReaders - 1, state.reservedWriter⟩ isShared lined ?_ (fun ref => ?_)
          (exclusive_reader unwritten _ _) (.inl (isRead_setReader _ _ _)) ?_ _
        · simp only
          omega
        · have before := fine.reserved ref
          rw [known] at before
          rw [moves.isIn_same (by simp [isReserved, kind, SharedMode.kind])]
          exact before
        · intro waits
          have behind := fine.waitsRead waits
          rw [known] at behind
          refine .inr (behind.resolve_left ?_)
          rw [Option.any_some, unwritten]
          rintro ⟨⟩
      | write =>
        have before := @reservedReader_writes full session (by rw [kind]; rintro ⟨⟩)
        rw [before, after] at readers
        have isOwn := (fine.reserved own).mpr ⟨session, there, here, kind, isReserved⟩
        rw [known, Option.bind_some] at isOwn
        have isWritten : state.isWritten = true := by simp [Shared.isWritten, isOwn]
        refine @sharedFine_set (store.setState own .idle) full ⟨state.readers, some ⟨token, store.lastFence + 1⟩,
          state.reservedReaders, none⟩ isShared lined ?_ (fun ref => ?_) ⟨.inr rfl, fun _ => single.readers isWritten⟩ (.inr rfl)
          (fun _ => .inl rfl) _
        · simp only
          omega
        · refine ⟨by rintro ⟨⟩, fun found => ?_⟩
          rw [moves.isIn] at found
          split at found
          · cases found.2.2
          · next apart =>
            have same := (fine.reserved ref).mpr found
            rw [known, Option.bind_some, isOwn] at same
            exact absurd (Option.some.inj same).symm apart

theorem releasedShared_loose (isShared : full.primitive = .readWrite) (loose : SharedLoose store full)
    (known : store.shareds full = some state) {left : Shared} (count : left.reservedReaders = state.reservedReaders)
    (reserved : left.reservedWriter = state.reservedWriter) (single : Exclusive left) :
    SharedLoose (store.setShared full (some left)) full := by
  have shared : (store.setShared full (some left)).shareds full = some left := Function.update_self ..
  refine ⟨loose.lined.setShared isShared _, ?_, ?_, fun ref => ?_, ?_⟩
  · intro other isOther
    cases shared.symm.trans isOther
    exact count.trans (loose.readers state known)
  · intro unknown
    cases shared.symm.trans unknown
  · have before := loose.reserved ref
    rw [known, Option.bind_some] at before
    rw [shared, Option.bind_some, reserved]
    exact before
  · intro other isOther
    cases shared.symm.trans isOther
    exact single

theorem releaseShared_fine (isShared : full.primitive = .readWrite) (fine : SharedFine store full) (token : LockToken) :
    SharedFine (store.releaseShared full token).1 full := by
  unfold releaseShared
  cases known : store.shareds full with
  | none => exact fine
  | some state =>
  simp only
  have single := fine.single state known
  split
  · next held =>
    obtain ⟨hold, isWriter, -⟩ := Option.any_eq_true _ _ |>.mp held
    have isWritten : state.isWritten = true := by simp [Shared.isWritten, isWriter]
    refine dispatchShared_fine isShared (releasedShared_loose isShared fine.toSharedLoose known rfl rfl ?_)
    exact ⟨.inl rfl, fun _ => single.readers isWritten⟩
  split
  · next reads =>
    have isRead : state.isRead = true := by
      cases readers : state.readers with
      | nil =>
        rw [readers] at reads
        cases reads
      | cons _ _ => simp [Shared.isRead, readers]
    have unwritten : state.isWritten = false := by
      cases written : state.isWritten with
      | false => rfl
      | true =>
        have notRead := single.readers written
        rw [isRead] at notRead
        cases notRead
    exact dispatchShared_fine isShared
      (releasedShared_loose isShared fine.toSharedLoose known rfl rfl (exclusive_reader unwritten _ _))
  · exact fine

theorem waiterShared_fine (isShared : full.primitive = .readWrite) (fine : SharedFine store full) (mode : SharedMode) :
    SharedFine (store.waiterShared full mode) full := by
  have family : mode.kind.primitive = full.primitive := (SharedMode.kind_primitive mode).trans isShared.symm
  unfold waiterShared
  simp only
  split
  · next blocked =>
    have there : (store.push ⟨full, mode.kind, 1, .idle, false, false⟩).sessions[store.sessions.length]? =
        some ⟨full, mode.kind, 1, .idle, false, false⟩ := by simp [push]
    have lined := @lined_push store full ⟨full, mode.kind, 1, .idle, false, false⟩ fine.lined (by rintro ⟨⟩) rfl fun _ => family
    have pushed : SharedFine (store.push ⟨full, mode.kind, 1, .idle, false, false⟩) full := by
      have total : Heap.total (reservedReader full) (store.push ⟨full, mode.kind, 1, .idle, false, false⟩).sessions =
          Heap.total (reservedReader full) store.sessions := by
        have nothing := @reservedReader_out full ⟨full, mode.kind, 1, .idle, false, false⟩ (by rintro ⟨⟩)
        rw [push, Heap.total_push, nothing, Nat.add_zero]
      refine ⟨⟨lined, ?_, ?_, fun ref => ?_, fine.single⟩, fine.busy, fine.waits, fine.waitsRead, fine.watched⟩
      · intro state known
        exact (fine.readers state known).trans total.symm
      · intro unknown
        exact total.trans (fine.unshared unknown)
      · refine (fine.reserved ref).trans (Iff.trans ?_ (push_isIn _ _ _).symm)
        simp
    exact joinShared_fine pushed there rfl rfl rfl blocked
  · next free =>
    obtain ⟨unwritten, nobody, unread⟩ := fine.free free
    obtain ⟨isFree, count, -⟩ := fine.getD unwritten
    have lined := @lined_push store full ⟨full, mode.kind, 1, .reserved, false, false⟩ fine.lined (by rintro ⟨⟩) rfl fun _ => family
    cases mode with
    | read =>
      have total : Heap.total (reservedReader full) (store.push ⟨full, .read, 1, .reserved, false, false⟩).sessions =
          Heap.total (reservedReader full) store.sessions + 1 := by
        have one := @reservedReader_reserved full ⟨full, .read, 1, .reserved, false, false⟩ rfl rfl rfl
        rw [push, Heap.total_push, one]
      generalize (store.shareds full).getD newShared = target at isFree count
      refine @sharedFine_set (store.push ⟨full, .read, 1, .reserved, false, false⟩) full
        { target with reservedReaders := target.reservedReaders + 1 } isShared lined ?_ (fun ref => ?_)
        (exclusive_reader isFree _ _) (.inl ?_) ?_ store.lastFence
      · simp only
        omega
      · rw [push_isIn]
        simpa using fine.reserved_none unwritten (unwritten_iff.mp isFree).2 ref
      · simp [Shared.isRead]
      · intro waits
        exact absurd (nobody rfl) ((fine.waitsRead waits).resolve_left unwritten)
    | write =>
      have none_ := unread rfl
      have total : Heap.total (reservedReader full) (store.push ⟨full, .write, 1, .reserved, false, false⟩).sessions =
          Heap.total (reservedReader full) store.sessions := by
        have nothing := @reservedReader_writes full ⟨full, .write, 1, .reserved, false, false⟩ (by rintro ⟨⟩)
        rw [push, Heap.total_push, nothing, Nat.add_zero]
      rw [none_]
      refine @sharedFine_set (store.push ⟨full, .write, 1, .reserved, false, false⟩) full
        ⟨[], none, 0, some store.sessions.length⟩ isShared lined (total.trans (fine.unshared none_)).symm (fun ref => ?_)
        ⟨.inl rfl, fun _ => rfl⟩ (.inr rfl) (fun _ => .inl rfl) store.lastFence
      have absent := fine.unreserved unwritten ref
      rw [push_isIn]
      simp [absent, eq_comm]

/-! ### Waiters that stop waiting -/

theorem sharedLoose_leave {old : Session} (fine : SharedFine store full) (there : store.sessions[ref]? = some old)
    (here : old.full = full) (queued : old.state = .queued) (awake : old.asleep = false)
    (likeness : session.full = old.full ∧ session.kind = old.kind) : SharedLoose (store.leave ref session) full := by
  have shareds : (store.leave ref session).shareds = store.shareds := beside_leave.shareds
  have moves := moves_leave there session
  have readers := moves.total (reservedReader full)
  have before := @reservedReader_out full old (by rw [queued]; exact nofun)
  have after := @reservedReader_out full { old with state := .idle } nofun
  rw [before, after] at readers
  have still : Heap.total (reservedReader full) (store.leave ref session).sessions = Heap.total (reservedReader full) store.sessions := by
    omega
  refine ⟨lined_leave fine.lined there here queued awake likeness, ?_, ?_, fun other => ?_, ?_⟩
  · rw [shareds, still]
    exact fine.readers
  · rw [shareds, still]
    exact fine.unshared
  · rw [shareds, moves.isIn_same (by simp [queued])]
    exact fine.reserved other
  · rw [shareds]
    exact fine.single

theorem sharedLoose_unreserve {old : Session} (isShared : full.primitive = .readWrite) (fine : SharedFine store full)
    (there : store.sessions[ref]? = some old) (here : old.full = full) (isReserved : old.state = .reserved)
    (likeness : session.full = old.full ∧ session.kind = old.kind) : SharedLoose (store.unreserve ref session) full := by
  have isFull : session.full = full := likeness.1.trans here
  have notQueued : old.state ≠ .queued := by
    rw [isReserved]
    exact nofun
  have lined : Lined (store.setState ref .idle) full := by
    refine lined_change fine.lined there here rfl rfl (fun asleep => ?_) ⟨fun queued => absurd queued notQueued, nofun⟩
    exact absurd (fine.lined.sleeps ref old there here asleep) notQueued
  have moves := moves_setState there .idle
  have readers := moves.total (reservedReader full)
  have after := @reservedReader_out full { old with state := .idle } nofun
  rcases WaitKind.of_shared ((fine.lined.family ref old there here).trans isShared) with kind | kind
  · have before := reservedReader_reserved here kind isReserved
    rw [before, after] at readers
    have isKind : session.kind = .read := likeness.2.trans kind
    obtain ⟨state, known⟩ : ∃ state, store.shareds full = some state := by
      cases known : store.shareds full with
      | some state => exact ⟨state, rfl⟩
      | none =>
        have none_ := fine.unshared known
        omega
    have count := fine.readers state known
    have isRead : state.isRead = true := by
      have some_ : 0 < state.reservedReaders := by omega
      simp [Shared.isRead, some_]
    have unwritten : state.isWritten = false := by
      cases written : state.isWritten with
      | false => rfl
      | true =>
        have notRead := (fine.single state known).readers written
        rw [isRead] at notRead
        cases notRead
    unfold unreserve
    simp only [isKind, isFull, known]
    have shared : ((store.setState ref .idle).setShared full (some { state with
        reservedReaders := state.reservedReaders - 1 })).shareds full =
        some { state with reservedReaders := state.reservedReaders - 1 } := Function.update_self ..
    refine ⟨lined.setShared isShared _, ?_, ?_, fun other => ?_, ?_⟩
    · intro found isFound
      cases shared.symm.trans isFound
      show state.reservedReaders - 1 = Heap.total _ (store.setState ref .idle).sessions
      omega
    · intro unknown
      cases shared.symm.trans unknown
    · have before := fine.reserved other
      rw [known] at before
      have same := @Moves.isIn_same _ _ full ref _ _ .write .reserved moves (by simp [kind]) other
      rw [shared]
      exact before.trans same.symm
    · intro found isFound
      cases shared.symm.trans isFound
      exact exclusive_reader unwritten _ _
  · have before := @reservedReader_writes full old (by rw [kind]; exact nofun)
    rw [before, after] at readers
    have isKind : session.kind = .write := likeness.2.trans kind
    have isOwn := (fine.reserved ref).mpr ⟨old, there, here, kind, isReserved⟩
    obtain ⟨state, known, isState⟩ := Option.bind_eq_some_iff.mp isOwn
    have isWritten : state.isWritten = true := by simp [Shared.isWritten, isState]
    have single := fine.single state known
    unfold unreserve
    simp only [isKind, isFull, known, isState, if_true]
    have shared : ((store.setState ref .idle).setShared full (some { state with reservedWriter := none })).shareds full =
        some { state with reservedWriter := none } := Function.update_self ..
    refine ⟨lined.setShared isShared _, ?_, ?_, fun other => ?_, ?_⟩
    · intro found isFound
      cases shared.symm.trans isFound
      have count := fine.readers state known
      show state.reservedReaders = Heap.total _ (store.setState ref .idle).sessions
      omega
    · intro unknown
      cases shared.symm.trans unknown
    · rw [shared]
      refine ⟨nofun, fun found => ?_⟩
      have found : IsIn (store.setState ref .idle) other full .write .reserved := found
      rw [moves.isIn] at found
      split at found
      · cases found.2.2
      · next apart =>
        have same := (fine.reserved other).mpr found
        rw [isOwn] at same
        exact absurd (Option.some.inj same).symm apart
    · intro found isFound
      cases shared.symm.trans isFound
      exact ⟨.inr rfl, fun _ => single.readers isWritten⟩

theorem closeShared_fine (isShared : full.primitive = .readWrite) (fine : SharedFine store full)
    (there : store.sessions[ref]? = some session) (here : session.full = full) : SharedFine (store.close ref) full := by
  have dispatches (next : MemoryStore) : next.dispatch session = next.dispatchShared full := by
    unfold dispatch
    rcases WaitKind.of_shared ((fine.lined.family ref session there here).trans isShared) with kind | kind
    · simp only [kind, here]
    · simp only [kind, here]
  unfold close
  simp only [there]
  split
  · exact fine
  have moves := moves_change there fun session => { session with closed := true, asleep := false }
  have closed : SharedFine (store.change ref fun session => { session with closed := true, asleep := false }) full :=
    fine.of_alike (alike_change there ⟨rfl, rfl, rfl, rfl⟩) (lined_change fine.lined there here rfl rfl nofun .rfl)
  split
  · exact closed
  · next queued =>
    rw [dispatches]
    exact dispatchShared_fine isShared (sharedLoose_leave closed moves.at_self here queued rfl ⟨rfl, rfl⟩)
  · next reserved =>
    rw [dispatches]
    exact dispatchShared_fine isShared (sharedLoose_unreserve isShared closed moves.at_self here reserved ⟨rfl, rfl⟩)

end MemoryStore

end Arki.Lock
