import Mathlib.Data.List.Nodup
import Arki.Library.Run
import Arki.Async.Scope

/-! What a scope keeps over every order of its calls and of the settlements of its work. -/

set_option autoImplicit false

namespace Arki.Async

open Arki.Run

variable {F : Type} {isOwned : F → Bool} {scope next : Scope F} {number : Nat}

section

-- The lemmas below unfold these at the same time: their equations are made once, here.
attribute [local simp] Async.step Scope.register Scope.quiesce Scope.abort Scope.close Scope.setAcquisition Scope.settle

end

/-! ### Invariant -/

def Scope.IsSettled (scope : Scope F) : Prop :=
  (∀ settled ∈ scope.children, settled = true) ∧ ∀ acquisition ∈ scope.acquisitions, acquisition ≠ .pending

/-- The promise of `quiesce` has settled. -/
def Scope.IsJoined (scope : Scope F) : Prop := ∃ outcome, scope.quieting = some (.settled outcome)

def Scope.Stage (scope : Scope F) : Option (Closing F) → Prop
  | none | some .waiting => scope.finalizers = scope.registered ∧ scope.finalized = []
  | some (.finalizing index running) =>
    scope.IsJoined ∧ scope.finalizers = scope.registered.reverse ∧
      scope.finalized = scope.finalizers.take (if running then index + 1 else index)
  | some (.unwatching watch running) =>
    scope.IsJoined ∧ scope.finalizers = scope.registered.reverse ∧ scope.finalized = scope.finalizers ∧
      ∀ index found, scope.watches[index]? = some found → index < (if running then watch + 1 else watch) → found.closed = true
  | some (.done _) =>
    scope.IsJoined ∧ scope.finalizers = scope.registered.reverse ∧ scope.finalized = scope.finalizers ∧
      ∀ found ∈ scope.watches, found.closed = true

structure Kept (scope : Scope F) : Prop where
  shut : scope.quieting ≠ none → scope.admission = false ∧ scope.aborted = true
  quiet : scope.closing ≠ none → scope.quieting ≠ none
  listed : ∀ children acquisitions, scope.quieting = some (.joining children acquisitions) →
    children = scope.children.length ∧ acquisitions = scope.acquisitions.length
  joined : scope.IsJoined → scope.IsSettled
  unique : scope.registered.Nodup
  opened : ∀ number, Entry.acquisition number ∈ scope.registered ↔ scope.acquisitions[number]? = some .opened
  cleanups : ∀ number, Entry.cleanup number ∈ scope.registered ↔ number < scope.deferred
  stage : scope.Stage scope.closing
  reported : ∀ failure, failure ∈ scope.reported ↔ failure ∈ scope.primary ∨ failure ∈ scope.cleanupFailures

theorem Kept.start : Kept (Scope.start : Scope F) where
  shut is := absurd rfl is
  quiet is := absurd rfl is
  listed _ _ is := by cases is
  joined is := by
    obtain ⟨_, is⟩ := is
    cases is
  unique := .nil
  opened number := by simp [Scope.start]
  cleanups number := by simp [Scope.start]
  stage := ⟨rfl, rfl⟩
  reported failure := by simp [Scope.start]

theorem Kept.not_joined (kept : Kept scope) (pending : ¬ scope.IsSettled) : ¬ scope.IsJoined := fun joined =>
  pending (kept.joined joined)

theorem Kept.unreversed (kept : Kept scope) (pending : ¬ scope.IsJoined) :
    (scope.closing = none ∨ scope.closing = some .waiting) ∧ scope.finalizers = scope.registered ∧ scope.finalized = [] := by
  have stage := kept.stage
  cases found : scope.closing with
  | none =>
    rw [found] at stage
    exact ⟨.inl rfl, stage⟩
  | some closing =>
    rw [found] at stage
    cases closing with
    | waiting => exact ⟨.inr rfl, stage⟩
    | finalizing => exact absurd stage.1 pending
    | unwatching => exact absurd stage.1 pending
    | done => exact absurd stage.1 pending

theorem stage_unreversed (closing : scope.closing = none ∨ scope.closing = some .waiting)
    (arrays : scope.finalizers = scope.registered ∧ scope.finalized = []) : scope.Stage scope.closing := by
  rcases closing with is | is
  · rw [is]
    exact arrays
  · rw [is]
    exact arrays

theorem Kept.accepting (kept : Kept scope) (accepting : scope.accepting = true) :
    scope.quieting = none ∧ scope.closing = none ∧ ¬ scope.IsJoined ∧ scope.finalizers = scope.registered ∧
      scope.finalized = [] := by
  simp only [Scope.accepting, Bool.and_eq_true] at accepting
  have quieting : scope.quieting = none := by
    by_contra some_
    rw [(kept.shut some_).1] at accepting
    cases accepting.1
  have open_ : ¬ scope.IsJoined := by
    rintro ⟨_, is⟩
    rw [quieting] at is
    cases is
  refine ⟨quieting, ?_, open_, (kept.unreversed open_).2⟩
  by_contra some_
  exact kept.quiet some_ quieting

/-! ### Reports -/

theorem Kept.abort [DecidableEq F] (kept : Kept scope) (failure : F) : Kept (scope.abort isOwned failure) := by
  unfold Scope.abort
  split
  · exact kept
  · exact {
      shut := fun is => ⟨(kept.shut is).1, rfl⟩
      quiet := kept.quiet
      listed := kept.listed
      joined := kept.joined
      unique := kept.unique
      opened := kept.opened
      cleanups := kept.cleanups
      stage := kept.stage
      reported := fun other => by
        have before := kept.reported other
        simp only [List.mem_append, List.mem_singleton, before]
        split
        · next inside =>
          constructor
          · rintro (was | rfl)
            · exact was
            · exact .inl inside
          · exact .inl
        · simp only [List.mem_append, List.mem_singleton]
          tauto }

theorem Kept.retain (kept : Kept scope) (failure : Option F) : Kept (scope.retain failure) where
  shut := kept.shut
  quiet := kept.quiet
  listed := kept.listed
  joined := kept.joined
  unique := kept.unique
  opened := kept.opened
  cleanups := kept.cleanups
  stage := kept.stage
  reported other := by
    simp only [Scope.retain, List.mem_append, kept.reported other, or_assoc]

/-! ### Work -/

theorem Kept.settle (kept : Kept scope) (number : Nat) : Kept (scope.settle number) where
  shut := kept.shut
  quiet := kept.quiet
  listed children acquisitions is := by
    rw [Scope.settle, List.length_set]
    exact kept.listed children acquisitions is
  joined is := by
    refine ⟨fun settled member => ?_, (kept.joined is).2⟩
    rcases List.mem_or_eq_of_mem_set member with isOld | rfl
    · exact (kept.joined is).1 settled isOld
    · rfl
  unique := kept.unique
  opened := kept.opened
  cleanups := kept.cleanups
  stage := kept.stage
  reported := kept.reported

theorem not_settled (pending : scope.acquisitions[number]? = some .pending) : ¬ scope.IsSettled := fun settled =>
  settled.2 _ (List.mem_of_getElem? pending) rfl

theorem Kept.refused (kept : Kept scope) (pending : scope.acquisitions[number]? = some .pending) :
    Kept (scope.setAcquisition number .refused) := by
  have open_ := kept.not_joined (not_settled pending)
  obtain ⟨closing, arrays⟩ := kept.unreversed open_
  exact {
    shut := kept.shut
    quiet := kept.quiet
    listed := fun children acquisitions is => by
      rw [Scope.setAcquisition, List.length_set]
      exact kept.listed children acquisitions is
    joined := fun is => absurd is open_
    unique := kept.unique
    opened := fun index => by
      simp only [Scope.setAcquisition]
      rw [kept.opened, List.getElem?_set]
      by_cases here : number = index
      · subst here
        rw [pending, if_pos rfl]
        split <;> simp
      · rw [if_neg here]
    cleanups := kept.cleanups
    stage := stage_unreversed closing arrays
    reported := kept.reported }

theorem Kept.openedNow (kept : Kept scope) (pending : scope.acquisitions[number]? = some .pending) :
    Kept ((scope.setAcquisition number .opened).register (.acquisition number)) := by
  have open_ := kept.not_joined (not_settled pending)
  obtain ⟨closing, same, none_⟩ := kept.unreversed open_
  have inside := (List.getElem?_eq_some_iff.mp pending).1
  have isNew : Entry.acquisition number ∉ scope.registered := by
    rw [kept.opened, pending]
    simp
  exact {
    shut := kept.shut
    quiet := kept.quiet
    listed := fun children acquisitions is => by
      rw [Scope.register, Scope.setAcquisition, List.length_set]
      exact kept.listed children acquisitions is
    joined := fun is => absurd is open_
    unique := by simpa [Scope.register, Scope.setAcquisition] using kept.unique.concat isNew
    opened := fun index => by
      simp only [Scope.register, Scope.setAcquisition, List.mem_append, List.mem_singleton, Entry.acquisition.injEq]
      rw [kept.opened, List.getElem?_set]
      by_cases here : number = index
      · subst here
        rw [if_pos rfl, if_pos inside]
        simp
      · rw [if_neg here]
        simp [Ne.symm here]
    cleanups := fun index => by
      simp only [Scope.register, Scope.setAcquisition, List.mem_append, List.mem_singleton, reduceCtorEq, or_false]
      exact kept.cleanups index
    stage := stage_unreversed closing ⟨by simp only [Scope.register, Scope.setAcquisition, same], none_⟩
    reported := kept.reported }

theorem Kept.acquire (kept : Kept scope) (accepting : scope.accepting = true) :
    Kept { scope with acquisitions := scope.acquisitions ++ [.pending] } := by
  obtain ⟨quieting, closing, open_, arrays⟩ := kept.accepting accepting
  exact {
    shut := fun is => absurd quieting is
    quiet := fun is => absurd closing is
    listed := fun children acquisitions is => by
      rw [quieting] at is
      cases is
    joined := fun is => absurd is open_
    unique := kept.unique
    opened := fun index => by
      rw [kept.opened, List.getElem?_append]
      split
      · exact Iff.rfl
      · next outside =>
        rw [List.getElem?_eq_none (by omega), List.getElem?_cons]
        split <;> simp
    cleanups := kept.cleanups
    stage := stage_unreversed (.inl closing) arrays
    reported := kept.reported }

theorem Kept.defer (kept : Kept scope) (accepting : scope.accepting = true) :
    Kept { scope.register (.cleanup scope.deferred) with deferred := scope.deferred + 1 } := by
  obtain ⟨quieting, closing, open_, same, none_⟩ := kept.accepting accepting
  have isNew : Entry.cleanup scope.deferred ∉ scope.registered := by
    rw [kept.cleanups]
    omega
  exact {
    shut := fun is => absurd quieting is
    quiet := fun is => absurd closing is
    listed := fun children acquisitions is => by
      simp only [Scope.register] at is
      rw [quieting] at is
      cases is
    joined := fun is => absurd is open_
    unique := by simpa [Scope.register, Scope.setAcquisition] using kept.unique.concat isNew
    opened := fun index => by
      simp only [Scope.register, List.mem_append, List.mem_singleton, reduceCtorEq, or_false]
      exact kept.opened index
    cleanups := fun index => by
      simp only [Scope.register, List.mem_append, List.mem_singleton, Entry.cleanup.injEq, kept.cleanups]
      omega
    stage := stage_unreversed (.inl closing) ⟨by simp only [Scope.register, same], none_⟩
    reported := kept.reported }

theorem Kept.fork (kept : Kept scope) (accepting : scope.accepting = true) :
    Kept { scope with children := scope.children ++ [false] } := by
  obtain ⟨quieting, closing, open_, arrays⟩ := kept.accepting accepting
  exact {
    shut := fun is => absurd quieting is
    quiet := fun is => absurd closing is
    listed := fun children acquisitions is => by
      rw [quieting] at is
      cases is
    joined := fun is => absurd is open_
    unique := kept.unique
    opened := kept.opened
    cleanups := kept.cleanups
    stage := stage_unreversed (.inl closing) arrays
    reported := kept.reported }

theorem Kept.setWatch (kept : Kept scope) {watch new : Watch} (is : scope.watches[number]? = some watch)
    (closed : watch.closed = true → new.closed = true) : Kept (scope.setWatch number new) := by
  have each (index : Nat) (found : Watch) (at_ : (scope.watches.set number new)[index]? = some found) :
      ∃ old, scope.watches[index]? = some old ∧ (old.closed = true → found.closed = true) := by
    rw [List.getElem?_set] at at_
    split at at_
    · next here =>
      subst here
      split at at_
      · cases at_
        exact ⟨watch, is, closed⟩
      · cases at_
    · exact ⟨found, at_, id⟩
  have stage := kept.stage
  exact {
    shut := kept.shut
    quiet := kept.quiet
    listed := kept.listed
    joined := kept.joined
    unique := kept.unique
    opened := kept.opened
    cleanups := kept.cleanups
    stage := by
      show (scope.setWatch number new).Stage scope.closing
      cases same : scope.closing with
      | none =>
        rw [same] at stage
        exact stage
      | some closing =>
        rw [same] at stage
        cases closing with
        | waiting => exact stage
        | finalizing => exact stage
        | unwatching at_ running =>
          refine ⟨stage.1, stage.2.1, stage.2.2.1, fun index found isFound below => ?_⟩
          obtain ⟨old, isOld, keeps⟩ := each index found isFound
          exact keeps (stage.2.2.2 index old isOld below)
        | done outcome =>
          refine ⟨stage.1, stage.2.1, stage.2.2.1, fun found member => ?_⟩
          obtain ⟨index, isFound⟩ := List.mem_iff_getElem?.mp member
          obtain ⟨old, isOld, keeps⟩ := each index found isFound
          exact keeps (stage.2.2.2 old (List.mem_of_getElem? isOld))
    reported := kept.reported }

/-! ### Closing -/

theorem Kept.quiesce (kept : Kept scope) : Kept scope.quiesce := by
  unfold Scope.quiesce
  split
  · exact kept
  · next quieting =>
    have open_ : ¬ scope.IsJoined := by
      rintro ⟨_, is⟩
      rw [quieting] at is
      cases is
    obtain ⟨closing, arrays⟩ := kept.unreversed open_
    exact {
      shut := fun _ => ⟨rfl, rfl⟩
      quiet := fun _ => by simp
      listed := fun _ _ is => by cases is
      joined := fun is => by
        obtain ⟨_, is⟩ := is
        cases is
      unique := kept.unique
      opened := kept.opened
      cleanups := kept.cleanups
      stage := stage_unreversed closing arrays
      reported := kept.reported }

theorem quiesce_called : scope.quiesce.quieting ≠ none := by
  unfold Scope.quiesce
  split
  · next called => simp [called]
  · simp

theorem quiesce_closing : scope.quiesce.closing = scope.closing := by
  unfold Scope.quiesce
  split <;> rfl

theorem Kept.close (kept : Kept scope) : Kept scope.close := by
  unfold Scope.close
  split
  · exact kept
  · next unclosed =>
    have quiet := kept.quiesce
    have stage := quiet.stage
    rw [quiesce_closing, unclosed] at stage
    exact {
      shut := quiet.shut
      quiet := fun _ => quiesce_called
      listed := quiet.listed
      joined := quiet.joined
      unique := quiet.unique
      opened := quiet.opened
      cleanups := quiet.cleanups
      stage := stage
      reported := quiet.reported }

/-- Steps of the promises: the work, its order and its reports are left alone. -/
theorem Kept.move (kept : Kept scope) (quieting : Option (Quieting F)) (closing : Option (Closing F)) (finalizers finalized : List Entry)
    (called : scope.quieting ≠ none) (isCalled : quieting ≠ none)
    (listed : ∀ children acquisitions, quieting = some (.joining children acquisitions) →
      children = scope.children.length ∧ acquisitions = scope.acquisitions.length)
    (joined : (∃ outcome, quieting = some (.settled outcome)) → scope.IsSettled)
    (stage : { scope with quieting := quieting, closing := closing, finalizers := finalizers, finalized := finalized }.Stage closing) :
    Kept { scope with quieting := quieting, closing := closing, finalizers := finalizers, finalized := finalized } where
  shut _ := kept.shut called
  quiet _ := isCalled
  listed := listed
  joined := joined
  unique := kept.unique
  opened := kept.opened
  cleanups := kept.cleanups
  stage := stage
  reported := kept.reported

theorem Kept.closing_called (kept : Kept scope) {closing : Closing F} (is : scope.closing = some closing) :
    scope.quieting ≠ none := kept.quiet (by simp [is])

theorem Kept.joins (kept : Kept scope) {children acquisitions : Nat} (listed : scope.quieting = some (.joining children acquisitions))
    (settled : ((scope.children.take children).all id && (scope.acquisitions.take acquisitions).all (· ≠ .pending)) = true) :
    scope.IsSettled := by
  obtain ⟨rfl, rfl⟩ := kept.listed children acquisitions listed
  rw [List.take_length, List.take_length] at settled
  simp only [Bool.and_eq_true, List.all_eq_true, id_eq, decide_eq_true_eq] at settled
  exact settled

theorem Kept.list (kept : Kept scope) (called : scope.quieting = some .called) :
    Kept { scope with quieting := some (.joining scope.children.length scope.acquisitions.length) } := by
  have open_ : ¬ scope.IsJoined := by
    rintro ⟨_, is⟩
    rw [called] at is
    cases is
  obtain ⟨closing, arrays⟩ := kept.unreversed open_
  refine kept.move _ scope.closing scope.finalizers scope.finalized (by simp [called]) (by simp) (fun _ _ is => ?_) (fun is => ?_) ?_
  · cases is
    exact ⟨rfl, rfl⟩
  · obtain ⟨_, is⟩ := is
    cases is
  · exact stage_unreversed closing arrays

theorem Kept.join (kept : Kept scope) {children acquisitions : Nat} (listed : scope.quieting = some (.joining children acquisitions))
    (settled : ((scope.children.take children).all id && (scope.acquisitions.take acquisitions).all (· ≠ .pending)) = true) :
    Kept { scope with quieting := some (.settled (finish scope.primary [])) } := by
  have open_ : ¬ scope.IsJoined := by
    rintro ⟨_, is⟩
    rw [listed] at is
    cases is
  obtain ⟨closing, arrays⟩ := kept.unreversed open_
  refine kept.move _ scope.closing scope.finalizers scope.finalized (by simp [listed]) (by simp) (fun _ _ is => ?_)
    (fun _ => kept.joins listed settled) ?_
  · cases is
  · exact stage_unreversed closing arrays

/-- A step of the closing: the stage that it leads to is what is left to show. -/
theorem Kept.closes (kept : Kept scope) (closing : Closing F) (finalizers finalized : List Entry) (called : scope.quieting ≠ none)
    (stage : { scope with closing := some closing, finalizers := finalizers, finalized := finalized }.Stage (some closing)) :
    Kept { scope with closing := some closing, finalizers := finalizers, finalized := finalized } :=
  kept.move scope.quieting (some closing) finalizers finalized called called kept.listed kept.joined stage

section

variable [DecidableEq F]

theorem Kept.proceed (kept : Kept scope) (taken : step isOwned scope .proceed = some next) : Kept next := by
  simp only [step] at taken
  split at taken
  · next outcome waiting settled =>
    cases taken
    have stage := kept.stage
    rw [waiting] at stage
    refine kept.closes _ scope.finalizers.reverse scope.finalized (kept.closing_called waiting) ⟨⟨outcome, settled⟩, ?_, ?_⟩
    · exact congrArg List.reverse stage.1
    · simpa using stage.2
  · cases taken

theorem Kept.startFinalizer (kept : Kept scope) (taken : step isOwned scope .startFinalizer = some next) : Kept next := by
  simp only [step] at taken
  split at taken
  · next index finalizing =>
    have called := kept.closing_called finalizing
    have stage := kept.stage
    rw [finalizing] at stage
    obtain ⟨joined, reversed, started⟩ := stage
    split at taken
    · next entry found =>
      cases taken
      refine kept.closes _ scope.finalizers (scope.finalized ++ [entry]) called ⟨joined, reversed, ?_⟩
      show scope.finalized ++ [entry] = scope.finalizers.take (index + 1)
      rw [List.take_add_one, found, started]
      rfl
    · next none_ =>
      cases taken
      refine kept.closes _ scope.finalizers scope.finalized called ⟨joined, reversed, ?_, fun _ _ _ below => by simp at below⟩
      show scope.finalized = scope.finalizers
      rw [started]
      exact List.take_of_length_le (List.getElem?_eq_none_iff.mp none_)
  · cases taken

theorem Kept.endFinalizer (kept : Kept scope) {failure : Option F} (taken : step isOwned scope (.endFinalizer failure) = some next) :
    Kept next := by
  simp only [step] at taken
  split at taken
  · next index finalizing =>
    cases taken
    have stage := kept.stage
    rw [finalizing] at stage
    exact (kept.retain failure).closes _ scope.finalizers scope.finalized (kept.closing_called finalizing) stage
  · cases taken

theorem Kept.startUnwatch (kept : Kept scope) (taken : step isOwned scope .startUnwatch = some next) : Kept next := by
  simp only [step] at taken
  split at taken
  · next number unwatching =>
    split at taken
    · next watch found =>
      cases taken
      have stage := kept.stage
      rw [unwatching] at stage
      obtain ⟨joined, reversed, all, below⟩ := stage
      refine (kept.setWatch found fun _ => rfl).closes _ scope.finalizers scope.finalized (kept.closing_called unwatching)
        ⟨joined, reversed, all, fun index other isOther inside => ?_⟩
      rw [if_pos rfl] at inside
      simp only [Scope.setWatch] at isOther
      rw [List.getElem?_set] at isOther
      split at isOther
      · split at isOther
        · cases isOther
          rfl
        · cases isOther
      · exact below index other isOther (by simp; omega)
    · cases taken
  · cases taken

theorem Kept.endUnwatch (kept : Kept scope) {failure : Option F} (taken : step isOwned scope (.endUnwatch failure) = some next) :
    Kept next := by
  simp only [step] at taken
  split at taken
  · next number unwatching =>
    cases taken
    have stage := kept.stage
    rw [unwatching] at stage
    exact (kept.retain failure).closes _ scope.finalizers scope.finalized (kept.closing_called unwatching) stage
  · cases taken

theorem Kept.end_ (kept : Kept scope) (taken : step isOwned scope .end_ = some next) : Kept next := by
  simp only [step] at taken
  split at taken
  · next number unwatching =>
    split at taken
    · next last =>
      cases taken
      have stage := kept.stage
      rw [unwatching] at stage
      obtain ⟨joined, reversed, all, below⟩ := stage
      refine kept.closes _ scope.finalizers scope.finalized (kept.closing_called unwatching)
        ⟨joined, reversed, all, fun found member => ?_⟩
      obtain ⟨index, isFound⟩ := List.mem_iff_getElem?.mp member
      exact below index found isFound (by rw [last]; exact (List.getElem?_eq_some_iff.mp isFound).1)
    · cases taken
  · cases taken

theorem Kept.step {action : Action F} (kept : Kept scope) (taken : Async.step isOwned scope action = some next) : Kept next := by
  cases action with
  | acquire =>
    cases taken
    split
    · next accepting => exact kept.acquire accepting
    · exact kept
  | opened number =>
    simp only [Async.step] at taken
    split at taken
    · next pending =>
      cases taken
      exact kept.openedNow pending
    · cases taken
  | acquireRefused number failure =>
    simp only [Async.step] at taken
    split at taken
    · next pending =>
      cases taken
      exact (kept.refused pending).abort failure
    · cases taken
  | acquireThrows number isOwnReason defect =>
    simp only [Async.step] at taken
    split at taken
    · next pending =>
      split at taken
      · cases taken
        exact (kept.refused pending).abort _
      · cases taken
        exact kept.refused pending
    · cases taken
  | defer =>
    cases taken
    split
    · next accepting => exact kept.defer accepting
    · exact kept
  | fork =>
    cases taken
    split
    · next accepting => exact kept.fork accepting
    · exact kept
  | childReturns number failure =>
    simp only [Async.step] at taken
    split at taken
    · split at taken
      · split at taken
        · cases taken
          exact kept.settle number
        · cases taken
          exact (kept.settle number).abort _
      · cases taken
        exact kept.settle number
    · cases taken
  | childThrows number isOwnReason defect =>
    simp only [Async.step] at taken
    split at taken
    · split at taken
      · cases taken
        exact (kept.settle number).abort _
      · cases taken
        exact kept.settle number
    · cases taken
  | fail failure =>
    cases taken
    exact kept.abort failure
  | notify number failure =>
    simp only [Async.step] at taken
    split at taken
    · next watched =>
      cases taken
      exact (kept.setWatch watched fun is => by cases is).abort failure
    · cases taken
  | registrationFails number defect =>
    simp only [Async.step] at taken
    split at taken
    · cases taken
      exact kept.abort defect
    · cases taken
  | quiesce =>
    cases taken
    exact kept.quiesce
  | close =>
    cases taken
    exact kept.close
  | list =>
    simp only [Async.step] at taken
    split at taken
    · next called =>
      cases taken
      exact kept.list called
    · cases taken
  | join =>
    simp only [Async.step] at taken
    split at taken
    · next children acquisitions listed =>
      split at taken
      · next settled =>
        cases taken
        exact kept.join listed settled
      · cases taken
    · cases taken
  | proceed => exact kept.proceed taken
  | startFinalizer => exact kept.startFinalizer taken
  | endFinalizer => exact kept.endFinalizer taken
  | startUnwatch => exact kept.startUnwatch taken
  | endUnwatch => exact kept.endUnwatch taken
  | end_ => exact kept.end_ taken

/-! ### Admission -/

def Scope.admitted (scope : Scope F) : Nat × Nat × Nat :=
  (scope.children.length, scope.acquisitions.length, scope.deferred)

omit [DecidableEq F] in
@[simp] theorem admitted_settle : (scope.settle number).admitted = scope.admitted := by
  simp [Scope.admitted, Scope.settle]

omit [DecidableEq F] in
@[simp] theorem admitted_setAcquisition (acquisition : Acquisition) :
    (scope.setAcquisition number acquisition).admitted = scope.admitted := by
  simp [Scope.admitted, Scope.setAcquisition]

omit [DecidableEq F] in
@[simp] theorem admitted_register (entry : Entry) : (scope.register entry).admitted = scope.admitted := rfl

omit [DecidableEq F] in
@[simp] theorem admitted_setWatch (watch : Watch) : (scope.setWatch number watch).admitted = scope.admitted := rfl

omit [DecidableEq F] in
@[simp] theorem admitted_retain (failure : Option F) : (scope.retain failure).admitted = scope.admitted := rfl

@[simp] theorem admitted_abort (failure : F) : (scope.abort isOwned failure).admitted = scope.admitted := by
  unfold Scope.abort
  split <;> rfl

omit [DecidableEq F] in
@[simp] theorem admitted_quiesce : scope.quiesce.admitted = scope.admitted := by
  unfold Scope.quiesce
  split <;> rfl

omit [DecidableEq F] in
@[simp] theorem admitted_close : scope.close.admitted = scope.admitted := by
  unfold Scope.close
  split
  · rfl
  · exact admitted_quiesce

theorem step_admits {action : Action F} (taken : step isOwned scope action = some next) (refuses : scope.accepting = false) :
    next.admitted = scope.admitted := by
  cases action <;> simp only [step, refuses, Bool.false_eq_true, if_false] at taken
  all_goals
    repeat' split at taken
    all_goals try cases taken
    all_goals first
      | rfl
      | simp only [admitted_settle, admitted_setAcquisition, admitted_register, admitted_setWatch, admitted_abort,
          admitted_quiesce, admitted_close]

/-! ### Reports -/

def Action.failure? : Action F → Option F
  | .acquireRefused _ failure | .fail failure | .notify _ failure | .registrationFails _ failure => some failure
  | .acquireThrows _ false defect | .childThrows _ false defect => some defect
  | .childReturns _ failure | .endFinalizer failure | .endUnwatch failure => failure
  | _ => none

theorem mem_abort {failure : F} (foreign : isOwned failure = false) : failure ∈ (scope.abort isOwned failure).reported := by
  unfold Scope.abort
  rw [if_neg (by simp [foreign])]
  exact List.mem_append_right _ (List.mem_singleton_self _)

omit [DecidableEq F] in
theorem mem_retain (failure : F) : failure ∈ (scope.retain (some failure)).reported :=
  List.mem_append_right _ (List.mem_singleton_self _)

theorem step_reports {action : Action F} {failure : F} (taken : step isOwned scope action = some next)
    (brings : action.failure? = some failure) (foreign : isOwned failure = false) : failure ∈ next.reported := by
  cases action with
  | acquireRefused number found =>
    cases brings
    simp only [step] at taken
    split at taken
    · cases taken
      exact mem_abort foreign
    · cases taken
  | acquireThrows number isOwnReason defect =>
    cases isOwnReason with
    | true => cases brings
    | false =>
      cases brings
      simp only [step, Scope.normalize, Bool.and_false, Bool.false_eq_true, if_false] at taken
      split at taken
      · cases taken
        exact mem_abort foreign
      · cases taken
  | childReturns number found =>
    cases brings
    simp only [step, foreign, Bool.false_and, Bool.false_eq_true, if_false] at taken
    split at taken
    · cases taken
      exact mem_abort foreign
    · cases taken
  | childThrows number isOwnReason defect =>
    cases isOwnReason with
    | true => cases brings
    | false =>
      cases brings
      simp only [step, Scope.normalize, Bool.and_false, Bool.false_eq_true, if_false] at taken
      split at taken
      · cases taken
        exact mem_abort foreign
      · cases taken
  | fail found =>
    cases brings
    cases taken
    exact mem_abort foreign
  | notify number found =>
    cases brings
    simp only [step] at taken
    split at taken
    · cases taken
      exact mem_abort foreign
    · cases taken
  | registrationFails number defect =>
    cases brings
    simp only [step] at taken
    split at taken
    · cases taken
      exact mem_abort foreign
    · cases taken
  | endFinalizer found =>
    cases brings
    simp only [step] at taken
    split at taken
    · cases taken
      exact mem_retain failure
    · cases taken
  | endUnwatch found =>
    cases brings
    simp only [step] at taken
    split at taken
    · cases taken
      exact mem_retain failure
    · cases taken
  | _ => cases brings

/-! ### The end -/

theorem Kept.over_ (kept : Kept scope) {outcome : Outcome F} (done : scope.closing = some (.done outcome)) {action : Action F}
    (taken : Async.step isOwned scope action = some next) :
    next.closing = scope.closing ∧ next.finalized = scope.finalized ∧
      (next.reported = scope.reported ∨ ∃ failure, action = .fail failure) := by
  have stage := kept.stage
  rw [done] at stage
  obtain ⟨⟨result, joined⟩, -, -, closed⟩ := stage
  obtain ⟨children, acquisitions⟩ := kept.joined ⟨result, joined⟩
  have refuses : scope.accepting = false := by
    rw [Scope.accepting, (kept.shut (by simp [joined])).1]
    rfl
  have noChild (index : Nat) : scope.children[index]? ≠ some false := fun is =>
    absurd (children false (List.mem_of_getElem? is)) (by decide)
  have noAcquisition (index : Nat) : scope.acquisitions[index]? ≠ some .pending := fun is =>
    acquisitions _ (List.mem_of_getElem? is) rfl
  have noWatch (index : Nat) (notified : Bool) : scope.watches[index]? ≠ some ⟨notified, false⟩ := fun is => by
    cases closed _ (List.mem_of_getElem? is)
  cases action with
  | fail failure =>
    cases taken
    refine ⟨?_, ?_, .inr ⟨failure, rfl⟩⟩
    · unfold Scope.abort
      split <;> rfl
    · unfold Scope.abort
      split <;> rfl
  | acquire =>
    simp only [Async.step, refuses, Bool.false_eq_true, if_false] at taken
    cases taken
    exact ⟨rfl, rfl, .inl rfl⟩
  | defer =>
    simp only [Async.step, refuses, Bool.false_eq_true, if_false] at taken
    cases taken
    exact ⟨rfl, rfl, .inl rfl⟩
  | fork =>
    simp only [Async.step, refuses, Bool.false_eq_true, if_false] at taken
    cases taken
    exact ⟨rfl, rfl, .inl rfl⟩
  | opened index => simp [Async.step, noAcquisition] at taken
  | acquireRefused index failure => simp [Async.step, noAcquisition] at taken
  | acquireThrows index isOwnReason defect => simp [Async.step, noAcquisition] at taken
  | childReturns index failure => simp [Async.step, noChild] at taken
  | childThrows index isOwnReason defect => simp [Async.step, noChild] at taken
  | notify index failure =>
    simp only [Async.step] at taken
    split at taken
    · next watched => exact absurd watched (noWatch index false)
    · cases taken
  | registrationFails index defect =>
    simp only [Async.step] at taken
    split at taken
    · next notified watched => exact absurd watched (noWatch index notified)
    · cases taken
  | quiesce =>
    simp only [Async.step, Scope.quiesce, joined] at taken
    cases taken
    exact ⟨rfl, rfl, .inl rfl⟩
  | close =>
    simp only [Async.step, Scope.close, done] at taken
    cases taken
    exact ⟨rfl, rfl, .inl rfl⟩
  | list => simp [Async.step, joined] at taken
  | join => simp [Async.step, joined] at taken
  | proceed => simp [Async.step, done] at taken
  | startFinalizer => simp [Async.step, done] at taken
  | endFinalizer => simp [Async.step, done] at taken
  | startUnwatch => simp [Async.step, done] at taken
  | endUnwatch => simp [Async.step, done] at taken
  | end_ => simp [Async.step, done] at taken

theorem Kept.outcome_members (kept : Kept scope) {outcome : Outcome F} (taken : Async.step isOwned scope .end_ = some next)
    (done : next.closing = some (.done outcome)) (failure : F) : failure ∈ next.reported ↔ failure ∈ outcome.members := by
  simp only [Async.step] at taken
  split at taken
  · split at taken
    · cases taken
      cases done
      rw [members_finish, List.mem_append]
      exact kept.reported failure
    · cases taken
  · cases taken

omit [DecidableEq F] in
theorem Kept.finalizes (kept : Kept scope) :
    scope.finalized <+: scope.registered.reverse ∧ (scope.finalized ≠ [] → scope.IsSettled) := by
  have stage := kept.stage
  by_cases joined : scope.IsJoined
  · refine ⟨?_, fun _ => kept.joined joined⟩
    cases found : scope.closing with
    | none =>
      rw [found] at stage
      rw [stage.2]
      exact List.nil_prefix
    | some closing =>
      rw [found] at stage
      cases closing with
      | waiting =>
        rw [stage.2]
        exact List.nil_prefix
      | finalizing index running =>
        rw [stage.2.2, stage.2.1]
        exact List.take_prefix _ _
      | unwatching watch running => exact (stage.2.2.1.trans stage.2.1) ▸ List.prefix_rfl
      | done outcome => exact (stage.2.2.1.trans stage.2.1) ▸ List.prefix_rfl
  · obtain ⟨-, -, none_⟩ := kept.unreversed joined
    rw [none_]
    exact ⟨List.nil_prefix, fun some_ => absurd rfl some_⟩

theorem Kept.of_reach (reached : Reach (Async.step isOwned) always Scope.start scope) : Kept scope :=
  reached.invariant Kept .start fun _ _ _ kept _ taken => kept.step taken

end

end Arki.Async
