import Arki.Live.HubCoverage

/-! No stream misses a change that its view shows, over every run of the hub. -/

set_option autoImplicit false

namespace Arki.Live

variable {Receipt : Type} {settings : Settings Receipt} {state state' : State Receipt} {stream stream' : Subscriber Receipt}
  {view : View} {name : Name} {envelope : Envelope} {cells : List Cell} {position : CursorPosition} {seq : Int}
  {window : Option (Window Receipt)} {frames : List (HeldChange Receipt)} {clock clock' : Option Nat} {entries : List Entry}

/-- The names a view shows of the envelopes behind a position. -/
def State.shown (state : State Receipt) (view : View) (began seq : Int) (name : Name) : Prop :=
  began < seq ∧ ∃ entry ∈ state.ring.entries, entry.envelope.seq = seq ∧ name ∈ entry.envelope.shows view

/-- What came behind a position came after its time. Without a clock, nothing is known of times. -/
def Early (clock : Option Nat) (entries : List Entry) (position : CursorPosition) : Prop :=
  ∀ time ∈ clock, 0 ≤ position.seq ∧ position.at_ ≤ time ∧
    ∀ entry ∈ entries, position.seq < entry.envelope.seq → position.at_ ≤ entry.envelope.at_

/-- No change can join an envelope at or before the position. -/
structure Passed (clock : Option Nat) (state : State Receipt) (position : CursorPosition) : Prop where
  upTo : position.seq ≤ state.seq
  fixed : state.growing = true → position.seq < state.seq
  early : Early clock state.ring.entries position

/-- A stream that began in this epoch. -/
structure Follows (settings : Settings Receipt) (clock : Option Nat) (state : State Receipt) (stream : Subscriber Receipt) : Prop where
  reports : Reports (state.shown stream.view stream.began.seq) stream.items
  passed : ∀ item ∈ stream.items, Passed clock state item.cursor ∧ item.cursor.epoch = state.epoch
  live : stream.attached = true → Following (state.hub settings) stream.view (state.shown stream.view stream.began.seq)
    (Early clock state.ring.entries) state.seq stream.items stream.window

def Used (settings : Settings Receipt) (state : State Receipt) (epoch : String) : Prop := ∃ call < state.epochs, settings.nextEpoch call = epoch

def Handed (settings : Settings Receipt) (clock : Option Nat) (state : State Receipt) (position : CursorPosition) : Prop :=
  Used settings state position.epoch ∧ (position.epoch = state.epoch → Passed clock state position)

structure Joined (settings : Settings Receipt) (clock : Option Nat) (state : State Receipt) (stream : Subscriber Receipt) : Prop where
  began : Handed settings clock state stream.began
  attached : stream.attached = true → stream.began.epoch = state.epoch
  detached : stream.attached = false → stream.preamble = [] ∧ stream.pending = [] ∧ stream.window = none
  follows : stream.began.epoch = state.epoch → Follows settings clock state stream

/-- The envelopes came in their order. -/
def Timed (clock : Option Nat) (entries : List Entry) : Prop :=
  ∀ time ∈ clock, ∀ first ∈ entries, first.envelope.at_ ≤ time ∧
    ∀ second ∈ entries, first.envelope.seq ≤ second.envelope.seq → first.envelope.at_ ≤ second.envelope.at_

structure Evicted (settings : Settings Receipt) (clock : Option Nat) (ring : Ring) : Prop where
  through : ring.evictedThrough = ring.head
  within : ring.head ≤ ring.entries.length
  old : ∀ time ∈ clock, ∀ entry ∈ ring.entries, entry.envelope.seq ≤ ring.head → settings.limits.replayMs < time - entry.envelope.at_

structure Sound (settings : Settings Receipt) (clock : Option Nat) (state : State Receipt) : Prop where
  numbered : Numbered 0 (state.ring.entries.map Entry.envelope)
  count : state.seq = state.ring.entries.length
  timed : Timed clock state.ring.entries
  evicted : Evicted settings clock state.ring
  ready : state.status = .ready → Used settings state state.epoch
  handed : ∀ position ∈ state.handed, Handed settings clock state position
  joined : ∀ stream ∈ state.subscribers, Joined settings clock state stream

/-! ### One stream -/

theorem Joined.ended (joined : Joined settings clock state stream) (ending : Option EndFrame) (done : Bool) : Joined settings clock state
    { stream with attached := false, window := none, preamble := [], pending := [], ending := ending, done := done } := by
  refine ⟨joined.began, fun attached => (by cases attached), fun _ => ⟨rfl, rfl, rfl⟩, fun own => ?_⟩
  obtain ⟨reports, passed, -⟩ := joined.follows own
  refine ⟨?_, fun item member => passed item (by simp_all [Subscriber.items]), fun attached => (by cases attached)⟩
  simpa [Subscriber.items] using reports.first

theorem Joined.finish (joined : Joined settings clock state stream) (ending : EndFrame) : Joined settings clock state (stream.finish ending) := by
  unfold Subscriber.finish
  split
  · exact joined.ended _ _
  · exact joined

theorem finish_detached (stream : Subscriber Receipt) (ending : EndFrame) : (stream.finish ending).attached = false := by
  unfold Subscriber.finish
  split
  · rfl
  · simpa using ‹¬stream.attached = true›

/-- A stream that follows with new frames does so when it ends for too many, too. -/
theorem Joined.framed (most : Nat) (began : Handed settings clock state stream.began) (own : stream.began.epoch = state.epoch)
    (attached : stream.attached = true)
    (following : Following (state.hub settings) stream.view (state.shown stream.view stream.began.seq) (Early clock state.ring.entries) state.seq
      (stream.items ++ frames.map Held.change) window)
    (apart : state.growing = true → (∀ item ∈ stream.items, item.cursor.seq ≠ state.seq) ∧ ∀ frame ∈ frames, frame.cursor.seq ≠ state.seq) :
    Joined settings clock state (stream.framed most window frames) := by
  have all : Joined settings clock state { stream with window := window, pending := stream.pending ++ frames } := by
    have items : Subscriber.items { stream with window := window, pending := stream.pending ++ frames } = stream.items ++ frames.map Held.change := by
      simp [Subscriber.items]
    refine ⟨began, fun _ => own, fun ended => absurd (attached.symm.trans ended) (by decide), fun _ => ?_⟩
    refine ⟨?_, fun item member => ?_, fun _ => ?_⟩ <;> rw [items] at *
    · exact following.covers.reports
    · obtain ⟨upTo, own, early⟩ := following.behind item member
      refine ⟨⟨upTo, fun grows => Int.lt_iff_le_and_ne.mpr ⟨upTo, ?_⟩, early⟩, own⟩
      rcases List.mem_append.mp member with known | made
      · exact (apart grows).1 item known
      · obtain ⟨frame, isFrame, rfl⟩ := List.mem_map.mp made
        exact (apart grows).2 frame isFrame
    · exact following
  unfold Subscriber.framed Subscriber.deliver
  split
  · rename_i none_
    simpa [none_] using all
  · simp only
    split
    · exact all.finish .bye
    · exact all

/-- Where frames are handed out, the latest envelope takes no more changes. -/
theorem framed_passed (grows : state.framed frames = true) {frame : HeldChange Receipt} (member : frame ∈ frames) : frame.cursor.seq ≠ state.seq := by
  unfold State.framed at grows
  rw [Bool.and_eq_true, List.all_eq_true] at grows
  simpa using grows.2 frame member

/-! ### Where the envelopes rest -/

def Later (clock clock' : Option Nat) : Prop := ∀ time ∈ clock', ∃ before ∈ clock, before ≤ time

theorem Later.rfl : Later clock clock := fun time isTime => ⟨time, isTime, Nat.le_refl _⟩

/-- The ring's envelopes are the same, and none grows that did not. -/
structure Rests (clock : Option Nat) (state : State Receipt) (clock' : Option Nat) (state' : State Receipt) : Prop where
  entries : state'.ring.entries = state.ring.entries
  seq : state'.seq = state.seq
  epoch : state'.epoch = state.epoch
  epochs : state.epochs ≤ state'.epochs
  growing : state'.growing = true → state.growing = true
  status : state'.status = .ready → state.status = .ready
  later : Later clock clock'

variable (rests : Rests clock state clock' state')

include rests

theorem Rests.early (early : Early clock state.ring.entries position) : Early clock' state'.ring.entries position := by
  intro time isTime
  obtain ⟨before, isBefore, upTo⟩ := rests.later time isTime
  obtain ⟨start, at_, behind⟩ := early before isBefore
  exact ⟨start, Nat.le_trans at_ upTo, rests.entries ▸ behind⟩

theorem Rests.used {epoch : String} (used : Used settings state epoch) : Used settings state' epoch :=
  used.imp fun _ call => ⟨Nat.lt_of_lt_of_le call.1 rests.epochs, call.2⟩

theorem Rests.passed (passed : Passed clock state position) : Passed clock' state' position := by
  constructor
  · rw [rests.seq]
    exact passed.upTo
  · rw [rests.seq]
    exact fun grows => passed.fixed (rests.growing grows)
  · exact rests.early passed.early

theorem Rests.handed (handed : Handed settings clock state position) : Handed settings clock' state' position :=
  ⟨rests.used handed.1, fun own => rests.passed (handed.2 (own.trans rests.epoch))⟩

theorem Rests.joined (joined : Joined settings clock state stream) : Joined settings clock' state' stream := by
  have shown : state'.shown = state.shown := by
    unfold State.shown
    rw [rests.entries]
  refine ⟨rests.handed joined.began, fun attached => (joined.attached attached).trans rests.epoch.symm, joined.detached, fun own => ?_⟩
  obtain ⟨reports, passed, live⟩ := joined.follows (own.trans rests.epoch)
  refine ⟨shown ▸ reports, fun item member => ⟨rests.passed (passed item member).1, (passed item member).2.trans rests.epoch.symm⟩, fun attached => ?_⟩
  rw [shown, rests.seq, State.hub, rests.epoch]
  exact (live attached).better fun _ => rests.early

theorem Rests.sound (sound : Sound settings clock state) (evicted : Evicted settings clock' state'.ring)
    (handed : ∀ position ∈ state'.handed, position ∈ state.handed ∨ Handed settings clock' state' position)
    (joined : ∀ stream ∈ state'.subscribers, stream ∈ state.subscribers ∨ Joined settings clock' state' stream) : Sound settings clock' state' := by
  refine ⟨rests.entries ▸ sound.numbered, rests.entries ▸ rests.seq ▸ sound.count, fun time isTime first member => ?_, evicted, fun ready => ?_,
    fun position member => ?_, fun stream member => ?_⟩
  · obtain ⟨before, isBefore, upTo⟩ := rests.later time isTime
    rw [rests.entries] at member ⊢
    exact (sound.timed before isBefore first member).imp_left (Nat.le_trans · upTo)
  · exact rests.used (rests.epoch ▸ sound.ready (rests.status ready))
  · exact (handed position member).elim (fun known => rests.handed (sound.handed position known)) id
  · exact (joined stream member).elim (fun known => rests.joined (sound.joined stream known)) id

omit rests

theorem Sound.later (sound : Sound settings clock state) (later : Later clock clock') : Sound settings clock' state := by
  have rests : Rests clock state clock' state := ⟨rfl, rfl, rfl, Nat.le_refl _, id, id, later⟩
  obtain ⟨through, within, dead⟩ := sound.evicted
  refine rests.sound sound ⟨through, within, fun time isTime entry member old => ?_⟩ (fun _ => .inl) fun _ => .inl
  obtain ⟨before, isBefore, upTo⟩ := later time isTime
  have := dead before isBefore entry member old
  omega

theorem Sound.update (sound : Sound settings clock state) {index : Nat} (rests : Rests clock state clock state') (ring : state'.ring = state.ring)
    (subscribers : state'.subscribers = state.subscribers.set index stream')
    (handed : ∀ position ∈ state'.handed, position ∈ state.handed ∨ Handed settings clock state' position)
    (joined : Rests clock state clock state' → Joined settings clock state' stream') : Sound settings clock state' := by
  refine rests.sound sound (ring ▸ sound.evicted) handed fun other member => ?_
  rw [subscribers] at member
  rcases List.mem_or_eq_of_mem_set member with known | rfl
  · exact .inl known
  · exact .inr (joined rests)

theorem Sound.finishAll (sound : Sound settings clock state) (ending : EndFrame) (rests : Rests clock state clock state')
    (subscribers : state'.subscribers = state.subscribers.map fun stream => stream.finish ending) (ring : state'.ring = state.ring)
    (handed : state'.handed = state.handed) : Sound settings clock state' := by
  refine rests.sound sound (ring ▸ sound.evicted) (fun _ member => .inl (handed ▸ member)) fun other member => ?_
  rw [subscribers] at member
  obtain ⟨stream, known, rfl⟩ := List.mem_map.mp member
  exact .inr ((rests.joined (sound.joined stream known)).finish ending)

/-! ### An envelope grows -/

theorem mem_addKeys {key : String} (new keys : List String) : key ∈ new.foldl addKey keys ↔ key ∈ keys ∨ key ∈ new := by
  induction new generalizing keys with
  | nil => simp
  | cons first rest ih =>
    rw [List.foldl_cons, ih, addKey]
    grind

theorem mem_grantedKeys {scope : Option Scope} {cell : Cell} {key : String} :
    key ∈ grantedKeys scope cell ↔ key ∈ cell.keys ∧ ∃ held ∈ scope, ∀ granted ∈ held.keys, key ∈ granted := by
  unfold grantedKeys
  cases scope with
  | none => simp
  | some scope => cases isAll : scope.keys <;> simp [isAll]

/-- What a view shows of a cell, name by name. -/
theorem mem_shows {cell : Cell} : name ∈ cell.shows view ↔
    view.tables.any (cell.tag ∉ ·) = false ∧ name.1 = cell.tag ∧
    ((cell.whole = true ∧ name.2 = none ∧ (view.scopes.get cell.tag).all (·.keys = none) = true) ∨
      ∃ key ∈ cell.keys, ∃ scope ∈ view.scopes.get cell.tag, (∀ granted ∈ scope.keys, key ∈ granted) ∧ name.2 = some (scope.name, key)) := by
  obtain ⟨tag, said⟩ := name
  unfold Cell.shows project
  cases isHidden : view.tables.any (cell.tag ∉ ·) with
  | true => simp
  | false =>
    have keys := @mem_grantedKeys (view.scopes.get cell.tag) cell
    simp only [Bool.false_eq_true, if_false]
    generalize view.scopes.get cell.tag = scope at keys ⊢
    generalize grantedKeys scope cell = granted at keys ⊢
    cases isWhole : cell.whole && scope.all (·.keys = none) <;> cases granted <;> cases scope <;> simp_all <;> grind

theorem mem_shows_cells {kept : InsertionMap TableTag (Bool × List String)} : name ∈ Envelope.shows view { envelope with cells := kept } ↔
    ∃ known, kept.get name.1 = some known ∧ name ∈ Cell.shows view ⟨name.1, known.1, known.2⟩ := by
  simp only [Envelope.shows, cellsOf, List.mem_flatMap, List.mem_map, InsertionMap.get_eq_some]
  constructor
  · rintro ⟨_, ⟨entry, held, rfl⟩, shows⟩
    have tag := shows_tag shows
    exact ⟨entry.2, tag ▸ held, tag ▸ shows⟩
  · rintro ⟨known, held, shows⟩
    exact ⟨_, ⟨_, held, rfl⟩, shows⟩

theorem shows_keep {kept : InsertionMap TableTag (Bool × List String)} {cell : Cell} :
    name ∈ Envelope.shows view { envelope with cells := keepCell kept cell } ↔
      name ∈ Envelope.shows view { envelope with cells := kept } ∨ name ∈ cell.shows view := by
  rw [mem_shows_cells, mem_shows_cells, keepCell, InsertionMap.get_set]
  split
  · rename_i same
    rw [same]
    cases kept.get cell.tag <;> simp [mem_shows, mem_addKeys]
    grind
  · rename_i other
    have hidden : name ∉ cell.shows view := fun shows => other (shows_tag shows)
    simp [hidden]

theorem shows_grow : name ∈ (envelope.grow cells).shows view ↔ name ∈ envelope.shows view ∨ name ∈ cells.flatMap (Cell.shows view) := by
  suffices all : ∀ kept, name ∈ Envelope.shows view { envelope with cells := cells.foldl keepCell kept } ↔
      name ∈ Envelope.shows view { envelope with cells := kept } ∨ name ∈ cells.flatMap (Cell.shows view) from all envelope.cells
  induction cells with
  | nil => simp
  | cons cell rest ih =>
    intro kept
    rw [List.foldl_cons, ih, shows_keep, List.flatMap_cons, List.mem_append, or_assoc]

theorem numbered_last {envelopes : List Envelope} {last : Envelope} (numbered : Numbered seq envelopes)
    (is : envelopes.getLast? = some last) : last.seq = seq + envelopes.length := by
  obtain ⟨first, rfl⟩ := List.getLast?_eq_some_iff.mp is
  rw [(numbered_append.mp numbered).2.1, List.length_append, List.length_singleton]
  omega

theorem Timed.arrives {hub : Hub Receipt} {entry : Entry} (timed : Timed clock entries) (numbered : Numbered 0 (entries.map Entry.envelope))
    (member : entry ∈ entries) : Arrives hub (Early clock entries) entry.envelope := by
  have start := (numbered_mem numbered (List.mem_map_of_mem member)).1
  refine ⟨fun at_ upTo time isTime => ?_, fun time isTime => ?_⟩ <;> obtain ⟨arrived, ordered⟩ := timed time isTime entry member
  · exact ⟨by simp only; omega, Nat.le_trans upTo arrived, fun other known behind => Nat.le_trans upTo (ordered other known (Int.le_of_sub_one_lt behind))⟩
  · exact ⟨Int.le_of_lt start, arrived, fun other known behind => ordered other known (Int.le_of_lt behind)⟩

theorem Sound.upTo (sound : Sound settings clock state) {entry : Entry} (member : entry ∈ state.ring.entries) : entry.envelope.seq ≤ state.seq := by
  have within := (numbered_mem sound.numbered (List.mem_map_of_mem member)).2
  rwa [List.length_map, Int.zero_add, ← sound.count] at within

/-- The envelopes with one that is new, or with a last one that grew by some cells. -/
structure Grown (clock : Option Nat) (state : State Receipt) (first : List Entry) (last : Entry) (cells : List Cell) : Prop where
  numbered : Numbered 0 ((first ++ [last]).map Entry.envelope)
  count : last.envelope.seq = first.length + 1
  more : state.ring.entries.length ≤ first.length + 1
  fresh : ∀ position, Passed clock state position → position.seq < last.envelope.seq
  stamps : ∀ entry ∈ first ++ [last], (∃ old ∈ state.ring.entries, old.envelope.seq = entry.envelope.seq ∧ old.envelope.at_ = entry.envelope.at_) ∨
    (state.seq < entry.envelope.seq ∧ ∀ time ∈ clock, entry.envelope.at_ = time)
  late : ∀ view seq name, (∃ entry ∈ first ++ [last], entry.envelope.seq = seq ∧ name ∈ entry.envelope.shows view) ↔
    (∃ old ∈ state.ring.entries, old.envelope.seq = seq ∧ name ∈ old.envelope.shows view) ∨
    (seq = last.envelope.seq ∧ name ∈ cells.flatMap (Cell.shows view))

def State.grown (state : State Receipt) (first : List Entry) (last : Entry) : State Receipt :=
  { state with seq := last.envelope.seq, growing := true, ring := { state.ring with entries := first ++ [last] } }

variable {first : List Entry} {last : Entry}

theorem Grown.early (grown : Grown clock state first last cells) (early : Early clock state.ring.entries position) : Early clock (first ++ [last]) position := by
  intro time isTime
  obtain ⟨start, at_, behind⟩ := early time isTime
  refine ⟨start, at_, fun entry member later => ?_⟩
  rcases grown.stamps entry member with ⟨old, known, seq, same⟩ | ⟨-, is⟩
  · exact same ▸ behind old known (seq ▸ later)
  · exact is time isTime ▸ at_

/-- New cells of the last envelope reach the streams. -/
theorem Sound.append (sound : Sound settings clock state) (grown : Grown clock state first last cells) :
    Sound settings clock ((state.grown first last).append settings last.envelope cells) := by
  have next : state.seq ≤ last.envelope.seq := by
    have := sound.count
    have := grown.count
    have := grown.more
    omega
  have count : last.envelope.seq = ((first ++ [last]).length : Int) := by simpa using grown.count
  have timed : Timed clock (first ++ [last]) := by
    intro time isTime entry member
    have old := sound.timed time isTime
    have upTo := fun entry => @Sound.upTo _ _ _ _ sound entry
    have stamps := fun entry member => (grown.stamps entry member).imp_right (And.imp_right (· time isTime))
    refine ⟨?_, fun second member' => ?_⟩ <;> grind
  have evicted : Evicted settings clock ((state.grown first last).append settings last.envelope cells).ring := by
    obtain ⟨through, within, old⟩ := sound.evicted
    refine ⟨through, by simpa [State.append, State.grown] using Nat.le_trans within grown.more, fun time isTime entry member upTo => ?_⟩
    rcases grown.stamps entry member with ⟨before, known, seq, same⟩ | ⟨late, -⟩
    · exact same ▸ old time isTime before known (seq ▸ upTo)
    · have := sound.count
      simp only [State.append, State.grown] at upTo
      omega
  have handed : ∀ position, Handed settings clock state position →
      Handed settings clock ((state.grown first last).append settings last.envelope cells) position := fun position handed =>
    ⟨handed.1, fun own => have passed := handed.2 own; ⟨Int.le_of_lt (grown.fresh _ passed), fun _ => grown.fresh _ passed, grown.early passed.early⟩⟩
  refine ⟨grown.numbered, count, timed, evicted, sound.ready, fun position member => handed _ (sound.handed position member), fun stream' member => ?_⟩
  obtain ⟨_, inside, rfl⟩ := List.mem_map.mp member
  obtain ⟨stream, known, rfl⟩ := List.mem_map.mp inside
  obtain ⟨began, own, detached, follows⟩ := sound.joined stream known
  replace handed := handed _ began
  -- the frames of all streams say whether the envelope still grows
  have framed : ∀ frame ∈ (state.appendTo settings last.envelope cells stream).2,
      ((state.grown first last).append settings last.envelope cells).growing = true → frame.cursor.seq ≠ last.envelope.seq :=
    fun frame made grows => @framed_passed _ (state.grown first last) _ grows frame (List.mem_flatMap.mpr ⟨_, inside, made⟩)
  have late : stream.began.epoch = state.epoch → ∀ seq name,
      ((state.grown first last).append settings last.envelope cells).shown stream.view stream.began.seq seq name ↔
      state.shown stream.view stream.began.seq seq name ∨ (seq = last.envelope.seq ∧ name ∈ cells.flatMap (Cell.shows stream.view)) := by
    intro own seq name
    have passed := grown.fresh _ (began.2 own)
    refine (and_congr_right fun _ => grown.late stream.view seq name).trans ⟨?_, ?_⟩
    · rintro ⟨behind, known | new⟩
      · exact .inl ⟨behind, known⟩
      · exact .inr new
    · rintro (⟨behind, known⟩ | ⟨rfl, shows⟩)
      · exact ⟨behind, .inl known⟩
      · exact ⟨passed, .inr ⟨rfl, shows⟩⟩
  have fresh : stream.began.epoch = state.epoch → ∀ item ∈ stream.items, item.cursor.seq < last.envelope.seq :=
    fun own item member => grown.fresh _ ((follows own).passed item member).1
  change Joined settings clock _ (state.appendTo settings last.envelope cells stream).1
  unfold State.appendTo at framed ⊢
  cases isAttached : stream.attached with
  | false =>
    refine ⟨handed, fun attached => absurd (isAttached.symm.trans attached) (by decide), detached, fun own => ?_⟩
    refine ⟨(follows own).reports.more (fun seq name isShown => (late own seq name).mpr (.inl isShown)) fun seq name isShown =>
      ((late own seq name).mp isShown).imp_right ?_, fun item member => ?_, fun attached => absurd (isAttached.symm.trans attached) (by decide)⟩
    · rintro ⟨rfl, -⟩
      exact fresh own
    · have upTo := fresh own item member
      obtain ⟨passed, epoch⟩ := (follows own).passed item member
      exact ⟨⟨Int.le_of_lt upTo, fun _ => upTo, grown.early passed.early⟩, epoch⟩
  | true =>
    rw [isAttached] at framed
    have own := own isAttached
    have following := ((follows own).live isAttached).better fun _ => grown.early
    exact .framed _ handed own isAttached (following.append cells (fresh own) next (late own) (timed.arrives grown.numbered (by simp)))
      fun grows => ⟨fun item member => Int.ne_of_lt (fresh own item member), fun frame made => framed frame made grows⟩

/-! ### What each action preserves -/

theorem Sound.beginEpoch (sound : Sound settings clock state) (fresh : Function.Injective settings.nextEpoch) :
    Sound settings clock (state.beginEpoch settings) := by
  unfold State.beginEpoch
  simp only
  split
  · exact sound.finishAll .gap ⟨rfl, rfl, rfl, Nat.le_succ _, id, fun ready => (by cases ready), .rfl⟩ rfl rfl rfl
  · -- no position of the new epoch was handed out
    have other : ∀ epoch, Used settings state epoch → epoch ≠ settings.nextEpoch state.epochs := by
      rintro _ ⟨call, before, rfl⟩ same
      exact absurd (fresh same) (Nat.ne_of_lt before)
    have used : ∀ epoch, Used settings state epoch → ∃ call < state.epochs + 1, settings.nextEpoch call = epoch :=
      fun _ used => used.imp fun _ call => ⟨Nat.lt_succ_of_lt call.1, call.2⟩
    refine ⟨trivial, rfl, fun _ _ _ member => (by cases member), ⟨rfl, Nat.le_refl _, fun _ _ _ member => (by cases member)⟩,
      fun _ => ⟨state.epochs, Nat.lt_succ_self _, rfl⟩, fun position member => ?_, fun _ member => ?_⟩
    · have handed := (sound.handed position member).1
      exact ⟨used _ handed, fun same => absurd same (other _ handed)⟩
    · obtain ⟨stream, known, rfl⟩ := List.mem_map.mp member
      have joined := (sound.joined stream known).finish .gap
      have apart := other _ joined.began.1
      exact ⟨⟨used _ joined.began.1, fun same => absurd same apart⟩, fun attached => absurd ((finish_detached stream .gap).symm.trans attached) (by decide),
        joined.detached, fun same => absurd same apart⟩

theorem Grown.joins {txid : Option String} {bytes : Nat} (numbered : Numbered 0 (first.map Entry.envelope)) (is : envelope.seq = first.length + 1)
    (more : state.ring.entries.length ≤ first.length + 1) (within : first ⊆ state.ring.entries)
    (fresh : ∀ position, Passed clock state position → position.seq < envelope.seq)
    (stamp : (∃ old ∈ state.ring.entries, old.envelope.seq = envelope.seq ∧ old.envelope.at_ = envelope.at_) ∨
      (state.seq < envelope.seq ∧ ∀ time ∈ clock, envelope.at_ = time))
    (known : ∀ view seq name, (∃ old ∈ state.ring.entries, old.envelope.seq = seq ∧ name ∈ old.envelope.shows view) ↔
      (∃ old ∈ first, old.envelope.seq = seq ∧ name ∈ old.envelope.shows view) ∨ (envelope.seq = seq ∧ name ∈ envelope.shows view)) :
    Grown clock state first ⟨envelope.grow cells, txid, bytes⟩ cells := by
  refine ⟨?_, is, more, fresh, fun entry member => ?_, fun view seq name => ?_⟩
  · rw [List.map_append, numbered_append, List.length_map, Int.zero_add]
    exact ⟨numbered, is, trivial⟩
  · rcases List.mem_append.mp member with member | new
    · exact .inl ⟨entry, within member, rfl, rfl⟩
    · exact List.mem_singleton.mp new ▸ stamp
  · simp only [known, List.mem_append, List.mem_singleton, or_and_right, exists_or, exists_eq_left, shows_grow]
    rw [show (envelope.grow cells).seq = envelope.seq from rfl]
    grind

/-- What a change does: it adds nothing, or overloads the ring, or makes an envelope, or joins the latest, which grows. -/
theorem Sound.change_cases (sound : Sound settings clock state) (change : Change) (now : Nat) :
    state.change settings change now = state ∨ state.change settings change now = state.beginEpoch settings ∨ ∃ cells bytes,
      (∃ new : Envelope, new = ⟨state.seq + 1, now, .empty, change.txid.filter settings.hasReceipt⟩ ∧ state.change settings change now =
        (state.grown state.ring.entries ⟨new.grow cells, change.txid, bytes⟩).append settings (new.grow cells) cells) ∨
      ∃ first entry, state.growing = true ∧ entry.envelope.seq = state.seq ∧ state.ring.entries = first ++ [entry] ∧
        state.change settings change now =
          (state.grown first ⟨entry.envelope.grow cells, entry.txid, bytes⟩).append settings (entry.envelope.grow cells) cells := by
  unfold State.change
  simp only
  generalize stagedCells (change.tags.foldl (stage ((state.target change).map Entry.envelope)) .empty) = staged
  generalize (if (state.target change).isNone = true then envelopeBytes else 0) + (staged.map settings.cellBytes).sum = bytes
  generalize staged.map Prod.fst = cells
  split
  · exact .inl rfl
  split
  · exact .inr (.inl rfl)
  split
  · exact .inr (.inr ⟨cells, bytes, .inl ⟨_, rfl, rfl⟩⟩)
  · rename_i entry isTarget
    unfold State.target Ring.latest at isTarget
    split at isTarget
    case isFalse => cases isTarget
    rename_i grows
    obtain ⟨first, isEntries⟩ := List.getLast?_eq_some_iff.mp (Option.filter_eq_some_iff.mp isTarget).1
    have numbered := sound.numbered
    rw [isEntries, List.map_append, numbered_append] at numbered
    have seq : entry.envelope.seq = state.seq := by simpa [isEntries, sound.count] using numbered.2.1
    have growing : state.growing = true := (Bool.and_eq_true_iff.mp grows).1
    exact .inr (.inr ⟨cells, entry.bytes + bytes, .inr ⟨first, entry, growing, seq, isEntries, by
      simp [State.grown, isEntries, Envelope.grow, seq, growing]⟩⟩)

theorem Sound.attach (sound : Sound settings clock state) (ready : state.status = .ready) {growing : Bool} {preamble : List (Held Receipt)}
    (begins : ∃ resume, .begins resume position ∈ preamble)
    (grows : growing = true → state.growing = true ∧ ∀ item ∈ preamble, item.cursor.seq ≠ state.seq)
    (following : Following (state.hub settings) view (state.shown view position.seq) (Early clock state.ring.entries) state.seq preamble window) :
    Sound settings clock (state.attach growing view position preamble window) := by
  have rests : Rests clock state clock (state.attach growing view position preamble window) :=
    ⟨rfl, rfl, rfl, Nat.le_refl _, fun isGrowing => (grows isGrowing).1, id, .rfl⟩
  refine rests.sound sound sound.evicted (fun _ => .inl) fun stream member => ?_
  refine (List.mem_append.mp member).imp_right fun new => ?_
  obtain rfl := List.mem_singleton.mp new
  have all : Subscriber.items (⟨view, position, preamble, [], window, none, false, true, []⟩ : Subscriber Receipt) = preamble := by
    simp [Subscriber.items]
  have passed : ∀ item ∈ preamble, Passed clock (state.attach growing view position preamble window) item.cursor ∧ item.cursor.epoch = state.epoch := by
    intro item member
    obtain ⟨upTo, own, early⟩ := following.behind item member
    exact ⟨⟨upTo, fun isGrowing => Int.lt_iff_le_and_ne.mpr ⟨upTo, (grows isGrowing).2 item member⟩, early⟩, own⟩
  obtain ⟨resume, begins⟩ := begins
  obtain ⟨upTo, own⟩ := passed _ begins
  refine ⟨⟨(congrArg (Used settings state) own).mpr (sound.ready ready), fun _ => upTo⟩, fun _ => own, fun ended => (by cases ended), fun _ => ?_⟩
  refine ⟨?_, ?_, fun _ => ?_⟩ <;> rw [all]
  · exact following.covers.reports
  · exact passed
  · exact following

/-- What the ring keeps behind a position is all that came behind it. -/
theorem Sound.after (sound : Sound settings clock state) {envelopes : List Envelope} (is : state.ring.after seq state.seq = some envelopes) :
    envelopes = (state.ring.entries.map Entry.envelope).drop seq.toNat ∧ 0 ≤ seq ∧ seq ≤ state.seq := by
  unfold Ring.after Ring.kept at is
  obtain ⟨through, within⟩ := sound.evicted
  have count := sound.count
  split at is
  · cases is
  rename_i young
  rw [not_or, Int.not_lt, Int.not_lt] at young
  refine ⟨?_, by omega, young.2⟩
  split at is
  · rename_i none_
    cases is
    have := List.drop_eq_nil_iff.mp none_
    rw [List.drop_eq_nil_iff.mpr]
    rw [List.length_map]
    omega
  · rename_i first rest isKept
    cases is
    have numbered := sound.numbered
    rw [← List.take_append_drop state.ring.head state.ring.entries, isKept, List.map_append, numbered_append, List.length_map,
      List.length_take, Nat.min_eq_left within] at numbered
    have is := numbered.2.1
    rw [List.drop_drop, List.map_drop]
    congr 1
    omega

variable {now : Nat} (isNow : ∀ time ∈ clock, time = now)

include isNow

theorem Sound.evict (sound : Sound settings clock state) :
    Sound settings clock { state with ring := state.ring.evict settings.limits.replayMs now } := by
  have rests : Rests clock state clock { state with ring := state.ring.evict settings.limits.replayMs now } :=
    ⟨rfl, rfl, rfl, Nat.le_refl _, id, id, .rfl⟩
  refine rests.sound sound ?_ (fun _ => .inl) fun _ => .inl
  obtain ⟨through, within, dead⟩ := sound.evicted
  have numbered := sound.numbered
  have entries := List.take_append_drop state.ring.head state.ring.entries
  rw [← entries, List.map_append, numbered_append, List.length_map, List.length_take, Nat.min_eq_left within, Int.zero_add] at numbered
  have count := List.length_drop (i := state.ring.head) (l := state.ring.entries)
  unfold Ring.evict Ring.kept
  generalize state.ring.entries.drop state.ring.head = kept at numbered count entries
  generalize isOld : kept.takeWhile (fun entry => decide (settings.limits.replayMs < now - entry.envelope.at_)) = old
  obtain ⟨rest, rfl⟩ := isOld ▸ List.takeWhile_prefix (fun entry : Entry => decide (settings.limits.replayMs < now - entry.envelope.at_)) (l := kept)
  rw [List.length_append] at count
  rw [List.map_append, numbered_append, List.length_map] at numbered
  refine ⟨?_, by simp only; omega, fun time isTime entry member upTo => ?_⟩
  · cases isLast : old.getLast? with
    | none =>
      rw [List.getLast?_eq_none_iff] at isLast
      simpa [isLast] using through
    | some last =>
      have isLast' : (old.map Entry.envelope).getLast? = some last.envelope := by rw [List.getLast?_map, isLast, Option.map_some]
      simpa [isLast] using numbered_last numbered.2.1 isLast'
  · simp only at member upTo
    rw [← entries, List.mem_append, List.mem_append] at member
    rcases member with before | now_ | after
    · have place := (numbered_mem numbered.1 (List.mem_map_of_mem before)).2
      rw [List.length_map, List.length_take] at place
      exact dead time isTime entry (List.mem_of_mem_take before) (by omega)
    · rw [isNow time isTime]
      exact of_decide_eq_true (List.all_eq_true.mp (isOld ▸ List.all_takeWhile) entry now_)
    · have place := (numbered_mem numbered.2.2 (List.mem_map_of_mem after)).1
      omega

theorem Sound.change (sound : Sound settings clock state) (fresh : Function.Injective settings.nextEpoch)
    (change : Change) : Sound settings clock (state.change settings change now) := by
  have count := sound.count
  obtain same | same | ⟨cells, bytes, ⟨new, isNew, same⟩ | ⟨first, entry, growing, seq, isEntries, same⟩⟩ := sound.change_cases change now <;> rw [same]
  · exact sound
  · exact sound.beginEpoch fresh
  · have next : state.seq < new.seq := isNew ▸ Int.lt_succ _
    have grown := @Grown.joins _ state new cells clock state.ring.entries change.txid bytes sound.numbered (isNew ▸ congrArg (· + 1) count) (Nat.le_succ _)
      (List.Subset.refl _) (fun _ passed => Int.lt_of_le_of_lt passed.upTo next) (.inr ⟨next, fun time isTime => isNew ▸ (isNow time isTime).symm⟩)
      fun view _ _ => by simp [isNew, Envelope.shows, cellsOf, InsertionMap.empty]
    exact sound.append grown
  · have numbered := sound.numbered
    rw [isEntries, List.map_append, numbered_append, List.length_map, Int.zero_add] at numbered
    have grown := @Grown.joins _ state entry.envelope cells clock first entry.txid bytes numbered.1 numbered.2.1 (by simp [isEntries]) (by simp [isEntries])
      (fun _ passed => seq ▸ passed.fixed growing) (.inl ⟨entry, by simp [isEntries], rfl, rfl⟩) fun view _ _ => by
        simp only [isEntries, List.mem_append, List.mem_singleton, or_and_right, exists_or, exists_eq_left]
    exact sound.append grown

/-- A frame can stand at the latest envelope now. -/
theorem Sound.closing {at_ : Nat} (sound : Sound settings clock state) (upTo : at_ ≤ now) :
    Early clock state.ring.entries ⟨state.epoch, state.seq, at_⟩ := fun time isTime =>
  ⟨sound.count ▸ Int.natCast_nonneg _, isNow time isTime ▸ upTo, fun _ member behind => absurd (sound.upTo member) (Int.not_le.mpr behind)⟩

theorem Sound.reset (sound : Sound settings clock state) (ready : state.status = .ready) (view : View) :
    Sound settings clock (state.reset view now) := by
  -- nothing is behind the latest envelope
  have nothing : ∀ seq name, ¬ state.shown view state.seq seq name := by
    rintro _ name ⟨behind, entry, member, rfl, -⟩
    exact absurd (sound.upTo member) (Int.not_le.mpr behind)
  have begins := @Following.begins _ (state.hub settings) view _ _ ⟨state.epoch, state.seq, now⟩ false nothing rfl (sound.closing isNow (Nat.le_refl _))
  exact sound.attach ready ⟨_, List.mem_singleton.mpr rfl⟩ (fun grows => (by cases grows)) begins

theorem Sound.resume (sound : Sound settings clock state) (ready : state.status = .ready)
    {envelopes : List Envelope} (handed : position ∈ state.handed) (view : View) (is : state.replayAfter settings position now = some envelopes) :
    let replay := (state.hub settings).replayInto view none envelopes now
    Sound settings clock (state.attach (state.framed replay.frames) view position (.begins true position :: replay.frames.map Held.change) replay.window) := by
  intro replay
  unfold State.replayAfter at is
  split at is
  · cases is
  rename_i own
  rw [not_or, not_not] at own
  obtain ⟨kept, from_, upTo⟩ := sound.after is
  have count := sound.count
  have split := sound.numbered
  rw [← List.take_append_drop position.seq.toNat (state.ring.entries.map Entry.envelope), ← kept, numbered_append, List.length_take,
    List.length_map, Nat.min_eq_left (by omega), Int.zero_add, Int.toNat_of_nonneg from_] at split
  have passed := (sound.handed position handed).2 own.1
  have start : Replays (state.hub settings) view [.begins true position] (fun _ _ => False) (Early clock state.ring.entries) position.seq ⟨none, none, []⟩ :=
    ⟨fun _ held => (by cases held), .begins (fun _ _ => id) own.1 passed.early⟩
  have late : ∀ seq name, state.shown view position.seq seq name ↔
      False ∨ ∃ envelope ∈ envelopes, seq = envelope.seq ∧ name ∈ envelope.shows view := by
    intro seq name
    rw [false_or]
    constructor
    · rintro ⟨later, entry, member, rfl, shows⟩
      have inside := List.mem_map_of_mem (f := Entry.envelope) member
      rw [← List.take_append_drop position.seq.toNat (state.ring.entries.map Entry.envelope), ← kept] at inside
      refine ⟨entry.envelope, (List.mem_append.mp inside).resolve_left fun early => ?_, rfl, shows⟩
      have := (numbered_mem split.1 early).2
      rw [List.length_take] at this
      omega
    · rintro ⟨envelope, member, rfl, shows⟩
      obtain ⟨entry, isEntry, rfl⟩ := List.mem_map.mp (List.mem_of_mem_drop (kept ▸ member))
      exact ⟨(numbered_mem split.2 member).1, entry, isEntry, rfl, shows⟩
  have arrive : ∀ envelope ∈ envelopes, Arrives (state.hub settings) (Early clock state.ring.entries) envelope := by
    intro envelope member
    obtain ⟨entry, isEntry, rfl⟩ := List.mem_map.mp (List.mem_of_mem_drop (kept ▸ member))
    exact sound.timed.arrives sound.numbered isEntry
  have replays := start.run envelopes split.2 arrive late
  have last : position.seq + envelopes.length = state.seq := by
    rw [kept, List.length_drop, List.length_map]
    omega
  rw [last] at replays
  have following := (replays.expire fun _ => sound.closing isNow).following
  refine sound.attach ready ⟨true, by simp⟩ (fun grows => ⟨(Bool.and_eq_true_iff.mp grows).1, fun item member => ?_⟩) following
  rcases List.mem_cons.mp member with rfl | made
  · exact Int.ne_of_lt (passed.fixed (Bool.and_eq_true_iff.mp grows).1)
  · obtain ⟨frame, isFrame, rfl⟩ := List.mem_map.mp made
    exact framed_passed grows isFrame

theorem Sound.attachAt (sound : Sound settings clock state) (ready : state.status = .ready)
    (cursor : Option CursorPosition) (view : View) : Sound settings clock (state.attachAt settings cursor view now) := by
  unfold State.attachAt
  split
  · exact sound.reset isNow ready view
  · rename_i position isPosition
    split
    · exact sound.reset isNow ready view
    · exact sound.resume isNow ready (by simpa using (Option.filter_eq_some_iff.mp isPosition).2) view ‹_›

theorem Sound.closeWindow (sound : Sound settings clock state) {items : List (Held Receipt)} {began : Int}
    (live : Following (state.hub settings) view (state.shown view began) (Early clock state.ring.entries) state.seq items window) :
    Following (state.hub settings) view (state.shown view began) (Early clock state.ring.entries) state.seq
      (items ++ ((state.hub settings).closeWindow window (state.ring.latest.map Entry.envelope) now).map Held.change) none := by
  unfold Hub.closeWindow
  cases window with
  | none => simpa using live
  | some closed =>
    cases isLast : state.ring.latest with
    | none =>
      -- no envelope is there
      have nothing : ∀ seq name, ¬ state.shown view began seq name := by
        rintro _ name ⟨-, entry, member, -⟩
        rw [List.getLast?_eq_none_iff.mp isLast] at member
        cases member
      exact ⟨⟨.none, fun _ held => (by cases held)⟩, fun _ held => (by cases held), ⟨by simpa using live.covers.reports,
        fun seq name isShown => absurd isShown (nothing seq name), fun _ held => (by cases held)⟩, by simpa using live.behind⟩
    | some last =>
      have isLast' : (state.ring.entries.map Entry.envelope).getLast? = some last.envelope := by
        rw [List.getLast?_map, ← Ring.latest, isLast, Option.map_some]
      have is := numbered_last sound.numbered isLast'
      rw [List.length_map, Int.zero_add, ← sound.count] at is
      have closing := sound.closing isNow (Nat.le_refl now)
      rw [← is] at live closing ⊢
      exact live.close closing

theorem Sound.timer (sound : Sound settings clock state) (index : Nat) : Sound settings clock (state.timer settings index now) := by
  unfold State.timer
  split
  · exact sound
  rename_i stream isStream
  have joined := sound.joined stream (List.mem_of_getElem? isStream)
  have growing : ∀ {frames : List (HeldChange Receipt)}, state.framed frames = true → state.growing = true :=
    fun grows => (Bool.and_eq_true_iff.mp grows).1
  refine sound.update ⟨rfl, rfl, rfl, Nat.le_refl _, growing, id, .rfl⟩ rfl rfl (fun _ member => .inl member) fun rests => ?_
  cases isAttached : stream.attached with
  | false =>
    have isWindow := (joined.detached isAttached).2.2
    have same : stream.framed settings.limits.subscriberFrames none [] = stream := by
      simp [Subscriber.framed, ← isWindow]
    rw [isWindow] at rests ⊢
    exact (congrArg (Joined settings clock _) same).mpr (rests.joined joined)
  | true =>
    have own := joined.attached isAttached
    have follows := joined.follows own
    have following := sound.closeWindow isNow (follows.live isAttached)
    refine .framed _ (rests.handed joined.began) own isAttached following fun grows => ⟨fun item member => ?_, fun _ => framed_passed grows⟩
    exact Int.ne_of_lt ((follows.passed item member).1.fixed (growing grows))

omit isNow

theorem Sound.pull (sound : Sound settings clock state) (index : Nat) : Sound settings clock (state.pull index) := by
  unfold State.pull
  split
  · exact sound
  rename_i stream isStream
  have joined := sound.joined stream (List.mem_of_getElem? isStream)
  -- an item moves from what is left to what was yielded
  obtain ⟨items, view, began, window, attached, detached, given⟩ : stream.take.1.items = stream.items ∧ stream.take.1.view = stream.view ∧
      stream.take.1.began = stream.began ∧ stream.take.1.window = stream.window ∧ stream.take.1.attached = stream.attached ∧
      (stream.attached = false → stream.take.1.preamble = [] ∧ stream.take.1.pending = []) ∧
      ∀ item ∈ stream.take.2, item ∈ stream.items ∧ stream.attached = true := by
    have detached := joined.detached
    unfold Subscriber.take Subscriber.items
    cases isPreamble : stream.preamble <;> cases isPending : stream.pending <;> cases isAttached : stream.attached <;> simp_all
  refine sound.update ⟨rfl, rfl, rfl, Nat.le_refl _, id, id, .rfl⟩ rfl rfl (fun position member => (List.mem_append.mp member).imp_right fun new => ?_)
    fun rests => rests.joined ?_
  · obtain ⟨item, isItem, rfl⟩ := Option.map_eq_some_iff.mp (Option.mem_toList.mp new)
    obtain ⟨inside, isAttached⟩ := given item isItem
    obtain ⟨passed, epoch⟩ := (joined.follows (joined.attached isAttached)).passed item inside
    exact ⟨epoch ▸ joined.attached isAttached ▸ joined.began.1, fun _ => ⟨passed.upTo, passed.fixed, passed.early⟩⟩
  · refine ⟨began ▸ joined.began, began ▸ attached ▸ joined.attached, fun ended => ?_, fun own => ?_⟩
    · rw [attached] at ended
      exact ⟨(detached ended).1, (detached ended).2, window ▸ (joined.detached ended).2.2⟩
    · obtain ⟨reports, passed, live⟩ := joined.follows (began ▸ own)
      exact ⟨by rw [items, view, began]; exact reports, by rw [items]; exact passed, by rw [items, view, began, window, attached]; exact live⟩

/-- An action keeps all this, and a clock that did not go back shows its time then. -/
theorem Sound.step (sound : Sound settings clock state) (fresh : Function.Injective settings.nextEpoch) (action : Action)
    (forward : ∀ time ∈ clock, ∀ now ∈ action.now, time ≤ now) :
    Sound settings (clock.map fun time => action.now.getD time) (step settings state action) := by
  have later : Later clock (clock.map fun time => action.now.getD time) := by
    intro time isTime
    obtain ⟨before, isBefore, rfl⟩ := Option.map_eq_some_iff.mp isTime
    refine ⟨before, isBefore, ?_⟩
    cases isNow : action.now with
    | none => exact Nat.le_refl _
    | some now => exact forward before isBefore now isNow
  have isNow : ∀ now ∈ action.now, ∀ time ∈ clock.map fun time => action.now.getD time, time = now := by
    rintro now isNow time isTime
    obtain ⟨_, -, rfl⟩ := Option.map_eq_some_iff.mp isTime
    rw [Option.mem_def.mp isNow, Option.getD_some]
  replace sound := sound.later later
  generalize clock.map (fun time => action.now.getD time) = clock at sound isNow
  cases action with
  | ready =>
    rw [Live.step]
    split
    · exact sound
    · exact sound.beginEpoch fresh
  | gap =>
    change Sound settings clock state.gap
    unfold State.gap
    split
    · exact sound
    · exact sound.finishAll .gap ⟨rfl, rfl, rfl, Nat.le_refl _, fun grows => (by cases grows), fun ready => (by cases ready), .rfl⟩ rfl rfl rfl
  | change change now =>
    change Sound settings clock (state.receive settings change now)
    unfold State.receive
    split
    · exact (sound.evict (isNow now rfl)).change (isNow now rfl) fresh change
    · exact sound
  | open_ cursor view now =>
    change Sound settings clock (state.open_ settings cursor view now)
    unfold State.open_
    split
    · exact (sound.evict (isNow now rfl)).attachAt (isNow now rfl) ‹_› cursor view
    · exact sound
  | timer index now => exact sound.timer (isNow now rfl) index
  | pull index => exact sound.pull index
  | abort index =>
    change Sound settings clock (state.abort index)
    unfold State.abort
    split
    · exact sound
    · rename_i stream isStream
      have joined := (sound.joined stream (List.mem_of_getElem? isStream)).ended none true
      exact sound.update ⟨rfl, rfl, rfl, Nat.le_refl _, id, id, .rfl⟩ rfl rfl (fun _ member => .inl member) fun rests => rests.joined joined
  | cursor now =>
    change Sound settings clock (state.cursor now)
    unfold State.cursor
    split
    · rename_i ready
      have rests : Rests clock state clock { state with growing := false, handed := state.handed ++ [⟨state.epoch, state.seq, now⟩] } :=
        ⟨rfl, rfl, rfl, Nat.le_refl _, fun grows => (by cases grows), id, .rfl⟩
      refine rests.sound sound sound.evicted (fun position member => (List.mem_append.mp member).imp_right fun new => ?_) fun _ => .inl
      rw [List.mem_singleton.mp new]
      exact ⟨sound.ready ready, fun _ => ⟨Int.le_refl _, fun grows => (by cases grows), sound.closing (isNow now rfl) (Nat.le_refl _)⟩⟩
    · exact sound
  | stop => exact sound.finishAll .bye ⟨rfl, rfl, rfl, Nat.le_refl _, id, fun ready => (by cases ready), .rfl⟩ rfl rfl rfl

/-- Along a run whose clock does not go back all this holds, and with any later time at its end. -/
theorem run_sound (fresh : Function.Injective settings.nextEpoch) (actions : List Action) (now : Nat)
    (forward : ∀ time ∈ clock, (time :: (actions.filterMap Action.now ++ [now])).Pairwise (· ≤ ·)) :
    Sound settings (clock.map fun _ => now) (run settings actions) := by
  have start : Sound settings clock (.start : State Receipt) :=
    ⟨trivial, rfl, fun _ _ _ member => (by cases member), ⟨rfl, Nat.le_refl _, fun _ _ _ member => (by cases member)⟩, fun ready => (by cases ready),
      fun _ member => (by cases member), fun _ member => (by cases member)⟩
  unfold run
  generalize State.start = state at start ⊢
  induction actions generalizing state clock with
  | nil =>
    refine start.later fun time isTime => ?_
    obtain ⟨before, isBefore, rfl⟩ := Option.map_eq_some_iff.mp isTime
    exact ⟨before, isBefore, List.rel_of_pairwise_cons (forward before isBefore) (by simp)⟩
  | cons action rest ih =>
    have next := start.step fresh action fun time isTime now isNow => List.rel_of_pairwise_cons (forward time isTime) (by simp [Option.mem_def.mp isNow])
    have run := ih ?_ _ next
    · rwa [Option.map_map] at run
    · intro time isTime
      obtain ⟨before, isBefore, rfl⟩ := Option.map_eq_some_iff.mp isTime
      have := forward before isBefore
      cases isNow : action.now <;> simp_all

/-- What a client handled, connection after connection: each resumed at the last position of the one before. -/
inductive Handled (state : State Receipt) (view : View) (began : CursorPosition) : List (Held Receipt) → CursorPosition → Prop where
  | first {stream : Subscriber Receipt} {items rest : List (Held Receipt)} {last : Held Receipt} : stream ∈ state.subscribers →
      stream.view = view → stream.began = began → stream.yielded = items ++ last :: rest →
      Handled state view began (items ++ [last]) last.cursor
  | resumed {stream : Subscriber Receipt} {handled items rest : List (Held Receipt)} {last : Held Receipt} {position : CursorPosition} :
      Handled state view began handled position → stream ∈ state.subscribers → stream.view = view → stream.began = position →
      stream.yielded = items ++ last :: rest → Handled state view began (handled ++ (items ++ [last])) last.cursor

/-! ### A client that resumes behind a change of one member, and takes what it missed -/

def memberTable : TableTag := ⟨"public", "members"⟩

def memberSettings : Settings String :=
  ⟨⟨20, 100, 10000, 1000, 8⟩, id, fun _ => true, fun call => String.ofList (List.replicate 12 'a' ++ List.replicate call 'b'),
    TableTag.table, String.length⟩

theorem memberSettings_fresh : Function.Injective memberSettings.nextEpoch := by
  intro first second same
  simpa [memberSettings] using congrArg List.length (String.ofList_injective same)

def memberActions : List Action :=
  [.ready, .cursor 100, .change ⟨[(memberTable, some ["7"])], some "741"⟩ 110, .open_ (some ⟨"aaaaaaaaaaaa", 0, 100⟩) orgView 115,
    .timer 0 130, .pull 0, .pull 0]

def memberEntry : Entry := ⟨⟨1, 110, InsertionMap.empty.set memberTable (false, ["7"]), some "741"⟩, some "741", 112⟩

def memberItems : List (Held String) :=
  [.begins true ⟨"aaaaaaaaaaaa", 0, 100⟩, .change ⟨[⟨memberTable, some ("org", ["7"])⟩], ["741"], ⟨"aaaaaaaaaaaa", 1, 130⟩⟩]

def memberStream : Subscriber String := ⟨orgView, ⟨"aaaaaaaaaaaa", 0, 100⟩, [], [], none, none, false, true, memberItems⟩

theorem member_run : (run memberSettings memberActions).subscribers = [memberStream] ∧
    (run memberSettings memberActions).ring.entries = [memberEntry] := ⟨rfl, rfl⟩

/-- In every run of the hub, whatever a client's view shows of the envelopes between the position its first connection began at and the
last position it handled is named by a frame it handled, also what joined an envelope after that. What an open stream's view shows
of later envelopes is in what it has still to yield, or in its window. -/
theorem misses_nothing (settings : Settings Receipt) (fresh : Function.Injective settings.nextEpoch) (actions : List Action) :
    (∀ view began handled last, Handled (run settings actions) view began handled last → began.epoch = (run settings actions).epoch →
      ∀ entry ∈ (run settings actions).ring.entries, began.seq < entry.envelope.seq → entry.envelope.seq ≤ last.seq →
        ∀ name ∈ entry.envelope.shows view, Tells handled name) ∧
    ∀ stream ∈ (run settings actions).subscribers, stream.attached = true →
      ∀ entry ∈ (run settings actions).ring.entries, stream.began.seq < entry.envelope.seq →
        ∀ name ∈ entry.envelope.shows stream.view, Tells stream.items name ∨ ∃ window ∈ stream.window, window.Saw name := by
  have sound := @run_sound _ settings none fresh actions 0 fun _ held => (by cases held)
  generalize run settings actions = state at sound ⊢
  have told : ∀ stream ∈ state.subscribers, stream.began.epoch = state.epoch → ∀ items last rest, stream.yielded = items ++ last :: rest →
      last.cursor.epoch = state.epoch ∧ ∀ entry ∈ state.ring.entries, stream.began.seq < entry.envelope.seq → entry.envelope.seq ≤ last.cursor.seq →
        ∀ name ∈ entry.envelope.shows stream.view, Tells (items ++ [last]) name := by
    intro stream known own items last rest split
    have follows := (sound.joined stream known).follows own
    have all : stream.items = items ++ last :: (rest ++ (stream.preamble ++ stream.pending.map Held.change)) := by
      simp [Subscriber.items, split]
    refine ⟨(follows.passed last (by simp [all])).2, fun entry member behind upTo name shows => ?_⟩
    exact follows.reports.told items last _ all _ name ⟨behind, entry, member, rfl, shows⟩ upTo
  refine ⟨fun view began handled last client own => ?_, fun stream known attached entry member behind name shows => ?_⟩
  · suffices both : last.epoch = state.epoch ∧ ∀ entry ∈ state.ring.entries, began.seq < entry.envelope.seq →
        entry.envelope.seq ≤ last.seq → ∀ name ∈ entry.envelope.shows view, Tells handled name from both.2
    induction client with
    | first known isView isBegan split =>
      subst isView isBegan
      exact told _ known own _ _ _ split
    | @resumed stream _ _ _ _ _ _ known isView isBegan split ih =>
      subst isView isBegan
      obtain ⟨epoch, before⟩ := ih
      obtain ⟨epoch', after⟩ := told _ known epoch _ _ _ split
      refine ⟨epoch', fun entry member behind upTo name shows => ?_⟩
      by_cases early : entry.envelope.seq ≤ stream.began.seq
      · exact (before entry member behind early name shows).mono (by simp)
      · exact (after entry member (Int.not_le.mp early) upTo name shows).mono (by simp)
  · have joined := sound.joined stream known
    have held := ((joined.follows (joined.attached attached)).live attached).covers.held _ name ⟨behind, entry, member, rfl, shows⟩
    exact held.imp_right fun ⟨window, isWindow, _, holds⟩ => ⟨window, isWindow, holds⟩

theorem misses_nothing_member : Tells memberItems (memberTable, some ("org", "7")) := by
  have known : memberStream ∈ (run memberSettings memberActions).subscribers := List.mem_singleton.mpr rfl
  have handled : Handled (run memberSettings memberActions) orgView ⟨"aaaaaaaaaaaa", 0, 100⟩ memberItems ⟨"aaaaaaaaaaaa", 1, 130⟩ :=
    @Handled.first _ _ _ _ memberStream [_] [] _ known rfl rfl rfl
  exact (misses_nothing memberSettings memberSettings_fresh memberActions).1 _ _ _ _ handled rfl memberEntry (List.mem_singleton.mpr rfl)
    (by decide) (by decide) _ (by decide)

/-- No stream is told what its view hides, or what is not there: in every run, a name in a frame of this epoch, or in a window, is one that
the stream's view shows of an envelope behind the position the stream began at. -/
theorem tells_only_shown (settings : Settings Receipt) (fresh : Function.Injective settings.nextEpoch) (actions : List Action) :
    ∀ stream ∈ (run settings actions).subscribers, stream.began.epoch = (run settings actions).epoch → ∀ name : Name,
      (∃ item ∈ stream.items, name ∈ item.names) ∨ (∃ window ∈ stream.window, window.Saw name) →
        ∃ entry ∈ (run settings actions).ring.entries, stream.began.seq < entry.envelope.seq ∧ name ∈ entry.envelope.shows stream.view := by
  intro stream known own name told
  have joined := (@run_sound _ settings none fresh actions 0 fun _ held => (by cases held)).joined stream known
  have follows := joined.follows own
  suffices shown : ∃ seq, (run settings actions).shown stream.view stream.began.seq seq name by
    obtain ⟨_, behind, entry, member, rfl, shows⟩ := shown
    exact ⟨entry, member, behind, shows⟩
  rcases told with ⟨item, member, named⟩ | ⟨window, isWindow, saw⟩
  · exact follows.reports.only item member name named
  · cases isAttached : stream.attached with
    | true => exact (follows.live isAttached).covers.seen window isWindow name saw
    | false =>
      rw [(joined.detached isAttached).2.2] at isWindow
      cases isWindow

theorem tells_only_shown_member : ∃ entry ∈ (run memberSettings memberActions).ring.entries,
    0 < entry.envelope.seq ∧ (memberTable, some ("org", "7")) ∈ entry.envelope.shows orgView :=
  tells_only_shown memberSettings memberSettings_fresh memberActions memberStream (List.mem_singleton.mpr rfl) rfl _
    (.inl ⟨_, List.mem_cons_of_mem _ (List.mem_singleton.mpr rfl), by decide⟩)

/-- All that came behind a young position is still in the ring. -/
theorem Sound.young {now : Nat} (sound : Sound settings (some now) state) (handed : position ∈ state.handed) (own : position.epoch = state.epoch)
    (young : now - position.at_ ≤ settings.limits.replayMs) :
    state.replayAfter settings position now = some ((state.ring.entries.map Entry.envelope).drop position.seq.toNat) := by
  obtain ⟨upTo, -, early⟩ := (sound.handed position handed).2 own
  obtain ⟨start, -, behind⟩ := early now rfl
  obtain ⟨through, within, old⟩ := sound.evicted
  have kept : ¬ position.seq < state.ring.evictedThrough := by
    intro evicted
    -- the last evicted envelope came behind the position, and is too old
    have numbered := sound.numbered
    rw [← List.take_append_drop state.ring.head state.ring.entries, List.map_append, numbered_append] at numbered
    have count : (state.ring.entries.take state.ring.head).length = state.ring.head := List.length_take_of_le within
    cases isLast : (state.ring.entries.take state.ring.head).getLast? with
    | none =>
      rw [List.getLast?_eq_none_iff.mp isLast, List.length_nil] at count
      omega
    | some last =>
      have seq := numbered_last numbered.1 (by rw [List.getLast?_map, isLast, Option.map_some])
      rw [List.length_map, count] at seq
      have member := List.mem_of_mem_take (List.mem_of_getLast? isLast)
      have late := behind last member (by omega)
      have dead := old now rfl last member (by omega)
      omega
  unfold State.replayAfter
  rw [if_neg (by rw [not_or, not_not]; exact ⟨own, Nat.not_lt.mpr young⟩)]
  cases is : state.ring.after position.seq state.seq with
  | none =>
    unfold Ring.after at is
    rw [if_neg (by omega)] at is
    split at is <;> cases is
  | some envelopes => rw [(sound.after is).1]

/-- A cursor resumes by its age alone: while the clock does not go back, a position that was handed out in this epoch opens as a resume that
replays all that came behind it where it is at most `replayMs` old, and as a reset where it is older. -/
theorem resumes_by_age (settings : Settings Receipt) (fresh : Function.Injective settings.nextEpoch) (actions : List Action) (now : Nat)
    (forward : (actions.filterMap Action.now ++ [now]).Pairwise (· ≤ ·)) (ready : (run settings actions).status = .ready) :
    ∀ position ∈ (run settings actions).handed, position.epoch = (run settings actions).epoch → ∀ view, ∃ stream,
      (run settings (actions ++ [.open_ (some position) view now])).subscribers = (run settings actions).subscribers ++ [stream] ∧
      (now - position.at_ ≤ settings.limits.replayMs →
        let envelopes := ((run settings actions).ring.entries.map Entry.envelope).drop position.seq.toNat
        let replay := ((run settings actions).hub settings).replayInto view none envelopes now
        stream.began = position ∧ stream.items = .begins true position :: replay.frames.map Held.change ∧ stream.window = replay.window) ∧
      (settings.limits.replayMs < now - position.at_ →
        stream.items = [.begins false ⟨(run settings actions).epoch, (run settings actions).seq, now⟩] ∧ stream.window = none) := by
  intro position handed own view
  have sound := @run_sound _ settings (some 0) fresh actions now fun time isTime =>
    Option.mem_some.mp isTime ▸ List.pairwise_cons.mpr ⟨fun _ _ => Nat.zero_le _, forward⟩
  rw [Option.map_some] at sound
  replace sound := sound.evict fun time isTime => (Option.mem_some.mp isTime).symm
  rw [run, List.foldl_append, ← run]
  change ∃ stream, (State.open_ settings _ (some position) view now).subscribers = _ ∧ _
  unfold State.open_ State.attachAt
  rw [if_pos ready, Option.filter_some_pos (by simpa using handed)]
  simp only
  by_cases young : now - position.at_ ≤ settings.limits.replayMs
  · rw [sound.young handed own young]
    exact ⟨_, rfl, fun _ => ⟨rfl, List.append_nil _, rfl⟩, fun old => absurd old (Nat.not_lt.mpr young)⟩
  · have old := Nat.not_le.mp young
    rw [State.replayAfter, if_pos (.inr old)]
    exact ⟨_, rfl, fun is => absurd is young, fun _ => ⟨List.append_nil _, rfl⟩⟩

theorem resumes_by_age_member : ∃ stream,
    (run memberSettings (memberActions ++ [.open_ (some ⟨"aaaaaaaaaaaa", 0, 100⟩) orgView 200])).subscribers = [memberStream, stream] ∧
      stream.began = ⟨"aaaaaaaaaaaa", 0, 100⟩ := by
  obtain ⟨stream, opened, young, -⟩ := resumes_by_age memberSettings memberSettings_fresh memberActions 200 (by decide) rfl
    ⟨"aaaaaaaaaaaa", 0, 100⟩ (by decide) rfl orgView
  exact ⟨stream, opened, (young (by decide)).1⟩

end Arki.Live
