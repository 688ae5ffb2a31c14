import Arki.Live.HubFrames
import Mathlib

/-! The hub as a whole: its ring, its streams, and what each source event, call and timer does to them.

A synchronous section of the source is one step. The ring keeps evicted entries before `head`, as its array does between two
compactions. A cursor is the position it seals: a text opens to a position only when that position was handed out. -/

set_option autoImplicit false

namespace Arki.Live

variable {Receipt : Type}

/-- An envelope as the ring keeps it, with the source's raw txid. -/
structure Entry where
  envelope : Envelope
  txid : Option String
  bytes : Nat

structure Ring where
  entries : List Entry
  /-- The place of the oldest entry that is kept. -/
  head : Nat
  evictedThrough : Int

namespace Ring

def clear : Ring := ⟨[], 0, 0⟩

def kept (ring : Ring) : List Entry := ring.entries.drop ring.head

def add (ring : Ring) (entry : Entry) : Ring := { ring with entries := ring.entries ++ [entry] }

def evict (ring : Ring) (ms now : Nat) : Ring :=
  let old := ring.kept.takeWhile fun entry => ms < now - entry.envelope.at_
  { ring with
    head := ring.head + old.length
    evictedThrough := (old.getLast?.map fun entry => entry.envelope.seq).getD ring.evictedThrough }

def after (ring : Ring) (seq last : Int) : Option (List Envelope) :=
  if seq < ring.evictedThrough ∨ last < seq then none
  else
    match ring.kept with
    | [] => some []
    | first :: _ => some ((ring.kept.drop (max 0 (seq - first.envelope.seq + 1)).toNat).map Entry.envelope)

def size (ring : Ring) : Nat := ring.entries.length - ring.head

def bytes (ring : Ring) : Nat := (ring.kept.map Entry.bytes).sum

def latest (ring : Ring) : Option Entry := ring.entries.getLast?

end Ring

structure Limits where
  batchMs : Nat
  replayEnvelopes : Nat
  replayBytes : Nat
  replayMs : Nat
  subscriberFrames : Nat

structure Settings (Receipt : Type) where
  limits : Limits
  receiptOf : String → Receipt
  /-- The hub makes receipts, and the text is a transaction id. -/
  hasReceipt : String → Bool
  /-- What the calls of `epoch()` return, one after the other. -/
  nextEpoch : Nat → String
  /-- The JSON text of a table's name, and the UTF-16 length of a text. -/
  tagKey : TableTag → String
  units : String → Nat

inductive Held (Receipt : Type) where
  | begins (resume : Bool) (at_ : CursorPosition)
  | change (frame : HeldChange Receipt)

inductive EndFrame where
  | gap
  | bye
  deriving DecidableEq

structure Subscriber (Receipt : Type) where
  view : View
  /-- The position of its `begin`. -/
  began : CursorPosition
  /-- What is left of `begin` and the replay. -/
  preamble : List (Held Receipt)
  pending : List (HeldChange Receipt)
  window : Option (Window Receipt)
  ending : Option EndFrame
  done : Bool
  /-- One of the hub's `subscribers`. -/
  attached : Bool
  /-- What the stream yielded before its end. -/
  yielded : List (Held Receipt)

inductive Status where
  | idle
  | ready
  | unavailable
  | stopped
  deriving DecidableEq

structure State (Receipt : Type) where
  status : Status
  epoch : String
  /-- How often `epoch()` was called. -/
  epochs : Nat
  seq : Int
  /-- The latest envelope still takes more changes of its transaction. -/
  growing : Bool
  ring : Ring
  subscribers : List (Subscriber Receipt)
  /-- The positions that streams yielded and `cursor()` answered. -/
  handed : List CursorPosition

def State.start : State Receipt := ⟨.idle, "", 0, 0, false, .clear, [], []⟩

def Held.cursor : Held Receipt → CursorPosition
  | .begins _ at_ => at_
  | .change frame => frame.cursor

def Subscriber.items (stream : Subscriber Receipt) : List (Held Receipt) :=
  stream.yielded ++ (stream.preamble ++ stream.pending.map Held.change)

def Subscriber.finish (stream : Subscriber Receipt) (ending : EndFrame) : Subscriber Receipt :=
  if stream.attached then { stream with attached := false, window := none, preamble := [], pending := [], ending := some ending } else stream

def Subscriber.close (stream : Subscriber Receipt) : Subscriber Receipt :=
  { stream with attached := false, window := none, preamble := [], pending := [], ending := none, done := true }

/-- Past `most` frames the stream ends instead. -/
def Subscriber.deliver (most : Nat) (stream : Subscriber Receipt) (frames : List (HeldChange Receipt)) : Subscriber Receipt :=
  let stream := { stream with pending := stream.pending ++ frames }
  if most < stream.pending.length then stream.finish .bye else stream

/-- A window changes, and the frames of one that is over go out. -/
def Subscriber.framed (most : Nat) (stream : Subscriber Receipt) (window : Option (Window Receipt)) (frames : List (HeldChange Receipt)) :
    Subscriber Receipt :=
  if frames = [] then { stream with window := window } else ({ stream with window := window }).deliver most frames

def Subscriber.take (stream : Subscriber Receipt) : Subscriber Receipt × Option (Held Receipt) :=
  match stream.preamble, stream.pending with
  | early :: rest, _ => ({ stream with preamble := rest, yielded := stream.yielded ++ [early] }, some early)
  | [], frame :: rest => ({ stream with pending := rest, yielded := stream.yielded ++ [.change frame] }, some (.change frame))
  | [], [] => ({ stream with ending := none, done := stream.done || stream.ending.isSome }, none)

/-- Positions at the latest envelope are handed out with these frames: it takes no more changes. -/
def State.framed (state : State Receipt) (frames : List (HeldChange Receipt)) : Bool :=
  state.growing && frames.all fun frame => frame.cursor.seq ≠ state.seq

/-- 12 characters `[a-z0-9]`. -/
def isEpoch (text : String) : Bool := text.length = 12 && text.toList.all fun char => char.isDigit || char.isLower

/-- A source's change: tables, each as a whole or by keys. -/
structure Change where
  tags : List (TableTag × Option (List String))
  txid : Option String

structure Staged where
  whole : Bool
  keys : List String
  added : Bool

def addKey (keys : List String) (key : String) : List String := if key ∈ keys then keys else keys ++ [key]

/-- One tag of a change, less what the envelope knows of its table. -/
def stage (target : Option Envelope) (staged : InsertionMap TableTag Staged) (tag : TableTag × Option (List String)) :
    InsertionMap TableTag Staged :=
  let known := target.bind fun envelope => envelope.cells.get tag.1
  let entry := (staged.get tag.1).getD ⟨false, [], known.isNone⟩
  staged.set tag.1 <|
    match tag.2 with
    | none => { entry with whole := entry.whole || !known.any Prod.fst }
    | some keys => { entry with keys := (keys.filter fun key => !known.any (key ∈ ·.2)).foldl addKey entry.keys }

def stagedCells (staged : InsertionMap TableTag Staged) : List (Cell × Bool) :=
  (staged.entries.filter fun entry => entry.2.whole || entry.2.keys ≠ []).map fun entry => (⟨entry.1, entry.2.whole, entry.2.keys⟩, entry.2.added)

def envelopeBytes : Nat := 64

def entryBytes : Nat := 16

def Settings.textBytes (settings : Settings Receipt) (text : String) : Nat := settings.units text * 2 + entryBytes

def Settings.cellBytes (settings : Settings Receipt) (cell : Cell × Bool) : Nat :=
  (if cell.2 then settings.textBytes (settings.tagKey cell.1.tag) else 0) + (cell.1.keys.map settings.textBytes).sum

def keepCell (cells : InsertionMap TableTag (Bool × List String)) (cell : Cell) : InsertionMap TableTag (Bool × List String) :=
  let kept := (cells.get cell.tag).getD (false, [])
  cells.set cell.tag (kept.1 || cell.whole, cell.keys.foldl addKey kept.2)

def Envelope.grow (envelope : Envelope) (cells : List Cell) : Envelope := { envelope with cells := cells.foldl keepCell envelope.cells }

namespace State

variable (settings : Settings Receipt) (state : State Receipt)

def hub : Hub Receipt := ⟨settings.receiptOf, settings.limits.batchMs, state.epoch⟩

def finishAll (ending : EndFrame) : State Receipt := { state with subscribers := state.subscribers.map fun stream => stream.finish ending }

/-- Every stream ends with `gap`. An epoch that is malformed or the one before leaves the hub unavailable. -/
def beginEpoch : State Receipt :=
  let next := settings.nextEpoch state.epochs
  let ended := { state.finishAll .gap with epochs := state.epochs + 1 }
  if !isEpoch next || next = state.epoch then { ended with status := .unavailable }
  else { ended with status := .ready, epoch := next, seq := 0, growing := false, ring := .clear }

def gap : State Receipt :=
  if state.status = .stopped then state
  else { state.finishAll .gap with status := .unavailable, growing := false }

/-- New cells of an envelope reach one stream. -/
def appendTo (envelope : Envelope) (cells : List Cell) (stream : Subscriber Receipt) : Subscriber Receipt × List (HeldChange Receipt) :=
  if stream.attached then
    let appended := (state.hub settings).append stream.view stream.window envelope cells
    (stream.framed settings.limits.subscriberFrames appended.1 appended.2, appended.2)
  else (stream, [])

/-- The envelope that is last now, with its new cells, reaches every stream. -/
def append (envelope : Envelope) (cells : List Cell) : State Receipt :=
  let appended := state.subscribers.map (state.appendTo settings envelope cells)
  { state with subscribers := appended.map Prod.fst, growing := state.framed (appended.flatMap Prod.snd) }

/-- The envelope that a change goes into, when it is one of the same transaction. -/
def target (change : Change) : Option Entry :=
  if state.growing && change.txid.isSome then state.ring.latest.filter fun entry => entry.txid = change.txid else none

def change (change : Change) (now : Nat) : State Receipt :=
  let target := state.target change
  let staged := stagedCells (change.tags.foldl (stage (target.map Entry.envelope)) .empty)
  let cells := staged.map Prod.fst
  let bytes := (if target.isNone then envelopeBytes else 0) + (staged.map settings.cellBytes).sum
  if cells = [] then state
  else if (target.isNone ∧ settings.limits.replayEnvelopes ≤ state.ring.size) ∨ settings.limits.replayBytes < state.ring.bytes + bytes then
    state.beginEpoch settings
  else
    match target with
    | none =>
      let envelope := (⟨state.seq + 1, now, .empty, change.txid.filter settings.hasReceipt⟩ : Envelope).grow cells
      { state with seq := state.seq + 1, growing := true, ring := state.ring.add ⟨envelope, change.txid, bytes⟩ }.append settings envelope cells
    | some entry =>
      let envelope := entry.envelope.grow cells
      let grown : Entry := ⟨envelope, entry.txid, entry.bytes + bytes⟩
      { state with ring := { state.ring with entries := state.ring.entries.dropLast ++ [grown] } }.append settings envelope cells

def receive (event : Change) (now : Nat) : State Receipt :=
  if state.status = .ready ∧ event.tags ≠ [] then
    { state with ring := state.ring.evict settings.limits.replayMs now }.change settings event now
  else state

def replayAfter (position : CursorPosition) (now : Nat) : Option (List Envelope) :=
  if position.epoch ≠ state.epoch ∨ settings.limits.replayMs < now - position.at_ then none
  else state.ring.after position.seq state.seq

def attach (growing : Bool) (view : View) (began : CursorPosition) (preamble : List (Held Receipt)) (window : Option (Window Receipt)) :
    State Receipt :=
  { state with
    growing := growing
    subscribers := state.subscribers ++ [⟨view, began, preamble, [], window, none, false, true, []⟩] }

/-- A reset begins at the latest envelope, which takes no more changes. -/
def reset (view : View) (now : Nat) : State Receipt :=
  let position : CursorPosition := ⟨state.epoch, state.seq, now⟩
  state.attach false view position [.begins false position] none

/-- A stream opens, in the section behind the awaits. A text that was never handed out opens to nothing. -/
def attachAt (cursor : Option CursorPosition) (view : View) (now : Nat) : State Receipt :=
  match cursor.filter (· ∈ state.handed) with
  | none => state.reset view now
  | some position =>
    match state.replayAfter settings position now with
    | none => state.reset view now
    | some envelopes =>
      let replay := (state.hub settings).replayInto view none envelopes now
      state.attach (state.framed replay.frames) view position (.begins true position :: replay.frames.map Held.change) replay.window

def open_ (cursor : Option CursorPosition) (view : View) (now : Nat) : State Receipt :=
  if state.status = .ready then
    ({ state with ring := state.ring.evict settings.limits.replayMs now } : State Receipt).attachAt settings cursor view now
  else state

def update (index : Nat) (stream : Subscriber Receipt) : State Receipt := { state with subscribers := state.subscribers.set index stream }

def timer (index now : Nat) : State Receipt :=
  match state.subscribers[index]? with
  | none => state
  | some stream =>
    let frames := (state.hub settings).closeWindow stream.window (state.ring.latest.map Entry.envelope) now
    { state.update index (stream.framed settings.limits.subscriberFrames none frames) with growing := state.framed frames }

/-- The consumer asks for one item more. What it is given is handed out. -/
def pull (index : Nat) : State Receipt :=
  match state.subscribers[index]? with
  | none => state
  | some stream =>
    { state.update index stream.take.1 with handed := state.handed ++ (stream.take.2.map Held.cursor).toList }

def abort (index : Nat) : State Receipt :=
  match state.subscribers[index]? with
  | none => state
  | some stream => state.update index stream.close

def cursor (now : Nat) : State Receipt :=
  if state.status = .ready then { state with growing := false, handed := state.handed ++ [⟨state.epoch, state.seq, now⟩] } else state

def stop : State Receipt := { state.finishAll .bye with status := .stopped }

end State

inductive Action where
  | ready
  | gap
  | change (change : Change) (now : Nat)
  | open_ (cursor : Option CursorPosition) (view : View) (now : Nat)
  | timer (index now : Nat)
  | pull (index : Nat)
  | abort (index : Nat)
  | cursor (now : Nat)
  | stop

/-- The time an action reads. -/
def Action.now : Action → Option Nat
  | .change _ now | .open_ _ _ now | .timer _ now | .cursor now => some now
  | .ready | .gap | .pull _ | .abort _ | .stop => none

def step (settings : Settings Receipt) (state : State Receipt) : Action → State Receipt
  | .ready => if state.status = .stopped then state else state.beginEpoch settings
  | .gap => state.gap
  | .change change now => state.receive settings change now
  | .open_ cursor view now => state.open_ settings cursor view now
  | .timer index now => state.timer settings index now
  | .pull index => state.pull index
  | .abort index => state.abort index
  | .cursor now => state.cursor now
  | .stop => state.stop

def run (settings : Settings Receipt) (actions : List Action) : State Receipt := actions.foldl (step settings) .start

end Arki.Live
