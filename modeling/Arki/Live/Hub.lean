import Arki.Library.InsertionMap

/-! The live hub: what a stream's view shows of a transaction's changes, the window they are
collected in, and the frames a closed window makes.

A table's key in the hub's maps is one text per schema and table, so the table itself is the key here. A receipt is made
from its transaction's id alone, once, and a cursor stands for the position it seals. -/

set_option autoImplicit false

namespace Arki.Live

variable {Receipt : Type}

structure TableTag where
  schema : String
  table : String
  deriving DecidableEq

structure Cell where
  tag : TableTag
  whole : Bool
  keys : List String
  deriving DecidableEq

/-- A transaction's changes. Without `transaction`, no receipt is known for it. -/
structure Envelope where
  seq : Int
  at_ : Nat
  cells : InsertionMap TableTag (Bool × List String)
  transaction : Option String
  deriving DecidableEq

/-- The keys a stream may see of a table, under its dimension. No list is all of them. -/
structure Scope where
  name : String
  keys : Option (List String)
  deriving DecidableEq

structure View where
  tables : Option (List TableTag)
  scopes : InsertionMap TableTag Scope
  deriving DecidableEq

/-- What a window knows of a table: the transactions that wrote it as a whole, and by key. -/
structure Seen (Receipt : Type) where
  name : Option String
  wholeSeen : Bool
  whole : InsertionMap String Receipt
  keys : InsertionMap String (InsertionMap String Receipt)
  deriving DecidableEq

structure Window (Receipt : Type) where
  first : Envelope
  closesAt : Nat
  tables : InsertionMap TableTag (Seen Receipt)
  txids : List String
  deriving DecidableEq

structure CursorPosition where
  epoch : String
  seq : Int
  at_ : Nat
  deriving DecidableEq

/-- A tag of a frame. One with a scope names keys, one without the whole table. -/
structure FrameTag where
  tag : TableTag
  scope : Option (String × List String)
  deriving DecidableEq

structure HeldChange (Receipt : Type) where
  tags : List FrameTag
  receipts : List Receipt
  cursor : CursorPosition
  deriving DecidableEq

structure Hub (Receipt : Type) where
  receiptOf : String → Receipt
  batchMs : Nat
  epoch : String

structure Shown where
  whole : Bool
  keys : List String
  name : Option String
  deriving DecidableEq

def grantedKeys (scope : Option Scope) (cell : Cell) : List String :=
  match scope with
  | none => []
  | some scope =>
    match scope.keys with
    | none => cell.keys
    | some granted => cell.keys.filter (· ∈ granted)

def project (view : View) (cell : Cell) : Option Shown :=
  if view.tables.any (cell.tag ∉ ·) then none
  else
    let scope := view.scopes.get cell.tag
    let whole := cell.whole && scope.all (·.keys = none)
    let keys := grantedKeys scope cell
    if !whole && keys.length = 0 then none else some ⟨whole, keys, scope.map Scope.name⟩

def cellsOf (envelope : Envelope) : List Cell := envelope.cells.entries.map fun entry => ⟨entry.1, entry.2.1, entry.2.2⟩

namespace Hub

variable (hub : Hub Receipt)

def record (transaction : Option String) (receipts : InsertionMap String Receipt) : InsertionMap String Receipt :=
  match transaction with
  | none => receipts
  | some txid => receipts.set txid (hub.receiptOf txid)

def seeKey (transaction : Option String) (table : Seen Receipt) (key : String) : Seen Receipt :=
  { table with keys := table.keys.set key (hub.record transaction ((table.keys.get key).getD .empty)) }

def see (transaction : Option String) (visible : Shown) (known : Option (Seen Receipt)) : Seen Receipt :=
  let table := known.getD ⟨visible.name, false, .empty, .empty⟩
  let table := if visible.whole then { table with wholeSeen := true, whole := hub.record transaction table.whole } else table
  visible.keys.foldl (hub.seeKey transaction) table

/-- One turn of the loop over the cells. The first that shows something opens the window. -/
def admitCell (view : View) (envelope : Envelope) (window : Option (Window Receipt)) (cell : Cell) : Option (Window Receipt) :=
  match project view cell with
  | none => window
  | some visible =>
    let window := window.getD ⟨envelope, envelope.at_ + hub.batchMs, .empty, []⟩
    some { window with tables := window.tables.set cell.tag (hub.see envelope.transaction visible (window.tables.get cell.tag)) }

/-- The stream's window with these cells in it, or none when they show nothing. -/
def admitted (view : View) (window : Option (Window Receipt)) (envelope : Envelope) (cells : List Cell) : Option (Window Receipt) :=
  if cells.any fun cell => (project view cell).isSome then
    (cells.foldl (hub.admitCell view envelope) window).map fun window =>
      { window with txids := envelope.transaction.elim window.txids fun txid => window.txids.insert txid }
  else none

end Hub

def maxTagsPerFrame : Nat := 256
def maxKeysPerFrame : Nat := 1024
def maxTxidsPerFrame : Nat := 256

structure Part (Receipt : Type) where
  tags : List FrameTag
  receipts : InsertionMap String Receipt
  keys : Nat

def Part.start : Part Receipt := ⟨[], .empty, 0⟩

structure Framing (Receipt : Type) where
  parts : List (Part Receipt)
  part : Part Receipt

def Framing.start : Framing Receipt := ⟨[], .start⟩

def Framing.next (framing : Framing Receipt) : Framing Receipt := ⟨framing.parts ++ [framing.part], .start⟩

def Part.take (part : Part Receipt) (receipts : InsertionMap String Receipt) : Part Receipt :=
  { part with receipts := part.receipts.merge receipts }

def pushKey (tags : List FrameTag) (key : String) : List FrameTag :=
  match tags with
  | [] => []
  | [tag] => [{ tag with scope := tag.scope.map fun scope => (scope.1, scope.2 ++ [key]) }]
  | tag :: rest => tag :: pushKey rest key

def frameWhole (framing : Framing Receipt) (tag : TableTag) (table : Seen Receipt) : Framing Receipt :=
  let framing := if maxTagsPerFrame ≤ framing.part.tags.length then framing.next else framing
  let part : Part Receipt := { framing.part with tags := framing.part.tags ++ [⟨tag, none⟩] }
  { framing with part := table.keys.values.foldl Part.take (part.take table.whole) }

/-- One key. `opened` says that the last tag is this table's and takes more keys. -/
def frameKey (tag : TableTag) (name : String) (state : Framing Receipt × Bool) (entry : String × InsertionMap String Receipt) :
    Framing Receipt × Bool :=
  let full := maxKeysPerFrame ≤ state.1.part.keys ∨ (state.2 = false ∧ maxTagsPerFrame ≤ state.1.part.tags.length)
  let framing := if full then state.1.next else state.1
  let opened := if full then false else state.2
  let tags := if opened then framing.part.tags else framing.part.tags ++ [⟨tag, some (name, [])⟩]
  let part : Part Receipt := ⟨pushKey tags entry.1, framing.part.receipts, framing.part.keys + 1⟩
  ({ framing with part := part.take entry.2 }, true)

def frameTable (framing : Framing Receipt) (entry : TableTag × Seen Receipt) : Framing Receipt :=
  match entry.2.name with
  | none => frameWhole framing entry.1 entry.2
  | some name =>
    if entry.2.wholeSeen then frameWhole framing entry.1 entry.2
    else (entry.2.keys.entries.foldl (frameKey entry.1 name) (framing, false)).1

/-- The frames of a closed window at the position of `last`. -/
def Hub.framesOf (hub : Hub Receipt) (window : Window Receipt) (last : Envelope) (at_ : Nat) : List (HeldChange Receipt) :=
  let closing : CursorPosition := ⟨hub.epoch, last.seq, at_⟩
  let before : CursorPosition := ⟨hub.epoch, window.first.seq - 1, window.first.at_⟩
  let framing := window.tables.entries.foldl frameTable .start
  let parts := framing.parts ++ [framing.part]
  parts.mapIdx fun index frame => ⟨frame.tags, frame.receipts.values, if index = parts.length - 1 then closing else before⟩

namespace Hub

variable (hub : Hub Receipt)

/-- What new cells of an envelope do to one stream: the window left open, and the frames of one that is full. -/
def append (view : View) (window : Option (Window Receipt)) (envelope : Envelope) (cells : List Cell) :
    Option (Window Receipt) × List (HeldChange Receipt) :=
  match hub.admitted view window envelope cells with
  | none => (window, [])
  | some admitted =>
    if maxTxidsPerFrame ≤ admitted.txids.length then (none, hub.framesOf admitted envelope envelope.at_) else (some admitted, [])

def closeWindow (window : Option (Window Receipt)) (latest : Option Envelope) (now : Nat) : List (HeldChange Receipt) :=
  match window, latest with
  | some window, some latest => hub.framesOf window latest now
  | _, _ => []

/-- A replay under way: the stream's window, the envelope before, and the frames so far. -/
structure Replaying (Receipt : Type) where
  window : Option (Window Receipt)
  previous : Option Envelope
  frames : List (HeldChange Receipt)

/-- A window that was over by `now` closes at the envelope before, as its timer would have. -/
def expire (replaying : Replaying Receipt) (now : Nat) : Replaying Receipt :=
  match replaying.window, replaying.previous with
  | some window, some previous =>
    if window.closesAt ≤ now then
      { replaying with window := none, frames := replaying.frames ++ hub.framesOf window previous window.closesAt }
    else replaying
  | _, _ => replaying

def replayEnvelope (view : View) (replaying : Replaying Receipt) (envelope : Envelope) : Replaying Receipt :=
  let replaying := hub.expire replaying envelope.at_
  let appended := hub.append view replaying.window envelope (cellsOf envelope)
  ⟨appended.1, some envelope, replaying.frames ++ appended.2⟩

/-- The frames a stream missed. A window still open at `now` stays open. -/
def replayInto (view : View) (window : Option (Window Receipt)) (envelopes : List Envelope) (now : Nat) : Replaying Receipt :=
  hub.expire (envelopes.foldl (hub.replayEnvelope view) ⟨window, none, []⟩) now

end Hub

end Arki.Live
