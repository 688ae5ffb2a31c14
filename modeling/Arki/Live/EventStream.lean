import Arki.Library.Utf8

/-! What the event-stream format says a whole text means. -/

set_option autoImplicit false

namespace Arki.Live

abbrev Text := List Char

structure SseMessage where
  event : Text
  data : Text
  deriving DecidableEq

namespace EventStream

def lines : Text → List Text
  | [] => []
  | '\r' :: '\n' :: rest => [] :: lines rest
  | '\r' :: rest => [] :: lines rest
  | '\n' :: rest => [] :: lines rest
  | char :: rest =>
    match lines rest with
    | [] => []
    | line :: more => (char :: line) :: more

def blocks : List Text → List (List Text)
  | [] => []
  | [] :: rest => [] :: blocks rest
  | line :: rest =>
    match blocks rest with
    | [] => []
    | block :: more => (line :: block) :: more

def name (line : Text) : Text := line.takeWhile (· ≠ ':')

def value (line : Text) : Text :=
  match line.dropWhile (· ≠ ':') with
  | _ :: ' ' :: rest => rest
  | _ :: rest => rest
  | [] => []

def values (field : Text) (block : List Text) : List Text := (block.filter (name · = field)).map value

/-- The message of a block: its data lines, under the last event name. A block without data is none. -/
def message (block : List Text) : Option SseMessage :=
  if values "data".toList block = [] then none
  else
    let event := (values "event".toList block).getLastD []
    some ⟨if event = [] then "message".toList else event, ['\n'].intercalate (values "data".toList block)⟩

end EventStream

/-- The messages of a text. A mark before it, and what its end leaves unfinished, are not read. -/
def eventStream (text : Text) : List SseMessage :=
  (EventStream.blocks (EventStream.lines (Utf8.withoutMark text))).filterMap EventStream.message

example : eventStream "event: a\r\n: note\rdata: 1\ndata:2\n\nid: 7\n\ndata\n\ndata: cut\n".toList =
    [⟨"a".toList, "1\n2".toList⟩, ⟨"message".toList, []⟩] := by decide

end Arki.Live
