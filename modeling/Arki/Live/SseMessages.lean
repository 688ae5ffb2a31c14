import Arki.Live.EventStream

/-! The live client's reader of an event stream: chunks of bytes in, messages out. -/

set_option autoImplicit false

namespace Arki.Live

open Utf8 (TextDecoder)

structure Parsed where
  event : Text
  data : List Text
  ready : List SseMessage
  deriving DecidableEq

structure Reading where
  decoder : TextDecoder
  buffer : Text
  parsed : Parsed
  ended : Bool
  deriving DecidableEq

def Parsed.start : Parsed := ⟨[], [], []⟩

def Reading.start : Reading := ⟨.start, [], .start, false⟩

def fieldOf (line : Text) : Text × Text :=
  let colon := line.idxOf? ':'
  let field := match colon with
    | none => line
    | some at_ => line.take at_
  let raw := match colon with
    | none => []
    | some at_ => line.drop (at_ + 1)
  (field, if raw.head? = some ' ' then raw.tail else raw)

def Parsed.line (parsed : Parsed) (line : Text) : Parsed :=
  if line = [] then
    { event := []
      data := []
      ready := if 0 < parsed.data.length then
          parsed.ready ++ [⟨if parsed.event = [] then "message".toList else parsed.event, ['\n'].intercalate parsed.data⟩]
        else parsed.ready }
  else if (fieldOf line).1 = "data".toList then { parsed with data := parsed.data ++ [(fieldOf line).2] }
  else if (fieldOf line).1 = "event".toList then { parsed with event := (fieldOf line).2 }
  else parsed

/-- The loop over the buffer, with the line it is in. It leaves what the next chunk goes on with. -/
def scan (done : Bool) (line : Text) (rest : Text) (parsed : Parsed) : Parsed × Text :=
  match rest with
  | [] => (parsed, line)
  | char :: more =>
    if char ≠ '\n' ∧ char ≠ '\r' then scan done (line ++ [char]) more parsed
    -- half of a CR LF pair, maybe
    else if char = '\r' ∧ more = [] ∧ done = false then (parsed, line ++ [char])
    else scan done [] (if char = '\r' ∧ more.head? = some '\n' then more.tail else more) (parsed.line line)
termination_by rest.length
decreasing_by
  · simp
  · split
    · simp only [List.length_tail, List.length_cons]
      omega
    · simp

def Reading.read (reading : Reading) (chunk : Option (List UInt8)) : Reading :=
  let decoded := match chunk with
    | none => reading.decoder.decode [] false
    | some bytes => reading.decoder.decode bytes true
  let scanned := scan chunk.isNone [] (reading.buffer ++ decoded.1) reading.parsed
  ⟨decoded.2, scanned.2, scanned.1, reading.ended || chunk.isNone⟩

inductive DropReason where
  | error (message : String)
  | other
  deriving DecidableEq

def DropReason.thrown : DropReason → String
  | .error message => message
  | .other => "the live connection was dropped"

/-- What a read of the body returned, and the reason of the `drop` signal if it was aborted by then. -/
structure Arrival where
  chunk : Option (List UInt8)
  dropped : Option DropReason
  deriving DecidableEq

inductive Pulled where
  | value (message : SseMessage) (reading : Reading) (later : List Arrival)
  | done
  | throws (error : String)
  | waits (reading : Reading)
  deriving DecidableEq

def Reading.shift (reading : Reading) : Option (SseMessage × Reading) :=
  match reading.parsed.ready with
  | [] => none
  | message :: ready => some (message, { reading with parsed := { reading.parsed with ready } })

def pull (arrivals : List Arrival) (reading : Reading) : Pulled :=
  match reading.shift with
  | some (message, next) => .value message next arrivals
  | none =>
    if reading.ended then .done
    else
      match arrivals with
      | [] => .waits reading
      | arrival :: later =>
        match arrival.dropped with
        | some reason => .throws reason.thrown
        | none => pull later (reading.read arrival.chunk)

inductive Yields : List Arrival → Reading → List SseMessage → Prop where
  | done {arrivals : List Arrival} {reading : Reading} : pull arrivals reading = .done → Yields arrivals reading []
  | value {arrivals later : List Arrival} {reading next : Reading} {message : SseMessage} {messages : List SseMessage} :
      pull arrivals reading = .value message next later → Yields later next messages →
      Yields arrivals reading (message :: messages)

def body (chunks : List (List UInt8)) : List Arrival := chunks.map (⟨some ·, none⟩) ++ [⟨none, none⟩]

def NoEnd (line : Text) : Prop := ∀ char ∈ line, char ≠ '\n' ∧ char ≠ '\r'

theorem scan_line (done : Bool) (line kept rest : Text) (plain : NoEnd kept) (parsed : Parsed) :
    scan done line (kept ++ rest) parsed = scan done (line ++ kept) rest parsed := by
  induction kept generalizing line with
  | nil => simp
  | cons char more ih =>
    rw [List.cons_append, scan, if_pos (plain char (by simp)), ih _ (fun c member => plain c (by simp [member]))]
    simp

theorem scan_append (line first second : Text) (plain : NoEnd line) (parsed : Parsed) :
    scan true line (first ++ second) parsed =
      scan true [] ((scan false line first parsed).2 ++ second) (scan false line first parsed).1 := by
  generalize waiting : false = done
  fun_induction scan done line first parsed with
  | case1 line parsed => rw [scan_line true [] line second plain, List.nil_append, List.nil_append]
  | case2 line parsed char more inside ih =>
    rw [List.cons_append, scan, if_pos inside]
    refine ih ?_
    intro c member
    rcases List.mem_append.mp member with member | member
    · exact plain c member
    · rw [List.mem_singleton.mp member]
      exact inside
  | case3 line parsed char more inside half =>
    obtain ⟨rfl, rfl, -⟩ := half
    simp only [List.append_assoc]
    rw [scan_line true [] line _ plain, List.nil_append]
  | case4 line parsed char more inside whole ih =>
    subst waiting
    simp only [dite_eq_ite] at ih
    rw [List.cons_append, scan, if_neg inside, if_neg (by simp), ← ih (by simp [NoEnd])]
    congr 1
    cases more with
    | nil =>
      have lf : char ≠ '\r' := fun same => whole ⟨same, rfl, rfl⟩
      simp [lf]
    | cons next rest => by_cases pair : char = '\r' ∧ next = '\n' <;> simp [pair]

open EventStream

def linesBehind (line : Text) (text : Text) : List Text :=
  match lines text with
  | [] => []
  | first :: more => (line ++ first) :: more

theorem linesBehind_nil (text : Text) : linesBehind [] text = lines text := by
  unfold linesBehind
  cases lines text <;> rfl

theorem lines_plain {char : Char} (inside : char ≠ '\n' ∧ char ≠ '\r') (rest : Text) :
    lines (char :: rest) = linesBehind [char] rest := by
  rw [lines.eq_def]
  split
  · simp_all
  · simp_all
  · simp_all
  · simp_all
  · rename_i same
    cases same
    rfl

theorem lines_end {char : Char} (ends : ¬(char ≠ '\n' ∧ char ≠ '\r')) (rest : Text) :
    lines (char :: rest) = [] :: lines (if char = '\r' ∧ rest.head? = some '\n' then rest.tail else rest) := by
  rw [lines.eq_def]
  split
  · simp_all
  · simp_all
  · rename_i rest' single same
    cases same
    have alone : rest.head? ≠ some '\n' := by
      cases rest with
      | nil => simp
      | cons next more =>
        rintro ⟨⟩
        exact single more rfl
    rw [if_neg fun pair => alone pair.2]
  · simp_all
  · simp_all

theorem scan_lines (line text : Text) (parsed : Parsed) :
    (scan true line text parsed).1 = (linesBehind line text).foldl Parsed.line parsed := by
  generalize whole : true = done
  fun_induction scan done line text parsed with
  | case1 line parsed => rfl
  | case2 line parsed char more inside ih =>
    rw [ih, linesBehind, linesBehind, lines_plain inside, linesBehind]
    cases lines more <;> simp
  | case3 line parsed char more inside half =>
    rw [← whole] at half
    cases half.2.2
  | case4 line parsed char more ends half ih =>
    simp only [dite_eq_ite] at ih
    rw [ih, linesBehind_nil, linesBehind, lines_end ends]
    simp

/-- The source finds a line's field and value by the place of its first colon. -/
theorem fieldOf_eq (line : Text) : fieldOf line = (name line, value line) := by
  have split : (match line.idxOf? ':' with | none => line | some at_ => line.take at_) = name line ∧
      (match line.idxOf? ':' with | none => ([] : Text) | some at_ => line.drop (at_ + 1)) = (line.dropWhile (· ≠ ':')).tail := by
    induction line with
    | nil => exact ⟨rfl, rfl⟩
    | cons char rest ih =>
      by_cases colon : char = ':'
      · subst colon
        exact ⟨by simp [name, List.idxOf?_cons], by simp [List.idxOf?_cons]⟩
      · rw [List.idxOf?_cons]
        simp only [name] at ih ⊢
        rw [List.takeWhile_cons_of_pos (by simpa using colon), List.dropWhile_cons_of_pos (by simpa using colon), ← ih.1, ← ih.2]
        cases rest.idxOf? ':' <;> simp [colon]
  rw [fieldOf, split.1, split.2]
  congr 1
  unfold value
  rcases line.dropWhile (· ≠ ':') with _ | ⟨colon, _ | ⟨blank, rest⟩⟩
  · rfl
  · rfl
  · by_cases space : blank = ' ' <;> simp [space]

structure Inside (block : List Text) (parsed : Parsed) : Prop where
  event : parsed.event = (values "event".toList block).getLastD []
  data : parsed.data = values "data".toList block

theorem inside_start (ready : List SseMessage) : Inside [] ⟨[], [], ready⟩ := ⟨rfl, rfl⟩

theorem values_append (field : Text) (block : List Text) (line : Text) :
    values field (block ++ [line]) = if name line = field then values field block ++ [value line] else values field block := by
  unfold values
  split <;> rename_i named <;> simp [named]

theorem Inside.line {block : List Text} {parsed : Parsed} (inside : Inside block parsed) {line : Text} (full : line ≠ []) :
    Inside (block ++ [line]) (parsed.line line) ∧ (parsed.line line).ready = parsed.ready := by
  rw [Parsed.line, if_neg full, fieldOf_eq]
  have apart : "data".toList ≠ "event".toList := by decide
  by_cases isData : name line = "data".toList
  · rw [if_pos isData]
    refine ⟨⟨?_, ?_⟩, rfl⟩
    · rw [values_append, if_neg (isData ▸ apart)]
      exact inside.event
    · rw [values_append, if_pos isData, ← inside.data]
  · rw [if_neg isData]
    by_cases isEvent : name line = "event".toList
    · rw [if_pos isEvent]
      refine ⟨⟨?_, ?_⟩, rfl⟩
      · rw [values_append, if_pos isEvent]
        simp
      · rw [values_append, if_neg isData]
        exact inside.data
    · rw [if_neg isEvent]
      refine ⟨⟨?_, ?_⟩, rfl⟩
      · rw [values_append, if_neg isEvent]
        exact inside.event
      · rw [values_append, if_neg isData]
        exact inside.data

theorem Inside.ends {block : List Text} {parsed : Parsed} (inside : Inside block parsed) :
    parsed.line [] = ⟨[], [], parsed.ready ++ (message block).toList⟩ := by
  rw [Parsed.line, if_pos rfl, message, inside.data, inside.event]
  by_cases none : values "data".toList block = []
  · rw [none]
    simp
  · simp only [none, if_false, List.length_pos_iff, ne_eq, not_false_eq_true, if_true, Option.toList_some]

def blocksBehind (block : List Text) (lines : List Text) : List (List Text) :=
  match blocks lines with
  | [] => []
  | first :: more => (block ++ first) :: more

theorem blocksBehind_nil (lines : List Text) : blocksBehind [] lines = blocks lines := by
  unfold blocksBehind
  cases blocks lines <;> rfl

theorem blocks_full {line : Text} (full : line ≠ []) (rest : List Text) : blocks (line :: rest) = blocksBehind [line] rest := by
  cases line with
  | nil => exact absurd rfl full
  | cons char line => rfl

theorem lines_messages (ends : List Text) (block : List Text) (parsed : Parsed) (inside : Inside block parsed) :
    (ends.foldl Parsed.line parsed).ready = parsed.ready ++ (blocksBehind block ends).filterMap message := by
  induction ends generalizing block parsed with
  | nil => simp [blocksBehind, blocks]
  | cons line rest ih =>
    rw [List.foldl_cons]
    by_cases empty : line = []
    · subst empty
      rw [inside.ends, ih [] _ (inside_start _), blocksBehind_nil, blocksBehind, blocks]
      cases made : message block <;> simp [made]
    · obtain ⟨goesOn, ready⟩ := inside.line empty
      rw [ih _ _ goesOn, ready, blocksBehind, blocksBehind, blocks_full empty, blocksBehind]
      cases blocks rest <;> simp

theorem scan_messages (text : Text) : (scan true [] text .start).1.ready = (blocks (lines text)).filterMap message := by
  rw [scan_lines, linesBehind_nil, lines_messages (lines text) [] .start (inside_start []), blocksBehind_nil]
  rfl

theorem line_ready (line : Text) (taken : List SseMessage) (parsed : Parsed) :
    Parsed.line { parsed with ready := taken ++ parsed.ready } line =
      { parsed.line line with ready := taken ++ (parsed.line line).ready } := by
  unfold Parsed.line
  split_ifs <;> simp

theorem scan_ready (done : Bool) (line text : Text) (taken : List SseMessage) (parsed : Parsed) :
    scan done line text { parsed with ready := taken ++ parsed.ready } =
      ({ (scan done line text parsed).1 with ready := taken ++ (scan done line text parsed).1.ready }, (scan done line text parsed).2) := by
  fun_induction scan done line text parsed with
  | case1 line parsed => rw [scan]
  | case2 line parsed char more inside ih => rw [scan, if_pos inside, ih]
  | case3 line parsed char more inside half => rw [scan, if_neg inside, if_pos half]
  | case4 line parsed char more inside whole ih =>
    simp only [dite_eq_ite] at ih
    rw [scan, if_neg inside, if_neg whole, line_ready, ih]

def Reading.rest (reading : Reading) : List (List UInt8) → List SseMessage
  | [] => (reading.read none).parsed.ready
  | chunk :: later => (reading.read (some chunk)).rest later

theorem Reading.rest_eq (reading : Reading) (chunks : List (List UInt8)) :
    reading.rest chunks = (scan true [] (reading.buffer ++ (reading.decoder.texts chunks).flatten) reading.parsed).1.ready := by
  induction chunks generalizing reading with
  | nil => simp [rest, Reading.read, TextDecoder.texts]
  | cons chunk later ih =>
    have whole := scan_append [] (reading.buffer ++ (reading.decoder.decode chunk true).1)
      ((reading.decoder.decode chunk true).2.texts later).flatten (by simp [NoEnd]) reading.parsed
    rw [rest, ih, TextDecoder.texts, List.flatten_cons, ← List.append_assoc, whole]
    rfl

theorem Reading.rest_shift {reading next : Reading} {message : SseMessage} (shifts : reading.shift = some (message, next))
    (chunks : List (List UInt8)) : reading.rest chunks = message :: next.rest chunks := by
  unfold shift at shifts
  split at shifts
  · cases shifts
  · rename_i first ready held
    cases shifts
    rw [rest_eq, rest_eq]
    have behind := scan_ready true [] (reading.buffer ++ (reading.decoder.texts chunks).flatten) [message]
      { reading.parsed with ready }
    simp only [List.singleton_append] at behind
    rw [← held] at behind
    rw [behind]

theorem shift_none {reading : Reading} : reading.shift = none ↔ reading.parsed.ready = [] := by
  unfold Reading.shift
  split <;> simp_all

theorem shift_ended {reading next : Reading} {message : SseMessage} (shifts : reading.shift = some (message, next)) :
    next.ended = reading.ended ∧ reading.parsed.ready = message :: next.parsed.ready := by
  unfold Reading.shift at shifts
  split at shifts
  · cases shifts
  · rename_i first ready held
    cases shifts
    exact ⟨rfl, held⟩

theorem yields_ended {arrivals : List Arrival} {reading : Reading} (ended : reading.ended = true) :
    Yields arrivals reading reading.parsed.ready := by
  generalize held : reading.parsed.ready = ready
  induction ready generalizing reading with
  | nil =>
    refine .done ?_
    rw [pull.eq_def, shift_none.mpr held, ended]
    rfl
  | cons message ready ih =>
    obtain ⟨next, shifts⟩ : ∃ next, reading.shift = some (message, next) := by simp [Reading.shift, held]
    obtain ⟨same, held'⟩ := shift_ended shifts
    rw [held] at held'
    cases held'
    have pulled : pull arrivals reading = .value message next arrivals := by rw [pull.eq_def, shifts]
    exact .value pulled (ih (same.trans ended) rfl)

theorem Yields.of_pull {arrivals later : List Arrival} {reading next : Reading} {messages : List SseMessage}
    (same : pull arrivals reading = pull later next) (yields : Yields later next messages) : Yields arrivals reading messages := by
  cases yields with
  | done isDone => exact .done (same.trans isDone)
  | value pulled more => exact .value (same.trans pulled) more

theorem yields_held (chunks : List (List UInt8))
    (taken : ∀ reading : Reading, reading.ended = false → reading.parsed.ready = [] → Yields (body chunks) reading (reading.rest chunks))
    (reading : Reading) (goesOn : reading.ended = false) : Yields (body chunks) reading (reading.rest chunks) := by
  generalize held : reading.parsed.ready = ready
  induction ready generalizing reading with
  | nil => exact taken reading goesOn held
  | cons message ready ih =>
    obtain ⟨next, shifts⟩ : ∃ next, reading.shift = some (message, next) := by simp [Reading.shift, held]
    obtain ⟨same, behind⟩ := shift_ended shifts
    rw [held] at behind
    cases behind
    rw [Reading.rest_shift shifts]
    have pulled : pull (body chunks) reading = .value message next (body chunks) := by rw [pull.eq_def, shifts]
    exact .value pulled (ih next (same.trans goesOn) rfl)

theorem yields_rest (chunks : List (List UInt8)) (reading : Reading) (goesOn : reading.ended = false) :
    Yields (body chunks) reading (reading.rest chunks) := by
  induction chunks generalizing reading with
  | nil =>
    refine yields_held [] (fun reading goesOn held => ?_) reading goesOn
    have read : pull (body []) reading = pull [] (reading.read none) := by
      rw [pull.eq_def, shift_none.mpr held]
      simp [goesOn, body]
    exact .of_pull read (yields_ended (by simp [Reading.read]))
  | cons chunk later ih =>
    refine yields_held (chunk :: later) (fun reading goesOn held => ?_) reading goesOn
    have read : pull (body (chunk :: later)) reading = pull (body later) (reading.read (some chunk)) := by
      rw [pull.eq_def, shift_none.mpr held]
      simp [goesOn, body]
    exact .of_pull read (ih _ (by simpa [Reading.read] using goesOn))

theorem Yields.unique {arrivals : List Arrival} {reading : Reading} {first second : List SseMessage}
    (one : Yields arrivals reading first) (two : Yields arrivals reading second) : first = second := by
  induction one generalizing second with
  | done isDone =>
    cases two with
    | done _ => rfl
    | value pulled _ =>
      rw [isDone] at pulled
      cases pulled
  | value pulled _ ih =>
    cases two with
    | done isDone =>
      rw [pulled] at isDone
      cases isDone
    | value again more =>
      rw [pulled] at again
      cases again
      rw [ih more]

/-- However a text's bytes are cut into chunks, the reader hands out the messages of the whole text, and then is done. -/
theorem sseMessages_eventStream (text : Text) (chunks : List (List UInt8)) (same : chunks.flatten = Utf8.encode text)
    (messages : List SseMessage) : Yields (body chunks) .start messages ↔ messages = eventStream text := by
  have whole : Reading.start.rest chunks = eventStream text := by
    rw [Reading.rest_eq]
    simp only [Reading.start, List.nil_append]
    rw [TextDecoder.texts_encode text chunks same, scan_messages]
    rfl
  have yields := whole ▸ yields_rest chunks .start rfl
  exact ⟨fun other => other.unique yields, fun read => read ▸ yields⟩

/-- A character cut in its middle, and a CR LF pair cut in two. -/
theorem sseMessages_cut : Yields (body [[0x64, 0x61, 0x74, 0x61, 0x3A, 0xC3], [0xA9, 0x0D], [0x0A, 0x0D], [0x0A]]) .start
    [⟨"message".toList, "é".toList⟩] :=
  (sseMessages_eventStream "data:é\r\n\r\n".toList _ (by decide) _).mpr (by decide)

end Arki.Live
