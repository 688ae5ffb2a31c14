import Arki.Live.HubState

/-! What a stream is told: no change that its view shows is missed, over any run of the hub. -/

set_option autoImplicit false

namespace Arki.Live

variable {Receipt : Type} {hub : Hub Receipt} {view : View} {name : Name} {cell : Cell} {envelope : Envelope} {visible : Shown}
  {window : Option (Window Receipt)} {seen : Seen Receipt} {transaction : Option String} {said : Option (String × String)}

/-- The names a view shows of a cell. -/
def Cell.shows (view : View) (cell : Cell) : List Name :=
  match project view cell with
  | none => []
  | some visible =>
    (if visible.whole then [(cell.tag, none)] else []) ++
      visible.keys.flatMap fun key => visible.name.toList.map fun name => (cell.tag, some (name, key))

def Envelope.shows (view : View) (envelope : Envelope) : List Name := (cellsOf envelope).flatMap (Cell.shows view)

/-- A table named as a whole stands for each of its keys. -/
def Names (names : List Name) (name : Name) : Prop := name ∈ names ∨ (name.1, none) ∈ names

def Seen.Saw (seen : Seen Receipt) (said : Option (String × String)) : Prop :=
  (seen.wholeSeen = true ∧ said = none) ∨ ∃ name key, seen.name = some name ∧ key ∈ seen.keys.keys ∧ said = some (name, key)

/-- The window took this name in. -/
def Window.Saw (window : Window Receipt) (name : Name) : Prop := ∃ seen, window.tables.get name.1 = some seen ∧ seen.Saw name.2

theorem mem_visible {window : Window Receipt} :
    name ∈ window.visible ↔ ∃ seen, window.tables.get name.1 = some seen ∧ name ∈ (seen.items name.1).map Item.name := by
  rw [← visible_items, Window.items]
  constructor
  · intro member
    obtain ⟨item, isItem, rfl⟩ := List.mem_map.mp member
    obtain ⟨entry, held, isItem⟩ := List.mem_flatMap.mp isItem
    have tag := items_table isItem
    exact ⟨entry.2, InsertionMap.get_eq_some.mpr (tag ▸ held), tag ▸ List.mem_map_of_mem isItem⟩
  · rintro ⟨seen, isSeen, member⟩
    obtain ⟨item, isItem, rfl⟩ := List.mem_map.mp member
    exact List.mem_map_of_mem (List.mem_flatMap.mpr ⟨_, InsertionMap.get_eq_some.mp isSeen, isItem⟩)

/-- Frames name all a window took in, and nothing else. -/
theorem visible_saw {window : Window Receipt} (collected : Collected hub view window) :
    (∀ name, window.Saw name → Names window.visible name) ∧ ∀ name ∈ window.visible, window.Saw name := by
  refine ⟨?_, fun name member => ?_⟩
  · rintro ⟨tag, said⟩ ⟨seen, isSeen, saw⟩
    have told : Names ((seen.items tag).map Item.name) (tag, said) := by
      unfold Seen.items
      rcases saw with ⟨whole, rfl⟩ | ⟨name, key, isName, isKey, rfl⟩
      · cases seen.name <;> simp [whole, Names, Seen.wholeItem]
      · cases whole : seen.wholeSeen <;> simp_all [Names, Seen.wholeItem, InsertionMap.mem_keys]
    exact told.imp (fun named => mem_visible.mpr ⟨seen, isSeen, named⟩) fun named => mem_visible.mpr ⟨seen, isSeen, named⟩
  · obtain ⟨seen, isSeen, named⟩ := mem_visible.mp member
    refine ⟨seen, isSeen, ?_⟩
    have held := InsertionMap.get_eq_some.mp isSeen
    have shows := collected.shows _ held
    have granted := (collected.records _ held).granted
    obtain ⟨tag, said⟩ := name
    unfold Seen.items at named
    unfold Seen.Saw
    cases isName : seen.name <;> cases whole : seen.wholeSeen <;> simp_all [Seen.wholeItem, InsertionMap.mem_keys]
    grind

theorem keys_seeKeys {key : String} (keys : List String) :
    key ∈ (keys.foldl (hub.seeKey transaction) seen).keys.keys ↔ key ∈ keys ∨ key ∈ seen.keys.keys := by
  induction keys generalizing seen with
  | nil => simp
  | cons first rest ih =>
    rw [List.foldl_cons, ih, Hub.seeKey, InsertionMap.mem_keys_set, List.mem_cons]
    tauto

theorem see_record (known : Option (Seen Receipt)) :
    let table := known.getD ⟨visible.name, false, .empty, .empty⟩
    let seen := hub.see transaction visible known
    seen.name = table.name ∧ seen.wholeSeen = (visible.whole || table.wholeSeen) ∧
      ∀ key, key ∈ seen.keys.keys ↔ key ∈ visible.keys ∨ key ∈ table.keys.keys := by
  unfold Hub.see
  cases visible.whole <;> simp [seeKeys_name, seeKeys_whole, keys_seeKeys]

theorem see_saw {known : Option (Seen Receipt)} (shown : project view cell = some visible)
    (named : ∀ seen ∈ known, seen.name = visible.name) :
    (hub.see transaction visible known).Saw said ↔ (∃ seen ∈ known, seen.Saw said) ∨ (cell.tag, said) ∈ cell.shows view := by
  obtain ⟨name, whole, keys⟩ := @see_record _ hub visible transaction known
  rw [Cell.shows, shown]
  unfold Seen.Saw
  rw [name, whole]
  simp only [keys]
  cases known with
  | none => cases visible.whole <;> simp [InsertionMap.keys, InsertionMap.empty] <;> grind
  | some seen =>
    have same := named seen rfl
    cases visible.whole <;> simp [same] <;> grind

theorem shows_tag (gives : name ∈ cell.shows view) : name.1 = cell.tag := by
  unfold Cell.shows at gives
  grind

/-- A window keeps the envelope it was opened by. -/
theorem admitCells_first (cells : List Cell) :
    ∀ made ∈ cells.foldl (hub.admitCell view envelope) window, made.first = (window.map Window.first).getD envelope := by
  induction cells generalizing window with
  | nil =>
    rintro made ⟨rfl⟩
    rfl
  | cons cell rest ih =>
    refine fun made isMade => (ih made isMade).trans ?_
    unfold Hub.admitCell
    split
    · rfl
    · cases window <;> rfl

theorem admitted_first {cells : List Cell} {admitted : Window Receipt} (made : hub.admitted view window envelope cells = some admitted) :
    admitted.first = (window.map Window.first).getD envelope := by
  unfold Hub.admitted at made
  split at made
  · obtain ⟨loop, isLoop, rfl⟩ := Option.map_eq_some_iff.mp made
    exact admitCells_first cells loop isLoop
  · cases made

/-- One turn of the loop takes in what the cell shows. -/
theorem admitCell_saw {txids : List String} (filling : ∀ open_ ∈ window, Filling hub view txids open_) (name : Name) :
    (∃ made ∈ hub.admitCell view envelope window cell, made.Saw name) ↔ (∃ open_ ∈ window, open_.Saw name) ∨ name ∈ cell.shows view := by
  unfold Hub.admitCell
  cases shown : project view cell with
  | none => simp [Cell.shows, shown]
  | some visible =>
    have named : ∀ seen ∈ (window.getD ⟨envelope, envelope.at_ + hub.batchMs, .empty, []⟩).tables.get cell.tag, seen.name = visible.name := by
      intro seen isSeen
      rw [(project_shows shown).1]
      cases window with
      | none => cases isSeen
      | some open_ => exact ((filling open_ rfl).records _ (InsertionMap.get_eq_some.mp isSeen)).name
    have saw := fun said => @see_saw _ hub view cell visible envelope.transaction said _ shown named
    have none_ : ∀ tag, (InsertionMap.empty : InsertionMap TableTag (Seen Receipt)).get tag = none := fun _ => rfl
    obtain ⟨tag, said⟩ := name
    simp only
    by_cases same : tag = cell.tag
    · subst same
      cases window <;> simpa [Window.Saw, InsertionMap.get_set, none_] using saw said
    · have other : (tag, said) ∉ cell.shows view := fun gives => same (shows_tag gives)
      cases window <;> simp [Window.Saw, InsertionMap.get_set, same, other, none_]

theorem admitCells_saw {txids : List String} (cells : List Cell) (counted : ∀ txid ∈ envelope.transaction, txid ∈ txids)
    (filling : ∀ open_ ∈ window, Filling hub view txids open_) (name : Name) :
    (∃ made ∈ cells.foldl (hub.admitCell view envelope) window, made.Saw name) ↔
      (∃ open_ ∈ window, open_.Saw name) ∨ name ∈ cells.flatMap (Cell.shows view) := by
  induction cells generalizing window with
  | nil => simp
  | cons cell rest ih =>
    rw [List.foldl_cons, ih (admitCell_filling counted filling), admitCell_saw filling, List.flatMap_cons, List.mem_append, or_assoc]

theorem admitted_saw (cells : List Cell) (standing : Standing hub view window) :
    match hub.admitted view window envelope cells with
    | none => cells.flatMap (Cell.shows view) = []
    | some made => ∀ name, made.Saw name ↔ (∃ open_ ∈ window, open_.Saw name) ∨ name ∈ cells.flatMap (Cell.shows view) := by
  have filling : ∀ open_ ∈ window, Filling hub view ((window.map Window.txids).getD [] ++ envelope.transaction.toList) open_ := by
    rintro open_ ⟨rfl⟩
    have collected := standing.opened.collected open_ rfl
    exact ⟨fun entry held => (collected.records entry held).mono (by simp +contextual), collected.shows, collected.filled⟩
  have saw := @admitCells_saw _ hub view envelope window _ cells (fun txid isMade => by simp [Option.mem_def.mp isMade]) filling
  unfold Hub.admitted
  by_cases something : (cells.any fun cell => (project view cell).isSome) = true
  · rw [if_pos something]
    cases isLoop : cells.foldl (hub.admitCell view envelope) window with
    | none =>
      refine List.eq_nil_iff_forall_not_mem.mpr fun name gives => ?_
      obtain ⟨_, isOpen, -⟩ := (saw name).mpr (.inr gives)
      rw [isLoop] at isOpen
      cases isOpen
    | some loop =>
      rw [isLoop] at saw
      -- the transaction that joins changes nothing of this
      exact fun name => by simpa [Window.Saw] using saw name
  · rw [if_neg something]
    refine List.flatMap_eq_nil_iff.mpr fun cell member => ?_
    have hidden : project view cell = none := by simpa using fun shown => something (List.any_eq_true.mpr ⟨cell, member, shown⟩)
    rw [Cell.shows, hidden]

def Held.names : Held Receipt → List Name
  | .begins _ _ => []
  | .change frame => frame.names

def Tells (items : List (Held Receipt)) (name : Name) : Prop := ∃ item ∈ items, Names item.names name

/-- Whoever handled the items up to one was told all up to its position, and nothing that was not shown. -/
structure Reports (shown : Int → Name → Prop) (items : List (Held Receipt)) : Prop where
  told : ∀ before item after, items = before ++ item :: after → ∀ seq name, shown seq name → seq ≤ item.cursor.seq → Tells (before ++ [item]) name
  only : ∀ item ∈ items, ∀ name ∈ item.names, ∃ seq, shown seq name

structure Covers (shown : Int → Name → Prop) (items : List (Held Receipt)) (window : Option (Window Receipt)) : Prop where
  reports : Reports shown items
  held : ∀ seq name, shown seq name → Tells items name ∨ ∃ open_ ∈ window, open_.first.seq ≤ seq ∧ open_.Saw name
  seen : ∀ open_ ∈ window, ∀ name, open_.Saw name → ∃ seq, shown seq name

variable {shown later : Int → Name → Prop} {items : List (Held Receipt)} {made : List (HeldChange Receipt)} {closed admitted : Window Receipt}
  {cells : List Cell} {seq : Int}

theorem Tells.mono {others : List (Held Receipt)} (tells : Tells items name) (within : items ⊆ others) : Tells others name :=
  tells.imp fun _ item => ⟨within item.1, item.2⟩

theorem Reports.more (reports : Reports shown items) (old : ∀ seq name, shown seq name → later seq name)
    (late : ∀ seq name, later seq name → shown seq name ∨ ∀ item ∈ items, item.cursor.seq < seq) : Reports later items := by
  refine ⟨fun before item after split seq name isShown upTo => ?_, fun item member name named => (reports.only item member name named).imp fun _ => old _ _⟩
  rcases late seq name isShown with known | late
  · exact reports.told before item after split seq name known upTo
  · have := late item (by simp [split])
    omega

theorem Reports.first {rest : List (Held Receipt)} (reports : Reports shown (items ++ rest)) : Reports shown items :=
  ⟨fun before item after split => reports.told before item (after ++ rest) (by simp [split]),
    fun item member => reports.only item (List.mem_append_left _ member)⟩

theorem Covers.admit (covers : Covers shown items window) (first : admitted.first = (window.map Window.first).getD envelope)
    (saw : ∀ name, admitted.Saw name ↔ (∃ open_ ∈ window, open_.Saw name) ∨ name ∈ cells.flatMap (Cell.shows view))
    (early : ∀ open_ ∈ window, open_.first.seq ≤ envelope.seq) (fresh : ∀ item ∈ items, item.cursor.seq < envelope.seq)
    (late : ∀ seq name, later seq name ↔ shown seq name ∨ (seq = envelope.seq ∧ name ∈ cells.flatMap (Cell.shows view))) :
    Covers later items (some admitted) := by
  refine ⟨covers.reports.more (fun seq name isShown => (late seq name).mpr (.inl isShown)) fun seq name isLater => ?_, fun seq name isLater => ?_, ?_⟩
  · refine ((late seq name).mp isLater).imp_right ?_
    rintro ⟨rfl, -⟩
    exact fresh
  · rcases (late seq name).mp isLater with known | ⟨rfl, shows⟩
    · refine (covers.held seq name known).imp_right ?_
      rintro ⟨open_, ⟨rfl⟩, since, held⟩
      exact ⟨admitted, rfl, first ▸ since, (saw name).mpr (.inl ⟨open_, rfl, held⟩)⟩
    · refine .inr ⟨admitted, rfl, ?_, (saw name).mpr (.inr shows)⟩
      rw [first]
      cases window with
      | none => exact Int.le_refl _
      | some open_ => exact early open_ rfl
  · rintro _ ⟨rfl⟩ name held
    rcases (saw name).mp held with ⟨open_, isOpen, held⟩ | shows
    · exact (covers.seen open_ isOpen name held).imp fun seq known => (late seq name).mpr (.inl known)
    · exact ⟨envelope.seq, (late _ name).mpr (.inr ⟨rfl, shows⟩)⟩

/-- A window closes: its frames tell all it holds, and only the last stands behind it. -/
theorem Covers.close {closing : CursorPosition} (covers : Covers shown items (some closed)) (collected : Collected hub view closed)
    (exact_ : FramesExact hub closed closing made) : Covers shown (items ++ made.map Held.change) none := by
  obtain ⟨saw, visible⟩ := visible_saw collected
  have all : ∀ name, closed.Saw name → Tells (made.map Held.change) name := by
    intro name held
    have tells : ∀ other ∈ closed.visible, ∃ frame ∈ made, other ∈ frame.names := by
      intro other visible
      rw [← exact_.names] at visible
      exact List.mem_flatMap.mp visible
    rcases saw name held with visible | visible <;> obtain ⟨frame, member, named⟩ := tells _ visible
    · exact ⟨_, List.mem_map_of_mem member, .inl named⟩
    · exact ⟨_, List.mem_map_of_mem member, .inr named⟩
  refine ⟨⟨?_, fun item member name named => ?_⟩, fun seq name isShown => .inl ?_, fun _ isOpen => (by cases isOpen)⟩
  · intro before item after split seq name isShown upTo
    have inside : ∀ middle, before = items ++ middle → made.map Held.change = middle ++ item :: after → Tells (before ++ [item]) name := by
      rintro middle rfl split
      rcases covers.held seq name isShown with tells | ⟨_, ⟨rfl⟩, since, held⟩
      · exact tells.mono (by simp)
      · -- the frames before the last stand before the window
        rcases List.eq_nil_or_concat after with rfl | ⟨rest, last, rfl⟩
        · exact (all name held).mono (by simp [split])
        · obtain ⟨earlier, final, rfl, -, before_⟩ := exact_.cursors
          rw [List.map_append, List.concat_eq_append, ← List.cons_append, ← List.append_assoc] at split
          have member : item ∈ earlier.map Held.change := by
            rw [(List.append_inj' split rfl).1]
            simp
          obtain ⟨frame, isFrame, rfl⟩ := List.mem_map.mp member
          have position := congrArg CursorPosition.seq (before_ frame isFrame)
          simp only [Held.cursor] at upTo position
          omega
    rcases List.append_eq_append_iff.mp split with ⟨middle, split, rest⟩ | ⟨middle, split, rest⟩
    · exact inside middle split rest
    · cases middle with
      | nil => exact inside [] (by simpa using split.symm) (by simpa using rest.symm)
      | cons first middle =>
        rw [List.cons_append, List.cons.injEq] at rest
        obtain ⟨rfl, -⟩ := rest
        exact covers.reports.told before item middle split seq name isShown upTo
  · rcases List.mem_append.mp member with member | member
    · exact covers.reports.only item member name named
    · obtain ⟨frame, isFrame, rfl⟩ := List.mem_map.mp member
      exact covers.seen closed rfl name (visible name (exact_.names ▸ List.mem_flatMap.mpr ⟨frame, isFrame, named⟩))
  · rcases covers.held seq name isShown with tells | ⟨_, ⟨rfl⟩, -, held⟩
    · exact tells.mono (by simp)
    · exact (all name held).mono (by simp)

/-- What a stream holds between two sections of the hub, where the last envelope is the one at `seq`, and every position it can hand out is good. -/
structure Following (hub : Hub Receipt) (view : View) (shown : Int → Name → Prop) (Good : CursorPosition → Prop) (seq : Int)
    (items : List (Held Receipt)) (window : Option (Window Receipt)) : Prop where
  standing : Standing hub view window
  early : ∀ open_ ∈ window, open_.first.seq ≤ seq ∧ Good ⟨hub.epoch, open_.first.seq - 1, open_.first.at_⟩
  covers : Covers shown items window
  behind : ∀ item ∈ items, item.cursor.seq ≤ seq ∧ item.cursor.epoch = hub.epoch ∧ Good item.cursor

/-- A window can close at an envelope, or before it, with the times up to its own. -/
def Arrives (hub : Hub Receipt) (Good : CursorPosition → Prop) (envelope : Envelope) : Prop :=
  (∀ at_ ≤ envelope.at_, Good ⟨hub.epoch, envelope.seq - 1, at_⟩) ∧ Good ⟨hub.epoch, envelope.seq, envelope.at_⟩

variable {Good Better : CursorPosition → Prop}

theorem Following.better (following : Following hub view shown Good seq items window) (better : ∀ position, Good position → Better position) :
    Following hub view shown Better seq items window :=
  ⟨following.standing, fun open_ isOpen => (following.early open_ isOpen).imp_right (better _), following.covers,
    fun item member => (following.behind item member).imp_right (And.imp_right (better _))⟩

/-- A stream begins, and nothing is shown behind its position. -/
theorem Following.begins {position : CursorPosition} {resume : Bool} (nothing : ∀ seq name, ¬ shown seq name) (own : position.epoch = hub.epoch)
    (good : Good position) : Following hub view shown Good position.seq [.begins resume position] none := by
  refine ⟨⟨.none, fun _ held => (by cases held)⟩, fun _ held => (by cases held), ⟨⟨?_, by simp [Held.names]⟩, ?_, fun _ held => (by cases held)⟩,
    by simp [Held.cursor, own, good]⟩
  · exact fun _ _ _ _ seq name isShown => absurd isShown (nothing seq name)
  · exact fun seq name isShown => absurd isShown (nothing seq name)

theorem Covers.shut {last : Envelope} {at_ : Nat} (covers : Covers shown items (some closed)) (collected : Collected hub view closed)
    (exact_ : FramesExact hub closed ⟨hub.epoch, last.seq, at_⟩ made) (closing : Good ⟨hub.epoch, last.seq, at_⟩)
    (early : closed.first.seq ≤ last.seq ∧ Good ⟨hub.epoch, closed.first.seq - 1, closed.first.at_⟩)
    (behind : ∀ item ∈ items, item.cursor.seq ≤ last.seq ∧ item.cursor.epoch = hub.epoch ∧ Good item.cursor) :
    Following hub view shown Good last.seq (items ++ made.map Held.change) none := by
  refine ⟨⟨.none, fun _ held => (by cases held)⟩, fun _ held => (by cases held), covers.close collected exact_, fun item member => ?_⟩
  rcases List.mem_append.mp member with member | member
  · exact behind item member
  · obtain ⟨frame, isFrame, rfl⟩ := List.mem_map.mp member
    obtain ⟨earlier, final, rfl, at_last, before⟩ := exact_.cursors
    rcases List.mem_append.mp isFrame with isFrame | isFrame
    · rw [Held.cursor, before frame isFrame]
      exact ⟨by simp only; omega, rfl, early.2⟩
    · rw [List.mem_singleton.mp isFrame, Held.cursor, at_last]
      exact ⟨Int.le_refl _, rfl, closing⟩

theorem Following.close {last : Envelope} {at_ : Nat} (following : Following hub view shown Good last.seq items (some closed))
    (closing : Good ⟨hub.epoch, last.seq, at_⟩) :
    Following hub view shown Good last.seq (items ++ (hub.framesOf closed last at_).map Held.change) none :=
  following.covers.shut (following.standing.opened.collected closed rfl) (following.standing.frames last at_) closing (following.early closed rfl)
    following.behind

/-- New cells of the envelope that is last now. No position at it was handed out. -/
theorem Following.append (following : Following hub view shown Good seq items window) (cells : List Cell)
    (fresh : ∀ item ∈ items, item.cursor.seq < envelope.seq) (next : seq ≤ envelope.seq)
    (late : ∀ seq name, later seq name ↔ shown seq name ∨ (seq = envelope.seq ∧ name ∈ cells.flatMap (Cell.shows view)))
    (arrives : Arrives hub Good envelope) :
    Following hub view later Good envelope.seq (items ++ (hub.append view window envelope cells).2.map Held.change)
      (hub.append view window envelope cells).1 := by
  have early := fun open_ isOpen => (following.early open_ isOpen).imp_left (Int.le_trans · next)
  have behind := fun item member => (following.behind item member).imp_left fun _ => Int.le_of_lt (fresh item member)
  have saw := @admitted_saw _ hub view envelope window cells following.standing
  unfold Hub.append
  cases made : hub.admitted view window envelope cells with
  | none =>
    rw [made] at saw
    obtain rfl : later = shown := by
      funext seq name
      simp [late, saw]
    simpa using ⟨following.standing, early, following.covers, behind⟩
  | some admitted =>
    rw [made] at saw
    have opened := Opened.admitted following.standing.opened following.standing.room made
    have covers := following.covers.admit (admitted_first made) saw (fun open_ isOpen => (early open_ isOpen).1) fresh late
    have first : admitted.first.seq ≤ envelope.seq ∧ Good ⟨hub.epoch, admitted.first.seq - 1, admitted.first.at_⟩ := by
      rw [admitted_first made]
      cases window with
      | none => exact ⟨Int.le_refl _, arrives.1 _ (Nat.le_refl _)⟩
      | some open_ => exact early open_ rfl
    simp only
    split
    · -- the window is full: its frames stand at this envelope
      have collected := opened.collected admitted rfl
      exact covers.shut collected (framesOf_collected collected envelope envelope.at_) arrives.2 first behind
    · rename_i room
      refine ⟨⟨opened, ?_⟩, ?_, by simpa using covers, by simpa using behind⟩
      · rintro _ ⟨rfl⟩
        omega
      · rintro _ ⟨rfl⟩
        exact first

/-- Numbered one by one, behind `seq`. -/
def Numbered (seq : Int) : List Envelope → Prop
  | [] => True
  | envelope :: rest => envelope.seq = seq + 1 ∧ Numbered (seq + 1) rest

theorem numbered_append {first rest : List Envelope} :
    Numbered seq (first ++ rest) ↔ Numbered seq first ∧ Numbered (seq + first.length) rest := by
  induction first generalizing seq with
  | nil => simp [Numbered]
  | cons envelope first ih =>
    have count : seq + 1 + (first.length : Int) = seq + ((envelope :: first).length : Int) := by
      rw [List.length_cons]
      omega
    rw [List.cons_append, Numbered, ih, count, Numbered, and_assoc]

theorem numbered_mem {envelopes : List Envelope} (numbered : Numbered seq envelopes) (member : envelope ∈ envelopes) :
    seq < envelope.seq ∧ envelope.seq ≤ seq + envelopes.length := by
  obtain ⟨first, rest, rfl⟩ := List.append_of_mem member
  obtain ⟨is, -⟩ := (numbered_append.mp numbered).2
  rw [is, List.length_append, List.length_cons]
  omega

/-- A replay behind the items of `first`, up to the envelope at `seq`. -/
structure Replays (hub : Hub Receipt) (view : View) (first : List (Held Receipt)) (shown : Int → Name → Prop) (Good : CursorPosition → Prop)
    (seq : Int) (replaying : Hub.Replaying Receipt) : Prop where
  previous : ∀ open_ ∈ replaying.window, ∃ envelope ∈ replaying.previous, envelope.seq = seq
  following : Following hub view shown Good seq (first ++ replaying.frames.map Held.change) replaying.window

variable {first : List (Held Receipt)} {replaying : Hub.Replaying Receipt}

theorem Replays.expire {now : Nat} (replays : Replays hub view first shown Good seq replaying) (closing : ∀ at_ ≤ now, Good ⟨hub.epoch, seq, at_⟩) :
    Replays hub view first shown Good seq (hub.expire replaying now) := by
  unfold Hub.expire
  split
  · rename_i closed last isOpen isLast
    split
    · rename_i expired
      obtain ⟨previous, following⟩ := replays
      rw [isOpen] at following
      obtain ⟨_, ⟨rfl⟩, rfl⟩ := isLast ▸ previous closed isOpen
      exact ⟨fun _ held => (by cases held), by simpa [List.append_assoc] using following.close (closing _ expired)⟩
    · exact replays
  · exact replays

theorem Replays.next (replays : Replays hub view first shown Good seq replaying) (is : envelope.seq = seq + 1) (arrives : Arrives hub Good envelope) :
    Replays hub view first (fun q name => shown q name ∨ (q = envelope.seq ∧ name ∈ envelope.shows view)) Good envelope.seq
      (hub.replayEnvelope view replaying envelope) := by
  obtain rfl : seq = envelope.seq - 1 := by omega
  have closed := (replays.expire arrives.1).following
  have fresh := fun item member => Int.lt_of_le_sub_one (closed.behind item member).1
  have appended := closed.append (cellsOf envelope) fresh (by omega) (fun _ _ => .rfl) arrives
  rw [List.append_assoc, ← List.map_append] at appended
  exact ⟨fun _ _ => ⟨envelope, rfl, rfl⟩, appended⟩

theorem Replays.run (envelopes : List Envelope) (replays : Replays hub view first shown Good seq replaying) (numbered : Numbered seq envelopes)
    (arrive : ∀ envelope ∈ envelopes, Arrives hub Good envelope)
    (late : ∀ seq name, later seq name ↔ shown seq name ∨ ∃ envelope ∈ envelopes, seq = envelope.seq ∧ name ∈ envelope.shows view) :
    Replays hub view first later Good (seq + envelopes.length) (envelopes.foldl (hub.replayEnvelope view) replaying) := by
  induction envelopes generalizing replaying seq shown with
  | nil =>
    obtain rfl : later = shown := by
      funext seq name
      simp [late]
    simpa using replays
  | cons envelope rest ih =>
    have run := ih (replays.next numbered.1 (arrive envelope (by simp))) (numbered.1 ▸ numbered.2) (fun other member => arrive other (by simp [member]))
      fun seq name => by rw [late, List.exists_mem_cons_iff, or_assoc]
    have count : envelope.seq + (rest.length : Int) = seq + ((envelope :: rest).length : Int) := by
      rw [numbered.1, List.length_cons]
      omega
    exact count ▸ run

end Arki.Live
