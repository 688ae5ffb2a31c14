import Arki.Live.Hub

/-! What every window of a stream holds. -/

set_option autoImplicit false

namespace Arki.Live

variable {Receipt : Type} {hub : Hub Receipt} {view : View}

/-- The windows the hub's code can have in its hands: each made by admitting cells, to none or to one that is not full. -/
inductive Opened (hub : Hub Receipt) (view : View) : Option (Window Receipt) → Prop where
  | none : Opened hub view none
  | admitted {window : Option (Window Receipt)} {admitted : Window Receipt} {envelope : Envelope} {cells : List Cell} :
      Opened hub view window → (∀ open_ ∈ window, open_.txids.length < maxTxidsPerFrame) →
      hub.admitted view window envelope cells = some admitted → Opened hub view (some admitted)

def Known (hub : Hub Receipt) (txids : List String) (entry : String × Receipt) : Prop :=
  entry.2 = hub.receiptOf entry.1 ∧ entry.1 ∈ txids

structure Records (hub : Hub Receipt) (view : View) (txids : List String) (tag : TableTag) (seen : Seen Receipt) : Prop where
  name : seen.name = (view.scopes.get tag).map Scope.name
  granted : seen.keys.entries ≠ [] → seen.name ≠ none
  whole : ∀ entry ∈ seen.whole.entries, Known hub txids entry
  keys : ∀ key ∈ seen.keys.entries, ∀ entry ∈ key.2.entries, Known hub txids entry

/-- The window shows something of every table it records, and counts every transaction it names, once. -/
structure Collected (hub : Hub Receipt) (view : View) (window : Window Receipt) : Prop where
  records : ∀ entry ∈ window.tables.entries, Records hub view window.txids entry.1 entry.2
  shows : ∀ entry ∈ window.tables.entries, entry.2.wholeSeen = true ∨ entry.2.keys.entries ≠ []
  filled : window.tables.entries ≠ []
  once : window.txids.Nodup
  few : window.txids.length ≤ maxTxidsPerFrame

variable {txids : List String} {transaction : Option String} {seen : Seen Receipt} {cell : Cell} {visible : Shown}
  {window : Option (Window Receipt)} {tag : TableTag} {envelope : Envelope}

theorem project_shows (shown : project view cell = some visible) :
    visible.name = (view.scopes.get cell.tag).map Scope.name ∧ (visible.whole = true ∨ visible.keys ≠ []) ∧
    (visible.keys ≠ [] → visible.name ≠ none) := by
  unfold project at shown
  split at shown
  · cases shown
  · simp only at shown
    split at shown
    · cases shown
    · rename_i something
      cases shown
      refine ⟨rfl, ?_, ?_⟩
      · rcases Bool.eq_false_or_eq_true (cell.whole && (view.scopes.get cell.tag).all (·.keys = none)) with whole | part
        · exact .inl whole
        · refine .inr fun empty => something ?_
          have nothing : grantedKeys (view.scopes.get cell.tag) cell = [] := empty
          rw [part, nothing]
          rfl
      · intro keyed
        cases scope : view.scopes.get cell.tag with
        | none =>
          rw [scope] at keyed
          exact absurd rfl keyed
        | some scope => simp

theorem known_mono {more : List String} (grow : ∀ txid ∈ txids, txid ∈ more) {entry : String × Receipt}
    (known : Known hub txids entry) : Known hub more entry := ⟨known.1, grow _ known.2⟩

theorem Records.mono {more : List String} (grow : ∀ txid ∈ txids, txid ∈ more)
    (records : Records hub view txids tag seen) : Records hub view more tag seen :=
  ⟨records.name, records.granted, fun entry held => known_mono grow (records.whole entry held),
    fun key held entry within => known_mono grow (records.keys key held entry within)⟩

theorem record_known (counted : ∀ txid ∈ transaction, txid ∈ txids)
    {receipts : InsertionMap String Receipt} (known : ∀ entry ∈ receipts.entries, Known hub txids entry) :
    ∀ entry ∈ (hub.record transaction receipts).entries, Known hub txids entry := by
  cases transaction with
  | none => exact known
  | some txid =>
    intro entry held
    rcases InsertionMap.mem_set.mp held with rfl | ⟨held, -⟩
    · exact ⟨rfl, counted txid rfl⟩
    · exact known entry held

theorem set_filled {Key Value : Type} [DecidableEq Key] (map : InsertionMap Key Value) (key : Key) (value : Value) :
    (map.set key value).entries ≠ [] := by
  intro empty
  have held : (key, value) ∈ (map.set key value).entries := InsertionMap.mem_set.mpr (.inl rfl)
  rw [empty] at held
  cases held

theorem seeKey_records {key : String}
    (counted : ∀ txid ∈ transaction, txid ∈ txids) (named : seen.name ≠ none) (records : Records hub view txids tag seen) :
    Records hub view txids tag (hub.seeKey transaction seen key) := by
  refine ⟨records.name, fun _ => named, records.whole, fun entry held => ?_⟩
  rcases InsertionMap.mem_set.mp held with rfl | ⟨held, -⟩
  · refine record_known counted fun entry within => ?_
    cases known : seen.keys.get key with
    | none =>
      rw [known] at within
      cases within
    | some receipts =>
      rw [known] at within
      exact records.keys _ (InsertionMap.get_eq_some.mp known) entry within
  · exact records.keys entry held

theorem seeKeys_records (keys : List String)
    (counted : ∀ txid ∈ transaction, txid ∈ txids) (named : keys ≠ [] → seen.name ≠ none) (records : Records hub view txids tag seen) :
    Records hub view txids tag (keys.foldl (hub.seeKey transaction) seen) := by
  induction keys generalizing seen with
  | nil => exact records
  | cons key rest ih => exact ih (fun _ => named (by simp)) (seeKey_records counted (named (by simp)) records)

theorem seeKeys_filled (keys : List String)
    (filled : keys ≠ [] ∨ seen.keys.entries ≠ []) : (keys.foldl (hub.seeKey transaction) seen).keys.entries ≠ [] := by
  induction keys generalizing seen with
  | nil => simpa using filled
  | cons key rest ih => exact ih (.inr (set_filled _ _ _))

theorem seeKeys_whole (keys : List String) :
    (keys.foldl (hub.seeKey transaction) seen).wholeSeen = seen.wholeSeen := by
  induction keys generalizing seen with
  | nil => rfl
  | cons key rest ih =>
    rw [List.foldl_cons, ih]
    rfl

theorem see_records {known : Option (Seen Receipt)}
    (counted : ∀ txid ∈ transaction, txid ∈ txids) (shown : project view cell = some visible)
    (records : ∀ seen ∈ known, Records hub view txids cell.tag seen) :
    Records hub view txids cell.tag (hub.see transaction visible known) := by
  obtain ⟨name, -, keyed⟩ := project_shows shown
  have start : Records hub view txids cell.tag (known.getD ⟨visible.name, false, .empty, .empty⟩) := by
    cases known with
    | none => exact ⟨name, fun some_ => absurd rfl some_, fun _ held => (by cases held), fun _ held => (by cases held)⟩
    | some seen => exact records seen rfl
  have named : visible.keys ≠ [] → (known.getD ⟨visible.name, false, .empty, .empty⟩).name ≠ none := by
    intro some_
    rw [start.name, ← name]
    exact keyed some_
  unfold Hub.see
  simp only
  split
  · exact seeKeys_records visible.keys counted named
      ⟨start.name, start.granted, record_known counted start.whole, start.keys⟩
  · exact seeKeys_records visible.keys counted named start

theorem see_shows {known : Option (Seen Receipt)}
    (shown : project view cell = some visible) :
    (hub.see transaction visible known).wholeSeen = true ∨ (hub.see transaction visible known).keys.entries ≠ [] := by
  obtain ⟨-, something, -⟩ := project_shows shown
  unfold Hub.see
  simp only
  rcases something with whole | keyed
  · rw [if_pos whole, seeKeys_whole]
    exact .inl rfl
  · exact .inr (seeKeys_filled visible.keys (.inl keyed))

/-- A window in the loop over an envelope's cells: its transaction may not be counted yet. -/
structure Filling (hub : Hub Receipt) (view : View) (txids : List String) (window : Window Receipt) : Prop where
  records : ∀ entry ∈ window.tables.entries, Records hub view txids entry.1 entry.2
  shows : ∀ entry ∈ window.tables.entries, entry.2.wholeSeen = true ∨ entry.2.keys.entries ≠ []
  filled : window.tables.entries ≠ []

theorem admitCell_filling
    (counted : ∀ txid ∈ envelope.transaction, txid ∈ txids) (filling : ∀ open_ ∈ window, Filling hub view txids open_) :
    ∀ open_ ∈ hub.admitCell view envelope window cell, Filling hub view txids open_ := by
  intro open_ isOpen
  unfold Hub.admitCell at isOpen
  split at isOpen
  · exact filling open_ isOpen
  · rename_i visible shown
    cases isOpen
    have known : ∀ entry ∈ (window.getD ⟨envelope, envelope.at_ + hub.batchMs, .empty, []⟩).tables.entries,
        Records hub view txids entry.1 entry.2 ∧ (entry.2.wholeSeen = true ∨ entry.2.keys.entries ≠ []) := by
      cases window with
      | none =>
        intro entry held
        cases held
      | some window => exact fun entry held => ⟨(filling window rfl).records entry held, (filling window rfl).shows entry held⟩
    refine ⟨fun entry held => ?_, fun entry held => ?_, set_filled _ _ _⟩
    · rcases InsertionMap.mem_set.mp held with rfl | ⟨held, -⟩
      · exact see_records counted shown fun seen isSeen => (known _ (InsertionMap.get_eq_some.mp isSeen)).1
      · exact (known entry held).1
    · rcases InsertionMap.mem_set.mp held with rfl | ⟨held, -⟩
      · exact see_shows shown
      · exact (known entry held).2

theorem admitCells_filling (cells : List Cell)
    (counted : ∀ txid ∈ envelope.transaction, txid ∈ txids) (filling : ∀ open_ ∈ window, Filling hub view txids open_) :
    ∀ open_ ∈ cells.foldl (hub.admitCell view envelope) window, Filling hub view txids open_ := by
  induction cells generalizing window with
  | nil => exact filling
  | cons cell rest ih => exact ih (admitCell_filling counted filling)

theorem admitCells_txids (cells : List Cell) {open_ : Window Receipt}
    (isOpen : cells.foldl (hub.admitCell view envelope) window = some open_) : open_.txids = (window.map Window.txids).getD [] := by
  induction cells generalizing window with
  | nil =>
    rw [List.foldl_nil] at isOpen
    rw [isOpen]
    rfl
  | cons cell rest ih =>
    rw [List.foldl_cons] at isOpen
    rw [ih isOpen]
    unfold Hub.admitCell
    split
    · rfl
    · cases window <;> rfl

theorem Opened.collected (opened : Opened hub view window) : ∀ open_ ∈ window, Collected hub view open_ := by
  induction opened with
  | none =>
    intro open_ isOpen
    cases isOpen
  | @admitted window made envelope cells _ small isAdmitted ih =>
    intro open_ isOpen
    cases isOpen
    unfold Hub.admitted at isAdmitted
    split at isAdmitted
    · obtain ⟨loop, isLoop, rfl⟩ := Option.map_eq_some_iff.mp isAdmitted
      have before := admitCells_txids cells isLoop
      have held : (∀ open_ ∈ window, open_.txids = loop.txids) ∧ loop.txids.Nodup ∧ loop.txids.length < maxTxidsPerFrame := by
        cases window with
        | none => exact ⟨fun _ isOpen => (by cases isOpen), by simp [before], by simp [before, maxTxidsPerFrame]⟩
        | some window =>
          have same : loop.txids = window.txids := before
          rw [same]
          exact ⟨fun open_ isOpen => (by cases isOpen; rfl), (ih window rfl).once, small window rfl⟩
      obtain ⟨same, once, few⟩ := held
      generalize counted : (envelope.transaction.elim loop.txids fun txid => loop.txids.insert txid) = txids
      have grow : ∀ txid ∈ loop.txids, txid ∈ txids := by
        intro txid member
        cases isMade : envelope.transaction with
        | none => simpa [← counted, isMade] using member
        | some txid => simpa [← counted, isMade] using .inr member
      have own : ∀ txid ∈ envelope.transaction, txid ∈ txids := by
        intro txid isMade
        rw [Option.mem_def] at isMade
        simp [← counted, isMade]
      have filling := admitCells_filling cells own (fun open_ isOpen =>
        ⟨fun entry within => ((ih open_ isOpen).records entry within).mono (same open_ isOpen ▸ grow), (ih open_ isOpen).shows,
          (ih open_ isOpen).filled⟩) loop isLoop
      refine ⟨filling.records, filling.shows, filling.filled, ?_, ?_⟩
      · cases isMade : envelope.transaction with
        | none => simpa [← counted, isMade] using once
        | some txid => simpa [← counted, isMade] using once.insert
      · cases isMade : envelope.transaction with
        | none =>
          simp only [← counted, isMade, Option.elim_none]
          omega
        | some txid =>
          simp only [← counted, isMade, Option.elim_some]
          by_cases member : txid ∈ loop.txids
          · rw [List.insert_of_mem member]
            omega
          · rw [List.insert_of_not_mem member, List.length_cons]
            omega
    · cases isAdmitted

end Arki.Live
