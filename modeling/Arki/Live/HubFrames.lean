import Mathlib.Data.List.Perm.Subperm
import Arki.Live.HubWindows

/-! What the frames of a closed window say. -/

set_option autoImplicit false

namespace Arki.Live

variable {Receipt : Type} {hub : Hub Receipt} {view : View}

abbrev Name := TableTag × Option (String × String)

def FrameTag.names (tag : FrameTag) : List Name :=
  match tag.scope with
  | none => [(tag.tag, none)]
  | some scope => scope.2.map fun key => (tag.tag, some (scope.1, key))

structure Item where
  name : Name
  txids : List String

/-- A table as a whole: written by every transaction that wrote it or a key of it. -/
def Seen.wholeItem (tag : TableTag) (seen : Seen Receipt) : Item :=
  ⟨(tag, none), seen.whole.keys ++ seen.keys.values.flatMap InsertionMap.keys⟩

def Seen.items (tag : TableTag) (seen : Seen Receipt) : List Item :=
  match seen.name with
  | none => [seen.wholeItem tag]
  | some name =>
    if seen.wholeSeen then [seen.wholeItem tag]
    else seen.keys.entries.map fun entry => ⟨(tag, some (name, entry.1)), entry.2.keys⟩

def Window.items (window : Window Receipt) : List Item := window.tables.entries.flatMap fun entry => entry.2.items entry.1

def Item.isKey (item : Item) : Bool := item.name.2.isSome

/-- A part names the items of a group, within the limits of a frame. -/
structure Frames (hub : Hub Receipt) (group : List Item) (part : Part Receipt) : Prop where
  names : part.tags.flatMap FrameTag.names = group.map Item.name
  count : part.keys = group.countP Item.isKey
  keys : part.keys ≤ maxKeysPerFrame
  tags : part.tags.length ≤ maxTagsPerFrame
  filled : ∀ tag ∈ part.tags, tag.names ≠ []
  once : (part.tags.map FrameTag.tag).Nodup
  receipts : ∀ txid, txid ∈ part.receipts.keys ↔ ∃ item ∈ group, txid ∈ item.txids
  known : ∀ entry ∈ part.receipts.entries, entry.2 = hub.receiptOf entry.1

/-- The items taken so far, cut into consecutive groups: one for each part that is done, and the last for the one being made. -/
structure Cuts (hub : Hub Receipt) (items : List Item) (groups : List (List Item)) (last : List Item) (framing : Framing Receipt) : Prop where
  done : List.Forall₂ (Frames hub) groups framing.parts
  filled : ∀ group ∈ groups, group ≠ []
  making : Frames hub last framing.part
  whole : groups.flatten ++ last = items

variable {items last group : List Item} {groups : List (List Item)} {item : Item} {part : Part Receipt} {framing : Framing Receipt}
  {tag : TableTag} {seen : Seen Receipt} {dimension : String} {txids : List String}

theorem frames_start : Frames hub [] (Part.start : Part Receipt) :=
  ⟨rfl, rfl, Nat.zero_le _, Nat.zero_le _, fun _ held => (by cases held), List.nodup_nil, fun txid => by simp [Part.start, InsertionMap.keys, InsertionMap.empty],
    fun _ held => (by cases held)⟩

theorem cuts_start : Cuts hub [] [] [] (Framing.start : Framing Receipt) := ⟨.nil, fun _ held => (by cases held), frames_start, rfl⟩

theorem Frames.table (frames : Frames hub group part) {tag : FrameTag} (held : tag ∈ part.tags) :
    ∃ item ∈ group, item.name.1 = tag.tag := by
  obtain ⟨name, named⟩ := List.exists_mem_of_ne_nil _ (frames.filled tag held)
  have within : name ∈ group.map Item.name := frames.names ▸ List.mem_flatMap.mpr ⟨tag, held, named⟩
  obtain ⟨item, member, rfl⟩ := List.mem_map.mp within
  refine ⟨item, member, ?_⟩
  unfold FrameTag.names at named
  split at named
  · rw [List.mem_singleton.mp named]
  · obtain ⟨key, -, same⟩ := List.mem_map.mp named
    rw [← same]

theorem Frames.some_of_tags (frames : Frames hub group part) (some_ : part.tags ≠ []) : group ≠ [] := by
  obtain ⟨tag, held⟩ := List.exists_mem_of_ne_nil _ some_
  obtain ⟨item, member, -⟩ := frames.table held
  exact List.ne_nil_of_mem member

theorem Frames.tags_of_some (frames : Frames hub group part) (some_ : group ≠ []) : part.tags ≠ [] := by
  intro none_
  have names := frames.names
  rw [none_] at names
  exact some_ (List.map_eq_nil_iff.mp names.symm)

theorem Cuts.next (cuts : Cuts hub items groups last framing)
    (some_ : last ≠ []) : Cuts hub items (groups ++ [last]) [] framing.next := by
  refine ⟨List.rel_append cuts.done (.cons cuts.making .nil), fun group member => ?_, frames_start, ?_⟩
  · rcases List.mem_append.mp member with member | member
    · exact cuts.filled group member
    · exact List.mem_singleton.mp member ▸ some_
  · simp [← cuts.whole]

theorem Cuts.grow
    (cuts : Cuts hub items groups last framing) (grown : Frames hub (last ++ [item]) part) :
    Cuts hub (items ++ [item]) groups (last ++ [item]) { framing with part } :=
  ⟨cuts.done, cuts.filled, grown, by rw [← List.append_assoc, cuts.whole]⟩

theorem Frames.one_more {receipts : InsertionMap String Receipt}
    (frames : Frames hub group part) (all : ∀ txid, txid ∈ receipts.keys ↔ txid ∈ part.receipts.keys ∨ txid ∈ item.txids) (txid : String) :
    txid ∈ receipts.keys ↔ ∃ other ∈ group ++ [item], txid ∈ other.txids := by
  rw [all, frames.receipts]
  constructor
  · rintro (⟨other, member, wrote⟩ | wrote)
    · exact ⟨other, by simp [member], wrote⟩
    · exact ⟨item, by simp, wrote⟩
  · rintro ⟨other, member, wrote⟩
    rcases List.mem_append.mp member with member | member
    · exact .inl ⟨other, member, wrote⟩
    · exact .inr (List.mem_singleton.mp member ▸ wrote)

theorem Frames.new_tag {tag : FrameTag} {receipts : InsertionMap String Receipt}
    {keys : Nat} (frames : Frames hub group part) (new : ∀ other ∈ group, other.name.1 ≠ tag.tag) (names : tag.names = [item.name])
    (room : part.tags.length < maxTagsPerFrame) (count : keys = (group ++ [item]).countP Item.isKey) (few : keys ≤ maxKeysPerFrame)
    (all : ∀ txid, txid ∈ receipts.keys ↔ txid ∈ part.receipts.keys ∨ txid ∈ item.txids)
    (known : ∀ entry ∈ receipts.entries, entry.2 = hub.receiptOf entry.1) : Frames hub (group ++ [item]) ⟨part.tags ++ [tag], receipts, keys⟩ where
  names := by simp [frames.names, names]
  count := count
  keys := few
  tags := by
    rw [List.length_append]
    exact room
  filled := by
    intro other held
    rcases List.mem_append.mp held with held | held
    · exact frames.filled other held
    · rw [List.mem_singleton.mp held, names]
      simp
  once := by
    rw [List.map_append, List.nodup_append]
    refine ⟨frames.once, by simp, fun first held second same => ?_⟩
    rintro rfl
    obtain ⟨other, within, rfl⟩ := List.mem_map.mp held
    obtain ⟨named, member, at_⟩ := frames.table within
    have last : other.tag = tag.tag := by simpa using same
    exact new named member (at_.trans last)
  receipts := frames.one_more all
  known := known

theorem pushKey_append (tags : List FrameTag) (tag : FrameTag) (key : String) :
    pushKey (tags ++ [tag]) key = tags ++ [{ tag with scope := tag.scope.map fun scope => (scope.1, scope.2 ++ [key]) }] := by
  induction tags with
  | nil => rfl
  | cons first rest ih =>
    cases rest with
    | nil => rfl
    | cons second more => exact congrArg (first :: ·) ih

theorem Frames.more_keys {key : String}
    {tags : List FrameTag} {keys : List String} {receipts : InsertionMap String Receipt}
    (frames : Frames hub group part) (last : part.tags = tags ++ [⟨tag, some (dimension, keys)⟩])
    (name : item.name = (tag, some (dimension, key))) (room : part.keys < maxKeysPerFrame)
    (all : ∀ txid, txid ∈ receipts.keys ↔ txid ∈ part.receipts.keys ∨ txid ∈ item.txids)
    (known : ∀ entry ∈ receipts.entries, entry.2 = hub.receiptOf entry.1) :
    Frames hub (group ++ [item]) ⟨tags ++ [⟨tag, some (dimension, keys ++ [key])⟩], receipts, part.keys + 1⟩ where
  names := by
    have names := frames.names
    rw [last] at names
    simp only [List.flatMap_append, List.map_append, ← names]
    simp [FrameTag.names, name]
  count := by
    rw [List.countP_append, ← frames.count]
    simp [Item.isKey, name]
  keys := room
  tags := by
    have few := frames.tags
    rw [last] at few
    simpa using few
  filled := by
    intro other held
    rcases List.mem_append.mp held with held | held
    · exact frames.filled other (last ▸ List.mem_append_left _ held)
    · rw [List.mem_singleton.mp held]
      simp [FrameTag.names]
  once := by
    have once := frames.once
    rw [last] at once
    simpa using once
  receipts := frames.one_more all
  known := known

theorem takes_tags (part : Part Receipt) (maps : List (InsertionMap String Receipt)) :
    (maps.foldl Part.take part).tags = part.tags ∧ (maps.foldl Part.take part).keys = part.keys := by
  induction maps generalizing part with
  | nil => exact ⟨rfl, rfl⟩
  | cons map rest ih => exact ih (part.take map)

theorem takes_receipts (part : Part Receipt) (maps : List (InsertionMap String Receipt)) (txid : String) :
    txid ∈ (maps.foldl Part.take part).receipts.keys ↔ txid ∈ part.receipts.keys ∨ txid ∈ maps.flatMap InsertionMap.keys := by
  induction maps generalizing part with
  | nil => simp
  | cons map rest ih =>
    rw [List.foldl_cons, ih, Part.take, InsertionMap.mem_keys_merge, List.flatMap_cons, List.mem_append]
    tauto

theorem takes_all (holds : String × Receipt → Prop) (part : Part Receipt) (maps : List (InsertionMap String Receipt))
    (ours : ∀ entry ∈ part.receipts.entries, holds entry) (theirs : ∀ map ∈ maps, ∀ entry ∈ map.entries, holds entry) :
    ∀ entry ∈ (maps.foldl Part.take part).receipts.entries, holds entry := by
  induction maps generalizing part with
  | nil => exact ours
  | cons map rest ih =>
    exact ih _ (InsertionMap.merge_all ours (theirs map (by simp))) fun map held => theirs map (by simp [held])

theorem Cuts.room (cuts : Cuts hub items groups last framing)
    (full : Prop) [Decidable full] (named : full → framing.part.tags ≠ []) :
    ∃ groups last, Cuts hub items groups last (if full then framing.next else framing) ∧
      (∀ item ∈ last, item ∈ items) ∧ (full → last = []) := by
  by_cases isFull : full
  · rw [if_pos isFull]
    exact ⟨_, _, cuts.next (cuts.making.some_of_tags (named isFull)), fun _ held => (by cases held), fun _ => rfl⟩
  · rw [if_neg isFull]
    exact ⟨groups, last, cuts, fun item held => cuts.whole ▸ List.mem_append_right _ held, fun full => absurd full isFull⟩

theorem tags_some (full : maxTagsPerFrame ≤ part.tags.length) : part.tags ≠ [] := by
  intro none_
  rw [none_] at full
  cases full

/-- A table seen as a whole is one tag, with the receipts of all that wrote to it. -/
theorem frameWhole_cuts (cuts : Cuts hub items groups last framing) (new : ∀ item ∈ items, item.name.1 ≠ tag)
    (records : Records hub view txids tag seen) :
    ∃ groups last, Cuts hub (items ++ [seen.wholeItem tag]) groups last (frameWhole framing tag seen) := by
  obtain ⟨groups, last, cuts, within, -⟩ := cuts.room (maxTagsPerFrame ≤ framing.part.tags.length) tags_some
  unfold frameWhole
  simp only
  have room : (if maxTagsPerFrame ≤ framing.part.tags.length then framing.next else framing).part.tags.length < maxTagsPerFrame := by
    split
    · exact Nat.zero_lt_succ _
    · omega
  generalize (if maxTagsPerFrame ≤ framing.part.tags.length then framing.next else framing) = framing at cuts room
  let start : Part Receipt := { framing.part with tags := framing.part.tags ++ [⟨tag, none⟩] }
  obtain ⟨tags, keys⟩ := takes_tags (start.take seen.whole) seen.keys.values
  have receipts := takes_receipts (start.take seen.whole) seen.keys.values
  have known := takes_all (fun entry => entry.2 = hub.receiptOf entry.1) (start.take seen.whole) seen.keys.values
    (InsertionMap.merge_all cuts.making.known fun entry held => (records.whole entry held).1)
    fun map held entry within => by
      obtain ⟨key, isKey, rfl⟩ := List.mem_map.mp held
      exact (records.keys key isKey entry within).1
  refine ⟨groups, last ++ [seen.wholeItem tag], cuts.grow ?_⟩
  have all : ∀ txid, txid ∈ (seen.keys.values.foldl Part.take (start.take seen.whole)).receipts.keys ↔
      txid ∈ framing.part.receipts.keys ∨ txid ∈ (seen.wholeItem tag).txids := by
    intro txid
    rw [receipts, Part.take, InsertionMap.mem_keys_merge, Seen.wholeItem, List.mem_append]
    tauto
  have frames : Frames hub (last ++ [seen.wholeItem tag])
      ⟨framing.part.tags ++ [⟨tag, none⟩], (seen.keys.values.foldl Part.take (start.take seen.whole)).receipts, framing.part.keys⟩ :=
    cuts.making.new_tag (fun other member => new other (within other member)) rfl room
    (by simp [cuts.making.count, Item.isKey, Seen.wholeItem]) cuts.making.keys all known
  generalize seen.keys.values.foldl Part.take (start.take seen.whole) = part at tags keys frames ⊢
  obtain ⟨partTags, partReceipts, partKeys⟩ := part
  simp only [Part.take, start] at tags keys
  subst tags keys
  exact frames

/-- A table seen by key: its last tag takes more keys once it is opened, and nothing named the table before that. -/
structure Taking (hub : Hub Receipt) (tag : TableTag) (dimension : String) (items : List Item) (state : Framing Receipt × Bool) : Prop where
  cuts : ∃ groups last, Cuts hub items groups last state.1
  opened : state.2 = true → ∃ tags keys, state.1.part.tags = tags ++ [⟨tag, some (dimension, keys)⟩]
  new : state.2 = false → ∀ item ∈ items, item.name.1 ≠ tag

theorem frameKey_opened {state : Framing Receipt × Bool} {entry : String × InsertionMap String Receipt}
    (isOpen : state.2 = true) (room : state.1.part.keys < maxKeysPerFrame) :
    frameKey tag dimension state entry =
      (⟨state.1.parts, Part.take ⟨pushKey state.1.part.tags entry.1, state.1.part.receipts, state.1.part.keys + 1⟩ entry.2⟩, true) := by
  have notFull : ¬(maxKeysPerFrame ≤ state.1.part.keys ∨ (state.2 = false ∧ maxTagsPerFrame ≤ state.1.part.tags.length)) := by
    rw [isOpen]
    simp
    omega
  unfold frameKey
  simp only [if_neg notFull]
  rw [isOpen, if_pos rfl]

theorem frameKey_new {state : Framing Receipt × Bool} {entry : String × InsertionMap String Receipt} (framed : (if maxKeysPerFrame ≤ state.1.part.keys ∨ (state.2 = false ∧ maxTagsPerFrame ≤ state.1.part.tags.length)
      then state.1.next else state.1) = framing)
    (closed : state.2 = false ∨ maxKeysPerFrame ≤ state.1.part.keys) :
    frameKey tag dimension state entry =
      (⟨framing.parts, Part.take ⟨framing.part.tags ++ [⟨tag, some (dimension, [entry.1])⟩], framing.part.receipts, framing.part.keys + 1⟩
        entry.2⟩, true) := by
  unfold frameKey
  simp only [framed]
  have shut : (if maxKeysPerFrame ≤ state.1.part.keys ∨ (state.2 = false ∧ maxTagsPerFrame ≤ state.1.part.tags.length) then false else state.2) = false := by
    split
    · rfl
    · rename_i notFull
      rcases closed with shut | many
      · exact shut
      · exact absurd (.inl many) notFull
  rw [shut]
  simp [pushKey_append]

theorem frameKey_taking {state : Framing Receipt × Bool}
    {entry : String × InsertionMap String Receipt} (taking : Taking hub tag dimension items state)
    (known : ∀ receipt ∈ entry.2.entries, receipt.2 = hub.receiptOf receipt.1) :
    Taking hub tag dimension (items ++ [⟨(tag, some (dimension, entry.1)), entry.2.keys⟩]) (frameKey tag dimension state entry) ∧
    (frameKey tag dimension state entry).2 = true := by
  obtain ⟨groups, last, cuts⟩ := taking.cuts
  by_cases goesOn : state.2 = true ∧ state.1.part.keys < maxKeysPerFrame
  · obtain ⟨isOpen, room⟩ := goesOn
    obtain ⟨tags, keys, tagged⟩ := taking.opened isOpen
    have frames : Frames hub (last ++ [⟨(tag, some (dimension, entry.1)), entry.2.keys⟩])
        ⟨tags ++ [⟨tag, some (dimension, keys ++ [entry.1])⟩], state.1.part.receipts.merge entry.2, state.1.part.keys + 1⟩ :=
      cuts.making.more_keys tagged rfl room (fun txid => InsertionMap.mem_keys_merge) (InsertionMap.merge_all cuts.making.known known)
    rw [frameKey_opened isOpen room]
    have pushed : pushKey state.1.part.tags entry.1 = tags ++ [⟨tag, some (dimension, keys ++ [entry.1])⟩] := by
      rw [tagged, pushKey_append]
      rfl
    rw [pushed]
    exact ⟨⟨⟨groups, _, cuts.grow frames⟩, fun _ => ⟨tags, _, rfl⟩, fun shut => (by cases shut)⟩, rfl⟩
  · have closed : state.2 = false ∨ maxKeysPerFrame ≤ state.1.part.keys := by
      rcases Bool.eq_false_or_eq_true state.2 with isOpen | shut
      · exact .inr (by
          by_contra few
          exact goesOn ⟨isOpen, by omega⟩)
      · exact .inl shut
    -- a frame that is closed here names something: its limit of keys or of tags is reached
    have named : maxKeysPerFrame ≤ state.1.part.keys ∨ (state.2 = false ∧ maxTagsPerFrame ≤ state.1.part.tags.length) → state.1.part.tags ≠ [] := by
      rintro (many | ⟨-, many⟩)
      · refine cuts.making.tags_of_some ?_
        rintro rfl
        have count := cuts.making.count
        simp only [List.countP_nil] at count
        rw [count] at many
        cases many
      · exact tags_some many
    obtain ⟨groups, last, cuts', within, empty⟩ := cuts.room _ named
    generalize framed : (if maxKeysPerFrame ≤ state.1.part.keys ∨ (state.2 = false ∧ maxTagsPerFrame ≤ state.1.part.tags.length)
      then state.1.next else state.1) = framing at cuts'
    have room : framing.part.tags.length < maxTagsPerFrame ∧ framing.part.keys < maxKeysPerFrame := by
      rw [← framed]
      split
      · exact ⟨Nat.zero_lt_succ _, Nat.zero_lt_succ _⟩
      · rename_i notFull
        simp only [not_or, not_and, Nat.not_le] at notFull
        exact ⟨notFull.2 (closed.resolve_right (by omega)), notFull.1⟩
    have new : ∀ other ∈ last, other.name.1 ≠ tag := by
      intro other member
      by_cases full : maxKeysPerFrame ≤ state.1.part.keys ∨ (state.2 = false ∧ maxTagsPerFrame ≤ state.1.part.tags.length)
      · rw [empty full] at member
        cases member
      · exact taking.new (closed.resolve_right fun many => full (.inl many)) other (within other member)
    have frames : Frames hub (last ++ [⟨(tag, some (dimension, entry.1)), entry.2.keys⟩])
        ⟨framing.part.tags ++ [⟨tag, some (dimension, [entry.1])⟩], framing.part.receipts.merge entry.2, framing.part.keys + 1⟩ :=
      cuts'.making.new_tag new rfl room.1 (by simp [cuts'.making.count, Item.isKey]) room.2 (fun txid => InsertionMap.mem_keys_merge)
      (InsertionMap.merge_all cuts'.making.known known)
    rw [frameKey_new framed closed]
    exact ⟨⟨⟨groups, _, cuts'.grow frames⟩, fun _ => ⟨_, _, rfl⟩, fun shut => (by cases shut)⟩, rfl⟩

theorem frameKeys_taking {state : Framing Receipt × Bool}
    (entries : List (String × InsertionMap String Receipt)) (taking : Taking hub tag dimension items state)
    (known : ∀ entry ∈ entries, ∀ receipt ∈ entry.2.entries, receipt.2 = hub.receiptOf receipt.1) :
    Taking hub tag dimension (items ++ entries.map fun entry => ⟨(tag, some (dimension, entry.1)), entry.2.keys⟩)
      (entries.foldl (frameKey tag dimension) state) := by
  induction entries generalizing items state with
  | nil => simpa using taking
  | cons entry rest ih =>
    have step := (frameKey_taking taking (known entry (by simp))).1
    have run := ih step fun other held => known other (by simp [held])
    simpa using run

theorem items_table (member : item ∈ seen.items tag) : item.name.1 = tag := by
  unfold Seen.items at member
  split at member
  · rw [List.mem_singleton.mp member]
    rfl
  · split at member
    · rw [List.mem_singleton.mp member]
      rfl
    · obtain ⟨entry, -, rfl⟩ := List.mem_map.mp member
      rfl

theorem frameWhole_some (framing : Framing Receipt) (tag : TableTag) (seen : Seen Receipt) : (frameWhole framing tag seen).part.tags ≠ [] := by
  unfold frameWhole
  simp only
  rw [(takes_tags _ _).1, Part.take]
  simp

theorem frameKeys_open {state : Framing Receipt × Bool}
    (entries : List (String × InsertionMap String Receipt)) (some_ : entries ≠ [] ∨ state.2 = true) :
    (entries.foldl (frameKey tag dimension) state).2 = true := by
  induction entries generalizing state with
  | nil => simpa using some_
  | cons entry rest ih => exact ih (.inr rfl)

/-- One table of the window goes into the frames, and the frame being made names some of it. -/
theorem frameTable_cuts
    {entry : TableTag × Seen Receipt} (cuts : Cuts hub items groups last framing)
    (new : ∀ item ∈ items, item.name.1 ≠ entry.1) (records : Records hub view txids entry.1 entry.2)
    (shows : entry.2.wholeSeen = true ∨ entry.2.keys.entries ≠ []) :
    (∃ groups last, Cuts hub (items ++ entry.2.items entry.1) groups last (frameTable framing entry)) ∧
    (frameTable framing entry).part.tags ≠ [] := by
  unfold frameTable Seen.items
  cases named : entry.2.name with
  | none => exact ⟨frameWhole_cuts cuts new records, frameWhole_some _ _ _⟩
  | some name =>
    simp only
    split
    · exact ⟨frameWhole_cuts cuts new records, frameWhole_some _ _ _⟩
    · rename_i part
      have taking := frameKeys_taking entry.2.keys.entries
        (⟨⟨groups, last, cuts⟩, fun isOpen => (by cases isOpen), fun _ => new⟩ : Taking hub entry.1 name items (framing, false))
        fun key held receipt within => (records.keys key held receipt within).1
      obtain ⟨tags, keys, tagged⟩ := taking.opened (frameKeys_open _ (.inl (shows.resolve_left part)))
      exact ⟨taking.cuts, by simp [tagged]⟩

theorem frameTables_cuts
    (entries : List (TableTag × Seen Receipt)) (distinct : (entries.map Prod.fst).Nodup) (cuts : Cuts hub items groups last framing)
    (new : ∀ item ∈ items, item.name.1 ∉ entries.map Prod.fst) (records : ∀ entry ∈ entries, Records hub view txids entry.1 entry.2)
    (shows : ∀ entry ∈ entries, entry.2.wholeSeen = true ∨ entry.2.keys.entries ≠ []) (some_ : entries ≠ [] ∨ framing.part.tags ≠ []) :
    (∃ groups last, Cuts hub (items ++ entries.flatMap fun entry => entry.2.items entry.1) groups last (entries.foldl frameTable framing)) ∧
    (entries.foldl frameTable framing).part.tags ≠ [] := by
  induction entries generalizing items groups last framing with
  | nil => exact ⟨⟨groups, last, by simpa using cuts⟩, by simpa using some_⟩
  | cons entry rest ih =>
    rw [List.map_cons, List.nodup_cons] at distinct
    obtain ⟨⟨groups', last', step⟩, named⟩ := frameTable_cuts cuts (fun item member same => new item member (by simp [same]))
      (records entry (by simp)) (shows entry (by simp))
    have apart : ∀ item ∈ items ++ entry.2.items entry.1, item.name.1 ∉ rest.map Prod.fst := by
      intro item member within
      rcases List.mem_append.mp member with member | member
      · exact new item member (List.mem_cons_of_mem _ within)
      · exact distinct.1 (items_table member ▸ within)
    have run := ih distinct.2 step apart (fun other held => records other (by simp [held])) (fun other held => shows other (by simp [held]))
      (.inr named)
    simpa [List.append_assoc] using run

def HeldChange.names (frame : HeldChange Receipt) : List Name := frame.tags.flatMap FrameTag.names

def Window.visible (window : Window Receipt) : List Name :=
  window.tables.entries.flatMap fun entry =>
    match entry.2.name with
    | none => [(entry.1, none)]
    | some name => if entry.2.wholeSeen then [(entry.1, none)] else entry.2.keys.keys.map fun key => (entry.1, some (name, key))

/-- The transactions that wrote a table, as a whole or by any key, or that wrote one key of it. -/
def Window.Wrote (window : Window Receipt) (name : Name) (txid : String) : Prop :=
  ∃ seen, window.tables.get name.1 = some seen ∧
    match name.2 with
    | none => txid ∈ seen.whole.keys ∨ ∃ key ∈ seen.keys.entries, txid ∈ key.2.keys
    | some (_, key) => ∃ receipts, seen.keys.get key = some receipts ∧ txid ∈ receipts.keys

structure FramesExact (hub : Hub Receipt) (window : Window Receipt) (closing : CursorPosition) (frames : List (HeldChange Receipt)) : Prop where
  names : frames.flatMap HeldChange.names = window.visible
  wholes : ∀ entry ∈ window.tables.entries, entry.2.wholeSeen = false → entry.2.name ≠ none
  once : window.visible.Nodup
  tags : ∀ frame ∈ frames, frame.tags ≠ [] ∧ frame.tags.length ≤ maxTagsPerFrame
  keys : ∀ frame ∈ frames, frame.names.countP (·.2.isSome) ≤ maxKeysPerFrame
  tables : ∀ frame ∈ frames, (frame.tags.map FrameTag.tag).Nodup ∧ ∀ tag ∈ frame.tags, tag.names ≠ []
  receipts : ∀ frame ∈ frames, ∃ txids : List String, txids.Nodup ∧ txids.length ≤ maxTxidsPerFrame ∧
    frame.receipts = txids.map hub.receiptOf ∧ ∀ txid, txid ∈ txids ↔ ∃ name ∈ frame.names, window.Wrote name txid
  cursors : ∃ earlier final, frames = earlier ++ [final] ∧ final.cursor = closing ∧
    ∀ frame ∈ earlier, frame.cursor = ⟨hub.epoch, window.first.seq - 1, window.first.at_⟩

theorem visible_items (window : Window Receipt) : window.items.map Item.name = window.visible := by
  unfold Window.items Window.visible
  rw [List.map_flatMap]
  refine List.flatMap_congr fun entry _ => ?_
  unfold Seen.items
  cases entry.2.name with
  | none => rfl
  | some name =>
    simp only
    split
    · rfl
    · simp [InsertionMap.keys]

theorem wrote_item {window : Window Receipt} (member : item ∈ window.items) (txid : String) :
    window.Wrote item.name txid ↔ txid ∈ item.txids := by
  obtain ⟨entry, held, within⟩ := List.mem_flatMap.mp member
  have found := InsertionMap.get_eq_some.mpr held
  have whole : window.Wrote (entry.2.wholeItem entry.1).name txid ↔ txid ∈ (entry.2.wholeItem entry.1).txids := by
    simp only [Window.Wrote, Seen.wholeItem, found, Option.some.injEq, exists_eq_left', List.mem_append, List.mem_flatMap, InsertionMap.values,
      List.mem_map, exists_exists_and_eq_and]
  unfold Seen.items at within
  split at within
  · rw [List.mem_singleton.mp within]
    exact whole
  · split at within
    · rw [List.mem_singleton.mp within]
      exact whole
    · obtain ⟨key, isKey, rfl⟩ := List.mem_map.mp within
      have keyed := InsertionMap.get_eq_some.mpr isKey
      simp [Window.Wrote, found, keyed]

theorem visible_nodup (window : Window Receipt) : window.visible.Nodup := by
  unfold Window.visible
  rw [List.nodup_flatMap]
  constructor
  · intro entry _
    cases entry.2.name with
    | none => simp
    | some name =>
      simp only
      split
      · simp
      · exact entry.2.keys.distinct.map fun first second same => by simpa using same
  · have apart := List.pairwise_map.mp window.tables.distinct
    refine apart.imp fun {first second} differ name inFirst inSecond => differ ?_
    have table : ∀ entry : TableTag × Seen Receipt, name ∈ (match entry.2.name with
        | none => [(entry.1, none)]
        | some name => if entry.2.wholeSeen then [(entry.1, none)] else entry.2.keys.keys.map fun key => (entry.1, some (name, key))) →
        name.1 = entry.1 := by
      intro entry member
      split at member
      · rw [List.mem_singleton.mp member]
      · split at member
        · rw [List.mem_singleton.mp member]
        · obtain ⟨key, -, rfl⟩ := List.mem_map.mp member
          rfl
    rw [← table first inFirst, ← table second inSecond]

def Part.frame (part : Part Receipt) (cursor : CursorPosition) : HeldChange Receipt := ⟨part.tags, part.receipts.values, cursor⟩

theorem framesOf_parts (window : Window Receipt) (last : Envelope) (at_ : Nat) : hub.framesOf window last at_ =
    (window.tables.entries.foldl frameTable .start).parts.map (Part.frame · ⟨hub.epoch, window.first.seq - 1, window.first.at_⟩) ++
      [(window.tables.entries.foldl frameTable .start).part.frame ⟨hub.epoch, last.seq, at_⟩] := by
  unfold Hub.framesOf
  simp only
  generalize window.tables.entries.foldl frameTable .start = framing
  rw [List.mapIdx_append, List.length_append]
  congr 1
  · refine List.ext_getElem (by simp) fun index inside _ => ?_
    have early : index < framing.parts.length := by simpa using inside
    simp only [List.getElem_mapIdx, List.getElem_map, List.length_singleton, Part.frame]
    rw [if_neg (by omega)]
  · simp [Part.frame]

theorem item_txids {window : Window Receipt}
    (records : ∀ entry ∈ window.tables.entries, Records hub view txids entry.1 entry.2) (member : item ∈ window.items)
    {txid : String} (wrote : txid ∈ item.txids) : txid ∈ txids := by
  obtain ⟨entry, held, within⟩ := List.mem_flatMap.mp member
  have known := records entry held
  have whole : txid ∈ (entry.2.wholeItem entry.1).txids → txid ∈ txids := by
    intro wrote
    simp only [Seen.wholeItem, List.mem_append, List.mem_flatMap, InsertionMap.values, List.mem_map] at wrote
    rcases wrote with wrote | ⟨_, ⟨key, isKey, rfl⟩, wrote⟩
    · obtain ⟨receipt, isReceipt⟩ := InsertionMap.mem_keys.mp wrote
      exact (known.whole _ isReceipt).2
    · obtain ⟨receipt, isReceipt⟩ := InsertionMap.mem_keys.mp wrote
      exact (known.keys key isKey _ isReceipt).2
  unfold Seen.items at within
  split at within
  · exact whole (List.mem_singleton.mp within ▸ wrote)
  · split at within
    · exact whole (List.mem_singleton.mp within ▸ wrote)
    · obtain ⟨key, isKey, rfl⟩ := List.mem_map.mp within
      obtain ⟨receipt, isReceipt⟩ := InsertionMap.mem_keys.mp wrote
      exact (known.keys key isKey _ isReceipt).2

/-- One part of a collected window names its group, and the receipts of what wrote to it. -/
theorem Frames.exact {window : Window Receipt} (collected : Collected hub view window)
    (frames : Frames hub group part) (within : ∀ item ∈ group, item ∈ window.items) : ∃ txids : List String, txids.Nodup ∧
      txids.length ≤ maxTxidsPerFrame ∧ part.receipts.values = txids.map hub.receiptOf ∧
      ∀ txid, txid ∈ txids ↔ ∃ name ∈ part.tags.flatMap FrameTag.names, window.Wrote name txid := by
  refine ⟨part.receipts.keys, part.receipts.distinct, ?_, ?_, fun txid => ?_⟩
  · have counted : part.receipts.keys ⊆ window.txids := by
      intro txid member
      obtain ⟨item, isItem, wrote⟩ := (frames.receipts txid).mp member
      exact item_txids collected.records (within item isItem) wrote
    exact Nat.le_trans (List.subperm_of_subset part.receipts.distinct counted).length_le collected.few
  · unfold InsertionMap.values InsertionMap.keys
    rw [List.map_map]
    exact List.map_congr_left fun entry held => frames.known entry held
  · rw [frames.receipts, frames.names]
    constructor
    · rintro ⟨item, member, wrote⟩
      exact ⟨item.name, List.mem_map_of_mem member, (wrote_item (within item member) txid).mpr wrote⟩
    · rintro ⟨name, named, wrote⟩
      obtain ⟨item, member, rfl⟩ := List.mem_map.mp named
      exact ⟨item, member, (wrote_item (within item member) txid).mp wrote⟩

theorem Cuts.parts (cuts : Cuts hub items groups last framing)
    (some_ : framing.part.tags ≠ []) : ∀ part ∈ framing.parts ++ [framing.part],
      ∃ group, Frames hub group part ∧ group ≠ [] ∧ ∀ item ∈ group, item ∈ items := by
  intro part member
  rcases List.mem_append.mp member with member | member
  · obtain ⟨index, inside, rfl⟩ := List.mem_iff_getElem.mp member
    have early : index < groups.length := cuts.done.length_eq ▸ inside
    have group := List.getElem_mem early
    refine ⟨groups[index], cuts.done.get early inside, cuts.filled _ group, fun item held => ?_⟩
    exact cuts.whole ▸ List.mem_append_left _ (List.mem_flatten.mpr ⟨_, group, held⟩)
  · rw [List.mem_singleton.mp member]
    exact ⟨last, cuts.making, cuts.making.some_of_tags some_, fun item held => cuts.whole ▸ List.mem_append_right _ held⟩

theorem done_names {parts : List (Part Receipt)} (done : List.Forall₂ (Frames hub) groups parts) :
    parts.flatMap (fun part => part.tags.flatMap FrameTag.names) = groups.flatten.map Item.name := by
  induction done with
  | nil => rfl
  | cons frames _ ih => simp [ih, frames.names]

theorem framesOf_collected {window : Window Receipt} (collected : Collected hub view window) (last : Envelope) (at_ : Nat) :
    FramesExact hub window ⟨hub.epoch, last.seq, at_⟩ (hub.framesOf window last at_) := by
  obtain ⟨⟨groups, final, cuts⟩, some_⟩ := frameTables_cuts window.tables.entries window.tables.distinct cuts_start
    (fun _ held => (by cases held)) collected.records collected.shows (.inl collected.filled)
  rw [List.nil_append] at cuts
  rw [framesOf_parts]
  generalize window.tables.entries.foldl frameTable .start = framing at cuts some_
  have parts := cuts.parts some_
  have frame : ∀ frame ∈ framing.parts.map (Part.frame · ⟨hub.epoch, window.first.seq - 1, window.first.at_⟩) ++
      [framing.part.frame ⟨hub.epoch, last.seq, at_⟩], ∃ part ∈ framing.parts ++ [framing.part],
      frame.tags = part.tags ∧ frame.receipts = part.receipts.values := by
    intro frame member
    rcases List.mem_append.mp member with member | member
    · obtain ⟨part, isPart, rfl⟩ := List.mem_map.mp member
      exact ⟨part, List.mem_append_left _ isPart, rfl, rfl⟩
    · rw [List.mem_singleton.mp member]
      exact ⟨framing.part, by simp, rfl, rfl⟩
  constructor
  case names =>
    rw [← visible_items, show window.items = _ from cuts.whole.symm, List.map_append, List.flatMap_append, List.flatMap_map, ← done_names cuts.done, ← cuts.making.names]
    simp [HeldChange.names, Part.frame]
  case wholes =>
    intro entry held part
    exact (collected.records entry held).granted ((collected.shows entry held).resolve_left (by simp [part]))
  case once => exact visible_nodup window
  case tags =>
    intro made member
    obtain ⟨part, isPart, tags, -⟩ := frame made member
    obtain ⟨group, frames, filled, -⟩ := parts part isPart
    exact tags ▸ ⟨frames.tags_of_some filled, frames.tags⟩
  case keys =>
    intro made member
    obtain ⟨part, isPart, tags, -⟩ := frame made member
    obtain ⟨group, frames, -, -⟩ := parts part isPart
    have count : made.names.countP (·.2.isSome) = part.keys := by
      rw [HeldChange.names, tags, frames.names, List.countP_map, frames.count]
      rfl
    exact count ▸ frames.keys
  case tables =>
    intro made member
    obtain ⟨part, isPart, tags, -⟩ := frame made member
    obtain ⟨group, frames, -, -⟩ := parts part isPart
    exact tags ▸ ⟨frames.once, frames.filled⟩
  case receipts =>
    intro made member
    obtain ⟨part, isPart, tags, receipts⟩ := frame made member
    obtain ⟨group, frames, -, within⟩ := parts part isPart
    rw [receipts, HeldChange.names, tags]
    exact frames.exact collected within
  case cursors =>
    refine ⟨_, _, rfl, rfl, fun made member => ?_⟩
    obtain ⟨part, -, rfl⟩ := List.mem_map.mp member
    rfl

/-- A stream between two calls of the hub: its window is one the hub opened, and is not full. -/
structure Standing (hub : Hub Receipt) (view : View) (window : Option (Window Receipt)) : Prop where
  opened : Opened hub view window
  room : ∀ open_ ∈ window, open_.txids.length < maxTxidsPerFrame

theorem Standing.frames {window : Window Receipt} (standing : Standing hub view (some window)) (last : Envelope) (at_ : Nat) :
    FramesExact hub window ⟨hub.epoch, last.seq, at_⟩ (hub.framesOf window last at_) :=
  framesOf_collected (standing.opened.collected window rfl) last at_

/-- Every window the hub opens makes frames that say exactly what changed. -/
theorem framesOf_exact (hub : Hub Receipt) (view : View) (window : Window Receipt) (opened : Opened hub view (some window))
    (last : Envelope) (at_ : Nat) : FramesExact hub window ⟨hub.epoch, last.seq, at_⟩ (hub.framesOf window last at_) :=
  framesOf_collected (opened.collected window rfl) last at_

def orgView : View := ⟨none, InsertionMap.empty.set ⟨"public", "members"⟩ ⟨"org", none⟩⟩

def idHub : Hub String := ⟨id, 20, "abcdefghijkl"⟩

def firstEnvelope : Envelope := ⟨1, 100, .empty, some "741"⟩

/-- One window with a key of one table, and another table as a whole. -/
theorem framesOf_exact_two : ∃ window, Opened idHub orgView (some window) ∧
    FramesExact idHub window ⟨"abcdefghijkl", 1, 120⟩ (idHub.framesOf window firstEnvelope 120) := by
  let cells : List Cell := [⟨⟨"public", "members"⟩, false, ["7"]⟩, ⟨⟨"public", "posts"⟩, true, []⟩]
  have made : (idHub.admitted orgView none firstEnvelope cells).isSome = true := by decide
  obtain ⟨window, isWindow⟩ := Option.isSome_iff_exists.mp made
  have opened : Opened idHub orgView (some window) := .admitted .none (fun _ held => (by cases held)) isWindow
  exact ⟨window, opened, framesOf_exact idHub orgView window opened firstEnvelope 120⟩

theorem seeKeys_keys {transaction : Option String} (keys : List String) (distinct : (seen.keys.keys ++ keys).Nodup) :
    (keys.foldl (hub.seeKey transaction) seen).keys.keys = seen.keys.keys ++ keys := by
  induction keys generalizing seen with
  | nil => simp
  | cons key rest ih =>
    have new : key ∉ seen.keys.keys := fun held => (List.nodup_append.mp distinct).2.2 key held key (by simp) rfl
    have put : (hub.seeKey transaction seen key).keys.keys = seen.keys.keys ++ [key] := by
      simp only [Hub.seeKey, InsertionMap.keys, InsertionMap.set, InsertionMap.keys_put]
      exact if_neg new
    rw [List.foldl_cons, ih (by simpa [put] using distinct), put]
    simp

def manyKeys : List String := (List.range (maxKeysPerFrame + 1)).map fun index => String.ofList (List.replicate index 'k')

theorem manyKeys_nodup : manyKeys.Nodup := by
  refine List.nodup_range.map fun first second same => ?_
  have lengths := congrArg List.length (String.ofList_injective same)
  simpa using lengths

theorem seeKeys_name {transaction : Option String} (keys : List String) :
    (keys.foldl (hub.seeKey transaction) seen).name = seen.name := by
  induction keys generalizing seen with
  | nil => rfl
  | cons key rest ih => exact ih

theorem see_new {transaction : Option String} {name : Option String} {keys : List String} (distinct : keys.Nodup) :
    (hub.see transaction ⟨false, keys, name⟩ none).wholeSeen = false ∧ (hub.see transaction ⟨false, keys, name⟩ none).name = name ∧
    (hub.see transaction ⟨false, keys, name⟩ none).keys.keys = keys := by
  simp only [Hub.see, Option.getD_none, Bool.false_eq_true, if_false]
  exact ⟨seeKeys_whole keys, seeKeys_name keys, seeKeys_keys keys (by simpa [InsertionMap.keys, InsertionMap.empty] using distinct)⟩

theorem FramesExact.table_twice {window : Window Receipt} {closing : CursorPosition} {frames : List (HeldChange Receipt)} (tag : TableTag)
    (exact_ : FramesExact hub window closing frames) (one : ∀ name ∈ window.visible, name.1 = tag ∧ name.2.isSome = true)
    (many : maxKeysPerFrame < window.visible.length) : ¬(frames.flatMap fun frame => frame.tags.map FrameTag.tag).Nodup := by
  intro distinct
  obtain ⟨earlier, final, rfl, -, -⟩ := exact_.cursors
  have table : ∀ frame ∈ earlier ++ [final], tag ∈ frame.tags.map FrameTag.tag := by
    intro frame member
    obtain ⟨framed, held⟩ := List.exists_mem_of_ne_nil _ (exact_.tags frame member).1
    obtain ⟨name, named⟩ := List.exists_mem_of_ne_nil _ ((exact_.tables frame member).2 framed held)
    have visible : name ∈ window.visible :=
      exact_.names ▸ List.mem_flatMap.mpr ⟨frame, member, List.mem_flatMap.mpr ⟨framed, held, named⟩⟩
    have same : name.1 = framed.tag := by
      unfold FrameTag.names at named
      split at named
      · rw [List.mem_singleton.mp named]
      · obtain ⟨key, -, rfl⟩ := List.mem_map.mp named
        rfl
    exact (one name visible).1 ▸ same ▸ List.mem_map_of_mem held
  cases earlier with
  | nil =>
    have few := exact_.keys final (by simp)
    have names := exact_.names
    simp only [List.nil_append, List.flatMap_cons, List.flatMap_nil, List.append_nil] at names
    rw [names, List.countP_eq_length.mpr fun name held => (one name held).2] at few
    omega
  | cons first rest =>
    rw [List.cons_append, List.flatMap_cons, List.nodup_append] at distinct
    exact distinct.2.2 tag (table first (by simp)) tag (List.mem_flatMap.mpr ⟨final, by simp, table final (by simp)⟩) rfl

theorem framed_twice : ∃ window, Opened idHub orgView (some window) ∧
    ¬((idHub.framesOf window firstEnvelope 120).flatMap fun frame => frame.tags.map FrameTag.tag).Nodup := by
  let members : TableTag := ⟨"public", "members"⟩
  let cell : Cell := ⟨members, false, manyKeys⟩
  let visible : Shown := ⟨false, manyKeys, some "org"⟩
  have keys : manyKeys.length = maxKeysPerFrame + 1 := by simp [manyKeys]
  have shown : project orgView cell = some visible := by
    have scope : orgView.scopes.get members = some ⟨"org", none⟩ := by decide
    unfold project
    simp only [cell, scope, grantedKeys]
    simp [orgView, keys, visible]
  let window : Window String := ⟨firstEnvelope, 120, InsertionMap.empty.set members (idHub.see (some "741") visible none), ["741"]⟩
  have made : idHub.admitted orgView none firstEnvelope [cell] = some window := by
    simp only [Hub.admitted, List.any_cons, shown, Option.isSome_some, List.any_nil, Bool.or_false, if_true, List.foldl_cons, List.foldl_nil,
      Hub.admitCell, Option.getD_none]
    rfl
  have opened : Opened idHub orgView (some window) := .admitted .none (fun _ held => (by cases held)) made
  obtain ⟨whole, name, seen⟩ : (idHub.see (some "741") visible none).wholeSeen = false ∧
      (idHub.see (some "741") visible none).name = some "org" ∧ (idHub.see (some "741") visible none).keys.keys = manyKeys :=
    see_new manyKeys_nodup
  have names : window.visible = manyKeys.map fun key => (members, some ("org", key)) := by
    simp only [Window.visible, window, InsertionMap.set, InsertionMap.empty, InsertionMap.put, List.flatMap_cons, List.flatMap_nil, List.append_nil,
      name, whole, seen, Bool.false_eq_true, if_false]
  refine ⟨window, opened, (framesOf_collected (opened.collected window rfl) firstEnvelope 120).table_twice members ?_ ?_⟩
  · intro name held
    rw [names] at held
    obtain ⟨key, -, rfl⟩ := List.mem_map.mp held
    exact ⟨rfl, rfl⟩
  · rw [names, List.length_map, keys]
    omega

end Arki.Live
