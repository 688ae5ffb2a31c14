import Arki.Journal.Paging

/-! Following `next` from the first page: every matching row once, in order, and an end.

The page after `offset` rows shows the rows from there on. The walk stops early only at a
page whose last row's time has no cursor that reads back.
-/

set_option autoImplicit false

namespace Arki.Journal.Paging

open Arki.Ordered

inductive Walk {Row : Type} (ask : Nat → Option (List Char) → Except Refused (Page Row)) :
    Nat → Option (List Char) → List (List Row) → Prop where
  | final {page : Nat} {after : Option (List Char)} {items : List Row}
    (answer : ask page after = .ok ⟨items, none⟩) : Walk ask page after [items]
  | more {page : Nat} {after : Option (List Char)} {items : List Row} {next : List Char} {pages : List (List Row)}
    (answer : ask page after = .ok ⟨items, some next⟩) (rest : Walk ask (page + 1) (some next) pages) :
    Walk ask page after (items :: pages)

section
variable {Row : Type} [LinearOrder Varchar] {at_ : Row → Timestamp} {id : Row → JobId} {newestFirst : Bool}

def Before (at_ : Row → Timestamp) (id : Row → JobId) (newestFirst : Bool) (left right : Row) : Prop :=
  if newestFirst then sortKey at_ id right < sortKey at_ id left else sortKey at_ id left < sortKey at_ id right

def Returns (ask : Nat → Option (List Char) → Except Refused (Page Row)) (before : Row → Row → Prop)
    (matching : List Row) : Prop :=
  ∃ pages, Walk ask 0 none pages ∧ pages.flatten.Perm matching ∧ pages.flatten.Pairwise before

def EdgesReadable (limit : Nat) (at_ : Row → Timestamp) (whole : List Row) : Prop :=
  ∀ place row, whole[place]? = some row → limit ∣ place + 1 → place + 1 < whole.length → (at_ row).year ≤ 9999

omit [LinearOrder Varchar] in
theorem sortKey_distinct (at_ : Row → Timestamp) {rows : List Row} (distinct : (rows.map id).Nodup) : (rows.map (sortKey at_ id)).Nodup := by
  apply List.Nodup.of_map (fun key : Timestamp ×ₗ Varchar => (ofLex key).2)
  rw [List.map_map]
  have ids := distinct.map JobId.varchar_injective
  rwa [List.map_map] at ids

theorem ordered_perm (rows : List Row) : (ordered at_ id newestFirst rows).Perm rows := by
  unfold ordered
  split
  · exact inOrder_perm rows
  · exact inOrder_perm rows

theorem ordered_before {rows : List Row} (distinct : (rows.map id).Nodup) :
    (ordered at_ id newestFirst rows).Pairwise (Before at_ id newestFirst) := by
  have keys := sortKey_distinct at_ distinct
  unfold ordered Before
  split
  · have dual : (rows.map fun row => OrderDual.toDual (sortKey at_ id row)).Nodup := keys
    exact inOrder_increasing dual
  · exact inOrder_increasing keys

theorem ordered_past {rows : List Row} (distinct : (rows.map id).Nodup) {place : Nat} {row : Row}
    (found : (ordered at_ id newestFirst rows)[place]? = some row) :
    ordered at_ id newestFirst (rows.filter fun other =>
      if newestFirst then decide (sortKey at_ id other < sortKey at_ id row)
      else decide (sortKey at_ id row < sortKey at_ id other)) =
      (ordered at_ id newestFirst rows).drop (place + 1) := by
  have keys := sortKey_distinct at_ distinct
  cases newestFirst with
  | true =>
    have dual : (rows.map fun other => OrderDual.toDual (sortKey at_ id other)).Nodup := keys
    have past := (inOrder_increasing dual).filter_past found
    rw [filter_inOrder dual] at past
    exact past
  | false =>
    have past := (inOrder_increasing keys).filter_past found
    rw [filter_inOrder keys] at past
    exact past

omit [LinearOrder Varchar] in
theorem pageOf_fetch {limit : Nat} (enough : 0 < limit) (rows : List Row) :
    pageOf at_ id (rows.take (limit + 1)) limit = ⟨rows.take limit,
      if limit < rows.length then rows[limit - 1]?.map fun row => encodeCursor (cursorText (at_ row)) (id row)
      else none⟩ := by
  have items : (rows.take (limit + 1)).take limit = rows.take limit := by
    rw [List.take_take, Nat.min_eq_left (Nat.le_succ limit)]
  rw [pageOf, items]
  congr 1
  by_cases past : limit < rows.length
  · obtain ⟨row, found⟩ : ∃ row, rows[limit - 1]? = some row := ⟨_, List.getElem?_eq_getElem (by omega)⟩
    have shape : rows.take limit = rows.take (limit - 1) ++ [row] := by
      obtain ⟨inside, rfl⟩ := List.getElem?_eq_some_iff.mp found
      conv_lhs => rw [← Nat.sub_add_cancel enough]
      exact (List.take_append_getElem inside).symm
    have ends : (rows.take (limit - 1)).length + 1 = limit := by
      rw [List.length_take]
      omega
    have more : limit < (rows.take (limit + 1)).length := by
      rw [List.length_take]
      omega
    rw [if_pos past, found, shape, List.zipIdx_append, List.foldl_append, Nat.zero_add]
    simp only [List.zipIdx_singleton, List.foldl_cons, List.foldl_nil, ends, more, and_self, if_true, Option.map_some]
  · have no : ¬ limit < (rows.take (limit + 1)).length := by
      rw [List.length_take]
      omega
    simp only [if_neg past, no, and_false, if_false]
    generalize (rows.take limit).zipIdx = entries
    induction entries with
    | nil => rfl
    | cons entry rest ih => exact ih

variable {what : String} {wanted : Row → Bool} {limit : Nat} {rows : List Row} {answer : Page Row}

theorem listing_eq (inRange : 1 ≤ limit ∧ limit ≤ 200) (after : Option (List Char)) :
    listing what at_ id newestFirst wanted (some limit) after rows =
      (pastCursor after at_ id newestFirst).map fun past =>
        pageOf at_ id ((ordered at_ id newestFirst (rows.filter fun row => wanted row && past row)).take (limit + 1))
          limit := by
  have fine : bounded what limit 200 = .ok () := by
    rw [bounded, if_neg (by omega)]
  simp only [listing, Option.getD_some, listLimit, fine]
  cases pastCursor after at_ id newestFirst with
  | error refused => rfl
  | ok past => rfl

def cursorAfter (at_ : Row → Timestamp) (id : Row → JobId) (whole : List Row) (offset : Nat) : Option (List Char) :=
  if offset = 0 then none
  else whole[offset - 1]?.map fun row => encodeCursor (cursorText (at_ row)) (id row)

def Readable (at_ : Row → Timestamp) (whole : List Row) (offset : Nat) : Prop :=
  ∀ row, 0 < offset → whole[offset - 1]? = some row → (at_ row).year ≤ 9999

/-- The page after `offset` rows shows the rows from there on, and names the page after it. -/
theorem listing_page (what : String) (inRange : 1 ≤ limit ∧ limit ≤ 200) (distinct : (rows.map id).Nodup) {whole : List Row}
    (arranged : whole = ordered at_ id newestFirst (rows.filter wanted)) {offset : Nat}
    (inside : offset ≤ whole.length) (readable : Readable at_ whole offset) :
    listing what at_ id newestFirst wanted (some limit) (cursorAfter at_ id whole offset) rows =
      .ok ⟨(whole.drop offset).take limit,
        if offset + limit < whole.length then cursorAfter at_ id whole (offset + limit) else none⟩ := by
  have shown : ∃ past, pastCursor (cursorAfter at_ id whole offset) at_ id newestFirst = .ok past ∧
      ordered at_ id newestFirst (rows.filter fun row => wanted row && past row) = whole.drop offset := by
    by_cases first : offset = 0
    · refine ⟨fun _ => true, by simp [cursorAfter, first, pastCursor], ?_⟩
      simp [first, arranged]
    · obtain ⟨row, found⟩ : ∃ row, whole[offset - 1]? = some row := ⟨_, List.getElem?_eq_getElem (by omega)⟩
      have four := readable row (Nat.pos_of_ne_zero first) found
      refine ⟨fun other => if newestFirst then decide (sortKey at_ id other < sortKey at_ id row)
        else decide (sortKey at_ id row < sortKey at_ id other), ?_, ?_⟩
      · rw [cursorAfter, if_neg first, found, Option.map_some, pastCursor]
        simp only [decodeCursor, cursorOf_encode, if_pos four, timestampOf_text four]
        rfl
      · have past := ordered_past (distinct_filter distinct wanted) (arranged ▸ found)
        rw [List.filter_filter] at past
        rw [← Nat.sub_add_cancel (Nat.pos_of_ne_zero first), arranged, ← past]
        congr 1
        apply List.filter_congr
        intro other _
        rw [Bool.and_comm]
  obtain ⟨past, read, rest⟩ := shown
  rw [listing_eq inRange, read, Except.map, rest, pageOf_fetch inRange.1]
  congr 2
  by_cases more : offset + limit < whole.length
  · rw [if_pos more, if_pos (by rw [List.length_drop]; omega), List.getElem?_drop, cursorAfter, if_neg (by omega),
      Nat.add_sub_assoc inRange.1]
  · rw [if_neg more, if_neg (by rw [List.length_drop]; omega)]

theorem listing_refused (inRange : 1 ≤ limit ∧ limit ≤ 200) {whole : List Row} {offset : Nat}
    (answered : listing what at_ id newestFirst wanted (some limit) (cursorAfter at_ id whole offset) rows = .ok answer) :
    Readable at_ whole offset := by
  intro row first found
  by_contra late
  rw [listing_eq inRange, cursorAfter, if_neg (by omega), found, Option.map_some, pastCursor] at answered
  simp only [decodeCursor, cursorOf_encode, if_neg late] at answered
  cases answered

variable {whole : List Row} {wants : Nat → Row → Bool}

/-- From a cursor that reads back, with every page edge after it, the walk shows the rest. -/
theorem walk_from (what : String) (inRange : 1 ≤ limit ∧ limit ≤ 200) (distinct : (rows.map id).Nodup)
    (arranged : ∀ page, whole = ordered at_ id newestFirst (rows.filter (wants page)))
    (edges : EdgesReadable limit at_ whole) (offset : Nat) (whole_ : limit ∣ offset)
    (inside : offset = 0 ∨ offset < whole.length) (page : Nat) :
    ∃ pages, Walk (fun page after => listing what at_ id newestFirst (wants page) (some limit) after rows)
      page (cursorAfter at_ id whole offset) pages ∧ pages.flatten = whole.drop offset := by
  -- Each page has fewer rows left after it.
  induction left : whole.length - offset using Nat.strong_induction_on generalizing offset page with
  | _ left ih =>
    have readable : Readable at_ whole offset := by
      intro row first found
      exact edges (offset - 1) row found (by rwa [Nat.sub_add_cancel first]) (by omega)
    have shown := listing_page what inRange distinct (arranged page) (by omega) readable
    by_cases more : offset + limit < whole.length
    · obtain ⟨pages, walk, rest⟩ := ih (whole.length - (offset + limit)) (by omega) (offset + limit)
        (Nat.dvd_add whole_ (Nat.dvd_refl limit)) (.inr more) (page + 1) rfl
      obtain ⟨next, named⟩ : ∃ next, cursorAfter at_ id whole (offset + limit) = some next := by
        rw [cursorAfter, if_neg (by omega), List.getElem?_eq_getElem (by omega)]
        exact ⟨_, rfl⟩
      rw [if_pos more, named] at shown
      rw [named] at walk
      refine ⟨_, .more shown walk, ?_⟩
      rw [List.flatten_cons, rest, ← List.drop_drop, List.take_append_drop]
    · rw [if_neg more] at shown
      refine ⟨_, .final shown, ?_⟩
      rw [List.flatten_singleton, List.take_of_length_le (by rw [List.length_drop]; omega)]

theorem edges_of_walk (inRange : 1 ≤ limit ∧ limit ≤ 200) (distinct : (rows.map id).Nodup)
    (arranged : ∀ page, whole = ordered at_ id newestFirst (rows.filter (wants page))) {page offset : Nat}
    (whole_ : limit ∣ offset) (inside : offset ≤ whole.length) {pages : List (List Row)}
    (walk : Walk (fun page after => listing what at_ id newestFirst (wants page) (some limit) after rows)
      page (cursorAfter at_ id whole offset) pages) :
    ∀ place row, whole[place]? = some row → offset ≤ place + 1 → limit ∣ place + 1 → place + 1 < whole.length →
      (at_ row).year ≤ 9999 := by
  generalize started : cursorAfter at_ id whole offset = after at walk
  induction walk generalizing offset with
  | @final page after items answer =>
    rw [← started] at answer
    have readable := listing_refused inRange answer
    have shown := listing_page what inRange distinct (arranged page) inside readable
    intro place row found later multiple short
    rcases Nat.eq_or_lt_of_le later with same | past
    · exact readable row (by omega) (by rwa [same])
    · -- The page names no next one, so no edge lies after it.
      have far : offset + limit ≤ place + 1 := Nat.le_of_lt_add_of_dvd (by omega) (Nat.dvd_add whole_ (Nat.dvd_refl limit)) multiple
      have named : (none : Option (List Char)) = cursorAfter at_ id whole (offset + limit) := by
        rw [shown, if_pos (by omega)] at answer
        exact (congrArg Page.next (Except.ok.inj answer)).symm
      rw [cursorAfter, if_neg (by omega), List.getElem?_eq_getElem (by omega)] at named
      cases named
  | @more page after items next pages answer rest ih =>
    rw [← started] at answer
    have readable := listing_refused inRange answer
    have shown := listing_page what inRange distinct (arranged page) inside readable
    have more : offset + limit < whole.length := by
      by_contra short
      rw [shown, if_neg short] at answer
      cases congrArg Page.next (Except.ok.inj answer)
    have named : cursorAfter at_ id whole (offset + limit) = some next := by
      rw [shown, if_pos more] at answer
      exact congrArg Page.next (Except.ok.inj answer)
    intro place row found later multiple short
    rcases Nat.eq_or_lt_of_le later with same | past
    · exact readable row (by omega) (by rwa [same])
    · have far : offset + limit ≤ place + 1 := Nat.le_of_lt_add_of_dvd (by omega) (Nat.dvd_add whole_ (Nat.dvd_refl limit)) multiple
      exact ih (Nat.dvd_add whole_ (Nat.dvd_refl limit)) more.le named place row found far multiple short

/-- A listing's walk returns each matching row once and in order, exactly when no page edge is refused. -/
theorem listing_returns (wants : Nat → Row → Bool) (inRange : 1 ≤ limit ∧ limit ≤ 200) (distinct : (rows.map id).Nodup)
    (steady : ∀ page, ∀ row ∈ rows, wants page row = wants 0 row) :
    Returns (fun page after => listing what at_ id newestFirst (wants page) (some limit) after rows)
        (Before at_ id newestFirst) (rows.filter (wants 0)) ↔
      EdgesReadable limit at_ (ordered at_ id newestFirst (rows.filter (wants 0))) := by
  have arranged : ∀ page, ordered at_ id newestFirst (rows.filter (wants 0)) =
      ordered at_ id newestFirst (rows.filter (wants page)) := fun page => by
    rw [List.filter_congr (steady page)]
  constructor
  · rintro ⟨pages, walk, _, _⟩
    intro place row found multiple short
    exact edges_of_walk inRange distinct arranged (Nat.dvd_zero limit) (Nat.zero_le _) walk place row found
      (Nat.zero_le _) multiple short
  · intro edges
    obtain ⟨pages, walk, shown⟩ := walk_from what inRange distinct arranged edges 0 (Nat.dvd_zero limit) (.inl rfl) 0
    refine ⟨pages, walk, ?_, ?_⟩
    · rw [shown, List.drop_zero]
      exact ordered_perm _
    · rw [shown, List.drop_zero]
      exact ordered_before (distinct_filter distinct _)

end

/-- Following `next` over an unchanged table returns each matching row once and in order, and ends, exactly when no
page that another follows ends at a row of the year 10000 or later. -/
theorem paging_exact [LinearOrder Varchar] {rows : List JobRow} {archive : List ArchiveRow}
    (distinct : (rows.map JobRow.id).Nodup) (archived : (archive.map ArchiveRow.id).Nodup) (filter : JobFilter)
    (archiveFilter : ArchiveFilter) {limit : Nat} (inRange : 1 ≤ limit ∧ limit ≤ listLimit.2) (clock : Nat → Timestamp)
    (steady : ∀ page, ∀ row ∈ rows, filter.wants (clock page) row = filter.wants (clock 0) row) :
    (Returns (fun page after => jobs (clock page) filter (some limit) after rows)
        (Before filter.key JobRow.id filter.newestFirst) (rows.filter (filter.wants (clock 0))) ↔
      EdgesReadable limit filter.key
        (ordered filter.key JobRow.id filter.newestFirst (rows.filter (filter.wants (clock 0))))) ∧
    (Returns (fun _ after => archivedJobs archiveFilter (some limit) after archive)
        (Before ArchiveRow.archivedAt ArchiveRow.id true) (archive.filter archiveFilter.wants) ↔
      EdgesReadable limit ArchiveRow.archivedAt
        (ordered ArchiveRow.archivedAt ArchiveRow.id true (archive.filter archiveFilter.wants))) := by
  constructor
  · exact listing_returns (fun page => filter.wants (clock page)) inRange distinct steady
  · exact listing_returns (fun _ => archiveFilter.wants) inRange archived fun _ _ _ => rfl

abbrev byCode : LinearOrder Varchar :=
  LinearOrder.lift' (fun column => column.text.map Char.toNat) fun left right same => by
    cases left
    cases right
    simpa using List.map_injective_iff.mpr (fun _ _ codes => Char.toNat_inj.mp codes) same

def may (year : Nat) (known : 1 ≤ year ∧ year ≤ 294276) : Timestamp where
  year := year
  month := 5
  day := 1
  hour := 12
  minute := 0
  second := 0
  micros := 0
  inYears := known
  inMonths := by decide
  inDays := by simp [daysIn]
  inClock := by decide

def pendingAt (letter : Char) (plain : (letter.isAlphanum || letter = '_') = true) (due : Timestamp) : JobRow where
  id := ⟨[letter], by simp, fun c member => by simp_all⟩
  effect := none
  jobName := none
  availableAt := due
  leaseUntil := none
  deadAt := none

/-- Two jobs, the first due in the year 10264: the page of the first names a cursor that the journal refuses. -/
def farOff : List JobRow :=
  [pendingAt 'a' (by decide) (may 10264 (by decide)), pendingAt 'b' (by decide) (may 10265 (by decide))]

theorem five_digits_refused : (farOff.map JobRow.id).Nodup ∧
    ¬ @Returns JobRow (fun _ after => @jobs byCode (may 2026 (by decide)) ⟨none, none, none⟩ (some 1) after farOff)
      (@Before _ byCode (JobFilter.key ⟨none, none, none⟩) JobRow.id false) farOff := by
  have distinct : (farOff.map JobRow.id).Nodup := by
    simp [farOff, pendingAt]
  refine ⟨distinct, fun returned => ?_⟩
  have edges := (@listing_returns _ byCode _ _ false "jobs" 1 farOff
    (fun _ => JobFilter.wants ⟨none, none, none⟩ (may 2026 (by decide))) (by decide) distinct
    fun _ _ _ => rfl).mp returned
  exact absurd (edges 0 _ rfl (by decide) (by decide)) (by decide)

theorem paging_exact_run :
    @Returns JobRow (fun _ after => @jobs byCode (may 2026 (by decide)) ⟨none, none, none⟩ (some 1) after
        [pendingAt 'a' (by decide) (may 2027 (by decide)), pendingAt 'b' (by decide) (may 2027 (by decide))])
      (@Before _ byCode (JobFilter.key ⟨none, none, none⟩) JobRow.id false)
      [pendingAt 'a' (by decide) (may 2027 (by decide)), pendingAt 'b' (by decide) (may 2027 (by decide))] := by
  have exact_ := (@paging_exact byCode
    [pendingAt 'a' (by decide) (may 2027 (by decide)), pendingAt 'b' (by decide) (may 2027 (by decide))] []
    (by simp [pendingAt]) List.nodup_nil ⟨none, none, none⟩ ⟨none, none, none⟩ 1 (by decide)
    (fun _ => may 2026 (by decide)) fun _ _ _ => rfl).1
  refine exact_.mpr fun place row found _ short => ?_
  have first : place = 0 := by
    have length : place + 1 < 2 := short
    omega
  subst first
  cases found
  decide

end Arki.Journal.Paging
