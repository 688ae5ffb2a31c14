import Arki.Library.Pieces
import Mathlib

/-! Half-open intervals of points of one kind, and their operations as set operations. -/

set_option autoImplicit false

namespace Arki.Dates

open Pieces (Canonical)

variable {α : Type} [LinearOrder α]

/-- `start` is never after `end`; `start == end` is the empty interval. -/
@[ext]
structure Interval (α : Type) [LinearOrder α] where
  start : α
  end_ : α
  ordered : start ≤ end_

def cmp (a b : α) : Int := if a < b then -1 else if b < a then 1 else 0

def earlier (a b : α) : α := if cmp a b ≤ 0 then a else b

def later (a b : α) : α := if 0 ≤ cmp a b then a else b

theorem cmp_neg {a b : α} : cmp a b < 0 ↔ a < b := by
  unfold cmp
  split
  · next less => simpa using less
  · next notLess => split <;> simpa using notLess

theorem cmp_zero {a b : α} : cmp a b = 0 ↔ a = b := by
  unfold cmp
  split
  · next less => simpa using ne_of_lt less
  · next notLess =>
    split
    · next more => simpa using ne_of_gt more
    · next notMore => simpa using le_antisymm (not_lt.mp notMore) (not_lt.mp notLess)

theorem cmp_nonpos {a b : α} : cmp a b ≤ 0 ↔ a ≤ b := by
  rw [Int.le_iff_lt_or_eq, cmp_neg, cmp_zero, le_iff_lt_or_eq]

theorem cmp_nonneg {a b : α} : 0 ≤ cmp a b ↔ b ≤ a := by
  rw [← Int.not_lt, cmp_neg, not_lt]

theorem earlier_eq (a b : α) : earlier a b = min a b := by simp only [earlier, cmp_nonpos, min_def]

theorem later_eq (a b : α) : later a b = max a b := by
  rw [later, max_comm, max_def]
  simp only [cmp_nonneg]

def make (start end_ : α) (ordered : start ≤ end_) : Interval α := ⟨start, end_, ordered⟩

def isEmptyInterval (i : Interval α) : Bool := cmp i.start i.end_ = 0

/-- `contains` of a point, and of an interval. -/
def containsPoint (i : Interval α) (value : α) : Bool := cmp i.start value ≤ 0 && cmp value i.end_ < 0

def containsInterval (i value : Interval α) : Bool := cmp i.start value.start ≤ 0 && cmp value.end_ i.end_ ≤ 0

def overlaps (a b : Interval α) : Bool :=
  if isEmptyInterval a || isEmptyInterval b then false else cmp a.start b.end_ < 0 && cmp b.start a.end_ < 0

def abuts (a b : Interval α) : Bool := cmp a.end_ b.start = 0 || cmp b.end_ a.start = 0

def intersection (a b : Interval α) : Option (Interval α) :=
  let start := later a.start b.start
  let end_ := earlier a.end_ b.end_
  if filled : cmp start end_ < 0 then some (make start end_ (le_of_lt (cmp_neg.mp filled))) else none

def inOrder (x y : Interval α) : Bool := (if cmp x.start y.start = 0 then cmp x.end_ y.end_ else cmp x.start y.start) ≤ 0

/-- One turn of the loop of `mergeIntervals`. -/
def mergeItem (merged : List (Interval α)) (item : Interval α) : List (Interval α) :=
  match merged.getLast? with
  | some last =>
    if cmp item.start last.end_ ≤ 0 then
      merged.dropLast ++ [make last.start (later last.end_ item.end_) (by rw [later_eq]; exact le_trans last.ordered (le_max_left _ _))]
    else merged ++ [item]
  | none => merged ++ [item]

def mergeIntervals (list : List (Interval α)) : List (Interval α) :=
  ((list.filter fun item => !isEmptyInterval item).mergeSort inOrder).foldl mergeItem []

def union (a : Interval α) (rest : List (Interval α)) : List (Interval α) := mergeIntervals (a :: rest)

def gap (a b : Interval α) : Option (Interval α) :=
  if overlaps a b || abuts a b then none
  else if before : cmp a.end_ b.start < 0 then some (make a.end_ b.start (le_of_lt (cmp_neg.mp before)))
  else if after : cmp b.end_ a.start < 0 then some (make b.end_ a.start (le_of_lt (cmp_neg.mp after)))
  else none

def subtract (a b : Interval α) : List (Interval α) :=
  if isEmptyInterval a then []
  else if !overlaps a b then [a]
  else
    (if before : cmp a.start b.start < 0 then [make a.start b.start (le_of_lt (cmp_neg.mp before))] else []) ++
      if after : cmp b.end_ a.end_ < 0 then [make b.end_ a.end_ (le_of_lt (cmp_neg.mp after))] else []

def symmetricDifference (a b : Interval α) : List (Interval α) := mergeIntervals (subtract a b ++ subtract b a)

def Interval.pair (i : Interval α) : α × α := (i.start, i.end_)

def Interval.points (i : Interval α) : Set α := Set.Ico i.start i.end_

def covered (list : List (Interval α)) : Set α := Pieces.points (list.map Interval.pair)

def IsCanonical (list : List (Interval α)) : Prop := Canonical (list.map Interval.pair)

variable {list : List (Interval α)} {a b i : Interval α}

theorem mem_covered {p : α} : p ∈ covered list ↔ ∃ i ∈ list, i.start ≤ p ∧ p < i.end_ := by
  simp [covered, Pieces.mem_points, Interval.pair]

theorem isEmptyInterval_iff : isEmptyInterval i = true ↔ i.start = i.end_ := by
  rw [isEmptyInterval, decide_eq_true_iff, cmp_zero]

theorem isEmptyInterval_not : isEmptyInterval i = false ↔ i.start < i.end_ := by
  rw [← Bool.not_eq_true, isEmptyInterval_iff, lt_iff_le_and_ne]
  exact ⟨fun apart => ⟨i.ordered, apart⟩, And.right⟩

theorem inOrder_iff {x y : Interval α} : inOrder x y = true ↔ x.start < y.start ∨ x.start = y.start ∧ x.end_ ≤ y.end_ := by
  rw [inOrder, decide_eq_true_iff]
  split
  · next same =>
    rw [cmp_nonpos]
    rw [cmp_zero] at same
    simp [same]
  · next other =>
    rw [cmp_nonpos]
    rw [cmp_zero] at other
    simp [other, le_iff_lt_or_eq]

theorem inOrder_trans {x y z : Interval α} (first : inOrder x y = true) (second : inOrder y z = true) : inOrder x z = true := by
  rw [inOrder_iff] at first second ⊢
  rcases first with less | ⟨same, ends⟩
  · rcases second with less_ | ⟨same_, -⟩
    · exact .inl (lt_trans less less_)
    · exact .inl (same_ ▸ less)
  · rcases second with less_ | ⟨same_, ends_⟩
    · exact .inl (same ▸ less_)
    · exact .inr ⟨same.trans same_, ends.trans ends_⟩

theorem inOrder_total (x y : Interval α) : (inOrder x y || inOrder y x) = true := by
  rw [Bool.or_eq_true, inOrder_iff, inOrder_iff]
  rcases lt_trichotomy x.start y.start with less | same | more
  · exact .inl (.inl less)
  · rcases le_total x.end_ y.end_ with ends | ends
    · exact .inl (.inr ⟨same, ends⟩)
    · exact .inr (.inr ⟨same.symm, ends⟩)
  · exact .inr (.inl more)

theorem mergeItem_eq {merged : List (Interval α)} {item : Interval α} (canonical : IsCanonical merged) (filled : item.start < item.end_)
    (sorted : ∀ other ∈ merged, other.start ≤ item.start) :
    IsCanonical (mergeItem merged item) ∧ (∀ p, p ∈ covered (mergeItem merged item) ↔ p ∈ covered merged ∨ p ∈ item.points) ∧
      ∀ other ∈ mergeItem merged item, other.start ≤ item.start := by
  rcases List.eq_nil_or_concat' merged with rfl | ⟨front, last, rfl⟩
  · refine ⟨Canonical.one filled, fun p => ?_, by simp [mergeItem]⟩
    simp [mergeItem, covered, Interval.pair, Interval.points]
  · have isLast : (front ++ [last]).getLast? = some last := List.getLast?_concat
    unfold IsCanonical at canonical
    rw [List.map_append, List.map_singleton] at canonical
    obtain ⟨before, lastFilled, apart⟩ := canonical.front
    have starts := sorted last (by simp)
    simp only [mergeItem, isLast, cmp_nonpos, List.dropLast_concat, later_eq]
    split
    · next touches =>
      refine ⟨?_, fun p => ?_, ?_⟩
      · unfold IsCanonical
        rw [List.map_append, List.map_singleton]
        exact before.concat (lt_of_lt_of_le lastFilled (le_max_left _ _)) apart
      · simp only [covered, List.map_append, List.map_singleton, Pieces.mem_append, Pieces.mem_cons, Pieces.mem_nil, or_false, or_assoc]
        refine or_congr_right ?_
        simp only [make, Interval.pair, Interval.points, Set.mem_Ico, lt_max_iff]
        constructor
        · rintro ⟨from_, inLast | inItem⟩
          · exact .inl ⟨from_, inLast⟩
          · rcases lt_or_ge p last.end_ with inLast | beyond
            · exact .inl ⟨from_, inLast⟩
            · exact .inr ⟨touches.trans beyond, inItem⟩
        · rintro (⟨from_, inLast⟩ | ⟨from_, inItem⟩)
          · exact ⟨from_, .inl inLast⟩
          · exact ⟨starts.trans from_, .inr inItem⟩
      · intro other member
        rcases List.mem_append.mp member with inside | isNew
        · exact sorted other (by simp [inside])
        · rw [List.mem_singleton.mp isNew]
          exact starts
    · next behind =>
      have after := lt_of_not_ge behind
      refine ⟨?_, fun p => ?_, ?_⟩
      · unfold IsCanonical
        rw [List.map_append, List.map_append, List.map_singleton, List.map_singleton]
        refine canonical.concat filled fun other member => ?_
        rcases List.mem_append.mp member with inside | isLast_
        · exact lt_trans (apart other inside) (lt_trans lastFilled after)
        · rw [List.mem_singleton.mp isLast_]
          exact after
      · simp [covered, Interval.pair, Interval.points, or_assoc]
      · intro other member
        rcases List.mem_append.mp member with inside | isNew
        · exact sorted other inside
        · rw [List.mem_singleton.mp isNew]

theorem foldl_mergeItem {merged items : List (Interval α)} (canonical : IsCanonical merged) (filled : ∀ item ∈ items, item.start < item.end_)
    (sorted : items.Pairwise fun x y => x.start ≤ y.start) (starts : ∀ other ∈ merged, ∀ item ∈ items, other.start ≤ item.start) :
    IsCanonical (items.foldl mergeItem merged) ∧ ∀ p, p ∈ covered (items.foldl mergeItem merged) ↔ p ∈ covered merged ∨ p ∈ covered items := by
  induction items generalizing merged with
  | nil => exact ⟨canonical, fun p => by simp [covered]⟩
  | cons item rest ih =>
    obtain ⟨first, others⟩ := List.pairwise_cons.mp sorted
    obtain ⟨next_, holds, last⟩ := mergeItem_eq canonical (filled item (by simp)) fun other member => starts other member item (by simp)
    obtain ⟨whole, all⟩ := ih next_ (fun other member => filled other (by simp [member])) others
      fun other member later_ inside => (last other member).trans (first later_ inside)
    refine ⟨whole, fun p => ?_⟩
    rw [List.foldl_cons, all, holds, or_assoc]
    simp [covered, Interval.pair, Interval.points]

theorem mergeIntervals_eq (list : List (Interval α)) :
    IsCanonical (mergeIntervals list) ∧ covered (mergeIntervals list) = covered list := by
  have filled : ∀ item ∈ (list.filter fun item => !isEmptyInterval item).mergeSort inOrder, item.start < item.end_ := by
    intro item member
    have kept := (List.mem_filter.mp (List.mem_mergeSort.mp member)).2
    exact isEmptyInterval_not.mp (by simpa using kept)
  have sorted : ((list.filter fun item => !isEmptyInterval item).mergeSort inOrder).Pairwise fun x y => x.start ≤ y.start := by
    have inTurn : ((list.filter fun item => !isEmptyInterval item).mergeSort inOrder).Pairwise fun x y => inOrder x y = true :=
      @List.pairwise_mergeSort _ inOrder (fun x y z first second => inOrder_trans first second) inOrder_total _
    refine inTurn.imp fun {x y} ordered => ?_
    rcases inOrder_iff.mp ordered with less | ⟨same, -⟩
    · exact le_of_lt less
    · exact le_of_eq same
  obtain ⟨canonical, holds⟩ := foldl_mergeItem (show IsCanonical [] from .nil) filled sorted nofun
  refine ⟨canonical, Set.ext fun p => ?_⟩
  rw [mergeIntervals, holds]
  simp only [mem_covered, List.mem_mergeSort, List.mem_filter, List.not_mem_nil, false_and, exists_false, false_or]
  constructor
  · rintro ⟨item, ⟨member, -⟩, inside⟩
    exact ⟨item, member, inside⟩
  · rintro ⟨item, member, inside⟩
    exact ⟨item, ⟨member, by rw [isEmptyInterval_not.mpr (lt_of_le_of_lt inside.1 inside.2)]; rfl⟩, inside⟩

def Apart (merged : List (Interval α)) : Prop := merged.Pairwise fun before after => before.end_ < after.start

theorem IsCanonical.isApart (canonical : IsCanonical list) : Apart list := List.pairwise_map.mp canonical.apart

/-- The loop of `gapsBetween`. -/
def holes : (merged : List (Interval α)) → Apart merged → List (Interval α)
  | before :: after :: rest, apart =>
    make before.end_ after.start (le_of_lt ((List.pairwise_cons.mp apart).1 after (by simp))) ::
      holes (after :: rest) (List.pairwise_cons.mp apart).2
  | [_], _ => []
  | [], _ => []

def gapsBetween (list : List (Interval α)) : List (Interval α) := holes (mergeIntervals list) (mergeIntervals_eq list).1.isApart

theorem holes_eq (merged : List (Interval α)) (apart : Apart merged) (canonical : IsCanonical merged) :
    IsCanonical (holes merged apart) ∧
      (∀ p, p ∈ covered (holes merged apart) ↔ (∃ i ∈ merged, i.start ≤ p) ∧ (∃ i ∈ merged, p < i.end_) ∧ p ∉ covered merged) ∧
      ∀ first ∈ merged.head?, ∀ hole ∈ holes merged apart, first.end_ ≤ hole.start := by
  fun_induction holes merged apart with
  | case1 before after rest apart ih =>
    obtain ⟨following, holds, first⟩ := ih canonical.tail
    have behind : before.end_ < after.start := (List.pairwise_cons.mp apart).1 after (by simp)
    have filled : before.start < before.end_ := canonical.filled before.pair (by simp)
    have filled_ : after.start < after.end_ := canonical.filled after.pair (by simp)
    refine ⟨?_, fun p => ?_, ?_⟩
    · refine Canonical.cons behind (fun other member => ?_) following
      obtain ⟨hole, inside, rfl⟩ := List.mem_map.mp member
      exact lt_of_lt_of_le filled_ (first after rfl hole inside)
    · have starts : ∀ i ∈ after :: rest, after.start ≤ i.start := by
        intro i member
        rcases List.mem_cons.mp member with rfl | inside
        · exact le_refl _
        · exact le_of_lt (lt_of_le_of_lt after.ordered ((List.pairwise_cons.mp (List.pairwise_cons.mp apart).2).1 i inside))
      have hole : p ∈ covered (make before.end_ after.start (le_of_lt behind) :: holes (after :: rest) (List.pairwise_cons.mp apart).2) ↔
          before.end_ ≤ p ∧ p < after.start ∨ p ∈ covered (holes (after :: rest) (List.pairwise_cons.mp apart).2) := Pieces.mem_cons
      have own : p ∈ covered (before :: after :: rest) ↔ (before.start ≤ p ∧ p < before.end_) ∨ p ∈ covered (after :: rest) := Pieces.mem_cons
      rw [hole, own, holds]
      constructor
      · rintro (⟨from_, until_⟩ | ⟨⟨i, member, start⟩, ⟨j, member_, end_⟩, outside⟩)
        · refine ⟨⟨before, by simp, (le_of_lt filled).trans from_⟩, ⟨after, by simp, lt_trans until_ filled_⟩, ?_⟩
          rintro (⟨-, inBefore⟩ | inLater)
          · exact absurd inBefore (not_lt_of_ge from_)
          · obtain ⟨i, member, start, -⟩ := mem_covered.mp inLater
            exact absurd until_ (not_lt_of_ge ((starts i member).trans start))
        · refine ⟨⟨i, List.mem_cons_of_mem _ member, start⟩, ⟨j, List.mem_cons_of_mem _ member_, end_⟩, ?_⟩
          rintro (⟨-, inBefore⟩ | inLater)
          · exact absurd (lt_trans inBefore behind) (not_lt_of_ge ((starts i member).trans start))
          · exact outside inLater
      · rintro ⟨⟨i, member, start⟩, ⟨j, member_, end_⟩, outside⟩
        rcases lt_or_ge p after.start with isHole | beyond
        · refine .inl ⟨?_, isHole⟩
          by_contra inBefore
          rcases List.mem_cons.mp member with rfl | inLater
          · exact outside (.inl ⟨start, lt_of_not_ge inBefore⟩)
          · exact absurd isHole (not_lt_of_ge ((starts i inLater).trans start))
        · refine .inr ⟨⟨after, by simp, beyond⟩, ?_, fun inLater => outside (.inr inLater)⟩
          rcases List.mem_cons.mp member_ with rfl | inLater
          · exact absurd (lt_trans end_ behind) (not_lt_of_ge beyond)
          · exact ⟨j, inLater, end_⟩
    · intro only is hole member
      obtain rfl := Option.some.inj is
      rcases List.mem_cons.mp member with rfl | inside
      · exact le_refl _
      · exact le_trans (le_of_lt behind) (le_trans after.ordered (first after rfl hole inside))
  | case2 only =>
    refine ⟨.nil, fun p => ⟨nofun, fun ⟨⟨i, isOnly, starts⟩, ⟨j, isOnly_, ends⟩, outside⟩ => ?_⟩, nofun⟩
    obtain rfl := List.mem_singleton.mp isOnly
    obtain rfl := List.mem_singleton.mp isOnly_
    exact absurd (mem_covered.mpr ⟨j, isOnly_, starts, ends⟩) outside
  | case3 => exact ⟨.nil, fun p => ⟨nofun, fun ⟨⟨i, isNone, _⟩, _⟩ => by cases isNone⟩, nofun⟩

theorem overlaps_eq : overlaps a b = true ↔ (a.start < a.end_ ∧ b.start < b.end_) ∧ a.start < b.end_ ∧ b.start < a.end_ := by
  unfold overlaps
  by_cases empty : (isEmptyInterval a || isEmptyInterval b) = true
  · rw [if_pos empty]
    rw [Bool.or_eq_true, isEmptyInterval_iff, isEmptyInterval_iff] at empty
    constructor
    · nofun
    · rintro ⟨⟨filled, filled_⟩, -⟩
      rcases empty with same | same
      · exact absurd same (ne_of_lt filled)
      · exact absurd same (ne_of_lt filled_)
  · rw [if_neg empty]
    rw [Bool.not_eq_true, Bool.or_eq_false_iff, isEmptyInterval_not, isEmptyInterval_not] at empty
    simp only [Bool.and_eq_true, decide_eq_true_eq, cmp_neg, empty, true_and]

theorem overlaps_iff : overlaps a b = true ↔ ∃ p, p ∈ a.points ∧ p ∈ b.points := by
  rw [overlaps_eq]
  constructor
  · rintro ⟨⟨filled, filled_⟩, less, less_⟩
    exact ⟨max a.start b.start, ⟨le_max_left _ _, max_lt filled less_⟩, le_max_right _ _, max_lt less filled_⟩
  · rintro ⟨p, ⟨starts, ends⟩, starts_, ends_⟩
    exact ⟨⟨lt_of_le_of_lt starts ends, lt_of_le_of_lt starts_ ends_⟩, lt_of_le_of_lt starts ends_, lt_of_le_of_lt starts_ ends⟩

theorem abuts_iff : abuts a b = true ↔ a.end_ = b.start ∨ b.end_ = a.start := by
  simp only [abuts, Bool.or_eq_true, decide_eq_true_eq, cmp_zero]

theorem covered_one (i : Interval α) : covered [i] = i.points := by
  ext p
  simp [covered, Interval.pair, Interval.points]

theorem covered_nil : covered ([] : List (Interval α)) = ∅ := by
  ext p
  simp [covered]

theorem intersection_eq (a b : Interval α) :
    IsCanonical (intersection a b).toList ∧ covered (intersection a b).toList = a.points ∩ b.points := by
  have both : a.points ∩ b.points = Set.Ico (max a.start b.start) (min a.end_ b.end_) := by
    ext p
    simp only [Interval.points, Set.mem_inter_iff, Set.mem_Ico, max_le_iff, lt_min_iff, and_and_and_comm]
  simp only [intersection, later_eq, earlier_eq, cmp_neg, both]
  split
  · next filled => exact ⟨Canonical.one filled, covered_one _⟩
  · next empty => exact ⟨.nil, covered_nil.trans (Set.Ico_eq_empty empty).symm⟩

theorem subtract_eq (a b : Interval α) : IsCanonical (subtract a b) ∧ covered (subtract a b) = a.points \ b.points := by
  unfold subtract
  split
  · next empty =>
    refine ⟨.nil, covered_nil.trans ?_⟩
    rw [isEmptyInterval_iff] at empty
    rw [Interval.points, empty, Set.Ico_self, Set.empty_sdiff]
  split
  · next filled apart =>
    refine ⟨Canonical.one (isEmptyInterval_not.mp (Bool.eq_false_iff.mpr filled)), (covered_one a).trans ?_⟩
    ext p
    refine ⟨fun inside => ⟨inside, fun inside_ => ?_⟩, And.left⟩
    rw [overlaps_iff.mpr ⟨p, inside, inside_⟩] at apart
    cases apart
  · next filled joint =>
    rw [Bool.not_eq_true', Bool.not_eq_false] at joint
    obtain ⟨⟨-, filled_⟩, less, less_⟩ := overlaps_eq.mp joint
    have left (p : α) : p ∈ a.points \ b.points ↔ (a.start ≤ p ∧ p < b.start) ∨ b.end_ ≤ p ∧ p < a.end_ := by
      constructor
      · rintro ⟨⟨starts, ends⟩, outside⟩
        rcases lt_or_ge p b.start with before | from_
        · exact .inl ⟨starts, before⟩
        · exact .inr ⟨not_lt.mp fun inside => outside ⟨from_, inside⟩, ends⟩
      · rintro (⟨starts, before⟩ | ⟨beyond, ends⟩)
        · exact ⟨⟨starts, lt_trans before less_⟩, fun inside => absurd before (not_lt_of_ge inside.1)⟩
        · exact ⟨⟨(le_of_lt less).trans beyond, ends⟩, fun inside => absurd inside.2 (not_lt_of_ge beyond)⟩
    have never {x y p : α} (notLess : ¬ x < y) : ¬ (x ≤ p ∧ p < y) := fun inside => notLess (lt_of_le_of_lt inside.1 inside.2)
    simp only [cmp_neg]
    by_cases before : a.start < b.start
    · by_cases after : b.end_ < a.end_
      · rw [dif_pos before, dif_pos after]
        refine ⟨Canonical.cons before (fun other member => ?_) (Canonical.one after), Set.ext fun p => ?_⟩
        · rw [List.mem_singleton.mp member]
          exact filled_
        · rw [left]
          simp [covered, Interval.pair, make]
      · rw [dif_pos before, dif_neg after]
        refine ⟨Canonical.one before, Set.ext fun p => ?_⟩
        rw [left, or_iff_left (never after)]
        simp [covered, Interval.pair, make]
    · by_cases after : b.end_ < a.end_
      · rw [dif_neg before, dif_pos after]
        refine ⟨Canonical.one after, Set.ext fun p => ?_⟩
        rw [left, or_iff_right (never before)]
        simp [covered, Interval.pair, make]
      · rw [dif_neg before, dif_neg after]
        refine ⟨.nil, Set.ext fun p => ?_⟩
        rw [left, or_iff_right (never before)]
        simp [covered, never after]

theorem symmetricDifference_eq (a b : Interval α) :
    IsCanonical (symmetricDifference a b) ∧ covered (symmetricDifference a b) = symmDiff a.points b.points := by
  obtain ⟨canonical, holds⟩ := mergeIntervals_eq (subtract a b ++ subtract b a)
  refine ⟨canonical, holds.trans ?_⟩
  rw [Set.symmDiff_def, ← (subtract_eq a b).2, ← (subtract_eq b a).2]
  ext p
  simp [covered]

theorem gap_eq (a b : Interval α) :
    IsCanonical (gap a b).toList ∧ covered (gap a b).toList = Set.Ico a.end_ b.start ∪ Set.Ico b.end_ a.start := by
  have ordered := a.ordered
  have ordered_ := b.ordered
  unfold gap
  split
  · next near =>
    rw [Bool.or_eq_true, overlaps_eq, abuts_iff] at near
    have none_ : ¬ a.end_ < b.start ∧ ¬ b.end_ < a.start := by
      rcases near with ⟨-, less, less_⟩ | touch | touch
      · exact ⟨lt_asymm less_, lt_asymm less⟩
      · exact ⟨not_lt_of_ge (le_of_eq touch.symm), not_lt_of_ge (ordered.trans (touch.le.trans ordered_))⟩
      · exact ⟨not_lt_of_ge (ordered_.trans (touch.le.trans ordered)), not_lt_of_ge (le_of_eq touch.symm)⟩
    refine ⟨.nil, covered_nil.trans ?_⟩
    rw [Set.Ico_eq_empty none_.1, Set.Ico_eq_empty none_.2, Set.empty_union]
  simp only [cmp_neg]
  split
  · next before =>
    have other : ¬ b.end_ < a.start := not_lt_of_ge (ordered.trans (le_of_lt (lt_of_lt_of_le before ordered_)))
    refine ⟨Canonical.one before, (covered_one _).trans ?_⟩
    rw [Set.Ico_eq_empty other, Set.union_empty]
    rfl
  split
  · next notBefore after =>
    refine ⟨Canonical.one after, (covered_one _).trans ?_⟩
    rw [Set.Ico_eq_empty notBefore, Set.empty_union]
    rfl
  · next notBefore notAfter =>
    refine ⟨.nil, covered_nil.trans ?_⟩
    rw [Set.Ico_eq_empty notBefore, Set.Ico_eq_empty notAfter, Set.empty_union]

/-- A filled interval that starts by a point, or ends after it, is there in each list of the same points. -/
theorem starts_of_covered {other : List (Interval α)} (same : covered list = covered other) {p : α} (inside : i ∈ list)
    (filled : i.start < i.end_) (starts : i.start ≤ p) : ∃ j ∈ other, j.start < j.end_ ∧ j.start ≤ p := by
  have point : i.start ∈ covered other := same ▸ mem_covered.mpr ⟨i, inside, le_refl _, filled⟩
  obtain ⟨j, member, from_, until_⟩ := mem_covered.mp point
  exact ⟨j, member, lt_of_le_of_lt from_ until_, from_.trans starts⟩

theorem ends_of_covered {other : List (Interval α)} (same : covered list = covered other) {p : α} (inside : i ∈ list)
    (filled : i.start < i.end_) (ends : p < i.end_) : ∃ j ∈ other, j.start < j.end_ ∧ p < j.end_ := by
  have point : max i.start p ∈ covered other :=
    same ▸ mem_covered.mpr ⟨i, inside, le_max_left _ _, max_lt filled ends⟩
  obtain ⟨j, member, from_, until_⟩ := mem_covered.mp point
  exact ⟨j, member, lt_of_le_of_lt from_ until_, lt_of_le_of_lt (le_max_right _ _) until_⟩

/-- The gaps are the points between the first start and the last end of the intervals that hold a point. -/
theorem gapsBetween_eq (list : List (Interval α)) :
    IsCanonical (gapsBetween list) ∧
      ∀ p, p ∈ covered (gapsBetween list) ↔ (∃ i ∈ list, i.start < i.end_ ∧ i.start ≤ p) ∧ (∃ i ∈ list, i.start < i.end_ ∧ p < i.end_) ∧
        p ∉ covered list := by
  obtain ⟨canonical, same⟩ := mergeIntervals_eq list
  obtain ⟨gaps, holds, -⟩ := holes_eq (mergeIntervals list) canonical.isApart canonical
  have filled : ∀ i ∈ mergeIntervals list, i.start < i.end_ := fun i member => canonical.filled i.pair (List.mem_map_of_mem member)
  refine ⟨gaps, fun p => ?_⟩
  rw [gapsBetween, holds, same]
  constructor
  · rintro ⟨⟨i, member, starts⟩, ⟨j, member_, ends⟩, outside⟩
    exact ⟨starts_of_covered same member (filled i member) starts, ends_of_covered same member_ (filled j member_) ends, outside⟩
  · rintro ⟨⟨i, member, full, starts⟩, ⟨j, member_, full_, ends⟩, outside⟩
    obtain ⟨i_, inside, -, starts_⟩ := starts_of_covered same.symm member full starts
    obtain ⟨j_, inside_, -, ends_⟩ := ends_of_covered same.symm member_ full_ ends
    exact ⟨⟨i_, inside, starts_⟩, ⟨j_, inside_, ends_⟩, outside⟩

theorem Interval.pair_injective : Function.Injective (Interval.pair (α := α)) := fun _ _ same =>
  Interval.ext (congrArg Prod.fst same) (congrArg Prod.snd same)

theorem IsCanonical.unique {other : List (Interval α)} (left : IsCanonical list) (right : IsCanonical other)
    (same : covered list = covered other) : list = other :=
  List.map_injective_iff.mpr Interval.pair_injective (Canonical.unique left right same)

/-- The gap of two intervals that hold points is what `gapsBetween` finds, and there is none where they overlap or touch. -/
theorem gapsBetween_pair (filled : a.start < a.end_) (filled_ : b.start < b.end_) :
    gapsBetween [a, b] = (gap a b).toList ∧ (gap a b = none ↔ overlaps a b = true ∨ abuts a b = true) := by
  obtain ⟨canonical, holds⟩ := gapsBetween_eq [a, b]
  obtain ⟨canonical_, points⟩ := gap_eq a b
  constructor
  · refine canonical.unique canonical_ (Set.ext fun p => ?_)
    rw [holds, points]
    simp only [mem_covered, List.mem_cons, List.not_mem_nil, or_false, exists_eq_or_imp, exists_eq_left, filled, filled_, true_and,
      Set.mem_union, Set.mem_Ico]
    constructor
    · rintro ⟨starts, ends, outside⟩
      rcases lt_or_ge p a.start with before | from_
      · have starts_ := starts.resolve_left (not_le_of_gt before)
        exact .inr ⟨not_lt.mp fun inside => outside (.inr ⟨starts_, inside⟩), before⟩
      · have beyond : a.end_ ≤ p := not_lt.mp fun inside => outside (.inl ⟨from_, inside⟩)
        have ends_ := ends.resolve_left (not_lt_of_ge beyond)
        exact .inl ⟨beyond, not_le.mp fun inside => outside (.inr ⟨inside, ends_⟩)⟩
    · rintro (⟨beyond, before⟩ | ⟨beyond, before⟩)
      · refine ⟨.inl ((le_of_lt filled).trans beyond), .inr (lt_trans before filled_), ?_⟩
        rintro (⟨-, inside⟩ | ⟨inside, -⟩)
        · exact absurd inside (not_lt_of_ge beyond)
        · exact absurd before (not_lt_of_ge inside)
      · refine ⟨.inr ((le_of_lt filled_).trans beyond), .inl (lt_trans before filled), ?_⟩
        rintro (⟨inside, -⟩ | ⟨-, inside⟩)
        · exact absurd before (not_lt_of_ge inside)
        · exact absurd inside (not_lt_of_ge beyond)
  · constructor
    · intro none_
      rw [none_, Option.toList_none, covered_nil, eq_comm, Set.union_empty_iff, Set.Ico_eq_empty_iff, Set.Ico_eq_empty_iff, not_lt, not_lt] at points
      rw [overlaps_eq, abuts_iff]
      rcases lt_or_eq_of_le points.1 with less | touch
      · rcases lt_or_eq_of_le points.2 with less_ | touch
        · exact .inl ⟨⟨filled, filled_⟩, less_, less⟩
        · exact .inr (.inr touch.symm)
      · exact .inr (.inl touch.symm)
    · intro near
      rw [gap, if_pos (by rwa [Bool.or_eq_true])]

theorem containsPoint_iff {p : α} : containsPoint i p = true ↔ p ∈ i.points := by
  simp [containsPoint, cmp_nonpos, cmp_neg, Interval.points]

theorem containsInterval_iff (filled : b.start < b.end_) : containsInterval a b = true ↔ b.points ⊆ a.points := by
  simp [containsInterval, cmp_nonpos, Interval.points, Set.Ico_subset_Ico_iff filled]

/-- The operations on intervals are those on the sets of their points, in the one canonical form; where the gaps begin and end, and what
`gap` and `contains` tell, an interval without points counts for nothing.
-/
theorem set_operations (α : Type) [LinearOrder α] :
    (∀ list : List (Interval α), IsCanonical (mergeIntervals list) ∧ covered (mergeIntervals list) = covered list) ∧
    (∀ (a : Interval α) rest, IsCanonical (union a rest) ∧ covered (union a rest) = covered (a :: rest)) ∧
    (∀ a b : Interval α, IsCanonical (intersection a b).toList ∧ covered (intersection a b).toList = a.points ∩ b.points) ∧
    (∀ a b : Interval α, IsCanonical (subtract a b) ∧ covered (subtract a b) = a.points \ b.points) ∧
    (∀ a b : Interval α, IsCanonical (symmetricDifference a b) ∧ covered (symmetricDifference a b) = symmDiff a.points b.points) ∧
    (∀ list : List (Interval α), IsCanonical (gapsBetween list) ∧
      ∀ p, p ∈ covered (gapsBetween list) ↔ (∃ i ∈ list, i.start < i.end_ ∧ i.start ≤ p) ∧ (∃ i ∈ list, i.start < i.end_ ∧ p < i.end_) ∧
        p ∉ covered list) ∧
    (∀ a b : Interval α, IsCanonical (gap a b).toList ∧ covered (gap a b).toList = Set.Ico a.end_ b.start ∪ Set.Ico b.end_ a.start) ∧
    (∀ a b : Interval α, a.start < a.end_ → b.start < b.end_ →
      gapsBetween [a, b] = (gap a b).toList ∧ (gap a b = none ↔ overlaps a b = true ∨ abuts a b = true)) ∧
    (∀ a b : Interval α, (overlaps a b = true ↔ (a.points ∩ b.points).Nonempty) ∧ (overlaps a b = true ↔ (intersection a b).isSome = true)) ∧
    (∀ (i : Interval α) p, containsPoint i p = true ↔ p ∈ i.points) ∧
    ∀ a b : Interval α, b.start < b.end_ → (containsInterval a b = true ↔ b.points ⊆ a.points) := by
  refine ⟨mergeIntervals_eq, fun a rest => mergeIntervals_eq (a :: rest), intersection_eq, subtract_eq, symmetricDifference_eq,
    gapsBetween_eq, gap_eq, fun a b => gapsBetween_pair, fun a b => ⟨overlaps_iff, ?_⟩, fun i p => containsPoint_iff,
    fun a b => containsInterval_iff⟩
  obtain ⟨canonical, points⟩ := intersection_eq a b
  rw [overlaps_iff]
  cases both : intersection a b with
  | none =>
    rw [both, Option.toList_none, covered_nil] at points
    refine ⟨fun ⟨p, inside⟩ => ?_, nofun⟩
    exact absurd (points ▸ inside : p ∈ (∅ : Set α)) (Set.notMem_empty p)
  | some shared =>
    rw [both, Option.toList_some, covered_one] at points
    rw [both] at canonical
    have filled : shared.start < shared.end_ := canonical.filled shared.pair (by simp)
    have inside : shared.start ∈ a.points ∩ b.points := by
      rw [← points]
      exact ⟨le_refl _, filled⟩
    exact ⟨fun _ => rfl, fun _ => ⟨shared.start, inside⟩⟩

/-- An interval without points before all others starts no gap, though it has a start. -/
theorem gapsBetween_empty_first :
    ¬ ∀ (list : List (Interval Int)) (p : Int), p ∈ covered (gapsBetween list) ↔
      (∃ i ∈ list, i.start ≤ p) ∧ (∃ i ∈ list, p < i.end_) ∧ p ∉ covered list := by
  intro claimed
  obtain ⟨-, holds⟩ := gapsBetween_eq [make (0 : Int) 0 (by decide), make 5 6 (by decide)]
  have outside : (0 : Int) ∉ covered [make 0 0 (by decide), make 5 6 (by decide)] := by
    simp [mem_covered, make]
  have inGap := (claimed [make 0 0 (by decide), make 5 6 (by decide)] 0).mpr
    ⟨⟨_, List.mem_cons_self, by decide⟩, ⟨make 5 6 (by decide), by simp, by decide⟩, outside⟩
  obtain ⟨⟨i, member, filled, starts⟩, -⟩ := (holds 0).mp inGap
  simp only [List.mem_cons, List.not_mem_nil, or_false] at member
  rcases member with rfl | rfl
  · exact absurd filled (by decide)
  · exact absurd starts (by decide)

end Arki.Dates
