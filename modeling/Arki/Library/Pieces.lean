import Mathlib.Data.Set.Basic
import Mathlib.Data.List.Basic

/-! Sets of points as lists of half-open pieces. A list in canonical form is the only one with its points. -/

set_option autoImplicit false

namespace Arki.Pieces

variable {α : Type} [LinearOrder α]

def points (pieces : List (α × α)) : Set α := {p | ∃ piece ∈ pieces, piece.1 ≤ p ∧ p < piece.2}

structure Canonical (pieces : List (α × α)) : Prop where
  filled : ∀ piece ∈ pieces, piece.1 < piece.2
  apart : pieces.Pairwise fun before after => before.2 < after.1

theorem mem_points {pieces : List (α × α)} {p : α} : p ∈ points pieces ↔ ∃ piece ∈ pieces, piece.1 ≤ p ∧ p < piece.2 := Iff.rfl

@[simp] theorem mem_nil {p : α} : p ∈ points ([] : List (α × α)) ↔ False :=
  ⟨fun ⟨_, none_, _⟩ => List.not_mem_nil none_, False.elim⟩

@[simp] theorem mem_cons {piece : α × α} {rest : List (α × α)} {p : α} :
    p ∈ points (piece :: rest) ↔ piece.1 ≤ p ∧ p < piece.2 ∨ p ∈ points rest := List.exists_mem_cons_iff _ _ _

@[simp] theorem mem_append {left right : List (α × α)} {p : α} : p ∈ points (left ++ right) ↔ p ∈ points left ∨ p ∈ points right := by
  constructor
  · rintro ⟨piece, member, inside⟩
    rcases List.mem_append.mp member with first | last
    · exact .inl ⟨piece, first, inside⟩
    · exact .inr ⟨piece, last, inside⟩
  · rintro (⟨piece, member, inside⟩ | ⟨piece, member, inside⟩)
    · exact ⟨piece, List.mem_append_left right member, inside⟩
    · exact ⟨piece, List.mem_append_right left member, inside⟩

theorem Canonical.nil : Canonical ([] : List (α × α)) := ⟨nofun, .nil⟩

theorem Canonical.one {piece : α × α} (filled : piece.1 < piece.2) : Canonical [piece] :=
  ⟨by simpa using filled, List.pairwise_singleton _ _⟩

theorem Canonical.tail {piece : α × α} {rest : List (α × α)} (canonical : Canonical (piece :: rest)) : Canonical rest :=
  ⟨fun other member => canonical.filled other (List.mem_cons_of_mem piece member), (List.pairwise_cons.mp canonical.apart).2⟩

theorem Canonical.cons {piece : α × α} {rest : List (α × α)} (filled : piece.1 < piece.2) (apart : ∀ other ∈ rest, piece.2 < other.1)
    (canonical : Canonical rest) : Canonical (piece :: rest) :=
  ⟨List.forall_mem_cons.mpr ⟨filled, canonical.filled⟩, List.pairwise_cons.mpr ⟨apart, canonical.apart⟩⟩

theorem Canonical.concat {front : List (α × α)} {piece : α × α} (canonical : Canonical front) (filled : piece.1 < piece.2)
    (apart : ∀ other ∈ front, other.2 < piece.1) : Canonical (front ++ [piece]) := by
  refine ⟨fun other member => ?_, List.pairwise_append.mpr ⟨canonical.apart, List.pairwise_singleton _ _, fun other member last isLast => ?_⟩⟩
  · rcases List.mem_append.mp member with inside | isLast
    · exact canonical.filled other inside
    · rwa [List.mem_singleton.mp isLast]
  · rw [List.mem_singleton.mp isLast]
    exact apart other member

theorem Canonical.front {front : List (α × α)} {piece : α × α} (canonical : Canonical (front ++ [piece])) :
    Canonical front ∧ piece.1 < piece.2 ∧ ∀ other ∈ front, other.2 < piece.1 := by
  obtain ⟨before, -, apart⟩ := List.pairwise_append.mp canonical.apart
  exact ⟨⟨fun other member => canonical.filled other (by simp [member]), before⟩, canonical.filled piece (by simp),
    fun other member => apart other member piece (by simp)⟩

variable {piece other : α × α} {rest others : List (α × α)}

theorem Canonical.after (canonical : Canonical (piece :: rest)) {p : α} (inside : p ∈ points rest) : piece.2 < p := by
  obtain ⟨later, member, starts, -⟩ := inside
  exact lt_of_lt_of_le ((List.pairwise_cons.mp canonical.apart).1 later member) starts

/-- The first start is the least point, and the first end the least bound above it that is none. -/
theorem Canonical.starts (canonical : Canonical (piece :: rest)) : piece.1 ∈ points (piece :: rest) :=
  mem_cons.mpr (.inl ⟨le_refl _, canonical.filled piece (by simp)⟩)

theorem Canonical.starts_least (canonical : Canonical (piece :: rest)) {p : α} (inside : p ∈ points (piece :: rest)) : piece.1 ≤ p := by
  rcases mem_cons.mp inside with here | later
  · exact here.1
  · exact le_of_lt (lt_trans (canonical.filled piece (by simp)) (canonical.after later))

theorem Canonical.ends (canonical : Canonical (piece :: rest)) : piece.2 ∉ points (piece :: rest) := by
  intro inside
  rcases mem_cons.mp inside with here | later
  · exact lt_irrefl _ here.2
  · exact lt_irrefl _ (canonical.after later)

theorem Canonical.ends_le (left : Canonical (piece :: rest))
    (same : points (piece :: rest) = points (other :: others)) (starts : piece.1 = other.1) : other.2 ≤ piece.2 := by
  by_contra longer
  have inside : piece.2 ∈ points (other :: others) :=
    mem_cons.mpr (.inl ⟨starts ▸ le_of_lt (left.filled piece (by simp)), lt_of_not_ge longer⟩)
  exact left.ends (same ▸ inside)

theorem Canonical.tail_points (canonical : Canonical (piece :: rest)) : points rest = {p | p ∈ points (piece :: rest) ∧ piece.2 ≤ p} := by
  ext p
  constructor
  · intro later
    exact ⟨mem_cons.mpr (.inr later), le_of_lt (canonical.after later)⟩
  · rintro ⟨inside, beyond⟩
    rcases mem_cons.mp inside with here | later
    · exact absurd here.2 (not_lt_of_ge beyond)
    · exact later

theorem Canonical.unique {left right : List (α × α)} (isLeft : Canonical left) (isRight : Canonical right)
    (same : points left = points right) : left = right := by
  induction left generalizing right with
  | nil =>
    cases right with
    | nil => rfl
    | cons other others => exact absurd (same ▸ isRight.starts) (by simp)
  | cons piece rest ih =>
    cases right with
    | nil => exact absurd (same ▸ isLeft.starts) (by simp)
    | cons other others =>
      have starts : piece.1 = other.1 :=
        le_antisymm (isLeft.starts_least (same ▸ isRight.starts)) (isRight.starts_least (same ▸ isLeft.starts))
      have ends : piece.2 = other.2 := le_antisymm (isRight.ends_le same.symm starts.symm) (isLeft.ends_le same starts)
      have tails : points rest = points others := by rw [isLeft.tail_points, isRight.tail_points, same, ends]
      rw [Prod.ext starts ends, ih isLeft.tail isRight.tail tails]

end Arki.Pieces
