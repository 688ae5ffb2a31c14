import Mathlib.Data.Set.Finite.Basic

/-! Trees unfolded from the nodes that follow a node, and when they hold every node once. -/

set_option autoImplicit false

namespace Arki

inductive Tree (α : Type) where
  | node (value : α) (children : List (Tree α))

namespace Tree

variable {α : Type}

def value : Tree α → α
  | .node value _ => value

mutual

def flatten : Tree α → List α
  | .node value children => value :: flattenAll children

def flattenAll : List (Tree α) → List α
  | [] => []
  | tree :: rest => tree.flatten ++ flattenAll rest

end

mutual

def Follows (next : α → List α) : Tree α → Prop
  | .node value children => children.map Tree.value = next value ∧ FollowAll next children

def FollowAll (next : α → List α) : List (Tree α) → Prop
  | [] => True
  | tree :: rest => tree.Follows next ∧ FollowAll next rest

end

/-- The tree below a node. It does not end where the nodes below go on for ever, so it takes fuel. -/
def unfold (next : α → List α) : Nat → α → Option (Tree α)
  | 0, _ => none
  | fuel + 1, value => ((next value).mapM (unfold next fuel)).map (.node value)

theorem mapM_cons {β : Type} (f : α → Option β) (value : α) (rest : List α) :
    (value :: rest).mapM f = (f value).bind fun first => (rest.mapM f).map (first :: ·) := by
  rw [List.mapM_cons]
  cases f value with
  | none => rfl
  | some first => cases rest.mapM f <;> rfl

section Woods

variable {all : List α} {next : α → List α}

def Within (all : List α) (next : α → List α) (value other : α) : Prop := value ∈ all ∧ other ∈ next value

def Reaches (all : List α) (next : α → List α) : α → α → Prop := Relation.ReflTransGen (Within all next)

structure Wooded (all : List α) (next : α → List α) : Prop where
  closed : ∀ value ∈ all, ∀ other ∈ next value, other ∈ all
  distinct : ∀ value ∈ all, (next value).Nodup
  single : ∀ value ∈ all, ∀ other ∈ all, ∀ below, below ∈ next value → below ∈ next other → value = other
  ends : ∀ value ∈ all, Acc (fun other value => other ∈ next value) value

theorem Wooded.stays (wooded : Wooded all next) {value other : α} (held : value ∈ all) (reaches : Reaches all next value other) : other ∈ all := by
  induction reaches with
  | refl => exact held
  | tail _ step _ => exact wooded.closed _ step.1 _ step.2

theorem Wooded.irreflexive (wooded : Wooded all next) (value : α) : ¬ Relation.TransGen (Within all next) value value := by
  intro around
  have held : value ∈ all := by
    obtain ⟨_, step, _⟩ := Relation.TransGen.head'_iff.mp around
    exact step.1
  have ends := (wooded.ends value held).transGen
  induction ends with
  | intro value _ ih =>
    refine ih value ?_ around held
    exact Relation.transGen_swap.mpr (Relation.TransGen.mono (fun _ _ step => step.2) _ _ around)

theorem Wooded.comparable (wooded : Wooded all next) {value other below : α} (first : Reaches all next value below)
    (second : Reaches all next other below) : Reaches all next value other ∨ Reaches all next other value := by
  have unique : Relator.RightUnique (Function.swap (Within all next)) := fun _ _ _ left right =>
    wooded.single _ left.1 _ right.1 _ left.2 right.2
  have both := Relation.ReflTransGen.total_of_right_unique unique (Relation.reflTransGen_swap.mpr first) (Relation.reflTransGen_swap.mpr second)
  exact both.elim (fun up => .inr (Relation.reflTransGen_swap.mp up)) fun up => .inl (Relation.reflTransGen_swap.mp up)

structure Grown (all : List α) (next : α → List α) (value : α) (tree : Tree α) : Prop where
  named : tree.value = value
  follows : tree.Follows next
  spans : ∀ below, below ∈ tree.flatten ↔ Reaches all next value below
  once : tree.flatten.Nodup

theorem spread (wooded : Wooded all next) {values : List α} {trees : List (Tree α)} (distinct : values.Nodup)
    (apart : ∀ value ∈ values, ∀ other ∈ values, value ≠ other → ¬ Reaches all next value other)
    (grown : List.Forall₂ (Grown all next) values trees) :
    trees.map Tree.value = values ∧ FollowAll next trees ∧
      (∀ below, below ∈ flattenAll trees ↔ ∃ value ∈ values, Reaches all next value below) ∧ (flattenAll trees).Nodup := by
  induction grown with
  | nil => exact ⟨rfl, trivial, by simp [flattenAll], List.nodup_nil⟩
  | @cons value tree values trees first _ ih =>
    rw [List.nodup_cons] at distinct
    obtain ⟨is, follows, spans, once⟩ := ih distinct.2 fun value held other held' =>
      apart value (List.mem_cons_of_mem _ held) other (List.mem_cons_of_mem _ held')
    refine ⟨by rw [List.map_cons, first.named, is], ⟨first.follows, follows⟩, fun below => ?_, ?_⟩
    · rw [flattenAll, List.mem_append, first.spans, spans]
      simp
    · rw [flattenAll, List.nodup_append]
      refine ⟨first.once, once, fun below left below' right same => ?_⟩
      subst same
      obtain ⟨other, held, under⟩ := (spans below).mp right
      have differ : value ≠ other := fun same => distinct.1 (same ▸ held)
      rcases wooded.comparable ((first.spans below).mp left) under with up | up
      · exact apart value (by simp) other (List.mem_cons_of_mem _ held) differ up
      · exact apart other (List.mem_cons_of_mem _ held) value (by simp) differ.symm up

theorem mapM_grown {grown : α → Tree α → Prop} {values : List α}
    (each : ∀ value ∈ values, ∃ tree, (∃ fuel, ∀ more, fuel ≤ more → unfold next more value = some tree) ∧ grown value tree) :
    ∃ trees, (∃ fuel, ∀ more, fuel ≤ more → values.mapM (unfold next more) = some trees) ∧ List.Forall₂ grown values trees := by
  induction values with
  | nil => exact ⟨[], ⟨0, fun _ _ => rfl⟩, .nil⟩
  | cons value rest ih =>
    obtain ⟨tree, ⟨fuel, first⟩, is⟩ := each value (by simp)
    obtain ⟨trees, ⟨fuel', others⟩, all_⟩ := ih fun value held => each value (List.mem_cons_of_mem _ held)
    refine ⟨tree :: trees, ⟨max fuel fuel', fun more enough => ?_⟩, .cons is all_⟩
    rw [mapM_cons, first more (by omega), others more (by omega)]
    rfl

theorem Wooded.siblings (wooded : Wooded all next) {value : α} (held : value ∈ all) {below other : α} (follows : below ∈ next value)
    (follows' : other ∈ next value) (differ : below ≠ other) : ¬ Reaches all next below other := by
  intro reaches
  rcases Relation.ReflTransGen.cases_tail reaches with same | ⟨parent, down, step⟩
  · exact differ same.symm
  · obtain rfl := wooded.single parent step.1 value held other step.2 follows'
    exact wooded.irreflexive parent (.head' ⟨held, follows⟩ down)

theorem unfold_grown (wooded : Wooded all next) {value : α} (held : value ∈ all) :
    ∃ tree, (∃ fuel, ∀ more, fuel ≤ more → unfold next more value = some tree) ∧ Grown all next value tree := by
  have ends := wooded.ends value held
  induction ends with
  | intro value _ ih =>
    obtain ⟨trees, ⟨fuel, unfolds⟩, grown⟩ := mapM_grown fun below follows => ih below follows (wooded.closed value held below follows)
    obtain ⟨is, follows, spans, once⟩ :=
      spread wooded (wooded.distinct value held) (fun below at_ other at' => wooded.siblings held at_ at') grown
    refine ⟨.node value trees, ⟨fuel + 1, fun more enough => ?_⟩, rfl, ⟨is, follows⟩, fun below => ?_, ?_⟩
    · obtain ⟨more, rfl⟩ : ∃ less, more = less + 1 := ⟨more - 1, by omega⟩
      rw [unfold, unfolds more (by omega)]
      rfl
    · rw [flatten, List.mem_cons, spans, Reaches, Relation.ReflTransGen.cases_head_iff]
      refine or_congr eq_comm ⟨?_, ?_⟩
      · rintro ⟨child, at_, down⟩
        exact ⟨child, ⟨held, at_⟩, down⟩
      · rintro ⟨child, step, down⟩
        exact ⟨child, step.2, down⟩
    · rw [flatten, List.nodup_cons]
      refine ⟨fun there => ?_, once⟩
      obtain ⟨child, at_, down⟩ := (spans value).mp there
      exact wooded.irreflexive value (.head' ⟨held, at_⟩ down)

theorem Wooded.rooted (wooded : Wooded all next) {value : α} (held : value ∈ all) :
    ∃ root ∈ all, (∀ other ∈ all, root ∉ next other) ∧ Reaches all next root value := by
  let above : {value // value ∈ all} → {value // value ∈ all} → Prop := fun value other =>
    Relation.TransGen (Within all next) value.1 other.1
  have finite : Finite {value // value ∈ all} := Set.Finite.to_subtype (List.finite_toSet all)
  have trans : IsTrans _ above := ⟨fun _ _ _ => Relation.TransGen.trans⟩
  have irrefl : Std.Irrefl above := ⟨fun value => wooded.irreflexive value.1⟩
  have wellFounded : WellFounded above := Finite.wellFounded_of_trans_of_irrefl above
  induction h : (⟨value, held⟩ : {value // value ∈ all}) using wellFounded.induction generalizing value with
  | h here ih =>
    subst h
    by_cases free : ∀ other ∈ all, value ∉ next other
    · exact ⟨value, held, free, .refl⟩
    · push Not at free
      obtain ⟨parent, at_, follows⟩ := free
      obtain ⟨root, rooted, alone, down⟩ := ih ⟨parent, at_⟩ (.single ⟨at_, follows⟩) at_ rfl
      exact ⟨root, rooted, alone, down.tail ⟨at_, follows⟩⟩

theorem forest (wooded : Wooded all next) (once : all.Nodup) {roots : List α} (distinct : roots.Nodup)
    (isRoot : ∀ value, value ∈ roots ↔ value ∈ all ∧ ∀ other ∈ all, value ∉ next other) :
    ∃ trees, (∃ fuel, ∀ more, fuel ≤ more → roots.mapM (unfold next more) = some trees) ∧
      trees.map Tree.value = roots ∧ FollowAll next trees ∧ (flattenAll trees).Perm all := by
  obtain ⟨trees, unfolds, grown⟩ := mapM_grown fun value root => unfold_grown wooded ((isRoot value).mp root).1
  have apart : ∀ value ∈ roots, ∀ other ∈ roots, value ≠ other → ¬ Reaches all next value other := by
    intro value _ other root differ reaches
    rcases Relation.ReflTransGen.cases_tail reaches with same | ⟨parent, -, step⟩
    · exact differ same.symm
    · exact ((isRoot other).mp root).2 parent step.1 step.2
  obtain ⟨is, follows, spans, nodup⟩ := spread wooded distinct apart grown
  refine ⟨trees, unfolds, is, follows, (List.perm_ext_iff_of_nodup nodup once).mpr fun value => (spans value).trans ⟨?_, ?_⟩⟩
  · rintro ⟨root, at_, down⟩
    exact wooded.stays ((isRoot root).mp at_).1 down
  · intro held
    obtain ⟨root, at_, alone, down⟩ := wooded.rooted held
    exact ⟨root, (isRoot root).mpr ⟨at_, alone⟩, down⟩

end Woods

end Tree

end Arki
