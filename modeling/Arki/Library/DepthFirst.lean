import Mathlib.Data.Finset.Card

/-! Depth-first search for a cycle, with the marks of the visited nodes and of the nodes on the way. -/

set_option autoImplicit false

namespace Arki.DepthFirst

structure Marks (Node : Type) where
  visited : Finset Node
  stack : Finset Node

section Search

variable {Node : Type} [DecidableEq Node]

/-- The walk over the next nodes of one node. `visit` walks the part below one of them; it has no answer when its fuel runs out. -/
def anyCycle (visit : Node → Marks Node → Option (Bool × Marks Node)) : List Node → Marks Node → Option (Bool × Marks Node)
  | [], marks => some (false, marks)
  | node :: rest, marks =>
    if node ∉ marks.visited then
      match visit node marks with
      | none => none
      | some (true, marks) => some (true, marks)
      | some (false, marks) => anyCycle visit rest marks
    else if node ∈ marks.stack then some (true, marks)
    else anyCycle visit rest marks

def Marks.enter (marks : Marks Node) (node : Node) : Marks Node := ⟨insert node marks.visited, insert node marks.stack⟩

def Marks.leave (marks : Marks Node) (node : Node) : Marks Node := ⟨marks.visited, marks.stack.erase node⟩

def hasCycle (next : Node → List Node) : Nat → Node → Marks Node → Option (Bool × Marks Node)
  | 0, _, _ => none
  | fuel + 1, node, marks =>
    match anyCycle (hasCycle next fuel) (next node) (marks.enter node) with
    | none => none
    | some (true, marks) => some (true, marks)
    | some (false, marks) => some (false, marks.leave node)

def searchAll (next : Node → List Node) (fuel : Nat) : List Node → Marks Node → Option (Option Node)
  | [], _ => some none
  | node :: rest, marks =>
    if node ∉ marks.visited then
      match hasCycle next fuel node marks with
      | none => none
      | some (true, _) => some (some node)
      | some (false, marks) => searchAll next fuel rest marks
    else searchAll next fuel rest marks

end Search

section Correctness

variable {Node : Type}

/-- `other` comes right after `node`. -/
def Follows (next : Node → List Node) (node other : Node) : Prop := other ∈ next node

def Cyclic (next : Node → List Node) : Prop := ∃ node, Relation.TransGen (Follows next) node node

def Ends (next : Node → List Node) (node : Node) : Prop := Acc (fun other node => Follows next node other) node

variable {next : Node → List Node} {marks : Marks Node}

theorem Ends.not_returns {node : Node} (ends : Ends next node) : ¬ Relation.TransGen (Follows next) node node := by
  have swapped : Acc (Relation.TransGen fun other node => Follows next node other) node := ends.transGen
  induction swapped with
  | intro node _ ih =>
    intro around
    have back : Relation.TransGen (fun other node => Follows next node other) node node := Relation.transGen_swap.mpr around
    exact ih node back ends around

structure Marks.Good (next : Node → List Node) (marks : Marks Node) : Prop where
  stacked : marks.stack ⊆ marks.visited
  ends : ∀ node ∈ marks.visited, node ∉ marks.stack → Ends next node

structure Walked (next : Node → List Node) (marks marks' : Marks Node) : Prop where
  more : marks.visited ⊆ marks'.visited
  same : marks'.stack = marks.stack
  good : marks'.Good next

theorem Walked.refl (good : marks.Good next) : Walked next marks marks :=
  ⟨Finset.Subset.refl _, rfl, good⟩

theorem Walked.trans {marks' marks'' : Marks Node} (first : Walked next marks marks')
    (second : Walked next marks' marks'') : Walked next marks marks'' :=
  ⟨first.more.trans second.more, second.same.trans first.same, second.good⟩

/-- The answer a walk may give: it goes past no node of `nodes` without having left it, or there is a cycle. -/
def Answers (next : Node → List Node) (nodes : List Node) (marks : Marks Node) (answer : Option (Bool × Marks Node)) : Prop :=
  (∃ marks', answer = some (false, marks') ∧ Walked next marks marks' ∧ ∀ node ∈ nodes, node ∈ marks'.visited ∧ node ∉ marks'.stack) ∨
    (∃ marks', answer = some (true, marks')) ∧ Cyclic next

variable [DecidableEq Node]

theorem anyCycle_answers {visit : Node → Marks Node → Option (Bool × Marks Node)} {nodes : List Node}
    {marks₀ : Marks Node} (good : marks.Good next) (before : Walked next marks₀ marks)
    (visits : ∀ node ∈ nodes, ∀ marks, Walked next marks₀ marks → node ∉ marks.visited → Answers next [node] marks (visit node marks))
    (returns : ∀ node ∈ nodes, node ∈ marks₀.stack → Cyclic next) : Answers next nodes marks (anyCycle visit nodes marks) := by
  induction nodes generalizing marks with
  | nil => exact .inl ⟨marks, rfl, .refl good, by simp⟩
  | cons node rest ih =>
    rw [anyCycle]
    have later := fun marks (good : marks.Good next) (before : Walked next marks₀ marks) =>
      ih good before (fun node held => visits node (by simp [held])) fun node held => returns node (by simp [held])
    -- Once `node` is left, the rest of the walk keeps it so.
    have passed : ∀ marks', Walked next marks marks' → node ∈ marks'.visited → node ∉ marks'.stack →
        Answers next (node :: rest) marks (anyCycle visit rest marks') := by
      intro marks' walked seen left
      rcases later marks' walked.good (before.trans walked) with ⟨marks'', is, walked', all⟩ | ⟨⟨marks'', is⟩, cyclic⟩
      · refine .inl ⟨marks'', is, walked.trans walked', fun other held => ?_⟩
        rcases List.mem_cons.mp held with rfl | held
        · exact ⟨walked'.more seen, walked'.same ▸ left⟩
        · exact all other held
      · exact .inr ⟨⟨marks'', is⟩, cyclic⟩
    by_cases seen : node ∈ marks.visited
    · rw [if_neg (not_not_intro seen)]
      by_cases stacked : node ∈ marks.stack
      · rw [if_pos stacked]
        exact .inr ⟨⟨marks, rfl⟩, returns node (by simp) (before.same ▸ stacked)⟩
      · rw [if_neg stacked]
        exact passed marks (.refl good) seen stacked
    · rw [if_pos seen]
      rcases visits node (by simp) marks before seen with ⟨marks', is, walked, left⟩ | ⟨⟨marks', is⟩, cyclic⟩
      · rw [is]
        exact passed marks' walked (left node (by simp)).1 (left node (by simp)).2
      · rw [is]
        exact .inr ⟨⟨marks', rfl⟩, cyclic⟩

theorem unseen_enter {nodes : Finset Node} {marks' : Marks Node} {node : Node} (held : node ∈ nodes) (new : node ∉ marks.visited)
    (more : (marks.enter node).visited ⊆ marks'.visited) : (nodes \ marks'.visited).card < (nodes \ marks.visited).card := by
  refine Finset.card_lt_card (Finset.ssubset_iff_subset_ne.mpr ⟨Finset.sdiff_subset_sdiff (Finset.Subset.refl _) ?_, ?_⟩)
  · exact (Finset.subset_insert _ _).trans more
  · intro same
    have there : node ∈ nodes \ marks.visited := Finset.mem_sdiff.mpr ⟨held, new⟩
    rw [← same] at there
    exact (Finset.mem_sdiff.mp there).2 (more (Finset.mem_insert_self _ _))

/-- The search from a node answers once the fuel covers the nodes still to visit. The stack holds nodes that lead to it. -/
theorem hasCycle_answers {nodes : Finset Node} (closed : ∀ node ∈ nodes, ∀ other ∈ next node, other ∈ nodes)
    {fuel : Nat} {node : Node} (held : node ∈ nodes) (new : node ∉ marks.visited) (good : marks.Good next)
    (leads : ∀ other ∈ marks.stack, Relation.TransGen (Follows next) other node) (enough : (nodes \ marks.visited).card ≤ fuel) :
    Answers next [node] marks (hasCycle next fuel node marks) := by
  induction fuel generalizing node marks with
  | zero =>
    have there : node ∈ nodes \ marks.visited := Finset.mem_sdiff.mpr ⟨held, new⟩
    rw [Finset.card_eq_zero.mp (Nat.le_zero.mp enough)] at there
    cases there
  | succ fuel ih =>
    have entered : (marks.enter node).Good next :=
      ⟨Finset.insert_subset_insert _ good.stacked, fun other seen off => by
        simp only [Marks.enter, Finset.mem_insert, not_or] at seen off
        exact good.ends other (seen.resolve_left off.1) off.2⟩
    have reaches : ∀ other ∈ (marks.enter node).stack, Relation.ReflTransGen (Follows next) other node := by
      intro other stacked
      rcases Finset.mem_insert.mp stacked with rfl | stacked
      · exact .refl
      · exact (leads other stacked).to_reflTransGen
    have below : Answers next (next node) (marks.enter node) (anyCycle (hasCycle next fuel) (next node) (marks.enter node)) := by
      refine anyCycle_answers entered (.refl entered) ?_ ?_
      · intro other follows marks' walked fresh
        refine ih (closed node held other follows) fresh walked.good ?_ ?_
        · intro ancestor stacked
          rw [walked.same] at stacked
          exact Relation.TransGen.tail' (reaches ancestor stacked) follows
        · have fewer := unseen_enter held new walked.more
          omega
      · intro other follows stacked
        exact ⟨other, Relation.TransGen.tail' (reaches other stacked) follows⟩
    rw [hasCycle]
    rcases below with ⟨marks', is, walked, left⟩ | ⟨⟨marks', is⟩, cyclic⟩
    · rw [is]
      have off : (marks'.leave node).stack = marks.stack := by
        have unstacked : node ∉ marks.stack := fun stacked => new (good.stacked stacked)
        rw [Marks.leave, walked.same, Marks.enter, Finset.erase_insert unstacked]
      refine .inl ⟨marks'.leave node, rfl, ⟨?_, off, ?_, ?_⟩, ?_⟩
      · exact (Finset.subset_insert _ _).trans walked.more
      · rw [off]
        exact good.stacked.trans ((Finset.subset_insert _ _).trans walked.more)
      · -- The node itself ends because all that follow it were left.
        intro other seen apart
        by_cases same : other = node
        · subst same
          exact ⟨_, fun after follows => walked.good.ends after (left after follows).1 (left after follows).2⟩
        · refine walked.good.ends other seen fun stacked => apart ?_
          exact Finset.mem_erase.mpr ⟨same, stacked⟩
      · intro other is
        obtain rfl := List.mem_singleton.mp is
        exact ⟨walked.more (Finset.mem_insert_self _ _), Finset.notMem_erase _ _⟩
    · rw [is]
      exact .inr ⟨⟨marks', rfl⟩, cyclic⟩

/-- The search from every node: it names a node on whose way there is a cycle, or every node ends. -/
theorem searchAll_answers {nodes : Finset Node} (closed : ∀ node ∈ nodes, ∀ other ∈ next node, other ∈ nodes)
    {fuel : Nat} (enough : nodes.card ≤ fuel) {list : List Node} (held : ∀ node ∈ list, node ∈ nodes)
    (good : marks.Good next) (idle : marks.stack = ∅) :
    (searchAll next fuel list marks = some none ∧ ∀ node ∈ list, Ends next node) ∨
      (∃ node ∈ list, searchAll next fuel list marks = some (some node)) ∧ Cyclic next := by
  induction list generalizing marks with
  | nil => exact .inl ⟨rfl, by simp⟩
  | cons node rest ih =>
    have passed : ∀ marks' : Marks Node, marks'.Good next → marks'.stack = ∅ → node ∈ marks'.visited →
        (searchAll next fuel rest marks' = some none ∧ ∀ other ∈ node :: rest, Ends next other) ∨
          (∃ other ∈ node :: rest, searchAll next fuel rest marks' = some (some other)) ∧ Cyclic next := by
      intro marks' good' idle' seen
      rcases ih (fun other member => held other (by simp [member])) good' idle' with ⟨is, all⟩ | ⟨⟨other, member, is⟩, cyclic⟩
      · refine .inl ⟨is, fun other member => ?_⟩
        rcases List.mem_cons.mp member with rfl | member
        · exact good'.ends other seen (idle' ▸ Finset.notMem_empty _)
        · exact all other member
      · exact .inr ⟨⟨other, by simp [member], is⟩, cyclic⟩
    rw [searchAll]
    by_cases seen : node ∈ marks.visited
    · rw [if_neg (not_not_intro seen)]
      exact passed marks good idle seen
    · rw [if_pos seen]
      have few : (nodes \ marks.visited).card ≤ fuel := (Finset.card_le_card Finset.sdiff_subset).trans enough
      have none_ : ∀ other ∈ marks.stack, Relation.TransGen (Follows next) other node := by simp [idle]
      rcases hasCycle_answers closed (held node (by simp)) seen good none_ few with ⟨marks', is, walked, left⟩ | ⟨⟨marks', is⟩, cyclic⟩
      · rw [is]
        exact passed marks' walked.good (walked.same.trans idle) (left node (by simp)).1
      · rw [is]
        exact .inr ⟨⟨node, by simp, rfl⟩, cyclic⟩

end Correctness

end Arki.DepthFirst
