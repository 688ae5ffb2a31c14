import Arki.Library.Forest
import Arki.Queue.FlowBuilder
import Mathlib

/-! The trees of BullMQ jobs that a built flow is submitted as, and the acknowledgement of them. -/

set_option autoImplicit false

namespace Arki.Queue

open Arki.DepthFirst

variable {Input Data Other Schema Config : Type}

abbrev StepTree (Input Data Other : Type) := Tree (FlowStep Input Data Other)

def byId (steps : List (FlowStep Input Data Other)) : InsertionMap String (FlowStep Input Data Other) :=
  .ofList (steps.map fun step => (step.id, step))

def childrenOf (steps : List (FlowStep Input Data Other)) (step : FlowStep Input Data Other) : List (FlowStep Input Data Other) :=
  step.dependencySet.filterMap (byId steps).get

def hasDependent (steps : List (FlowStep Input Data Other)) : List String := steps.flatMap FlowStep.dependencies

def roots (steps : List (FlowStep Input Data Other)) : List (FlowStep Input Data Other) :=
  steps.filter fun step => step.id ∉ hasDependent steps

/-- The flow's steps as trees, roots in declaration order. The recursion over the steps takes fuel. -/
def stepTrees (flow : FlowDefinition Input Data Other Schema Config) (fuel : Nat) : Option (List (StepTree Input Data Other)) :=
  (roots flow.steps).mapM (Tree.unfold (childrenOf flow.steps) fuel)

def jobAttempts (retry : Backoff) : Nat :=
  match retry.maxRetries with
  | some retries => retries + 1
  | none => 2 ^ 53 - 1

def defaultJobRetry : Backoff := ⟨some 2⟩

def jobRetryOptions (options : Option (JobOptions Other)) : Options Other :=
  .ofList [("attempts", .count (jobAttempts ((options.bind JobOptions.retry).getD defaultJobRetry))), ("backoff", .customBackoff)]

def jobDefaultOptions (options : Option (JobOptions Other)) : Options Other :=
  ((options.map JobOptions.bullmqOptions).getD .empty).merge (jobRetryOptions options)

def jobTraceOptions : Option String → Options Other
  | none => .empty
  | some metadata => .ofList [("telemetry", .telemetry metadata)]

inductive FlowJobNode (Data Other : Type) where
  | node (name queueName : String) (data : Data) (opts : Options Other) (children : Option (List (FlowJobNode Data Other)))

def stepOptions (trace : Option String) (step : FlowStep Input Data Other) : Options Other :=
  (((jobDefaultOptions step.job.options).merge (jobTraceOptions trace)).merge step.opts).merge (jobRetryOptions step.job.options)

mutual

def toFlowJobNode (trace : Option String) (input : Input) : StepTree Input Data Other → FlowJobNode Data Other
  | .node step [] => .node step.job.name step.job.name (step.data input) (stepOptions trace step) none
  | .node step (child :: rest) =>
    .node step.job.name step.job.name (step.data input) (stepOptions trace step)
      (some (toFlowJobNode trace input child :: toFlowJobNodes trace input rest))

def toFlowJobNodes (trace : Option String) (input : Input) : List (StepTree Input Data Other) → List (FlowJobNode Data Other)
  | [] => []
  | tree :: rest => toFlowJobNode trace input tree :: toFlowJobNodes trace input rest

end

def toFlowJobs (trace : Option String) (flow : FlowDefinition Input Data Other Schema Config) (input : Input) (fuel : Nat) :
    Option (List (FlowJobNode Data Other)) := (stepTrees flow fuel).map (toFlowJobNodes trace input)

structure AcknowledgedJob where
  id : Option String
  name : Option String
  queueName : Option String

inductive Nodes (Node : Type) where
  | undefined
  | other
  | array (nodes : List Node)

/-- A node of an acknowledgement; one without a job is all the same to the reader. -/
inductive JobNode where
  | missing
  | node (job : AcknowledgedJob) (children : Nodes JobNode)

/-- `node.children`, where no children are none. -/
def Nodes.orEmpty {Node : Type} : Nodes Node → Nodes Node
  | .undefined => .array []
  | nodes => nodes

mutual

def collectJobIds : List (StepTree Input Data Other) → Nodes JobNode → InsertionMap String String → Option (InsertionMap String String)
  | trees, .array nodes, into => if nodes.length ≠ trees.length then none else collectEach trees nodes into
  | _, _, _ => none

def collectEach : List (StepTree Input Data Other) → List JobNode → InsertionMap String String → Option (InsertionMap String String)
  | [], _, into => some into
  | _ :: _, [], _ => none
  | tree :: trees, node :: nodes, into =>
    match collectNode tree node into with
    | none => none
    | some into => collectEach trees nodes into

def collectNode : StepTree Input Data Other → JobNode → InsertionMap String String → Option (InsertionMap String String)
  | .node _ _, .missing, _ => none
  | .node step children, .node job below, into =>
    match job.id with
    | none => none
    | some id =>
      if id = "" then none
      else if job.name ≠ some step.job.name ∨ job.queueName ≠ some step.job.name then none
      else collectJobIds children below.orEmpty (into.set step.id id)

end

section Places

inductive Stands : List (StepTree Input Data Other) → List JobNode → FlowStep Input Data Other → AcknowledgedJob → Prop where
  | here {trees : List (StepTree Input Data Other)} {nodes : List JobNode} {step : FlowStep Input Data Other}
      {children : List (StepTree Input Data Other)} {job : AcknowledgedJob} {below : Nodes JobNode} (index : Nat)
      (tree : trees[index]? = some (.node step children)) (node : nodes[index]? = some (.node job below)) : Stands trees nodes step job
  | under {trees : List (StepTree Input Data Other)} {nodes : List JobNode} {dependent : FlowStep Input Data Other}
      {children : List (StepTree Input Data Other)} {first : AcknowledgedJob} {below : Nodes JobNode} {list : List JobNode}
      {step : FlowStep Input Data Other} {job : AcknowledgedJob} (index : Nat) (tree : trees[index]? = some (.node dependent children))
      (node : nodes[index]? = some (.node first below)) (nodes_ : below.orEmpty = .array list) (stands : Stands children list step job) :
      Stands trees nodes step job

variable {step : FlowStep Input Data Other} {job : AcknowledgedJob}

theorem stands_cons {tree : StepTree Input Data Other} {trees : List (StepTree Input Data Other)} {node : JobNode} {nodes : List JobNode} :
    Stands (tree :: trees) (node :: nodes) step job ↔ Stands [tree] [node] step job ∨ Stands trees nodes step job := by
  have single : ∀ {α : Type} {index : Nat} {value found : α} {rest : List α}, (value :: rest)[index]? = some found →
      (index = 0 ∧ value = found) ∨ ∃ less, index = less + 1 ∧ rest[less]? = some found := by
    intro α index value found rest is
    cases index with
    | zero => exact .inl ⟨rfl, Option.some.inj is⟩
    | succ less => exact .inr ⟨less, rfl, is⟩
  constructor
  · rintro (⟨index, at_, at'⟩ | ⟨index, at_, at', list, below⟩)
    · rcases single at_ with ⟨rfl, rfl⟩ | ⟨less, rfl, is⟩
      · exact .inl (.here 0 rfl at')
      · exact .inr (.here less is at')
    · rcases single at_ with ⟨rfl, rfl⟩ | ⟨less, rfl, is⟩
      · exact .inl (.under 0 rfl at' list below)
      · exact .inr (.under less is at' list below)
  · rintro (stands | stands)
    · rcases stands with ⟨index, at_, at'⟩ | ⟨index, at_, at', list, below⟩
      · rcases single at_ with ⟨rfl, rfl⟩ | ⟨less, rfl, is⟩
        · exact .here 0 rfl at'
        · cases is
      · rcases single at_ with ⟨rfl, rfl⟩ | ⟨less, rfl, is⟩
        · exact .under 0 rfl at' list below
        · cases is
    · rcases stands with ⟨index, at_, at'⟩ | ⟨index, at_, at', list, below⟩
      · exact .here (index + 1) at_ at'
      · exact .under (index + 1) at_ at' list below

theorem stands_node {over_ : FlowStep Input Data Other} {children : List (StepTree Input Data Other)} {first : AcknowledgedJob}
    {below : Nodes JobNode} :
    Stands [.node over_ children] [.node first below] step job ↔
      (step = over_ ∧ job = first) ∨ ∃ list, below.orEmpty = .array list ∧ Stands children list step job := by
  constructor
  · rintro (⟨index, at_, at'⟩ | ⟨index, at_, at', list, stands⟩)
    · cases index with
      | zero => cases at_; cases at'; exact .inl ⟨rfl, rfl⟩
      | succ => cases at_
    · cases index with
      | zero => cases at_; cases at'; exact .inr ⟨_, list, stands⟩
      | succ => cases at_
  · rintro (⟨rfl, rfl⟩ | ⟨list, is, stands⟩)
    · exact .here 0 rfl rfl
    · exact .under 0 rfl rfl is stands

end Places

section Acknowledgement

/-- What was collected: the ids noted before, and one for every step of the trees, that of the job at its place. -/
structure Collected (trees : List (StepTree Input Data Other)) (nodes : List JobNode) (before ids : InsertionMap String String) : Prop where
  keys : ids.keys = before.keys ++ (Tree.flattenAll trees).map FlowStep.id
  keeps : ∀ key ∈ before.keys, ids.get key = before.get key
  every : ∀ step ∈ Tree.flattenAll trees, ∃ job, Stands trees nodes step job
  own : ∀ step job, Stands trees nodes step job → step ∈ Tree.flattenAll trees ∧ job.id = ids.get step.id ∧ job.id ≠ none

def Fresh (ids : List String) (before : InsertionMap String String) : Prop := ids.Nodup ∧ ∀ id ∈ ids, id ∉ before.keys

mutual

theorem collectJobIds_collected {before ids : InsertionMap String String} :
    ∀ {trees : List (StepTree Input Data Other)} {nodes : Nodes JobNode}, Fresh ((Tree.flattenAll trees).map FlowStep.id) before →
      collectJobIds trees nodes before = some ids → ∃ list, nodes = .array list ∧ Collected trees list before ids
  | trees, .array list, fresh, is => by
    rw [collectJobIds] at is
    by_cases short : list.length ≠ trees.length
    · rw [if_pos short] at is
      cases is
    · rw [if_neg short] at is
      exact ⟨list, rfl, collectEach_collected fresh (not_not.mp short) is⟩
  | _, .undefined, _, is => by
    rw [collectJobIds] at is
    · cases is
    · nofun
  | _, .other, _, is => by
    rw [collectJobIds] at is
    · cases is
    · nofun

theorem collectEach_collected {before ids : InsertionMap String String} :
    ∀ {trees : List (StepTree Input Data Other)} {nodes : List JobNode}, Fresh ((Tree.flattenAll trees).map FlowStep.id) before →
      nodes.length = trees.length → collectEach trees nodes before = some ids → Collected trees nodes before ids
  | [], nodes, _, _, is => by
    rw [collectEach] at is
    obtain rfl : before = ids := Option.some.inj is
    refine ⟨by simp [Tree.flattenAll], fun _ _ => rfl, by simp [Tree.flattenAll], ?_⟩
    rintro step job (⟨_, at_, -⟩ | ⟨_, at_, -, -, -⟩) <;> cases at_
  | _ :: _, [], _, same, _ => by cases same
  | tree :: trees, node :: nodes, fresh, same, is => by
    rw [Tree.flattenAll, List.map_append] at fresh
    rw [collectEach] at is
    cases found : collectNode tree node before with
    | none =>
      rw [found] at is
      cases is
    | some middle =>
      rw [found] at is
      have first := collectNode_collected ⟨(List.nodup_append.mp fresh.1).1, fun id held => fresh.2 id (by simp [held])⟩ found
      have rest : Collected trees nodes middle ids := by
        refine collectEach_collected ⟨(List.nodup_append.mp fresh.1).2.1, fun id held => ?_⟩ (Nat.succ.inj same) is
        rw [first.keys]
        simp only [Tree.flattenAll, List.append_nil, List.mem_append, not_or]
        exact ⟨fresh.2 id (by simp [held]), fun there => (List.nodup_append.mp fresh.1).2.2 id there id held rfl⟩
      refine ⟨?_, fun key held => ?_, fun step held => ?_, fun step job stands => ?_⟩
      · rw [rest.keys, first.keys]
        simp [Tree.flattenAll]
      · rw [rest.keeps key (by rw [first.keys]; simp [held]), first.keeps key held]
      · rw [Tree.flattenAll, List.mem_append] at held
        rcases held with held | held
        · obtain ⟨job, stands⟩ := first.every step (by simpa [Tree.flattenAll] using held)
          exact ⟨job, stands_cons.mpr (.inl stands)⟩
        · obtain ⟨job, stands⟩ := rest.every step held
          exact ⟨job, stands_cons.mpr (.inr stands)⟩
      · rw [Tree.flattenAll, List.mem_append]
        rcases stands_cons.mp stands with stands | stands
        · obtain ⟨held, is, some_⟩ := first.own step job stands
          have held' : step ∈ tree.flatten := by simpa [Tree.flattenAll] using held
          refine ⟨.inl held', ?_, some_⟩
          rw [rest.keeps step.id (by rw [first.keys]; exact List.mem_append_right _ (List.mem_map_of_mem held)), is]
        · obtain ⟨held, is, some_⟩ := rest.own step job stands
          exact ⟨.inr held, is, some_⟩

theorem collectNode_collected {before ids : InsertionMap String String} :
    ∀ {tree : StepTree Input Data Other} {node : JobNode}, Fresh (tree.flatten.map FlowStep.id) before →
      collectNode tree node before = some ids → Collected [tree] [node] before ids
  | .node _ _, .missing, _, is => by
    rw [collectNode] at is
    cases is
  | .node step children, .node job below, fresh, is => by
    rw [collectNode] at is
    cases found : job.id with
    | none =>
      rw [found] at is
      cases is
    | some id =>
      simp only [found] at is
      split at is
      · cases is
      split at is
      · cases is
      rw [Tree.flatten, List.map_cons] at fresh
      have new : step.id ∉ before.keys := fresh.2 step.id (by simp)
      have once := List.nodup_cons.mp fresh.1
      have later : Fresh ((Tree.flattenAll children).map FlowStep.id) (before.set step.id id) := by
        refine ⟨once.2, fun other held => ?_⟩
        rw [InsertionMap.mem_keys_set, not_or]
        exact ⟨fun same => once.1 (same ▸ held), fresh.2 other (by simp [held])⟩
      obtain ⟨list, nodes, under⟩ := collectJobIds_collected later is
      have kept : ids.get step.id = some id := by
        rw [under.keeps step.id (InsertionMap.mem_keys_set.mpr (.inl rfl)), InsertionMap.get_set, if_pos rfl]
      refine ⟨?_, fun key held => ?_, fun other held => ?_, fun other job' stands => ?_⟩
      · rw [under.keys, InsertionMap.keys_set_new new]
        simp [Tree.flattenAll, Tree.flatten]
      · have apart : key ≠ step.id := fun same => new (same ▸ held)
        rw [under.keeps key (InsertionMap.mem_keys_set.mpr (.inr held)), InsertionMap.get_set, if_neg apart]
      · simp only [Tree.flattenAll, Tree.flatten, List.append_nil, List.mem_cons] at held
        rcases held with rfl | held
        · exact ⟨job, stands_node.mpr (.inl ⟨rfl, rfl⟩)⟩
        · obtain ⟨job', stands⟩ := under.every other held
          exact ⟨job', stands_node.mpr (.inr ⟨list, nodes, stands⟩)⟩
      · simp only [Tree.flattenAll, Tree.flatten, List.append_nil, List.mem_cons]
        rcases stands_node.mp stands with ⟨rfl, rfl⟩ | ⟨list', nodes', stands⟩
        · exact ⟨.inl rfl, found.trans kept.symm, by simp [found]⟩
        · obtain rfl : list = list' := by rw [nodes] at nodes'; exact Nodes.array.inj nodes'
          obtain ⟨held, is, some_⟩ := under.own other job' stands
          exact ⟨.inr held, is, some_⟩

end

end Acknowledgement

end Arki.Queue
