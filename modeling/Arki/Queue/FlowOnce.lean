import Mathlib.Data.List.Pairwise
import Arki.Queue.FlowJobs

/-! Every step of an accepted flow stands once in its trees, after its dependencies. -/

set_option autoImplicit false

namespace Arki.Queue

open Arki.DepthFirst

variable {Input Data Other Schema Config : Type}

def DependsOn (steps : List (FlowStep Input Data Other)) (id other : String) : Prop :=
  ∃ step ∈ steps, step.id = id ∧ other ∈ step.dependencies

structure WellFormed (steps : List (FlowStep Input Data Other)) : Prop where
  distinct : (steps.map FlowStep.id).Nodup
  declared : Declared steps
  acyclic : ¬ ∃ id, Relation.TransGen (DependsOn steps) id id
  single : ∀ step ∈ steps, ∀ other ∈ steps, ∀ id, id ∈ step.dependencies → id ∈ other.dependencies → step.id = other.id

/-- Trees that hold every step exactly once, the children of a step being the steps it depends on. -/
structure Placed (steps : List (FlowStep Input Data Other)) (trees : List (StepTree Input Data Other)) : Prop where
  once : (Tree.flattenAll trees).Perm steps
  children : Tree.FollowAll (childrenOf steps) trees
  dependencies : ∀ step ∈ steps, (childrenOf steps step).map FlowStep.id = step.dependencySet ∧ ∀ child ∈ childrenOf steps step, child ∈ steps

/-- An accepted acknowledgement gave every step one id, that of the job at its place. -/
structure Acknowledged (steps : List (FlowStep Input Data Other)) (trees : List (StepTree Input Data Other)) (nodes : Nodes JobNode)
    (ids : InsertionMap String String) : Prop where
  keys : ids.keys.Perm (steps.map FlowStep.id)
  own : ∃ list, nodes = .array list ∧ (∀ step ∈ steps, ∃ job, Stands trees list step job) ∧
    ∀ step job, Stands trees list step job → job.id = ids.get step.id ∧ job.id ≠ none

/-- What a flow of these steps promises: `build` accepts them exactly when they are well formed, and what it accepts runs every step once. -/
structure RunsOnce (state : FlowBuilderState Input Data Other Schema Config) : Prop where
  accepts : (∃ flow, build state = some (.ok flow)) ↔ WellFormed state.steps
  runs : ∀ flow, build state = some (.ok flow) →
    ∃ trees, (∃ fuel, ∀ more, fuel ≤ more → stepTrees flow more = some trees ∧
        ∀ trace input, toFlowJobs trace flow input more = some (toFlowJobNodes trace input trees)) ∧
      Placed state.steps trees ∧ ∀ nodes ids, collectJobIds trees nodes .empty = some ids → Acknowledged state.steps trees nodes ids

section Distinct

variable {steps : List (FlowStep Input Data Other)} (distinct : (steps.map FlowStep.id).Nodup)

include distinct

theorem after_eq {step : FlowStep Input Data Other} (held : step ∈ steps) : after steps step.id = step.dependencySet := by
  have keys : ((steps.map fun step => (step.id, step.dependencySet)).map Prod.fst).Nodup := by simpa [Function.comp_def] using distinct
  have found : (graph steps).get step.id = some step.dependencySet :=
    (InsertionMap.get_ofList keys).mpr (List.mem_map.mpr ⟨step, held, rfl⟩)
  rw [after, found, Option.getD_some]

theorem follows_iff {id other : String} : Follows (after steps) id other ↔ DependsOn steps id other := by
  constructor
  · intro follows
    have held : other ∈ after steps id := follows
    cases found : (graph steps).get id with
    | none => simp [after, found] at held
    | some dependencies =>
      obtain ⟨step, member, same⟩ := List.mem_map.mp (InsertionMap.mem_ofList found)
      obtain ⟨rfl, -⟩ := Prod.mk.inj same
      rw [after_eq distinct member, FlowStep.mem_dependencySet] at held
      exact ⟨step, member, rfl, held⟩
  · rintro ⟨step, member, rfl, held⟩
    change other ∈ after steps step.id
    rw [after_eq distinct member]
    exact FlowStep.mem_dependencySet.mpr held

theorem byId_get {id : String} {step : FlowStep Input Data Other} : (byId steps).get id = some step ↔ step ∈ steps ∧ step.id = id := by
  have keys : ((steps.map fun step => (step.id, step)).map Prod.fst).Nodup := by simpa [Function.comp_def] using distinct
  rw [byId, InsertionMap.get_ofList keys, List.mem_map]
  constructor
  · rintro ⟨found, member, same⟩
    obtain ⟨rfl, rfl⟩ := Prod.mk.inj same
    exact ⟨member, rfl⟩
  · rintro ⟨member, rfl⟩
    exact ⟨step, member, rfl⟩

theorem same_step {step other : FlowStep Input Data Other} (held : step ∈ steps) (held' : other ∈ steps) (same : step.id = other.id) :
    step = other := List.inj_on_of_nodup_map distinct held held' same

theorem mem_childrenOf {step child : FlowStep Input Data Other} :
    child ∈ childrenOf steps step ↔ child ∈ steps ∧ child.id ∈ step.dependencies := by
  rw [childrenOf, List.mem_filterMap]
  constructor
  · rintro ⟨id, held, found⟩
    obtain ⟨member, rfl⟩ := (byId_get distinct).mp found
    exact ⟨member, FlowStep.mem_dependencySet.mp held⟩
  · rintro ⟨member, held⟩
    exact ⟨child.id, FlowStep.mem_dependencySet.mpr held, (byId_get distinct).mpr ⟨member, rfl⟩⟩

theorem map_childrenOf (declared : Declared steps) {step : FlowStep Input Data Other} (held : step ∈ steps) :
    (childrenOf steps step).map FlowStep.id = step.dependencySet := by
  have every : ∀ id ∈ step.dependencySet, ((byId steps).get id).map FlowStep.id = some id := by
    intro id at_
    obtain ⟨child, member, rfl⟩ := List.mem_map.mp (declared step held id (FlowStep.mem_dependencySet.mp at_))
    rw [(byId_get distinct).mpr ⟨member, rfl⟩]
    rfl
  rw [childrenOf, List.map_filterMap]
  exact (List.filterMap_congr every).trans List.filterMap_some

theorem wellFormed_iff : WellFormed steps ↔ PassesChecks steps := by
  have relation : Follows (after steps) = DependsOn steps := by
    funext id other
    exact propext (follows_iff distinct)
  constructor
  · intro formed
    refine ⟨formed.declared, fun ⟨id, around⟩ => formed.acyclic ⟨id, relation ▸ around⟩, ?_⟩
    refine List.nodup_flatMap.mpr ⟨fun step _ => firsts_nodup _, ?_⟩
    refine (List.Nodup.of_map _ distinct).pairwise_of_forall_ne fun step held other held' apart id at_ at' => ?_
    exact apart (same_step distinct held held'
      (formed.single step held other held' id (FlowStep.mem_dependencySet.mp at_) (FlowStep.mem_dependencySet.mp at')))
  · intro passes
    refine ⟨distinct, passes.declared, fun ⟨id, around⟩ => passes.acyclic ⟨id, relation ▸ around⟩, fun step held other held' id at_ at' => ?_⟩
    by_contra apart
    have symmetric : Std.Symm (Function.onFun List.Disjoint (@FlowStep.dependencySet Input Data Other)) :=
      ⟨fun _ _ => List.Disjoint.symm⟩
    have disjoint := (List.nodup_flatMap.mp passes.single).2.forall held held' (fun same => apart (same ▸ rfl))
    exact disjoint (FlowStep.mem_dependencySet.mpr at_) (FlowStep.mem_dependencySet.mpr at')

theorem children_end {step : FlowStep Input Data Other} (held : step ∈ steps) (ends : Ends (after steps) step.id) :
    Acc (fun child step => child ∈ childrenOf steps step) step := by
  generalize is : step.id = id at ends
  induction ends generalizing step with
  | intro id _ ih =>
    subst is
    refine ⟨step, fun child at_ => ?_⟩
    obtain ⟨member, dependency⟩ := (mem_childrenOf distinct).mp at_
    exact ih child.id ((follows_iff distinct).mpr ⟨step, held, rfl, dependency⟩) member rfl

theorem steps_wooded (formed : WellFormed steps) : Tree.Wooded steps (childrenOf steps) where
  closed _ _ _ at_ := ((mem_childrenOf distinct).mp at_).1
  distinct step held := by
    refine List.Nodup.of_map FlowStep.id ?_
    rw [map_childrenOf distinct formed.declared held]
    exact firsts_nodup _
  single step held other held' child at_ at' :=
    same_step distinct held held' (formed.single step held other held' child.id ((mem_childrenOf distinct).mp at_).2 ((mem_childrenOf distinct).mp at').2)
  ends step held := by
    rcases detectCircularDependencies_ends formed.declared with ⟨-, ends⟩ | ⟨-, cyclic⟩
    · exact children_end distinct held (ends step held)
    · exact absurd cyclic ((wellFormed_iff distinct).mp formed).acyclic

theorem mem_roots (step : FlowStep Input Data Other) : step ∈ roots steps ↔ step ∈ steps ∧ ∀ other ∈ steps, step ∉ childrenOf steps other := by
  rw [roots, List.mem_filter, decide_eq_true_iff, hasDependent, List.mem_flatMap]
  refine and_congr_right fun held => ?_
  push Not
  refine forall₂_congr fun other member => not_congr ?_
  rw [mem_childrenOf distinct, and_iff_right held]

theorem formed_runs_once (formed : WellFormed steps) (name : String) (config : Config) (schema : Schema) :
    ∃ trees, (∃ fuel, ∀ more, fuel ≤ more → stepTrees ⟨name, schema, steps, config⟩ more = some trees ∧
        ∀ trace input, toFlowJobs trace ⟨name, schema, steps, config⟩ input more = some (toFlowJobNodes trace input trees)) ∧
      Placed steps trees ∧ ∀ nodes ids, collectJobIds trees nodes .empty = some ids → Acknowledged steps trees nodes ids := by
  have once : steps.Nodup := List.Nodup.of_map _ distinct
  obtain ⟨trees, ⟨fuel, unfolds⟩, -, follows, places⟩ :=
    Tree.forest (steps_wooded distinct formed) once (once.filter _) (mem_roots distinct)
  refine ⟨trees, ⟨fuel, fun more enough => ⟨unfolds more enough, fun trace input => ?_⟩⟩, ⟨places, follows, fun step held => ?_⟩, ?_⟩
  · exact congrArg (Option.map (toFlowJobNodes trace input)) (unfolds more enough)
  · exact ⟨map_childrenOf distinct formed.declared held, fun child at_ => ((mem_childrenOf distinct).mp at_).1⟩
  · intro nodes ids collected
    have fresh : Fresh ((Tree.flattenAll trees).map FlowStep.id) .empty :=
      ⟨(places.map FlowStep.id).nodup_iff.mpr distinct, fun id _ => by simp [InsertionMap.empty, InsertionMap.keys]⟩
    obtain ⟨list, is, noted⟩ := collectJobIds_collected fresh collected
    refine ⟨?_, list, is, fun step held => noted.every step (places.mem_iff.mpr held), fun step job stands => (noted.own step job stands).2⟩
    rw [noted.keys]
    simpa [InsertionMap.empty, InsertionMap.keys] using places.map FlowStep.id

end Distinct

/-- A flow keeps its promise exactly when it has a step and its ids differ, or another check refuses it. -/
theorem flow_runs_once (name : String) (config : Config) (schema : Schema) (steps : List (FlowStep Input Data Other)) :
    RunsOnce (⟨config, name, some schema, steps⟩ : FlowBuilderState Input Data Other Schema Config) ↔
      steps ≠ [] ∧ ((steps.map FlowStep.id).Nodup ∨ ¬ PassesChecks steps) := by
  obtain ⟨built, is, accepts, same⟩ := build_ends (⟨config, name, some schema, steps⟩ : FlowBuilderState Input Data Other Schema Config) rfl
  have isOk : (∃ flow, build ⟨config, name, some schema, steps⟩ = some (.ok flow)) ↔ steps ≠ [] ∧ PassesChecks steps := by
    rw [is, ← accepts]
    simp
  constructor
  · intro promise
    have formed := isOk.symm.trans promise.accepts
    have some_ : steps ≠ [] := by
      rintro rfl
      refine (formed.mpr ⟨by simp, by simp [Declared], ?_, by simp⟩).1 rfl
      rintro ⟨id, around⟩
      obtain ⟨_, ⟨step, held, -⟩, -⟩ := Relation.TransGen.head'_iff.mp around
      cases held
    by_cases passes : PassesChecks steps
    · exact ⟨some_, .inl (formed.mp ⟨some_, passes⟩).distinct⟩
    · exact ⟨some_, .inr passes⟩
  · rintro ⟨some_, either⟩
    have formed : steps ≠ [] ∧ PassesChecks steps ↔ WellFormed steps := by
      rw [and_iff_right some_]
      rcases either with distinct | refused
      · exact (wellFormed_iff distinct).symm
      · exact ⟨fun passes => absurd passes refused, fun formed => absurd ((wellFormed_iff formed.distinct).mp formed) refused⟩
    refine ⟨isOk.trans formed, fun flow accepted => ?_⟩
    have good := (isOk.trans formed).mp ⟨flow, accepted⟩
    obtain rfl := same flow (Option.some.inj (is.symm.trans accepted))
    exact formed_runs_once good.distinct good name config schema

/-- Two steps of one id are accepted. -/
theorem repeated_step :
    ¬ RunsOnce (⟨(), "flow", some (), [⟨"a", ⟨"job", none⟩, id, .empty, none⟩, ⟨"a", ⟨"job", none⟩, id, .empty, none⟩]⟩ :
      FlowBuilderState Unit Unit Unit Unit Unit) := by
  intro promise
  have accepted : ∃ flow, build (⟨(), "flow", some (), [⟨"a", ⟨"job", none⟩, id, .empty, none⟩, ⟨"a", ⟨"job", none⟩, id, .empty, none⟩]⟩ :
      FlowBuilderState Unit Unit Unit Unit Unit) = some (.ok flow) := ⟨_, rfl⟩
  have distinct := (promise.accepts.mp accepted).distinct
  exact absurd distinct (by decide)

end Arki.Queue
