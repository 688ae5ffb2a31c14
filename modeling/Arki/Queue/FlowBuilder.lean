import Arki.Library.DepthFirst
import Arki.Library.InsertionMap

/-! Flows of the queue: what a flow is made of and what its builder accepts. -/

set_option autoImplicit false

namespace Arki.Queue

open Arki.DepthFirst

/-- The value of a BullMQ job option. The first three kinds are written by the package. -/
inductive OptionValue (Other : Type) where
  | count (value : Nat)
  | customBackoff
  | telemetry (metadata : String)
  | other (value : Other)

abbrev Options (Other : Type) := InsertionMap String (OptionValue Other)

/-- A job's `retry`: `maxRetries` is missing where it is not finite. -/
structure Backoff where
  maxRetries : Option Nat

structure JobOptions (Other : Type) where
  bullmqOptions : Options Other
  retry : Option Backoff

structure JobDefinition (Other : Type) where
  name : String
  options : Option (JobOptions Other)

structure FlowStep (Input Data Other : Type) where
  id : String
  job : JobDefinition Other
  data : Input → Data
  opts : Options Other
  dependsOn : Option (List String)

variable {Input Data Other Schema Config : Type}

namespace FlowStep

def dependencies (step : FlowStep Input Data Other) : List String := step.dependsOn.getD []

/-- The items of `new Set(step.dependsOn)`. -/
def dependencySet (step : FlowStep Input Data Other) : List String := firsts step.dependencies

theorem mem_dependencySet {step : FlowStep Input Data Other} {id : String} : id ∈ step.dependencySet ↔ id ∈ step.dependencies := mem_firsts

end FlowStep

structure FlowBuilderState (Input Data Other Schema Config : Type) where
  config : Config
  name : String
  inputSchema : Option Schema
  steps : List (FlowStep Input Data Other)

structure FlowDefinition (Input Data Other Schema Config : Type) where
  name : String
  inputSchema : Schema
  steps : List (FlowStep Input Data Other)
  config : Config

structure QueueDefinitionError where
  code : String
  message : String
  remediation : String
  deriving DecidableEq

def missingInput : QueueDefinitionError :=
  ⟨"ARKI_QUEUE_E007", "Input schema is required. Call .input() first.", "Add .input(schema) right after q.flow.name(...)."⟩

def missingSteps : QueueDefinitionError :=
  ⟨"ARKI_QUEUE_E008", "At least one step is required. Call .step() before .build().",
    "Add at least one .step(id, \x7b job, data \x7d) before .build()."⟩

def unknownStepDependency (step dependency : String) (stepIds : List String) : QueueDefinitionError :=
  ⟨"ARKI_QUEUE_E009",
    "Step \"" ++ step ++ "\" depends on \"" ++ dependency ++ "\", but no step with that ID exists. Available step IDs: " ++
      String.intercalate ", " stepIds,
    "Fix the id in dependsOn, or add the missing .step() to the flow."⟩

def circularStepDependency (step : String) : QueueDefinitionError :=
  ⟨"ARKI_QUEUE_E010", "Circular dependency detected in flow steps starting from step \"" ++ step ++ "\"",
    "Remove one dependsOn entry so the steps form a chain with no loop."⟩

def stepWithManyDependents (dependency other step : String) : QueueDefinitionError :=
  ⟨"ARKI_QUEUE_E017",
    "Step \"" ++ dependency ++ "\" is in the dependsOn of both \"" ++ other ++ "\" and \"" ++ step ++
      "\". A flow is a BullMQ tree: each step can be waited on by at most one other step.",
    "Chain the steps instead (make \"" ++ step ++ "\" depend on \"" ++ other ++ "\" rather than on \"" ++ dependency ++
      "\"), or split them into two flows."⟩

/-- The loop of `validateFlowDependencies`. -/
def checkDeclared (stepIds : List String) : List (FlowStep Input Data Other) → Except QueueDefinitionError Unit
  | [] => .ok ()
  | step :: rest =>
    match step.dependencies.find? (· ∉ stepIds) with
    | some dependency => .error (unknownStepDependency step.id dependency stepIds)
    | none => checkDeclared stepIds rest

def graph (steps : List (FlowStep Input Data Other)) : InsertionMap String (List String) :=
  .ofList (steps.map fun step => (step.id, step.dependencySet))

def after (steps : List (FlowStep Input Data Other)) (id : String) : List String := ((graph steps).get id).getD []

/-- Fuel for every step; that it is enough is `validateFlowDependencies_ends`. -/
def detectCircularDependencies (steps : List (FlowStep Input Data Other)) : Option (Except QueueDefinitionError Unit) :=
  (searchAll (after steps) steps.length (steps.map FlowStep.id) ⟨∅, ∅⟩).map fun found =>
    match found with
    | some id => .error (circularStepDependency id)
    | none => .ok ()

def noteDependents (id : String) : List String → InsertionMap String String → Except QueueDefinitionError (InsertionMap String String)
  | [], dependentOf => .ok dependentOf
  | dependency :: rest, dependentOf =>
    match dependentOf.get dependency with
    | some other => .error (stepWithManyDependents dependency other id)
    | none => noteDependents id rest (dependentOf.set dependency id)

def rejectFanOut : List (FlowStep Input Data Other) → InsertionMap String String → Except QueueDefinitionError Unit
  | [], _ => .ok ()
  | step :: rest, dependentOf =>
    match noteDependents step.id step.dependencySet dependentOf with
    | .error error => .error error
    | .ok dependentOf => rejectFanOut rest dependentOf

def validateFlowDependencies (steps : List (FlowStep Input Data Other)) : Option (Except QueueDefinitionError Unit) :=
  match checkDeclared (firsts (steps.map FlowStep.id)) steps with
  | .error error => some (.error error)
  | .ok () =>
    match detectCircularDependencies steps with
    | none => none
    | some (.error error) => some (.error error)
    | some (.ok ()) => some (rejectFanOut steps .empty)

def build (state : FlowBuilderState Input Data Other Schema Config) :
    Option (Except QueueDefinitionError (FlowDefinition Input Data Other Schema Config)) :=
  match state.inputSchema with
  | none => some (.error missingInput)
  | some schema =>
    if state.steps = [] then some (.error missingSteps)
    else (validateFlowDependencies state.steps).map fun checked => checked.map fun _ => ⟨state.name, schema, state.steps, state.config⟩

section Checks

variable {steps : List (FlowStep Input Data Other)}

def Declared (steps : List (FlowStep Input Data Other)) : Prop :=
  ∀ step ∈ steps, ∀ dependency ∈ step.dependencies, dependency ∈ steps.map FlowStep.id

theorem checkDeclared_ok {stepIds : List String} :
    checkDeclared stepIds steps = .ok () ↔ ∀ step ∈ steps, ∀ dependency ∈ step.dependencies, dependency ∈ stepIds := by
  induction steps with
  | nil => simp [checkDeclared]
  | cons step rest ih =>
    rw [checkDeclared, List.forall_mem_cons, ← ih]
    cases found : step.dependencies.find? (· ∉ stepIds) with
    | none =>
      rw [List.find?_eq_none] at found
      exact (and_iff_right fun dependency held => by simpa using found dependency held).symm
    | some dependency =>
      have bad := List.find?_some found
      have held := List.mem_of_find?_eq_some found
      refine ⟨nofun, fun both => absurd (both.1 dependency held) (by simpa using bad)⟩

theorem noteDependents_ok (id : String) {dependencies : List String} (dependentOf : InsertionMap String String) (once : dependencies.Nodup) :
    (∃ dependentOf', noteDependents id dependencies dependentOf = .ok dependentOf' ∧
        (∀ key, key ∈ dependentOf'.keys ↔ key ∈ dependentOf.keys ∨ key ∈ dependencies) ∧ ∀ dependency ∈ dependencies, dependency ∉ dependentOf.keys) ∨
      (∃ error, noteDependents id dependencies dependentOf = .error error) ∧ ∃ dependency ∈ dependencies, dependency ∈ dependentOf.keys := by
  induction dependencies generalizing dependentOf with
  | nil => exact .inl ⟨dependentOf, rfl, by simp, by simp⟩
  | cons dependency rest ih =>
    rw [List.nodup_cons] at once
    rw [noteDependents]
    cases found : dependentOf.get dependency with
    | some other =>
      have there : dependency ∈ dependentOf.keys := InsertionMap.mem_keys.mpr ⟨other, InsertionMap.get_eq_some.mp found⟩
      exact .inr ⟨⟨_, rfl⟩, dependency, by simp, there⟩
    | none =>
      have new := InsertionMap.get_eq_none.mp found
      rcases ih (dependentOf.set dependency id) once.2 with ⟨noted, is, keys, free⟩ | ⟨⟨error, is⟩, bad, held, there⟩
      · refine .inl ⟨noted, is, fun key => ?_, ?_⟩
        · rw [keys, InsertionMap.mem_keys_set, List.mem_cons]
          tauto
        · intro key held
          rcases List.mem_cons.mp held with rfl | held
          · exact new
          · exact fun there => free key held (InsertionMap.mem_keys_set.mpr (.inr there))
      · refine .inr ⟨⟨error, is⟩, bad, by simp [held], ?_⟩
        rcases InsertionMap.mem_keys_set.mp there with rfl | there
        · exact absurd held once.1
        · exact there

/-- Fan-out is refused exactly when two steps of the list name one dependency. -/
theorem rejectFanOut_ok {dependentOf : InsertionMap String String} :
    rejectFanOut steps dependentOf = .ok () ↔
      (steps.flatMap FlowStep.dependencySet).Nodup ∧ ∀ dependency ∈ steps.flatMap FlowStep.dependencySet, dependency ∉ dependentOf.keys := by
  induction steps generalizing dependentOf with
  | nil => simp [rejectFanOut]
  | cons step rest ih =>
    have once : step.dependencySet.Nodup := firsts_nodup _
    rw [rejectFanOut, List.flatMap_cons, List.nodup_append]
    rcases noteDependents_ok step.id dependentOf once with ⟨noted, is, keys, free⟩ | ⟨⟨error, is⟩, bad, held, there⟩
    · rw [is]
      simp only
      rw [ih]
      constructor
      · rintro ⟨nodup, out⟩
        refine ⟨⟨once, nodup, fun left at_ right at' same => ?_⟩, fun dependency at_ there => ?_⟩
        · exact out right at' ((keys right).mpr (.inr (same ▸ at_)))
        · rcases List.mem_append.mp at_ with at_ | at_
          · exact free dependency at_ there
          · exact out dependency at_ ((keys dependency).mpr (.inl there))
      · rintro ⟨⟨-, nodup, apart⟩, out⟩
        refine ⟨nodup, fun dependency at_ there => ?_⟩
        rcases (keys dependency).mp there with there | there
        · exact out dependency (List.mem_append_right _ at_) there
        · exact apart dependency there dependency at_ rfl
    · rw [is]
      exact ⟨nofun, fun both => absurd there (both.2 bad (List.mem_append_left _ held))⟩

theorem after_declared (declared : Declared steps) {id dependency : String} (held : dependency ∈ after steps id) :
    dependency ∈ steps.map FlowStep.id := by
  rw [after] at held
  cases found : (graph steps).get id with
  | none => simp [found] at held
  | some dependencies =>
    rw [found, Option.getD_some] at held
    obtain ⟨step, member, same⟩ := List.mem_map.mp (InsertionMap.mem_ofList found)
    obtain ⟨-, rfl⟩ := Prod.mk.inj same
    exact declared step member dependency (FlowStep.mem_dependencySet.mp held)

theorem detectCircularDependencies_ends (declared : Declared steps) :
    (detectCircularDependencies steps = some (.ok ()) ∧ ∀ step ∈ steps, Ends (after steps) step.id) ∨
      (∃ error, detectCircularDependencies steps = some (.error error)) ∧ Cyclic (after steps) := by
  have enough : (steps.map FlowStep.id).toFinset.card ≤ steps.length := by
    simpa using List.toFinset_card_le (steps.map FlowStep.id)
  have closed : ∀ id ∈ (steps.map FlowStep.id).toFinset, ∀ other ∈ after steps id, other ∈ (steps.map FlowStep.id).toFinset :=
    fun _ _ _ held => List.mem_toFinset.mpr (after_declared declared held)
  have inside : ∀ id ∈ steps.map FlowStep.id, id ∈ (steps.map FlowStep.id).toFinset := fun _ held => List.mem_toFinset.mpr held
  have unmarked : (⟨∅, ∅⟩ : Marks String).Good (after steps) := ⟨by simp, by simp⟩
  have answers := searchAll_answers closed enough inside unmarked rfl
  rw [detectCircularDependencies]
  rcases answers with ⟨is, ends⟩ | ⟨⟨id, -, is⟩, cyclic⟩
  · rw [is]
    exact .inl ⟨rfl, fun step held => ends step.id (List.mem_map_of_mem held)⟩
  · rw [is]
    exact .inr ⟨⟨_, rfl⟩, cyclic⟩

theorem not_cyclic_of_ends (ends : ∀ step ∈ steps, Ends (after steps) step.id) : ¬ Cyclic (after steps) := by
  rintro ⟨id, around⟩
  obtain ⟨next, first, -⟩ := Relation.TransGen.head'_iff.mp around
  have held : next ∈ after steps id := first
  rw [after] at held
  cases found : (graph steps).get id with
  | none => simp [found] at held
  | some dependencies =>
    obtain ⟨step, member, same⟩ := List.mem_map.mp (InsertionMap.mem_ofList found)
    obtain ⟨rfl, -⟩ := Prod.mk.inj same
    exact (ends step member).not_returns around

structure PassesChecks (steps : List (FlowStep Input Data Other)) : Prop where
  declared : Declared steps
  acyclic : ¬ Cyclic (after steps)
  single : (steps.flatMap FlowStep.dependencySet).Nodup

theorem validateFlowDependencies_ends (steps : List (FlowStep Input Data Other)) :
    ∃ checked, validateFlowDependencies steps = some checked ∧ (checked = .ok () ↔ PassesChecks steps) := by
  have declares : checkDeclared (firsts (steps.map FlowStep.id)) steps = .ok () ↔ Declared steps := by
    rw [checkDeclared_ok]
    simp only [mem_firsts, Declared]
  rw [validateFlowDependencies]
  cases checked : checkDeclared (firsts (steps.map FlowStep.id)) steps with
  | error error =>
    refine ⟨.error error, rfl, nofun, fun passes => ?_⟩
    rw [declares.mpr passes.declared] at checked
    cases checked
  | ok _ =>
    have declared := declares.mp checked
    rcases detectCircularDependencies_ends declared with ⟨is, ends⟩ | ⟨⟨error, is⟩, cyclic⟩
    · rw [is]
      refine ⟨rejectFanOut steps .empty, rfl, ?_⟩
      rw [rejectFanOut_ok]
      have none_ : ∀ dependency : String, dependency ∉ (InsertionMap.empty : InsertionMap String String).keys := by
        simp [InsertionMap.keys, InsertionMap.empty]
      exact ⟨fun both => ⟨declared, not_cyclic_of_ends ends, both.1⟩, fun passes => ⟨passes.single, fun dependency _ => none_ dependency⟩⟩
    · rw [is]
      exact ⟨.error error, rfl, nofun, fun passes => absurd cyclic passes.acyclic⟩

end Checks

/-- `build` always answers, and accepts exactly the lists with a step that pass the checks. -/
theorem build_ends (state : FlowBuilderState Input Data Other Schema Config) {schema : Schema} (given : state.inputSchema = some schema) :
    ∃ built, build state = some built ∧ ((∃ flow, built = .ok flow) ↔ state.steps ≠ [] ∧ PassesChecks state.steps) ∧
      ∀ flow, built = .ok flow → flow = ⟨state.name, schema, state.steps, state.config⟩ := by
  rw [build, given]
  by_cases empty : state.steps = []
  · simp only [empty, if_true]
    exact ⟨.error missingSteps, rfl, ⟨nofun, fun both => absurd rfl both.1⟩, nofun⟩
  · obtain ⟨checked, is, passes⟩ := validateFlowDependencies_ends state.steps
    simp only [empty, if_false, is, Option.map_some]
    cases checked with
    | error error => exact ⟨_, rfl, ⟨nofun, fun both => nomatch passes.mpr both.2⟩, nofun⟩
    | ok _ => exact ⟨_, rfl, ⟨fun _ => ⟨empty, passes.mp rfl⟩, fun _ => ⟨_, rfl⟩⟩, fun flow same => (Except.ok.inj same).symm⟩

end Arki.Queue
