import Arki.Workflow.Waits

/-! The children of a run: when the node that waits for them is over, and which of them start or stop next. -/

set_option autoImplicit false

namespace Arki.Workflow

open Arki.Journal (Value)

def Run.plannedOf (run : Run) (base : Option String) : Option Plan :=
  run.log.reverse.findSome? fun recorded => match recorded.event with
    | .childrenPlanned plan _ => if base.all (· = plan.base) then some plan else none
    | _ => none

structure Moves where
  starts : Option (Plan × List ChildPlan)
  stops : List String

def Moves.none : Moves := ⟨.none, []⟩

def RunState.isLive : RunState → Bool
  | .queued | .running | .parked => true
  | _ => false

def Plan.refOf (plan : Plan) (id : String) : DefRef :=
  ((plan.children.find? (·.id = id)).bind (·.ref)).getD plan.ref

def outputOf (env : Env) (plan : Plan) (id : String) : Except String Value :=
  let raw := ((env.kids.find? (·.id = id)).map (·.output)).getD .undefined
  match env.registry.get (plan.refOf id) with
  | some def_ => def_.output raw
  | none => .ok raw

def branchNameOf (branches : List Branch) (plan : Plan) (id : String) : Except String String :=
  match branches.find? (·.ref.name = (plan.refOf id).name) with
  | some branch => .ok branch.name
  | none => .error ("parallel '" ++ plan.path ++ "' has no branch \"" ++ (plan.refOf id).name ++ "\"")

/-- The result of a node whose children `ids` gave these outputs. -/
def joined (kind : NodeKind) (list : Bool) (plan : Plan) (ids : List String) (outputs : List Value) : Except String Value :=
  match kind with
  | .parallel any branches => do
    let names ← ids.mapM (branchNameOf branches plan)
    if any then return .object [("branch", .string (names.headD "")), ("result", outputs.headD .undefined)]
    else return .object (names.zip outputs)
  | _ => if list then .ok (.array outputs) else .ok (outputs.headD .undefined)

/-- The node `plan.path` is over: the outputs of `ids` are its result. -/
def completeChildren (def_ : WorkflowDef) (run : Run) (env : Env) (kind : NodeKind) (plan : Plan) (ids : List String)
    (list : Bool) : List RunEvent :=
  let result := do
    let outputs ← ids.mapM (outputOf env plan)
    let value ← joined kind list plan ids outputs
    def_.storable ("the result of '" ++ plan.path ++ "'") value
  match result with
  | .error error => deadNode def_ run env plan.path error
  | .ok value => completeWait def_ run env plan.path value

def Kid.ended (kid : Kid) : Nat ×ₗ String := toLex (kid.finishedAt.getD 0, kid.id)

def RunState.text : RunState → String
  | .queued => "queued"
  | .running => "running"
  | .parked => "parked"
  | .compensating => "compensating"
  | .completed => "completed"
  | .failed => "failed"
  | .cancelled => "cancelled"
  | .expired => "expired"

namespace NodeKind

def room : NodeKind → Option Nat
  | .map concurrency _ => concurrency
  | _ => none

def waitsForAny : NodeKind → Bool
  | .map _ any | .parallel any _ => any
  | _ => false

def lists : NodeKind → Bool
  | .map .. => true
  | _ => false

def childWord : NodeKind → String
  | .map .. => "child of map"
  | _ => "branch of parallel"

end NodeKind

structure Join where
  ended : List Kid
  unfinished : List Kid
  pending : List ChildPlan

/-- The children of the plan, not of the base: a restarted child leaves its failed predecessor under the same base. -/
def joinOf (plan : Plan) (kids : List Kid) : Join :=
  let planned := kids.filter fun kid => plan.children.any (·.id = kid.id)
  { ended := planned.filter (·.finishedAt.isSome)
    unfinished := planned.filter (·.finishedAt.isNone)
    pending := plan.children.filter fun child => !planned.any (·.id = child.id) }

def Join.starts (join : Join) (kind : NodeKind) (plan : Plan) : Moves :=
  let free := match kind.room with
    | some room => room - join.unfinished.length
    | none => join.pending.length
  if join.pending ≠ [] ∧ 0 < free then ⟨some (plan, join.pending.take free), []⟩ else .none

def Join.winner (join : Join) : Option Kid :=
  (Ordered.inOrder Kid.ended (join.ended.filter (·.state = .completed))).head?

def joinChildren (def_ : WorkflowDef) (run : Run) (env : Env) (kind : NodeKind) (plan : Plan) : List RunEvent × Moves :=
  let join := joinOf plan env.kids
  if kind.waitsForAny then
    match join.winner with
    | none =>
      if join.unfinished = [] ∧ join.pending = [] then
        (deadNode def_ run env plan.path ("no " ++ kind.childWord ++ " '" ++ plan.path ++ "' completed"), .none)
      else ([], join.starts kind plan)
    | some winner =>
      -- the node completes once each of the others has cleaned up
      let stops := (join.unfinished.filter (·.state.isLive)).map (·.id)
      if join.unfinished ≠ [] then ([], ⟨none, stops⟩)
      else (completeChildren def_ run env kind plan [winner.id] false, .none)
  else
    match join.ended.find? (·.state ≠ .completed) with
    | some bad => (deadNode def_ run env plan.path ("child run " ++ bad.id ++ " " ++ bad.state.text), .none)
    | none =>
      if join.ended.length = plan.children.length then
        (completeChildren def_ run env kind plan (plan.children.map (·.id)) kind.lists, .none)
      else ([], join.starts kind plan)

/-- The events and moves of the parent when a child of this base has ended. A plan for a node that has no children
throws. -/
def onChildEnded (def_ : WorkflowDef) (run : Run) (env : Env) (base : String) : Option (List RunEvent × Moves) :=
  if run.row.state = .compensating then
    match run.plannedOf (some base) with
    | none => some ([], .none)
    | some plan =>
      -- a run that is between two nodes in flight moves on its own checkpoint
      if (def_.node plan.path).any (·.isDetached) ∨ run.steps.anyScheduled then some ([], .none)
      else some (compensate def_ run env .onward, .none)
  else if run.row.state ≠ .parked then some ([], .none)
  else
    match run.plannedOf none with
    | none => some ([], .none)
    | some plan =>
      if plan.base ≠ base ∨ run.row.node ≠ some plan.path then some ([], .none)
      else
        match (def_.node plan.path).filter (·.kind.isFan) with
        | none => none
        | some node =>
          -- a node that is dead already waits for an operator
          if (run.steps.lookup (plan.path, .do_)).any (·.status = .failed) then some ([], .none)
          else if pastDeadline run.row env.now then some (deadlineEvents def_ run env, .none)
          else some (joinChildren def_ run env node.kind plan)

end Arki.Workflow
