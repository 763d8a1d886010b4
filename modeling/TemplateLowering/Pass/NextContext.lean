import TemplateLowering.Job.Basic

/-!
# Steps between contexts

A statement that only steps to an enclosing context can be dropped when a later expression steps on
from there: the later step takes over its steps.  That is possible as long as nothing in between
reads the current view.
-/

namespace TemplateLowering

/-- How the search for the step that takes over is going. -/
structure StepSearch where
  isOpen : Bool := true
  found : Bool := false

/-- The search changes expressions, and fails when there are too many steps to count. -/
abbrev StepMove := StateT StepSearch (Except Fault)

def addSteps (own more : Nat) : Except Fault Nat :=
  (addCounts own more).mapError .count

/-- Moves steps into the first step that is met; a read of the current view ends the search. -/
def takeOverSteps (steps : Nat) : Visitor StepMove := fun flags expr => do
  let search ← get
  if !search.isOpen || flags.inChildOperation then
    return expr
  match expr with
  | .nextContext own =>
      let steps ← addSteps own steps
      set { search with isOpen := false, found := true }
      return .nextContext steps
  | .getCurrentView | .reference .. | .contextLetReference .. =>
      set { search with isOpen := false }
      return expr
  | _ => return expr

/-- The steps of a statement that does nothing but step to an enclosing context. -/
def UpdateOp.bareSteps? : UpdateOp → Option Nat
  | .statement (.expression (.nextContext steps) _) => some steps
  | _ => none

/-- Moves steps into the operations at the given nodes. -/
def moveSteps (steps : Nat) (ops : OpList UpdateOp) (indices : List Nat) :
    Except Fault (OpList UpdateOp × StepSearch) :=
  (indices.foldlM
    (fun ops index => do
      if (← get).isOpen then ops.modifyOpM (UpdateOp.visitM (takeOverSteps steps) {}) index
      else return ops)
    ops : StepMove (OpList UpdateOp)).run {}

/-- Merges the steps of the operations at the given nodes, which follow each other. -/
def mergeStepsAlong (ops : OpList UpdateOp) : List Nat → Except Fault (OpList UpdateOp)
  | [] => .ok ops
  | index :: rest =>
      match (ops.op? index).bind UpdateOp.bareSteps? with
      | none => mergeStepsAlong ops rest
      | some steps => do
          let (moved, search) ← moveSteps steps ops rest
          if search.found then
            let ops ← editList moved (OpList.remove (moved.opId index))
            mergeStepsAlong ops rest
          else
            mergeStepsAlong moved rest

/-- Merges the steps between contexts in a list of operations. -/
def mergeNextContexts (ops : OpList UpdateOp) : Except Fault (OpList UpdateOp) :=
  mergeStepsAlong ops ops.indices

/-- Merges the steps inside a listener's handler or a track function. -/
def CreateOp.mergeNextContexts : CreateOp → Except Fault CreateOp
  | .listener op => do
      let handler ← TemplateLowering.mergeNextContexts op.handler
      return .listener { op with handler }
  | .repeaterCreate op => do
      match op.trackByOps with
      | some ops =>
          let ops ← TemplateLowering.mergeNextContexts ops
          return .repeaterCreate { op with trackByOps := some ops }
      | none => return .repeaterCreate op
  | op => return op

/-- Merges the steps between contexts in all lists of update operations. -/
def Job.mergeNextContextExpressions (job : Job) : Except Fault Job :=
  job.mapUnitsM fun view => do
    let create ← view.create.mapM CreateOp.mergeNextContexts
    let update ← mergeNextContexts view.update
    return { view with create, update }

end TemplateLowering
