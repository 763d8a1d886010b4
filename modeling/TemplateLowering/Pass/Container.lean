import TemplateLowering.Job.Basic

/-!
# Containers

An element named `ng-container` only groups its content.  Its operations are turned into those of a
container, which renders no node.
-/

namespace TemplateLowering

/-- Turns the start and the end of an `ng-container` element into those of a container.  The state
holds the elements that were turned. -/
def toContainer : CreateOp → StateM (List Xref) CreateOp
  | .elementStart op => do
      if isNgContainer op.tag then
        modify (op.xref :: ·)
        return .containerStart { op.toElementBase with placeholder := op.placeholder }
      else
        return .elementStart op
  | .elementEnd op => do
      if op.xref ∈ (← get) then return .containerEnd op else return .elementEnd op
  | op => return op

def View.generateContainers (view : View) : View :=
  { view with create := ((view.create.mapM toContainer).run []).1 }

def Job.generateNgContainers (job : Job) : Job :=
  Id.run (job.mapUnitsM fun view => pure view.generateContainers)

end TemplateLowering
