import TemplateLowering.Job.Basic

/-!
# Listeners

A listener runs when its event is fired, at which time some other view may be current.  Every view
therefore saves itself when it is created, and a listener that needs its view restores it first and
leaves it again when it returns.  Inside a listener, `$event` names the event.
-/

namespace TemplateLowering

/-! ## Saving and restoring views -/

/-- The names that an operation makes known to the listeners of its view. -/
def CreateOp.localNames : CreateOp → List String
  | .declareLet op => [op.name]
  | op => ((op.base?.map ElementBase.localRefs).getD []).map LocalRef.name

/-- The views from `view` outwards, as many as `fuel` allows. -/
def Job.enclosing (job : Job) : Nat → Option Xref → List View
  | 0, _ => []
  | _ + 1, none => []
  | fuel + 1, some xref =>
      match job.unit? xref with
      | none => []
      | some view => view :: job.enclosing fuel view.parent

/-- The local references and declared values that can be read in a view: its own, and those of the
views around it. -/
def Job.localNames (job : Job) (view : Xref) : List String :=
  (job.enclosing (job.views.length + 1) (some view)).flatMap fun unit =>
    unit.create.toList.flatMap CreateOp.localNames

/-- Whether an expression reads state that belongs to a view. -/
def Expr.readsLocal (names : List String) : Expr → Bool
  | .reference .. => true
  | .contextLetReference .. => true
  | .lexicalRead name _ => name ∈ names
  | _ => false

/-- Whether some expression in the operations satisfies a test. -/
def anyInOps (p : Expr → Bool) (ops : OpList UpdateOp) : Bool :=
  let visit : Visitor (StateM Bool) := fun _ expr => do
    if p expr then set true
    return expr
  ((visitOpsM visit {} ops).run false).2

/-- Leaves the restored view when the handler returns. -/
def resetOnReturn : UpdateOp → UpdateOp
  | .statement (.return_ value span) => .statement (.return_ (.resetView value) span)
  | op => op

/-- Makes a handler restore its view first. -/
def restoreView (view context : Xref) (handler : OpList UpdateOp) :
    Except Fault (OpList UpdateOp) := do
  let restore : UpdateOp :=
    .variableDecl
      { xref := context, declared := .context view none, initializer := .restoreView view }
  let handler ← editList handler (OpList.prepend [restore])
  return handler.map resetOnReturn

/-- Makes a listener restore its view if it needs to: always in an embedded view, and in the root
when it reads local state. -/
def restoreListener (view : Xref) (embedded : Bool) (names : List String) :
    CreateOp → StateT Ids (Except Fault) CreateOp
  | .listener op => do
      if embedded || anyInOps (Expr.readsLocal names) op.handler then
        let context ← Ids.freshXref
        let handler ← restoreView view context op.handler
        return .listener { op with handler }
      else
        return .listener op
  | op => return op

/-- Saves a view when it is created, and lets its listeners restore it. -/
def View.saveAndRestore (embedded : Bool) (names : List String) (view : View) :
    StateT Ids (Except Fault) View := do
  let saved ← Ids.freshXref
  let create ← view.create.mapM (restoreListener view.xref embedded names)
  let save : CreateOp :=
    .variableDecl
      { xref := saved, declared := .savedView view.xref none, initializer := .getCurrentView }
  let create ← editList create (OpList.prepend [save])
  return { view with create }

/-- Saves every view, and restores it in the listeners that need it. -/
def Job.saveAndRestoreView (job : Job) : Except Fault Job :=
  job.mapUnitsFresh fun view =>
    view.saveAndRestore (view.xref ≠ job.root.xref) (job.localNames view.xref)

/-! ## The event -/

def eventName : String := "$event"

/-- Reads of the event are resolved; the state records whether there are any. -/
def resolveEventRead : Visitor (StateM Bool) := fun _ expr => do
  match expr with
  | .lexicalRead name _ =>
      if name = eventName then
        set true
        return .variable_ eventName
      else
        return expr
  | _ => return expr

def CreateOp.resolveEvent : CreateOp → CreateOp
  | .listener op =>
      let (handler, found) := (visitOpsM resolveEventRead {} op.handler).run false
      .listener { op with handler, consumesEvent := op.consumesEvent || found }
  | op => op

def Job.resolveDollarEvent (job : Job) : Job :=
  Id.run (job.mapUnitsM fun view =>
    pure { view with create := view.create.map CreateOp.resolveEvent })

end TemplateLowering
