import TemplateLowering.Job.Basic

/-!
# Track expressions

A repeater tracks its items by an expression over the loop index and the item.  The first pass finds
the reads of these two.  The second decides how the expression is evaluated: by a built-in function,
by a method of the component, or by a function generated for it.
-/

namespace TemplateLowering

/-- The name of the loop index inside a track expression. -/
def trackIndex : String := "$index"

/-- The name of the loop item inside a track expression. -/
def trackItem : String := "$item"

/-! ## Loop variables -/

/-- A read of the loop index or of the item, under any of their names. -/
def RepeaterCreate.resolveTrackRead (op : RepeaterCreate) : Visitor Id := fun _ expr =>
  match expr with
  | .lexicalRead name span =>
      if name ∈ op.indexNames then .readVar trackIndex span
      else if name = op.itemName then .readVar trackItem span
      else expr
  | _ => expr

def CreateOp.resolveTrackReads : CreateOp → CreateOp
  | .repeaterCreate op =>
      .repeaterCreate { op with track := Id.run (op.track.visitM op.resolveTrackRead {}) }
  | op => op

def Job.generateTrackVariables (job : Job) : Job :=
  Id.run (job.mapUnitsM fun view =>
    pure { view with create := view.create.map CreateOp.resolveTrackReads })

/-! ## Track functions -/

/-- The module that the run-time functions come from. -/
def coreModule : String := "@angular/core"

def repeaterTrackByIndex : External :=
  { moduleName := some coreModule, name := some "ɵɵrepeaterTrackByIndex" }

def repeaterTrackByIdentity : External :=
  { moduleName := some coreModule, name := some "ɵɵrepeaterTrackByIdentity" }

def componentInstance : External :=
  { moduleName := some coreModule, name := some "ɵɵcomponentInstance" }

/-- The built-in function that evaluates a track expression. -/
def builtinTrackFn? : Expr → Option External
  | .readVar name _ =>
      if name = trackIndex then some repeaterTrackByIndex
      else if name = trackItem then some repeaterTrackByIdentity
      else none
  | _ => none

/-- Whether the arguments of a call are the loop index, or the loop index and the item. -/
def areTrackArgs : List Expr → Bool
  | [.readVar index _] => index == trackIndex
  | [.readVar index _, .readVar item _] => index == trackIndex && item == trackItem
  | _ => false

/-- The callee and its name, when a track expression calls a method of the component with the loop
variables. -/
def trackMethod? (root : Xref) : Expr → Option (Expr × String)
  | .invoke (.readProp (.context view) name span) args _ _ =>
      if view = root ∧ areTrackArgs args then some (.readProp (.context view) name span, name)
      else none
  | _ => none

/-- Reads of contexts change inside a track function; the state records whether there are any. -/
def resolveTrackContext : Visitor (StateT Bool (Except Fault)) := fun _ expr => do
  match expr with
  | .pipeBinding .. => throw .pipeInTrack
  | .context view =>
      set true
      return .trackContext view
  | _ => return expr

/-- Chooses the function that evaluates the track expression of a repeater in the view `view`. -/
def RepeaterCreate.chooseTrackFn (root view : Xref) (op : RepeaterCreate) :
    StateT Ids (Except Fault) RepeaterCreate := do
  match builtinTrackFn? op.track with
  | some builtin => return { op with trackByFn := some (.imported builtin) }
  | none =>
      match trackMethod? root op.track with
      | some (callee, name) =>
          if view = root then
            return { op with usesComponentInstance := true, trackByFn := some callee }
          else
            let method := ((Expr.imported componentInstance).call []).prop name
            return {
              op with
              usesComponentInstance := true, track := method, trackByFn := some method }
      | none =>
          let (track, readsContext) ← (op.track.visitM resolveTrackContext {}).run false
          let list ← Ids.freshList
          return {
            op with
            track
            usesComponentInstance := op.usesComponentInstance || readsContext
            trackByOps := some (OpList.ofList list [.statement (.return_ track none)]) }

def CreateOp.chooseTrackFn (root view : Xref) : CreateOp → StateT Ids (Except Fault) CreateOp
  | .repeaterCreate op => .repeaterCreate <$> op.chooseTrackFn root view
  | op => return op

def Job.optimizeTrackFns (job : Job) : Except Fault Job :=
  job.mapUnitsFresh fun view => do
    let create ← view.create.mapM (CreateOp.chooseTrackFn job.root.xref view.xref)
    return { view with create }

end TemplateLowering
