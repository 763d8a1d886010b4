import TemplateLowering.Data.OrderedMap
import TemplateLowering.Fault
import TemplateLowering.Op.Create
import TemplateLowering.Options

/-!
# Jobs

A job is one compilation in progress.  It consists of views, each with a list of create operations
and a list of update operations: the root view, and the embedded views in the order in which they
were allocated.  A job for host bindings has its root only.
-/

namespace TemplateLowering

/-- What is compiled; `both` says of a pass that it applies to either. -/
inductive JobKind
  | template
  | host
  | both
deriving DecidableEq, Inhabited, Repr

/-- Whether a pass declared for `kind` applies to a job. -/
def JobKind.appliesTo (kind job : JobKind) : Bool :=
  kind = .both || kind = job

/-- A name whose value is computed from the context of its view. -/
structure AliasVariable where
  identifier : String
  expression : Expr
deriving Inhabited

structure View where
  xref : Xref
  parent : Option Xref
  create : OpList CreateOp
  update : OpList UpdateOp
  /-- The names declared in the view, each with the property of the context that it stands for. -/
  contextVariables : OrderedMap String String := {}
  aliases : List AliasVariable := []

structure Job where
  kind : JobKind
  component : String
  options : Options
  root : View
  views : List View
  ids : Ids

/-- The numbers reserved for a view. -/
structure ViewIds where
  xref : Xref
  createList : ListId
  updateList : ListId
deriving DecidableEq, Inhabited, Repr

/-- Reserves the numbers of a view: its own, then those of its two lists. -/
def Ids.freshView {m : Type → Type} [Monad m] [MonadStateOf Ids m] : m ViewIds := do
  let xref ← freshXref
  let createList ← freshList
  let updateList ← freshList
  return { xref, createList, updateList }

/-- A view with the given operations. -/
def ViewIds.view (ids : ViewIds) (parent : Option Xref) (create : List CreateOp)
    (update : List UpdateOp) : View :=
  { xref := ids.xref
    parent
    create := OpList.ofList ids.createList create
    update := OpList.ofList ids.updateList update }

namespace Job

/-- A job whose root view is empty. -/
def new (kind : JobKind) (component : String) (options : Options) : Job :=
  let (root, ids) := (Ids.freshView (m := StateM Ids)).run {}
  { kind, component, options, root := root.view none [] [], views := [], ids }

/-- The views of a job, root first. -/
def units (job : Job) : List View :=
  job.root :: job.views

def unit? (job : Job) (xref : Xref) : Option View :=
  job.units.find? fun view => view.xref = xref

/-- The view with a number that has to exist. -/
def view (job : Job) (xref : Xref) : Except Fault View :=
  match job.unit? xref with
  | some view => .ok view
  | none => .error (.unknownView xref)

/-- Changes the first of the views with a number. -/
def modifyFirst {m : Type → Type} [Monad m] (xref : Xref) (f : View → m View) :
    List View → m (List View)
  | [] => pure []
  | view :: views =>
      if view.xref = xref then do
        let view ← f view
        return view :: views
      else do
        let views ← modifyFirst xref f views
        return view :: views

/-- Changes the view with a number; does nothing when there is none. -/
def modifyUnitM {m : Type → Type} [Monad m] (job : Job) (xref : Xref) (f : View → m View) :
    m Job :=
  if job.root.xref = xref then do
    let root ← f job.root
    return { job with root }
  else do
    let views ← modifyFirst xref f job.views
    return { job with views }

def modifyUnit (job : Job) (xref : Xref) (f : View → View) : Job :=
  Id.run (job.modifyUnitM xref fun view => pure (f view))

/-- Changes every view, root first. -/
def mapUnitsM {m : Type → Type} [Monad m] (job : Job) (f : View → m View) : m Job := do
  let root ← f job.root
  let views ← job.views.mapM f
  return { job with root, views }

/-- Changes every view, root first, with access to the job's supply of numbers. -/
def mapUnitsFresh (job : Job) (f : View → StateT Ids (Except Fault) View) : Except Fault Job := do
  let (job, ids) ← (job.mapUnitsM f).run job.ids
  return { job with ids }

def allocateXref (job : Job) : Xref × Job :=
  let (xref, ids) := (Ids.freshXref (m := StateM Ids)).run job.ids
  (xref, { job with ids })

def allocateList (job : Job) : ListId × Job :=
  let (list, ids) := (Ids.freshList (m := StateM Ids)).run job.ids
  (list, { job with ids })

/-- Adds an empty embedded view. -/
def allocateView (job : Job) (parent : Xref) : Xref × Job :=
  let (fresh, ids) := (Ids.freshView (m := StateM Ids)).run job.ids
  (fresh.xref, { job with views := job.views ++ [fresh.view (some parent) [] []], ids })

end Job

def editList {α β : Type} (l : OpList α) (edit : OpList.Edit α β) : Except Fault (OpList α) :=
  match edit.run l with
  | (.ok _, l) => .ok l
  | (.error fault, _) => .error (.list fault)

end TemplateLowering
