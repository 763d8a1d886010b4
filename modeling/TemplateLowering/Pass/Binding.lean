import TemplateLowering.Job.Basic
import TemplateLowering.Op.List.Cursor

/-!
# Narrowing bindings

Lowering makes every attribute, input and property a `Binding`.  Two passes replace each binding by
an operation for what it sets: the first takes the bindings of styles and classes, the second takes
the rest.  The attribute `ngNonBindable` sets nothing: it is dropped, and its element is marked.
-/

namespace TemplateLowering

/-- The value of a binding that may not be an interpolation. -/
def Binding.plainValue (op : Binding) (fault : Fault) : Except Fault Expr :=
  match op.value with
  | .expression expr => .ok expr
  | .interpolation _ => .error fault

def View.changeUpdate (view : View) (f : UpdateOp → Except Fault (OpList.Change UpdateOp)) :
    Except Fault View := do
  let update ← view.update.changeAll .list f
  return { view with update }

/-! ## Styles and classes -/

/-- The operation for a binding of a style or a class, if it is one. -/
def Binding.styleOp? (op : Binding) : Except Fault (Option UpdateOp) :=
  match op.kind with
  | .className => do
      let expr ← op.plainValue .classInterpolation
      return some (.classProp { target := op.target, name := op.name, expr, span := op.span })
  | .styleProperty =>
      return some (.styleProp
        { target := op.target, name := op.name, value := op.value, unit := op.unit,
          span := op.span })
  | .property | .template =>
      if op.name = "style" then
        return some (.styleMap { target := op.target, value := op.value, span := op.span })
      else if op.name = "class" then
        return some (.classMap { target := op.target, value := op.value, span := op.span })
      else
        return none
  | .attr | .i18n | .animation | .twoWayProperty => return none

def narrowStyle : UpdateOp → Except Fault (OpList.Change UpdateOp)
  | .binding op => do
      match ← op.styleOp? with
      | some narrowed => return .replace narrowed
      | none => return .keep
  | _ => return .keep

def Job.specializeStyleBindings (job : Job) : Except Fault Job :=
  job.mapUnitsM fun view => view.changeUpdate narrowStyle

/-! ## Attributes and properties -/

/-- Keeps the contents of an element from being bound. -/
def nonBindableName : String := "ngNonBindable"

def Binding.isNonBindable (op : Binding) : Bool :=
  op.kind = .attr && op.name == nonBindableName

/-- The operation for an attribute; a name of the form `:namespace:name` is split. -/
def Binding.attributeOp (op : Binding) : AttributeOp :=
  let name := TagName.splitLenient op.name
  { target := op.target
    namespaceKey := name.key
    name := name.name
    value := op.value
    security := op.security
    isText := op.isText
    isStructural := op.isStructural
    templateKind := op.templateKind
    i18nContext := op.i18nContext
    message := op.message
    span := op.span }

def Binding.propertyOp (op : Binding) : PropertyOp :=
  { target := op.target
    name := op.name
    value := op.value
    kind := op.kind
    security := op.security
    isStructural := op.isStructural
    templateKind := op.templateKind
    i18nContext := op.i18nContext
    message := op.message
    span := op.span }

def Binding.domPropertyOp (op : Binding) : DomPropertyOp :=
  { name := op.name
    value := op.value
    kind := op.kind
    i18nContext := op.i18nContext
    security := op.security
    span := op.span }

def Binding.twoWayPropertyOp (op : Binding) (expr : Expr) : TwoWayPropertyOp :=
  { target := op.target
    name := op.name
    expr
    security := op.security
    isStructural := op.isStructural
    templateKind := op.templateKind
    i18nContext := op.i18nContext
    message := op.message
    span := op.span }

/-- The operation for a binding that sets neither a style nor a class.  The properties of a host
element are set on the element itself. -/
def Binding.narrowedOp (job : JobKind) (op : Binding) : Except Fault UpdateOp :=
  match op.kind with
  | .attr => return .attr op.attributeOp
  | .property | .template | .animation =>
      if job = .host then return .domProperty op.domPropertyOp
      else return .property op.propertyOp
  | .twoWayProperty => do
      let expr ← op.plainValue (.twoWayInterpolation op.name)
      return .twoWayProperty (op.twoWayPropertyOp expr)
  | .i18n | .className | .styleProperty => throw (.unhandledBinding op.kind)

def narrow (job : JobKind) : UpdateOp → Except Fault (OpList.Change UpdateOp)
  | .binding op =>
      if op.isNonBindable then
        return .drop
      else do
        let narrowed ← op.narrowedOp job
        return .replace narrowed
  | _ => return .keep

def nonBindableTargets (update : OpList UpdateOp) : List Xref :=
  update.toList.filterMap fun
    | .binding op => if op.isNonBindable then some op.target else none
    | _ => none

/-- Marks an operation when its element is among those still to be marked. -/
def markNonBindable (op : CreateOp) : StateM (List Xref) CreateOp := do
  match op.base? with
  | none => return op
  | some base =>
      let remaining ← get
      if base.xref ∈ remaining then
        set (remaining.filter (· ≠ base.xref))
        return op.markNonBindable
      else
        return op

def View.markNonBindable (view : View) (targets : List Xref) : Except Fault View :=
  let (create, remaining) := (view.create.mapM TemplateLowering.markNonBindable).run targets
  if remaining.isEmpty then .ok { view with create } else .error .nonBindableTarget

def Job.specializeBindings (job : Job) : Except Fault Job :=
  job.mapUnitsM fun view => do
    let targets := nonBindableTargets view.update
    let view ← view.changeUpdate (narrow job.kind)
    view.markNonBindable targets

end TemplateLowering
