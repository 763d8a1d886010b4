import TemplateLowering.I18n.Message
import TemplateLowering.Op.Kind
import TemplateLowering.Op.List.Basic
import TemplateLowering.Output.Traversal
import TemplateLowering.Security

/-!
# Update operations

The operations that run whenever a view is checked for changes, and the traversal of the expressions
in them.
-/

namespace TemplateLowering

/-- Static strings interleaved with expressions, and the placeholder names of the expressions when
the text is translated. -/
structure Interpolation where
  strings : List String
  expressions : List Expr
  placeholders : List String
deriving Inhabited

/-- The value of a binding. -/
inductive BindingValue
  | expression (expr : Expr)
  | interpolation (interpolation : Interpolation)
deriving Inhabited

/-- A binding that has not been narrowed to a property, an attribute, a style or a class yet. -/
structure Binding where
  target : Xref
  kind : BindingKind
  name : String
  value : BindingValue
  unit : Option String
  security : List SecurityContext
  isText : Bool
  isStructural : Bool
  templateKind : Option TemplateKind
  i18nContext : Option Xref := none
  message : Option I18n.Message
  span : SourceSpan
deriving Inhabited

structure PropertyOp where
  target : Xref
  name : String
  value : BindingValue
  kind : BindingKind
  security : List SecurityContext
  isStructural : Bool
  templateKind : Option TemplateKind
  i18nContext : Option Xref
  message : Option I18n.Message
  span : SourceSpan
deriving Inhabited

/-- The property side of a two-way binding. -/
structure TwoWayPropertyOp where
  target : Xref
  name : String
  expr : Expr
  security : List SecurityContext
  isStructural : Bool
  templateKind : Option TemplateKind
  i18nContext : Option Xref
  message : Option I18n.Message
  span : SourceSpan
deriving Inhabited

structure AttributeOp where
  target : Xref
  namespaceKey : Option String
  name : String
  value : BindingValue
  security : List SecurityContext
  isText : Bool
  isStructural : Bool
  templateKind : Option TemplateKind
  i18nContext : Option Xref
  message : Option I18n.Message
  span : SourceSpan
deriving Inhabited

/-- A property of a host element. -/
structure DomPropertyOp where
  name : String
  value : BindingValue
  kind : BindingKind
  i18nContext : Option Xref
  security : List SecurityContext
  span : SourceSpan
deriving Inhabited

structure StylePropOp where
  target : Xref
  name : String
  value : BindingValue
  unit : Option String
  span : SourceSpan
deriving Inhabited

structure ClassPropOp where
  target : Xref
  name : String
  expr : Expr
  span : SourceSpan
deriving Inhabited

structure StyleMapOp where
  target : Xref
  value : BindingValue
  span : SourceSpan
deriving Inhabited

structure ClassMapOp where
  target : Xref
  value : BindingValue
  span : SourceSpan
deriving Inhabited

structure InterpolateTextOp where
  target : Xref
  interpolation : Interpolation
  span : SourceSpan
deriving Inhabited

/-- One branch of a conditional operation; the default branch has no condition. -/
structure ConditionalCase where
  condition : Option Expr
  target : Xref
  slot : Slot
  aliasName : Option String
deriving Inhabited

/-- Selects the branch of an `@if` or `@switch` block. -/
structure ConditionalOp where
  target : Xref
  test : Option Expr
  cases : List ConditionalCase
  processed : Option Expr := none
  contextValue : Option Expr := none
  span : SourceSpan
deriving Inhabited

structure RepeaterOp where
  target : Xref
  slot : Slot
  collection : Expr
  span : SourceSpan
deriving Inhabited

structure DeferWhenOp where
  target : Xref
  expr : Expr
  modifier : TriggerModifier
  span : SourceSpan
deriving Inhabited

structure StoreLetOp where
  target : Xref
  name : String
  value : Expr
  span : SourceSpan
deriving Inhabited

structure VariableOp where
  xref : Xref
  declared : SemanticVariable
  initializer : Expr
  alwaysInline : Bool := false
deriving Inhabited

/-- An operation that runs whenever a view is checked for changes. -/
inductive UpdateOp
  | listEnd
  | binding (op : Binding)
  | property (op : PropertyOp)
  | twoWayProperty (op : TwoWayPropertyOp)
  | attr (op : AttributeOp)
  | domProperty (op : DomPropertyOp)
  | styleProp (op : StylePropOp)
  | classProp (op : ClassPropOp)
  | styleMap (op : StyleMapOp)
  | classMap (op : ClassMapOp)
  | interpolateText (op : InterpolateTextOp)
  | conditional (op : ConditionalOp)
  | repeater (op : RepeaterOp)
  | deferWhen (op : DeferWhenOp)
  | storeLet (op : StoreLetOp)
  | variableDecl (op : VariableOp)
  | statement (body : Statement)
deriving Inhabited

instance : ListOp UpdateOp where
  listEnd := .listEnd
  isListEnd
    | .listEnd => true
    | _ => false

/-- What the operation updates: an element, a text or a view. -/
def UpdateOp.target? : UpdateOp → Option Xref
  | .binding op => some op.target
  | .property op => some op.target
  | .twoWayProperty op => some op.target
  | .attr op => some op.target
  | .styleProp op => some op.target
  | .classProp op => some op.target
  | .styleMap op => some op.target
  | .classMap op => some op.target
  | .interpolateText op => some op.target
  | .conditional op => some op.target
  | .repeater op => some op.target
  | .deferWhen op => some op.target
  | .storeLet op => some op.target
  | .listEnd | .domProperty _ | .variableDecl _ | .statement _ => none

/-! ## Traversal -/

variable {m : Type → Type} [Monad m]

def Interpolation.visitM (f : Visitor m) (flags : VisitFlags) (value : Interpolation) :
    m Interpolation := do
  let expressions ← visitAllM f flags value.expressions
  return { value with expressions }

def BindingValue.visitM (f : Visitor m) (flags : VisitFlags) : BindingValue → m BindingValue
  | .expression expr => .expression <$> expr.visitM f flags
  | .interpolation value => .interpolation <$> value.visitM f flags

def ConditionalCase.visitM (f : Visitor m) (flags : VisitFlags) (branch : ConditionalCase) :
    m ConditionalCase := do
  let condition ← visitOptionM f flags branch.condition
  return { branch with condition }

/-- Visits every expression of an operation. -/
def UpdateOp.visitM (f : Visitor m) (flags : VisitFlags) : UpdateOp → m UpdateOp
  | .binding op => do
      let value ← op.value.visitM f flags
      return .binding { op with value }
  | .property op => do
      let value ← op.value.visitM f flags
      return .property { op with value }
  | .attr op => do
      let value ← op.value.visitM f flags
      return .attr { op with value }
  | .domProperty op => do
      let value ← op.value.visitM f flags
      return .domProperty { op with value }
  | .styleProp op => do
      let value ← op.value.visitM f flags
      return .styleProp { op with value }
  | .styleMap op => do
      let value ← op.value.visitM f flags
      return .styleMap { op with value }
  | .classMap op => do
      let value ← op.value.visitM f flags
      return .classMap { op with value }
  | .twoWayProperty op => do
      let expr ← op.expr.visitM f flags
      return .twoWayProperty { op with expr }
  | .classProp op => do
      let expr ← op.expr.visitM f flags
      return .classProp { op with expr }
  | .interpolateText op => do
      let interpolation ← op.interpolation.visitM f flags
      return .interpolateText { op with interpolation }
  | .conditional op => do
      let test ← visitOptionM f flags op.test
      let cases ← op.cases.mapM (ConditionalCase.visitM f flags)
      let processed ← visitOptionM f flags op.processed
      let contextValue ← visitOptionM f flags op.contextValue
      return .conditional { op with test, cases, processed, contextValue }
  | .repeater op => do
      let collection ← op.collection.visitM f flags
      return .repeater { op with collection }
  | .deferWhen op => do
      let expr ← op.expr.visitM f flags
      return .deferWhen { op with expr }
  | .storeLet op => do
      let value ← op.value.visitM f flags
      return .storeLet { op with value }
  | .variableDecl op => do
      let initializer ← op.initializer.visitM f flags
      return .variableDecl { op with initializer }
  | .statement body => .statement <$> body.visitM f flags
  | .listEnd => pure .listEnd

end TemplateLowering
