import TemplateLowering.Op.List.Edit
import TemplateLowering.Op.Update
import TemplateLowering.Tag

/-!
# Create operations

The operations that build a view, and the traversal of the expressions in them.  Listeners and
repeaters hold lists of update operations of their own.
-/

namespace TemplateLowering

structure LocalRef where
  name : String
  target : String
deriving DecidableEq, Inhabited, Repr

/-- What an embedded view stands for in the message it is part of. -/
inductive ViewPlaceholder
  | tag (placeholder : I18n.TagPlaceholder)
  | block (placeholder : I18n.BlockPlaceholder)

/-- What all operations that declare an element-like node have. -/
structure ElementBase where
  xref : Xref
  slot : Slot := none
  localRefs : List LocalRef := []
  nonBindable : Bool := false
  startSpan : SourceSpan
  wholeSpan : SourceSpan
deriving Inhabited

structure ElementStart extends ElementBase where
  tag : String
  ns : Namespace
  placeholder : Option I18n.TagPlaceholder
deriving Inhabited

/-- The end of an element, a container or a translated block. -/
structure EndOp where
  xref : Xref
  span : Option SourceSpan
deriving Inhabited

/-- A grouping of nodes that renders no node itself. -/
structure ContainerStart extends ElementBase where
  placeholder : Option I18n.TagPlaceholder
deriving Inhabited

/-- Declares an embedded view. -/
structure TemplateOp extends ElementBase where
  tag : Option String
  ns : Namespace
  kind : TemplateKind
  suffix : String
  placeholder : Option ViewPlaceholder
deriving Inhabited

/-- Declares the view of one branch of an `@if` or `@switch` block. -/
structure BranchOp extends ElementBase where
  tag : Option String
  ns : Namespace := .html
  kind : TemplateKind := .block
  suffix : String
  placeholder : Option I18n.BlockPlaceholder
deriving Inhabited

/-- Declares the views of a `@for` block. -/
structure RepeaterCreate extends ElementBase where
  tag : Option String
  ns : Namespace := .html
  emptyView : Option Xref
  track : Expr
  trackByOps : Option (OpList UpdateOp) := none
  trackByFn : Option Expr := none
  /-- The names under which the loop index is known. -/
  indexNames : List String
  /-- The name of the loop item. -/
  itemName : String
  usesComponentInstance : Bool := false
  suffix : String := "For"
  emptyTag : Option String
  placeholder : Option I18n.BlockPlaceholder
  emptyPlaceholder : Option I18n.BlockPlaceholder
deriving Inhabited

structure Listener where
  target : Xref
  slot : Slot
  isHost : Bool
  name : String
  tag : Option String
  handler : OpList UpdateOp
  consumesEvent : Bool := false
  isAnimation : Bool
  phase : Option String
  eventTarget : Option String
  span : SourceSpan

structure TextOp where
  xref : Xref
  slot : Slot := none
  value : String
  placeholder : Option String
  span : Option SourceSpan
deriving Inhabited

structure ProjectionOp where
  xref : Xref
  slot : Slot := none
  selector : String
  index : Nat := 0
  fallbackView : Option Xref
  placeholder : Option I18n.TagPlaceholder
  span : SourceSpan
deriving Inhabited

/-- An attribute that is part of an element's constant attributes. -/
structure ExtractedAttribute where
  target : Xref
  kind : BindingKind
  namespaceKey : Option String := none
  name : String
  expr : Option Expr := none
  i18nContext : Option Xref := none
  message : Option I18n.Message := none
  security : List SecurityContext
  span : Option SourceSpan := none
deriving Inhabited

structure DeferOp where
  xref : Xref
  slot : Slot := none
  mainView : Xref
  mainSlot : Slot := none
  loadingView : Option Xref := none
  loadingSlot : Option Slot := none
  placeholderView : Option Xref := none
  placeholderSlot : Option Slot := none
  errorView : Option Xref := none
  errorSlot : Option Slot := none
  placeholderMinimumTime : Option Int := none
  loadingMinimumTime : Option Int := none
  loadingAfterTime : Option Int := none
  span : SourceSpan
deriving Inhabited

structure DeferOnOp where
  defer : Xref
  trigger : DeferTrigger
  modifier : TriggerModifier
  span : SourceSpan
deriving Inhabited

/-- The start of a translated block.  A root block is its own root. -/
structure I18nStart where
  xref : Xref
  slot : Slot := none
  root : Xref
  message : I18n.Message
  messageIndex : Option Nat := none
  subTemplateIndex : Option Nat := none
  context : Option Xref := none
  span : Option SourceSpan
deriving Inhabited

/-- Collects the parameters of one translated message. -/
structure I18nContextOp where
  xref : Xref
  kind : I18nContextKind
  block : Option Xref
  message : I18n.Message
  span : Option SourceSpan := none
deriving Inhabited

structure I18nAttributesOp where
  xref : Xref
  slot : Slot := none
  target : Xref
deriving Inhabited

structure IcuStart where
  xref : Xref
  message : I18n.Message
  placeholder : String
  context : Option Xref := none
  span : SourceSpan
deriving Inhabited

structure DeclareLet where
  xref : Xref
  slot : Slot := none
  name : String
  span : SourceSpan
deriving Inhabited

/-- An operation that builds a view. -/
inductive CreateOp
  | listEnd
  | elementStart (op : ElementStart)
  | elementEnd (op : EndOp)
  | containerStart (op : ContainerStart)
  | containerEnd (op : EndOp)
  | template (op : TemplateOp)
  | conditionalCreate (op : BranchOp)
  | conditionalBranchCreate (op : BranchOp)
  | repeaterCreate (op : RepeaterCreate)
  | listener (op : Listener)
  | text (op : TextOp)
  | projection (op : ProjectionOp)
  | extractedAttribute (op : ExtractedAttribute)
  | defer (op : DeferOp)
  | deferOn (op : DeferOnOp)
  | i18nStart (op : I18nStart)
  | i18nEnd (op : EndOp)
  | i18nContext (op : I18nContextOp)
  | i18nAttributes (op : I18nAttributesOp)
  | icuStart (op : IcuStart)
  | icuEnd (xref : Xref)
  | declareLet (op : DeclareLet)
  | variableDecl (op : VariableOp)
  | statement (body : Statement)
deriving Inhabited

instance : ListOp CreateOp where
  listEnd := .listEnd
  isListEnd
    | .listEnd => true
    | _ => false

namespace CreateOp

/-- The number that the operation declares, or that its start declared. -/
def xref? : CreateOp → Option Xref
  | .elementStart op => some op.xref
  | .elementEnd op => some op.xref
  | .containerStart op => some op.xref
  | .containerEnd op => some op.xref
  | .template op => some op.xref
  | .conditionalCreate op => some op.xref
  | .conditionalBranchCreate op => some op.xref
  | .repeaterCreate op => some op.xref
  | .text op => some op.xref
  | .projection op => some op.xref
  | .defer op => some op.xref
  | .i18nStart op => some op.xref
  | .i18nEnd op => some op.xref
  | .i18nContext op => some op.xref
  | .i18nAttributes op => some op.xref
  | .icuStart op => some op.xref
  | .icuEnd xref => some xref
  | .declareLet op => some op.xref
  | .variableDecl op => some op.xref
  | .listEnd | .listener _ | .extractedAttribute _ | .deferOn _ | .statement _ => none

/-- The shared part of operations that declare an element-like node. -/
def base? : CreateOp → Option ElementBase
  | .elementStart op => some op.toElementBase
  | .containerStart op => some op.toElementBase
  | .template op => some op.toElementBase
  | .conditionalCreate op => some op.toElementBase
  | .conditionalBranchCreate op => some op.toElementBase
  | .repeaterCreate op => some op.toElementBase
  | _ => none

/-- Marks an element-like operation as one whose contents are not bound. -/
def markNonBindable : CreateOp → CreateOp
  | .elementStart op => .elementStart { op with nonBindable := true }
  | .containerStart op => .containerStart { op with nonBindable := true }
  | .template op => .template { op with nonBindable := true }
  | .conditionalCreate op => .conditionalCreate { op with nonBindable := true }
  | .conditionalBranchCreate op => .conditionalBranchCreate { op with nonBindable := true }
  | .repeaterCreate op => .repeaterCreate { op with nonBindable := true }
  | op => op

/-- The name of the operation's kind. -/
def kindName : CreateOp → String
  | .listEnd => "ListEnd"
  | .elementStart _ => "ElementStart"
  | .elementEnd _ => "ElementEnd"
  | .containerStart _ => "ContainerStart"
  | .containerEnd _ => "ContainerEnd"
  | .template _ => "Template"
  | .conditionalCreate _ => "ConditionalCreate"
  | .conditionalBranchCreate _ => "ConditionalBranchCreate"
  | .repeaterCreate _ => "RepeaterCreate"
  | .listener _ => "Listener"
  | .text _ => "Text"
  | .projection _ => "Projection"
  | .extractedAttribute _ => "ExtractedAttribute"
  | .defer _ => "Defer"
  | .deferOn _ => "DeferOn"
  | .i18nStart _ => "I18nStart"
  | .i18nEnd _ => "I18nEnd"
  | .i18nContext _ => "I18nContext"
  | .i18nAttributes _ => "I18nAttributes"
  | .icuStart _ => "IcuStart"
  | .icuEnd _ => "IcuEnd"
  | .declareLet _ => "DeclareLet"
  | .variableDecl _ => "Variable"
  | .statement _ => "Statement"

end CreateOp

/-! ## Traversal -/

variable {m : Type → Type} [Monad m]

/-- Visits every expression of the operations of a list. -/
def visitOpsM (f : Visitor m) (flags : VisitFlags) (ops : OpList UpdateOp) :
    m (OpList UpdateOp) :=
  ops.mapM (UpdateOp.visitM f flags)

/-- Visits the track expression of a repeater: the body of its track function when it has one,
the expression itself otherwise, and then the function that was chosen for it. -/
def RepeaterCreate.visitM (f : Visitor m) (flags : VisitFlags) (op : RepeaterCreate) :
    m RepeaterCreate := do
  let op ← match op.trackByOps with
    | none => do
        let track ← op.track.visitM f flags
        pure { op with track }
    | some ops => do
        let ops ← visitOpsM f flags.child ops
        pure { op with trackByOps := some ops }
  let trackByFn ← visitOptionM f flags op.trackByFn
  return { op with trackByFn }

/-- Visits every expression of an operation, those of the operations inside it included. -/
def CreateOp.visitM (f : Visitor m) (flags : VisitFlags) : CreateOp → m CreateOp
  | .variableDecl op => do
      let initializer ← op.initializer.visitM f flags
      return .variableDecl { op with initializer }
  | .statement body => .statement <$> body.visitM f flags
  | .listener op => do
      let handler ← visitOpsM f flags.child op.handler
      return .listener { op with handler }
  | .repeaterCreate op => .repeaterCreate <$> op.visitM f flags
  | .extractedAttribute op => do
      let expr ← visitOptionM f flags op.expr
      return .extractedAttribute { op with expr }
  | op => pure op

end TemplateLowering
