import TemplateLowering.Lowering.Expression
import TemplateLowering.Template.Node

/-!
# Lowering attributes and events

How the attributes, inputs and events of elements and templates become bindings, extracted
attributes and listeners.
-/

namespace TemplateLowering

/-- What lowering has to know of its job. -/
structure JobFacts where
  root : Xref
  compatibility : CompatibilityMode
deriving Inhabited

/-- The operations that a part of a template adds to the view it stands in, and the embedded views
below it, in the order of their allocation. -/
structure Fragment where
  create : List CreateOp := []
  update : List UpdateOp := []
  views : List View := []

namespace Fragment

def append (a b : Fragment) : Fragment :=
  { create := a.create ++ b.create
    update := a.update ++ b.update
    views := a.views ++ b.views }

instance : Append Fragment := ⟨append⟩

end Fragment

/-! ## Messages and placeholders of nodes -/

def rejectI18n {α : Type} (node expected : String) (actual : Option I18n.Meta)
    (span : SourceSpan) : Lower α :=
  throw (.unexpectedI18n node expected ((actual.map I18n.Meta.kindName).getD "none") span)

/-- The message of an attribute, which has to be the root of one when it is translated. -/
def messageOf (i18n : Option I18n.Meta) (node : String) (span : SourceSpan) :
    Lower (Option I18n.Message) :=
  match i18n with
  | none => return none
  | some (.message message) => return some message
  | some (.node other) => rejectI18n node "Message" (some (.node other)) span

/-- The placeholder of a control flow block, when it stands inside a message. -/
def blockPlaceholderOf (i18n : Option I18n.Meta) (node : String) (span : SourceSpan) :
    Lower (Option I18n.BlockPlaceholder) :=
  match i18n with
  | none => return none
  | some (.node (.blockPlaceholder placeholder)) => return some placeholder
  | some other => rejectI18n node "BlockPlaceholder" (some other) span

/-! ## Values -/

/-- An interpolation whose placeholders, if there are any, match its expressions in number. -/
def Interpolation.checked (strings : List String) (expressions : List Expr)
    (placeholders : List String) : Except CompileError Interpolation :=
  if !placeholders.isEmpty && placeholders.length ≠ expressions.length then
    .error (.placeholderCount expressions.length placeholders.length)
  else
    .ok { strings, expressions, placeholders }

/-- The value of a binding.  An interpolation keeps its static strings. -/
def lowerValue (root : Xref) (message : Option I18n.Message) (span : Option SourceSpan) :
    Ast → Lower BindingValue
  | .interpolation _ strings expressions => do
      let expressions ← lowerAll root span expressions
      let placeholders := (message.map I18n.Message.placeholderNames).getD []
      .interpolation <$> liftExcept (Interpolation.checked strings expressions placeholders)
  | ast => .expression <$> ast.lower root span
where
  liftExcept {α : Type} (result : Except CompileError α) : Lower α :=
    MonadExcept.ofExcept result

def stringLiteral (value : String) (span : SourceSpan) : Expr :=
  .literal (.string value) (some span)

/-- The kind of the binding that an input of some type makes. -/
def BindingKind.ofType : BindingType → BindingKind
  | .property => .property
  | .twoWay => .twoWayProperty
  | .attr => .attr
  | .cssClass => .className
  | .style => .styleProperty
  | .animation => .animation

/-! ## Listeners -/

/-- The expressions that an event handler evaluates, one after the other. -/
def handlerSteps : Ast → List Ast
  | .chain _ expressions => expressions
  | ast => [ast]

/-- The statements of a handler: each expression in turn, and the last one is returned. -/
def handlerStatements (exprs : List Expr) (last : Expr) : List UpdateOp :=
  exprs.map (fun expr => .statement (.expression expr expr.span)) ++
    [.statement (.return_ last last.span)]

def lowerHandler (root : Xref) (handler : Ast) (event : String) (span : SourceSpan) :
    Lower (OpList UpdateOp) := do
  let exprs ← lowerAll root (some span) (handlerSteps handler)
  match exprs.getLast? with
  | none => throw (.emptyHandler event span)
  | some last =>
      let list ← Ids.freshList
      return OpList.ofList list (handlerStatements exprs.dropLast last)

/-- An animation event has to say which phase of the animation it means. -/
def checkAnimationPhase (event : Template.BoundEvent) : Lower Unit :=
  if event.type = .animation ∧ event.phase.isNone then
    throw (.missingAnimationPhase event.name event.span)
  else
    return ()

def lowerListener (root target : Xref) (slot : Slot) (tag : Option String)
    (event : Template.BoundEvent) : Lower Listener := do
  checkAnimationPhase event
  let handler ← lowerHandler root event.handler.ast event.name event.handlerSpan
  pure
    { target
      slot
      isHost := false
      name := event.name
      tag
      handler
      isAnimation := event.phase.isSome
      phase := event.phase
      eventTarget := event.target
      span := event.span }

def lowerListeners (root target : Xref) (slot : Slot) (tag : Option String)
    (events : List Template.BoundEvent) : Lower (List CreateOp) :=
  events.mapM fun event => .listener <$> lowerListener root target slot tag event

/-- Announces the translated attributes of an element, if it has any. -/
def lowerI18nAttributes (hasMessage : Bool) (target : Xref) : Lower (List CreateOp) := do
  if hasMessage then
    let xref ← Ids.freshXref
    return [.i18nAttributes { xref, target }]
  else
    return []

/-! ## Elements -/

/-- The binding of an attribute with a literal value. -/
def lowerTextAttribute (target : Xref) (securityTag : String)
    (attr : Template.TextAttribute) : Lower Binding := do
  let message ← messageOf attr.i18n "TextAttribute" attr.span
  pure
    { target
      kind := .attr
      name := attr.name
      value := .expression (stringLiteral attr.value attr.span)
      unit := none
      security := [SecurityContext.ofProperty securityTag attr.name true]
      isText := true
      isStructural := false
      templateKind := none
      message
      span := attr.span }

def lowerInput (root target : Xref) (input : Template.BoundAttribute) : Lower Binding := do
  let message ← messageOf input.i18n "BoundAttribute" input.span
  let value ← lowerValue root message (some input.span) input.value.ast
  pure
    { target
      kind := .ofType input.type
      name := input.name
      value
      unit := input.unit
      security := [input.security]
      isText := false
      isStructural := false
      templateKind := none
      message
      span := input.span }

def lowerElementBindings (root xref : Xref) (slot : Slot) (name tag : String)
    (attributes : List Template.TextAttribute) (inputs : List Template.BoundAttribute)
    (outputs : List Template.BoundEvent) : Lower Fragment := do
  let texts ← attributes.mapM (lowerTextAttribute xref name)
  let dynamics ← inputs.mapM (lowerInput root xref)
  let bindings := texts ++ dynamics
  let listeners ← lowerListeners root xref slot (some tag) outputs
  let translated ← lowerI18nAttributes (bindings.any (·.message.isSome)) xref
  return { create := listeners ++ translated, update := bindings.map .binding }

/-! ## Embedded templates -/

def ngTemplateTag : String := "ng-template"

/-- The tag under which projected content is classified. -/
def ngContentTag : String := "ng-content"

/-- An attribute of a template as it is written: a text, or an expression. -/
inductive AttributeSource
  | text (value : String)
  | ast (ast : Ast)

/-- An attribute of a template, however it was written. -/
structure TemplateInput where
  type : BindingType
  name : String
  source : AttributeSource
  unit : Option String
  security : SecurityContext
  isStructural : Bool
  i18n : Option I18n.Meta
  /-- The kind of node that is named when the node carries the wrong localization data. -/
  node : String
  span : SourceSpan

namespace TemplateInput

def ofText (isStructural : Bool) (attr : Template.TextAttribute) : TemplateInput :=
  { type := .attr
    name := attr.name
    source := .text attr.value
    unit := none
    security := SecurityContext.ofProperty ngTemplateTag attr.name true
    isStructural
    i18n := attr.i18n
    node := "TextAttribute"
    span := attr.span }

def ofBound (isStructural : Bool) (attr : Template.BoundAttribute) : TemplateInput :=
  { type := attr.type
    name := attr.name
    source := .ast attr.value.ast
    unit := attr.unit
    security := attr.security
    isStructural
    i18n := attr.i18n
    node := "BoundAttribute"
    span := attr.span }

def ofTemplateAttribute : Template.TemplateAttribute → TemplateInput
  | .text attr => ofText true attr
  | .bound attr => ofBound true attr

def isText (input : TemplateInput) : Bool :=
  match input.source with
  | .text _ => true
  | .ast _ => false

end TemplateInput

/-- What an attribute of a template becomes, if anything. -/
inductive TemplateBinding
  | binding (op : Binding)
  | extracted (op : ExtractedAttribute)

def TemplateBinding.hasMessage : TemplateBinding → Bool
  | .binding op => op.message.isSome
  | .extracted op => op.message.isSome

/-- The kind of property that an attribute on the template of a structural directive is extracted
as, when it really belongs to the element inside. -/
def extractedKind? (type : BindingType) : Option BindingKind :=
  match type with
  | .property | .cssClass | .style => some .property
  | .twoWay => some .twoWayProperty
  | .attr | .animation => none

/-- The kind of binding on a template.  Dynamic attributes, classes and styles of an explicit
template are bound as properties. -/
def templateBindingKind (kind : TemplateKind) (type : BindingType) (isText : Bool) :
    BindingKind :=
  if kind = .ngTemplate ∧ (type = .cssClass ∨ type = .style ∨ (type = .attr ∧ isText = false)) then
    .property
  else
    .ofType type

/-- The binding of a template's attribute.  On the template of a structural directive, what belongs
to the element inside only leaves its name, or nothing at all. -/
def lowerTemplateInput (root xref : Xref) (kind : TemplateKind) (input : TemplateInput) :
    Lower (Option TemplateBinding) := do
  let message ← messageOf input.i18n input.node input.span
  let extracted :=
    if kind = .structural ∧ input.isStructural = false then extractedKind? input.type else none
  match extracted with
  | some extractedKind =>
      return some (.extracted
        { target := xref
          kind := extractedKind
          name := input.name
          message
          security := [input.security] })
  | none =>
      if kind = .structural ∧ input.isText = false ∧
          (input.type = .attr ∨ input.type = .animation) then
        return none
      else
        let value ← match input.source with
          | .text text => pure (.expression (stringLiteral text input.span))
          | .ast ast => lowerValue root message (some input.span) ast
        return some (.binding
          { target := xref
            kind := templateBindingKind kind input.type input.isText
            name := input.name
            value
            unit := input.unit
            security := [input.security]
            isText := input.isText
            isStructural := input.isStructural
            templateKind := some kind
            message
            span := input.span })

/-- What an event of a template becomes: a listener on an explicit template, the name of a property
on the template of a structural directive. -/
def lowerTemplateOutput (root xref : Xref) (slot : Slot) (tag : Option String)
    (kind : TemplateKind) (event : Template.BoundEvent) : Lower (List CreateOp) := do
  checkAnimationPhase event
  match kind with
  | .ngTemplate =>
      let listener ← lowerListener root xref slot tag event
      return [.listener listener]
  | .structural =>
      if event.type = .animation then
        return []
      else
        return [.extractedAttribute
          { target := xref
            kind := .property
            name := event.name
            security := [SecurityContext.ofProperty ngTemplateTag event.name false] }]
  | .block => return []

def lowerTemplateBindings (root xref : Xref) (slot : Slot) (tag : Option String)
    (kind : TemplateKind) (inputs : List TemplateInput) (outputs : List Template.BoundEvent) :
    Lower Fragment := do
  let lowered ← inputs.mapM (lowerTemplateInput root xref kind)
  let bindings := lowered.filterMap id
  let events ← outputs.mapM (lowerTemplateOutput root xref slot tag kind)
  let translated ← lowerI18nAttributes (bindings.any (·.hasMessage)) xref
  pure
    { create :=
        bindings.filterMap (fun
          | .extracted op => some (.extractedAttribute op)
          | .binding _ => none) ++
          events.flatten ++ translated
      update :=
        bindings.filterMap fun
          | .binding op => some (.binding op)
          | .extracted _ => none }

/-! ## Branches of control flow blocks -/

/-- The one element or template that a branch consists of, for content projection. -/
structure BranchRoot where
  attributes : List Template.TextAttribute
  inputs : List Template.BoundAttribute
  tag : String

/-- Comments and declarations do not count among the nodes of a branch. -/
def countsInBranch : Template.Node → Bool
  | .comment _ | .letDeclaration _ => false
  | _ => true

def branchRoot? (children : List Template.Node) : Option BranchRoot :=
  match children.filter countsInBranch with
  | [.element element] =>
      some { attributes := element.attributes, inputs := element.inputs, tag := element.name }
  | [.template template] =>
      template.tagName.map fun tag =>
        { attributes := template.attributes, inputs := template.inputs, tag }
  | _ => none

/-- Attributes that start an animation are not copied. -/
def isAnimationName (name : String) : Bool :=
  "animate.".toList.isPrefixOf name.toList

/-- The tag that stands for a branch of a control flow block in content projection, and copies of
the static attributes and property names of its one element. -/
def lowerBranchRoot (xref : Xref) (children : List Template.Node) :
    Lower (Option String × Fragment) :=
  match branchRoot? children with
  | none => return (none, {})
  | some root => do
      let bindings ←
        (root.attributes.filter fun attr => !isAnimationName attr.name).mapM
          (lowerTextAttribute xref ngTemplateTag)
      let inputs := root.inputs.filter fun input => input.type ≠ .animation ∧ input.type ≠ .attr
      let extracted := inputs.map fun input =>
        CreateOp.extractedAttribute
          { target := xref
            kind := .property
            name := input.name
            security := [SecurityContext.ofProperty ngTemplateTag input.name true] }
      pure
        (if root.tag = ngTemplateTag then none else some root.tag,
          { create := extracted, update := bindings.map .binding })

end TemplateLowering
