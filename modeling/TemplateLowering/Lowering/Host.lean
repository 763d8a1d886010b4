import TemplateLowering.Lowering.Binding

/-!
# Lowering host bindings

The properties, attributes and events that a directive declares on the element it is applied to.
They become the operations of a job that has its root view only.
-/

namespace TemplateLowering

/-- A static attribute of a host element. -/
structure HostAttribute where
  name : String
  value : Expr
  span : SourceSpan
deriving Inhabited

/-- The host bindings of a component or directive. -/
structure HostBindings where
  component : String
  selector : String
  properties : List HostProperty
  attributes : List HostAttribute
  events : List HostEvent
deriving Inhabited

/-- The attribute that a property name of the form `attr.name` stands for. -/
def hostAttributeName? (name : String) : Option String :=
  let marker := "attr.".toList
  if marker.isPrefixOf name.toList then
    some (String.ofList (name.toList.drop marker.length))
  else
    none

/-- The kind of the binding that a host property makes. -/
def HostProperty.kind (property : HostProperty) : BindingKind :=
  if property.isAnimation then .animation
  else if (hostAttributeName? property.name).isSome then .attr
  else .property

/-- The contexts in which a host value may have to be sanitised. -/
def sensitiveContexts (selector name : String) (isAttribute : Bool) : List SecurityContext :=
  (SecurityContext.possibleContexts selector name isAttribute).filter (· ≠ .none)

def lowerHostProperty (root : Xref) (selector : String) (property : HostProperty) :
    Lower Binding := do
  let name := (hostAttributeName? property.name).getD property.name
  let value ← lowerValue root none (some property.span) property.expression.ast
  pure
    { target := root
      kind := property.kind
      name
      value
      unit := none
      security := sensitiveContexts selector name (property.kind = .attr)
      isText := false
      isStructural := false
      templateKind := none
      message := none
      span := property.span }

/-- A host attribute is a constant, so it counts as text. -/
def lowerHostAttribute (root : Xref) (selector : String) (attr : HostAttribute) : Binding :=
  { target := root
    kind := .attr
    name := attr.name
    value := .expression attr.value
    unit := none
    security := sensitiveContexts selector attr.name true
    isText := true
    isStructural := false
    templateKind := none
    message := none
    span := attr.span }

def lowerHostEvent (root : Xref) (event : HostEvent) : Lower Listener := do
  let (phase, eventTarget) :=
    if event.type = .animation then (event.targetOrPhase, none) else (none, event.targetOrPhase)
  let handler ← lowerHandler root event.handler.ast event.name event.handlerSpan
  pure
    { target := root
      slot := none
      isHost := true
      name := event.name
      tag := none
      handler
      isAnimation := phase.isSome
      phase
      eventTarget
      span := event.span }

/-- All host bindings: properties, then attributes, then events. -/
def lowerHostBindings (root : Xref) (host : HostBindings) : Lower Fragment := do
  let properties ← host.properties.mapM (lowerHostProperty root host.selector)
  let attributes := host.attributes.map (lowerHostAttribute root host.selector)
  let listeners ← host.events.mapM (lowerHostEvent root)
  return {
    create := listeners.map .listener
    update := (properties ++ attributes).map .binding }

end TemplateLowering
