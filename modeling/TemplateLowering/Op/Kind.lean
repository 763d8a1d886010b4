import TemplateLowering.Op.Id

/-!
# Small classifications

The kinds of bindings, embedded views, i18n contexts and deferred triggers that operations are
labelled with.
-/

namespace TemplateLowering

/-- The kind of a binding before it is specialised. -/
inductive BindingKind
  | attr
  | className
  | styleProperty
  | property
  | template
  | i18n
  | animation
  | twoWayProperty
deriving DecidableEq, Inhabited, Repr

def BindingKind.name : BindingKind → String
  | .attr => "Attribute"
  | .className => "ClassName"
  | .styleProperty => "StyleProperty"
  | .property => "Property"
  | .template => "Template"
  | .i18n => "I18n"
  | .animation => "Animation"
  | .twoWayProperty => "TwoWayProperty"

/-- Where an embedded view comes from: an explicit template, a structural directive, or a control
flow block. -/
inductive TemplateKind
  | ngTemplate
  | structural
  | block
deriving DecidableEq, Inhabited, Repr

inductive I18nContextKind
  | rootI18n
  | icu
  | attr
deriving DecidableEq, Inhabited, Repr

/-- Which part of loading a deferred block a trigger starts. -/
inductive TriggerModifier
  | none
  | prefetch
  | hydrate
deriving DecidableEq, Inhabited, Repr

/-- What makes a deferred block load, as an operation keeps it. -/
inductive DeferTrigger
  | idle
  | immediate
  | never
  | timer (delay : Int)
  | hover (targetName : Option String)
  | interaction (targetName : Option String)
  | viewport (targetName : Option String)
deriving DecidableEq, Inhabited, Repr

/-- A variable that an operation declares; its name is chosen later. -/
inductive SemanticVariable
  | context (view : Xref) (name : Option String)
  | identifier (identifier : String) (isLocal : Bool) (name : Option String)
  | savedView (view : Xref) (name : Option String)
  | aliasOf (identifier : String) (name : Option String)
deriving DecidableEq, Inhabited, Repr

end TemplateLowering
