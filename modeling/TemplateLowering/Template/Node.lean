import TemplateLowering.Data.OrderedMap
import TemplateLowering.I18n.Message
import TemplateLowering.Security
import TemplateLowering.Template.Ast

/-!
# Template nodes

The tree of a parsed component template: elements, texts, embedded templates, projected content,
control flow blocks, ICU expressions and declarations.
-/

namespace TemplateLowering

/-- What the value of an attribute written in brackets is bound to. -/
inductive BindingType
  | property
  | attr
  | cssClass
  | style
  | animation
  | twoWay
deriving DecidableEq, Inhabited, Repr

/-- What an event handler listens to. -/
inductive EventType
  | regular
  | animation
  | twoWay
deriving DecidableEq, Inhabited, Repr

namespace Template

/-- A literal text, or a comment, and where it stands. -/
structure Text where
  value : String
  span : SourceSpan
deriving Inhabited

/-- A text with interpolated expressions. -/
structure BoundText where
  value : SourcedAst
  span : SourceSpan
  i18n : Option I18n.Meta
deriving Inhabited

structure TextAttribute where
  name : String
  value : String
  span : SourceSpan
  i18n : Option I18n.Meta
deriving Inhabited

structure BoundAttribute where
  name : String
  type : BindingType
  security : SecurityContext
  value : SourcedAst
  unit : Option String
  span : SourceSpan
  i18n : Option I18n.Meta
deriving Inhabited

structure BoundEvent where
  name : String
  type : EventType
  handler : SourcedAst
  target : Option String
  phase : Option String
  span : SourceSpan
  handlerSpan : SourceSpan
deriving Inhabited

/-- An attribute on the template of a structural directive. -/
inductive TemplateAttribute
  | bound (bound : BoundAttribute)
  | text (text : TextAttribute)
deriving Inhabited

/-- A template variable. -/
structure Variable where
  name : String
  value : String
  span : SourceSpan
deriving Inhabited

/-- A reference to an element or a template. -/
structure Reference where
  name : String
  value : String
  span : SourceSpan
deriving Inhabited

/-- The spans of a control flow block. -/
structure BlockSpans where
  whole : SourceSpan
  start : SourceSpan
  stop : Option SourceSpan
deriving Inhabited

/-- What makes a deferred block load. -/
inductive Trigger
  | bound (value : Ast) (span : SourceSpan)
  | never (span : SourceSpan)
  | idle (span : SourceSpan)
  | immediate (span : SourceSpan)
  | hover (reference : Option String) (span : SourceSpan)
  | timer (delay : Int) (span : SourceSpan)
  | interaction (reference : Option String) (span : SourceSpan)
  | viewport (reference : Option String) (span : SourceSpan)
deriving Inhabited

def Trigger.kindName : Trigger → String
  | .bound .. => "Bound"
  | .never .. => "Never"
  | .idle .. => "Idle"
  | .immediate .. => "Immediate"
  | .hover .. => "Hover"
  | .timer .. => "Timer"
  | .interaction .. => "Interaction"
  | .viewport .. => "Viewport"

/-- The triggers of one kind (plain, prefetch or hydrate) of a deferred block. -/
structure TriggerSet where
  when_ : Option Trigger := none
  idle : Option Trigger := none
  immediate : Option Trigger := none
  hover : Option Trigger := none
  timer : Option Trigger := none
  interaction : Option Trigger := none
  viewport : Option Trigger := none
  never : Option Trigger := none
deriving Inhabited

namespace TriggerSet

/-- The triggers that are not conditions, in a fixed order. -/
def onTriggers (set : TriggerSet) : List Trigger :=
  [set.idle, set.immediate, set.timer, set.hover, set.interaction, set.viewport,
    set.never].filterMap id

def isEmpty (set : TriggerSet) : Bool :=
  set.when_.isNone && set.onTriggers.isEmpty

end TriggerSet

inductive IcuPlaceholder
  | text (text : Text)
  | boundText (text : BoundText)
deriving Inhabited

/-- An ICU expression of a template: the texts that its variables and placeholders stand for. -/
structure Icu where
  vars : OrderedMap String BoundText
  placeholders : OrderedMap String IcuPlaceholder
  span : SourceSpan
  i18n : Option I18n.Meta
deriving Inhabited

structure LetDeclaration where
  name : String
  value : Ast
  span : SourceSpan
  valueSpan : SourceSpan
deriving Inhabited

mutual

/-- A node of a component template. -/
inductive Node
  | comment (comment : Text)
  | text (text : Text)
  | boundText (text : BoundText)
  | element (element : Element)
  | template (template : EmbeddedTemplate)
  | content (content : Content)
  | ifBlock (branches : List IfBranch) (block : BlockSpans)
  | switchBlock (expression : Ast) (cases : List SwitchCase) (block : BlockSpans)
  | forBlock (block : ForBlock)
  | deferBlock (block : DeferBlock)
  | icu (icu : Icu)
  | letDeclaration (declaration : LetDeclaration)
  | unknownBlock (name : String) (span : SourceSpan)

structure Element where
  name : String
  attributes : List TextAttribute
  inputs : List BoundAttribute
  outputs : List BoundEvent
  children : List Node
  references : List Reference
  span : SourceSpan
  startSpan : SourceSpan
  endSpan : Option SourceSpan
  i18n : Option I18n.Meta

/-- An `ng-template`, or the template that a structural directive stands for. -/
structure EmbeddedTemplate where
  tagName : Option String
  attributes : List TextAttribute
  inputs : List BoundAttribute
  outputs : List BoundEvent
  templateAttributes : List TemplateAttribute
  children : List Node
  references : List Reference
  letVariables : List Variable
  span : SourceSpan
  startSpan : SourceSpan
  endSpan : Option SourceSpan
  i18n : Option I18n.Meta

/-- A place where content is projected, with its fallback. -/
structure Content where
  selector : String
  attributes : List TextAttribute
  children : List Node
  span : SourceSpan
  i18n : Option I18n.Meta

/-- A branch of an `@if` block; the last one may have no condition. -/
structure IfBranch where
  expression : Option Ast
  children : List Node
  aliasVariable : Option Variable
  block : BlockSpans
  i18n : Option I18n.Meta

/-- A case of a `@switch` block; the default case has no expression. -/
structure SwitchCase where
  expression : Option Ast
  children : List Node
  block : BlockSpans
  i18n : Option I18n.Meta

structure ForBlock where
  item : Variable
  expression : SourcedAst
  trackBy : SourcedAst
  contextVariables : List Variable
  children : List Node
  empty : Option ForEmpty
  block : BlockSpans
  mainSpan : SourceSpan
  i18n : Option I18n.Meta

/-- What a `@for` block shows when there is nothing to repeat. -/
structure ForEmpty where
  children : List Node
  block : BlockSpans
  i18n : Option I18n.Meta

structure DeferBlock where
  children : List Node
  triggers : TriggerSet
  prefetchTriggers : TriggerSet
  hydrateTriggers : TriggerSet
  placeholder : Option DeferPlaceholder
  loading : Option DeferLoading
  error : Option DeferError
  block : BlockSpans
  mainSpan : SourceSpan
  i18n : Option I18n.Meta

structure DeferPlaceholder where
  children : List Node
  minimumTime : Option Int
  block : BlockSpans
  i18n : Option I18n.Meta

structure DeferLoading where
  children : List Node
  afterTime : Option Int
  minimumTime : Option Int
  block : BlockSpans
  i18n : Option I18n.Meta

structure DeferError where
  children : List Node
  block : BlockSpans
  i18n : Option I18n.Meta

end

namespace Node

instance : Inhabited Node := ⟨.comment default⟩

def span : Node → SourceSpan
  | .comment n => n.span
  | .text n => n.span
  | .boundText n => n.span
  | .element n => n.span
  | .template n => n.span
  | .content n => n.span
  | .ifBlock _ block => block.whole
  | .switchBlock _ _ block => block.whole
  | .forBlock n => n.block.whole
  | .deferBlock n => n.block.whole
  | .icu n => n.span
  | .letDeclaration n => n.span
  | .unknownBlock _ span => span

/-- The name of a node's type, as it appears in messages. -/
def kindName : Node → String
  | .comment .. => "Comment"
  | .text .. => "Text"
  | .boundText .. => "BoundText"
  | .element .. => "Element"
  | .template .. => "Template"
  | .content .. => "Content"
  | .ifBlock .. => "IfBlock"
  | .switchBlock .. => "SwitchBlock"
  | .forBlock .. => "ForLoopBlock"
  | .deferBlock .. => "DeferredBlock"
  | .icu .. => "Icu"
  | .letDeclaration .. => "LetDeclaration"
  | .unknownBlock .. => "UnknownBlock"

end Node
end Template

/-- A property binding of a host element. -/
structure HostProperty where
  name : String
  expression : SourcedAst
  isAnimation : Bool
  span : SourceSpan
deriving Inhabited

/-- An event binding of a host element. -/
structure HostEvent where
  name : String
  targetOrPhase : Option String
  type : EventType
  handler : SourcedAst
  span : SourceSpan
  handlerSpan : SourceSpan
deriving Inhabited

end TemplateLowering
