import TemplateLowering.Json.Field
import TemplateLowering.Job.Basic
import TemplateLowering.Template.Node

/-!
# Names in the compact form

The compact JSON form of templates, operations and jobs is meant for inspection: source spans are
byte offsets, and fields that say nothing are left out.  This module lists how enumerations are
spelled.
-/

namespace TemplateLowering.Compact

/-- The value that a name stands for. -/
def readName {α : Type} (names : List (String × α)) (default : α) (name : String) : α :=
  (names.lookup name).getD default

/-- The name of a value. -/
def nameOf {α : Type} [DecidableEq α] (names : List (String × α)) (value : α) : String :=
  ((names.find? fun entry => entry.2 = value).map Prod.fst).getD ""

def writeName {α : Type} [DecidableEq α] (names : List (String × α)) (value : α) : Json :=
  .text (nameOf names value)

def bindingTypes : List (String × BindingType) :=
  [("Property", .property), ("Attribute", .attr), ("Class", .cssClass), ("Style", .style),
    ("Animation", .animation), ("TwoWay", .twoWay)]

def eventTypes : List (String × EventType) :=
  [("Regular", .regular), ("Animation", .animation), ("TwoWay", .twoWay)]

def securityContexts : List (String × SecurityContext) :=
  [("NONE", .none), ("HTML", .html), ("STYLE", .style), ("SCRIPT", .script), ("URL", .url),
    ("ResourceUrl", .resourceUrl)]

def bindingKinds : List (String × BindingKind) :=
  [("Attribute", .attr), ("ClassName", .className), ("StyleProperty", .styleProperty),
    ("Property", .property), ("Template", .template), ("I18n", .i18n), ("Animation", .animation),
    ("TwoWayProperty", .twoWayProperty)]

def templateKinds : List (String × TemplateKind) :=
  [("NgTemplate", .ngTemplate), ("Structural", .structural), ("Block", .block)]

def namespaces : List (String × Namespace) :=
  [("HTML", .html), ("SVG", .svg), ("Math", .math)]

def contextKinds : List (String × I18nContextKind) :=
  [("RootI18n", .rootI18n), ("Icu", .icu), ("Attr", .attr)]

def triggerModifiers : List (String × TriggerModifier) :=
  [("None", .none), ("Prefetch", .prefetch), ("Hydrate", .hydrate)]

def binaryOperators : List (String × BinaryOperator) :=
  [("Equals", .equals), ("NotEquals", .notEquals), ("Assign", .assign), ("Identical", .identical),
    ("NotIdentical", .notIdentical), ("Minus", .minus), ("Plus", .plus), ("Divide", .divide),
    ("Multiply", .multiply), ("Modulo", .modulo), ("And", .and), ("Or", .or),
    ("BitwiseOr", .bitwiseOr), ("BitwiseAnd", .bitwiseAnd), ("Lower", .lower),
    ("LowerEquals", .lowerEquals), ("Bigger", .bigger), ("BiggerEquals", .biggerEquals),
    ("NullishCoalesce", .nullishCoalesce), ("Exponentiation", .exponentiation), ("In", .in_)]

def unaryOperators : List (String × UnaryOperator) :=
  [("Minus", .minus), ("Plus", .plus)]

def jobKinds : List (String × JobKind) :=
  [("Tmpl", .template), ("Host", .host), ("Both", .both)]

def compatibilityModes : List (String × CompatibilityMode) :=
  [("Normal", .normal), ("TemplateDefinitionBuilder", .templateDefinitionBuilder)]

/-! ## Numbers and spans -/

def readXref (j : Json) (key : String) : Xref :=
  ⟨j.natAt key⟩

def readXref? (j : Json) (key : String) : Option Xref :=
  (j.natAt? key).map Xref.mk

def writeXref (xref : Xref) : Json := .nat xref.index

def writeXref? (xref : Option Xref) : Json := .ofOption writeXref xref

/-- The file that a value belongs to. -/
def readSource (j : Json) : SourceFile :=
  { content := j.textAt "source", url := (j.textAt? "url").getD "t.html" }

/-- A span given by its two offsets; a missing one is empty and stands at the start. -/
def readSpan (file : SourceFile) : Json → SourceSpan
  | .array [start, stop] => .ofOffsets file (start.asNat?.getD 0) (stop.asNat?.getD 0)
  | _ => .ofOffsets file 0 0

def readSpanAt (file : SourceFile) (j : Json) (key : String) : SourceSpan :=
  readSpan file (j.get key)

def readSpanAt? (file : SourceFile) (j : Json) (key : String) : Option SourceSpan :=
  j.readAt? (readSpan file) key

/-- Offset, line and column of both ends. -/
def writeSpan (span : SourceSpan) : Json :=
  .ofList .nat
    [span.start.offset, span.start.line, span.start.col, span.stop.offset, span.stop.line,
      span.stop.col]

def writeSpan? (span : Option SourceSpan) : Json := .ofOption writeSpan span

end TemplateLowering.Compact
