import TemplateLowering.Compact.Name
import TemplateLowering.Interchange.Ast
import TemplateLowering.Interchange.Message
import TemplateLowering.Template.Node

/-!
# Texts, attributes, events and variables in the interchange form
-/

namespace TemplateLowering.Interchange

open Compact (bindingTypes eventTypes securityContexts writeName)
open Template

/-! ## Reading -/

def i18nField : Fields (Option I18n.Meta) := field? readMeta "i18n"

def textNode : Fields Text :=
  .mk <$> text "value" <*> sourceSpan

def boundText : Fields BoundText :=
  .mk <$> field readSourced "value" <*> sourceSpan <*> i18nField

def textAttribute : Fields TextAttribute :=
  .mk <$> text "name" <*> text "value" <*> sourceSpan <*> i18nField

def boundAttribute : Fields BoundAttribute :=
  .mk <$> text "name" <*> field (readVariant bindingTypes) "type_" <*>
    field (readVariant securityContexts) "security_context" <*> field readSourced "value" <*>
    text? "unit" <*> sourceSpan <*> i18nField

def readTemplateAttribute : Reader TemplateAttribute :=
  readOutside [("Bound", .bound <$> boundAttribute), ("Text", .text <$> textAttribute)]

def readBoundEvent : Reader BoundEvent :=
  record
    (.mk <$> text "name" <*> field (readVariant eventTypes) "type_" <*>
      field readSourced "handler" <*> text? "target" <*> text? "phase" <*> sourceSpan <*>
      field readSpan "handler_span")

def readVariable : Reader Variable :=
  record (.mk <$> text "name" <*> text "value" <*> sourceSpan)

def readReference : Reader Reference :=
  record (.mk <$> text "name" <*> text "value" <*> sourceSpan)

def readIcuPlaceholder : Reader IcuPlaceholder :=
  readOutside [("Text", .text <$> textNode), ("BoundText", .boundText <$> boundText)]

def startSpan : Fields SourceSpan := field readSpan "start_source_span"
def endSpan : Fields (Option SourceSpan) := field? readSpan "end_source_span"

def readBlockSpans : Reader BlockSpans :=
  record (.mk <$> sourceSpan <*> startSpan <*> endSpan)

def readHostProperty : Reader HostProperty :=
  record
    (.mk <$> text "name" <*> field readSourced "expression" <*> field readBool "is_animation" <*>
      sourceSpan)

def readHostEvent : Reader HostEvent :=
  record
    (.mk <$> text "name" <*> text? "target_or_phase" <*>
      field (readVariant eventTypes) "event_type" <*> field readSourced "handler" <*> sourceSpan <*>
      field readSpan "handler_span")

/-! ## Writing -/

def textFields (text : Text) : List (String × Json) :=
  [("value", .text text.value), ("source_span", writeSpan text.span)]

def boundTextFields (text : BoundText) : List (String × Json) :=
  [("value", writeSourced text.value), ("source_span", writeSpan text.span),
    ("i18n", writeMeta? text.i18n)]

def writeBoundText (text : BoundText) : Json :=
  .record (boundTextFields text)

def writeTextAttribute (attr : TextAttribute) : Json :=
  .record
    [("name", .text attr.name), ("value", .text attr.value), ("source_span", writeSpan attr.span),
      ("i18n", writeMeta? attr.i18n)]

def writeBoundAttribute (attr : BoundAttribute) : Json :=
  .record
    [("name", .text attr.name), ("type_", writeName bindingTypes attr.type),
      ("security_context", writeName securityContexts attr.security),
      ("value", writeSourced attr.value), ("unit", .optText attr.unit),
      ("source_span", writeSpan attr.span), ("i18n", writeMeta? attr.i18n)]

def writeTemplateAttribute : TemplateAttribute → Json
  | .bound attr => .record [("Bound", writeBoundAttribute attr)]
  | .text attr => .record [("Text", writeTextAttribute attr)]

def writeBoundEvent (event : BoundEvent) : Json :=
  .record
    [("name", .text event.name), ("type_", writeName eventTypes event.type),
      ("handler", writeSourced event.handler), ("target", .optText event.target),
      ("phase", .optText event.phase), ("source_span", writeSpan event.span),
      ("handler_span", writeSpan event.handlerSpan)]

def writeVariable (declared : Variable) : Json :=
  .record
    [("name", .text declared.name), ("value", .text declared.value),
      ("source_span", writeSpan declared.span)]

def writeReference (reference : Reference) : Json :=
  .record
    [("name", .text reference.name), ("value", .text reference.value),
      ("source_span", writeSpan reference.span)]

def writeIcuPlaceholder : IcuPlaceholder → Json
  | .text text => .record [("Text", .record (textFields text))]
  | .boundText text => .record [("BoundText", writeBoundText text)]

def writeBlockSpans (block : BlockSpans) : Json :=
  .record
    [("source_span", writeSpan block.whole), ("start_source_span", writeSpan block.start),
      ("end_source_span", writeSpan? block.stop)]

def writeEntries {α : Type} (write : α → Json) (map : OrderedMap String α) : Json :=
  .record (map.entries.map fun (name, value) => (name, write value))

def writeHostProperty (property : HostProperty) : Json :=
  .record
    [("name", .text property.name), ("expression", writeSourced property.expression),
      ("is_animation", .bool property.isAnimation), ("source_span", writeSpan property.span)]

def writeHostEvent (event : HostEvent) : Json :=
  .record
    [("name", .text event.name), ("target_or_phase", .optText event.targetOrPhase),
      ("event_type", writeName eventTypes event.type),
      ("handler", writeSourced event.handler), ("source_span", writeSpan event.span),
      ("handler_span", writeSpan event.handlerSpan)]

end TemplateLowering.Interchange
