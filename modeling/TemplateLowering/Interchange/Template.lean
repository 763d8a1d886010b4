import TemplateLowering.Interchange.Binding
import TemplateLowering.Interchange.Trigger

/-!
# Template nodes in the interchange form

The type of a node stands among its fields.
-/

namespace TemplateLowering.Interchange

open Template

/-! ## Reading -/

/-- The types of template nodes in the order of their numbers, given the reader of their children. -/
def nodeCases (readChild : Reader Node) : List (String × Fields Node) :=
  let attributes := list (record textAttribute) "attributes"
  let inputs := list (record boundAttribute) "inputs"
  let outputs := list readBoundEvent "outputs"
  let references := list readReference "references"
  let children := list readChild "children"
  let block := field readBlockSpans "block"
  let mainSpan := field readSpan "main_block_span"
  let element : Fields Element :=
    .mk <$> text "name" <*> attributes <*> inputs <*> outputs <*> children <*> references <*>
      sourceSpan <*> startSpan <*> endSpan <*> i18nField
  let template : Fields EmbeddedTemplate :=
    .mk <$> text? "tag_name" <*> attributes <*> inputs <*> outputs <*>
      list readTemplateAttribute "template_attrs" <*> children <*> references <*>
      list readVariable "variables" <*> sourceSpan <*> startSpan <*> endSpan <*> i18nField
  let content : Fields Content :=
    .mk <$> text "selector" <*> attributes <*> children <*> sourceSpan <*> i18nField
  let branch : Fields IfBranch :=
    .mk <$> field? readAst "expression" <*> children <*> field? readVariable "expression_alias" <*>
      block <*> i18nField
  let switchCase : Fields SwitchCase :=
    .mk <$> field? readAst "expression" <*> children <*> block <*> i18nField
  let empty : Fields ForEmpty := .mk <$> children <*> block <*> i18nField
  let forBlock : Fields ForBlock :=
    .mk <$> field readVariable "item" <*> field readSourced "expression" <*>
      field readSourced "track_by" <*> list readVariable "context_variables" <*> children <*>
      field? (record empty) "empty" <*> block <*> mainSpan <*> i18nField
  let minimumTime := field? readInt "minimum_time"
  let placeholder : Fields DeferPlaceholder :=
    .mk <$> children <*> minimumTime <*> block <*> i18nField
  let loading : Fields DeferLoading :=
    .mk <$> children <*> field? readInt "after_time" <*> minimumTime <*> block <*> i18nField
  let error : Fields DeferError := .mk <$> children <*> block <*> i18nField
  let triggers := field readTriggerSet
  let deferBlock : Fields DeferBlock :=
    .mk <$> children <*> triggers "triggers" <*> triggers "prefetch_triggers" <*>
      triggers "hydrate_triggers" <*> field? (record placeholder) "placeholder" <*>
      field? (record loading) "loading" <*> field? (record error) "error" <*> block <*>
      mainSpan <*> i18nField
  let icu : Fields Template.Icu :=
    .mk <$> (.ofList <$> field (readEntries (record boundText)) "vars") <*>
      (.ofList <$> field (readEntries readIcuPlaceholder) "placeholders") <*> sourceSpan <*>
      i18nField
  let declaration : Fields LetDeclaration :=
    .mk <$> text "name" <*> field readAst "value" <*> sourceSpan <*> field readSpan "value_span"
  [("Comment", .comment <$> textNode), ("Text", .text <$> textNode),
    ("BoundText", .boundText <$> boundText), ("Element", .element <$> element),
    ("Template", .template <$> template), ("Content", .content <$> content),
    ("IfBlock", .ifBlock <$> list (record branch) "branches" <*> block),
    ("SwitchBlock",
      .switchBlock <$> field readAst "expression" <*> list (record switchCase) "cases" <*> block),
    ("ForLoopBlock", .forBlock <$> forBlock), ("DeferredBlock", .deferBlock <$> deferBlock),
    ("Icu", .icu <$> icu), ("LetDeclaration", .letDeclaration <$> declaration),
    ("UnknownBlock", .unknownBlock <$> text "name" <*> sourceSpan)]

/-- Reads a node that is nested at most `fuel` deep. -/
def readNodeWith : Nat → Reader Node
  | 0 => fun _ _ => none
  | fuel + 1 => readInside "node" (nodeCases (readNodeWith fuel))

def readNode : Reader Node := fun nested j =>
  readNodeWith (j.depth + 1) nested j

/-! ## Writing -/

mutual

def writeNode : Node → Json
  | .comment text => .record (("node", .text "Comment") :: textFields text)
  | .text text => .record (("node", .text "Text") :: textFields text)
  | .boundText text => .record (("node", .text "BoundText") :: boundTextFields text)
  | .element element => writeElement element
  | .template template => writeEmbeddedTemplate template
  | .content content => writeContent content
  | .ifBlock branches block =>
      .record
        [("node", .text "IfBlock"), ("branches", .array (writeIfBranches branches)),
          ("block", writeBlockSpans block)]
  | .switchBlock expression cases block =>
      .record
        [("node", .text "SwitchBlock"), ("expression", writeAst expression),
          ("cases", .array (writeSwitchCases cases)), ("block", writeBlockSpans block)]
  | .forBlock block => writeForBlock block
  | .deferBlock block => writeDeferBlock block
  | .icu icu =>
      .record
        [("node", .text "Icu"), ("vars", writeEntries writeBoundText icu.vars),
          ("placeholders", writeEntries writeIcuPlaceholder icu.placeholders),
          ("source_span", writeSpan icu.span), ("i18n", writeMeta? icu.i18n)]
  | .letDeclaration declaration =>
      .record
        [("node", .text "LetDeclaration"), ("name", .text declaration.name),
          ("value", writeAst declaration.value), ("source_span", writeSpan declaration.span),
          ("value_span", writeSpan declaration.valueSpan)]
  | .unknownBlock name span =>
      .record
        [("node", .text "UnknownBlock"), ("name", .text name), ("source_span", writeSpan span)]

def writeNodes : List Node → List Json
  | [] => []
  | node :: nodes => writeNode node :: writeNodes nodes

def writeElement : Element → Json
  | { name, attributes, inputs, outputs, children, references, span, startSpan, endSpan, i18n } =>
      .record
        [("node", .text "Element"), ("name", .text name),
          ("attributes", .ofList writeTextAttribute attributes),
          ("inputs", .ofList writeBoundAttribute inputs),
          ("outputs", .ofList writeBoundEvent outputs), ("children", .array (writeNodes children)),
          ("references", .ofList writeReference references), ("source_span", writeSpan span),
          ("start_source_span", writeSpan startSpan), ("end_source_span", writeSpan? endSpan),
          ("i18n", writeMeta? i18n)]

def writeEmbeddedTemplate : EmbeddedTemplate → Json
  | { tagName, attributes, inputs, outputs, templateAttributes, children, references, letVariables,
      span, startSpan, endSpan, i18n } =>
      .record
        [("node", .text "Template"), ("tag_name", .optText tagName),
          ("attributes", .ofList writeTextAttribute attributes),
          ("inputs", .ofList writeBoundAttribute inputs),
          ("outputs", .ofList writeBoundEvent outputs),
          ("template_attrs", .ofList writeTemplateAttribute templateAttributes),
          ("children", .array (writeNodes children)),
          ("references", .ofList writeReference references),
          ("variables", .ofList writeVariable letVariables), ("source_span", writeSpan span),
          ("start_source_span", writeSpan startSpan), ("end_source_span", writeSpan? endSpan),
          ("i18n", writeMeta? i18n)]

def writeContent : Content → Json
  | { selector, attributes, children, span, i18n } =>
      .record
        [("node", .text "Content"), ("selector", .text selector),
          ("attributes", .ofList writeTextAttribute attributes),
          ("children", .array (writeNodes children)), ("source_span", writeSpan span),
          ("i18n", writeMeta? i18n)]

def writeIfBranches : List IfBranch → List Json
  | [] => []
  | { expression, children, aliasVariable, block, i18n } :: branches =>
      .record
        [("expression", .ofOption writeAst expression), ("children", .array (writeNodes children)),
          ("expression_alias", .ofOption writeVariable aliasVariable),
          ("block", writeBlockSpans block), ("i18n", writeMeta? i18n)] :: writeIfBranches branches

def writeSwitchCases : List SwitchCase → List Json
  | [] => []
  | { expression, children, block, i18n } :: cases =>
      .record
        [("expression", .ofOption writeAst expression), ("children", .array (writeNodes children)),
          ("block", writeBlockSpans block), ("i18n", writeMeta? i18n)] :: writeSwitchCases cases

def writeForBlock : ForBlock → Json
  | { item, expression, trackBy, contextVariables, children, empty, block, mainSpan, i18n } =>
      .record
        [("node", .text "ForLoopBlock"), ("item", writeVariable item),
          ("expression", writeSourced expression), ("track_by", writeSourced trackBy),
          ("context_variables", .ofList writeVariable contextVariables),
          ("children", .array (writeNodes children)), ("empty", writeForEmpty? empty),
          ("block", writeBlockSpans block), ("main_block_span", writeSpan mainSpan),
          ("i18n", writeMeta? i18n)]

def writeForEmpty? : Option ForEmpty → Json
  | none => .null
  | some { children, block, i18n } =>
      .record
        [("children", .array (writeNodes children)), ("block", writeBlockSpans block),
          ("i18n", writeMeta? i18n)]

def writeDeferBlock : DeferBlock → Json
  | { children, triggers, prefetchTriggers, hydrateTriggers, placeholder, loading, error, block,
      mainSpan, i18n } =>
      .record
        [("node", .text "DeferredBlock"), ("children", .array (writeNodes children)),
          ("triggers", writeTriggerSet triggers),
          ("prefetch_triggers", writeTriggerSet prefetchTriggers),
          ("hydrate_triggers", writeTriggerSet hydrateTriggers),
          ("placeholder", writeDeferPlaceholder? placeholder),
          ("loading", writeDeferLoading? loading), ("error", writeDeferError? error),
          ("block", writeBlockSpans block), ("main_block_span", writeSpan mainSpan),
          ("i18n", writeMeta? i18n)]

def writeDeferPlaceholder? : Option DeferPlaceholder → Json
  | none => .null
  | some { children, minimumTime, block, i18n } =>
      .record
        [("children", .array (writeNodes children)), ("minimum_time", .optInt minimumTime),
          ("block", writeBlockSpans block), ("i18n", writeMeta? i18n)]

def writeDeferLoading? : Option DeferLoading → Json
  | none => .null
  | some { children, afterTime, minimumTime, block, i18n } =>
      .record
        [("children", .array (writeNodes children)), ("after_time", .optInt afterTime),
          ("minimum_time", .optInt minimumTime), ("block", writeBlockSpans block),
          ("i18n", writeMeta? i18n)]

def writeDeferError? : Option DeferError → Json
  | none => .null
  | some { children, block, i18n } =>
      .record
        [("children", .array (writeNodes children)), ("block", writeBlockSpans block),
          ("i18n", writeMeta? i18n)]

end

end TemplateLowering.Interchange
