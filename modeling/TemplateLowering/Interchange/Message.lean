import TemplateLowering.I18n.Message
import TemplateLowering.Interchange.Source

/-!
# Messages in the interchange form

The kind of a message node stands among its fields.
-/

namespace TemplateLowering.Interchange

open I18n (Icu IcuCase TagPlaceholder BlockPlaceholder Message Meta)

/-! ## Reading -/

/-- The cases of an ICU expression: a name that comes again keeps its first place and takes the last
node. -/
def casesOf (entries : List (String × I18n.Node)) : List IcuCase :=
  entries.foldl (fun cases (name, body) => I18n.insertCase name body cases) []

/-- The kinds of message nodes in the order of their numbers, given the reader of their parts. -/
def i18nCases (readPart : Reader I18n.Node) : List (String × Fields I18n.Node) :=
  let icu : Fields Icu :=
    .mk <$> text "expression" <*> text "type_" <*>
      (casesOf <$> field (readEntries readPart) "cases") <*> sourceSpan <*>
      text? "expression_placeholder"
  let children := list readPart "children"
  let tag : Fields TagPlaceholder :=
    .mk <$> text "tag" <*> text "start_name" <*> text "close_name" <*> children <*>
      field readBool "is_void" <*> sourceSpan
  let block : Fields BlockPlaceholder :=
    .mk <$> text "name" <*> list readText "parameters" <*> text "start_name" <*>
      text "close_name" <*> children <*> sourceSpan
  [("Text", .text <$> text "value" <*> sourceSpan),
    ("Container", .container <$> children <*> sourceSpan),
    ("Icu", .icu <$> icu),
    ("TagPlaceholder", .tagPlaceholder <$> tag),
    ("Placeholder", .placeholder <$> text "value" <*> text "name" <*> sourceSpan),
    ("IcuPlaceholder",
      .icuPlaceholder <$> field (record icu) "value" <*> text "name" <*> sourceSpan),
    ("BlockPlaceholder", .blockPlaceholder <$> block)]

/-- Reads a node of a message that is nested at most `fuel` deep. -/
def readI18nNodeWith : Nat → Reader I18n.Node
  | 0 => fun _ _ => none
  | fuel + 1 => readInside "kind" (i18nCases (readI18nNodeWith fuel))

def readI18nNode : Reader I18n.Node := fun nested j =>
  readI18nNodeWith (j.depth + 1) nested j

def readMessage : Reader Message :=
  record
    (.mk <$> list readI18nNode "nodes" <*> text "meaning" <*> text "description" <*>
      text "custom_id" <*> text "id" <*> text "message_string")

def readMeta : Reader Meta := fun nested j => do
  let { name, content, nested } ← taggedBeside? "metaKind" "value" nested j
  let value ← content
  match name with
  | "Message" => return .message (← readMessage nested value)
  | "Node" => return .node (← readI18nNode nested value)
  | _ => none

/-! ## Writing -/

mutual

def writeI18nNode : I18n.Node → Json
  | .text value span =>
      .record [("kind", .text "Text"), ("value", .text value), ("source_span", writeSpan span)]
  | .container children span =>
      .record
        [("kind", .text "Container"), ("children", .array (writeI18nNodes children)),
          ("source_span", writeSpan span)]
  | .icu icu => .record (("kind", .text "Icu") :: icuFields icu)
  | .tagPlaceholder placeholder =>
      .record (("kind", .text "TagPlaceholder") :: tagFields placeholder)
  | .placeholder value name span =>
      .record
        [("kind", .text "Placeholder"), ("value", .text value), ("name", .text name),
          ("source_span", writeSpan span)]
  | .icuPlaceholder value name span =>
      .record
        [("kind", .text "IcuPlaceholder"), ("value", .record (icuFields value)),
          ("name", .text name), ("source_span", writeSpan span)]
  | .blockPlaceholder placeholder =>
      .record (("kind", .text "BlockPlaceholder") :: blockFields placeholder)

def writeI18nNodes : List I18n.Node → List Json
  | [] => []
  | node :: nodes => writeI18nNode node :: writeI18nNodes nodes

def icuFields : Icu → List (String × Json)
  | { expression, type, cases, span, expressionPlaceholder } =>
      [("expression", .text expression), ("type_", .text type),
        ("cases", .record (caseFields cases)), ("source_span", writeSpan span),
        ("expression_placeholder", .optText expressionPlaceholder)]

def caseFields : List IcuCase → List (String × Json)
  | [] => []
  | { name, body } :: cases => (name, writeI18nNode body) :: caseFields cases

def tagFields : TagPlaceholder → List (String × Json)
  | { tag, startName, closeName, children, isVoid, span } =>
      [("tag", .text tag), ("start_name", .text startName), ("close_name", .text closeName),
        ("children", .array (writeI18nNodes children)), ("is_void", .bool isVoid),
        ("source_span", writeSpan span)]

def blockFields : BlockPlaceholder → List (String × Json)
  | { name, parameters, startName, closeName, children, span } =>
      [("name", .text name), ("parameters", .texts parameters), ("start_name", .text startName),
        ("close_name", .text closeName), ("children", .array (writeI18nNodes children)),
        ("source_span", writeSpan span)]

end

def writeMessage (message : Message) : Json :=
  .record
    [("nodes", .array (writeI18nNodes message.nodes)), ("meaning", .text message.meaning),
      ("description", .text message.description), ("custom_id", .text message.customId),
      ("id", .text message.id), ("message_string", .text message.messageString)]

def writeMeta : Meta → Json
  | .message message => .record [("metaKind", .text "Message"), ("value", writeMessage message)]
  | .node node => .record [("metaKind", .text "Node"), ("value", writeI18nNode node)]

def writeMeta? (i18n : Option Meta) : Json := .ofOption writeMeta i18n

end TemplateLowering.Interchange
