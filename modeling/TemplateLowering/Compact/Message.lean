import TemplateLowering.Compact.Name

/-!
# Messages in the compact form
-/

namespace TemplateLowering.Compact

open I18n (Icu IcuCase TagPlaceholder BlockPlaceholder Message)

/-! ## Reading -/

def readI18nNodeWith (file : SourceFile) : Nat → Json → I18n.Node
  | 0, _ => default
  | fuel + 1, j =>
      let span := readSpanAt file j "span"
      let children := j.readAllAt (readI18nNodeWith file fuel) "children"
      let icu (value : Json) : Icu :=
        { expression := value.textAt "expression"
          type := value.textAt "type"
          cases := (value.pairsAt (readI18nNodeWith file fuel) "cases").foldl
            (fun cases (name, body) => I18n.insertCase name body cases) []
          span := readSpanAt file value "span"
          expressionPlaceholder := value.textAt? "expression_placeholder" }
      match j.textAt "kind" with
      | "Container" => .container children span
      | "Icu" => .icu (icu j)
      | "TagPlaceholder" =>
          .tagPlaceholder
            { tag := j.textAt "tag", startName := j.textAt "start_name",
              closeName := j.textAt "close_name", children, isVoid := j.boolAt "is_void", span }
      | "Placeholder" => .placeholder (j.textAt "value") (j.textAt "name") span
      | "IcuPlaceholder" => .icuPlaceholder (icu (j.get "value")) (j.textAt "name") span
      | "BlockPlaceholder" =>
          .blockPlaceholder
            { name := j.textAt "name", parameters := j.textsAt "parameters",
              startName := j.textAt "start_name", closeName := j.textAt "close_name", children,
              span }
      | _ => .text (j.textAt "value") span

def readI18nNode (file : SourceFile) (j : Json) : I18n.Node :=
  readI18nNodeWith file (j.depth + 1) j

def readTagPlaceholder? (file : SourceFile) (j : Json) (key : String) : Option TagPlaceholder :=
  match j.readAt? (readI18nNode file) key with
  | some (.tagPlaceholder placeholder) => some placeholder
  | _ => none

def readBlockPlaceholder? (file : SourceFile) (j : Json) (key : String) :
    Option BlockPlaceholder :=
  match j.readAt? (readI18nNode file) key with
  | some (.blockPlaceholder placeholder) => some placeholder
  | _ => none

def readMessage (file : SourceFile) (j : Json) : Message :=
  { nodes := j.readAllAt (readI18nNode file) "nodes"
    meaning := j.textAt "meaning"
    description := j.textAt "description"
    customId := j.textAt "custom_id"
    id := j.textAt "id"
    messageString := j.textAt "message_string" }

def readMeta (file : SourceFile) (j : Json) : I18n.Meta :=
  if j.textAt "kind" = "Message" then .message (readMessage file j)
  else .node (readI18nNode file j)

/-- What a template node says about localization. -/
def readMetaOf (file : SourceFile) (j : Json) : Option I18n.Meta :=
  j.readAt? (readMeta file) "i18n"

/-! ## Writing -/

mutual

def writeI18nNode : I18n.Node → Json
  | .text value span =>
      .slim [("kind", .text "Text"), ("value", .text value), ("span", writeSpan span)]
  | .container children span =>
      .slim
        [("kind", .text "Container"), ("children", .array (writeI18nNodes children)),
          ("span", writeSpan span)]
  | .icu value => .slim (("kind", .text "Icu") :: icuFields value)
  | .tagPlaceholder placeholder => writeTag placeholder
  | .placeholder value name span =>
      .slim
        [("kind", .text "Placeholder"), ("value", .text value), ("name", .text name),
          ("span", writeSpan span)]
  | .icuPlaceholder value name span =>
      .slim
        [("kind", .text "IcuPlaceholder"), ("value", .slim (icuFields value)),
          ("name", .text name), ("span", writeSpan span)]
  | .blockPlaceholder placeholder => writeBlock placeholder

def writeI18nNodes : List I18n.Node → List Json
  | [] => []
  | node :: nodes => writeI18nNode node :: writeI18nNodes nodes

def icuFields : Icu → List (String × Json)
  | { expression, type, cases, span, expressionPlaceholder } =>
      [("expression", .text expression), ("type", .text type),
        ("cases", .array (writeCases cases)),
        ("expression_placeholder", .optText expressionPlaceholder), ("span", writeSpan span)]

def writeCases : List IcuCase → List Json
  | [] => []
  | { name, body } :: cases => .array [.text name, writeI18nNode body] :: writeCases cases

def writeTag : TagPlaceholder → Json
  | { tag, startName, closeName, children, isVoid, span } =>
      .slim
        [("kind", .text "TagPlaceholder"), ("tag", .text tag), ("start_name", .text startName),
          ("close_name", .text closeName), ("children", .array (writeI18nNodes children)),
          ("is_void", .bool isVoid), ("span", writeSpan span)]

def writeBlock : BlockPlaceholder → Json
  | { name, parameters, startName, closeName, children, span } =>
      .slim
        [("kind", .text "BlockPlaceholder"), ("name", .text name),
          ("parameters", .texts parameters), ("start_name", .text startName),
          ("close_name", .text closeName), ("children", .array (writeI18nNodes children)),
          ("span", writeSpan span)]

end

/-- A message, without its empty texts. -/
def writeMessage (message : Message) : Json :=
  let fields : List (String × Json) :=
    [("nodes", .array (writeI18nNodes message.nodes)), ("meaning", .text message.meaning),
      ("description", .text message.description), ("custom_id", .text message.customId),
      ("id", .text message.id), ("message_string", .text message.messageString)]
  .slim (fields.filter fun field => !field.2.isEmptyText)

def writeMessage? (message : Option Message) : Json := .ofOption writeMessage message

end TemplateLowering.Compact
