import TemplateLowering.Source.Span

/-!
# Translatable messages

A message is a sequence of nodes: texts, placeholders for interpolations, tags and blocks, and ICU
expressions with one node per case.  Two messages are the same when they agree in everything but the
order in which the cases of an ICU expression are listed.
-/

namespace TemplateLowering.I18n

mutual

/-- A part of a translatable message. -/
inductive Node
  | text (value : String) (span : SourceSpan)
  | container (children : List Node) (span : SourceSpan)
  | icu (icu : Icu)
  | tagPlaceholder (placeholder : TagPlaceholder)
  | placeholder (value name : String) (span : SourceSpan)
  | icuPlaceholder (value : Icu) (name : String) (span : SourceSpan)
  | blockPlaceholder (placeholder : BlockPlaceholder)

/-- An ICU expression such as `{n, plural, =0 {none} other {some}}`. -/
structure Icu where
  expression : String
  type : String
  cases : List IcuCase
  span : SourceSpan
  expressionPlaceholder : Option String

structure IcuCase where
  name : String
  body : Node

/-- The pair of placeholders that stands for an element in a message. -/
structure TagPlaceholder where
  tag : String
  startName : String
  closeName : String
  children : List Node
  isVoid : Bool
  span : SourceSpan

/-- The pair of placeholders that stands for a control flow block in a message. -/
structure BlockPlaceholder where
  name : String
  parameters : List String
  startName : String
  closeName : String
  children : List Node
  span : SourceSpan

end

deriving instance Inhabited for Node

/-- The cases of an ICU expression, given by name: a name that comes again keeps its first place and
takes the last node. -/
def insertCase (name : String) (body : Node) : List IcuCase → List IcuCase
  | [] => [{ name, body }]
  | known :: rest =>
      if known.name = name then { name, body } :: rest
      else known :: insertCase name body rest

def findCase? (name : String) : List IcuCase → Option Node
  | [] => none
  | known :: rest => if known.name = name then some known.body else findCase? name rest

namespace Node

def span : Node → SourceSpan
  | .text _ span => span
  | .container _ span => span
  | .icu value => value.span
  | .tagPlaceholder tag => tag.span
  | .placeholder _ _ span => span
  | .icuPlaceholder _ _ span => span
  | .blockPlaceholder block => block.span

def kindName : Node → String
  | .text .. => "Text"
  | .container .. => "Container"
  | .icu .. => "Icu"
  | .tagPlaceholder .. => "TagPlaceholder"
  | .placeholder .. => "Placeholder"
  | .icuPlaceholder .. => "IcuPlaceholder"
  | .blockPlaceholder .. => "BlockPlaceholder"

end Node

mutual

/-- Whether two nodes agree, up to the order of the cases of ICU expressions. -/
def Node.same : Node → Node → Bool
  | .text value span, .text value' span' => value == value' && span == span'
  | .container children span, .container children' span' =>
      sameNodes children children' && span == span'
  | .icu icu, .icu icu' => icu.same icu'
  | .tagPlaceholder placeholder, .tagPlaceholder placeholder' => placeholder.same placeholder'
  | .placeholder value name span, .placeholder value' name' span' =>
      value == value' && name == name' && span == span'
  | .icuPlaceholder value name span, .icuPlaceholder value' name' span' =>
      value.same value' && name == name' && span == span'
  | .blockPlaceholder placeholder, .blockPlaceholder placeholder' =>
      placeholder.same placeholder'
  | _, _ => false

def sameNodes : List Node → List Node → Bool
  | [], [] => true
  | node :: nodes, node' :: nodes' => node.same node' && sameNodes nodes nodes'
  | _, _ => false

def Icu.same : Icu → Icu → Bool
  | { expression, type, cases, span, expressionPlaceholder }, other =>
      expression == other.expression && type == other.type &&
        (cases.length == other.cases.length && sameCases cases other.cases) &&
        span == other.span && expressionPlaceholder == other.expressionPlaceholder

/-- Whether every case has a case of the same name, with the same node, among `others`. -/
def sameCases : List IcuCase → List IcuCase → Bool
  | [], _ => true
  | { name, body } :: rest, others =>
      (match findCase? name others with
        | some other => body.same other
        | none => false) &&
      sameCases rest others

def TagPlaceholder.same : TagPlaceholder → TagPlaceholder → Bool
  | { tag, startName, closeName, children, isVoid, span }, other =>
      tag == other.tag && startName == other.startName && closeName == other.closeName &&
        sameNodes children other.children && isVoid == other.isVoid && span == other.span

def BlockPlaceholder.same : BlockPlaceholder → BlockPlaceholder → Bool
  | { name, parameters, startName, closeName, children, span }, other =>
      name == other.name && parameters == other.parameters && startName == other.startName &&
        closeName == other.closeName && sameNodes children other.children && span == other.span

end

/-- A translatable message. -/
structure Message where
  nodes : List Node := []
  meaning : String := ""
  description : String := ""
  customId : String := ""
  id : String := ""
  messageString : String := ""
deriving Inhabited

namespace Message

/-- Whether two messages agree, up to the order of the cases of ICU expressions. -/
def same (a b : Message) : Bool :=
  sameNodes a.nodes b.nodes && a.meaning == b.meaning && a.description == b.description &&
    a.customId == b.customId && a.id == b.id && a.messageString == b.messageString

/-- The placeholder name of a message that consists of exactly one ICU expression. -/
def singleIcu? (message : Message) : Option String :=
  match message.nodes with
  | [.icuPlaceholder _ name _] => some name
  | _ => none

end Message

mutual

/-- The names of the interpolation placeholders below a node, added to `names` in order of first
appearance.  ICU expressions are messages of their own and are not entered. -/
def Node.collectPlaceholders : Node → List String → List String
  | .placeholder _ name _, names => if name ∈ names then names else names ++ [name]
  | .container children _, names => collectAllPlaceholders children names
  | .tagPlaceholder placeholder, names => placeholder.collectPlaceholders names
  | .blockPlaceholder placeholder, names => placeholder.collectPlaceholders names
  | .text .., names => names
  | .icu .., names => names
  | .icuPlaceholder .., names => names

def collectAllPlaceholders : List Node → List String → List String
  | [], names => names
  | node :: nodes, names => collectAllPlaceholders nodes (node.collectPlaceholders names)

def TagPlaceholder.collectPlaceholders : TagPlaceholder → List String → List String
  | { children, .. }, names => collectAllPlaceholders children names

def BlockPlaceholder.collectPlaceholders : BlockPlaceholder → List String → List String
  | { children, .. }, names => collectAllPlaceholders children names

end

/-- The names of the interpolation placeholders of a message, in order of first appearance. -/
def Message.placeholderNames (message : Message) : List String :=
  collectAllPlaceholders message.nodes []

/-- What a template node may say about localization: it is the root of a message, or it stands
inside the message of an enclosing node. -/
inductive Meta
  | message (message : Message)
  | node (node : Node)
deriving Inhabited

def Meta.kindName : Meta → String
  | .message _ => "Message"
  | .node inner => inner.kindName

end TemplateLowering.I18n
