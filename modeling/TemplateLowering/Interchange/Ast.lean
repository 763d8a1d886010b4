import TemplateLowering.Interchange.Source
import TemplateLowering.Json.Float
import TemplateLowering.Template.Ast

/-!
# Binding expressions in the interchange form

The type of an expression stands beside its data.
-/

namespace TemplateLowering.Interchange

/-! ## Reading -/

/-- A literal that is null or undefined holds nothing. -/
def readLiteral : Reader AstLiteral := fun nested j => do
  let { name, content, .. } ← taggedBeside? "literalType" "value" nested j
  match name with
  | "String" => content.bind fun value => value.asText?.map .string
  | "Number" =>
      match content with
      | some (.number n) => n.toBinary64?.map .number
      | _ => none
  | "Boolean" => content.bind fun value => value.asBool?.map .boolean
  | "Null" => if content.all Json.isNull then some .null else none
  | "Undefined" => if content.all Json.isNull then some .undefined else none
  | _ => none

def readMapKey : Reader MapKey :=
  record (.mk <$> text "key" <*> field readBool "quoted")

def pipeReferences : List (String × PipeReference) :=
  [("ReferencedByName", .byName), ("ReferencedDirectly", .directly)]

/-- The types of expressions, given the reader of their operands. -/
def astCases (readOperand : Reader Ast) : List (String × Fields Ast) :=
  let extent : Fields Extent :=
    .mk <$> field readExprSpan "span" <*> field readAbsoluteSpan "source_span"
  let callExtent : Fields CallExtent :=
    .mk <$> field readAbsoluteSpan "argument_span" <*> field readBool "has_trailing_comma"
  let nameSpan := field readAbsoluteSpan "name_span"
  let sub := field readOperand
  let subs := list readOperand
  [("EmptyExpr", .empty <$> extent), ("ImplicitReceiver", .implicitReceiver <$> extent),
    ("ThisReceiver", .thisReceiver <$> extent),
    ("Chain", .chain <$> extent <*> subs "expressions"),
    ("Conditional",
      .conditional <$> extent <*> sub "condition" <*> sub "true_exp" <*> sub "false_exp"),
    ("PropertyRead", .propertyRead <$> extent <*> nameSpan <*> sub "receiver" <*> text "name"),
    ("SafePropertyRead",
      .safePropertyRead <$> extent <*> nameSpan <*> sub "receiver" <*> text "name"),
    ("KeyedRead", .keyedRead <$> extent <*> sub "receiver" <*> sub "key"),
    ("SafeKeyedRead", .safeKeyedRead <$> extent <*> sub "receiver" <*> sub "key"),
    ("BindingPipe",
      .pipe <$> extent <*> nameSpan <*> sub "exp" <*> text "name" <*> subs "args" <*>
        field (readVariant pipeReferences) "pipe_type"),
    ("LiteralPrimitive", .literal <$> extent <*> field readLiteral "value"),
    ("LiteralArray", .array <$> extent <*> subs "expressions"),
    ("LiteralMap", .map <$> extent <*> list readMapKey "keys" <*> subs "values"),
    ("Interpolation",
      .interpolation <$> extent <*> list readText "strings" <*> subs "expressions"),
    ("Binary", .binary <$> extent <*> text "operation" <*> sub "left" <*> sub "right"),
    ("PrefixNot", .prefixNot <$> extent <*> sub "expression"),
    ("Unary", .unary <$> extent <*> text "operator" <*> sub "expr"),
    ("TypeofExpression", .typeof <$> extent <*> sub "expression"),
    ("VoidExpression", .void <$> extent <*> sub "expression"),
    ("NonNullAssert", .nonNull <$> extent <*> sub "expression"),
    ("Call", .call <$> extent <*> sub "receiver" <*> subs "args" <*> callExtent),
    ("SafeCall", .safeCall <$> extent <*> sub "receiver" <*> subs "args" <*> callExtent),
    ("ParenthesizedExpression", .parenthesized <$> extent <*> sub "expression")]

/-- Reads an expression that is nested at most `fuel` deep. -/
def readAstWith : Nat → Reader Ast
  | 0, _, _ => none
  | fuel + 1, nested, j => do
      let { name, content, nested } ← taggedBeside? "type" "data" nested j
      let data ← content
      readCase (astCases (readAstWith fuel)) nested name data

def readAst : Reader Ast := fun nested j =>
  readAstWith (j.depth + 1) nested j

def readSourced : Reader SourcedAst :=
  record
    (.mk <$> field readAst "ast" <*> text? "source" <*> text "location" <*>
      field readNat "absolute_offset")

/-! ## Writing -/

def writeLiteral (literal : AstLiteral) : Json :=
  let tagged (type : String) (content : List (String × Json)) : Json :=
    .record (("literalType", .text type) :: content)
  match literal with
  | .string value => tagged "String" [("value", .text value)]
  | .number value => tagged "Number" [("value", .number (.ofBinary64 value))]
  | .boolean value => tagged "Boolean" [("value", .bool value)]
  | .null => tagged "Null" []
  | .undefined => tagged "Undefined" []

def writeMapKey (key : MapKey) : Json :=
  .record [("key", .text key.key), ("quoted", .bool key.quoted)]

def writePipeReference : PipeReference → Json
  | .byName => .text "ReferencedByName"
  | .directly => .text "ReferencedDirectly"

mutual

def astFields : Ast → List (String × Json)
  | .empty _ | .implicitReceiver _ | .thisReceiver _ => []
  | .chain _ expressions | .array _ expressions => [("expressions", .array (writeAsts expressions))]
  | .conditional _ condition trueCase falseCase =>
      [("condition", writeAst condition), ("true_exp", writeAst trueCase),
        ("false_exp", writeAst falseCase)]
  | .propertyRead _ nameSpan receiver name | .safePropertyRead _ nameSpan receiver name =>
      [("name_span", writeAbsoluteSpan nameSpan), ("receiver", writeAst receiver),
        ("name", .text name)]
  | .keyedRead _ receiver key | .safeKeyedRead _ receiver key =>
      [("receiver", writeAst receiver), ("key", writeAst key)]
  | .pipe _ nameSpan operand name args reference =>
      [("name_span", writeAbsoluteSpan nameSpan), ("exp", writeAst operand), ("name", .text name),
        ("args", .array (writeAsts args)), ("pipe_type", writePipeReference reference)]
  | .literal _ value => [("value", writeLiteral value)]
  | .map _ keys values =>
      [("keys", .ofList writeMapKey keys), ("values", .array (writeAsts values))]
  | .interpolation _ strings expressions =>
      [("strings", .texts strings), ("expressions", .array (writeAsts expressions))]
  | .binary _ operation left right =>
      [("operation", .text operation), ("left", writeAst left), ("right", writeAst right)]
  | .unary _ operator operand => [("operator", .text operator), ("expr", writeAst operand)]
  | .prefixNot _ operand | .typeof _ operand | .void _ operand | .nonNull _ operand
  | .parenthesized _ operand => [("expression", writeAst operand)]
  | .call _ receiver args extent | .safeCall _ receiver args extent =>
      [("receiver", writeAst receiver), ("args", .array (writeAsts args)),
        ("argument_span", writeAbsoluteSpan extent.arguments),
        ("has_trailing_comma", .bool extent.trailingComma)]

def writeAst (ast : Ast) : Json :=
  .record
    [("type", .text ast.typeName),
      ("data", .record
        ([("span", writeExprSpan ast.span),
          ("source_span", writeAbsoluteSpan ast.extent.absolute)] ++ astFields ast))]

def writeAsts : List Ast → List Json
  | [] => []
  | ast :: asts => writeAst ast :: writeAsts asts

end

def writeSourced (value : SourcedAst) : Json :=
  .record
    [("ast", writeAst value.ast), ("source", .optText value.source),
      ("location", .text value.location), ("absolute_offset", .nat value.absoluteOffset)]

end TemplateLowering.Interchange
