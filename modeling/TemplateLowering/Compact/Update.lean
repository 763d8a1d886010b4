import TemplateLowering.Compact.Expr
import TemplateLowering.Compact.Message

/-!
# Update operations in the compact form
-/

namespace TemplateLowering.Compact

/-! ## Reading -/

def readSecurity (j : Json) : List SecurityContext :=
  (j.textsAt "security").map (readName securityContexts .none)

def readInterpolation (file : SourceFile) (j : Json) : Interpolation :=
  { strings := j.textsAt "strings"
    expressions := j.readAllAt (readExpr file) "expressions"
    placeholders := j.textsAt "placeholders" }

/-- The value of a binding: an interpolation when there is one. -/
def readValue (file : SourceFile) (j : Json) : BindingValue :=
  match j.readAt? (readInterpolation file) "interp" with
  | some interpolation => .interpolation interpolation
  | none => .expression (readExprAt file j "expr")

def readCase (file : SourceFile) (j : Json) : ConditionalCase :=
  { condition := readExprAt? file j "expr"
    target := readXref j "target"
    slot := j.natAt? "slot"
    aliasName := j.textAt? "alias" }

def readSemanticVariable (j : Json) : SemanticVariable :=
  let name := j.textAt? "name"
  match j.textAt "k" with
  | "SavedView" => .savedView (readXref j "view") name
  | "Identifier" => .identifier (j.textAt "identifier") (j.boolAt "local") name
  | "Alias" => .aliasOf (j.textAt "identifier") name
  | _ => .context (readXref j "view") name

def readVariableOp (file : SourceFile) (j : Json) : VariableOp :=
  { xref := readXref j "xref"
    declared := readSemanticVariable (j.get "variable")
    initializer := readExprAt file j "initializer"
    alwaysInline := j.natAt "flags" % 2 = 1 }

def readModifier (j : Json) : TriggerModifier :=
  readName triggerModifiers .none (j.textAt "modifier")

def readUpdateOp (file : SourceFile) (j : Json) : UpdateOp :=
  let target := readXref j "target"
  let name := j.textAt "name"
  let span := readSpanAt file j "span"
  let value := readValue file j
  let kind := readName bindingKinds .property (j.textAt "binding_kind")
  let templateKind := (j.textAt? "template_kind").bind (templateKinds.lookup ·)
  let i18nContext := readXref? j "i18n_context"
  let message := j.readAt? (readMessage file) "message"
  let security := readSecurity j
  let isText := j.boolAt "is_text"
  let isStructural := j.boolAt "is_structural"
  match j.textAt "k" with
  | "Binding" =>
      .binding
        { target, kind, name, value, unit := j.textAt? "unit", security, isText, isStructural,
          templateKind, i18nContext, message, span }
  | "Property" =>
      .property
        { target, name, value, kind, security, isStructural, templateKind, i18nContext, message,
          span }
  | "TwoWayProperty" =>
      .twoWayProperty
        { target, name, expr := readExprAt file j "expr", security, isStructural, templateKind,
          i18nContext, message, span }
  | "Attribute" =>
      .attr
        { target, namespaceKey := j.textAt? "namespace", name, value, security, isText,
          isStructural, templateKind, i18nContext, message, span }
  | "DomProperty" => .domProperty { name, value, kind, i18nContext, security, span }
  | "StyleProp" => .styleProp { target, name, value, unit := j.textAt? "unit", span }
  | "ClassProp" => .classProp { target, name, expr := readExprAt file j "expr", span }
  | "StyleMap" => .styleMap { target, value, span }
  | "ClassMap" => .classMap { target, value, span }
  | "InterpolateText" =>
      .interpolateText { target, interpolation := readInterpolation file (j.get "interp"), span }
  | "Conditional" =>
      .conditional
        { target, test := readExprAt? file j "test",
          cases := j.readAllAt (readCase file) "conditions",
          processed := readExprAt? file j "processed",
          contextValue := readExprAt? file j "context_value", span }
  | "Repeater" =>
      .repeater
        { target, slot := j.natAt? "slot", collection := readExprAt file j "collection", span }
  | "DeferWhen" =>
      .deferWhen { target, expr := readExprAt file j "expr", modifier := readModifier j, span }
  | "StoreLet" => .storeLet { target, name, value := readExprAt file j "value", span }
  | "Variable" => .variableDecl (readVariableOp file j)
  | "Statement" => .statement (readStatement file (j.get "stmt"))
  | _ => .listEnd

/-! ## Writing -/

def writeSecurity (contexts : List SecurityContext) : Json :=
  .ofList (writeName securityContexts) contexts

def writeInterpolation (value : Interpolation) : Json :=
  .slim
    [("strings", .texts value.strings), ("expressions", .array (writeExprs value.expressions)),
      ("placeholders", .texts value.placeholders)]

/-- The field of a binding's value. -/
def valueField : BindingValue → String × Json
  | .expression expr => ("expr", writeExpr expr)
  | .interpolation value => ("interp", writeInterpolation value)

def writeSemanticVariable (declared : SemanticVariable) : Json :=
  let named (kind : String) (name : Option String) (fields : List (String × Json)) : Json :=
    .slim (("k", .text kind) :: fields ++ [("name", .optText name)])
  match declared with
  | .context view name => named "Context" name [("view", writeXref view)]
  | .savedView view name => named "SavedView" name [("view", writeXref view)]
  | .identifier identifier isLocal name =>
      named "Identifier" name [("identifier", .text identifier), ("local", .bool isLocal)]
  | .aliasOf identifier name => named "Alias" name [("identifier", .text identifier)]

def variableFields (op : VariableOp) : List (String × Json) :=
  [("variable", writeSemanticVariable op.declared), ("initializer", writeExpr op.initializer),
    ("flags", .nat (if op.alwaysInline then 1 else 0))]

def writeCase (branch : ConditionalCase) : Json :=
  writeExpr (.conditionalCase branch.condition branch.target branch.slot branch.aliasName)

/-- What the bindings of elements have in common. -/
def bindingFields (isStructural : Bool) (templateKind : Option TemplateKind)
    (i18nContext : Option Xref) (message : Option I18n.Message) : List (String × Json) :=
  [("is_structural", .bool isStructural),
    ("template_kind", .ofOption (writeName templateKinds) templateKind),
    ("i18n_context", writeXref? i18nContext), ("message", writeMessage? message)]

/-- An operation that has a place in the source: its kind and its fields other than the target. -/
def placed (kind : String) (span : SourceSpan) (fields : List (String × Json)) :
    String × List (String × Json) :=
  (kind, fields ++ [("span", writeSpan span)])

def updateFields : UpdateOp → String × List (String × Json)
  | .listEnd => ("ListEnd", [])
  | .binding op =>
      placed "Binding" op.span
        ([valueField op.value, ("binding_kind", writeName bindingKinds op.kind),
          ("name", .text op.name), ("unit", .optText op.unit),
          ("security", writeSecurity op.security), ("is_text", .bool op.isText)] ++
          bindingFields op.isStructural op.templateKind op.i18nContext op.message)
  | .property op =>
      placed "Property" op.span
        ([valueField op.value, ("binding_kind", writeName bindingKinds op.kind),
          ("name", .text op.name), ("security", writeSecurity op.security)] ++
          bindingFields op.isStructural op.templateKind op.i18nContext op.message)
  | .twoWayProperty op =>
      placed "TwoWayProperty" op.span
        ([("expr", writeExpr op.expr), ("name", .text op.name),
          ("security", writeSecurity op.security)] ++
          bindingFields op.isStructural op.templateKind op.i18nContext op.message)
  | .attr op =>
      placed "Attribute" op.span
        ([valueField op.value, ("namespace", .optText op.namespaceKey), ("name", .text op.name),
          ("security", writeSecurity op.security), ("is_text", .bool op.isText)] ++
          bindingFields op.isStructural op.templateKind op.i18nContext op.message)
  | .domProperty op =>
      placed "DomProperty" op.span
        [valueField op.value, ("binding_kind", writeName bindingKinds op.kind),
          ("name", .text op.name), ("security", writeSecurity op.security),
          ("i18n_context", writeXref? op.i18nContext)]
  | .styleProp op =>
      placed "StyleProp" op.span
        [valueField op.value, ("name", .text op.name), ("unit", .optText op.unit)]
  | .classProp op =>
      placed "ClassProp" op.span [("expr", writeExpr op.expr), ("name", .text op.name)]
  | .styleMap op => placed "StyleMap" op.span [valueField op.value]
  | .classMap op => placed "ClassMap" op.span [valueField op.value]
  | .interpolateText op =>
      placed "InterpolateText" op.span [("interp", writeInterpolation op.interpolation)]
  | .conditional op =>
      placed "Conditional" op.span
        [("test", writeExpr? op.test), ("conditions", .ofList writeCase op.cases),
          ("processed", writeExpr? op.processed), ("context_value", writeExpr? op.contextValue)]
  | .repeater op =>
      placed "Repeater" op.span
        [("slot", .optNat op.slot), ("collection", writeExpr op.collection)]
  | .deferWhen op =>
      placed "DeferWhen" op.span
        [("expr", writeExpr op.expr), ("modifier", writeName triggerModifiers op.modifier)]
  | .storeLet op =>
      placed "StoreLet" op.span [("name", .text op.name), ("value", writeExpr op.value)]
  | .variableDecl op => ("Variable", ("xref", writeXref op.xref) :: variableFields op)
  | .statement body => ("Statement", [("stmt", writeStatement body)])

def writeUpdateOp (op : UpdateOp) : Json :=
  let (kind, fields) := updateFields op
  .slim (("k", .text kind) :: ("target", writeXref? op.target?) :: fields)

end TemplateLowering.Compact
