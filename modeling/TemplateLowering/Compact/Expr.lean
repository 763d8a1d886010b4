import TemplateLowering.Compact.Name
import TemplateLowering.Json.Parser

/-!
# Expressions in the compact form
-/

namespace TemplateLowering.Compact

/-! ## Literals -/

/-- A floating point number, given by the hexadecimal digits of its bits. -/
def readBinary64 (j : Json) : Binary64 :=
  let digits := (j.asText?.getD "").toList
  ⟨UInt64.ofNat (digits.foldl (fun n c => 16 * n + (Json.hexDigit? c).getD 0) 0)⟩

def writeBinary64 (value : Binary64) : Json :=
  let digits := Nat.toDigits 16 value.bits.toNat
  .text (String.ofList (List.replicate (16 - digits.length) '0' ++ digits))

/-- A literal is an array of its type and its value. -/
def readLiteral (j : Json) : Literal :=
  let parts := j.asArray?.getD []
  let value := parts[1]?.getD .null
  match (parts.head?.bind Json.asText?).getD "" with
  | "String" => .string (value.asText?.getD "")
  | "Number" => .number (readBinary64 value)
  | "Bool" => .bool (value.asBool?.getD false)
  | "Undefined" => .undefined
  | _ => .null

def writeLiteral : Literal → Json
  | .null => .array [.text "Null"]
  | .undefined => .array [.text "Undefined"]
  | .bool value => .array [.text "Bool", .bool value]
  | .number value => .array [.text "Number", writeBinary64 value]
  | .string value => .array [.text "String", .text value]

/-! ## Reading -/

def readExternal (j : Json) : External :=
  { moduleName := j.textAt? "module", name := j.textAt? "name" }

/-- Reads an expression that is nested at most `fuel` deep.  Kinds in lower case stand for
expressions without a span. -/
def readExprWith (file : SourceFile) : Nat → Json → Expr
  | 0, _ => default
  | fuel + 1, j =>
      let span := readSpanAt? file j "span"
      let sub (key : String) : Expr := readExprWith file fuel (j.get key)
      let sub? (key : String) : Option Expr := j.readAt? (readExprWith file fuel) key
      let subs (key : String) : List Expr := j.readAllAt (readExprWith file fuel) key
      let name := j.textAt "name"
      let operator := readName binaryOperators .equals (j.textAt "operator")
      match j.textAt "k" with
      | "ReadVar" => .readVar name span
      | "InvokeFn" => .invoke (sub "fn") (subs "args") span (j.boolAt "pure")
      | "Literal" => .literal (readLiteral (j.get "value")) span
      | "External" => .external (readExternal j) span
      | "Conditional" => .conditional (sub "condition") (sub "true_case") (sub? "false_case") span
      | "NotExpr" => .not (sub "condition") span
      | "BinaryOp" => .binary operator (sub "lhs") (sub "rhs") span
      | "ReadProp" => .readProp (sub "receiver") name span
      | "ReadKey" => .readKey (sub "receiver") (sub "index") span
      | "LiteralArray" => .array (subs "entries") span
      | "LiteralMap" =>
          let entry (e : Json) : MapEntry :=
            { key := e.textAt "key", quoted := e.boolAt "quoted",
              value := readExprWith file fuel (e.get "value") }
          .map (j.readAllAt entry "entries") span
      | "TypeOf" => .typeof (sub "expr") span
      | "Void" => .void (sub "expr") span
      | "Unary" => .unary (readName unaryOperators .minus (j.textAt "operator")) (sub "expr") span
      | "LexicalRead" => .lexicalRead name span
      | "Reference" => .reference (readXref j "target") (j.natAt? "slot") (j.natAt "offset")
      | "Context" => .context (readXref j "view")
      | "TrackContext" => .trackContext (readXref j "view")
      | "NextContext" => .nextContext (j.natAt "steps")
      | "GetCurrentView" => .getCurrentView
      | "RestoreView" =>
          match sub? "expr" with
          | some view => .restoreViewFrom view
          | none => .restoreView (readXref j "view")
      | "ResetView" => .resetView (sub "expr")
      | "ReadVariable" => .readVariable (readXref j "xref") (j.textAt? "name")
      | "PipeBinding" => .pipeBinding (readXref j "target") (j.natAt? "slot") name (subs "args")
      | "SafePropertyRead" => .safePropertyRead (sub "receiver") name
      | "SafeKeyedRead" => .safeKeyedRead (sub "receiver") (sub "index") span
      | "SafeInvokeFunction" => .safeInvoke (sub "receiver") (subs "args")
      | "Empty" => .empty span
      | "ConditionalCase" =>
          .conditionalCase (sub? "expr") (readXref j "target") (j.natAt? "slot") (j.textAt? "alias")
      | "ContextLetReference" => .contextLetReference (readXref j "target") (j.natAt? "slot")
      | "variable" => .variable_ name
      | "literal" => .ofLiteral (readLiteral (j.get "value"))
      | "import" => .imported (readExternal j)
      | "prop" => (sub "receiver").prop name
      | "key" => (sub "receiver").key (sub "index")
      | "call_fn" => (sub "fn").call (subs "args")
      | "binary" => (sub "lhs").op operator (sub "rhs")
      | _ => default

def readExpr (file : SourceFile) (j : Json) : Expr :=
  readExprWith file (j.depth + 1) j

def readExprAt (file : SourceFile) (j : Json) (key : String) : Expr :=
  readExpr file (j.get key)

def readExprAt? (file : SourceFile) (j : Json) (key : String) : Option Expr :=
  j.readAt? (readExpr file) key

def readStatementWith (file : SourceFile) : Nat → Json → Statement
  | 0, _ => default
  | fuel + 1, j =>
      let span := readSpanAt? file j "span"
      match j.textAt "k" with
      | "DeclareVar" => .declareVar (j.textAt "name") (readExprAt? file j "value") span
      | "Return" => .return_ (readExprAt file j "value") span
      | "IfStmt" =>
          .if_ (readExprAt file j "condition")
            (j.readAllAt (readStatementWith file fuel) "true_case")
            (j.readAllAt (readStatementWith file fuel) "false_case") span
      | _ => .expression (readExprAt file j "expr") span

def readStatement (file : SourceFile) (j : Json) : Statement :=
  readStatementWith file (j.depth + 1) j

/-! ## Writing -/

def exprKind : Expr → String
  | .readVar .. => "ReadVar"
  | .invoke .. => "InvokeFn"
  | .literal .. => "Literal"
  | .external .. => "External"
  | .conditional .. => "Conditional"
  | .not .. => "NotExpr"
  | .binary .. => "BinaryOp"
  | .readProp .. => "ReadProp"
  | .readKey .. => "ReadKey"
  | .array .. => "LiteralArray"
  | .map .. => "LiteralMap"
  | .typeof .. => "TypeOf"
  | .void .. => "Void"
  | .unary .. => "Unary"
  | .lexicalRead .. => "LexicalRead"
  | .reference .. => "Reference"
  | .context .. => "Context"
  | .trackContext .. => "TrackContext"
  | .nextContext .. => "NextContext"
  | .getCurrentView => "GetCurrentView"
  | .restoreView .. | .restoreViewFrom .. => "RestoreView"
  | .resetView .. => "ResetView"
  | .readVariable .. => "ReadVariable"
  | .pipeBinding .. => "PipeBinding"
  | .safePropertyRead .. => "SafePropertyRead"
  | .safeKeyedRead .. => "SafeKeyedRead"
  | .safeInvoke .. => "SafeInvokeFunction"
  | .empty .. => "Empty"
  | .conditionalCase .. => "ConditionalCase"
  | .contextLetReference .. => "ContextLetReference"

/-- An expression or a statement: its kind, its span and its further fields. -/
def exprRecord (kind : String) (span : Option SourceSpan) (fields : List (String × Json)) : Json :=
  .slim (("k", .text kind) :: ("span", writeSpan? span) :: fields)

mutual

def exprFields : Expr → List (String × Json)
  | .readVar name _ | .lexicalRead name _ => [("name", .text name)]
  | .invoke fn args _ isPure =>
      [("fn", writeExpr fn), ("args", .array (writeExprs args)), ("pure", .bool isPure)]
  | .literal value _ => [("value", writeLiteral value)]
  | .external value _ => [("module", .optText value.moduleName), ("name", .optText value.name)]
  | .conditional condition trueCase falseCase _ =>
      [("condition", writeExpr condition), ("true_case", writeExpr trueCase),
        ("false_case", writeExpr? falseCase)]
  | .not condition _ => [("condition", writeExpr condition)]
  | .binary operator lhs rhs _ =>
      [("operator", writeName binaryOperators operator), ("lhs", writeExpr lhs),
        ("rhs", writeExpr rhs)]
  | .readProp receiver name _ | .safePropertyRead receiver name =>
      [("receiver", writeExpr receiver), ("name", .text name)]
  | .readKey receiver index _ | .safeKeyedRead receiver index _ =>
      [("receiver", writeExpr receiver), ("index", writeExpr index)]
  | .array entries _ => [("entries", .array (writeExprs entries))]
  | .map entries _ => [("entries", .array (writeEntries entries))]
  | .typeof operand _ | .void operand _ | .restoreViewFrom operand | .resetView operand =>
      [("expr", writeExpr operand)]
  | .unary operator operand _ =>
      [("operator", writeName unaryOperators operator), ("expr", writeExpr operand)]
  | .reference target slot offset =>
      [("target", writeXref target), ("slot", .optNat slot), ("offset", .nat offset)]
  | .context view | .trackContext view | .restoreView view => [("view", writeXref view)]
  | .nextContext steps => [("steps", .nat steps)]
  | .getCurrentView | .empty _ => []
  | .readVariable target name => [("xref", writeXref target), ("name", .optText name)]
  | .pipeBinding target slot name args =>
      [("target", writeXref target), ("slot", .optNat slot), ("name", .text name),
        ("args", .array (writeExprs args))]
  | .safeInvoke receiver args =>
      [("receiver", writeExpr receiver), ("args", .array (writeExprs args))]
  | .conditionalCase condition target slot aliasName =>
      [("expr", writeExpr? condition), ("target", writeXref target), ("slot", .optNat slot),
        ("alias", .optText aliasName)]
  | .contextLetReference target slot => [("target", writeXref target), ("slot", .optNat slot)]

def writeExpr (expr : Expr) : Json :=
  exprRecord (exprKind expr) expr.span (exprFields expr)

def writeExprs : List Expr → List Json
  | [] => []
  | expr :: exprs => writeExpr expr :: writeExprs exprs

def writeExpr? : Option Expr → Json
  | none => .null
  | some expr => writeExpr expr

def writeEntries : List MapEntry → List Json
  | [] => []
  | { key, quoted, value } :: entries =>
      .array [.text key, .bool quoted, writeExpr value] :: writeEntries entries

end

mutual

def writeStatement : Statement → Json
  | .declareVar name value span =>
      exprRecord "DeclareVar" span [("name", .text name), ("value", writeExpr? value)]
  | .expression expr span => exprRecord "Expression" span [("expr", writeExpr expr)]
  | .return_ value span => exprRecord "Return" span [("value", writeExpr value)]
  | .if_ condition trueCase falseCase span =>
      exprRecord "IfStmt" span
        [("condition", writeExpr condition), ("true_case", .array (writeStatements trueCase)),
          ("false_case", .array (writeStatements falseCase))]

def writeStatements : List Statement → List Json
  | [] => []
  | statement :: statements => writeStatement statement :: writeStatements statements

end

end TemplateLowering.Compact
