import TemplateLowering.Number.Binary64
import TemplateLowering.Source.Span

/-!
# Binding expressions

The expressions that a template author writes, as trees.  Every node carries its extent: its span
relative to the expression's source text, and its absolute span.
-/

namespace TemplateLowering

/-- Where a node of a binding expression stands. -/
structure Extent where
  span : ExprSpan := {}
  absolute : AbsoluteSpan := {}
deriving DecidableEq, Inhabited, Repr

/-- A literal value of a binding expression. -/
inductive AstLiteral
  | string (value : String)
  | number (value : Binary64)
  | boolean (value : Bool)
  | null
  | undefined
deriving DecidableEq, Inhabited, Repr

/-- Whether a pipe is referenced by its name or by its class. -/
inductive PipeReference
  | byName
  | directly
deriving DecidableEq, Inhabited, Repr

structure MapKey where
  key : String
  quoted : Bool
deriving DecidableEq, Inhabited, Repr

/-- What calls have besides their callee and their arguments. -/
structure CallExtent where
  arguments : AbsoluteSpan := {}
  trailingComma : Bool := false
deriving DecidableEq, Inhabited, Repr

/-- A binding expression. -/
inductive Ast
  | empty (extent : Extent)
  | implicitReceiver (extent : Extent)
  | thisReceiver (extent : Extent)
  | chain (extent : Extent) (expressions : List Ast)
  | conditional (extent : Extent) (condition trueCase falseCase : Ast)
  | propertyRead (extent : Extent) (nameSpan : AbsoluteSpan) (receiver : Ast) (name : String)
  | safePropertyRead (extent : Extent) (nameSpan : AbsoluteSpan) (receiver : Ast) (name : String)
  | keyedRead (extent : Extent) (receiver key : Ast)
  | safeKeyedRead (extent : Extent) (receiver key : Ast)
  | pipe (extent : Extent) (nameSpan : AbsoluteSpan) (operand : Ast) (name : String)
      (args : List Ast) (reference : PipeReference)
  | literal (extent : Extent) (value : AstLiteral)
  | array (extent : Extent) (entries : List Ast)
  | map (extent : Extent) (keys : List MapKey) (values : List Ast)
  | interpolation (extent : Extent) (strings : List String) (expressions : List Ast)
  | binary (extent : Extent) (operation : String) (left right : Ast)
  | prefixNot (extent : Extent) (operand : Ast)
  | unary (extent : Extent) (operator : String) (operand : Ast)
  | typeof (extent : Extent) (operand : Ast)
  | void (extent : Extent) (operand : Ast)
  | nonNull (extent : Extent) (operand : Ast)
  | call (extent : Extent) (receiver : Ast) (args : List Ast) (callExtent : CallExtent)
  | safeCall (extent : Extent) (receiver : Ast) (args : List Ast) (callExtent : CallExtent)
  | parenthesized (extent : Extent) (operand : Ast)

namespace Ast

instance : Inhabited Ast := ⟨.empty {}⟩

def extent : Ast → Extent
  | .empty extent => extent
  | .implicitReceiver extent => extent
  | .thisReceiver extent => extent
  | .chain extent _ => extent
  | .conditional extent _ _ _ => extent
  | .propertyRead extent _ _ _ => extent
  | .safePropertyRead extent _ _ _ => extent
  | .keyedRead extent _ _ => extent
  | .safeKeyedRead extent _ _ => extent
  | .pipe extent _ _ _ _ _ => extent
  | .literal extent _ => extent
  | .array extent _ => extent
  | .map extent _ _ => extent
  | .interpolation extent _ _ => extent
  | .binary extent _ _ _ => extent
  | .prefixNot extent _ => extent
  | .unary extent _ _ => extent
  | .typeof extent _ => extent
  | .void extent _ => extent
  | .nonNull extent _ => extent
  | .call extent _ _ _ => extent
  | .safeCall extent _ _ _ => extent
  | .parenthesized extent _ => extent

/-- The span of a node, relative to the source text of its expression. -/
def span (ast : Ast) : ExprSpan :=
  ast.extent.span

/-- The name of a node's type, as it appears in messages. -/
def typeName : Ast → String
  | .empty .. => "EmptyExpr"
  | .implicitReceiver .. => "ImplicitReceiver"
  | .thisReceiver .. => "ThisReceiver"
  | .chain .. => "Chain"
  | .conditional .. => "Conditional"
  | .propertyRead .. => "PropertyRead"
  | .safePropertyRead .. => "SafePropertyRead"
  | .keyedRead .. => "KeyedRead"
  | .safeKeyedRead .. => "SafeKeyedRead"
  | .pipe .. => "BindingPipe"
  | .literal .. => "LiteralPrimitive"
  | .array .. => "LiteralArray"
  | .map .. => "LiteralMap"
  | .interpolation .. => "Interpolation"
  | .binary .. => "Binary"
  | .prefixNot .. => "PrefixNot"
  | .unary .. => "Unary"
  | .typeof .. => "TypeofExpression"
  | .void .. => "VoidExpression"
  | .nonNull .. => "NonNullAssert"
  | .call .. => "Call"
  | .safeCall .. => "SafeCall"
  | .parenthesized .. => "ParenthesizedExpression"

end Ast

/-- A binding expression with the text it was parsed from. -/
structure SourcedAst where
  ast : Ast
  source : Option String := none
  location : String := ""
  absoluteOffset : Nat := 0
deriving Inhabited

end TemplateLowering
