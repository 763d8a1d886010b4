import TemplateLowering.CompileError
import TemplateLowering.Job.Basic
import TemplateLowering.Template.Ast

/-!
# Lowering binding expressions

`Ast.lower` turns a binding expression into an output expression.  A name read from the implicit
receiver stays a lexical read until it is known what it refers to.  Every pipe takes a number,
before its operands are lowered.
-/

namespace TemplateLowering

/-- Lowering takes fresh numbers, and may reject its input; the numbers taken until then stay
taken. -/
abbrev Lower := ExceptT CompileError (StateM Ids)

def Ast.isImplicitReceiver : Ast → Bool
  | .implicitReceiver _ => true
  | _ => false

def AstLiteral.lower : AstLiteral → Literal
  | .string value => .string value
  | .number value => .number value
  | .boolean value => .bool value
  | .null => .null
  | .undefined => .undefined

/-- Rejects a node of an expression that belongs to the span `base`. -/
def Ast.unsupported {α : Type} (ast : Ast) (base : Option SourceSpan)
    (reason : UnsupportedReason) : Lower α :=
  throw (.unsupportedExpression ast.typeName reason (ast.span.resolve? base))

mutual

/-- The output expression for a binding expression that belongs to the span `base`, in a job whose
root view is `root`. -/
def Ast.lower (root : Xref) (base : Option SourceSpan) : Ast → Lower Expr
  | .propertyRead extent _ receiver name =>
      if receiver.isImplicitReceiver then
        return .lexicalRead name (extent.span.resolve? base)
      else do
        let receiver ← receiver.lower root base
        return .readProp receiver name (extent.span.resolve? base)
  | .call extent receiver args callExtent =>
      if receiver.isImplicitReceiver then
        Ast.unsupported (.call extent receiver args callExtent) base .bareCall
      else do
        let fn ← receiver.lower root base
        let args ← lowerAll root base args
        return .invoke fn args (extent.span.resolve? base) false
  | .literal extent value => return .literal value.lower (extent.span.resolve? base)
  | .unary extent operator operand =>
      match UnaryOperator.ofSymbol? operator with
      | some op => do
          let operand ← operand.lower root base
          return .unary op operand (extent.span.resolve? base)
      | none => Ast.unsupported (.unary extent operator operand) base .unknownUnaryOperator
  | .binary extent operation left right =>
      match BinaryOperator.ofSymbol? operation with
      | some op => do
          let lhs ← left.lower root base
          let rhs ← right.lower root base
          return .binary op lhs rhs (extent.span.resolve? base)
      | none =>
          Ast.unsupported (.binary extent operation left right) base .unknownBinaryOperator
  | .thisReceiver _ => return .context root
  | .keyedRead extent receiver key => do
      let receiver ← receiver.lower root base
      let index ← key.lower root base
      return .readKey receiver index (extent.span.resolve? base)
  | .chain extent expressions =>
      Ast.unsupported (.chain extent expressions) base .chainOutsideHandler
  | .map extent keys values => do
      let entries ← lowerEntries root base keys values
      return .map entries (extent.span.resolve? base)
  | .array extent entries => do
      let entries ← lowerAll root base entries
      return .array entries (extent.span.resolve? base)
  | .conditional extent condition trueCase falseCase => do
      let condition ← condition.lower root base
      let trueCase ← trueCase.lower root base
      let falseCase ← falseCase.lower root base
      return .conditional condition trueCase (some falseCase) (extent.span.resolve? base)
  | .nonNull _ operand => operand.lower root base
  | .pipe _ _ operand name args _ => do
      let target ← Ids.freshXref
      let operand ← operand.lower root base
      let args ← lowerAll root base args
      return .pipeBinding target none name (operand :: args)
  | .safeKeyedRead extent receiver key => do
      let receiver ← receiver.lower root base
      let index ← key.lower root base
      return .safeKeyedRead receiver index (extent.span.resolve? base)
  | .safePropertyRead _ _ receiver name => do
      let receiver ← receiver.lower root base
      return .safePropertyRead receiver name
  | .safeCall _ receiver args _ => do
      let receiver ← receiver.lower root base
      let args ← lowerAll root base args
      return .safeInvoke receiver args
  | .empty extent => return .empty (extent.span.resolve? base)
  | .prefixNot extent operand => do
      let operand ← operand.lower root base
      return .not operand (extent.span.resolve? base)
  | .typeof extent operand => do
      let operand ← operand.lower root base
      return .typeof operand (extent.span.resolve? base)
  | .void extent operand => do
      let operand ← operand.lower root base
      return .void operand (extent.span.resolve? base)
  | .parenthesized _ operand => operand.lower root base
  | .implicitReceiver extent =>
      Ast.unsupported (.implicitReceiver extent) base .looseImplicitReceiver
  | .interpolation extent strings expressions =>
      Ast.unsupported (.interpolation extent strings expressions) base .misplacedInterpolation

def lowerAll (root : Xref) (base : Option SourceSpan) : List Ast → Lower (List Expr)
  | [] => return []
  | ast :: asts => do
      let expr ← ast.lower root base
      let exprs ← lowerAll root base asts
      return expr :: exprs

/-- The entries of a map literal: keys and values as far as they come in pairs. -/
def lowerEntries (root : Xref) (base : Option SourceSpan) :
    List MapKey → List Ast → Lower (List MapEntry)
  | key :: keys, ast :: asts => do
      let value ← ast.lower root base
      let entries ← lowerEntries root base keys asts
      return { key := key.key, quoted := key.quoted, value } :: entries
  | _, _ => return []

end

end TemplateLowering
