import TemplateLowering.Output.Expr

/-!
# Traversal of expressions

`Expr.visitM` rebuilds an expression from the leaves up: the parts of an expression are visited
first, in the order of its fields, and the action then sees the expression with its new parts.  The
flags say whether the expression stands in an operation inside the operation being visited.
-/

namespace TemplateLowering

/-- Where a visited expression stands. -/
structure VisitFlags where
  /-- The expression belongs to a listener's handler or to a track function's body. -/
  inChildOperation : Bool := false
deriving DecidableEq, Inhabited, Repr

def VisitFlags.child : VisitFlags → VisitFlags
  | _ => { inChildOperation := true }

/-- What a traversal does at each expression. -/
abbrev Visitor (m : Type → Type) := VisitFlags → Expr → m Expr

variable {m : Type → Type} [Monad m]

mutual

/-- Visits the parts of an expression, and then the expression itself. -/
def Expr.visitM (f : Visitor m) (flags : VisitFlags) : Expr → m Expr
  | .invoke fn args span isPure => do
      let fn ← fn.visitM f flags
      let args ← visitAllM f flags args
      f flags (.invoke fn args span isPure)
  | .conditional condition trueCase falseCase span => do
      let condition ← condition.visitM f flags
      let trueCase ← trueCase.visitM f flags
      let falseCase ← visitOptionM f flags falseCase
      f flags (.conditional condition trueCase falseCase span)
  | .not condition span => do
      let condition ← condition.visitM f flags
      f flags (.not condition span)
  | .binary operator lhs rhs span => do
      let lhs ← lhs.visitM f flags
      let rhs ← rhs.visitM f flags
      f flags (.binary operator lhs rhs span)
  | .readProp receiver name span => do
      let receiver ← receiver.visitM f flags
      f flags (.readProp receiver name span)
  | .readKey receiver index span => do
      let receiver ← receiver.visitM f flags
      let index ← index.visitM f flags
      f flags (.readKey receiver index span)
  | .array entries span => do
      let entries ← visitAllM f flags entries
      f flags (.array entries span)
  | .map entries span => do
      let entries ← visitEntriesM f flags entries
      f flags (.map entries span)
  | .typeof operand span => do
      let operand ← operand.visitM f flags
      f flags (.typeof operand span)
  | .void operand span => do
      let operand ← operand.visitM f flags
      f flags (.void operand span)
  | .unary operator operand span => do
      let operand ← operand.visitM f flags
      f flags (.unary operator operand span)
  | .restoreViewFrom view => do
      let view ← view.visitM f flags
      f flags (.restoreViewFrom view)
  | .resetView operand => do
      let operand ← operand.visitM f flags
      f flags (.resetView operand)
  | .pipeBinding target slot name args => do
      let args ← visitAllM f flags args
      f flags (.pipeBinding target slot name args)
  | .safePropertyRead receiver name => do
      let receiver ← receiver.visitM f flags
      f flags (.safePropertyRead receiver name)
  | .safeKeyedRead receiver index span => do
      let receiver ← receiver.visitM f flags
      let index ← index.visitM f flags
      f flags (.safeKeyedRead receiver index span)
  | .safeInvoke receiver args => do
      let receiver ← receiver.visitM f flags
      let args ← visitAllM f flags args
      f flags (.safeInvoke receiver args)
  | .conditionalCase condition target slot aliasName => do
      let condition ← visitOptionM f flags condition
      f flags (.conditionalCase condition target slot aliasName)
  | .readVar name span => f flags (.readVar name span)
  | .literal value span => f flags (.literal value span)
  | .external value span => f flags (.external value span)
  | .lexicalRead name span => f flags (.lexicalRead name span)
  | .reference target slot offset => f flags (.reference target slot offset)
  | .context view => f flags (.context view)
  | .trackContext view => f flags (.trackContext view)
  | .nextContext steps => f flags (.nextContext steps)
  | .getCurrentView => f flags .getCurrentView
  | .restoreView view => f flags (.restoreView view)
  | .readVariable xref name => f flags (.readVariable xref name)
  | .empty span => f flags (.empty span)
  | .contextLetReference target slot => f flags (.contextLetReference target slot)

def visitAllM (f : Visitor m) (flags : VisitFlags) : List Expr → m (List Expr)
  | [] => pure []
  | expr :: exprs => do
      let expr ← expr.visitM f flags
      let exprs ← visitAllM f flags exprs
      return expr :: exprs

def visitOptionM (f : Visitor m) (flags : VisitFlags) : Option Expr → m (Option Expr)
  | none => pure none
  | some expr => do
      let expr ← expr.visitM f flags
      return some expr

def visitEntriesM (f : Visitor m) (flags : VisitFlags) : List MapEntry → m (List MapEntry)
  | [] => pure []
  | { key, quoted, value } :: entries => do
      let value ← value.visitM f flags
      let entries ← visitEntriesM f flags entries
      return { key, quoted, value } :: entries

end

mutual

/-- Visits every expression of a statement. -/
def Statement.visitM (f : Visitor m) (flags : VisitFlags) : Statement → m Statement
  | .declareVar name value span => do
      let value ← visitOptionM f flags value
      return .declareVar name value span
  | .expression expr span => do
      let expr ← expr.visitM f flags
      return .expression expr span
  | .return_ value span => do
      let value ← value.visitM f flags
      return .return_ value span
  | .if_ condition trueCase falseCase span => do
      let condition ← condition.visitM f flags
      let trueCase ← visitStatementsM f flags trueCase
      let falseCase ← visitStatementsM f flags falseCase
      return .if_ condition trueCase falseCase span

def visitStatementsM (f : Visitor m) (flags : VisitFlags) :
    List Statement → m (List Statement)
  | [] => pure []
  | statement :: statements => do
      let statement ← statement.visitM f flags
      let statements ← visitStatementsM f flags statements
      return statement :: statements

end

end TemplateLowering
