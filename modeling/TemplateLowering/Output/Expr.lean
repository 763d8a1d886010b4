import TemplateLowering.Number.Binary64
import TemplateLowering.Op.Id
import TemplateLowering.Source.Span

/-!
# Output expressions and statements

The expressions that generated code computes.  Besides ordinary expressions there are expressions
about views (contexts, saved views, references, pipes, safe reads) which have to be resolved before
code is written; one tree may hold both.
-/

namespace TemplateLowering

inductive BinaryOperator
  | equals
  | notEquals
  | assign
  | identical
  | notIdentical
  | minus
  | plus
  | divide
  | multiply
  | modulo
  | and
  | or
  | bitwiseOr
  | bitwiseAnd
  | lower
  | lowerEquals
  | bigger
  | biggerEquals
  | nullishCoalesce
  | exponentiation
  | in_
deriving DecidableEq, Inhabited, Repr

namespace BinaryOperator

/-- The operators by the symbol that stands for them in a binding expression. -/
def symbols : List (String × BinaryOperator) :=
  [("&&", and), (">", bigger), (">=", biggerEquals), ("|", bitwiseOr), ("&", bitwiseAnd),
    ("/", divide), ("=", assign), ("==", equals), ("===", identical), ("<", lower),
    ("<=", lowerEquals), ("-", minus), ("%", modulo), ("**", exponentiation), ("*", multiply),
    ("!=", notEquals), ("!==", notIdentical), ("??", nullishCoalesce), ("||", or), ("+", plus),
    ("in", in_)]

def ofSymbol? (symbol : String) : Option BinaryOperator :=
  symbols.lookup symbol

end BinaryOperator

inductive UnaryOperator
  | minus
  | plus
deriving DecidableEq, Inhabited, Repr

def UnaryOperator.ofSymbol? (symbol : String) : Option UnaryOperator :=
  if symbol = "+" then some .plus
  else if symbol = "-" then some .minus
  else none

inductive Literal
  | null
  | undefined
  | bool (value : Bool)
  | number (value : Binary64)
  | string (value : String)
deriving DecidableEq, Inhabited, Repr

/-- A symbol imported from a module. -/
structure External where
  moduleName : Option String
  name : Option String
deriving DecidableEq, Inhabited, Repr

mutual

/-- An output expression. -/
inductive Expr
  | readVar (name : String) (span : Option SourceSpan)
  | invoke (fn : Expr) (args : List Expr) (span : Option SourceSpan) (isPure : Bool)
  | literal (value : Literal) (span : Option SourceSpan)
  | external (value : External) (span : Option SourceSpan)
  | conditional (condition trueCase : Expr) (falseCase : Option Expr) (span : Option SourceSpan)
  | not (condition : Expr) (span : Option SourceSpan)
  | binary (operator : BinaryOperator) (lhs rhs : Expr) (span : Option SourceSpan)
  | readProp (receiver : Expr) (name : String) (span : Option SourceSpan)
  | readKey (receiver index : Expr) (span : Option SourceSpan)
  | array (entries : List Expr) (span : Option SourceSpan)
  | map (entries : List MapEntry) (span : Option SourceSpan)
  | typeof (operand : Expr) (span : Option SourceSpan)
  | void (operand : Expr) (span : Option SourceSpan)
  | unary (operator : UnaryOperator) (operand : Expr) (span : Option SourceSpan)
  /-- Reads a name whose declaration has not been looked up yet. -/
  | lexicalRead (name : String) (span : Option SourceSpan)
  /-- Reads a local reference. -/
  | reference (target : Xref) (slot : Slot) (offset : Nat)
  /-- The context of a view. -/
  | context (view : Xref)
  /-- The context of a view, inside a track function. -/
  | trackContext (view : Xref)
  /-- Steps to the context of an enclosing view. -/
  | nextContext (steps : Nat)
  /-- Takes a snapshot of the current view. -/
  | getCurrentView
  /-- Makes a saved view current again: a view by its number, or one that an expression gives. -/
  | restoreView (view : Xref)
  | restoreViewFrom (view : Expr)
  /-- Leaves a restored view. -/
  | resetView (operand : Expr)
  | readVariable (xref : Xref) (name : Option String)
  | pipeBinding (target : Xref) (slot : Slot) (name : String) (args : List Expr)
  | safePropertyRead (receiver : Expr) (name : String)
  | safeKeyedRead (receiver index : Expr) (span : Option SourceSpan)
  | safeInvoke (receiver : Expr) (args : List Expr)
  | empty (span : Option SourceSpan)
  /-- One case of a conditional operation; the default case has no condition. -/
  | conditionalCase (condition : Option Expr) (target : Xref) (slot : Slot)
      (aliasName : Option String)
  /-- Reads a declared value from the context of the view that declares it. -/
  | contextLetReference (target : Xref) (slot : Slot)

structure MapEntry where
  key : String
  quoted : Bool
  value : Expr

end

namespace Expr

instance : Inhabited Expr := ⟨.empty none⟩

def span : Expr → Option SourceSpan
  | .readVar _ span => span
  | .invoke _ _ span _ => span
  | .literal _ span => span
  | .external _ span => span
  | .conditional _ _ _ span => span
  | .not _ span => span
  | .binary _ _ _ span => span
  | .readProp _ _ span => span
  | .readKey _ _ span => span
  | .array _ span => span
  | .map _ span => span
  | .typeof _ span => span
  | .void _ span => span
  | .unary _ _ span => span
  | .lexicalRead _ span => span
  | .safeKeyedRead _ _ span => span
  | .empty span => span
  | .reference .. | .context .. | .trackContext .. | .nextContext .. | .getCurrentView
  | .restoreView .. | .restoreViewFrom .. | .resetView .. | .readVariable .. | .pipeBinding ..
  | .safePropertyRead .. | .safeInvoke .. | .conditionalCase .. | .contextLetReference .. => none

/-- Whether the expression itself has to be resolved before code is written. -/
def isUnresolved : Expr → Bool
  | .readVar .. | .invoke .. | .literal .. | .external .. | .conditional .. | .not .. | .binary ..
  | .readProp .. | .readKey .. | .array .. | .map .. | .typeof .. | .void .. | .unary .. => false
  | .lexicalRead .. | .reference .. | .context .. | .trackContext .. | .nextContext ..
  | .getCurrentView | .restoreView .. | .restoreViewFrom .. | .resetView .. | .readVariable ..
  | .pipeBinding .. | .safePropertyRead .. | .safeKeyedRead .. | .safeInvoke .. | .empty ..
  | .conditionalCase .. | .contextLetReference .. => true

/-! ## Expressions without a place in the source -/

def variable_ (name : String) : Expr :=
  .readVar name none

def ofLiteral (value : Literal) : Expr :=
  .literal value none

def number (value : Binary64) : Expr :=
  .literal (.number value) none

def imported (value : External) : Expr :=
  .external value none

def prop (receiver : Expr) (name : String) : Expr :=
  .readProp receiver name none

def key (receiver index : Expr) : Expr :=
  .readKey receiver index none

def call (fn : Expr) (args : List Expr) : Expr :=
  .invoke fn args none false

def op (lhs : Expr) (operator : BinaryOperator) (rhs : Expr) : Expr :=
  .binary operator lhs rhs none

end Expr

/-- An output statement. -/
inductive Statement
  | declareVar (name : String) (value : Option Expr) (span : Option SourceSpan)
  | expression (expr : Expr) (span : Option SourceSpan)
  | return_ (value : Expr) (span : Option SourceSpan)
  | if_ (condition : Expr) (trueCase falseCase : List Statement) (span : Option SourceSpan)

instance : Inhabited Statement := ⟨.expression default none⟩

end TemplateLowering
