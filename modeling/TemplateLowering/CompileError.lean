import TemplateLowering.Source.Span
import TemplateLowering.Tag

/-!
# Compile errors

What makes a template, or a set of host bindings, unacceptable.
-/

namespace TemplateLowering

/-- Why a binding expression has no output expression. -/
inductive UnsupportedReason
  | bareCall
  | unknownUnaryOperator
  | unknownBinaryOperator
  | chainOutsideHandler
  | looseImplicitReceiver
  | misplacedInterpolation
deriving DecidableEq, Inhabited, Repr

def UnsupportedReason.text : UnsupportedReason → String
  | .bareCall => "a call must have an explicit callee"
  | .unknownUnaryOperator => "unknown unary operator"
  | .unknownBinaryOperator => "unknown binary operator"
  | .chainOutsideHandler => "chains are only allowed in event handlers"
  | .looseImplicitReceiver => "the implicit receiver is only valid as the target of a read"
  | .misplacedInterpolation => "interpolation is not allowed in this position"

/-- What is wrong with the input, and where. -/
inductive CompileError
  | unsupportedNode (kind : String) (span : SourceSpan)
  | unexpectedI18n (node expected actual : String) (span : SourceSpan)
  | placeholderCount (expected actual : Nat)
  | emptyHandler (event : String) (span : SourceSpan)
  | unsupportedExpression (kind : String) (reason : UnsupportedReason) (span : Option SourceSpan)
  | expectedInterpolation (context kind : String) (span : SourceSpan)
  | unknownLoopVariable (name : String) (span : SourceSpan)
  | missingAnimationPhase (event : String) (span : SourceSpan)
  | invalidName (bad : TagName.Malformed)
deriving DecidableEq, Inhabited, Repr

def CompileError.message : CompileError → String
  | .unsupportedNode kind span =>
      span.start.text ++ ": unsupported template node `" ++ kind ++ "`"
  | .unexpectedI18n node expected actual span =>
      span.start.text ++ ": unhandled i18n metadata type for " ++ node ++ ": expected " ++
        expected ++ ", got " ++ actual
  | .placeholderCount expected actual =>
      "Expected " ++ toString expected ++
        " placeholders to match interpolation expression count, but got " ++ toString actual
  | .emptyHandler event span =>
      span.start.text ++ ": expected listener for `" ++ event ++
        "` to have non-empty expression list"
  | .unsupportedExpression kind reason span =>
      SourceSpan.locate span ++ ": unsupported expression `" ++ kind ++ "`: " ++ reason.text
  | .expectedInterpolation context kind span =>
      span.start.text ++ ": expected an interpolation in " ++ context ++ ", got `" ++ kind ++ "`"
  | .unknownLoopVariable name span =>
      span.start.text ++ ": unknown @for loop variable `" ++ name ++ "`"
  | .missingAnimationPhase event span =>
      span.start.text ++ ": animation listener `" ++ event ++ "` should have a phase"
  | .invalidName bad => "Invalid name: " ++ bad.message

end TemplateLowering
