import TemplateLowering.Number.Count
import TemplateLowering.Op.Kind
import TemplateLowering.Op.List.Basic

/-!
# Faults

A fault says that the operations of a job are not what a pass may expect.  It is the sign of a
broken job, not of a bad template.
-/

namespace TemplateLowering

/-- What can be wrong with a job. -/
inductive Fault
  | list (fault : OpList.Fault)
  | unknownView (xref : Xref)
  | viewCycle (xref : Xref)
  | classInterpolation
  | twoWayInterpolation (name : String)
  | unhandledBinding (kind : BindingKind)
  | nonBindableTarget
  | missingRootContext
  | icuOutsideBlock
  | pipeInTrack
  | count (error : CountError)
deriving DecidableEq, Inhabited, Repr

def Fault.message : Fault → String
  | .list fault => fault.message
  | .unknownView xref => "AssertionError: no view with xref " ++ xref.text
  | .viewCycle xref => "AssertionError: view " ++ xref.text ++ " is declared inside itself"
  | .classInterpolation => "Unexpected interpolation in ClassName binding"
  | .twoWayInterpolation name =>
      "Expected value of two-way property binding \"" ++ name ++ "\" to be an expression"
  | .unhandledBinding kind => "Unhandled binding of kind " ++ kind.name
  | .nonBindableTarget => "All attributes should have an element-like target."
  | .missingRootContext =>
      "AssertionError: Root i18n block i18n context should have been created."
  | .icuOutsideBlock => "AssertionError: Unexpected ICU outside of an i18n block."
  | .pipeInTrack => "Illegal State: Pipes are not allowed in this context"
  | .count error => error.message

end TemplateLowering
