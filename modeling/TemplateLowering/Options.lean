/-!
# Compiler options
-/

namespace TemplateLowering

/-- Whether the output has to agree with that of the earlier template compiler. -/
inductive CompatibilityMode
  | normal
  | templateDefinitionBuilder
deriving DecidableEq, Inhabited, Repr

structure Options where
  compatibilityMode : CompatibilityMode := .normal
  i18nUseExternalIds : Bool := false
  enableDebugLocations : Bool := false
  relativeContextFilePath : String := ""
deriving DecidableEq, Inhabited, Repr

end TemplateLowering
