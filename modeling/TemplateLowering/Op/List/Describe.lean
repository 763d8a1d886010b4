import TemplateLowering.Op.List.Basic

/-!
# Lists of operations as text
-/

namespace TemplateLowering.OpList

variable {α : Type}

/-- A list as it is shown to a developer: its number and its operations, as `show_` writes them. -/
def describe (show_ : α → String) (l : OpList α) : String :=
  "OpList#" ++ toString l.id.index ++ " [" ++ String.intercalate ", " (l.toList.map show_) ++ "]"

end TemplateLowering.OpList
