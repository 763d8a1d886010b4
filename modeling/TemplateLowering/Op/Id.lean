/-!
# Identifiers

Operations refer to each other by cross-reference numbers; every list of operations has a number of
its own.  Both are handed out by the job, in increasing order and never twice.
-/

namespace TemplateLowering

/-- The number that links the operations which belong together: an element and its bindings, a view
and the operation that declares it. -/
structure Xref where
  index : Nat
deriving DecidableEq, Inhabited, Repr, Hashable

def Xref.text (xref : Xref) : String :=
  "xref#" ++ toString xref.index

/-- The number of a list of operations. -/
structure ListId where
  index : Nat
deriving DecidableEq, Inhabited, Repr, Hashable

def ListId.text (id : ListId) : String :=
  "ListId(" ++ toString id.index ++ ")"

/-- The slot that an operation occupies at run time, once slots are assigned. -/
abbrev Slot := Option Nat

/-- The supply of fresh numbers of one job. -/
structure Ids where
  nextXref : Nat := 0
  nextList : Nat := 0
deriving DecidableEq, Inhabited, Repr

namespace Ids

variable {m : Type → Type} [Monad m] [MonadStateOf Ids m]

def freshXref : m Xref := do
  let ids ← getThe Ids
  set { ids with nextXref := ids.nextXref + 1 }
  return ⟨ids.nextXref⟩

def freshList : m ListId := do
  let ids ← getThe Ids
  set { ids with nextList := ids.nextList + 1 }
  return ⟨ids.nextList⟩

end Ids
end TemplateLowering
