import TemplateLowering.Op.List.Edit

/-!
# Cursors

A cursor walks along a list, forwards or backwards, while the list is being edited.  It reads the
following node before it yields one, so the yielded node may be removed or replaced and operations
may be inserted after it.  A step onto a node that has left the list is a fault.
-/

namespace TemplateLowering.OpList

/-- A position in a list. -/
structure Cursor where
  list : ListId
  arena : Nat
  position : Option Nat
  reverse : Bool
deriving DecidableEq, Inhabited, Repr

variable {α : Type}

/-- A cursor before the first operation. -/
def cursor (l : OpList α) : Cursor :=
  { list := l.id, arena := l.arena, position := l.next? headIndex, reverse := false }

def cursorRev (l : OpList α) : Cursor :=
  { list := l.id, arena := l.arena, position := l.prev? tailIndex, reverse := true }

/-- The next operation, if there is one, and the cursor behind it. -/
def Cursor.next (c : Cursor) (l : OpList α) : Except Fault (Option OpId × Cursor) :=
  if l.id ≠ c.list || l.arena ≠ c.arena then
    .error (.cursorOnOtherList c.list l.id)
  else
    match c.position with
    | none => .ok (none, c)
    | some index =>
        if index = (if c.reverse then headIndex else tailIndex) then
          .ok (none, { c with position := none })
        else if l.owner? index ≠ some l.id then
          .error .cursorLost
        else
          let position := if c.reverse then l.prev? index else l.next? index
          .ok (some (l.opId index), { c with position })

/-! ## Walks that edit -/

/-- What becomes of an operation that a walk meets. -/
inductive Change (α : Type)
  | keep
  | replace (op : α)
  | drop

variable [ListOp α]

/-- Applies a change to a linked operation. -/
def applyChange (l : OpList α) (id : OpId) : Change α → Except Fault (OpList α)
  | .keep => .ok l
  | .replace op => ((replace id op).exec l).map Prod.snd
  | .drop => ((remove id).exec l).map Prod.snd

/-- Walks along a list with a cursor, changing each operation that it meets; `fuel` bounds the
number of operations. -/
def walk {ε : Type} (onFault : Fault → ε) (f : α → Except ε (Change α)) :
    Nat → Cursor → OpList α → Except ε (OpList α)
  | 0, _, l => .ok l
  | fuel + 1, c, l => do
      let (id?, c) ← (c.next l).mapError onFault
      match id? with
      | none => return l
      | some id =>
          match l.get? id with
          | none => walk onFault f fuel c l
          | some op =>
              let change ← f op
              let l ← (l.applyChange id change).mapError onFault
              walk onFault f fuel c l

/-- Changes every operation of a list as `f` says, first one first. -/
def changeAll {ε : Type} (onFault : Fault → ε) (f : α → Except ε (Change α)) (l : OpList α) :
    Except ε (OpList α) :=
  walk onFault f (l.nodes.size + 1) l.cursor l

end TemplateLowering.OpList
