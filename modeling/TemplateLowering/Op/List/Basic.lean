import TemplateLowering.Op.Id

/-!
# Lists of operations

An `OpList` is a doubly linked list whose nodes live in an arena of their own and are addressed by
`OpId`.  The first two nodes of the arena are the sentinels at the head and the tail; the operations
of the list are chained between them.  A node may also be detached: created and not linked yet, or
removed.  A detached node has no neighbours and no owner.

`OpList.indices` reads the chain from head to tail, and `OpList.toList` the operations on it.
`OpList.assertConsistent` checks that the links form one chain that is owned throughout.
-/

namespace TemplateLowering

/-- Operations that can be kept in a list.  A list end marks the sentinels, and the nodes whose
operation was moved out. -/
class ListOp (α : Type) where
  listEnd : α
  isListEnd : α → Bool

/-- A handle to a node in the arena of one particular list. -/
structure OpId where
  list : ListId
  arena : Nat
  index : Nat
deriving DecidableEq, Inhabited, Repr

structure OpNode (α : Type) where
  op : α
  prev : Option Nat := none
  next : Option Nat := none
  owner : Option ListId := none

/-- A doubly linked list of operations.  The tag `arena` tells apart lists that share a number. -/
structure OpList (α : Type) where
  id : ListId
  arena : Nat
  nodes : Array (OpNode α)
  len : Nat

namespace OpList

/-- How a list can be misused, or be found broken. -/
inductive Fault
  | createListEnd
  | insertBeforeHead
  | insertAfterTail
  | replacedTwice (index : Nat)
  | insertedTwice (index : Nat)
  | listEnd
  | alreadyOwned (owner : ListId)
  | foreignOwner (owner expected : ListId)
  | unowned
  | otherList (list expected : ListId)
  | otherArena (list : ListId)
  | cursorOnOtherList (cursor list : ListId)
  | cursorLost
  | missingNeighbour (index : Nat)
  | chainBroken (index : Nat)
  | chainRepeats (index : Nat)
  | backLinkWrong (index before : Nat)
  | chainUnowned (index : Nat)
  | lengthWrong (count len : Nat)
  | detachedWithState (index : Nat)
deriving DecidableEq, Inhabited, Repr

def Fault.message : Fault → String
  | .createListEnd => "Illegal operation: cannot create a ListEnd op"
  | .insertBeforeHead => "Illegal operation: cannot insert before the list head"
  | .insertAfterTail => "Illegal operation: cannot insert after the list tail"
  | .replacedTwice index =>
      "Illegal operation: op " ++ toString index ++ " appears twice in a replacement run"
  | .insertedTwice index => "Illegal operation: op " ++ toString index ++ " is inserted twice"
  | .listEnd => "Illegal operation: expected op to not be a list end"
  | .alreadyOwned owner => "Illegal operation: op is already owned by list " ++ owner.text
  | .foreignOwner owner expected =>
      "Illegal operation: op is owned by list " ++ owner.text ++ ", expected " ++ expected.text
  | .unowned => "Illegal operation: op is not owned by any list"
  | .otherList list expected =>
      "Illegal operation: op belongs to list " ++ list.text ++ ", not " ++ expected.text
  | .otherArena list => "Illegal operation: op belongs to another list with id " ++ list.text
  | .cursorOnOtherList cursor list =>
      "Illegal operation: cursor over " ++ cursor.text ++ " used with list " ++ list.text
  | .cursorLost =>
      "Illegal state: iterated onto an op that is no longer owned by this list"
  | .missingNeighbour index =>
      "AssertionError: owned node " ++ toString index ++ " is missing a neighbor"
  | .chainBroken index => "AssertionError: chain broken after node " ++ toString index
  | .chainRepeats index =>
      "AssertionError: node " ++ toString index ++ " appears twice in the chain"
  | .backLinkWrong index before =>
      "AssertionError: node " ++ toString index ++ " does not link back to " ++ toString before
  | .chainUnowned index =>
      "AssertionError: node " ++ toString index ++ " is chained but not owned by this list"
  | .lengthWrong count len =>
      "AssertionError: chain holds " ++ toString count ++ " ops but the list counts " ++
        toString len
  | .detachedWithState index =>
      "AssertionError: detached node " ++ toString index ++ " still has list state"

/-- The place of the head sentinel in every arena. -/
abbrev headIndex : Nat := 0

/-- The place of the tail sentinel in every arena. -/
abbrev tailIndex : Nat := 1

variable {α : Type}

/-- The empty list with the given number. -/
def empty [ListOp α] (id : ListId) (arena : Nat) : OpList α :=
  { id
    arena
    nodes :=
      #[{ op := ListOp.listEnd, next := some tailIndex, owner := some id },
        { op := ListOp.listEnd, prev := some headIndex, owner := some id }]
    len := 0 }

/-! ## Nodes -/

def op? (l : OpList α) (index : Nat) : Option α :=
  l.nodes[index]?.map OpNode.op

def prev? (l : OpList α) (index : Nat) : Option Nat :=
  l.nodes[index]?.bind OpNode.prev

def next? (l : OpList α) (index : Nat) : Option Nat :=
  l.nodes[index]?.bind OpNode.next

def owner? (l : OpList α) (index : Nat) : Option ListId :=
  l.nodes[index]?.bind OpNode.owner

def opId (l : OpList α) (index : Nat) : OpId :=
  { list := l.id, arena := l.arena, index }

def head (l : OpList α) : OpId :=
  l.opId headIndex

def tail (l : OpList α) : OpId :=
  l.opId tailIndex

/-- Whether a handle was given out by this very list, not merely by one with the same number. -/
def holds (l : OpList α) (id : OpId) : Bool :=
  id.list = l.id && id.arena = l.arena

/-- Whether a node is a sentinel or has had its operation moved out. -/
def isEnd [ListOp α] (l : OpList α) (index : Nat) : Bool :=
  index = headIndex || index = tailIndex || (l.op? index).all ListOp.isListEnd

def isSentinel (l : OpList α) (id : OpId) : Bool :=
  l.holds id && (id.index = headIndex || id.index = tailIndex)

/-- The operation of a node, linked or not. -/
def get? (l : OpList α) (id : OpId) : Option α :=
  if l.holds id then l.op? id.index else none

/-! ## The chain -/

/-- The nodes reached from `index` by following `step` until `stop`, at most `fuel` of them. -/
def follow (step : Nat → Option Nat) (stop : Nat) : Nat → Option Nat → List Nat
  | 0, _ => []
  | _ + 1, none => []
  | fuel + 1, some index =>
      if index = stop then [] else index :: follow step stop fuel (step index)

/-- The nodes between head and tail, in order. -/
def indices (l : OpList α) : List Nat :=
  follow l.next? tailIndex l.nodes.size (l.next? headIndex)

/-- The nodes between tail and head, in reverse order. -/
def indicesRev (l : OpList α) : List Nat :=
  follow l.prev? headIndex l.nodes.size (l.prev? tailIndex)

def ids (l : OpList α) : List OpId :=
  l.indices.map l.opId

/-- The linked operations with their handles, in order. -/
def entries (l : OpList α) : List (OpId × α) :=
  l.indices.filterMap fun index => (l.op? index).map (l.opId index, ·)

/-- The linked operations, in order. -/
def toList (l : OpList α) : List α :=
  l.indices.filterMap l.op?

/-- The linked operations, last one first. -/
def toListRev (l : OpList α) : List α :=
  l.indicesRev.filterMap l.op?

def first? (l : OpList α) : Option OpId :=
  ((l.next? headIndex).filter (· ≠ tailIndex)).map l.opId

def last? (l : OpList α) : Option OpId :=
  ((l.prev? tailIndex).filter (· ≠ headIndex)).map l.opId

def isEmpty (l : OpList α) : Bool :=
  l.len = 0

/-! ## Payloads -/

/-- Changes the operation of one node in place. -/
def modifyOpM {m : Type → Type} [Monad m] (f : α → m α) (l : OpList α) (index : Nat) :
    m (OpList α) :=
  match l.nodes[index]? with
  | some node => do
      let op ← f node.op
      return { l with nodes := l.nodes.setIfInBounds index { node with op } }
  | none => pure l

/-- Changes every linked operation in place, in order. -/
def mapM {m : Type → Type} [Monad m] (f : α → m α) (l : OpList α) : m (OpList α) :=
  l.indices.foldlM (modifyOpM f) l

def map (f : α → α) (l : OpList α) : OpList α :=
  Id.run (l.mapM fun op => pure (f op))

/-- Puts another operation into a node, when the handle belongs to this list. -/
def set? (l : OpList α) (id : OpId) (op : α) : Option (OpList α) :=
  if l.holds id && id.index < l.nodes.size then
    some { l with nodes := l.nodes.modify id.index fun node => { node with op } }
  else
    none

/-! ## Consistency -/

/-- Follows the chain from `current`, checking every link.  Gives the visited nodes and the number
of operations among them. -/
def checkChain (l : OpList α) : Nat → Nat → List Nat → Nat → Except Fault (List Nat × Nat)
  | 0, _, visited, count => .ok (visited, count)
  | fuel + 1, current, visited, count =>
      if current = tailIndex then .ok (visited, count)
      else
        match l.next? current with
        | none => .error (.chainBroken current)
        | some next =>
            if next ∈ visited then .error (.chainRepeats next)
            else if l.prev? next ≠ some current then .error (.backLinkWrong next current)
            else if l.owner? next ≠ some l.id then .error (.chainUnowned next)
            else
              checkChain l fuel next (next :: visited)
                (if next = tailIndex then count else count + 1)

/-- Whether a node has no neighbours and no owner. -/
def isDetached (l : OpList α) (index : Nat) : Bool :=
  (l.owner? index).isNone && (l.prev? index).isNone && (l.next? index).isNone

/-- Checks that the nodes form one owned chain from head to tail whose back links agree with its
forward links, that `len` counts its operations, and that every other node is detached. -/
def assertConsistent (l : OpList α) : Except Fault Unit := do
  let (visited, count) ← l.checkChain (l.nodes.size + 1) headIndex [headIndex] 0
  if count ≠ l.len then throw (.lengthWrong count l.len)
  match (List.range l.nodes.size).find? fun i => !(visited.contains i) && !(l.isDetached i) with
  | some index => throw (.detachedWithState index)
  | none => return ()

end OpList
end TemplateLowering
