import TemplateLowering.Op.List.Basic

/-!
# Editing lists of operations

The structural operations on an `OpList`.  Each checks its arguments before it changes a link, so a
rejected operation leaves the chain as it was; the only trace it may leave are nodes that it had
created before, all detached.  For that reason an edit that fails still yields a list.
-/

namespace TemplateLowering.OpList

/-- An operation on a list that may be rejected, and yields the list in either case. -/
abbrev Edit (α : Type) := ExceptT Fault (StateM (OpList α))

variable {α : Type} [ListOp α]

/-- The result of an edit when it is accepted. -/
def Edit.exec {β : Type} (edit : Edit α β) (l : OpList α) : Except Fault (β × OpList α) :=
  match edit.run l with
  | (.ok result, l) => .ok (result, l)
  | (.error fault, _) => .error fault

/-! ## Links -/

def linkBetween (l : OpList α) (index prev next : Nat) : OpList α :=
  let nodes := l.nodes.modify prev fun node => { node with next := some index }
  let nodes := nodes.modify next fun node => { node with prev := some index }
  let nodes := nodes.modify index fun node =>
    { node with prev := some prev, next := some next, owner := some l.id }
  { l with nodes, len := l.len + 1 }

def unlinkBetween (l : OpList α) (index prev next : Nat) : OpList α :=
  let nodes := l.nodes.modify prev fun node => { node with next := some next }
  let nodes := nodes.modify next fun node => { node with prev := some prev }
  let nodes := nodes.modify index fun node =>
    { node with prev := none, next := none, owner := none }
  { l with nodes, len := l.len - 1 }

def alloc (l : OpList α) (op : α) : OpList α :=
  { l with nodes := l.nodes.push { op } }

/-- Adds an operation at the end of the list. -/
def append (l : OpList α) (op : α) : OpList α :=
  let index := l.nodes.size
  let prev := (l.prev? tailIndex).getD headIndex
  (l.alloc op).linkBetween index prev tailIndex

/-- Adds operations at the end of the list, in order. -/
def appendAll (l : OpList α) (ops : List α) : OpList α :=
  ops.foldl append l

def ofList (id : ListId) (ops : List α) : OpList α :=
  (empty id id.index).appendAll ops

/-! ## Checks -/

/-- The node of a handle, which has to come from this list. -/
def indexOf (id : OpId) : Edit α Nat := do
  let l ← get
  if id.list ≠ l.id then
    throw (.otherList id.list l.id)
  else if id.arena ≠ l.arena then
    throw (.otherArena l.id)
  else
    return id.index

def checkNotEnd (index : Nat) : Edit α Unit := do
  let l ← get
  if l.isEnd index then throw .listEnd

def checkUnowned (index : Nat) : Edit α Unit := do
  let l ← get
  match l.owner? index with
  | some owner => throw (.alreadyOwned owner)
  | none => return ()

def checkOwned (index : Nat) : Edit α Unit := do
  let l ← get
  match l.owner? index with
  | some owner => if owner ≠ l.id then throw (.foreignOwner owner l.id)
  | none => throw .unowned

def before (index : Nat) : Edit α Nat := do
  let l ← get
  match l.prev? index with
  | some prev => return prev
  | none => throw (.missingNeighbour index)

def after (index : Nat) : Edit α Nat := do
  let l ← get
  match l.next? index with
  | some next => return next
  | none => throw (.missingNeighbour index)

/-- Detaches a linked node; gives the neighbours that it had. -/
def unlink (index : Nat) : Edit α (Nat × Nat) := do
  let prev ← before index
  let next ← after index
  modify fun l => l.unlinkBetween index prev next
  return (prev, next)

/-- Links a node directly before another one. -/
def linkBefore (target index : Nat) : Edit α Unit := do
  let prev ← before target
  modify fun l => l.linkBetween index prev target

/-! ## Creating and inserting -/

def create (op : α) : Edit α OpId := do
  if ListOp.isListEnd op then throw .createListEnd
  let l ← get
  set (l.alloc op)
  return l.opId l.nodes.size

/-- The nodes of handles to be inserted: detached, and each named once. -/
def detachedIndices (ids : List OpId) : Edit α (List Nat) :=
  ids.foldlM
    (fun indices id => do
      let index ← indexOf id
      checkNotEnd index
      checkUnowned index
      if index ∈ indices then throw (.insertedTwice index)
      return indices ++ [index])
    []

def insertNodesBefore (ids : List OpId) (target : OpId) : Edit α Unit := do
  let target ← indexOf target
  checkOwned target
  if target = headIndex then throw .insertBeforeHead
  let indices ← detachedIndices ids
  indices.forM (linkBefore target)

def insertNodeBefore (id target : OpId) : Edit α Unit :=
  insertNodesBefore [id] target

def insertBefore (op : α) (target : OpId) : Edit α OpId := do
  let id ← create op
  insertNodeBefore id target
  return id

/-- Links a detached node directly after `target`. -/
def insertNodeAfter (id target : OpId) : Edit α Unit := do
  let target ← indexOf target
  checkOwned target
  if target = tailIndex then throw .insertAfterTail
  let index ← indexOf id
  checkNotEnd index
  checkUnowned index
  let next ← after target
  modify fun l => l.linkBetween index target next

def insertAfter (op : α) (target : OpId) : Edit α OpId := do
  let id ← create op
  insertNodeAfter id target
  return id

def pushNode (id : OpId) : Edit α Unit := do
  insertNodeBefore id (← get).tail

def push (op : α) : Edit α OpId := do
  let id ← create op
  pushNode id
  return id

def pushAll (ops : List α) : Edit α (List OpId) := do
  let ids ← ops.mapM create
  insertNodesBefore ids (← get).tail
  return ids

/-- Links detached nodes, in order, at the start. -/
def prependNodes (ids : List OpId) : Edit α Unit := do
  if ids.isEmpty then return ()
  let l ← get
  insertNodesBefore ids (l.opId ((l.next? headIndex).getD tailIndex))

def prepend (ops : List α) : Edit α (List OpId) := do
  let ids ← ops.mapM create
  prependNodes ids
  return ids

/-! ## Replacing and removing -/

def replaceNode (old new : OpId) : Edit α Unit := do
  let old ← indexOf old
  let new ← indexOf new
  checkNotEnd old
  checkNotEnd new
  checkOwned old
  checkUnowned new
  let (prev, next) ← unlink old
  modify fun l => l.linkBetween new prev next

def replace (old : OpId) (op : α) : Edit α OpId := do
  let id ← create op
  replaceNode old id
  return id

/-- Detaches a linked node. -/
def remove (id : OpId) : Edit α Unit := do
  let index ← indexOf id
  checkNotEnd index
  checkOwned index
  let _ ← unlink index

/-- The nodes of a run that replaces `old`: each named once, and detached unless it is `old`. -/
def replacementIndices (old : Nat) (ids : List OpId) : Edit α (List Nat) :=
  ids.foldlM
    (fun indices id => do
      let index ← indexOf id
      checkNotEnd index
      if index ≠ old then checkUnowned index
      if index ∈ indices then throw (.replacedTwice index)
      return indices ++ [index])
    []

def linkRun (l : OpList α) (prev next : Nat) : List Nat → OpList α
  | [] => l
  | index :: rest => linkRun (l.linkBetween index prev next) index next rest

/-- Puts a run of nodes in the place of a linked one, which may itself be part of the run. -/
def replaceWithMany (old : OpId) (ids : List OpId) : Edit α Unit := do
  if ids.isEmpty then
    remove old
  else
    let old ← indexOf old
    checkNotEnd old
    checkOwned old
    let indices ← replacementIndices old ids
    let (prev, next) ← unlink old
    modify fun l => l.linkRun prev next indices

/-- Moves the operation out of a detached node, which can never be linked again. -/
def take (id : OpId) : Edit α α := do
  let index ← indexOf id
  checkNotEnd index
  checkUnowned index
  let l ← get
  set { l with nodes := l.nodes.modify index fun node => { node with op := ListOp.listEnd } }
  return (l.op? index).getD ListOp.listEnd

/-! ## Reading through a handle -/

/-- The operation of a node. -/
def read (id : OpId) : Edit α α := do
  let index ← indexOf id
  return ((← get).op? index).getD ListOp.listEnd

/-- Puts another operation into a node. -/
def write (id : OpId) (op : α) : Edit α Unit := do
  let index ← indexOf id
  modify fun l => { l with nodes := l.nodes.modify index fun node => { node with op } }

/-- The node before a node, possibly the head sentinel; none if the node is detached. -/
def prevOf (id : OpId) : Edit α (Option OpId) := do
  let index ← indexOf id
  let l ← get
  return (l.prev? index).map l.opId

/-- The node after a node, possibly the tail sentinel; none if the node is detached. -/
def nextOf (id : OpId) : Edit α (Option OpId) := do
  let index ← indexOf id
  let l ← get
  return (l.next? index).map l.opId

def ownerOf (id : OpId) : Edit α (Option ListId) := do
  let index ← indexOf id
  return (← get).owner? index

end TemplateLowering.OpList
