import TemplateLowering.Job.Basic

/-!
# Translated blocks

A block of translated content starts with an `I18nStart` and ends with an `I18nEnd`.  When a view
stands for a placeholder of the message around it, its content belongs to that message too, and
`Job.propagateI18nBlocks` gives it a block of its own whose root is the outer block.
`Job.wrapI18nIcus` puts a block around every ICU expression that stands in none.
-/

namespace TemplateLowering

/-! ## Blocks of embedded views -/

/-- What matters for translated blocks in the create operations of a view. -/
inductive BlockStep
  | start (id : OpId)
  | stop
  | view (xref : Xref) (hasPlaceholder : Bool)

/-- The view that an operation declares for some optional purpose. -/
def BlockStep.ofView? (xref : Option Xref) (hasPlaceholder : Bool) : List BlockStep :=
  xref.toList.map fun xref => .view xref hasPlaceholder

def BlockStep.ofOp (id : OpId) : CreateOp → List BlockStep
  | .i18nStart _ => [.start id]
  | .i18nEnd _ => [.stop]
  | .template op => [.view op.xref op.placeholder.isSome]
  | .conditionalCreate op => [.view op.xref op.placeholder.isSome]
  | .conditionalBranchCreate op => [.view op.xref op.placeholder.isSome]
  | .repeaterCreate op =>
      .view op.xref op.placeholder.isSome ::
        BlockStep.ofView? op.emptyView op.emptyPlaceholder.isSome
  | .projection op => BlockStep.ofView? op.fallbackView op.placeholder.isSome
  | _ => []

def blockSteps (create : OpList CreateOp) : List BlockStep :=
  create.entries.flatMap fun (id, op) => BlockStep.ofOp id op

/-- The block that is open at some point of a view. -/
structure OpenBlock where
  root : Xref
  message : I18n.Message
  hasIndex : Bool

/-- Gives a block its number among the blocks of its root; number zero is the root itself. -/
def I18nStart.withIndex (op : I18nStart) (index : Nat) : I18nStart :=
  if index ≠ 0 then { op with subTemplateIndex := some index } else op

def I18nStart.opened (op : I18nStart) : OpenBlock :=
  { root := op.root, message := op.message, hasIndex := op.subTemplateIndex.isSome }

def View.numberBlock (view : View) (id : OpId) (index : Nat) : View :=
  match view.create.get? id with
  | some (.i18nStart op) =>
      match view.create.set? id (.i18nStart (op.withIndex index)) with
      | some create => { view with create }
      | none => view
  | _ => view

def View.openedBlock? (view : View) (id : OpId) : Option OpenBlock :=
  match view.create.get? id with
  | some (.i18nStart op) => some op.opened
  | _ => none

def View.startsWithBlock (view : View) : Bool :=
  match view.create.first?.bind view.create.get? with
  | some (.i18nStart _) => true
  | _ => false

/-- Encloses the content of a view in a block below an open one. -/
def View.wrapInBlock (view : View) (xref : Xref) (parent : OpenBlock) : Except Fault View := do
  let start : CreateOp :=
    .i18nStart { xref, root := parent.root, message := parent.message, span := none }
  let create ← editList view.create (OpList.prepend [start])
  let create ← editList create (OpList.push (.i18nEnd { xref, span := none }))
  return { view with create }

/-- A walk over the views of a job, which changes the job. -/
abbrev Walk := StateT Job (Except Fault)

/-- Encloses the content of a view in a block, unless it has one already. -/
def wrapView (view : Xref) (parent : OpenBlock) : Walk Unit := do
  let job ← get
  match job.unit? view with
  | none => return ()
  | some unit =>
      if unit.startsWithBlock then
        return ()
      else
        let (xref, job) := job.allocateXref
        let job ← job.modifyUnitM view fun unit => unit.wrapInBlock xref parent
        set job

/-- Follows the steps of a view.  `visit` walks a view that is declared there; both the walk and the
result count the blocks of the current root. -/
def followBlockSteps (visit : Xref → Nat → Walk Nat) (view : Xref) :
    List BlockStep → Option OpenBlock → Nat → Walk Nat
  | [], _, index => return index
  | .start id :: steps, block, index => do
      modify fun job => job.modifyUnit view fun unit => unit.numberBlock id index
      let opened := ((← get).unit? view).bind fun unit => unit.openedBlock? id
      followBlockSteps visit view steps (opened <|> block) index
  | .stop :: steps, block, index =>
      let ended := match block with
        | some block => if block.hasIndex then index else 0
        | none => index
      followBlockSteps visit view steps none ended
  | .view xref hasPlaceholder :: steps, block, index => do
      let index ← match hasPlaceholder, block with
        | true, some block => do
            wrapView xref block
            visit xref (index + 1)
        | _, _ => visit xref index
      followBlockSteps visit view steps block index

/-- Walks a view and the views declared in it, to the depth that `fuel` allows. -/
def propagateBlocks : Nat → Xref → Nat → Walk Nat
  | 0, view, _ => throw (.viewCycle view)
  | fuel + 1, view, index => do
      match (← get).unit? view with
      | none => return index
      | some unit =>
          followBlockSteps (propagateBlocks fuel) view (blockSteps unit.create) none index

/-- Gives every view that stands for a placeholder of the message around it a block of its own. -/
def Job.propagateI18nBlocks (job : Job) : Except Fault Job := do
  let (_, job) ← (propagateBlocks (job.views.length + 2) job.root.xref 0).run job
  return job

/-! ## Blocks around ICU expressions -/

/-- An ICU expression outside every block. -/
structure LoneIcu where
  start : OpId
  stop : Option OpId
  message : I18n.Message

/-- The ICU expressions outside every block.  `pending` is one whose end has not been met. -/
def loneIcus : Bool → Option (OpId × I18n.Message) → List (OpId × CreateOp) → List LoneIcu
  | _, none, [] => []
  | _, some (start, message), [] => [{ start, stop := none, message }]
  | inBlock, pending, (id, op) :: rest =>
      match op with
      | .i18nStart _ => loneIcus true pending rest
      | .i18nEnd _ => loneIcus false pending rest
      | .icuStart icu =>
          if inBlock then loneIcus inBlock pending rest
          else loneIcus inBlock (some (id, icu.message)) rest
      | .icuEnd _ =>
          match pending with
          | some (start, message) =>
              { start, stop := some id, message } :: loneIcus inBlock none rest
          | none => loneIcus inBlock none rest
      | _ => loneIcus inBlock pending rest

def wrapIcu (xref : Xref) (icu : LoneIcu) : OpList.Edit CreateOp Unit := do
  let start : CreateOp := .i18nStart { xref, root := xref, message := icu.message, span := none }
  let _ ← OpList.insertBefore start icu.start
  match icu.stop with
  | some stop =>
      let _ ← OpList.insertAfter (.i18nEnd { xref, span := none }) stop
  | none => return ()

def View.wrapIcus (view : View) : StateT Ids (Except Fault) View := do
  let icus := loneIcus false none view.create.entries
  let blocks ← icus.mapM fun icu => do
    let xref ← Ids.freshXref
    return (xref, icu)
  let create ← editList view.create (blocks.forM fun (xref, icu) => wrapIcu xref icu)
  return { view with create }

/-- Puts a block around every ICU expression that stands in none. -/
def Job.wrapI18nIcus (job : Job) : Except Fault Job :=
  job.mapUnitsFresh View.wrapIcus

end TemplateLowering
