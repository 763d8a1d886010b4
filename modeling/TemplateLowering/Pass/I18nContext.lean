import TemplateLowering.Job.Basic

/-!
# Contexts of translated messages

A context collects the parameters of one message.  Every distinct message of a translated attribute
gets a context, and so does every root block; the other blocks use the context of their root.  An
ICU expression that is the whole message of its block turns the context of the block into one for
ICU expressions, and any other gets a context of its own.
-/

namespace TemplateLowering

/-- A pass over the views that draws fresh numbers and keeps a state. -/
abbrev ContextPass (σ : Type) := StateT σ (StateT Ids (Except Fault))

def Job.runContextPass {σ : Type} (job : Job) (init : σ) (f : View → ContextPass σ View) :
    Except Fault (Job × σ) := do
  let ((job, state), ids) ← ((job.mapUnitsM f).run init).run job.ids
  return ({ job with ids }, state)

/-! ## Attributes -/

/-- The messages that have a context, each with its context. -/
abbrev MessageContexts := List (I18n.Message × Xref)

def MessageContexts.find? (known : MessageContexts) (message : I18n.Message) : Option Xref :=
  (List.find? (fun entry => entry.1.same message) known).map Prod.snd

/-- The message of an operation that stands for a translated attribute. -/
def CreateOp.attributeMessage? : CreateOp → Option I18n.Message
  | .extractedAttribute op => op.message
  | _ => none

def UpdateOp.attributeMessage? : UpdateOp → Option I18n.Message
  | .binding op => op.message
  | .property op => op.message
  | .attr op => op.message
  | _ => none

def View.attributeMessages (view : View) : List I18n.Message :=
  view.create.toList.filterMap CreateOp.attributeMessage? ++
    view.update.toList.filterMap UpdateOp.attributeMessage?

/-- Declares a context for each message that has none yet. -/
def declareAttributeContexts : List I18n.Message → ContextPass MessageContexts (List CreateOp)
  | [] => return []
  | message :: messages => do
      let known ← getThe MessageContexts
      match known.find? message with
      | some _ => declareAttributeContexts messages
      | none => do
          let xref ← Ids.freshXref
          set (known ++ [(message, xref)])
          let others ← declareAttributeContexts messages
          return .i18nContext { xref, kind := .attr, block := none, message } :: others

/-- The context of a translated attribute; one without a message keeps what it has. -/
def MessageContexts.contextOf (known : MessageContexts) (message : Option I18n.Message)
    (context : Option Xref) : Option Xref :=
  match message with
  | some message => known.find? message
  | none => context

def MessageContexts.assignCreate (known : MessageContexts) : CreateOp → CreateOp
  | .extractedAttribute op =>
      .extractedAttribute { op with i18nContext := known.contextOf op.message op.i18nContext }
  | op => op

def MessageContexts.assignUpdate (known : MessageContexts) : UpdateOp → UpdateOp
  | .binding op => .binding { op with i18nContext := known.contextOf op.message op.i18nContext }
  | .property op => .property { op with i18nContext := known.contextOf op.message op.i18nContext }
  | .attr op => .attr { op with i18nContext := known.contextOf op.message op.i18nContext }
  | op => op

def View.createAttributeContexts (view : View) : ContextPass MessageContexts View := do
  let contexts ← declareAttributeContexts view.attributeMessages
  let known ← getThe MessageContexts
  return {
    view with
    create := (view.create.map known.assignCreate).appendAll contexts
    update := view.update.map known.assignUpdate }

/-! ## Blocks -/

/-- The context of each block; the latest entry of a block counts. -/
abbrev BlockContexts := List (Xref × Xref)

/-- The start of a block that is its own root. -/
def CreateOp.rootBlock? : CreateOp → Option I18nStart
  | .i18nStart op => if op.xref = op.root then some op else none
  | _ => none

def declareRootContexts : List I18nStart → ContextPass BlockContexts (List CreateOp)
  | [] => return []
  | block :: blocks => do
      let xref ← Ids.freshXref
      modifyThe BlockContexts fun known => (block.xref, xref) :: known
      let others ← declareRootContexts blocks
      return .i18nContext
        { xref, kind := .rootI18n, block := some block.xref, message := block.message } :: others

def BlockContexts.assignRoot (known : BlockContexts) : CreateOp → CreateOp
  | .i18nStart op =>
      if op.xref = op.root then .i18nStart { op with context := known.lookup op.xref }
      else .i18nStart op
  | op => op

def View.createRootContexts (view : View) : ContextPass BlockContexts View := do
  let contexts ← declareRootContexts (view.create.toList.filterMap CreateOp.rootBlock?)
  let known ← getThe BlockContexts
  return { view with create := (view.create.map known.assignRoot).appendAll contexts }

/-- Gives a block that is not a root the context of its root. -/
def assignChildContext : CreateOp → ContextPass BlockContexts CreateOp
  | .i18nStart op => do
      if op.xref = op.root then
        return .i18nStart op
      else
        let known ← getThe BlockContexts
        match known.lookup op.root with
        | none => throw .missingRootContext
        | some context =>
            set ((op.xref, context) :: known)
            return .i18nStart { op with context := some context }
  | op => return op

def View.assignChildContexts (view : View) : ContextPass BlockContexts View := do
  let create ← view.create.mapM assignChildContext
  return { view with create }

/-! ## ICU expressions -/

/-- An ICU expression and the block around it. -/
structure PlacedIcu where
  icu : IcuStart
  block : I18nStart

/-- The ICU expressions of a view, each with the block that is open there. -/
def placedIcus : Option I18nStart → List CreateOp → Except Fault (List PlacedIcu)
  | _, [] => return []
  | _, .i18nStart block :: ops => placedIcus (some block) ops
  | _, .i18nEnd _ :: ops => placedIcus none ops
  | none, .icuStart _ :: _ => throw .icuOutsideBlock
  | some block, .icuStart icu :: ops => do
      let others ← placedIcus (some block) ops
      return { icu, block } :: others
  | block, _ :: ops => placedIcus block ops

/-- The context of the block that the ICU expression shares, when it is the whole message. -/
def PlacedIcu.sharedContext? (blocks : BlockContexts) (placed : PlacedIcu) : Option Xref :=
  if placed.icu.message.id = placed.block.message.id then blocks.lookup placed.block.xref
  else none

/-- The context of an ICU expression, and its declaration when it is new. -/
def PlacedIcu.context {m : Type → Type} [Monad m] [MonadStateOf Ids m] (blocks : BlockContexts)
    (placed : PlacedIcu) : m (Xref × Option CreateOp) := do
  match placed.sharedContext? blocks with
  | some context => return (context, none)
  | none =>
      let xref ← Ids.freshXref
      return (xref,
        some (.i18nContext
          { xref, kind := .icu, block := some placed.block.root, message := placed.icu.message }))

/-- The context of each ICU expression; the latest entry counts. -/
def assignIcuContext (contexts : List (Xref × Xref)) : CreateOp → CreateOp
  | .icuStart op =>
      match contexts.lookup op.xref with
      | some context => .icuStart { op with context := some context }
      | none => .icuStart op
  | op => op

/-- Gives the ICU expressions of a view their contexts.  The state collects the contexts of blocks
that are shared with an ICU expression. -/
def View.createIcuContexts (blocks : BlockContexts) (view : View) :
    ContextPass (List Xref) View := do
  let placed ← placedIcus none view.create.toList
  let contexts ← placed.mapM (PlacedIcu.context blocks)
  modifyThe (List Xref) fun shared =>
    shared ++ placed.filterMap (PlacedIcu.sharedContext? blocks)
  let assigned := (placed.map (·.icu.xref)).zip (contexts.map Prod.fst)
  return {
    view with
    create :=
      (view.create.map (assignIcuContext assigned.reverse)).appendAll
        (contexts.filterMap Prod.snd) }

/-- Turns shared contexts of blocks into contexts for ICU expressions. -/
def convertToIcu (shared : List Xref) : CreateOp → CreateOp
  | .i18nContext op =>
      if op.xref ∈ shared then .i18nContext { op with kind := .icu } else .i18nContext op
  | op => op

def View.convertContexts (shared : List Xref) (view : View) : View :=
  { view with create := view.create.map (convertToIcu shared) }

/-! ## The pass -/

def Job.createAttributeContexts (job : Job) : Except Fault Job := do
  let (job, _) ← job.runContextPass ([] : MessageContexts) View.createAttributeContexts
  return job

/-- Gives every translated attribute, block and ICU expression a context. -/
def Job.createI18nContexts (job : Job) : Except Fault Job := do
  let job ← job.createAttributeContexts
  let (job, blocks) ← job.runContextPass ([] : BlockContexts) View.createRootContexts
  let (job, blocks) ← job.runContextPass blocks View.assignChildContexts
  let (job, shared) ← job.runContextPass [] (View.createIcuContexts blocks)
  return Id.run (job.mapUnitsM fun view => pure (view.convertContexts shared))

end TemplateLowering
