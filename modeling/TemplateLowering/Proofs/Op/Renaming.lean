import TemplateLowering.Job.Basic
import TemplateLowering.Proofs.OpList.Content
import TemplateLowering.Proofs.Output.Children

/-!
# Renaming

A renaming moves the numbers of a job up: all cross-references but that of the root by one amount,
and the numbers of lists by another.  It goes through all data of a view that holds such numbers.
-/

namespace TemplateLowering

/-- How far cross-references and the numbers of lists are moved. -/
structure Renaming where
  xrefs : Nat
  lists : Nat

namespace Renaming

/-- The number of the root view stays as it is. -/
def xref (r : Renaming) : Xref → Xref
  | ⟨0⟩ => ⟨0⟩
  | ⟨index + 1⟩ => ⟨index + 1 + r.xrefs⟩

def list (r : Renaming) (id : ListId) : ListId :=
  ⟨id.index + r.lists⟩

end Renaming

/-! ## Expressions -/

/-- Renames what an expression itself refers to, whatever its parts do. -/
def Expr.renameHead (r : Renaming) : Expr → Expr
  | .reference target slot offset => .reference (r.xref target) slot offset
  | .context view => .context (r.xref view)
  | .trackContext view => .trackContext (r.xref view)
  | .restoreView view => .restoreView (r.xref view)
  | .readVariable xref name => .readVariable (r.xref xref) name
  | .pipeBinding target slot name args => .pipeBinding (r.xref target) slot name args
  | .conditionalCase condition target slot aliasName =>
      .conditionalCase condition (r.xref target) slot aliasName
  | .contextLetReference target slot => .contextLetReference (r.xref target) slot
  | expr => expr

def renameVisit (r : Renaming) : Visitor Id := fun _ expr => expr.renameHead r

def Expr.rename (r : Renaming) (expr : Expr) : Expr :=
  Id.run (expr.visitM (renameVisit r) {})

def Statement.rename (r : Renaming) (statement : Statement) : Statement :=
  Id.run (statement.visitM (renameVisit r) {})

def MapEntry.rename (r : Renaming) (entry : MapEntry) : MapEntry :=
  { entry with value := entry.value.rename r }

/-! ## Operations -/

def Interpolation.rename (r : Renaming) (value : Interpolation) : Interpolation :=
  { value with expressions := value.expressions.map (Expr.rename r) }

def BindingValue.rename (r : Renaming) : BindingValue → BindingValue
  | .expression expr => .expression (expr.rename r)
  | .interpolation value => .interpolation (value.rename r)

def ConditionalCase.rename (r : Renaming) (branch : ConditionalCase) : ConditionalCase :=
  { branch with condition := branch.condition.map (Expr.rename r), target := r.xref branch.target }

def SemanticVariable.rename (r : Renaming) : SemanticVariable → SemanticVariable
  | .context view name => .context (r.xref view) name
  | .savedView view name => .savedView (r.xref view) name
  | declared => declared

def VariableOp.rename (r : Renaming) (op : VariableOp) : VariableOp :=
  { op with
    xref := r.xref op.xref
    declared := op.declared.rename r
    initializer := op.initializer.rename r }

def Binding.rename (r : Renaming) (op : Binding) : Binding :=
  { op with
    target := r.xref op.target
    value := op.value.rename r
    i18nContext := op.i18nContext.map r.xref }

def DeferWhenOp.rename (r : Renaming) (op : DeferWhenOp) : DeferWhenOp :=
  { op with target := r.xref op.target, expr := op.expr.rename r }

def UpdateOp.rename (r : Renaming) : UpdateOp → UpdateOp
  | .listEnd => .listEnd
  | .binding op => .binding (op.rename r)
  | .property op =>
      .property
        { op with
          target := r.xref op.target
          value := op.value.rename r
          i18nContext := op.i18nContext.map r.xref }
  | .twoWayProperty op =>
      .twoWayProperty
        { op with
          target := r.xref op.target
          expr := op.expr.rename r
          i18nContext := op.i18nContext.map r.xref }
  | .attr op =>
      .attr
        { op with
          target := r.xref op.target
          value := op.value.rename r
          i18nContext := op.i18nContext.map r.xref }
  | .domProperty op =>
      .domProperty
        { op with value := op.value.rename r, i18nContext := op.i18nContext.map r.xref }
  | .styleProp op =>
      .styleProp { op with target := r.xref op.target, value := op.value.rename r }
  | .classProp op => .classProp { op with target := r.xref op.target, expr := op.expr.rename r }
  | .styleMap op => .styleMap { op with target := r.xref op.target, value := op.value.rename r }
  | .classMap op => .classMap { op with target := r.xref op.target, value := op.value.rename r }
  | .interpolateText op =>
      .interpolateText
        { op with target := r.xref op.target, interpolation := op.interpolation.rename r }
  | .conditional op =>
      .conditional
        { op with
          target := r.xref op.target
          test := op.test.map (Expr.rename r)
          cases := op.cases.map (ConditionalCase.rename r)
          processed := op.processed.map (Expr.rename r)
          contextValue := op.contextValue.map (Expr.rename r) }
  | .repeater op =>
      .repeater { op with target := r.xref op.target, collection := op.collection.rename r }
  | .deferWhen op => .deferWhen (op.rename r)
  | .storeLet op => .storeLet { op with target := r.xref op.target, value := op.value.rename r }
  | .variableDecl op => .variableDecl (op.rename r)
  | .statement body => .statement (body.rename r)

/-- The list of the renamed operations, under a renamed number. -/
def OpList.rename {α : Type} [ListOp α] (r : Renaming) (f : α → α) (l : OpList α) : OpList α :=
  OpList.ofList (r.list l.id) (l.toList.map f)

def Listener.rename (r : Renaming) (op : Listener) : Listener :=
  { op with target := r.xref op.target, handler := op.handler.rename r (UpdateOp.rename r) }

def ExtractedAttribute.rename (r : Renaming) (op : ExtractedAttribute) : ExtractedAttribute :=
  { op with
    target := r.xref op.target
    expr := op.expr.map (Expr.rename r)
    i18nContext := op.i18nContext.map r.xref }

def DeferOnOp.rename (r : Renaming) (op : DeferOnOp) : DeferOnOp :=
  { op with defer := r.xref op.defer }

def CreateOp.rename (r : Renaming) : CreateOp → CreateOp
  | .listEnd => .listEnd
  | .elementStart op => .elementStart { op with xref := r.xref op.xref }
  | .elementEnd op => .elementEnd { op with xref := r.xref op.xref }
  | .containerStart op => .containerStart { op with xref := r.xref op.xref }
  | .containerEnd op => .containerEnd { op with xref := r.xref op.xref }
  | .template op => .template { op with xref := r.xref op.xref }
  | .conditionalCreate op => .conditionalCreate { op with xref := r.xref op.xref }
  | .conditionalBranchCreate op => .conditionalBranchCreate { op with xref := r.xref op.xref }
  | .repeaterCreate op =>
      .repeaterCreate
        { op with
          xref := r.xref op.xref
          emptyView := op.emptyView.map r.xref
          track := op.track.rename r
          trackByOps := op.trackByOps.map (OpList.rename r (UpdateOp.rename r))
          trackByFn := op.trackByFn.map (Expr.rename r) }
  | .listener op => .listener (op.rename r)
  | .text op => .text { op with xref := r.xref op.xref }
  | .projection op =>
      .projection
        { op with xref := r.xref op.xref, fallbackView := op.fallbackView.map r.xref }
  | .extractedAttribute op => .extractedAttribute (op.rename r)
  | .defer op =>
      .defer
        { op with
          xref := r.xref op.xref
          mainView := r.xref op.mainView
          loadingView := op.loadingView.map r.xref
          placeholderView := op.placeholderView.map r.xref
          errorView := op.errorView.map r.xref }
  | .deferOn op => .deferOn (op.rename r)
  | .i18nStart op =>
      .i18nStart
        { op with
          xref := r.xref op.xref
          root := r.xref op.root
          context := op.context.map r.xref }
  | .i18nEnd op => .i18nEnd { op with xref := r.xref op.xref }
  | .i18nContext op =>
      .i18nContext { op with xref := r.xref op.xref, block := op.block.map r.xref }
  | .i18nAttributes op =>
      .i18nAttributes { op with xref := r.xref op.xref, target := r.xref op.target }
  | .icuStart op =>
      .icuStart { op with xref := r.xref op.xref, context := op.context.map r.xref }
  | .icuEnd xref => .icuEnd (r.xref xref)
  | .declareLet op => .declareLet { op with xref := r.xref op.xref }
  | .variableDecl op => .variableDecl (op.rename r)
  | .statement body => .statement (body.rename r)

theorem OpList.rename_ofList {α : Type} [ListOp α] (r : Renaming) (f : α → α) (id : ListId)
    (ops : List α) : (OpList.ofList id ops).rename r f = .ofList (r.list id) (ops.map f) := by
  rw [OpList.rename, OpList.id_ofList, (OpList.lists_ofList id ops).toList]

/-! ## Views -/

def View.rename (r : Renaming) (view : View) : View :=
  { view with
    xref := r.xref view.xref
    parent := view.parent.map r.xref
    create := view.create.rename r (CreateOp.rename r)
    update := view.update.rename r (UpdateOp.rename r) }

/-- The view without the names that are known in it. -/
def View.unnamed (view : View) : View :=
  { view with contextVariables := {}, aliases := [] }

/-! ## Renamed expressions -/

namespace Expr

variable (r : Renaming)

theorem rename_eq (expr : Expr) :
    expr.rename r = (expr.withChildren (expr.children.map (rename r))).renameHead r := by
  rw [rename, visitM_eq]
  simp only [Id.run_bind, List.idRun_mapM]
  rfl

theorem span_rename (expr : Expr) : (expr.rename r).span = expr.span := by
  rw [rename_eq]
  cases expr with
  | conditional condition trueCase falseCase span => cases falseCase <;> rfl
  | _ => rfl

theorem rename_invoke (fn : Expr) (args : List Expr) (span : Option SourceSpan) (isPure : Bool) :
    (Expr.invoke fn args span isPure).rename r =
      .invoke (fn.rename r) (args.map (rename r)) span isPure :=
  rename_eq r _

theorem rename_array (entries : List Expr) (span : Option SourceSpan) :
    (Expr.array entries span).rename r = .array (entries.map (rename r)) span :=
  rename_eq r _

theorem rename_pipeBinding (target : Xref) (slot : Slot) (name : String) (args : List Expr) :
    (Expr.pipeBinding target slot name args).rename r =
      .pipeBinding (r.xref target) slot name (args.map (rename r)) :=
  rename_eq r _

theorem rename_safeInvoke (receiver : Expr) (args : List Expr) :
    (Expr.safeInvoke receiver args).rename r =
      .safeInvoke (receiver.rename r) (args.map (rename r)) :=
  rename_eq r _

theorem rename_map (entries : List MapEntry) (span : Option SourceSpan) :
    (Expr.map entries span).rename r = .map (entries.map (MapEntry.rename r)) span := by
  rw [rename_eq]
  simp only [children, withChildren, renameHead, List.map_map, List.zipWith_map_right,
    List.zipWith_self]
  rfl

end Expr

end TemplateLowering
