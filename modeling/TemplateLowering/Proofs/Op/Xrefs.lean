import TemplateLowering.Op.Create
import TemplateLowering.Proofs.Op.Visit
import TemplateLowering.Proofs.OpList.Content
import TemplateLowering.Proofs.Output.Pipes
import TemplateLowering.Proofs.Xref.Supply

/-!
# Numbers of operations

The numbers that an operation introduces: its own, unless it declares a view or ends what another
operation started, those of the pipes in its expressions, and those of the operations inside it.
-/

namespace TemplateLowering

/-! ## Expressions of operations -/

/-- The expressions that stand in a create operation itself. -/
def CreateOp.exprs : CreateOp → List Expr
  | .variableDecl op => [op.initializer]
  | .statement body => body.exprs
  | .repeaterCreate op => op.track :: op.trackByFn.toList
  | .extractedAttribute op => op.expr.toList
  | _ => []

/-- The lists of operations inside a create operation: a handler, or the body of a track
function. -/
def CreateOp.lists : CreateOp → List (OpList UpdateOp)
  | .listener op => [op.handler]
  | .repeaterCreate op => op.trackByOps.toList
  | _ => []

/-! ## Numbers -/

def UpdateOp.declared : UpdateOp → List Xref
  | .variableDecl op => [op.xref]
  | _ => []

/-- The number that a create operation declares, other than that of a view. -/
def CreateOp.declared : CreateOp → List Xref
  | .elementStart op => [op.xref]
  | .containerStart op => [op.xref]
  | .text op => [op.xref]
  | .projection op => [op.xref]
  | .defer op => [op.xref]
  | .i18nStart op => [op.xref]
  | .i18nContext op => [op.xref]
  | .i18nAttributes op => [op.xref]
  | .icuStart op => [op.xref]
  | .declareLet op => [op.xref]
  | .variableDecl op => [op.xref]
  | _ => []

def UpdateOp.xrefs (op : UpdateOp) : List Xref :=
  op.declared ++ op.exprs.flatMap Expr.pipes

def CreateOp.xrefs (op : CreateOp) : List Xref :=
  op.declared ++ op.exprs.flatMap Expr.pipes ++
    op.lists.flatMap fun ops => ops.toList.flatMap UpdateOp.xrefs

/-- The numbers of a view: its own and those of its operations. -/
def View.xrefs (view : View) : List Xref :=
  view.xref ::
    (view.create.toList.flatMap CreateOp.xrefs ++ view.update.toList.flatMap UpdateOp.xrefs)

def Job.xrefs (job : Job) : List Xref :=
  job.units.flatMap View.xrefs

/-! ## Visits that keep pipes -/

theorem UpdateOp.declared_withExprs (op : UpdateOp) (parts : List Expr) :
    (op.withExprs parts).declared = op.declared := by
  cases op <;> rfl

theorem KeepsPipes.visitUpdateOp {m : Type → Type} [Monad m] [LawfulMonad m] {σ ε : Type}
    [Stateful m σ ε] {f : Visitor m} {flags : VisitFlags} {s t : σ} (hf : KeepsPipes f)
    {op op' : UpdateOp} (h : Yields (op.visitM f flags) s op' t) : op'.xrefs = op.xrefs := by
  rw [UpdateOp.visitM_eq, yields_map] at h
  obtain ⟨parts, hparts, rfl⟩ := h
  have hthreads := yields_mapM.1 hparts
  have hpipes := hthreads.flatMap_eq fun _ _ _ _ _ hvisit => hf.visitM hvisit
  rw [UpdateOp.xrefs, UpdateOp.declared_withExprs, UpdateOp.exprs_withExprs hthreads.length_eq,
    hpipes, ← UpdateOp.xrefs]

end TemplateLowering
