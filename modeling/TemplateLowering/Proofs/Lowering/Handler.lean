import TemplateLowering.Proofs.Lowering.Layout

/-!
# Lowered handlers

The expressions of a template read names, but never slots of a view, and they neither save nor
restore a view.  So a lowered handler evaluates such expressions one after the other, and returns
the last.
-/

namespace TemplateLowering

variable {root target : Xref} {base : Option SourceSpan} {s t : Ids}
variable {update : List UpdateOp} {create : List CreateOp}

/-- Whether the expression is of a kind that templates contain: it does not read the slots of a
view, and neither restores a view nor leaves it again. -/
def Expr.isWritten : Expr → Bool
  | .reference .. | .contextLetReference .. | .restoreView _ | .restoreViewFrom _
  | .resetView _ => false
  | _ => true

abbrev Expr.Written (expr : Expr) : Prop :=
  expr.Everywhere isWritten

theorem Expr.written_iff {expr : Expr} :
    expr.Written ↔ expr.isWritten = true ∧ ∀ child ∈ expr.children, child.Written :=
  everywhere_iff

theorem Expr.Lowered.written {expr : Expr} (h : expr.Lowered root) : expr.Written := by
  refine h.imp ?_
  intro inner hinner
  cases inner <;> first | rfl | simp [isLowered] at hinner

/-! ## Handlers -/

/-- Statements that evaluate expressions with `q`, and a last one that returns a value with `r`. -/
inductive HandlerBody (q r : Expr → Prop) : List UpdateOp → Prop
  | return_ {value : Expr} {span : Option SourceSpan} (h : r value) :
      HandlerBody q r [.statement (.return_ value span)]
  | step {expr : Expr} {span : Option SourceSpan} {ops : List UpdateOp} (h : q expr)
      (hops : HandlerBody q r ops) : HandlerBody q r (.statement (.expression expr span) :: ops)

theorem HandlerBody.imp {q r q' r' : Expr → Prop} {ops : List UpdateOp} (h : HandlerBody q r ops)
    (hq : ∀ expr, q expr → q' expr) (hr : ∀ value, r value → r' value) : HandlerBody q' r' ops := by
  induction h with
  | return_ h => exact .return_ (hr _ h)
  | step h _ ih => exact .step (hq _ h) ih

/-- The handler evaluates expressions with `q` one after the other, and returns the last. -/
def Listener.Evaluates (q : Expr → Prop) (op : Listener) : Prop :=
  HandlerBody q q op.handler.toList

theorem handlerBody_handlerStatements {exprs : List Expr} {last : Expr}
    (hexprs : ∀ expr ∈ exprs, expr.Written) (hlast : last.Written) :
    HandlerBody Expr.Written Expr.Written (handlerStatements exprs last) := by
  induction exprs with
  | nil => exact .return_ hlast
  | cons expr exprs ih =>
    rw [List.forall_mem_cons] at hexprs
    exact .step hexprs.1 (ih hexprs.2)

theorem handlerBody_lowerHandler {handler : Ast} {event : String} {span : SourceSpan}
    {ops : OpList UpdateOp} (h : Yields (lowerHandler root handler event span) s ops t) :
    HandlerBody Expr.Written Expr.Written ops.toList := by
  obtain ⟨exprs, last, u, hexprs, rfl, -⟩ := exists_of_lowerHandler h
  have hwritten : ∀ expr ∈ exprs ++ [last], expr.Written :=
    fun expr hexpr => (hexprs.lowered expr hexpr).written
  rw [List.forall_mem_append, List.forall_mem_singleton] at hwritten
  rw [(OpList.lists_ofList _ _).toList]
  exact handlerBody_handlerStatements hwritten.1 hwritten.2

theorem lowerListener_evaluates {slot : Slot} {tag : Option String} {event : Template.BoundEvent}
    {op : Listener} (h : Yields (lowerListener root target slot tag event) s op t) :
    op.Evaluates Expr.Written := by
  simp only [lowerListener, yields_bind, yields_pure] at h
  obtain ⟨_, _, -, handler, _, hhandler, rfl, -⟩ := h
  exact handlerBody_lowerHandler hhandler

/-! ## Views -/

/-- A create operation from before views are saved: it declares no variable, and a listener only
evaluates expressions. -/
def CreateOp.Unsaved : CreateOp → Prop
  | .listener op => op.Evaluates Expr.Written
  | .variableDecl _ => False
  | _ => True

theorem CreateOp.BoundTo.unsaved {op : CreateOp} (h : op.BoundTo root target) : op.Unsaved := by
  cases h with
  | listener hlistener => exact lowerListener_evaluates hlistener
  | extractedAttribute _ => trivial
  | i18nAttributes _ => trivial

theorem BindsEmpty.unsaved {emptyView : Option Xref} (h : BindsEmpty root emptyView create update) :
    ∀ op ∈ create, op.Unsaved := by
  cases emptyView with
  | none => simp [h.1]
  | some target => exact fun op hop => (h.create op hop).unsaved

theorem BranchLayout.unsaved {isFirst : Bool} {targets : List Xref}
    (h : BranchLayout root isFirst targets create update) : ∀ op ∈ create, op.Unsaved := by
  induction h with
  | nil => simp
  | @cons isFirst _ _ _ _ _ _ hcopies _ ih =>
    have hbranch : ∀ op, (branchOp isFirst op).Unsaved := by
      intro op
      cases isFirst <;> trivial
    simp only [List.mem_append, List.mem_cons]
    rintro op (hop | rfl | hop)
    · exact (hcopies.create op hop).unsaved
    · exact hbranch _
    · exact ih op hop

theorem Layout.unsaved (h : Layout root create update) : ∀ op ∈ create, op.Unsaved := by
  induction h with
  | nil => simp
  | append _ _ ih ih' =>
    intro op hop
    exact (List.mem_append.1 hop).elim (ih op) (ih' op)
  | text op => simp [CreateOp.Unsaved]
  | boundText _ => simp [CreateOp.Unsaved]
  | declaration _ _ => simp [CreateOp.Unsaved]
  | icu _ _ ih => simpa [CreateOp.Unsaved, or_imp, forall_and] using ih
  | message _ _ ih => simpa [CreateOp.Unsaved, or_imp, forall_and] using ih
  | element _ hbindings _ ih =>
    have hcopies := fun op hop => (hbindings.create op hop).unsaved
    simpa [CreateOp.Unsaved, or_imp, forall_and] using ⟨hcopies, ih⟩
  | template hbindings =>
    have hcopies := fun op hop => (hbindings.create op hop).unsaved
    simpa [CreateOp.Unsaved] using hcopies
  | projection _ => simp [CreateOp.Unsaved]
  | conditional hbranches _ => exact hbranches.unsaved
  | loop _ hempty hcopies =>
    have hcopies := fun op hop => (hcopies.create op hop).unsaved
    simpa [CreateOp.Unsaved, or_imp, forall_and] using ⟨hempty.unsaved, hcopies⟩
  | deferred _ _ _ =>
    simp only [List.mem_append, List.mem_map, List.mem_cons]
    rintro op (⟨_, -, rfl⟩ | rfl | ⟨_, -, rfl⟩) <;> trivial

end TemplateLowering
