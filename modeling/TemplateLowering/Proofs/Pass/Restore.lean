import TemplateLowering.Proofs.Lowering.Handler
import TemplateLowering.Proofs.Pass.Event
import TemplateLowering.Proofs.Pass.Listener

/-!
# Restored views

Saving and restoring goes through every listener once.  A handler that needs its view gets an
operation in front that restores it, and its value is wrapped so that the view is left again; any
other handler stays as it is.  A handler of a template needs its view if the view is an embedded
one, or if it reads the name of a local reference or of a declared value.
-/

namespace TemplateLowering

variable {q r : Expr → Prop} {ops ops' : List UpdateOp}
variable {op : Listener}

/-! ## Handlers that restore their view -/

/-- The handler restores the view, evaluates expressions with `q` one after the other, and returns
the last after it has left the view again. -/
def Listener.Restores (q : Expr → Prop) (view : Xref) (op : Listener) : Prop :=
  ∃ context ops, op.handler.toList = restoreOp view context :: ops ∧
    HandlerBody q (fun value => ∃ inner, value = .resetView inner ∧ q inner) ops

theorem Listener.Restores.imp {q' : Expr → Prop} {view : Xref} (h : op.Restores q view)
    (hq : ∀ expr, q expr → q' expr) : op.Restores q' view := by
  obtain ⟨context, ops, hhandler, hbody⟩ := h
  refine ⟨context, ops, hhandler, hbody.imp hq ?_⟩
  rintro value ⟨inner, rfl, hinner⟩
  exact ⟨inner, rfl, hq inner hinner⟩

def Listener.declaresFirst (op : Listener) : Bool :=
  match op.handler.toList with
  | .variableDecl _ :: _ => true
  | _ => false

theorem Listener.Restores.declaresFirst {view : Xref} (h : op.Restores q view) :
    op.declaresFirst = true := by
  obtain ⟨context, ops, hhandler, -⟩ := h
  rw [Listener.declaresFirst, hhandler]
  rfl

theorem Listener.Evaluates.declaresFirst (h : op.Evaluates q) : op.declaresFirst = false := by
  unfold Evaluates at h
  unfold Listener.declaresFirst
  generalize op.handler.toList = ops at h
  cases h <;> rfl

theorem HandlerBody.map_resetOnReturn (h : HandlerBody q r ops) :
    HandlerBody q (fun value => ∃ inner, value = .resetView inner ∧ r inner)
      (ops.map resetOnReturn) := by
  induction h with
  | return_ h => exact .return_ ⟨_, rfl, h⟩
  | step h _ ih => exact .step h ih

/-! ## Handlers that need their view -/

theorem foldl_or_eq_any (p : Expr → Bool) (found : Bool) (exprs : List Expr) :
    exprs.foldl (fun found expr => p expr || found) found = (exprs.any p || found) := by
  induction exprs generalizing found with
  | nil => rfl
  | cons expr exprs ih =>
    rw [List.foldl_cons, ih, List.any_cons, ← Bool.or_assoc, Bool.or_comm (p expr)]

theorem anyInOps_eq (ops : OpList UpdateOp) (p : Expr → Bool) :
    anyInOps p ops = (ops.toList.flatMap UpdateOp.visited).any p := by
  let visit : Visitor (StateM Bool) := fun _ expr => do
    if p expr then set true
    return expr
  have hlooks : LooksOnly visit {} fun found expr => p expr || found := by
    intro expr found
    rw [yields_stateM]
    cases hexpr : p expr <;> simp [visit, hexpr] <;> rfl
  have hvisit := yields_stateM.1 (hlooks.visitOps ops false)
  change ((visitOpsM visit {} ops).run false).2 = _
  rw [hvisit, foldl_or_eq_any, Bool.or_false]

/-- The handler reads the name, at any depth. -/
def Listener.Reads (op : Listener) (name : String) : Prop :=
  ∃ span, Expr.lexicalRead name span ∈ op.handler.toList.flatMap UpdateOp.visited

theorem HandlerBody.isWritten (h : HandlerBody Expr.Written Expr.Written ops) :
    ∀ expr ∈ ops.flatMap UpdateOp.visited, expr.isWritten = true := by
  induction h with
  | return_ h =>
    rw [List.flatMap_singleton, UpdateOp.visited_eq, UpdateOp.exprs, Statement.exprs,
      List.flatMap_singleton]
    exact h
  | step h _ ih =>
    rw [List.flatMap_cons, List.forall_mem_append, UpdateOp.visited_eq, UpdateOp.exprs,
      Statement.exprs, List.flatMap_singleton]
    exact ⟨h, ih⟩

/-- A handler of a template has no other way to read state of its view than by name. -/
theorem Listener.Evaluates.readsLocal_iff (h : op.Evaluates Expr.Written) (names : List String) :
    anyInOps (Expr.readsLocal names) op.handler = true ↔ ∃ name ∈ names, op.Reads name := by
  have hwritten := HandlerBody.isWritten h
  rw [anyInOps_eq, List.any_eq_true]
  constructor
  · rintro ⟨expr, hexpr, hreads⟩
    have hexpr' := hwritten expr hexpr
    cases expr with
    | lexicalRead name span => exact ⟨name, by simpa [Expr.readsLocal] using hreads, span, hexpr⟩
    | reference target slot offset => simp [Expr.isWritten] at hexpr'
    | contextLetReference target slot => simp [Expr.isWritten] at hexpr'
    | _ => simp [Expr.readsLocal] at hreads
  · rintro ⟨name, hname, span, hread⟩
    exact ⟨_, hread, by simpa [Expr.readsLocal] using hname⟩

/-! ## Listeners of a view -/

def Listener.Resembles (op op' : Listener) : Prop :=
  op' = { op with handler := op'.handler, consumesEvent := op'.consumesEvent }

theorem Listener.Resembles.trans {op' op'' : Listener} (h : op.Resembles op')
    (h' : op'.Resembles op'') : op.Resembles op'' := by
  unfold Resembles at h h' ⊢
  rw [h] at h'
  exact h'

def CreateOp.listener? : CreateOp → Option Listener
  | .listener op => some op
  | _ => none

/-- The view that a variable saves, and how. -/
def CreateOp.savedView? : CreateOp → Option (Xref × Expr)
  | .variableDecl { declared := .savedView view _, initializer, .. } => some (view, initializer)
  | _ => none

namespace View

def listeners (view : View) : List Listener :=
  view.create.toList.filterMap CreateOp.listener?

def savedViews (view : View) : List (Xref × Expr) :=
  view.create.toList.filterMap CreateOp.savedView?

/-- The view has not been saved, and its listeners only evaluate expressions. -/
structure Unsaved (view : View) : Prop where
  savedViews : view.savedViews = []
  listeners : ∀ op ∈ view.listeners, op.Evaluates Expr.Written

/-- The view has been saved, and those of its listeners restore it that need to. -/
structure Saved (needs : Listener → Prop) (view view' : View) : Prop where
  xref : view'.xref = view.xref
  savedViews : view'.savedViews = [(view.xref, .getCurrentView)]
  listeners : List.Forall₂ (fun op op' : Listener => op.Resembles op' ∧
    (needs op → op'.Restores Expr.Written view.xref) ∧ (¬needs op → op'.Evaluates Expr.Written))
      view.listeners view'.listeners

end View

theorem View.unsaved_of_create {view : View} (h : ∀ op ∈ view.create.toList, op.Unsaved) :
    view.Unsaved := by
  constructor
  · rw [savedViews, List.filterMap_eq_nil_iff]
    intro op hop
    have hunsaved := h op hop
    cases op <;> first | rfl | exact hunsaved.elim
  · intro op hop
    obtain ⟨create, hcreate, hlistener⟩ := List.mem_filterMap.1 hop
    have hunsaved := h create hcreate
    cases create <;> simp only [CreateOp.listener?, reduceCtorEq, Option.some.injEq] at hlistener
    exact hlistener ▸ hunsaved

section Restore

variable {view : View} {xref : Xref} {embedded : Bool} {names : List String} {s t : Ids}

def Listener.NeedsView (embedded : Bool) (names : List String) (op : Listener) : Prop :=
  embedded = true ∨ ∃ name ∈ names, op.Reads name

theorem Listener.Evaluates.restoreListener (h : op.Evaluates Expr.Written)
    (hlinked : op.handler.Linked) {new : CreateOp}
    (hnew : Yields (restoreListener xref embedded names (.listener op)) s new t) :
    ∃ op', new = .listener op' ∧ op.Resembles op' ∧
      (op.NeedsView embedded names → op'.Restores Expr.Written xref) ∧
      (¬op.NeedsView embedded names → op'.Evaluates Expr.Written) := by
  have hneeds : (embedded || anyInOps (Expr.readsLocal names) op.handler) = true ↔
      op.NeedsView embedded names := by
    rw [Bool.or_eq_true, h.readsLocal_iff, NeedsView]
  simp only [TemplateLowering.restoreListener, yields_ite, yields_bind, yields_lift, yields_pure,
    hneeds] at hnew
  rcases hnew with ⟨hneeds, context, _, -, handler, _, ⟨hrestore, -⟩, rfl, -⟩ | ⟨hneeds, rfl, -⟩
  · obtain ⟨handler', hrestore', hlists, -⟩ := restoreView_lists hlinked xref context
    obtain rfl := Except.ok.inj (hrestore.symm.trans hrestore')
    refine ⟨_, rfl, rfl, fun _ => ⟨context, _, hlists.toList, h.map_resetOnReturn⟩, ?_⟩
    exact fun hnot => absurd hneeds hnot
  · exact ⟨op, rfl, rfl, fun hneeds' => absurd hneeds' hneeds, fun _ => h⟩

theorem savedView?_of_restoreListener {op op' : CreateOp}
    (h : Yields (restoreListener xref embedded names op) s op' t) :
    op'.savedView? = op.savedView? := by
  cases op with
  | listener op =>
    simp only [restoreListener, yields_ite, yields_bind, yields_pure] at h
    rcases h with ⟨-, _, _, -, _, _, -, rfl, -⟩ | ⟨-, rfl, -⟩ <;> rfl
  | _ =>
    obtain ⟨rfl, -⟩ := yields_pure.1 h
    rfl

theorem View.Unsaved.saveAndRestore (hunsaved : view.Unsaved) (hview : view.Sound) {view' : View}
    (h : Yields (view.saveAndRestore embedded names) s view' t) :
    view.Saved (Listener.NeedsView embedded names) view' := by
  obtain ⟨saved, create, ops, u, rfl, hthreads, hlists, -⟩ :=
    View.lists_of_saveAndRestore hview.create h
  refine ⟨rfl, ?_, ?_⟩
  · have hkept : List.Forall₂ (fun op op' : CreateOp => op'.savedView? = op.savedView?)
        view.create.toList ops := hthreads.forall₂ fun _ _ _ _ _ => savedView?_of_restoreListener
    have hsame : ops.filterMap CreateOp.savedView? = view.savedViews := by
      rw [View.savedViews, List.filterMap_eq_flatMap_toList, List.filterMap_eq_flatMap_toList]
      exact flatMap_eq_of_forall₂ hkept fun _ _ heq => by rw [heq]
    rw [View.savedViews, hlists.toList, List.filterMap_cons, hsame, hunsaved.savedViews]
    rfl
  · rw [View.listeners, View.listeners, hlists.toList, List.filterMap_cons]
    have hsteps : List.Forall₂ (fun op op' : CreateOp => op ∈ view.create.toList ∧
        ∃ s t, Yields (restoreListener view.xref embedded names op) s op' t)
        view.create.toList ops := hthreads.forall₂ fun s _ _ t hop hyields => ⟨hop, s, t, hyields⟩
    refine List.rel_filterMap ?_ hsteps
    rintro op op' ⟨hop, s, t, hyields⟩
    cases op with
    | listener op =>
      have hsound := (hview.createOps _ hop).handler
      have hevaluates := hunsaved.listeners op (List.mem_filterMap.2 ⟨_, hop, rfl⟩)
      obtain ⟨new, rfl, hnew⟩ := hevaluates.restoreListener hsound.linked hyields
      exact .some hnew
    | _ =>
      obtain ⟨rfl, -⟩ := yields_pure.1 hyields
      exact .none

end Restore

/-! ## Resolved events -/

theorem Expr.Written.resolveEvent {expr : Expr} (h : expr.Written) :
    (expr.replace eventRead?).Written := by
  induction expr using Expr.induction_children with
  | h expr ih =>
    rw [replace_eq]
    cases hnew : expr.eventRead? with
    | some new =>
      obtain rfl := eq_of_eventRead? hnew
      exact written_iff.2 ⟨rfl, by simp [children]⟩
    | none =>
      have hkept : (expr.withChildren (expr.children.map (replace eventRead?))).isWritten =
          expr.isWritten := by
        unfold withChildren
        split <;> rfl
      obtain ⟨hexpr, hchildren⟩ := written_iff.1 h
      rw [Option.getD_none, written_iff, hkept, children_withChildren (List.length_map _),
        List.forall_mem_map]
      exact ⟨hexpr, fun child hmem => ih child hmem (hchildren child hmem)⟩

theorem HandlerBody.resolveEvent (h : HandlerBody q r ops)
    (hq : ∀ expr, q expr → q (expr.replace Expr.eventRead?))
    (hr : ∀ value, r value → r (value.replace Expr.eventRead?)) :
    HandlerBody q r (ops.map UpdateOp.resolveEvent) := by
  induction h with
  | return_ h => exact .return_ (hr _ h)
  | step h _ ih => exact .step (hq _ h) ih

structure Listener.KeepsShape (op op' : Listener) : Prop where
  resembles : op.Resembles op'
  evaluates : op.Evaluates Expr.Written → op'.Evaluates Expr.Written
  restores : ∀ view, op.Restores Expr.Written view → op'.Restores Expr.Written view

theorem Listener.KeepsShape.refl (op : Listener) : op.KeepsShape op :=
  ⟨rfl, id, fun _ => id⟩

theorem Listener.EventResolved.keepsShape {op' : Listener} (h : op.EventResolved op') :
    op.KeepsShape op' := by
  have hwritten (expr : Expr) (hexpr : expr.Written) := hexpr.resolveEvent
  refine ⟨h.rest, fun hevaluates => ?_, ?_⟩
  · rw [Evaluates, h.ops]
    exact HandlerBody.resolveEvent hevaluates hwritten hwritten
  · rintro view ⟨context, body, hhandler, hbody⟩
    refine ⟨context, body.map UpdateOp.resolveEvent, ?_, hbody.resolveEvent hwritten ?_⟩
    · rw [h.ops, hhandler]
      exact congrArg (fun initializer => UpdateOp.variableDecl
        { xref := context, declared := .context view none, initializer } :: _)
        (Expr.replace_restoreView view)
    · rintro _ ⟨inner, rfl, hinner⟩
      exact ⟨_, by rw [Expr.replace_eq]; rfl, hinner.resolveEvent⟩

end TemplateLowering
