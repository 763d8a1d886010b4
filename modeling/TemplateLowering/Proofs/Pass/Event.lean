import TemplateLowering.Pass.Listener
import TemplateLowering.Proofs.Job.Units
import TemplateLowering.Proofs.OpList.Rewrite
import TemplateLowering.Proofs.Output.Replace

/-!
# Resolved events

In the handlers of listeners, every read of the event becomes a read of a variable, at whatever
depth of whatever operation it stands, and a listener with such a read consumes the event.  Nothing
else changes, in handlers and elsewhere, and nothing is left to resolve.
-/

namespace TemplateLowering

variable {expr expr' : Expr} {flags : VisitFlags}

/-! ## Expressions and operations -/

namespace Expr

/-- What takes the place of a read of the event. -/
def eventRead? : Expr → Option Expr
  | .lexicalRead name _ => if name = eventName then some (.readVar eventName none) else none
  | _ => none

/-- The expression reads the event, at any depth. -/
def ReadsEvent (expr : Expr) : Prop :=
  expr.Holds fun part => ∃ span, part = .lexicalRead eventName span

theorem exists_eventRead? :
    (∃ new, expr.eventRead? = some new) ↔ ∃ span, expr = .lexicalRead eventName span := by
  cases expr <;> simp [eventRead?]

theorem eq_of_eventRead? {new : Expr} (h : expr.eventRead? = some new) :
    new = .readVar eventName none := by
  obtain ⟨span, rfl⟩ := exists_eventRead?.1 ⟨new, h⟩
  simpa [eventRead?] using h.symm

theorem children_of_eventRead? (expr : Expr) (h : ∃ new, expr.eventRead? = some new) :
    expr.children = [] := by
  obtain ⟨span, rfl⟩ := exists_eventRead?.1 h
  rfl

theorem readsEvent_iff (expr : Expr) :
    expr.ReadsEvent ↔ expr.Holds fun part => ∃ new, part.eventRead? = some new := by
  simp only [ReadsEvent, exists_eventRead?]

theorem not_readsEvent_replace (expr : Expr) : ¬(expr.replace eventRead?).ReadsEvent := by
  rw [readsEvent_iff]
  refine not_holds_replace children_of_eventRead? ?_ expr
  intro expr new hnew
  rw [eq_of_eventRead? hnew]
  exact ⟨rfl, rfl⟩

theorem replace_eventRead?_eq_self (h : ¬expr.ReadsEvent) : expr.replace eventRead? = expr :=
  replace_eq_self (mt (readsEvent_iff expr).2 h)

theorem replace_restoreView (view : Xref) :
    (Expr.restoreView view).replace eventRead? = .restoreView view := by
  rw [replace_eq]
  rfl

end Expr

theorem yields_resolveEventRead {s t : Bool} (h : Yields (resolveEventRead flags expr) s expr' t) :
    expr' = expr.eventRead?.getD expr ∧
      (t = true ↔ s = true ∨ ∃ span, expr = .lexicalRead eventName span) := by
  have hrun := yields_stateM.1 h
  cases expr with
  | lexicalRead name span =>
    by_cases hname : name = eventName
    · simp only [resolveEventRead, hname, if_true] at hrun
      obtain ⟨rfl, rfl⟩ := Prod.mk.inj hrun
      simp [Expr.eventRead?, hname, Expr.variable_]
    · simp only [resolveEventRead, hname, if_false] at hrun
      obtain ⟨rfl, rfl⟩ := Prod.mk.inj hrun
      simp [Expr.eventRead?, hname]
  | _ =>
    obtain ⟨rfl, rfl⟩ := Prod.mk.inj hrun
    simp [Expr.eventRead?]

theorem Expr.yields_resolveEvent {s t : Bool}
    (h : Yields (expr.visitM resolveEventRead flags) s expr' t) :
    expr' = expr.replace eventRead? ∧ (t = true ↔ s = true ∨ expr.ReadsEvent) := by
  constructor
  · exact eq_replace_of_visitM (fun expr new hnew => children_of_eventRead? expr ⟨new, hnew⟩)
      (fun _ _ _ _ _ haction => (yields_resolveEventRead haction).1) h
  · exact notes_of_visitM holds_iff (by rintro _ ⟨_, rfl⟩; rfl)
      (fun _ _ _ _ _ haction => (yields_resolveEventRead haction).2) h

namespace UpdateOp

def resolveEvent (op : UpdateOp) : UpdateOp :=
  op.withExprs (op.exprs.map (Expr.replace Expr.eventRead?))

def ReadsEvent (op : UpdateOp) : Prop :=
  ∃ expr ∈ op.exprs, expr.ReadsEvent

theorem exprs_resolveEvent (op : UpdateOp) :
    op.resolveEvent.exprs = op.exprs.map (Expr.replace Expr.eventRead?) :=
  exprs_withExprs (List.length_map _)

theorem not_readsEvent_resolveEvent (op : UpdateOp) : ¬op.resolveEvent.ReadsEvent := by
  rintro ⟨expr, hexpr, hreads⟩
  rw [exprs_resolveEvent] at hexpr
  obtain ⟨old, -, rfl⟩ := List.mem_map.1 hexpr
  exact old.not_readsEvent_replace hreads

theorem resolveEvent_resolveEvent (op : UpdateOp) :
    op.resolveEvent.resolveEvent = op.resolveEvent := by
  have hexprs : op.resolveEvent.exprs.map (Expr.replace Expr.eventRead?) =
      op.resolveEvent.exprs.map id := by
    apply List.map_congr_left
    intro expr hexpr
    exact Expr.replace_eventRead?_eq_self fun hreads =>
      op.not_readsEvent_resolveEvent ⟨expr, hexpr, hreads⟩
  rw [resolveEvent, hexprs, List.map_id, withExprs_exprs]

theorem yields_resolveEvent {op op' : UpdateOp} {s t : Bool}
    (h : Yields (op.visitM resolveEventRead flags) s op' t) :
    op' = op.resolveEvent ∧ (t = true ↔ s = true ∨ op.ReadsEvent) := by
  rw [visitM_eq, yields_map] at h
  obtain ⟨parts, hparts, rfl⟩ := h
  have hthreads := yields_mapM.1 hparts
  have hreplaced : parts = op.exprs.map (Expr.replace Expr.eventRead?) :=
    hthreads.eq_map fun _ _ _ _ _ hexpr => (Expr.yields_resolveEvent hexpr).1
  refine ⟨by rw [resolveEvent, hreplaced], ?_⟩
  exact Expr.threads_notes (hthreads.imp fun _ _ _ _ _ hexpr => (Expr.yields_resolveEvent hexpr).2)

end UpdateOp

/-! ## Listeners -/

def Listener.ReadsEvent (listener : Listener) : Prop :=
  ∃ op ∈ listener.handler.toList, op.ReadsEvent

/-- The listener with the event resolved: every read of it in the handler is replaced, the listener
consumes it if it did before or if there was such a read, and nothing else changes. -/
structure Listener.EventResolved (listener listener' : Listener) : Prop where
  handler : listener'.handler = listener.handler.map UpdateOp.resolveEvent
  ops : listener'.handler.toList = listener.handler.toList.map UpdateOp.resolveEvent
  consumes : listener'.consumesEvent = true ↔
    listener.consumesEvent = true ∨ listener.ReadsEvent
  unread : ¬listener'.ReadsEvent
  rest : listener' = { listener with
    handler := listener'.handler, consumesEvent := listener'.consumesEvent }

/-- A create operation with the event resolved; only listeners are concerned. -/
inductive CreateOp.EventResolved : CreateOp → CreateOp → Prop
  | listener {op op' : Listener} : op.EventResolved op' → EventResolved (.listener op) (.listener op')
  | other {op : CreateOp} : (∀ listener, op ≠ .listener listener) → EventResolved op op

theorem Listener.resolveEvent_eq (op : Listener) :
    ∃ op', (CreateOp.listener op).resolveEvent = .listener op' ∧ op.EventResolved op' := by
  generalize hrun : (visitOpsM resolveEventRead {} op.handler).run false = result
  obtain ⟨handler, found⟩ := result
  obtain ⟨hhandler, hfound⟩ := OpList.rewritten_of_mapM (K := (· = true))
    UpdateOp.resolveEvent_resolveEvent UpdateOp.not_readsEvent_resolveEvent
    (fun _ _ _ _ hop => UpdateOp.yields_resolveEvent hop) (yields_stateM.2 hrun)
  have hops : handler.toList = op.handler.toList.map UpdateOp.resolveEvent := by
    rw [hhandler, OpList.toList_map UpdateOp.resolveEvent_resolveEvent]
  refine ⟨{ op with handler, consumesEvent := op.consumesEvent || found }, ?_,
    hhandler, hops, ?_, ?_, rfl⟩
  · simp only [CreateOp.resolveEvent, hrun]
  · simpa [Listener.ReadsEvent] using or_congr_right hfound
  · rintro ⟨op', hop', hreads⟩
    rw [hops] at hop'
    obtain ⟨old, -, rfl⟩ := List.mem_map.1 hop'
    exact old.not_readsEvent_resolveEvent hreads

theorem Listener.EventResolved.id {op op' : Listener} (h : op.EventResolved op') :
    op'.handler.id = op.handler.id := by
  rw [h.handler, OpList.map_eq_rewrite UpdateOp.resolveEvent_resolveEvent]
  rfl

theorem Listener.EventResolved.again {op op' op'' : Listener} (h : op.EventResolved op')
    (h' : op'.EventResolved op'') : op'' = op' := by
  have hhandler : op''.handler = op'.handler := by
    rw [h'.handler, h.handler, OpList.map_map UpdateOp.resolveEvent_resolveEvent]
  have hconsumes : op''.consumesEvent = op'.consumesEvent := by
    rw [Bool.eq_iff_iff, h'.consumes, or_iff_left h.unread]
  rw [h'.rest, hhandler, hconsumes]

namespace CreateOp

theorem eventResolved (op : CreateOp) : op.EventResolved op.resolveEvent := by
  cases op with
  | listener op =>
    obtain ⟨op', hop', hresolved⟩ := op.resolveEvent_eq
    rw [hop']
    exact .listener hresolved
  | _ => exact .other (by simp)

theorem resolveEvent_resolveEvent (op : CreateOp) :
    op.resolveEvent.resolveEvent = op.resolveEvent := by
  cases op with
  | listener op =>
    obtain ⟨op', hop', hresolved⟩ := op.resolveEvent_eq
    obtain ⟨op'', hop'', hagain⟩ := op'.resolveEvent_eq
    rw [hop', hop'', hresolved.again hagain]
  | _ => rfl

end CreateOp

/-! ## Views and jobs -/

structure View.EventResolved (view view' : View) : Prop where
  create : ∃ resolve, (∀ op : CreateOp, op.EventResolved (resolve op)) ∧
    view'.create = view.create.map resolve ∧
    view'.create.toList = view.create.toList.map resolve
  rest : view' = { view with create := view'.create }

/-- The event is resolved in the listeners of every view, nothing else of the job changes, and
resolving it again changes nothing. -/
theorem Job.resolveDollarEvent_exact (job : Job) :
    let job' := job.resolveDollarEvent
    List.Forall₂ View.EventResolved job.units job'.units ∧
      job' = { job with root := job'.root, views := job'.views } ∧
      job'.resolveDollarEvent = job' := by
  have hrun : ∀ job : Job, job.resolveDollarEvent = { job with
      root := { job.root with create := job.root.create.map CreateOp.resolveEvent }
      views := job.views.map fun view =>
        { view with create := view.create.map CreateOp.resolveEvent } } :=
    fun job => mapUnits_eq job _
  have hview : ∀ view : View, view.EventResolved
      { view with create := view.create.map CreateOp.resolveEvent } :=
    fun view => ⟨⟨_, CreateOp.eventResolved, rfl,
      OpList.toList_map CreateOp.resolveEvent_resolveEvent _⟩, rfl⟩
  refine ⟨?_, ?_, ?_⟩
  · rw [hrun]
    refine .cons (hview _) ?_
    rw [List.forall₂_map_right_iff, List.forall₂_same]
    exact fun view _ => hview view
  · rw [hrun]
  · simp only [hrun, List.map_map, Function.comp_def,
      OpList.map_map CreateOp.resolveEvent_resolveEvent]

end TemplateLowering
