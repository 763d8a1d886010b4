import TemplateLowering.Proofs.Pass.Narrowing
import TemplateLowering.Proofs.Plan.Restore
import TemplateLowering.Proofs.Plan.Tracking

/-!
# What the phases make of operations

In what order the phases come hardly shows in a job.  What is read off a view here tells which of
them have run, and not when: its create operations but for contexts and saved views, its listeners
but for what restores the view, its loops, its marked elements, and its update operations but for
contexts.  Each reading is derived from the views that a run starts with.
-/

namespace TemplateLowering

variable {phase : Phase} {scheduled phases : List Phase} {f : Xref → Xref}

/-! ## Create operations -/

def I18nStart.lasting (f : Xref → Xref) (op : I18nStart) : I18nStart :=
  { op with xref := f op.xref, root := f op.root, context := none }

/-- The operation in its place, unless it declares a context or a variable; `f` gives the numbers of
blocks. -/
def CreateOp.lasting? (f : Xref → Xref) : CreateOp → Option CreateOp
  | .i18nContext _ | .variableDecl _ => none
  | .i18nStart op => some (.i18nStart (op.lasting f))
  | .i18nEnd op => some (.i18nEnd { op with xref := f op.xref })
  | .extractedAttribute op => some (.extractedAttribute { op with i18nContext := none })
  | .icuStart op => some (.icuStart { op with context := none })
  | .listener op =>
      some (.listener { op with handler := .ofList ⟨0⟩ [], consumesEvent := true })
  | .repeaterCreate op =>
      some (.repeaterCreate
        { op with
          nonBindable := true, track := default, trackByOps := none, trackByFn := none
          usesComponentInstance := false })
  | op => some op.markNonBindable

/-- The operation with what stands for a container as one, if containers are generated.  An end does
not say what it ends; what was started last does. -/
def CreateOp.contained (phases : List Phase) : CreateOp → CreateOp
  | .elementStart op =>
      if .generateNgContainerOps ∈ phases ∧ isNgContainer op.tag = true then
        .containerStart { op.toElementBase with placeholder := op.placeholder }
      else
        .elementStart op
  | .elementEnd op => .containerEnd op
  | .i18nEnd op => .i18nEnd { op with xref := ⟨0⟩ }
  | op => op

def CreateOp.reading? (phases : List Phase) (f : Xref → Xref) (op : CreateOp) : Option CreateOp :=
  (op.lasting? f).map (contained phases)

theorem resolveEvent_resetOnReturn (op : UpdateOp) :
    (resetOnReturn op).resolveEvent = resetOnReturn op.resolveEvent ∧
      ((resetOnReturn op).ReadsEvent ↔ op.ReadsEvent) := by
  cases op with
  | statement body =>
    cases body with
    | return_ value span =>
      have hreplace : (Expr.resetView value).replace Expr.eventRead? =
          .resetView (value.replace Expr.eventRead?) := by
        rw [Expr.replace_eq]
        rfl
      refine ⟨congrArg (fun value => UpdateOp.statement (.return_ value span)) hreplace, ?_⟩
      have hreads : (Expr.resetView value).ReadsEvent ↔ value.ReadsEvent := by
        rw [Expr.ReadsEvent, Expr.holds_iff]
        simp [Expr.children, Expr.ReadsEvent]
      simp [UpdateOp.ReadsEvent, resetOnReturn, UpdateOp.exprs, Statement.exprs, hreads]
    | _ => exact ⟨rfl, .rfl⟩
  | _ => exact ⟨rfl, .rfl⟩

theorem Restoring.resolveEvent {ops ops' : List UpdateOp} (h : Restoring ops ops') :
    Restoring (ops.map UpdateOp.resolveEvent) (ops'.map UpdateOp.resolveEvent) ∧
      ((∃ op ∈ ops', op.ReadsEvent) ↔ ∃ op ∈ ops, op.ReadsEvent) := by
  cases h with
  | keep => exact ⟨.keep, .rfl⟩
  | @restore decl view ops hdecl =>
    constructor
    · have hkept : decl.initializer.replace Expr.eventRead? = .restoreView view := by
        rw [hdecl, Expr.replace_restoreView]
      have hmap : (ops.map resetOnReturn).map UpdateOp.resolveEvent =
          (ops.map UpdateOp.resolveEvent).map resetOnReturn := by
        simp [(resolveEvent_resetOnReturn _).1]
      rw [List.map_cons, hmap]
      exact .restore hkept
    · have hunread : ¬(UpdateOp.variableDecl decl).ReadsEvent := by
        rintro ⟨expr, hexpr, hreads⟩
        obtain rfl : expr = .restoreView view := by simpa [UpdateOp.exprs, hdecl] using hexpr
        rw [Expr.ReadsEvent, Expr.holds_iff] at hreads
        simp [Expr.children] at hreads
      simp [hunread, (resolveEvent_resetOnReturn _).2]

section Listener

variable {op op' op'' new new' : Listener}

theorem Listener.EventResolved.unique (h : op.EventResolved new) (h' : op.EventResolved new') :
    new' = new := by
  have hconsumes : new'.consumesEvent = new.consumesEvent := by
    rw [Bool.eq_iff_iff, h'.consumes, h.consumes]
  rw [h'.rest, h.rest, h'.handler, h.handler, hconsumes]

/-- It does not matter whether the event is resolved before the handler restores a view. -/
theorem Listener.Restored.resolveEvent (h : op.Restored op') (hnew : op.EventResolved new)
    (hnew' : op'.EventResolved new') : new.Restored new' := by
  have hconsumes : new'.consumesEvent = new.consumesEvent := by
    rw [Bool.eq_iff_iff, hnew'.consumes, hnew.consumes, ReadsEvent, ReadsEvent,
      h.ops.resolveEvent.2, h.rest]
  refine ⟨by rw [hnew'.id, hnew.id, h.id], ?_, ?_⟩
  · rw [hnew'.ops, hnew.ops]
    exact h.ops.resolveEvent.1
  · rw [hnew'.rest, hnew.rest, h.rest, hconsumes]

/-- What the scheduled phases make of a listener. -/
def Listener.Becomes (scheduled : List Phase) (op op' : Listener) : Prop :=
  ∃ base, (if .resolveDollarEvent ∈ scheduled then op.EventResolved base else base = op) ∧
    base.Restored op' ∧ (.saveAndRestoreView ∉ scheduled → op' = base)

theorem Listener.Becomes.step (h : op.Becomes scheduled op') (hnew : phase ∉ scheduled)
    (hphase : phase.OnListener op' op'') : op.Becomes (phase :: scheduled) op'' := by
  obtain ⟨base, hbase, hrestored, hkept⟩ := h
  cases phase with
  | resolveDollarEvent =>
    rw [if_neg hnew] at hbase
    subst hbase
    obtain ⟨new, -, hresolved⟩ := base.resolveEvent_eq
    refine ⟨new, by simpa using hresolved, hrestored.resolveEvent hresolved hphase, fun hsave => ?_⟩
    obtain rfl := hkept (mt (List.mem_cons_of_mem _) hsave)
    exact hresolved.unique hphase
  | saveAndRestoreView =>
    obtain rfl := hkept hnew
    exact ⟨op', by simpa using hbase, hphase, by simp⟩
  | _ =>
    obtain rfl := hphase
    exact ⟨base, by simpa using hbase, hrestored, by simpa using hkept⟩

end Listener

/-! ## Loops -/

/-- The loop without the number of its track function's list, as if its content were not bound. -/
def RepeaterCreate.lasting (op : RepeaterCreate) : RepeaterCreate :=
  { op with
    nonBindable := true
    trackByOps := op.trackByOps.map fun ops => .ofList ⟨0⟩ ops.toList }

section Loop

variable {root view : Xref} {op op' other : RepeaterCreate}

end Loop

/-! ## Marks -/

def View.bases (view : View) : List ElementBase :=
  view.create.toList.filterMap CreateOp.base?

/-- The elements, the first one for each of some numbers marked. -/
def markedBases (targets : List Xref) : List ElementBase → List ElementBase
  | [] => []
  | base :: bases =>
      (if base.xref ∈ targets then { base with nonBindable := true } else base) ::
        markedBases (targets.filter (base.xref ≠ ·)) bases

theorem View.nonBindableTargets_eq (view : View) : nonBindableTargets view.update =
    (view.bindings.filter (·.isNonBindable)).map (·.target) := by
  rw [nonBindableTargets, View.bindings, List.filterMap_eq_flatMap_toList, List.filter_flatMap,
    List.map_flatMap]
  refine List.flatMap_congr fun op _ => ?_
  cases op with
  | binding op =>
    change (if op.isNonBindable then some op.target else none).toList =
      (([op.shape].filter (·.isNonBindable)).map (·.target))
    rw [List.filter_singleton, show op.shape.isNonBindable = op.isNonBindable from rfl]
    cases op.isNonBindable <;> rfl
  | _ => rfl

def UpdateOp.withoutContext : UpdateOp → UpdateOp
  | .binding op => .binding { op with i18nContext := none }
  | .property op => .property { op with i18nContext := none }
  | .twoWayProperty op => .twoWayProperty { op with i18nContext := none }
  | .attr op => .attr { op with i18nContext := none }
  | op => op

/-- What the phases narrow the operation to, but for its context. -/
def UpdateOp.lasting? (phases : List Phase) : UpdateOp → Option UpdateOp
  | .binding op =>
      if .specializeBindings ∈ phases ∨
          .specializeStyleBindings ∈ phases ∧ op.shape.isStyle = true then
        (op.narrowed? .template).map withoutContext
      else
        some (withoutContext (.binding op))
  | op => some op.withoutContext

end TemplateLowering
