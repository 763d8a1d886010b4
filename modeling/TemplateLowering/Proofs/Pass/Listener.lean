import TemplateLowering.Pass.Listener
import TemplateLowering.Proofs.Job.Units
import TemplateLowering.Proofs.OpList.Image

/-!
# Listeners in outlines

Saving and restoring views adds variables, at the start of every view and of the handlers that need
one, and resolving the event changes expressions in handlers.  Neither shows in an outline, and
neither pass fails.
-/

namespace TemplateLowering

/-! ## Handlers -/

theorem resetOnReturn_xrefs (op : UpdateOp) : (resetOnReturn op).xrefs = op.xrefs := by
  unfold resetOnReturn
  split
  · simp [UpdateOp.xrefs, UpdateOp.declared, UpdateOp.exprs, Statement.exprs, Expr.pipes]
  · rfl

theorem UpdateOp.Sound.resetOnReturn {op : UpdateOp} (h : op.Sound) :
    (TemplateLowering.resetOnReturn op).Sound := by
  unfold TemplateLowering.resetOnReturn
  split
  · exact ⟨rfl, rfl, by simp [UpdateOp.bindings]⟩
  · exact h

def restoreOp (view context : Xref) : UpdateOp :=
  .variableDecl
    { xref := context, declared := .context view none, initializer := .restoreView view }

theorem restoreView_lists {handler : OpList UpdateOp} (h : handler.Linked) (view context : Xref) :
    ∃ handler', restoreView view context handler = .ok handler' ∧
      handler'.Lists (restoreOp view context :: handler.toList.map resetOnReturn) ∧
      handler'.id = handler.id := by
  have hend : ListOp.isListEnd (restoreOp view context) = false := rfl
  obtain ⟨ids, middle, hprepend, hmiddle⟩ := h.lists.prepend hend
  have hid := (h.lists_of_prepend hend (editList_eq_ok hprepend)).2
  refine ⟨middle.map resetOnReturn, ?_, hmiddle.map resetOnReturn,
    (hmiddle.linked.id_map _).trans hid⟩
  simp only [restoreOp] at hprepend
  simp only [restoreView, editList_eq_ok hprepend]
  rfl

theorem restoreView_spec {handler : OpList UpdateOp} (h : SoundOps handler) (view context : Xref) :
    ∃ handler', restoreView view context handler = .ok handler' ∧ SoundOps handler' ∧
      handler'.toList.flatMap UpdateOp.xrefs =
        context :: handler.toList.flatMap UpdateOp.xrefs := by
  obtain ⟨handler', hrestore, hlists, -⟩ := restoreView_lists h.linked view context
  refine ⟨handler', hrestore, ⟨hlists.linked, ?_⟩, ?_⟩
  · intro op hop
    rw [hlists.toList] at hop
    rcases List.mem_cons.1 hop with rfl | hop
    · exact ⟨rfl, rfl, by simp [UpdateOp.bindings, restoreOp]⟩
    · obtain ⟨old, hold, rfl⟩ := List.mem_map.1 hop
      exact (h.sound old hold).resetOnReturn
  · rw [hlists.toList, List.flatMap_cons, List.flatMap_map]
    simp only [resetOnReturn_xrefs]
    rfl

/-! ## Visits that add no steps to another context -/

section Visit

variable {m : Type → Type} [Monad m] [LawfulMonad m] {σ ε : Type} [Stateful m σ ε]
variable {f : Visitor m} {flags : VisitFlags} {s t : σ}

/-- The action never makes a step to another context. -/
def AddsNoSteps (f : Visitor m) : Prop :=
  ∀ flags expr s expr' t steps, Yields (f flags expr) s expr' t → expr' = .nextContext steps →
    expr = .nextContext steps

theorem AddsNoSteps.visitM (hf : AddsNoSteps f) {expr expr' : Expr}
    (hexpr : ∀ steps, expr ≠ .nextContext steps) (h : Yields (expr.visitM f flags) s expr' t)
    (steps : Nat) : expr' ≠ .nextContext steps := by
  intro heq
  rw [Expr.visitM_eq, yields_bind] at h
  obtain ⟨parts, u, -, haction⟩ := h
  have hwith := hf _ _ _ _ _ _ haction heq
  unfold Expr.withChildren at hwith
  split at hwith <;> simp_all

theorem UpdateOp.Sound.visitM (hf : AddsNoSteps f) {op op' : UpdateOp} (hop : op.Sound)
    (h : Yields (op.visitM f flags) s op' t) : op'.Sound := by
  have hend := hop.notEnd
  have hsteps := hop.noBareSteps
  have hkind := hop.kind
  cases op with
  | binding op =>
    simp only [UpdateOp.visitM, yields_bind, yields_pure] at h
    obtain ⟨value, _, -, rfl, -⟩ := h
    exact ⟨rfl, rfl, by simpa [UpdateOp.bindings, Binding.shape] using hkind⟩
  | statement body =>
    simp only [UpdateOp.visitM, yields_map] at h
    obtain ⟨body', hbody, rfl⟩ := h
    refine ⟨rfl, ?_, by simp [UpdateOp.bindings]⟩
    cases body with
    | expression expr span =>
      simp only [Statement.visitM, yields_bind, yields_pure] at hbody
      obtain ⟨expr', _, hvisit, rfl, -⟩ := hbody
      have hexpr : ∀ steps, expr ≠ .nextContext steps := by
        intro steps heq
        simp [heq, UpdateOp.bareSteps?] at hsteps
      have hexpr' := hf.visitM hexpr hvisit
      unfold UpdateOp.bareSteps?
      split
      · rename_i steps _ heq
        simp only [UpdateOp.statement.injEq, Statement.expression.injEq] at heq
        exact absurd heq.1 (hexpr' steps)
      · rfl
    | declareVar name value span =>
      simp only [Statement.visitM, yields_bind, yields_pure] at hbody
      obtain ⟨_, _, -, rfl, -⟩ := hbody
      rfl
    | return_ value span =>
      simp only [Statement.visitM, yields_bind, yields_pure] at hbody
      obtain ⟨_, _, -, rfl, -⟩ := hbody
      rfl
    | if_ condition trueCase falseCase span =>
      simp only [Statement.visitM, yields_bind, yields_pure] at hbody
      obtain ⟨_, _, -, _, _, -, _, _, -, rfl, -⟩ := hbody
      rfl
  | conditional op =>
    simp only [UpdateOp.visitM, yields_bind, yields_pure] at h
    obtain ⟨_, _, -, _, _, -, _, _, -, _, _, -, rfl, -⟩ := h
    exact ⟨rfl, rfl, by simp [UpdateOp.bindings]⟩
  | listEnd => exact absurd hend (by decide)
  | _ =>
    simp only [UpdateOp.visitM, yields_bind, yields_pure] at h
    obtain ⟨_, _, -, rfl, -⟩ := h
    exact ⟨rfl, rfl, by simp [UpdateOp.bindings]⟩

end Visit

/-! ## Saving and restoring -/

section Restore

variable {op : CreateOp}

theorem restoreListener_spec (hop : op.Sound) (view : Xref) (embedded : Bool)
    (names : List String) (s : Ids) :
    ∃ op' t, Yields (restoreListener view embedded names op) s op' t ∧
      op.Alike op' ∧ Grows s.nextXref t.nextXref op.xrefs op'.xrefs := by
  unfold restoreListener
  split
  · rename_i listener
    obtain ⟨handler, hrestore, hsound, hxrefs⟩ := restoreView_spec hop.handler view ⟨s.nextXref⟩
    simp only [yields_ite, yields_bind, yields_freshXref_pass, yields_lift, yields_pure]
    by_cases hneeds : (embedded || anyInOps (Expr.readsLocal names) listener.handler) = true
    · refine ⟨_, _, .inl ⟨hneeds, _, _, ⟨rfl, rfl⟩, handler, _, ⟨hrestore, rfl⟩, rfl, rfl⟩, ?_, ?_⟩
      · exact ⟨rfl, rfl, rfl, rfl, fun _ => ⟨rfl, by simpa [CreateOp.lists] using hsound⟩⟩
      · have hgrows := (Grows.fresh s.nextXref).append (Grows.refl (s.nextXref + 1)
          (listener.handler.toList.flatMap UpdateOp.xrefs))
        simpa [CreateOp.xrefs, CreateOp.declared, CreateOp.exprs, CreateOp.lists, hxrefs] using
          hgrows
    · exact ⟨_, _, .inr ⟨hneeds, rfl, rfl⟩, .refl _, Grows.refl _ _⟩
  · exact ⟨_, _, yields_pure.2 ⟨rfl, rfl⟩, .refl _, Grows.refl _ _⟩

def saveOp (view saved : Xref) : CreateOp :=
  .variableDecl
    { xref := saved, declared := .savedView view none, initializer := .getCurrentView }

theorem View.lists_of_saveAndRestore {view view' : View} (hcreate : view.create.Linked)
    {embedded : Bool} {names : List String} {s t : Ids}
    (h : Yields (view.saveAndRestore embedded names) s view' t) :
    ∃ saved create ops u, view' = { view with create } ∧
      Threads (fun s op op' t => Yields (restoreListener view.xref embedded names op) s op' t) u
        view.create.toList ops t ∧
      create.Lists (saveOp view.xref saved :: ops) ∧ create.id = view.create.id := by
  simp only [View.saveAndRestore, yields_bind, yields_lift, yields_pure] at h
  obtain ⟨saved, u, -, middle, _, hmiddle, create, _, ⟨hprepend, rfl⟩, rfl, rfl⟩ := h
  obtain ⟨ops, hthreads, hlists⟩ := hcreate.lists.yields_mapM hmiddle
  have hend : ListOp.isListEnd (saveOp view.xref saved) = false := rfl
  obtain ⟨hlists', hid⟩ := hlists.linked.lists_of_prepend hend hprepend
  rw [hlists.toList] at hlists'
  exact ⟨saved, create, ops, u, rfl, hthreads, hlists', hid.trans (hcreate.id_of_mapM hmiddle)⟩

theorem View.Sound.saveAndRestore {view : View} (hview : view.Sound) (embedded : Bool)
    (names : List String) (s : Ids) :
    ∃ view' t, Yields (view.saveAndRestore embedded names) s view' t ∧
      view.Turns id s.nextXref t.nextXref view' := by
  have hend : ListOp.isListEnd (saveOp view.xref ⟨s.nextXref⟩) = false := rfl
  obtain ⟨create, t, ops, hyields, hlists, halike, hgrows⟩ := hview.total_mapM
    (fun op hop => restoreListener_spec hop view.xref embedded names)
    { s with nextXref := s.nextXref + 1 }
  obtain ⟨ids, create', hprepend, hlists'⟩ := hlists.prepend hend
  refine ⟨{ view with create := create' }, t, ?_, ?_⟩
  · simp only [View.saveAndRestore, yields_bind, yields_freshXref_pass, yields_lift, yields_pure]
    exact ⟨_, _, ⟨rfl, rfl⟩, create, t, hyields, create', t, ⟨editList_eq_ok hprepend, rfl⟩, rfl,
      rfl⟩
  · have hrewritten : view.Rewritten { view with create := create' }
        [saveOp view.xref ⟨s.nextXref⟩] ops [] := by
      refine ⟨rfl, rfl, by simpa using hlists', halike, ?_, by simp⟩
      simpa using CreateOp.bare_of_lists_eq_nil rfl rfl rfl rfl rfl rfl
    have hxrefs : (saveOp view.xref ⟨s.nextXref⟩).xrefs = [⟨s.nextXref⟩] := rfl
    refine View.turns_of_outline_eq (View.grows_of_create rfl ?_ rfl)
      (hrewritten.outline_eq rfl) (hrewritten.sound hview hview.update)
    simpa [hlists'.toList, hxrefs] using (Grows.fresh s.nextXref).append hgrows

end Restore

theorem Job.saveAndRestoreView_turns {job : Job} (hsound : job.Sound) (hrooted : job.Rooted) :
    ∃ job', job.saveAndRestoreView = .ok job' ∧ job.Turns id job' := by
  obtain ⟨job', hrun, hthreads, hkind⟩ := total_mapUnitsFresh fun view hview =>
    (hsound view hview).saveAndRestore (view.xref ≠ job.root.xref) (job.localNames view.xref)
  exact ⟨job', hrun, turns_of_threads Ids.nextXref hthreads hkind rfl rfl hrooted⟩

/-! ## The event -/

theorem keepsPipes_resolveEventRead : KeepsPipes resolveEventRead := by
  intro flags expr s expr' t h
  unfold resolveEventRead at h
  split at h
  · simp only [yields_ite, yields_bind, yields_pure] at h
    rcases h with ⟨-, _, _, -, rfl, -⟩ | ⟨-, rfl, -⟩ <;> rfl
  · obtain ⟨rfl, -⟩ := yields_pure.1 h
    rfl

theorem addsNoSteps_resolveEventRead : AddsNoSteps resolveEventRead := by
  intro flags expr s expr' t steps h heq
  unfold resolveEventRead at h
  split at h
  · simp only [yields_ite, yields_bind, yields_pure] at h
    rcases h with ⟨-, _, _, -, rfl, -⟩ | ⟨-, rfl, -⟩
    · cases heq
    · exact heq
  · obtain ⟨rfl, -⟩ := yields_pure.1 h
    exact heq

theorem CreateOp.Sound.resolveEvent {op : CreateOp} (hop : op.Sound) :
    op.Alike op.resolveEvent ∧ op.resolveEvent.xrefs = op.xrefs := by
  unfold CreateOp.resolveEvent
  split
  · rename_i listener
    have hhandler := hop.handler
    generalize hrun : (visitOpsM resolveEventRead {} listener.handler).run false = result
    obtain ⟨handler, found⟩ := result
    obtain ⟨ops, hthreads, hlists⟩ :=
      hhandler.linked.lists.yields_mapM (yields_stateM.2 hrun)
    have hvisited : List.Forall₂ (fun op op' : UpdateOp => op'.Sound ∧ op'.xrefs = op.xrefs)
        listener.handler.toList ops := hthreads.forall₂ fun _ op _ _ hmem hvisit =>
      ⟨(hhandler.sound op hmem).visitM addsNoSteps_resolveEventRead hvisit,
        keepsPipes_resolveEventRead.visitUpdateOp hvisit⟩
    have hsound : SoundOps handler := by
      refine ⟨hlists.linked, ?_⟩
      intro op' hop'
      rw [hlists.toList] at hop'
      obtain ⟨op, -, hop, -⟩ := exists_left_of_mem hvisited hop'
      exact hop
    refine ⟨⟨rfl, rfl, rfl, rfl, fun _ => ⟨rfl, by simpa [CreateOp.lists] using hsound⟩⟩, ?_⟩
    have hxrefs := flatMap_eq_of_forall₂ hvisited fun _ _ h => h.2
    simp [CreateOp.xrefs, CreateOp.declared, CreateOp.exprs, CreateOp.lists, hlists.toList, hxrefs]
  · exact ⟨.refl _, rfl⟩

theorem Job.resolveDollarEvent_turns {job : Job} (hsound : job.Sound)
    (hrooted : job.Rooted) : job.Turns id job.resolveDollarEvent :=
  turns_mapCreate hsound hrooted fun _ hop => hop.resolveEvent

end TemplateLowering
