import TemplateLowering.Proofs.Pass.Restore
import TemplateLowering.Proofs.Plan.Edits

/-!
# Saved and restored views

The first phase that touches a handler finds it as the template was lowered, or with the event
resolved in it, which keeps its shape.  So when a plan saves the views, every handler is a run of
expressions, and the phases after that leave alone what was added to it.
-/

namespace TemplateLowering

variable {phase : Phase} {view view' : View}

/-! ## Phases that save no view -/

/-- The view keeps its listeners, up to expressions in their handlers, and its saved views. -/
structure View.KeepsListeners (view view' : View) : Prop where
  xref : view'.xref = view.xref
  savedViews : view'.savedViews = view.savedViews
  listeners : List.Forall₂ Listener.KeepsShape view.listeners view'.listeners

theorem View.Unsaved.keeps (h : view.Unsaved) (hkeeps : view.KeepsListeners view') :
    view'.Unsaved := by
  refine ⟨hkeeps.savedViews.trans h.savedViews, ?_⟩
  intro op' hop'
  obtain ⟨op, hop, hshape⟩ := exists_left_of_mem hkeeps.listeners hop'
  exact hshape.evaluates (h.listeners op hop)

theorem View.Saved.keeps {view'' : View} {needs : Listener → Prop} (h : view.Saved needs view')
    (hkeeps : view'.KeepsListeners view'') : view.Saved needs view'' := by
  refine ⟨hkeeps.xref.trans h.xref, hkeeps.savedViews.trans h.savedViews, ?_⟩
  refine forall₂_comp h.listeners hkeeps.listeners ?_
  intro op op' op'' hop hshape
  exact ⟨hop.1.trans hshape.resembles, fun hneeds => hshape.restores _ (hop.2.1 hneeds),
    fun hneeds => hshape.evaluates (hop.2.2 hneeds)⟩

def Phase.OnListener : Phase → Listener → Listener → Prop
  | .saveAndRestoreView, op, op' => op.Restored op'
  | .resolveDollarEvent, op, op' => op.EventResolved op'
  | _, op, op' => op' = op

theorem Phase.OnListener.keepsShape {op op' : Listener} (h : phase.OnListener op op')
    (hsave : phase ≠ .saveAndRestoreView) : op.KeepsShape op' := by
  cases phase with
  | saveAndRestoreView => exact absurd rfl hsave
  | resolveDollarEvent => exact h.keepsShape
  | _ => exact h ▸ .refl op

theorem Phase.Alters.onListener {op op' : CreateOp} (h : phase.Alters op op') :
    op'.savedView? = op.savedView? ∧
      Option.Rel phase.OnListener op.listener? op'.listener? := by
  cases h with
  | keep hspares =>
    refine ⟨rfl, ?_⟩
    cases op with
    | listener op =>
      cases phase with
      | resolveDollarEvent => exact hspares.elim
      | saveAndRestoreView => exact .some ⟨rfl, .keep, rfl⟩
      | _ => exact .some rfl
    | _ => exact .none
  | mark => cases op <;> first | exact ⟨rfl, .none⟩ | exact ⟨rfl, .some rfl⟩
  | restore hrestored => exact ⟨rfl, .some hrestored⟩
  | event hresolved => exact ⟨rfl, .some hresolved⟩
  | _ => exact ⟨rfl, .none⟩

theorem View.EditedBy.onListeners (h : view.EditedBy phase view') :
    List.Forall₂ phase.OnListener view.listeners view'.listeners :=
  h.create.rel_filterMap (fun _ _ hop => hop.onListener.2) fun _ hop => by
    cases hop.inserted <;> rfl

theorem View.EditedBy.keepsListeners (h : view.EditedBy phase view')
    (hsave : phase ≠ .saveAndRestoreView) : view.KeepsListeners view' := by
  refine ⟨h.xref, h.create.filterMap_eq (fun _ _ hop => hop.onListener.1) fun op hop => ?_,
    h.onListeners.imp fun _ _ hop => hop.keepsShape hsave⟩
  cases hop.inserted with
  | declaration => exact absurd rfl hsave
  | _ => rfl

section Step

variable {start job job' : Job} {scheduled : List Phase}

theorem Reached.keepsListeners (h : Reached start scheduled job)
    (henabled : phase.Enabled scheduled) (hsave : phase ≠ .saveAndRestoreView)
    (hrun : phase.run job = .ok job') : List.Forall₂ View.KeepsListeners job.units job'.units :=
  (h.editedBy henabled hrun).imp fun _ _ hedited => hedited.keepsListeners hsave

/-! ## The phase that saves the views -/

/-- The names of the local references and of the values that are declared in the view. -/
def View.Names (view : View) (name : String) : Prop :=
  (∃ op ∈ view.create.toList, ∃ base ∈ op.base?, ∃ ref ∈ base.localRefs, ref.name = name) ∨
    ∃ op, .declareLet op ∈ view.create.toList ∧ op.name = name

theorem CreateOp.mem_localNames {op : CreateOp} {name : String} :
    name ∈ op.localNames ↔ (∃ base ∈ op.base?, ∃ ref ∈ base.localRefs, ref.name = name) ∨
      ∃ decl, op = .declareLet decl ∧ decl.name = name := by
  cases op <;> simp [localNames, base?, eq_comm]

theorem View.mem_localNames {name : String} :
    name ∈ view.create.toList.flatMap CreateOp.localNames ↔ view.Names name := by
  simp only [List.mem_flatMap, CreateOp.mem_localNames, and_or_left, exists_or, Names]
  refine or_congr_right ⟨?_, ?_⟩
  · rintro ⟨op, hop, decl, rfl, hname⟩
    exact ⟨decl, hop, hname⟩
  · rintro ⟨decl, hop, hname⟩
    exact ⟨_, hop, decl, rfl, hname⟩

theorem Job.localNames_root (hparent : job.root.parent = none) :
    job.localNames job.root.xref = job.root.create.toList.flatMap CreateOp.localNames := by
  have hroot : job.unit? job.root.xref = some job.root := by simp [unit?, units]
  have houter : ∀ fuel, job.enclosing fuel none = [] := fun fuel => by cases fuel <;> rfl
  simp [localNames, enclosing, hroot, hparent, houter]

theorem Reached.root_parent (h : Reached start scheduled job) (hparent : start.root.parent = none) :
    job.root.parent = none := by
  cases h.follows.views with
  | cons hroot _ => exact (congrArg Skeleton.parent hroot.1).trans hparent

/-- Whether a listener of the view needs it, as the job is when its views are saved. -/
def Job.Needs (job : Job) (view : View) : Listener → Prop :=
  Listener.NeedsView (view.xref ≠ job.root.xref) (job.localNames view.xref)

theorem Reached.saves (h : Reached start scheduled job)
    (hunsaved : ∀ view ∈ job.units, view.Unsaved)
    (hrun : Phase.saveAndRestoreView.run job = .ok job') :
    List.Forall₂ (fun view view' => view.Saved (job.Needs view) view') job.units job'.units := by
  obtain ⟨hthreads, -⟩ := Job.threads_of_mapUnitsFresh hrun
  exact hthreads.forall₂ fun _ view _ _ hview hyields =>
    (hunsaved view hview).saveAndRestore (h.intact.sound view hview) hyields

/-! ## Runs around that phase -/

theorem Reached.unsaved_of_run (h : Reached start scheduled job) {phases : List Phase}
    (hcheck : checkPhases scheduled phases = .ok ())
    (hsave : .saveAndRestoreView ∉ phases.reverse ++ scheduled)
    (hunsaved : ∀ view ∈ job.units, view.Unsaved) (hrun : runAll phases job = .ok job') :
    ∀ view ∈ job'.units, view.Unsaved := by
  refine h.induction_run (P := fun scheduled job => .saveAndRestoreView ∉ scheduled →
    ∀ view ∈ job.units, view.Unsaved) ?_ hcheck (fun _ => hunsaved) hrun hsave
  intro scheduled phase job₁ job₂ hreached henabled _ hok ih hnew view' hview'
  rw [List.mem_cons, not_or] at hnew
  have hkeeps := hreached.keepsListeners henabled (Ne.symm hnew.1) hok
  obtain ⟨view, hview, hkept⟩ := exists_left_of_mem hkeeps hview'
  exact (ih hnew.2 view hview).keeps hkept

theorem Reached.saved_of_run (h : Reached start scheduled job) {phases : List Phase}
    (hcheck : checkPhases scheduled phases = .ok ()) (hsave : .saveAndRestoreView ∈ scheduled)
    {needs : View → Listener → Prop} {views : List View}
    (hsaved : List.Forall₂ (fun view view' => view.Saved (needs view) view') views job.units)
    (hrun : runAll phases job = .ok job') :
    List.Forall₂ (fun view view' => view.Saved (needs view) view') views job'.units := by
  refine (h.induction_run (P := fun scheduled job => .saveAndRestoreView ∈ scheduled ∧
    List.Forall₂ (fun view view' => view.Saved (needs view) view') views job.units) ?_ hcheck
    ⟨hsave, hsaved⟩ hrun).2
  rintro scheduled phase job₁ job₂ hreached henabled hnew hok ⟨hmem, ih⟩
  refine ⟨List.mem_cons_of_mem _ hmem, ?_⟩
  have hphase : phase ≠ .saveAndRestoreView := fun heq => hnew (heq ▸ hmem)
  exact forall₂_comp ih (hreached.keepsListeners henabled hphase hok)
    fun _ _ _ hview hkeeps => hview.keeps hkeeps

end Step

/-! ## Plans -/

/-- Whether the expression restores a view or leaves it again. -/
def Expr.switchesView : Expr → Bool
  | .restoreView _ | .restoreViewFrom _ | .resetView _ => true
  | _ => false

/-- The view stays the same, at any depth of the expression. -/
def Expr.StaysInView (expr : Expr) : Prop :=
  ∀ inner ∈ expr.visited, inner.switchesView = false

theorem Expr.Written.staysInView {expr : Expr} (h : expr.Written) : expr.StaysInView := by
  intro inner hinner
  have hwritten := h inner hinner
  cases inner <;> simp_all [isWritten, switchesView]

/-- The view is saved once, when it is created, and its listeners restore it, and leave it again,
exactly where they need it. -/
structure View.Restored (needs : Listener → Prop) (view view' : View) : Prop where
  xref : view'.xref = view.xref
  savedViews : view'.savedViews = [(view'.xref, .getCurrentView)]
  listeners : List.Forall₂ (fun op op' : Listener => op.Resembles op' ∧
    (op'.Restores Expr.StaysInView view'.xref ∨ op'.Evaluates Expr.StaysInView) ∧
      (op'.Restores Expr.StaysInView view'.xref ↔ needs op)) view.listeners view'.listeners

theorem View.Saved.restored {needs needs' : Listener → Prop} (h : view.Saved needs view')
    (hneeds : ∀ op, needs op ↔ needs' op) : view.Restored needs' view' := by
  refine ⟨h.xref, by rw [h.savedViews, h.xref], ?_⟩
  refine h.listeners.imp ?_
  rintro op op' ⟨hsame, hrestores, hevaluates⟩
  refine ⟨hsame, ?_⟩
  rw [h.xref, ← hneeds]
  by_cases hop : needs op
  · have hop' := (hrestores hop).imp fun _ => Expr.Written.staysInView
    exact ⟨.inl hop', iff_of_true hop' hop⟩
  · have hop' := HandlerBody.imp (hevaluates hop) (fun _ => Expr.Written.staysInView)
      fun _ => Expr.Written.staysInView
    have hfirst : op'.declaresFirst = false := Listener.Evaluates.declaresFirst hop'
    refine ⟨.inr hop', iff_of_false ?_ hop⟩
    intro hrestored
    simp [hrestored.declaresFirst] at hfirst

theorem View.Restored.kind_of_mem {needs : Listener → Prop} (h : view.Restored needs view')
    {op : Listener} (hop : op ∈ view'.listeners) :
    if op.declaresFirst then op.Restores Expr.StaysInView view'.xref
    else op.Evaluates Expr.StaysInView := by
  obtain ⟨old, -, -, hkinds, -⟩ := exists_left_of_mem h.listeners hop
  rcases hkinds with hrestores | hevaluates
  · rwa [if_pos hrestores.declaresFirst]
  · rwa [if_neg (by simp [hevaluates.declaresFirst])]

namespace Plan

variable {component : String} {template : List Template.Node} {options : Options} {job job' : Job}
  {plan : Plan}

theorem unsaved_of_ofTemplate (h : Job.ofTemplate component template options = .ok job) :
    ∀ view ∈ job.units, view.Unsaved := by
  obtain ⟨root, hlaidOut⟩ := Job.exists_laidOut h
  exact fun view hview => View.unsaved_of_create (Layout.unsaved (hlaidOut view hview))

theorem exists_saved_of_run (h : Job.ofTemplate component template options = .ok job)
    (hrun : plan.run job = .ok job') {before after : List Phase}
    (hphases : plan.phases = before ++ .saveAndRestoreView :: after) :
    ∃ middle, runAll before job = .ok middle ∧
      Reached job before.reverse middle ∧
      List.Forall₂ (fun view view' => view.Saved (middle.Needs view) view')
        middle.units job'.units := by
  obtain ⟨hintact, hkind⟩ := Job.ofTemplate_intact h
  have hstart := reached_refl hintact hkind
  have hcheck := plan.isValid
  rw [plan.run_eq_runAll hkind] at hrun
  rw [hphases] at hcheck hrun
  obtain ⟨middle, hbefore, hmiddle, hcheckBefore, hcheck, hrun⟩ := hstart.split_run hcheck hrun
  obtain ⟨henabled, hnew, hcheckAfter⟩ := checkPhases_cons.1 hcheck
  have hunsaved := hstart.unsaved_of_run hcheckBefore hnew (unsaved_of_ofTemplate h) hbefore
  obtain ⟨saved, hsave, hafter⟩ := runAll_cons_ok hrun
  have hreached := hmiddle.next henabled hnew hsave
  refine ⟨middle, hbefore, by simpa using hmiddle, ?_⟩
  exact hreached.saved_of_run hcheckAfter List.mem_cons_self (hmiddle.saves hunsaved hsave) hafter

/-- Views are restored and left in pairs: `middle` is the job when its views are saved, and a
listener of an embedded view needs its view, while one of the root does if it reads the name of a
local reference or of a declared value of the root. -/
theorem restored_of_run (h : Job.ofTemplate component template options = .ok job)
    (hrun : plan.run job = .ok job') (hsave : .saveAndRestoreView ∈ plan.phases) :
    ∃ before after middle, plan.phases = before ++ .saveAndRestoreView :: after ∧
      before.foldlM (fun job phase => phase.run job) job = .ok middle ∧
      middle.root.Restored (fun op => ∃ name, middle.root.Names name ∧ op.Reads name) job'.root ∧
      List.Forall₂ (View.Restored fun _ => True) middle.views job'.views := by
  obtain ⟨before, after, hphases⟩ := List.append_of_mem hsave
  obtain ⟨middle, hbefore, hmiddle, hsaved⟩ := exists_saved_of_run h hrun hphases
  refine ⟨before, after, middle, hphases, hbefore, ?_⟩
  obtain ⟨fragment, facts, -, hroot, -⟩ := Job.exists_lowering h
  have hparent := hmiddle.root_parent hroot.parent
  rw [Job.units, Job.units, List.forall₂_cons] at hsaved
  have hviews := (List.forall₂_and_left _ _).2
    ⟨fun view hview => hmiddle.intact.xref_ne_root hview, hsaved.2⟩
  refine ⟨hsaved.1.restored ?_, hviews.imp ?_⟩
  · intro op
    simp only [Job.Needs, Listener.NeedsView, Job.localNames_root hparent, View.mem_localNames]
    simp
  · rintro view view' ⟨hne, hview⟩
    refine hview.restored fun op => ?_
    simp [Job.Needs, Listener.NeedsView, hne]

/-- Two buttons, one of which reads the value of a field, and a third in a block. -/
def form : List Template.Node :=
  let here : SourceSpan := default
  let block : Template.BlockSpans := { whole := here, start := here, stop := none }
  let read (name : String) : Ast := .propertyRead {} {} (.implicitReceiver {}) name
  let element (name : String) (references : List Template.Reference)
      (outputs : List Template.BoundEvent) : Template.Node :=
    .element
      { name, attributes := [], inputs := [], outputs, children := [], references, span := here,
        startSpan := here, endSpan := none, i18n := none }
  let click (handler : Ast) : Template.BoundEvent :=
    { name := "click", type := .regular, handler := { ast := handler }, target := none
      phase := none, span := here, handlerSpan := here }
  [element "input" [{ name := "field", value := "", span := here }] [],
    element "button" [] [click (.call {} (read "save") [.propertyRead {} {} (read "field") "value"] {})],
    element "button" [] [click (.call {} (read "close") [read "$event"] {})],
    .ifBlock [⟨some (read "open"), [element "button" [] [click (read "reset")]], none, block, none⟩]
      block]

theorem restored_of_run_form :
    ∃ job job', Job.ofTemplate "Form" form {} = .ok job ∧ standard.run job = .ok job' ∧
      .saveAndRestoreView ∈ standard.phases ∧
      (∃ save close, job'.root.listeners = [save, close] ∧
        save.Restores Expr.StaysInView job'.root.xref ∧ close.Evaluates Expr.StaysInView) ∧
      ∃ view reset, job'.views = [view] ∧ view.listeners = [reset] ∧
        reset.Restores Expr.StaysInView view.xref := by
  have heval : ((Job.ofTemplate "Form" form {}).toOption.bind fun job =>
      (standard.run job).toOption.map fun job' =>
        job'.units.map fun view => view.listeners.map Listener.declaresFirst) =
      some [[true, false], [true]] := by decide +kernel
  obtain ⟨job, job', hjob, hrun, heval⟩ := exists_ok_of_eval heval
  have hsave : .saveAndRestoreView ∈ standard.phases := by decide
  obtain ⟨before, after, middle, -, -, hroot, hviews⟩ := restored_of_run hjob hrun hsave
  simp only [Job.units, List.map_cons, List.cons.injEq, List.map_eq_cons_iff,
    List.map_eq_nil_iff] at heval
  obtain ⟨⟨save, _, hlisteners, hfirst, close, _, rfl, hsecond, rfl⟩, view, _, hview,
    ⟨reset, _, hreset, hthird, rfl⟩, rfl⟩ := heval
  have hmem : save ∈ job'.root.listeners ∧ close ∈ job'.root.listeners := by simp [hlisteners]
  have hsaves := hroot.kind_of_mem hmem.1
  have hcloses := hroot.kind_of_mem hmem.2
  rw [hfirst] at hsaves
  rw [hsecond] at hcloses
  refine ⟨job, job', hjob, hrun, hsave, ⟨save, close, hlisteners, hsaves, by simpa using hcloses⟩,
    view, reset, hview, hreset, ?_⟩
  rw [hview] at hviews
  obtain ⟨old, -, hrestored⟩ := exists_left_of_mem hviews List.mem_cons_self
  have hresets := hrestored.kind_of_mem (hreset ▸ List.mem_cons_self)
  rwa [hthird] at hresets

end Plan

end TemplateLowering
