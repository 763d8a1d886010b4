import TemplateLowering.Proofs.Job.Origin
import TemplateLowering.Proofs.Output.Replace
import TemplateLowering.Proofs.Plan.Edits

/-!
# Track functions after a run

A loop tracks its items by an expression.  After a run that chooses track functions, the expression
with the reads of the loop variables resolved decides what the loop has for it: a built-in function,
a method of the component, or a body that returns the expression.

Two phases of a plan change a loop.  `Phase.OnLoop` says what each phase makes of one, and the rest
is an induction over the run.
-/

namespace TemplateLowering

variable {expr expr' : Expr} {root : Xref}

/-! ## Contexts -/

namespace Expr

/-- The expression is a context, or has one among its parts at any depth. -/
inductive HoldsContext : Expr → Prop
  | here {view : Xref} : HoldsContext (.context view)
  | part {expr child : Expr} : child ∈ expr.children → HoldsContext child → HoldsContext expr

variable {f : Expr → Option Expr} {expr expr' : Expr} {parts : List Expr}

theorem holdsContext_iff (expr : Expr) : expr.HoldsContext ↔
    (∃ view, expr = .context view) ∨ ∃ child ∈ expr.children, child.HoldsContext := by
  constructor
  · intro h
    cases h with
    | here => exact .inl ⟨_, rfl⟩
    | part hmem hchild => exact .inr ⟨_, hmem, hchild⟩
  · rintro (⟨view, rfl⟩ | ⟨child, hmem, hchild⟩)
    · exact .here
    · exact .part hmem hchild

theorem holdsContext_replace
    (hf : ∀ expr expr', f expr = some expr' → ¬expr.HoldsContext ∧ ¬expr'.HoldsContext)
    (expr : Expr) : (expr.replace f).HoldsContext ↔ expr.HoldsContext := by
  induction expr using Expr.induction_children with
  | h expr ih =>
    rw [replace_eq]
    cases hnew : f expr with
    | some new => exact iff_of_false (hf expr new hnew).2 (hf expr new hnew).1
    | none =>
      have hlength : (expr.children.map (replace f)).length = expr.children.length :=
        List.length_map _
      rw [Option.getD_none, holdsContext_iff,
        leaf_withChildren (p := fun expr => ∃ view, expr = .context view) (by rintro _ ⟨_, rfl⟩; rfl)
          hlength, children_withChildren hlength, holdsContext_iff expr]
      refine or_congr_right ?_
      simp only [List.mem_map, exists_exists_and_eq_and]
      exact exists_congr fun child => and_congr_right (ih child)

/-- What takes the place of a context inside a track function. -/
def trackContext? : Expr → Option Expr
  | .context view => some (.trackContext view)
  | _ => none

end Expr

/-- What takes the place of a read of a loop variable. -/
def RepeaterCreate.loopRead? (op : RepeaterCreate) : Expr → Option Expr
  | .lexicalRead name span =>
      if name ∈ op.indexNames then some (.readVar trackIndex span)
      else if name = op.itemName then some (.readVar trackItem span)
      else none
  | _ => none

theorem RepeaterCreate.exists_of_loopRead? {op : RepeaterCreate}
    (h : op.loopRead? expr = some expr') :
    ∃ name name' span, expr = .lexicalRead name span ∧ expr' = .readVar name' span := by
  cases expr with
  | lexicalRead name span =>
    simp only [loopRead?] at h
    split_ifs at h <;> exact ⟨_, _, _, rfl, (Option.some.inj h).symm⟩
  | _ => simp [loopRead?] at h

theorem RepeaterCreate.run_resolveTrackRead (op : RepeaterCreate) :
    Id.run (op.track.visitM op.resolveTrackRead {}) = op.track.replace op.loopRead? := by
  have hvisit : Yields (op.track.visitM op.resolveTrackRead {}) ()
      (Id.run (op.track.visitM op.resolveTrackRead {})) () := yields_id.2 rfl
  refine Expr.eq_replace_of_visitM ?_ ?_ hvisit
  · intro expr expr' h
    obtain ⟨_, _, _, rfl, -⟩ := exists_of_loopRead? h
    rfl
  · intro flags expr _ expr' _ h
    obtain rfl := yields_id.1 h
    cases expr with
    | lexicalRead name span =>
      change resolveTrackRead op flags (.lexicalRead name span) = _
      simp only [resolveTrackRead, loopRead?]
      split_ifs <;> rfl
    | _ => rfl

theorem RepeaterCreate.holdsContext_replace_loopRead? (op : RepeaterCreate) (expr : Expr) :
    (expr.replace op.loopRead?).HoldsContext ↔ expr.HoldsContext := by
  refine Expr.holdsContext_replace ?_ expr
  intro expr expr' h
  obtain ⟨name, name', span, rfl, rfl⟩ := exists_of_loopRead? h
  rw [Expr.holdsContext_iff, Expr.holdsContext_iff]
  simp [Expr.children]

theorem yields_resolveTrackContext {flags : VisitFlags} {s t : Bool}
    (h : Yields (resolveTrackContext flags expr) s expr' t) :
    expr' = (expr.trackContext?).getD expr ∧
      (t = true ↔ s = true ∨ ∃ view, expr = .context view) := by
  have hrun := yields_stateT.1 h
  cases expr with
  | pipeBinding target slot name args =>
    have hpipe : (Expr.pipeBinding target slot name args).pipe ≠ [] := by simp [Expr.pipe]
    exact absurd ((resolveTrackContext_fails hpipe flags s).symm.trans h) (by simp)
  | context view =>
    obtain ⟨rfl, rfl⟩ := Prod.mk.inj (Except.ok.inj hrun)
    simp [Expr.trackContext?]
  | _ =>
    obtain ⟨rfl, rfl⟩ := Prod.mk.inj (Except.ok.inj hrun)
    simp [Expr.trackContext?]

theorem eq_of_visit_resolveTrackContext {track : Expr} {reads : Bool}
    (h : (expr.visitM resolveTrackContext {}).run false = .ok (track, reads)) :
    track = expr.replace Expr.trackContext? ∧ (reads = true ↔ expr.HoldsContext) := by
  have hvisit : Yields (expr.visitM resolveTrackContext {}) false track reads := yields_stateT.2 h
  refine ⟨Expr.eq_replace_of_visitM ?_ ?_ hvisit, ?_⟩
  · intro expr expr' hexpr
    cases expr with
    | context view => rfl
    | _ => simp [Expr.trackContext?] at hexpr
  · exact fun _ _ _ _ _ haction => (yields_resolveTrackContext haction).1
  · simpa using Expr.notes_of_visitM Expr.holdsContext_iff (by rintro _ ⟨_, rfl⟩; rfl)
      (fun _ _ _ _ _ haction => (yields_resolveTrackContext haction).2) hvisit

/-! ## Choices of track functions -/

/-- The arguments with which a method of the component evaluates a track expression. -/
inductive LoopArgs : List Expr → Prop
  | index {span : Option SourceSpan} : LoopArgs [.readVar trackIndex span]
  | both {span span' : Option SourceSpan} :
      LoopArgs [.readVar trackIndex span, .readVar trackItem span']

/-- The expression calls a method of the component with the loop variables. -/
def Expr.CallsComponent (root : Xref) (expr : Expr) : Prop :=
  ∃ name span args span' isPure, LoopArgs args ∧
    expr = .invoke (.readProp (.context root) name span) args span' isPure

/-- The function and the body that a loop of the view `view` has for a track expression. -/
inductive TracksBy (root view : Xref) : Expr → Option Expr → Option (List UpdateOp) → Prop
  | index {span : Option SourceSpan} :
      TracksBy root view (.readVar trackIndex span) (some (.imported repeaterTrackByIndex)) none
  | item {span : Option SourceSpan} :
      TracksBy root view (.readVar trackItem span) (some (.imported repeaterTrackByIdentity)) none
  | ownMethod {name : String} {span span' : Option SourceSpan} {args : List Expr} {isPure : Bool} :
      view = root → LoopArgs args →
      TracksBy root view (.invoke (.readProp (.context root) name span) args span' isPure)
        (some (.readProp (.context root) name span)) none
  | method {name : String} {span span' : Option SourceSpan} {args : List Expr} {isPure : Bool} :
      view ≠ root → LoopArgs args →
      TracksBy root view (.invoke (.readProp (.context root) name span) args span' isPure)
        (some (((Expr.imported componentInstance).call []).prop name)) none
  | body {track : Expr} : (∀ span, track ≠ .readVar trackIndex span) →
      (∀ span, track ≠ .readVar trackItem span) → ¬track.CallsComponent root →
      TracksBy root view track none
        (some [.statement (.return_ (track.replace Expr.trackContext?) none)])

/-- What becomes of a loop of the view `view`: its track expression is evaluated as it should be, it
uses the component when the expression does, and nothing else changes. -/
structure RepeaterCreate.Tracked (root view : Xref) (op op' : RepeaterCreate) : Prop where
  evaluated : TracksBy root view (op.track.replace op.loopRead?) op'.trackByFn
    (op'.trackByOps.map OpList.toList)
  uses : op'.usesComponentInstance = true ↔ op.track.HoldsContext
  rest : op' = { op with
    track := op'.track, trackByFn := op'.trackByFn, trackByOps := op'.trackByOps,
    usesComponentInstance := op'.usesComponentInstance, nonBindable := op'.nonBindable }

structure RepeaterCreate.Untracked (op : RepeaterCreate) : Prop where
  trackByFn : op.trackByFn = none
  trackByOps : op.trackByOps = none
  uses : op.usesComponentInstance = false

theorem areTrackArgs_iff {args : List Expr} : areTrackArgs args = true ↔ LoopArgs args := by
  constructor
  · intro h
    unfold areTrackArgs at h
    split at h
    · obtain rfl := eq_of_beq h
      exact .index
    · obtain ⟨rfl, rfl⟩ : _ = trackIndex ∧ _ = trackItem := by simpa using h
      exact .both
    · exact absurd h (by decide)
  · rintro (_ | _) <;> rfl

theorem trackMethod?_eq_some {callee : Expr} {name : String}
    (h : trackMethod? root expr = some (callee, name)) :
    ∃ span args span' isPure, LoopArgs args ∧ callee = .readProp (.context root) name span ∧
      expr = .invoke (.readProp (.context root) name span) args span' isPure := by
  unfold trackMethod? at h
  split at h
  · split_ifs at h with hargs
    obtain ⟨rfl, hargs⟩ := hargs
    obtain ⟨rfl, rfl⟩ := Prod.mk.inj (Option.some.inj h)
    exact ⟨_, _, _, _, areTrackArgs_iff.1 hargs, rfl, rfl⟩
  · simp at h

theorem not_callsComponent (h : trackMethod? root expr = none) : ¬expr.CallsComponent root := by
  rintro ⟨name, span, args, span', isPure, hargs, rfl⟩
  simp [trackMethod?, areTrackArgs_iff.2 hargs] at h

theorem builtinTrackFn?_eq_some {builtin : External} (h : builtinTrackFn? expr = some builtin) :
    ∃ span, (expr = .readVar trackIndex span ∧ builtin = repeaterTrackByIndex) ∨
      expr = .readVar trackItem span ∧ builtin = repeaterTrackByIdentity := by
  cases expr with
  | readVar name span =>
    simp only [builtinTrackFn?] at h
    split_ifs at h with hindex hitem
    · exact ⟨span, .inl ⟨hindex ▸ rfl, (Option.some.inj h).symm⟩⟩
    · exact ⟨span, .inr ⟨hitem ▸ rfl, (Option.some.inj h).symm⟩⟩
  | _ => simp [builtinTrackFn?] at h

theorem RepeaterCreate.Untracked.chooseTrackFn {view : Xref} {op op' : RepeaterCreate} {s t : Ids}
    (hop : op.Untracked) (h : Yields (op.chooseTrackFn root view) s op' t) :
    TracksBy root view op.track op'.trackByFn (op'.trackByOps.map OpList.toList) ∧
      (op'.usesComponentInstance = true ↔ op.track.HoldsContext) ∧
      op' = { op with
        track := op'.track, trackByFn := op'.trackByFn, trackByOps := op'.trackByOps,
        usesComponentInstance := op'.usesComponentInstance } := by
  unfold RepeaterCreate.chooseTrackFn at h
  cases hbuiltin : builtinTrackFn? op.track with
  | some builtin =>
    simp only [hbuiltin, yields_pure] at h
    obtain ⟨rfl, -⟩ := h
    obtain ⟨span, hcase⟩ := builtinTrackFn?_eq_some hbuiltin
    have huses : (op.usesComponentInstance = true ↔ op.track.HoldsContext) := by
      rw [hop.uses, Expr.holdsContext_iff]
      rcases hcase with ⟨htrack, -⟩ | ⟨htrack, -⟩ <;> simp [htrack, Expr.children]
    refine ⟨?_, huses, rfl⟩
    rw [hop.trackByOps]
    rcases hcase with ⟨htrack, rfl⟩ | ⟨htrack, rfl⟩
    · exact htrack ▸ .index
    · exact htrack ▸ .item
  | none =>
    cases hmethod : trackMethod? root op.track with
    | some method =>
      obtain ⟨callee, name⟩ := method
      obtain ⟨span, args, span', isPure, hargs, rfl, htrack⟩ := trackMethod?_eq_some hmethod
      have hcontext : op.track.HoldsContext :=
        htrack ▸ .part List.mem_cons_self (.part List.mem_cons_self .here)
      simp only [hbuiltin, hmethod, yields_ite, yields_pure] at h
      rcases h with ⟨hroot, rfl, -⟩ | ⟨hroot, rfl, -⟩
      · refine ⟨?_, iff_of_true rfl hcontext, rfl⟩
        rw [hop.trackByOps, htrack]
        exact .ownMethod hroot hargs
      · refine ⟨?_, iff_of_true rfl hcontext, rfl⟩
        rw [hop.trackByOps, htrack]
        exact .method hroot hargs
    | none =>
      simp only [hbuiltin, hmethod, yields_bind, yields_lift, yields_pure] at h
      obtain ⟨⟨track, reads⟩, _, ⟨hvisit, -⟩, list, _, -, rfl, -⟩ := h
      obtain ⟨htrack, hreads⟩ := eq_of_visit_resolveTrackContext hvisit
      refine ⟨?_, by simpa [hop.uses] using hreads, rfl⟩
      rw [hop.trackByFn, Option.map_some, (OpList.lists_ofList _ _).toList, htrack]
      refine .body ?_ ?_ (not_callsComponent hmethod)
      · intro span hread
        simp [hread, builtinTrackFn?] at hbuiltin
      · intro span hread
        simp [hread, builtinTrackFn?, trackItem, trackIndex] at hbuiltin

/-! ## Loops along a run -/

def CreateOp.repeater? : CreateOp → Option RepeaterCreate
  | .repeaterCreate op => some op
  | _ => none

def View.repeaters (view : View) : List RepeaterCreate :=
  view.create.toList.filterMap CreateOp.repeater?

def RepeaterCreate.resolved (op : RepeaterCreate) : RepeaterCreate :=
  { op with track := op.track.replace op.loopRead? }

def Phase.OnLoop (root view : Xref) : Phase → RepeaterCreate → RepeaterCreate → Prop
  | .generateTrackVariables, op, op' => op' = op.resolved
  | .optimizeTrackFns, op, op' => ∃ s t, Yields (op.chooseTrackFn root view) s op' t
  | _, op, op' => ∃ nonBindable, op' = { op with nonBindable }

/-- The loop `op'` that a run has made of `op` by the phases so far. -/
def RepeaterCreate.Reaches (root view : Xref) (scheduled : List Phase)
    (op op' : RepeaterCreate) : Prop :=
  ∃ nonBindable, if .optimizeTrackFns ∈ scheduled then
    ∃ chosen mark s t, op' = { chosen with nonBindable } ∧
      Yields (chooseTrackFn root view { op.resolved with nonBindable := mark }) s chosen t
  else
    op' = { (if .generateTrackVariables ∈ scheduled then op.resolved else op) with nonBindable }

section Phase

variable {phase : Phase} {root xref : Xref} {scheduled : List Phase} {op op' op'' : RepeaterCreate}

theorem RepeaterCreate.reaches_refl (op : RepeaterCreate) : op.Reaches root xref [] op :=
  ⟨op.nonBindable, by simp⟩

theorem RepeaterCreate.Reaches.step (h : op.Reaches root xref scheduled op')
    (horder : .optimizeTrackFns ∈ scheduled → .generateTrackVariables ∈ scheduled)
    (henabled : phase.Enabled scheduled)
    (hnew : phase ∉ scheduled) (hphase : phase.OnLoop root xref op' op'') :
    op.Reaches root xref (phase :: scheduled) op'' := by
  obtain ⟨mark, h⟩ := h
  cases phase with
  | generateTrackVariables =>
    have hfn : .optimizeTrackFns ∉ scheduled := fun hfn => hnew (horder hfn)
    simp only [hfn, hnew, if_false] at h
    subst h
    obtain rfl := hphase
    simp only [Reaches, List.mem_cons, reduceCtorEq, hfn, or_self, true_or, if_true, if_false]
    exact ⟨mark, rfl⟩
  | optimizeTrackFns =>
    have htrack := henabled .generateTrackVariables (by simp [Phase.prerequisites])
    simp only [hnew, htrack, if_true, if_false] at h
    subst h
    obtain ⟨s, t, hchoose⟩ := hphase
    simp only [Reaches, List.mem_cons, true_or, if_true]
    exact ⟨op''.nonBindable, op'', mark, s, t, rfl, hchoose⟩
  | _ =>
    obtain ⟨mark', rfl⟩ := hphase
    simp only [Reaches, List.mem_cons, reduceCtorEq, false_or] at h ⊢
    refine ⟨mark', ?_⟩
    split_ifs at h ⊢
    · obtain ⟨chosen, marked, s, t, rfl, hchoose⟩ := h
      exact ⟨chosen, marked, s, t, rfl, hchoose⟩
    all_goals
      subst h
      rfl

theorem RepeaterCreate.Reaches.tracked (h : op.Reaches root xref scheduled op')
    (hop : op.Untracked) (hfn : .optimizeTrackFns ∈ scheduled) : op.Tracked root xref op' := by
  obtain ⟨mark, h⟩ := h
  rw [if_pos hfn] at h
  obtain ⟨chosen, marked, s, t, rfl, hchoose⟩ := h
  have hready : Untracked { op.resolved with nonBindable := marked } :=
    ⟨hop.trackByFn, hop.trackByOps, hop.uses⟩
  obtain ⟨hevaluated, huses, hrest⟩ := hready.chooseTrackFn hchoose
  refine ⟨hevaluated, huses.trans (op.holdsContext_replace_loopRead? _), ?_⟩
  exact congrArg (fun op : RepeaterCreate => { op with nonBindable := mark }) hrest

theorem Phase.Alters.onLoop {op op' : CreateOp} (h : phase.Alters op op')
    (hfn : phase ≠ .optimizeTrackFns) :
    Option.Rel (phase.OnLoop root xref) op.repeater? op'.repeater? := by
  cases h with
  | keep hspares =>
    cases op with
    | repeaterCreate op =>
      cases phase with
      | generateTrackVariables => exact hspares.elim
      | optimizeTrackFns => exact absurd rfl hfn
      | _ => exact .some ⟨op.nonBindable, rfl⟩
    | _ => exact .none
  | mark =>
    cases op with
    | repeaterCreate op => exact .some ⟨true, rfl⟩
    | _ => exact .none
  | track htrack =>
    rw [CreateOp.resolveTrackReads, RepeaterCreate.run_resolveTrackRead] at htrack
    exact .some (CreateOp.repeaterCreate.inj htrack).symm
  | trackFn => exact absurd rfl hfn
  | _ => exact .none

theorem Phase.Inserts.repeater?_eq_none {op : CreateOp} (h : phase.Inserts op) :
    op.repeater? = none := by
  cases h.inserted <;> rfl

end Phase

theorem View.Sound.onLoops_chooseTrackFn {view : View} (hview : view.Sound)
    {create : OpList CreateOp} {s t : Ids}
    (h : Yields (view.create.mapM (CreateOp.chooseTrackFn root view.xref)) s create t) :
    List.Forall₂ (Phase.optimizeTrackFns.OnLoop root view.xref) view.repeaters
      (View.repeaters { view with create }) := by
  obtain ⟨ops, hops, hlists⟩ := hview.create.lists.yields_mapM h
  rw [View.repeaters, View.repeaters, hlists.toList]
  have hchosen : List.Forall₂ (fun op op' => ∃ s t,
      Yields (CreateOp.chooseTrackFn root view.xref op) s op' t) view.create.toList ops :=
    hops.forall₂ fun s _ _ t _ hop => ⟨s, t, hop⟩
  refine List.rel_filterMap ?_ hchosen
  rintro op op' ⟨s, t, hop⟩
  cases op with
  | repeaterCreate op =>
    obtain ⟨new, hnew, rfl⟩ := yields_map.1 hop
    exact .some ⟨s, t, hnew⟩
  | _ =>
    obtain ⟨rfl, -⟩ := yields_pure.1 hop
    exact .none

theorem Reached.onLoops {start job job' : Job} {scheduled : List Phase} {phase : Phase}
    (h : Reached start scheduled job) (henabled : phase.Enabled scheduled)
    (hrun : phase.run job = .ok job') :
    List.Forall₂ (fun view view' : View => view'.xref = view.xref ∧
      List.Forall₂ (phase.OnLoop job.root.xref view.xref) view.repeaters view'.repeaters)
      job.units job'.units := by
  by_cases hfn : phase = .optimizeTrackFns
  · subst hfn
    obtain ⟨hthreads, -⟩ := Job.threads_of_mapUnitsFresh hrun
    refine hthreads.forall₂ ?_
    intro _ view view' _ hview hyields
    simp only [yields_bind, yields_pure] at hyields
    obtain ⟨create, _, hcreate, rfl, -⟩ := hyields
    exact ⟨rfl, (h.intact.sound view hview).onLoops_chooseTrackFn hcreate⟩
  · exact (h.editedBy henabled hrun).imp fun _ _ hview => ⟨hview.xref, hview.create.rel_filterMap
      (fun _ _ hop => hop.onLoop hfn) fun _ hop => hop.repeater?_eq_none⟩

theorem View.Raw.untracked {view : View} (h : view.Raw) :
    ∀ op ∈ view.repeaters, op.Untracked := by
  intro op hop
  obtain ⟨create, hcreate, hloop⟩ := List.mem_filterMap.1 hop
  have hraw := h.create create hcreate
  cases create with
  | repeaterCreate op =>
    obtain rfl := Option.some.inj hloop
    simp only [CreateOp.isRaw, Bool.and_eq_true, Option.isNone_iff_eq_none,
      Bool.not_eq_true'] at hraw
    exact ⟨hraw.1.2, hraw.1.1, hraw.2⟩
  | _ => simp [CreateOp.repeater?] at hloop

namespace Plan

variable {component : String} {template : List Template.Node} {options : Options} {job job' : Job}
  {plan : Plan}

/-- After a run that chooses track functions, every loop of the template has what its track
expression asks for. -/
theorem tracked_of_run (h : Job.ofTemplate component template options = .ok job)
    (hrun : plan.run job = .ok job') (hfn : .optimizeTrackFns ∈ plan.phases) :
    List.Forall₂ (fun view view' : View => view'.xref = view.xref ∧
      List.Forall₂ (RepeaterCreate.Tracked job.root.xref view.xref) view.repeaters view'.repeaters)
      job.units job'.units := by
  have hreaches := induction_run h hrun (P := fun scheduled other =>
    (.optimizeTrackFns ∈ scheduled → .generateTrackVariables ∈ scheduled) ∧
    other.root.xref = job.root.xref ∧
    List.Forall₂ (fun view view' : View => view'.xref = view.xref ∧
      List.Forall₂ (RepeaterCreate.Reaches job.root.xref view.xref scheduled) view.repeaters
        view'.repeaters) job.units other.units) ?_ ?_
  · have huntracked : ∀ view ∈ job.units, ∀ op ∈ view.repeaters, op.Untracked :=
      fun view hview => (Job.raw_of_ofTemplate h view hview).untracked
    refine ((List.forall₂_and_left _ _).2 ⟨huntracked, hreaches.2.2⟩).imp ?_
    rintro view view' ⟨hview, hxref, hloops⟩
    refine ⟨hxref, ((List.forall₂_and_left _ _).2 ⟨hview, hloops⟩).imp fun op op' hop => ?_⟩
    exact hop.2.tracked hop.1 (List.mem_reverse.2 hfn)
  · refine ⟨by simp, rfl, List.forall₂_same.2 fun view hview => ⟨rfl, ?_⟩⟩
    exact List.forall₂_same.2 fun op _ => op.reaches_refl
  · rintro scheduled phase job₁ job₂ hreached henabled hnew hok ⟨horder, hroot, hviews⟩
    have honLoops := hreached.onLoops henabled hok
    rw [hroot] at honLoops
    refine ⟨?_, ?_, ?_⟩
    · intro hmem
      rcases List.mem_cons.1 hmem with rfl | hmem
      · exact .tail _ (henabled _ (by simp [Phase.prerequisites]))
      · exact .tail _ (horder hmem)
    · rw [Job.units, Job.units, List.forall₂_cons] at honLoops
      exact honLoops.1.1.trans hroot
    · refine forall₂_comp hviews honLoops ?_
      rintro view view₁ view₂ ⟨hxref, hloops⟩ ⟨hxref', hloops'⟩
      rw [hxref] at hloops'
      exact ⟨hxref'.trans hxref, forall₂_comp hloops hloops' fun _ _ _ hop hop' =>
        hop.step horder henabled hnew hop'⟩

/-- Three loops, one in the other.  A method of the component tracks the outer two; the innermost
gives its arguments in another order. -/
def rows : List Template.Node :=
  let here : SourceSpan := default
  let read (name : String) : Ast := .propertyRead {} {} (.implicitReceiver {}) name
  let loop (item : String) (trackBy : Ast) (children : List Template.Node) : Template.Node :=
    .forBlock
      { item := { name := item, value := "$implicit", span := here }
        expression := { ast := read "items" }
        trackBy := { ast := trackBy }
        contextVariables := [{ name := "$index", value := "$index", span := here }]
        children
        empty := none
        block := { whole := here, start := here, stop := none }
        mainSpan := here
        i18n := none }
  let key (args : List Ast) : Ast :=
    .call {} (.propertyRead {} {} (.thisReceiver {}) "key") args {}
  [loop "row" (key [read "$index", read "row"])
    [loop "cell" (key [read "$index"]) [loop "part" (key [read "part", read "$index"]) []]]]

theorem tracked_of_run_rows :
    ∃ job job', Job.ofTemplate "Rows" rows {} = .ok job ∧ standard.run job = .ok job' ∧
      .optimizeTrackFns ∈ standard.phases ∧
      List.Forall₂ (fun view view' : View => view'.xref = view.xref ∧
        List.Forall₂ (RepeaterCreate.Tracked job.root.xref view.xref) view.repeaters
          view'.repeaters) job.units job'.units ∧
      job'.units.map (fun view => view.repeaters.map fun op =>
        (op.trackByFn.isSome, op.trackByOps.isSome, op.usesComponentInstance)) =
        [[(true, false, true)], [(true, false, true)], [(false, true, true)], []] := by
  have hshapes : ((Job.ofTemplate "Rows" rows {}).toOption.bind fun job =>
      (standard.run job).toOption.map fun job' =>
        job'.units.map fun view => view.repeaters.map fun op =>
          (op.trackByFn.isSome, op.trackByOps.isSome, op.usesComponentInstance)) =
      some [[(true, false, true)], [(true, false, true)], [(false, true, true)], []] := by
    decide +kernel
  obtain ⟨job, job', hjob, hrun, hshapes⟩ := exists_ok_of_eval hshapes
  have hfn : .optimizeTrackFns ∈ standard.phases := by decide
  exact ⟨job, job', hjob, hrun, hfn, tracked_of_run hjob hrun hfn, hshapes⟩

end Plan

end TemplateLowering
