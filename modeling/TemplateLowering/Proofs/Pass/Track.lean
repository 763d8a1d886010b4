import TemplateLowering.Pass.Track
import TemplateLowering.Proofs.Job.Units

/-!
# Track expressions in outlines

Resolving loop variables keeps the pipes of a track expression.  Choosing a track function fails
exactly when a track expression holds a pipe, and otherwise does not show in the outline.
-/

namespace TemplateLowering

/-! ## Loop variables -/

theorem keepsPipes_resolveTrackRead (op : RepeaterCreate) : KeepsPipes op.resolveTrackRead := by
  intro flags expr s expr' t h
  obtain rfl := yields_id.1 h
  unfold RepeaterCreate.resolveTrackRead
  split
  · split_ifs <;> rfl
  · rfl

theorem CreateOp.Sound.resolveTrackReads {op : CreateOp} (hop : op.Sound) :
    op.Alike op.resolveTrackReads ∧ op.resolveTrackReads.xrefs = op.xrefs := by
  unfold CreateOp.resolveTrackReads
  split
  · rename_i repeater
    have hvisit : Yields (repeater.track.visitM repeater.resolveTrackRead {}) ()
        (Id.run (repeater.track.visitM repeater.resolveTrackRead {})) () := yields_id.2 rfl
    have hpipes := (keepsPipes_resolveTrackRead repeater).visitM hvisit
    refine ⟨⟨?_, rfl, rfl, rfl, fun _ => ⟨rfl, hop.lists⟩⟩, ?_⟩
    · simp [CreateOp.features, hpipes]
    · simp [CreateOp.xrefs, CreateOp.declared, CreateOp.exprs, CreateOp.lists, hpipes]
  · exact ⟨.refl _, rfl⟩

theorem Job.generateTrackVariables_turns {job : Job} (hsound : job.Sound)
    (hrooted : job.Rooted) : job.Turns id job.generateTrackVariables :=
  turns_mapCreate hsound hrooted fun _ hop => hop.resolveTrackReads

/-! ## Pipes in track expressions -/

theorem resolveTrackContext_fails {expr : Expr} (h : expr.pipe ≠ []) (flags : VisitFlags)
    (s : Bool) : outcome (resolveTrackContext flags expr) s = .error .pipeInTrack := by
  cases expr with
  | pipeBinding target slot name args => rfl
  | _ => exact absurd rfl h

theorem resolveTrackContext_yields {expr : Expr} (h : expr.pipes = []) (flags : VisitFlags)
    (s : Bool) : ∃ expr' t, Yields (resolveTrackContext flags expr) s expr' t ∧
      expr'.pipes = [] := by
  cases expr with
  | pipeBinding target slot name args => simp [Expr.pipes] at h
  | context view => exact ⟨.trackContext view, true, rfl, rfl⟩
  | _ => exact ⟨_, s, rfl, h⟩

theorem visit_resolveTrackContext (expr : Expr) (flags : VisitFlags) (s : Bool) :
    (expr.pipes = [] → ∃ expr' t, Yields (expr.visitM resolveTrackContext flags) s expr' t ∧
      expr'.pipes = []) ∧
    (expr.pipes ≠ [] →
      outcome (expr.visitM resolveTrackContext flags) s = .error .pipeInTrack) := by
  induction expr using Expr.induction_children generalizing s with
  | h expr ih =>
    rw [Expr.pipes_eq, Expr.visitM_eq]
    by_cases hchildren : ∀ child ∈ expr.children, child.pipes = []
    · -- The parts are visited without a failure, so the expression itself decides.
      have hnone : expr.children.flatMap Expr.pipes = [] := List.flatMap_eq_nil_iff.2 hchildren
      obtain ⟨parts, t, hparts, hthreads⟩ := total_mapM
        (f := Expr.visitM resolveTrackContext flags)
        (R := fun _ _ (part : Expr) _ => part.pipes = [])
        (fun child hmem s => (ih child hmem s).1 (hchildren child hmem)) s
      have hlength := (yields_mapM.1 hparts).length_eq
      have hparts' : parts.flatMap Expr.pipes = [] := by
        have hforall := hthreads.forall₂ fun _ _ _ _ _ h => h
        rw [List.flatMap_eq_nil_iff]
        intro part hpart
        obtain ⟨child, -, hpipes⟩ := exists_left_of_mem hforall hpart
        exact hpipes
      constructor
      · intro hpipe
        have hpipes : (expr.withChildren parts).pipes = [] := by
          rw [Expr.pipes_withChildren hlength, hparts', List.append_nil]
          exact (List.append_eq_nil_iff.1 hpipe).1
        obtain ⟨expr', u, haction, hexpr'⟩ := resolveTrackContext_yields hpipes flags t
        exact ⟨expr', u, yields_bind.2 ⟨parts, t, hparts, haction⟩, hexpr'⟩
      · intro hpipe
        rw [hnone, List.append_nil] at hpipe
        rw [outcome_bind_eq_error]
        refine .inr ⟨parts, t, hparts, resolveTrackContext_fails ?_ flags t⟩
        rwa [Expr.pipe_withChildren]
    · push Not at hchildren
      obtain ⟨bad, hmem, hbad⟩ := hchildren
      have hsome : expr.children.flatMap Expr.pipes ≠ [] := fun hnone =>
        hbad (List.flatMap_eq_nil_iff.1 hnone bad hmem)
      obtain ⟨e, rfl, herror⟩ := mapM_fails (F := (· = Fault.pipeInTrack))
        (fun child hmem hpipes s => ⟨_, rfl, (ih child hmem s).2 hpipes⟩)
        (fun child hmem hpipes s => by
          obtain ⟨child', t, hyields, -⟩ := (ih child hmem s).1 (not_not.1 hpipes)
          exact ⟨child', t, hyields⟩)
        ⟨bad, hmem, hbad⟩ s
      exact ⟨fun hnone => absurd (List.append_eq_nil_iff.1 hnone).2 hsome,
        fun _ => outcome_bind_eq_error.2 (.inl herror)⟩

/-! ## Track functions -/

section Choose

variable {op : RepeaterCreate} {root view : Xref}

theorem pipes_eq_nil_of_builtinTrackFn? {expr : Expr} {builtin : External}
    (h : builtinTrackFn? expr = some builtin) : expr.pipes = [] := by
  cases expr with
  | readVar name span => rfl
  | _ => exact nomatch h

theorem pipes_eq_nil_of_areTrackArgs {args : List Expr} (h : areTrackArgs args = true) :
    args.flatMap Expr.pipes = [] := by
  unfold areTrackArgs at h
  split at h
  · rfl
  · rfl
  · exact absurd h (by decide)

theorem pipes_eq_nil_of_trackMethod? {expr callee : Expr} {name : String}
    (h : trackMethod? root expr = some (callee, name)) : expr.pipes = [] ∧ callee.pipes = [] := by
  unfold trackMethod? at h
  split at h
  · split at h
    · rename_i hargs
      simp only [Option.some.injEq, Prod.mk.injEq] at h
      obtain ⟨rfl, -⟩ := h
      refine ⟨?_, rfl⟩
      rw [Expr.pipes, pipesOfAll_eq, pipes_eq_nil_of_areTrackArgs hargs.2]
      rfl
    · simp at h
  · simp at h

theorem RepeaterCreate.chooseTrackFn_fails (h : op.track.pipes ≠ []) (root view : Xref)
    (s : Ids) : outcome (op.chooseTrackFn root view) s = .error .pipeInTrack := by
  have hbuiltin : builtinTrackFn? op.track = none := by
    cases hbuiltin : builtinTrackFn? op.track with
    | none => rfl
    | some builtin => exact absurd (pipes_eq_nil_of_builtinTrackFn? hbuiltin) h
  have hmethod : trackMethod? root op.track = none := by
    cases hmethod : trackMethod? root op.track with
    | none => rfl
    | some method => exact absurd (pipes_eq_nil_of_trackMethod? hmethod).1 h
  have hvisit : (op.track.visitM resolveTrackContext {}).run false = .error .pipeInTrack :=
    (visit_resolveTrackContext op.track {} false).2 h
  simp only [chooseTrackFn, hbuiltin, hmethod]
  rw [outcome_bind_eq_error, outcome_lift]
  exact .inl hvisit

theorem repeaterCreate_turned {op op' : RepeaterCreate} {n : Nat}
    (hop : (CreateOp.repeaterCreate op).Sound) (hxref : op'.xref = op.xref)
    (hempty : op'.emptyView = op.emptyView) (htrack : op.track.pipes = [])
    (htrack' : op'.track.pipes = [])
    (hfn : op'.trackByFn = op.trackByFn ∨ op'.trackByFn.toList.flatMap Expr.pipes = [])
    (hops : op'.trackByOps = op.trackByOps ∨ ∃ ops, op'.trackByOps = some ops ∧ SoundOps ops ∧
      ops.toList.flatMap UpdateOp.xrefs = []) :
    (CreateOp.repeaterCreate op).Alike (.repeaterCreate op') ∧
      Grows n n (CreateOp.repeaterCreate op).xrefs (CreateOp.repeaterCreate op').xrefs := by
  constructor
  · refine ⟨?_, rfl, rfl, rfl, fun _ => ⟨rfl, ?_⟩⟩
    · simp [CreateOp.features, hxref, hempty, htrack, htrack']
    · rcases hops with hops | ⟨ops, hops, hsound, -⟩
      · simpa [CreateOp.lists, hops] using hop.lists
      · simpa [CreateOp.lists, hops] using hsound
  · refine (Grows.refl n _).subperm (fun _ => Nat.le_refl _) ?_
    intro x
    have hfn' : (op'.trackByFn.toList.flatMap Expr.pipes).count x ≤
        (op.trackByFn.toList.flatMap Expr.pipes).count x := by
      rcases hfn with hfn | hfn <;> simp [hfn]
    have hops' : (op'.trackByOps.toList.flatMap fun ops =>
          ops.toList.flatMap UpdateOp.xrefs).count x ≤
        (op.trackByOps.toList.flatMap fun ops => ops.toList.flatMap UpdateOp.xrefs).count x := by
      rcases hops with hops | ⟨ops, hops, -, hxrefs⟩
      · rw [hops]
      · simp [hops, hxrefs]
    simp only [CreateOp.xrefs, CreateOp.declared, CreateOp.exprs, CreateOp.lists,
      List.flatMap_cons, htrack, htrack', List.nil_append, List.count_append]
    omega

theorem RepeaterCreate.chooseTrackFn_yields (hop : (CreateOp.repeaterCreate op).Sound)
    (h : op.track.pipes = []) (root view : Xref) (s : Ids) :
    ∃ op' t, Yields (op.chooseTrackFn root view) s op' t ∧
      (CreateOp.repeaterCreate op).Alike (.repeaterCreate op') ∧
      Grows s.nextXref t.nextXref (CreateOp.repeaterCreate op).xrefs
        (CreateOp.repeaterCreate op').xrefs := by
  unfold chooseTrackFn
  split
  · refine ⟨_, s, yields_pure.2 ⟨rfl, rfl⟩, ?_⟩
    exact repeaterCreate_turned hop rfl rfl h h (.inr rfl) (.inl rfl)
  · split
    · rename_i callee name hmethod
      have hcallee := (pipes_eq_nil_of_trackMethod? hmethod).2
      split
      · refine ⟨_, s, yields_pure.2 ⟨rfl, rfl⟩, ?_⟩
        exact repeaterCreate_turned hop rfl rfl h h (.inr (by simp [hcallee])) (.inl rfl)
      · refine ⟨_, s, yields_pure.2 ⟨rfl, rfl⟩, ?_⟩
        exact repeaterCreate_turned hop rfl rfl h rfl (.inr rfl) (.inl rfl)
    · obtain ⟨track, found, hvisit, htrack⟩ := (visit_resolveTrackContext op.track {} false).1 h
      have hlists := OpList.lists_ofList ⟨s.nextList⟩
        [UpdateOp.statement (.return_ track none)]
      simp only [yields_bind, yields_lift, yields_freshList_pass, yields_pure]
      refine ⟨_, _, ⟨(track, found), s, ⟨hvisit, rfl⟩, _, _, ⟨rfl, rfl⟩, rfl, rfl⟩, ?_⟩
      refine repeaterCreate_turned hop rfl rfl h htrack (.inl rfl)
        (.inr ⟨_, rfl, ⟨hlists.linked, ?_⟩, ?_⟩)
      · rw [hlists.toList]
        simpa using ⟨rfl, rfl, by simp [UpdateOp.bindings]⟩
      · rw [hlists.toList]
        simp [UpdateOp.xrefs, UpdateOp.declared, UpdateOp.exprs, Statement.exprs, htrack]

end Choose

def Feature.isPiped : Feature → Bool
  | .track pipes => !pipes.isEmpty
  | _ => false

section Pass

variable {op : CreateOp} {view : View} {job : Job}

theorem isPiped_repeaterCreate {op : RepeaterCreate} :
    (∃ feature ∈ (CreateOp.repeaterCreate op).features, feature.isPiped = true) ↔
      op.track.pipes ≠ [] := by
  cases op.emptyView <;> simp [CreateOp.features, Feature.isPiped]

theorem CreateOp.chooseTrackFn_fails
    (h : ∃ feature ∈ op.features, feature.isPiped = true) (root view : Xref) (s : Ids) :
    outcome (op.chooseTrackFn root view) s = .error .pipeInTrack := by
  cases op with
  | repeaterCreate op =>
    rw [chooseTrackFn, outcome_map_eq_error]
    exact RepeaterCreate.chooseTrackFn_fails (isPiped_repeaterCreate.1 h) root view s
  | projection op => cases hview : op.fallbackView <;> simp_all [features, Feature.isPiped]
  | _ => simp [features, Feature.isPiped] at h

theorem CreateOp.Sound.chooseTrackFn (hop : op.Sound)
    (h : ¬∃ feature ∈ op.features, feature.isPiped = true) (root view : Xref) (s : Ids) :
    ∃ op' t, Yields (op.chooseTrackFn root view) s op' t ∧ op.Alike op' ∧
      Grows s.nextXref t.nextXref op.xrefs op'.xrefs := by
  cases op with
  | repeaterCreate op =>
    have hpipes : op.track.pipes = [] := by
      by_contra hpipes
      exact h (isPiped_repeaterCreate.2 hpipes)
    obtain ⟨op', t, hyields, hturned⟩ :=
      RepeaterCreate.chooseTrackFn_yields hop hpipes root view s
    exact ⟨_, t, yields_map.2 ⟨op', hyields, rfl⟩, hturned⟩
  | _ => exact ⟨_, s, yields_pure.2 ⟨rfl, rfl⟩, .refl _, Grows.refl _ _⟩

theorem View.Sound.chooseTrackFns (hview : view.Sound)
    (h : ¬∃ feature ∈ view.features, feature.isPiped = true) (root : Xref) (s : Ids) :
    ∃ view' t, Yields (do
        let create ← view.create.mapM (CreateOp.chooseTrackFn root view.xref)
        return { view with create } : StateT Ids (Except Fault) View) s view' t ∧
      view.Turns id s.nextXref t.nextXref view' := by
  obtain ⟨create, t, ops, hyields, hlists, hthreads⟩ := hview.create.lists.total_mapM
    (fun op hop => (hview.createOps op hop).chooseTrackFn (fun hpiped => by
      obtain ⟨feature, hmem, hpiped⟩ := hpiped
      exact h ⟨feature, List.mem_flatMap.2 ⟨op, hop, hmem⟩, hpiped⟩) root view.xref) s
  have hrewritten : view.Rewritten { view with create } [] ops [] :=
    ⟨rfl, rfl, by simpa using hlists, hthreads.forall₂ fun _ _ _ _ _ h => h.1, by simp, by simp⟩
  refine ⟨{ view with create }, t, ?_, ?_⟩
  · simp only [yields_bind, yields_pure]
    exact ⟨create, t, hyields, rfl, rfl⟩
  · refine View.turns_of_outline_eq (View.grows_of_create rfl ?_ rfl) (hrewritten.outline_eq rfl)
      (hrewritten.sound hview hview.update)
    rw [hlists.toList]
    exact hthreads.grows fun _ _ _ _ _ h => h.2

theorem View.Sound.chooseTrackFns_fails (hview : view.Sound)
    (h : ∃ feature ∈ view.features, feature.isPiped = true) (root : Xref) (s : Ids) :
    outcome (do
        let create ← view.create.mapM (CreateOp.chooseTrackFn root view.xref)
        return { view with create } : StateT Ids (Except Fault) View) s =
      .error .pipeInTrack := by
  have hexists : ∃ op ∈ view.create.toList, ∃ feature ∈ op.features, feature.isPiped = true := by
    obtain ⟨feature, hmem, hpiped⟩ := h
    obtain ⟨op, hop, hmem⟩ := List.mem_flatMap.1 hmem
    exact ⟨op, hop, feature, hmem, hpiped⟩
  obtain ⟨e, rfl, herror⟩ := mapM_fails (F := (· = Fault.pipeInTrack))
    (fun op _ hpiped s => ⟨_, rfl, CreateOp.chooseTrackFn_fails hpiped root view.xref s⟩)
    (fun op hop hpiped s => by
      obtain ⟨op', t, hyields, -⟩ :=
        (hview.createOps op hop).chooseTrackFn hpiped root view.xref s
      exact ⟨op', t, hyields⟩)
    hexists s
  rw [outcome_bind_eq_error, hview.create.lists.outcome_mapM_eq_error]
  exact .inl herror

theorem Job.optimizeTrackFns_turns (hsound : job.Sound) (hrooted : job.Rooted)
    (h : ¬∃ view ∈ job.units, ∃ feature ∈ view.features, feature.isPiped = true) :
    ∃ job', job.optimizeTrackFns = .ok job' ∧ job.Turns id job' := by
  obtain ⟨job', hrun, hthreads, hkind⟩ := total_mapUnitsFresh fun view hview =>
    (hsound view hview).chooseTrackFns (fun hpiped => h ⟨view, hview, hpiped⟩) job.root.xref
  exact ⟨job', hrun, turns_of_threads Ids.nextXref hthreads hkind rfl rfl hrooted⟩

theorem Job.optimizeTrackFns_fails (hsound : job.Sound)
    (h : ∃ view ∈ job.units, ∃ feature ∈ view.features, feature.isPiped = true) :
    job.optimizeTrackFns = .error .pipeInTrack := by
  obtain ⟨e, rfl, herror⟩ := mapM_fails (F := (· = Fault.pipeInTrack))
    (fun view hview hpiped s =>
      ⟨_, rfl, (hsound view hview).chooseTrackFns_fails hpiped job.root.xref s⟩)
    (fun view hview hpiped s => by
      obtain ⟨view', t, hyields, -⟩ :=
        (hsound view hview).chooseTrackFns hpiped job.root.xref s
      exact ⟨view', t, hyields⟩)
    h job.ids
  exact mapUnitsFresh_eq_error.2 herror

end Pass

end TemplateLowering
