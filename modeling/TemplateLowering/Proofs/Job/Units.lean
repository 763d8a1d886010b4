import TemplateLowering.Pass.I18nContext
import TemplateLowering.Proofs.Job.Outline

/-!
# Passes over all views

A pass visits the views of a job, root first, in a monad of its own.  It fails where a view fails
first, and otherwise the views correspond one by one, while the state of the monad is passed along.
-/

namespace TemplateLowering

variable {narrow : List BindingShape → List BindingShape} {xref : Xref} {view : View}

namespace Job

variable {job job' : Job}

/-- The job with other views and another supply. -/
def Reunited (job job' : Job) : Prop :=
  job' = { job with root := job'.root, views := job'.views, ids := job'.ids }

theorem Reunited.kind (h : job.Reunited job') : job'.kind = job.kind := by
  rw [h]

section Visit

variable {m : Type → Type} [Monad m] [LawfulMonad m] {σ ε : Type} [Stateful m σ ε] {s t : σ}

theorem yields_mapUnitsM {f : View → m View} (h : Yields (job.mapUnitsM f) s job' t) :
    Threads (fun s view view' t => Yields (f view) s view' t) s job.units job'.units t ∧
      job.Reunited job' ∧ job'.ids = job.ids := by
  simp only [mapUnitsM, yields_bind, yields_mapM, yields_pure] at h
  obtain ⟨root, u, hroot, views, v, hviews, rfl, rfl⟩ := h
  exact ⟨.cons hroot hviews, rfl, rfl⟩

theorem invariant_mapUnitsM {f : View → m View} {R : σ → View → View → σ → Prop} {I : σ → Prop}
    (h : ∀ view ∈ job.units, ∀ s, I s →
      ∃ view' t, Yields (f view) s view' t ∧ R s view view' t ∧ I t) (hs : I s) :
    ∃ job' t, Yields (job.mapUnitsM f) s job' t ∧ Threads R s job.units job'.units t := by
  obtain ⟨root, u, hroot, hR, hu⟩ := h job.root List.mem_cons_self s hs
  obtain ⟨views, t, hviews, hthreads, -⟩ :=
    invariant_mapM (fun view hview => h view (List.mem_cons_of_mem _ hview)) hu
  refine ⟨{ job with root, views }, t, ?_, .cons hR hthreads⟩
  simp only [mapUnitsM, yields_bind, yields_pure]
  exact ⟨root, u, hroot, views, t, hviews, rfl, rfl⟩

theorem total_mapUnitsM {f : View → m View} {R : σ → View → View → σ → Prop}
    (h : ∀ view ∈ job.units, ∀ s, ∃ view' t, Yields (f view) s view' t ∧ R s view view' t) (s : σ) :
    ∃ job' t, Yields (job.mapUnitsM f) s job' t ∧ Threads R s job.units job'.units t := by
  have hinvariant : ∀ view ∈ job.units, ∀ s, True →
      ∃ view' t, Yields (f view) s view' t ∧ R s view view' t ∧ True := by
    intro view hview s _
    obtain ⟨view', t, hyields, hR⟩ := h view hview s
    exact ⟨view', t, hyields, hR, trivial⟩
  exact invariant_mapUnitsM hinvariant trivial

theorem outcome_mapUnitsM_eq_error {f : View → m View} {e : ε} :
    outcome (job.mapUnitsM f) s = .error e ↔ outcome (job.units.mapM f) s = .error e := by
  simp only [mapUnitsM, units, List.mapM_cons, outcome_bind_eq_error, outcome_pure_ne_error,
    and_false, exists_false, or_false]

end Visit

/-! ## Passes with fresh numbers -/

section Fresh

variable {f : View → StateT Ids (Except Fault) View}

theorem threads_of_mapUnitsFresh (h : job.mapUnitsFresh f = .ok job') :
    Threads (fun s view view' t => Yields (f view) s view' t) job.ids job.units job'.units
      job'.ids ∧ job.Reunited job' := by
  unfold mapUnitsFresh at h
  cases hrun : (job.mapUnitsM f).run job.ids with
  | error e => simp [hrun, bind, Except.bind] at h
  | ok result =>
    obtain ⟨middle, ids⟩ := result
    obtain ⟨hthreads, hreunited, -⟩ := yields_mapUnitsM (yields_stateT.2 hrun)
    simp only [hrun, bind, Except.bind, pure, Except.pure, Except.ok.injEq] at h
    subst h
    exact ⟨hthreads, by rw [hreunited]; rfl⟩

theorem total_mapUnitsFresh {R : Ids → View → View → Ids → Prop}
    (h : ∀ view ∈ job.units, ∀ s, ∃ view' t, Yields (f view) s view' t ∧ R s view view' t) :
    ∃ job', job.mapUnitsFresh f = .ok job' ∧ Threads R job.ids job.units job'.units job'.ids ∧
      job'.kind = job.kind := by
  obtain ⟨middle, ids, hyields, hthreads⟩ := total_mapUnitsM h job.ids
  obtain ⟨-, hreunited, -⟩ := yields_mapUnitsM hyields
  refine ⟨{ middle with ids }, ?_, hthreads, hreunited.kind⟩
  rw [mapUnitsFresh, yields_stateT.1 hyields]
  rfl

theorem mapUnitsFresh_eq_error {e : Fault} :
    job.mapUnitsFresh f = .error e ↔ outcome (job.units.mapM f) job.ids = .error e := by
  rw [← outcome_mapUnitsM_eq_error]
  unfold mapUnitsFresh
  change _ ↔ (job.mapUnitsM f).run job.ids = .error e
  cases hrun : (job.mapUnitsM f).run job.ids with
  | error e' => simp [bind, Except.bind]
  | ok result => simp [bind, Except.bind, pure, Except.pure]

end Fresh

/-! ## Passes with a state -/

section Context

variable {σ : Type} {f : View → ContextPass σ View}

theorem invariant_runContextPass {R : σ × Ids → View → View → σ × Ids → Prop} {I : σ × Ids → Prop}
    (h : ∀ view ∈ job.units, ∀ s, I s →
      ∃ view' t, Yields (f view) s view' t ∧ R s view view' t ∧ I t)
    {init : σ} (hinit : I (init, job.ids)) :
    ∃ job' final, job.runContextPass init f = .ok (job', final) ∧
      Threads R (init, job.ids) job.units job'.units (final, job'.ids) ∧ job.Reunited job' := by
  obtain ⟨middle, ⟨final, ids⟩, hyields, hthreads⟩ := invariant_mapUnitsM h hinit
  obtain ⟨-, hreunited, -⟩ := yields_mapUnitsM hyields
  refine ⟨{ middle with ids }, final, ?_, hthreads, by rw [hreunited]; rfl⟩
  rw [runContextPass, yields_context.1 hyields]
  rfl

theorem threads_of_runContextPass {init final : σ}
    (h : job.runContextPass init f = .ok (job', final)) :
    Threads (fun s view view' t => Yields (f view) s view' t) (init, job.ids) job.units job'.units
      (final, job'.ids) := by
  unfold runContextPass at h
  cases hrun : ((job.mapUnitsM f).run init).run job.ids with
  | error e => simp [hrun, bind, Except.bind] at h
  | ok result =>
    obtain ⟨⟨middle, state⟩, ids⟩ := result
    have hyields : Yields (job.mapUnitsM f) (init, job.ids) middle (state, ids) :=
      yields_context.2 hrun
    obtain ⟨hthreads, -, -⟩ := yields_mapUnitsM hyields
    simp only [hrun, bind, Except.bind, pure, Except.pure, Except.ok.injEq, Prod.mk.injEq] at h
    obtain ⟨rfl, rfl⟩ := h
    exact hthreads

end Context

/-! ## Passes that may fail -/

section Except

variable {f : View → Except Fault View}

theorem turns_mapUnitsM (hrooted : job.Rooted)
    (hf : ∀ view ∈ job.units, ∃ view', f view = .ok view' ∧
      view.Turns narrow job.ids.nextXref job.ids.nextXref view') :
    ∃ job', job.mapUnitsM f = .ok job' ∧ job.Turns narrow job' := by
  obtain ⟨job', _, hyields, hthreads⟩ := total_mapUnitsM
    (R := fun _ view view' _ => view.Turns narrow job.ids.nextXref job.ids.nextXref view')
    (fun view hview _ => by
      obtain ⟨view', hrun, hturns⟩ := hf view hview
      exact ⟨view', (), yields_except.2 hrun, hturns⟩) ()
  obtain ⟨-, hreunited, hids⟩ := yields_mapUnitsM hyields
  refine ⟨job', yields_except.1 hyields, ?_⟩
  exact turns_of_threads (fun _ => job.ids.nextXref) hthreads hreunited.kind rfl (by rw [hids])
    hrooted

theorem mapUnitsM_fails {F : Fault → Prop} {bad : View → Prop}
    (hbad : ∀ view ∈ job.units, bad view → ∃ e, F e ∧ f view = .error e)
    (hgood : ∀ view ∈ job.units, ¬bad view → ∃ view', f view = .ok view')
    (hexists : ∃ view ∈ job.units, bad view) : ∃ e, F e ∧ job.mapUnitsM f = .error e := by
  obtain ⟨e, he, herror⟩ := except_mapM_fails hbad hgood hexists
  have houtcome : outcome (job.units.mapM f) () = .error e := outcome_except.2 herror
  exact ⟨e, he, outcome_except.1 (outcome_mapUnitsM_eq_error.2 houtcome)⟩

theorem exists_of_mapUnitsM_error {e : Fault} (h : job.mapUnitsM f = .error e) :
    ∃ view ∈ job.units, f view = .error e := by
  have houtcome : outcome (job.mapUnitsM f) () = .error e := outcome_except.2 h
  obtain ⟨before, view, after, _, _, hunits, -, herror⟩ :=
    outcome_mapM_eq_error.1 (outcome_mapUnitsM_eq_error.1 houtcome)
  exact ⟨view, by simp [hunits], outcome_except.1 herror⟩

end Except

/-! ## Passes that cannot fail -/

theorem mapUnits_eq (job : Job) (f : View → View) :
    Id.run (job.mapUnitsM fun view => pure (f view)) =
      { job with root := f job.root, views := job.views.map f } := by
  simp [mapUnitsM]

theorem ids_mapUnits (job : Job) (f : View → View) :
    (Id.run (job.mapUnitsM fun view => pure (f view))).ids = job.ids := by
  rw [mapUnits_eq]

theorem turns_map {f : View → View} (hrooted : job.Rooted)
    (hf : ∀ view ∈ job.units, view.Turns narrow job.ids.nextXref job.ids.nextXref (f view)) :
    job.Turns narrow (Id.run (job.mapUnitsM fun view => pure (f view))) := by
  rw [mapUnits_eq]
  have hthreads := Threads.of_map (R := fun s view view' t => View.Turns narrow s t view view') hf
  exact turns_of_threads (fun n => n) hthreads rfl rfl rfl hrooted

/-! ## Changes of one view -/

/-- One view of a job was replaced, the first with its number. -/
def Replaces (job job' : Job) (view view' : View) : Prop :=
  ∃ before after, job.units = before ++ view :: after ∧ job'.units = before ++ view' :: after ∧
    ∀ other ∈ before, other.xref ≠ view.xref

theorem modifyFirst_eq {m : Type → Type} [Monad m] [LawfulMonad m] (f : View → m View)
    {views : List View} (h : views.find? (fun view => view.xref = xref) = some view) :
    ∃ before after, views = before ++ view :: after ∧ (∀ other ∈ before, other.xref ≠ xref) ∧
      modifyFirst xref f views = (fun view' => before ++ view' :: after) <$> f view := by
  induction views with
  | nil => simp at h
  | cons first views ih =>
    by_cases hfirst : first.xref = xref
    · obtain rfl : first = view := by simpa [List.find?_cons, hfirst] using h
      refine ⟨[], views, rfl, by simp, ?_⟩
      simp only [modifyFirst, if_pos hfirst, bind_pure_comp]
      rfl
    · have hrest : views.find? (fun view => view.xref = xref) = some view := by
        simpa [List.find?_cons, hfirst] using h
      obtain ⟨before, after, hviews, hbefore, hmodify⟩ := ih hrest
      refine ⟨first :: before, after, by rw [hviews]; rfl, ?_, ?_⟩
      · rw [List.forall_mem_cons]
        exact ⟨hfirst, hbefore⟩
      · simp only [modifyFirst, if_neg hfirst, hmodify, bind_pure_comp, Functor.map_map]
        rfl

theorem modifyUnitM_eq {m : Type → Type} [Monad m] [LawfulMonad m] (f : View → m View)
    (h : job.unit? xref = some view) :
    ∃ update : View → Job, job.modifyUnitM xref f = update <$> f view ∧
      ∀ view', job.Replaces (update view') view view' ∧ (update view').kind = job.kind ∧
        (update view').ids = job.ids := by
  have hxref : view.xref = xref := by simpa using List.find?_some h
  by_cases hroot : job.root.xref = xref
  · obtain rfl : job.root = view := by simpa [unit?, units, List.find?_cons, hroot] using h
    refine ⟨fun root => { job with root }, ?_, ?_⟩
    · simp only [modifyUnitM, if_pos hroot, bind_pure_comp]
    · intro root
      exact ⟨⟨[], job.views, rfl, rfl, by simp⟩, rfl, rfl⟩
  · have hviews : job.views.find? (fun view => view.xref = xref) = some view := by
      simpa [unit?, units, List.find?_cons, hroot] using h
    obtain ⟨before, after, heq, hbefore, hmodify⟩ := modifyFirst_eq f hviews
    refine ⟨fun view' => { job with views := before ++ view' :: after }, ?_, ?_⟩
    · simp only [modifyUnitM, if_neg hroot, hmodify, bind_pure_comp, Functor.map_map]
    · intro view'
      refine ⟨⟨job.root :: before, after, by rw [units, heq]; rfl, rfl, ?_⟩, rfl, rfl⟩
      rw [hxref, List.forall_mem_cons]
      exact ⟨hroot, hbefore⟩

theorem modifyUnit_replaces (f : View → View) (h : job.unit? xref = some view) :
    job.Replaces (job.modifyUnit xref f) view (f view) ∧
      (job.modifyUnit xref f).kind = job.kind ∧ (job.modifyUnit xref f).ids = job.ids := by
  obtain ⟨update, hmodify, hupdate⟩ := modifyUnitM_eq (m := Id) (fun view => pure (f view)) h
  have heq : job.modifyUnit xref f = update (f view) := by
    rw [modifyUnit, hmodify]
    rfl
  rw [heq]
  exact hupdate (f view)

namespace Replaces

variable {view view' : View}

theorem unit?_self (h : job.Replaces job' view view') (hxref : view'.xref = view.xref) :
    job'.unit? view.xref = some view' := by
  obtain ⟨before, after, -, hunits', hbefore⟩ := h
  have hnone : before.find? (fun other => other.xref = view.xref) = none := by
    simpa using hbefore
  rw [unit?, hunits', List.find?_append, hnone, Option.none_or, List.find?_cons]
  simp [hxref]

theorem unit?_of_ne (h : job.Replaces job' view view') (hxref : view'.xref = view.xref)
    (hne : xref ≠ view.xref) : job'.unit? xref = job.unit? xref := by
  obtain ⟨before, after, hunits, hunits', -⟩ := h
  have hview : decide (view.xref = xref) = false := by simpa using hne.symm
  rw [unit?, unit?, hunits, hunits', List.find?_append, List.find?_append, List.find?_cons,
    List.find?_cons, hxref, hview]

theorem rooted (h : job.Replaces job' view view') (hrooted : job.Rooted)
    (hkept : ∀ block ∈ view.blocks, block ∈ view'.blocks)
    (hnew : ∀ block ∈ view'.blocks, block ∈ view.blocks ∨ block.rootBlock ∈ job.blocks) :
    (∀ block ∈ job.blocks, block ∈ job'.blocks) ∧ job'.Rooted := by
  obtain ⟨before, after, hunits, hunits', -⟩ := h
  have hblocks : job.blocks = before.flatMap View.blocks ++ (view.blocks ++
      after.flatMap View.blocks) := by
    rw [Job.blocks, hunits, List.flatMap_append, List.flatMap_cons]
  have hblocks' : job'.blocks = before.flatMap View.blocks ++ (view'.blocks ++
      after.flatMap View.blocks) := by
    rw [Job.blocks, hunits', List.flatMap_append, List.flatMap_cons]
  have hsub : ∀ block ∈ job.blocks, block ∈ job'.blocks := by
    intro block hblock
    rw [hblocks, List.mem_append, List.mem_append] at hblock
    rw [hblocks', List.mem_append, List.mem_append]
    exact hblock.imp_right fun hblock => hblock.imp_left (hkept block)
  refine ⟨hsub, ?_⟩
  intro block hblock
  rw [hblocks', List.mem_append, List.mem_append] at hblock
  have hold : block ∈ job.blocks ∨ block.rootBlock ∈ job.blocks := by
    rw [hblocks, List.mem_append, List.mem_append]
    rcases hblock with hblock | hblock | hblock
    · exact .inl (.inl hblock)
    · rcases hnew block hblock with hold | hroot
      · exact .inl (.inr (.inl hold))
      · rw [hblocks] at hroot
        exact .inr hroot
    · exact .inl (.inr (.inr hblock))
  rcases hold with hold | hroot
  · exact hsub _ (hrooted block hold)
  · exact hsub _ hroot

theorem turns (h : job.Replaces job' view view') (hkind : job'.kind = job.kind) (hsound : job.Sound)
    (hgrows : Grows job.ids.nextXref job'.ids.nextXref view.xrefs view'.xrefs)
    (hreshapes : view.outline.Reshapes id view'.outline) (hview' : view'.Sound)
    (hrooted : job'.Rooted) : job.Turns id job' := by
  obtain ⟨before, after, hunits, hunits', -⟩ := h
  refine ⟨hkind, ?_, ?_, ?_, hrooted⟩
  · have hframe := ((Grows.refl _ (before.flatMap View.xrefs)).append hgrows).append
      (Grows.refl _ (after.flatMap View.xrefs))
    simpa [Job.xrefs, hunits, hunits'] using hframe
  · have hsame : ∀ views : List View,
        List.Forall₂ (fun view view' => view.outline.Reshapes id view'.outline) views views :=
      fun views => List.forall₂_same.2 fun view _ => view.outline.reshapes_refl
    rw [hunits, hunits']
    exact List.rel_append (hsame before) (.cons hreshapes (hsame after))
  · intro other hother
    rw [hunits'] at hother
    rw [Sound, hunits] at hsound
    rcases List.mem_append.1 hother with hother | hother
    · exact hsound other (List.mem_append_left _ hother)
    · rcases List.mem_cons.1 hother with rfl | hother
      · exact hview'
      · exact hsound other (List.mem_append_right _ (List.mem_cons_of_mem _ hother))

end Replaces

end Job

/-! ## Create operations visited one by one -/

section Create

variable {m : Type → Type} [Monad m] [LawfulMonad m] {σ ε : Type} [Stateful m σ ε] {s t : σ}
variable {view view' : View}

theorem View.Sound.total_mapM {next : σ → Nat} {f : CreateOp → m CreateOp} (hview : view.Sound)
    (hf : ∀ op, op.Sound → ∀ s, ∃ op' t, Yields (f op) s op' t ∧
      op.Alike op' ∧ Grows (next s) (next t) op.xrefs op'.xrefs) (s : σ) :
    ∃ create t ops, Yields (view.create.mapM f) s create t ∧ create.Lists ops ∧
      List.Forall₂ CreateOp.Alike view.create.toList ops ∧
      Grows (next s) (next t) (view.create.toList.flatMap CreateOp.xrefs)
        (ops.flatMap CreateOp.xrefs) := by
  obtain ⟨create, t, ops, hyields, hlists, hthreads⟩ :=
    hview.create.lists.total_mapM (fun op hop => hf op (hview.createOps op hop)) s
  exact ⟨create, t, ops, hyields, hlists, hthreads.forall₂ fun _ _ _ _ _ h => h.1,
    hthreads.grows fun _ _ _ _ _ h => h.2⟩

theorem View.grows_of_create {n n' : Nat} (hxref : view'.xref = view.xref)
    (hcreate : Grows n n' (view.create.toList.flatMap CreateOp.xrefs)
      (view'.create.toList.flatMap CreateOp.xrefs))
    (hupdate : view'.update = view.update) : Grows n n' view.xrefs view'.xrefs := by
  have hframe := ((Grows.refl n [view.xref]).append hcreate).append
    (Grows.refl n' (view.update.toList.flatMap UpdateOp.xrefs))
  simpa [View.xrefs, hxref, hupdate] using hframe

end Create

/-! ## Create operations changed one by one -/

section Map

variable {f : CreateOp → CreateOp}

theorem View.Sound.mapCreate (hview : view.Sound)
    (hf : ∀ op, op.Sound → op.Alike (f op) ∧ (f op).xrefs = op.xrefs) (n : Nat) :
    view.Retains n n { view with create := view.create.map f } := by
  have hlists := hview.create.lists.map f
  have hops : List.Forall₂ (fun op op' : CreateOp => op.Alike op' ∧ op'.xrefs = op.xrefs)
      view.create.toList (view.create.toList.map f) := by
    rw [List.forall₂_map_right_iff, List.forall₂_same]
    intro op hop
    exact hf op (hview.createOps op hop)
  have hrewritten : view.Rewritten { view with create := view.create.map f } []
      (view.create.toList.map f) [] :=
    ⟨rfl, rfl, by simpa using hlists, hops.imp fun _ _ h => h.1, by simp, by simp⟩
  refine ⟨View.grows_of_create rfl ?_ rfl, hrewritten.outline_eq rfl,
    hrewritten.sound hview hview.update⟩
  rw [hlists.toList, flatMap_eq_of_forall₂ hops fun _ _ h => h.2]
  exact Grows.refl _ _

theorem Job.turns_mapCreate {job : Job} (hsound : job.Sound)
    (hrooted : job.Rooted) (hf : ∀ op, op.Sound → op.Alike (f op) ∧ (f op).xrefs = op.xrefs) :
    job.Turns id (Id.run (job.mapUnitsM fun view =>
      pure { view with create := view.create.map f })) :=
  turns_map hrooted fun view hview => ((hsound view hview).mapCreate hf job.ids.nextXref).turns

end Map

end TemplateLowering
