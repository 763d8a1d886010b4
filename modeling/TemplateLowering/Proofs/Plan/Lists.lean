import TemplateLowering.Proofs.Job.Origin
import TemplateLowering.Proofs.Plan.Edits
import TemplateLowering.Proofs.Plan.Host
import TemplateLowering.Proofs.Plan.Invariants

/-!
# The lists of a job

The lists of a job are those of its views and those inside its operations, the handlers and the
bodies of track functions.  A phase keeps the numbers of all lists, except that the choice of track
functions draws numbers for the bodies that it makes, and no phase empties a handler or a body.  So
after every plan the lists pass their own check, and no two of them have the same number.
-/

namespace TemplateLowering

variable {op op' : CreateOp} {root xref : Xref}

/-! ## Lists of operations and views -/

def CreateOp.Filled (op : CreateOp) : Prop :=
  ∀ ops ∈ op.lists, ops.toList ≠ []

def View.Filled (view : View) : Prop :=
  ∀ op ∈ view.create.toList, op.Filled

/-- The operation has the lists of another one, perhaps with other operations in them. -/
structure CreateOp.KeepsLists (op op' : CreateOp) : Prop where
  numbers : op'.listNumbers = op.listNumbers
  filled : op.Filled → op'.Filled

theorem CreateOp.keepsLists_of_lists_eq (h : op'.lists = op.lists) : op.KeepsLists op' :=
  ⟨by rw [listNumbers, listNumbers, h], fun hop => by rwa [Filled, h]⟩

structure View.KeepsLists (view view' : View) : Prop where
  numbers : view'.listNumbers = view.listNumbers
  filled : view.Filled → view'.Filled

section View

variable {phase : Phase} {view view' : View} {s t : Ids}

theorem View.listNumbers_eq (h : view.SameFrame view')
    (hops : view'.create.toList.flatMap CreateOp.listNumbers =
      view.create.toList.flatMap CreateOp.listNumbers) : view'.listNumbers = view.listNumbers := by
  rw [View.listNumbers, View.listNumbers, h.createId, h.updateId, hops]

/-! ## Phases that leave the lists alone -/

theorem Restoring.ne_nil {ops ops' : List UpdateOp} (h : Restoring ops ops') (hops : ops ≠ []) :
    ops' ≠ [] := by
  cases h with
  | keep => exact hops
  | restore => exact List.cons_ne_nil _ _

theorem Phase.Alters.keepsLists (h : phase.Alters op op') (htrack : phase ≠ .optimizeTrackFns) :
    op.KeepsLists op' := by
  have hhandler {op op' : Listener} (hid : op'.handler.id = op.handler.id)
      (hops : op.handler.toList ≠ [] → op'.handler.toList ≠ []) :
      (CreateOp.listener op).KeepsLists (.listener op') :=
    ⟨by simp [CreateOp.listNumbers, CreateOp.lists, hid], by
      simpa [CreateOp.Filled, CreateOp.lists] using hops⟩
  cases h with
  | restore hrestored => exact hhandler hrestored.id hrestored.ops.ne_nil
  | event hresolved => exact hhandler hresolved.id (by simp [hresolved.ops])
  | trackFn => exact absurd rfl htrack
  | mark => cases op <;> exact CreateOp.keepsLists_of_lists_eq rfl
  | _ => exact CreateOp.keepsLists_of_lists_eq rfl

theorem Phase.Inserts.lists_eq_nil (h : phase.Inserts op) : op.lists = [] := by
  cases h.inserted <;> rfl

theorem Phase.Edits.keepsLists {view view' : View}
    (h : phase.Edits view.create.toList view'.create.toList) (hframe : view.SameFrame view')
    (htrack : phase ≠ .optimizeTrackFns) : view.KeepsLists view' := by
  constructor
  · exact View.listNumbers_eq hframe (h.flatMap_eq (fun _ _ hop => (hop.keepsLists htrack).numbers)
      fun _ hop => CreateOp.listNumbers_eq_nil hop.lists_eq_nil)
  · intro hfilled op' hop'
    rcases h.origin hop' with hinserts | ⟨op, hop, halters⟩
    · simp [CreateOp.Filled, hinserts.lists_eq_nil]
    · exact (halters.keepsLists htrack).filled (hfilled op hop)

theorem View.Sound.keepsLists_narrowed {kind : JobKind} (hview : view.Sound)
    (h : view.narrowBindings kind = .ok view') : view.KeepsLists view' := by
  obtain ⟨update, create, rfl, hcreateId, -, hupdateId, hcreate⟩ := hview.lists_of_narrowBindings h
  have hedits := hcreate ▸ edits_markedFirst _ view.create.toList
  exact hedits.keepsLists ⟨rfl, rfl, rfl, rfl, hcreateId, hupdateId⟩ (by simp)

/-! ## Track functions -/

theorem RepeaterCreate.relists_chooseTrackFn {op op' : RepeaterCreate}
    (h : Yields (op.chooseTrackFn root xref) s op' t) :
    Grows s.nextList t.nextList (CreateOp.repeaterCreate op).listNumbers
        (CreateOp.repeaterCreate op').listNumbers ∧
      ((CreateOp.repeaterCreate op).Filled → (CreateOp.repeaterCreate op').Filled) := by
  have hkeep : ∀ op' : RepeaterCreate, op'.trackByOps = op.trackByOps →
      Grows s.nextList s.nextList (CreateOp.repeaterCreate op).listNumbers
          (CreateOp.repeaterCreate op').listNumbers ∧
        ((CreateOp.repeaterCreate op).Filled → (CreateOp.repeaterCreate op').Filled) := by
    intro op' heq
    have hkeeps : (CreateOp.repeaterCreate op).KeepsLists (.repeaterCreate op') :=
      CreateOp.keepsLists_of_lists_eq (congrArg Option.toList heq)
    rw [hkeeps.numbers]
    exact ⟨Grows.refl _ _, hkeeps.filled⟩
  unfold chooseTrackFn at h
  split at h
  · obtain ⟨rfl, rfl⟩ := yields_pure.1 h
    exact hkeep _ rfl
  · split at h
    · simp only [yields_ite, yields_pure] at h
      rcases h with ⟨-, rfl, rfl⟩ | ⟨-, rfl, rfl⟩ <;> exact hkeep _ rfl
    · simp only [yields_bind, yields_lift, yields_freshList_pass, yields_pure] at h
      obtain ⟨visited, _, ⟨-, rfl⟩, _, _, ⟨rfl, rfl⟩, rfl, rfl⟩ := h
      have hbody := OpList.lists_ofList ⟨s.nextList⟩
        [UpdateOp.statement (.return_ visited.1 none)]
      constructor
      · refine (Grows.fresh s.nextList).subperm (by simp) ?_
        intro x
        simp [CreateOp.listNumbers, CreateOp.lists, OpList.id_ofList, ListId.number]
      · intro _
        simp [CreateOp.Filled, CreateOp.lists, hbody.toList]

theorem CreateOp.relists_chooseTrackFn (h : Yields (op.chooseTrackFn root xref) s op' t) :
    Grows s.nextList t.nextList op.listNumbers op'.listNumbers ∧ (op.Filled → op'.Filled) := by
  cases op with
  | repeaterCreate op =>
    obtain ⟨op', hop', rfl⟩ := yields_map.1 h
    exact RepeaterCreate.relists_chooseTrackFn hop'
  | _ =>
    obtain ⟨rfl, rfl⟩ := yields_pure.1 h
    exact ⟨Grows.refl _ _, id⟩

theorem View.Sound.relists_chooseTrackFns (hview : view.Sound) (h : Yields (do
      let create ← view.create.mapM (CreateOp.chooseTrackFn root view.xref)
      return { view with create } : StateT Ids (Except Fault) View) s view' t) :
    Grows s.nextList t.nextList view.listNumbers view'.listNumbers ∧
      (view.Filled → view'.Filled) := by
  simp only [yields_bind, yields_pure] at h
  obtain ⟨create, _, hcreate, rfl, rfl⟩ := h
  have hid := hview.create.id_of_mapM hcreate
  obtain ⟨ops, hthreads, hlists⟩ := hview.create.lists.yields_mapM hcreate
  constructor
  · have hgrows := hthreads.grows fun _ _ _ _ _ hop =>
      (CreateOp.relists_chooseTrackFn hop).1
    have hframe := (Grows.refl s.nextList [view.create.id.number, view.update.id.number]).append
      hgrows
    simpa [View.listNumbers, hid, hlists.toList] using hframe
  · intro hfilled op' hop'
    have hops : List.Forall₂ (fun op op' : CreateOp => op.Filled → op'.Filled) view.create.toList
        ops := hthreads.forall₂ fun _ _ _ _ _ hop => (CreateOp.relists_chooseTrackFn hop).2
    rw [hlists.toList] at hop'
    obtain ⟨op, hop, hkeeps⟩ := exists_left_of_mem hops hop'
    exact hkeeps (hfilled op hop)

end View

/-! ## The supply of list numbers -/

section Supply

variable {m : Type → Type} [Monad m] [LawfulMonad m] {σ ε κ α : Type} [Stateful m σ ε]
  {look : σ → κ}

theorem OpList.keeps_mapM {f : α → m α} (hf : ∀ op, Keeps look (f op)) (l : OpList α) :
    Keeps look (l.mapM f) := by
  refine keeps_foldlM (fun l i => ?_) _ l
  unfold OpList.modifyOpM
  split
  · exact (hf _).bind fun _ => keeps_pure _
  · exact keeps_pure _

theorem keeps_freshXref : Keeps Ids.nextList (Ids.freshXref : StateT Ids (Except Fault) Xref) := by
  intro s x t h
  rw [← (yields_freshXref_pass.1 h).2]

theorem keeps_lift (x : Except Fault α) :
    Keeps Ids.nextList (liftM x : StateT Ids (Except Fault) α) := by
  intro s a t h
  rw [(yields_lift.1 h).2]

theorem keeps_restoreListener (view : Xref) (embedded : Bool) (names : List String)
    (op : CreateOp) : Keeps Ids.nextList (restoreListener view embedded names op) := by
  cases op with
  | listener op =>
    rw [restoreListener]
    split
    · exact keeps_freshXref.bind fun _ => (keeps_lift _).bind fun _ => keeps_pure _
    · exact keeps_pure _
  | _ => exact keeps_pure _

theorem View.keeps_saveAndRestore (embedded : Bool) (names : List String) (view : View) :
    Keeps Ids.nextList (view.saveAndRestore embedded names) :=
  keeps_freshXref.bind fun _ => (OpList.keeps_mapM (keeps_restoreListener _ _ _) _).bind fun _ =>
    (keeps_lift _).bind fun _ => keeps_pure _

theorem View.keeps_wrapIcus (view : View) : Keeps Ids.nextList view.wrapIcus :=
  (keeps_mapM (fun _ => keeps_freshXref.bind fun _ => keeps_pure _) _).bind fun _ =>
    (keeps_lift _).bind fun _ => keeps_pure _

/-! The passes that declare contexts have a state beside the supply. -/

section Context

variable {τ : Type}

def nextListOf (s : τ × Ids) : Nat :=
  s.2.nextList

theorem keeps_lift_context (x : Except Fault α) : Keeps nextListOf (liftM x : ContextPass τ α) := by
  intro s a t h
  rw [(yields_lift_context.1 h).2]

theorem keeps_freshXref_context : Keeps nextListOf (Ids.freshXref : ContextPass τ Xref) := by
  rintro ⟨a, s⟩ x ⟨b, t⟩ h
  rw [nextListOf, nextListOf, ← (yields_freshXref_context.1 h).2.2]

theorem keeps_get_context : Keeps nextListOf (getThe τ : ContextPass τ τ) := by
  intro s a t h
  rw [← (Prod.mk.inj (Except.ok.inj h)).2]

theorem keeps_set_context (a : τ) : Keeps nextListOf (set a : ContextPass τ PUnit) := by
  intro s u t h
  rw [← (Prod.mk.inj (Except.ok.inj h)).2]
  rfl

theorem keeps_modify_context (f : τ → τ) :
    Keeps nextListOf (modifyThe τ f : ContextPass τ PUnit) := by
  intro s u t h
  rw [← (Prod.mk.inj (Except.ok.inj h)).2]
  rfl

end Context

theorem keeps_declareAttributeContexts (messages : List I18n.Message) :
    Keeps nextListOf (declareAttributeContexts messages) := by
  induction messages with
  | nil => exact keeps_pure _
  | cons message messages ih =>
    refine keeps_get_context.bind fun known => ?_
    split
    · exact ih
    · exact keeps_freshXref_context.bind fun _ => (keeps_set_context _).bind fun _ =>
        ih.bind fun _ => keeps_pure _

theorem View.keeps_createAttributeContexts (view : View) :
    Keeps nextListOf view.createAttributeContexts :=
  (keeps_declareAttributeContexts _).bind fun _ => keeps_get_context.bind fun _ => keeps_pure _

theorem keeps_declareRootContexts (blocks : List I18nStart) :
    Keeps nextListOf (declareRootContexts blocks) := by
  induction blocks with
  | nil => exact keeps_pure _
  | cons block blocks ih =>
    exact keeps_freshXref_context.bind fun _ => (keeps_modify_context _).bind fun _ =>
      ih.bind fun _ => keeps_pure _

theorem View.keeps_createRootContexts (view : View) : Keeps nextListOf view.createRootContexts :=
  (keeps_declareRootContexts _).bind fun _ => keeps_get_context.bind fun _ => keeps_pure _

theorem keeps_assignChildContext (op : CreateOp) : Keeps nextListOf (assignChildContext op) := by
  cases op with
  | i18nStart op =>
    rw [assignChildContext]
    split
    · exact keeps_pure _
    · refine keeps_get_context.bind fun known => ?_
      split
      · exact fun _ _ _ h => (not_yields_throw_context h).elim
      · exact (keeps_set_context _).bind fun _ => keeps_pure _
  | _ => exact keeps_pure _

theorem View.keeps_assignChildContexts (view : View) : Keeps nextListOf view.assignChildContexts :=
  (OpList.keeps_mapM keeps_assignChildContext _).bind fun _ => keeps_pure _

theorem PlacedIcu.keeps_context (blocks : BlockContexts) (placed : PlacedIcu) :
    Keeps nextListOf (placed.context blocks : ContextPass (List Xref) _) := by
  unfold PlacedIcu.context
  split
  · exact keeps_pure _
  · exact keeps_freshXref_context.bind fun _ => keeps_pure _

theorem View.keeps_createIcuContexts (blocks : BlockContexts) (view : View) :
    Keeps nextListOf (view.createIcuContexts blocks) :=
  (keeps_lift_context _).bind fun placed =>
    (keeps_mapM (PlacedIcu.keeps_context blocks) placed).bind fun _ =>
      (keeps_modify_context _).bind fun _ => keeps_pure _

end Supply

/-! ## Jobs -/

def Job.listNumbers (job : Job) : List Xref :=
  job.units.flatMap View.listNumbers

/-- The lists inside operations are not empty, and all lists have numbers of their own. -/
structure Job.Listed (job : Job) : Prop where
  numbers : Distinct job.ids.nextList job.listNumbers
  filled : ∀ view ∈ job.units, view.Filled

section Job

variable {start job job' : Job} {scheduled : List Phase} {phase : Phase}

theorem Job.Listed.of_views (h : job.Listed)
    (hviews : List.Forall₂ View.KeepsLists job.units job'.units)
    (hnext : job'.ids.nextList = job.ids.nextList) : job'.Listed := by
  constructor
  · rw [hnext, listNumbers, flatMap_eq_of_forall₂ hviews fun _ _ hview => hview.numbers]
    exact h.numbers
  · intro view' hview'
    obtain ⟨view, hview, hkeeps⟩ := exists_left_of_mem hviews hview'
    exact hkeeps.filled (h.filled view hview)

theorem Job.Listed.optimizeTrackFns (h : job.Listed) (hsound : job.Sound)
    (hrun : job.optimizeTrackFns = .ok job') : job'.Listed := by
  have hthreads := (threads_of_mapUnitsFresh hrun).1
  constructor
  · exact (hthreads.grows fun _ view _ _ hview hyields =>
      ((hsound view hview).relists_chooseTrackFns hyields).1).distinct h.numbers
  · intro view' hview'
    have hviews : List.Forall₂ (fun view view' : View => view.Filled → view'.Filled) job.units
        job'.units := hthreads.forall₂ fun _ view _ _ hview hyields =>
      ((hsound view hview).relists_chooseTrackFns hyields).2
    obtain ⟨view, hview, hkeeps⟩ := exists_left_of_mem hviews hview'
    exact hkeeps (h.filled view hview)

theorem Job.Listed.specializeBindings (h : job.Listed) (hsound : job.Sound)
    (hrun : job.specializeBindings = .ok job') : job'.Listed := by
  obtain ⟨hthreads, -, hids⟩ := yields_mapUnitsM (s := ()) (t := ()) (yields_except.2 hrun)
  refine h.of_views (hthreads.forall₂ ?_) (by rw [hids])
  intro _ view view' _ hview hyields
  exact (hsound view hview).keepsLists_narrowed (yields_except.1 hyields)

theorem Job.nextList_of_runContextPass {σ : Type} {init final : σ} {f : View → ContextPass σ View}
    (hrun : job.runContextPass init f = .ok (job', final))
    (hf : ∀ view, Keeps nextListOf (f view)) :
    job'.ids.nextList = job.ids.nextList := by
  have hkept := (threads_of_runContextPass hrun).keeps fun s view view' t hyields =>
    hf view s view' t hyields
  exact hkept

theorem Job.ContextSteps.nextList_eq {job₁ job₂ job₃ job₄ : Job} {roots blocks : BlockContexts}
    {shared : List Xref} (h : job.ContextSteps job₁ job₂ job₃ job₄ roots blocks shared) :
    job₄.ids.nextList = job.ids.nextList := by
  obtain ⟨known, hattributes⟩ := runContextPass_of_createAttributeContexts h.ofAttributes.1
  rw [nextList_of_runContextPass h.ofIcus.1 (View.keeps_createIcuContexts blocks),
    nextList_of_runContextPass h.ofBlocks.1 View.keeps_assignChildContexts,
    nextList_of_runContextPass h.ofRoots.1 View.keeps_createRootContexts,
    nextList_of_runContextPass hattributes View.keeps_createAttributeContexts]

theorem Job.ids_of_specializeStyleBindings (h : job.specializeStyleBindings = .ok job') :
    job'.ids = job.ids :=
  (yields_mapUnitsM (s := ()) (t := ()) (yields_except.2 h)).2.2

theorem Job.ids_of_specializeBindings (h : job.specializeBindings = .ok job') :
    job'.ids = job.ids :=
  (yields_mapUnitsM (s := ()) (t := ()) (yields_except.2 h)).2.2

theorem Job.ids_of_mergeNextContextExpressions (h : job.mergeNextContextExpressions = .ok job') :
    job'.ids = job.ids :=
  (yields_mapUnitsM (s := ()) (t := ()) (yields_except.2 h)).2.2

theorem Reached.nextList_eq (h : Reached start scheduled job) (henabled : phase.Enabled scheduled)
    (hrun : phase.run job = .ok job') (htrack : phase ≠ .optimizeTrackFns) :
    job'.ids.nextList = job.ids.nextList := by
  have hfresh : ∀ {f : View → StateT Ids (Except Fault) View}, job.mapUnitsFresh f = .ok job' →
      (∀ view, Keeps Ids.nextList (f view)) → job'.ids.nextList = job.ids.nextList :=
    fun hok hf => (Job.threads_of_mapUnitsFresh hok).1.keeps fun s view view' t hyields =>
      hf view s view' t hyields
  cases phase with
  | specializeStyleBindings => rw [Job.ids_of_specializeStyleBindings hrun]
  | specializeBindings => rw [Job.ids_of_specializeBindings hrun]
  | propagateI18nBlocks =>
    obtain ⟨other, hok, -, -, hlists⟩ := Job.propagateI18nBlocks_turns h.intact.sound
      h.intact.rooted fun view hview xref => h.intact.tree.declared_lt hview
    obtain rfl := Except.ok.inj (hok.symm.trans hrun)
    exact hlists
  | wrapI18nIcus => exact hfresh hrun View.keeps_wrapIcus
  | createI18nContexts =>
    have hcovered := h.achieved .wrapI18nIcus (henabled _ (by simp [Phase.prerequisites]))
    obtain ⟨job₁, job₂, job₃, job₄, roots, blocks, shared, hsteps⟩ :=
      Job.exists_contextSteps h.intact.sound h.intact.rooted h.intact.balanced hcovered
    obtain rfl := Except.ok.inj (hsteps.eq_ok.symm.trans hrun)
    exact (congrArg Ids.nextList (job₄.ids_mapUnits _)).trans hsteps.nextList_eq
  | saveAndRestoreView => exact hfresh hrun fun view => view.keeps_saveAndRestore _ _
  | resolveDollarEvent =>
    obtain rfl := Except.ok.inj hrun
    exact congrArg Ids.nextList (job.ids_mapUnits _)
  | generateTrackVariables =>
    obtain rfl := Except.ok.inj hrun
    exact congrArg Ids.nextList (job.ids_mapUnits _)
  | optimizeTrackFns => exact absurd rfl htrack
  | mergeNextContextExpressions => rw [Job.ids_of_mergeNextContextExpressions hrun]
  | generateNgContainerOps =>
    obtain rfl := Except.ok.inj hrun
    exact congrArg Ids.nextList (job.ids_mapUnits _)

theorem Reached.listed (h : Reached start scheduled job) (henabled : phase.Enabled scheduled)
    (hrun : phase.run job = .ok job') (hlisted : job.Listed) : job'.Listed := by
  have hsound := h.intact.sound
  by_cases htrack : phase = .optimizeTrackFns
  · subst htrack
    exact hlisted.optimizeTrackFns hsound hrun
  · exact hlisted.of_views ((h.editedBy henabled hrun).imp fun _ _ hview =>
      hview.create.keepsLists hview.toSameFrame htrack) (h.nextList_eq henabled hrun htrack)

theorem Follows.listed (h : Follows start scheduled job) (hhost : phase.appliesTo .host = true)
    (hrun : phase.run job = .ok job') (hlisted : job.Listed) : job'.Listed := by
  cases phase with
  | specializeStyleBindings =>
    refine hlisted.of_views ((Job.specializeStyleBindings_views h.sound hrun).imp ?_)
      (by rw [Job.ids_of_specializeStyleBindings hrun])
    exact fun _ _ hview => hview.create.keepsLists hview.toSameFrame (by simp)
  | specializeBindings => exact hlisted.specializeBindings h.sound hrun
  | resolveDollarEvent =>
    obtain rfl := Except.ok.inj hrun
    refine hlisted.of_views (Job.forall₂_map fun view hview => ?_)
      (congrArg Ids.nextList (job.ids_mapUnits _))
    have hedited := (h.sound view hview).editedBy_map CreateOp.resolveEvent_alters
    exact hedited.create.keepsLists hedited.toSameFrame (by simp)
  | mergeNextContextExpressions =>
    refine hlisted.of_views ((Job.mergeNextContextExpressions_views h.sound hrun).imp ?_)
      (by rw [Job.ids_of_mergeNextContextExpressions hrun])
    exact fun _ _ hview => hview.create.keepsLists hview.toSameFrame (by simp)
  | _ => simp [Phase.appliesTo, Phase.kind, JobKind.appliesTo] at hhost

end Job

/-! ## Jobs as they are first built -/

section Start

variable {component : String} {template : List Template.Node} {host : HostBindings}
  {options : Options} {job : Job} {fragment : Fragment} {view : View}

theorem Job.RootOf.listNumbers_eq (h : RootOf fragment view) :
    view.listNumbers = [⟨0⟩, ⟨1⟩] ++ fragment.create.flatMap CreateOp.listNumbers := by
  rw [View.listNumbers, h.createId, h.updateId, h.create.toList]
  rfl

theorem Job.distinct_listNumbers (hroot : RootOf fragment job.root)
    (hviews : job.views = fragment.views)
    (hlists : Grows freeIds.nextList job.ids.nextList [] fragment.listNumbers) :
    Distinct job.ids.nextList job.listNumbers := by
  have hfirst : Distinct freeIds.nextList [⟨0⟩, ⟨1⟩] := distinct_iff.2 (by decide)
  have hall := (Grows.refl freeIds.nextList [⟨0⟩, ⟨1⟩]).append hlists
  rw [List.append_nil] at hall
  intro x
  rw [listNumbers, units, List.flatMap_cons, hroot.listNumbers_eq, hviews, List.append_assoc]
  exact hall.distinct hfirst x

theorem CreateOp.filled_of_isRaw (op : CreateOp) (h : op.isRaw = true) : op.Filled := by
  cases op <;> simp_all [isRaw, Filled, lists]

theorem Job.ofTemplate_listed (h : ofTemplate component template options = .ok job) :
    job.Listed := by
  obtain ⟨fragment, hraw, hroot, hviews⟩ := exists_raw h
  refine ⟨distinct_listNumbers hroot hviews hraw.lists, ?_⟩
  exact fun view hview op hop => op.filled_of_isRaw ((raw_of_ofTemplate h view hview).create op hop)

theorem Job.ofHostBindings_listed (h : ofHostBindings host options = .ok job) : job.Listed := by
  obtain ⟨fragment, hhost, hroot, hviews, -⟩ := exists_ofHost h
  refine ⟨distinct_listNumbers hroot (hviews.trans hhost.views.symm) ?_, ?_⟩
  · have hnumbers : fragment.listNumbers = fragment.create.flatMap CreateOp.listNumbers := by
      rw [Fragment.listNumbers, hhost.views, List.flatMap_nil, List.append_nil]
    rw [hnumbers]
    exact hhost.lists
  · rw [units, hviews, List.forall_mem_singleton]
    intro op hop
    rw [hroot.create.toList] at hop
    obtain ⟨listener, rfl, hacts⟩ := hhost.create op hop
    simpa [CreateOp.Filled, CreateOp.lists] using hacts.handler

end Start

/-! ## Plans -/

/-- A list that passes its own check and holds no mark of an end. -/
structure OpList.Tidy {α : Type} [ListOp α] (l : OpList α) : Prop where
  consistent : l.assertConsistent = .ok ()
  notEnd : ∀ op ∈ l.toList, ListOp.isListEnd op = false

theorem OpList.Linked.tidy {α : Type} [ListOp α] {l : OpList α} (h : l.Linked)
    (hops : ∀ op ∈ l.toList, ListOp.isListEnd op = false) : l.Tidy := by
  obtain ⟨indices, hchain⟩ := h
  exact ⟨hchain.assertConsistent_eq_ok, hops⟩

theorem SoundOps.tidy {ops : OpList UpdateOp} (h : SoundOps ops) : ops.Tidy :=
  h.linked.tidy fun op hop => (h.sound op hop).notEnd

def View.listIds (view : View) : List ListId :=
  view.create.id :: view.update.id ::
    view.create.toList.flatMap fun op => op.lists.map OpList.id

theorem Job.Listed.nodup_listIds {job : Job} (h : job.Listed) :
    (job.units.flatMap View.listIds).Nodup := by
  have hnumbers : job.listNumbers = (job.units.flatMap View.listIds).map ListId.number := by
    simp only [listNumbers, View.listIds, List.map_flatMap, List.map_cons, List.map_map]
    rfl
  have hnodup := (distinct_iff.1 h.numbers).1
  rw [hnumbers] at hnodup
  exact hnodup.of_map

namespace Plan

variable {component : String} {template : List Template.Node} {host : HostBindings}
  {options : Options} {plan : Plan} {job job' : Job}

theorem listed_of_run (h : Job.ofTemplate component template options = .ok job ∨
      Job.ofHostBindings host options = .ok job) (hrun : plan.run job = .ok job') :
    job'.Sound ∧ job'.Listed := by
  rcases h with h | h
  · refine ⟨(reached_of_run h hrun).intact.sound, ?_⟩
    exact induction_run h hrun (P := fun _ job => job.Listed) (Job.ofTemplate_listed h)
      fun _ _ _ _ hreached henabled _ => hreached.listed henabled
  · obtain ⟨hfollows, hlisted⟩ := induction_run_host h hrun (Job.ofHostBindings_listed h)
      fun _ _ _ _ hhost hfollows => hfollows.listed hhost
    exact ⟨hfollows.sound, hlisted⟩

/-- After a plan for a template or for host bindings every list of the job passes its own check and
holds no mark of an end, no handler and no body of a track function is empty, and no two lists have
the same number. -/
theorem lists_tidy_of_run (h : Job.ofTemplate component template options = .ok job ∨
      Job.ofHostBindings host options = .ok job) (hrun : plan.run job = .ok job') :
    (∀ view ∈ job'.units, view.create.Tidy ∧ view.update.Tidy ∧
      ∀ op ∈ view.create.toList, ∀ ops ∈ op.lists, ops.Tidy ∧ ops.toList ≠ []) ∧
    (job'.units.flatMap View.listIds).Nodup := by
  obtain ⟨hsound, hlisted⟩ := listed_of_run h hrun
  refine ⟨?_, hlisted.nodup_listIds⟩
  intro view hview
  have hcreate := (hsound view hview).createOps
  refine ⟨(hsound view hview).create.tidy fun op hop => (hcreate op hop).notEnd,
    (hsound view hview).update.tidy, ?_⟩
  intro op hop ops hops
  exact ⟨((hcreate op hop).lists ops hops).tidy, hlisted.filled view hview op hop ops hops⟩

theorem lists_tidy_of_run_gallery :
    ∃ job job', Job.ofTemplate "Gallery" gallery {} = .ok job ∧ standard.run job = .ok job' ∧
      (∀ view ∈ job'.units, view.create.Tidy ∧ view.update.Tidy ∧
        ∀ op ∈ view.create.toList, ∀ ops ∈ op.lists, ops.Tidy ∧ ops.toList ≠ []) ∧
      (job'.units.flatMap View.listIds).Nodup := by
  obtain ⟨job, job', hjob, hrun⟩ := gallery_runs
  have hstart : Job.ofTemplate "Gallery" gallery {} = .ok job ∨
      Job.ofHostBindings default {} = .ok job := .inl hjob
  exact ⟨job, job', hjob, hrun, lists_tidy_of_run hstart hrun⟩

end Plan

end TemplateLowering
