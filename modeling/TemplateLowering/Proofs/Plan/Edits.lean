import TemplateLowering.Proofs.Plan.Run

/-!
# Phases as edits

Every phase of a plan edits the views of the job one by one, and in no other way than `Alters`,
`Inserts`, `Narrows` and `Drops` say.  So what a plan keeps can be told from these, without another
look at the passes.
-/

namespace TemplateLowering

variable {create l : OpList CreateOp} {f : CreateOp → CreateOp} {contexts : List CreateOp}

section View

variable {phase : Phase} {view view' : View}

theorem OpList.Linked.edits_mapM {m : Type → Type} [Monad m] [LawfulMonad m] {σ ε : Type}
    [Stateful m σ ε] {f : CreateOp → m CreateOp} {l' : OpList CreateOp} {s t : σ} (hl : l.Linked)
    (hf : ∀ op op' s t, Yields (f op) s op' t → phase.Alters op op')
    (h : Yields (l.mapM f) s l' t) :
    l'.id = l.id ∧ phase.Edits l.toList l'.toList := by
  obtain ⟨ops, hthreads, hlists⟩ := hl.lists.yields_mapM h
  refine ⟨hl.id_of_mapM h, ?_⟩
  rw [hlists.toList]
  exact Phase.edits_of_forall₂ (hthreads.forall₂ fun _ _ _ _ _ hop => hf _ _ _ _ hop)

theorem OpList.Linked.edits_map (hl : l.Linked) (hf : ∀ op, phase.Alters op (f op)) :
    phase.Edits l.toList (l.map f).toList := by
  rw [(hl.lists.map f).toList]
  exact Phase.edits_map hf _

theorem View.editedBy_of_create
    (h : create.id = view.create.id ∧ phase.Edits view.create.toList create.toList) :
    view.EditedBy phase { view with create } :=
  ⟨View.sameFrame_of_create h.1, h.2, .refl phase _⟩

theorem View.Sound.editedBy_map (hview : view.Sound) (hf : ∀ op, phase.Alters op (f op)) :
    view.EditedBy phase { view with create := view.create.map f } :=
  View.editedBy_of_create ⟨hview.create.id_map f, hview.create.edits_map hf⟩

/-! ## Narrowed bindings -/

theorem edits_markedFirst (targets : List Xref) (ops : List CreateOp) :
    Phase.specializeBindings.Edits ops (markedFirst targets ops) := by
  refine Phase.edits_of_forall₂ ((forall₂_markedFirst targets ops).imp ?_)
  rintro op op' (rfl | rfl)
  · exact .keep trivial
  · exact .mark

def Phase.Makes (phase : Phase) (op : UpdateOp) : OpList.Change UpdateOp → Prop
  | .keep => True
  | .replace new => phase.Narrows op new
  | .drop => phase.Drops op

theorem Phase.Makes.reduces {op : UpdateOp} {change : OpList.Change UpdateOp}
    (h : phase.Makes op change) {ops ops' : List UpdateOp} (hrest : phase.Reduces ops ops') :
    phase.Reduces (op :: ops) (change.apply op ++ ops') := by
  cases change with
  | keep => exact .narrow .keep hrest
  | replace new => exact .narrow h hrest
  | drop => exact .drop h hrest

theorem Phase.reduces_of_threads {f : UpdateOp → Except Fault (OpList.Change UpdateOp)}
    (hf : ∀ op change, f op = .ok change → phase.Makes op change) {ops : List UpdateOp}
    {parts : List (List UpdateOp)} {s t : Unit}
    (h : Threads (fun s op part t => Yields (OpList.changed f op) s part t) s ops parts t) :
    phase.Reduces ops parts.flatten := by
  induction h with
  | nil => exact .nil
  | @cons _ _ _ op part _ parts hpart _ ih =>
    obtain ⟨change, hchange, rfl⟩ := yields_map.1 hpart
    exact (hf op change (yields_except.1 hchange)).reduces ih

theorem View.Sound.reduces_changeUpdate {f : UpdateOp → Except Fault (OpList.Change UpdateOp)}
    (hview : view.Sound) (hnew : ∀ op new, f op = .ok (.replace new) → ListOp.isListEnd new = false)
    (hf : ∀ op change, f op = .ok change → phase.Makes op change)
    (h : view.changeUpdate f = .ok view') :
    ∃ update, view' = { view with update } ∧ update.id = view.update.id ∧
      phase.Reduces view.update.toList update.toList := by
  obtain ⟨update, parts, rfl, hid, hparts, hlists⟩ :=
    View.lists_of_changeUpdate hview.update.linked (hview.update.keeps_ends f) hnew h
  have hyields : Yields (view.update.toList.mapM (OpList.changed f)) () parts () :=
    yields_except.2 hparts
  refine ⟨update, rfl, hid, ?_⟩
  rw [hlists.toList]
  exact Phase.reduces_of_threads hf (yields_mapM.1 hyields)

theorem narrowStyle_makes (op : UpdateOp) (change : OpList.Change UpdateOp)
    (h : narrowStyle op = .ok change) : Phase.specializeStyleBindings.Makes op change := by
  cases op with
  | binding op =>
    rcases narrowStyle_binding_eq_ok.1 h with ⟨-, rfl⟩ | ⟨new, hstyle, rfl⟩
    · trivial
    · exact .style hstyle
  | _ =>
    obtain rfl := Except.ok.inj h
    trivial

theorem narrow_makes (op : UpdateOp) (change : OpList.Change UpdateOp)
    (h : narrow .template op = .ok change) : Phase.specializeBindings.Makes op change := by
  cases op with
  | binding op =>
    rcases narrow_binding_eq_ok.1 h with ⟨hbindable, rfl⟩ | ⟨hbindable, new, hnarrowed, rfl⟩
    · exact hbindable
    · exact .rest hbindable hnarrowed
  | _ =>
    obtain rfl := Except.ok.inj h
    trivial

theorem View.Sound.lists_of_narrowBindings {kind : JobKind} (hview : view.Sound)
    (h : view.narrowBindings kind = .ok view') :
    ∃ update create, view' = { view with create, update } ∧ create.id = view.create.id ∧
      view.changeUpdate (narrow kind) = .ok { view with update } ∧
      update.id = view.update.id ∧
      create.toList = markedFirst (nonBindableTargets view.update) view.create.toList := by
  unfold View.narrowBindings at h
  cases hchange : view.changeUpdate (narrow kind) with
  | error e => simp [hchange, bind, Except.bind] at h
  | ok middle =>
    simp only [hchange, bind, Except.bind] at h
    obtain ⟨update, -, rfl, hid, -⟩ := View.lists_of_changeUpdate hview.update.linked
      (hview.update.keeps_ends _) (fun _ _ => narrow_replace) hchange
    obtain ⟨create, rfl, hcreateId, hcreate, -⟩ :=
      @View.marked_of_markNonBindable { view with update } _ _ hview.create h
    exact ⟨update, create, rfl, hcreateId, rfl, hid, hcreate.toList⟩

theorem View.Sound.editedBy_narrowed (hview : view.Sound)
    (h : view.narrowBindings .template = .ok view') : view.EditedBy .specializeBindings view' ∧
      view'.create.toList = markedFirst (nonBindableTargets view.update) view.create.toList := by
  obtain ⟨update, create, rfl, hcreateId, hchange, -, hcreate⟩ := hview.lists_of_narrowBindings h
  obtain ⟨_, hupdate, hid, hreduces⟩ :=
    hview.reduces_changeUpdate (fun _ _ => narrow_replace) narrow_makes hchange
  obtain rfl : update = _ := congrArg View.update hupdate
  exact ⟨⟨⟨rfl, rfl, rfl, rfl, hcreateId, hid⟩, hcreate ▸ edits_markedFirst _ _, hreduces⟩, hcreate⟩

/-! ## Contexts of messages -/

theorem inserts_declareAttributeContexts {messages : List I18n.Message}
    {s t : MessageContexts × Ids} (h : Yields (declareAttributeContexts messages) s contexts t) :
    ∀ op ∈ contexts, Phase.createI18nContexts.Inserts op := by
  obtain ⟨rfl, -⟩ := h.unique (yields_declareAttributeContexts messages s)
  intro op hop
  obtain ⟨entry, -, rfl⟩ := List.mem_map.1 hop
  rfl

theorem inserts_declareRootContexts {blocks : List I18nStart} {s t : BlockContexts × Ids}
    (h : Yields (declareRootContexts blocks) s contexts t) :
    ∀ op ∈ contexts, Phase.createI18nContexts.Inserts op := by
  induction blocks generalizing contexts s t with
  | nil =>
    obtain ⟨rfl, -⟩ := yields_pure.1 h
    simp
  | cons block blocks ih =>
    simp only [declareRootContexts, yields_bind, yields_pure] at h
    obtain ⟨xref, _, -, _, _, -, others, _, hothers, rfl, -⟩ := h
    rw [List.forall_mem_cons]
    exact ⟨rfl, ih hothers⟩

theorem PlacedIcu.inserts_context {blocks : BlockContexts} {placed : PlacedIcu}
    {context : Xref × Option CreateOp} {s t : List Xref × Ids}
    (h : Yields (placed.context blocks : ContextPass (List Xref) _) s context t) :
    ∀ op, context.2 = some op → Phase.createI18nContexts.Inserts op := by
  unfold PlacedIcu.context at h
  split at h
  · obtain ⟨rfl, -⟩ := yields_pure.1 h
    simp
  · simp only [yields_bind, yields_pure] at h
    obtain ⟨xref, _, -, rfl, -⟩ := h
    rintro op ⟨⟩
    rfl

theorem OpList.Linked.edits_declare (hl : l.Linked) (hf : ∀ op, phase.Alters op (f op))
    (hcontexts : ∀ op ∈ contexts, phase.Inserts op) :
    ((l.map f).appendAll contexts).id = l.id ∧
      phase.Edits l.toList ((l.map f).appendAll contexts).toList := by
  refine ⟨(OpList.id_appendAll _ contexts).trans (hl.id_map f), ?_⟩
  rw [((hl.lists.map f).appendAll contexts).toList]
  exact (Phase.edits_map hf _).appendAll hcontexts

theorem View.Sound.editedBy_attributeContexts (hview : view.Sound) {s t : MessageContexts × Ids}
    (h : Yields view.createAttributeContexts s view' t) :
    view.EditedBy .createI18nContexts view' := by
  simp only [View.createAttributeContexts, yields_bind, yields_pure] at h
  obtain ⟨contexts, _, hcontexts, known, _, -, rfl, -⟩ := h
  obtain ⟨hid, hedits⟩ := hview.create.edits_declare known.assignCreate_alters
    (inserts_declareAttributeContexts hcontexts)
  refine ⟨⟨rfl, rfl, rfl, rfl, hid, hview.update.linked.id_map _⟩, hedits, ?_⟩
  rw [(hview.update.linked.lists.map known.assignUpdate).toList]
  exact Phase.reduces_map (fun _ => .context known) _

/-- The change of a view once the attributes have their contexts: the operations that carry a label,
and the update operations, are the same. -/
structure View.Settles (view view' : View) : Prop where
  edited : view.EditedBy .createI18nContexts view'
  update : view'.update = view.update
  labels : view'.create.toList.filterMap CreateOp.label? =
    view.create.toList.filterMap CreateOp.label?

theorem View.Settles.trans {view'' : View} (h : view.Settles view') (h' : view'.Settles view'') :
    view.Settles view'' :=
  ⟨h.edited.trans h'.edited (.inr rfl) h'.update, h'.update.trans h.update,
    h'.labels.trans h.labels⟩

theorem View.settles_of_forall₂ {ops : List CreateOp} (hid : create.id = view.create.id)
    (hlists : create.toList = ops ++ contexts)
    (hops : List.Forall₂ CreateOp.Settles view.create.toList ops)
    (hcontexts : ∀ op ∈ contexts, Phase.createI18nContexts.Inserts op) :
    view.Settles { view with create } := by
  have hnone : contexts.filterMap CreateOp.label? = [] := by
    rw [List.filterMap_eq_nil_iff]
    intro op hop
    cases (hcontexts op hop).inserted <;> rfl
  refine ⟨View.editedBy_of_create ⟨hid, ?_⟩, rfl, ?_⟩
  · rw [hlists]
    exact (Phase.edits_of_forall₂ (hops.imp fun _ _ h => h.1)).appendAll hcontexts
  · rw [hlists, List.filterMap_append, hnone, List.append_nil, List.filterMap_eq_flatMap_toList,
      List.filterMap_eq_flatMap_toList]
    exact flatMap_eq_of_forall₂ hops fun _ _ h => congrArg Option.toList h.2

theorem View.Sound.settles_declare (hview : view.Sound) (hf : ∀ op : CreateOp, op.Settles (f op))
    (hcontexts : ∀ op ∈ contexts, Phase.createI18nContexts.Inserts op) :
    view.Settles { view with create := (view.create.map f).appendAll contexts } := by
  refine View.settles_of_forall₂ ((OpList.id_appendAll _ contexts).trans (hview.create.id_map f))
    ((hview.create.lists.map f).appendAll contexts).toList ?_ hcontexts
  rw [List.forall₂_map_right_iff, List.forall₂_same]
  exact fun op _ => hf op

theorem View.Sound.settles_rootContexts (hview : view.Sound) {s t : BlockContexts × Ids}
    (h : Yields view.createRootContexts s view' t) : view.Settles view' := by
  simp only [View.createRootContexts, yields_bind, yields_pure] at h
  obtain ⟨contexts, _, hcontexts, known, _, -, rfl, -⟩ := h
  exact hview.settles_declare known.assignRoot_settles (inserts_declareRootContexts hcontexts)

theorem View.Sound.settles_childContexts (hview : view.Sound) {s t : BlockContexts × Ids}
    (h : Yields view.assignChildContexts s view' t) : view.Settles view' := by
  simp only [View.assignChildContexts, yields_bind, yields_pure] at h
  obtain ⟨create, _, hcreate, rfl, -⟩ := h
  obtain ⟨ops, hthreads, hlists⟩ := hview.create.lists.yields_mapM hcreate
  have hops : create.toList = ops ++ [] := by rw [hlists.toList, List.append_nil]
  exact View.settles_of_forall₂ (hview.create.id_of_mapM hcreate) hops
    (hthreads.forall₂ fun _ _ _ _ _ => assignChildContext_settles) (by simp)

theorem View.Sound.settles_icuContexts (hview : view.Sound) {blocks : BlockContexts}
    {s t : List Xref × Ids} (h : Yields (view.createIcuContexts blocks) s view' t) :
    view.Settles view' := by
  simp only [View.createIcuContexts, yields_bind, yields_pure, yields_lift_context] at h
  obtain ⟨placed, _, -, contexts, _, hcontexts, _, _, -, rfl, -⟩ := h
  refine hview.settles_declare (assignIcuContext_settles _) ?_
  intro op hop
  obtain ⟨context, hcontext, hdeclared⟩ := List.mem_filterMap.1 hop
  obtain ⟨icu, -, s, t, hicu⟩ := (yields_mapM.1 hcontexts).exists_of_mem hcontext
  exact PlacedIcu.inserts_context hicu op hdeclared

theorem View.Sound.settles_convertContexts (hview : view.Sound) (shared : List Xref) :
    view.Settles (view.convertContexts shared) := by
  have hnone : ∀ op ∈ ([] : List CreateOp), Phase.createI18nContexts.Inserts op := by simp
  exact hview.settles_declare (convertToIcu_settles shared) hnone

/-! ## Listeners -/

theorem restoreListener_alters {xref : Xref} {embedded : Bool} {names : List String}
    {op op' : CreateOp} (hop : op.Sound) {s t : Ids}
    (h : Yields (restoreListener xref embedded names op) s op' t) :
    Phase.saveAndRestoreView.Alters op op' := by
  cases op with
  | listener op =>
    simp only [restoreListener, yields_ite, yields_bind, yields_lift, yields_pure] at h
    rcases h with ⟨-, context, _, -, handler, _, ⟨hrestore, -⟩, rfl, -⟩ | ⟨-, rfl, -⟩
    · obtain ⟨handler', hrestore', hlists, hid⟩ := restoreView_lists hop.handler.linked xref context
      obtain rfl := Except.ok.inj (hrestore.symm.trans hrestore')
      exact .restore ⟨hid, hlists.toList ▸ .restore rfl, rfl⟩
    · exact .keep trivial
  | _ =>
    obtain ⟨rfl, -⟩ := yields_pure.1 h
    exact .keep trivial

theorem View.Sound.editedBy_saveAndRestore (hview : view.Sound) {embedded : Bool}
    {names : List String} {s t : Ids} (h : Yields (view.saveAndRestore embedded names) s view' t) :
    view.EditedBy .saveAndRestoreView view' := by
  obtain ⟨saved, create, ops, u, rfl, hthreads, hlists, hid⟩ :=
    View.lists_of_saveAndRestore hview.create h
  have hops : Phase.saveAndRestoreView.Edits view.create.toList ops :=
    Phase.edits_of_forall₂ (hthreads.forall₂ fun _ op _ _ hop =>
      restoreListener_alters (hview.createOps op hop))
  refine View.editedBy_of_create ⟨hid, ?_⟩
  rw [hlists.toList]
  exact .insert ⟨_, rfl⟩ hops

theorem CreateOp.resolveEvent_alters (op : CreateOp) :
    Phase.resolveDollarEvent.Alters op op.resolveEvent := by
  cases op with
  | listener op =>
    obtain ⟨op', hop', hresolved⟩ := op.resolveEvent_eq
    rw [hop', hresolved.rest]
    exact .event (hresolved.rest ▸ hresolved)
  | _ => exact .keep trivial

/-! ## Track expressions -/

theorem CreateOp.resolveTrackReads_alters (op : CreateOp) :
    Phase.generateTrackVariables.Alters op op.resolveTrackReads := by
  cases op with
  | repeaterCreate op => exact .track rfl
  | _ => exact .keep trivial

theorem RepeaterCreate.chooseTrackFn_alters {root xref : Xref} {op op' : RepeaterCreate} {s t : Ids}
    (h : Yields (op.chooseTrackFn root xref) s op' t) :
    Phase.optimizeTrackFns.Alters (.repeaterCreate op) (.repeaterCreate op') := by
  unfold RepeaterCreate.chooseTrackFn at h
  split at h
  · obtain ⟨rfl, -⟩ := yields_pure.1 h
    exact .trackFn
  · split at h
    · simp only [yields_ite, yields_pure] at h
      rcases h with ⟨-, rfl, -⟩ | ⟨-, rfl, -⟩ <;> exact .trackFn
    · simp only [yields_bind, yields_pure] at h
      obtain ⟨_, _, -, _, _, -, rfl, -⟩ := h
      exact .trackFn

theorem CreateOp.chooseTrackFn_alters (root xref : Xref) (op op' : CreateOp) (s t : Ids)
    (h : Yields (op.chooseTrackFn root xref) s op' t) : Phase.optimizeTrackFns.Alters op op' := by
  cases op with
  | repeaterCreate op =>
    obtain ⟨op', hop', rfl⟩ := yields_map.1 h
    exact RepeaterCreate.chooseTrackFn_alters hop'
  | _ =>
    obtain ⟨rfl, -⟩ := yields_pure.1 h
    exact .keep trivial

/-! ## Containers -/

theorem toContainer_alters (op op' : CreateOp) (s t : List Xref)
    (h : Yields (toContainer op) s op' t) : Phase.generateNgContainerOps.Alters op op' := by
  have hrun : ((toContainer op).run s).run = (op', t) := yields_stateM.1 h
  cases op with
  | elementStart op =>
    by_cases htag : isNgContainer op.tag = true
    · simp [toContainer, htag] at hrun
      exact hrun.1 ▸ .containerStart htag
    · simp [toContainer, htag] at hrun
      exact hrun.1 ▸ .keep trivial
  | elementEnd op =>
    by_cases hmem : op.xref ∈ s
    · simp [toContainer, hmem] at hrun
      exact hrun.1 ▸ .containerEnd
    · simp [toContainer, hmem] at hrun
      exact hrun.1 ▸ .keep trivial
  | _ =>
    obtain ⟨rfl, -⟩ := yields_pure.1 h
    exact .keep trivial

theorem View.Sound.editedBy_generateContainers (hview : view.Sound) :
    view.EditedBy .generateNgContainerOps view.generateContainers := by
  have hyields : Yields (view.create.mapM toContainer) [] ((view.create.mapM toContainer).run []).1
      ((view.create.mapM toContainer).run []).2 := yields_stateM.2 rfl
  exact View.editedBy_of_create (hview.create.edits_mapM toContainer_alters hyields)

end View

/-! ## All phases -/

section Job

variable {phase : Phase} {job job' : Job}

theorem Job.forall₂_map {R : View → View → Prop} {f : View → View}
    (hf : ∀ view ∈ job.units, R view (f view)) :
    List.Forall₂ R job.units (Id.run (job.mapUnitsM fun view => pure (f view))).units := by
  rw [mapUnits_eq]
  change List.Forall₂ _ job.units (job.units.map f)
  rw [List.forall₂_map_right_iff, List.forall₂_same]
  exact hf

theorem Job.specializeStyleBindings_views (hsound : job.Sound)
    (h : job.specializeStyleBindings = .ok job') :
    List.Forall₂ (View.EditedBy .specializeStyleBindings) job.units job'.units := by
  obtain ⟨hthreads, -⟩ := yields_mapUnitsM (s := ()) (t := ()) (yields_except.2 h)
  refine hthreads.forall₂ ?_
  intro _ view view' _ hview hyields
  obtain ⟨update, rfl, hid, hupdate⟩ := (hsound view hview).reduces_changeUpdate
    (fun _ _ => narrowStyle_replace) narrowStyle_makes (yields_except.1 hyields)
  exact ⟨⟨rfl, rfl, rfl, rfl, rfl, hid⟩, .refl (fun _ => by trivial) _, hupdate⟩

theorem Job.specializeBindings_views (hsound : job.Sound)
    (hkind : job.kind = .template) (h : job.specializeBindings = .ok job') :
    List.Forall₂ (fun view view' : View => view.EditedBy .specializeBindings view' ∧
      view'.create.toList = markedFirst (nonBindableTargets view.update) view.create.toList)
      job.units job'.units := by
  obtain ⟨hthreads, -⟩ := yields_mapUnitsM (s := ()) (t := ()) (yields_except.2 h)
  refine hthreads.forall₂ ?_
  intro _ view view' _ hview hyields
  rw [hkind] at hyields
  exact (hsound view hview).editedBy_narrowed (yields_except.1 hyields)

theorem Job.mergeNextContextExpressions_views (hsound : job.Sound)
    (h : job.mergeNextContextExpressions = .ok job') :
    List.Forall₂ (View.EditedBy .mergeNextContextExpressions) job.units job'.units := by
  obtain ⟨hthreads, -⟩ := yields_mapUnitsM (s := ()) (t := ()) (yields_except.2 h)
  refine hthreads.forall₂ ?_
  intro _ view view' _ hview hyields
  have hview := hsound view hview
  simp only [yields_bind, yields_pure] at hyields
  obtain ⟨create, _, hcreate, update, _, hupdate, rfl, -⟩ := hyields
  have hupdate := yields_except.1 hupdate
  rw [hview.update.mergeNextContexts] at hupdate
  obtain rfl := Except.ok.inj hupdate
  obtain ⟨ops, hops, hlists⟩ := hview.create.lists.yields_mapM hcreate
  refine View.editedBy_of_create ⟨hview.create.id_of_mapM hcreate, ?_⟩
  rw [hlists.toList]
  refine Phase.edits_of_forall₂ (hops.forall₂ ?_)
  intro _ op op' _ hop hmerge
  have hmerge := yields_except.1 hmerge
  rw [(hview.createOps op hop).mergeNextContexts] at hmerge
  exact Except.ok.inj hmerge ▸ .keep trivial

theorem Job.runContextPass_of_createAttributeContexts (h : job.createAttributeContexts = .ok job') :
    ∃ known, job.runContextPass ([] : MessageContexts) View.createAttributeContexts =
      .ok (job', known) := by
  unfold createAttributeContexts at h
  cases hrun : job.runContextPass ([] : MessageContexts) View.createAttributeContexts with
  | error e => simp [hrun, bind, Except.bind] at h
  | ok result =>
    obtain ⟨other, known⟩ := result
    simp only [hrun, bind, Except.bind, pure, Except.pure, Except.ok.injEq] at h
    subst h
    exact ⟨known, rfl⟩

theorem Job.createAttributeContexts_views (hsound : job.Sound)
    (h : job.createAttributeContexts = .ok job') :
    List.Forall₂ (View.EditedBy .createI18nContexts) job.units job'.units := by
  obtain ⟨known, hrun⟩ := runContextPass_of_createAttributeContexts h
  exact (threads_of_runContextPass hrun).forall₂ fun _ view _ _ hview hyields =>
    (hsound view hview).editedBy_attributeContexts hyields

theorem Job.ContextSteps.settles {job₁ job₂ job₃ job₄ : Job} {roots blocks : BlockContexts}
    {shared : List Xref} (h : job.ContextSteps job₁ job₂ job₃ job₄ roots blocks shared) :
    List.Forall₂ View.Settles job₁.units
      (Id.run (job₄.mapUnitsM fun view => pure (view.convertContexts shared))).units := by
  have htrans : ∀ view view' view'' : View, view.Settles view' → view'.Settles view'' →
      view.Settles view'' := fun _ _ _ => View.Settles.trans
  have h₂ : List.Forall₂ View.Settles job₁.units job₂.units :=
    (threads_of_runContextPass h.ofRoots.1).forall₂ fun _ view _ _ hview =>
      (h.ofAttributes.2.sound view hview).settles_rootContexts
  have h₃ : List.Forall₂ View.Settles job₂.units job₃.units :=
    (threads_of_runContextPass h.ofBlocks.1).forall₂ fun _ view _ _ hview =>
      (h.ofRoots.2.sound view hview).settles_childContexts
  have h₄ : List.Forall₂ View.Settles job₃.units job₄.units :=
    (threads_of_runContextPass h.ofIcus.1).forall₂ fun _ view _ _ hview =>
      (h.ofBlocks.2.sound view hview).settles_icuContexts
  have h₅ := forall₂_map fun view hview =>
    (h.ofIcus.2.sound view hview).settles_convertContexts shared
  exact forall₂_comp (forall₂_comp (forall₂_comp h₂ h₃ htrans) h₄ htrans) h₅ htrans

theorem Job.createI18nContexts_views (hsound : job.Sound) (hrooted : job.Rooted)
    (hbalanced : job.Balanced) (hcovered : job.Covered) (h : job.createI18nContexts = .ok job') :
    List.Forall₂ (View.EditedBy .createI18nContexts) job.units job'.units := by
  obtain ⟨job₁, job₂, job₃, job₄, roots, blocks, shared, hsteps⟩ :=
    exists_contextSteps hsound hrooted hbalanced hcovered
  rw [hsteps.eq_ok] at h
  obtain rfl := Except.ok.inj h
  exact forall₂_comp (createAttributeContexts_views hsound hsteps.ofAttributes.1) hsteps.settles
    fun _ _ _ hview hview' => hview.trans hview'.edited (.inr rfl) hview'.update

theorem Reached.editedBy {start : Job} {scheduled : List Phase} (h : Reached start scheduled job)
    (henabled : phase.Enabled scheduled) (hrun : phase.run job = .ok job') :
    List.Forall₂ (View.EditedBy phase) job.units job'.units := by
  have hsound := h.intact.sound
  have hrooted := h.intact.rooted
  cases phase with
  | specializeStyleBindings => exact Job.specializeStyleBindings_views hsound hrun
  | specializeBindings =>
    exact (Job.specializeBindings_views hsound h.kind hrun).imp fun _ _ hview => hview.1
  | propagateI18nBlocks =>
    obtain ⟨other, hok, -, hviews, -⟩ := Job.propagateI18nBlocks_turns hsound hrooted
      fun view hview xref => h.intact.tree.declared_lt hview
    obtain rfl := Except.ok.inj (hok.symm.trans hrun)
    exact hviews.imp fun _ _ hview => hview.edited
  | wrapI18nIcus =>
    obtain ⟨other, hok, -, -, hviews⟩ :=
      Job.wrapI18nIcus_turns hsound hrooted h.intact.balanced
    obtain rfl := Except.ok.inj (hok.symm.trans hrun)
    exact hviews
  | createI18nContexts =>
    have hcovered := h.achieved .wrapI18nIcus (henabled _ (by simp [Phase.prerequisites]))
    exact Job.createI18nContexts_views hsound hrooted h.intact.balanced hcovered hrun
  | saveAndRestoreView =>
    obtain ⟨hthreads, -⟩ := Job.threads_of_mapUnitsFresh hrun
    exact hthreads.forall₂ fun _ view _ _ hview hyields =>
      (hsound view hview).editedBy_saveAndRestore hyields
  | resolveDollarEvent =>
    obtain rfl := Except.ok.inj hrun
    exact Job.forall₂_map fun view hview =>
      (hsound view hview).editedBy_map CreateOp.resolveEvent_alters
  | generateTrackVariables =>
    obtain rfl := Except.ok.inj hrun
    exact Job.forall₂_map fun view hview =>
      (hsound view hview).editedBy_map CreateOp.resolveTrackReads_alters
  | optimizeTrackFns =>
    obtain ⟨hthreads, -⟩ := Job.threads_of_mapUnitsFresh hrun
    refine hthreads.forall₂ ?_
    intro _ view view' _ hview hyields
    simp only [yields_bind, yields_pure] at hyields
    obtain ⟨create, _, hcreate, rfl, -⟩ := hyields
    exact View.editedBy_of_create
      ((hsound view hview).create.edits_mapM (CreateOp.chooseTrackFn_alters _ _) hcreate)
  | mergeNextContextExpressions => exact Job.mergeNextContextExpressions_views hsound hrun
  | generateNgContainerOps =>
    obtain rfl := Except.ok.inj hrun
    exact Job.forall₂_map fun view hview => (hsound view hview).editedBy_generateContainers

end Job

end TemplateLowering
