import TemplateLowering.Proofs.I18n.Same
import TemplateLowering.Proofs.Job.Origin
import TemplateLowering.Proofs.Plan.Edits
import TemplateLowering.Proofs.Plan.Invariants

/-!
# Messages of attributes

A binding may carry a message, and it takes the message along when it is narrowed.  The pass that
declares contexts gives one to every message of an attribute or a property, but it passes over
properties that are bound two ways.  So the messages without a context are those of two-way
properties, in a plan that narrows the bindings before it declares the contexts.
-/

namespace TemplateLowering

/-! ## Labels -/

/-- The label of an operation that sets an attribute or a property one way. -/
def UpdateOp.label? : UpdateOp → Option Label
  | .binding op => if op.kind = .twoWayProperty then none else some ⟨op.message, op.i18nContext⟩
  | .property op => some ⟨op.message, op.i18nContext⟩
  | .attr op => some ⟨op.message, op.i18nContext⟩
  | _ => none

/-- The label of an operation that binds a property two ways. -/
def UpdateOp.twoWayLabel? : UpdateOp → Option Label
  | .binding op => if op.kind = .twoWayProperty then some ⟨op.message, op.i18nContext⟩ else none
  | .twoWayProperty op => some ⟨op.message, op.i18nContext⟩
  | _ => none

namespace View

def labels (view : View) : List Label :=
  view.create.toList.filterMap CreateOp.label? ++ view.update.toList.filterMap UpdateOp.label?

def twoWayLabels (view : View) : List Label :=
  view.update.toList.filterMap UpdateOp.twoWayLabel?

theorem binding_not_mem {view : View} (h : view.bindings = []) (op : Binding) :
    .binding op ∉ view.update.toList := by
  intro hop
  have hshape : op.shape ∈ view.bindings :=
    List.mem_flatMap.2 ⟨_, hop, by simp [UpdateOp.bindings]⟩
  simp [h] at hshape

/-- Labels may go, but none is new, and those of two-way properties stay. -/
structure KeepsLabels (view view' : View) : Prop where
  labels : ∀ label ∈ view'.labels, label ∈ view.labels
  twoWayLabels : view'.twoWayLabels = view.twoWayLabels

theorem KeepsLabels.refl (view : View) : view.KeepsLabels view :=
  ⟨fun _ hlabel => hlabel, rfl⟩

theorem KeepsLabels.trans {view view' view'' : View} (h : view.KeepsLabels view')
    (h' : view'.KeepsLabels view'') : view.KeepsLabels view'' :=
  ⟨fun label hlabel => h.labels label (h'.labels label hlabel),
    h'.twoWayLabels.trans h.twoWayLabels⟩

end View

section Messages

variable {view : View} {message : I18n.Message}

theorem View.mem_attributeMessages {label : Label} (hlabel : label ∈ view.labels)
    (hmessage : label.message = some message) : message ∈ view.attributeMessages := by
  rcases List.mem_append.1 hlabel with hlabel | hlabel
  · obtain ⟨op, hop, hlabel⟩ := List.mem_filterMap.1 hlabel
    refine List.mem_append_left _ (List.mem_filterMap.2 ⟨op, hop, ?_⟩)
    cases op with
    | extractedAttribute op =>
      obtain rfl := Option.some.inj hlabel
      exact hmessage
    | _ => exact absurd hlabel (by simp [CreateOp.label?])
  · obtain ⟨op, hop, hlabel⟩ := List.mem_filterMap.1 hlabel
    refine List.mem_append_right _ (List.mem_filterMap.2 ⟨op, hop, ?_⟩)
    cases op with
    | binding op =>
      rw [UpdateOp.label?] at hlabel
      split at hlabel
      · simp at hlabel
      · obtain rfl := Option.some.inj hlabel
        exact hmessage
    | property op | attr op =>
      obtain rfl := Option.some.inj hlabel
      exact hmessage
    | _ => exact absurd hlabel (by simp [UpdateOp.label?])

theorem View.exists_label (hbindings : view.bindings = [])
    (hmessage : message ∈ view.attributeMessages) :
    ∃ label ∈ view.labels, label.message = some message := by
  rcases List.mem_append.1 hmessage with hmessage | hmessage
  · obtain ⟨op, hop, hmessage⟩ := List.mem_filterMap.1 hmessage
    cases op with
    | extractedAttribute op =>
      exact ⟨_, List.mem_append_left _ (List.mem_filterMap.2 ⟨_, hop, rfl⟩), hmessage⟩
    | _ => exact absurd hmessage (by simp [CreateOp.attributeMessage?])
  · obtain ⟨op, hop, hmessage⟩ := List.mem_filterMap.1 hmessage
    cases op with
    | binding op => exact absurd hop (View.binding_not_mem hbindings op)
    | property op | attr op =>
      exact ⟨_, List.mem_append_right _ (List.mem_filterMap.2 ⟨_, hop, rfl⟩), hmessage⟩
    | _ => exact absurd hmessage (by simp [UpdateOp.attributeMessage?])

end Messages

/-! ## Phases other than the declaration of contexts -/

section Edit

variable {phase : Phase} {view view' : View}

theorem UpdateOp.labels_of_isStyle {op : UpdateOp} (h : op.isStyle = true) :
    op.label? = none ∧ op.twoWayLabel? = none := by
  cases op <;> first | exact ⟨rfl, rfl⟩ | simp [isStyle] at h

theorem Phase.Narrows.labels {op op' : UpdateOp} (h : phase.Narrows op op')
    (hphase : phase ≠ .createI18nContexts) :
    (∀ label, op'.label? = some label → op.label? = some label) ∧
      op'.twoWayLabel? = op.twoWayLabel? := by
  cases h with
  | keep => exact ⟨fun _ hlabel => hlabel, rfl⟩
  | style hnew =>
    obtain ⟨hstyle, -, hkind⟩ := Binding.isStyle_of_styleOp? hnew
    obtain ⟨hlabel, htwoWay⟩ := UpdateOp.labels_of_isStyle hstyle
    refine ⟨by simp [hlabel], ?_⟩
    rw [htwoWay]
    simp [UpdateOp.twoWayLabel?, hkind]
  | rest _ hnew =>
    rcases Binding.eq_of_narrowedOp hnew with ⟨rfl | rfl, hkind⟩ | ⟨expr, rfl, hkind⟩ <;>
      simp [UpdateOp.label?, UpdateOp.twoWayLabel?, hkind, Binding.attributeOp, Binding.propertyOp,
        Binding.twoWayPropertyOp]
  | context => exact absurd rfl hphase

theorem Phase.Drops.twoWayLabel?_eq_none {op : UpdateOp} (h : phase.Drops op) :
    op.twoWayLabel? = none := by
  cases phase with
  | specializeBindings =>
    cases op with
    | binding op =>
      have hkind : op.kind = .attr := by
        have hbindable : op.isNonBindable = true := h
        simp only [Binding.isNonBindable, Bool.and_eq_true, decide_eq_true_eq] at hbindable
        exact hbindable.1
      simp [UpdateOp.twoWayLabel?, hkind]
    | _ => exact h.elim
  | _ => exact h.elim

theorem View.EditedBy.keepsLabels (h : view.EditedBy phase view')
    (hphase : phase ≠ .createI18nContexts) : view.KeepsLabels view' := by
  have hcreate : view'.create.toList.filterMap CreateOp.label? =
      view.create.toList.filterMap CreateOp.label? := by
    refine h.create.filterMap_eq ?_ ?_
    · intro op op' halters
      cases halters with
      | ofAttribute => exact absurd rfl hphase
      | mark => cases op <;> rfl
      | _ => rfl
    · intro op hinserts
      cases hinserts.inserted <;> rfl
  constructor
  · intro label hlabel
    rw [View.labels, hcreate] at hlabel
    rcases List.mem_append.1 hlabel with hlabel | hlabel
    · exact List.mem_append_left _ hlabel
    · obtain ⟨op', hop', hlabel⟩ := List.mem_filterMap.1 hlabel
      obtain ⟨op, hop, hnarrows⟩ := h.update.origin hop'
      exact List.mem_append_right _
        (List.mem_filterMap.2 ⟨op, hop, (hnarrows.labels hphase).1 label hlabel⟩)
  · rw [View.twoWayLabels, View.twoWayLabels, List.filterMap_eq_flatMap_toList,
      List.filterMap_eq_flatMap_toList]
    refine h.update.flatMap_eq ?_ ?_
    · intro op _ op' hnarrows
      rw [(hnarrows.labels hphase).2]
    · intro op hdrops
      rw [hdrops.twoWayLabel?_eq_none, Option.toList_none]

end Edit

/-! ## The declaration of contexts -/

section Declare

variable {view view' : View}

def Label.Contexted (label : Label) : Prop :=
  label.message.isSome = true → label.context.isSome = true

theorem MessageContexts.contexted_contextOf {known : MessageContexts} {message : Option I18n.Message}
    (h : ∀ m ∈ message, known.Knows m) (context : Option Xref) :
    Label.Contexted ⟨message, known.contextOf message context⟩ := by
  cases message with
  | none => simp [Label.Contexted]
  | some message => exact fun _ => h message rfl

/-- Every label gets a context for its message, and labels of two-way properties stay as they are
once the bindings are narrowed. -/
theorem View.Sound.labels_of_createAttributeContexts (hview : view.Sound)
    (hmessages : ∀ message ∈ view.attributeMessages, message.same message = true)
    (hbindings : view.bindings = []) {s t : MessageContexts × Ids}
    (h : Yields view.createAttributeContexts s view' t) :
    (∀ label ∈ view'.labels, label.Contexted) ∧ view'.twoWayLabels = view.twoWayLabels := by
  simp only [View.createAttributeContexts, yields_bind, yields_pure] at h
  obtain ⟨contexts, u, hcontexts, known, v, hget, rfl, rfl⟩ := h
  obtain ⟨rfl, rfl⟩ : u.1 = known ∧ u = v := Prod.mk.inj (Except.ok.inj hget)
  have hknown : ∀ message ∈ view.attributeMessages, u.1.Knows message := by
    obtain ⟨-, rfl⟩ := hcontexts.unique (yields_declareAttributeContexts _ s)
    exact fun message hmessage =>
      MessageContexts.knows_added _ _ hmessage (hmessages message hmessage)
  have hcreate := ((hview.create.lists.map u.1.assignCreate).appendAll contexts).toList
  have hupdate := (hview.update.linked.lists.map u.1.assignUpdate).toList
  constructor
  · intro label hlabel
    rw [View.labels, hcreate, hupdate, List.filterMap_append, List.append_assoc, List.mem_append,
      List.mem_append, List.mem_filterMap, List.mem_filterMap, List.mem_filterMap] at hlabel
    rcases hlabel with ⟨op', hop', hlabel⟩ | ⟨op', hop', hlabel⟩ | ⟨op', hop', hlabel⟩
    · obtain ⟨op, hop, rfl⟩ := List.mem_map.1 hop'
      cases op with
      | extractedAttribute op =>
        obtain rfl := Option.some.inj hlabel
        refine u.1.contexted_contextOf ?_ op.i18nContext
        exact fun message hmessage => hknown message
          (List.mem_append_left _ (List.mem_filterMap.2 ⟨_, hop, hmessage⟩))
      | _ => exact absurd hlabel (by simp [MessageContexts.assignCreate, CreateOp.label?])
    · have hinserts := inserts_declareAttributeContexts hcontexts op' hop'
      cases hinserts.inserted <;> exact absurd hlabel (by simp [CreateOp.label?])
    · obtain ⟨op, hop, rfl⟩ := List.mem_map.1 hop'
      have hmem : ∀ message, op.attributeMessage? = some message → u.1.Knows message :=
        fun message hmessage => hknown message
          (List.mem_append_right _ (List.mem_filterMap.2 ⟨op, hop, hmessage⟩))
      cases op with
      | binding op =>
        simp only [MessageContexts.assignUpdate, UpdateOp.label?] at hlabel
        split at hlabel
        · simp at hlabel
        · obtain rfl := Option.some.inj hlabel
          exact u.1.contexted_contextOf hmem op.i18nContext
      | property op =>
        obtain rfl := Option.some.inj hlabel
        exact u.1.contexted_contextOf hmem op.i18nContext
      | attr op =>
        obtain rfl := Option.some.inj hlabel
        exact u.1.contexted_contextOf hmem op.i18nContext
      | _ => exact absurd hlabel (by simp [MessageContexts.assignUpdate, UpdateOp.label?])
  · rw [View.twoWayLabels, View.twoWayLabels, hupdate, List.filterMap_map]
    apply List.filterMap_congr
    intro op hop
    cases op with
    | binding op => exact absurd hop (View.binding_not_mem hbindings op)
    | _ => rfl

theorem View.Settles.keepsLabels (h : view.Settles view') : view.KeepsLabels view' := by
  refine ⟨fun label hlabel => ?_, by rw [View.twoWayLabels, h.update]; rfl⟩
  rwa [View.labels, h.labels, h.update] at hlabel

end Declare

/-! ## Plans -/

section Job

variable {start job job' : Job} {scheduled : List Phase}

theorem Reached.labels_of_createI18nContexts (h : Reached start scheduled job)
    (henabled : Phase.createI18nContexts.Enabled scheduled)
    (hmessages : ∀ view ∈ job.units, ∀ message ∈ view.attributeMessages,
      message.same message = true) (hbindings : ∀ view ∈ job.units, view.bindings = [])
    (hrun : job.createI18nContexts = .ok job') :
    List.Forall₂ (fun view view' : View => (∀ label ∈ view'.labels, label.Contexted) ∧
      view'.twoWayLabels = view.twoWayLabels) job.units job'.units := by
  have hcovered := h.achieved .wrapI18nIcus (henabled _ (by simp [Phase.prerequisites]))
  obtain ⟨job₁, job₂, job₃, job₄, roots, blocks, shared, hsteps⟩ :=
    Job.exists_contextSteps h.intact.sound h.intact.rooted h.intact.balanced hcovered
  obtain rfl := Except.ok.inj (hsteps.eq_ok.symm.trans hrun)
  obtain ⟨known, hattributes⟩ :=
    Job.runContextPass_of_createAttributeContexts hsteps.ofAttributes.1
  have h₁ : List.Forall₂ (fun view view' : View => (∀ label ∈ view'.labels, label.Contexted) ∧
      view'.twoWayLabels = view.twoWayLabels) job.units job₁.units :=
    (Job.threads_of_runContextPass hattributes).forall₂ fun _ view _ _ hview =>
      (h.intact.sound view hview).labels_of_createAttributeContexts (hmessages view hview)
        (hbindings view hview)
  refine forall₂_comp h₁ hsteps.settles fun _ _ _ hview hview' => ⟨?_, ?_⟩
  · exact fun label hlabel => hview.1 label (hview'.keepsLabels.labels label hlabel)
  · exact hview'.keepsLabels.twoWayLabels.trans hview.2

theorem Reached.keepsLabels_run {phases : List Phase} (h : Reached start scheduled job)
    (hcheck : checkPhases scheduled phases = .ok ()) (hrun : runAll phases job = .ok job')
    (hphases : .createI18nContexts ∉ phases) :
    List.Forall₂ View.KeepsLabels job.units job'.units := by
  induction phases generalizing scheduled job with
  | nil =>
    obtain rfl := Except.ok.inj hrun
    exact List.forall₂_same.2 fun view _ => .refl view
  | cons phase phases ih =>
    obtain ⟨henabled, hnew, hrest⟩ := checkPhases_cons.1 hcheck
    obtain ⟨job₁, hok, hrun⟩ := runAll_cons_ok hrun
    rw [List.mem_cons, not_or] at hphases
    have hfirst := (h.editedBy henabled hok).imp fun _ _ hview =>
      hview.keepsLabels (Ne.symm hphases.1)
    exact forall₂_comp hfirst (ih (h.next henabled hnew hok) hrest hrun hphases.2)
      fun _ _ _ hview hview' => hview.trans hview'

end Job

theorem Reached.bindings_eq_nil {start job : Job} {scheduled : List Phase}
    (h : Reached start scheduled job) (hphase : .specializeBindings ∈ scheduled) :
    ∀ view ∈ job.units, view.bindings = [] := by
  intro view hview
  obtain ⟨old, -, -, hbindings⟩ := exists_left_of_mem h.follows.views hview
  rw [hbindings, narrowedBy, if_pos hphase]

namespace View

variable {view : View}

theorem Raw.twoWayLabel (h : view.Raw) {label : Label} (hlabel : label ∈ view.twoWayLabels) :
    label.context = none ∧ ∃ op, .binding op ∈ view.update.toList ∧ op.kind = .twoWayProperty ∧
      op.message = label.message := by
  obtain ⟨op, hop, hlabel⟩ := List.mem_filterMap.1 hlabel
  have hraw := h.update op hop
  cases op with
  | binding op =>
    rw [UpdateOp.twoWayLabel?] at hlabel
    split at hlabel
    · next hkind =>
      obtain rfl := Option.some.inj hlabel
      exact ⟨Option.isNone_iff_eq_none.1 hraw, op, hop, hkind, rfl⟩
    · simp at hlabel
  | twoWayProperty op => exact absurd hraw (by simp [UpdateOp.isRaw])
  | _ => exact absurd hlabel (by simp [UpdateOp.twoWayLabel?])

theorem Raw.exists_twoWayLabel (h : view.Raw) :
    (∃ label ∈ view.twoWayLabels, label.message.isSome = true) ↔
      ∃ op, .binding op ∈ view.update.toList ∧ op.kind = .twoWayProperty ∧
        op.message.isSome = true := by
  constructor
  · rintro ⟨label, hlabel, hmessage⟩
    obtain ⟨-, op, hop, hkind, heq⟩ := h.twoWayLabel hlabel
    exact ⟨op, hop, hkind, heq ▸ hmessage⟩
  · rintro ⟨op, hop, hkind, hmessage⟩
    exact ⟨⟨op.message, op.i18nContext⟩, List.mem_filterMap.2 ⟨_, hop, by
      simp [UpdateOp.twoWayLabel?, hkind]⟩, hmessage⟩

theorem exists_twoWayLabel (hbindings : view.bindings = []) :
    (∃ label ∈ view.twoWayLabels, label.message.isSome = true) ↔
      ∃ op, .twoWayProperty op ∈ view.update.toList ∧ op.message.isSome = true := by
  constructor
  · rintro ⟨label, hlabel, hmessage⟩
    obtain ⟨op, hop, hlabel⟩ := List.mem_filterMap.1 hlabel
    cases op with
    | binding op => exact absurd hop (binding_not_mem hbindings op)
    | twoWayProperty op =>
      obtain rfl := Option.some.inj hlabel
      exact ⟨op, hop, hmessage⟩
    | _ => exact absurd hlabel (by simp [UpdateOp.twoWayLabel?])
  · rintro ⟨op, hop, hmessage⟩
    exact ⟨⟨op.message, op.i18nContext⟩, List.mem_filterMap.2 ⟨_, hop, rfl⟩, hmessage⟩

end View

namespace Plan

variable {component : String} {template : List Template.Node} {options : Options} {job job' : Job}

theorem labels_of_standard_run (h : Job.ofTemplate component template options = .ok job)
    (hcases : ∀ view ∈ job.units, ∀ message ∈ view.attributeMessages,
      message.hasDistinctCases = true) (hrun : standard.run job = .ok job') :
    List.Forall₂ (fun view view' : View => (∀ label ∈ view'.labels, label.Contexted) ∧
      view'.twoWayLabels = view.twoWayLabels) job.units job'.units := by
  obtain ⟨hintact, hkind⟩ := Job.ofTemplate_intact h
  rw [standard.run_eq_runAll hkind] at hrun
  have hcheck : checkPhases [] ([.specializeStyleBindings, .specializeBindings,
      .propagateI18nBlocks, .wrapI18nIcus] ++ .createI18nContexts :: [.saveAndRestoreView,
      .resolveDollarEvent, .generateTrackVariables, .optimizeTrackFns,
      .mergeNextContextExpressions, .generateNgContainerOps]) = .ok () := standard.isValid
  obtain ⟨job₁, hbefore, hreached, hcheckBefore, hcheckAfter, hrun⟩ :=
    (reached_refl hintact hkind).split_run hcheck hrun
  obtain ⟨henabled, hnew, hcheckAfter⟩ := checkPhases_cons.1 hcheckAfter
  obtain ⟨job₂, hcontexts, hafter⟩ := runAll_cons_ok hrun
  have hbefore := (reached_refl hintact hkind).keepsLabels_run hcheckBefore hbefore (by decide)
  have hafter := (hreached.next henabled hnew hcontexts).keepsLabels_run hcheckAfter hafter
    (by decide)
  have hbindings := hreached.bindings_eq_nil (by decide)
  have hmessages : ∀ view ∈ job₁.units, ∀ message ∈ view.attributeMessages,
      message.same message = true := by
    intro view' hview' message hmessage
    obtain ⟨label, hlabel, hlabelled⟩ := View.exists_label (hbindings view' hview') hmessage
    obtain ⟨view, hview, hkeeps⟩ := exists_left_of_mem hbefore hview'
    exact I18n.Message.same_self (hcases view hview message
      (View.mem_attributeMessages (hkeeps.labels label hlabel) hlabelled))
  have hdeclared := hreached.labels_of_createI18nContexts henabled hmessages hbindings
    hcontexts
  refine forall₂_comp (forall₂_comp hbefore hdeclared (T := fun view view' : View =>
    (∀ label ∈ view'.labels, label.Contexted) ∧ view'.twoWayLabels = view.twoWayLabels) ?_) hafter ?_
  · exact fun _ _ _ hview hview' => ⟨hview'.1, hview'.2.trans hview.twoWayLabels⟩
  · exact fun _ _ _ hview hview' => ⟨fun label hlabel => hview.1 label (hview'.labels label hlabel),
      hview'.twoWayLabels.trans hview.2⟩

/-- After the normal plan every extracted attribute, every property and every attribute with a
message has a context, if no ICU expression in a message lists a case twice.  No two-way property
has a context, and one with a message is left exactly when the template binds one. -/
theorem contexts_of_messages (h : Job.ofTemplate component template options = .ok job)
    (hcases : ∀ view ∈ job.units, ∀ message ∈ view.attributeMessages,
      message.hasDistinctCases = true) (hrun : standard.run job = .ok job') :
    (∀ view ∈ job'.units,
      (∀ op, .extractedAttribute op ∈ view.create.toList → op.message.isSome = true →
        op.i18nContext.isSome = true) ∧
      (∀ op, .property op ∈ view.update.toList → op.message.isSome = true →
        op.i18nContext.isSome = true) ∧
      (∀ op, .attr op ∈ view.update.toList → op.message.isSome = true →
        op.i18nContext.isSome = true) ∧
      ∀ op, .twoWayProperty op ∈ view.update.toList → op.i18nContext = none) ∧
    ((∃ view ∈ job'.units, ∃ op, .twoWayProperty op ∈ view.update.toList ∧
        op.message.isSome = true) ↔
      ∃ view ∈ job.units, ∃ op, .binding op ∈ view.update.toList ∧ op.kind = .twoWayProperty ∧
        op.message.isSome = true) := by
  have hviews := labels_of_standard_run h hcases hrun
  have hraw := Job.raw_of_ofTemplate h
  have hbindings := (reached_of_run h hrun).bindings_eq_nil (by decide)
  refine ⟨?_, ?_⟩
  · intro view' hview'
    obtain ⟨view, hview, hlabels, htwoWay⟩ := exists_left_of_mem hviews hview'
    refine ⟨fun op hop => ?_, fun op hop => ?_, fun op hop => ?_, fun op hop => ?_⟩
    · exact hlabels _ (List.mem_append_left _ (List.mem_filterMap.2 ⟨_, hop, rfl⟩))
    · exact hlabels _ (List.mem_append_right _ (List.mem_filterMap.2 ⟨_, hop, rfl⟩))
    · exact hlabels _ (List.mem_append_right _ (List.mem_filterMap.2 ⟨_, hop, rfl⟩))
    · have hlabel : ⟨op.message, op.i18nContext⟩ ∈ view'.twoWayLabels :=
        List.mem_filterMap.2 ⟨_, hop, rfl⟩
      exact ((hraw view hview).twoWayLabel (htwoWay ▸ hlabel)).1
  · have hiff : ∀ view view' : View, view ∈ job.units → view' ∈ job'.units →
        view'.twoWayLabels = view.twoWayLabels →
        ((∃ op, .twoWayProperty op ∈ view'.update.toList ∧ op.message.isSome = true) ↔
          ∃ op, .binding op ∈ view.update.toList ∧ op.kind = .twoWayProperty ∧
            op.message.isSome = true) := by
      intro view view' hview hview' heq
      rw [← View.exists_twoWayLabel (hbindings view' hview'), heq,
        (hraw view hview).exists_twoWayLabel]
    constructor
    · rintro ⟨view', hview', hop⟩
      obtain ⟨view, hview, -, htwoWay⟩ := exists_left_of_mem hviews hview'
      exact ⟨view, hview, (hiff view view' hview hview' htwoWay).1 hop⟩
    · rintro ⟨view, hview, hop⟩
      obtain ⟨view', hview', -, htwoWay⟩ := exists_right_of_mem hviews hview
      exact ⟨view', hview', (hiff view view' hview hview' htwoWay).2 hop⟩

/-- An element with a translated attribute, a translated property and a translated two-way
property. -/
def translatedField : List Template.Node :=
  let here : SourceSpan := default
  let message (id : String) : Option I18n.Meta := some (.message { id })
  let input (name : String) (type : BindingType) : Template.BoundAttribute :=
    { name
      type
      security := .none
      value := { ast := .propertyRead {} {} (.implicitReceiver {}) name }
      unit := none
      span := here
      i18n := message name }
  [.element
    { name := "app-field"
      attributes := [{ name := "title", value := "Name", span := here, i18n := message "title" }]
      inputs := [input "label" .property, input "value" .twoWay]
      outputs := []
      children := []
      references := []
      span := here
      startSpan := here
      endSpan := none
      i18n := none }]

theorem translatedField_runs : ∃ job job', Job.ofTemplate "Field" translatedField {} = .ok job ∧
    standard.run job = .ok job' ∧
    (job.units.all fun view => view.attributeMessages.all I18n.Message.hasDistinctCases) = true ∧
    job'.root.update.toList.map (fun op => (op.label?.map fun label => label.message.isSome,
      op.twoWayLabel?.map fun label => (label.message.isSome, label.context.isNone))) =
      [(some true, none), (some true, none), (none, some (true, true))] := by
  have heval : ((Job.ofTemplate "Field" translatedField {}).toOption.bind fun job =>
      (standard.run job).toOption.map fun job' =>
        (job.units.all fun view => view.attributeMessages.all I18n.Message.hasDistinctCases,
          job'.root.update.toList.map fun op => (op.label?.map fun label => label.message.isSome,
            op.twoWayLabel?.map fun label => (label.message.isSome, label.context.isNone)))) =
      some (true, [(some true, none), (some true, none), (none, some (true, true))]) := by
    decide +kernel
  obtain ⟨job, job', hjob, hrun, heval⟩ := exists_ok_of_eval heval
  exact ⟨job, job', hjob, hrun, Prod.mk.inj heval⟩

/-- The message of the two-way property has no context. -/
theorem translatedField_without_context :
    ∃ job job' op, Job.ofTemplate "Field" translatedField {} = .ok job ∧
      standard.run job = .ok job' ∧ .twoWayProperty op ∈ job'.root.update.toList ∧
      op.message.isSome = true ∧ op.i18nContext = none := by
  obtain ⟨job, job', hjob, hrun, -, hops⟩ := translatedField_runs
  have hbindings := (reached_of_run hjob hrun).bindings_eq_nil (by decide) _ List.mem_cons_self
  have hmem : (none, some (true, true)) ∈ job'.root.update.toList.map fun op =>
      (op.label?.map fun label => label.message.isSome,
        op.twoWayLabel?.map fun label => (label.message.isSome, label.context.isNone)) := by
    simp [hops]
  obtain ⟨op, hop, hlabels⟩ := List.mem_map.1 hmem
  cases op with
  | binding op => exact absurd hop (View.binding_not_mem hbindings op)
  | twoWayProperty op =>
    obtain ⟨hmessage, hcontext⟩ : op.message.isSome = true ∧ op.i18nContext.isNone = true := by
      simpa [UpdateOp.label?, UpdateOp.twoWayLabel?] using hlabels
    exact ⟨job, job', op, hjob, hrun, hop, hmessage, Option.isNone_iff_eq_none.1 hcontext⟩
  | _ => exact absurd hlabels (by simp [UpdateOp.twoWayLabel?])

theorem contexts_of_messages_translatedField :
    ∃ job job', Job.ofTemplate "Field" translatedField {} = .ok job ∧
      standard.run job = .ok job' ∧
      (∀ view ∈ job.units, ∀ message ∈ view.attributeMessages,
        message.hasDistinctCases = true) ∧
      (∀ op, .property op ∈ job'.root.update.toList → op.message.isSome = true →
        op.i18nContext.isSome = true) ∧
      ∀ op, .twoWayProperty op ∈ job'.root.update.toList → op.i18nContext = none := by
  obtain ⟨job, job', hjob, hrun, hcases, -⟩ := translatedField_runs
  have hcases : ∀ view ∈ job.units, ∀ message ∈ view.attributeMessages,
      message.hasDistinctCases = true := by
    simpa only [List.all_eq_true] using hcases
  obtain ⟨hviews, -⟩ := contexts_of_messages hjob hcases hrun
  obtain ⟨-, hproperties, -, htwoWays⟩ := hviews job'.root List.mem_cons_self
  exact ⟨job, job', hjob, hrun, hcases, hproperties, htwoWays⟩

end Plan

end TemplateLowering
