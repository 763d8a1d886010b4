import TemplateLowering.Plan
import TemplateLowering.Proofs.Job.Intact
import TemplateLowering.Proofs.Pass.Binding
import TemplateLowering.Proofs.Pass.Container
import TemplateLowering.Proofs.Pass.I18nBlock
import TemplateLowering.Proofs.Pass.I18nContext
import TemplateLowering.Proofs.Pass.Listener
import TemplateLowering.Proofs.Pass.LoneIcu
import TemplateLowering.Proofs.Pass.NextContext
import TemplateLowering.Proofs.Pass.Track

/-!
# Runs of plans

Three phases refuse some jobs: a class or a two-way property that is bound to an interpolation,
`ngNonBindable` on something that is no element, and a pipe in a track expression.  Whether a phase
refuses can be told from the job with which the plan starts.  What a phase relies on in the current
job is kept along the run by `Reached`, whatever the order of the phases.
-/

namespace TemplateLowering

variable {narrow : List BindingShape → List BindingShape} {phases : List Phase}

/-! ## Refused jobs -/

namespace Job

variable (job : Job)

def HasClassInterpolation : Prop :=
  ∃ view ∈ job.units, ∃ op, .binding op ∈ view.update.toList ∧ op.kind = .className ∧
    op.value.isInterpolation = true

def HasTwoWayInterpolation : Prop :=
  ∃ view ∈ job.units, ∃ op, .binding op ∈ view.update.toList ∧ op.kind = .twoWayProperty ∧
    op.value.isInterpolation = true

/-- Some attribute `ngNonBindable` stands on no element-like operation of its view. -/
def HasStrayNonBindable : Prop :=
  ∃ view ∈ job.units, ∃ op, .binding op ∈ view.update.toList ∧ op.kind = .attr ∧
    op.name = "ngNonBindable" ∧
    ∀ other ∈ view.create.toList, ∀ base, other.base? = some base → base.xref ≠ op.target

def HasPipeInTrack : Prop :=
  ∃ view ∈ job.units, ∃ op, .repeaterCreate op ∈ view.create.toList ∧ op.track.pipes ≠ []

/-- The phase cannot be run in any plan for the job. -/
def Refuses : Phase → Prop
  | .specializeStyleBindings => job.HasClassInterpolation
  | .specializeBindings => job.HasTwoWayInterpolation ∨ job.HasStrayNonBindable
  | .optimizeTrackFns => job.HasPipeInTrack
  | _ => False

end Job

/-- The faults with which a phase refuses a job. -/
def Phase.FailsWith : Phase → Fault → Prop
  | .specializeStyleBindings, fault => fault = .classInterpolation
  | .specializeBindings, fault => fault.IsBinding
  | .optimizeTrackFns, fault => fault = .pipeInTrack
  | _, _ => False

/-! ## Refusal in outlines -/

theorem View.mem_bindings {view : View} {p : BindingShape → Prop} :
    (∃ shape ∈ view.bindings, p shape) ↔ ∃ op, .binding op ∈ view.update.toList ∧ p op.shape := by
  constructor
  · intro h
    obtain ⟨shape, hshape, hp⟩ := h
    obtain ⟨op, hop, hmem⟩ := List.mem_flatMap.1 hshape
    cases op with
    | binding op =>
      obtain rfl := List.mem_singleton.1 hmem
      exact ⟨op, hop, hp⟩
    | _ => simp [UpdateOp.bindings] at hmem
  · intro h
    obtain ⟨op, hop, hp⟩ := h
    exact ⟨op.shape, List.mem_flatMap.2 ⟨_, hop, by simp [UpdateOp.bindings]⟩, hp⟩

theorem View.element_mem_features {view : View} {xref : Xref} :
    .element xref ∈ view.features ↔
      ∃ op ∈ view.create.toList, ∃ base, op.base? = some base ∧ base.xref = xref := by
  simp only [View.features, List.mem_flatMap, CreateOp.element_mem_features]

theorem View.isPiped_mem_features {view : View} :
    (∃ feature ∈ view.features, feature.isPiped = true) ↔
      ∃ op, .repeaterCreate op ∈ view.create.toList ∧ op.track.pipes ≠ [] := by
  constructor
  · intro h
    obtain ⟨feature, hfeature, hpiped⟩ := h
    obtain ⟨op, hop, hmem⟩ := List.mem_flatMap.1 hfeature
    have hpipes : ∃ feature ∈ op.features, feature.isPiped = true := ⟨feature, hmem, hpiped⟩
    cases op with
    | repeaterCreate op => exact ⟨op, hop, isPiped_repeaterCreate.1 hpipes⟩
    | projection op =>
      cases hview : op.fallbackView <;> simp [CreateOp.features, Feature.isPiped, hview] at hpipes
    | _ => simp [CreateOp.features, Feature.isPiped] at hpipes
  · intro h
    obtain ⟨op, hop, hpipes⟩ := h
    obtain ⟨feature, hmem, hpiped⟩ := isPiped_repeaterCreate.2 hpipes
    exact ⟨feature, List.mem_flatMap.2 ⟨_, hop, hmem⟩, hpiped⟩

namespace Job

variable {job : Job}

theorem hasClassInterpolation_iff :
    job.HasClassInterpolation ↔
      ∃ view ∈ job.units, ∃ shape ∈ view.bindings, shape.isClassInterpolation = true := by
  simp only [View.mem_bindings, BindingShape.isClassInterpolation, Bool.and_eq_true,
    decide_eq_true_eq]
  rfl

theorem hasTwoWayInterpolation_iff :
    job.HasTwoWayInterpolation ↔
      ∃ view ∈ job.units, ∃ shape ∈ view.bindings, shape.isTwoWayInterpolation = true := by
  simp only [View.mem_bindings, BindingShape.isTwoWayInterpolation, Bool.and_eq_true,
    decide_eq_true_eq]
  rfl

theorem hasStrayNonBindable_iff :
    job.HasStrayNonBindable ↔ ∃ view ∈ job.units, ∃ shape ∈ view.bindings,
      shape.isNonBindable = true ∧ .element shape.target ∉ view.features := by
  simp only [View.mem_bindings, View.element_mem_features, BindingShape.isNonBindable,
    Bool.and_eq_true, decide_eq_true_eq, beq_iff_eq, not_exists, not_and, and_assoc]
  rfl

theorem hasPipeInTrack_iff :
    job.HasPipeInTrack ↔ ∃ view ∈ job.units, ∃ feature ∈ view.features, feature.isPiped = true := by
  simp only [View.isPiped_mem_features]
  rfl

end Job

/-! ## Runs -/

def Phase.Enabled (phase : Phase) (scheduled : List Phase) : Prop :=
  ∀ other ∈ phase.prerequisites, other ∈ scheduled

/-- What is left of the bindings after some phases. -/
def narrowedBy (scheduled : List Phase) (bindings : List BindingShape) : List BindingShape :=
  if .specializeBindings ∈ scheduled then []
  else if .specializeStyleBindings ∈ scheduled then bindings.filter fun shape => !shape.isStyle
  else bindings

/-- What a phase brings about, once and for all. -/
def Phase.Achieves : Phase → Job → Prop
  | .wrapI18nIcus, job => job.Covered
  | .generateNgContainerOps, job => ∀ view ∈ job.units, ∀ tag ∈ view.tags, isNgContainer tag = false
  | _, _ => True

/-- What the scheduled phases leave of `start`, a job of either kind. -/
structure Follows (start : Job) (scheduled : List Phase) (job : Job) : Prop where
  sound : job.Sound
  rooted : job.Rooted
  kind : job.kind = start.kind
  order : ∀ phase ∈ scheduled, ∀ other ∈ phase.prerequisites, other ∈ scheduled
  views : List.Forall₂ (fun old view : View => view.skeleton = old.skeleton ∧
    view.bindings = narrowedBy scheduled old.bindings) start.units job.units

/-- The job was reached from `start`, the job of a template, by the scheduled phases, in some
order. -/
structure Reached (start : Job) (scheduled : List Phase) (job : Job) : Prop where
  intact : job.Intact
  kind : job.kind = .template
  follows : Follows start scheduled job
  achieved : ∀ phase ∈ scheduled, phase.Achieves job
  drawn : start.ids.nextXref ≤ job.ids.nextXref

theorem exists_mem_iff_of_forall₂ {α β : Type} {R : α → β → Prop} {P : α → Prop} {Q : β → Prop}
    {as : List α} {bs : List β} (h : List.Forall₂ R as bs)
    (hR : ∀ a b, R a b → (P a ↔ Q b)) : (∃ a ∈ as, P a) ↔ ∃ b ∈ bs, Q b := by
  constructor
  · intro hexists
    obtain ⟨a, ha, hP⟩ := hexists
    obtain ⟨b, hb, hab⟩ := exists_right_of_mem h ha
    exact ⟨b, hb, (hR a b hab).1 hP⟩
  · intro hexists
    obtain ⟨b, hb, hQ⟩ := hexists
    obtain ⟨a, ha, hab⟩ := exists_left_of_mem h hb
    exact ⟨a, ha, (hR a b hab).2 hQ⟩

section Step

variable {start job job' : Job} {scheduled : List Phase} {phase : Phase}

theorem follows_refl (hsound : job.Sound) (hrooted : job.Rooted) : Follows job [] job := by
  refine ⟨hsound, hrooted, rfl, by simp, ?_⟩
  rw [List.forall₂_same]
  intro view _
  exact ⟨rfl, by simp [narrowedBy]⟩

theorem reached_refl (hintact : job.Intact) (hkind : job.kind = .template) : Reached job [] job :=
  ⟨hintact, hkind, follows_refl hintact.sound hintact.rooted, by simp, Nat.le_refl _⟩

theorem Follows.turns (h : Follows start scheduled job)
    (henabled : ∀ other ∈ phase.prerequisites, other ∈ scheduled) (hturns : job.Turns narrow job')
    (hnarrow : ∀ bindings, narrow (narrowedBy scheduled bindings) =
      narrowedBy (phase :: scheduled) bindings) : Follows start (phase :: scheduled) job' := by
  refine ⟨hturns.sound, hturns.rooted, hturns.kind.trans h.kind, ?_, ?_⟩
  · intro done hdone other hother
    rcases List.mem_cons.1 hdone with rfl | hdone
    · exact List.mem_cons_of_mem _ (henabled other hother)
    · exact List.mem_cons_of_mem _ (h.order done hdone other hother)
  · refine forall₂_comp h.views hturns.outlines ?_
    intro old view view' hview hreshapes
    have hskeleton : view'.skeleton = view.skeleton := hreshapes.skeleton
    have hbindings : view'.bindings = narrow view.bindings := hreshapes.bindings
    rw [hskeleton, hbindings, hview.2, hnarrow]
    exact ⟨hview.1, rfl⟩

theorem Phase.Achieves.turns (h : phase.Achieves job) (hbalanced : job.Balanced)
    (hturns : job.Turns narrow job') : phase.Achieves job' := by
  cases phase with
  | wrapI18nIcus =>
    intro view' hview'
    obtain ⟨view, hview, hreshapes⟩ := exists_left_of_mem hturns.outlines hview'
    exact hreshapes.covered (hbalanced view hview) (h view hview)
  | generateNgContainerOps =>
    intro view' hview' tag htag
    obtain ⟨view, hview, hreshapes⟩ := exists_left_of_mem hturns.outlines hview'
    exact h view hview tag (hreshapes.tags tag htag)
  | _ => trivial

theorem Reached.turns (h : Reached start scheduled job)
    (henabled : ∀ other ∈ phase.prerequisites, other ∈ scheduled) (hturns : job.Turns narrow job')
    (hnarrow : ∀ bindings, narrow (narrowedBy scheduled bindings) =
      narrowedBy (phase :: scheduled) bindings) (hachieves : phase.Achieves job') :
    Reached start (phase :: scheduled) job' := by
  refine ⟨h.intact.turns hturns, hturns.kind.trans h.kind,
    h.follows.turns henabled hturns hnarrow, ?_, h.drawn.trans hturns.grows.le⟩
  intro other hother
  rcases List.mem_cons.1 hother with rfl | hother
  · exact hachieves
  · exact (h.achieved other hother).turns h.intact.balanced hturns

theorem narrowedBy_cons (hphase : phase ≠ .specializeBindings)
    (hphase' : phase ≠ .specializeStyleBindings) (bindings : List BindingShape) :
    narrowedBy (phase :: scheduled) bindings = narrowedBy scheduled bindings := by
  simp [narrowedBy, hphase.symm, hphase'.symm]

theorem narrowedBy_styles (hnew : .specializeStyleBindings ∉ scheduled)
    (bindings : List BindingShape) :
    ((narrowedBy scheduled bindings).filter fun shape => !shape.isStyle) =
      narrowedBy (.specializeStyleBindings :: scheduled) bindings := by
  by_cases hnarrow : .specializeBindings ∈ scheduled
  · simp [narrowedBy, hnarrow]
  · simp [narrowedBy, hnarrow, hnew]

theorem narrowedBy_rest (bindings : List BindingShape) :
    ((narrowedBy scheduled bindings).filter fun _ => false) =
      narrowedBy (.specializeBindings :: scheduled) bindings := by
  simp [narrowedBy]

theorem Reached.turns_id (h : Reached start scheduled job) (henabled : phase.Enabled scheduled)
    (hphase : phase ≠ .specializeBindings ∧ phase ≠ .specializeStyleBindings)
    (hturns : job.Turns id job') (hachieves : phase.Achieves job') :
    Reached start (phase :: scheduled) job' := by
  apply h.turns henabled hturns _ hachieves
  intro bindings
  rw [narrowedBy_cons hphase.1 hphase.2, id]

/-! What the phases that may refuse see in the current job is what stood in the first one. -/

theorem Follows.hasClassInterpolation_iff (h : Follows start scheduled job)
    (hnew : .specializeStyleBindings ∉ scheduled) :
    start.HasClassInterpolation ↔
      ∃ view ∈ job.units, ∃ shape ∈ view.bindings, shape.isClassInterpolation = true := by
  have hnarrow : .specializeBindings ∉ scheduled := by
    intro hmem
    exact hnew (h.order _ hmem _ (by simp [Phase.prerequisites]))
  rw [Job.hasClassInterpolation_iff]
  refine exists_mem_iff_of_forall₂ h.views ?_
  intro old view hview
  rw [hview.2, narrowedBy, if_neg hnarrow, if_neg hnew]

theorem Follows.isStyle_eq_false (h : Follows start scheduled job)
    (hstyle : .specializeStyleBindings ∈ scheduled) :
    ∀ view ∈ job.units, ∀ shape ∈ view.bindings, shape.isStyle = false := by
  intro view hview shape hshape
  obtain ⟨old, -, -, hbindings⟩ := exists_left_of_mem h.views hview
  rw [hbindings, narrowedBy, if_pos hstyle] at hshape
  split at hshape
  · simp at hshape
  · simpa using (List.mem_filter.1 hshape).2

theorem BindingShape.isStyle_of_isTwoWayInterpolation {shape : BindingShape}
    (h : shape.isTwoWayInterpolation = true) : shape.isStyle = false := by
  simp only [isTwoWayInterpolation, Bool.and_eq_true, decide_eq_true_eq] at h
  simp [isStyle, h.1]

theorem BindingShape.isStyle_of_isNonBindable {shape : BindingShape}
    (h : shape.isNonBindable = true) : shape.isStyle = false := by
  simp only [isNonBindable, Bool.and_eq_true, decide_eq_true_eq] at h
  simp [isStyle, h.1]

theorem Follows.exists_binding_iff (h : Follows start scheduled job)
    (hstyle : .specializeStyleBindings ∈ scheduled) (hnew : .specializeBindings ∉ scheduled)
    {p : List Feature → BindingShape → Prop}
    (hp : ∀ features shape, p features shape → shape.isStyle = false) :
    (∃ view ∈ start.units, ∃ shape ∈ view.bindings, p view.features shape) ↔
      ∃ view ∈ job.units, ∃ shape ∈ view.bindings, p view.features shape := by
  refine exists_mem_iff_of_forall₂ h.views ?_
  intro old view hview
  have hfeatures : view.features = old.features := congrArg Skeleton.features hview.1
  have hbindings : view.bindings = old.bindings.filter fun shape => !shape.isStyle := by
    rw [hview.2, narrowedBy, if_neg hnew, if_pos hstyle]
  simp only [hfeatures, hbindings, List.mem_filter, Bool.not_eq_true', and_assoc]
  refine exists_congr fun shape => and_congr_right fun _ => ?_
  exact ⟨fun hshape => ⟨hp _ shape hshape, hshape⟩, fun hshape => hshape.2⟩

theorem Follows.hasTwoWayInterpolation_iff (h : Follows start scheduled job)
    (hstyle : .specializeStyleBindings ∈ scheduled) (hnew : .specializeBindings ∉ scheduled) :
    start.HasTwoWayInterpolation ↔
      ∃ view ∈ job.units, ∃ shape ∈ view.bindings, shape.isTwoWayInterpolation = true := by
  rw [Job.hasTwoWayInterpolation_iff]
  exact h.exists_binding_iff hstyle hnew
    (p := fun _ shape => shape.isTwoWayInterpolation = true)
    fun _ _ => BindingShape.isStyle_of_isTwoWayInterpolation

theorem Follows.hasStrayNonBindable_iff (h : Follows start scheduled job)
    (hstyle : .specializeStyleBindings ∈ scheduled) (hnew : .specializeBindings ∉ scheduled) :
    start.HasStrayNonBindable ↔ ∃ view ∈ job.units, ∃ shape ∈ view.bindings,
      shape.isNonBindable = true ∧ .element shape.target ∉ view.features := by
  rw [Job.hasStrayNonBindable_iff]
  exact h.exists_binding_iff hstyle hnew
    (p := fun features shape => shape.isNonBindable = true ∧ .element shape.target ∉ features)
    fun _ _ hshape => BindingShape.isStyle_of_isNonBindable hshape.1

theorem Follows.hasFaultyBinding_iff (h : Follows start scheduled job)
    (hstyle : .specializeStyleBindings ∈ scheduled) (hnew : .specializeBindings ∉ scheduled) :
    start.HasTwoWayInterpolation ∨ start.HasStrayNonBindable ↔
      ∃ view ∈ job.units, view.HasFaultyBinding := by
  rw [h.hasTwoWayInterpolation_iff hstyle hnew, h.hasStrayNonBindable_iff hstyle hnew]
  simp only [View.HasFaultyBinding, and_or_left, exists_or]

theorem Follows.hasPipeInTrack_iff (h : Follows start scheduled job) :
    start.HasPipeInTrack ↔
      ∃ view ∈ job.units, ∃ feature ∈ view.features, feature.isPiped = true := by
  rw [Job.hasPipeInTrack_iff]
  refine exists_mem_iff_of_forall₂ h.views ?_
  intro old view hview
  have hfeatures : view.features = old.features := congrArg Skeleton.features hview.1
  rw [hfeatures]

/-! ## One phase -/

/-- A phase fails exactly when it refuses the first job, and otherwise leads on to some `next`. -/
def Advances (start : Job) (phase : Phase) (job : Job) (next : Job → Prop) : Prop :=
  (start.Refuses phase → ∃ fault, phase.FailsWith fault ∧ phase.run job = .error fault) ∧
    (¬start.Refuses phase → ∃ job', phase.run job = .ok job' ∧ next job')

theorem Advances.imp {next next' : Job → Prop} (h : Advances start phase job next)
    (hnext : ∀ job', next job' → next' job') : Advances start phase job next' := by
  refine ⟨h.1, fun hrefuses => ?_⟩
  obtain ⟨job', hok, hjob'⟩ := h.2 hrefuses
  exact ⟨job', hok, hnext job' hjob'⟩

theorem Advances.and {next next' : Job → Prop} (h : Advances start phase job next)
    (hnext : ∀ job', phase.run job = .ok job' → next' job') :
    Advances start phase job fun job' => next job' ∧ next' job' := by
  refine ⟨h.1, fun hrefuses => ?_⟩
  obtain ⟨job', hok, hjob'⟩ := h.2 hrefuses
  exact ⟨job', hok, hjob', hnext job' hok⟩

theorem advances_of_ok {next : Job → Prop} (hrefuses : ¬start.Refuses phase)
    (h : ∃ job', phase.run job = .ok job' ∧ next job') : Advances start phase job next :=
  ⟨fun hrefused => absurd hrefused hrefuses, fun _ => h⟩

theorem Follows.specializeStyleBindings (h : Follows start scheduled job)
    (hnew : .specializeStyleBindings ∉ scheduled) :
    Advances start .specializeStyleBindings job
      (job.Turns (List.filter fun shape => !shape.isStyle)) := by
  refine ⟨?_, ?_⟩
  · intro hrefuses
    exact ⟨_, rfl, Job.specializeStyleBindings_fails h.sound
      ((h.hasClassInterpolation_iff hnew).1 hrefuses)⟩
  · intro hrefuses
    exact Job.specializeStyleBindings_turns h.sound h.rooted
      fun hclass => hrefuses ((h.hasClassInterpolation_iff hnew).2 hclass)

theorem Follows.specializeBindings (h : Follows start scheduled job)
    (henabled : Phase.specializeBindings.Enabled scheduled)
    (hnew : .specializeBindings ∉ scheduled) :
    Advances start .specializeBindings job (job.Turns (List.filter fun _ => false)) := by
  have hstyle : .specializeStyleBindings ∈ scheduled :=
    henabled _ (by simp [Phase.prerequisites])
  have hviews := h.isStyle_eq_false hstyle
  refine ⟨?_, ?_⟩
  · intro hrefuses
    exact Job.specializeBindings_fails h.sound hviews
      ((h.hasFaultyBinding_iff hstyle hnew).1 hrefuses)
  · intro hrefuses
    exact Job.specializeBindings_turns h.sound h.rooted hviews
      fun hfaulty => hrefuses ((h.hasFaultyBinding_iff hstyle hnew).2 hfaulty)

theorem Reached.advances_of_turns (h : Reached start scheduled job)
    (henabled : phase.Enabled scheduled) (hrefuses : ¬start.Refuses phase)
    (hphase : phase ≠ .specializeBindings ∧ phase ≠ .specializeStyleBindings)
    (hrun : ∃ job', phase.run job = .ok job' ∧ job.Turns id job')
    (hachieves : ∀ job', phase.run job = .ok job' → phase.Achieves job') :
    Advances start phase job (Reached start (phase :: scheduled)) := by
  obtain ⟨job', hok, hturns⟩ := hrun
  apply advances_of_ok hrefuses
  exact ⟨job', hok, h.turns_id henabled hphase hturns (hachieves job' hok)⟩

theorem Reached.specializeStyleBindings (h : Reached start scheduled job)
    (hnew : .specializeStyleBindings ∉ scheduled) :
    Advances start .specializeStyleBindings job
      (Reached start (.specializeStyleBindings :: scheduled)) :=
  (h.follows.specializeStyleBindings hnew).imp fun _ hturns =>
    h.turns (by simp [Phase.prerequisites]) hturns (narrowedBy_styles hnew) trivial

theorem Reached.specializeBindings (h : Reached start scheduled job)
    (henabled : Phase.specializeBindings.Enabled scheduled)
    (hnew : .specializeBindings ∉ scheduled) :
    Advances start .specializeBindings job (Reached start (.specializeBindings :: scheduled)) :=
  (h.follows.specializeBindings henabled hnew).imp fun _ hturns =>
    h.turns henabled hturns narrowedBy_rest trivial

theorem Reached.optimizeTrackFns (h : Reached start scheduled job)
    (henabled : Phase.optimizeTrackFns.Enabled scheduled) :
    Advances start .optimizeTrackFns job (Reached start (.optimizeTrackFns :: scheduled)) := by
  refine ⟨?_, ?_⟩
  · intro hrefuses
    exact ⟨_, rfl, Job.optimizeTrackFns_fails h.intact.sound (h.follows.hasPipeInTrack_iff.1 hrefuses)⟩
  · intro hrefuses
    obtain ⟨job', hok, hturns⟩ := Job.optimizeTrackFns_turns h.intact.sound h.intact.rooted
      fun hpiped => hrefuses (h.follows.hasPipeInTrack_iff.2 hpiped)
    exact ⟨job', hok, h.turns_id henabled (by simp) hturns trivial⟩

theorem Reached.wrapI18nIcus (h : Reached start scheduled job)
    (henabled : Phase.wrapI18nIcus.Enabled scheduled) :
    Advances start .wrapI18nIcus job (Reached start (.wrapI18nIcus :: scheduled)) := by
  obtain ⟨job', hok, hturns, hcovered, -⟩ :=
    Job.wrapI18nIcus_turns h.intact.sound h.intact.rooted h.intact.balanced
  exact advances_of_ok not_false
    ⟨job', hok, h.turns_id henabled (by simp) hturns hcovered⟩

theorem Reached.step (h : Reached start scheduled job) (henabled : phase.Enabled scheduled)
    (hnew : phase ∉ scheduled) : Advances start phase job (Reached start (phase :: scheduled)) := by
  have hsound := h.intact.sound
  have hrooted := h.intact.rooted
  cases phase with
  | specializeStyleBindings => exact h.specializeStyleBindings hnew
  | specializeBindings => exact h.specializeBindings henabled hnew
  | optimizeTrackFns => exact h.optimizeTrackFns henabled
  | wrapI18nIcus => exact h.wrapI18nIcus henabled
  | propagateI18nBlocks =>
    have hordered : ∀ view ∈ job.units, ∀ xref ∈ view.declaredViews,
        view.xref.index < xref.index := fun view hview xref => h.intact.tree.declared_lt hview
    obtain ⟨job', hok, hturns, -⟩ := Job.propagateI18nBlocks_turns hsound hrooted hordered
    exact h.advances_of_turns henabled not_false (by simp) ⟨job', hok, hturns⟩
      fun _ _ => trivial
  | createI18nContexts =>
    have hcovered := h.achieved .wrapI18nIcus (henabled _ (by simp [Phase.prerequisites]))
    exact h.advances_of_turns henabled not_false (by simp)
      (Job.createI18nContexts_turns hsound hrooted h.intact.balanced hcovered) fun _ _ => trivial
  | saveAndRestoreView =>
    exact h.advances_of_turns henabled not_false (by simp)
      (Job.saveAndRestoreView_turns hsound hrooted) fun _ _ => trivial
  | resolveDollarEvent =>
    exact h.advances_of_turns henabled not_false (by simp)
      ⟨_, rfl, Job.resolveDollarEvent_turns hsound hrooted⟩ fun _ _ => trivial
  | generateTrackVariables =>
    exact h.advances_of_turns henabled not_false (by simp)
      ⟨_, rfl, Job.generateTrackVariables_turns hsound hrooted⟩ fun _ _ => trivial
  | mergeNextContextExpressions =>
    exact h.advances_of_turns henabled not_false (by simp)
      (Job.mergeNextContextExpressions_turns hsound hrooted) fun _ _ => trivial
  | generateNgContainerOps =>
    obtain ⟨hturns, htags⟩ :=
      Job.generateNgContainers_turns hsound hrooted (distinct_iff.1 h.intact.distinct).1
    apply h.advances_of_turns henabled not_false (by simp) ⟨_, rfl, hturns⟩
    intro job' hok
    obtain rfl := Except.ok.inj hok
    exact htags

theorem Reached.next (h : Reached start scheduled job)
    (henabled : phase.Enabled scheduled) (hnew : phase ∉ scheduled)
    (hrun : phase.run job = .ok job') : Reached start (phase :: scheduled) job' := by
  obtain ⟨hfails, hleads⟩ := h.step henabled hnew
  by_cases hrefuses : start.Refuses phase
  · obtain ⟨fault, -, herror⟩ := hfails hrefuses
    rw [herror] at hrun
    simp at hrun
  · obtain ⟨other, hok, hreached⟩ := hleads hrefuses
    obtain rfl := Except.ok.inj (hok.symm.trans hrun)
    exact hreached

/-! ## All phases -/

def runAll (phases : List Phase) (job : Job) : Except Fault Job :=
  phases.foldlM (fun job phase => phase.run job) job

theorem runAll_cons (phase : Phase) (phases : List Phase) (job : Job) :
    runAll (phase :: phases) job = phase.run job >>= runAll phases := by
  rw [runAll, List.foldlM_cons]
  rfl

theorem runAll_cons_ok (h : runAll (phase :: phases) job = .ok job') :
    ∃ middle, phase.run job = .ok middle ∧ runAll phases middle = .ok job' := by
  rw [runAll_cons] at h
  cases hrun : phase.run job with
  | error fault => simp [hrun, bind, Except.bind] at h
  | ok middle =>
    rw [hrun] at h
    exact ⟨middle, rfl, h⟩

theorem checkPhases_cons :
    checkPhases scheduled (phase :: phases) = .ok () ↔
      phase.Enabled scheduled ∧ phase ∉ scheduled ∧
        checkPhases (phase :: scheduled) phases = .ok () := by
  rw [checkPhases]
  split
  · next hfind =>
    have hmissing : ¬phase.Enabled scheduled := fun hall => by
      simpa [hall _ (List.mem_of_find?_eq_some hfind)] using List.find?_some hfind
    simp [hmissing]
  · next hfind =>
    have hall : phase.Enabled scheduled := by simpa [Phase.Enabled] using hfind
    by_cases hmem : phase ∈ scheduled
    · simp [hmem]
    · rw [if_neg hmem]
      exact ⟨fun hrest => ⟨hall, hmem, hrest⟩, fun hrest => hrest.2.2⟩

theorem runAll_of_advances {I : List Phase → Job → Prop}
    (hstep : ∀ phase ∈ phases, ∀ scheduled job, I scheduled job →
      phase.Enabled scheduled → phase ∉ scheduled →
      Advances start phase job (I (phase :: scheduled))) (h : I scheduled job)
    (hcheck : checkPhases scheduled phases = .ok ()) :
    ((∃ phase ∈ phases, start.Refuses phase) → ∃ fault, (∃ phase ∈ phases, phase.FailsWith fault) ∧
      runAll phases job = .error fault) ∧
    ((¬∃ phase ∈ phases, start.Refuses phase) →
      ∃ job', I (phases.reverse ++ scheduled) job' ∧
        runAll phases job = .ok job') := by
  induction phases generalizing scheduled job with
  | nil => exact ⟨by simp, fun _ => ⟨job, h, rfl⟩⟩
  | cons phase phases ih =>
    obtain ⟨henabled, hnew, hrest⟩ := checkPhases_cons.1 hcheck
    rw [List.forall_mem_cons] at hstep
    obtain ⟨hfails, hleads⟩ := hstep.1 scheduled job h henabled hnew
    rw [runAll_cons]
    by_cases hrefuses : start.Refuses phase
    · obtain ⟨fault, hfault, hrun⟩ := hfails hrefuses
      rw [hrun]
      exact ⟨fun _ => ⟨fault, ⟨phase, List.mem_cons_self, hfault⟩, rfl⟩,
        fun hnone => absurd ⟨phase, List.mem_cons_self, hrefuses⟩ hnone⟩
    · obtain ⟨job₁, hrun, hnext⟩ := hleads hrefuses
      obtain ⟨ihfails, ihleads⟩ := ih hstep.2 hnext hrest
      have hiff : (∃ other ∈ phase :: phases, start.Refuses other) ↔
          ∃ other ∈ phases, start.Refuses other := by
        simp [hrefuses]
      rw [hrun, hiff]
      refine ⟨?_, ?_⟩
      · intro hexists
        obtain ⟨fault, ⟨other, hother, hfault⟩, herror⟩ := ihfails hexists
        exact ⟨fault, ⟨other, List.mem_cons_of_mem _ hother, hfault⟩, herror⟩
      · intro hnone
        obtain ⟨job', hend, hok⟩ := ihleads hnone
        exact ⟨job', by simpa using hend, hok⟩

theorem Reached.run (h : Reached start scheduled job)
    (hcheck : checkPhases scheduled phases = .ok ()) :
    ((∃ phase ∈ phases, start.Refuses phase) → ∃ fault, (∃ phase ∈ phases, phase.FailsWith fault) ∧
      runAll phases job = .error fault) ∧
    ((¬∃ phase ∈ phases, start.Refuses phase) →
      ∃ job', Reached start (phases.reverse ++ scheduled) job' ∧
        runAll phases job = .ok job') :=
  runAll_of_advances (fun _ _ _ _ h => h.step) h hcheck

theorem Reached.split_run {before after : List Phase} (h : Reached start scheduled job)
    (hcheck : checkPhases scheduled (before ++ after) = .ok ())
    (hrun : runAll (before ++ after) job = .ok job') :
    ∃ middle, runAll before job = .ok middle ∧
      Reached start (before.reverse ++ scheduled) middle ∧
      checkPhases scheduled before = .ok () ∧
      checkPhases (before.reverse ++ scheduled) after = .ok () ∧
      runAll after middle = .ok job' := by
  induction before generalizing scheduled job with
  | nil => exact ⟨job, rfl, h, rfl, hcheck, hrun⟩
  | cons phase before ih =>
    obtain ⟨henabled, hnew, hrest⟩ := checkPhases_cons.1 hcheck
    obtain ⟨job₁, hok, hrun⟩ := runAll_cons_ok hrun
    obtain ⟨middle, hbefore, hmiddle, hcheckBefore, hcheckAfter, hafter⟩ :=
      ih (h.next henabled hnew hok) hrest hrun
    refine ⟨middle, ?_, by simpa using hmiddle,
      checkPhases_cons.2 ⟨henabled, hnew, hcheckBefore⟩, by simpa using hcheckAfter, hafter⟩
    rw [runAll_cons, hok]
    exact hbefore

theorem Reached.induction_run {P : List Phase → Job → Prop}
    (hstep : ∀ scheduled phase job job', Reached start scheduled job →
      phase.Enabled scheduled → phase ∉ scheduled →
      phase.run job = .ok job' → P scheduled job → P (phase :: scheduled) job')
    (h : Reached start scheduled job) (hcheck : checkPhases scheduled phases = .ok ())
    (hP : P scheduled job) (hrun : runAll phases job = .ok job') :
    P (phases.reverse ++ scheduled) job' := by
  induction phases generalizing scheduled job with
  | nil =>
    obtain rfl := Except.ok.inj hrun
    exact hP
  | cons phase phases ih =>
    obtain ⟨henabled, hnew, hrest⟩ := checkPhases_cons.1 hcheck
    obtain ⟨job₁, hok, hrun⟩ := runAll_cons_ok hrun
    have hP₁ := hstep scheduled phase job job₁ h henabled hnew hok hP
    have hend := ih (h.next henabled hnew hok) hrest hP₁ hrun
    simpa using hend

end Step

/-! ## Plans for templates -/

namespace Plan

variable {component : String} {template : List Template.Node} {options : Options} {job job' : Job}

theorem run_eq_runAll (plan : Plan) (hkind : job.kind = .template) :
    plan.run job = runAll plan.phases job := by
  have hall : plan.phases.filter (·.appliesTo job.kind) = plan.phases := by
    rw [List.filter_eq_self, hkind]
    intro phase _
    cases phase <;> rfl
  rw [run, hall, runAll]

theorem run_of_refuses (h : Job.ofTemplate component template options = .ok job) (plan : Plan)
    (hrefuses : ∃ phase ∈ plan.phases, job.Refuses phase) :
    ∃ fault, (∃ phase ∈ plan.phases, phase.FailsWith fault) ∧ plan.run job = .error fault := by
  obtain ⟨hintact, hkind⟩ := Job.ofTemplate_intact h
  rw [plan.run_eq_runAll hkind]
  exact ((reached_refl hintact hkind).run plan.isValid).1 hrefuses

theorem run_of_not_refuses (h : Job.ofTemplate component template options = .ok job) (plan : Plan)
    (hrefuses : ¬∃ phase ∈ plan.phases, job.Refuses phase) :
    ∃ job', Reached job plan.phases.reverse job' ∧ plan.run job = .ok job' := by
  obtain ⟨hintact, hkind⟩ := Job.ofTemplate_intact h
  rw [plan.run_eq_runAll hkind]
  have hrun := ((reached_refl hintact hkind).run plan.isValid).2 hrefuses
  rwa [List.append_nil] at hrun

theorem reached_of_run (h : Job.ofTemplate component template options = .ok job) {plan : Plan}
    (hrun : plan.run job = .ok job') : Reached job plan.phases.reverse job' := by
  by_cases hrefuses : ∃ phase ∈ plan.phases, job.Refuses phase
  · obtain ⟨fault, -, herror⟩ := run_of_refuses h plan hrefuses
    rw [herror] at hrun
    simp at hrun
  · obtain ⟨other, hreached, hok⟩ := run_of_not_refuses h plan hrefuses
    rw [hok] at hrun
    obtain rfl := Except.ok.inj hrun
    exact hreached

theorem induction_run (h : Job.ofTemplate component template options = .ok job) {plan : Plan}
    (hrun : plan.run job = .ok job') {P : List Phase → Job → Prop} (hstart : P [] job)
    (hstep : ∀ scheduled phase job₁ job₂, Reached job scheduled job₁ →
      phase.Enabled scheduled → phase ∉ scheduled →
      phase.run job₁ = .ok job₂ → P scheduled job₁ → P (phase :: scheduled) job₂) :
    P plan.phases.reverse job' := by
  obtain ⟨hintact, hkind⟩ := Job.ofTemplate_intact h
  rw [plan.run_eq_runAll hkind] at hrun
  have hend := (reached_refl hintact hkind).induction_run hstep plan.isValid hstart hrun
  rwa [List.append_nil] at hend

end Plan

end TemplateLowering
