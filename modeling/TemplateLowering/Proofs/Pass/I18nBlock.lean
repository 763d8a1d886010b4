import TemplateLowering.Pass.I18nBlock
import TemplateLowering.Proofs.Job.Tree
import TemplateLowering.Proofs.OpList.Image
import TemplateLowering.Proofs.Pass.Edit

/-!
# Blocks of embedded views in outlines

The walk over the views of a job goes from a view to the views declared in it, whose numbers are
larger.  It changes no view with a smaller number than the one where it starts, so that the steps of
a view stay valid while the views below it are visited, and it never runs out of fuel.  A new block
is put around the whole content of a view, and its root is the root of the block that is open where
the view is declared.
-/

namespace TemplateLowering

variable {view view' : View} {xref : Xref} {job : Job}

/-! ## Enclosed marks -/

theorem balanced_append_of_balanced {marks : List Mark} {opened outer : List Bracket}
    (h : balanced opened marks = true) (houter : admitsStart outer = true) (rest : List Mark) :
    balanced (opened ++ outer) (marks ++ rest) = balanced outer rest := by
  induction marks generalizing opened with
  | nil =>
    obtain rfl : opened = [] := by simpa [balanced] using h
    rfl
  | cons mark marks ih =>
    cases mark with
    | start bracket =>
      simp only [balanced, Bool.and_eq_true] at h
      have hadmits : admitsStart (opened ++ outer) = true := by
        cases opened with
        | nil => exact houter
        | cons innermost opened => exact h.1
      have hrest := ih h.2
      rw [List.cons_append] at hrest
      rw [List.cons_append, balanced, hadmits, Bool.true_and, hrest]
    | stop bracket =>
      cases opened with
      | nil => simp [balanced] at h
      | cons innermost opened =>
        simp only [balanced, Bool.and_eq_true] at h
        rw [List.cons_append, List.cons_append, balanced, h.1, Bool.true_and, ih h.2]

theorem balanced_enclose {marks : List Mark} (h : balanced [] marks = true) {bracket : Bracket}
    (hkind : bracket.kind ≠ .icu) :
    balanced [] (.start bracket :: (marks ++ [.stop bracket])) = true := by
  have hadmits : admitsStart [bracket] = true := by simpa [admitsStart] using hkind
  have hinner := balanced_append_of_balanced h hadmits [.stop bracket]
  rw [List.nil_append] at hinner
  rw [balanced, hinner]
  simp [balanced, admitsStart]

theorem covered_append_stop {marks : List Mark} {inBlock inBlock' : Bool}
    (hle : inBlock = true → inBlock' = true) (h : covered inBlock marks = true) (xref : Xref) :
    covered inBlock' (marks ++ [.stop ⟨.block, xref⟩]) = true := by
  induction marks generalizing inBlock inBlock' with
  | nil => rfl
  | cons mark marks ih =>
    cases mark with
    | start bracket =>
      obtain ⟨kind, other⟩ := bracket
      cases kind with
      | block => exact ih (fun _ => rfl) h
      | icu =>
        simp only [covered, Bool.and_eq_true] at h
        simp only [List.cons_append, covered, Bool.and_eq_true]
        exact ⟨hle h.1, ih hle h.2⟩
      | element => exact ih hle h
      | container => exact ih hle h
    | stop bracket =>
      obtain ⟨kind, other⟩ := bracket
      cases kind with
      | block => exact ih (fun h => h) h
      | icu => exact ih hle h
      | element => exact ih hle h
      | container => exact ih hle h

/-! ## Enclosed views -/

/-- The root of an open block, as a block of the same message. -/
def OpenBlock.rootBlock (opened : OpenBlock) : Block :=
  { xref := opened.root, root := opened.root, message := opened.message }

/-- Only the blocks of the view were changed. -/
structure View.Reblocked (view view' : View) : Prop where
  edited : view.EditedBy .propagateI18nBlocks view'
  update : view'.update = view.update

theorem View.Reblocked.refl (view : View) : view.Reblocked view :=
  ⟨.refl (fun _ => by trivial) view, rfl⟩

theorem View.Reblocked.trans {view'' : View} (h : view.Reblocked view')
    (h' : view'.Reblocked view'') : view.Reblocked view'' :=
  ⟨h.edited.trans h'.edited (.inl rfl) h'.update, h'.update.trans h.update⟩

theorem View.reblocked_of_edits {create : OpList CreateOp} (hid : create.id = view.create.id)
    (h : Phase.propagateI18nBlocks.Edits view.create.toList create.toList) :
    view.Reblocked { view with create } :=
  ⟨⟨View.sameFrame_of_create hid, h, .refl _ _⟩, rfl⟩

/-- The operations in a block below an open one. -/
def OpenBlock.enclose (parent : OpenBlock) (xref : Xref) (ops : List CreateOp) : List CreateOp :=
  .i18nStart { xref, root := parent.root, message := parent.message, span := none } ::
    (ops ++ [.i18nEnd { xref, span := none }])

theorem View.wrapInBlock_lists (h : view.create.Linked) (xref : Xref) (parent : OpenBlock) :
    ∃ create, view.wrapInBlock xref parent = .ok { view with create } ∧
      create.id = view.create.id ∧ create.Lists (parent.enclose xref view.create.toList) := by
  have hstart : ListOp.isListEnd (CreateOp.i18nStart
      { xref, root := parent.root, message := parent.message, span := none }) = false := rfl
  have hend : ListOp.isListEnd (CreateOp.i18nEnd { xref, span := none }) = false := rfl
  obtain ⟨ids, middle, hprepend, hmiddle⟩ := h.lists.prepend hstart
  obtain ⟨id, create, hpush, hcreate⟩ := hmiddle.push hend
  refine ⟨create, ?_, ?_, hcreate⟩
  · simp only [wrapInBlock, editList_eq_ok hprepend, editList_eq_ok hpush, bind, Except.bind]
    rfl
  · exact (hmiddle.linked.id_of_push hend (editList_eq_ok hpush)).trans
      (h.lists_of_prepend hstart (editList_eq_ok hprepend)).2

theorem View.Sound.wrapInBlock (hview : view.Sound) (n : Nat) (parent : OpenBlock) :
    ∃ view', view.wrapInBlock ⟨n⟩ parent = .ok view' ∧ view.Reblocked view' ∧
      Grows n (n + 1) view.xrefs view'.xrefs ∧ view.outline.Reshapes id view'.outline ∧
      view'.Sound ∧ view'.blocks = ⟨⟨n⟩, parent.root, parent.message⟩ :: view.blocks := by
  obtain ⟨create, hwrap, hid, hcreate⟩ := View.wrapInBlock_lists hview.create ⟨n⟩ parent
  unfold OpenBlock.enclose at hcreate
  have hfeatures : View.features { view with create } = view.features := by
    simp [View.features, hcreate.toList, CreateOp.features]
  have hmarks : View.marks { view with create } =
      .start ⟨.block, ⟨n⟩⟩ :: (view.marks ++ [.stop ⟨.block, ⟨n⟩⟩]) := by
    simp [View.marks, hcreate.toList, CreateOp.marks]
  have htags : View.tags { view with create } = view.tags := by
    simp [View.tags, hcreate.toList, CreateOp.tags]
  have hblocks : View.blocks { view with create } =
      ⟨⟨n⟩, parent.root, parent.message⟩ :: view.blocks := by
    simp [View.blocks, hcreate.toList, CreateOp.blocks]
  have hedits : Phase.propagateI18nBlocks.Edits view.create.toList create.toList := by
    rw [hcreate.toList]
    exact .insert rfl ((Phase.Edits.refl (fun _ => by trivial) _).appendAll
      (by simp [Phase.Inserts, CreateOp.bounds]))
  refine ⟨{ view with create }, hwrap, View.reblocked_of_edits hid hedits, ?_, ⟨?_, ?_, ?_, ?_, rfl⟩,
    ⟨hcreate.linked, ?_, hview.update⟩, hblocks⟩
  · have hxrefs : create.toList.flatMap CreateOp.xrefs =
        [⟨n⟩] ++ view.create.toList.flatMap CreateOp.xrefs := by
      simp [hcreate.toList, CreateOp.xrefs, CreateOp.declared, CreateOp.exprs, CreateOp.lists]
    refine View.grows_of_create rfl ?_ rfl
    rw [hxrefs]
    exact (Grows.fresh n).append (Grows.refl (n + 1) _)
  · simp only [View.outline, View.skeleton, hfeatures]
  · intro hbalanced
    simp only [View.outline, hmarks] at hbalanced ⊢
    exact balanced_enclose hbalanced (by simp)
  · intro _ hcovered
    simp only [View.outline, hmarks] at hcovered ⊢
    exact covered_append_stop (fun _ => rfl) hcovered ⟨n⟩
  · intro tag htag
    simpa only [View.outline, htags] using htag
  · rw [hcreate.toList, List.forall_mem_cons, List.forall_mem_append, List.forall_mem_singleton]
    exact ⟨⟨rfl, by simp [CreateOp.lists]⟩, hview.createOps, ⟨rfl, by simp [CreateOp.lists]⟩⟩

/-! ## Walks -/

structure Job.Ready (job : Job) : Prop where
  sound : job.Sound
  rooted : job.Rooted
  ordered : ∀ view ∈ job.units, ∀ xref ∈ view.declaredViews, view.xref.index < xref.index

/-- What a walk does to a job when it touches no view with a number below `bound`. -/
structure Job.Walks (bound : Nat) (job job' : Job) : Prop where
  turns : job.Turns id job'
  views : List.Forall₂ View.Reblocked job.units job'.units
  kept : ∀ block ∈ job.blocks, block ∈ job'.blocks
  lists : job'.ids.nextList = job.ids.nextList
  frame : ∀ xref : Xref, xref.index < bound → job'.unit? xref = job.unit? xref

namespace Job

variable {job job' job'' : Job} {bound bound' : Nat}

theorem Ready.walks_refl (h : job.Ready) (bound : Nat) : job.Walks bound job := by
  have houtlines : List.Forall₂ (fun view view' : View => view.outline.Reshapes id view'.outline)
      job.units job.units := List.forall₂_same.2 fun view _ => view.outline.reshapes_refl
  exact ⟨⟨rfl, Grows.refl _ _, houtlines, h.sound, h.rooted⟩,
    List.forall₂_same.2 fun view _ => .refl view, fun _ h => h, rfl, fun _ _ => rfl⟩

theorem Walks.trans (h : job.Walks bound job') (h' : job'.Walks bound job'') :
    job.Walks bound job'' := by
  refine ⟨h.turns.trans h'.turns,
    forall₂_comp h.views h'.views fun _ _ _ hview hview' => hview.trans hview',
    fun block hblock => h'.kept block (h.kept block hblock), h'.lists.trans h.lists, ?_⟩
  intro xref hxref
  rw [h'.frame xref hxref, h.frame xref hxref]

theorem Walks.mono (h : job.Walks bound job') (hle : bound' ≤ bound) : job.Walks bound' job' :=
  ⟨h.turns, h.views, h.kept, h.lists, fun xref hxref => h.frame xref (Nat.lt_of_lt_of_le hxref hle)⟩

theorem Walks.ready (h : job.Walks bound job') (hready : job.Ready) : job'.Ready := by
  refine ⟨h.turns.sound, h.turns.rooted, ?_⟩
  intro view' hview' xref hxref
  obtain ⟨view, hview, hreshapes⟩ := exists_left_of_mem h.turns.outlines hview'
  have hview'xref : view'.xref = view.xref := congrArg Skeleton.xref hreshapes.skeleton
  have hfeatures : view'.features = view.features :=
    congrArg Skeleton.features hreshapes.skeleton
  rw [View.declaredViews_eq, hfeatures, ← View.declaredViews_eq] at hxref
  rw [hview'xref]
  exact hready.ordered view hview xref hxref

/-! The fuel that a walk needs is the number of views that are not before its first one. -/

def viewsFrom (job : Job) (xref : Xref) : Nat :=
  (job.units.map View.xref).countP fun other => xref.index ≤ other.index

theorem Walks.viewsFrom_eq (h : job.Walks bound job') (xref : Xref) :
    job'.viewsFrom xref = job.viewsFrom xref := by
  have hxrefs := congrArg (List.map Skeleton.xref) h.turns.skeletons
  simp only [List.map_map] at hxrefs
  exact congrArg (List.countP fun other => decide (xref.index ≤ other.index)) hxrefs

/-- The views that are declared in the view with a number. -/
def declares (job : Job) (xref : Xref) : List Xref :=
  ((job.units.map View.skeleton).find? fun skeleton => skeleton.xref = xref).elim []
    fun skeleton => skeleton.features.filterMap Feature.view?

theorem Walks.declares_eq (h : job.Walks bound job') : job'.declares = job.declares := by
  funext xref
  rw [declares, declares, h.turns.skeletons]

theorem declares_eq (job : Job) (xref : Xref) :
    job.declares xref = (job.unit? xref).elim [] View.declaredViews := by
  have hfind : (job.units.map View.skeleton).find? (fun skeleton => skeleton.xref = xref) =
      (job.unit? xref).map View.skeleton := List.find?_map
  rw [declares, hfind]
  cases job.unit? xref with
  | none => rfl
  | some view => exact view.declaredViews_eq.symm

theorem viewsFrom_lt (hview : view ∈ job.units) (hlt : view.xref.index < xref.index) :
    job.viewsFrom xref < job.viewsFrom view.xref := by
  obtain ⟨before, after, hunits⟩ := List.append_of_mem hview
  have hle : ∀ xrefs : List Xref, xrefs.countP (fun other => decide (xref.index ≤ other.index)) ≤
      xrefs.countP fun other => decide (view.xref.index ≤ other.index) := by
    intro xrefs
    apply List.countP_mono_left
    intro other _ hother
    simp only [decide_eq_true_eq] at hother ⊢
    omega
  have hbefore := hle (before.map View.xref)
  have hafter := hle (after.map View.xref)
  have hself : ¬xref.index ≤ view.xref.index := by omega
  simp only [viewsFrom, hunits, List.map_append, List.map_cons, List.countP_append,
    List.countP_cons, hself, decide_false, Bool.false_eq_true, if_false, Nat.le_refl, decide_true,
    if_true]
  omega

theorem viewsFrom_le (job : Job) (xref : Xref) : job.viewsFrom xref ≤ job.units.length := by
  have hle := List.countP_le_length (p := fun other : Xref => decide (xref.index ≤ other.index))
    (l := job.units.map View.xref)
  rwa [List.length_map] at hle

theorem Replaces.views (h : job.Replaces job' view view') (hview : view.Reblocked view') :
    List.Forall₂ View.Reblocked job.units job'.units := by
  obtain ⟨before, after, hunits, hunits', -⟩ := h
  have hsame : ∀ views, List.Forall₂ View.Reblocked views views :=
    fun views => List.forall₂_same.2 fun view _ => .refl view
  rw [hunits, hunits']
  exact List.rel_append (hsame before) (.cons hview (hsame after))

theorem Replaces.walks (h : job.Replaces job' view view') (hready : job.Ready)
    (hkind : job'.kind = job.kind) (hreblocked : view.Reblocked view')
    (hgrows : Grows job.ids.nextXref job'.ids.nextXref view.xrefs view'.xrefs)
    (hlists : job'.ids.nextList = job.ids.nextList)
    (hreshapes : view.outline.Reshapes id view'.outline) (hview' : view'.Sound)
    (hkept : ∀ block ∈ view.blocks, block ∈ view'.blocks)
    (hnew : ∀ block ∈ view'.blocks, block ∈ view.blocks ∨ block.rootBlock ∈ job.blocks) :
    job.Walks view.xref.index job' := by
  obtain ⟨hsub, hrooted⟩ := h.rooted hready.rooted hkept hnew
  refine ⟨h.turns hkind hready.sound hgrows hreshapes hview' hrooted, h.views hreblocked, hsub, hlists,
    ?_⟩
  intro other hother
  apply h.unit?_of_ne hreblocked.edited.xref
  intro heq
  rw [heq] at hother
  omega

end Job

/-! ## Wrapping a declared view -/

theorem yields_wrapView {parent : OpenBlock} (hunit : job.unit? xref = some view)
    (hstarts : ¬view.startsWithBlock = true)
    (hwrap : view.wrapInBlock ⟨job.ids.nextXref⟩ parent = .ok view') :
    ∃ job', Yields (wrapView xref parent) job () job' ∧ job.Replaces job' view view' ∧
      job'.kind = job.kind ∧ job'.ids = { job.ids with nextXref := job.ids.nextXref + 1 } := by
  -- The number is drawn before the view is changed.
  have hunit₁ : job.allocateXref.2.unit? xref = some view := hunit
  obtain ⟨update, hmodify, hupdate⟩ := Job.modifyUnitM_eq (m := Walk)
    (fun unit => liftM (unit.wrapInBlock ⟨job.ids.nextXref⟩ parent)) hunit₁
  have hyields : Yields (update <$>
      (liftM (view.wrapInBlock ⟨job.ids.nextXref⟩ parent) : Walk View)) job (update view') job :=
    yields_map.2 ⟨view', yields_lift.2 ⟨hwrap, rfl⟩, rfl⟩
  rw [← hmodify] at hyields
  refine ⟨update view', ?_, hupdate view'⟩
  simp only [wrapView, yields_bind]
  refine ⟨job, job, rfl, ?_⟩
  rw [hunit]
  simp only [if_neg hstarts, yields_bind]
  exact ⟨update view', job, hyields, rfl⟩

theorem wrapView_total (hready : job.Ready) (xref : Xref) {parent : OpenBlock}
    (hparent : parent.rootBlock ∈ job.blocks) :
    ∃ job', Yields (wrapView xref parent) job () job' ∧ job.Walks xref.index job' := by
  cases hunit : job.unit? xref with
  | none =>
    refine ⟨job, yields_bind.2 ⟨job, job, rfl, ?_⟩, hready.walks_refl _⟩
    rw [hunit]
    exact yields_pure.2 ⟨rfl, rfl⟩
  | some view =>
    by_cases hstarts : view.startsWithBlock = true
    · refine ⟨job, yields_bind.2 ⟨job, job, rfl, ?_⟩, hready.walks_refl _⟩
      rw [hunit]
      simp only [if_pos hstarts]
      exact yields_pure.2 ⟨rfl, rfl⟩
    · obtain rfl : view.xref = xref := by simpa using List.find?_some hunit
      obtain ⟨view', hwrap, hreblocked, hgrows, hreshapes, hview', hblocks⟩ :=
        (hready.sound view (List.mem_of_find?_eq_some hunit)).wrapInBlock job.ids.nextXref parent
      obtain ⟨job', hyields, hreplaces, hkind, hids⟩ := yields_wrapView hunit hstarts hwrap
      refine ⟨job', hyields, hreplaces.walks hready hkind hreblocked (by rw [hids]; exact hgrows)
        (by rw [hids]) hreshapes hview' ?_ ?_⟩ <;> intro block hblock <;> rw [hblocks] at *
      · exact List.mem_cons_of_mem _ hblock
      · rcases List.mem_cons.1 hblock with rfl | hblock
        · exact .inr hparent
        · exact .inl hblock

/-! ## Numbering a block -/

def View.StartsAt (view : View) (id : OpId) : Prop :=
  ∃ indices i op, view.create.Chain indices ∧ i ∈ indices ∧ id = view.create.opId i ∧
    view.create.op? i = some (.i18nStart op)

theorem forall₂_filterMap {α β γ : Type} {R : β → γ → Prop} {f : α → Option β} {g : α → Option γ}
    {as : List α} (h : ∀ a ∈ as, ∃ b c, f a = some b ∧ g a = some c ∧ R b c) :
    List.Forall₂ R (as.filterMap f) (as.filterMap g) := by
  induction as with
  | nil => exact .nil
  | cons a as ih =>
    obtain ⟨b, c, hb, hc, hR⟩ := h a List.mem_cons_self
    rw [List.filterMap_cons, List.filterMap_cons, hb, hc]
    exact .cons hR (ih fun a ha => h a (List.mem_cons_of_mem _ ha))

theorem I18nStart.withIndex_xref (op : I18nStart) (index : Nat) :
    (op.withIndex index).xref = op.xref := by
  unfold withIndex
  split <;> rfl

theorem I18nStart.withIndex_root (op : I18nStart) (index : Nat) :
    (op.withIndex index).root = op.root := by
  unfold withIndex
  split <;> rfl

theorem I18nStart.withIndex_message (op : I18nStart) (index : Nat) :
    (op.withIndex index).message = op.message := by
  unfold withIndex
  split <;> rfl

theorem I18nStart.withIndex_alike (op : I18nStart) (index : Nat) :
    CreateOp.Alike (.i18nStart op) (.i18nStart (op.withIndex index)) := by
  refine CreateOp.alike_of_lists_eq_nil rfl rfl rfl ?_ rfl ?_
  · simp only [CreateOp.marks, withIndex_xref]
  · simp only [CreateOp.blocks, withIndex_xref, withIndex_root, withIndex_message]

theorem I18nStart.alters_withIndex (op : I18nStart) (index : Nat) :
    Phase.propagateI18nBlocks.Alters (.i18nStart op) (.i18nStart (op.withIndex index)) := by
  unfold withIndex
  split
  · exact .number
  · exact .keep trivial

theorem View.numberBlock_eq {indices : List Nat} {i : Nat} {op : I18nStart}
    (hchain : view.create.Chain indices) (hi : i ∈ indices)
    (hop : view.create.op? i = some (.i18nStart op)) (index : Nat) :
    view.numberBlock (view.create.opId i) index =
      { view with create := view.create.setOp i (.i18nStart (op.withIndex index)) } := by
  have hholds : view.create.holds (view.create.opId i) = true := by
    simp [OpList.holds, OpList.opId]
  have hget : view.create.get? (view.create.opId i) = some (.i18nStart op) := by
    rw [OpList.get?, if_pos hholds]
    exact hop
  have hset : view.create.set? (view.create.opId i) (.i18nStart (op.withIndex index)) =
      some (view.create.setOp i (.i18nStart (op.withIndex index))) := by
    have hlt : (view.create.opId i).index < view.create.nodes.size := hchain.lt_size hi
    rw [OpList.set?, hholds, decide_eq_true hlt]
    rfl
  simp only [View.numberBlock, hget, hset]

theorem View.openedBlock?_setOp {i : Nat} (hlt : i < view.create.nodes.size) (op : I18nStart) :
    View.openedBlock? { view with create := view.create.setOp i (.i18nStart op) }
      (view.create.opId i) = some op.opened := by
  have hget : (view.create.setOp i (.i18nStart op)).get? (view.create.opId i) =
      some (.i18nStart op) := by
    rw [OpList.get?, if_pos (by simp [OpList.holds, OpList.opId, OpList.setOp])]
    exact (OpList.op?_setOp hlt _ i).trans (if_pos rfl)
  simp only [openedBlock?, hget]

theorem View.Sound.numberBlock (hview : view.Sound) {id : OpId} (hid : view.StartsAt id)
    (index n : Nat) :
    view.Retains n n (view.numberBlock id index) ∧ view.Reblocked (view.numberBlock id index) ∧
      (∀ other, view.StartsAt other → (view.numberBlock id index).StartsAt other) ∧
      ∃ opened, (view.numberBlock id index).openedBlock? id = some opened ∧
        ∃ xref, ⟨xref, opened.root, opened.message⟩ ∈ view.blocks := by
  obtain ⟨indices, i, op, hchain, hi, rfl, hop⟩ := hid
  have hlt := hchain.lt_size hi
  have hchain' := hchain.setOp i (.i18nStart (op.withIndex index))
  have hops : List.Forall₂ (fun op op' : CreateOp => (op.Alike op' ∧ op'.xrefs = op.xrefs) ∧
      Phase.propagateI18nBlocks.Alters op op') view.create.toList
      (view.create.setOp i (.i18nStart (op.withIndex index))).toList := by
    rw [hchain.toList_eq, hchain'.toList_eq]
    apply forall₂_filterMap
    intro j hj
    obtain ⟨old, hold⟩ := hchain.exists_op? hj
    by_cases hji : j = i
    · subst hji
      have hxrefs : CreateOp.xrefs (.i18nStart (op.withIndex index)) =
          CreateOp.xrefs (.i18nStart op) := by
        simp [CreateOp.xrefs, CreateOp.declared, CreateOp.exprs, CreateOp.lists,
          I18nStart.withIndex_xref]
      exact ⟨_, _, hop, by rw [OpList.op?_setOp hlt, if_pos rfl],
        ⟨op.withIndex_alike index, hxrefs⟩, op.alters_withIndex index⟩
    · exact ⟨old, old, hold, by rw [OpList.op?_setOp hlt, if_neg hji, hold], ⟨.refl old, rfl⟩, .keep trivial⟩
  have hrewritten : view.Rewritten
      { view with create := view.create.setOp i (.i18nStart (op.withIndex index)) } []
      (view.create.setOp i (.i18nStart (op.withIndex index))).toList [] :=
    ⟨rfl, rfl, by simpa using OpList.Linked.lists ⟨indices, hchain'⟩, hops.imp fun _ _ h => h.1.1,
      by simp, by simp⟩
  rw [View.numberBlock_eq hchain hi hop index]
  refine ⟨⟨View.grows_of_create rfl ?_ rfl, hrewritten.outline_eq rfl,
    hrewritten.sound hview hview.update⟩,
    View.reblocked_of_edits rfl (Phase.edits_of_forall₂ (hops.imp fun _ _ h => h.2)), ?_, ?_⟩
  · rw [flatMap_eq_of_forall₂ hops fun _ _ h => h.1.2]
    exact Grows.refl _ _
  · intro other hother
    obtain ⟨indices', j, op', hchain₂, hj, rfl, hop'⟩ := hother
    by_cases hji : j = i
    · subst hji
      refine ⟨indices', j, op.withIndex index, hchain₂.setOp _ _, hj, rfl, ?_⟩
      rw [OpList.op?_setOp hlt, if_pos rfl]
    · refine ⟨indices', j, op', hchain₂.setOp _ _, hj, rfl, ?_⟩
      rw [OpList.op?_setOp hlt, if_neg hji, hop']
  · refine ⟨(op.withIndex index).opened, View.openedBlock?_setOp hlt _, op.xref, ?_⟩
    have hmem : CreateOp.i18nStart op ∈ view.create.toList := by
      rw [hchain.toList_eq]
      exact List.mem_filterMap.2 ⟨i, hi, hop⟩
    refine List.mem_flatMap.2 ⟨_, hmem, ?_⟩
    simp [CreateOp.blocks, I18nStart.opened, I18nStart.withIndex_root,
      I18nStart.withIndex_message]

/-! ## Following the steps of a view -/

/-- The steps start at blocks of the view and lead to views with larger numbers. -/
structure View.Follows (view : View) (steps : List BlockStep) : Prop where
  starts : ∀ id, .start id ∈ steps → view.StartsAt id
  views : ∀ xref hasPlaceholder, .view xref hasPlaceholder ∈ steps →
    view.xref.index < xref.index

theorem View.Follows.tail {step : BlockStep} {steps : List BlockStep}
    (h : view.Follows (step :: steps)) : view.Follows steps :=
  ⟨fun id hid => h.starts id (List.mem_cons_of_mem _ hid),
    fun xref hasPlaceholder hmem => h.views xref hasPlaceholder (List.mem_cons_of_mem _ hmem)⟩

theorem BlockStep.start_mem_ofOp {id id' : OpId} {op : CreateOp}
    (h : BlockStep.start id' ∈ BlockStep.ofOp id op) :
    id' = id ∧ ∃ block, op = .i18nStart block := by
  cases op with
  | i18nStart block => exact ⟨by simpa [ofOp] using h, block, rfl⟩
  | _ => simp [ofOp, ofView?] at h

def BlockStep.view? : BlockStep → Option Xref
  | .view xref _ => some xref
  | _ => none

theorem BlockStep.filterMap_ofOp (id : OpId) (op : CreateOp) :
    (ofOp id op).filterMap view? = op.declaredViews := by
  cases op <;> simp [ofOp, ofView?, view?, CreateOp.declaredViews, Function.comp_def]

theorem View.filterMap_blockSteps (view : View) :
    (blockSteps view.create).filterMap BlockStep.view? = view.declaredViews := by
  have hops : view.create.entries.map Prod.snd = view.create.toList := by
    simp [OpList.entries, OpList.toList, List.map_filterMap, Function.comp_def]
  simp only [blockSteps, List.filterMap_flatMap, BlockStep.filterMap_ofOp]
  rw [declaredViews, ← hops, List.flatMap_map]

theorem Job.Ready.follows (hready : job.Ready) (hview : view ∈ job.units) :
    view.Follows (blockSteps view.create) := by
  refine ⟨?_, ?_⟩
  · intro id hid
    obtain ⟨indices, hchain⟩ := (hready.sound view hview).create
    obtain ⟨⟨id', op⟩, hentry, hstep⟩ := List.mem_flatMap.1 hid
    obtain ⟨rfl, block, rfl⟩ := BlockStep.start_mem_ofOp hstep
    rw [OpList.entries, hchain.indices_eq] at hentry
    obtain ⟨i, hi, heq⟩ := List.mem_filterMap.1 hentry
    obtain ⟨op, hop, heq⟩ := Option.map_eq_some_iff.1 heq
    obtain ⟨rfl, rfl⟩ := Prod.mk.inj heq
    exact ⟨indices, i, block, hchain, hi, rfl, hop⟩
  · intro xref hasPlaceholder hmem
    apply hready.ordered view hview
    rw [← view.filterMap_blockSteps]
    exact List.mem_filterMap.2 ⟨_, hmem, rfl⟩

theorem numberBlock_walks {id : OpId} (hready : job.Ready) (hunit : job.unit? view.xref = some view)
    (hid : view.StartsAt id) (index : Nat) :
    ∃ job' view' opened, job.modifyUnit view.xref (fun unit => unit.numberBlock id index) = job' ∧
      job.Walks view.xref.index job' ∧ job'.unit? view.xref = some view' ∧
      view'.xref = view.xref ∧ (∀ other, view.StartsAt other → view'.StartsAt other) ∧
      view'.openedBlock? id = some opened ∧ opened.rootBlock ∈ job'.blocks := by
  have hview := List.mem_of_find?_eq_some hunit
  obtain ⟨hretains, hreblocked, hstarts, opened, hopened, xref, hblock⟩ :=
    (hready.sound view hview).numberBlock hid index job.ids.nextXref
  obtain ⟨hreplaces, hkind, hids⟩ :=
    Job.modifyUnit_replaces (fun unit => unit.numberBlock id index) hunit
  have hturns := hretains.turns
  have hxref : (view.numberBlock id index).xref = view.xref := hreblocked.edited.xref
  have hsame : (view.numberBlock id index).blocks = view.blocks :=
    congrArg Outline.blocks hretains.outline
  have hwalks := hreplaces.walks hready hkind hreblocked (by rw [hids]; exact hturns.grows)
    (by rw [hids]) hturns.reshapes hturns.sound hturns.kept (fun block hmem => .inl (hsame ▸ hmem))
  refine ⟨_, view.numberBlock id index, opened, rfl, hwalks, hreplaces.unit?_self hxref, hxref,
    hstarts, hopened, ?_⟩
  exact hwalks.kept _ (hready.rooted ⟨xref, opened.root, opened.message⟩
    (List.mem_flatMap.2 ⟨view, hview, hblock⟩))

/-- The visit of a view that is declared in another, which is wrapped first where a block is open. -/
def visitDeclared (visit : Xref → Nat → Walk Nat) (xref : Xref) (hasPlaceholder : Bool)
    (block : Option OpenBlock) (index : Nat) : Walk Nat :=
  match hasPlaceholder, block with
  | true, some block => do
      wrapView xref block
      visit xref (index + 1)
  | _, _ => visit xref index

theorem followBlockSteps_view (visit : Xref → Nat → Walk Nat) (view xref : Xref)
    (hasPlaceholder : Bool) (steps : List BlockStep) (block : Option OpenBlock) (index : Nat) :
    followBlockSteps visit view (.view xref hasPlaceholder :: steps) block index =
      visitDeclared visit xref hasPlaceholder block index >>=
        followBlockSteps visit view steps block := by
  cases hasPlaceholder with
  | false => rfl
  | true =>
    cases block with
    | none => rfl
    | some block => simp only [followBlockSteps, visitDeclared, bind_assoc]

theorem visitDeclared_eq_bind (visit : Xref → Nat → Walk Nat) (xref : Xref) (placed : Bool)
    (block : Option OpenBlock) (index : Nat) :
    visitDeclared visit xref placed block index =
      visitDeclared (fun _ => pure) xref placed block index >>= visit xref := by
  cases placed <;> cases block <;> simp [visitDeclared]

theorem visitDeclared_total (hready : job.Ready) (xref : Xref) {block : Option OpenBlock}
    (hblock : ∀ opened ∈ block, opened.rootBlock ∈ job.blocks) (placed : Bool) (index : Nat) :
    ∃ index' job', Yields (visitDeclared (fun _ => pure) xref placed block index) job index' job' ∧
      job.Walks xref.index job' := by
  have hkept : ∃ index' job', Yields (pure index : Walk Nat) job index' job' ∧
      job.Walks xref.index job' := ⟨index, job, yields_pure.2 ⟨rfl, rfl⟩, hready.walks_refl _⟩
  cases placed with
  | false => exact hkept
  | true =>
    cases block with
    | none => exact hkept
    | some opened =>
      obtain ⟨job', hwrap, hwalks⟩ := wrapView_total hready xref (hblock opened rfl)
      exact ⟨index + 1, job', yields_bind.2 ⟨(), job', hwrap, yields_pure.2 ⟨rfl, rfl⟩⟩, hwalks⟩

/-! ## Tours -/

def Job.stepsOf (job : Job) (xref : Xref) : List BlockStep :=
  (job.unit? xref).elim [] fun view => blockSteps view.create

/-- The walk along some steps of a view, without fuel, and the views that it goes into.  Each of
these is put in a block where it has to be; then the steps of that view are followed, and then the
steps that are left. -/
inductive Tours : Xref → List BlockStep → Option OpenBlock → Nat → Job → List Xref → Nat → Job → Prop
  | nil {view : Xref} {block : Option OpenBlock} {index : Nat} {job : Job} :
      Tours view [] block index job [] index job
  | start {view : Xref} {id : OpId} {steps : List BlockStep} {block : Option OpenBlock}
      {index index' : Nat} {job job₁ job' : Job} {order : List Xref}
      (hnumber : job.modifyUnit view (fun unit => unit.numberBlock id index) = job₁)
      (hrest : Tours view steps (((job₁.unit? view).bind fun unit => unit.openedBlock? id) <|> block)
        index job₁ order index' job') :
      Tours view (.start id :: steps) block index job order index' job'
  | stop {view : Xref} {steps : List BlockStep} {block : Option OpenBlock} {index index' : Nat}
      {job job' : Job} {order : List Xref}
      (hrest : Tours view steps none (block.elim index fun block => if block.hasIndex then index else 0)
        job order index' job') :
      Tours view (.stop :: steps) block index job order index' job'
  | view {view xref : Xref} {placed : Bool} {steps : List BlockStep} {block : Option OpenBlock}
      {index index₁ index₂ index' : Nat} {job job₁ job₂ job' : Job} {inner others : List Xref}
      (henter : Yields (visitDeclared (fun _ => pure) xref placed block index) job index₁ job₁)
      (hinner : Tours xref (job₁.stepsOf xref) none index₁ job₁ inner index₂ job₂)
      (hrest : Tours view steps block index₂ job₂ others index' job') :
      Tours view (.view xref placed :: steps) block index job (xref :: (inner ++ others)) index' job'

/-- A tour, what it does to the job, and the program that makes it, when its fuel is enough.  The tour
goes into the views that are declared on the way, and into no others. -/
structure Toured (fuel : Nat) (view : Xref) (steps : List BlockStep) (block : Option OpenBlock)
    (index : Nat) (job : Job) (order : List Xref) (index' : Nat) (job' : Job) : Prop where
  tours : Tours view steps block index job order index' job'
  walks : job.Walks view.index job'
  order : order.Perm (steps.filterMap BlockStep.view? ++ order.flatMap job.declares)
  yields : ∀ more, fuel ≤ more →
    Yields (followBlockSteps (propagateBlocks more) view steps block index) job index' job'

theorem yields_propagateBlocks {fuel : Nat} {index index' : Nat} {job' : Job}
    (h : Yields (followBlockSteps (propagateBlocks fuel) xref (job.stepsOf xref) none index) job
      index' job') : Yields (propagateBlocks (fuel + 1) xref index) job index' job' := by
  rw [propagateBlocks, yields_bind]
  refine ⟨job, job, rfl, ?_⟩
  rw [Job.stepsOf] at h
  cases hunit : job.unit? xref <;> rw [hunit] at h <;> exact h

theorem Job.filterMap_stepsOf (job : Job) (xref : Xref) :
    (job.stepsOf xref).filterMap BlockStep.view? = job.declares xref := by
  rw [declares_eq, stepsOf]
  cases job.unit? xref with
  | none => rfl
  | some view => exact view.filterMap_blockSteps

theorem toured_steps {fuel : Nat}
    (hvisit : ∀ job xref index, Job.Ready job → job.viewsFrom xref < fuel → ∃ order index' job',
      Toured (fuel - 1) xref (job.stepsOf xref) none index job order index' job')
    (hready : job.Ready) (hunit : job.unit? view.xref = some view)
    (hfuel : job.viewsFrom view.xref ≤ fuel) {steps : List BlockStep} (hsteps : view.Follows steps)
    {block : Option OpenBlock} (hblock : ∀ opened ∈ block, opened.rootBlock ∈ job.blocks)
    (index : Nat) :
    ∃ order index' job', Toured fuel view.xref steps block index job order index' job' := by
  induction steps generalizing job view block index with
  | nil =>
    exact ⟨[], index, job, .nil, hready.walks_refl _, .refl _, fun _ _ => yields_pure.2 ⟨rfl, rfl⟩⟩
  | cons step steps ih =>
    cases step with
    | start id =>
      have hid : view.StartsAt id := hsteps.starts id List.mem_cons_self
      obtain ⟨job₁, view₁, opened, hmodify, hwalks₁, hunit₁, hxref₁, hstarts, hopened, hroot⟩ :=
        numberBlock_walks hready hunit hid index
      have hfollows : view₁.Follows steps := by
        refine ⟨fun other hother => hstarts other (hsteps.tail.starts other hother), ?_⟩
        rw [hxref₁]
        exact hsteps.tail.views
      have hself : job₁.unit? view₁.xref = some view₁ := by rw [hxref₁, hunit₁]
      have hfuel₁ : job₁.viewsFrom view₁.xref ≤ fuel := by
        rw [hxref₁, hwalks₁.viewsFrom_eq]
        exact hfuel
      have hblock₁ : ∀ other ∈ some opened, other.rootBlock ∈ job₁.blocks := by
        simpa using hroot
      obtain ⟨order, index', job₂, htours, hwalks₂, horder, hyields⟩ :=
        ih (hwalks₁.ready hready) hself hfuel₁ hfollows hblock₁ index
      have hopened₁ : (((job₁.unit? view.xref).bind fun unit => unit.openedBlock? id) <|> block) =
          some opened := by
        rw [hunit₁, Option.bind_some, hopened]
        rfl
      rw [hxref₁] at htours hwalks₂ hyields
      rw [hwalks₁.declares_eq] at horder
      refine ⟨order, index', job₂, .start hmodify (hopened₁ ▸ htours), hwalks₁.trans hwalks₂,
        horder, fun more hmore => ?_⟩
      simp only [followBlockSteps, yields_bind]
      refine ⟨(), job₁, congrArg (fun job => Except.ok ((), job)) hmodify, job₁, job₁, rfl, ?_⟩
      rw [hopened₁]
      exact hyields more hmore
    | stop =>
      obtain ⟨order, index', job', htours, hwalks, horder, hyields⟩ := ih hready hunit hfuel
        hsteps.tail (by simp : ∀ opened ∈ (none : Option OpenBlock), opened.rootBlock ∈ job.blocks)
        (block.elim index fun block => if block.hasIndex then index else 0)
      refine ⟨order, index', job', .stop htours, hwalks, horder, fun more hmore => ?_⟩
      cases block <;> exact hyields more hmore
    | view xref placed =>
      have hlt : view.xref.index < xref.index := hsteps.views xref placed List.mem_cons_self
      have hfrom : job.viewsFrom xref < job.viewsFrom view.xref :=
        Job.viewsFrom_lt (List.mem_of_find?_eq_some hunit) hlt
      obtain ⟨index₁, job₁, henter, hwalks₁⟩ :=
        visitDeclared_total hready xref hblock placed index
      have hready₁ := hwalks₁.ready hready
      obtain ⟨inner, index₂, job₂, hinner, hwalks₂, horder₂, hyields₂⟩ := hvisit job₁ xref index₁
        hready₁ (by rw [hwalks₁.viewsFrom_eq]; omega)
      have hwalks := hwalks₁.trans hwalks₂
      have hunit₂ : job₂.unit? view.xref = some view := by rw [hwalks.frame _ hlt, hunit]
      obtain ⟨others, index', job', hrest, hwalks₃, horder₃, hyields₃⟩ := ih (hwalks.ready hready)
        hunit₂ (by rw [hwalks.viewsFrom_eq]; exact hfuel) hsteps.tail
        (fun opened hopened => hwalks.kept _ (hblock opened hopened)) index₂
      refine ⟨xref :: (inner ++ others), index', job', .view henter hinner hrest,
        (hwalks.mono (Nat.le_of_lt hlt)).trans hwalks₃, ?_, fun more hmore => ?_⟩
      · rw [job₁.filterMap_stepsOf, hwalks₁.declares_eq] at horder₂
        rw [hwalks.declares_eq] at horder₃
        rw [List.perm_iff_count] at horder₂ horder₃ ⊢
        intro x
        have hinner := horder₂ x
        have hothers := horder₃ x
        simp only [List.filterMap_cons, BlockStep.view?, List.flatMap_cons, List.flatMap_append,
          List.count_append, List.count_cons, List.cons_append] at hinner hothers ⊢
        omega
      · obtain ⟨more, rfl⟩ : ∃ n, more = n + 1 := ⟨more - 1, by omega⟩
        rw [followBlockSteps_view, visitDeclared_eq_bind, bind_assoc]
        exact yields_bind.2 ⟨index₁, job₁, henter, yields_bind.2 ⟨index₂, job₂,
          yields_propagateBlocks (hyields₂ more (by omega)), hyields₃ _ hmore⟩⟩

theorem exists_toured (fuel : Nat) (hready : job.Ready) (hfuel : job.viewsFrom xref ≤ fuel)
    (index : Nat) : ∃ order index' job',
      Toured fuel xref (job.stepsOf xref) none index job order index' job' := by
  induction fuel using Nat.strong_induction_on generalizing job xref index with
  | h fuel ih =>
    cases hunit : job.unit? xref with
    | none =>
      rw [Job.stepsOf, hunit]
      exact ⟨[], index, job, .nil, hready.walks_refl _, .refl _, fun _ _ => yields_pure.2 ⟨rfl, rfl⟩⟩
    | some view =>
      obtain rfl : view.xref = xref := by simpa using List.find?_some hunit
      have hsteps : job.stepsOf view.xref = blockSteps view.create := by
        rw [Job.stepsOf, hunit]
        rfl
      have hvisit : ∀ job xref index, Job.Ready job → job.viewsFrom xref < fuel →
          ∃ order index' job', Toured (fuel - 1) xref (job.stepsOf xref) none index job order index'
            job' :=
        fun job xref index hready hlt => ih (fuel - 1) (by omega) hready (by omega) index
      rw [hsteps]
      exact toured_steps hvisit hready hunit hfuel
        (hready.follows (List.mem_of_find?_eq_some hunit)) (by simp) index

/-! ## The pass -/

theorem Job.propagateI18nBlocks_turns (hsound : job.Sound) (hrooted : job.Rooted)
    (hordered : ∀ view ∈ job.units, ∀ xref ∈ view.declaredViews, view.xref.index < xref.index) :
    ∃ job', job.propagateI18nBlocks = .ok job' ∧ job.Turns id job' ∧
      List.Forall₂ View.Reblocked job.units job'.units ∧
      job'.ids.nextList = job.ids.nextList := by
  obtain ⟨order, index, job', htoured⟩ := exists_toured (job.views.length + 1)
    ⟨hsound, hrooted, hordered⟩ (job.viewsFrom_le job.root.xref) 0
  have hwalks := htoured.walks
  have hyields := yields_propagateBlocks (htoured.yields _ (Nat.le_refl _))
  refine ⟨job', ?_, hwalks.turns, hwalks.views, hwalks.lists⟩
  rw [propagateI18nBlocks, yields_stateT.1 hyields]
  rfl

end TemplateLowering
