import TemplateLowering.Proofs.Job.Outline

/-!
# The tree of views

Every embedded view is declared in its parent, and nowhere else.  This is kept as one statement, that
the pairs of a view and a view declared in it are, in some order, the pairs of a parent and its view.
It depends on the skeletons of the views alone, which no pass changes.
-/

namespace TemplateLowering

variable {narrow : List BindingShape → List BindingShape} {view : View}

/-! ## Trees of skeletons -/

def declarations (skeletons : List Skeleton) : List (Option Xref × Xref) :=
  skeletons.flatMap fun skeleton =>
    (skeleton.features.filterMap Feature.view?).map (some skeleton.xref, ·)

def parentage (skeletons : List Skeleton) : List (Option Xref × Xref) :=
  skeletons.map fun skeleton => (skeleton.parent, skeleton.xref)

structure IsTree (root : Skeleton) (views : List Skeleton) : Prop where
  edges : (declarations (root :: views)).Perm (parentage views)
  parents : ∀ view ∈ views, ∀ parent, view.parent = some parent → parent.index < view.xref.index
  sorted : views.Pairwise fun a b => a.xref.index < b.xref.index

def Job.Tree (job : Job) : Prop :=
  IsTree job.root.skeleton (job.views.map View.skeleton)

theorem declarations_map (views : List View) :
    declarations (views.map View.skeleton) =
      views.flatMap fun view => view.declaredViews.map (some view.xref, ·) := by
  rw [declarations, List.flatMap_map]
  refine List.flatMap_congr fun view _ => ?_
  rw [View.declaredViews_eq]
  rfl

theorem parentage_map (views : List View) :
    parentage (views.map View.skeleton) = views.map fun view => (view.parent, view.xref) := by
  rw [parentage, List.map_map]
  rfl

namespace Job

variable {job job' : Job}

theorem Turns.skeletons (h : job.Turns narrow job') :
    job'.units.map View.skeleton = job.units.map View.skeleton := by
  rw [List.map_eq_flatMap, List.map_eq_flatMap]
  refine flatMap_eq_of_forall₂ h.outlines fun view view' hreshapes => ?_
  have hskeleton : view'.skeleton = view.skeleton := hreshapes.skeleton
  rw [hskeleton]

theorem Tree.turns (htree : job.Tree) (h : job.Turns narrow job') : job'.Tree := by
  have hskeletons := h.skeletons
  simp only [units, List.map_cons, List.cons.injEq] at hskeletons
  rw [Tree, hskeletons.1, hskeletons.2]
  exact htree

/-! ## What the tree says about views -/

theorem mem_declarations {xref : Xref} (hview : view ∈ job.units)
    (hxref : xref ∈ view.declaredViews) :
    (some view.xref, xref) ∈ declarations (job.units.map View.skeleton) := by
  rw [declarations_map]
  exact List.mem_flatMap.2 ⟨view, hview, List.mem_map.2 ⟨xref, hxref, rfl⟩⟩

theorem Tree.exists_view (h : job.Tree) {xref : Xref} (hview : view ∈ job.units)
    (hxref : xref ∈ view.declaredViews) :
    ∃ inner ∈ job.views, inner.xref = xref ∧ inner.parent = some view.xref := by
  have hmem := h.edges.mem_iff.1 (mem_declarations hview hxref)
  rw [parentage_map] at hmem
  obtain ⟨inner, hinner, heq⟩ := List.mem_map.1 hmem
  obtain ⟨hparent, rfl⟩ := Prod.mk.inj heq
  exact ⟨inner, hinner, rfl, hparent⟩

theorem Tree.parent_lt (h : job.Tree) (hview : view ∈ job.views) {parent : Xref}
    (hparent : view.parent = some parent) : parent.index < view.xref.index :=
  h.parents view.skeleton (List.mem_map_of_mem hview) parent hparent

theorem Tree.declared_lt (h : job.Tree) (hview : view ∈ job.units) {xref : Xref}
    (hxref : xref ∈ view.declaredViews) : view.xref.index < xref.index := by
  obtain ⟨inner, hinner, rfl, hparent⟩ := h.exists_view hview hxref
  exact h.parent_lt hinner hparent

theorem Tree.sorted_views (h : job.Tree) :
    job.views.Pairwise fun a b => a.xref.index < b.xref.index := by
  have hsorted := h.sorted
  rw [List.pairwise_map] at hsorted
  exact hsorted

theorem Tree.exists_parent (h : job.Tree) (hview : view ∈ job.views) :
    ∃ parent ∈ job.units, view.parent = some parent.xref ∧ view.xref ∈ parent.declaredViews := by
  have hmem : (view.parent, view.xref) ∈ parentage (job.views.map View.skeleton) := by
    rw [parentage_map]
    exact List.mem_map.2 ⟨view, hview, rfl⟩
  have hdeclared : (view.parent, view.xref) ∈ declarations (job.units.map View.skeleton) :=
    h.edges.mem_iff.2 hmem
  rw [declarations_map] at hdeclared
  obtain ⟨parent, hparent, hmem⟩ := List.mem_flatMap.1 hdeclared
  obtain ⟨xref, hxref, heq⟩ := List.mem_map.1 hmem
  obtain ⟨hsome, rfl⟩ := Prod.mk.inj heq
  exact ⟨parent, hparent, hsome.symm, hxref⟩

theorem Tree.perm_declaredViews (h : job.Tree) :
    (job.units.flatMap View.declaredViews).Perm (job.views.map View.xref) := by
  have hedges : (declarations (job.units.map View.skeleton)).Perm
      (parentage (job.views.map View.skeleton)) := h.edges
  have hperm := hedges.map Prod.snd
  rw [declarations_map, parentage_map, List.map_flatMap, List.map_map] at hperm
  simpa [Function.comp_def] using hperm

/-! ## Declaring operations -/

def createOps (job : Job) : List CreateOp :=
  job.units.flatMap fun view => view.create.toList

theorem flatMap_createOps (job : Job) :
    job.createOps.flatMap CreateOp.declaredViews = job.units.flatMap View.declaredViews := by
  rw [createOps, List.flatMap_assoc]
  rfl

theorem countP_mem_le_count_flatMap {α β : Type} [DecidableEq β] (f : α → List β) (as : List α)
    (b : β) : as.countP (fun a => b ∈ f a) ≤ (as.flatMap f).count b := by
  induction as with
  | nil => simp
  | cons a as ih =>
    rw [List.countP_cons, List.flatMap_cons, List.count_append]
    by_cases hmem : b ∈ f a
    · have hpos := List.count_pos_iff.2 hmem
      simp only [hmem, decide_true, if_true]
      omega
    · simp only [hmem, decide_false, Bool.false_eq_true, if_false]
      omega

theorem Tree.countP_declaredViews (h : job.Tree) (hview : view ∈ job.views) :
    job.createOps.countP (fun op => view.xref ∈ op.declaredViews) = 1 := by
  have hnodup : (job.views.map View.xref).Nodup := by
    rw [List.Nodup, List.pairwise_map]
    refine h.sorted_views.imp fun hlt heq => ?_
    rw [heq] at hlt
    omega
  have hcount : (job.createOps.flatMap CreateOp.declaredViews).count view.xref ≤ 1 := by
    rw [flatMap_createOps, h.perm_declaredViews.count_eq]
    exact List.nodup_iff_count_le_one.1 hnodup view.xref
  have hle := countP_mem_le_count_flatMap CreateOp.declaredViews job.createOps view.xref
  have hpos : 0 < job.createOps.countP (fun op => view.xref ∈ op.declaredViews) := by
    obtain ⟨parent, hparent, -, hdeclared⟩ := h.exists_parent hview
    obtain ⟨op, hop, hmem⟩ := List.mem_flatMap.1 hdeclared
    exact List.countP_pos_iff.2
      ⟨op, List.mem_flatMap.2 ⟨parent, hparent, hop⟩, by simpa using hmem⟩
  omega

end Job

end TemplateLowering
