import TemplateLowering.Job.Ingest
import TemplateLowering.Proofs.Job.Tree
import TemplateLowering.Proofs.Lowering.Node

/-!
# Intact jobs

A job is intact when its numbers are different, its operations are sound, its blocks have their
roots, its marks are balanced and its views form a tree.  The job of a template is intact, and a
pass that keeps the outlines in shape leaves an intact job behind.
-/

namespace TemplateLowering

structure Job.Intact (job : Job) : Prop where
  distinct : Distinct job.ids.nextXref job.xrefs
  sound : job.Sound
  rooted : job.Rooted
  balanced : job.Balanced
  tree : job.Tree

namespace Job

variable {job job' : Job}

theorem Intact.turns {narrow : List BindingShape → List BindingShape} (h : job.Intact)
    (hturns : job.Turns narrow job') : job'.Intact := by
  refine ⟨hturns.grows.distinct h.distinct, hturns.sound, hturns.rooted, ?_, h.tree.turns hturns⟩
  intro view' hview'
  obtain ⟨view, hview, hreshapes⟩ := exists_left_of_mem hturns.outlines hview'
  exact hreshapes.balanced (h.balanced view hview)

theorem Intact.unit?_eq (h : job.Intact) {view : View} (hview : view ∈ job.units) :
    job.unit? view.xref = some view := by
  obtain ⟨before, after, hunits⟩ := List.append_of_mem hview
  have hnodup := (distinct_iff.1 h.distinct).1
  rw [xrefs, hunits, List.flatMap_append, List.nodup_append] at hnodup
  have hnone : before.find? (fun unit => unit.xref = view.xref) = none := by
    rw [List.find?_eq_none]
    intro unit hunit hxref
    have hmem : unit.xref ∈ before.flatMap View.xrefs :=
      List.mem_flatMap.2 ⟨unit, hunit, List.mem_cons_self⟩
    have hmem' : view.xref ∈ (view :: after).flatMap View.xrefs :=
      List.mem_flatMap.2 ⟨view, List.mem_cons_self, List.mem_cons_self⟩
    exact hnodup.2.2 _ hmem _ hmem' (by simpa using hxref)
  rw [unit?, hunits, List.find?_append, hnone, Option.none_or, List.find?_cons_of_pos]
  simp

theorem Intact.xref_ne_root (h : job.Intact) {view : View} (hview : view ∈ job.views) :
    view.xref ≠ job.root.xref := by
  have hnodup := (distinct_iff.1 h.distinct).1
  rw [xrefs, units, List.flatMap_cons, List.nodup_append] at hnodup
  have hmem : view.xref ∈ job.views.flatMap View.xrefs :=
    List.mem_flatMap.2 ⟨view, hview, List.mem_cons_self⟩
  exact (hnodup.2.2 _ List.mem_cons_self _ hmem).symm

/-! ## The job of a template -/

/-- The root view of a template: it has the first numbers and no parent, it declares no names, and
its operations are those of the lowered nodes. -/
structure RootOf (fragment : Fragment) (root : View) : Prop where
  xref : root.xref = ⟨0⟩
  parent : root.parent = none
  create : root.create.Lists fragment.create
  update : root.update.Lists fragment.update
  createId : root.create.id = ⟨0⟩
  updateId : root.update.id = ⟨1⟩
  aliases : root.aliases = []

theorem addLowered_eq (job : Job) (view : Xref) (lowering : Lower Fragment) :
    job.addLowered view lowering = (outcome lowering job.ids).map
      fun result => { job.addFragment view result.1 with ids := result.2 } := by
  unfold addLowered
  rw [outcome_exceptT]
  change (match (lowering.run.run job.ids).run with
    | (.ok fragment, ids) => _
    | (.error e, _) => _) = _
  generalize (lowering.run.run job.ids).run = result
  obtain ⟨e | fragment, ids⟩ := result <;> rfl

/-- The numbers that are free once the root view has taken its own. -/
def freeIds : Ids :=
  { nextXref := 1, nextList := 2 }

abbrev lowerRoot (component : String) (options : Options) (nodes : List Template.Node) :
    Lower Fragment :=
  lowerNodes (new .template component options).facts ⟨0⟩ nodes

/-- The job of a template whose nodes are lowered to a fragment. -/
def ofFragment (component : String) (options : Options) (fragment : Fragment) (ids : Ids) : Job :=
  { (new .template component options).addFragment ⟨0⟩ fragment with ids }

section Root

variable {component : String} {template : List Template.Node} {options : Options}
  {fragment : Fragment} {ids : Ids}

theorem ofTemplate_eq :
    ofTemplate component template options =
      (outcome (lowerRoot component options template) freeIds).map
        fun result => ofFragment component options result.1 result.2 :=
  addLowered_eq _ _ _

theorem rootOf_ofFragment : RootOf fragment (ofFragment component options fragment ids).root :=
  ⟨rfl, rfl, (OpList.lists_ofList _ []).appendAll fragment.create,
    (OpList.lists_ofList _ []).appendAll fragment.update, OpList.id_appendAll _ _,
    OpList.id_appendAll _ _, rfl⟩

theorem views_ofFragment : (ofFragment component options fragment ids).views = fragment.views :=
  List.nil_append _

theorem exists_lowering (h : ofTemplate component template options = .ok job) :
    ∃ fragment facts, Yields (lowerNodes facts ⟨0⟩ template) freeIds fragment job.ids ∧
      RootOf fragment job.root ∧ job.views = fragment.views ∧ job.kind = .template := by
  rw [ofTemplate_eq] at h
  cases hrun : outcome (lowerRoot component options template) freeIds with
  | error e => simp [hrun, Except.map] at h
  | ok result =>
    obtain ⟨fragment, ids⟩ := result
    rw [hrun] at h
    obtain rfl := Except.ok.inj h
    exact ⟨fragment, _, hrun, rootOf_ofFragment, views_ofFragment, rfl⟩

theorem exists_lowered (h : ofTemplate component template options = .ok job) :
    ∃ fragment s, s.nextXref = 1 ∧ fragment.Lowered ⟨0⟩ s job.ids ∧ RootOf fragment job.root ∧
      job.views = fragment.views ∧ job.kind = .template := by
  obtain ⟨fragment, facts, hyields, hroot, hviews, hkind⟩ := exists_lowering h
  exact ⟨fragment, freeIds, rfl, lowerNodes_lowered Nat.zero_lt_one hyields, hroot, hviews, hkind⟩

end Root

section Fragment

variable {fragment : Fragment} {root : View}

theorem RootOf.xrefs_eq (h : RootOf fragment root) (views : List View)
    (hviews : views = fragment.views) (x : Xref) :
    ((root :: views).flatMap View.xrefs).count x = ((⟨0⟩ : Xref) :: fragment.xrefs).count x := by
  simp only [List.flatMap_cons, View.xrefs, h.xref, h.create.toList, h.update.toList, hviews,
    Fragment.xrefs, List.count_append, List.count_cons]
  omega

theorem RootOf.sound (h : RootOf fragment root) (hfragment : fragment.Sound) : root.Sound := by
  refine ⟨h.create.linked, ?_, h.update.linked, ?_⟩
  · intro op hop
    rw [h.create.toList] at hop
    exact (hfragment.create op hop).sound
  · intro op hop
    rw [h.update.toList] at hop
    exact hfragment.update op hop

theorem RootOf.roots (h : RootOf fragment root) (hfragment : fragment.Sound) :
    ∀ block ∈ root.blocks, block.root = block.xref := by
  intro block hblock
  rw [View.blocks, h.create.toList] at hblock
  obtain ⟨op, hop, hmem⟩ := List.mem_flatMap.1 hblock
  exact (hfragment.create op hop).roots block hmem

theorem RootOf.declarations_eq (h : RootOf fragment root) :
    declarations ((root :: fragment.views).map View.skeleton) = fragment.declarations ⟨0⟩ := by
  rw [declarations_map, List.flatMap_cons, View.declaredViews, h.create.toList, h.xref]
  rfl

end Fragment

theorem ofTemplate_intact {component : String} {template : List Template.Node} {options : Options}
    (h : ofTemplate component template options = .ok job) : job.Intact ∧ job.kind = .template := by
  obtain ⟨fragment, s, hs, ⟨hgrows, hfits⟩, hroot, hviews, hkind⟩ := exists_lowered h
  have hunits : job.units = job.root :: fragment.views := by rw [units, hviews]
  refine ⟨⟨?_, ?_, ?_, ?_, ?_, ?_, ?_⟩, hkind⟩
  · rw [hs] at hgrows
    have hall := (Grows.fresh 0).append hgrows
    have hdistinct : Distinct 0 [] := by
      intro x
      simp
    intro x
    rw [xrefs, units, hroot.xrefs_eq job.views hviews]
    exact hall.distinct hdistinct x
  · rw [Sound, hunits, List.forall_mem_cons]
    exact ⟨hroot.sound hfits.sound, fun view hview => (hfits.sound.views view hview).sound⟩
  · have hroots : ∀ view ∈ job.units, ∀ block ∈ view.blocks, block.root = block.xref := by
      rw [hunits, List.forall_mem_cons]
      exact ⟨hroot.roots hfits.sound, fun view hview => (hfits.sound.views view hview).roots⟩
    intro block hblock
    obtain ⟨view, hview, hmem⟩ := List.mem_flatMap.1 hblock
    have hself := hroots view hview block hmem
    obtain ⟨xref, root, message⟩ := block
    obtain rfl : root = xref := hself
    exact hblock
  · rw [Balanced, hunits, List.forall_mem_cons]
    refine ⟨?_, fun view hview => (hfits.sound.views view hview).nested.balanced⟩
    rw [View.marks, hroot.create.toList]
    exact hfits.nested.balanced
  · have hedges : (fragment.declarations ⟨0⟩).Perm fragment.parentage := by
      rw [List.perm_iff_count]
      intro edge
      simpa using hfits.edges edge
    have hparentage : parentage (fragment.views.map View.skeleton) = fragment.parentage :=
      parentage_map fragment.views
    rw [← List.map_cons, hviews, hroot.declarations_eq, hparentage]
    exact hedges
  · intro skeleton hskeleton
    obtain ⟨view, hview, rfl⟩ := List.mem_map.1 hskeleton
    exact hfits.sound.parents view (hviews ▸ hview)
  · rw [List.pairwise_map, hviews]
    exact hfits.ordered.sorted

end Job

end TemplateLowering
