import TemplateLowering.Proofs.Plan.BlockNesting
import TemplateLowering.Proofs.Plan.Invariants
import TemplateLowering.Proofs.Plan.Restore

/-!
# Walks over the views of a job

Both walks over the views look them up by number: the one over the blocks goes from a view to the
views declared in it, the other from a view to its parent.  In the job of a template a view has a
larger number than its parent, so that both end, and the first goes into every view once.
-/

namespace TemplateLowering

/-- Lists that consist of the same roots and of what is declared in them are the same, when all that
is declared has a larger number. -/
theorem perm_of_declares {declares : Xref → List Xref} {roots order order' : List Xref}
    (hlt : ∀ xref, ∀ inner ∈ declares xref, xref.index < inner.index)
    (h : order.Perm (roots ++ order.flatMap declares))
    (h' : order'.Perm (roots ++ order'.flatMap declares)) : order.Perm order' := by
  rw [List.perm_iff_count]
  intro x
  induction hx : x.index using Nat.strong_induction_on generalizing x with
  | h n ih =>
    subst hx
    have hsmaller : (order.filter fun y => y.index < x.index).Perm
        (order'.filter fun y => y.index < x.index) := by
      rw [List.perm_iff_count]
      intro y
      by_cases hy : y.index < x.index
      · rw [List.count_filter (by simpa using hy), List.count_filter (by simpa using hy)]
        exact ih _ hy y rfl
      · rw [List.count_eq_zero_of_not_mem (by simp [hy]), List.count_eq_zero_of_not_mem (by simp [hy])]
    have hcount : ∀ list : List Xref, (list.flatMap declares).count x =
        ((list.filter fun y => y.index < x.index).flatMap declares).count x := by
      intro list
      induction list with
      | nil => rfl
      | cons y list ih =>
        by_cases hy : y.index < x.index
        · simp [hy, ih]
        · have hout : x ∉ declares y := fun hmem => hy (hlt y x hmem)
          simp [hy, ih, List.count_eq_zero_of_not_mem hout]
    rw [h.count_eq, h'.count_eq, List.count_append, List.count_append, hcount order, hcount order',
      (hsmaller.flatMap_right declares).count_eq]

namespace Job

variable {job : Job}

theorem Intact.declared_lt (h : job.Intact) {xref inner : Xref} (hinner : inner ∈ job.declares xref) :
    xref.index < inner.index := by
  rw [declares_eq] at hinner
  cases hunit : job.unit? xref with
  | none => simp [hunit] at hinner
  | some view =>
    obtain rfl : view.xref = xref := by simpa using List.find?_some hunit
    rw [hunit] at hinner
    exact h.tree.declared_lt (List.mem_of_find?_eq_some hunit) hinner

theorem Intact.perm_declares (h : job.Intact) :
    (job.units.map View.xref).Perm ([job.root.xref] ++ (job.units.map View.xref).flatMap job.declares) := by
  have hdeclares : (job.units.map View.xref).flatMap job.declares =
      job.units.flatMap View.declaredViews := by
    rw [List.flatMap_map]
    refine List.flatMap_congr fun view hview => ?_
    rw [declares_eq, h.unit?_eq hview]
    rfl
  rw [hdeclares]
  exact h.tree.perm_declaredViews.symm.cons _

theorem Intact.exists_toured (h : job.Intact) :
    ∃ order index job', Toured job.units.length job.root.xref (job.stepsOf job.root.xref) none 0 job
      order index job' ∧ (job.root.xref :: order).Perm (job.units.map View.xref) := by
  obtain ⟨order, index, job', htoured⟩ := TemplateLowering.exists_toured job.units.length
    ⟨h.sound, h.rooted, fun view hview xref hxref => h.tree.declared_lt hview hxref⟩
    (job.viewsFrom_le job.root.xref) 0
  refine ⟨order, index, job', htoured, perm_of_declares (fun _ _ => h.declared_lt) ?_ h.perm_declares⟩
  have horder := htoured.order
  rw [job.filterMap_stepsOf] at horder
  exact horder.cons _

theorem Intact.above_iff (h : job.Intact) {view parent : View} (hparent : parent ∈ job.units)
    (hedge : view.parent = some parent.xref) (other : View) :
    job.Above other view ↔ other = parent ∨ job.Above other parent := by
  have hunique : ∀ outer ∈ job.units, view.parent = some outer.xref → outer = parent := by
    intro outer houter hedge'
    have hxref : outer.xref = parent.xref := Option.some.inj (hedge'.symm.trans hedge)
    have hfound := h.unit?_eq houter
    rw [hxref, h.unit?_eq hparent] at hfound
    exact (Option.some.inj hfound).symm
  constructor
  · intro habove
    cases habove with
    | single hstep => exact .inl (hunique other hstep.1 hstep.2)
    | tail habove hstep =>
      obtain rfl := hunique _ hstep.1 hstep.2
      exact .inr habove
  · rintro (rfl | habove)
    · exact .single ⟨hparent, hedge⟩
    · exact .tail habove ⟨hparent, hedge⟩

/-- The walk from a view to the root, as long as the fuel lasts. -/
theorem Intact.exists_enclosing (h : job.Intact) (hroot : job.root.parent = none) {view : View}
    (hview : view ∈ job.units) :
    ∃ ancestors, (∀ fuel, ancestors.length < fuel →
        job.enclosing fuel (some view.xref) = view :: ancestors) ∧
      (∀ other, other ∈ ancestors ↔ job.Above other view) ∧ (∀ other ∈ ancestors, other ∈ job.units) ∧
      (view :: ancestors).Pairwise (fun inner outer => outer.xref.index < inner.xref.index) ∧
      (view :: ancestors).getLast? = some job.root := by
  induction hindex : view.xref.index using Nat.strong_induction_on generalizing view with
  | h index ih =>
    subst hindex
    have hfound := h.unit?_eq hview
    rcases List.mem_cons.1 hview with rfl | hembedded
    · refine ⟨[], ?_, ?_, by simp, by simp, rfl⟩
      · intro fuel hfuel
        obtain ⟨fuel, rfl⟩ : ∃ n, fuel = n + 1 := ⟨fuel - 1, by simp at hfuel; omega⟩
        rw [enclosing, hfound]
        cases fuel <;> simp [enclosing, hroot]
      · intro other
        simp only [List.not_mem_nil, false_iff]
        rintro (⟨-, hedge⟩ | ⟨-, -, hedge⟩) <;> simp [hroot] at hedge
    · obtain ⟨parent, hparent, hedge, -⟩ := h.tree.exists_parent hembedded
      have hlt := h.tree.parent_lt hembedded hedge
      obtain ⟨ancestors, henclosing, habove, hunits, hsorted, hlast⟩ :=
        ih parent.xref.index hlt hparent rfl
      refine ⟨parent :: ancestors, ?_, ?_, List.forall_mem_cons.2 ⟨hparent, hunits⟩,
        List.pairwise_cons.2 ⟨?_, hsorted⟩, by rw [List.getLast?_cons_cons, hlast]⟩
      · intro fuel hfuel
        rw [List.length_cons] at hfuel
        obtain ⟨fuel, rfl⟩ : ∃ n, fuel = n + 1 := ⟨fuel - 1, by omega⟩
        rw [enclosing, hfound]
        simp [hedge, henclosing fuel (by omega)]
      · intro other
        rw [h.above_iff hparent hedge, List.mem_cons, habove]
      · rw [List.forall_mem_cons]
        exact ⟨hlt, fun other hother =>
          Nat.lt_trans ((List.pairwise_cons.1 hsorted).1 other hother) hlt⟩

end Job

namespace Plan

variable {component : String} {template : List Template.Node} {options : Options}
variable {plan : Plan} {job job' : Job}

/-- The walks over the views of a job, at any point of a plan.  The walk over the blocks comes to an
end, goes into every view once, and needs no more fuel than there are views.  The walk to the root
comes to an end as well; it goes from a view through the views above it. -/
theorem views_walked_of_run (h : Job.ofTemplate component template options = .ok job)
    (hrun : plan.run job = .ok job') :
    (∃ order index job'',
      Tours job'.root.xref (job'.stepsOf job'.root.xref) none 0 job' order index job'' ∧
      (∀ fuel, job'.units.length < fuel →
        Yields (propagateBlocks fuel job'.root.xref 0) job' index job'') ∧
      (job'.root.xref :: order).Perm (job'.units.map View.xref) ∧
      (job'.root.xref :: order).Nodup) ∧
    ∀ view ∈ job'.units, ∃ ancestors,
      (∀ fuel, job'.units.length ≤ fuel →
        job'.enclosing fuel (some view.xref) = view :: ancestors) ∧
      (∀ other, other ∈ ancestors ↔ job'.Above other view) ∧ (view :: ancestors).Nodup ∧
      (view :: ancestors).getLast? = some job'.root := by
  have hreached := reached_of_run h hrun
  have hintact := hreached.intact
  constructor
  · obtain ⟨order, index, job'', htoured, hperm⟩ := hintact.exists_toured
    refine ⟨order, index, job'', htoured.tours, ?_, hperm, hperm.nodup_iff.2 hintact.nodup_xrefs⟩
    intro fuel hfuel
    obtain ⟨fuel, rfl⟩ : ∃ n, fuel = n + 1 := ⟨fuel - 1, by omega⟩
    exact yields_propagateBlocks (htoured.yields fuel (by omega))
  · intro view hview
    obtain ⟨fragment, facts, -, hroot, -⟩ := Job.exists_lowering h
    obtain ⟨ancestors, henclosing, habove, hunits, hsorted, hlast⟩ :=
      hintact.exists_enclosing (hreached.root_parent hroot.parent) hview
    have hnodup : (view :: ancestors).Nodup := hsorted.imp fun hlt heq => by
      rw [heq] at hlt
      exact Nat.lt_irrefl _ hlt
    have hlength := (hnodup.subperm (List.forall_mem_cons.2 ⟨hview, hunits⟩)).length_le
    exact ⟨ancestors, fun fuel hfuel => henclosing fuel (Nat.lt_of_lt_of_le hlength hfuel), habove,
      hnodup, hlast⟩

theorem views_walked_of_run_gallery :
    ∃ job job', Job.ofTemplate "Gallery" gallery {} = .ok job ∧ standard.run job = .ok job' ∧
      ∀ view ∈ job'.units, ∃ ancestors,
        job'.enclosing job'.units.length (some view.xref) = view :: ancestors ∧
        (view :: ancestors).getLast? = some job'.root := by
  obtain ⟨job, job', hjob, hrun⟩ := gallery_runs
  refine ⟨job, job', hjob, hrun, fun view hview => ?_⟩
  obtain ⟨ancestors, henclosing, -, -, hlast⟩ := (views_walked_of_run hjob hrun).2 view hview
  exact ⟨ancestors, henclosing _ (Nat.le_refl _), hlast⟩

end Plan

end TemplateLowering
