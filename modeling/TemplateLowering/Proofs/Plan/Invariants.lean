import TemplateLowering.Proofs.Op.Nesting
import TemplateLowering.Proofs.Plan.Faults
import TemplateLowering.Proofs.Template.Sketch

/-!
# What a plan keeps

After every plan that succeeds on the job of a template, the numbers of the job are different, its
views form a tree that is described by the operations that declare them, and the starts and ends of
its operations are properly nested.
-/

namespace TemplateLowering.Plan

theorem gallery_runs : ∃ job job', Job.ofTemplate "Gallery" gallery {} = .ok job ∧
    standard.run job = .ok job' := by
  have heval : ((Job.ofTemplate "Gallery" gallery {}).toOption.bind fun job =>
      (standard.run job).toOption.map fun _ => ()) = some () := by decide +kernel
  obtain ⟨job, job', hjob, hrun, -⟩ := exists_ok_of_eval heval
  exact ⟨job, job', hjob, hrun⟩

variable {component : String} {template : List Template.Node} {options : Options}
variable {plan : Plan} {job job' : Job}

/-- No number is used twice: not for two views, two operations or two pipes, nor for a view and one
of these.  An operation that declares a view carries the number of that view, and an end carries the
number of its start, which is the one before it with nested operations in between. -/
theorem xrefs_distinct_of_run (h : Job.ofTemplate component template options = .ok job)
    (hrun : plan.run job = .ok job') :
    job'.xrefs.Nodup ∧ (∀ xref ∈ job'.xrefs, xref.index < job'.ids.nextXref) ∧
      ∀ view ∈ job'.units,
        (∀ op ∈ view.create.toList, ∀ xref ∈ op.declaredViews,
          ∃ inner ∈ job'.views, inner.xref = xref ∧ inner.parent = some view.xref) ∧
        ∀ before stop after bracket, view.create.toList = before ++ stop :: after →
          stop.marks = [.stop bracket] →
          ∃ front start inner, before = front ++ start :: inner ∧
            start.marks = [.start bracket] ∧ Nested (inner.flatMap CreateOp.marks) := by
  have hintact := (reached_of_run h hrun).intact
  have hdistinct := distinct_iff.1 hintact.distinct
  refine ⟨hdistinct.1, hdistinct.2, ?_⟩
  intro view hview
  refine ⟨?_, ?_⟩
  · intro op hop xref hxref
    exact hintact.tree.exists_view hview (List.mem_flatMap.2 ⟨op, hop, hxref⟩)
  · intro before stop after bracket hops hstop
    exact exists_startOp_of_balanced (hintact.balanced view hview) hops hstop

theorem xrefs_distinct_of_run_gallery :
    ∃ job job', Job.ofTemplate "Gallery" gallery {} = .ok job ∧ standard.run job = .ok job' ∧
      job'.xrefs.Nodup ∧ ∀ xref ∈ job'.xrefs, xref.index < job'.ids.nextXref := by
  obtain ⟨job, job', hjob, hrun⟩ := gallery_runs
  have hdistinct := xrefs_distinct_of_run hjob hrun
  exact ⟨job, job', hjob, hrun, hdistinct.1, hdistinct.2.1⟩

/-- Every embedded view is declared by exactly one operation of the job, which stands in its parent,
a view with a smaller number; every declared view is a view of the job; and the views are in the
order of their numbers. -/
theorem views_form_tree_of_run (h : Job.ofTemplate component template options = .ok job)
    (hrun : plan.run job = .ok job') :
    (∀ view ∈ job'.views,
      job'.createOps.countP (fun op => view.xref ∈ op.declaredViews) = 1 ∧
      ∃ parent ∈ job'.units, view.parent = some parent.xref ∧
        parent.xref.index < view.xref.index ∧
        ∃ op ∈ parent.create.toList, view.xref ∈ op.declaredViews) ∧
    (∀ op ∈ job'.createOps, ∀ xref ∈ op.declaredViews, ∃ view ∈ job'.views, view.xref = xref) ∧
    job'.views.Pairwise fun a b => a.xref.index < b.xref.index := by
  have htree := (reached_of_run h hrun).intact.tree
  refine ⟨?_, ?_, htree.sorted_views⟩
  · intro view hview
    obtain ⟨parent, hparent, hxref, hdeclared⟩ := htree.exists_parent hview
    obtain ⟨op, hop, hmem⟩ := List.mem_flatMap.1 hdeclared
    exact ⟨htree.countP_declaredViews hview, parent, hparent, hxref,
      htree.parent_lt hview hxref, op, hop, hmem⟩
  · intro op hop xref hxref
    obtain ⟨view, hview, hmem⟩ := List.mem_flatMap.1 hop
    have hdeclared : xref ∈ view.declaredViews := List.mem_flatMap.2 ⟨op, hmem, hxref⟩
    obtain ⟨inner, hinner, hxref', -⟩ := htree.exists_view hview hdeclared
    exact ⟨inner, hinner, hxref'⟩

theorem views_form_tree_of_run_gallery :
    ∃ job job', Job.ofTemplate "Gallery" gallery {} = .ok job ∧ standard.run job = .ok job' ∧
      ∀ view ∈ job'.views, job'.createOps.countP (fun op => view.xref ∈ op.declaredViews) = 1 := by
  obtain ⟨job, job', hjob, hrun⟩ := gallery_runs
  refine ⟨job, job', hjob, hrun, ?_⟩
  intro view hview
  exact ((views_form_tree_of_run hjob hrun).1 view hview).1

/-- The starts and ends of every view are properly nested, and once containers have been generated
no element is named as one, in whatever namespace. -/
theorem brackets_nested_of_run (h : Job.ofTemplate component template options = .ok job)
    (hrun : plan.run job = .ok job') :
    ∀ view ∈ job'.units, Nested view.marks ∧
      (.generateNgContainerOps ∈ plan.phases → ∀ op, .elementStart op ∈ view.create.toList →
        op.tag ≠ "ng-container" ∧
        ∀ key : String, ':' ∉ key.toList → op.tag ≠ ":" ++ key ++ ":ng-container") := by
  have hreached := reached_of_run h hrun
  intro view hview
  refine ⟨nested_of_balanced _ (hreached.intact.balanced view hview), ?_⟩
  intro hphase op hop
  have hmem : op.tag ∈ view.tags := List.mem_flatMap.2 ⟨_, hop, List.mem_singleton_self _⟩
  have htag : isNgContainer op.tag = false :=
    hreached.achieved .generateNgContainerOps (by simpa using hphase) view hview op.tag hmem
  refine ⟨?_, ?_⟩
  · intro heq
    rw [heq] at htag
    exact absurd htag (by decide)
  · intro key hkey heq
    rw [heq, isNgContainer_qualified hkey] at htag
    exact absurd htag (by decide)

theorem brackets_nested_of_run_gallery :
    ∃ job job', Job.ofTemplate "Gallery" gallery {} = .ok job ∧ standard.run job = .ok job' ∧
      .generateNgContainerOps ∈ standard.phases ∧
      ∀ view ∈ job'.units, Nested view.marks ∧
        ∀ op, .elementStart op ∈ view.create.toList → op.tag ≠ "ng-container" := by
  obtain ⟨job, job', hjob, hrun⟩ := gallery_runs
  have hphase : .generateNgContainerOps ∈ standard.phases := by decide
  refine ⟨job, job', hjob, hrun, hphase, ?_⟩
  intro view hview
  obtain ⟨hnested, htags⟩ := brackets_nested_of_run hjob hrun view hview
  exact ⟨hnested, fun op hop => (htags hphase op hop).1⟩

end TemplateLowering.Plan
