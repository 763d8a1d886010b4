import TemplateLowering.Proofs.Job.Units

/-!
# Steps between contexts in outlines

No operation of a sound job is a bare step to another context, so that there is nothing to merge and
the lists stay as they are.
-/

namespace TemplateLowering

theorem mergeStepsAlong_eq {ops : OpList UpdateOp} {indices : List Nat}
    (h : ∀ index ∈ indices, (ops.op? index).bind UpdateOp.bareSteps? = none) :
    mergeStepsAlong ops indices = .ok ops := by
  induction indices with
  | nil => rfl
  | cons index indices ih =>
    rw [mergeStepsAlong, h index List.mem_cons_self]
    exact ih fun other hmem => h other (List.mem_cons_of_mem _ hmem)

theorem SoundOps.mergeNextContexts {ops : OpList UpdateOp} (h : SoundOps ops) :
    mergeNextContexts ops = .ok ops := by
  apply mergeStepsAlong_eq
  intro index hmem
  cases hop : ops.op? index with
  | none => rfl
  | some op =>
    have hlisted : op ∈ ops.toList := List.mem_filterMap.2 ⟨index, hmem, hop⟩
    exact (h.sound op hlisted).noBareSteps

theorem CreateOp.Sound.mergeNextContexts {op : CreateOp} (hop : op.Sound) :
    op.mergeNextContexts = .ok op := by
  cases op with
  | listener op =>
    rw [CreateOp.mergeNextContexts, hop.handler.mergeNextContexts]
    rfl
  | repeaterCreate op =>
    cases hops : op.trackByOps with
    | none => simp only [CreateOp.mergeNextContexts, hops, pure, Except.pure]
    | some ops =>
      have hsound : SoundOps ops := hop.lists _ (by simp [CreateOp.lists, hops])
      simp only [CreateOp.mergeNextContexts, hops, hsound.mergeNextContexts, bind, Except.bind,
        pure, Except.pure]
      rw [← hops]
  | _ => rfl

theorem Job.mergeNextContextExpressions_turns {job : Job}
    (hsound : job.Sound) (hrooted : job.Rooted) :
    ∃ job', job.mergeNextContextExpressions = .ok job' ∧ job.Turns id job' := by
  apply turns_mapUnitsM hrooted
  intro view hview
  have hview := hsound view hview
  obtain ⟨create, _, ops, hyields, hlists, hthreads⟩ := hview.create.lists.total_mapM
    (R := fun _ op op' _ => op' = op)
    (fun op hop _ => ⟨op, (), yields_except.2 (hview.createOps op hop).mergeNextContexts, rfl⟩) ()
  have hops : ops = view.create.toList := by
    have heq : List.Forall₂ (fun op op' => op = op') view.create.toList ops :=
      hthreads.forall₂ fun _ _ _ _ _ h => h.symm
    exact (List.forall₂_eq_eq_eq ▸ heq).symm
  have hrewritten : view.Rewritten { view with create } [] ops [] := by
    refine ⟨rfl, rfl, by simpa using hlists, ?_, by simp, by simp⟩
    rw [hops, List.forall₂_same]
    exact fun op _ => .refl op
  refine ⟨{ view with create }, ?_, ?_⟩
  · rw [yields_except.1 hyields, hview.update.mergeNextContexts]
    rfl
  · refine View.turns_of_outline_eq (View.grows_of_create rfl ?_ rfl) (hrewritten.outline_eq rfl)
      (hrewritten.sound hview hview.update)
    rw [hlists.toList, hops]
    exact Grows.refl _ _

end TemplateLowering
