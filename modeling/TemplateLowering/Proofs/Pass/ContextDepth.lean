import TemplateLowering.Proofs.Pass.StepMerge

/-!
# Depths of contexts

Each step to an enclosing context leads further out, and the expressions that read the current view
depend on how far out it is.  Merging steps drops statements that only step and moves their steps to
later ones, but all that is left is evaluated at the same depth as before.
-/

namespace TemplateLowering

/-! ## Depths kept -/

/-- From some operations, evaluated from one depth on, statements that only step are dropped and
numbers of steps are changed, but every use that is left has the depth that it had. -/
inductive Merges : Nat → List UpdateOp → Nat → List UpdateOp → Prop
  | nil {depth : Nat} : Merges depth [] depth []
  | drop {depth depth' steps : Nat} {op : UpdateOp} {ops ops' : List UpdateOp} :
      op.bareSteps? = some steps → Merges (depth + steps) ops depth' ops' →
      Merges depth (op :: ops) depth' ops'
  | keep {depth depth' : Nat} {op op' : UpdateOp} {ops ops' : List UpdateOp} :
      op'.withoutSteps = op.withoutSteps →
      depthsFrom depth' op'.contextUses = depthsFrom depth op.contextUses →
      Merges (depth + stepsIn op.contextUses) ops (depth' + stepsIn op'.contextUses) ops' →
      Merges depth (op :: ops) depth' (op' :: ops')

section Merges

variable {depth depth' depth'' steps : Nat} {op op' : UpdateOp} {ops ops' ops'' : List UpdateOp}

theorem exists_nextContext_of_withoutSteps_eq {expr : Expr}
    (h : expr.withoutSteps = .nextContext 0) : ∃ steps, expr = .nextContext steps := by
  rw [Expr.withoutSteps_eq] at h
  cases expr with
  | nextContext steps => exact ⟨steps, rfl⟩
  | _ => simp [Expr.children, Expr.withChildren, forgetSteps] at h

theorem bareSteps?_of_withoutSteps_eq (h : op'.bareSteps? = some steps)
    (hsame : op'.withoutSteps = op.withoutSteps) : ∃ steps', op.bareSteps? = some steps' := by
  obtain ⟨span, rfl⟩ := exists_of_bareSteps? h
  rw [op.withoutSteps_eq] at hsame
  cases op with
  | statement body =>
    have hbody : .expression (.nextContext 0) span =
        body.withExprs (body.exprs.map Expr.withoutSteps) := UpdateOp.statement.inj hsame
    cases body with
    | expression expr span' =>
      obtain ⟨hexpr, rfl⟩ := Statement.expression.inj hbody
      obtain ⟨steps', rfl⟩ := exists_nextContext_of_withoutSteps_eq hexpr.symm
      exact ⟨steps', rfl⟩
    | _ => simp [Statement.withExprs] at hbody
  | _ => exact nomatch hsame

theorem Merges.refl (depth : Nat) (ops : List UpdateOp) : Merges depth ops depth ops := by
  induction ops generalizing depth with
  | nil => exact .nil
  | cons op ops ih => exact .keep rfl rfl (ih _)

theorem Merges.total (h : Merges depth ops depth' ops') :
    depth' + stepsIn (ops'.flatMap UpdateOp.contextUses) =
      depth + stepsIn (ops.flatMap UpdateOp.contextUses) := by
  induction h with
  | nil => rfl
  | drop hbare _ ih =>
    rw [ih, List.flatMap_cons, contextUses_of_bareSteps? hbare, stepsIn_append, ← Nat.add_assoc]
    rfl
  | keep _ _ _ ih =>
    rw [List.flatMap_cons, List.flatMap_cons, stepsIn_append, stepsIn_append, ← Nat.add_assoc, ih,
      Nat.add_assoc]

theorem Merges.trans (h : Merges depth ops depth' ops') (h' : Merges depth' ops' depth'' ops'') :
    Merges depth ops depth'' ops'' := by
  induction h generalizing depth'' ops'' with
  | nil => exact h'
  | drop hbare _ ih => exact .drop hbare (ih h')
  | @keep depth depth' op op' ops ops' hsame hdepths _ ih =>
    cases h' with
    | keep hsame' hdepths' hrest =>
      exact .keep (hsame'.trans hsame) (hdepths'.trans hdepths) (ih hrest)
    | @drop _ _ steps' _ _ _ hbare' hrest =>
      -- What is dropped later was a bare step before, at the same depth.
      obtain ⟨steps, hbare⟩ := bareSteps?_of_withoutSteps_eq hbare' hsame
      have huses := contextUses_of_bareSteps? hbare
      have huses' := contextUses_of_bareSteps? hbare'
      rw [huses, huses'] at ih
      exact .drop hbare (ih hrest)

/-- While the steps of a dropped statement are missing, all depths are what they were with it. -/
theorem merges_of_bumpsFirst (h : BumpsFirst UpdateOp.contextUses (UpdateOp.Bumps steps) ops ops')
    (depth : Nat) : Merges (depth + steps) ops depth ops' := by
  obtain ⟨front, op, op', back, rfl, rfl, hclear, hop⟩ := h
  obtain ⟨own, rest, hold, hnew⟩ := hop.stepsFirst
  induction front with
  | nil =>
    have hdepth : depth + (own + steps) = depth + steps + own := by omega
    refine .keep hop.withoutSteps_eq ?_ ?_
    · simp only [hold, hnew, depthsFrom, ContextUse.steps, hdepth]
    · have htotal : depth + stepsIn op'.contextUses = depth + steps + stepsIn op.contextUses := by
        simp only [hold, hnew, stepsIn, List.map_cons, List.sum_cons, ContextUse.steps]
        omega
      rw [htotal]
      exact .refl _ back
  | cons first front ih =>
    have hfirst := hclear first List.mem_cons_self
    refine .keep rfl (by rw [hfirst]; rfl) ?_
    rw [hfirst]
    exact ih fun other hmem => hclear other (List.mem_cons_of_mem _ hmem)

theorem Merged.merges (h : Merged ops ops') (depth : Nat) : Merges depth ops depth ops' := by
  induction h generalizing depth with
  | nil => exact .nil
  | keep _ _ ih => exact .keep rfl rfl (ih _)
  | merge hbare hbumps _ ih =>
    exact .drop hbare ((merges_of_bumpsFirst hbumps depth).trans (ih depth))

end Merges

/-! ## Enough room -/

theorem mergeStepsAlong_isOk {l : OpList UpdateOp} {front back : List Nat}
    (h : l.Chain (front ++ back))
    (hsteps : stepsIn ((back.filterMap l.op?).flatMap UpdateOp.contextUses) < UInt64.size) :
    ∃ l', mergeStepsAlong l back = .ok l' := by
  induction back generalizing l front with
  | nil => exact ⟨l, rfl⟩
  | cons i back ih =>
    obtain ⟨op, hop⟩ := h.exists_op? (i := i) (by simp)
    rw [List.filterMap_cons, hop, List.flatMap_cons, stepsIn_append] at hsteps
    rcases mergeStepsAlong_cons h hop with ⟨-, hround⟩ |
      ⟨steps, own, rest, hbare, hold, ⟨hmany, -⟩ | ⟨next, hround, hnext, -, hbumps⟩⟩
    · have hnext : l.Chain ((front ++ [i]) ++ back) := by simpa using h
      rw [hround]
      exact ih hnext (by omega)
    · rw [contextUses_of_bareSteps? hbare, hold] at hsteps
      simp only [stepsIn, List.map_cons, List.sum_cons, List.map_nil, List.sum_nil,
        ContextUse.steps] at hsteps
      omega
    · have htotal := (merges_of_bumpsFirst hbumps 0).total
      have hown : stepsIn op.contextUses = steps := by
        rw [contextUses_of_bareSteps? hbare]
        rfl
      rw [hround]
      exact ih hnext (by omega)

theorem mergeNextContexts_total {ops : OpList UpdateOp} (h : ops.Linked)
    (hsteps : stepsIn (ops.toList.flatMap UpdateOp.contextUses) < UInt64.size) :
    ∃ merged, mergeNextContexts ops = .ok merged ∧ merged.Linked ∧
      Merges 0 ops.toList 0 merged.toList ∧ Settled merged.toList := by
  obtain ⟨is, hchain⟩ := id h
  have hstart : ops.Chain ([] ++ is) := hchain
  rw [hchain.toList_eq] at hsteps
  obtain ⟨merged, hrun⟩ := mergeStepsAlong_isOk hstart hsteps
  rw [← hchain.indices_eq] at hrun
  obtain ⟨hlinked, hmerged⟩ := merged_of_mergeNextContexts h hrun
  exact ⟨merged, hrun, hlinked, hmerged.merges 0, hmerged.settled⟩

/-! ## Depths before and after -/

/-- An operation with the depths of the uses in it, in the order of a visit. -/
structure PlacedOp where
  op : UpdateOp
  depths : List Nat

def placedFrom (depth : Nat) : List UpdateOp → List PlacedOp
  | [] => []
  | op :: ops =>
      ⟨op, depthsFrom depth op.contextUses⟩ :: placedFrom (depth + stepsIn op.contextUses) ops

theorem Merges.exists_kept {depth depth' : Nat} {ops ops' : List UpdateOp}
    (h : Merges depth ops depth' ops') :
    ∃ kept, kept.Sublist (placedFrom depth ops) ∧
      kept.filter (fun placed => placed.op.bareSteps?.isNone) =
        (placedFrom depth ops).filter (fun placed => placed.op.bareSteps?.isNone) ∧
      List.Forall₂ (fun old new => new.op.withoutSteps = old.op.withoutSteps ∧
        new.depths = old.depths) kept (placedFrom depth' ops') := by
  induction h with
  | nil => exact ⟨[], List.Sublist.refl _, rfl, .nil⟩
  | drop hbare _ ih =>
    obtain ⟨kept, hsublist, hfilter, hkept⟩ := ih
    have huses := contextUses_of_bareSteps? hbare
    refine ⟨kept, ?_, ?_, hkept⟩
    · rw [placedFrom, huses]
      exact hsublist.cons _
    · rw [placedFrom, huses, List.filter_cons_of_neg (by simp [hbare])]
      exact hfilter
  | @keep depth depth' op op' ops ops' hsame hdepths _ ih =>
    obtain ⟨kept, hsublist, hfilter, hkept⟩ := ih
    refine ⟨⟨op, depthsFrom depth op.contextUses⟩ :: kept, hsublist.cons_cons _, ?_,
      .cons ⟨hsame, hdepths⟩ hkept⟩
    rw [placedFrom, List.filter_cons, List.filter_cons, hfilter]

/-- Merging drops nothing but statements that only step, changes nothing but numbers of steps, and
keeps the depth of every use that is left and the number of all steps.  What could be merged is
merged. -/
theorem mergeNextContexts_preserves_depths {ops : OpList UpdateOp} (h : ops.Linked)
    (hsteps : stepsIn (ops.toList.flatMap UpdateOp.contextUses) < 2 ^ 64) :
    ∃ merged, mergeNextContexts ops = .ok merged ∧ merged.Linked ∧
      (∃ kept, kept.Sublist (placedFrom 0 ops.toList) ∧
        kept.filter (fun placed => placed.op.bareSteps?.isNone) =
          (placedFrom 0 ops.toList).filter (fun placed => placed.op.bareSteps?.isNone) ∧
        List.Forall₂ (fun old new => new.op.withoutSteps = old.op.withoutSteps ∧
          new.depths = old.depths) kept (placedFrom 0 merged.toList)) ∧
      stepsIn (merged.toList.flatMap UpdateOp.contextUses) =
        stepsIn (ops.toList.flatMap UpdateOp.contextUses) ∧
      Settled merged.toList := by
  obtain ⟨merged, hrun, hlinked, hmerges, hsettled⟩ := mergeNextContexts_total h hsteps
  refine ⟨merged, hrun, hlinked, hmerges.exists_kept, ?_, hsettled⟩
  simpa using hmerges.total

theorem mergeNextContexts_preserves_depths_stepping :
    (OpList.ofList ⟨0⟩ steppingOps).Linked ∧
      stepsIn ((OpList.ofList ⟨0⟩ steppingOps).toList.flatMap UpdateOp.contextUses) < 2 ^ 64 ∧
      ∃ merged, mergeNextContexts (OpList.ofList ⟨0⟩ steppingOps) = .ok merged ∧
        stepsIn (merged.toList.flatMap UpdateOp.contextUses) = 7 ∧ Settled merged.toList ∧
        (placedFrom 0 merged.toList).map PlacedOp.depths = [[6], [7], [7]] := by
  have hlists := OpList.lists_ofList ⟨0⟩ steppingOps
  have htotal : stepsIn (steppingOps.flatMap UpdateOp.contextUses) = 7 := by decide +kernel
  rw [← hlists.toList] at htotal
  have hsteps : stepsIn ((OpList.ofList ⟨0⟩ steppingOps).toList.flatMap UpdateOp.contextUses) <
      2 ^ 64 := by
    rw [htotal]
    decide
  obtain ⟨merged, hrun, -, -, hmerged, hsettled⟩ :=
    mergeNextContexts_preserves_depths hlists.linked hsteps
  have hdepths : ((mergeNextContexts (OpList.ofList ⟨0⟩ steppingOps)).toOption.map fun merged =>
      (placedFrom 0 merged.toList).map PlacedOp.depths) = some [[6], [7], [7]] := by
    decide +kernel
  rw [hrun] at hdepths
  exact ⟨hlists.linked, hsteps, merged, hrun, hmerged.trans htotal, hsettled,
    Option.some.inj hdepths⟩

end TemplateLowering
