import TemplateLowering.Proofs.Op.ContextEvaluation
import TemplateLowering.Proofs.Pass.ContextDepth

/-!
# Views that are seen

Merging looks for the next step in the order of a visit, while the code that runs may leave a step
out or restore a view before it.  Where the step that takes over is made in any case, from the view
that was current before, everything that is left sees the views that it saw.
-/

namespace TemplateLowering

/-! ## The next step -/

/-- The first action that is not quiet is a step, so that it is made however the conditions come
out, and no view is restored before it. -/
def StepsNext (actions : List Action) : Prop :=
  ∃ own, actions.find? (fun action => !action.isQuiet) = some (.step own)

/-- A step that is made in any case gets more steps. -/
def AddsToStep (steps : Nat) (actions actions' : List Action) : Prop :=
  ∃ front own back, areQuiet front = true ∧ actions = front ++ .step own :: back ∧
    actions' = front ++ .step (own + steps) :: back

section Next

variable {steps : Nat} {actions actions' : List Action}

theorem find?_of_areQuiet (h : areQuiet actions = true) :
    actions.find? (fun action => !action.isQuiet) = none := by
  simpa using areQuiet_iff.1 h

theorem StepsNext.drop (h : StepsNext (actions ++ actions')) (hquiet : areQuiet actions = true) :
    StepsNext actions' := by
  obtain ⟨own, hfind⟩ := h
  rw [List.find?_append, find?_of_areQuiet hquiet] at hfind
  exact ⟨own, hfind⟩

theorem StepsNext.take (h : StepsNext (actions ++ actions')) (hloud : areQuiet actions = false) :
    StepsNext actions := by
  obtain ⟨own, hfind⟩ := h
  rw [List.find?_append] at hfind
  cases hfirst : actions.find? (fun action => !action.isQuiet) with
  | none =>
    have hquiet : areQuiet actions = true := areQuiet_iff.2 (by simpa using hfirst)
    simp [hquiet] at hloud
  | some action =>
    rw [hfirst] at hfind
    exact ⟨own, hfirst.trans hfind⟩

theorem StepsNext.areQuiet (h : StepsNext (actions ++ actions')) (hstep : ∀ own, .step own ∉ actions) :
    areQuiet actions = true := by
  by_contra hloud
  obtain ⟨own, hfind⟩ := h.take (by simpa using hloud)
  exact hstep own (List.mem_of_find?_eq_some hfind)

theorem not_stepsNext_branch {yes no : List Action} : ¬StepsNext [.branch yes no] := by
  rintro ⟨own, hfind⟩
  simpa using List.mem_of_find?_eq_some hfind

theorem AddsToStep.append (h : AddsToStep steps actions actions') (more : List Action) :
    AddsToStep steps (actions ++ more) (actions' ++ more) := by
  obtain ⟨front, own, back, hquiet, rfl, rfl⟩ := h
  exact ⟨front, own, back ++ more, hquiet, by simp, by simp⟩

theorem AddsToStep.append_left (h : AddsToStep steps actions actions') {front : List Action}
    (hfront : areQuiet front = true) : AddsToStep steps (front ++ actions) (front ++ actions') := by
  obtain ⟨front', own, back, hquiet, rfl, rfl⟩ := h
  refine ⟨front ++ front', own, back, ?_, by simp, by simp⟩
  rw [areQuiet_iff] at hfront hquiet ⊢
  simpa [or_imp, forall_and] using ⟨hfront, hquiet⟩

end Next

/-! ## Actions and uses -/

/-- Without uses there are no steps, and what is quiet has no uses. -/
structure ActsAs (uses : List ContextUse) (actions : List Action) : Prop where
  noStep : uses = [] → ∀ own, .step own ∉ actions
  noUse : areQuiet actions = true → uses = []

theorem areQuiet_append {actions actions' : List Action} :
    areQuiet (actions ++ actions') = true ↔ areQuiet actions = true ∧ areQuiet actions' = true := by
  simp only [areQuiet_iff, List.mem_append, or_imp, forall_and]

section ActsAs

variable {uses uses' : List ContextUse} {actions actions' yes no : List Action}

theorem ActsAs.append (h : ActsAs uses actions) (h' : ActsAs uses' actions') :
    ActsAs (uses ++ uses') (actions ++ actions') := by
  constructor
  · intro hnone own hmem
    rw [List.append_eq_nil_iff] at hnone
    rcases List.mem_append.1 hmem with hmem | hmem
    · exact h.noStep hnone.1 own hmem
    · exact h'.noStep hnone.2 own hmem
  · intro hquiet
    rw [areQuiet_append] at hquiet
    rw [h.noUse hquiet.1, h'.noUse hquiet.2]
    rfl

theorem ActsAs.flatMap {α : Type} {usesOf : α → List ContextUse} {actionsOf : α → List Action}
    {as : List α} (h : ∀ a ∈ as, ActsAs (usesOf a) (actionsOf a)) :
    ActsAs (as.flatMap usesOf) (as.flatMap actionsOf) := by
  induction as with
  | nil => exact ⟨by simp, fun _ => rfl⟩
  | cons a as ih =>
    exact (h a List.mem_cons_self).append (ih fun b hmem => h b (List.mem_cons_of_mem _ hmem))

theorem ActsAs.branch (h : areQuiet (yes ++ no) = true → uses = []) :
    ActsAs uses [.branch yes no] := by
  constructor
  · simp
  · intro hquiet
    rw [areQuiet, Action.isQuiet, areQuiet, Bool.and_true, Bool.and_eq_true] at hquiet
    exact h (areQuiet_append.2 hquiet)

end ActsAs

theorem Expr.actions_of_branches {expr : Expr} (h : expr.branches = true) :
    ∃ first later yes no, expr.children = first :: later ∧ expr.contextUse? = none ∧
      (∀ first', (expr.withChildren (first' :: later)).actions =
        first'.actions ++ [.branch yes no]) ∧
      yes ++ no = later.flatMap actions := by
  cases expr with
  | conditional condition trueCase falseCase span =>
    refine ⟨condition, trueCase :: falseCase.toList, trueCase.actions, actionsOfOption falseCase,
      rfl, rfl, fun first' => ?_, ?_⟩
    · cases falseCase <;> simp [withChildren, actions]
    · simp [actionsOfOption_eq]
  | binary operator lhs rhs span =>
    have hskip : operator.maySkip = true := h
    exact ⟨lhs, [rhs], rhs.actions, [], rfl, rfl,
      fun first' => by simp [withChildren, actions, hskip], by simp⟩
  | _ => simp [branches] at h

theorem Expr.withChildren_of_children_eq {expr : Expr} {parts : List Expr}
    (h : expr.children = parts) : expr.withChildren parts = expr := by
  rw [← h, withChildren_children]

theorem Expr.actsAs (expr : Expr) : ActsAs expr.contextUses expr.actions := by
  induction expr using Expr.induction_children with
  | h expr ih =>
    rw [contextUses_eq]
    cases hbranches : expr.branches with
    | true =>
      obtain ⟨first, later, yes, no, hparts, huse, hacts, hlater⟩ := actions_of_branches hbranches
      have hown := withChildren_of_children_eq hparts ▸ hacts first
      rw [hparts] at ih
      have hbranch : ActsAs (later.flatMap contextUses) [.branch yes no] := by
        apply ActsAs.branch
        rw [hlater]
        exact (ActsAs.flatMap fun child hmem => ih child (List.mem_cons_of_mem _ hmem)).noUse
      rw [huse, hparts, List.flatMap_cons, Option.toList_none, List.append_nil, hown]
      exact (ih first List.mem_cons_self).append hbranch
    | false =>
      have hown : ActsAs expr.contextUse?.toList expr.ownActions := by
        cases expr with
        | restoreView | restoreViewFrom | nextContext | getCurrentView | reference
        | contextLetReference => constructor <;> simp [ownActions, contextUse?, areQuiet, Action.isQuiet]
        | _ => constructor <;> simp [ownActions, contextUse?]
      rw [actions_eq hbranches]
      exact (ActsAs.flatMap ih).append hown

mutual

theorem Statement.actsAs (body : Statement) :
    ActsAs (body.exprs.flatMap Expr.contextUses) body.actions := by
  match body with
  | .declareVar name value span =>
    rw [Statement.actions, actionsOfOption_eq]
    exact ActsAs.flatMap fun expr _ => expr.actsAs
  | .expression expr span | .return_ expr span =>
    simpa [Statement.exprs, Statement.actions] using expr.actsAs
  | .if_ condition trueCase falseCase span =>
    rw [Statement.exprs, Statement.actions, List.flatMap_cons, List.flatMap_append]
    refine condition.actsAs.append (ActsAs.branch ?_)
    exact ((statements_actsAs trueCase).append (statements_actsAs falseCase)).noUse

theorem statements_actsAs (bodies : List Statement) :
    ActsAs ((exprsOfStatements bodies).flatMap Expr.contextUses) (actionsOfStatements bodies) := by
  match bodies with
  | [] => exact ⟨by simp [actionsOfStatements], fun _ => rfl⟩
  | body :: bodies =>
    rw [exprsOfStatements, List.flatMap_append, actionsOfStatements]
    exact (Statement.actsAs body).append (statements_actsAs bodies)

end

theorem UpdateOp.actsAs (op : UpdateOp) : ActsAs op.contextUses op.actions := by
  rw [contextUses_eq]
  cases op with
  | statement body => exact body.actsAs
  | _ => exact ActsAs.flatMap fun expr _ => expr.actsAs

/-! ## Taking over the next step -/

section Bumps

variable {α : Type} {uses : α → List ContextUse} {actions : α → List Action} {bumps : α → α → Prop}
  {as as' : List α} {steps : Nat}

theorem addsToStep_of_bumpsFirst (hacts : ∀ a, ActsAs (uses a) (actions a))
    (hbumps : ∀ a a', bumps a a' → uses a ≠ [] ∧
      (StepsNext (actions a) → AddsToStep steps (actions a) (actions a')))
    (h : BumpsFirst uses bumps as as') (hnext : StepsNext (as.flatMap actions)) :
    AddsToStep steps (as.flatMap actions) (as'.flatMap actions) := by
  obtain ⟨front, a, a', back, rfl, rfl, hclear, ha⟩ := h
  obtain ⟨huses, hadds⟩ := hbumps a a' ha
  have hloud : areQuiet (actions a) = false := by
    by_contra hquiet
    exact huses ((hacts a).noUse (by simpa using hquiet))
  have hfront := (ActsAs.flatMap fun b (_ : b ∈ front) => hacts b).noStep
    (List.flatMap_eq_nil_iff.2 hclear)
  rw [List.flatMap_append, List.flatMap_cons] at hnext ⊢
  rw [List.flatMap_append, List.flatMap_cons]
  have hquiet := hnext.areQuiet hfront
  exact ((hadds ((hnext.drop hquiet).take hloud)).append _).append_left hquiet

theorem addsToStep_of_first {bumps : Expr → Expr → Prop} {first : Expr} {later parts : List Expr}
    {yes no : List Action} (hbumps : ∀ expr expr', bumps expr expr' → expr.contextUses ≠ [] ∧
      (StepsNext expr.actions → AddsToStep steps expr.actions expr'.actions))
    (h : BumpsFirst Expr.contextUses bumps (first :: later) parts)
    (hnext : StepsNext (first.actions ++ [.branch yes no])) :
    ∃ first', parts = first' :: later ∧
      AddsToStep steps (first.actions ++ [.branch yes no]) (first'.actions ++ [.branch yes no]) := by
  obtain ⟨front, expr, expr', back, hsplit, rfl, hclear, hexpr⟩ := h
  cases front with
  | nil =>
    obtain ⟨rfl, rfl⟩ := List.cons.inj hsplit
    obtain ⟨huses, hadds⟩ := hbumps first expr' hexpr
    have hloud : areQuiet first.actions = false := by
      by_contra hquiet
      exact huses (first.actsAs.noUse (by simpa using hquiet))
    exact ⟨expr', rfl, (hadds (hnext.take hloud)).append _⟩
  | cons other front =>
    obtain ⟨rfl, rfl⟩ := List.cons.inj hsplit
    have hquiet := hnext.areQuiet (first.actsAs.noStep (hclear first List.mem_cons_self))
    exact absurd (hnext.drop hquiet) not_stepsNext_branch

theorem StepsFirst.ne_nil {uses uses' : List ContextUse} (h : StepsFirst steps uses uses') :
    uses ≠ [] := by
  obtain ⟨own, rest, rfl, -⟩ := h
  simp

theorem Expr.branches_withChildren (expr : Expr) (parts : List Expr) :
    (expr.withChildren parts).branches = expr.branches ∧
      (expr.withChildren parts).ownActions = expr.ownActions := by
  unfold withChildren
  split <;> exact ⟨rfl, rfl⟩

theorem Expr.Bumps.addsToStep {expr expr' : Expr} (h : Bumps steps expr expr')
    (hnext : StepsNext expr.actions) : AddsToStep steps expr.actions expr'.actions := by
  induction h with
  | @here own => exact ⟨[], own, [], rfl, rfl, rfl⟩
  | @part expr child child' front back hchildren hclear hchild ih =>
    have hfirst : BumpsFirst contextUses (fun a a' => a = child ∧ a' = child') expr.children
        (front ++ child' :: back) := ⟨front, child, child', back, hchildren, rfl, hclear, rfl, rfl⟩
    have hbumps : ∀ a a', a = child ∧ a' = child' → a.contextUses ≠ [] ∧
        (StepsNext a.actions → AddsToStep steps a.actions a'.actions) := by
      rintro a a' ⟨rfl, rfl⟩
      exact ⟨hchild.stepsFirst.ne_nil, ih⟩
    cases hbranches : expr.branches with
    | true =>
      obtain ⟨first, later, yes, no, hparts, -, hacts, -⟩ := actions_of_branches hbranches
      have hown := withChildren_of_children_eq hparts ▸ hacts first
      rw [hparts] at hfirst
      rw [hown] at hnext ⊢
      obtain ⟨first', hnew, hadds⟩ := addsToStep_of_first hbumps hfirst hnext
      rwa [hnew, hacts]
    | false =>
      obtain ⟨hbranches', hown⟩ := branches_withChildren expr (front ++ child' :: back)
      have hloud : areQuiet (expr.children.flatMap actions) = false := by
        by_contra hquiet
        have hnone := (ActsAs.flatMap fun other (_ : other ∈ expr.children) => other.actsAs).noUse
          (by simpa using hquiet)
        exact hchild.stepsFirst.ne_nil
          (List.flatMap_eq_nil_iff.1 hnone child (by simp [hchildren]))
      rw [actions_eq hbranches] at hnext ⊢
      rw [actions_eq (hbranches'.trans hbranches), children_withChildren (by simp [hchildren]), hown]
      exact (addsToStep_of_bumpsFirst actsAs hbumps hfirst (hnext.take hloud)).append _

theorem Statement.withExprs_if_ (condition condition' : Expr) (trueCase falseCase : List Statement)
    (span : Option SourceSpan) :
    (Statement.if_ condition trueCase falseCase span).withExprs
        (condition' :: (exprsOfStatements trueCase ++ exprsOfStatements falseCase)) =
      .if_ condition' trueCase falseCase span := by
  have hfalse := (refills_statements falseCase).1 []
  rw [List.append_nil] at hfalse
  rw [Statement.withExprs, List.headD_cons, List.tail_cons, (refills_statements trueCase).1,
    List.drop_left, hfalse]

theorem UpdateOp.Bumps.addsToStep {op op' : UpdateOp} (h : op.Bumps steps op')
    (hnext : StepsNext op.actions) : AddsToStep steps op.actions op'.actions := by
  obtain ⟨parts, hfirst, rfl⟩ := h
  have hbumps : ∀ expr expr', Expr.Bumps steps expr expr' → expr.contextUses ≠ [] ∧
      (StepsNext expr.actions → AddsToStep steps expr.actions expr'.actions) :=
    fun _ _ hexpr => ⟨hexpr.stepsFirst.ne_nil, hexpr.addsToStep⟩
  have hlength : parts.length = op.exprs.length := by
    obtain ⟨_, _, _, _, hexprs, rfl, -⟩ := hfirst
    simp [hexprs]
  have hplain : op.actions = op.exprs.flatMap Expr.actions →
      (op.withExprs parts).actions = (op.withExprs parts).exprs.flatMap Expr.actions →
      AddsToStep steps op.actions (op.withExprs parts).actions := by
    intro hold hnew
    rw [hnew, exprs_withExprs hlength]
    rw [hold] at hnext ⊢
    exact addsToStep_of_bumpsFirst Expr.actsAs hbumps hfirst hnext
  cases op with
  | statement body =>
    cases body with
    | if_ condition trueCase falseCase span =>
      obtain ⟨condition', rfl, hadds⟩ := addsToStep_of_first hbumps hfirst hnext
      rw [withExprs, Statement.withExprs_if_]
      exact hadds
    | declareVar name value span =>
      exact hplain (actionsOfOption_eq value) (actionsOfOption_eq _)
    | expression expr span | return_ expr span =>
      exact hplain (by simp [actions, Statement.actions, exprs, Statement.exprs])
        (by simp [withExprs, Statement.withExprs, actions, Statement.actions, exprs,
          Statement.exprs])
  | _ => exact hplain rfl rfl

end Bumps

/-! ## The same views -/

/-- From an evaluation, statements that only step are dropped; what is left is the same but for
numbers of steps, and sees the same views. -/
inductive KeepsViews {ν : Type} : List (EvaluatedOp ν) → List (EvaluatedOp ν) → Prop
  | nil : KeepsViews [] []
  | drop {old : EvaluatedOp ν} {olds news : List (EvaluatedOp ν)} :
      old.op.bareSteps?.isSome = true → KeepsViews olds news → KeepsViews (old :: olds) news
  | keep {old new : EvaluatedOp ν} {olds news : List (EvaluatedOp ν)} :
      new.op.withoutSteps = old.op.withoutSteps → new.seen = old.seen → KeepsViews olds news →
      KeepsViews (old :: olds) (new :: news)

section Views

variable {ν : Type} {runtime : Runtime ν} {s : Evaluation ν} {steps : Nat}
  {as bs cs : List (EvaluatedOp ν)} {ops ops' : List UpdateOp}

theorem KeepsViews.refl (as : List (EvaluatedOp ν)) : KeepsViews as as := by
  induction as with
  | nil => exact .nil
  | cons a as ih => exact .keep rfl rfl ih

theorem KeepsViews.trans (h : KeepsViews as bs) (h' : KeepsViews bs cs) : KeepsViews as cs := by
  induction h generalizing cs with
  | nil => exact h'
  | drop hbare _ ih => exact .drop hbare (ih h')
  | keep hsame hseen _ ih =>
    cases h' with
    | keep hsame' hseen' hrest => exact .keep (hsame'.trans hsame) (hseen'.trans hseen) (ih hrest)
    | drop hbare hrest =>
      obtain ⟨steps, hbare⟩ := Option.isSome_iff_exists.1 hbare
      obtain ⟨steps', hold⟩ := bareSteps?_of_withoutSteps_eq hbare hsame
      exact .drop (by rw [hold]; rfl) (ih hrest)

theorem evaluatedFrom_seen (seen : List (Sight ν)) (ops : List UpdateOp) :
    evaluatedFrom runtime { s with seen } ops = evaluatedFrom runtime s ops := by
  cases ops <;> rfl

/-- While the steps of a dropped statement are missing, nothing sees a view; then they are made. -/
theorem keepsViews_of_bumpsFirst
    (h : BumpsFirst UpdateOp.contextUses (UpdateOp.Bumps steps) ops ops')
    (hnext : StepsNext (ops.flatMap UpdateOp.actions)) (s : Evaluation ν) :
    KeepsViews (evaluatedFrom runtime (s.ahead runtime steps) ops)
      (evaluatedFrom runtime s ops') := by
  obtain ⟨front, op, op', back, rfl, rfl, hclear, hop⟩ := h
  induction front generalizing s with
  | nil =>
    have hloud : areQuiet op.actions = false := by
      by_contra hquiet
      exact hop.stepsFirst.ne_nil (op.actsAs.noUse (by simpa using hquiet))
    obtain ⟨front, own, rest, hquiet, hold, hnew⟩ := hop.addsToStep (hnext.take hloud)
    have hrun : runActions runtime op.actions ({ s with seen := [] }.ahead runtime steps) =
        runActions runtime op'.actions { s with seen := [] } := by
      rw [hold, hnew, runActions_append, runActions_append, runActions_ahead front hquiet,
        runActions, runActions, run_step_ahead]
    change KeepsViews (⟨op, (runActions runtime op.actions ({ s with seen := [] }.ahead runtime
      steps)).seen⟩ :: evaluatedFrom runtime (runActions runtime op.actions
        ({ s with seen := [] }.ahead runtime steps)) back) _
    rw [hrun]
    exact .keep hop.withoutSteps_eq rfl (.refl _)
  | cons first front ih =>
    have hquiet : areQuiet first.actions = true :=
      StepsNext.areQuiet hnext (first.actsAs.noStep (hclear first List.mem_cons_self))
    have hrun : runActions runtime first.actions ({ s with seen := [] }.ahead runtime steps) =
        (runActions runtime first.actions { s with seen := [] }).ahead runtime steps :=
      runActions_ahead first.actions hquiet _
    change KeepsViews (⟨first, (runActions runtime first.actions ({ s with seen := [] }.ahead
      runtime steps)).seen⟩ :: evaluatedFrom runtime (runActions runtime first.actions
        ({ s with seen := [] }.ahead runtime steps)) _) _
    rw [hrun]
    exact .keep rfl rfl (ih _ (StepsNext.drop hnext hquiet)
      fun other hmem => hclear other (List.mem_cons_of_mem _ hmem))

/-- Whenever the next use behind a bare step is a step, that one is made in any case, and no view is
restored before it. -/
def StraightSteps (ops : List UpdateOp) : Prop :=
  ∀ before op after, ops = before ++ op :: after → op.bareSteps?.isSome = true →
    ∀ own rest, after.flatMap UpdateOp.contextUses = .step own :: rest →
      StepsNext (after.flatMap UpdateOp.actions)

theorem straightSteps_cons {op : UpdateOp} :
    StraightSteps (op :: ops) ↔
      (op.bareSteps?.isSome = true →
        ∀ own rest, ops.flatMap UpdateOp.contextUses = .step own :: rest →
          StepsNext (ops.flatMap UpdateOp.actions)) ∧ StraightSteps ops :=
  forall_split_cons

theorem StraightSteps.of_bumpsFirst (h : StraightSteps ops)
    (hbumps : BumpsFirst UpdateOp.contextUses (UpdateOp.Bumps steps) ops ops') :
    StraightSteps ops' := by
  obtain ⟨front, op, op', back, rfl, rfl, hclear, hop⟩ := hbumps
  intro before bare after hsplit hbare
  obtain ⟨own, hown⟩ := Option.isSome_iff_exists.1 hbare
  have hout : bare ∉ front := by
    intro hmem
    simpa [contextUses_of_bareSteps? hown] using hclear bare hmem
  have hbehind : ∃ middle, before = front ++ middle ∧ op' :: back = middle ++ bare :: after := by
    rcases List.append_eq_append_iff.1 hsplit with ⟨middle, hbefore, hrest⟩ | ⟨middle, rfl, hrest⟩
    · exact ⟨middle, hbefore, hrest⟩
    · cases middle with
      | nil => exact ⟨[], by simp, hrest.symm⟩
      | cons other middle =>
        obtain ⟨rfl, -⟩ := List.cons.inj hrest
        exact absurd (by simp) hout
  -- The bare step is the operation that was changed, or it comes behind it.
  obtain ⟨middle, rfl, hrest⟩ := hbehind
  cases middle with
  | nil =>
    obtain ⟨rfl, rfl⟩ := List.cons.inj hrest
    obtain ⟨own', hown'⟩ := bareSteps?_of_withoutSteps_eq hown hop.withoutSteps_eq
    exact h front op back rfl (by rw [hown']; rfl)
  | cons other middle =>
    obtain ⟨rfl, rfl⟩ := List.cons.inj hrest
    exact h (front ++ op :: middle) bare after (by simp) hbare

theorem Merged.keepsViews (h : Merged ops ops') (hstraight : StraightSteps ops) (s : Evaluation ν) :
    KeepsViews (evaluatedFrom runtime s ops) (evaluatedFrom runtime s ops') := by
  induction h generalizing s with
  | nil => exact .nil
  | keep _ _ ih => exact .keep rfl rfl (ih (straightSteps_cons.1 hstraight).2 _)
  | @merge op steps ops bumped ops' hbare hbumps _ ih =>
    obtain ⟨own, rest, hold, -⟩ := hbumps.stepsFirst fun _ _ => UpdateOp.Bumps.stepsFirst
    obtain ⟨hfirst, hlater⟩ := straightSteps_cons.1 hstraight
    have hnext := hfirst (by rw [hbare]; rfl) own rest hold
    have hrest := ih (hlater.of_bumpsFirst hbumps) s
    refine .drop (by rw [hbare]; rfl) (KeepsViews.trans ?_ hrest)
    obtain ⟨span, rfl⟩ := exists_of_bareSteps? hbare
    have hviews : KeepsViews (evaluatedFrom runtime (s.ahead runtime steps) ops)
        (evaluatedFrom runtime s bumped) := keepsViews_of_bumpsFirst hbumps hnext s
    rw [← evaluatedFrom_seen [.stepped (runtime.parent^[steps] s.current)]] at hviews
    exact hviews

/-- Merging preserves evaluation where it moves steps to a step that is made in any case: in every
runtime and from every view, what is left sees the views that it saw. -/
theorem mergeNextContexts_preserves_views {ops merged : OpList UpdateOp} (h : ops.Linked)
    (hrun : mergeNextContexts ops = .ok merged) (hstraight : StraightSteps ops.toList)
    (runtime : Runtime ν) (start : ν) :
    KeepsViews (evaluatedFrom runtime { current := start } ops.toList)
      (evaluatedFrom runtime { current := start } merged.toList) :=
  (merged_of_mergeNextContexts h hrun).2.keepsViews hstraight _

theorem KeepsViews.seen_eq (h : KeepsViews as bs) :
    (bs.filter fun evaluated => evaluated.op.bareSteps?.isNone).map EvaluatedOp.seen =
      (as.filter fun evaluated => evaluated.op.bareSteps?.isNone).map EvaluatedOp.seen := by
  induction h with
  | nil => rfl
  | drop hbare _ ih => rw [ih, List.filter_cons_of_neg (by simp [Option.isSome_iff_ne_none.1 hbare])]
  | @keep old new olds news hsame hseen _ ih =>
    have hbare : new.op.bareSteps?.isNone = old.op.bareSteps?.isNone := by
      cases hnew : new.op.bareSteps? with
      | some steps =>
        obtain ⟨steps', hold⟩ := bareSteps?_of_withoutSteps_eq hnew hsame
        rw [hold]
        rfl
      | none =>
        cases hold : old.op.bareSteps? with
        | some steps =>
          obtain ⟨steps', hnew'⟩ := bareSteps?_of_withoutSteps_eq hold hsame.symm
          simp [hnew] at hnew'
        | none => rfl
    rw [List.filter_cons, List.filter_cons, hbare]
    split
    · rw [List.map_cons, List.map_cons, hseen, ih]
    · exact ih

end Views

/-- Views are numbered from the inside, all saved views are the tenth, and no condition holds. -/
def outward : Runtime Nat where
  parent := (· + 1)
  saved _ := 10
  value _ := 10
  choice _ := false

theorem mergeNextContexts_preserves_views_stepping :
    (OpList.ofList ⟨0⟩ steppingOps).Linked ∧
      StraightSteps (OpList.ofList ⟨0⟩ steppingOps).toList ∧
      ∃ merged, mergeNextContexts (OpList.ofList ⟨0⟩ steppingOps) = .ok merged ∧
        KeepsViews (evaluatedFrom outward { current := 0 } (OpList.ofList ⟨0⟩ steppingOps).toList)
          (evaluatedFrom outward { current := 0 } merged.toList) ∧
        (evaluatedFrom outward { current := 0 } merged.toList).map EvaluatedOp.seen =
          [[.stepped 6], [.stepped 7], [.read 7]] := by
  have hlists := OpList.lists_ofList ⟨0⟩ steppingOps
  have hstraight : StraightSteps (OpList.ofList ⟨0⟩ steppingOps).toList := by
    rw [hlists.toList]
    refine straightSteps_cons.2 ⟨fun _ _ _ _ => ⟨1, rfl⟩, ?_⟩
    refine straightSteps_cons.2 ⟨fun _ _ _ _ => ⟨3, rfl⟩, ?_⟩
    refine straightSteps_cons.2 ⟨by simp [UpdateOp.bareSteps?], ?_⟩
    refine straightSteps_cons.2 ⟨fun _ _ _ huses => ?_, ?_⟩
    · exact absurd (List.cons.inj huses).1 (by simp)
    · exact straightSteps_cons.2 ⟨by simp [UpdateOp.bareSteps?], by simp [StraightSteps]⟩
  have hseen : ((mergeNextContexts (OpList.ofList ⟨0⟩ steppingOps)).toOption.map fun merged =>
      (evaluatedFrom outward { current := 0 } merged.toList).map EvaluatedOp.seen) =
        some [[.stepped 6], [.stepped 7], [.read 7]] := by
    decide +kernel
  cases hrun : mergeNextContexts (OpList.ofList ⟨0⟩ steppingOps) with
  | error fault => simp [hrun, Except.toOption] at hseen
  | ok merged =>
    rw [hrun] at hseen
    exact ⟨hlists.linked, hstraight, merged, rfl,
      mergeNextContexts_preserves_views hlists.linked hrun hstraight outward 0,
      Option.some.inj hseen⟩

/-- A step before one that is made on a condition only. -/
def branchingOps : List UpdateOp :=
  [.statement (.expression (.nextContext 1) none),
    .statement (.if_ (.readVar "open" none) [.expression (.nextContext 1) none] [] none),
    .statement (.expression .getCurrentView none)]

/-- A step before one that is made from a view that is restored in between. -/
def restoringOps : List UpdateOp :=
  [.statement (.expression (.nextContext 1) none),
    .statement (.expression (.restoreView ⟨0⟩) none),
    .statement (.return_ (.nextContext 1) none)]

/-- Merging changes what some operation sees that does more than step. -/
def ChangesViews (ops : List UpdateOp) : Prop :=
  ∃ merged, mergeNextContexts (OpList.ofList ⟨0⟩ ops) = .ok merged ∧
    ¬KeepsViews (evaluatedFrom outward { current := 0 } (OpList.ofList ⟨0⟩ ops).toList)
      (evaluatedFrom outward { current := 0 } merged.toList)

theorem changesViews_of_seen {ops : List UpdateOp}
    (h : ((mergeNextContexts (OpList.ofList ⟨0⟩ ops)).toOption.any fun merged =>
      ((evaluatedFrom outward { current := 0 } merged.toList).filter fun evaluated =>
        evaluated.op.bareSteps?.isNone).map EvaluatedOp.seen ≠
      ((evaluatedFrom outward { current := 0 } (OpList.ofList ⟨0⟩ ops).toList).filter
        fun evaluated => evaluated.op.bareSteps?.isNone).map EvaluatedOp.seen) = true) :
    ChangesViews ops := by
  cases hrun : mergeNextContexts (OpList.ofList ⟨0⟩ ops) with
  | error fault => simp [hrun, Except.toOption] at h
  | ok merged =>
    rw [hrun] at h
    refine ⟨merged, hrun, fun hviews => ?_⟩
    simp [Except.toOption, hviews.seen_eq] at h

/-- Steps that are moved into a branch, or past a view that is restored, change what is seen. -/
theorem mergeNextContexts_changes_views :
    ChangesViews branchingOps ∧ ChangesViews restoringOps :=
  ⟨changesViews_of_seen (by decide +kernel), changesViews_of_seen (by decide +kernel)⟩

end TemplateLowering
