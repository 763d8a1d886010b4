import TemplateLowering.Pass.NextContext
import TemplateLowering.Proofs.Op.ContextUse
import TemplateLowering.Proofs.OpList.Content

/-!
# Merged steps

A statement that only steps is dropped when the first use of a context behind it is a step too.  The
search for that step is described once, whether it looks through the parts of an expression, the
expressions of an operation or the operations of a list, and the whole walk through a list is
described by `Merged`.
-/

namespace TemplateLowering

/-! ## Taking over steps -/

/-- The first use among some things is in one that changes as `bumps` says; the others stay. -/
def BumpsFirst {α : Type} (uses : α → List ContextUse) (bumps : α → α → Prop) (as as' : List α) :
    Prop :=
  ∃ front a a' back, as = front ++ a :: back ∧ as' = front ++ a' :: back ∧
    (∀ other ∈ front, uses other = []) ∧ bumps a a'

/-- The first use in the expression is a step, and it takes over more steps. -/
inductive Expr.Bumps (steps : Nat) : Expr → Expr → Prop
  | here {own : Nat} : Bumps steps (.nextContext own) (.nextContext (own + steps))
  | part {expr child child' : Expr} {front back : List Expr} :
      expr.children = front ++ child :: back → (∀ other ∈ front, other.contextUses = []) →
      Bumps steps child child' →
      Bumps steps expr (expr.withChildren (front ++ child' :: back))

def UpdateOp.Bumps (steps : Nat) (op op' : UpdateOp) : Prop :=
  ∃ parts, BumpsFirst Expr.contextUses (Expr.Bumps steps) op.exprs parts ∧ op' = op.withExprs parts

/-- What a search comes to, given the uses in what it looks through.  Once it is over, and where
there is no use, nothing happens; a read ends it, and the first step takes over the steps, unless
there are too many to count. -/
inductive Searched {α : Type} (uses : α → List ContextUse) (bumps : α → α → Prop) (steps : Nat)
    (s : StepSearch) (a : α) : Except Fault (α × StepSearch) → Prop
  | ended : s.isOpen = false → Searched uses bumps steps s a (.ok (a, s))
  | pass : s.isOpen = true → uses a = [] → Searched uses bumps steps s a (.ok (a, s))
  | stop {rest : List ContextUse} : s.isOpen = true → uses a = .read :: rest →
      Searched uses bumps steps s a (.ok (a, { s with isOpen := false }))
  | take {a' : α} : s.isOpen = true → bumps a a' →
      Searched uses bumps steps s a (.ok (a', { isOpen := false, found := true }))
  | fail {own : Nat} {rest : List ContextUse} {fault : Fault} : s.isOpen = true →
      uses a = .step own :: rest → UInt64.size ≤ own + steps →
      Searched uses bumps steps s a (.error fault)

section Search

variable {α : Type} {uses : α → List ContextUse} {bumps : α → α → Prop} {steps : Nat}
  {s t : StepSearch} {a a' : α}

theorem Searched.eq_of_ended {x : Except Fault (α × StepSearch)} (h : Searched uses bumps steps s a x)
    (hs : s.isOpen = false) : x = .ok (a, s) := by
  cases h with
  | ended _ => rfl
  | pass hopen _ | stop hopen _ | take hopen _ | fail hopen _ _ => simp [hs] at hopen

theorem ok_bind {ε β : Type} (a : α) (f : α → Except ε β) : (Except.ok a >>= f) = f a :=
  rfl

theorem searched_mapM {f : α → StepMove α} {as : List α}
    (h : ∀ a ∈ as, ∀ s, Searched uses bumps steps s a (outcome (f a) s)) (s : StepSearch) :
    Searched (List.flatMap uses) (BumpsFirst uses bumps) steps s as (outcome (as.mapM f) s) := by
  induction as generalizing s with
  | nil =>
    rw [List.mapM_nil, Stateful.outcome_pure]
    cases hs : s.isOpen with
    | false => exact .ended hs
    | true => exact .pass hs rfl
  | cons a as ih =>
    have hfirst := h a List.mem_cons_self s
    have hrest := ih fun other hmem => h other (List.mem_cons_of_mem _ hmem)
    simp only [List.mapM_cons, Stateful.outcome_bind, Stateful.outcome_pure]
    generalize outcome (f a) s = x at hfirst
    cases hfirst with
    | ended hs =>
      rw [ok_bind, (hrest s).eq_of_ended hs]
      exact .ended hs
    | pass hs huses =>
      have hflat : ∀ bs, List.flatMap uses (a :: bs) = bs.flatMap uses := by simp [huses]
      have hlater := hrest s
      rw [ok_bind]
      generalize outcome (as.mapM f) s = y at hlater
      cases hlater with
      | ended hended => simp [hs] at hended
      | pass _ hnone => exact .pass hs (by rw [hflat, hnone])
      | stop _ hread => exact .stop hs (by rw [hflat, hread])
      | fail _ hstep hmany => exact .fail hs (by rw [hflat, hstep]) hmany
      | take _ hbumps =>
        obtain ⟨front, b, b', back, rfl, rfl, hclear, hb⟩ := hbumps
        refine .take hs ⟨a :: front, b, b', back, rfl, rfl, ?_, hb⟩
        intro other hmem
        rcases List.mem_cons.1 hmem with rfl | hmem
        · exact huses
        · exact hclear other hmem
    | stop hs hread =>
      rw [ok_bind, (hrest _).eq_of_ended rfl]
      exact .stop hs (by rw [List.flatMap_cons, hread, List.cons_append])
    | take hs hbumps =>
      rw [ok_bind, (hrest _).eq_of_ended rfl]
      exact .take hs ⟨[], a, _, as, rfl, rfl, by simp, hbumps⟩
    | fail hs hstep hmany => exact .fail hs (by rw [List.flatMap_cons, hstep, List.cons_append]) hmany

theorem searched_takeOverSteps (expr : Expr) (s : StepSearch) :
    Searched (fun expr => expr.contextUse?.toList)
      (fun expr expr' => ∃ own, expr = .nextContext own ∧ expr' = .nextContext (own + steps)) steps s
      expr ((takeOverSteps steps {} expr).run s) := by
  cases hs : s.isOpen with
  | false =>
    have hrun : (takeOverSteps steps {} expr).run s = pure (expr, s) := by
      simp [takeOverSteps, hs]
    rw [hrun]
    exact .ended hs
  | true =>
    cases expr with
    | nextContext own =>
      cases hsum : addCounts own steps with
      | ok total =>
        obtain ⟨-, rfl⟩ := addCounts_eq_ok_iff.1 hsum
        have hrun : (takeOverSteps steps {} (.nextContext own)).run s =
            pure (.nextContext (own + steps), { isOpen := false, found := true }) := by
          simp [takeOverSteps, hs, addSteps, hsum, Except.mapError]
          rfl
        rw [hrun]
        exact .take hs ⟨own, rfl, rfl⟩
      | error fault =>
        have hmany : UInt64.size ≤ own + steps := by
          by_contra hfew
          simp [addCounts_eq_ok_iff.2 ⟨Nat.lt_of_not_le hfew, rfl⟩] at hsum
        have hrun : (takeOverSteps steps {} (.nextContext own)).run s = .error (.count fault) := by
          simp [takeOverSteps, hs, addSteps, hsum, Except.mapError]
        rw [hrun]
        exact .fail hs rfl hmany
    | getCurrentView | reference | contextLetReference =>
      simp only [takeOverSteps, StateT.run_bind, StateT.run_get, pure_bind, hs]
      exact .stop hs rfl
    | _ =>
      simp only [takeOverSteps, StateT.run_bind, StateT.run_get, pure_bind, hs]
      exact .pass hs rfl

theorem Expr.searched_visitM (expr : Expr) (s : StepSearch) :
    Searched contextUses (Bumps steps) steps s expr
      (outcome (expr.visitM (takeOverSteps steps) {}) s) := by
  induction expr using Expr.induction_children generalizing s with
  | h expr ih =>
    have hparts := searched_mapM ih s
    have haction := fun expr => @searched_takeOverSteps steps expr
    rw [visitM_eq, Stateful.outcome_bind]
    generalize outcome (expr.children.mapM (visitM (takeOverSteps steps) {})) s = x at hparts
    have huses := contextUses_eq expr
    cases hparts with
    | ended hs =>
      rw [ok_bind, withChildren_children]
      rw [show outcome _ _ = _ from (haction expr s).eq_of_ended hs]
      exact .ended hs
    | pass hs hclear =>
      rw [hclear, List.nil_append] at huses
      rw [ok_bind, withChildren_children]
      have hown := haction expr s
      change Searched _ _ _ _ _ ((takeOverSteps steps {} expr).run s)
      generalize (takeOverSteps steps {} expr).run s = y at hown
      cases hown with
      | ended hended => simp [hs] at hended
      | pass _ hnone => exact .pass hs (huses.trans hnone)
      | stop _ hread => exact .stop hs (huses.trans hread)
      | fail _ hstep hmany => exact .fail hs (huses.trans hstep) hmany
      | take _ hbumps =>
        obtain ⟨own, rfl, rfl⟩ := hbumps
        exact .take hs .here
    | stop hs hread =>
      rw [hread, List.cons_append] at huses
      rw [ok_bind, withChildren_children]
      rw [show outcome _ _ = _ from (haction expr _).eq_of_ended rfl]
      exact .stop hs huses
    | take hs hbumps =>
      obtain ⟨front, child, child', back, hchildren, rfl, hclear, hchild⟩ := hbumps
      rw [ok_bind]
      rw [show outcome _ _ = _ from (haction _ _).eq_of_ended rfl]
      exact .take hs (.part hchildren hclear hchild)
    | fail hs hstep hmany =>
      rw [hstep, List.cons_append] at huses
      exact .fail hs huses hmany

/-- The visit of one operation, which is left alone when the search is over. -/
def searchOp (steps : Nat) (op : UpdateOp) : StepMove UpdateOp := do
  if (← get).isOpen then op.visitM (takeOverSteps steps) {} else return op

theorem searched_searchOp (op : UpdateOp) (s : StepSearch) :
    Searched UpdateOp.contextUses (UpdateOp.Bumps steps) steps s op
      (outcome (searchOp steps op) s) := by
  cases hs : s.isOpen with
  | false =>
    have hrun : (searchOp steps op).run s = pure (op, s) := by simp [searchOp, hs]
    rw [show outcome _ _ = _ from hrun]
    exact .ended hs
  | true =>
    have hrun : outcome (searchOp steps op) s = outcome (op.visitM (takeOverSteps steps) {}) s := by
      change (searchOp steps op).run s = (op.visitM (takeOverSteps steps) {}).run s
      simp [searchOp, hs]
    have hparts := searched_mapM (fun expr (_ : expr ∈ op.exprs) => @Expr.searched_visitM steps expr) s
    have huses := op.contextUses_eq
    rw [hrun, UpdateOp.visitM_eq, ← bind_pure_comp, Stateful.outcome_bind]
    simp only [Stateful.outcome_pure]
    generalize outcome (op.exprs.mapM (Expr.visitM (takeOverSteps steps) {})) s = x at hparts
    cases hparts with
    | ended hended => simp [hs] at hended
    | pass _ hnone =>
      rw [ok_bind, op.withExprs_exprs]
      exact .pass hs (huses.trans hnone)
    | stop _ hread =>
      rw [ok_bind, op.withExprs_exprs]
      exact .stop hs (huses.trans hread)
    | take _ hbumps => exact .take hs ⟨_, hbumps, rfl⟩
    | fail _ hstep hmany => exact .fail hs (huses.trans hstep) hmany

end Search

section Bumps

variable {steps : Nat} {expr expr' : Expr} {op op' : UpdateOp} {ops ops' : List UpdateOp}

/-- The first use is a step, and it gets more steps. -/
def StepsFirst (steps : Nat) (uses uses' : List ContextUse) : Prop :=
  ∃ own rest, uses = .step own :: rest ∧ uses' = .step (own + steps) :: rest

theorem BumpsFirst.stepsFirst {α : Type} {uses : α → List ContextUse} {bumps : α → α → Prop}
    {as as' : List α} (h : BumpsFirst uses bumps as as')
    (hbumps : ∀ a a', bumps a a' → StepsFirst steps (uses a) (uses a')) :
    StepsFirst steps (as.flatMap uses) (as'.flatMap uses) := by
  obtain ⟨front, a, a', back, rfl, rfl, hclear, ha⟩ := h
  obtain ⟨own, rest, hold, hnew⟩ := hbumps a a' ha
  refine ⟨own, rest ++ back.flatMap uses, ?_, ?_⟩ <;>
    simp [List.flatMap_eq_nil_iff.2 hclear, hold, hnew]

theorem Expr.Bumps.stepsFirst (h : Bumps steps expr expr') :
    StepsFirst steps expr.contextUses expr'.contextUses := by
  induction h with
  | @here own => exact ⟨own, [], rfl, rfl⟩
  | @part expr child child' front back hchildren hclear _ ih =>
    obtain ⟨own, rest, hold, hnew⟩ := ih
    have hfront : front.flatMap contextUses = [] := List.flatMap_eq_nil_iff.2 hclear
    refine ⟨own, rest ++ back.flatMap contextUses ++ expr.contextUse?.toList, ?_, ?_⟩
    · simp [contextUses_eq expr, hchildren, hfront, hold]
    · rw [contextUses_eq, children_withChildren (by simp [hchildren]), contextUse?_withChildren]
      simp [hfront, hnew]

theorem UpdateOp.Bumps.stepsFirst (h : op.Bumps steps op') :
    StepsFirst steps op.contextUses op'.contextUses := by
  obtain ⟨parts, hparts, rfl⟩ := h
  have hlength : parts.length = op.exprs.length := by
    obtain ⟨_, _, _, _, hexprs, rfl, -⟩ := hparts
    simp [hexprs]
  rw [contextUses_eq, contextUses_eq, exprs_withExprs hlength]
  exact hparts.stepsFirst fun _ _ => Expr.Bumps.stepsFirst

theorem Expr.Bumps.withoutSteps_eq (h : Bumps steps expr expr') :
    expr'.withoutSteps = expr.withoutSteps := by
  induction h with
  | here => rfl
  | part hchildren _ _ ih => exact withoutSteps_withChildren (by simp [hchildren, ih])

theorem UpdateOp.Bumps.withoutSteps_eq (h : op.Bumps steps op') :
    op'.withoutSteps = op.withoutSteps := by
  obtain ⟨_, ⟨front, expr, expr', back, hexprs, rfl, -, hexpr⟩, rfl⟩ := h
  exact withoutSteps_withExprs (by simp [hexprs, hexpr.withoutSteps_eq])

theorem exists_of_bareSteps? (h : op.bareSteps? = some steps) :
    ∃ span, op = .statement (.expression (.nextContext steps) span) := by
  unfold UpdateOp.bareSteps? at h
  split at h
  · obtain rfl := Option.some.inj h
    exact ⟨_, rfl⟩
  · simp at h

theorem contextUses_of_bareSteps? (h : op.bareSteps? = some steps) :
    op.contextUses = [.step steps] := by
  obtain ⟨span, rfl⟩ := exists_of_bareSteps? h
  rfl

end Bumps

/-! ## Merging -/

/-- How a walk merges some operations: a bare step is dropped where the first use behind it is a step
that takes it over, and everything else is kept. -/
inductive Merged : List UpdateOp → List UpdateOp → Prop
  | nil : Merged [] []
  | keep {op : UpdateOp} {ops ops' : List UpdateOp} :
      (op.bareSteps?.isSome = true →
        ∀ own rest, ops.flatMap UpdateOp.contextUses ≠ .step own :: rest) →
      Merged ops ops' → Merged (op :: ops) (op :: ops')
  | merge {op : UpdateOp} {steps : Nat} {ops bumped ops' : List UpdateOp} :
      op.bareSteps? = some steps →
      BumpsFirst UpdateOp.contextUses (UpdateOp.Bumps steps) ops bumped → Merged bumped ops' →
      Merged (op :: ops) ops'

/-- No statement that only steps is left where a later step could take over. -/
def Settled (ops : List UpdateOp) : Prop :=
  ∀ before op after, ops = before ++ op :: after → op.bareSteps?.isSome = true →
    ∀ own rest, after.flatMap UpdateOp.contextUses ≠ .step own :: rest

theorem forall_split_cons {α : Type} {P : α → List α → Prop} {a : α} {as : List α} :
    (∀ before b after, a :: as = before ++ b :: after → P b after) ↔
      P a as ∧ ∀ before b after, as = before ++ b :: after → P b after := by
  constructor
  · intro h
    refine ⟨h [] a as rfl, ?_⟩
    rintro before b after rfl
    exact h (a :: before) b after rfl
  · rintro ⟨hfirst, hrest⟩ before b after hsplit
    cases before with
    | nil =>
      obtain ⟨rfl, rfl⟩ := List.cons.inj hsplit
      exact hfirst
    | cons _ before =>
      obtain ⟨-, rfl⟩ := List.cons.inj hsplit
      exact hrest before b after rfl

theorem settled_cons {op : UpdateOp} {ops : List UpdateOp} :
    Settled (op :: ops) ↔
      (op.bareSteps?.isSome = true →
        ∀ own rest, ops.flatMap UpdateOp.contextUses ≠ .step own :: rest) ∧ Settled ops :=
  forall_split_cons

section Merge

variable {ops ops' : List UpdateOp}

theorem Merged.not_step (h : Merged ops ops')
    (hops : ∀ own rest, ops.flatMap UpdateOp.contextUses ≠ .step own :: rest) (own : Nat)
    (rest : List ContextUse) : ops'.flatMap UpdateOp.contextUses ≠ .step own :: rest := by
  induction h with
  | nil => exact hops own rest
  | merge hbare _ _ _ =>
    rw [List.flatMap_cons, contextUses_of_bareSteps? hbare] at hops
    exact absurd rfl (hops _ _)
  | @keep op ops ops' _ _ ih =>
    rw [List.flatMap_cons] at hops ⊢
    cases huses : op.contextUses with
    | nil =>
      rw [huses] at hops
      exact ih hops
    | cons use uses =>
      rw [huses] at hops
      rintro heq
      obtain ⟨rfl, -⟩ := List.cons.inj heq
      exact hops own _ rfl

theorem Merged.settled (h : Merged ops ops') : Settled ops' := by
  induction h with
  | nil => simp [Settled]
  | keep hbare hrest ih => exact settled_cons.2 ⟨fun hop => hrest.not_step (hbare hop), ih⟩
  | merge _ _ _ ih => exact ih

end Merge

section Along

variable {l l' : OpList UpdateOp} {front back : List Nat} {i steps : Nat} {op : UpdateOp}

theorem moveSteps_eq (ops : OpList UpdateOp) (indices : List Nat) :
    moveSteps steps ops indices =
      (indices.foldlM (OpList.modifyOpM (searchOp steps)) ops :
        StepMove (OpList UpdateOp)).run {} := by
  have hround : (fun (ops : OpList UpdateOp) (index : Nat) => do
      if (← get).isOpen then ops.modifyOpM (UpdateOp.visitM (takeOverSteps steps) {}) index
      else return ops : OpList UpdateOp → Nat → StepMove (OpList UpdateOp)) =
      OpList.modifyOpM (searchOp steps) := by
    funext ops index
    apply StateT.ext
    intro s
    cases hop : ops.op? index with
    | none =>
      have hnode : ops.nodes[index]? = none := Option.map_eq_none_iff.1 hop
      simp [OpList.modifyOpM, hnode]
    | some op =>
      rw [OpList.modifyOpM_eq _ hop, OpList.modifyOpM_eq _ hop]
      cases hs : s.isOpen <;> simp [searchOp, hs, OpList.setOp_self hop]
  rw [moveSteps, hround]

theorem searched_moveSteps (h : l.Chain (front ++ back)) :
    ∃ result, Searched (List.flatMap UpdateOp.contextUses)
        (BumpsFirst UpdateOp.contextUses (UpdateOp.Bumps steps)) steps {} (back.filterMap l.op?)
        result ∧
      moveSteps steps l back = result.map fun moved => (l.overwrite back moved.1, moved.2) := by
  have hbound : ∀ j ∈ back, j < l.nodes.size := fun j hj => h.lt_size (by simp [hj])
  obtain ⟨-, hnodup, -⟩ := List.nodup_append.1 h.indices_nodup
  refine ⟨_, searched_mapM (fun op _ => searched_searchOp op) {}, ?_⟩
  rw [moveSteps_eq, OpList.foldlM_modifyOpM_eq _ hbound hnodup]
  rfl

theorem removeBare_chain (h : l.Chain (front ++ i :: back)) (hop : l.op? i = some op)
    (hbare : op.bareSteps? = some steps) :
    ∃ l', editList l (OpList.remove (l.opId i)) = .ok l' ∧ l'.Chain (front ++ back) ∧
      ∀ j, l'.op? j = l.op? j := by
  have hend : l.isEnd i = false := by
    obtain ⟨span, rfl⟩ := exists_of_bareSteps? hbare
    rw [OpList.isEnd_iff_of_chain h (by simp), hop]
    rfl
  obtain ⟨l', hremove, hchain, hsame⟩ := h.remove hend
  exact ⟨l', editList_eq_ok hremove, hchain, hsame.op?⟩

theorem removeBare_overwrite (h : l.Chain (front ++ i :: back)) (hop : l.op? i = some op)
    (hbare : op.bareSteps? = some steps) {ops : List UpdateOp}
    (hlength : ops.length = (back.filterMap l.op?).length) :
    ∃ l', editList (l.overwrite back ops) (OpList.remove ((l.overwrite back ops).opId i)) = .ok l' ∧
      l'.Chain (front ++ back) ∧ (∀ j ∈ front, l'.op? j = l.op? j) ∧
      back.filterMap l'.op? = ops := by
  have hnext : l.Chain ((front ++ [i]) ++ back) := by simpa using h
  have hbound : ∀ j ∈ back, j < l.nodes.size := fun j hj => h.lt_size (by simp [hj])
  obtain ⟨-, hnodup, hdisjoint⟩ := List.nodup_append.1 hnext.indices_nodup
  have hcontent : back.filterMap (l.overwrite back ops).op? = ops := by
    rw [OpList.filterMap_op?_overwrite hbound hnodup, OpList.overlay_of_length_eq hlength]
  have hsame : ∀ j ∈ front ++ [i], (l.overwrite back ops).op? j = l.op? j := fun j hj =>
    OpList.op?_overwrite_of_notMem hbound fun hmem => hdisjoint j hj j hmem rfl
  have hi : (l.overwrite back ops).op? i = some op := (hsame i (by simp)).trans hop
  obtain ⟨l', hremove, hchain, hkept⟩ := removeBare_chain (h.overwrite back ops) hi hbare
  refine ⟨l', hremove, hchain, ?_, (List.filterMap_congr fun j _ => hkept j).trans hcontent⟩
  intro j hj
  rw [hkept j, hsame j (List.mem_append_left _ hj)]

/-- One round of the walk.  Either the first operation stays and nothing changes, or it is a bare
step before another step; then that one takes it over, or there are too many steps to count. -/
theorem mergeStepsAlong_cons (h : l.Chain (front ++ i :: back)) (hop : l.op? i = some op) :
    ((op.bareSteps?.isSome = true → ∀ own rest,
        (back.filterMap l.op?).flatMap UpdateOp.contextUses ≠ .step own :: rest) ∧
      mergeStepsAlong l (i :: back) = mergeStepsAlong l back) ∨
    ∃ steps own rest, op.bareSteps? = some steps ∧
      (back.filterMap l.op?).flatMap UpdateOp.contextUses = .step own :: rest ∧
      ((UInt64.size ≤ own + steps ∧ ∃ fault, mergeStepsAlong l (i :: back) = .error fault) ∨
        ∃ l', mergeStepsAlong l (i :: back) = mergeStepsAlong l' back ∧ l'.Chain (front ++ back) ∧
          (∀ j ∈ front, l'.op? j = l.op? j) ∧
          BumpsFirst UpdateOp.contextUses (UpdateOp.Bumps steps) (back.filterMap l.op?)
            (back.filterMap l'.op?)) := by
  cases hbare : op.bareSteps? with
  | none =>
    refine .inl ⟨by simp, ?_⟩
    rw [mergeStepsAlong, hop, Option.bind_some, hbare]
  | some steps =>
    have hnext : l.Chain ((front ++ [i]) ++ back) := by simpa using h
    have hbound : ∀ j ∈ back, j < l.nodes.size := fun j hj => h.lt_size (by simp [hj])
    obtain ⟨result, hsearched, hmove⟩ := @searched_moveSteps l (front ++ [i]) back steps hnext
    have hround : mergeStepsAlong l (i :: back) = moveSteps steps l back >>= fun moved =>
        if moved.2.found = true then
          editList moved.1 (OpList.remove (moved.1.opId i)) >>= fun l => mergeStepsAlong l back
        else mergeStepsAlong moved.1 back := by
      rw [mergeStepsAlong, hop, Option.bind_some, hbare]
    rw [hmove] at hround
    cases hsearched with
    | ended hended => simp at hended
    | pass _ huses =>
      refine .inl ⟨fun _ => by simp [huses], ?_⟩
      rw [hround, Except.map, OpList.overwrite_filterMap_op? hbound]
      rfl
    | stop _ huses =>
      refine .inl ⟨fun _ => by simp [huses], ?_⟩
      rw [hround, Except.map, OpList.overwrite_filterMap_op? hbound]
      rfl
    | fail _ huses hmany => exact .inr ⟨steps, _, _, rfl, huses, .inl ⟨hmany, _, hround⟩⟩
    | @take moved _ hbumps =>
      obtain ⟨own, rest, hold, -⟩ := hbumps.stepsFirst fun _ _ => UpdateOp.Bumps.stepsFirst
      have hlength : moved.length = (back.filterMap l.op?).length := by
        obtain ⟨_, _, _, _, heq, rfl, -⟩ := hbumps
        simp [heq]
      obtain ⟨removed, hremove, hremoved, hkept, hrest⟩ := removeBare_overwrite h hop hbare hlength
      refine .inr ⟨steps, own, rest, rfl, hold, .inr ⟨removed, ?_, hremoved, hkept, by rwa [hrest]⟩⟩
      rw [hround, Except.map, ok_bind, if_pos rfl, hremove, ok_bind]

/-- Where the list is cut, the operations before the cut stay as they are, and those behind it are
merged. -/
theorem merged_of_mergeStepsAlong (h : l.Chain (front ++ back))
    (hrun : mergeStepsAlong l back = .ok l') :
    ∃ back', l'.Chain (front ++ back') ∧ (∀ j ∈ front, l'.op? j = l.op? j) ∧
      Merged (back.filterMap l.op?) (back'.filterMap l'.op?) := by
  induction back generalizing l front with
  | nil =>
    obtain rfl := Except.ok.inj hrun
    exact ⟨[], h, fun _ _ => rfl, .nil⟩
  | cons i back ih =>
    obtain ⟨op, hop⟩ := h.exists_op? (i := i) (by simp)
    rw [List.filterMap_cons, hop]
    rcases mergeStepsAlong_cons h hop with ⟨hlast, hround⟩ |
      ⟨steps, own, rest, hbare, -, ⟨-, fault, hround⟩ | ⟨next, hround, hnext, hfront, hbumps⟩⟩
    · have hnext : l.Chain ((front ++ [i]) ++ back) := by simpa using h
      obtain ⟨back', hchain, hsame, hmerged⟩ := ih hnext (hround.symm.trans hrun)
      have hi : l'.op? i = some op := (hsame i (by simp)).trans hop
      refine ⟨i :: back', by simpa using hchain, fun j hj => hsame j (by simp [hj]), ?_⟩
      rw [List.filterMap_cons, hi]
      exact .keep hlast hmerged
    · simp [hround] at hrun
    · obtain ⟨back', hchain, hsame, hmerged⟩ := ih hnext (hround.symm.trans hrun)
      exact ⟨back', hchain, fun j hj => (hsame j hj).trans (hfront j hj),
        .merge hbare hbumps hmerged⟩

theorem mergeStepsAlong_of_settled (h : l.Chain (front ++ back))
    (hsettled : Settled (back.filterMap l.op?)) : mergeStepsAlong l back = .ok l := by
  induction back generalizing front with
  | nil => rfl
  | cons i back ih =>
    obtain ⟨op, hop⟩ := h.exists_op? (i := i) (by simp)
    rw [List.filterMap_cons, hop, settled_cons] at hsettled
    rcases mergeStepsAlong_cons h hop with ⟨-, hround⟩ | ⟨steps, own, rest, hbare, hold, -⟩
    · have hnext : l.Chain ((front ++ [i]) ++ back) := by simpa using h
      rw [hround]
      exact ih hnext hsettled.2
    · exact absurd hold (hsettled.1 (by simp [hbare]) own rest)

end Along

theorem merged_of_mergeNextContexts {ops merged : OpList UpdateOp} (h : ops.Linked)
    (hrun : mergeNextContexts ops = .ok merged) :
    merged.Linked ∧ Merged ops.toList merged.toList := by
  obtain ⟨is, hchain⟩ := h
  have hstart : ops.Chain ([] ++ is) := hchain
  rw [mergeNextContexts, hchain.indices_eq] at hrun
  obtain ⟨is', hmerged, -, hmerges⟩ := merged_of_mergeStepsAlong hstart hrun
  have hmerged : merged.Chain is' := hmerged
  rw [hchain.toList_eq, hmerged.toList_eq]
  exact ⟨⟨is', hmerged⟩, hmerges⟩

theorem mergeNextContexts_of_settled {ops : OpList UpdateOp} (h : ops.Linked)
    (hsettled : Settled ops.toList) : mergeNextContexts ops = .ok ops := by
  obtain ⟨is, hchain⟩ := h
  have hstart : ops.Chain ([] ++ is) := hchain
  rw [hchain.toList_eq] at hsettled
  rw [mergeNextContexts, hchain.indices_eq]
  exact mergeStepsAlong_of_settled hstart hsettled

/-! ## Nothing is left to merge -/

theorem exists_read_of_not_step {exprs between rest : List Expr} {steps : Nat}
    (h : ∀ own uses, exprs.filterMap Expr.contextUse? ≠ .step own :: uses)
    (hsplit : exprs = between ++ .nextContext steps :: rest) :
    ∃ expr ∈ between, expr.contextUse? = some .read := by
  subst hsplit
  rw [List.filterMap_append] at h
  cases huses : between.filterMap Expr.contextUse? with
  | nil => exact absurd (by rw [huses]; rfl) (h steps _)
  | cons use uses =>
    obtain ⟨expr, hmem, huse⟩ := List.mem_filterMap.1 (huses ▸ List.mem_cons_self)
    cases use with
    | step own => exact absurd (by rw [huses]; rfl) (h own _)
    | read => exact ⟨expr, hmem, huse⟩

/-- After merging, a read of the current view is visited between any statement that only steps and
any later step, wherever that is; merging once more changes nothing. -/
theorem mergeNextContexts_complete {ops merged : OpList UpdateOp} (h : ops.Linked)
    (hrun : mergeNextContexts ops = .ok merged) :
    (∀ before after own span,
      merged.toList = before ++ .statement (.expression (.nextContext own) span) :: after →
      ∀ between steps rest, after.flatMap UpdateOp.visited = between ++ .nextContext steps :: rest →
        .getCurrentView ∈ between ∨
          (∃ target slot offset, .reference target slot offset ∈ between) ∨
          ∃ target slot, .contextLetReference target slot ∈ between) ∧
    mergeNextContexts merged = .ok merged := by
  obtain ⟨hlinked, hmerged⟩ := merged_of_mergeNextContexts h hrun
  have hsettled := hmerged.settled
  refine ⟨?_, mergeNextContexts_of_settled hlinked hsettled⟩
  intro before after own span hsplit between steps rest hvisited
  have hlast := hsettled before _ after hsplit rfl
  have hread : ∃ expr ∈ between, expr.contextUse? = some .read := by
    refine exists_read_of_not_step ?_ hvisited
    rw [List.filterMap_flatMap]
    exact hlast
  obtain ⟨expr, hmem, huse⟩ := hread
  cases expr with
  | getCurrentView => exact .inl hmem
  | reference target slot offset => exact .inr (.inl ⟨target, slot, offset, hmem⟩)
  | contextLetReference target slot => exact .inr (.inr ⟨target, slot, hmem⟩)
  | _ => simp [Expr.contextUse?] at huse

/-- Two statements whose steps are taken over inside a value, and one before a read. -/
def steppingOps : List UpdateOp :=
  [.statement (.expression (.nextContext 2) none),
    .statement (.expression (.nextContext 1) none),
    .storeLet
      { target := ⟨7⟩
        name := "label"
        value := .readProp (.nextContext 3) "label" none
        span := default },
    .statement (.expression (.nextContext 1) none),
    .statement (.return_ .getCurrentView none)]

theorem mergeNextContexts_complete_stepping :
    (OpList.ofList ⟨0⟩ steppingOps).Linked ∧
      ∃ merged, mergeNextContexts (OpList.ofList ⟨0⟩ steppingOps) = .ok merged ∧
        merged.toList.length = 3 ∧ mergeNextContexts merged = .ok merged := by
  have hlists := OpList.lists_ofList ⟨0⟩ steppingOps
  have hlength : (mergeNextContexts (OpList.ofList ⟨0⟩ steppingOps)).toOption.map
      (fun merged => merged.toList.length) = some 3 := by
    decide +kernel
  cases hrun : mergeNextContexts (OpList.ofList ⟨0⟩ steppingOps) with
  | error fault => simp [hrun, Except.toOption] at hlength
  | ok merged =>
    rw [hrun] at hlength
    exact ⟨hlists.linked, merged, rfl, Option.some.inj hlength,
      (mergeNextContexts_complete hlists.linked hrun).2⟩

end TemplateLowering
