import TemplateLowering.Proofs.Pass.Listener

/-!
# Exits of restored handlers

A handler that restores a view is to leave it again on every path, so every return in it, at any
depth, has to reset the view.  `restoreView` resets those that are operations of the handler; a
return in a branch keeps its value.  It therefore does what it should exactly for the handlers
without such a return.
-/

namespace TemplateLowering

mutual

/-- The values that a statement returns, at any depth. -/
def Statement.exits : Statement → List Expr
  | .return_ value _ => [value]
  | .if_ _ trueCase falseCase _ => exitsOfAll trueCase ++ exitsOfAll falseCase
  | .declareVar .. | .expression .. => []

def exitsOfAll : List Statement → List Expr
  | [] => []
  | statement :: statements => statement.exits ++ exitsOfAll statements

end

mutual

/-- The statement with every return in it, at any depth, resetting the view. -/
def Statement.resetExits : Statement → Statement
  | .return_ value span => .return_ (.resetView value) span
  | .if_ condition trueCase falseCase span =>
      .if_ condition (resetExitsOfAll trueCase) (resetExitsOfAll falseCase) span
  | .declareVar name value span => .declareVar name value span
  | .expression expr span => .expression expr span

def resetExitsOfAll : List Statement → List Statement
  | [] => []
  | statement :: statements => statement.resetExits :: resetExitsOfAll statements

end

namespace UpdateOp

/-- The operation with every return in it, at any depth, resetting the view. -/
def resetExits : UpdateOp → UpdateOp
  | .statement body => .statement body.resetExits
  | op => op

/-- The values that an operation returns from its branches. -/
def branchExits : UpdateOp → List Expr
  | .statement (.if_ _ trueCase falseCase _) => exitsOfAll trueCase ++ exitsOfAll falseCase
  | _ => []

end UpdateOp

theorem Expr.resetView_ne_self (value : Expr) : Expr.resetView value ≠ value := by
  intro h
  have hsize := congrArg sizeOf h
  simp at hsize

mutual

theorem Statement.resetExits_eq_self_iff :
    ∀ body : Statement, body.resetExits = body ↔ body.exits = []
  | .return_ value span => by
    simp [Statement.resetExits, Statement.exits, Expr.resetView_ne_self]
  | .if_ condition trueCase falseCase span => by
    simp [Statement.resetExits, Statement.exits, resetExitsOfAll_eq_self_iff trueCase,
      resetExitsOfAll_eq_self_iff falseCase]
  | .declareVar name value span => by simp [Statement.resetExits, Statement.exits]
  | .expression expr span => by simp [Statement.resetExits, Statement.exits]

theorem resetExitsOfAll_eq_self_iff :
    ∀ body : List Statement, resetExitsOfAll body = body ↔ exitsOfAll body = []
  | [] => by simp [resetExitsOfAll, exitsOfAll]
  | statement :: statements => by
    simp [resetExitsOfAll, exitsOfAll, statement.resetExits_eq_self_iff,
      resetExitsOfAll_eq_self_iff statements]

end

theorem resetOnReturn_eq_resetExits_iff (op : UpdateOp) :
    resetOnReturn op = op.resetExits ↔ op.branchExits = [] := by
  cases op with
  | statement body =>
    cases body with
    | if_ condition trueCase falseCase span =>
      -- The statement is left as it is, although it may contain returns.
      change UpdateOp.statement _ = .statement (Statement.resetExits _) ↔ _
      rw [UpdateOp.statement.injEq, eq_comm]
      exact Statement.resetExits_eq_self_iff (.if_ condition trueCase falseCase span)
    | _ => simp [resetOnReturn, UpdateOp.resetExits, UpdateOp.branchExits, Statement.resetExits]
  | _ => simp [resetOnReturn, UpdateOp.resetExits, UpdateOp.branchExits]

/-- A handler that restores its view starts with that, keeps its operations in order, and resets
the view in those of them that are returns.  So every exit of it, at any depth, resets the view
once, and nothing else changes, exactly when no operation returns a value from a branch. -/
theorem restoreView_resets_exits {handler : OpList UpdateOp} (h : handler.Linked)
    (view context : Xref) :
    ∃ handler', restoreView view context handler = .ok handler' ∧ handler'.Linked ∧
      handler'.id = handler.id ∧
      handler'.toList = restoreOp view context :: handler.toList.map resetOnReturn ∧
      (handler'.toList = restoreOp view context :: handler.toList.map UpdateOp.resetExits ↔
        ∀ op ∈ handler.toList, op.branchExits = []) := by
  obtain ⟨handler', hrestore, hlists, hid⟩ := restoreView_lists h view context
  refine ⟨handler', hrestore, hlists.linked, hid, hlists.toList, ?_⟩
  rw [hlists.toList, List.cons_inj_right, List.map_inj_left]
  exact forall₂_congr fun op _ => resetOnReturn_eq_resetExits_iff op

/-- `if (open) { return first; } return last;` -/
def earlyReturn : List UpdateOp :=
  [.statement (.if_ (.variable_ "open") [.return_ (.variable_ "first") none] [] none),
    .statement (.return_ (.variable_ "last") none)]

/-- The return in the branch leaves the handler with the view still restored. -/
theorem restoreView_keeps_branch_exit :
    ∃ handler', restoreView ⟨1⟩ ⟨4⟩ (.ofList ⟨4⟩ earlyReturn) = .ok handler' ∧
      handler'.toList ≠ restoreOp ⟨1⟩ ⟨4⟩ :: earlyReturn.map UpdateOp.resetExits := by
  have hops := OpList.lists_ofList ⟨4⟩ earlyReturn
  obtain ⟨handler', hrestore, hlists, -⟩ := restoreView_lists hops.linked ⟨1⟩ ⟨4⟩
  refine ⟨handler', hrestore, ?_⟩
  rw [hlists.toList, hops.toList]
  simp [earlyReturn, resetOnReturn, UpdateOp.resetExits, Statement.resetExits, resetExitsOfAll,
    (Expr.resetView_ne_self _).symm]

theorem restoreView_resets_exits_earlyReturn :
    (OpList.ofList ⟨4⟩ earlyReturn).Linked ∧
      ∃ handler', restoreView ⟨1⟩ ⟨4⟩ (.ofList ⟨4⟩ earlyReturn) = .ok handler' ∧
        handler'.toList =
          [restoreOp ⟨1⟩ ⟨4⟩,
            .statement (.if_ (.variable_ "open") [.return_ (.variable_ "first") none] [] none),
            .statement (.return_ (.resetView (.variable_ "last")) none)] := by
  have hops := OpList.lists_ofList ⟨4⟩ earlyReturn
  refine ⟨hops.linked, ?_⟩
  obtain ⟨handler', hrestore, -, -, htoList, -⟩ := restoreView_resets_exits hops.linked ⟨1⟩ ⟨4⟩
  refine ⟨handler', hrestore, ?_⟩
  rw [htoList, hops.toList]
  rfl

end TemplateLowering
