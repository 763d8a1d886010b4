import TemplateLowering.Proofs.Op.Visit

/-!
# Uses of contexts

The expressions of an operation that step to an enclosing context, or that read the current view, in
the order of a visit.  The depth of a use is the number of steps that were made up to it.
-/

namespace TemplateLowering

/-! ## Uses of contexts -/

/-- An expression that steps to an enclosing context, or that reads the current view. -/
inductive ContextUse
  | step (steps : Nat)
  | read
deriving DecidableEq

def ContextUse.steps : ContextUse → Nat
  | .step steps => steps
  | .read => 0

def stepsIn (uses : List ContextUse) : Nat :=
  (uses.map ContextUse.steps).sum

/-- The depths of some uses, the first of which starts from the given depth. -/
def depthsFrom (depth : Nat) : List ContextUse → List Nat
  | [] => []
  | use :: uses => (depth + use.steps) :: depthsFrom (depth + use.steps) uses

def Expr.contextUse? : Expr → Option ContextUse
  | .nextContext steps => some (.step steps)
  | .getCurrentView | .reference .. | .contextLetReference .. => some .read
  | _ => none

def noteVisit : Visitor (StateM (List Expr)) := fun _ expr => do
  modify (· ++ [expr])
  return expr

/-- The expressions in an expression, in the order of a visit. -/
def Expr.visited (expr : Expr) : List Expr :=
  ((expr.visitM noteVisit {}).run []).2

def Expr.contextUses (expr : Expr) : List ContextUse :=
  expr.visited.filterMap contextUse?

def UpdateOp.visited (op : UpdateOp) : List Expr :=
  ((op.visitM noteVisit {}).run []).2

def UpdateOp.contextUses (op : UpdateOp) : List ContextUse :=
  op.visited.filterMap Expr.contextUse?

theorem stepsIn_append (uses uses' : List ContextUse) :
    stepsIn (uses ++ uses') = stepsIn uses + stepsIn uses' := by
  simp [stepsIn]

theorem yields_noteVisit {flags : VisitFlags} {expr expr' : Expr} {seen seen' : List Expr} :
    Yields (noteVisit flags expr) seen expr' seen' ↔ expr = expr' ∧ seen ++ [expr] = seen' := by
  rw [yields_stateM]
  exact Prod.mk.injEq .. ▸ Iff.rfl

theorem yields_noteVisits (exprs : List Expr) (h : ∀ expr ∈ exprs, ∀ seen,
      Yields (expr.visitM noteVisit {}) seen expr (seen ++ expr.visited)) (seen : List Expr) :
    Yields (exprs.mapM (Expr.visitM noteVisit {})) seen exprs
      (seen ++ exprs.flatMap Expr.visited) := by
  rw [yields_mapM]
  induction exprs generalizing seen with
  | nil => simpa using Threads.nil
  | cons expr exprs ih =>
    have hrest := ih (fun other hmem => h other (List.mem_cons_of_mem _ hmem))
      (seen ++ expr.visited)
    rw [List.append_assoc, ← List.flatMap_cons] at hrest
    exact .cons (h expr List.mem_cons_self seen) hrest

theorem Expr.yields_visited (expr : Expr) :
    expr.visited = expr.children.flatMap visited ++ [expr] ∧
      ∀ seen, Yields (expr.visitM noteVisit {}) seen expr (seen ++ expr.visited) := by
  induction expr using Expr.induction_children with
  | h expr ih =>
    have hvisit : ∀ seen, Yields (expr.visitM noteVisit {}) seen expr
        (seen ++ (expr.children.flatMap visited ++ [expr])) := by
      intro seen
      rw [Expr.visitM_eq, yields_bind]
      refine ⟨_, _, yields_noteVisits _ (fun child hmem => (ih child hmem).2) seen, ?_⟩
      rw [withChildren_children, yields_noteVisit, List.append_assoc]
      exact ⟨rfl, rfl⟩
    have hvisited : expr.visited = expr.children.flatMap visited ++ [expr] := by
      have hrun := yields_stateM.1 (hvisit [])
      rw [visited, hrun, List.nil_append]
    rw [hvisited]
    exact ⟨rfl, hvisit⟩

theorem Expr.contextUses_eq (expr : Expr) :
    expr.contextUses = expr.children.flatMap contextUses ++ expr.contextUse?.toList := by
  have hown : [expr].filterMap contextUse? = expr.contextUse?.toList := by
    cases huse : expr.contextUse? <;> simp [huse]
  rw [contextUses, (yields_visited expr).1, List.filterMap_append, List.filterMap_flatMap, hown]
  rfl

theorem UpdateOp.visited_eq (op : UpdateOp) : op.visited = op.exprs.flatMap Expr.visited := by
  have hexprs := yields_noteVisits op.exprs (fun expr _ => expr.yields_visited.2) []
  have hvisit : Yields (op.visitM noteVisit {}) [] (op.withExprs op.exprs)
      ([] ++ op.exprs.flatMap Expr.visited) := by
    rw [visitM_eq, yields_map]
    exact ⟨_, hexprs, rfl⟩
  rw [visited, yields_stateM.1 hvisit, List.nil_append]

theorem UpdateOp.contextUses_eq (op : UpdateOp) :
    op.contextUses = op.exprs.flatMap Expr.contextUses := by
  rw [contextUses, visited_eq, List.filterMap_flatMap]
  rfl

/-! ## Operations but for their steps -/

def forgetSteps : Visitor Id := fun _ expr =>
  match expr with
  | .nextContext _ => .nextContext 0
  | expr => expr

def Expr.withoutSteps (expr : Expr) : Expr :=
  Id.run (expr.visitM forgetSteps {})

/-- The operation with all numbers of steps forgotten. -/
def UpdateOp.withoutSteps (op : UpdateOp) : UpdateOp :=
  Id.run (op.visitM forgetSteps {})

theorem Expr.withoutSteps_eq (expr : Expr) :
    expr.withoutSteps = forgetSteps {} (expr.withChildren (expr.children.map withoutSteps)) := by
  rw [withoutSteps, visitM_eq]
  simp
  rfl

theorem UpdateOp.withoutSteps_eq (op : UpdateOp) :
    op.withoutSteps = op.withExprs (op.exprs.map Expr.withoutSteps) := by
  rw [withoutSteps, visitM_eq]
  simp
  rfl

theorem Expr.withoutSteps_withChildren {expr : Expr} {parts : List Expr}
    (h : parts.map withoutSteps = expr.children.map withoutSteps) :
    (expr.withChildren parts).withoutSteps = expr.withoutSteps := by
  have hlength : parts.length = expr.children.length := by
    simpa using congrArg List.length h
  rw [withoutSteps_eq, children_withChildren hlength,
    withChildren_withChildren hlength (by simpa using hlength), h, ← withoutSteps_eq]

theorem UpdateOp.withoutSteps_withExprs {op : UpdateOp} {parts : List Expr}
    (h : parts.map Expr.withoutSteps = op.exprs.map Expr.withoutSteps) :
    (op.withExprs parts).withoutSteps = op.withoutSteps := by
  have hlength : parts.length = op.exprs.length := by
    simpa using congrArg List.length h
  rw [withoutSteps_eq, exprs_withExprs hlength,
    withExprs_withExprs hlength (by simpa using hlength), h, ← withoutSteps_eq]

theorem Expr.contextUse?_withChildren (expr : Expr) (parts : List Expr) :
    (expr.withChildren parts).contextUse? = expr.contextUse? := by
  unfold withChildren
  split <;> rfl

end TemplateLowering
