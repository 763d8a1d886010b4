import TemplateLowering.Proofs.Op.Everywhere
import TemplateLowering.Proofs.Op.Xrefs

/-!
# Complete traversals

The expressions of an operation form a forest.  A visit goes through it from the leaves up and from
left to right, and an action that only looks at the expressions leaves all of them in their places.
-/

namespace TemplateLowering

/-- The expressions of a forest, each with the flags of its root: what is below a root comes right
before it, and then come the other roots. -/
inductive Postorder : List (VisitFlags × Expr) → List (VisitFlags × Expr) → Prop
  | nil : Postorder [] []
  | cons {root : VisitFlags × Expr} {roots inner others : List (VisitFlags × Expr)}
      (hinner : Postorder (root.2.children.map (root.1, ·)) inner)
      (hothers : Postorder roots others) : Postorder (root :: roots) (inner ++ root :: others)

/-- What the action of a visit is called with. -/
def calls (roots : List (VisitFlags × Expr)) : List (VisitFlags × Expr) :=
  roots.flatMap fun root => root.2.visited.map (root.1, ·)

theorem calls_map (flags : VisitFlags) (exprs : List Expr) :
    calls (exprs.map (flags, ·)) = (exprs.flatMap Expr.visited).map (flags, ·) := by
  simp only [calls, List.flatMap_map, ← List.map_flatMap]

theorem postorder_calls_of_children {roots : List (VisitFlags × Expr)}
    (h : ∀ root ∈ roots, Postorder (root.2.children.map (root.1, ·))
      (calls (root.2.children.map (root.1, ·)))) : Postorder roots (calls roots) := by
  induction roots with
  | nil => exact .nil
  | cons root roots ih =>
    rw [List.forall_mem_cons] at h
    have hcalls : calls (root :: roots) =
        calls (root.2.children.map (root.1, ·)) ++ root :: calls roots := by
      rw [calls_map, calls, List.flatMap_cons, (Expr.yields_visited root.2).1]
      simp [calls]
    rw [hcalls]
    exact .cons h.1 (ih h.2)

theorem postorder_calls (roots : List (VisitFlags × Expr)) : Postorder roots (calls roots) := by
  apply postorder_calls_of_children
  rintro ⟨flags, expr⟩ -
  induction expr using Expr.induction_children with
  | h expr ih =>
    apply postorder_calls_of_children
    simpa using ih

/-- An action that takes note of an expression and hands it back. -/
def looking {σ : Type} (step : σ → VisitFlags × Expr → σ) : Visitor (StateM σ) := fun flags expr =>
  fun s => (expr, step s (flags, expr))

/-- The visit leaves the value as it is, and its action sees the expressions of the forest. -/
def Traverses {α : Type} (visit : (σ : Type) → Visitor (StateM σ) → StateM σ α) (a : α)
    (roots : List (VisitFlags × Expr)) : Prop :=
  ∃ calls, Postorder roots calls ∧
    ∀ σ step s, (visit σ (looking step)).run s = (a, calls.foldl step s)

theorem looksOnly_looking {σ : Type} (step : σ → VisitFlags × Expr → σ) (flags : VisitFlags) :
    LooksOnly (looking step) flags fun s expr => step s (flags, expr) :=
  fun _ _ => yields_stateM.2 rfl

variable (flags : VisitFlags)

theorem traverses_exprs {α : Type} {visit : (σ : Type) → Visitor (StateM σ) → StateM σ α} {a : α}
    {exprs : List Expr} {fill : List Expr → α} (ha : fill exprs = a)
    (h : ∀ (σ : Type) (f : Visitor (StateM σ)), Fills f flags (visit σ f) exprs fill) :
    Traverses visit a (exprs.map (flags, ·)) := by
  refine ⟨_, postorder_calls _, fun σ step s => yields_stateM.1 ?_⟩
  rw [calls_map, List.foldl_map]
  exact (looksOnly_looking step flags).fills (h σ _) ha s

/-- The expressions of a create operation that are visited where they stand. -/
def CreateOp.visitedExprs : CreateOp → List Expr
  | .repeaterCreate op => (if op.trackByOps.isSome then [] else [op.track]) ++ op.trackByFn.toList
  | op => op.exprs

/-- The expressions of the operations inside a create operation. -/
def CreateOp.innerExprs (op : CreateOp) : List Expr :=
  op.lists.flatMap fun ops => ops.toList.flatMap UpdateOp.exprs

theorem CreateOp.traverses_visitM (op : CreateOp) :
    Traverses (fun _ f => op.visitM f flags) op
      (op.innerExprs.map (flags.child, ·) ++ op.visitedExprs.map (flags, ·)) := by
  refine ⟨_, postorder_calls _, fun σ step s => yields_stateM.1 ?_⟩
  change Yields (op.visitM (looking step) flags) s op _
  have hlooks := looksOnly_looking step flags
  have hinner := (looksOnly_looking step flags.child).visitOps
  have hops : ∀ ops : OpList UpdateOp, (ops.toList.flatMap UpdateOp.exprs).flatMap Expr.visited =
      ops.toList.flatMap UpdateOp.visited := by
    intro ops
    rw [List.flatMap_assoc, funext UpdateOp.visited_eq]
  have hoption : ∀ (expr : Option Expr) s, Yields (visitOptionM (looking step) flags expr) s expr
      ((expr.toList.flatMap Expr.visited).foldl (fun s expr => step s (flags, expr)) s) :=
    fun expr => hlooks.fills (fills_option _ flags expr) (by cases expr <;> rfl)
  rw [calls, List.flatMap_append, List.foldl_append, ← calls, ← calls, calls_map, calls_map,
    List.foldl_map, List.foldl_map]
  cases op with
  | variableDecl op =>
    simp only [visitM, bind_pure_comp]
    exact hlooks.fills ((fills_expr _ flags op.initializer).map _) rfl s
  | statement body =>
    refine hlooks.fills ((fills_statement _ flags body).map _) ?_ s
    exact congrArg _ (by simpa using (refills_statement body).1 [])
  | extractedAttribute op =>
    simp only [visitM, bind_pure_comp, yields_map]
    exact ⟨op.expr, hoption op.expr s, rfl⟩
  | listener op =>
    simp only [visitM, bind_pure_comp, yields_map]
    simp only [innerExprs, lists, List.flatMap_singleton, hops]
    exact ⟨op.handler, hinner op.handler s, rfl⟩
  | repeaterCreate op =>
    rw [visitM, yields_map]
    refine ⟨op, ?_, rfl⟩
    rw [RepeaterCreate.visitM]
    split
    next htrack =>
      refine yields_bind.2 ⟨op.track, _, hlooks.visitExpr op.track s, yields_bind.2 ⟨op, _,
        yields_pure.2 ⟨rfl, rfl⟩, yields_bind.2 ⟨op.trackByFn, _, hoption _ _,
          yields_pure.2 ⟨rfl, ?_⟩⟩⟩⟩
      simp [innerExprs, lists, visitedExprs, htrack]
    next ops htrack =>
      refine yields_bind.2 ⟨ops, _, hinner ops s, yields_bind.2 ⟨op, _,
        yields_pure.2 ⟨by rw [← htrack], rfl⟩, yields_bind.2 ⟨op.trackByFn, _, hoption _ _,
          yields_pure.2 ⟨rfl, ?_⟩⟩⟩⟩
      simp [innerExprs, lists, visitedExprs, htrack, hops]
  | _ => exact yields_pure.2 ⟨rfl, rfl⟩

/-- Visits of expressions, statements and operations are complete and faithful. -/
theorem visitM_traverses :
    (∀ expr : Expr, Traverses (fun _ f => expr.visitM f flags) expr [(flags, expr)]) ∧
    (∀ body : Statement,
      Traverses (fun _ f => body.visitM f flags) body (body.exprs.map (flags, ·))) ∧
    (∀ op : UpdateOp, Traverses (fun _ f => op.visitM f flags) op (op.exprs.map (flags, ·))) ∧
    ∀ op : CreateOp,
      Traverses (fun _ f => op.visitM f flags) op
        (op.innerExprs.map (flags.child, ·) ++ op.visitedExprs.map (flags, ·)) ∧
      (op.exprs = op.visitedExprs ∨ ∃ repeater, op = .repeaterCreate repeater ∧
        repeater.trackByOps.isSome ∧ op.exprs = repeater.track :: op.visitedExprs) := by
  refine ⟨fun expr => ?_, fun body => ?_, fun op => ?_, fun op => ⟨op.traverses_visitM flags, ?_⟩⟩
  · exact traverses_exprs flags rfl fun _ f => fills_expr f flags expr
  · exact traverses_exprs flags (by simpa using (refills_statement body).1 [])
      fun _ f => fills_statement f flags body
  · exact traverses_exprs flags op.withExprs_exprs fun _ f => fills_updateOp f flags op
  · cases op with
    | repeaterCreate op =>
      cases hops : op.trackByOps with
      | none => exact .inl (by simp [CreateOp.exprs, CreateOp.visitedExprs, hops])
      | some ops => exact .inr ⟨op, rfl, by simp [hops, CreateOp.exprs, CreateOp.visitedExprs]⟩
    | _ => exact .inl rfl

end TemplateLowering
