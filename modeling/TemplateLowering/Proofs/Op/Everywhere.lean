import TemplateLowering.Op.Create
import TemplateLowering.Proofs.Op.ContextUse
import TemplateLowering.Proofs.OpList.Payload

/-!
# Tests at every depth

A visit that only looks at the expressions goes through `visited` in order; and a test can be made
of an expression and of all expressions in it.
-/

namespace TemplateLowering

variable {m : Type → Type} [Monad m] [LawfulMonad m] {σ ε : Type} [Stateful m σ ε]
variable {f : Visitor m} {flags : VisitFlags}

/-! ## Visits that look only -/

section Look

variable {step : σ → Expr → σ}

def LooksOnly (f : Visitor m) (flags : VisitFlags) (step : σ → Expr → σ) : Prop :=
  ∀ expr s, Yields (f flags expr) s expr (step s expr)

theorem LooksOnly.visitAll {exprs : List Expr}
    (h : ∀ expr ∈ exprs, ∀ s, Yields (expr.visitM f flags) s expr (expr.visited.foldl step s))
    (s : σ) :
    Yields (exprs.mapM (Expr.visitM f flags)) s exprs
      ((exprs.flatMap Expr.visited).foldl step s) := by
  rw [yields_mapM]
  induction exprs generalizing s with
  | nil => exact .nil
  | cons expr exprs ih =>
    rw [List.forall_mem_cons] at h
    rw [List.flatMap_cons, List.foldl_append]
    exact .cons (h.1 s) (ih h.2 _)

theorem LooksOnly.visitExpr (hf : LooksOnly f flags step) (expr : Expr) (s : σ) :
    Yields (expr.visitM f flags) s expr (expr.visited.foldl step s) := by
  induction expr using Expr.induction_children generalizing s with
  | h expr ih =>
    rw [Expr.visitM_eq, yields_bind, (Expr.yields_visited expr).1, List.foldl_append]
    refine ⟨_, _, LooksOnly.visitAll ih s, ?_⟩
    rw [Expr.withChildren_children]
    exact hf expr _

theorem LooksOnly.fills (hf : LooksOnly f flags step) {α : Type} {visit : m α} {a : α}
    {exprs : List Expr} {fill : List Expr → α} (h : Fills f flags visit exprs fill)
    (ha : fill exprs = a) (s : σ) :
    Yields visit s a ((exprs.flatMap Expr.visited).foldl step s) := by
  rw [h.eq_mapM, yields_map]
  exact ⟨exprs, LooksOnly.visitAll (fun expr _ => hf.visitExpr expr) s, ha⟩

theorem LooksOnly.visitOps (hf : LooksOnly f flags step) (ops : OpList UpdateOp) (s : σ) :
    Yields (visitOpsM f flags ops) s ops ((ops.toList.flatMap UpdateOp.visited).foldl step s) := by
  rw [visitOpsM, OpList.mapM, OpList.toList]
  induction ops.indices generalizing s with
  | nil => exact yields_pure.2 ⟨rfl, rfl⟩
  | cons i is ih =>
    rw [List.foldlM_cons, yields_bind]
    cases hop : ops.op? i with
    | none =>
      rw [List.filterMap_cons_none hop, OpList.modifyOpM, Option.map_eq_none_iff.1 hop]
      exact ⟨ops, s, yields_pure.2 ⟨rfl, rfl⟩, ih s⟩
    | some op =>
      have hvisit := hf.fills (fills_updateOp f flags op) op.withExprs_exprs s
      rw [List.filterMap_cons_some hop, List.flatMap_cons, List.foldl_append, UpdateOp.visited_eq]
      refine ⟨ops, _, ?_, ih _⟩
      rw [OpList.modifyOpM_eq _ hop, yields_map]
      exact ⟨op, hvisit, OpList.setOp_self hop⟩

end Look

/-! ## Tests that hold at every depth -/

/-- The test holds of the expression and of all expressions in it. -/
def Expr.Everywhere (p : Expr → Bool) (expr : Expr) : Prop :=
  ∀ inner ∈ expr.visited, p inner = true

theorem Expr.everywhere_iff {p : Expr → Bool} {expr : Expr} :
    expr.Everywhere p ↔ p expr = true ∧ ∀ child ∈ expr.children, child.Everywhere p := by
  simp only [Everywhere, (yields_visited expr).1, List.mem_append, List.mem_flatMap,
    List.mem_singleton]
  constructor
  · intro h
    refine ⟨h expr (.inr rfl), ?_⟩
    exact fun child hchild inner hinner => h inner (.inl ⟨child, hchild, hinner⟩)
  · rintro ⟨hexpr, hchildren⟩ inner (⟨child, hchild, hinner⟩ | rfl)
    · exact hchildren child hchild inner hinner
    · exact hexpr

theorem Expr.Everywhere.imp {p q : Expr → Bool} {expr : Expr} (h : expr.Everywhere p)
    (hpq : ∀ inner, p inner = true → q inner = true) : expr.Everywhere q :=
  fun inner hinner => hpq inner (h inner hinner)

end TemplateLowering
