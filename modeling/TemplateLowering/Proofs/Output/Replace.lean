import TemplateLowering.Proofs.Output.Children

/-!
# Replaced parts

`Expr.replace` replaces parts of an expression at any depth, and `Expr.Holds` says that some part
has a property.  They tell what a visit does whose action replaces leaves and notes them.
-/

namespace TemplateLowering

theorem Threads.eq_map {σ α β : Type} {R : σ → α → β → σ → Prop} {g : α → β} {s t : σ}
    {as : List α} {bs : List β} (h : Threads R s as bs t)
    (hR : ∀ s a b t, a ∈ as → R s a b t → b = g a) : bs = as.map g := by
  have hforall := h.forall₂ hR
  rw [← List.forall₂_eq_eq_eq, List.forall₂_map_right_iff]
  exact hforall.flip

namespace Expr

/-- The expression in which every part with a replacement is replaced, at any depth. -/
def replace (f : Expr → Option Expr) (expr : Expr) : Expr :=
  (f expr).getD (expr.withChildren (expr.children.attach.map fun child => child.val.replace f))
termination_by sizeOf expr
decreasing_by exact sizeOf_lt_of_mem_children child.property

/-- The expression has the property, or has a part with it at any depth. -/
inductive Holds (p : Expr → Prop) : Expr → Prop
  | here {expr : Expr} : p expr → Holds p expr
  | part {expr child : Expr} : child ∈ expr.children → Holds p child → Holds p expr

variable {f : Expr → Option Expr} {p : Expr → Prop} {expr expr' : Expr} {parts : List Expr}

theorem replace_eq (f : Expr → Option Expr) (expr : Expr) :
    expr.replace f = (f expr).getD (expr.withChildren (expr.children.map (replace f))) := by
  rw [replace, List.attach_map_val]

theorem holds_iff (expr : Expr) :
    expr.Holds p ↔ p expr ∨ ∃ child ∈ expr.children, child.Holds p := by
  constructor
  · rintro (hp | ⟨hmem, hchild⟩)
    · exact .inl hp
    · exact .inr ⟨_, hmem, hchild⟩
  · rintro (hp | ⟨child, hmem, hchild⟩)
    · exact .here hp
    · exact .part hmem hchild

/-! ## Leaves -/

theorem withChildren_leaf (h : parts.length = expr.children.length)
    (hleaf : expr.children = [] ∨ (expr.withChildren parts).children = []) :
    expr.withChildren parts = expr := by
  have hparts : parts = expr.children := by
    rcases hleaf with hleaf | hleaf
    · rw [hleaf] at h ⊢
      exact List.length_eq_zero_iff.1 h
    · rw [children_withChildren h] at hleaf
      rw [hleaf] at h ⊢
      exact (List.length_eq_zero_iff.1 h.symm).symm
  rw [hparts, withChildren_children]

/-- Other parts make no difference to a property of leaves. -/
theorem leaf_withChildren (hleaf : ∀ expr, p expr → expr.children = [])
    (h : parts.length = expr.children.length) : p (expr.withChildren parts) ↔ p expr := by
  constructor
  · intro hp
    rwa [withChildren_leaf h (.inr (hleaf _ hp))] at hp
  · intro hp
    rwa [withChildren_leaf h (.inl (hleaf _ hp))]

theorem replace_eq_self (h : ¬expr.Holds fun part => ∃ new, f part = some new) :
    expr.replace f = expr := by
  induction expr using Expr.induction_children with
  | h expr ih =>
    rw [holds_iff, not_or, not_exists] at h
    have hnone : f expr = none := Option.eq_none_iff_forall_ne_some.2 h.1
    have hchildren : expr.children.map (replace f) = expr.children.map id := by
      apply List.map_congr_left
      intro child hmem
      exact ih child hmem fun hchild => h.2 ⟨child, hmem, hchild⟩
    rw [replace_eq, hnone, hchildren, List.map_id]
    exact withChildren_children expr

/-- Nothing is left to replace when the replacements are leaves that stay. -/
theorem not_holds_replace (hleaf : ∀ expr, (∃ new, f expr = some new) → expr.children = [])
    (hnew : ∀ expr new, f expr = some new → new.children = [] ∧ f new = none) (expr : Expr) :
    ¬(expr.replace f).Holds fun part => ∃ new, f part = some new := by
  induction expr using Expr.induction_children with
  | h expr ih =>
    rw [replace_eq, holds_iff]
    cases hreplaced : f expr with
    | some new =>
      obtain ⟨hchildren, hstays⟩ := hnew expr new hreplaced
      simp [hchildren, hstays]
    | none =>
      have hlength : (expr.children.map (replace f)).length = expr.children.length :=
        List.length_map _
      rw [Option.getD_none, leaf_withChildren hleaf hlength, children_withChildren hlength]
      simpa [hreplaced] using ih

theorem eq_replace_of_visitM {m : Type → Type} [Monad m] [LawfulMonad m] {σ ε : Type}
    [Stateful m σ ε] {visitor : Visitor m} {flags : VisitFlags} {s t : σ}
    (hleaf : ∀ expr expr', f expr = some expr' → expr.children = [])
    (hvisitor : ∀ flags expr s expr' t, Yields (visitor flags expr) s expr' t →
      expr' = (f expr).getD expr)
    (h : Yields (expr.visitM visitor flags) s expr' t) : expr' = expr.replace f := by
  induction expr using Expr.induction_children generalizing s expr' t with
  | h expr ih =>
    rw [Expr.visitM_eq, yields_bind] at h
    obtain ⟨parts, u, hparts, haction⟩ := h
    have hreplaced : parts = expr.children.map (replace f) :=
      (yields_mapM.1 hparts).eq_map fun _ child _ _ hmem hchild => ih child hmem hchild
    have hlength : parts.length = expr.children.length := by rw [hreplaced, List.length_map]
    have haction := hvisitor _ _ _ _ _ haction
    rw [replace_eq, ← hreplaced]
    cases hnew : f expr with
    | some new =>
      rw [withChildren_leaf hlength (.inl (hleaf expr new hnew)), hnew] at haction
      exact haction
    | none =>
      -- An expression with other parts is no leaf that is replaced, unless it was one before.
      have hnone : f (expr.withChildren parts) = none := by
        rw [Option.eq_none_iff_forall_ne_some]
        intro new hsome
        rw [withChildren_leaf hlength (.inr (hleaf _ _ hsome)), hnew] at hsome
        exact absurd hsome (by simp)
      rwa [hnone] at haction

theorem threads_notes {exprs parts : List Expr} {p : Expr → Prop} {s t : Bool}
    (h : Threads (fun s expr (_ : Expr) t => t = true ↔ s = true ∨ p expr) s exprs parts t) :
    t = true ↔ s = true ∨ ∃ expr ∈ exprs, p expr := by
  induction h with
  | nil => simp
  | cons hexpr _ ih => rw [ih, hexpr, List.exists_mem_cons_iff, or_assoc]

theorem notes_of_visitM {m : Type → Type} [Monad m] [LawfulMonad m] {ε : Type} [Stateful m Bool ε]
    {visitor : Visitor m} {flags : VisitFlags} {s t : Bool} {holds : Expr → Prop}
    (hholds : ∀ expr, holds expr ↔ p expr ∨ ∃ child ∈ expr.children, holds child)
    (hleaf : ∀ expr, p expr → expr.children = [])
    (hvisitor : ∀ flags expr s expr' t, Yields (visitor flags expr) s expr' t →
      (t = true ↔ s = true ∨ p expr))
    (h : Yields (expr.visitM visitor flags) s expr' t) : t = true ↔ s = true ∨ holds expr := by
  induction expr using Expr.induction_children generalizing s expr' t with
  | h expr ih =>
    rw [Expr.visitM_eq, yields_bind] at h
    obtain ⟨parts, u, hparts, haction⟩ := h
    have hthreads := yields_mapM.1 hparts
    have hnotes := threads_notes (hthreads.imp fun _ child _ _ hmem hchild => ih child hmem hchild)
    rw [hvisitor _ _ _ _ _ haction, hnotes, hholds, leaf_withChildren hleaf hthreads.length_eq,
      or_assoc, or_comm (a := p expr)]

end Expr

end TemplateLowering
