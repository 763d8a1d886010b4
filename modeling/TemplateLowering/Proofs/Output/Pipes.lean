import TemplateLowering.Proofs.Output.Children

/-!
# Pipes in expressions

`Expr.pipes` gives the numbers of the pipes in an expression, an expression before its parts.  A
visit whose action keeps the pipes of each expression keeps those of the whole.
-/

namespace TemplateLowering

mutual

def Expr.pipes : Expr → List Xref
  | .pipeBinding target _ _ args => target :: pipesOfAll args
  | .invoke fn args _ _ => fn.pipes ++ pipesOfAll args
  | .conditional condition trueCase falseCase _ =>
      condition.pipes ++ (trueCase.pipes ++ pipesOfOption falseCase)
  | .not condition _ => condition.pipes
  | .binary _ lhs rhs _ => lhs.pipes ++ rhs.pipes
  | .readProp receiver _ _ => receiver.pipes
  | .readKey receiver index _ => receiver.pipes ++ index.pipes
  | .array entries _ => pipesOfAll entries
  | .map entries _ => pipesOfEntries entries
  | .typeof operand _ => operand.pipes
  | .void operand _ => operand.pipes
  | .unary _ operand _ => operand.pipes
  | .restoreViewFrom view => view.pipes
  | .resetView operand => operand.pipes
  | .safePropertyRead receiver _ => receiver.pipes
  | .safeKeyedRead receiver index _ => receiver.pipes ++ index.pipes
  | .safeInvoke receiver args => receiver.pipes ++ pipesOfAll args
  | .conditionalCase condition _ _ _ => pipesOfOption condition
  | .readVar .. | .literal .. | .external .. | .lexicalRead .. | .reference .. | .context ..
  | .trackContext .. | .nextContext .. | .getCurrentView | .restoreView .. | .readVariable ..
  | .empty .. | .contextLetReference .. => []

def pipesOfAll : List Expr → List Xref
  | [] => []
  | expr :: exprs => expr.pipes ++ pipesOfAll exprs

def pipesOfOption : Option Expr → List Xref
  | none => []
  | some expr => expr.pipes

def pipesOfEntries : List MapEntry → List Xref
  | [] => []
  | { value, .. } :: entries => value.pipes ++ pipesOfEntries entries

end

theorem pipesOfAll_eq (exprs : List Expr) : pipesOfAll exprs = exprs.flatMap Expr.pipes := by
  induction exprs with
  | nil => rfl
  | cons expr exprs ih => simp [pipesOfAll, ih]

theorem pipesOfOption_eq (expr : Option Expr) :
    pipesOfOption expr = expr.toList.flatMap Expr.pipes := by
  cases expr <;> simp [pipesOfOption]

theorem pipesOfEntries_eq (entries : List MapEntry) :
    pipesOfEntries entries = (entries.map MapEntry.value).flatMap Expr.pipes := by
  induction entries with
  | nil => rfl
  | cons entry entries ih =>
    obtain ⟨key, quoted, value⟩ := entry
    simp [pipesOfEntries, ih]

namespace Expr

def pipe : Expr → List Xref
  | .pipeBinding target _ _ _ => [target]
  | _ => []

theorem pipes_eq (expr : Expr) : expr.pipes = expr.pipe ++ expr.children.flatMap pipes := by
  cases expr <;> simp [pipes, pipe, children, pipesOfAll_eq, pipesOfOption_eq, pipesOfEntries_eq]

theorem pipe_withChildren (expr : Expr) (parts : List Expr) :
    (expr.withChildren parts).pipe = expr.pipe := by
  unfold withChildren
  split <;> rfl

theorem pipes_withChildren {expr : Expr} {parts : List Expr}
    (h : parts.length = expr.children.length) :
    (expr.withChildren parts).pipes = expr.pipe ++ parts.flatMap pipes := by
  rw [pipes_eq, pipe_withChildren, children_withChildren h]

end Expr

/-! ## Visits that keep pipes -/

section Visit

variable {m : Type → Type} [Monad m] [LawfulMonad m] {σ ε : Type} [Stateful m σ ε]
variable {f : Visitor m} {flags : VisitFlags}

/-- The action gives every expression one with the same pipes. -/
def KeepsPipes (f : Visitor m) : Prop :=
  ∀ flags expr s expr' t, Yields (f flags expr) s expr' t → expr'.pipes = expr.pipes

theorem KeepsPipes.visitM (hf : KeepsPipes f) {expr expr' : Expr} {s t : σ}
    (h : Yields (expr.visitM f flags) s expr' t) : expr'.pipes = expr.pipes := by
  induction expr using Expr.induction_children generalizing expr' s t with
  | h expr ih =>
    rw [Expr.visitM_eq, yields_bind] at h
    obtain ⟨parts, u, hparts, haction⟩ := h
    have hthreads := yields_mapM.1 hparts
    have hpipes := hthreads.flatMap_eq fun _ child _ _ hmem hvisit => ih child hmem hvisit
    rw [hf _ _ _ _ _ haction, Expr.pipes_withChildren hthreads.length_eq, hpipes,
      ← Expr.pipes_eq]

end Visit

end TemplateLowering
