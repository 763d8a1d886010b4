import TemplateLowering.Proofs.Op.ContextUse

/-!
# Evaluation of contexts

While generated code runs, a pointer is at the current view.  Steps move it to an enclosing view,
restored views put it somewhere else, and reads look at it.  `Expr.actions` lists what an expression
does with the pointer; only conditional expressions, the operators that may skip their right operand
and conditional statements leave a choice.
-/

namespace TemplateLowering

/-! ## Actions -/

/-- What is done with the current view. -/
inductive Action
  | step (steps : Nat)
  | read
  | restore (view : Xref)
  | restoreValue
  /-- What is done if a condition holds, and what is done if it does not. -/
  | branch (yes no : List Action)

def BinaryOperator.maySkip : BinaryOperator → Bool
  | .and | .or | .nullishCoalesce => true
  | _ => false

def Expr.ownActions : Expr → List Action
  | .nextContext steps => [.step steps]
  | .getCurrentView | .reference .. | .contextLetReference .. => [.read]
  | .restoreView view => [.restore view]
  | .restoreViewFrom _ => [.restoreValue]
  | _ => []

mutual

/-- What an expression does with the current view when it is evaluated. -/
def Expr.actions : Expr → List Action
  | .conditional condition trueCase falseCase _ =>
      condition.actions ++ [.branch trueCase.actions (actionsOfOption falseCase)]
  | .binary operator lhs rhs _ =>
      lhs.actions ++ if operator.maySkip then [.branch rhs.actions []] else rhs.actions
  | .invoke fn args _ _ => fn.actions ++ actionsOfAll args
  | .not operand _ => operand.actions
  | .typeof operand _ => operand.actions
  | .void operand _ => operand.actions
  | .unary _ operand _ => operand.actions
  | .readProp receiver _ _ => receiver.actions
  | .readKey receiver index _ => receiver.actions ++ index.actions
  | .array entries _ => actionsOfAll entries
  | .map entries _ => actionsOfEntries entries
  | .restoreViewFrom view => view.actions ++ [.restoreValue]
  | .resetView operand => operand.actions
  | .pipeBinding _ _ _ args => actionsOfAll args
  | .safePropertyRead receiver _ => receiver.actions
  | .safeKeyedRead receiver index _ => receiver.actions ++ index.actions
  | .safeInvoke receiver args => receiver.actions ++ actionsOfAll args
  | .conditionalCase condition _ _ _ => actionsOfOption condition
  | expr => expr.ownActions

def actionsOfAll : List Expr → List Action
  | [] => []
  | expr :: exprs => expr.actions ++ actionsOfAll exprs

def actionsOfOption : Option Expr → List Action
  | none => []
  | some expr => expr.actions

def actionsOfEntries : List MapEntry → List Action
  | [] => []
  | ⟨_, _, value⟩ :: entries => value.actions ++ actionsOfEntries entries

end

mutual

def Statement.actions : Statement → List Action
  | .declareVar _ value _ => actionsOfOption value
  | .expression expr _ => expr.actions
  | .return_ value _ => value.actions
  | .if_ condition trueCase falseCase _ =>
      condition.actions ++ [.branch (actionsOfStatements trueCase) (actionsOfStatements falseCase)]

def actionsOfStatements : List Statement → List Action
  | [] => []
  | body :: bodies => body.actions ++ actionsOfStatements bodies

end

def UpdateOp.actions : UpdateOp → List Action
  | .statement body => body.actions
  | op => op.exprs.flatMap Expr.actions

theorem actionsOfAll_eq (exprs : List Expr) : actionsOfAll exprs = exprs.flatMap Expr.actions := by
  induction exprs with
  | nil => rfl
  | cons expr exprs ih => rw [actionsOfAll, ih, List.flatMap_cons]

theorem actionsOfOption_eq (expr : Option Expr) :
    actionsOfOption expr = expr.toList.flatMap Expr.actions := by
  cases expr <;> simp [actionsOfOption]

theorem actionsOfEntries_eq (entries : List MapEntry) :
    actionsOfEntries entries = (entries.map MapEntry.value).flatMap Expr.actions := by
  induction entries with
  | nil => rfl
  | cons entry entries ih =>
    obtain ⟨key, quoted, value⟩ := entry
    rw [actionsOfEntries, ih, List.map_cons, List.flatMap_cons]

/-- Whether the expression may leave out some of its parts. -/
def Expr.branches : Expr → Bool
  | .conditional .. => true
  | .binary operator _ _ _ => operator.maySkip
  | _ => false

theorem Expr.actions_eq {expr : Expr} (h : expr.branches = false) :
    expr.actions = expr.children.flatMap actions ++ expr.ownActions := by
  cases expr with
  | conditional => simp [branches] at h
  | binary operator lhs rhs span =>
    have hskip : operator.maySkip = false := h
    simp [actions, children, ownActions, hskip]
  | _ =>
    simp [actions, children, ownActions, actionsOfAll_eq, actionsOfOption_eq, actionsOfEntries_eq]

/-! ## Evaluation -/

/-- The views that are seen: the one that a step leads to, or the one that is read. -/
inductive Sight (ν : Type)
  | stepped (view : ν)
  | read (view : ν)
deriving DecidableEq

/-- What an evaluation depends on: the view around a view, the saved views, the views that values
hold and how the conditions come out, each of them in the order of the evaluation. -/
structure Runtime (ν : Type) where
  parent : ν → ν
  saved : Xref → ν
  value : Nat → ν
  choice : Nat → Bool

structure Evaluation (ν : Type) where
  current : ν
  asked : Nat := 0
  restored : Nat := 0
  seen : List (Sight ν) := []

section Run

variable {ν : Type} (runtime : Runtime ν)

mutual

def Action.run : Action → Evaluation ν → Evaluation ν
  | .step steps, s =>
      let view := runtime.parent^[steps] s.current
      { s with current := view, seen := s.seen ++ [.stepped view] }
  | .read, s => { s with seen := s.seen ++ [.read s.current] }
  | .restore view, s => { s with current := runtime.saved view }
  | .restoreValue, s =>
      { s with current := runtime.value s.restored, restored := s.restored + 1 }
  | .branch yes no, s =>
      if runtime.choice s.asked then runActions yes { s with asked := s.asked + 1 }
      else runActions no { s with asked := s.asked + 1 }

def runActions : List Action → Evaluation ν → Evaluation ν
  | [], s => s
  | action :: actions, s => runActions actions (action.run s)

end

structure EvaluatedOp (ν : Type) where
  op : UpdateOp
  seen : List (Sight ν)

def evaluatedFrom (s : Evaluation ν) : List UpdateOp → List (EvaluatedOp ν)
  | [] => []
  | op :: ops =>
      let t := runActions runtime op.actions { s with seen := [] }
      ⟨op, t.seen⟩ :: evaluatedFrom t ops

end Run

/-! ## Quiet actions -/

mutual

/-- Whether an action neither uses nor restores a view, however the conditions come out. -/
def Action.isQuiet : Action → Bool
  | .branch yes no => areQuiet yes && areQuiet no
  | _ => false

def areQuiet : List Action → Bool
  | [] => true
  | action :: actions => action.isQuiet && areQuiet actions

end

theorem areQuiet_iff {actions : List Action} :
    areQuiet actions = true ↔ ∀ action ∈ actions, action.isQuiet = true := by
  induction actions with
  | nil => simp [areQuiet]
  | cons action actions ih => simp [areQuiet, ih]

section Lag

variable {ν : Type} {runtime : Runtime ν} {steps : Nat} {s : Evaluation ν}

/-- The evaluation with some steps made that nothing saw. -/
def Evaluation.ahead (runtime : Runtime ν) (steps : Nat) (s : Evaluation ν) : Evaluation ν :=
  { s with current := runtime.parent^[steps] s.current }

mutual

theorem run_ahead_of_isQuiet (action : Action) (h : action.isQuiet = true) (s : Evaluation ν) :
    action.run runtime (s.ahead runtime steps) = (action.run runtime s).ahead runtime steps := by
  match action with
  | .branch yes no =>
    rw [Action.isQuiet, Bool.and_eq_true] at h
    have hyes := runActions_ahead yes h.1 { s with asked := s.asked + 1 }
    have hno := runActions_ahead no h.2 { s with asked := s.asked + 1 }
    unfold Action.run
    change (if runtime.choice s.asked then _ else _) = _
    split
    · exact hyes
    · exact hno
  | .step _ | .read | .restore _ | .restoreValue => simp [Action.isQuiet] at h

theorem runActions_ahead (actions : List Action) (h : areQuiet actions = true) (s : Evaluation ν) :
    runActions runtime actions (s.ahead runtime steps) =
      (runActions runtime actions s).ahead runtime steps := by
  match actions with
  | [] => rfl
  | action :: actions =>
    rw [areQuiet, Bool.and_eq_true] at h
    rw [runActions, run_ahead_of_isQuiet action h.1 s, runActions_ahead actions h.2, runActions]

end

theorem run_step_ahead (own : Nat) (s : Evaluation ν) :
    Action.run runtime (.step own) (s.ahead runtime steps) =
      Action.run runtime (.step (own + steps)) s := by
  simp only [Action.run, Evaluation.ahead, Function.iterate_add_apply]

theorem runActions_append (actions actions' : List Action) (s : Evaluation ν) :
    runActions runtime (actions ++ actions') s =
      runActions runtime actions' (runActions runtime actions s) := by
  induction actions generalizing s with
  | nil => rfl
  | cons action actions ih => exact ih (action.run runtime s)

end Lag

end TemplateLowering
