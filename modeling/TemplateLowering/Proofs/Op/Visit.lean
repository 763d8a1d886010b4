import TemplateLowering.Op.Update
import TemplateLowering.Proofs.Output.Children

/-!
# Operations and their expressions

`UpdateOp.exprs` gives the expressions of an operation in the order in which they are visited, and
`withExprs` puts other expressions in their places.  A visit of an operation is a visit of its
expressions, one after the other, and nothing else of the operation changes.
-/

namespace TemplateLowering

/-! ## Expressions of operations -/

mutual

def Statement.exprs : Statement → List Expr
  | .declareVar _ value _ => value.toList
  | .expression expr _ => [expr]
  | .return_ value _ => [value]
  | .if_ condition trueCase falseCase _ =>
      condition :: (exprsOfStatements trueCase ++ exprsOfStatements falseCase)

def exprsOfStatements : List Statement → List Expr
  | [] => []
  | statement :: statements => statement.exprs ++ exprsOfStatements statements

end

def BindingValue.exprs : BindingValue → List Expr
  | .expression expr => [expr]
  | .interpolation value => value.expressions

def ConditionalOp.exprs (op : ConditionalOp) : List Expr :=
  op.test.toList ++ op.cases.flatMap (fun branch => branch.condition.toList) ++
    op.processed.toList ++ op.contextValue.toList

def UpdateOp.exprs : UpdateOp → List Expr
  | .binding op => op.value.exprs
  | .property op => op.value.exprs
  | .twoWayProperty op => [op.expr]
  | .attr op => op.value.exprs
  | .domProperty op => op.value.exprs
  | .styleProp op => op.value.exprs
  | .classProp op => [op.expr]
  | .styleMap op => op.value.exprs
  | .classMap op => op.value.exprs
  | .interpolateText op => op.interpolation.expressions
  | .conditional op => op.exprs
  | .repeater op => [op.collection]
  | .deferWhen op => [op.expr]
  | .storeLet op => [op.value]
  | .variableDecl op => [op.initializer]
  | .statement body => body.exprs
  | .listEnd => []

/-! ## Other expressions in their places

All of these take the expressions that they need from the front of a sequence. -/

mutual

def Statement.withExprs : Statement → List Expr → Statement
  | .declareVar name value span, parts => .declareVar name (value.map parts.headD) span
  | .expression expr span, parts => .expression (parts.headD expr) span
  | .return_ value span, parts => .return_ (parts.headD value) span
  | .if_ condition trueCase falseCase span, parts =>
      .if_ (parts.headD condition) (statementsWithExprs trueCase parts.tail)
        (statementsWithExprs falseCase (parts.tail.drop (exprsOfStatements trueCase).length)) span

def statementsWithExprs : List Statement → List Expr → List Statement
  | [], _ => []
  | statement :: statements, parts =>
      statement.withExprs parts ::
        statementsWithExprs statements (parts.drop statement.exprs.length)

end

def Interpolation.withExprs (value : Interpolation) (parts : List Expr) : Interpolation :=
  { value with expressions := parts.take value.expressions.length }

def BindingValue.withExprs : BindingValue → List Expr → BindingValue
  | .expression expr, parts => .expression (parts.headD expr)
  | .interpolation value, parts => .interpolation (value.withExprs parts)

def casesWithExprs : List ConditionalCase → List Expr → List ConditionalCase
  | [], _ => []
  | branch :: cases, parts =>
      { branch with condition := branch.condition.map parts.headD } ::
        casesWithExprs cases (parts.drop branch.condition.toList.length)

def ConditionalOp.withExprs (op : ConditionalOp) (parts : List Expr) : ConditionalOp :=
  let ofCases := op.cases.flatMap fun branch => branch.condition.toList
  { op with
    test := op.test.map parts.headD
    cases := casesWithExprs op.cases (parts.drop op.test.toList.length)
    processed := op.processed.map (parts.drop (op.test.toList ++ ofCases).length).headD
    contextValue := op.contextValue.map
      (parts.drop (op.test.toList ++ ofCases ++ op.processed.toList).length).headD }

def UpdateOp.withExprs : UpdateOp → List Expr → UpdateOp
  | .binding op, parts => .binding { op with value := op.value.withExprs parts }
  | .property op, parts => .property { op with value := op.value.withExprs parts }
  | .twoWayProperty op, parts => .twoWayProperty { op with expr := parts.headD op.expr }
  | .attr op, parts => .attr { op with value := op.value.withExprs parts }
  | .domProperty op, parts => .domProperty { op with value := op.value.withExprs parts }
  | .styleProp op, parts => .styleProp { op with value := op.value.withExprs parts }
  | .classProp op, parts => .classProp { op with expr := parts.headD op.expr }
  | .styleMap op, parts => .styleMap { op with value := op.value.withExprs parts }
  | .classMap op, parts => .classMap { op with value := op.value.withExprs parts }
  | .interpolateText op, parts =>
      .interpolateText { op with interpolation := op.interpolation.withExprs parts }
  | .conditional op, parts => .conditional (op.withExprs parts)
  | .repeater op, parts => .repeater { op with collection := parts.headD op.collection }
  | .deferWhen op, parts => .deferWhen { op with expr := parts.headD op.expr }
  | .storeLet op, parts => .storeLet { op with value := parts.headD op.value }
  | .variableDecl op, parts => .variableDecl { op with initializer := parts.headD op.initializer }
  | .statement body, parts => .statement (body.withExprs parts)
  | .listEnd, _ => .listEnd

/-! ## What was put in -/

section Refill

variable {α β γ : Type} {exprs : α → List Expr} {fill : α → List Expr → α}
  {exprs' : β → List Expr} {fill' : β → List Expr → β}

/-- Its own expressions can be put back, and where enough expressions are put in, they can be read
again and be replaced again. -/
def Refills (exprs : α → List Expr) (fill : α → List Expr → α) (a : α) : Prop :=
  (∀ more, fill a (exprs a ++ more) = a) ∧
    ∀ parts, (exprs a).length ≤ parts.length →
      exprs (fill a parts) = parts.take (exprs a).length ∧
      ∀ parts', (exprs a).length ≤ parts'.length → fill (fill a parts) parts' = fill a parts'

theorem Refills.map {a : α} (h : Refills exprs fill a) (g : α → β)
    (hexprs : ∀ a, exprs' (g a) = exprs a) (hfill : ∀ a parts, fill' (g a) parts = g (fill a parts)) :
    Refills exprs' fill' (g a) := by
  refine ⟨fun more => by rw [hfill, hexprs, h.1], ?_⟩
  intro parts hparts
  rw [hexprs] at hparts
  obtain ⟨hread, hagain⟩ := h.2 parts hparts
  simp only [hexprs, hfill]
  refine ⟨hread, ?_⟩
  intro parts' hparts'
  rw [hagain parts' hparts']

theorem Refills.seq {a : α} {b : β} (h : Refills exprs fill a) (h' : Refills exprs' fill' b)
    {both : γ → List Expr} {fillBoth : γ → List Expr → γ} (g : α → β → γ)
    (hexprs : ∀ a b, both (g a b) = exprs a ++ exprs' b) (hfill : ∀ a b parts,
      fillBoth (g a b) parts = g (fill a parts) (fill' b (parts.drop (exprs a).length))) :
    Refills both fillBoth (g a b) := by
  refine ⟨fun more => ?_, ?_⟩
  · rw [hfill, hexprs, List.append_assoc, h.1, List.drop_left, h'.1]
  intro parts hparts
  rw [hexprs, List.length_append] at hparts
  obtain ⟨hread, hagain⟩ := h.2 parts (by omega)
  obtain ⟨hread', hagain'⟩ := h'.2 (parts.drop (exprs a).length) (by rw [List.length_drop]; omega)
  have hlength : (exprs (fill a parts)).length = (exprs a).length := by
    rw [hread, List.length_take]
    omega
  simp only [hexprs, hfill, hlength, List.length_append]
  refine ⟨?_, ?_⟩
  · rw [hread, hread', List.take_add]
  · intro parts' hparts'
    rw [hagain parts' (by omega), hagain' _ (by rw [List.length_drop]; omega)]

theorem refills_expr (expr : Expr) :
    Refills (fun expr => [expr]) (fun expr parts => parts.headD expr) expr := by
  refine ⟨fun more => rfl, ?_⟩
  intro parts hparts
  cases parts with
  | nil => simp at hparts
  | cons part parts =>
    refine ⟨by simp, ?_⟩
    intro parts' hparts'
    cases parts' with
    | nil => simp at hparts'
    | cons part' parts' => rfl

theorem refills_option (expr : Option Expr) :
    Refills Option.toList (fun expr parts => expr.map parts.headD) expr := by
  cases expr with
  | none => simp [Refills]
  | some expr => exact (refills_expr expr).map some (by intros; rfl) (by intros; rfl)

theorem refills_interpolation (value : Interpolation) :
    Refills Interpolation.expressions Interpolation.withExprs value := by
  refine ⟨fun more => by simp [Interpolation.withExprs], ?_⟩
  intro parts hparts
  refine ⟨rfl, ?_⟩
  intro parts' _
  simp only [Interpolation.withExprs, List.length_take, Nat.min_eq_left hparts]

theorem refills_value (value : BindingValue) :
    Refills BindingValue.exprs BindingValue.withExprs value := by
  cases value with
  | expression expr =>
    exact (refills_expr expr).map BindingValue.expression (by intros; rfl) (by intros; rfl)
  | interpolation value =>
    exact (refills_interpolation value).map BindingValue.interpolation (by intros; rfl)
      (by intros; rfl)

theorem refills_cases (cases : List ConditionalCase) :
    Refills (List.flatMap fun branch => branch.condition.toList) casesWithExprs cases := by
  induction cases with
  | nil => simp [Refills, casesWithExprs]
  | cons branch cases ih =>
    obtain ⟨condition, target, slot, aliasName⟩ := branch
    exact (refills_option condition).seq ih
      (fun condition cases => ConditionalCase.mk condition target slot aliasName :: cases)
      (by intros; rfl) (by intros; rfl)

mutual

theorem refills_statement (body : Statement) :
    Refills Statement.exprs Statement.withExprs body := by
  match body with
  | .declareVar name value span =>
    exact (refills_option value).map (Statement.declareVar name · span) (by intros; rfl)
      (by intros; rfl)
  | .expression expr span =>
    exact (refills_expr expr).map (Statement.expression · span) (by intros; rfl) (by intros; rfl)
  | .return_ value span =>
    exact (refills_expr value).map (Statement.return_ · span) (by intros; rfl) (by intros; rfl)
  | .if_ condition trueCase falseCase span =>
    have hbranches : Refills
        (fun branches => exprsOfStatements branches.1 ++ exprsOfStatements branches.2)
        (fun branches parts => (statementsWithExprs branches.1 parts,
          statementsWithExprs branches.2 (parts.drop (exprsOfStatements branches.1).length)))
        (trueCase, falseCase) :=
      (refills_statements trueCase).seq (refills_statements falseCase) Prod.mk (by intros; rfl)
        (by intros; rfl)
    exact (refills_expr condition).seq hbranches
      (fun condition branches => Statement.if_ condition branches.1 branches.2 span)
      (by intros; rfl) (by intro _ _ parts; cases parts <;> rfl)

theorem refills_statements (bodies : List Statement) :
    Refills exprsOfStatements statementsWithExprs bodies := by
  match bodies with
  | [] => simp [Refills, statementsWithExprs, exprsOfStatements]
  | body :: bodies =>
    exact (refills_statement body).seq (refills_statements bodies) List.cons (by intros; rfl)
      (by intros; rfl)

end

theorem refills_conditional (op : ConditionalOp) :
    Refills ConditionalOp.exprs ConditionalOp.withExprs op := by
  obtain ⟨target, test, cases, processed, contextValue, span⟩ := op
  have htest : Refills
      (fun op : Option Expr × List ConditionalCase =>
        op.1.toList ++ op.2.flatMap fun branch => branch.condition.toList)
      (fun op parts => (op.1.map parts.headD, casesWithExprs op.2 (parts.drop op.1.toList.length)))
      (test, cases) :=
    (refills_option test).seq (refills_cases cases) Prod.mk (by intros; rfl) (by intros; rfl)
  have hprocessed : Refills
      (fun op : (Option Expr × List ConditionalCase) × Option Expr =>
        (op.1.1.toList ++ op.1.2.flatMap fun branch => branch.condition.toList) ++ op.2.toList)
      (fun op parts => ((op.1.1.map parts.headD,
        casesWithExprs op.1.2 (parts.drop op.1.1.toList.length)),
        op.2.map (parts.drop (op.1.1.toList ++
          op.1.2.flatMap fun branch => branch.condition.toList).length).headD))
      ((test, cases), processed) :=
    htest.seq (refills_option processed) Prod.mk (by intros; rfl) (by intros; rfl)
  exact hprocessed.seq (refills_option contextValue)
    (fun op contextValue => ConditionalOp.mk target op.1.1 op.1.2 op.2 contextValue span)
    (by intros; rfl) (by intros; rfl)

theorem refills_updateOp (op : UpdateOp) : Refills UpdateOp.exprs UpdateOp.withExprs op := by
  cases op with
  | conditional op =>
    exact (refills_conditional op).map UpdateOp.conditional (by intros; rfl) (by intros; rfl)
  | statement body =>
    exact (refills_statement body).map UpdateOp.statement (by intros; rfl) (by intros; rfl)
  | listEnd => simp [Refills, UpdateOp.exprs, UpdateOp.withExprs]
  | interpolateText op =>
    exact (refills_interpolation op.interpolation).map
      (fun interpolation => UpdateOp.interpolateText { op with interpolation })
      (by intros; rfl) (by intros; rfl)
  | twoWayProperty op | classProp op | repeater op | deferWhen op | storeLet op | variableDecl op =>
    refine ⟨fun more => rfl, ?_⟩
    intro parts hparts
    obtain ⟨hread, hagain⟩ := (refills_expr _).2 parts hparts
    refine ⟨hread, ?_⟩
    intro parts' hparts'
    simp only [UpdateOp.withExprs, hagain parts' hparts']
  | _ op =>
    refine ⟨fun more => by simp only [UpdateOp.exprs, UpdateOp.withExprs, (refills_value _).1], ?_⟩
    intro parts hparts
    obtain ⟨hread, hagain⟩ := (refills_value op.value).2 parts hparts
    refine ⟨hread, ?_⟩
    intro parts' hparts'
    simp only [UpdateOp.withExprs, hagain parts' hparts']

theorem UpdateOp.exprs_withExprs {op : UpdateOp} {parts : List Expr}
    (h : parts.length = op.exprs.length) : (op.withExprs parts).exprs = parts := by
  rw [((refills_updateOp op).2 parts (Nat.le_of_eq h.symm)).1, ← h, List.take_length]

theorem UpdateOp.withExprs_exprs (op : UpdateOp) : op.withExprs op.exprs = op := by
  simpa using (refills_updateOp op).1 []

theorem UpdateOp.withExprs_withExprs {op : UpdateOp} {parts parts' : List Expr}
    (h : parts.length = op.exprs.length) (h' : parts'.length = op.exprs.length) :
    (op.withExprs parts).withExprs parts' = op.withExprs parts' :=
  ((refills_updateOp op).2 parts (Nat.le_of_eq h.symm)).2 parts' (Nat.le_of_eq h'.symm)

end Refill

/-! ## Visits -/

section Visit

variable {m : Type → Type} [Monad m] {f : Visitor m} {flags : VisitFlags} {α β γ : Type}

/-- A computation visits some expressions and makes its result from them with `fill`, whatever
expressions are visited after it. -/
def Fills (f : Visitor m) (flags : VisitFlags) (visit : m α) (exprs : List Expr)
    (fill : List Expr → α) : Prop :=
  ∀ (γ : Type) (more : List Expr) (next : α → List Expr → m γ),
    ((exprs ++ more).mapM (Expr.visitM f flags) >>= fun parts =>
      next (fill parts) (parts.drop exprs.length)) =
    visit >>= fun a => more.mapM (Expr.visitM f flags) >>= next a

variable [LawfulMonad m]

theorem Fills.eq_mapM {visit : m α} {exprs : List Expr} {fill : List Expr → α}
    (h : Fills f flags visit exprs fill) : visit = fill <$> exprs.mapM (Expr.visitM f flags) := by
  have hlast := h α [] fun a _ => pure a
  simpa using hlast.symm

theorem Fills.map {visit : m α} {exprs : List Expr} {fill : List Expr → α} (g : α → β)
    (h : Fills f flags visit exprs fill) :
    Fills f flags (g <$> visit) exprs fun parts => g (fill parts) := by
  intro γ more next
  rw [bind_map_left]
  exact h γ more fun a => next (g a)

theorem Fills.seq {visit : m α} {visit' : m β} {exprs exprs' : List Expr}
    {fill : List Expr → α} {fill' : List Expr → β} (g : α → β → γ)
    (h : Fills f flags visit exprs fill) (h' : Fills f flags visit' exprs' fill') :
    Fills f flags (visit >>= fun a => visit' >>= fun b => pure (g a b)) (exprs ++ exprs')
      fun parts => g (fill parts) (fill' (parts.drop exprs.length)) := by
  intro δ more next
  have hfirst := h δ (exprs' ++ more) fun a parts =>
    next (g a (fill' parts)) (parts.drop exprs'.length)
  have hsecond := fun a => h' δ more fun b => next (g a b)
  simp only [List.append_assoc, List.length_append, ← List.drop_drop] at hfirst ⊢
  rw [hfirst]
  simp only [hsecond, bind_assoc, pure_bind]

variable (f flags)

theorem fills_expr (expr : Expr) :
    Fills f flags (expr.visitM f flags) [expr] fun parts => parts.headD expr := by
  intro γ more next
  simp

theorem fills_option (expr : Option Expr) :
    Fills f flags (visitOptionM f flags expr) expr.toList fun parts => expr.map parts.headD := by
  intro γ more next
  cases expr <;> simp [visitOptionM]

theorem fills_all (exprs : List Expr) :
    Fills f flags (visitAllM f flags exprs) exprs fun parts => parts.take exprs.length := by
  intro γ more next
  induction exprs generalizing next with
  | nil => simp [visitAllM]
  | cons expr exprs ih =>
    have hrest := fun first => ih fun rest => next (first :: rest)
    simp only [List.cons_append, List.mapM_cons, List.length_cons, visitAllM, bind_assoc, pure_bind,
      List.take_succ_cons, List.drop_succ_cons, hrest]

theorem fills_interpolation (value : Interpolation) :
    Fills f flags (value.visitM f flags) value.expressions value.withExprs := by
  simp only [Interpolation.visitM, bind_pure_comp]
  exact (fills_all f flags value.expressions).map _

theorem fills_value (value : BindingValue) :
    Fills f flags (value.visitM f flags) value.exprs value.withExprs := by
  cases value with
  | expression expr => exact (fills_expr f flags expr).map BindingValue.expression
  | interpolation value => exact (fills_interpolation f flags value).map BindingValue.interpolation

theorem fills_cases (cases : List ConditionalCase) :
    Fills f flags (cases.mapM (ConditionalCase.visitM f flags))
      (cases.flatMap fun branch => branch.condition.toList) (casesWithExprs cases) := by
  induction cases with
  | nil =>
    intro γ more next
    simp [casesWithExprs]
  | cons branch cases ih =>
    have h := ((fills_option f flags branch.condition).map fun condition =>
      { branch with condition }).seq List.cons ih
    simpa only [List.mapM_cons, List.flatMap_cons, casesWithExprs, ConditionalCase.visitM,
      bind_pure_comp] using h

mutual

theorem fills_statement (body : Statement) :
    Fills f flags (body.visitM f flags) body.exprs body.withExprs := by
  match body with
  | .declareVar name value span =>
    simp only [Statement.visitM, bind_pure_comp]
    exact (fills_option f flags value).map _
  | .expression expr span =>
    simp only [Statement.visitM, bind_pure_comp]
    exact (fills_expr f flags expr).map _
  | .return_ value span =>
    simp only [Statement.visitM, bind_pure_comp]
    exact (fills_expr f flags value).map _
  | .if_ condition trueCase falseCase span =>
    have hbranches := (fills_statements trueCase).seq Prod.mk (fills_statements falseCase)
    have h := (fills_expr f flags condition).seq
      (fun condition branches => Statement.if_ condition branches.1 branches.2 span) hbranches
    simpa only [Statement.visitM, Statement.exprs, Statement.withExprs, bind_assoc, pure_bind,
      List.singleton_append, List.length_singleton, List.drop_one] using h

theorem fills_statements (bodies : List Statement) :
    Fills f flags (visitStatementsM f flags bodies) (exprsOfStatements bodies)
      (statementsWithExprs bodies) := by
  match bodies with
  | [] =>
    intro γ more next
    simp [visitStatementsM, exprsOfStatements, statementsWithExprs]
  | body :: bodies => exact (fills_statement body).seq List.cons (fills_statements bodies)

end

theorem fills_conditional (op : ConditionalOp) :
    Fills f flags (UpdateOp.visitM f flags (.conditional op)) op.exprs
      fun parts => .conditional (op.withExprs parts) := by
  have h := (((fills_option f flags op.test).seq Prod.mk (fills_cases f flags op.cases)).seq Prod.mk
    (fills_option f flags op.processed)).seq (fun first contextValue => UpdateOp.conditional
      { op with test := first.1.1, cases := first.1.2, processed := first.2, contextValue })
    (fills_option f flags op.contextValue)
  simp only [bind_assoc, pure_bind] at h
  exact h

theorem fills_updateOp (op : UpdateOp) :
    Fills f flags (op.visitM f flags) op.exprs op.withExprs := by
  cases op with
  | conditional op => exact fills_conditional f flags op
  | listEnd =>
    intro γ more next
    simp [UpdateOp.visitM, UpdateOp.exprs, UpdateOp.withExprs]
  | interpolateText op =>
    simp only [UpdateOp.visitM, bind_pure_comp]
    exact (fills_interpolation f flags op.interpolation).map _
  | statement body => exact (fills_statement f flags body).map UpdateOp.statement
  | twoWayProperty op | classProp op | repeater op | deferWhen op | storeLet op | variableDecl op =>
    simp only [UpdateOp.visitM, bind_pure_comp]
    exact (fills_expr f flags _).map _
  | _ op =>
    simp only [UpdateOp.visitM, bind_pure_comp]
    exact (fills_value f flags op.value).map _

theorem UpdateOp.visitM_eq (op : UpdateOp) :
    op.visitM f flags = op.withExprs <$> op.exprs.mapM (Expr.visitM f flags) :=
  (fills_updateOp f flags op).eq_mapM

end Visit

end TemplateLowering
