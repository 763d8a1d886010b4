import TemplateLowering.Output.Traversal
import TemplateLowering.Proofs.Outcome

/-!
# Expressions and their parts

`Expr.children` gives the parts of an expression in the order of its fields, and `withChildren` puts
other parts in their places.  A visit is a visit of the parts followed by the action on the
expression with its new parts, whatever the expression; so a fact about visits is proved by one
induction over the parts.
-/

namespace TemplateLowering

namespace Expr

def children : Expr → List Expr
  | .invoke fn args _ _ => fn :: args
  | .conditional condition trueCase falseCase _ => condition :: trueCase :: falseCase.toList
  | .not condition _ => [condition]
  | .binary _ lhs rhs _ => [lhs, rhs]
  | .readProp receiver _ _ => [receiver]
  | .readKey receiver index _ => [receiver, index]
  | .array entries _ => entries
  | .map entries _ => entries.map MapEntry.value
  | .typeof operand _ => [operand]
  | .void operand _ => [operand]
  | .unary _ operand _ => [operand]
  | .restoreViewFrom view => [view]
  | .resetView operand => [operand]
  | .pipeBinding _ _ _ args => args
  | .safePropertyRead receiver _ => [receiver]
  | .safeKeyedRead receiver index _ => [receiver, index]
  | .safeInvoke receiver args => receiver :: args
  | .conditionalCase condition _ _ _ => condition.toList
  | .readVar .. | .literal .. | .external .. | .lexicalRead .. | .reference .. | .context ..
  | .trackContext .. | .nextContext .. | .getCurrentView | .restoreView .. | .readVariable ..
  | .empty .. | .contextLetReference .. => []

/-- The expression with other parts in the places of its own. -/
def withChildren : Expr → List Expr → Expr
  | .invoke _ _ span isPure, fn :: args => .invoke fn args span isPure
  | .conditional _ _ _ span, condition :: trueCase :: falseCase =>
      .conditional condition trueCase falseCase.head? span
  | .not _ span, condition :: _ => .not condition span
  | .binary operator _ _ span, lhs :: rhs :: _ => .binary operator lhs rhs span
  | .readProp _ name span, receiver :: _ => .readProp receiver name span
  | .readKey _ _ span, receiver :: index :: _ => .readKey receiver index span
  | .array _ span, entries => .array entries span
  | .map entries span, values =>
      .map (List.zipWith (fun entry value => { entry with value }) entries values) span
  | .typeof _ span, operand :: _ => .typeof operand span
  | .void _ span, operand :: _ => .void operand span
  | .unary operator _ span, operand :: _ => .unary operator operand span
  | .restoreViewFrom _, view :: _ => .restoreViewFrom view
  | .resetView _, operand :: _ => .resetView operand
  | .pipeBinding target slot name _, args => .pipeBinding target slot name args
  | .safePropertyRead _ name, receiver :: _ => .safePropertyRead receiver name
  | .safeKeyedRead _ _ span, receiver :: index :: _ => .safeKeyedRead receiver index span
  | .safeInvoke _ _, receiver :: args => .safeInvoke receiver args
  | .conditionalCase _ target slot aliasName, condition =>
      .conditionalCase condition.head? target slot aliasName
  | expr, _ => expr

theorem sizeOf_lt_of_mem_children {expr child : Expr} (h : child ∈ expr.children) :
    sizeOf child < sizeOf expr := by
  have hlist : ∀ {exprs : List Expr}, child ∈ exprs → sizeOf child < sizeOf exprs :=
    List.sizeOf_lt_of_mem
  have hentry : ∀ {entries : List MapEntry}, child ∈ entries.map MapEntry.value →
      sizeOf child < sizeOf entries := by
    intro entries hmem
    obtain ⟨⟨key, quoted, value⟩, hentry, rfl⟩ := List.mem_map.1 hmem
    have hlt := List.sizeOf_lt_of_mem hentry
    simp only [MapEntry.mk.sizeOf_spec] at hlt ⊢
    omega
  have hoption : ∀ {expr : Option Expr}, child ∈ expr.toList → sizeOf child < sizeOf expr := by
    intro expr hmem
    obtain rfl := Option.mem_toList.1 hmem
    rw [Option.some.sizeOf_spec]
    omega
  cases expr <;> simp only [children, List.mem_cons, List.not_mem_nil, or_false] at h <;> grind

theorem induction_children {P : Expr → Prop}
    (h : ∀ expr, (∀ child ∈ expr.children, P child) → P expr) (expr : Expr) : P expr :=
  h expr fun child _ => induction_children h child
termination_by sizeOf expr
decreasing_by exact sizeOf_lt_of_mem_children (by assumption)

theorem toList_head?_of_length {parts : List Expr} {expr : Option Expr}
    (h : parts.length = expr.toList.length) : parts.head?.toList = parts := by
  cases expr <;> rcases parts with _ | ⟨a, _ | ⟨b, parts⟩⟩ <;> simp at h ⊢

theorem children_withChildren {expr : Expr} {parts : List Expr}
    (h : parts.length = expr.children.length) : (expr.withChildren parts).children = parts := by
  cases expr with
  | conditional condition trueCase falseCase span =>
    obtain ⟨a, b, parts, rfl⟩ : ∃ a b rest, parts = a :: b :: rest := by
      rcases parts with _ | ⟨a, _ | ⟨b, parts⟩⟩ <;> simp [children] at h ⊢
    have hrest : parts.length = falseCase.toList.length := by simpa [children] using h
    simp [withChildren, children, toList_head?_of_length hrest]
  | map entries span =>
    simp only [children, List.length_map] at h
    have hvalues : List.zipWith (fun _ value => value) entries parts = parts := by
      rw [← List.map_uncurry_zip_eq_zipWith]
      exact List.map_snd_zip (Nat.le_of_eq h)
    simpa [withChildren, children, List.map_zipWith] using hvalues
  | conditionalCase condition target slot aliasName =>
    exact toList_head?_of_length h
  | _ =>
    simp only [children, List.length_cons, List.length_nil] at h
    rcases parts with _ | ⟨a, _ | ⟨b, rest⟩⟩ <;> simp_all [withChildren, children]

theorem withChildren_children (expr : Expr) : expr.withChildren expr.children = expr := by
  cases expr with
  | conditional condition trueCase falseCase span => cases falseCase <;> rfl
  | conditionalCase condition target slot aliasName => cases condition <;> rfl
  | map entries span =>
    have hentry : ∀ entry : MapEntry, MapEntry.mk entry.key entry.quoted entry.value = entry := by
      intro entry
      cases entry
      rfl
    simp only [withChildren, children, List.zipWith_map_right, List.zipWith_self, hentry,
      List.map_id_fun', id]
  | _ => rfl

theorem zipWith_value_zipWith_value {entries : List MapEntry} {values values' : List Expr}
    (h : values.length = entries.length) :
    List.zipWith (fun entry value => { entry with value })
        (List.zipWith (fun entry value => { entry with value }) entries values) values' =
      List.zipWith (fun entry value => { entry with value }) entries values' := by
  induction entries generalizing values values' with
  | nil => rfl
  | cons entry entries ih =>
    cases values with
    | nil => simp at h
    | cons value values =>
      cases values' with
      | nil => rfl
      | cons value' values' =>
        simp only [List.zipWith_cons_cons, ih (Nat.succ.inj h)]

theorem withChildren_withChildren {expr : Expr} {parts parts' : List Expr}
    (h : parts.length = expr.children.length) (h' : parts'.length = expr.children.length) :
    (expr.withChildren parts).withChildren parts' = expr.withChildren parts' := by
  cases expr with
  | map entries span =>
    simp only [children, List.length_map] at h
    simp only [withChildren, zipWith_value_zipWith_value h]
  | conditional condition trueCase falseCase span =>
    rcases parts with _ | ⟨a, _ | ⟨b, parts⟩⟩ <;> rcases parts' with _ | ⟨a', _ | ⟨b', parts'⟩⟩ <;>
      simp [children, withChildren] at h h' ⊢
  | _ =>
    simp only [children, List.length_cons, List.length_nil] at h h'
    rcases parts with _ | ⟨a, _ | ⟨b, parts⟩⟩ <;> rcases parts' with _ | ⟨a', _ | ⟨b', parts'⟩⟩ <;>
      simp_all [withChildren]

end Expr

/-! ## Visits -/

section Visit

variable {m : Type → Type} [Monad m] [LawfulMonad m] (f : Visitor m) (flags : VisitFlags)

theorem visitAllM_eq (exprs : List Expr) :
    visitAllM f flags exprs = exprs.mapM (Expr.visitM f flags) := by
  induction exprs with
  | nil => rfl
  | cons expr exprs ih => rw [visitAllM, List.mapM_cons, ih]

theorem visitOptionM_eq (expr : Option Expr) :
    visitOptionM f flags expr = List.head? <$> expr.toList.mapM (Expr.visitM f flags) := by
  cases expr <;> simp [visitOptionM]

theorem visitEntriesM_eq (entries : List MapEntry) :
    visitEntriesM f flags entries =
      List.zipWith (fun entry value => { entry with value }) entries <$>
        (entries.map MapEntry.value).mapM (Expr.visitM f flags) := by
  induction entries with
  | nil => simp [visitEntriesM]
  | cons entry entries ih =>
    obtain ⟨key, quoted, value⟩ := entry
    simp [visitEntriesM, ih]

/-- A visit is a visit of the parts, and then the action on the expression with its new parts. -/
theorem Expr.visitM_eq (expr : Expr) :
    expr.visitM f flags =
      expr.children.mapM (Expr.visitM f flags) >>= fun parts =>
        f flags (expr.withChildren parts) := by
  cases expr <;> simp [Expr.visitM, children, withChildren, visitAllM_eq, visitOptionM_eq,
    visitEntriesM_eq]

end Visit

end TemplateLowering
