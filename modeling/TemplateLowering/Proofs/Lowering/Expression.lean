import TemplateLowering.Lowering.Expression
import TemplateLowering.Proofs.Op.Everywhere
import TemplateLowering.Proofs.Output.Pipes
import TemplateLowering.Proofs.Xref.Supply

/-!
# Lowered expressions

An expression is rejected for what it is itself, or else its operands are lowered one after the
other and `Ast.output` puts them together.  `Ast.yields_lower` says so for all kinds of expressions
at once, and everything about lowered expressions is an induction over the operands.

Lowering succeeds exactly when the expression is supported at every depth.  It draws one number for
each pipe, an expression before its operands and the operands in order; so the pipes of the result
have the numbers that were drawn, in this order.
-/

namespace TemplateLowering

variable {ast node : Ast}

/-- Whether lowering makes expressions of this kind.  Besides pipes, such an expression refers to no
number but that of the root, whose context it may read. -/
def Expr.isLowered (root : Xref) : Expr → Bool
  | .context view => view = root
  | .reference .. | .trackContext _ | .restoreView _ | .restoreViewFrom _ | .resetView _
  | .readVariable .. | .conditionalCase .. | .contextLetReference .. => false
  | _ => true

/-- The expression and all expressions in it are of a kind that lowering makes. -/
abbrev Expr.Lowered (root : Xref) (expr : Expr) : Prop :=
  expr.Everywhere (isLowered root)

theorem Expr.lowered_iff {root : Xref} {expr : Expr} :
    expr.Lowered root ↔
      expr.isLowered root = true ∧ ∀ child ∈ expr.children, child.Lowered root :=
  everywhere_iff

namespace Ast

/-! ## Parts -/

/-- The parts of an expression, in order.  Values of a map that have no key are left out. -/
def parts : Ast → List Ast
  | .empty _ | .implicitReceiver _ | .thisReceiver _ | .literal .. => []
  | .chain _ expressions => expressions
  | .conditional _ condition trueCase falseCase => [condition, trueCase, falseCase]
  | .propertyRead _ _ receiver _ => [receiver]
  | .safePropertyRead _ _ receiver _ => [receiver]
  | .keyedRead _ receiver key => [receiver, key]
  | .safeKeyedRead _ receiver key => [receiver, key]
  | .pipe _ _ operand _ args _ => operand :: args
  | .array _ entries => entries
  | .map _ keys values => values.take keys.length
  | .interpolation _ _ expressions => expressions
  | .binary _ _ left right => [left, right]
  | .prefixNot _ operand => [operand]
  | .unary _ _ operand => [operand]
  | .typeof _ operand => [operand]
  | .void _ operand => [operand]
  | .nonNull _ operand => [operand]
  | .call _ receiver args _ => receiver :: args
  | .safeCall _ receiver args _ => receiver :: args
  | .parenthesized _ operand => [operand]

theorem sizeOf_lt_of_mem_parts {part : Ast} (h : part ∈ ast.parts) : sizeOf part < sizeOf ast := by
  have hlist : ∀ {asts : List Ast}, part ∈ asts → sizeOf part < sizeOf asts :=
    List.sizeOf_lt_of_mem
  cases ast <;> simp only [parts, List.mem_cons, List.not_mem_nil, or_false] at h
  case map =>
    have hvalue := hlist (List.mem_of_mem_take h)
    simp only [map.sizeOf_spec]
    omega
  all_goals grind

theorem induction_parts {P : Ast → Prop} (h : ∀ ast, (∀ part ∈ ast.parts, P part) → P ast)
    (ast : Ast) : P ast :=
  h ast fun part _ => induction_parts h part
termination_by sizeOf ast
decreasing_by exact sizeOf_lt_of_mem_parts (by assumption)

/-- The expression and the expressions in it at any depth, each before its parts. -/
def preorder (ast : Ast) : List Ast :=
  ast :: (ast.parts.attach.map fun part => part.val.preorder).flatten
termination_by sizeOf ast
decreasing_by exact sizeOf_lt_of_mem_parts part.property

theorem preorder_eq (ast : Ast) : ast.preorder = ast :: ast.parts.flatMap preorder := by
  rw [preorder, List.attach_map_val, List.flatMap_def]

/-! ## Supported expressions -/

/-- Whether there is an output expression for the node, its parts apart. -/
def hasOutput : Ast → Bool
  | .chain .. | .interpolation .. => false
  | .unary _ operator _ => operator = "+" || operator = "-"
  | .binary _ operation _ _ => operation ∈ BinaryOperator.symbols.map Prod.fst
  | _ => true

def isNameRead : Ast → Bool
  | .propertyRead _ _ receiver _ => receiver.isImplicitReceiver
  | _ => false

/-- Every node of the expression has an output expression, and the implicit receiver stands only
where a name is read from it. -/
structure Supported (ast : Ast) : Prop where
  nodes : ∀ node ∈ ast.preorder, node.hasOutput = true
  receivers : ∀ node ∈ ast.preorder, ∀ part ∈ node.parts, part.isImplicitReceiver = true →
    node.isNameRead = true
  root : ast.isImplicitReceiver = false

def isBareCall : Ast → Bool
  | .call _ receiver _ _ => receiver.isImplicitReceiver
  | _ => false

/-- Whether the expression is lowered if its operands are. -/
def isAccepted (ast : Ast) : Bool :=
  ast.hasOutput && !ast.isImplicitReceiver && !ast.isBareCall

def operands (ast : Ast) : List Ast :=
  if ast.isNameRead then [] else ast.parts

theorem mem_parts_of_mem_operands {operand : Ast} (h : operand ∈ ast.operands) :
    operand ∈ ast.parts := by
  unfold operands at h
  split at h
  · simp at h
  · exact h

theorem mem_preorder_iff :
    node ∈ ast.preorder ↔ node = ast ∨ ∃ part ∈ ast.parts, node ∈ part.preorder := by
  rw [preorder_eq, List.mem_cons, List.mem_flatMap]

/-- A node is the expression itself, the receiver that a name is read from, or in an operand. -/
theorem preorder_cases (h : node ∈ ast.preorder) :
    node = ast ∨ (∃ extent, node = .implicitReceiver extent) ∨
      ∃ operand ∈ ast.operands, node ∈ operand.preorder := by
  rcases mem_preorder_iff.1 h with rfl | ⟨part, hpart, hnode⟩
  · exact .inl rfl
  · cases hname : ast.isNameRead with
    | false => exact .inr (.inr ⟨part, by simpa [operands, hname] using hpart, hnode⟩)
    | true =>
      cases ast <;> simp only [isNameRead, Bool.false_eq_true] at hname
      obtain rfl := List.mem_singleton.1 hpart
      cases part <;> simp only [isImplicitReceiver, Bool.false_eq_true] at hname
      rw [preorder_eq] at hnode
      exact .inr (.inl ⟨_, List.mem_singleton.1 hnode⟩)

theorem supported_iff :
    ast.Supported ↔ ast.isAccepted = true ∧ ∀ operand ∈ ast.operands, operand.Supported := by
  have hself : ast ∈ ast.preorder := mem_preorder_iff.2 (.inl rfl)
  constructor
  · rintro ⟨hnodes, hreceivers, hroot⟩
    constructor
    · have hcall : ast.isBareCall = false := by
        cases ast with
        | call extent receiver args callExtent =>
          rw [isBareCall, Bool.eq_false_iff]
          intro hreceiver
          cases hreceivers _ hself receiver List.mem_cons_self hreceiver
        | _ => rfl
      simp [isAccepted, hnodes ast hself, hroot, hcall]
    · intro operand hoperand
      have hpart := mem_parts_of_mem_operands hoperand
      have hmem : ∀ node ∈ operand.preorder, node ∈ ast.preorder :=
        fun node hnode => mem_preorder_iff.2 (.inr ⟨operand, hpart, hnode⟩)
      refine ⟨fun node hnode => hnodes node (hmem node hnode),
        fun node hnode => hreceivers node (hmem node hnode), ?_⟩
      by_contra hreceiver
      have hname := hreceivers ast hself operand hpart (by simpa using hreceiver)
      simp [operands, hname] at hoperand
  · rintro ⟨haccepted, hoperands⟩
    simp only [isAccepted, Bool.and_eq_true, Bool.not_eq_true_eq_eq_false] at haccepted
    refine ⟨?_, ?_, haccepted.1.2⟩
    · intro node hnode
      rcases preorder_cases hnode with rfl | ⟨extent, rfl⟩ | ⟨operand, hoperand, hnode⟩
      · exact haccepted.1.1
      · rfl
      · exact (hoperands operand hoperand).nodes node hnode
    · intro node hnode part hpart hreceiver
      rcases preorder_cases hnode with rfl | ⟨extent, rfl⟩ | ⟨operand, hoperand, hnode⟩
      · by_contra hname
        have hoperand : part ∈ node.operands := by simpa [operands, hname] using hpart
        exact absurd hreceiver (by simp [(hoperands part hoperand).root])
      · simp [parts] at hpart
      · exact (hoperands operand hoperand).receivers node hnode part hpart hreceiver

/-! ## Output -/

variable {root : Xref} {base : Option SourceSpan} {s t : Ids}

/-- The output expression for an expression that is accepted, from those for its operands. -/
def output (root : Xref) (base : Option SourceSpan) (target : Xref) : Ast → List Expr → Expr
  | .propertyRead extent _ _ name, [] => .lexicalRead name (extent.span.resolve? base)
  | .propertyRead extent _ _ name, receiver :: _ =>
      .readProp receiver name (extent.span.resolve? base)
  | .call extent _ _ _, fn :: args => .invoke fn args (extent.span.resolve? base) false
  | .literal extent value, _ => .literal value.lower (extent.span.resolve? base)
  | .unary extent operator _, operand :: _ =>
      .unary ((UnaryOperator.ofSymbol? operator).getD default) operand (extent.span.resolve? base)
  | .binary extent operation _ _, lhs :: rhs :: _ =>
      .binary ((BinaryOperator.ofSymbol? operation).getD default) lhs rhs
        (extent.span.resolve? base)
  | .thisReceiver _, _ => .context root
  | .keyedRead extent _ _, receiver :: index :: _ =>
      .readKey receiver index (extent.span.resolve? base)
  | .map extent keys _, values =>
      .map (List.zipWith (fun key value => ⟨key.key, key.quoted, value⟩) keys values)
        (extent.span.resolve? base)
  | .array extent _, entries => .array entries (extent.span.resolve? base)
  | .conditional extent _ _ _, condition :: trueCase :: falseCase =>
      .conditional condition trueCase falseCase.head? (extent.span.resolve? base)
  | .pipe _ _ _ name _ _, args => .pipeBinding target none name args
  | .safeKeyedRead extent _ _, receiver :: index :: _ =>
      .safeKeyedRead receiver index (extent.span.resolve? base)
  | .safePropertyRead _ _ _ name, receiver :: _ => .safePropertyRead receiver name
  | .safeCall .., receiver :: args => .safeInvoke receiver args
  | .empty extent, _ => .empty (extent.span.resolve? base)
  | .prefixNot extent _, operand :: _ => .not operand (extent.span.resolve? base)
  | .typeof extent _, operand :: _ => .typeof operand (extent.span.resolve? base)
  | .void extent _, operand :: _ => .void operand (extent.span.resolve? base)
  -- Parentheses and assertions leave no trace.
  | _, operands => operands.headD (.empty none)

/-- The name of a pipe, and how many values it takes. -/
def pipe? : Ast → Option (String × Nat)
  | .pipe _ _ _ name args _ => some (name, args.length + 1)
  | _ => none

def target (ast : Ast) : Lower Xref :=
  if ast.pipe?.isSome then Ids.freshXref else pure default

theorem lowerAll_eq (asts : List Ast) :
    lowerAll root base asts = asts.mapM (Ast.lower root base) := by
  induction asts with
  | nil => rfl
  | cons ast asts ih => rw [lowerAll, List.mapM_cons, ih]

theorem lowerEntries_eq (keys : List MapKey) (values : List Ast) :
    lowerEntries root base keys values =
      List.zipWith (fun key value => ⟨key.key, key.quoted, value⟩) keys <$>
        (values.take keys.length).mapM (Ast.lower root base) := by
  induction keys generalizing values with
  | nil => simp [lowerEntries]
  | cons key keys ih => cases values <;> simp [lowerEntries, ih]

theorem hasOutput_unary (extent : Extent) (operator : String) (operand : Ast) :
    (unary extent operator operand).hasOutput = (UnaryOperator.ofSymbol? operator).isSome := by
  simp only [hasOutput, UnaryOperator.ofSymbol?]
  split_ifs <;> simp_all

theorem hasOutput_binary (extent : Extent) (operation : String) (left right : Ast) :
    (binary extent operation left right).hasOutput =
      (BinaryOperator.ofSymbol? operation).isSome := by
  rw [Bool.eq_iff_iff]
  simp [hasOutput, BinaryOperator.ofSymbol?, List.lookup_isSome_iff]

/-- An expression is rejected for what it is itself, or its operands decide. -/
theorem lower_cases (root : Xref) (base : Option SourceSpan) (ast : Ast) :
    (ast.isAccepted = false ∧ ∃ reason, ast.lower root base = ast.unsupported base reason) ∨
      ast.isAccepted = true ∧ ast.lower root base = do
        let target ← ast.target
        let exprs ← ast.operands.mapM (Ast.lower root base)
        return ast.output root base target exprs := by
  cases ast with
  | chain | interpolation | implicitReceiver => exact .inl ⟨rfl, _, by rw [Ast.lower]⟩
  | propertyRead extent nameSpan receiver name =>
    refine .inr ⟨rfl, ?_⟩
    by_cases hname : receiver.isImplicitReceiver <;>
      simp [Ast.lower, target, pipe?, operands, isNameRead, parts, output, hname]
  | call extent receiver args callExtent =>
    by_cases hreceiver : receiver.isImplicitReceiver
    · exact .inl ⟨by simp [isAccepted, isBareCall, hreceiver], _, by
        rw [Ast.lower, if_pos hreceiver]⟩
    · refine .inr ⟨by simp [isAccepted, isBareCall, hasOutput, hreceiver]; rfl, ?_⟩
      simp [Ast.lower, target, pipe?, operands, isNameRead, parts, output, hreceiver, lowerAll_eq]
  | unary extent operator operand =>
    rw [isAccepted, hasOutput_unary]
    cases hop : UnaryOperator.ofSymbol? operator with
    | none => exact .inl ⟨rfl, _, by rw [Ast.lower, hop]⟩
    | some op =>
      refine .inr ⟨rfl, ?_⟩
      simp [Ast.lower, target, pipe?, operands, isNameRead, parts, output, hop]
  | binary extent operation left right =>
    rw [isAccepted, hasOutput_binary]
    cases hop : BinaryOperator.ofSymbol? operation with
    | none => exact .inl ⟨rfl, _, by rw [Ast.lower, hop]⟩
    | some op =>
      refine .inr ⟨rfl, ?_⟩
      simp [Ast.lower, target, pipe?, operands, isNameRead, parts, output, hop]
  | _ =>
    refine .inr ⟨rfl, ?_⟩
    simp [Ast.lower, target, pipe?, operands, isNameRead, parts, output, lowerAll_eq,
      lowerEntries_eq]

theorem yields_lower {expr : Expr} :
    Yields (ast.lower root base) s expr t ↔ ast.isAccepted = true ∧ ∃ target u exprs,
      Yields ast.target s target u ∧
      Threads (fun s ast expr t => Yields (lower root base ast) s expr t) u ast.operands exprs t ∧
      ast.output root base target exprs = expr := by
  rcases lower_cases root base ast with ⟨h, reason, hlower⟩ | ⟨h, hlower⟩
  · simp only [hlower, h, Bool.false_eq_true, false_and, iff_false]
    exact not_yields_throw
  · simp only [hlower, h, yields_bind, yields_pure, yields_mapM, true_and]
    constructor
    · rintro ⟨target, u, htarget, exprs, _, hexprs, hexpr, rfl⟩
      exact ⟨target, u, exprs, htarget, hexprs, hexpr⟩
    · rintro ⟨target, u, exprs, htarget, hexprs, hexpr⟩
      exact ⟨target, u, htarget, exprs, t, hexprs, hexpr, rfl⟩

theorem exists_target (ast : Ast) (s : Ids) : ∃ target t, Yields ast.target s target t := by
  unfold target
  split
  · exact ⟨_, _, yields_freshXref.2 ⟨rfl, rfl⟩⟩
  · exact ⟨_, _, yields_pure.2 ⟨rfl, rfl⟩⟩

theorem exists_yields_lower_iff (s : Ids) :
    (∃ expr t, Yields (ast.lower root base) s expr t) ↔ ast.Supported := by
  induction ast using induction_parts generalizing s with
  | h ast ih =>
    have ih := fun operand hoperand => ih operand (mem_parts_of_mem_operands hoperand)
    rw [supported_iff]
    constructor
    · rintro ⟨expr, t, h⟩
      obtain ⟨haccepted, target, u, exprs, -, hexprs, -⟩ := yields_lower.1 h
      have hoperands : List.Forall₂ (fun operand _ => operand.Supported ∧ True) ast.operands exprs :=
        hexprs.forall₂ fun v operand expr w hoperand hlower =>
          ⟨(ih operand hoperand v).1 ⟨expr, w, hlower⟩, trivial⟩
      exact ⟨haccepted, (List.forall₂_and_left _ _).1 hoperands |>.1⟩
    · rintro ⟨haccepted, hoperands⟩
      obtain ⟨target, u, htarget⟩ := ast.exists_target s
      obtain ⟨exprs, t, -, hexprs⟩ := total_mapM (R := fun s ast expr t =>
        Yields (lower root base ast) s expr t) (fun operand hoperand v => by
          obtain ⟨expr, w, hlower⟩ := (ih operand hoperand v).2 (hoperands operand hoperand)
          exact ⟨expr, w, hlower, hlower⟩) u
      exact ⟨_, t, yields_lower.2 ⟨haccepted, target, u, exprs, htarget, hexprs, rfl⟩⟩

/-! ## Pipes -/

/-- The pipes of the expression, each before those in its operands. -/
def pipes (ast : Ast) : List (String × Nat) :=
  ast.preorder.filterMap pipe?

end Ast

namespace Expr

/-- The expression and the expressions in it at any depth, each before its parts. -/
def preorder (expr : Expr) : List Expr :=
  expr :: (expr.children.attach.map fun child => child.val.preorder).flatten
termination_by sizeOf expr
decreasing_by exact sizeOf_lt_of_mem_children child.property

theorem preorder_eq (expr : Expr) : expr.preorder = expr :: expr.children.flatMap preorder := by
  rw [preorder, List.attach_map_val, List.flatMap_def]

/-- The number and the name of a pipe, and how many values it takes. -/
def pipe? : Expr → Option (Xref × String × Nat)
  | .pipeBinding target _ name args => some (target, name, args.length)
  | _ => none

/-- The pipes of the expression, each before those in its operands. -/
def pipeBindings (expr : Expr) : List (Xref × String × Nat) :=
  expr.preorder.filterMap pipe?

theorem pipeBindings_eq (expr : Expr) :
    expr.pipeBindings = expr.pipe?.toList ++ expr.children.flatMap pipeBindings := by
  rw [pipeBindings, preorder_eq, List.filterMap_cons, List.filterMap_flatMap]
  cases expr.pipe? <;> rfl

theorem map_fst_pipeBindings (expr : Expr) : expr.pipeBindings.map Prod.fst = expr.pipes := by
  induction expr using induction_children with
  | h expr ih =>
    have hpipe : expr.pipe?.toList.map Prod.fst = expr.pipe := by cases expr <;> rfl
    rw [pipeBindings_eq, pipes_eq, List.map_append, hpipe, List.map_flatMap]
    exact congrArg _ (List.flatMap_congr ih)

end Expr

namespace Ast

variable {root : Xref} {base : Option SourceSpan} {s t : Ids} {ast : Ast} {expr : Expr}
  {exprs : List Expr}

theorem pipes_eq (ast : Ast) : ast.pipes = ast.pipe?.toList ++ ast.operands.flatMap pipes := by
  have hparts : ast.operands.flatMap pipes = ast.parts.flatMap pipes := by
    cases ast with
    | propertyRead extent nameSpan receiver name =>
      cases receiver <;> simp [operands, isNameRead, isImplicitReceiver, parts, pipes, preorder_eq,
        pipe?]
    | _ => rfl
  rw [hparts, pipes, preorder_eq, List.filterMap_cons, List.filterMap_flatMap]
  cases ast.pipe? <;> rfl

/-- The output expression is that for the only operand, or it has those for the operands as its
parts. -/
theorem output_cases (root : Xref) (base : Option SourceSpan) (target : Xref)
    (haccepted : ast.isAccepted = true) (h : exprs.length = ast.operands.length) :
    (∃ expr, exprs = [expr] ∧ ast.output root base target exprs = expr ∧ ast.pipe? = none) ∨
      (ast.output root base target exprs).children = exprs ∧
        (ast.output root base target exprs).pipe? = ast.pipe?.map (Prod.mk target) ∧
        (ast.output root base target exprs).isLowered root = true ∧
        ∀ steps, ast.output root base target exprs ≠ .nextContext steps := by
  cases ast with
  | propertyRead extent nameSpan receiver name =>
    refine .inr ?_
    rcases exprs with _ | ⟨receiver', _ | ⟨other, rest⟩⟩
    · exact ⟨rfl, rfl, rfl, by simp [output]⟩
    · exact ⟨rfl, rfl, rfl, by simp [output]⟩
    · simp only [operands, parts] at h
      split at h <;> cases h
  | map extent keys values =>
    have hlength : exprs.length ≤ keys.length := h.trans_le (List.length_take_le _ _)
    have hvalues : List.zipWith (fun _ value => value) keys exprs = exprs := by
      rw [← List.map_uncurry_zip_eq_zipWith]
      exact List.map_snd_zip hlength
    refine .inr ⟨?_, rfl, rfl, by simp [output]⟩
    simpa [output, Expr.children, List.map_zipWith] using hvalues
  | conditional extent condition trueCase falseCase =>
    obtain ⟨condition', trueCase', falseCase', rfl⟩ := List.length_eq_three.1 h
    exact .inr ⟨rfl, rfl, rfl, by simp [output]⟩
  | chain | interpolation | implicitReceiver => cases haccepted
  | _ =>
    simp only [operands, isNameRead, parts, List.length_cons, List.length_nil, Bool.false_eq_true,
      if_false] at h
    rcases exprs with _ | ⟨a, _ | ⟨b, rest⟩⟩ <;>
      simp_all [output, pipe?, Expr.pipe?, Expr.children, Expr.isLowered]

theorem pipeBindings_output (target : Xref) (haccepted : ast.isAccepted = true)
    (h : exprs.length = ast.operands.length) :
    (ast.output root base target exprs).pipeBindings =
      (ast.pipe?.map (Prod.mk target)).toList ++ exprs.flatMap Expr.pipeBindings := by
  rcases output_cases root base target haccepted h with
    ⟨expr, rfl, hexpr, hpipe⟩ | ⟨hchildren, hpipe, -⟩
  · simp [hexpr, hpipe]
  · rw [Expr.pipeBindings_eq, hpipe, hchildren]

theorem draws_target {target : Xref} (h : Yields ast.target s target t) :
    Draws s t ((ast.pipe?.map (Prod.mk target)).toList.map Prod.fst) := by
  cases ast with
  | pipe =>
    obtain ⟨rfl, rfl⟩ := yields_freshXref.1 h
    exact .fresh s
  | _ =>
    obtain ⟨-, rfl⟩ := yields_pure.1 h
    exact .nil s

theorem draws_of_threads {asts : List Ast}
    (h : Threads (fun s _ expr t => Draws s t (Expr.pipes expr)) s asts exprs t) :
    Draws s t (exprs.flatMap Expr.pipes) := by
  induction h with
  | nil => exact .nil _
  | cons hexpr _ ih => exact hexpr.append ih

theorem draws_pipes (h : Yields (ast.lower root base) s expr t) : Draws s t expr.pipes := by
  induction ast using induction_parts generalizing s expr t with
  | h ast ih =>
    obtain ⟨haccepted, target, u, exprs, htarget, hexprs, rfl⟩ := yields_lower.1 h
    have hdraws := draws_of_threads (hexprs.imp fun _ operand _ _ hoperand =>
      ih operand (mem_parts_of_mem_operands hoperand))
    rw [← Expr.map_fst_pipeBindings, pipeBindings_output target haccepted hexprs.length_eq,
      List.map_append, List.map_flatMap]
    simp only [Expr.map_fst_pipeBindings]
    exact (draws_target htarget).append hdraws

theorem lowered (h : Yields (ast.lower root base) s expr t) :
    expr.Lowered root ∧ ∀ steps, expr ≠ .nextContext steps := by
  induction ast using induction_parts generalizing s expr t with
  | h ast ih =>
    obtain ⟨haccepted, target, u, exprs, -, hexprs, rfl⟩ := yields_lower.1 h
    have hlowered : ∀ expr ∈ exprs, expr.Lowered root ∧ ∀ steps, expr ≠ .nextContext steps := by
      intro expr hexpr
      obtain ⟨operand, hoperand, _, _, hlower⟩ := hexprs.exists_of_mem hexpr
      exact ih operand (mem_parts_of_mem_operands hoperand) hlower
    rcases output_cases root base target haccepted hexprs.length_eq with
      ⟨expr, rfl, hexpr, -⟩ | ⟨hchildren, -, hkind, hne⟩
    · rw [hexpr]
      exact hlowered expr (List.mem_singleton_self expr)
    · refine ⟨Expr.lowered_iff.2 ⟨hkind, ?_⟩, hne⟩
      rw [hchildren]
      exact fun expr hexpr => (hlowered expr hexpr).1

end Ast

/-! ## Lists of expressions -/

/-- Expressions that lowering made, while the supply went from `s` to `t`. -/
structure LoweredExprs (root : Xref) (s t : Ids) (exprs : List Expr) : Prop where
  draws : Draws s t (exprs.flatMap Expr.pipes)
  lowered : ∀ expr ∈ exprs, expr.Lowered root
  noSteps : ∀ expr ∈ exprs, ∀ steps, expr ≠ .nextContext steps

theorem LoweredExprs.nil (s : Ids) : LoweredExprs root s s [] :=
  ⟨.nil s, by simp, by simp⟩

theorem LoweredExprs.append {u : Ids} {exprs exprs' : List Expr} (h : LoweredExprs root s t exprs)
    (h' : LoweredExprs root t u exprs') : LoweredExprs root s u (exprs ++ exprs') := by
  refine ⟨?_, ?_, ?_⟩
  · rw [List.flatMap_append]
    exact h.draws.append h'.draws
  · exact fun expr hexpr => (List.mem_append.1 hexpr).elim (h.lowered expr) (h'.lowered expr)
  · exact fun expr hexpr => (List.mem_append.1 hexpr).elim (h.noSteps expr) (h'.noSteps expr)

theorem Ast.loweredExprs {expr : Expr} (h : Yields (ast.lower root base) s expr t) :
    LoweredExprs root s t [expr] :=
  ⟨by simpa using draws_pipes h, by simpa using (lowered h).1, by simpa using (lowered h).2⟩

theorem loweredExprs_lowerAll {asts : List Ast} {exprs : List Expr}
    (h : Yields (lowerAll root base asts) s exprs t) : LoweredExprs root s t exprs := by
  rw [Ast.lowerAll_eq, yields_mapM] at h
  induction h with
  | nil => exact .nil _
  | cons hexpr _ ih => exact (Ast.loweredExprs hexpr).append ih

end TemplateLowering
