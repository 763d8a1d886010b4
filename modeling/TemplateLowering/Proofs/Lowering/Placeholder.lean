import TemplateLowering.Proofs.Lowering.Text

/-!
# Placeholders of translated interpolations

A translated text takes the names of its placeholders as they come, and a translated attribute takes
each name of its message once.  Both are then counted against the expressions, so that the two agree
where no name is repeated, and the attribute is rejected where one is.
-/

namespace TemplateLowering

namespace I18n

def Node.placeholder? : Node → Option String
  | .placeholder _ name _ => some name
  | _ => none

/-- Texts and placeholders, the nodes with nothing below them. -/
def Node.isFlat : Node → Bool
  | .text .. | .placeholder .. => true
  | _ => false

theorem collectAllPlaceholders_append (nodes : List Node) (node : Node) (names : List String) :
    collectAllPlaceholders (nodes ++ [node]) names =
      node.collectPlaceholders (collectAllPlaceholders nodes names) := by
  induction nodes generalizing names with
  | nil => simp [collectAllPlaceholders]
  | cons first nodes ih => simp [collectAllPlaceholders, ih]

/-- A flat message names each of its placeholders once, in the order in which they first appear. -/
theorem Message.placeholderNames_eq {message : Message} (h : ∀ node ∈ message.nodes, node.isFlat) :
    message.placeholderNames =
      (message.nodes.filterMap Node.placeholder?).reverse.dedup.reverse := by
  rw [placeholderNames]
  generalize message.nodes = nodes at h
  induction nodes using List.reverseRecOn with
  | nil => rfl
  | append_singleton nodes node ih =>
    obtain ⟨hnodes, hnode⟩ := List.forall_mem_append.1 h
    rw [collectAllPlaceholders_append, ih hnodes]
    cases node with
    | text value span =>
      have hnone : Node.placeholder? (.text value span) = none := rfl
      simp [Node.collectPlaceholders, hnone]
    | placeholder value name span =>
      by_cases hmem : name ∈ nodes.filterMap Node.placeholder? <;>
        simp [Node.collectPlaceholders, Node.placeholder?, hmem]
    | _ => simp [Node.isFlat] at hnode

end I18n

/-! ## Interpolations with placeholders -/

/-- The text interpolates the expressions, and its container holds placeholders with the names. -/
def Template.BoundText.Labels (text : Template.BoundText) (asts : List Ast) (names : List String) :
    Prop :=
  ∃ extent strings children span, text.value.ast = .interpolation extent strings asts ∧
    text.i18n = some (.node (.container children span)) ∧
    children.filterMap I18n.Node.placeholder? = names

/-- The input interpolates the expressions, and its message consists of texts and of placeholders
with the names. -/
def Template.BoundAttribute.Labels (input : Template.BoundAttribute) (asts : List Ast)
    (names : List String) : Prop :=
  ∃ extent strings message, input.value.ast = .interpolation extent strings asts ∧
    input.i18n = some (.message message) ∧ (∀ node ∈ message.nodes, node.isFlat) ∧
    message.nodes.filterMap I18n.Node.placeholder? = names

section Interpolation

variable {asts : List Ast} {names : List String}

theorem lowerAll_supported (h : ∀ ast ∈ asts, ast.Supported) (root : Xref)
    (base : Option SourceSpan) (s : Ids) :
    ∃ exprs t, Yields (lowerAll root base asts) s exprs t ∧ exprs.length = asts.length := by
  obtain ⟨exprs, t, hexprs, hthreads⟩ := total_mapM (f := Ast.lower root base)
    (R := fun _ _ _ _ => True) (fun ast hast s => by
      obtain ⟨expr, t, hlower⟩ := (Ast.exists_yields_lower_iff s).2 (h ast hast)
      exact ⟨expr, t, hlower, trivial⟩) s
  rw [← Ast.lowerAll_eq] at hexprs
  exact ⟨exprs, t, hexprs, hthreads.length_eq⟩

theorem checked_eq {exprs : List Expr} (h : exprs.length = names.length) (strings : List String) :
    Interpolation.checked strings exprs names =
      .ok { strings, expressions := exprs, placeholders := names } := by
  simp [Interpolation.checked, h]

theorem length_dedup_lt (h : ¬names.Nodup) : names.dedup.length < names.length := by
  refine Nat.lt_of_le_of_ne names.dedup_sublist.length_le fun heq => h ?_
  rw [← names.dedup_sublist.eq_of_length heq]
  exact names.nodup_dedup

theorem checked_eq_error {exprs : List Expr} (h : exprs.length = names.length)
    (hrepeated : ¬names.Nodup) (strings : List String) :
    Interpolation.checked strings exprs names.reverse.dedup.reverse =
      .error (.placeholderCount names.length names.dedup.length) := by
  have hlength : names.reverse.dedup.reverse.length = names.dedup.length := by
    rw [List.length_reverse]
    exact (List.reverse_perm names).dedup.length_eq
  have hlt := length_dedup_lt hrepeated
  have hnames : names ≠ [] := fun hnil => hrepeated (hnil ▸ List.nodup_nil)
  simp [Interpolation.checked, hlength, h, hnames, Nat.ne_of_lt hlt]

variable (hasts : ∀ ast ∈ asts, ast.Supported) (hlength : asts.length = names.length) (s : Ids)
include hasts hlength

theorem lowerBoundText_labels {text : Template.BoundText} (h : text.Labels asts names)
    (facts : JobFacts) (icu : Option String) :
    ∃ f t new, Yields (lowerBoundText facts icu text) s f t ∧ f.update = [.interpolateText new] ∧
      new.interpolation.expressions.length = names.length ∧
      new.interpolation.placeholders = names := by
  obtain ⟨extent, strings, children, span, hast, hi18n, rfl⟩ := h
  have hparts : Yields (textInterpolation text) s (strings, asts) s := by
    rw [textInterpolation, hast]
    exact yields_pure.2 ⟨rfl, rfl⟩
  have hnames : Yields (textPlaceholders text) s (children.filterMap I18n.Node.placeholder?) s := by
    rw [textPlaceholders, hi18n]
    exact yields_pure.2 ⟨rfl, rfl⟩
  choose exprs t hexprs hcount using fun base => lowerAll_supported hasts facts.root base s
  simp only [hlength] at hcount
  exact ⟨_, _, _, yields_bind.2 ⟨_, _, hparts, yields_bind.2 ⟨_, _, hnames, yields_bind.2
    ⟨_, _, hexprs _, yields_bind.2 ⟨_, _, yields_ofExcept.2 ⟨checked_eq (hcount _) _, rfl⟩,
      yields_bind.2 ⟨_, _, yields_freshXref.2 ⟨rfl, rfl⟩, yields_pure.2 ⟨rfl, rfl⟩⟩⟩⟩⟩⟩,
    rfl, hcount _, rfl⟩

/-- How translated texts and translated inputs take the names of their placeholders.  The text takes
any names, one per expression.  The input takes them if they are distinct, and is otherwise rejected
for having fewer names than expressions. -/
theorem lowerBoundText_lowerInput_placeholders {text : Template.BoundText}
    {input : Template.BoundAttribute} (htext : text.Labels asts names)
    (hinput : input.Labels asts names) (facts : JobFacts) (icu : Option String) (target : Xref) :
    (∃ f t new, Yields (lowerBoundText facts icu text) s f t ∧ f.update = [.interpolateText new] ∧
      new.interpolation.expressions.length = names.length ∧
      new.interpolation.placeholders = names) ∧
    (names.Nodup → ∃ binding value t, Yields (lowerInput facts.root target input) s binding t ∧
      binding.value = .interpolation value ∧ value.expressions.length = names.length ∧
      value.placeholders = names) ∧
    (¬names.Nodup → outcome (lowerInput facts.root target input) s =
      .error (.placeholderCount names.length names.dedup.length)) := by
  refine ⟨lowerBoundText_labels hasts hlength s htext facts icu, ?_⟩
  obtain ⟨extent, strings, message, hast, hi18n, hflat, hnodes⟩ := hinput
  obtain ⟨exprs, t, hexprs, hcount⟩ := lowerAll_supported hasts facts.root (some input.span) s
  rw [hlength] at hcount
  have hmessage : Yields (messageOf input.i18n "BoundAttribute" input.span) s (some message) s := by
    rw [hi18n]
    exact yields_pure.2 ⟨rfl, rfl⟩
  -- The message has each name once, so that repeated names leave too few.
  have hnames := I18n.Message.placeholderNames_eq hflat
  rw [hnodes] at hnames
  constructor
  · intro hnodup
    rw [(List.nodup_reverse.2 hnodup).dedup, List.reverse_reverse] at hnames
    have hvalue : Yields (lowerValue facts.root (some message) (some input.span) input.value.ast) s
        (.interpolation { strings, expressions := exprs, placeholders := names }) t := by
      simp only [hast, lowerValue, lowerValue.liftExcept, yields_bind, yields_map, yields_ofExcept]
      exact ⟨exprs, t, hexprs, _, ⟨by simp [hnames, checked_eq hcount], rfl⟩, rfl⟩
    exact ⟨_, _, t, yields_bind.2 ⟨_, _, hmessage, yields_bind.2 ⟨_, _, hvalue,
      yields_pure.2 ⟨rfl, rfl⟩⟩⟩, rfl, hcount, rfl⟩
  · intro hrepeated
    simp only [lowerInput, hast, lowerValue, outcome_bind_eq_error, outcome_map_eq_error]
    refine .inr ⟨_, _, hmessage, .inl (.inr ⟨exprs, t, hexprs, ?_⟩)⟩
    rw [Option.map_some, Option.getD_some, hnames, checked_eq_error hcount hrepeated]
    rfl

end Interpolation

/-! ## A label and its caption -/

section Label

def labelNodes (names : List String) : List I18n.Node :=
  names.map fun name => .placeholder "value" name default

def labelValue (names : List String) : Ast :=
  .interpolation {} ("" :: names.map fun _ => "") (names.map fun _ => .literal {} .null)

def labelText (names : List String) : Template.BoundText :=
  { value := { ast := labelValue names }
    span := default
    i18n := some (.node (.container (labelNodes names) default)) }

def labelInput (names : List String) : Template.BoundAttribute :=
  { name := "label"
    type := .property
    security := .none
    value := { ast := labelValue names }
    unit := none
    span := default
    i18n := some (.message { nodes := labelNodes names }) }

theorem lowerBoundText_lowerInput_placeholders_label :
    (∃ f t new, Yields (lowerBoundText default none (labelText ["first", "last"])) {} f t ∧
      f.update = [.interpolateText new] ∧ new.interpolation.expressions.length = 2 ∧
      new.interpolation.placeholders = ["first", "last"]) ∧
    ∃ binding value t, Yields (lowerInput ⟨0⟩ ⟨1⟩ (labelInput ["first", "last"])) {} binding t ∧
      binding.value = .interpolation value ∧ value.expressions.length = 2 ∧
      value.placeholders = ["first", "last"] := by
  have hasts : ∀ ast ∈ ["first", "last"].map fun _ => Ast.literal {} .null, ast.Supported := by
    intro ast hast
    obtain ⟨-, -, rfl⟩ := List.mem_map.1 hast
    exact Ast.supported_iff.2 ⟨rfl, by simp [Ast.operands, Ast.parts]⟩
  have htext : (labelText ["first", "last"]).Labels _ ["first", "last"] :=
    ⟨_, _, _, _, rfl, rfl, rfl⟩
  have hinput : (labelInput ["first", "last"]).Labels _ ["first", "last"] :=
    ⟨_, _, _, rfl, rfl, by decide, rfl⟩
  have hboth := lowerBoundText_lowerInput_placeholders hasts rfl {} htext hinput default none ⟨1⟩
  exact ⟨hboth.1, hboth.2.1 (by decide)⟩

/-- A name that comes twice is one name of the message. -/
theorem lowerInput_rejects_repeated_label :
    (∃ f t, Yields (lowerBoundText default none (labelText ["name", "name"])) {} f t) ∧
    outcome (lowerInput ⟨0⟩ ⟨1⟩ (labelInput ["name", "name"])) {} =
      .error (.placeholderCount 2 1) :=
  ⟨⟨_, _, rfl⟩, rfl⟩

end Label

end TemplateLowering
