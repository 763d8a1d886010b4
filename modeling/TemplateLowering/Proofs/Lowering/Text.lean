import TemplateLowering.Lowering.Node
import TemplateLowering.Proofs.Lowering.Binding
import TemplateLowering.Proofs.Template.Sketch

/-!
# Lowered texts, declarations and triggers

The nodes of a template that hold no other nodes, and the triggers of deferred blocks.  All of them
become plain operations, except that an ICU expression puts a start and an end around its texts.
-/

namespace TemplateLowering

variable {facts : JobFacts} {root : Xref} {s t : Ids} {f : Fragment}
variable {text : Template.BoundText} {icu : Template.Icu}

/-! ## Texts -/

/-- Texts that are lowered one after the other, and their sketches. -/
inductive TextLowering (root : Xref) : List Sketch → Ids → Fragment → Ids → Prop
  | nil (s : Ids) : TextLowering root [] s {} s
  | append {sketches sketches' : List Sketch} {s u t : Ids} {f g : Fragment}
      (hf : TextLowering root sketches s f u) (hg : TextLowering root sketches' u g t) :
      TextLowering root (sketches ++ sketches') s (f ++ g) t
  | text {s : Ids} {op : TextOp} {value : String} (hvalue : op.value = value)
      (hxref : op.xref = ⟨s.nextXref⟩) :
      TextLowering root [.text value] s (Fragment.mk [.text op] [] [])
        { s with nextXref := s.nextXref + 1 }
  | boundText {s u : Ids} {op : TextOp} {new : InterpolateTextOp}
      (hexprs : LoweredExprs root s u new.interpolation.expressions)
      (hxref : op.xref = ⟨u.nextXref⟩) (htarget : new.target = op.xref) :
      TextLowering root [.boundText] s (Fragment.mk [.text op] [.interpolateText new] [])
        { u with nextXref := u.nextXref + 1 }

theorem textLowering_lowerText {placeholder : Option String} {text : Template.Text} (root : Xref)
    (h : Yields (lowerText placeholder text) s f t) :
    TextLowering root [.text text.value] s f t := by
  simp only [lowerText, yields_bind, yields_freshXref, yields_pure] at h
  obtain ⟨_, _, ⟨rfl, rfl⟩, rfl, rfl⟩ := h
  exact .text rfl rfl

theorem eq_of_textInterpolation {parts : List String × List Ast}
    (h : Yields (textInterpolation text) s parts t) : s = t := by
  unfold textInterpolation at h
  split at h
  · exact (yields_pure.1 h).2
  · exact absurd h not_yields_throw

theorem eq_of_textPlaceholders {names : List String}
    (h : Yields (textPlaceholders text) s names t) : s = t := by
  unfold textPlaceholders at h
  split at h
  · exact (yields_pure.1 h).2
  · exact (yields_pure.1 h).2
  · exact absurd h not_yields_rejectI18n

theorem textLowering_lowerBoundText {placeholder : Option String}
    (h : Yields (lowerBoundText facts placeholder text) s f t) :
    TextLowering facts.root [.boundText] s f t := by
  simp only [lowerBoundText, yields_bind, yields_freshXref, yields_ofExcept, yields_pure] at h
  obtain ⟨parts, _, hparts, names, _, hnames, exprs, u, hexprs, interpolation, _,
    ⟨hchecked, rfl⟩, _, _, ⟨rfl, rfl⟩, rfl, rfl⟩ := h
  obtain rfl := eq_of_textInterpolation hparts
  obtain rfl := eq_of_textPlaceholders hnames
  refine .boundText ?_ rfl rfl
  rw [expressions_of_checked hchecked]
  exact loweredExprs_lowerAll hexprs

theorem TextLowering.plain {sketches : List Sketch} (h : TextLowering root sketches s f t) :
    f.Plain s t := by
  induction h with
  | nil s => exact Fragment.plain_empty s
  | append _ _ ihf ihg => exact ihf.append ihg
  | @text s _ _ _ hxref =>
    refine Fragment.plain_of ?_ (by simpa using plain_of_lists_eq_nil rfl rfl rfl rfl rfl) (by simp)
    simpa [CreateOp.xrefs, CreateOp.declared, CreateOp.exprs, CreateOp.lists, hxref] using
      Grows.fresh s.nextXref
  | @boundText _ u _ _ hexprs hxref _ =>
    refine Fragment.plain_of ?_ (by simpa using plain_of_lists_eq_nil rfl rfl rfl rfl rfl)
      (by simpa using sound_of_bindings_eq_nil rfl rfl rfl)
    refine (hexprs.draws.grows.append (Grows.fresh u.nextXref)).subperm (fun _ => Nat.le_refl _) ?_
    intro x
    simp [CreateOp.xrefs, CreateOp.declared, CreateOp.exprs, CreateOp.lists, UpdateOp.xrefs,
      UpdateOp.declared, UpdateOp.exprs, hxref, List.count_cons]

/-! ## ICU expressions -/

theorem textLowering_lowerIcuVars {vars : List (String × Template.BoundText)}
    (h : Yields (lowerIcuVars facts vars) s f t) :
    TextLowering facts.root (vars.map fun _ => .boundText) s f t := by
  induction vars generalizing s f with
  | nil =>
    obtain ⟨rfl, rfl⟩ := yields_pure.1 h
    exact .nil s
  | cons var vars ih =>
    simp only [lowerIcuVars, yields_bind, yields_pure] at h
    obtain ⟨first, _, hfirst, others, _, hothers, rfl, rfl⟩ := h
    exact .append (textLowering_lowerBoundText hfirst) (ih hothers)

theorem textLowering_lowerIcuPlaceholders {placeholders : List (String × Template.IcuPlaceholder)}
    (h : Yields (lowerIcuPlaceholders facts placeholders) s f t) :
    TextLowering facts.root (placeholders.map fun entry => entry.2.sketch) s f t := by
  induction placeholders generalizing s f with
  | nil =>
    obtain ⟨rfl, rfl⟩ := yields_pure.1 h
    exact .nil s
  | cons placeholder placeholders ih =>
    obtain ⟨name, text | text⟩ := placeholder <;>
      simp only [lowerIcuPlaceholders, yields_bind, yields_pure] at h <;>
      obtain ⟨first, _, hfirst, others, _, hothers, rfl, rfl⟩ := h
    · exact .append (textLowering_lowerText _ hfirst) (ih hothers)
    · exact .append (textLowering_lowerBoundText hfirst) (ih hothers)

theorem eq_of_icuMessage {result : I18n.Message × String} (h : Yields (icuMessage icu) s result t) :
    s = t := by
  unfold icuMessage at h
  split at h
  · split at h
    · exact (yields_pure.1 h).2
    · exact absurd h not_yields_rejectI18n
  · exact absurd h not_yields_rejectI18n

theorem exists_of_lowerIcu (h : Yields (lowerIcu facts icu) s f t) :
    ∃ start texts, start.xref = ⟨s.nextXref⟩ ∧ start.context = none ∧
      TextLowering facts.root icu.texts { s with nextXref := s.nextXref + 1 } texts t ∧
      f = Fragment.mk [.icuStart start] [] [] ++ texts ++
        Fragment.mk [.icuEnd start.xref] [] [] := by
  simp only [lowerIcu, yields_bind, yields_freshXref, yields_pure] at h
  obtain ⟨⟨message, placeholder⟩, _, hmessage, _, _, ⟨rfl, rfl⟩, vars, _, hvars, placeholders, _,
    hplaceholders, rfl, rfl⟩ := h
  obtain rfl := eq_of_icuMessage hmessage
  refine ⟨{ xref := ⟨s.nextXref⟩, message, placeholder, span := icu.span }, vars ++ placeholders,
    rfl, rfl, ?_, ?_⟩
  · exact .append (textLowering_lowerIcuVars hvars) (textLowering_lowerIcuPlaceholders hplaceholders)
  · rw [Fragment.append_assoc _ vars]

theorem lowerIcu_lowered (h : Yields (lowerIcu facts icu) s f t) (view : Xref) :
    f.Lowered view s t := by
  obtain ⟨start, texts, hstart, -, htexts, rfl⟩ := exists_of_lowerIcu h
  have htexts := htexts.plain
  refine ⟨?_, ?_, ?_, ?_, ?_⟩
  · refine ((Grows.fresh s.nextXref).append htexts.grows).subperm (fun _ => Nat.le_refl _) ?_
    intro x
    simp [CreateOp.xrefs, CreateOp.declared, CreateOp.exprs, CreateOp.lists, hstart,
      List.count_cons]
    omega
  · intro edge
    simp [htexts.declarations_eq, htexts.parentage_eq, CreateOp.declaredViews]
  · exact Fragment.ordered_of_views_eq_nil (by simp [htexts.views]) _ _
  · refine .append (.append (Fragment.sound_ops ?_ (by simp)) htexts.sound)
      (Fragment.sound_ops ?_ (by simp))
    · simpa using CreateOp.lowered_of_lists_eq_nil rfl rfl rfl
    · simpa using CreateOp.lowered_of_lists_eq_nil rfl rfl rfl
  · simpa [htexts.marks_eq, CreateOp.marks] using Nested.nil.icu

/-! ## Declarations and conditions -/

theorem lowerLet_plain {declaration : Template.LetDeclaration}
    (h : Yields (lowerLet facts declaration) s f t) : f.Plain s t := by
  simp only [lowerLet, yields_bind, yields_freshXref, yields_pure] at h
  obtain ⟨_, _, ⟨rfl, rfl⟩, value, _, hvalue, rfl, rfl⟩ := h
  have hgrows := (Grows.fresh s.nextXref).append (Ast.draws_pipes hvalue).grows
  apply Fragment.plain_of
  · simpa [CreateOp.xrefs, CreateOp.declared, CreateOp.exprs, CreateOp.lists, UpdateOp.xrefs,
      UpdateOp.declared, UpdateOp.exprs] using hgrows
  · simpa using plain_of_lists_eq_nil rfl rfl rfl rfl rfl
  · simpa using sound_of_bindings_eq_nil rfl rfl rfl

theorem loweredExprs_lowerCondition {base : Option SourceSpan} {condition : Option Ast}
    {expr : Option Expr} (h : Yields (lowerCondition facts base condition) s expr t) :
    LoweredExprs facts.root s t expr.toList := by
  cases condition with
  | none =>
    obtain ⟨rfl, rfl⟩ := yields_pure.1 h
    exact .nil s
  | some ast =>
    simp only [lowerCondition, yields_map] at h
    obtain ⟨expr, hexpr, rfl⟩ := h
    exact Ast.loweredExprs hexpr

/-! ## Loop variables -/

theorem eq_of_loopVariable {names : LoopNames} {variable_ : Template.Variable} {expr : Expr}
    (h : Yields (loopVariable names variable_) s expr t) : s = t := by
  unfold loopVariable at h
  split at h <;> simp only [yields_pure, not_yields_throw] at h <;> exact h.2

theorem eq_of_addLoopVariable {names : LoopNames} {scope scope' : LoopScope}
    {variable_ : Template.Variable} (h : Yields (scope.add names variable_) s scope' t) :
    s = t := by
  simp only [LoopScope.add, yields_ite, yields_bind, yields_pure] at h
  rcases h with ⟨-, -, rfl⟩ | ⟨-, ⟨-, -, rfl⟩ | ⟨-, expr, _, hexpr, -, rfl⟩⟩
  · rfl
  · rfl
  · exact eq_of_loopVariable hexpr

theorem eq_of_addLoopVariables {names : LoopNames} {scope scope' : LoopScope}
    {loopVariables : List Template.Variable}
    (h : Yields (loopVariables.foldlM (LoopScope.add names) scope) s scope' t) : s = t := by
  induction loopVariables generalizing s scope with
  | nil => exact (yields_pure.1 h).2
  | cons variable_ loopVariables ih =>
    rw [List.foldlM_cons, yields_bind] at h
    obtain ⟨next, _, hadd, hrest⟩ := h
    exact (eq_of_addLoopVariable hadd).trans (ih hrest)

/-! ## Triggers -/

structure DeferTriggers.Lowered (root defer : Xref) (s t : Ids) (triggers : DeferTriggers) :
    Prop where
  exprs : LoweredExprs root s t (triggers.when_.map fun op => op.expr)
  on : ∀ trigger ∈ triggers.on, trigger.defer = defer
  when_ : ∀ trigger ∈ triggers.when_, trigger.target = defer

theorem lowerTriggers_spec {defer : Xref} {modifier : TriggerModifier} {set : Template.TriggerSet}
    {triggers : DeferTriggers} (h : Yields (lowerTriggers facts defer modifier set) s triggers t) :
    triggers.Lowered facts.root defer s t := by
  have hon : ∀ trigger ∈ set.onTriggers.filterMap fun trigger =>
      (deferTrigger? trigger).map fun source =>
        DeferOnOp.mk defer source.1 modifier source.2, trigger.defer = defer := by
    intro trigger htrigger
    obtain ⟨source, -, hsource⟩ := List.mem_filterMap.1 htrigger
    obtain ⟨kind, -, rfl⟩ := Option.map_eq_some_iff.1 hsource
    rfl
  unfold lowerTriggers at h
  split at h
  · simp only [yields_bind, yields_pure] at h
    obtain ⟨expr, _, hexpr, rfl, rfl⟩ := h
    exact ⟨Ast.loweredExprs hexpr, hon, by simp⟩
  · obtain ⟨rfl, rfl⟩ := yields_pure.1 h
    exact ⟨.nil s, hon, by simp⟩

theorem lowerAllTriggers_spec {defer : Xref} {span : SourceSpan}
    {hydrate plain prefetch : Template.TriggerSet} {triggers : DeferTriggers}
    (h : Yields (lowerAllTriggers facts defer span hydrate plain prefetch) s triggers t) :
    triggers.Lowered facts.root defer s t := by
  simp only [lowerAllTriggers, yields_bind] at h
  obtain ⟨hydrate', _, hhydrate, plain', _, hplain, prefetch', _, hprefetch, h⟩ := h
  obtain ⟨hexprs, hon, hwhen⟩ := lowerTriggers_spec hhydrate
  obtain ⟨hexprs₁, hon₁, hwhen₁⟩ := lowerTriggers_spec hplain
  obtain ⟨hexprs₂, hon₂, hwhen₂⟩ := lowerTriggers_spec hprefetch
  have hexprs := (hexprs.append hexprs₁).append hexprs₂
  simp only [yields_ite, yields_pure] at h
  rcases h with ⟨-, rfl, rfl⟩ | ⟨-, rfl, rfl⟩ <;>
    refine ⟨by simpa only [List.map_append] using hexprs, ?_, ?_⟩ <;> grind

end TemplateLowering
