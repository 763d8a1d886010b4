import TemplateLowering.Proofs.Lowering.Renaming

/-!
# Lowering nodes from other numbers

The nodes of a template lead to the same operations from whatever numbers they are lowered, except
for a renaming.  Only the names that a loop invents for its index and its count show the number of
its view; they are known in the view, but stand in no operation.
-/

namespace TemplateLowering

variable {r : Renaming} {facts : JobFacts} {view : Xref}
variable {content content' : Fragment}

/-! ## Texts and messages -/

theorem renames_splitTag (name : String) : Renames r id (splitTag name) (splitTag name) := by
  unfold splitTag
  split
  · exact corresponds_pure rfl
  · exact corresponds_throw

theorem corresponds_lowerText (placeholder : Option String) (text : Template.Text) :
    Corresponds r (Fragment.Renamed r) (lowerText placeholder text)
      (lowerText placeholder text) := by
  unfold lowerText
  exact renames_freshXref.bind fun xref => corresponds_pure (Fragment.renamed_ops rfl rfl)

theorem renames_textPlaceholders (text : Template.BoundText) :
    Renames r id (textPlaceholders text) (textPlaceholders text) := by
  unfold textPlaceholders
  split
  · exact corresponds_pure rfl
  · exact corresponds_pure rfl
  · exact corresponds_throw

theorem renames_textInterpolation (text : Template.BoundText) :
    Renames r id (textInterpolation text) (textInterpolation text) := by
  unfold textInterpolation
  split
  · exact corresponds_pure rfl
  · exact corresponds_throw

theorem renames_icuMessage (icu : Template.Icu) :
    Renames r id (icuMessage icu) (icuMessage icu) := by
  unfold icuMessage
  split
  · split
    · exact corresponds_pure rfl
    · exact corresponds_throw
  · exact corresponds_throw

theorem renamed_empty : ({} : Fragment).Renamed r {} :=
  Fragment.renamed_ops rfl rfl

theorem Corresponds.append {x x' y y' : Lower Fragment}
    (h : Corresponds r (Fragment.Renamed r) x x') (h' : Corresponds r (Fragment.Renamed r) y y') :
    Corresponds r (Fragment.Renamed r) (do let f ← x; let g ← y; return f ++ g)
      (do let f ← x'; let g ← y'; return f ++ g) := by
  refine h.bind fun f f' hf => h'.bind fun g g' hg => ?_
  exact corresponds_pure (hf.append hg)

/-! ## Loop variables -/

/-- The names of the index and the count do not matter for whether a loop variable is known. -/
theorem corresponds_loopVariable (names names' : LoopNames) (variable_ : Template.Variable) :
    Corresponds r (fun _ _ => True) (loopVariable names variable_)
      (loopVariable names' variable_) := by
  unfold loopVariable
  dsimp only
  split <;> first | exact corresponds_pure trivial | exact corresponds_throw

theorem corresponds_addVariable {names names' : LoopNames} {scope scope' : LoopScope}
    (h : scope'.indexNames = scope.indexNames) (variable_ : Template.Variable) :
    Corresponds r (fun a b => b.indexNames = a.indexNames) (scope.add names variable_)
      (scope'.add names' variable_) := by
  unfold LoopScope.add
  by_cases hvalue : variable_.value = "$index"
  · simp only [if_pos hvalue, h]
    split
    · exact corresponds_pure rfl
    · split
      · exact corresponds_pure rfl
      · exact (corresponds_loopVariable _ _ _).bind fun _ _ _ => corresponds_pure rfl
  · simp only [if_neg hvalue]
    split
    · exact corresponds_pure h
    · split
      · exact corresponds_pure h
      · exact (corresponds_loopVariable _ _ _).bind fun _ _ _ => corresponds_pure h

theorem corresponds_addVariables {names names' : LoopNames} {scope scope' : LoopScope}
    (h : scope'.indexNames = scope.indexNames) (vars : List Template.Variable) :
    Corresponds r (fun a b => b.indexNames = a.indexNames)
      (vars.foldlM (LoopScope.add names) scope)
      (vars.foldlM (LoopScope.add names') scope') := by
  induction vars generalizing scope scope' with
  | nil => exact corresponds_pure h
  | cons variable_ vars ih =>
    rw [List.foldlM_cons, List.foldlM_cons]
    exact (corresponds_addVariable h variable_).bind fun _ _ hnext => ih hnext

/-! ## Brackets and placeholders -/

theorem renames_lowerBlockBrackets (i18n : Option I18n.Meta) (startSpan : SourceSpan)
    (endSpan : Option SourceSpan) :
    Renames r
      (fun brackets => (brackets.1.map (CreateOp.rename r), brackets.2.map (CreateOp.rename r)))
      (lowerBlockBrackets i18n startSpan endSpan) (lowerBlockBrackets i18n startSpan endSpan) := by
  unfold lowerBlockBrackets
  split
  · exact renames_freshXref.bind fun xref => corresponds_pure rfl
  · exact corresponds_pure rfl

theorem renames_tagPlaceholderOf (i18n : Option I18n.Meta) (node : String) (span : SourceSpan) :
    Renames r id (tagPlaceholderOf i18n node span) (tagPlaceholderOf i18n node span) := by
  unfold tagPlaceholderOf
  split
  · exact corresponds_pure rfl
  · exact corresponds_pure rfl
  · exact corresponds_pure rfl
  · exact corresponds_throw

theorem renames_contentPlaceholderOf (i18n : Option I18n.Meta) (span : SourceSpan) :
    Renames r id (contentPlaceholderOf i18n span) (contentPlaceholderOf i18n span) := by
  unfold contentPlaceholderOf
  split
  · exact corresponds_pure rfl
  · exact corresponds_pure rfl
  · exact corresponds_throw

section Continue

variable {γ δ : Type} {S : γ → δ → Prop}

theorem corresponds_templateTag (tagName : Option String) {k : Option TagName → Lower γ}
    {k' : Option TagName → Lower δ} (h : ∀ tag, Corresponds r S (k tag) (k' tag)) :
    Corresponds r S
      (match tagName with
        | some name => do
            let tag ← some <$> splitTag name
            k tag
        | none => do
            let tag ← pure none
            k tag)
      (match tagName with
        | some name => do
            let tag ← some <$> splitTag name
            k' tag
        | none => do
            let tag ← pure none
            k' tag) := by
  cases tagName with
  | none => exact (corresponds_pure rfl).bind fun tag _ heq => heq ▸ h tag
  | some name =>
    have htag : Renames r id (some <$> splitTag name) (some <$> splitTag name) :=
      (renames_splitTag name).map fun _ => rfl
    exact htag.bind h

theorem corresponds_emptyPlaceholder (empty : Option Template.ForEmpty)
    {k : Option I18n.BlockPlaceholder → Lower γ} {k' : Option I18n.BlockPlaceholder → Lower δ}
    (h : ∀ placeholder, Corresponds r S (k placeholder) (k' placeholder)) :
    Corresponds r S
      (match empty with
        | some empty => do
            let placeholder ←
              blockPlaceholderOf empty.i18n "ForLoopBlockEmpty" empty.block.start
            k placeholder
        | none => do
            let placeholder ← pure none
            k placeholder)
      (match empty with
        | some empty => do
            let placeholder ←
              blockPlaceholderOf empty.i18n "ForLoopBlockEmpty" empty.block.start
            k' placeholder
        | none => do
            let placeholder ← pure none
            k' placeholder) := by
  cases empty with
  | none => exact (corresponds_pure rfl).bind fun placeholder _ heq => heq ▸ h placeholder
  | some empty => exact (renames_blockPlaceholderOf _ _ _).bind h

end Continue

/-! ## Embedded views -/

theorem renamed_embed (h : content.Renamed r content') (ids : ViewIds) (view : Xref)
    (contextVariables contextVariables' : OrderedMap String String)
    (aliases aliases' : List AliasVariable) :
    (embed ids view content contextVariables aliases).Renamed r
      (embed (ids.rename r) (r.xref view) content' contextVariables' aliases') := by
  refine ⟨rfl, rfl, ?_⟩
  simp only [embed, List.map_cons, h.views, ViewIds.view, View.rename, View.unnamed,
    OpList.rename_ofList, h.create, h.update]
  rfl

theorem renamed_embedDeferred (h : content.Renamed r content') (ids : ViewIds) (view : Xref)
    (suffix : String) (placeholder : Option I18n.BlockPlaceholder) (block : Template.BlockSpans) :
    (embedDeferred ids view suffix placeholder block content).Renamed r
      (embedDeferred (ids.rename r) (r.xref view) suffix placeholder block content') := by
  refine .append ?_ (renamed_embed h ids view {} {} [] [])
  exact Fragment.renamed_ops rfl rfl

/-- Wherever the nodes are lowered, they lead to the same but for the renaming. -/
def RenamesNodes (r : Renaming) (facts : JobFacts) (nodes : List Template.Node) : Prop :=
  ∀ view : Xref, Corresponds r (Fragment.Renamed r) (lowerNodes facts view nodes)
    (lowerNodes facts (r.xref view) nodes)

theorem Fragment.Renamed.bracket (h : content.Renamed r content')
    (opening closing : List CreateOp) :
    (Fragment.mk opening [] [] ++ content ++ Fragment.mk closing [] []).Renamed r
      (Fragment.mk (opening.map (CreateOp.rename r)) [] [] ++ content' ++
        Fragment.mk (closing.map (CreateOp.rename r)) [] []) :=
  .append (.append (Fragment.renamed_ops rfl rfl) h) (Fragment.renamed_ops rfl rfl)

theorem corresponds_projection {fallback fallback' : Fragment} (h : fallback.Renamed r fallback')
    (fallbackView : Option Xref) (selector : String) (attributes : List Template.TextAttribute)
    (placeholder : Option I18n.TagPlaceholder) (span : SourceSpan) :
    Corresponds r (Fragment.Renamed r)
      (do
        let xref ← Ids.freshXref
        let bindings ← attributes.mapM (lowerTextAttribute xref ngContentTag)
        return fallback ++ Fragment.mk
          [.projection { xref, selector, fallbackView, placeholder, span }]
          (bindings.map .binding) [])
      (do
        let xref ← Ids.freshXref
        let bindings ← attributes.mapM (lowerTextAttribute xref ngContentTag)
        return fallback' ++ Fragment.mk
          [.projection
            { xref, selector, fallbackView := fallbackView.map r.xref, placeholder, span }]
          (bindings.map .binding) []) := by
  refine renames_freshXref.bind fun xref => ?_
  refine (renames_mapM fun attr _ =>
    renames_lowerTextAttribute ngContentTag attr).bind fun bindings => ?_
  exact corresponds_pure (h.append (Fragment.renamed_ops rfl (map_rename_bindings _)))

theorem corresponds_lowerContent {content : Template.Content}
    (hchildren : RenamesNodes r facts content.children) :
    Corresponds r (Fragment.Renamed r) (lowerContent facts view content)
      (lowerContent facts (r.xref view) content) := by
  obtain ⟨selector, attributes, children, span, i18n⟩ := content
  rw [lowerContent, lowerContent]
  refine (renames_contentPlaceholderOf _ _).bind fun placeholder => ?_
  split
  · refine renames_freshView.bind fun ids => ?_
    refine (hchildren ids.xref).bind fun content _ hcontent => ?_
    have hembed := renamed_embed hcontent ids view {} {} [] []
    exact corresponds_projection hembed (some ids.xref) _ _ _ _
  · exact corresponds_projection renamed_empty none _ _ _ _

def RenamedBranches (r : Renaming) (a b : Fragment × List ConditionalCase) : Prop :=
  a.1.Renamed r b.1 ∧ b.2 = a.2.map (ConditionalCase.rename r)

theorem RenamedBranches.cons {copies copies' : Fragment} {op op' : BranchOp}
    {branch branch' : ConditionalCase} {others others' : Fragment × List ConditionalCase}
    (hothers : RenamedBranches r others others') (hcopies : copies.Renamed r copies')
    (hcontent : content.Renamed r content') (hop : op' = { op with xref := r.xref op.xref })
    (hbranch : branch' = branch.rename r) (isFirst : Bool) (ids : ViewIds) (view : Xref)
    (contextVariables : OrderedMap String String) :
    RenamedBranches r
      (copies ++ Fragment.mk [branchOp isFirst op] [] [] ++
        embed ids view content contextVariables [] ++ others.1, branch :: others.2)
      (copies' ++ Fragment.mk [branchOp isFirst op'] [] [] ++
        embed (ids.rename r) (r.xref view) content' contextVariables [] ++ others'.1,
        branch' :: others'.2) := by
  have hdeclared : (Fragment.mk [branchOp isFirst op] [] []).Renamed r
      (Fragment.mk [branchOp isFirst op'] [] []) := by
    subst hop
    cases isFirst <;> exact Fragment.renamed_ops rfl rfl
  refine ⟨.append (.append (.append hcopies hdeclared) ?_) hothers.1, ?_⟩
  · exact renamed_embed hcontent ids view _ _ [] []
  · rw [hbranch, hothers.2, List.map_cons]

def RenamedEmpty (r : Renaming) (a b : Option Xref × Option String × Fragment) : Prop :=
  b.1 = a.1.map r.xref ∧ b.2.1 = a.2.1 ∧ a.2.2.Renamed r b.2.2

theorem corresponds_lowerForEmpty {empty : Option Template.ForEmpty}
    (hchildren : ∀ block ∈ empty, RenamesNodes r facts block.children) :
    Corresponds r (RenamedEmpty r) (lowerForEmpty facts view empty)
      (lowerForEmpty facts (r.xref view) empty) := by
  cases empty with
  | none =>
    rw [lowerForEmpty, lowerForEmpty]
    exact corresponds_pure ⟨rfl, rfl, renamed_empty⟩
  | some block =>
    obtain ⟨children, spans, i18n⟩ := block
    rw [lowerForEmpty, lowerForEmpty]
    refine renames_freshView.bind fun ids => ?_
    refine (hchildren _ rfl ids.xref).bind fun content _ hcontent => ?_
    refine (corresponds_lowerBranchRoot children).bind ?_
    rintro ⟨tag, copies⟩ ⟨_, copies'⟩ ⟨rfl, hcopies⟩
    exact corresponds_pure ⟨rfl, rfl, hcopies.append (renamed_embed hcontent ids view {} {} [] [])⟩

def RenamedPart (r : Renaming) (a b : Option Xref × Fragment) : Prop :=
  b.1 = a.1.map r.xref ∧ a.2.Renamed r b.2

theorem corresponds_lowerDeferPart {suffix : String} {toPart : α → DeferPart} {part : Option α}
    (hchildren : ∀ block ∈ part, RenamesNodes r facts (toPart block).children) :
    Corresponds r (RenamedPart r) (lowerDeferPart facts view suffix toPart part)
      (lowerDeferPart facts (r.xref view) suffix toPart part) := by
  cases part with
  | none => exact corresponds_pure ⟨rfl, renamed_empty⟩
  | some block =>
    refine (renames_blockPlaceholderOf _ _ _).bind fun placeholder => ?_
    refine renames_freshView.bind fun ids => ?_
    refine (hchildren block rfl ids.xref).bind fun content _ hcontent => ?_
    exact corresponds_pure ⟨rfl, renamed_embedDeferred hcontent ids view _ _ _⟩

/-! ## Expressions -/

def DeferTriggers.rename (r : Renaming) (triggers : DeferTriggers) : DeferTriggers :=
  { on := triggers.on.map (DeferOnOp.rename r), when_ := triggers.when_.map (DeferWhenOp.rename r) }

variable (hroot : r.xref facts.root = facts.root)

include hroot

theorem corresponds_lowerBoundText (placeholder : Option String) (text : Template.BoundText) :
    Corresponds r (Fragment.Renamed r) (lowerBoundText facts placeholder text)
      (lowerBoundText facts placeholder text) := by
  unfold lowerBoundText
  refine (renames_textInterpolation text).bind fun parts => ?_
  refine (renames_textPlaceholders text).bind fun placeholders => ?_
  refine (renames_lowerAll hroot _).bind fun exprs => ?_
  refine (renames_checked _ exprs _).bind fun interpolation => ?_
  exact renames_freshXref.bind fun xref => corresponds_pure (Fragment.renamed_ops rfl rfl)

theorem corresponds_lowerIcuVars (vars : List (String × Template.BoundText)) :
    Corresponds r (Fragment.Renamed r) (lowerIcuVars facts vars) (lowerIcuVars facts vars) := by
  induction vars with
  | nil => exact corresponds_pure renamed_empty
  | cons var vars ih => exact (corresponds_lowerBoundText hroot _ _).append ih

theorem corresponds_lowerIcuPlaceholders (placeholders : List (String × Template.IcuPlaceholder)) :
    Corresponds r (Fragment.Renamed r) (lowerIcuPlaceholders facts placeholders)
      (lowerIcuPlaceholders facts placeholders) := by
  induction placeholders with
  | nil => exact corresponds_pure renamed_empty
  | cons placeholder placeholders ih =>
    obtain ⟨name, text | text⟩ := placeholder
    · exact (corresponds_lowerText _ _).append ih
    · exact (corresponds_lowerBoundText hroot _ _).append ih

theorem corresponds_lowerIcu (icu : Template.Icu) :
    Corresponds r (Fragment.Renamed r) (lowerIcu facts icu) (lowerIcu facts icu) := by
  unfold lowerIcu
  refine (renames_icuMessage icu).bind fun message => ?_
  refine renames_freshXref.bind fun xref => ?_
  refine (corresponds_lowerIcuVars hroot _).bind fun vars vars' hvars => ?_
  refine (corresponds_lowerIcuPlaceholders hroot _).bind fun texts texts' htexts => ?_
  refine corresponds_pure (.append (.append (.append ?_ hvars) htexts) ?_)
  · exact Fragment.renamed_ops rfl rfl
  · exact Fragment.renamed_ops rfl rfl

theorem corresponds_lowerLet (declaration : Template.LetDeclaration) :
    Corresponds r (Fragment.Renamed r) (lowerLet facts declaration)
      (lowerLet facts declaration) := by
  unfold lowerLet
  refine renames_freshXref.bind fun target => ?_
  refine (Ast.renames hroot _).bind fun value => ?_
  exact corresponds_pure (Fragment.renamed_ops rfl rfl)

theorem renames_lowerTriggers (defer : Xref)
    (modifier : TriggerModifier) (set : Template.TriggerSet) :
    Renames r (DeferTriggers.rename r) (lowerTriggers facts defer modifier set)
      (lowerTriggers facts (r.xref defer) modifier set) := by
  have hon : (set.onTriggers.filterMap fun trigger => (deferTrigger? trigger).map fun source =>
        DeferOnOp.mk (r.xref defer) source.1 modifier source.2) =
      (set.onTriggers.filterMap fun trigger => (deferTrigger? trigger).map fun source =>
        DeferOnOp.mk defer source.1 modifier source.2).map (DeferOnOp.rename r) := by
    rw [List.map_filterMap]
    refine List.filterMap_congr fun trigger _ => ?_
    rw [Option.map_map]
    rfl
  unfold lowerTriggers
  split
  · refine (Ast.renames hroot _).bind fun expr => ?_
    exact corresponds_pure (congrArg (DeferTriggers.mk · _) hon)
  · exact corresponds_pure (congrArg (DeferTriggers.mk · _) hon)

theorem renames_lowerAllTriggers (defer : Xref)
    (span : SourceSpan) (hydrate plain prefetch : Template.TriggerSet) :
    Renames r (DeferTriggers.rename r) (lowerAllTriggers facts defer span hydrate plain prefetch)
      (lowerAllTriggers facts (r.xref defer) span hydrate plain prefetch) := by
  unfold lowerAllTriggers
  refine (renames_lowerTriggers hroot defer _ hydrate).bind fun hydrate => ?_
  refine (renames_lowerTriggers hroot defer _ plain).bind fun plain => ?_
  refine (renames_lowerTriggers hroot defer _ prefetch).bind fun prefetch => ?_
  have hon : ∀ ops : List DeferOnOp, (ops.map (DeferOnOp.rename r)).any (·.modifier = .none) =
      ops.any (·.modifier = .none) := fun ops => List.any_map
  have hwhen : ∀ ops : List DeferWhenOp,
      (ops.map (DeferWhenOp.rename r)).any (·.modifier = .none) =
        ops.any (·.modifier = .none) := fun ops => List.any_map
  dsimp only [DeferTriggers.rename]
  simp only [← List.map_append, hon, hwhen]
  split
  · exact corresponds_pure rfl
  · exact corresponds_pure (by simp [DeferOnOp.rename])

theorem renames_lowerCondition (base : Option SourceSpan) (condition : Option Ast) :
    Renames r (Option.map (Expr.rename r)) (lowerCondition facts base condition)
      (lowerCondition facts base condition) := by
  unfold lowerCondition
  split
  · exact (Ast.renames hroot _).map fun _ => rfl
  · exact corresponds_pure rfl

/-! ## Nodes -/

theorem corresponds_lowerElement {element : Template.Element}
    (hchildren : RenamesNodes r facts element.children) :
    Corresponds r (Fragment.Renamed r) (lowerElement facts view element)
      (lowerElement facts (r.xref view) element) := by
  obtain ⟨name, attributes, inputs, outputs, children, references, span, startSpan, endSpan,
    i18n⟩ := element
  rw [lowerElement, lowerElement]
  refine (renames_tagPlaceholderOf _ _ _).bind fun placeholder => ?_
  refine renames_freshXref.bind fun xref => ?_
  refine (renames_splitTag name).bind fun tag => ?_
  refine (corresponds_lowerElementBindings hroot _ _ _ _ _ _).bind fun bindings _ hbindings => ?_
  refine (renames_lowerBlockBrackets _ _ _).bind fun brackets => ?_
  refine (hchildren view).bind fun content _ hcontent => corresponds_pure ?_
  refine .append (.append (.append (.append ?_ hbindings) ?_) hcontent) ?_
  · exact Fragment.renamed_ops rfl rfl
  · exact Fragment.renamed_ops rfl rfl
  · exact Fragment.renamed_ops (by simp [CreateOp.rename]) rfl

theorem corresponds_lowerTemplate {template : Template.EmbeddedTemplate}
    (hchildren : RenamesNodes r facts template.children) :
    Corresponds r (Fragment.Renamed r) (lowerTemplate facts view template)
      (lowerTemplate facts (r.xref view) template) := by
  obtain ⟨tagName, attributes, inputs, outputs, templateAttributes, children, references,
    letVariables, span, startSpan, endSpan, i18n⟩ := template
  rw [lowerTemplate, lowerTemplate]
  refine (renames_tagPlaceholderOf _ _ _).bind fun placeholder => ?_
  refine renames_freshView.bind fun ids => ?_
  refine corresponds_templateTag tagName fun tag => ?_
  refine (corresponds_lowerTemplateBindings hroot _ _ _ _ _).bind fun bindings _ hbindings => ?_
  refine (hchildren ids.xref).bind fun content _ hcontent => ?_
  split
  · refine (renames_lowerBlockBrackets _ _ _).bind fun brackets => corresponds_pure ?_
    refine .append (.append ?_ hbindings) (renamed_embed (hcontent.bracket _ _) ids view _ _ _ _)
    exact Fragment.renamed_ops rfl rfl
  · refine corresponds_pure ?_
    refine .append (.append ?_ hbindings) (renamed_embed (hcontent.bracket _ _) ids view _ _ _ _)
    exact Fragment.renamed_ops rfl rfl

theorem corresponds_lowerIfBranches {branches : List Template.IfBranch}
    (hchildren : ∀ branch ∈ branches, RenamesNodes r facts branch.children) (isFirst : Bool) :
    Corresponds r (RenamedBranches r) (lowerIfBranches facts view isFirst branches)
      (lowerIfBranches facts (r.xref view) isFirst branches) := by
  induction branches generalizing isFirst with
  | nil =>
    rw [lowerIfBranches, lowerIfBranches]
    exact corresponds_pure ⟨renamed_empty, rfl⟩
  | cons branch branches ih =>
    obtain ⟨expression, children, aliasVariable, block, i18n⟩ := branch
    rw [List.forall_mem_cons] at hchildren
    rw [lowerIfBranches, lowerIfBranches]
    refine renames_freshView.bind fun ids => ?_
    refine (corresponds_lowerBranchRoot children).bind ?_
    rintro ⟨tag, copies⟩ ⟨_, copies'⟩ ⟨rfl, hcopies⟩
    refine (renames_blockPlaceholderOf _ _ _).bind fun placeholder => ?_
    refine (renames_lowerCondition hroot _ _).bind fun condition => ?_
    refine (hchildren.1 ids.xref).bind fun content _ hcontent => ?_
    refine (ih hchildren.2 false).bind fun others others' hothers => ?_
    exact corresponds_pure (hothers.cons hcopies hcontent rfl rfl isFirst ids view _)

theorem corresponds_lowerSwitchCases {switchCases : List Template.SwitchCase}
    (hchildren : ∀ branch ∈ switchCases, RenamesNodes r facts branch.children) (base : SourceSpan)
    (isFirst : Bool) :
    Corresponds r (RenamedBranches r) (lowerSwitchCases facts view base isFirst switchCases)
      (lowerSwitchCases facts (r.xref view) base isFirst switchCases) := by
  induction switchCases generalizing isFirst with
  | nil =>
    rw [lowerSwitchCases, lowerSwitchCases]
    exact corresponds_pure ⟨renamed_empty, rfl⟩
  | cons branch switchCases ih =>
    obtain ⟨expression, children, block, i18n⟩ := branch
    rw [List.forall_mem_cons] at hchildren
    rw [lowerSwitchCases, lowerSwitchCases]
    refine renames_freshView.bind fun ids => ?_
    refine (corresponds_lowerBranchRoot children).bind ?_
    rintro ⟨tag, copies⟩ ⟨_, copies'⟩ ⟨rfl, hcopies⟩
    refine (renames_blockPlaceholderOf _ _ _).bind fun placeholder => ?_
    refine (renames_lowerCondition hroot _ _).bind fun condition => ?_
    refine (hchildren.1 ids.xref).bind fun content _ hcontent => ?_
    refine (ih hchildren.2 false).bind fun others others' hothers => ?_
    exact corresponds_pure (hothers.cons hcopies hcontent rfl rfl isFirst ids view _)

theorem corresponds_lowerFor {block : Template.ForBlock}
    (hchildren : RenamesNodes r facts block.children)
    (hempty : ∀ empty ∈ block.empty, RenamesNodes r facts empty.children) :
    Corresponds r (Fragment.Renamed r) (lowerFor facts view block)
      (lowerFor facts (r.xref view) block) := by
  obtain ⟨item, expression, trackBy, contextVariables, children, empty, spans, mainSpan,
    i18n⟩ := block
  rw [lowerFor, lowerFor]
  refine (renames_blockPlaceholderOf _ _ _).bind fun placeholder => ?_
  refine corresponds_emptyPlaceholder empty fun emptyPlaceholder => ?_
  refine renames_freshView.bind fun ids => ?_
  refine (corresponds_addVariables rfl contextVariables).bind fun scope scope' hscope => ?_
  refine (Ast.renames hroot _).bind fun track => ?_
  refine (hchildren ids.xref).bind fun content _ hcontent => ?_
  refine (corresponds_lowerForEmpty hempty).bind ?_
  rintro ⟨emptyView, emptyTag, other⟩ ⟨emptyView', emptyTag', other'⟩ ⟨hview, htag, hother⟩
  obtain rfl : emptyView' = emptyView.map r.xref := hview
  obtain rfl : emptyTag' = emptyTag := htag
  refine (corresponds_lowerBranchRoot children).bind ?_
  rintro ⟨tag, copies⟩ ⟨_, copies'⟩ ⟨rfl, hcopies⟩
  refine (Ast.renames hroot _).bind fun collection => corresponds_pure ?_
  refine .append (.append (.append (renamed_embed hcontent ids view _ _ _ _) hother) hcopies) ?_
  exact Fragment.renamed_ops (by rw [hscope]; rfl) rfl

theorem corresponds_lowerDefer {block : Template.DeferBlock}
    (hchildren : RenamesNodes r facts block.children)
    (hloading : ∀ part ∈ block.loading, RenamesNodes r facts part.children)
    (hplaceholder : ∀ part ∈ block.placeholder, RenamesNodes r facts part.children)
    (herror : ∀ part ∈ block.error, RenamesNodes r facts part.children) :
    Corresponds r (Fragment.Renamed r) (lowerDefer facts view block)
      (lowerDefer facts (r.xref view) block) := by
  obtain ⟨children, triggers, prefetch, hydrate, placeholder, loading, error, spans, mainSpan,
    i18n⟩ := block
  simp only [lowerDefer, lowerDeferLoading_eq, lowerDeferPlaceholder_eq, lowerDeferError_eq]
  refine (renames_blockPlaceholderOf _ _ _).bind fun mainPlaceholder => ?_
  refine renames_freshView.bind fun ids => ?_
  refine (hchildren ids.xref).bind fun content _ hcontent => ?_
  refine (corresponds_lowerDeferPart hloading).bind ?_
  rintro ⟨loadingView, loadingPart⟩ ⟨_, loadingPart'⟩ ⟨rfl, hloading⟩
  refine (corresponds_lowerDeferPart hplaceholder).bind ?_
  rintro ⟨placeholderView, placeholderPart⟩ ⟨_, placeholderPart'⟩ ⟨rfl, hplaceholder⟩
  refine (corresponds_lowerDeferPart herror).bind ?_
  rintro ⟨errorView, errorPart⟩ ⟨_, errorPart'⟩ ⟨rfl, herror⟩
  refine renames_freshXref.bind fun xref => ?_
  refine (renames_lowerAllTriggers hroot xref _ _ _ _).bind fun triggers => corresponds_pure ?_
  have hmain := renamed_embedDeferred hcontent ids view "" mainPlaceholder spans
  refine .append (.append (.append (.append hmain hloading) hplaceholder) herror) ?_
  refine Fragment.renamed_ops ?_ ?_
  · simp [CreateOp.rename, DeferTriggers.rename, ViewIds.rename, Function.comp_def]
  · simp [UpdateOp.rename, DeferTriggers.rename, Function.comp_def]

theorem corresponds_lowerNode {node : Template.Node}
    (hnodes : ∀ nodes ∈ node.sequences, RenamesNodes r facts nodes) :
    Corresponds r (Fragment.Renamed r) (lowerNode facts view node)
      (lowerNode facts (r.xref view) node) := by
  cases node with
  | comment comment =>
    rw [lowerNode, lowerNode]
    exact corresponds_pure renamed_empty
  | text text =>
    rw [lowerNode, lowerNode]
    exact corresponds_lowerText none text
  | boundText text =>
    rw [lowerNode, lowerNode]
    exact corresponds_lowerBoundText hroot none text
  | element element =>
    rw [lowerNode, lowerNode]
    exact corresponds_lowerElement hroot (hnodes _ (by simp [Template.Node.sequences]))
  | template template =>
    rw [lowerNode, lowerNode]
    exact corresponds_lowerTemplate hroot (hnodes _ (by simp [Template.Node.sequences]))
  | content content =>
    rw [lowerNode, lowerNode]
    exact corresponds_lowerContent (hnodes _ (by simp [Template.Node.sequences]))
  | ifBlock branches block =>
    rw [lowerNode, lowerNode]
    refine (corresponds_lowerIfBranches hroot
      (fun branch hmem => hnodes _ (List.mem_map_of_mem hmem)) true).bind ?_
    rintro ⟨fragment, cases⟩ ⟨fragment', _⟩ ⟨hfragment, rfl⟩
    cases cases with
    | nil => exact corresponds_pure hfragment
    | cons first cases =>
      exact corresponds_pure (hfragment.append (Fragment.renamed_ops rfl rfl))
  | switchBlock expression switchCases block =>
    rw [lowerNode, lowerNode]
    refine (corresponds_lowerSwitchCases hroot
      (fun branch hmem => hnodes _ (List.mem_map_of_mem hmem)) _ true).bind ?_
    rintro ⟨fragment, cases⟩ ⟨fragment', _⟩ ⟨hfragment, rfl⟩
    cases cases with
    | nil => exact corresponds_pure hfragment
    | cons first cases =>
      refine (Ast.renames hroot _).bind fun test => ?_
      exact corresponds_pure (hfragment.append (Fragment.renamed_ops rfl rfl))
  | forBlock block =>
    rw [lowerNode, lowerNode]
    refine corresponds_lowerFor hroot (hnodes _ (by simp [Template.Node.sequences])) ?_
    intro empty hempty
    exact hnodes _ (by simp [Template.Node.sequences, Option.mem_def.1 hempty])
  | deferBlock block =>
    rw [lowerNode, lowerNode]
    refine corresponds_lowerDefer hroot (hnodes _ (by simp [Template.Node.sequences])) ?_ ?_ ?_
    · intro part hpart
      exact hnodes _ (by simp [Template.Node.sequences, Option.mem_def.1 hpart])
    · intro part hpart
      exact hnodes _ (by simp [Template.Node.sequences, Option.mem_def.1 hpart])
    · intro part hpart
      exact hnodes _ (by simp [Template.Node.sequences, Option.mem_def.1 hpart])
  | icu icu =>
    rw [lowerNode, lowerNode]
    exact corresponds_lowerIcu hroot icu
  | letDeclaration declaration =>
    rw [lowerNode, lowerNode]
    exact corresponds_lowerLet hroot declaration
  | unknownBlock name span =>
    rw [lowerNode, lowerNode]
    exact corresponds_throw

theorem renamesNodes (nodes : List Template.Node) : RenamesNodes r facts nodes := by
  induction nodes using Template.Node.induction_sequences with
  | nil =>
    intro view
    rw [lowerNodes, lowerNodes]
    exact corresponds_pure renamed_empty
  | cons node nodes hinner ih =>
    intro view
    rw [lowerNodes, lowerNodes]
    exact (corresponds_lowerNode hroot hinner).append (ih view)

end TemplateLowering
