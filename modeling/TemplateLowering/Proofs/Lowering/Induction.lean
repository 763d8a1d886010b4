import TemplateLowering.Proofs.Lowering.Text
import TemplateLowering.Proofs.Template.Sequence

/-!
# Induction over a lowering

What lowering a node does is said once here.  `NodeLowering` has a case for each kind of node, with
its steps in their order and the numbers between them; the sequences of nodes inside the node are
lowered as `inner` says.  A property of lowered fragments is proved by `lowerNodes_induction`, where
`inner` is the property itself.
-/

namespace TemplateLowering

variable {s t : Ids}
variable {placeholder : Option I18n.TagPlaceholder} {cases : List ConditionalCase}

/-! ## Steps that draw no number -/

theorem splitTag_spec {name : String} {tag : TagName} (h : Yields (splitTag name) s tag t) :
    s = t ∧ tag.name = (TagName.splitLenient name).name := by
  unfold splitTag at h
  split at h
  · next tag' htag =>
    obtain ⟨rfl, rfl⟩ := yields_pure.1 h
    rw [TagName.splitLenient, htag]
    exact ⟨rfl, rfl⟩
  · exact absurd h not_yields_throw

theorem eq_of_tagPlaceholderOf {i18n : Option I18n.Meta} {node : String} {span : SourceSpan}
    (h : Yields (tagPlaceholderOf i18n node span) s placeholder t) : s = t := by
  unfold tagPlaceholderOf at h
  split at h
  · exact (yields_pure.1 h).2
  · exact (yields_pure.1 h).2
  · exact (yields_pure.1 h).2
  · exact absurd h not_yields_rejectI18n

theorem eq_of_contentPlaceholderOf {i18n : Option I18n.Meta} {span : SourceSpan}
    (h : Yields (contentPlaceholderOf i18n span) s placeholder t) : s = t := by
  unfold contentPlaceholderOf at h
  split at h
  · exact (yields_pure.1 h).2
  · exact (yields_pure.1 h).2
  · exact absurd h not_yields_rejectI18n

/-! ## Cases -/

section Cases

variable (facts : JobFacts) (inner : Xref → List Template.Node → Ids → Fragment → Ids → Prop)
  (view : Xref)

/-- The branches of a block, of which each shows one of the sequences. -/
inductive BranchLowering : Bool → List (List Template.Node) → Ids → Fragment →
    List ConditionalCase → Ids → Prop
  | nil {isFirst : Bool} {s : Ids} : BranchLowering isFirst [] s {} [] s
  | cons {children : List Template.Node} {sequences : List (List Template.Node)} {s u v w t : Ids}
      {ids : ViewIds} {op : BranchOp} {base : Option SourceSpan}
      {condition : Option Ast} {branch : ConditionalCase} {copies content others : Fragment}
      {cases : List ConditionalCase} (isFirst : Bool) (contextVariables : OrderedMap String String)
      (hids : Yields (Ids.freshView : Lower ViewIds) s ids u)
      (hcopies : Yields (lowerBranchRoot ids.xref children) u (op.tag, copies) u)
      (hcondition : Yields (lowerCondition facts base condition) u branch.condition v)
      (hcontent : inner ids.xref children v content w)
      (hothers : BranchLowering false sequences w others cases t)
      (hop : op.xref = ids.xref) (htarget : branch.target = ids.xref) :
      BranchLowering isFirst (children :: sequences) s
        (copies ++ Fragment.mk [branchOp isFirst op] [] [] ++
          embed ids view content contextVariables [] ++ others) (branch :: cases) t

/-- A block with branches.  A block without any leaves no trace. -/
inductive BlockLowering : List (List Template.Node) → Ids → Fragment → Ids → Prop
  | nil {s : Ids} : BlockLowering [] s {} s
  | cons {children : List Template.Node} {sequences : List (List Template.Node)} {s u t : Ids}
      {f : Fragment} {op : ConditionalOp} (test : Option Ast)
      (hbranches : BranchLowering facts inner view true (children :: sequences) s f op.cases u)
      (htest : Yields (lowerCondition facts none test) u op.test t)
      (htarget : (op.cases.map ConditionalCase.target).head? = some op.target)
      (hprocessed : op.processed = none) (hvalue : op.contextValue = none) :
      BlockLowering (children :: sequences) s (f ++ Fragment.mk [] [.conditional op] []) t

inductive EmptyLowering : Option (List Template.Node) → Ids → Option Xref → Fragment → Ids → Prop
  | absent {s : Ids} : EmptyLowering none s none {} s
  | present {children : List Template.Node} {s u t : Ids} {tag : Option String}
      {copies content : Fragment} (ids : ViewIds)
      (hids : Yields (Ids.freshView : Lower ViewIds) s ids u)
      (hcontent : inner ids.xref children u content t)
      (hcopies : Yields (lowerBranchRoot ids.xref children) t (tag, copies) t) :
      EmptyLowering (some children) s (some ids.xref) (copies ++ embed ids view content {} []) t

inductive PartLowering : Option (List Template.Node) → Ids → Option Xref → Fragment → Ids → Prop
  | absent {s : Ids} : PartLowering none s none {} s
  | present {children : List Template.Node} {s u t : Ids} {content : Fragment} (ids : ViewIds)
      (suffix : String) (placeholder : Option I18n.BlockPlaceholder) (block : Template.BlockSpans)
      (hids : Yields (Ids.freshView : Lower ViewIds) s ids u)
      (hcontent : inner ids.xref children u content t) :
      PartLowering (some children) s (some ids.xref)
        (embedDeferred ids view suffix placeholder block content) t

/-- The fragment of a node that stands in the view. -/
inductive NodeLowering : Template.Node → Ids → Fragment → Ids → Prop
  | comment {s : Ids} (comment : Template.Text) : NodeLowering (.comment comment) s {} s
  | text {text : Template.Text} {s t : Ids} {f : Fragment}
      (h : Yields (lowerText none text) s f t) : NodeLowering (.text text) s f t
  | boundText {text : Template.BoundText} {s t : Ids} {f : Fragment}
      (h : Yields (lowerBoundText facts none text) s f t) : NodeLowering (.boundText text) s f t
  | icu {icu : Template.Icu} {s t : Ids} {f : Fragment} (h : Yields (lowerIcu facts icu) s f t) :
      NodeLowering (.icu icu) s f t
  | letDeclaration {declaration : Template.LetDeclaration} {s t : Ids} {f : Fragment}
      (h : Yields (lowerLet facts declaration) s f t) :
      NodeLowering (.letDeclaration declaration) s f t
  | element {element : Template.Element} {s u v t : Ids} {start : ElementStart} {stop : EndOp}
      {bindings content : Fragment} {opening closing : List CreateOp}
      (hplaceholder : Yields (tagPlaceholderOf element.i18n "Element" element.startSpan) s
        start.placeholder s)
      (hbindings : Yields (lowerElementBindings facts.root start.xref none element.name start.tag
        element.attributes element.inputs element.outputs)
        { s with nextXref := s.nextXref + 1 } bindings u)
      (hbrackets : Yields (lowerBlockBrackets element.i18n element.startSpan element.endSpan) u
        (opening, closing) v)
      (hcontent : inner view element.children v content t)
      (hstart : start.xref = ⟨s.nextXref⟩)
      (htag : start.tag = (TagName.splitLenient element.name).name)
      (hstop : stop.xref = start.xref) :
      NodeLowering (.element element) s
        (Fragment.mk [.elementStart start] [] [] ++ bindings ++ Fragment.mk opening [] [] ++
          content ++ Fragment.mk (closing ++ [.elementEnd stop]) [] []) t
  | template {s u v w t : Ids} {ids : ViewIds} {op : TemplateOp}
      {placeholder : Option I18n.TagPlaceholder} {tag : Option String} {inputs : List TemplateInput}
      {bindings content : Fragment} {opening closing : List CreateOp}
      (template : Template.EmbeddedTemplate) (contextVariables : OrderedMap String String)
      (hplaceholder : Yields (tagPlaceholderOf template.i18n "Template" template.startSpan) s
        placeholder s)
      (hids : Yields (Ids.freshView : Lower ViewIds) s ids u)
      (hbindings : Yields (lowerTemplateBindings facts.root ids.xref none tag op.kind inputs
        template.outputs) u bindings v)
      (hcontent : inner ids.xref template.children v content w)
      (hbrackets : Yields (lowerBlockBrackets
        (if isPlainTemplate template.tagName then template.i18n else none) template.startSpan
        template.endSpan) w (opening, closing) t)
      (hop : op.xref = ids.xref) (hkind : op.kind ≠ .block)
      (hplaced : op.placeholder.isSome = placeholder.isSome) :
      NodeLowering (.template template) s
        (Fragment.mk [.template op] [] [] ++ bindings ++
          embed ids view (Fragment.mk opening [] [] ++ content ++ Fragment.mk closing [] [])
            contextVariables []) t
  | content {content : Template.Content} {s t : Ids} {op : ProjectionOp} {bindings : List Binding}
      (hfallback : hasFallback content.children = false)
      (hbindings : Yields (content.attributes.mapM (lowerTextAttribute op.xref ngContentTag)) t
        bindings t)
      (hview : op.fallbackView = none) (hselector : op.selector = content.selector)
      (hop : op.xref = ⟨s.nextXref⟩) (ht : t = { s with nextXref := s.nextXref + 1 }) :
      NodeLowering (.content content) s
        ({} ++ Fragment.mk [.projection op] (bindings.map .binding) []) t
  | contentFallback {content : Template.Content} {s u v t : Ids} {ids : ViewIds} {op : ProjectionOp}
      {bindings : List Binding} {fallback : Fragment}
      (hfallback : hasFallback content.children = true)
      (hids : Yields (Ids.freshView : Lower ViewIds) s ids u)
      (hcontent : inner ids.xref content.children u fallback v)
      (hbindings : Yields (content.attributes.mapM (lowerTextAttribute op.xref ngContentTag)) t
        bindings t)
      (hview : op.fallbackView = some ids.xref) (hselector : op.selector = content.selector)
      (hop : op.xref = ⟨v.nextXref⟩) (ht : t = { v with nextXref := v.nextXref + 1 }) :
      NodeLowering (.content content) s
        (embed ids view fallback {} [] ++
          Fragment.mk [.projection op] (bindings.map .binding) []) t
  | ifBlock {branches : List Template.IfBranch} {block : Template.BlockSpans} {s t : Ids}
      {f : Fragment}
      (h : BlockLowering facts inner view (branches.map Template.IfBranch.children) s f t) :
      NodeLowering (.ifBlock branches block) s f t
  | switchBlock {expression : Ast} {switchCases : List Template.SwitchCase}
      {block : Template.BlockSpans} {s t : Ids} {f : Fragment}
      (h : BlockLowering facts inner view (switchCases.map Template.SwitchCase.children) s f t) :
      NodeLowering (.switchBlock expression switchCases block) s f t
  | forBlock {block : Template.ForBlock} {s u v w x t : Ids} {ids : ViewIds} {scope : LoopScope}
      {base base' : Option SourceSpan} {op : RepeaterCreate} {repeater : RepeaterOp}
      {content other copies : Fragment} (hids : Yields (Ids.freshView : Lower ViewIds) s ids u)
      (hscope : Yields (block.contextVariables.foldlM (LoopScope.add (.ofView ids.xref))
        { contextVariables := OrderedMap.ofList [(block.item.name, block.item.value)] }) u scope u)
      (htrack : Yields (block.trackBy.ast.lower facts.root base) u op.track v)
      (hcontent : inner ids.xref block.children v content w)
      (hempty : EmptyLowering inner view (block.empty.map Template.ForEmpty.children) w
        op.emptyView other x)
      (hcopies : Yields (lowerBranchRoot ids.xref block.children) x (op.tag, copies) x)
      (hcollection : Yields (block.expression.ast.lower facts.root base') x repeater.collection t)
      (hop : op.xref = ids.xref) (htarget : repeater.target = ids.xref)
      (hlists : op.trackByOps = none) (hfn : op.trackByFn = none)
      (huses : op.usesComponentInstance = false) :
      NodeLowering (.forBlock block) s
        (embed ids view content scope.contextVariables scope.aliases ++ other ++ copies ++
          Fragment.mk [.repeaterCreate op] [.repeater repeater] []) t
  | deferBlock {block : Template.DeferBlock} {s u v w x t : Ids} {op : DeferOp}
      {triggers : DeferTriggers} {span : SourceSpan} {main f₁ f₂ f₃ : Fragment}
      (hmain : PartLowering inner view (some block.children) s (some op.mainView) main u)
      (hloading : PartLowering inner view (block.loading.map Template.DeferLoading.children) u
        op.loadingView f₁ v)
      (hplaceholder : PartLowering inner view
        (block.placeholder.map Template.DeferPlaceholder.children) v op.placeholderView f₂ w)
      (herror : PartLowering inner view (block.error.map Template.DeferError.children) w
        op.errorView f₃ x)
      (htriggers : Yields (lowerAllTriggers facts op.xref span block.hydrateTriggers block.triggers
        block.prefetchTriggers) { x with nextXref := x.nextXref + 1 } triggers t)
      (hop : op.xref = ⟨x.nextXref⟩) :
      NodeLowering (.deferBlock block) s
        (main ++ f₁ ++ f₂ ++ f₃ ++
          Fragment.mk (.defer op :: triggers.on.map .deferOn) (triggers.when_.map .deferWhen) []) t

end Cases

/-! ## Other relations inside a node -/

section Mono

variable {facts : JobFacts} {inner inner' : Xref → List Template.Node → Ids → Fragment → Ids → Prop}
  {view : Xref} {f : Fragment} {partView : Option Xref} {part : Option (List Template.Node)}

theorem BranchLowering.mono {isFirst : Bool} {sequences : List (List Template.Node)}
    (h : BranchLowering facts inner view isFirst sequences s f cases t)
    (hinner : ∀ nodes ∈ sequences, ∀ {view s f t}, inner view nodes s f t →
      inner' view nodes s f t) :
    BranchLowering facts inner' view isFirst sequences s f cases t := by
  induction h with
  | nil => exact .nil
  | cons isFirst contextVariables hids hcopies hcondition hcontent _ hop htarget ih =>
    rw [List.forall_mem_cons] at hinner
    exact .cons isFirst contextVariables hids hcopies hcondition (hinner.1 hcontent) (ih hinner.2)
      hop htarget

theorem BlockLowering.mono {sequences : List (List Template.Node)}
    (h : BlockLowering facts inner view sequences s f t)
    (hinner : ∀ nodes ∈ sequences, ∀ {view s f t}, inner view nodes s f t →
      inner' view nodes s f t) :
    BlockLowering facts inner' view sequences s f t := by
  cases h with
  | nil => exact .nil
  | cons test hbranches htest htarget hprocessed hvalue =>
    exact .cons test (hbranches.mono hinner) htest htarget hprocessed hvalue

theorem EmptyLowering.mono (h : EmptyLowering inner view part s partView f t)
    (hinner : ∀ nodes ∈ part, ∀ {view s f t}, inner view nodes s f t → inner' view nodes s f t) :
    EmptyLowering inner' view part s partView f t := by
  cases h with
  | absent => exact .absent
  | present ids hids hcontent hcopies => exact .present ids hids (hinner _ rfl hcontent) hcopies

theorem PartLowering.mono (h : PartLowering inner view part s partView f t)
    (hinner : ∀ nodes ∈ part, ∀ {view s f t}, inner view nodes s f t → inner' view nodes s f t) :
    PartLowering inner' view part s partView f t := by
  cases h with
  | absent => exact .absent
  | present ids suffix placeholder block hids hcontent =>
    exact .present ids suffix placeholder block hids (hinner _ rfl hcontent)

theorem NodeLowering.mono {node : Template.Node} (h : NodeLowering facts inner view node s f t)
    (hinner : ∀ nodes ∈ node.sequences, ∀ {view s f t}, inner view nodes s f t →
      inner' view nodes s f t) : NodeLowering facts inner' view node s f t := by
  have hmem : ∀ {α : Type} {part : Option α} {children : α → List Template.Node}
      {nodes : List Template.Node}, nodes ∈ part.map children →
        nodes ∈ part.toList.map children := by
    intro α part children nodes h
    obtain ⟨block, hblock, rfl⟩ := Option.mem_map.1 h
    exact List.mem_map_of_mem (Option.mem_toList.2 hblock)
  cases h with
  | comment => exact .comment _
  | text h => exact .text h
  | boundText h => exact .boundText h
  | icu h => exact .icu h
  | letDeclaration h => exact .letDeclaration h
  | element hplaceholder hbindings hbrackets hcontent hstart htag hstop =>
    exact .element hplaceholder hbindings hbrackets (hinner _ List.mem_cons_self hcontent) hstart
      htag hstop
  | template template contextVariables hplaceholder hids hbindings hcontent hbrackets hop hkind
      hplaced =>
    exact .template template contextVariables hplaceholder hids hbindings
      (hinner _ List.mem_cons_self hcontent) hbrackets hop hkind hplaced
  | content hfallback hbindings hview hselector hop ht =>
    exact .content hfallback hbindings hview hselector hop ht
  | contentFallback hfallback hids hcontent hbindings hview hselector hop ht =>
    exact .contentFallback hfallback hids (hinner _ List.mem_cons_self hcontent) hbindings hview
      hselector hop ht
  | ifBlock h => exact .ifBlock (h.mono hinner)
  | switchBlock h => exact .switchBlock (h.mono hinner)
  | forBlock hids hscope htrack hcontent hempty hcopies hcollection hop htarget hlists hfn huses =>
    rw [Template.Node.sequences, List.forall_mem_cons] at hinner
    have hempty := hempty.mono fun nodes hnodes => hinner.2 nodes (hmem hnodes)
    exact .forBlock hids hscope htrack (hinner.1 hcontent) hempty hcopies
      hcollection hop htarget hlists hfn huses
  | deferBlock hmain hloading hplaceholder herror htriggers hop =>
    simp only [Template.Node.sequences, List.forall_mem_cons, List.forall_mem_append] at hinner
    obtain ⟨hchildren, ⟨hinner₁, hinner₂⟩, hinner₃⟩ := hinner
    refine .deferBlock (hmain.mono ?_)
      (hloading.mono fun nodes hnodes => hinner₁ nodes (hmem hnodes))
      (hplaceholder.mono fun nodes hnodes => hinner₂ nodes (hmem hnodes))
      (herror.mono fun nodes hnodes => hinner₃ nodes (hmem hnodes)) htriggers hop
    rintro nodes hnodes
    obtain rfl := Option.some.inj hnodes
    exact hchildren

end Mono

/-! ## The parts of a deferred block -/

structure DeferPart where
  children : List Template.Node
  block : Template.BlockSpans
  i18n : Option I18n.Meta

/-- The optional parts of a deferred block are lowered alike, up to the suffix of their views. -/
def lowerDeferPart (facts : JobFacts) (view : Xref) (suffix : String) (toPart : α → DeferPart) :
    Option α → Lower (Option Xref × Fragment)
  | none => return (none, {})
  | some part => do
      let { children, block, i18n } := toPart part
      let placeholder ← blockPlaceholderOf i18n "DeferredBlock" block.start
      let ids ← Ids.freshView
      let content ← lowerNodes facts ids.xref children
      return (some ids.xref, embedDeferred ids view suffix placeholder block content)

theorem lowerDeferLoading_eq (facts : JobFacts) (view : Xref) :
    lowerDeferLoading facts view =
      lowerDeferPart facts view "Loading" fun part => ⟨part.children, part.block, part.i18n⟩ := by
  funext loading
  rw [lowerDeferLoading.eq_def]
  rcases loading with _ | ⟨_, _⟩ <;> rfl

theorem lowerDeferPlaceholder_eq (facts : JobFacts) (view : Xref) :
    lowerDeferPlaceholder facts view =
      lowerDeferPart facts view "Placeholder" fun part =>
        ⟨part.children, part.block, part.i18n⟩ := by
  funext placeholder
  rw [lowerDeferPlaceholder.eq_def]
  rcases placeholder with _ | ⟨_, _⟩ <;> rfl

theorem lowerDeferError_eq (facts : JobFacts) (view : Xref) :
    lowerDeferError facts view =
      lowerDeferPart facts view "Error" fun part => ⟨part.children, part.block, part.i18n⟩ := by
  funext error
  rw [lowerDeferError.eq_def]
  rcases error with _ | ⟨_, _⟩ <;> rfl

/-! ## The steps of a lowering -/

def LowersTo (facts : JobFacts) (view : Xref) (nodes : List Template.Node) (s : Ids) (f : Fragment)
    (t : Ids) : Prop :=
  Yields (lowerNodes facts view nodes) s f t

section Steps

variable {facts : JobFacts} {view : Xref} {f : Fragment} {partView : Option Xref}

theorem branchLowering_of_lowerIfBranches {isFirst : Bool} {branches : List Template.IfBranch}
    (h : Yields (lowerIfBranches facts view isFirst branches) s (f, cases) t) :
    BranchLowering facts (LowersTo facts) view isFirst (branches.map Template.IfBranch.children) s f
      cases t := by
  induction branches generalizing isFirst s f cases with
  | nil =>
    simp only [lowerIfBranches, yields_pure, Prod.mk.injEq] at h
    obtain ⟨⟨rfl, rfl⟩, rfl⟩ := h
    exact .nil
  | cons branch branches ih =>
    obtain ⟨expression, children, aliasVariable, block, i18n⟩ := branch
    simp only [lowerIfBranches, yields_bind, yields_pure, Prod.mk.injEq] at h
    obtain ⟨ids, _, hids, ⟨tag, copies⟩, _, hcopies, placeholder, _, hplaceholder, condition, _,
      hcondition, content, _, hcontent, ⟨others, cases'⟩, _, hothers, ⟨rfl, rfl⟩, rfl⟩ := h
    obtain ⟨rfl, -⟩ := attached_branchRoot facts.root hcopies
    obtain rfl := eq_of_blockPlaceholderOf hplaceholder
    exact .cons isFirst _ hids hcopies hcondition hcontent (ih hothers) rfl rfl

theorem branchLowering_of_lowerSwitchCases {base : SourceSpan} {isFirst : Bool}
    {switchCases : List Template.SwitchCase}
    (h : Yields (lowerSwitchCases facts view base isFirst switchCases) s (f, cases) t) :
    BranchLowering facts (LowersTo facts) view isFirst
      (switchCases.map Template.SwitchCase.children) s f cases t := by
  induction switchCases generalizing isFirst s f cases with
  | nil =>
    simp only [lowerSwitchCases, yields_pure, Prod.mk.injEq] at h
    obtain ⟨⟨rfl, rfl⟩, rfl⟩ := h
    exact .nil
  | cons branch switchCases ih =>
    obtain ⟨expression, children, block, i18n⟩ := branch
    simp only [lowerSwitchCases, yields_bind, yields_pure, Prod.mk.injEq] at h
    obtain ⟨ids, _, hids, ⟨tag, copies⟩, _, hcopies, placeholder, _, hplaceholder, condition, _,
      hcondition, content, _, hcontent, ⟨others, cases'⟩, _, hothers, ⟨rfl, rfl⟩, rfl⟩ := h
    obtain ⟨rfl, -⟩ := attached_branchRoot facts.root hcopies
    obtain rfl := eq_of_blockPlaceholderOf hplaceholder
    exact .cons isFirst _ hids hcopies hcondition hcontent (ih hothers) rfl rfl

theorem emptyLowering_of_lowerForEmpty {empty : Option Template.ForEmpty} {tag : Option String}
    (h : Yields (lowerForEmpty facts view empty) s (partView, tag, f) t) :
    EmptyLowering (LowersTo facts) view (empty.map Template.ForEmpty.children) s partView f t := by
  cases empty with
  | none =>
    simp only [lowerForEmpty, yields_pure, Prod.mk.injEq] at h
    obtain ⟨⟨rfl, -, rfl⟩, rfl⟩ := h
    exact .absent
  | some block =>
    obtain ⟨children, spans, i18n⟩ := block
    simp only [lowerForEmpty, yields_bind, yields_pure, Prod.mk.injEq] at h
    obtain ⟨ids, _, hids, content, _, hcontent, ⟨tag', copies⟩, _, hcopies, ⟨rfl, -, rfl⟩,
      rfl⟩ := h
    obtain ⟨rfl, -⟩ := attached_branchRoot facts.root hcopies
    exact .present ids hids hcontent hcopies

theorem partLowering_of_lowerDeferPart {suffix : String} {toPart : α → DeferPart} {part : Option α}
    (h : Yields (lowerDeferPart facts view suffix toPart part) s (partView, f) t) :
    PartLowering (LowersTo facts) view (part.map fun part => (toPart part).children) s partView f
      t := by
  cases part with
  | none =>
    obtain ⟨heq, rfl⟩ := yields_pure.1 h
    obtain ⟨rfl, rfl⟩ := Prod.mk.inj heq
    exact .absent
  | some part =>
    simp only [lowerDeferPart, yields_bind, yields_pure, Prod.mk.injEq] at h
    obtain ⟨placeholder, _, hplaceholder, ids, _, hids, content, _, hcontent, ⟨rfl, rfl⟩, rfl⟩ := h
    obtain rfl := eq_of_blockPlaceholderOf hplaceholder
    exact .present ids _ _ _ hids hcontent

theorem nodeLowering_of_lowerElement {element : Template.Element}
    (h : Yields (lowerElement facts view element) s f t) :
    NodeLowering facts (LowersTo facts) view (.element element) s f t := by
  obtain ⟨name, attributes, inputs, outputs, children, references, span, startSpan, endSpan,
    i18n⟩ := element
  simp only [lowerElement, yields_bind, yields_freshXref, yields_pure] at h
  obtain ⟨placeholder, _, hplaceholder, _, _, ⟨rfl, rfl⟩, tag, _, htag, bindings, _, hbindings,
    ⟨opening, closing⟩, _, hbrackets, content, _, hcontent, rfl, rfl⟩ := h
  obtain rfl := eq_of_tagPlaceholderOf hplaceholder
  obtain ⟨rfl, hname⟩ := splitTag_spec htag
  exact .element hplaceholder hbindings hbrackets hcontent rfl hname rfl

theorem isPlainTemplate_iff {tagName : Option String} :
    (if isPlainTemplate tagName = true then TemplateKind.ngTemplate else .structural) =
      .ngTemplate ↔ isPlainTemplate tagName = true := by
  split <;> simp_all

theorem nodeLowering_of_lowerTemplate {template : Template.EmbeddedTemplate}
    (h : Yields (lowerTemplate facts view template) s f t) :
    NodeLowering facts (LowersTo facts) view (.template template) s f t := by
  obtain ⟨tagName, attributes, inputs, outputs, templateAttributes, children, references,
    letVariables, span, startSpan, endSpan, i18n⟩ := template
  simp only [lowerTemplate, yields_bind] at h
  obtain ⟨placeholder, _, hplaceholder, ids, u, hids, h⟩ := h
  obtain rfl := eq_of_tagPlaceholderOf hplaceholder
  have hkind : (if isPlainTemplate tagName then TemplateKind.ngTemplate else .structural) ≠
      .block := by
    split <;> simp
  have hplaced : (placeholder.map ViewPlaceholder.tag).isSome = placeholder.isSome :=
    Option.isSome_map
  -- The continuation stands once in each case of the tag, and twice in it for the two kinds.
  cases tagName with
  | none =>
    simp only [yields_bind, yields_ite, yields_pure, isPlainTemplate_iff] at h
    obtain ⟨_, _, ⟨rfl, rfl⟩, bindings, _, hbindings, content, v, hcontent, h⟩ := h
    rcases h with ⟨hplain, ⟨opening, closing⟩, _, hbrackets, rfl, rfl⟩ |
      ⟨hplain, _, _, ⟨rfl, rfl⟩, rfl, rfl⟩
    · exact .template _ _ hplaceholder hids hbindings hcontent (by rwa [if_pos hplain]) rfl hkind
        hplaced
    · exact .template _ _ hplaceholder hids hbindings hcontent
        (by rw [if_neg hplain]; exact yields_pure.2 ⟨rfl, rfl⟩) rfl hkind hplaced
  | some name =>
    simp only [yields_bind, yields_ite, yields_map, yields_pure, isPlainTemplate_iff] at h
    obtain ⟨_, _, ⟨tag, htag, rfl⟩, bindings, _, hbindings, content, v, hcontent, h⟩ := h
    obtain ⟨rfl, -⟩ := splitTag_spec htag
    rcases h with ⟨hplain, ⟨opening, closing⟩, _, hbrackets, rfl, rfl⟩ |
      ⟨hplain, _, _, ⟨rfl, rfl⟩, rfl, rfl⟩
    · exact .template _ _ hplaceholder hids hbindings hcontent (by rwa [if_pos hplain]) rfl hkind
        hplaced
    · exact .template _ _ hplaceholder hids hbindings hcontent
        (by rw [if_neg hplain]; exact yields_pure.2 ⟨rfl, rfl⟩) rfl hkind hplaced

theorem nodeLowering_of_lowerContent {content : Template.Content}
    (h : Yields (lowerContent facts view content) s f t) :
    NodeLowering facts (LowersTo facts) view (.content content) s f t := by
  obtain ⟨selector, attributes, children, span, i18n⟩ := content
  simp only [lowerContent, yields_bind, yields_ite, yields_freshXref, yields_pure] at h
  obtain ⟨placeholder, _, hplaceholder, h⟩ := h
  obtain rfl := eq_of_contentPlaceholderOf hplaceholder
  rcases h with ⟨hfallback, h⟩ | ⟨hfallback, h⟩
  · obtain ⟨ids, u, hids, fallback, v, hcontent, _, _, ⟨rfl, rfl⟩, _, _, ⟨rfl, rfl⟩, bindings, _,
      hbindings, rfl, rfl⟩ := h
    obtain ⟨rfl, -⟩ := attached_textAttributes facts.root hbindings
    exact .contentFallback hfallback hids hcontent hbindings rfl rfl rfl rfl
  · obtain ⟨_, _, ⟨rfl, rfl⟩, _, _, ⟨rfl, rfl⟩, bindings, _, hbindings, rfl, rfl⟩ := h
    obtain ⟨rfl, -⟩ := attached_textAttributes facts.root hbindings
    exact .content (Bool.eq_false_iff.2 hfallback) hbindings rfl rfl rfl rfl

theorem nodeLowering_of_lowerFor {block : Template.ForBlock}
    (h : Yields (lowerFor facts view block) s f t) :
    NodeLowering facts (LowersTo facts) view (.forBlock block) s f t := by
  obtain ⟨item, expression, trackBy, contextVariables, children, empty, spans, mainSpan,
    i18n⟩ := block
  simp only [lowerFor, yields_bind] at h
  obtain ⟨placeholder, _, hplaceholder, h⟩ := h
  obtain rfl := eq_of_blockPlaceholderOf hplaceholder
  split at h <;> simp only [yields_bind, yields_pure] at h <;>
    obtain ⟨emptyPlaceholder, _, hemptyPlaceholder, ids, _, hids, scope, _, hscope, track, _,
      htrack, content, _, hcontent, ⟨emptyView, emptyTag, other⟩, _, hother, ⟨tag, copies⟩, _,
      hcopies, collection, _, hcollection, rfl, rfl⟩ := h <;>
    obtain rfl := eq_of_addLoopVariables hscope <;>
    obtain ⟨rfl, -⟩ := attached_branchRoot facts.root hcopies
  · obtain rfl := eq_of_blockPlaceholderOf hemptyPlaceholder
    exact .forBlock hids hscope htrack hcontent (emptyLowering_of_lowerForEmpty hother) hcopies
      hcollection rfl rfl rfl rfl rfl
  · obtain ⟨-, rfl⟩ := hemptyPlaceholder
    exact .forBlock hids hscope htrack hcontent (emptyLowering_of_lowerForEmpty hother) hcopies
      hcollection rfl rfl rfl rfl rfl

theorem nodeLowering_of_lowerDefer {block : Template.DeferBlock}
    (h : Yields (lowerDefer facts view block) s f t) :
    NodeLowering facts (LowersTo facts) view (.deferBlock block) s f t := by
  obtain ⟨children, triggers, prefetchTriggers, hydrateTriggers, placeholder, loading, error,
    spans, mainSpan, i18n⟩ := block
  simp only [lowerDefer, lowerDeferLoading_eq, lowerDeferPlaceholder_eq, lowerDeferError_eq,
    yields_bind, yields_freshXref, yields_pure] at h
  obtain ⟨mainPlaceholder, _, hmainPlaceholder, ids, _, hids, content, _, hcontent,
    ⟨loadingView, f₁⟩, _, h₁, ⟨placeholderView, f₂⟩, _, h₂, ⟨errorView, f₃⟩, _, h₃, _, _,
    ⟨rfl, rfl⟩, lowered, _, htriggers, rfl, rfl⟩ := h
  obtain rfl := eq_of_blockPlaceholderOf hmainPlaceholder
  exact .deferBlock (.present ids _ _ _ hids hcontent) (partLowering_of_lowerDeferPart h₁)
    (partLowering_of_lowerDeferPart h₂) (partLowering_of_lowerDeferPart h₃) htriggers rfl

theorem nodeLowering_of_lowerNode {node : Template.Node}
    (h : Yields (lowerNode facts view node) s f t) :
    NodeLowering facts (LowersTo facts) view node s f t := by
  cases node with
  | comment comment =>
    simp only [lowerNode, yields_pure] at h
    obtain ⟨rfl, rfl⟩ := h
    exact .comment comment
  | text text => exact .text (by rwa [lowerNode] at h)
  | boundText text => exact .boundText (by rwa [lowerNode] at h)
  | element element => exact nodeLowering_of_lowerElement (by rwa [lowerNode] at h)
  | template template => exact nodeLowering_of_lowerTemplate (by rwa [lowerNode] at h)
  | content content => exact nodeLowering_of_lowerContent (by rwa [lowerNode] at h)
  | ifBlock branches block =>
    simp only [lowerNode, yields_bind] at h
    obtain ⟨⟨fragment, cases⟩, _, hbranches, h⟩ := h
    have hbranches := branchLowering_of_lowerIfBranches hbranches
    refine .ifBlock ?_
    generalize branches.map Template.IfBranch.children = sequences at hbranches
    cases hbranches with
    | nil =>
      obtain ⟨rfl, rfl⟩ := yields_pure.1 h
      exact .nil
    | cons _ contextVariables hids hcopies hcondition hcontent hothers hop htarget =>
      obtain ⟨rfl, rfl⟩ := yields_pure.1 h
      exact .cons none
        (.cons true contextVariables hids hcopies hcondition hcontent hothers hop htarget)
        (yields_pure.2 ⟨rfl, rfl⟩) rfl rfl rfl
  | switchBlock expression switchCases block =>
    simp only [lowerNode, yields_bind] at h
    obtain ⟨⟨fragment, cases⟩, _, hbranches, h⟩ := h
    have hbranches := branchLowering_of_lowerSwitchCases hbranches
    refine .switchBlock ?_
    generalize switchCases.map Template.SwitchCase.children = sequences at hbranches
    cases hbranches with
    | nil =>
      obtain ⟨rfl, rfl⟩ := yields_pure.1 h
      exact .nil
    | cons _ contextVariables hids hcopies hcondition hcontent hothers hop htarget =>
      simp only [yields_bind, yields_pure] at h
      obtain ⟨test, _, htest, rfl, rfl⟩ := h
      exact .cons (some expression)
        (.cons true contextVariables hids hcopies hcondition hcontent hothers hop htarget)
        (yields_map.2 ⟨test, htest, rfl⟩) rfl rfl rfl
  | forBlock block => exact nodeLowering_of_lowerFor (by rwa [lowerNode] at h)
  | deferBlock block => exact nodeLowering_of_lowerDefer (by rwa [lowerNode] at h)
  | icu icu => exact .icu (by rwa [lowerNode] at h)
  | letDeclaration declaration => exact .letDeclaration (by rwa [lowerNode] at h)
  | unknownBlock name span =>
    rw [lowerNode] at h
    exact absurd h not_yields_throw

/-- A property of the fragments of sequences of nodes holds if it holds of the empty fragment, and
if it is kept by a node in front whose own sequences have it. -/
theorem lowerNodes_induction {motive : Xref → List Template.Node → Ids → Fragment → Ids → Prop}
    (nil : ∀ view s, motive view [] s {} s)
    (cons : ∀ {view node nodes s u t f g}, NodeLowering facts motive view node s f u →
      motive view nodes u g t → motive view (node :: nodes) s (f ++ g) t)
    {nodes : List Template.Node} (h : Yields (lowerNodes facts view nodes) s f t) :
    motive view nodes s f t := by
  induction nodes using Template.Node.induction_sequences generalizing view s f t with
  | nil =>
    simp only [lowerNodes, yields_pure] at h
    obtain ⟨rfl, rfl⟩ := h
    exact nil view s
  | cons node nodes hinner ih =>
    simp only [lowerNodes, yields_bind, yields_pure] at h
    obtain ⟨first, _, hfirst, others, _, hothers, rfl, rfl⟩ := h
    exact cons ((nodeLowering_of_lowerNode hfirst).mono fun nodes hnodes => hinner nodes hnodes)
      (ih hothers)

end Steps

end TemplateLowering
