import TemplateLowering.Proofs.Lowering.Node
import TemplateLowering.Proofs.Op.Translation

/-!
# Views in document order

The embedded views of a template are allocated in the order of the document: a view comes before the
views that are declared in it, and these come before the views that are declared after it.  `Forest`
says so of the operations of one view, reduced to what matters for translated blocks, and the views
below it.  It also keeps track of where blocks may start and end.  In a template where no message
stands inside another, a block starts outside of all blocks, and the views below it have none.
-/

namespace TemplateLowering

open Fragment

/-! ## Marks of translated blocks -/

/-- The views that an operation declares, each with whether it stands for a placeholder. -/
def CreateOp.embeds : CreateOp → List (Xref × Bool)
  | .template op => [(op.xref, op.placeholder.isSome)]
  | .conditionalCreate op => [(op.xref, op.placeholder.isSome)]
  | .conditionalBranchCreate op => [(op.xref, op.placeholder.isSome)]
  | .repeaterCreate op =>
      (op.xref, op.placeholder.isSome) ::
        op.emptyView.toList.map fun xref => (xref, op.emptyPlaceholder.isSome)
  | .projection op => op.fallbackView.toList.map fun xref => (xref, op.placeholder.isSome)
  | _ => []

/-- What matters for translated blocks in the create operations of a view. -/
inductive BlockMark
  | start (op : I18nStart)
  | stop
  | view (xref : Xref) (placed : Bool)

def CreateOp.blockMarks : CreateOp → List BlockMark
  | .i18nStart op => [.start op]
  | .i18nEnd _ => [.stop]
  | op => op.embeds.map fun declared => .view declared.1 declared.2

def View.blockMarks (view : View) : List BlockMark :=
  view.create.toList.flatMap CreateOp.blockMarks

def Fragment.blockMarks (f : Fragment) : List BlockMark :=
  f.create.flatMap CreateOp.blockMarks

@[simp] theorem Fragment.blockMarks_append (f g : Fragment) :
    (f ++ g).blockMarks = f.blockMarks ++ g.blockMarks := by
  simp [blockMarks]

@[simp] theorem Fragment.blockMarks_ops (create : List CreateOp) (update : List UpdateOp) :
    (Fragment.mk create update []).blockMarks = create.flatMap CreateOp.blockMarks := rfl

theorem CreateOp.declaredViews_eq_embeds (op : CreateOp) :
    op.declaredViews = op.embeds.map Prod.fst := by
  cases op with
  | repeaterCreate op => simp [declaredViews, embeds, Function.comp_def]
  | projection op => simp [declaredViews, embeds, Function.comp_def]
  | _ => rfl

theorem CreateOp.blockMarks_eq_nil {op : CreateOp} (hfeatures : op.features = [])
    (hmarks : op.marks = []) : op.blockMarks = [] ∧ op.start? = none := by
  have hviews : op.embeds = [] := by
    have hdeclared := op.declaredViews_eq_embeds
    rw [declaredViews_eq, hfeatures, List.filterMap_nil] at hdeclared
    exact List.map_eq_nil_iff.1 hdeclared.symm
  cases op with
  | i18nStart op => simp [marks] at hmarks
  | i18nEnd op => simp [marks] at hmarks
  | _ => exact ⟨by simp only [blockMarks, hviews, List.map_nil], rfl⟩

/-! ## Where blocks may start -/

/-- A place of a template, by the blocks around it: outside of all blocks, in a block of the same
view, or in a view below a block.  Of a place in `free` nothing is known. -/
inductive Region
  | free
  | outside
  | block
  | inside

/-- A block may start here; it is a root without a number. -/
inductive Region.Opens (op : I18nStart) : Region → Region → Prop
  | free : Opens op .free .free
  | outside (hroot : op.root = op.xref) (hindex : op.subTemplateIndex = none) :
      Opens op .outside .block

inductive Region.Closes : Region → Region → Prop
  | free : Closes .free .free
  | block : Closes .block .outside

def Region.below : Region → Region
  | .block => .inside
  | region => region

def Region.after : Region → Region
  | .block => .outside
  | region => region

def Region.within : Region → Region
  | .outside => .inside
  | region => region

theorem Region.below_eq {region : Region} (h : region ≠ .block) : region.below = region := by
  cases region with
  | block => exact absurd rfl h
  | _ => rfl

theorem Region.after_eq {region : Region} (h : region ≠ .block) : region.after = region := by
  cases region with
  | block => exact absurd rfl h
  | _ => rfl

/-! ## Forests -/

/-- The marks of a view, and the views declared there with all the views below them.  Each view is
followed by the views below it.  A view that stands for a placeholder does not start with a block of
its own. -/
inductive Forest : Region → List BlockMark → List View → Prop
  | nil {region : Region} (hregion : region ≠ .block) : Forest region [] []
  | start {region region' : Region} {op : I18nStart} {marks : List BlockMark} {views : List View}
      (hopens : region.Opens op region') (hrest : Forest region' marks views) :
      Forest region (.start op :: marks) views
  | stop {region region' : Region} {marks : List BlockMark} {views : List View}
      (hcloses : region.Closes region') (hrest : Forest region' marks views) :
      Forest region (.stop :: marks) views
  | view {region : Region} {view : View} {placed : Bool} {marks : List BlockMark}
      {below rest : List View}
      (hplaced : placed = true → view.create.toList.head?.bind CreateOp.start? = none)
      (hbelow : Forest region.below view.blockMarks below) (hrest : Forest region marks rest) :
      Forest region (.view view.xref placed :: marks) (view :: (below ++ rest))

namespace Forest

variable {region : Region} {marks marks' : List BlockMark} {views views' : List View}

theorem append (h : Forest region marks views) (h' : Forest region.after marks' views') :
    Forest region (marks ++ marks') (views ++ views') := by
  induction h with
  | nil hregion => rwa [Region.after_eq hregion] at h'
  | start hopens _ ih =>
    refine .start hopens ?_
    cases hopens with
    | free => exact ih h'
    | outside => exact ih h'
  | stop hcloses _ ih =>
    refine .stop hcloses ?_
    cases hcloses with
    | free => exact ih h'
    | block => exact ih h'
  | view hplaced hbelow _ _ ih =>
    rw [List.cons_append, List.cons_append, List.append_assoc]
    exact .view hplaced hbelow (ih h')

theorem closed (h : Forest .inside marks views) : Forest .block (marks ++ [.stop]) views := by
  generalize hregion : Region.inside = region at h
  induction h with
  | nil => exact .stop .block (.nil (by simp))
  | start hopens => cases hregion ▸ hopens
  | stop hcloses => cases hregion ▸ hcloses
  | view hplaced hbelow _ _ ih =>
    subst hregion
    exact .view hplaced hbelow (ih rfl)

theorem enclosed (h : Forest .free marks views) (op : I18nStart) :
    Forest .free (.start op :: (marks ++ [.stop])) views := by
  have hstop : Forest .free [.stop] [] := .stop .free (.nil (by simp))
  simpa using Forest.start .free (h.append hstop)

theorem enclose {op : I18nStart} (h : Forest region.within marks views)
    (hregion : region = .free ∨ region = .outside) (hroot : op.root = op.xref)
    (hindex : op.subTemplateIndex = none) :
    Forest region (.start op :: (marks ++ [.stop])) views := by
  rcases hregion with rfl | rfl
  · exact h.enclosed op
  · exact .start (.outside hroot hindex) h.closed

theorem one {view : View} {placed : Bool} {below : List View}
    (hplaced : placed = true → view.create.toList.head?.bind CreateOp.start? = none)
    (hbelow : Forest region view.blockMarks below) (hregion : region ≠ .block) :
    Forest region [.view view.xref placed] (view :: below) := by
  have hview := Forest.view hplaced ((Region.below_eq hregion).symm ▸ hbelow) (.nil hregion)
  rwa [List.append_nil] at hview

end Forest

/-! ## Messages of a template -/

namespace Template

/-- The node stands in the sequence, at any depth. -/
inductive Within (node : Node) : List Node → Prop
  | here {nodes : List Node} (h : node ∈ nodes) : Within node nodes
  | deeper {nodes inner : List Node} {outer : Node} (houter : outer ∈ nodes)
      (hinner : inner ∈ outer.sequences) (h : Within node inner) : Within node nodes

def isMessage : Option I18n.Meta → Bool
  | some (.message _) => true
  | _ => false

theorem exists_of_isMessage {i18n : Option I18n.Meta} (h : isMessage i18n = true) :
    ∃ message, i18n = some (.message message) := by
  unfold isMessage at h
  split at h
  · exact ⟨_, rfl⟩
  · cases h

/-- Whether the node is the root of a message: an element or an explicit template with one. -/
def Node.carriesMessage : Node → Bool
  | .element e => isMessage e.i18n
  | .template t => isPlainTemplate t.tagName && isMessage t.i18n
  | _ => false

def MessageFree (nodes : List Node) : Prop :=
  ∀ node, Within node nodes → node.carriesMessage = false

/-- No message stands inside another. -/
def MessagesApart (nodes : List Node) : Prop :=
  ∀ outer, Within outer nodes → outer.carriesMessage = true →
    ∀ inner ∈ outer.sequences, MessageFree inner

section Within

variable {node first : Node} {nodes : List Node}

theorem not_within_nil : ¬Within node [] := by
  intro h
  cases h with
  | here hmem => simp at hmem
  | deeper houter => simp at houter

theorem within_cons : Within node (first :: nodes) ↔
    node = first ∨ (∃ inner ∈ first.sequences, Within node inner) ∨ Within node nodes := by
  constructor
  · intro h
    cases h with
    | here hmem => exact (List.mem_cons.1 hmem).imp_right fun hmem => .inr (.here hmem)
    | deeper houter hinner h =>
      rcases List.mem_cons.1 houter with rfl | houter
      · exact .inr (.inl ⟨_, hinner, h⟩)
      · exact .inr (.inr (.deeper houter hinner h))
  · rintro (rfl | ⟨inner, hinner, h⟩ | h)
    · exact .here List.mem_cons_self
    · exact .deeper List.mem_cons_self hinner h
    · cases h with
      | here hmem => exact .here (List.mem_cons_of_mem _ hmem)
      | deeper houter hinner h => exact .deeper (List.mem_cons_of_mem _ houter) hinner h

theorem messageFree_nil : MessageFree [] :=
  fun _ h => absurd h not_within_nil

theorem messageFree_cons : MessageFree (first :: nodes) ↔
    first.carriesMessage = false ∧ (∀ inner ∈ first.sequences, MessageFree inner) ∧
      MessageFree nodes := by
  simp only [MessageFree, within_cons]
  grind

theorem messagesApart_nil : MessagesApart [] :=
  fun _ h => absurd h not_within_nil

theorem messagesApart_cons : MessagesApart (first :: nodes) ↔
    (first.carriesMessage = true → ∀ inner ∈ first.sequences, MessageFree inner) ∧
      (∀ inner ∈ first.sequences, MessagesApart inner) ∧ MessagesApart nodes := by
  simp only [MessagesApart, within_cons]
  grind

end Within

end Template

/-- The messages of the nodes are such that the nodes may stand here. -/
def Region.Admits (region : Region) (nodes : List Template.Node) : Prop :=
  match region with
  | .free => True
  | .outside => Template.MessagesApart nodes
  | .block => False
  | .inside => Template.MessageFree nodes

/-- The place of what stands in a node here. -/
def Region.ofContent (region : Region) (message : Bool) : Region :=
  if message then region.within else region

namespace Region

variable {region : Region} {node : Template.Node} {nodes inner : List Template.Node}

theorem Admits.ne_block (h : region.Admits nodes) : region ≠ .block := by
  rintro rfl
  exact h

theorem Admits.tail (h : region.Admits (node :: nodes)) : region.Admits nodes := by
  cases region with
  | free => trivial
  | outside => exact (Template.messagesApart_cons.1 h).2.2
  | block => exact h
  | inside => exact (Template.messageFree_cons.1 h).2.2

theorem Admits.starts (h : region.Admits (node :: nodes)) (hmessage : node.carriesMessage = true) :
    region = .free ∨ region = .outside := by
  cases region with
  | free => exact .inl rfl
  | outside => exact .inr rfl
  | block => exact h.elim
  | inside =>
    have hfree := (Template.messageFree_cons.1 h).1
    rw [hmessage] at hfree
    cases hfree

theorem Admits.content (h : region.Admits (node :: nodes)) (hinner : inner ∈ node.sequences) :
    (region.ofContent node.carriesMessage).Admits inner := by
  cases region with
  | free => cases node.carriesMessage <;> trivial
  | outside =>
    obtain ⟨hfree, hapart, -⟩ := Template.messagesApart_cons.1 h
    cases hmessage : node.carriesMessage with
    | false => exact hapart inner hinner
    | true => exact hfree hmessage inner hinner
  | block => exact h.elim
  | inside =>
    have hfree := (Template.messageFree_cons.1 h).2.1 inner hinner
    cases node.carriesMessage <;> exact hfree

end Region

/-! ## Fragments -/

/-- The views of the fragment are in document order, and its operations do not start with a
block. -/
structure Fragment.Planted (region : Region) (f : Fragment) : Prop where
  forest : Forest region f.blockMarks f.views
  first : f.create.head?.bind CreateOp.start? = none

section Planted

variable {region : Region} {facts : JobFacts} {view : Xref} {s t : Ids} {f g : Fragment}

theorem Fragment.Planted.append (hregion : region ≠ .block) (hf : f.Planted region)
    (hg : g.Planted region) : (f ++ g).Planted region := by
  constructor
  · rw [blockMarks_append, views_append]
    exact hf.forest.append ((Region.after_eq hregion).symm ▸ hg.forest)
  · have hfirst := hf.first
    rw [create_append]
    cases hcreate : f.create with
    | nil => exact hg.first
    | cons op ops =>
      rw [hcreate] at hfirst
      exact hfirst

theorem Fragment.Plain.blockMarks_eq (h : f.Plain s t) : f.blockMarks = [] := by
  rw [blockMarks, List.flatMap_eq_nil_iff]
  intro op hop
  obtain ⟨-, hfeatures, hmarks⟩ := h.create op hop
  exact (CreateOp.blockMarks_eq_nil hfeatures hmarks).1

theorem Fragment.Plain.first (h : f.Plain s t) : f.create.head?.bind CreateOp.start? = none := by
  cases hcreate : f.create with
  | nil => rfl
  | cons op ops =>
    obtain ⟨-, hfeatures, hmarks⟩ := h.create op (hcreate ▸ List.mem_cons_self)
    exact (CreateOp.blockMarks_eq_nil hfeatures hmarks).2

theorem Fragment.Plain.planted (h : f.Plain s t) (hregion : region ≠ .block) :
    f.Planted region := by
  refine ⟨?_, h.first⟩
  rw [h.blockMarks_eq, h.views]
  exact .nil hregion

theorem planted_of_eq {marks : List BlockMark} {views : List View}
    (hforest : Forest region marks views) (hmarks : f.blockMarks = marks) (hviews : f.views = views)
    (hfirst : f.create.head?.bind CreateOp.start? = none) : f.Planted region := by
  subst hmarks hviews
  exact ⟨hforest, hfirst⟩

@[simp] theorem Fragment.blockMarks_embed (ids : ViewIds) (content : Fragment)
    (contextVariables : OrderedMap String String) (aliases : List AliasVariable) :
    (embed ids view content contextVariables aliases).blockMarks = [] := rfl

theorem forest_embed {content : Fragment} {placed : Bool}
    (hcontent : Forest region content.blockMarks content.views)
    (hplaced : placed = true → content.create.head?.bind CreateOp.start? = none)
    (hregion : region ≠ .block) (ids : ViewIds) (view : Xref)
    (contextVariables : OrderedMap String String) (aliases : List AliasVariable) :
    Forest region [.view ids.xref placed]
      (embed ids view content contextVariables aliases).views := by
  have htoList := (OpList.lists_ofList ids.createList content.create).toList
  let inner : View :=
    { ids.view (some view) content.create content.update with contextVariables, aliases }
  have hplaced' : placed = true → inner.create.toList.head?.bind CreateOp.start? = none := by
    rwa [show inner.create.toList = content.create from htoList]
  have hcontent' : Forest region inner.blockMarks content.views := by
    rwa [View.blockMarks, show inner.create.toList = content.create from htoList]
  exact Forest.one hplaced' hcontent' hregion

end Planted

/-! ## Elements and templates -/

section Lowering

variable {region : Region} {facts : JobFacts} {view : Xref} {s t : Ids} {f : Fragment}

def PlantedIn (region : Region) (_ : Xref) (_ : List Template.Node) (_ : Ids) (f : Fragment)
    (_ : Ids) : Prop :=
  f.Planted region

/-- The operations around the content of a node: a block if it is a message, which stands for no
placeholder then. -/
structure Bracketing (region : Region) (message placed : Bool) (opening closing : List CreateOp) :
    Prop where
  forest : ∀ {marks views}, Forest (region.ofContent message) marks views →
    Forest region (opening.flatMap CreateOp.blockMarks ++ marks ++
      closing.flatMap CreateOp.blockMarks) views
  first : placed = true → opening = [] ∧ closing = []

theorem bracketing_nil (region : Region) (placed : Bool) :
    Bracketing region false placed [] [] :=
  ⟨fun h => by simpa [Region.ofContent] using h, fun _ => ⟨rfl, rfl⟩⟩

theorem isNone_of_tagPlaceholderOf {message : I18n.Message} {node : String} {span : SourceSpan}
    {placeholder : Option I18n.TagPlaceholder}
    (h : Yields (tagPlaceholderOf (some (.message message)) node span) s placeholder t) :
    placeholder.isSome = false := by
  obtain ⟨rfl, -⟩ := yields_pure.1 h
  rfl

theorem bracketing_of_lowerBlockBrackets {i18n : Option I18n.Meta} {node : String}
    {span startSpan : SourceSpan} {endSpan : Option SourceSpan} {opening closing : List CreateOp}
    {s' t' : Ids} {placeholder : Option I18n.TagPlaceholder}
    (hregion : Template.isMessage i18n = true → region = .free ∨ region = .outside)
    (hplaceholder : Yields (tagPlaceholderOf i18n node span) s placeholder t)
    (h : Yields (lowerBlockBrackets i18n startSpan endSpan) s' (opening, closing) t') :
    Bracketing region (Template.isMessage i18n) placeholder.isSome opening closing := by
  cases hmessage : Template.isMessage i18n with
  | false =>
    unfold lowerBlockBrackets at h
    split at h
    · cases hmessage
    · obtain ⟨rfl, rfl⟩ := Prod.mk.inj (yields_pure.1 h).1.symm
      exact bracketing_nil region _
  | true =>
    obtain ⟨message, rfl⟩ := Template.exists_of_isMessage hmessage
    simp only [lowerBlockBrackets, yields_bind, yields_freshXref, yields_pure, Prod.mk.injEq] at h
    obtain ⟨_, _, -, ⟨rfl, rfl⟩, -⟩ := h
    refine ⟨fun hforest => hforest.enclose (hregion hmessage) rfl rfl, ?_⟩
    rw [isNone_of_tagPlaceholderOf hplaceholder]
    simp

section Planting

variable {ids : ViewIds} {content : Fragment} (hregion : region ≠ .block)

include hregion

theorem planted_template {op : TemplateOp} {u v : Ids} {bindings : Fragment} {message : Bool}
    {opening closing : List CreateOp} (hbindings : bindings.Plain u v)
    (hcontent : content.Planted (region.ofContent message))
    (hbrackets : Bracketing region message op.placeholder.isSome opening closing)
    (hop : op.xref = ids.xref) (contextVariables : OrderedMap String String) :
    (Fragment.mk [.template op] [] [] ++ bindings ++
      embed ids view (Fragment.mk opening [] [] ++ content ++ Fragment.mk closing [] [])
        contextVariables []).Planted region := by
  have hforest : Forest region
      (Fragment.mk opening [] [] ++ content ++ Fragment.mk closing [] []).blockMarks
      (Fragment.mk opening [] [] ++ content ++ Fragment.mk closing [] []).views := by
    simpa using hbrackets.forest hcontent.forest
  have hfirst : op.placeholder.isSome = true → (Fragment.mk opening [] [] ++ content ++
      Fragment.mk closing [] []).create.head?.bind CreateOp.start? = none := by
    intro hplaced
    obtain ⟨rfl, rfl⟩ := hbrackets.first hplaced
    simpa using hcontent.first
  refine planted_of_eq (forest_embed hforest hfirst hregion ids view contextVariables []) ?_ ?_ rfl
  · simp [hbindings.blockMarks_eq, CreateOp.blockMarks, CreateOp.embeds, hop]
  · simp [hbindings.views]

theorem Fragment.Planted.embedded (h : content.Planted region) (ids : ViewIds) (view : Xref)
    (placed : Bool) (contextVariables : OrderedMap String String) (aliases : List AliasVariable) :
    Forest region [.view ids.xref placed]
      (embed ids view content contextVariables aliases).views :=
  forest_embed h.forest (fun _ => h.first) hregion ids view contextVariables aliases

theorem planted_fallback {op : ProjectionOp} {fallback : Fragment} {bindings : List UpdateOp}
    (hfallback : fallback.Planted region) (hview : op.fallbackView = some ids.xref) :
    (embed ids view fallback {} [] ++ Fragment.mk [.projection op] bindings []).Planted region := by
  have hforest := hfallback.embedded hregion ids view op.placeholder.isSome {} []
  refine planted_of_eq hforest ?_ (by simp) rfl
  simp [CreateOp.blockMarks, CreateOp.embeds, hview]

/-! ## Branches -/

theorem planted_branch {copies others : Fragment} {op : BranchOp} (hcopies : copies.Plain s t)
    (hcontent : content.Planted region) (hothers : others.Planted region) (hop : op.xref = ids.xref)
    (isFirst : Bool) (contextVariables : OrderedMap String String) :
    (copies ++ Fragment.mk [branchOp isFirst op] [] [] ++
      embed ids view content contextVariables [] ++ others).Planted region := by
  have hforest := hcontent.embedded hregion ids view op.placeholder.isSome contextVariables []
  have hmarks : (branchOp isFirst op).blockMarks = [.view ids.xref op.placeholder.isSome] := by
    rw [← hop]
    cases isFirst <;> rfl
  have hbranch : (Fragment.mk [branchOp isFirst op] [] [] ++
      embed ids view content contextVariables []).Planted region := by
    refine planted_of_eq hforest (by simp [hmarks]) (by simp) ?_
    cases isFirst <;> rfl
  have hplanted := ((hcopies.planted hregion).append hregion hbranch).append hregion hothers
  rwa [← append_assoc] at hplanted

theorem BranchLowering.planted {isFirst : Bool} {sequences : List (List Template.Node)}
    {cases : List ConditionalCase}
    (h : BranchLowering facts (PlantedIn region) view isFirst sequences s f cases t) :
    f.Planted region := by
  induction h with
  | nil => exact ⟨.nil hregion, rfl⟩
  | cons isFirst contextVariables _ hcopies _ hcontent _ hop _ ih =>
    exact planted_branch hregion (attached_branchRoot view hcopies).2.plain hcontent ih hop isFirst
      contextVariables

theorem BlockLowering.planted {sequences : List (List Template.Node)}
    (h : BlockLowering facts (PlantedIn region) view sequences s f t) : f.Planted region := by
  cases h with
  | nil => exact ⟨.nil hregion, rfl⟩
  | cons test hbranches =>
    have hbranches := hbranches.planted hregion
    exact planted_of_eq hbranches.forest (by simp) (by simp) (by simpa using hbranches.first)

/-! ## Loops -/

theorem EmptyLowering.planted {part : Option (List Template.Node)} {emptyView : Option Xref}
    (h : EmptyLowering (PlantedIn region) view part s emptyView f t) (placed : Bool) :
    f.blockMarks = [] ∧ f.create.head?.bind CreateOp.start? = none ∧
      Forest region (emptyView.toList.map fun xref => .view xref placed) f.views := by
  cases h with
  | absent => exact ⟨rfl, rfl, .nil hregion⟩
  | present ids _ hcontent hcopies =>
    have hcopies := (attached_branchRoot view hcopies).2.plain
    have hforest := Fragment.Planted.embedded hregion hcontent ids view placed {} []
    refine ⟨by simp [hcopies.blockMarks_eq], ?_, by simpa [hcopies.views] using hforest⟩
    simpa [embed] using hcopies.first

theorem planted_repeater {op : RepeaterCreate} {repeater : RepeaterOp} {other copies : Fragment}
    (hcontent : content.Planted region)
    (hother : other.blockMarks = [] ∧ other.create.head?.bind CreateOp.start? = none ∧
      Forest region (op.emptyView.toList.map fun xref => .view xref op.emptyPlaceholder.isSome)
        other.views) (hcopies : copies.Plain s t) (hop : op.xref = ids.xref)
    (contextVariables : OrderedMap String String) (aliases : List AliasVariable) :
    (embed ids view content contextVariables aliases ++ other ++ copies ++
      Fragment.mk [.repeaterCreate op] [.repeater repeater] []).Planted region := by
  have hitem := hcontent.embedded hregion ids view op.placeholder.isSome contextVariables aliases
  obtain ⟨hmarks, hfirst, hempty⟩ := hother
  refine planted_of_eq (hitem.append ((Region.after_eq hregion).symm ▸ hempty)) ?_ ?_ ?_
  · simp [hmarks, hcopies.blockMarks_eq, CreateOp.blockMarks, CreateOp.embeds, hop]
  · simp [hcopies.views]
  · have hcopiesFirst := hcopies.first
    cases hcreate : other.create with
    | cons first rest => simpa [embed, hcreate] using hfirst
    | nil =>
      cases hcreate' : copies.create with
      | cons first rest => simpa [embed, hcreate, hcreate'] using hcopiesFirst
      | nil => simp [embed, hcreate, hcreate', CreateOp.start?]

/-! ## Deferred blocks -/

theorem PartLowering.planted {part : Option (List Template.Node)} {partView : Option Xref}
    (h : PartLowering (PlantedIn region) view part s partView f t) : f.Planted region := by
  cases h with
  | absent => exact ⟨.nil hregion, rfl⟩
  | present ids suffix placeholder block _ hcontent =>
    have hforest := Fragment.Planted.embedded hregion hcontent ids view
      (placeholder.map ViewPlaceholder.block).isSome {} []
    exact planted_of_eq hforest rfl (by simp [embedDeferred]) rfl

theorem planted_defer (op : DeferOp) (on : List DeferOnOp) (update : List UpdateOp) :
    (Fragment.mk (.defer op :: on.map .deferOn) update []).Planted region := by
  refine planted_of_eq (.nil hregion) ?_ rfl rfl
  rw [blockMarks_ops, List.flatMap_cons, List.flatMap_map]
  exact List.flatMap_eq_nil_iff.2 fun trigger _ => rfl

/-! ## Nodes -/

theorem lowerIcu_planted {icu : Template.Icu} (h : Yields (lowerIcu facts icu) s f t) :
    f.Planted region := by
  obtain ⟨start, texts, -, -, htexts, rfl⟩ := exists_of_lowerIcu h
  have htexts := htexts.plain
  refine planted_of_eq (.nil hregion) ?_ ?_ rfl
  · simp [htexts.blockMarks_eq, CreateOp.blockMarks, CreateOp.embeds]
  · simp [htexts.views]

theorem NodeLowering.planted {node : Template.Node}
    (hmessage : node.carriesMessage = true → region = .free ∨ region = .outside)
    (h : NodeLowering facts (PlantedIn (region.ofContent node.carriesMessage)) view node s f t) :
    f.Planted region := by
  cases h with
  | comment => exact (plain_empty s).planted hregion
  | text h => exact (textLowering_lowerText view h).plain.planted hregion
  | boundText h => exact (textLowering_lowerBoundText h).plain.planted hregion
  | icu h => exact lowerIcu_planted hregion h
  | letDeclaration h => exact (lowerLet_plain h).planted hregion
  | element hplaceholder hbindings hbrackets hcontent =>
    have hbindings := (attached_elementBindings hbindings).plain
    have hbrackets := bracketing_of_lowerBlockBrackets hmessage hplaceholder hbrackets
    refine planted_of_eq (hbrackets.forest hcontent.forest) ?_ ?_ rfl
    · simp [hbindings.blockMarks_eq, CreateOp.blockMarks, CreateOp.embeds]
    · simp [hbindings.views]
  | template template contextVariables hplaceholder _ hbindings hcontent hbrackets hop _ hplaced =>
    refine planted_template hregion (attached_templateBindings hbindings).plain hcontent ?_ hop _
    rw [hplaced, Template.Node.carriesMessage]
    rw [Template.Node.carriesMessage] at hmessage
    cases hplain : isPlainTemplate template.tagName with
    | true =>
      rw [hplain] at hbrackets hmessage
      exact bracketing_of_lowerBlockBrackets hmessage hplaceholder hbrackets
    | false =>
      rw [hplain] at hbrackets
      obtain ⟨heq, -⟩ := yields_pure.1 hbrackets
      obtain ⟨rfl, rfl⟩ := Prod.mk.inj heq
      exact bracketing_nil region _
  | content _ _ hview =>
    refine planted_of_eq (.nil hregion) ?_ rfl rfl
    simp [CreateOp.blockMarks, CreateOp.embeds, hview]
  | contentFallback _ _ hcontent _ hview =>
    exact planted_fallback hregion hcontent hview
  | ifBlock h => exact h.planted hregion
  | switchBlock h => exact h.planted hregion
  | forBlock _ _ _ hcontent hempty hcopies _ hop =>
    exact planted_repeater hregion hcontent (hempty.planted hregion _)
      (attached_branchRoot view hcopies).2.plain hop _ _
  | deferBlock hmain hloading hplaceholder herror =>
    have hparts := (((hmain.planted hregion).append hregion (hloading.planted hregion)).append
      hregion (hplaceholder.planted hregion)).append hregion (herror.planted hregion)
    exact hparts.append hregion (planted_defer hregion _ _ _)

end Planting

theorem lowerNodes_planted {nodes : List Template.Node} (h : region.Admits nodes)
    (hyields : Yields (lowerNodes facts view nodes) s f t) : f.Planted region := by
  refine lowerNodes_induction
    (motive := fun _ nodes _ f _ => ∀ region : Region, region.Admits nodes → f.Planted region)
    ?_ ?_ hyields region h
  · intro view s region hregion
    exact ⟨.nil hregion.ne_block, rfl⟩
  · intro view node nodes s u t f g hnode hothers region hregion
    have hinner := hnode.mono fun inner hinner _ _ _ _ h => h _ (hregion.content hinner)
    exact (hinner.planted hregion.ne_block hregion.starts).append hregion.ne_block
      (hothers region hregion.tail)

end Lowering

end TemplateLowering
