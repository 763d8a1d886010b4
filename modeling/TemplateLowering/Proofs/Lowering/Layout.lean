import TemplateLowering.Proofs.Job.Intact

/-!
# The layout of lowered operations

How the operations of one view are put together, said once for all kinds of nodes.  A node adds a
run of create operations and a run of update operations; the operations of its attributes and
events stand next to the operation that they belong to; and the content of elements, messages and
ICU expressions stands between a start and an end.  Embedded views take no part in the layout of
the view around them, but have the same layout themselves.
-/

namespace TemplateLowering

variable {facts : JobFacts} {root target view : Xref} {s t : Ids} {f g : Fragment}
  {create create' : List CreateOp} {update update' : List UpdateOp}
variable {bindings content copies : Fragment}

/-! ## Operations of attributes and events -/

inductive CreateOp.BoundTo (root target : Xref) : CreateOp → Prop
  | listener {slot : Slot} {tag : Option String} {event : Template.BoundEvent} {s t : Ids}
      {op : Listener} (h : Yields (lowerListener root target slot tag event) s op t) :
      BoundTo root target (.listener op)
  | extractedAttribute {op : ExtractedAttribute} (h : op.target = target) :
      BoundTo root target (.extractedAttribute op)
  | i18nAttributes {op : I18nAttributesOp} (h : op.target = target) :
      BoundTo root target (.i18nAttributes op)

structure Binds (root target : Xref) (create : List CreateOp) (update : List UpdateOp) :
    Prop where
  create : ∀ op ∈ create, op.BoundTo root target
  update : ∀ op ∈ update, ∃ binding : Binding, op = .binding binding ∧ binding.target = target

theorem binds_nil (root target : Xref) : Binds root target [] [] :=
  ⟨by simp, by simp⟩

def BindsEmpty (root : Xref) : Option Xref → List CreateOp → List UpdateOp → Prop
  | none, create, update => create = [] ∧ update = []
  | some target, create, update => Binds root target create update

/-! ## Layouts -/

/-- The branches of an `@if` or `@switch` block with the given targets. -/
inductive BranchLayout (root : Xref) : Bool → List Xref → List CreateOp → List UpdateOp → Prop
  | nil {isFirst : Bool} : BranchLayout root isFirst [] [] []
  | cons {isFirst : Bool} {targets : List Xref} {op : BranchOp} {copies create : List CreateOp}
      {bindings update : List UpdateOp} (hcopies : Binds root op.xref copies bindings)
      (h : BranchLayout root false targets create update) :
      BranchLayout root isFirst (op.xref :: targets) (copies ++ branchOp isFirst op :: create)
        (bindings ++ update)

/-- The create and update operations that a sequence of nodes adds to its view. -/
inductive Layout (root : Xref) : List CreateOp → List UpdateOp → Prop
  | nil : Layout root [] []
  | append {create create' : List CreateOp} {update update' : List UpdateOp}
      (h : Layout root create update) (h' : Layout root create' update') :
      Layout root (create ++ create') (update ++ update')
  | text (op : TextOp) : Layout root [.text op] []
  | boundText {op : TextOp} {new : InterpolateTextOp} (h : new.target = op.xref) :
      Layout root [.text op] [.interpolateText new]
  | declaration {op : DeclareLet} {store : StoreLetOp} (htarget : store.target = op.xref)
      (hname : store.name = op.name) : Layout root [.declareLet op] [.storeLet store]
  | icu {create : List CreateOp} {update : List UpdateOp} (start : IcuStart)
      (h : Layout root create update) :
      Layout root (.icuStart start :: (create ++ [.icuEnd start.xref])) update
  | message {create : List CreateOp} {update : List UpdateOp} {start : I18nStart} {stop : EndOp}
      (hstop : stop.xref = start.xref) (h : Layout root create update) :
      Layout root (.i18nStart start :: (create ++ [.i18nEnd stop])) update
  | element {create copies : List CreateOp} {update bindings : List UpdateOp}
      {start : ElementStart} {stop : EndOp} (hstop : stop.xref = start.xref)
      (hbindings : Binds root start.xref copies bindings) (h : Layout root create update) :
      Layout root (.elementStart start :: (copies ++ create ++ [.elementEnd stop]))
        (bindings ++ update)
  | template {op : TemplateOp} {copies : List CreateOp} {bindings : List UpdateOp}
      (hbindings : Binds root op.xref copies bindings) :
      Layout root (.template op :: copies) bindings
  | projection {op : ProjectionOp} {bindings : List UpdateOp}
      (hbindings : Binds root op.xref [] bindings) : Layout root [.projection op] bindings
  | conditional {create : List CreateOp} {update : List UpdateOp} {op : ConditionalOp}
      (h : BranchLayout root true (op.cases.map ConditionalCase.target) create update)
      (htarget : (op.cases.map ConditionalCase.target).head? = some op.target) :
      Layout root create (update ++ [.conditional op])
  | loop {op : RepeaterCreate} {new : RepeaterOp} {emptyCopies copies : List CreateOp}
      {emptyBindings bindings : List UpdateOp} (htarget : new.target = op.xref)
      (hempty : BindsEmpty root op.emptyView emptyCopies emptyBindings)
      (hcopies : Binds root op.xref copies bindings) :
      Layout root (emptyCopies ++ copies ++ [.repeaterCreate op])
        (emptyBindings ++ bindings ++ [.repeater new])
  | deferred {declarations : List TemplateOp} {op : DeferOp} {on : List DeferOnOp}
      {when_ : List DeferWhenOp}
      (hviews : op.mainView :: (op.loadingView.toList ++ op.placeholderView.toList ++
        op.errorView.toList) = declarations.map fun declaration => declaration.xref)
      (hon : ∀ trigger ∈ on, trigger.defer = op.xref)
      (hwhen : ∀ trigger ∈ when_, trigger.target = op.xref) :
      Layout root (declarations.map .template ++ .defer op :: on.map .deferOn)
        (when_.map .deferWhen)

def View.LaidOut (root : Xref) (view : View) : Prop :=
  Layout root view.create.toList view.update.toList

structure Fragment.LaidOut (root : Xref) (f : Fragment) : Prop where
  ops : Layout root f.create f.update
  views : ∀ inner ∈ f.views, inner.LaidOut root

namespace Fragment

theorem laidOut_ops (h : Layout root create update) :
    (Fragment.mk create update []).LaidOut root :=
  ⟨h, by simp⟩

theorem LaidOut.append (hf : f.LaidOut root) (hg : g.LaidOut root) : (f ++ g).LaidOut root := by
  refine ⟨.append hf.ops hg.ops, ?_⟩
  intro inner hinner
  rcases List.mem_append.1 hinner with hinner | hinner
  · exact hf.views inner hinner
  · exact hg.views inner hinner

theorem laidOut_embed (h : content.LaidOut root) (ids : ViewIds) (view : Xref)
    (contextVariables : OrderedMap String String) (aliases : List AliasVariable) :
    (embed ids view content contextVariables aliases).LaidOut root := by
  refine ⟨.nil, ?_⟩
  intro inner hinner
  rcases List.mem_cons.1 hinner with rfl | hinner
  · have hcreate := (OpList.lists_ofList ids.createList content.create).toList
    have hupdate := (OpList.lists_ofList ids.updateList content.update).toList
    simpa only [View.LaidOut, ViewIds.view, hcreate, hupdate] using h.ops
  · exact h.views inner hinner

end Fragment

/-! ## Attributes, events and texts -/

theorem Binds.append (h : Binds root target create update)
    (h' : Binds root target create' update') :
    Binds root target (create ++ create') (update ++ update') :=
  ⟨List.forall_mem_append.2 ⟨h.create, h'.create⟩, List.forall_mem_append.2 ⟨h.update, h'.update⟩⟩

theorem Attached.binds (h : Attached root target s f t) : Binds root target f.create f.update := by
  induction h with
  | nil => exact binds_nil root target
  | append _ _ ihf ihg => exact ihf.append ihg
  | binding htarget => exact ⟨by simp, by simpa using htarget⟩
  | extractedAttribute htarget => exact ⟨by simpa using .extractedAttribute htarget, by simp⟩
  | listener h => exact ⟨by simpa using .listener h, by simp⟩
  | i18nAttributes htarget => exact ⟨by simpa using .i18nAttributes htarget, by simp⟩

theorem laidOut_empty (root : Xref) : ({} : Fragment).LaidOut root :=
  Fragment.laidOut_ops .nil

theorem TextLowering.laidOut {sketches : List Sketch} (h : TextLowering root sketches s f t) :
    f.LaidOut root := by
  induction h with
  | nil => exact laidOut_empty root
  | append _ _ ihf ihg => exact ihf.append ihg
  | text => exact Fragment.laidOut_ops (.text _)
  | boundText _ _ htarget => exact Fragment.laidOut_ops (.boundText htarget)

theorem lowerIcu_laidOut {icu : Template.Icu} (h : Yields (lowerIcu facts icu) s f t) :
    f.LaidOut facts.root := by
  obtain ⟨start, texts, -, -, htexts, rfl⟩ := exists_of_lowerIcu h
  have hcontent := htexts.laidOut
  refine ⟨?_, by simpa using hcontent.views⟩
  simpa using Layout.icu start hcontent.ops

theorem lowerLet_laidOut {declaration : Template.LetDeclaration}
    (h : Yields (lowerLet facts declaration) s f t) : f.LaidOut root := by
  simp only [lowerLet, yields_bind, yields_freshXref, yields_pure] at h
  obtain ⟨_, _, -, _, _, -, rfl, -⟩ := h
  exact Fragment.laidOut_ops (.declaration rfl rfl)

/-! ## Elements and templates -/

def LaidOutIn (facts : JobFacts) (_ : Xref) (_ : List Template.Node) (_ : Ids) (f : Fragment)
    (_ : Ids) : Prop :=
  f.LaidOut facts.root

theorem Layout.brackets {i18n : Option I18n.Meta} {startSpan : SourceSpan}
    {endSpan : Option SourceSpan} {opening closing : List CreateOp} (h : Layout root create update)
    (hbrackets : Yields (lowerBlockBrackets i18n startSpan endSpan) s (opening, closing) t) :
    Layout root (opening ++ create ++ closing) update := by
  unfold lowerBlockBrackets at hbrackets
  split at hbrackets
  · simp only [yields_bind, yields_freshXref, yields_pure, Prod.mk.injEq] at hbrackets
    obtain ⟨_, _, -, ⟨rfl, rfl⟩, -⟩ := hbrackets
    exact .message rfl h
  · simp only [yields_pure, Prod.mk.injEq] at hbrackets
    obtain ⟨⟨rfl, rfl⟩, -⟩ := hbrackets
    simpa using h

theorem laidOut_element {start : ElementStart} {stop : EndOp} {opening closing : List CreateOp}
    (hstop : stop.xref = start.xref)
    (hbindings : Binds root start.xref bindings.create bindings.update)
    (hviews : bindings.views = [])
    (hcontent : Layout root (opening ++ content.create ++ closing) content.update)
    (hinner : ∀ inner ∈ content.views, inner.LaidOut root) :
    (Fragment.mk [.elementStart start] [] [] ++ bindings ++ Fragment.mk opening [] [] ++ content ++
      Fragment.mk (closing ++ [.elementEnd stop]) [] []).LaidOut root := by
  refine ⟨?_, by simpa [hviews] using hinner⟩
  simpa using Layout.element hstop hbindings hcontent

theorem laidOut_template {op : TemplateOp}
    (hbindings : Binds root op.xref bindings.create bindings.update) (hviews : bindings.views = [])
    (hcontent : content.LaidOut root) (ids : ViewIds) (view : Xref)
    (contextVariables : OrderedMap String String) :
    (Fragment.mk [.template op] [] [] ++ bindings ++
      embed ids view content contextVariables []).LaidOut root := by
  refine .append ⟨?_, by simp [hviews]⟩ (Fragment.laidOut_embed hcontent _ _ _ _)
  exact .template hbindings

/-! ## Branches -/

structure Fragment.BranchesLaidOut (root : Xref) (isFirst : Bool) (f : Fragment)
    (cases : List ConditionalCase) : Prop where
  ops : BranchLayout root isFirst (cases.map ConditionalCase.target) f.create f.update
  views : ∀ inner ∈ f.views, inner.LaidOut root

theorem Fragment.BranchesLaidOut.cons {isFirst : Bool} {cases : List ConditionalCase}
    {others : Fragment} {op : BranchOp} {branch : ConditionalCase} {ids : ViewIds}
    (hothers : others.BranchesLaidOut root false cases)
    (hcopies : Binds root ids.xref copies.create copies.update) (hnone : copies.views = [])
    (hcontent : content.LaidOut root) (hop : op.xref = ids.xref)
    (htarget : branch.target = ids.xref) (view : Xref)
    (contextVariables : OrderedMap String String) :
    (copies ++ Fragment.mk [branchOp isFirst op] [] [] ++
      embed ids view content contextVariables [] ++ others).BranchesLaidOut root isFirst
        (branch :: cases) := by
  constructor
  · rw [← hop] at hcopies htarget
    rw [List.map_cons, htarget]
    simpa [embed] using BranchLayout.cons hcopies hothers.ops
  · have hembedded := Fragment.laidOut_embed hcontent ids view contextVariables []
    intro inner hinner
    simp only [views_append, hnone, List.nil_append, List.mem_append] at hinner
    rcases hinner with hinner | hinner
    · exact hembedded.views inner hinner
    · exact hothers.views inner hinner

theorem BranchLowering.laidOut {isFirst : Bool} {sequences : List (List Template.Node)}
    {cases : List ConditionalCase}
    (h : BranchLowering facts (LaidOutIn facts) view isFirst sequences s f cases t) :
    f.BranchesLaidOut facts.root isFirst cases := by
  induction h with
  | nil => exact ⟨.nil, by simp⟩
  | cons _ contextVariables _ hcopies _ hcontent _ hop htarget ih =>
    have hcopies := (attached_branchRoot facts.root hcopies).2
    exact ih.cons hcopies.binds hcopies.plain.views hcontent hop htarget view contextVariables

theorem BlockLowering.laidOut {sequences : List (List Template.Node)}
    (h : BlockLowering facts (LaidOutIn facts) view sequences s f t) : f.LaidOut facts.root := by
  cases h with
  | nil => exact laidOut_empty facts.root
  | cons test hbranches _ htarget =>
    have hbranches := hbranches.laidOut
    refine ⟨?_, by simpa using hbranches.views⟩
    simpa using Layout.conditional hbranches.ops htarget

/-! ## Loops -/

theorem EmptyLowering.laidOut {part : Option (List Template.Node)} {emptyView : Option Xref}
    (h : EmptyLowering (LaidOutIn facts) view part s emptyView f t) :
    BindsEmpty facts.root emptyView f.create f.update ∧
      ∀ inner ∈ f.views, inner.LaidOut facts.root := by
  cases h with
  | absent => exact ⟨⟨rfl, rfl⟩, by simp⟩
  | present ids _ hcontent hcopies =>
    have hcopies := (attached_branchRoot facts.root hcopies).2
    constructor
    · simpa [embed, BindsEmpty] using hcopies.binds
    · simpa [hcopies.plain.views] using (Fragment.laidOut_embed hcontent ids view {} []).views

theorem laidOut_repeater {ids : ViewIds} {op : RepeaterCreate} {repeater : RepeaterOp}
    {other : Fragment} (hcontent : content.LaidOut root)
    (hother : BindsEmpty root op.emptyView other.create other.update)
    (hviews : ∀ inner ∈ other.views, inner.LaidOut root)
    (hcopies : Binds root ids.xref copies.create copies.update) (hnone : copies.views = [])
    (hop : op.xref = ids.xref) (htarget : repeater.target = ids.xref) (view : Xref)
    (contextVariables : OrderedMap String String) (aliases : List AliasVariable) :
    (embed ids view content contextVariables aliases ++ other ++ copies ++
      Fragment.mk [.repeaterCreate op] [.repeater repeater] []).LaidOut root := by
  constructor
  · rw [← hop] at hcopies htarget
    simpa [embed] using Layout.loop htarget hother hcopies
  · have hembedded := Fragment.laidOut_embed hcontent ids view contextVariables aliases
    intro inner hinner
    simp only [Fragment.views_append, hnone, List.append_nil, List.mem_append] at hinner
    rcases hinner with hinner | hinner
    · exact hembedded.views inner hinner
    · exact hviews inner hinner

/-! ## Deferred blocks -/

/-- The parts of a deferred block: their declarations, and views that are laid out. -/
structure Fragment.Declares (root : Xref) (targets : List Xref) (f : Fragment) : Prop where
  create : ∃ declarations : List TemplateOp, f.create = declarations.map .template ∧
    declarations.map (fun declaration => declaration.xref) = targets
  update : f.update = []
  views : ∀ inner ∈ f.views, inner.LaidOut root

theorem Fragment.Declares.append {targets targets' : List Xref} (hf : f.Declares root targets)
    (hg : g.Declares root targets') : (f ++ g).Declares root (targets ++ targets') := by
  obtain ⟨declarations, hcreate, htargets⟩ := hf.create
  obtain ⟨declarations', hcreate', htargets'⟩ := hg.create
  refine ⟨⟨declarations ++ declarations', ?_, ?_⟩, ?_, ?_⟩
  · simp [hcreate, hcreate']
  · simp [htargets, htargets']
  · simp [hf.update, hg.update]
  · intro inner hinner
    rcases List.mem_append.1 hinner with hinner | hinner
    · exact hf.views inner hinner
    · exact hg.views inner hinner

theorem PartLowering.declares {part : Option (List Template.Node)} {partView : Option Xref}
    (h : PartLowering (LaidOutIn facts) view part s partView f t) :
    f.Declares facts.root partView.toList := by
  cases h with
  | absent => exact ⟨⟨[], rfl, rfl⟩, rfl, by simp⟩
  | present ids suffix placeholder block _ hcontent =>
    refine ⟨⟨[_], rfl, rfl⟩, rfl, ?_⟩
    simpa [embedDeferred] using (Fragment.laidOut_embed hcontent ids view {} []).views

/-! ## Nodes -/

theorem NodeLowering.laidOut {node : Template.Node}
    (h : NodeLowering facts (LaidOutIn facts) view node s f t) : f.LaidOut facts.root := by
  cases h with
  | comment => exact laidOut_empty facts.root
  | text h => exact (textLowering_lowerText facts.root h).laidOut
  | boundText h => exact (textLowering_lowerBoundText h).laidOut
  | icu h => exact lowerIcu_laidOut h
  | letDeclaration h => exact lowerLet_laidOut h
  | element _ hbindings hbrackets hcontent _ _ hstop =>
    have hbindings := attached_elementBindings hbindings
    exact laidOut_element hstop hbindings.binds hbindings.plain.views
      (hcontent.ops.brackets hbrackets) hcontent.views
  | template _ contextVariables _ _ hbindings hcontent hbrackets hop =>
    have hbindings := attached_templateBindings hbindings
    refine laidOut_template (hop ▸ hbindings.binds) hbindings.plain.views ?_ _ _ _
    exact ⟨by simpa using hcontent.ops.brackets hbrackets, by simpa using hcontent.views⟩
  | content _ hbindings =>
    exact Fragment.laidOut_ops (.projection (attached_textAttributes _ hbindings).2.binds)
  | contentFallback _ _ hcontent hbindings =>
    exact (Fragment.laidOut_embed hcontent _ _ _ _).append
      (Fragment.laidOut_ops (.projection (attached_textAttributes _ hbindings).2.binds))
  | ifBlock h => exact h.laidOut
  | switchBlock h => exact h.laidOut
  | forBlock _ _ _ hcontent hempty hcopies _ hop htarget =>
    obtain ⟨hbinds, hviews⟩ := hempty.laidOut
    have hcopies := (attached_branchRoot facts.root hcopies).2
    exact laidOut_repeater hcontent hbinds hviews hcopies.binds hcopies.plain.views hop htarget view
      _ _
  | deferBlock hmain hloading hplaceholder herror htriggers =>
    have hparts := ((hmain.declares.append hloading.declares).append hplaceholder.declares).append
      herror.declares
    obtain ⟨declarations, hcreate, htargets⟩ := hparts.create
    obtain ⟨-, hon, hwhen⟩ := lowerAllTriggers_spec htriggers
    refine ⟨?_, by simpa using hparts.views⟩
    rw [Fragment.create_append, Fragment.update_append, hcreate, hparts.update, List.nil_append]
    exact .deferred (by simpa using htargets.symm) hon hwhen

theorem lowerNodes_laidOut {nodes : List Template.Node}
    (h : Yields (lowerNodes facts view nodes) s f t) : f.LaidOut facts.root :=
  lowerNodes_induction (motive := LaidOutIn facts) (fun _ _ => laidOut_empty facts.root)
    (fun hnode hothers => hnode.laidOut.append hothers) h

theorem Job.exists_laidOut {component : String} {template : List Template.Node}
    {options : Options} {job : Job} (h : Job.ofTemplate component template options = .ok job) :
    ∃ root, ∀ view ∈ job.units, view.LaidOut root := by
  obtain ⟨fragment, facts, hyields, hroot, hviews, -⟩ := exists_lowering h
  have hlaidOut := lowerNodes_laidOut hyields
  refine ⟨facts.root, ?_⟩
  intro view hview
  rw [units, hviews, List.mem_cons] at hview
  rcases hview with rfl | hview
  · rw [View.LaidOut, hroot.create.toList, hroot.update.toList]
    exact hlaidOut.ops
  · exact hlaidOut.views view hview

end TemplateLowering
