import TemplateLowering.Proofs.Lowering.Induction
import TemplateLowering.Proofs.Lowering.View

/-!
# Lowered nodes

Every fragment that lowering a node gives is `Lowered`.  Each kind of node is treated under the
assumption that its sequences of nodes lower well, and the induction over the lowering ties the
cases together.
-/

namespace TemplateLowering

open Fragment

variable {facts : JobFacts} {view : Xref} {s t : Ids} {f : Fragment}
variable {u v w : Ids} {bindings content copies : Fragment}

def LoweredIn (view : Xref) (_ : List Template.Node) (s : Ids) (f : Fragment) (t : Ids) : Prop :=
  view.index < s.nextXref → f.Lowered view s t

/-! ## Elements -/

theorem lowered_element {start : ElementStart} {stop : EndOp} {opening closing : List CreateOp}
    (hbindings : bindings.Plain { s with nextXref := s.nextXref + 1 } u)
    (hbrackets : Brackets u v opening closing) (hcontent : content.Lowered view v t)
    (hstart : start.xref = ⟨s.nextXref⟩) (hstop : stop.xref = start.xref) :
    (Fragment.mk [.elementStart start] [] [] ++ bindings ++ Fragment.mk opening [] [] ++ content ++
      Fragment.mk (closing ++ [.elementEnd stop]) [] []).Lowered view s t := by
  have hle := hbindings.grows.le
  have hle' := hbrackets.grows.le
  have hgrows := (((Grows.fresh s.nextXref).append hbindings.grows).append hbrackets.grows).append
    hcontent.grows
  rw [← hstart] at hgrows
  refine ⟨?_, ?_, ?_, ?_, ?_⟩
  · refine hgrows.subperm (fun _ => Nat.le_refl _) ?_
    intro x
    simp [CreateOp.xrefs, CreateOp.declared, CreateOp.exprs, CreateOp.lists, hbrackets.noXrefs,
      List.count_cons]
    omega
  · intro edge
    have hedge := hcontent.fits.edges edge
    simpa [hbindings.declarations_eq, hbindings.parentage_eq, hbrackets.declared,
      CreateOp.declaredViews] using hedge
  · refine (hcontent.fits.ordered.mono ?_ (Nat.le_refl _)).of_views_eq (by simp [hbindings.views])
    simp only at hle
    omega
  · refine .append (.append (.append (.append (sound_ops ?_ (by simp)) hbindings.sound)
      (sound_ops hbrackets.lowered.1 (by simp))) hcontent.fits.sound) (sound_ops ?_ (by simp))
    · simpa using CreateOp.lowered_of_lists_eq_nil rfl rfl rfl
    · intro op hop
      rcases List.mem_append.1 hop with hop | hop
      · exact hbrackets.lowered.2 op hop
      · obtain rfl := List.mem_singleton.1 hop
        exact CreateOp.lowered_of_lists_eq_nil rfl rfl rfl
  · have hnested :=
      (hbrackets.nested hcontent.fits.nested).enclose ⟨.element, start.xref⟩ (by simp)
    simpa [hbindings.marks_eq, CreateOp.marks, hstop] using hnested

/-! ## Templates -/

theorem lowered_template {ids : ViewIds} {op : TemplateOp} {opening closing : List CreateOp}
    (hview : view.index < s.nextXref) (hids : Yields (Ids.freshView : Lower ViewIds) s ids u)
    (hop : op.xref = ids.xref) (hbindings : bindings.Plain u v)
    (hcontent : content.Lowered ids.xref v w) (hbrackets : Brackets w t opening closing)
    (contextVariables : OrderedMap String String) :
    (Fragment.mk [.template op] [] [] ++ bindings ++
      embed ids view (Fragment.mk opening [] [] ++ content ++ Fragment.mk closing [] [])
        contextVariables []).Lowered view s t := by
  have hbracketed : (Fragment.mk opening [] [] ++ content ++ Fragment.mk closing [] []).Lowered
      ids.xref v t := by
    constructor
    · refine (hcontent.grows.append hbrackets.grows).subperm (fun _ => Nat.le_refl _) ?_
      intro x
      simp [hbrackets.noXrefs]
      omega
    · exact (hbrackets.fits hcontent.fits).mono (Nat.le_refl _) hbrackets.grows.le
  constructor
  · refine (grows_embedded hids hbindings.grows hbracketed view contextVariables []).subperm
      (fun _ => Nat.le_refl _) ?_
    intro x
    simp [CreateOp.xrefs, CreateOp.declared, CreateOp.exprs, CreateOp.lists]
  · have hlowered : (CreateOp.template op).Lowered :=
      CreateOp.lowered_of_lists_eq_nil rfl rfl rfl
    have hdeclared := (awaits_lowered hview hids hbindings.grows.le hbracketed contextVariables
      []).declared_before hlowered (by rw [CreateOp.declaredViews, hop]) rfl
    exact hdeclared.weave hbindings

/-! ## Content -/

theorem lowered_projection {op : ProjectionOp} {fallback : Fragment} {bindings : List UpdateOp}
    (hfallback : fallback.Awaits view s.nextXref u.nextXref op.fallbackView.toList)
    (hgrows : Grows s.nextXref u.nextXref [] fallback.xrefs) (hop : op.xref = ⟨u.nextXref⟩)
    (hbindings : (Fragment.mk [] bindings []).Plain t t) (ht : t.nextXref = u.nextXref + 1) :
    (fallback ++ Fragment.mk [.projection op] bindings []).Lowered view s t := by
  have hlowered : (CreateOp.projection op).Lowered :=
    CreateOp.lowered_of_lists_eq_nil rfl rfl rfl
  constructor
  · have hfresh := Grows.fresh u.nextXref
    rw [← ht] at hfresh
    refine ((hgrows.append hfresh).append hbindings.grows).subperm (fun _ => Nat.le_refl _) ?_
    intro x
    simp [CreateOp.xrefs, CreateOp.declared, CreateOp.exprs, CreateOp.lists, hop]
  · refine (hfallback.declared_after hlowered rfl rfl hbindings.update).mono (Nat.le_refl _) ?_
    omega

/-! ## Branches -/

/-- The branches of a block, and the cases whose conditions the block will check. -/
structure Branches (view : Xref) (s t : Ids) (f : Fragment) (cases : List ConditionalCase) :
    Prop where
  grows : Grows s.nextXref t.nextXref []
    (f.xrefs ++ cases.flatMap fun branch => branch.condition.toList.flatMap Expr.pipes)
  fits : f.Fits view s.nextXref t.nextXref

theorem Branches.cons {ids : ViewIds} {op : BranchOp} {branch : ConditionalCase}
    {cases : List ConditionalCase} {others : Fragment} (hothers : Branches view w t others cases)
    (hview : view.index < s.nextXref) (hids : Yields (Ids.freshView : Lower ViewIds) s ids u)
    (hcopies : copies.Plain u u)
    (hcondition : Draws u v (branch.condition.toList.flatMap Expr.pipes))
    (hcontent : content.Lowered ids.xref v w) (hop : op.xref = ids.xref) (isFirst : Bool)
    (contextVariables : OrderedMap String String) :
    Branches view s t
      (copies ++ Fragment.mk [branchOp isFirst op] [] [] ++
        embed ids view content contextVariables [] ++ others) (branch :: cases) := by
  have hpipes := hcopies.grows.append hcondition.grows
  have hawaits := awaits_lowered hview hids hpipes.le hcontent contextVariables []
  have hgrows := grows_embedded hids hpipes hcontent view contextVariables []
  constructor
  · refine (hgrows.append hothers.grows).subperm (fun _ => Nat.le_refl _) ?_
    intro x
    have hxrefs : (branchOp isFirst op).xrefs = [] := by
      cases isFirst <;> rfl
    simp [hxrefs]
    omega
  · have hlowered : (branchOp isFirst op).Lowered := by
      cases isFirst <;> exact CreateOp.lowered_of_lists_eq_nil rfl rfl rfl
    have hviews : (branchOp isFirst op).declaredViews = [ids.xref] := by
      cases isFirst <;> exact congrArg (fun xref => [xref]) hop
    have hdeclared := hawaits.declared_before hlowered hviews (by cases isFirst <;> rfl)
    rw [append_assoc copies]
    have hfits := (hcopies.fits view s.nextXref s.nextXref).append hdeclared (Nat.le_refl _)
      hgrows.le
    exact hfits.append hothers.fits hgrows.le hothers.grows.le

theorem BranchLowering.branches {isFirst : Bool} {sequences : List (List Template.Node)}
    {cases : List ConditionalCase}
    (h : BranchLowering facts LoweredIn view isFirst sequences s f cases t)
    (hview : view.index < s.nextXref) : Branches view s t f cases := by
  induction h with
  | @nil _ s =>
    have hempty := plain_empty s
    exact ⟨by simpa using hempty.grows, hempty.fits view _ _⟩
  | cons isFirst contextVariables hids hcopies hcondition hcontent _ hop _ ih =>
    have hcondition := (loweredExprs_lowerCondition hcondition).draws
    have hcontent := hcontent (index_lt_of_freshView hids hcondition.le)
    have hle := (grows_embedded hids hcondition.grows hcontent view contextVariables []).le
    exact (ih (by omega)).cons hview hids (attached_branchRoot facts.root hcopies).2.plain
      hcondition hcontent hop isFirst contextVariables

theorem BlockLowering.lowered {sequences : List (List Template.Node)}
    (h : BlockLowering facts LoweredIn view sequences s f t) (hview : view.index < s.nextXref) :
    f.Lowered view s t := by
  cases h with
  | nil => exact (plain_empty s).lowered view
  | cons test hbranches htest _ hprocessed hvalue =>
    have hbranches := hbranches.branches hview
    have htest := (loweredExprs_lowerCondition htest).draws
    constructor
    · refine (hbranches.grows.append htest.grows).subperm (fun _ => Nat.le_refl _) ?_
      intro x
      simp [UpdateOp.xrefs, UpdateOp.declared, UpdateOp.exprs, ConditionalOp.exprs, hprocessed,
        hvalue, List.flatMap_assoc]
      omega
    · refine ⟨?_, ?_, hbranches.fits.sound.append (sound_ops (by simp) ?_), ?_⟩
      · intro edge
        simpa using hbranches.fits.edges edge
      · exact (hbranches.fits.ordered.mono (Nat.le_refl _) htest.le).of_views_eq (by simp)
      · simpa using sound_of_bindings_eq_nil rfl rfl rfl
      · simpa using hbranches.fits.nested

/-! ## Loops -/

theorem EmptyLowering.awaits {part : Option (List Template.Node)} {emptyView : Option Xref}
    (h : EmptyLowering LoweredIn view part s emptyView f t) (hview : view.index < s.nextXref) :
    Grows s.nextXref t.nextXref [] f.xrefs ∧
      f.Awaits view s.nextXref t.nextXref emptyView.toList := by
  cases h with
  | absent =>
    have hempty := plain_empty s
    exact ⟨hempty.grows, hempty.fits view _ _⟩
  | present ids hids hcontent hcopies =>
    have hcontent := hcontent (index_lt_of_freshView hids (Nat.le_refl _))
    have hcopies := (attached_branchRoot view hcopies).2.plain
    have hgrows := grows_embedded hids (Grows.refl _ _) hcontent view {} []
    constructor
    · refine (hgrows.append hcopies.grows).subperm (fun _ => Nat.le_refl _) ?_
      intro x
      simp
      omega
    · have hawaits := awaits_lowered hview hids (Nat.le_refl _) hcontent {} []
      exact (hcopies.fits view s.nextXref s.nextXref).append hawaits (Nat.le_refl _) hgrows.le

theorem lowered_repeater {x : Ids} {ids : ViewIds} {op : RepeaterCreate} {repeater : RepeaterOp}
    {other : Fragment} (hview : view.index < s.nextXref)
    (hids : Yields (Ids.freshView : Lower ViewIds) s ids u) (htrack : Draws u v op.track.pipes)
    (hcontent : content.Lowered ids.xref v w) (hother : Grows w.nextXref x.nextXref [] other.xrefs)
    (hempty : other.Awaits view w.nextXref x.nextXref op.emptyView.toList)
    (hcopies : copies.Plain x x) (hcollection : Draws x t repeater.collection.pipes)
    (hop : op.xref = ids.xref) (hlists : op.trackByOps = none) (hfn : op.trackByFn = none)
    (contextVariables : OrderedMap String String) (aliases : List AliasVariable) :
    (embed ids view content contextVariables aliases ++ other ++ copies ++
      Fragment.mk [.repeaterCreate op] [.repeater repeater] []).Lowered view s t := by
  have hgrows := grows_embedded hids htrack.grows hcontent view contextVariables aliases
  constructor
  · refine (((hgrows.append hother).append hcopies.grows).append hcollection.grows).subperm
      (fun _ => Nat.le_refl _) ?_
    intro x
    simp [CreateOp.xrefs, CreateOp.declared, CreateOp.exprs, CreateOp.lists, UpdateOp.xrefs,
      UpdateOp.declared, UpdateOp.exprs, hlists, hfn]
    omega
  · have hlowered : (CreateOp.repeaterCreate op).Lowered :=
      CreateOp.lowered_of_lists_eq_nil rfl (by simp [CreateOp.lists, hlists]) rfl
    have hsound : ∀ op ∈ [UpdateOp.repeater repeater], op.Sound := by
      simpa using sound_of_bindings_eq_nil rfl rfl rfl
    have hawaits := awaits_lowered hview hids htrack.le hcontent contextVariables aliases
    have hviews : (CreateOp.repeaterCreate op).declaredViews =
        [ids.xref] ++ op.emptyView.toList := by
      rw [CreateOp.declaredViews, hop, List.singleton_append]
    have hdeclared := (hawaits.append hempty hgrows.le hother.le).declared_after hlowered hviews
      rfl hsound
    exact (hdeclared.weave hcopies).mono (Nat.le_refl _) hcollection.le

/-! ## Deferred blocks -/

theorem PartLowering.lowered {part : Option (List Template.Node)} {partView : Option Xref}
    (h : PartLowering LoweredIn view part s partView f t) (hview : view.index < s.nextXref) :
    f.Lowered view s t := by
  cases h with
  | absent => exact (plain_empty s).lowered view
  | present ids suffix placeholder block hids hcontent =>
    have hcontent := hcontent (index_lt_of_freshView hids (Nat.le_refl _))
    have hgrows := grows_embedded hids (Grows.refl _ _) hcontent view {} []
    have hawaits := awaits_lowered hview hids (Nat.le_refl _) hcontent {} []
    constructor
    · refine hgrows.subperm (fun _ => Nat.le_refl _) ?_
      intro x
      simp [embedDeferred, CreateOp.xrefs, CreateOp.declared, CreateOp.exprs, CreateOp.lists]
    · exact hawaits.declared_before (CreateOp.lowered_of_lists_eq_nil rfl rfl rfl) rfl rfl

theorem plain_defer {op : DeferOp} {triggers : DeferTriggers} (hxref : op.xref = ⟨s.nextXref⟩)
    (hu : u.nextXref = s.nextXref + 1)
    (htriggers : Draws u t ((triggers.when_.map fun op => op.expr).flatMap Expr.pipes)) :
    (Fragment.mk (.defer op :: triggers.on.map .deferOn) (triggers.when_.map .deferWhen)
      []).Plain s t := by
  apply Fragment.plain_of
  · have hfresh := Grows.fresh s.nextXref
    rw [← hxref, ← hu] at hfresh
    have hnone : (triggers.on.map CreateOp.deferOn).flatMap CreateOp.xrefs = [] := by
      rw [List.flatMap_map, List.flatMap_eq_nil_iff]
      intro op _
      rfl
    have hpipes : (triggers.when_.map UpdateOp.deferWhen).flatMap UpdateOp.xrefs =
        (triggers.when_.map fun op => op.expr).flatMap Expr.pipes := by
      simp [List.flatMap_map, UpdateOp.xrefs, UpdateOp.declared, UpdateOp.exprs]
    simpa [CreateOp.xrefs, CreateOp.declared, CreateOp.exprs, CreateOp.lists, hnone, hpipes] using
      hfresh.append htriggers.grows
  · intro op hop
    rcases List.mem_cons.1 hop with rfl | hop
    · exact plain_of_lists_eq_nil rfl rfl rfl rfl rfl
    · obtain ⟨trigger, -, rfl⟩ := List.mem_map.1 hop
      exact plain_of_lists_eq_nil rfl rfl rfl rfl rfl
  · intro op hop
    obtain ⟨trigger, -, rfl⟩ := List.mem_map.1 hop
    exact sound_of_bindings_eq_nil rfl rfl rfl

/-! ## Nodes -/

theorem NodeLowering.lowered {node : Template.Node}
    (h : NodeLowering facts LoweredIn view node s f t) (hview : view.index < s.nextXref) :
    f.Lowered view s t := by
  cases h with
  | comment => exact (plain_empty s).lowered view
  | text h => exact (textLowering_lowerText facts.root h).plain.lowered view
  | boundText h => exact (textLowering_lowerBoundText h).plain.lowered view
  | icu h => exact lowerIcu_lowered h view
  | letDeclaration h => exact (lowerLet_plain h).lowered view
  | element _ hbindings hbrackets hcontent hstart _ hstop =>
    have hbindings := (attached_elementBindings hbindings).plain
    have hbrackets := lowerBlockBrackets_spec hbrackets
    have hle := hbindings.grows.le
    have hle' := hbrackets.grows.le
    simp only at hle
    exact lowered_element hbindings hbrackets (hcontent (by omega)) hstart hstop
  | template _ contextVariables _ hids hbindings hcontent hbrackets hop =>
    have hbindings := (attached_templateBindings hbindings).plain
    have hcontent := hcontent (index_lt_of_freshView hids hbindings.grows.le)
    exact lowered_template hview hids hop hbindings hcontent (lowerBlockBrackets_spec hbrackets)
      contextVariables
  | content _ hbindings hnone _ hop ht =>
    have hbindings := (attached_textAttributes facts.root hbindings).2.plain
    have hempty := plain_empty s
    have hawaits := hempty.fits view s.nextXref s.nextXref
    exact lowered_projection (hnone ▸ hawaits) hempty.grows hop hbindings (by rw [ht])
  | contentFallback _ hids hcontent hbindings hfallback _ hop ht =>
    have hbindings := (attached_textAttributes facts.root hbindings).2.plain
    have hcontent := hcontent (index_lt_of_freshView hids (Nat.le_refl _))
    have hawaits := awaits_lowered hview hids (Nat.le_refl _) hcontent {} []
    have hgrows := grows_embedded hids (Grows.refl _ _) hcontent view {} []
    exact lowered_projection (hfallback ▸ hawaits) hgrows hop hbindings (by rw [ht])
  | ifBlock h => exact h.lowered hview
  | switchBlock h => exact h.lowered hview
  | forBlock hids _ htrack hcontent hempty hcopies hcollection hop _ hlists hfn =>
    have htrack := Ast.draws_pipes htrack
    have hcontent := hcontent (index_lt_of_freshView hids htrack.le)
    have hle := (grows_embedded hids htrack.grows hcontent view {} []).le
    obtain ⟨hother, hempty⟩ := hempty.awaits (by omega)
    have hcopies := (attached_branchRoot facts.root hcopies).2.plain
    exact lowered_repeater hview hids htrack hcontent hother hempty hcopies
      (Ast.draws_pipes hcollection) hop hlists hfn _ _
  | deferBlock hmain hloading hplaceholder herror htriggers hop =>
    have hmain := hmain.lowered hview
    have hle := hmain.grows.le
    have hloading := hloading.lowered (by omega)
    have hle₁ := hloading.grows.le
    have hplaceholder := hplaceholder.lowered (by omega)
    have hle₂ := hplaceholder.grows.le
    have herror := herror.lowered (by omega)
    have hdefer := plain_defer hop rfl (lowerAllTriggers_spec htriggers).exprs.draws
    exact (((hmain.append hloading).append hplaceholder).append herror).append (hdefer.lowered view)

theorem lowerNodes_lowered {nodes : List Template.Node} (hview : view.index < s.nextXref)
    (h : Yields (lowerNodes facts view nodes) s f t) : f.Lowered view s t := by
  refine lowerNodes_induction (motive := LoweredIn) ?_ ?_ h hview
  · intro view s _
    exact (plain_empty s).lowered view
  · intro view node nodes s u t f g hnode hothers hview
    have hnode := hnode.lowered hview
    have hle := hnode.grows.le
    exact hnode.append (hothers (by omega))

end TemplateLowering
