import TemplateLowering.Proofs.Lowering.Handler

/-!
# Operations as lowering leaves them

What is known of the operations of a template before any phase has run.  No message has a context,
no loop has a track function, and every handler does something.  The lists of the views and of the
handlers have numbers from the supply, and no two of them the same.
-/

namespace TemplateLowering

variable {facts : JobFacts} {root target view : Xref} {s t : Ids} {f g : Fragment}
  {create : List CreateOp} {update : List UpdateOp}
variable {bindings content : Fragment} {closing opening : List CreateOp}

/-! ## Numbers of lists -/

/-- The number of a list, as one that was drawn from a supply. -/
def ListId.number (id : ListId) : Xref :=
  ⟨id.index⟩

def CreateOp.listNumbers (op : CreateOp) : List Xref :=
  op.lists.map fun ops => ops.id.number

/-- The numbers of the lists of a view: its own two, and those inside its operations. -/
def View.listNumbers (view : View) : List Xref :=
  view.create.id.number :: view.update.id.number ::
    view.create.toList.flatMap CreateOp.listNumbers

theorem CreateOp.listNumbers_eq_nil {op : CreateOp} (h : op.lists = []) : op.listNumbers = [] := by
  rw [listNumbers, h, List.map_nil]

theorem flatMap_listNumbers_eq_nil (h : ∀ op ∈ create, op.lists = []) :
    create.flatMap CreateOp.listNumbers = [] := by
  rw [List.flatMap_eq_nil_iff]
  exact fun op hop => CreateOp.listNumbers_eq_nil (h op hop)

def Fragment.listNumbers (f : Fragment) : List Xref :=
  f.create.flatMap CreateOp.listNumbers ++ f.views.flatMap View.listNumbers

@[simp] theorem Fragment.count_listNumbers_append (x : Xref) :
    (f ++ g).listNumbers.count x = f.listNumbers.count x + g.listNumbers.count x := by
  simp only [listNumbers, create_append, views_append, List.flatMap_append, List.count_append]
  omega

@[simp] theorem Fragment.listNumbers_ops (create : List CreateOp) (update : List UpdateOp) :
    (Fragment.mk create update []).listNumbers = create.flatMap CreateOp.listNumbers := by
  simp [listNumbers]

/-! ## Operations -/

/-- Whether lowering makes update operations of this kind.  A binding has no context yet. -/
def UpdateOp.isRaw : UpdateOp → Bool
  | .binding op => op.i18nContext.isNone
  | .interpolateText _ | .conditional _ | .repeater _ | .deferWhen _ | .storeLet _
  | .statement _ => true
  | _ => false

/-- Whether lowering makes create operations of this kind.  Messages have no context yet, handlers
are not empty, and loops have no track function and use no component. -/
def CreateOp.isRaw : CreateOp → Bool
  | .extractedAttribute op => op.i18nContext.isNone
  | .i18nStart op => op.context.isNone
  | .icuStart op => op.context.isNone
  | .listener op => !op.handler.toList.isEmpty
  | .repeaterCreate op =>
      op.trackByOps.isNone && op.trackByFn.isNone && !op.usesComponentInstance
  | .listEnd | .containerStart _ | .containerEnd _ | .i18nContext _ | .variableDecl _
  | .statement _ => false
  | _ => true

structure View.Raw (view : View) : Prop where
  create : ∀ op ∈ view.create.toList, op.isRaw = true
  update : ∀ op ∈ view.update.toList, op.isRaw = true

/-! ## Fragments -/

/-- The operations are as lowering makes them, and the lists drew their numbers while the next one
went from `n` to `n'`. -/
structure Fragment.Raw (n n' : Nat) (f : Fragment) : Prop where
  create : ∀ op ∈ f.create, op.isRaw = true
  update : ∀ op ∈ f.update, op.isRaw = true
  views : ∀ inner ∈ f.views, inner.Raw
  lists : Grows n n' [] f.listNumbers

namespace Fragment

variable {n n' n'' : Nat}

theorem Raw.append (hf : f.Raw n n') (hg : g.Raw n' n'') : (f ++ g).Raw n n'' := by
  constructor
  · exact fun op hop => (List.mem_append.1 hop).elim (hf.create op) (hg.create op)
  · exact fun op hop => (List.mem_append.1 hop).elim (hf.update op) (hg.update op)
  · exact fun inner hinner => (List.mem_append.1 hinner).elim (hf.views inner) (hg.views inner)
  · refine (hf.lists.append hg.lists).subperm (fun _ => Nat.le_refl _) ?_
    intro x
    simp

theorem raw_plain (hcreate : ∀ op ∈ create, op.isRaw = true ∧ op.lists = [])
    (hupdate : ∀ op ∈ update, op.isRaw = true) (n : Nat) :
    (Fragment.mk create update []).Raw n n := by
  refine ⟨fun op hop => (hcreate op hop).1, hupdate, by simp, ?_⟩
  rw [listNumbers_ops, flatMap_listNumbers_eq_nil fun op hop => (hcreate op hop).2]
  exact Grows.refl _ _

theorem raw_empty (n : Nat) : ({} : Fragment).Raw n n :=
  raw_plain (by simp) (by simp) n

theorem Raw.shift (h : f.Raw n n) (n' : Nat) : f.Raw n' n' := by
  have hnone : f.listNumbers = [] := by
    refine List.eq_nil_iff_forall_not_mem.2 fun x hx => ?_
    have hcount := h.lists.count x
    have hpos := List.count_pos_iff.2 hx
    rw [List.count_nil] at hcount
    split at hcount <;> omega
  exact ⟨h.create, h.update, h.views, hnone ▸ Grows.refl n' []⟩

theorem raw_create (h : ∀ op ∈ create, op.isRaw = true ∧ op.lists = []) (n : Nat) :
    (Fragment.mk create [] []).Raw n n :=
  raw_plain h (by simp) n

theorem raw_op {op : CreateOp} (h : op.isRaw = true) (hlists : op.lists = []) (n : Nat) :
    (Fragment.mk [op] [] []).Raw n n :=
  raw_create (by simpa using ⟨h, hlists⟩) n

theorem count_listNumbers_embed (ids : ViewIds) (view : Xref) (content : Fragment)
    (contextVariables : OrderedMap String String) (aliases : List AliasVariable) (x : Xref) :
    (embed ids view content contextVariables aliases).listNumbers.count x =
      [ids.createList.number, ids.updateList.number].count x + content.listNumbers.count x := by
  have hcreate := (OpList.lists_ofList ids.createList content.create).toList
  simp [embed, listNumbers, View.listNumbers, ViewIds.view, hcreate, OpList.id_ofList,
    List.count_cons]
  omega

theorem Raw.ofIds (h : content.Raw n n') (ids : ViewIds) (parent : Option Xref)
    (contextVariables : OrderedMap String String) (aliases : List AliasVariable) :
    ({ ids.view parent content.create content.update with
      contextVariables, aliases } : View).Raw := by
  have hcreate := (OpList.lists_ofList ids.createList content.create).toList
  have hupdate := (OpList.lists_ofList ids.updateList content.update).toList
  constructor
  · simpa only [ViewIds.view, hcreate] using h.create
  · simpa only [ViewIds.view, hupdate] using h.update

/-- A view whose lists are numbered first.  Then come operations of the view around it, and the
content of the view is last. -/
theorem Raw.embed {ids : ViewIds} {u : Ids} {front : Fragment}
    (hids : Yields (Ids.freshView : Lower ViewIds) s ids u) (hfront : front.Raw u.nextList n)
    (hcontent : content.Raw n n') (view : Xref) (contextVariables : OrderedMap String String)
    (aliases : List AliasVariable) :
    (front ++ TemplateLowering.embed ids view content contextVariables aliases).Raw s.nextList
      n' := by
  obtain ⟨rfl, rfl⟩ := yields_freshView.1 hids
  constructor
  · simpa [TemplateLowering.embed] using hfront.create
  · simpa [TemplateLowering.embed] using hfront.update
  · intro inner hinner
    rcases List.mem_append.1 hinner with hinner | hinner
    · exact hfront.views inner hinner
    · rcases List.mem_cons.1 hinner with rfl | hinner
      · exact hcontent.ofIds _ _ _ _
      · exact hcontent.views inner hinner
  · have hown := (Grows.fresh s.nextList).append (Grows.fresh (s.nextList + 1))
    refine ((hown.append hfront.lists).append hcontent.lists).subperm (fun _ => Nat.le_refl _) ?_
    intro x
    simp [count_listNumbers_embed, ListId.number, List.count_cons]
    omega

end Fragment

/-! ## Attributes and events -/

theorem lowerHandler_raw {handler : Ast} {event : String} {span : SourceSpan}
    {ops : OpList UpdateOp} (h : Yields (lowerHandler root handler event span) s ops t) :
    Grows s.nextList t.nextList [] [ops.id.number] ∧ ops.toList ≠ [] := by
  obtain ⟨exprs, last, u, hexprs, rfl, rfl⟩ := exists_of_lowerHandler h
  rw [(OpList.lists_ofList _ _).toList, OpList.id_ofList, ← hexprs.draws.lists]
  exact ⟨Grows.fresh u.nextList, by simp [handlerStatements]⟩

theorem Attached.raw (h : Attached root target s f t) : f.Raw s.nextList t.nextList := by
  induction h with
  | nil => exact Fragment.raw_empty _
  | append _ _ ihf ihg => exact ihf.append ihg
  | binding _ _ hcontext hvalue =>
    rw [hvalue.draws.lists]
    exact Fragment.raw_plain (by simp) (by simp [UpdateOp.isRaw, hcontext]) _
  | extractedAttribute _ _ hcontext =>
    exact Fragment.raw_op (by simp [CreateOp.isRaw, hcontext]) rfl _
  | listener h =>
    simp only [lowerListener, yields_bind, yields_pure] at h
    obtain ⟨_, _, hphase, handler, _, hhandler, rfl, rfl⟩ := h
    obtain rfl := eq_of_checkAnimationPhase hphase
    obtain ⟨hgrows, hne⟩ := lowerHandler_raw hhandler
    refine ⟨by simpa [CreateOp.isRaw] using hne, by simp, by simp, ?_⟩
    simpa [CreateOp.listNumbers, CreateOp.lists] using hgrows
  | i18nAttributes => exact Fragment.raw_op rfl rfl _

/-! ## Texts -/

theorem TextLowering.raw {sketches : List Sketch} (h : TextLowering root sketches s f t) :
    f.Raw s.nextList t.nextList := by
  induction h with
  | nil => exact Fragment.raw_empty _
  | append _ _ ihf ihg => exact ihf.append ihg
  | text => exact Fragment.raw_op rfl rfl _
  | boundText hexprs =>
    simp only [hexprs.draws.lists]
    exact Fragment.raw_plain (by simp [CreateOp.isRaw, CreateOp.lists]) (by simp [UpdateOp.isRaw]) _

theorem lowerIcu_raw {icu : Template.Icu} (h : Yields (lowerIcu facts icu) s f t) :
    f.Raw s.nextList t.nextList := by
  obtain ⟨start, texts, -, hcontext, htexts, rfl⟩ := exists_of_lowerIcu h
  exact .append (.append (Fragment.raw_op (by simp [CreateOp.isRaw, hcontext]) rfl _) htexts.raw)
    (Fragment.raw_op rfl rfl _)

theorem lowerLet_raw {declaration : Template.LetDeclaration}
    (h : Yields (lowerLet facts declaration) s f t) : f.Raw s.nextList t.nextList := by
  simp only [lowerLet, yields_bind, yields_freshXref, yields_pure] at h
  obtain ⟨_, _, ⟨-, rfl⟩, value, _, hvalue, rfl, rfl⟩ := h
  rw [(Ast.draws_pipes hvalue).lists]
  exact Fragment.raw_plain (by simp [CreateOp.isRaw, CreateOp.lists]) (by simp [UpdateOp.isRaw]) _

/-! ## Elements and templates -/

def RawIn (_ : Xref) (_ : List Template.Node) (s : Ids) (f : Fragment) (t : Ids) : Prop :=
  f.Raw s.nextList t.nextList

theorem lowerBlockBrackets_raw {i18n : Option I18n.Meta} {startSpan : SourceSpan}
    {endSpan : Option SourceSpan}
    (h : Yields (lowerBlockBrackets i18n startSpan endSpan) s (opening, closing) t) :
    (∀ op ∈ opening, op.isRaw = true ∧ op.lists = []) ∧
      (∀ op ∈ closing, op.isRaw = true ∧ op.lists = []) ∧ t.nextList = s.nextList := by
  unfold lowerBlockBrackets at h
  split at h
  · simp only [yields_bind, yields_freshXref, yields_pure, Prod.mk.injEq] at h
    obtain ⟨_, _, ⟨-, rfl⟩, ⟨rfl, rfl⟩, rfl⟩ := h
    simp [CreateOp.isRaw, CreateOp.lists]
  · simp only [yields_pure, Prod.mk.injEq] at h
    obtain ⟨⟨rfl, rfl⟩, rfl⟩ := h
    simp

theorem raw_element {n n' n'' : Nat} {start : ElementStart} {stop : EndOp}
    (hbindings : bindings.Raw n n') (hopening : ∀ op ∈ opening, op.isRaw = true ∧ op.lists = [])
    (hclosing : ∀ op ∈ closing, op.isRaw = true ∧ op.lists = []) (hcontent : content.Raw n' n'') :
    (Fragment.mk [.elementStart start] [] [] ++ bindings ++ Fragment.mk opening [] [] ++ content ++
      Fragment.mk (closing ++ [.elementEnd stop]) [] []).Raw n n'' := by
  refine .append (.append (.append (.append (Fragment.raw_op rfl rfl _) hbindings)
    (Fragment.raw_create hopening _)) hcontent) (Fragment.raw_create ?_ _)
  rw [List.forall_mem_append, List.forall_mem_singleton]
  exact ⟨hclosing, rfl, rfl⟩

theorem raw_template {u v w : Ids} {ids : ViewIds} {op : TemplateOp}
    (hids : Yields (Ids.freshView : Lower ViewIds) s ids u)
    (hbindings : bindings.Raw u.nextList v.nextList)
    (hcontent : content.Raw v.nextList w.nextList)
    (hopening : ∀ op ∈ opening, op.isRaw = true ∧ op.lists = [])
    (hclosing : ∀ op ∈ closing, op.isRaw = true ∧ op.lists = []) (ht : t.nextList = w.nextList)
    (view : Xref) (contextVariables : OrderedMap String String) :
    (Fragment.mk [.template op] [] [] ++ bindings ++
      embed ids view (Fragment.mk opening [] [] ++ content ++ Fragment.mk closing [] [])
        contextVariables []).Raw s.nextList t.nextList := by
  have hbracketed := ((Fragment.raw_create hopening _).append hcontent).append
    (Fragment.raw_create hclosing _)
  rw [ht]
  exact .embed hids ((Fragment.raw_op rfl rfl _).append hbindings) hbracketed view _ _

theorem raw_projection {op : ProjectionOp} {bindings : List UpdateOp}
    (h : ∀ op ∈ bindings, op.isRaw = true) (n : Nat) :
    (Fragment.mk [.projection op] bindings []).Raw n n :=
  Fragment.raw_plain (by simp [CreateOp.isRaw, CreateOp.lists]) h n

/-! ## Branches -/

theorem raw_branchOp (isFirst : Bool) (op : BranchOp) (n : Nat) :
    (Fragment.mk [branchOp isFirst op] [] []).Raw n n := by
  cases isFirst <;> exact Fragment.raw_op rfl rfl n

theorem BranchLowering.raw {isFirst : Bool} {sequences : List (List Template.Node)}
    {cases : List ConditionalCase}
    (h : BranchLowering facts RawIn view isFirst sequences s f cases t) :
    f.Raw s.nextList t.nextList := by
  induction h with
  | nil => exact Fragment.raw_empty _
  | cons isFirst contextVariables hids hcopies hcondition hcontent _ _ _ ih =>
    rw [RawIn, (loweredExprs_lowerCondition hcondition).draws.lists] at hcontent
    have hcopies := (attached_branchRoot facts.root hcopies).2.raw
    exact .append (.embed hids (hcopies.append (raw_branchOp _ _ _)) hcontent view _ _) ih

theorem BlockLowering.raw {sequences : List (List Template.Node)}
    (h : BlockLowering facts RawIn view sequences s f t) : f.Raw s.nextList t.nextList := by
  cases h with
  | nil => exact Fragment.raw_empty _
  | cons test hbranches htest =>
    rw [(loweredExprs_lowerCondition htest).draws.lists]
    exact hbranches.raw.append (Fragment.raw_plain (by simp) (by simp [UpdateOp.isRaw]) _)

/-! ## Loops -/

theorem EmptyLowering.raw {part : Option (List Template.Node)} {emptyView : Option Xref}
    (h : EmptyLowering RawIn view part s emptyView f t) : f.Raw s.nextList t.nextList := by
  cases h with
  | absent => exact Fragment.raw_empty _
  | present ids hids hcontent hcopies =>
    have hcopies := (attached_branchRoot ⟨0⟩ hcopies).2.raw
    exact .embed hids (hcopies.shift _) hcontent view {} []

theorem raw_repeater {op : RepeaterCreate} {repeater : RepeaterOp} (hlists : op.trackByOps = none)
    (hfn : op.trackByFn = none) (huses : op.usesComponentInstance = false) (n : Nat) :
    (Fragment.mk [.repeaterCreate op] [.repeater repeater] []).Raw n n :=
  Fragment.raw_plain (by simp [CreateOp.isRaw, CreateOp.lists, hlists, hfn, huses])
    (by simp [UpdateOp.isRaw]) n

/-! ## Deferred blocks -/

theorem PartLowering.raw {part : Option (List Template.Node)} {partView : Option Xref}
    (h : PartLowering RawIn view part s partView f t) : f.Raw s.nextList t.nextList := by
  cases h with
  | absent => exact Fragment.raw_empty _
  | present ids suffix placeholder block hids hcontent =>
    exact .embed hids (Fragment.raw_op rfl rfl _) hcontent view {} []

theorem raw_defer (op : DeferOp) (triggers : DeferTriggers) (n : Nat) :
    (Fragment.mk (.defer op :: triggers.on.map .deferOn) (triggers.when_.map .deferWhen)
      []).Raw n n :=
  Fragment.raw_plain (by simp [CreateOp.isRaw, CreateOp.lists]) (by simp [UpdateOp.isRaw]) n

/-! ## Nodes -/

theorem NodeLowering.raw {node : Template.Node} (h : NodeLowering facts RawIn view node s f t) :
    f.Raw s.nextList t.nextList := by
  cases h with
  | comment => exact Fragment.raw_empty _
  | text h => exact (textLowering_lowerText facts.root h).raw
  | boundText h => exact (textLowering_lowerBoundText h).raw
  | icu h => exact lowerIcu_raw h
  | letDeclaration h => exact lowerLet_raw h
  | element _ hbindings hbrackets hcontent =>
    obtain ⟨hopening, hclosing, heq⟩ := lowerBlockBrackets_raw hbrackets
    rw [RawIn, heq] at hcontent
    exact raw_element (attached_elementBindings hbindings).raw hopening hclosing hcontent
  | template _ contextVariables _ hids hbindings hcontent hbrackets =>
    obtain ⟨hopening, hclosing, heq⟩ := lowerBlockBrackets_raw hbrackets
    exact raw_template hids (attached_templateBindings hbindings).raw hcontent hopening hclosing heq
      view contextVariables
  | content _ hbindings _ _ _ ht =>
    subst ht
    exact raw_projection (attached_textAttributes facts.root hbindings).2.raw.update _
  | contentFallback _ hids hcontent hbindings _ _ _ ht =>
    subst ht
    exact (Fragment.Raw.embed hids (Fragment.raw_empty _) hcontent view {} []).append
      (raw_projection (attached_textAttributes facts.root hbindings).2.raw.update _)
  | ifBlock h => exact h.raw
  | switchBlock h => exact h.raw
  | forBlock hids _ htrack hcontent hempty hcopies hcollection _ _ hlists hfn huses =>
    rw [RawIn, (Ast.draws_pipes htrack).lists] at hcontent
    rw [(Ast.draws_pipes hcollection).lists]
    exact .append (.append (.append (.embed hids (Fragment.raw_empty _) hcontent view _ _)
      hempty.raw) (attached_branchRoot facts.root hcopies).2.raw) (raw_repeater hlists hfn huses _)
  | deferBlock hmain hloading hplaceholder herror htriggers =>
    rw [(lowerAllTriggers_spec htriggers).exprs.draws.lists]
    exact (((hmain.raw.append hloading.raw).append hplaceholder.raw).append herror.raw).append
      (raw_defer _ _ _)

theorem lowerNodes_raw {nodes : List Template.Node}
    (h : Yields (lowerNodes facts view nodes) s f t) : f.Raw s.nextList t.nextList :=
  lowerNodes_induction (motive := RawIn) (fun _ _ => Fragment.raw_empty _)
    (fun hnode hothers => hnode.raw.append hothers) h

end TemplateLowering
