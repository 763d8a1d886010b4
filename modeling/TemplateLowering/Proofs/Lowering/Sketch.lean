import TemplateLowering.Proofs.Job.Reading
import TemplateLowering.Proofs.Lowering.Layout

/-!
# Reading lowered nodes

What is read in the operations of lowered nodes is the sketch of the nodes.  The reading of a
fragment starts and ends between two nodes, so the fragments of a sequence are read one after the
other, and a view is read by itself.
-/

namespace TemplateLowering

open Fragment
open Template (sketchNodes)

variable {env : Surroundings} {ops ops' : List CreateOp} {sketches sketches' : List Sketch}
variable {closing inner opening : List CreateOp} {content : Fragment} {ids : ViewIds}
  {contextVariables : OrderedMap String String}

/-! ## Reading operations -/

/-- Wherever the operations are read, they add the sketches. -/
def Adds (env : Surroundings) (ops : List CreateOp) (sketches : List Sketch) : Prop :=
  ∀ opened items, ops.foldlM (Reading.read env) { opened, items } =
    some { opened, items := sketches.reverse ++ items }

theorem adds_nil (env : Surroundings) : Adds env [] [] :=
  fun _ _ => rfl

theorem Adds.append (h : Adds env ops sketches) (h' : Adds env ops' sketches') :
    Adds env (ops ++ ops') (sketches ++ sketches') := by
  intro opened items
  rw [List.foldlM_append, h, Option.bind_eq_bind, Option.bind_some, h', List.reverse_append,
    List.append_assoc]

theorem adds_singleton {op : CreateOp} {sketch : Sketch}
    (h : ∀ opened items, Reading.read env { opened, items } op =
      some { opened, items := sketch :: items }) : Adds env [op] [sketch] := by
  intro opened items
  rw [List.foldlM_cons, h]
  rfl

theorem read_of_isSilent {op : CreateOp} (h : op.isSilent = true) (opened : List Opened)
    (items : List Sketch) : Reading.read env { opened, items } op = some { opened, items } := by
  cases op <;> first | rfl | simp [CreateOp.isSilent] at h

theorem adds_of_isSilent (h : ∀ op ∈ ops, op.isSilent = true) : Adds env ops [] := by
  induction ops with
  | nil => exact adds_nil env
  | cons op ops ih =>
    intro opened items
    rw [List.foldlM_cons, read_of_isSilent (h op List.mem_cons_self)]
    exact ih (fun op hop => h op (List.mem_cons_of_mem _ hop)) opened items

theorem Adds.element {front back : List CreateOp} {start : ElementStart} {stop : EndOp}
    (h : Adds env inner sketches) (hfront : ∀ op ∈ front, op.isSilent = true)
    (hback : ∀ op ∈ back, op.isSilent = true) (hstop : stop.xref = start.xref) :
    Adds env ([.elementStart start] ++ front ++ inner ++ (back ++ [.elementEnd stop]))
      [.element start.tag sketches] := by
  intro opened items
  have hstart : Reading.read env { opened, items } (.elementStart start) =
      some { opened := .element start.xref start.tag items :: opened, items := [] } := rfl
  have hinner := ((adds_of_isSilent hfront).append h).append (adds_of_isSilent hback)
    (.element start.xref start.tag items :: opened) []
  have hops : [CreateOp.elementStart start] ++ front ++ inner ++ (back ++ [.elementEnd stop]) =
      .elementStart start :: ((front ++ inner ++ back) ++ [.elementEnd stop]) := by
    simp
  rw [hops, List.foldlM_cons, hstart, Option.bind_eq_bind, Option.bind_some, List.foldlM_append,
    hinner]
  simp [Reading.read, Reading.part?, Reading.readPlain, hstop]

theorem Adds.icu (h : Adds env inner sketches) (start : IcuStart) :
    Adds env ([.icuStart start] ++ inner ++ [.icuEnd start.xref]) [.icu sketches] := by
  intro opened items
  have hstart : Reading.read env { opened, items } (.icuStart start) =
      some { opened := .icu start.xref items :: opened, items := [] } := rfl
  rw [List.append_assoc, List.singleton_append, List.foldlM_cons, hstart, Option.bind_eq_bind,
    Option.bind_some, List.foldlM_append, h]
  simp [Reading.read, Reading.part?, Reading.readPlain]

/-! ## Reading fragments -/

namespace Fragment

def texts (f : Fragment) : List Xref :=
  f.create.filterMap CreateOp.text?

def interpolated (f : Fragment) : List Xref :=
  f.update.filterMap UpdateOp.interpolated?

end Fragment

/-- The sketches of the views are read in the views. -/
def Surroundings.Knows (env : Surroundings) (views : List View) : Prop :=
  ∃ view? depth, env.sketchOf = sketchOfView view? depth ∧ views.length ≤ depth ∧
    ∀ view ∈ views, view? view.xref = some view

theorem Surroundings.Knows.sublist {views views' : List View} (h : env.Knows views)
    (hsub : views'.Sublist views) : env.Knows views' := by
  obtain ⟨view?, depth, hsketchOf, hdepth, hviews⟩ := h
  exact ⟨view?, depth, hsketchOf, Nat.le_trans hsub.length_le hdepth,
    fun view hview => hviews view (hsub.subset hview)⟩

/-- The sketches are what is read in the fragment, in surroundings that know its views and
interpolate the same of its texts. -/
structure Fragment.Reads (f : Fragment) (sketches : List Sketch) : Prop where
  interpolated : ∀ x ∈ f.interpolated, x ∈ f.texts
  adds : ∀ env : Surroundings, env.Knows f.views →
    (∀ x ∈ f.texts, x ∈ env.interpolated ↔ x ∈ f.interpolated) → Adds env f.create sketches

structure Fragment.Silent (f : Fragment) : Prop where
  create : ∀ op ∈ f.create, op.isSilent = true
  update : ∀ op ∈ f.update, op.interpolated? = none

namespace Fragment

variable {f g : Fragment}

theorem Silent.texts_eq (h : f.Silent) : f.texts = [] := by
  rw [texts, List.filterMap_eq_nil_iff]
  intro op hop
  have hsilent := h.create op hop
  cases op <;> first | rfl | simp [CreateOp.isSilent] at hsilent

theorem Silent.interpolated_eq (h : f.Silent) : f.interpolated = [] := by
  rw [interpolated, List.filterMap_eq_nil_iff]
  exact h.update

theorem Silent.append (hf : f.Silent) (hg : g.Silent) : (f ++ g).Silent := by
  constructor
  · intro op hop
    rcases List.mem_append.1 hop with hop | hop
    · exact hf.create op hop
    · exact hg.create op hop
  · intro op hop
    rcases List.mem_append.1 hop with hop | hop
    · exact hf.update op hop
    · exact hg.update op hop

@[simp] theorem texts_append : (f ++ g).texts = f.texts ++ g.texts :=
  List.filterMap_append

@[simp] theorem interpolated_append : (f ++ g).interpolated = f.interpolated ++ g.interpolated :=
  List.filterMap_append

@[simp] theorem texts_ops (create : List CreateOp) (update : List UpdateOp) (views : List View) :
    (Fragment.mk create update views).texts = create.filterMap CreateOp.text? := rfl

@[simp] theorem interpolated_ops (create : List CreateOp) (update : List UpdateOp)
    (views : List View) :
    (Fragment.mk create update views).interpolated = update.filterMap UpdateOp.interpolated? := rfl

theorem mem_xrefs_of_mem_texts {x : Xref} (h : x ∈ f.texts) : x ∈ f.xrefs := by
  obtain ⟨op, hop, htext⟩ := List.mem_filterMap.1 h
  have hmem : x ∈ op.xrefs := by
    cases op with
    | text op =>
      obtain rfl := Option.some.inj htext
      simp [CreateOp.xrefs, CreateOp.declared]
    | _ => simp [CreateOp.text?] at htext
  simp only [xrefs, List.mem_append, List.mem_flatMap]
  exact .inl (.inl ⟨op, hop, hmem⟩)

theorem texts_apart {n n' n'' : Nat} (hf : Grows n n' [] f.xrefs) (hg : Grows n' n'' [] g.xrefs) :
    ∀ x ∈ f.texts, x ∉ g.texts := by
  intro x hx hx'
  have hcount := hf.count x
  have hcount' := hg.count x
  have hpos := List.count_pos_iff.2 (mem_xrefs_of_mem_texts hx)
  have hpos' := List.count_pos_iff.2 (mem_xrefs_of_mem_texts hx')
  rw [List.count_nil] at hcount hcount'
  grind

theorem reads_empty : ({} : Fragment).Reads [] := by
  constructor
  · simp [Fragment.interpolated]
  · intro env _ _
    exact adds_nil env

theorem Reads.append (hf : f.Reads sketches) (hg : g.Reads sketches')
    (hapart : ∀ x ∈ f.texts, x ∉ g.texts) : (f ++ g).Reads (sketches ++ sketches') := by
  constructor
  · intro x hx
    rw [interpolated_append, List.mem_append] at hx
    rw [texts_append, List.mem_append]
    exact hx.imp (hf.interpolated x) (hg.interpolated x)
  · intro env hviews hsame
    have hsame' : ∀ x ∈ f.texts ++ g.texts,
        (x ∈ env.interpolated ↔ x ∈ f.interpolated ∨ x ∈ g.interpolated) := by
      simpa using hsame
    apply Adds.append
    · apply hf.adds env (hviews.sublist (List.sublist_append_left _ _))
      intro x hx
      have hnot : x ∉ g.interpolated := fun hmem => hapart x hx (hg.interpolated x hmem)
      rw [hsame' x (List.mem_append_left _ hx), or_iff_left hnot]
    · apply hg.adds env (hviews.sublist (List.sublist_append_right _ _))
      intro x hx
      have hnot : x ∉ f.interpolated := fun hmem => hapart x (hf.interpolated x hmem) hx
      rw [hsame' x (List.mem_append_right _ hx), or_iff_right hnot]

theorem reads_of_interpolated_eq_nil (hinterpolated : f.interpolated = [])
    (hadds : ∀ env : Surroundings, env.Knows f.views → Adds env f.create sketches) :
    f.Reads sketches := by
  constructor
  · simp [hinterpolated]
  · intro env hknows _
    exact hadds env hknows

/-- The fragment of a node around `content`, which is all that puts a text into the view. -/
theorem Reads.around (h : content.Reads sketches) (htexts : f.texts = content.texts)
    (hinterpolated : f.interpolated = content.interpolated) (hviews : content.views.Sublist f.views)
    (hadds : ∀ env, Adds env content.create sketches → Adds env f.create sketches') :
    f.Reads sketches' := by
  constructor
  · rw [htexts, hinterpolated]
    exact h.interpolated
  · intro env hknows hsame
    rw [htexts, hinterpolated] at hsame
    exact hadds env (h.adds env (hknows.sublist hviews) hsame)

end Fragment

theorem Fragment.Reads.sketchOf_embed {view : Xref} {aliases : List AliasVariable}
    (h : content.Reads sketches)
    (hknows : env.Knows (embed ids view content contextVariables aliases).views) :
    env.sketchOf ids.xref = some sketches := by
  obtain ⟨view?, depth, hsketchOf, hdepth, hviews⟩ := hknows
  obtain ⟨hview, hviews⟩ := List.forall_mem_cons.1 hviews
  cases depth with
  | zero => simp [embed] at hdepth
  | succ depth =>
    have hcreate := (OpList.lists_ofList ids.createList content.create).toList
    have hupdate := (OpList.lists_ofList ids.updateList content.update).toList
    have hinner := h.adds
      { sketchOf := sketchOfView view? depth, interpolated := content.interpolated }
      ⟨view?, depth, rfl, Nat.le_of_succ_le_succ hdepth, hviews⟩ (fun _ _ => Iff.rfl) [] []
    rw [hsketchOf, sketchOfView]
    change (view? ids.xref).bind _ = _
    simp only [ViewIds.view] at hview
    rw [hview, Option.bind_some]
    simp only
    rw [hcreate, hupdate, readOps]
    rw [Fragment.interpolated] at hinner
    rw [hinner]
    simp [Reading.result?]

/-! ## Attributes, events and brackets -/

section Silent

variable {root target : Xref} {s t : Ids} {f : Fragment}

theorem Binds.leavesNoTrace (h : Binds root target f.create f.update) : f.Silent := by
  constructor
  · intro op hop
    cases h.create op hop <;> rfl
  · intro op hop
    obtain ⟨binding, rfl, -⟩ := h.update op hop
    rfl

theorem lowerBranchRoot_silent {children : List Template.Node} {tag : Option String}
    (h : Yields (lowerBranchRoot target children) s (tag, f) t) : f.Silent :=
  (attached_branchRoot target h).2.binds.leavesNoTrace

theorem isSilent_of_lowerBlockBrackets {i18n : Option I18n.Meta} {startSpan : SourceSpan}
    {endSpan : Option SourceSpan}
    (h : Yields (lowerBlockBrackets i18n startSpan endSpan) s (opening, closing) t) :
    (∀ op ∈ opening, op.isSilent = true) ∧ ∀ op ∈ closing, op.isSilent = true := by
  unfold lowerBlockBrackets at h
  split at h
  · simp only [yields_bind, yields_pure, Prod.mk.injEq] at h
    obtain ⟨xref, _, -, ⟨rfl, rfl⟩, -⟩ := h
    simp [CreateOp.isSilent]
  · simp only [yields_pure, Prod.mk.injEq] at h
    obtain ⟨⟨rfl, rfl⟩, -⟩ := h
    simp

theorem interpolated?_of_mem_map_binding {bindings : List Binding} :
    ∀ op ∈ bindings.map UpdateOp.binding, op.interpolated? = none := by
  intro op hop
  obtain ⟨binding, -, rfl⟩ := List.mem_map.1 hop
  rfl

end Silent

/-! ## Texts and ICU expressions -/

section Texts

variable {facts : JobFacts} {s t : Ids} {f : Fragment}

theorem TextLowering.reads {root : Xref} {sketches : List Sketch}
    (h : TextLowering root sketches s f t) : f.Reads sketches := by
  induction h with
  | nil => exact reads_empty
  | append hf hg ihf ihg => exact ihf.append ihg (texts_apart hf.plain.grows hg.plain.grows)
  | @text _ op _ hvalue =>
    refine ⟨by simp, fun env _ hsame => adds_singleton fun opened items => ?_⟩
    have hnot : op.xref ∉ env.interpolated := by
      simpa [CreateOp.text?] using hsame
    simp [Reading.read, Reading.part?, Reading.readPlain, Reading.add, hnot, hvalue]
  | @boundText _ _ op _ _ _ htarget =>
    refine ⟨by simp [CreateOp.text?, UpdateOp.interpolated?, htarget],
      fun env _ hsame => adds_singleton fun opened items => ?_⟩
    have hmem : op.xref ∈ env.interpolated := by
      simpa [CreateOp.text?, UpdateOp.interpolated?, htarget] using hsame
    simp [Reading.read, Reading.part?, Reading.readPlain, Reading.add, hmem]

theorem lowerIcu_reads {icu : Template.Icu} (h : Yields (lowerIcu facts icu) s f t) :
    f.Reads [.icu icu.texts] := by
  obtain ⟨start, texts, -, -, htexts, rfl⟩ := exists_of_lowerIcu h
  apply htexts.reads.around
  · simp [CreateOp.text?, List.filterMap_cons]
  · simp
  · simp
  · intro env hadds
    simpa using hadds.icu start

theorem lowerLet_reads {declaration : Template.LetDeclaration}
    (h : Yields (lowerLet facts declaration) s f t) :
    f.Reads [.letDeclaration declaration.name] := by
  simp only [lowerLet, yields_bind, yields_pure] at h
  obtain ⟨xref, _, -, value, _, -, rfl, -⟩ := h
  apply reads_of_interpolated_eq_nil rfl
  intro env _
  exact adds_singleton fun _ _ => rfl

end Texts

/-! ## Elements and embedded views -/

section Nodes

variable {facts : JobFacts} {view : Xref} {s t : Ids} {f : Fragment}

def ReadsIn (view : Xref) (nodes : List Template.Node) (s : Ids) (f : Fragment) (_ : Ids) : Prop :=
  view.index < s.nextXref → f.Reads (sketchNodes nodes)

theorem Fragment.Reads.element {bindings : Fragment} {start : ElementStart} {stop : EndOp}
    (h : content.Reads sketches) (hbindings : bindings.Silent)
    (hopening : ∀ op ∈ opening, op.isSilent = true) (hclosing : ∀ op ∈ closing, op.isSilent = true)
    (hstop : stop.xref = start.xref) :
    (Fragment.mk [.elementStart start] [] [] ++ bindings ++ Fragment.mk opening [] [] ++ content ++
      Fragment.mk (closing ++ [.elementEnd stop]) [] []).Reads [.element start.tag sketches] := by
  have hopened : (Fragment.mk opening [] []).Silent := ⟨hopening, by simp⟩
  have hclosed : (Fragment.mk closing [] []).Silent := ⟨hclosing, by simp⟩
  have htexts := hopened.texts_eq
  have htexts' := hclosed.texts_eq
  rw [texts_ops] at htexts htexts'
  apply h.around
  · simp [hbindings.texts_eq, htexts, htexts', CreateOp.text?, List.filterMap_cons]
  · simp [hbindings.interpolated_eq]
  · simp
  · intro env hadds
    have helement := hadds.element (hbindings.append hopened).create hclosing hstop
    simpa using helement

theorem Fragment.Reads.template {op : TemplateOp} {bindings : Fragment} (h : content.Reads sketches)
    (hbindings : bindings.Silent) (hxref : op.xref = ids.xref) (hkind : op.kind ≠ .block)
    (hopening : ∀ op ∈ opening, op.isSilent = true)
    (hclosing : ∀ op ∈ closing, op.isSilent = true) :
    (Fragment.mk [.template op] [] [] ++ bindings ++
      embed ids view (Fragment.mk opening [] [] ++ content ++ Fragment.mk closing [] [])
        contextVariables []).Reads [.template sketches] := by
  have hopened : (Fragment.mk opening [] []).Silent := ⟨hopening, by simp⟩
  have hclosed : (Fragment.mk closing [] []).Silent := ⟨hclosing, by simp⟩
  have hbracketed : (Fragment.mk opening [] [] ++ content ++ Fragment.mk closing [] []).Reads
      sketches := by
    apply h.around
    · rw [texts_append, texts_append, hopened.texts_eq, hclosed.texts_eq, List.nil_append,
        List.append_nil]
    · simp
    · simp
    · intro env hadds
      simpa using ((adds_of_isSilent hopening).append hadds).append (adds_of_isSilent hclosing)
  apply reads_of_interpolated_eq_nil
  · simp [hbindings.interpolated_eq, embed]
  · intro env hknows
    have hsketch := hbracketed.sketchOf_embed (hknows.sublist (List.sublist_append_right _ _))
    have hop : Adds env [.template op] [.template sketches] := by
      apply adds_singleton
      intro opened items
      simp [Reading.read, Reading.part?, Reading.readPlain, Reading.add, hkind, hxref, hsketch]
    simpa [embed] using hop.append (adds_of_isSilent hbindings.create)

theorem hasFallback_eq (children : List Template.Node) :
    hasFallback children = !children.all Template.Node.isPadding := by
  rw [hasFallback, List.not_all_eq_any_not]
  congr 1
  funext node
  cases node <;> rfl

theorem reads_projection {fallback : Fragment} {op : ProjectionOp} {bindings : List Binding}
    {children : Option (List Sketch)} (hcreate : fallback.create = [])
    (hupdate : fallback.update = []) (hsketch : ∀ env : Surroundings, env.Knows fallback.views →
      op.fallbackView.mapM env.sketchOf = some children) :
    (fallback ++ Fragment.mk [.projection op] (bindings.map .binding) []).Reads
      [.content op.selector children] := by
  apply reads_of_interpolated_eq_nil
  · simp only [interpolated_append, interpolated_ops, List.append_eq_nil_iff]
    exact ⟨by simp [Fragment.interpolated, hupdate],
      List.filterMap_eq_nil_iff.2 interpolated?_of_mem_map_binding⟩
  · intro env hknows
    have hfallback := hsketch env (hknows.sublist (List.sublist_append_left _ _))
    rw [create_append, hcreate, List.nil_append]
    apply adds_singleton
    intro opened items
    simp [Reading.read, Reading.part?, Reading.readPlain, Reading.add, hfallback]

/-! ## Branches -/

/-- The fragment adds further branches to the control flow block that was read last. -/
structure Fragment.Continues (f : Fragment) (branches : List (List Sketch)) : Prop where
  interpolated : f.interpolated = []
  adds : ∀ env : Surroundings, env.Knows f.views → ∀ opened items known,
    f.create.foldlM (Reading.read env) { opened, items := .branches known :: items } =
      some { opened, items := .branches (known ++ branches) :: items }

theorem continues_empty : ({} : Fragment).Continues [] := by
  constructor
  · rfl
  · intro env _ opened items known
    rw [List.append_nil]
    rfl

/-- The branches open a block of their own, unless they continue one. -/
def Fragment.ReadsBranches (isFirst : Bool) (f : Fragment) (branches : List (List Sketch)) : Prop :=
  if isFirst then f.Reads (if branches.isEmpty then [] else [.branches branches])
  else f.Continues branches

theorem readsBranches_empty (isFirst : Bool) : ({} : Fragment).ReadsBranches isFirst [] := by
  cases isFirst with
  | false => exact continues_empty
  | true => exact reads_empty

theorem Fragment.Continues.readsBranches_cons {op : BranchOp} {copies others : Fragment}
    {branches : List (List Sketch)} (h : others.Continues branches)
    (hcontent : content.Reads sketches) (hcopies : copies.Silent) (hxref : op.xref = ids.xref)
    (isFirst : Bool) :
    (copies ++ Fragment.mk [branchOp isFirst op] [] [] ++
      embed ids view content contextVariables [] ++ others).ReadsBranches isFirst
        (sketches :: branches) := by
  have hinterpolated : (copies ++ Fragment.mk [branchOp isFirst op] [] [] ++
      embed ids view content contextVariables [] ++ others).interpolated = [] := by
    simp [hcopies.interpolated_eq, h.interpolated, embed]
  have hviews : (embed ids view content contextVariables []).views.Sublist
      (copies ++ Fragment.mk [branchOp isFirst op] [] [] ++
        embed ids view content contextVariables [] ++ others).views := by
    simp
  cases isFirst with
  | false =>
    refine ⟨hinterpolated, fun env hknows opened items known => ?_⟩
    have hsketch := hcontent.sketchOf_embed (hknows.sublist hviews)
    have hothers := h.adds env (hknows.sublist (List.sublist_append_right _ _)) opened items
      (known ++ [sketches])
    simp only [create_append, List.append_assoc]
    rw [List.foldlM_append, adds_of_isSilent hcopies.create]
    simpa [embed, branchOp, Reading.read, Reading.part?, Reading.readPlain, hxref, hsketch] using
      hothers
  | true =>
    refine reads_of_interpolated_eq_nil hinterpolated fun env hknows opened items => ?_
    have hsketch := hcontent.sketchOf_embed (hknows.sublist hviews)
    have hothers := h.adds env (hknows.sublist (List.sublist_append_right _ _)) opened items
      [sketches]
    simp only [create_append, List.append_assoc]
    rw [List.foldlM_append, adds_of_isSilent hcopies.create]
    simpa [embed, branchOp, Reading.read, Reading.part?, Reading.readPlain, Reading.add, hxref,
      hsketch] using hothers

theorem Fragment.Reads.conditional (h : f.Reads sketches) (op : ConditionalOp) :
    (f ++ Fragment.mk [] [.conditional op] []).Reads sketches := by
  apply h.around
  · simp
  · simp [UpdateOp.interpolated?]
  · simp
  · intro env hadds
    simpa using hadds

theorem BranchLowering.reads {isFirst : Bool} {sequences : List (List Template.Node)}
    {cases : List ConditionalCase}
    (h : BranchLowering facts ReadsIn view isFirst sequences s f cases t) :
    f.ReadsBranches isFirst (sequences.map sketchNodes) := by
  induction h with
  | nil => exact readsBranches_empty _
  | cons isFirst _ hids hcopies hcondition hcontent _ hop _ ih =>
    have hle := (loweredExprs_lowerCondition hcondition).draws.le
    have hcontent := hcontent (index_lt_of_freshView hids hle)
    exact ih.readsBranches_cons hcontent (lowerBranchRoot_silent hcopies) hop isFirst

theorem BlockLowering.reads {sequences : List (List Template.Node)}
    (h : BlockLowering facts ReadsIn view sequences s f t) :
    f.Reads (if sequences.isEmpty then [] else [.branches (sequences.map sketchNodes)]) := by
  cases h with
  | nil => exact reads_empty
  | cons test hbranches => exact Fragment.Reads.conditional hbranches.reads _

/-! ## Loops and deferred blocks -/

theorem EmptyLowering.reads {part : Option (List Template.Node)} {emptyView : Option Xref}
    (h : EmptyLowering ReadsIn view part s emptyView f t) :
    f.Silent ∧ ∀ env : Surroundings, env.Knows f.views →
      emptyView.mapM env.sketchOf = some (part.map sketchNodes) := by
  cases h with
  | absent => exact ⟨⟨by simp, by simp⟩, fun _ _ => rfl⟩
  | present ids hids hcontent hcopies =>
    have hcontent := hcontent (index_lt_of_freshView hids (Nat.le_refl _))
    constructor
    · exact (lowerBranchRoot_silent hcopies).append ⟨by simp [embed], by simp [embed]⟩
    · intro env hknows
      have hsketch := hcontent.sketchOf_embed (hknows.sublist (List.sublist_append_right _ _))
      simp [hsketch]

theorem reads_loop {op : RepeaterCreate} {repeater : RepeaterOp} {other copies : Fragment}
    {empty : Option (List Sketch)} {aliases : List AliasVariable}
    (hcontent : content.Reads sketches) (hother : other.Silent) (hcopies : copies.Silent)
    (hempty : ∀ env : Surroundings, env.Knows other.views →
      op.emptyView.mapM env.sketchOf = some empty) (hxref : op.xref = ids.xref) :
    (embed ids view content contextVariables aliases ++ other ++ copies ++
      Fragment.mk [.repeaterCreate op] [.repeater repeater] []).Reads [.loop sketches empty] := by
  apply reads_of_interpolated_eq_nil
  · simp [hother.interpolated_eq, hcopies.interpolated_eq, embed, UpdateOp.interpolated?]
  · intro env hknows
    have hviews := hknows.sublist (List.sublist_append_left _ _)
    have hviews' := hviews.sublist (List.sublist_append_left _ _)
    have hsketch :=
      hcontent.sketchOf_embed (hviews'.sublist (List.sublist_append_left _ _))
    have hempty := hempty env (hviews'.sublist (List.sublist_append_right _ _))
    have hop : Adds env [.repeaterCreate op] [.loop sketches empty] := by
      apply adds_singleton
      intro opened items
      simp [Reading.read, Reading.part?, Reading.readPlain, Reading.add, hxref, hsketch, hempty]
    have hsilent := (hother.append hcopies).create
    simpa [embed] using (adds_of_isSilent hsilent).append hop

/-- The fragment declares the view of a part of a deferred block, if there is one. -/
structure Fragment.HoldsPart (f : Fragment) (partView : Option Xref)
    (part : Option (List Sketch)) : Prop where
  interpolated : f.interpolated = []
  adds : ∀ env : Surroundings, env.Knows f.views →
    ∃ held, (∀ parts, takePart partView (held ++ parts) = some (part, parts)) ∧
      ∀ opened items parts, f.create.foldlM (Reading.read env) { opened, items, parts } =
        some { opened, items, parts := parts ++ held }

theorem holdsPart_none : ({} : Fragment).HoldsPart none none := by
  constructor
  · rfl
  · intro env _
    refine ⟨[], fun _ => rfl, ?_⟩
    intro opened items parts
    rw [List.append_nil]
    rfl

theorem Fragment.Reads.holdsPart (h : content.Reads sketches) (suffix : String)
    (placeholder : Option I18n.BlockPlaceholder) (block : Template.BlockSpans) :
    (embedDeferred ids view suffix placeholder block content).HoldsPart (some ids.xref)
      (some sketches) := by
  constructor
  · rfl
  · intro env hknows
    have hsketch := h.sketchOf_embed (hknows.sublist (List.sublist_append_right _ _))
    refine ⟨[(ids.xref, sketches)], ?_, ?_⟩
    · intro parts
      simp [takePart]
    · intro opened items parts
      simp [embedDeferred, embed, Reading.read, Reading.part?, hsketch]

theorem PartLowering.holdsPart {part : Option (List Template.Node)} {partView : Option Xref}
    (h : PartLowering ReadsIn view part s partView f t) :
    f.HoldsPart partView (part.map sketchNodes) := by
  cases h with
  | absent => exact holdsPart_none
  | present ids suffix placeholder block hids hcontent =>
    exact (hcontent (index_lt_of_freshView hids (Nat.le_refl _))).holdsPart suffix placeholder block

theorem reads_deferred {op : DeferOp} {triggers : DeferTriggers} {main f₁ f₂ f₃ : Fragment}
    {loading placeholder error : Option (List Sketch)}
    (hmain : main.HoldsPart (some op.mainView) (some sketches))
    (h₁ : f₁.HoldsPart op.loadingView loading) (h₂ : f₂.HoldsPart op.placeholderView placeholder)
    (h₃ : f₃.HoldsPart op.errorView error) :
    (main ++ f₁ ++ f₂ ++ f₃ ++ Fragment.mk (.defer op :: triggers.on.map .deferOn)
      (triggers.when_.map .deferWhen) []).Reads
        [.deferred sketches loading placeholder error] := by
  apply reads_of_interpolated_eq_nil
  · simp [hmain.interpolated, h₁.interpolated, h₂.interpolated, h₃.interpolated,
      UpdateOp.interpolated?]
  · intro env hknows opened items
    have hviews := hknows.sublist (List.sublist_append_left _ _)
    have hviews' := hviews.sublist (List.sublist_append_left _ _)
    have hviews'' := hviews'.sublist (List.sublist_append_left _ _)
    obtain ⟨held, htake, hread⟩ :=
      hmain.adds env (hviews''.sublist (List.sublist_append_left _ _))
    obtain ⟨held₁, htake₁, hread₁⟩ :=
      h₁.adds env (hviews''.sublist (List.sublist_append_right _ _))
    obtain ⟨held₂, htake₂, hread₂⟩ :=
      h₂.adds env (hviews'.sublist (List.sublist_append_right _ _))
    obtain ⟨held₃, htake₃, hread₃⟩ :=
      h₃.adds env (hviews.sublist (List.sublist_append_right _ _))
    have htriggers : ∀ op ∈ triggers.on.map CreateOp.deferOn, op.isSilent = true := by
      intro op hop
      obtain ⟨trigger, -, rfl⟩ := List.mem_map.1 hop
      rfl
    have htake₃' := htake₃ []
    rw [List.append_nil] at htake₃'
    have hsketch : op.sketch? (held ++ (held₁ ++ (held₂ ++ held₃))) =
        some (.deferred sketches loading placeholder error) := by
      simp [DeferOp.sketch?, htake, htake₁, htake₂, htake₃']
    simp only [create_append, List.append_assoc, List.foldlM_append, hread, hread₁, hread₂, hread₃,
      Option.bind_eq_bind, Option.bind_some, List.foldlM_cons, List.nil_append]
    simpa [Reading.read, Reading.part?, hsketch, Reading.add] using
      adds_of_isSilent htriggers opened (.deferred sketches loading placeholder error :: items)

/-! ## Nodes -/

theorem NodeLowering.reads {node : Template.Node} (h : NodeLowering facts ReadsIn view node s f t)
    (hview : view.index < s.nextXref) : f.Reads node.sketch := by
  cases h with
  | comment => exact reads_empty
  | text h => exact (textLowering_lowerText facts.root h).reads
  | boundText h => exact (textLowering_lowerBoundText h).reads
  | icu h => exact lowerIcu_reads h
  | letDeclaration h => exact lowerLet_reads h
  | element _ hbindings hbrackets hcontent _ htag hstop =>
    have hle := (attached_elementBindings hbindings).plain.grows.le
    have hle' := (lowerBlockBrackets_spec hbrackets).grows.le
    simp only at hle
    obtain ⟨hopening, hclosing⟩ := isSilent_of_lowerBlockBrackets hbrackets
    rw [Template.Node.sketch, Template.Element.sketch_eq, ← htag]
    exact (hcontent (by omega)).element (attached_elementBindings hbindings).binds.leavesNoTrace hopening
      hclosing hstop
  | template template contextVariables _ hids hbindings hcontent hbrackets hop hkind =>
    have hle := (attached_templateBindings hbindings).plain.grows.le
    obtain ⟨hopening, hclosing⟩ := isSilent_of_lowerBlockBrackets hbrackets
    rw [Template.Node.sketch, Template.EmbeddedTemplate.sketch_eq]
    exact (hcontent (index_lt_of_freshView hids hle)).template
      (attached_templateBindings hbindings).binds.leavesNoTrace hop hkind hopening hclosing
  | content hfallback _ hnone hselector =>
    rw [hasFallback_eq, Bool.not_eq_false'] at hfallback
    rw [Template.Node.sketch, Template.Content.sketch_eq, if_pos hfallback, ← hselector]
    exact reads_projection rfl rfl fun _ _ => by rw [hnone]; rfl
  | contentFallback hfallback hids hcontent _ hsome hselector =>
    rw [hasFallback_eq, Bool.not_eq_true'] at hfallback
    rw [Template.Node.sketch, Template.Content.sketch_eq, if_neg (by simp [hfallback]), ← hselector]
    apply reads_projection rfl rfl
    intro env hknows
    have hcontent := hcontent (index_lt_of_freshView hids (Nat.le_refl _))
    simp [hsome, hcontent.sketchOf_embed hknows]
  | ifBlock h =>
    rw [Template.Node.sketch, Template.sketchBranches_eq, ← List.isEmpty_map]
    exact h.reads
  | switchBlock h =>
    rw [Template.Node.sketch, Template.sketchCases_eq, ← List.isEmpty_map]
    exact h.reads
  | forBlock hids _ htrack hcontent hempty hcopies _ hop =>
    have hcontent := hcontent (index_lt_of_freshView hids (Ast.draws_pipes htrack).le)
    obtain ⟨hother, hsketch⟩ := hempty.reads
    rw [Template.Node.sketch, Template.ForBlock.sketch_eq]
    exact reads_loop hcontent hother (lowerBranchRoot_silent hcopies) hsketch hop
  | deferBlock hmain hloading hplaceholder herror =>
    rw [Template.Node.sketch, Template.DeferBlock.sketch_eq]
    exact reads_deferred hmain.holdsPart hloading.holdsPart hplaceholder.holdsPart herror.holdsPart

end Nodes

theorem lowerNodes_reads {nodes : List Template.Node} (hview : view.index < s.nextXref)
    (h : Yields (lowerNodes facts view nodes) s f t) : f.Reads (sketchNodes nodes) := by
  refine (lowerNodes_induction
    (motive := fun view nodes s f t => LoweredIn view nodes s f t ∧ ReadsIn view nodes s f t)
    ?_ ?_ h).2 hview
  · intro view s
    exact ⟨fun _ => (plain_empty s).lowered view, fun _ => reads_empty⟩
  · intro view node nodes s u t f g hnode hothers
    have hlowered : view.index < s.nextXref → f.Lowered view s u :=
      (hnode.mono fun _ _ _ _ _ _ h => h.1).lowered
    have hreads : view.index < s.nextXref → f.Reads node.sketch :=
      (hnode.mono fun _ _ _ _ _ _ h => h.2).reads
    constructor
    · intro hview
      have hle := (hlowered hview).grows.le
      exact (hlowered hview).append (hothers.1 (by omega))
    · intro hview
      have hgrows := (hlowered hview).grows
      have hle := hgrows.le
      have hgrows' := (hothers.1 (by omega)).grows
      exact (hreads hview).append (hothers.2 (by omega)) (texts_apart hgrows hgrows')

/-! ## The job of a template -/

variable {component : String} {template : List Template.Node} {options : Options} {job : Job}

/-- The sketch of a template is what is read in its job: nothing of the template is lost, nothing is
there twice, and everything stands in its order. -/
theorem Job.ofTemplate_preserves_sketch (h : ofTemplate component template options = .ok job) :
    job.sketch? = some (sketchNodes template) := by
  obtain ⟨fragment, facts, hyields, hroot, hviews, -⟩ := exists_lowering h
  have hintact := (ofTemplate_intact h).1
  have hreads := lowerNodes_reads Nat.zero_lt_one hyields
  have hknows : ∀ view ∈ fragment.views, job.unit? view.xref = some view := by
    intro view hview
    rw [← hviews] at hview
    exact hintact.unit?_eq (List.mem_cons_of_mem _ hview)
  have hadds := hreads.adds
    { sketchOf := sketchOfView job.unit? job.views.length, interpolated := fragment.interpolated }
    ⟨job.unit?, job.views.length, rfl, Nat.le_of_eq (by rw [hviews]), hknows⟩
    (fun _ _ => Iff.rfl) [] []
  rw [sketch?, units, List.length_cons, sketchOfView, hintact.unit?_eq List.mem_cons_self]
  simp only [Option.bind_eq_bind, Option.bind_some]
  rw [hroot.create.toList, hroot.update.toList, readOps]
  rw [Fragment.interpolated] at hadds
  rw [hadds]
  simp [Reading.result?]

theorem Job.ofTemplate_preserves_sketch_gallery :
    ∃ job, ofTemplate "Gallery" gallery {} = .ok job ∧
      job.sketch? = some (sketchNodes gallery) := by
  have hok : (ofTemplate "Gallery" gallery {}).isOk = true := by decide +kernel
  obtain ⟨job, hjob⟩ := exists_eq_ok_of_isOk hok
  exact ⟨job, hjob, ofTemplate_preserves_sketch hjob⟩

end TemplateLowering
