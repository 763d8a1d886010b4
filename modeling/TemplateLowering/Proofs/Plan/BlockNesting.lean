import TemplateLowering.Proofs.Job.Intact
import TemplateLowering.Proofs.Pass.BlockWalk
import TemplateLowering.Proofs.Template.Sketch

/-!
# Nested blocks

Which views the propagation of blocks gives a block of their own.  It is decided by the operation
that declares the view and by the last start or end of a block before it, which may itself have been
put there in the same walk.
-/

namespace TemplateLowering

variable {ops : List CreateOp} {n : Nat} {unit view view' : View} {placed : Bool}

/-! ## The open block at a declaration -/

def CreateOp.boundary? : CreateOp → Option (Option I18nStart)
  | .i18nStart op => some (some op)
  | .i18nEnd _ => some none
  | _ => none

/-- The block that is open after the operations: the last start or end of a block is its start. -/
def openBlock? (ops : List CreateOp) : Option I18nStart :=
  (ops.reverse.findSome? CreateOp.boundary?).join

/-- The content of a view was put in a new block, with the root and the message of another. -/
def View.WrappedIn (start : I18nStart) (n : Nat) (view view' : View) : Prop :=
  SameButNumbers
    (.i18nStart { xref := ⟨n⟩, root := start.root, message := start.message, span := none } ::
      (view.create.toList ++ [.i18nEnd { xref := ⟨n⟩, span := none }]))
    view'.create.toList

def BlockMark.after (block : Option OpenBlock) : BlockMark → Option OpenBlock
  | .start op => some op.opened
  | .stop => none
  | .view _ _ => block

theorem openBlock?_append (ops : List CreateOp) (op : CreateOp) :
    openBlock? (ops ++ [op]) = (op.boundary?.getD (openBlock? ops)) := by
  rw [openBlock?, List.reverse_append, List.reverse_singleton, List.singleton_append,
    List.findSome?_cons]
  cases op.boundary? <;> rfl

theorem foldl_views (declared : List (Xref × Bool)) (block : Option OpenBlock) :
    (declared.map fun view => BlockMark.view view.1 view.2).foldl BlockMark.after block = block := by
  induction declared with
  | nil => rfl
  | cons view declared ih => exact ih

theorem CreateOp.foldl_blockMarks (op : CreateOp) (block : Option I18nStart) :
    op.blockMarks.foldl BlockMark.after (block.map I18nStart.opened) =
      (op.boundary?.getD block).map I18nStart.opened := by
  cases op with
  | i18nStart op => rfl
  | i18nEnd op => rfl
  | _ => exact foldl_views _ _

theorem foldl_blockMarks (ops : List CreateOp) :
    (ops.flatMap CreateOp.blockMarks).foldl BlockMark.after none =
      (openBlock? ops).map I18nStart.opened := by
  induction ops using List.reverseRecOn with
  | nil => rfl
  | append_singleton ops op ih =>
    rw [List.flatMap_append, List.flatMap_singleton, List.foldl_append, ih, openBlock?_append,
      op.foldl_blockMarks]

theorem mem_of_openBlock? {start : I18nStart} (h : openBlock? ops = some start) :
    .i18nStart start ∈ ops := by
  induction ops using List.reverseRecOn with
  | nil => cases h
  | append_singleton ops op ih =>
    rw [openBlock?_append] at h
    rw [List.mem_append, List.mem_singleton]
    cases op with
    | i18nStart op =>
      obtain rfl : op = start := Option.some.inj h
      exact .inr rfl
    | i18nEnd op => cases h
    | _ => exact .inl (ih h)

/-! ## What becomes of a declared view -/

def View.ChangedIn (n : Nat) (view view' : View) : Option OpenBlock → Prop
  | some parent => ∃ k, n ≤ k ∧
      SameButNumbers (parent.enclose ⟨k⟩ view.create.toList) view'.create.toList
  | none => SameButNumbers view.create.toList view'.create.toList

/-- Every view that is declared in the marks is changed by the block that is open there. -/
def DeclaredChanged (n : Nat) (block : Option OpenBlock) (marks : List BlockMark)
    (views views' : List View) : Prop :=
  ∀ front xref placed back, marks = front ++ .view xref placed :: back →
    ∃ view ∈ views, ∃ view' ∈ views', view.xref = xref ∧ view'.xref = xref ∧
      view.ChangedIn n view' (enclosing placed (front.foldl BlockMark.after block))

theorem DeclaredChanged.mono {block : Option OpenBlock} {marks : List BlockMark}
    {views views' more more' : List View} (h : DeclaredChanged n block marks views views')
    (hviews : views ⊆ more) (hviews' : views' ⊆ more') :
    DeclaredChanged n block marks more more' := by
  intro front xref placed back hmarks
  obtain ⟨view, hview, view', hview', hrest⟩ := h front xref placed back hmarks
  exact ⟨view, hviews hview, view', hviews' hview', hrest⟩

theorem DeclaredChanged.cons {block : Option OpenBlock} {mark : BlockMark} {marks : List BlockMark}
    {views views' : List View} (h : DeclaredChanged n (mark.after block) marks views views')
    (hmark : ∀ xref placed, mark = .view xref placed → ∃ view ∈ views, ∃ view' ∈ views',
      view.xref = xref ∧ view'.xref = xref ∧ view.ChangedIn n view' (enclosing placed block)) :
    DeclaredChanged n block (mark :: marks) views views' := by
  intro front xref placed back hmarks
  cases front with
  | nil =>
    obtain ⟨rfl, -⟩ := List.cons.inj hmarks
    exact hmark xref placed rfl
  | cons first front =>
    obtain ⟨rfl, hrest⟩ := List.cons.inj hmarks
    exact h front xref placed back hrest

section Traces

variable {block : Option OpenBlock} {tally tally' : Tally} {marks marks' : List BlockMark}
  {views views' : List View} {n : Nat}

theorem Enters.next_le (h : Enters block tally view view' tally') : tally.next ≤ tally'.next := by
  cases h with
  | wrap => exact Nat.le_succ _
  | keep => exact Nat.le_refl _

theorem Traces.next_le (h : Traces block tally marks views marks' views' tally') :
    tally.next ≤ tally'.next := by
  induction h with
  | nil => exact Nat.le_refl _
  | start _ ih => exact ih
  | stop _ ih =>
    rw [Tally.closed_eq] at ih
    exact ih
  | view _ henters _ _ _ _ ihbelow ihrest =>
    exact henters.next_le.trans (ihbelow.trans ihrest)

theorem Enters.changedIn {entered : View} (h : Enters block tally view entered tally')
    (hn : n ≤ tally.next) (hsame : SameButNumbers entered.create.toList view'.create.toList) :
    view.ChangedIn n view' block := by
  cases h with
  | wrap hxref hops => exact ⟨tally.next, hn, hops ▸ hsame⟩
  | keep => exact hsame

theorem Traces.declaredChanged (h : Traces block tally marks views marks' views' tally')
    (hn : n ≤ tally.next) :
    DeclaredChanged n block marks' views views' ∧
      ∀ view' ∈ views', DeclaredChanged n none view'.blockMarks views views' := by
  induction h with
  | nil => exact ⟨fun front _ _ _ hmarks => by simp at hmarks, by simp⟩
  | start _ ih =>
    obtain ⟨hmarks, hviews⟩ := ih hn
    exact ⟨hmarks.cons (by simp), hviews⟩
  | stop _ ih =>
    rw [Tally.closed_eq] at ih
    obtain ⟨hmarks, hviews⟩ := ih hn
    exact ⟨hmarks.cons (by simp), hviews⟩
  | @view _ _ _ _ _ _ view _ view' _ _ below below' rest rest' _ henters hbelow hxref hsame _
      ihbelow ihrest =>
    obtain ⟨hview, hbelow'⟩ := ihbelow (hn.trans henters.next_le)
    obtain ⟨hmarks, hrest⟩ := ihrest (hn.trans (henters.next_le.trans hbelow.next_le))
    have hbelowSub : below ⊆ view :: (below ++ rest) :=
      fun _ h => List.mem_cons_of_mem _ (List.mem_append_left _ h)
    have hbelowSub' : below' ⊆ view' :: (below' ++ rest') :=
      fun _ h => List.mem_cons_of_mem _ (List.mem_append_left _ h)
    have hrestSub : rest ⊆ view :: (below ++ rest) :=
      fun _ h => List.mem_cons_of_mem _ (List.mem_append_right _ h)
    have hrestSub' : rest' ⊆ view' :: (below' ++ rest') :=
      fun _ h => List.mem_cons_of_mem _ (List.mem_append_right _ h)
    refine ⟨DeclaredChanged.cons (hmarks.mono hrestSub hrestSub') ?_, ?_⟩
    · intro xref placed hmark
      obtain ⟨rfl, rfl⟩ := BlockMark.view.inj hmark
      exact ⟨view, List.mem_cons_self, view', List.mem_cons_self, rfl, hxref,
        henters.changedIn hn hsame⟩
    · rw [List.forall_mem_cons, List.forall_mem_append]
      exact ⟨hview.mono hbelowSub hbelowSub', fun inner h => (hbelow' inner h).mono hbelowSub hbelowSub',
        fun inner h => (hrest inner h).mono hrestSub hrestSub'⟩

end Traces

/-! ## Blocks and their roots -/

theorem SameButNumbers.exists_start {ops' : List CreateOp} (h : SameButNumbers ops ops')
    {start' : I18nStart} (hstart : .i18nStart start' ∈ ops') :
    ∃ start, .i18nStart start ∈ ops ∧ start.xref = start'.xref ∧ start.root = start'.root ∧
      start.message = start'.message := by
  have hmem : CreateOp.unnumbered (.i18nStart start') ∈ ops.map CreateOp.unnumbered := by
    rw [← h]
    exact List.mem_map_of_mem hstart
  obtain ⟨op, hop, heq⟩ := List.mem_map.1 hmem
  cases op with
  | i18nStart start =>
    simp only [CreateOp.unnumbered, CreateOp.i18nStart.injEq, I18nStart.mk.injEq] at heq
    exact ⟨start, hop, by simp [heq], by simp [heq], by simp [heq]⟩
  | _ => cases heq

theorem CreateOp.mem_blockMarks_of_embeds {op : CreateOp} {xref : Xref}
    (h : (xref, placed) ∈ op.embeds) :
    ∃ front back, op.blockMarks = front ++ .view xref placed :: back ∧
      ∀ block, front.foldl BlockMark.after block = block := by
  obtain ⟨front, back, hsplit⟩ := List.append_of_mem h
  refine ⟨front.map fun view => .view view.1 view.2, back.map fun view => .view view.1 view.2, ?_,
    foldl_views front⟩
  have hmarks : op.blockMarks = op.embeds.map fun view => .view view.1 view.2 := by
    cases op with
    | i18nStart op => simp [embeds] at h
    | i18nEnd op => simp [embeds] at h
    | _ => rfl
  rw [hmarks, hsplit, List.map_append, List.map_cons]

/-- One view stands in the other, at any depth. -/
def Job.Above (job : Job) : View → View → Prop :=
  Relation.TransGen fun outer inner => outer ∈ job.units ∧ inner.parent = some outer.xref

section Template

variable {component : String} {template : List Template.Node} {options : Options} {job job' : Job}

theorem Job.forest_of_ofTemplate (h : Job.ofTemplate component template options = .ok job)
    {region : Region} (hregion : region.Admits template) :
    Forest region job.root.blockMarks job.views := by
  obtain ⟨fragment, facts, hyields, hroot, hviews, -⟩ := Job.exists_lowering h
  rw [View.blockMarks, hroot.create.toList, hviews]
  exact (lowerNodes_planted hregion hyields).forest

theorem Job.roots_of_ofTemplate (h : Job.ofTemplate component template options = .ok job) :
    ∀ view ∈ job.units, ∀ start, .i18nStart start ∈ view.create.toList →
      start.root = start.xref := by
  obtain ⟨fragment, s, -, ⟨-, hfits⟩, hroot, hviews, -⟩ := Job.exists_lowered h
  have hroots : ∀ view ∈ job.units, ∀ block ∈ view.blocks, block.root = block.xref := by
    rw [Job.units, hviews, List.forall_mem_cons]
    exact ⟨hroot.roots hfits.sound, fun view hview => (hfits.sound.views view hview).roots⟩
  intro view hview start hstart
  exact hroots view hview ⟨start.xref, start.root, start.message⟩
    (List.mem_flatMap.2 ⟨_, hstart, List.mem_singleton_self _⟩)

theorem Job.Intact.nodup_xrefs (h : job.Intact) : (job.units.map View.xref).Nodup := by
  have hnodup := (distinct_iff.1 h.distinct).1
  rw [List.map_eq_flatMap]
  refine hnodup.sublist (List.Sublist.flatMap_right _ fun view _ => ?_)
  simp [View.xrefs]

theorem Job.Tree.exists_embeds (h : job.Tree) (hview : view ∈ job.views) :
    ∃ parent ∈ job.units, view.parent = some parent.xref ∧
      ∃ op ∈ parent.create.toList, ∃ placed, (view.xref, placed) ∈ op.embeds := by
  obtain ⟨parent, hparent, hedge, hdeclared⟩ := h.exists_parent hview
  obtain ⟨op, hop, hmem⟩ := List.mem_flatMap.1 hdeclared
  rw [CreateOp.declaredViews_eq_embeds] at hmem
  obtain ⟨⟨xref, placed⟩, hembeds, rfl⟩ := List.mem_map.1 hmem
  exact ⟨parent, hparent, hedge, op, hop, placed, hembeds⟩

theorem Job.propagateI18nBlocks_of_ofTemplate
    (h : Job.ofTemplate component template options = .ok job) :
    ∃ job' index, job.propagateI18nBlocks = .ok job' ∧ job.Turns id job' ∧
      List.Forall₂ View.Reblocked job.units job'.units ∧
      SameButNumbers job.root.create.toList job'.root.create.toList ∧
      Traces none ⟨0, job.ids.nextXref⟩ job.root.blockMarks job.views job'.root.blockMarks
        job'.views ⟨index, job'.ids.nextXref⟩ := by
  obtain ⟨hintact, -⟩ := Job.ofTemplate_intact h
  obtain ⟨job', hrun, hturns, hreblocked, -⟩ := Job.propagateI18nBlocks_turns hintact.sound
    hintact.rooted fun view hview xref hxref => hintact.tree.declared_lt hview hxref
  obtain ⟨job'', index, hrun', -, hsame, htraces⟩ := Job.propagateI18nBlocks_traces
    hintact.nodup_xrefs (fun view hview => (hintact.sound view hview).create)
    (Job.forest_of_ofTemplate h trivial)
  obtain rfl : job' = job'' := Except.ok.inj (hrun.symm.trans hrun')
  exact ⟨job', index, hrun, hturns, hreblocked, hsame, htraces⟩

def View.ChangedAfter (n : Nat) (ops : List CreateOp) (placed : Bool) (view view' : View) : Prop :=
  match placed, openBlock? ops with
  | true, some start => ∃ k, n ≤ k ∧ View.WrappedIn start k view view'
  | _, _ => SameButNumbers view.create.toList view'.create.toList

theorem View.changedAfter_of_changedIn
    (h : view.ChangedIn n view' (enclosing placed ((openBlock? ops).map I18nStart.opened))) :
    view.ChangedAfter n ops placed view' := by
  unfold ChangedAfter
  cases placed with
  | false => exact h
  | true =>
    cases hopen : openBlock? ops with
    | none =>
      rw [hopen] at h
      exact h
    | some start =>
      rw [hopen] at h
      exact h

theorem DeclaredChanged.changedAfter {views views' : List View}
    (h : DeclaredChanged n none unit.blockMarks views views') {before after : List CreateOp}
    {declaring : CreateOp} (hops : unit.create.toList = before ++ declaring :: after) {xref : Xref}
    (hembeds : (xref, placed) ∈ declaring.embeds) :
    ∃ view ∈ views, ∃ view' ∈ views', view.xref = xref ∧ view'.xref = xref ∧
      view.ChangedAfter n before placed view' := by
  obtain ⟨front, back, hmarks, hfold⟩ := CreateOp.mem_blockMarks_of_embeds hembeds
  have hsplit : unit.blockMarks = (before.flatMap CreateOp.blockMarks ++ front) ++
      .view xref placed :: (back ++ after.flatMap CreateOp.blockMarks) := by
    simp [View.blockMarks, hops, hmarks]
  obtain ⟨view, hview, view', hview', hxref, hxref', hchanged⟩ := h _ _ _ _ hsplit
  rw [List.foldl_append, hfold, foldl_blockMarks] at hchanged
  exact ⟨view, hview, view', hview', hxref, hxref', View.changedAfter_of_changedIn hchanged⟩

theorem View.ChangedAfter.start_mem (h : view.ChangedAfter n ops placed view') {start : I18nStart}
    (hstart : .i18nStart start ∈ view'.create.toList) :
    (∃ former, .i18nStart former ∈ view.create.toList ∧ former.xref = start.xref ∧
      former.root = start.root) ∨
    ∃ outer, .i18nStart outer ∈ ops ∧ start.root = outer.root ∧ start.message = outer.message := by
  unfold ChangedAfter at h
  split at h
  · rename_i outer hopen
    obtain ⟨k, -, hwrapped⟩ := h
    obtain ⟨former, hformer, hxref, hroot, hmessage⟩ := hwrapped.exists_start hstart
    rcases List.mem_cons.1 hformer with heq | hformer
    · obtain rfl := CreateOp.i18nStart.inj heq
      exact .inr ⟨outer, mem_of_openBlock? hopen, hroot.symm, hmessage.symm⟩
    · rcases List.mem_append.1 hformer with hformer | hformer
      · exact .inl ⟨former, hformer, hxref, hroot⟩
      · cases List.mem_singleton.1 hformer
  · obtain ⟨former, hformer, hxref, hroot, -⟩ := SameButNumbers.exists_start h hstart
    exact .inl ⟨former, hformer, hxref, hroot⟩

theorem exists_root_above (hintact : job'.Intact)
    (hroots : ∀ view ∈ job.units, ∀ start, .i18nStart start ∈ view.create.toList →
      start.root = start.xref)
    (hroot : SameButNumbers job.root.create.toList job'.root.create.toList)
    (hviews : ∀ unit ∈ job'.units, DeclaredChanged n none unit.blockMarks job.views job'.views)
    (hunit : unit ∈ job'.units) {start : I18nStart} (hstart : .i18nStart start ∈ unit.create.toList)
    (hne : start.root ≠ start.xref) :
    ∃ outer ∈ job'.units, job'.Above outer unit ∧ ∃ root,
      .i18nStart root ∈ outer.create.toList ∧ root.xref = start.root ∧ root.root = root.xref ∧
      root.message = start.message := by
  -- The start was put there because of one in the parent, which has a smaller number.
  induction hindex : unit.xref.index using Nat.strong_induction_on generalizing unit start with
  | h index ih =>
    rcases List.mem_cons.1 hunit with rfl | hview
    · obtain ⟨former, hformer, hxref, hsame, -⟩ := hroot.exists_start hstart
      exact absurd (hsame.symm.trans ((hroots _ List.mem_cons_self former hformer).trans hxref)) hne
    · obtain ⟨parent, hparent, hedge, declaring, hdeclaring, placed, hembeds⟩ :=
        hintact.tree.exists_embeds hview
      obtain ⟨before, after, hops⟩ := List.append_of_mem hdeclaring
      obtain ⟨view, hview₀, view', hview', hxref, hxref', hchanged⟩ :=
        (hviews parent hparent).changedAfter hops hembeds
      obtain rfl : view' = unit := by
        have hfound := hintact.unit?_eq (List.mem_cons_of_mem _ hview')
        rw [hxref', hintact.unit?_eq hunit] at hfound
        exact (Option.some.inj hfound).symm
      rcases hchanged.start_mem hstart with ⟨former, hformer, hsame, hsame'⟩ |
        ⟨outer, houter, hroot', hmessage⟩
      · have hown := hroots view (List.mem_cons_of_mem _ hview₀) former hformer
        exact absurd (hsame'.symm.trans (hown.trans hsame)) hne
      · have houter' : .i18nStart outer ∈ parent.create.toList := by
          rw [hops]
          exact List.mem_append_left _ houter
        have habove : job'.Above parent view' := .single ⟨hparent, hedge⟩
        by_cases hown : outer.root = outer.xref
        · exact ⟨parent, hparent, habove, outer, houter', hown.symm.trans hroot'.symm, hown,
            hmessage.symm⟩
        · have hlt := hintact.tree.parent_lt hview hedge
          obtain ⟨top, htop, habove', root, hroot, hxref, hself, hsame⟩ :=
            ih parent.xref.index (hindex ▸ hlt) hparent houter' hown rfl
          exact ⟨top, htop, habove'.trans habove, root, hroot, hxref.trans hroot'.symm, hself,
            hsame.trans hmessage.symm⟩

/-- The propagation of blocks puts the content of a view in a new block exactly when the operation
that declares the view has a placeholder for it and the last start or end of a block before that
operation, in the list that results, is a start.  The new block has numbers of its own and the root
and the message of that start.  Nothing else is changed but the numbers of blocks.  So a block that
is not its own root has its root in a view above. -/
theorem propagateI18nBlocks_wraps (h : Job.ofTemplate component template options = .ok job) :
    ∃ job', job.propagateI18nBlocks = .ok job' ∧
      List.Forall₂ (fun unit unit' => unit.SameFrame unit' ∧ unit'.update = unit.update)
        job.units job'.units ∧
      SameButNumbers job.root.create.toList job'.root.create.toList ∧
      (∀ unit ∈ job'.units, ∀ before declaring after,
        unit.create.toList = before ++ declaring :: after →
        ∀ xref placed, (xref, placed) ∈ declaring.embeds →
          ∃ view ∈ job.views, ∃ view' ∈ job'.views, view.xref = xref ∧ view'.xref = xref ∧
            view.ChangedAfter job.ids.nextXref before placed view') ∧
      (∀ view' ∈ job'.views, ∃ unit ∈ job'.units, ∃ declaring ∈ unit.create.toList, ∃ placed,
        (view'.xref, placed) ∈ declaring.embeds) ∧
      (∀ xref ∈ job.xrefs, xref.index < job.ids.nextXref) ∧ job'.xrefs.Nodup ∧
      ∀ unit ∈ job'.units, ∀ start, .i18nStart start ∈ unit.create.toList →
        start.root ≠ start.xref →
        ∃ outer ∈ job'.units, job'.Above outer unit ∧ ∃ root,
          .i18nStart root ∈ outer.create.toList ∧ root.xref = start.root ∧
          root.root = root.xref ∧ root.message = start.message := by
  obtain ⟨job', index, hrun, hturns, hreblocked, hsame, htraces⟩ :=
    Job.propagateI18nBlocks_of_ofTemplate h
  obtain ⟨hintact, -⟩ := Job.ofTemplate_intact h
  have hintact' := hintact.turns hturns
  have hdeclared : ∀ unit ∈ job'.units,
      DeclaredChanged job.ids.nextXref none unit.blockMarks job.views job'.views :=
    List.forall_mem_cons.2 (htraces.declaredChanged (Nat.le_refl _))
  refine ⟨job', hrun, hreblocked.imp fun _ _ h => ⟨h.edited.toSameFrame, h.update⟩, hsame, ?_, ?_,
    (distinct_iff.1 hintact.distinct).2, (distinct_iff.1 hintact'.distinct).1, ?_⟩
  · intro unit hunit before declaring after hops xref placed hembeds
    exact (hdeclared unit hunit).changedAfter hops hembeds
  · intro view' hview'
    obtain ⟨unit, hunit, -, declaring, hdeclaring, placed, hembeds⟩ :=
      hintact'.tree.exists_embeds hview'
    exact ⟨unit, hunit, declaring, hdeclaring, placed, hembeds⟩
  · intro unit hunit start hstart hne
    exact exists_root_above hintact' (Job.roots_of_ofTemplate h) hsame hdeclared hunit hstart hne

end Template

/-- A message with views for its placeholders, one of them inside another, beside a view that is no
placeholder and around it; and a message in a view of its own. -/
def album : List Template.Node :=
  let here : SourceSpan := default
  let spans : Template.BlockSpans := { whole := here, start := here, stop := none }
  let text : Template.Node := .text { value := "photo", span := here }
  let message (id : String) : Option I18n.Meta := some (.message { id })
  let tag : Option I18n.Meta :=
    some (.node (.tagPlaceholder ⟨"ng-template", "START", "CLOSE", [], false, here⟩))
  let block : Option I18n.Meta :=
    some (.node (.blockPlaceholder ⟨"block", [], "START", "CLOSE", [], here⟩))
  let element (i18n : Option I18n.Meta) (children : List Template.Node) : Template.Node :=
    .element
      { name := "p", attributes := [], inputs := [], outputs := [], children, references := [],
        span := here, startSpan := here, endSpan := none, i18n }
  let view (i18n : Option I18n.Meta) (children : List Template.Node) : Template.Node :=
    .template
      { tagName := some "ng-template", attributes := [], inputs := [], outputs := [],
        templateAttributes := [], children, references := [], letVariables := [], span := here,
        startSpan := here, endSpan := none, i18n }
  let loop (children : List Template.Node) (empty : Template.ForEmpty) : Template.Node :=
    .forBlock
      { item := { name := "item", value := "$implicit", span := here }
        expression := { ast := .propertyRead {} {} (.implicitReceiver {}) "items" }
        trackBy := { ast := .propertyRead {} {} (.implicitReceiver {}) "item" }
        contextVariables := []
        children
        empty := some empty
        block := spans
        mainSpan := here
        i18n := block }
  [element (message "outer")
      [view tag [view tag [text], .ifBlock [⟨none, [text], none, spans, block⟩] spans],
        view none [view tag [text]],
        loop [text] ⟨[view tag [text]], spans, block⟩],
    view none [element (message "inner") [view tag [text]]]]

/-- The blocks of every view: their own number, that of their root, and their place below it. -/
def Job.blockTable (job : Job) : List (List (Nat × Nat × Option Nat)) :=
  job.units.map fun unit => unit.starts.map fun start =>
    (start.xref.index, start.root.index, start.subTemplateIndex)

def albumBlocks : List (List (Nat × Nat × Option Nat)) :=
  [[(2, 2, none)], [(21, 2, some 1)], [(22, 2, some 2)], [(23, 2, some 3)], [], [],
    [(24, 2, some 4)], [(25, 2, some 5)], [(26, 2, some 6)], [(18, 18, none)], [(27, 18, some 1)]]

theorem album_runs : ∃ job job', Job.ofTemplate "Album" album {} = .ok job ∧
    job.propagateI18nBlocks = .ok job' ∧ job'.blockTable = albumBlocks := by
  have heval : ((Job.ofTemplate "Album" album {}).toOption.bind fun job =>
      job.propagateI18nBlocks.toOption.map Job.blockTable) = some albumBlocks := by decide +kernel
  exact exists_ok_of_eval heval

theorem propagateI18nBlocks_wraps_album : ∃ job job', Job.ofTemplate "Album" album {} = .ok job ∧
    job.propagateI18nBlocks = .ok job' ∧ job'.blockTable = albumBlocks ∧
    SameButNumbers job.root.create.toList job'.root.create.toList ∧ job'.xrefs.Nodup ∧
    ∀ unit ∈ job'.units, ∀ start, .i18nStart start ∈ unit.create.toList →
      start.root ≠ start.xref → ∃ outer ∈ job'.units, job'.Above outer unit := by
  obtain ⟨job, job', hjob, hrun, htable⟩ := album_runs
  obtain ⟨job'', hrun', -, hroot, -, -, -, hnodup, habove⟩ := propagateI18nBlocks_wraps hjob
  obtain rfl : job'' = job' := Except.ok.inj (hrun'.symm.trans hrun)
  refine ⟨job, job'', hjob, hrun, htable, hroot, hnodup, ?_⟩
  intro unit hunit start hstart hne
  obtain ⟨outer, houter, habove, -⟩ := habove unit hunit start hstart hne
  exact ⟨outer, houter, habove⟩

end TemplateLowering
