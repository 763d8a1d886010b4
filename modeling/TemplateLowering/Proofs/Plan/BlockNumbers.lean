import TemplateLowering.Proofs.Plan.BlockNesting

/-!
# Numbered blocks

The numbers that the propagation of blocks gives to the blocks of one message.  One count is taken
along through all views.  Where no message stands inside another, it starts again at every root, since
it is back at zero wherever no block is open, and it goes up by one for every block that is put in a
view below the root, in document order.
-/

namespace TemplateLowering

variable {below below' rest' views : List View} {count count' first : Nat}

/-! ## Views in document order -/

/-- The views are the declared ones, each followed by the views that are declared in it. -/
inductive InDocumentOrder : List Xref → List View → Prop
  | nil : InDocumentOrder [] []
  | view {view : View} {xrefs : List Xref} {below rest : List View}
      (hbelow : InDocumentOrder view.declaredViews below) (hrest : InDocumentOrder xrefs rest) :
      InDocumentOrder (view.xref :: xrefs) (view :: (below ++ rest))

def BlockMark.view? : BlockMark → Option Xref
  | .view xref _ => some xref
  | _ => none

def BlockMark.start? : BlockMark → Option I18nStart
  | .start op => some op
  | _ => none

theorem CreateOp.declaredViews_eq_blockMarks (op : CreateOp) :
    op.declaredViews = op.blockMarks.filterMap BlockMark.view? := by
  rw [declaredViews_eq_embeds]
  cases op with
  | i18nStart op => rfl
  | i18nEnd op => rfl
  | _ => simp [blockMarks, BlockMark.view?, List.filterMap_map, Function.comp_def]

theorem View.declaredViews_eq_blockMarks (view : View) :
    view.declaredViews = view.blockMarks.filterMap BlockMark.view? := by
  rw [declaredViews, blockMarks, List.filterMap_flatMap]
  exact List.flatMap_congr fun op _ => op.declaredViews_eq_blockMarks

theorem View.starts_eq_blockMarks (view : View) :
    view.starts = view.blockMarks.filterMap BlockMark.start? := by
  rw [starts, blockMarks, List.filterMap_flatMap, List.filterMap_eq_flatMap_toList]
  refine List.flatMap_congr fun op _ => ?_
  cases op with
  | i18nStart op => rfl
  | i18nEnd op => rfl
  | _ => simp [CreateOp.blockMarks, CreateOp.start?, BlockMark.start?, List.filterMap_map]

section Traces

variable {block : Option OpenBlock} {tally tally' : Tally} {marks marks' : List BlockMark}
  {views views' : List View}

theorem Traces.inDocumentOrder (h : Traces block tally marks views marks' views' tally') :
    InDocumentOrder (marks'.filterMap BlockMark.view?) views' := by
  induction h with
  | nil => exact .nil
  | start _ ih => exact ih
  | stop _ ih => exact ih
  | view _ _ _ hxref _ _ ihbelow ihrest =>
    rw [← View.declaredViews_eq_blockMarks] at ihbelow
    simp only [List.filterMap_cons, BlockMark.view?, ← hxref]
    exact .view ihbelow ihrest

end Traces

/-! ## The blocks of a root -/

/-- The blocks among the starts that are not roots, each with its root and its number. -/
def childNumbers (starts : List I18nStart) : List (Xref × Option Nat) :=
  (starts.filter fun start => start.root ≠ start.xref).map
    fun start => (start.root, start.subTemplateIndex)

/-- The blocks of a root that have the `count` numbers from `first` on. -/
def numbersFrom (root : Xref) (first count : Nat) : List (Xref × Option Nat) :=
  (List.range' first count).map fun index => (root, some index)

@[simp] theorem childNumbers_nil : childNumbers [] = [] := rfl

@[simp] theorem childNumbers_append (starts starts' : List I18nStart) :
    childNumbers (starts ++ starts') = childNumbers starts ++ childNumbers starts' := by
  simp [childNumbers]

theorem numbersFrom_append (root : Xref) (first count count' : Nat) :
    numbersFrom root first count ++ numbersFrom root (first + count) count' =
      numbersFrom root first (count + count') := by
  rw [numbersFrom, numbersFrom, numbersFrom, ← List.map_append, List.range'_append_1]

/-! ## Views inside a block -/

/-- What the marks say about how many of the views belong to them. -/
theorem Forest.eq_of_append_eq {region region' : Region} {marks : List BlockMark}
    {views' more more' : List View} (h : Forest region marks views)
    (h' : Forest region' marks views') (heq : views ++ more = views' ++ more') :
    views = views' := by
  induction h generalizing region' views' more more' with
  | nil =>
    cases h'
    rfl
  | start _ _ ih =>
    cases h' with
    | start _ hrest => exact ih hrest heq
  | stop _ _ ih =>
    cases h' with
    | stop _ hrest => exact ih hrest heq
  | @view _ view _ _ below rest _ _ _ ihbelow ihrest =>
    generalize hmark : BlockMark.view view.xref _ = mark at h'
    cases h' with
    | start => cases hmark
    | stop => cases hmark
    | @view _ view' _ _ below' rest' _ hbelow' hrest' =>
      simp only [List.cons_append, List.append_assoc, List.cons.injEq] at heq
      obtain ⟨rfl, heq⟩ := heq
      obtain rfl := ihbelow hbelow' heq
      rw [ihrest hrest' (List.append_cancel_left heq)]

section Inside

variable {block : Option OpenBlock} {tally tally' : Tally} {marks marks' : List BlockMark}
  {views views' : List View}

theorem Traces.view_inv {region : Region} {view : View} {placed : Bool} {rest : List View}
    (hbelow : Forest region view.blockMarks below)
    (h : Traces block tally (.view view.xref placed :: marks) (view :: (below ++ rest)) marks'
      views' tally') :
    ∃ entered view' below' rest' marks₁ tally₁ tally₂,
      marks' = .view view.xref placed :: marks₁ ∧ views' = view' :: (below' ++ rest') ∧
      Enters (enclosing placed block) tally view entered tally₁ ∧
      Traces none tally₁ entered.blockMarks below view'.blockMarks below' tally₂ ∧
      Traces block tally₂ marks rest marks₁ rest' tally' := by
  generalize hviews : view :: (below ++ rest) = views at h
  generalize hxref : view.xref = xref at h
  cases h with
  | view hforest henters htraces _ _ hrest =>
    obtain ⟨rfl, happend⟩ := List.cons.inj hviews
    obtain rfl := hbelow.eq_of_append_eq hforest happend
    obtain rfl := List.append_cancel_left happend
    exact ⟨_, _, _, _, _, _, _, rfl, rfl, henters, htraces, hrest⟩

theorem enclosing_none (placed : Bool) : enclosing placed none = none := by
  cases placed <;> rfl

theorem Traces.untouched (hforest : Forest .inside marks views)
    (h : Traces none tally marks views marks' views' tally') :
    tally' = tally ∧ marks'.filterMap BlockMark.start? = [] ∧ views'.flatMap View.starts = [] := by
  generalize hregion : Region.inside = region at hforest
  induction hforest generalizing tally marks' views' tally' with
  | nil =>
    cases h
    exact ⟨rfl, rfl, rfl⟩
  | start hopens => cases hregion ▸ hopens
  | stop hcloses => cases hregion ▸ hcloses
  | view _ hbelow _ ihbelow ihrest =>
    subst hregion
    obtain ⟨entered, view', below', rest', marks₁, tally₁, tally₂, rfl, rfl, henters, htraces,
      hrest⟩ := h.view_inv hbelow
    rw [enclosing_none] at henters
    cases henters
    obtain ⟨rfl, hmarks, hstarts⟩ := ihbelow htraces rfl
    obtain ⟨rfl, hmarks', hstarts'⟩ := ihrest hrest rfl
    refine ⟨rfl, by simpa [BlockMark.start?] using hmarks', ?_⟩
    simp [View.starts_eq_blockMarks view', hmarks, hstarts, hstarts']

/-- The starts are blocks of one root with the `count` numbers from `first` on. -/
structure ChildStarts (root : Xref) (first count : Nat) (starts : List I18nStart) : Prop where
  children : ∀ start ∈ starts, start.root ≠ start.xref
  numbers : childNumbers starts = numbersFrom root first count

theorem childStarts_nil (root : Xref) (first : Nat) : ChildStarts root first 0 [] :=
  ⟨by simp, rfl⟩

theorem ChildStarts.append {root : Xref} {starts starts' : List I18nStart}
    (h : ChildStarts root first count starts)
    (h' : ChildStarts root (first + count) count' starts') :
    ChildStarts root first (count + count') (starts ++ starts') := by
  constructor
  · rw [List.forall_mem_append]
    exact ⟨h.children, h'.children⟩
  · rw [childNumbers_append, h.numbers, h'.numbers, numbersFrom_append]

/-- In an open block the views inside get blocks with the next numbers, and the walk goes on after
them. -/
def CountsInside (marks : List BlockMark) (views : List View) : Prop :=
  ∀ (parent : OpenBlock) (tally tally' : Tally) (tail marks' : List BlockMark)
    (more views' : List View), parent.root.index < tally.next →
    Traces (some parent) tally (marks ++ tail) (views ++ more) marks' views' tally' →
    ∃ count front front' back' back tally₁, marks' = front ++ back ∧ views' = front' ++ back' ∧
      front.filterMap BlockMark.start? = [] ∧
      ChildStarts parent.root (tally.index + 1) count (front'.flatMap View.starts) ∧
      tally₁.index = tally.index + count ∧ tally.next ≤ tally₁.next ∧
      Traces (some parent) tally₁ tail more back back' tally'

theorem childStarts_new {parent : OpenBlock} {n : Nat} (hroot : parent.root.index < n)
    (index : Nat) :
    ChildStarts parent.root (index + 1) 1
      [I18nStart.withIndex
        { xref := ⟨n⟩, root := parent.root, message := parent.message, span := none }
        (index + 1)] := by
  have hne : parent.root ≠ ⟨n⟩ := by
    intro heq
    rw [heq] at hroot
    exact Nat.lt_irrefl n hroot
  constructor
  · simpa [I18nStart.withIndex] using hne
  · simp [childNumbers, numbersFrom, I18nStart.withIndex, hne]

theorem CountsInside.enter {view entered view' : View} {placed : Bool} {parent : OpenBlock}
    {tally₁ tally₂ : Tally} (hcounts : CountsInside view.blockMarks below)
    (hforest : Forest .inside view.blockMarks below) (hroot : parent.root.index < tally.next)
    (henters : Enters (enclosing placed (some parent)) tally view entered tally₁)
    (htraces : Traces none tally₁ entered.blockMarks below view'.blockMarks below' tally₂) :
    ∃ count, ChildStarts parent.root (tally.index + 1) count
        ((view' :: below').flatMap View.starts) ∧
      tally₂.index = tally.index + count ∧ tally.next ≤ tally₂.next := by
  rw [List.flatMap_cons, View.starts_eq_blockMarks]
  generalize view'.blockMarks = marks' at htraces ⊢
  cases placed with
  | false =>
    cases henters
    obtain ⟨rfl, hmarks, hstarts⟩ := htraces.untouched hforest
    rw [hmarks, hstarts]
    exact ⟨0, childStarts_nil _ _, rfl, Nat.le_refl _⟩
  | true =>
    cases henters with
    | wrap hxref hops =>
      rw [View.blockMarks, hops, OpenBlock.blockMarks_enclose, ← View.blockMarks] at htraces
      cases htraces with
      | start hrest =>
        rw [← List.append_nil below] at hrest
        have hroot' := Nat.lt_succ_of_lt hroot
        obtain ⟨count, front, front', back', back, tally₃, rfl, rfl, hfront, hchildren, hindex, hnext,
          hstop⟩ := hcounts _ _ _ _ _ _ _ hroot' hrest
        cases hstop with
        | stop hnil =>
          cases hnil
          have hnew := (childStarts_new hroot tally.index).append hchildren
          refine ⟨1 + count, ?_, ?_, ?_⟩
          · simpa [BlockMark.start?, hfront, List.filterMap_cons] using hnew
          · change tally₃.index = tally.index + 1 + count at hindex
            change tally₃.index = _
            omega
          · exact (Nat.le_succ _).trans hnext

theorem Forest.countsInside (hforest : Forest .inside marks views) : CountsInside marks views := by
  generalize hregion : Region.inside = region at hforest
  induction hforest with
  | nil =>
    intro parent tally tally' tail marks' more views' _ h
    exact ⟨0, [], [], views', marks', tally, rfl, rfl, rfl, childStarts_nil _ _, rfl, Nat.le_refl _,
      h⟩
  | start hopens => cases hregion ▸ hopens
  | stop hcloses => cases hregion ▸ hcloses
  | @view _ view placed marks below rest _ hbelow _ ihbelow ihrest =>
    subst hregion
    intro parent tally tally' tail marks' more views' hroot h
    rw [List.cons_append, List.cons_append, List.append_assoc] at h
    obtain ⟨entered, view', below', rest', marks₁, tally₁, tally₂, rfl, rfl, henters, htraces,
      hrest⟩ := h.view_inv hbelow
    obtain ⟨count, hview, hindex, hnext⟩ := (ihbelow rfl).enter hbelow hroot henters htraces
    obtain ⟨count', front, front', back', back, tally₃, rfl, rfl, hfront, hchildren, hindex', hnext',
      htail⟩ := ihrest rfl parent tally₂ tally' tail marks₁ more rest' (hroot.trans_le hnext) hrest
    refine ⟨count + count', .view view.xref placed :: front, view' :: (below' ++ front'), back', back,
      tally₃, rfl, by simp, by simpa [BlockMark.start?] using hfront, ?_, by omega,
      hnext.trans hnext', htail⟩
    rw [hindex, Nat.add_right_comm] at hchildren
    simpa using hview.append hchildren

end Inside

/-! ## Views outside of blocks -/

theorem Forest.starts_eq_nil {marks : List BlockMark} (h : Forest .inside marks views) :
    marks.filterMap BlockMark.start? = [] ∧ views.flatMap View.starts = [] := by
  generalize hregion : Region.inside = region at h
  induction h with
  | nil => exact ⟨rfl, rfl⟩
  | start hopens => cases hregion ▸ hopens
  | stop hcloses => cases hregion ▸ hcloses
  | @view _ view _ _ _ _ _ _ _ ihbelow ihrest =>
    subst hregion
    obtain ⟨hmarks, hstarts⟩ := ihbelow rfl
    obtain ⟨hmarks', hstarts'⟩ := ihrest rfl
    refine ⟨by simpa [BlockMark.start?] using hmarks', ?_⟩
    simp [View.starts_eq_blockMarks view, hmarks, hstarts, hstarts']

/-- The blocks of several roots: each has the numbers from one on. -/
def numbersOf (groups : List (Xref × Nat)) : List (Xref × Option Nat) :=
  groups.flatMap fun group => numbersFrom group.1 1 group.2

/-- The blocks after a walk: first the `pending` ones, whose root is open where the walk starts, and
then those of the roots that start on the way. -/
structure Numbered (pending : List (Xref × Option Nat)) (roots : List I18nStart)
    (marks : List BlockMark) (views : List View) : Prop where
  numbers : ∃ groups, childNumbers (views.flatMap View.starts) = pending ++ numbersOf groups ∧
    (groups.map Prod.fst).Perm (roots.map I18nStart.xref)
  marks : ∀ start ∈ marks.filterMap BlockMark.start?,
    start.root = start.xref ∧ start.subTemplateIndex = none
  views : ∀ start ∈ views.flatMap View.starts, start.root = start.xref →
    start.subTemplateIndex = none

namespace Numbered

variable {pending : List (Xref × Option Nat)} {roots roots' : List I18nStart}
  {marks marks' : List BlockMark} {views : List View} {xref : Xref} {placed : Bool}

theorem start {op : I18nStart} (h : Numbered (numbersFrom op.root 1 count) roots marks views)
    (hroot : op.root = op.xref) (hindex : op.subTemplateIndex = none) :
    Numbered [] (op :: roots) (.start op :: marks) views := by
  obtain ⟨groups, hnumbers, hperm⟩ := h.numbers
  refine ⟨⟨(op.xref, count) :: groups, ?_, hperm.cons op.xref⟩, ?_, h.views⟩
  · rw [hnumbers, hroot]
    rfl
  · exact List.forall_mem_cons.2 ⟨⟨hroot, hindex⟩, h.marks⟩

theorem stop (h : Numbered pending roots marks views) :
    Numbered pending roots (.stop :: marks) views :=
  ⟨h.numbers, h.marks, h.views⟩

theorem childNumbers_eq_nil (h : Numbered pending roots marks views) :
    childNumbers (marks.filterMap BlockMark.start?) = [] := by
  rw [childNumbers, List.map_eq_nil_iff, List.filter_eq_nil_iff]
  intro start hstart
  simpa using (h.marks start hstart).1

theorem view {view' : View} (hview : Numbered [] roots view'.blockMarks below')
    (h : Numbered [] roots' marks rest') :
    Numbered [] (roots ++ roots') (.view xref placed :: marks) (view' :: (below' ++ rest')) := by
  obtain ⟨groups, hnumbers, hperm⟩ := hview.numbers
  obtain ⟨groups', hnumbers', hperm'⟩ := h.numbers
  have hstarts : (view' :: (below' ++ rest')).flatMap View.starts =
      view'.blockMarks.filterMap BlockMark.start? ++
        (below'.flatMap View.starts ++ rest'.flatMap View.starts) := by
    rw [List.flatMap_cons, List.flatMap_append, View.starts_eq_blockMarks]
  refine ⟨⟨groups ++ groups', ?_, ?_⟩, h.marks, ?_⟩
  · rw [hstarts, childNumbers_append, childNumbers_append, hview.childNumbers_eq_nil, hnumbers,
      hnumbers']
    simp [numbersOf]
  · rw [List.map_append, List.map_append]
    exact hperm.append hperm'
  · rw [hstarts, List.forall_mem_append, List.forall_mem_append]
    exact ⟨fun start hstart _ => (hview.marks start hstart).2, hview.views, h.views⟩

theorem viewInside {root : Xref} {view' : View}
    (hview : ChildStarts root first count ((view' :: below').flatMap View.starts))
    (h : Numbered (numbersFrom root (first + count) count') roots marks rest') :
    Numbered (numbersFrom root first (count + count')) roots (.view xref placed :: marks)
      (view' :: (below' ++ rest')) := by
  obtain ⟨groups, hnumbers, hperm⟩ := h.numbers
  have hstarts : (view' :: (below' ++ rest')).flatMap View.starts =
      (view' :: below').flatMap View.starts ++ rest'.flatMap View.starts := by simp
  refine ⟨⟨groups, ?_, hperm⟩, h.marks, ?_⟩
  · rw [hstarts, childNumbers_append, hview.numbers, hnumbers, ← List.append_assoc,
      numbersFrom_append]
  · rw [hstarts, List.forall_mem_append]
    exact ⟨fun start hstart hroot => absurd hroot (hview.children start hstart), h.views⟩

theorem perm (h : Numbered pending roots marks views) (hroots : roots.Perm roots') :
    Numbered pending roots' marks views := by
  obtain ⟨groups, hnumbers, hperm⟩ := h.numbers
  exact ⟨⟨groups, hnumbers, hperm.trans (hroots.map _)⟩, h.marks, h.views⟩

end Numbered

/-- The count outside of blocks, and in the block of a root. -/
inductive Counting : Region → Option OpenBlock → Tally → Prop
  | outside {tally : Tally} (hindex : tally.index = 0) : Counting .outside none tally
  | block {parent : OpenBlock} {tally : Tally} (hnone : parent.hasIndex = false)
      (hroot : parent.root.index < tally.next) : Counting .block (some parent) tally

/-- The next blocks of the open root. -/
def pendingNumbers (tally : Tally) (count : Nat) : Option OpenBlock → List (Xref × Option Nat)
  | some parent => numbersFrom parent.root (tally.index + 1) count
  | none => []

section Outside

variable {region : Region} {block : Option OpenBlock} {tally tally' : Tally}
  {marks marks' : List BlockMark} {views views' : List View}

theorem Traces.numbered (hforest : Forest region marks views) (hcounting : Counting region block tally)
    (hroots : ∀ start ∈ marks.filterMap BlockMark.start? ++ views.flatMap View.starts,
      start.xref.index < tally.next) (h : Traces block tally marks views marks' views' tally') :
    tally'.index = 0 ∧ ∃ count, Numbered (pendingNumbers tally count block)
      (marks.filterMap BlockMark.start? ++ views.flatMap View.starts) marks' views' := by
  induction hforest generalizing block tally marks' views' tally' with
  | nil hregion =>
    cases hcounting with
    | outside hindex =>
      cases h
      exact ⟨hindex, 0, ⟨[], rfl, .nil⟩, by simp, by simp⟩
    | block => exact absurd rfl hregion
  | @start _ _ op _ _ hopens _ ih =>
    cases hopens with
    | free => cases hcounting
    | outside hroot hindex =>
      cases hcounting with
      | outside hzero =>
        cases h with
        | start h =>
          have hsame : op.withIndex tally.index = op := by simp [I18nStart.withIndex, hzero]
          rw [hsame] at h ⊢
          simp only [List.filterMap_cons, BlockMark.start?, List.cons_append,
            List.forall_mem_cons] at hroots ⊢
          have hopened : Counting .block (some op.opened) tally :=
            .block (by simp [I18nStart.opened, hindex])
              (by simpa [I18nStart.opened, hroot] using hroots.1)
          obtain ⟨hend, count, hnumbered⟩ := ih hopened hroots.2 h
          rw [pendingNumbers, hzero] at hnumbered
          exact ⟨hend, 0, hnumbered.start hroot hindex⟩
  | stop hcloses _ ih =>
    cases hcloses with
    | free => cases hcounting
    | block =>
      cases hcounting with
      | @block parent _ hnone hroot =>
        cases h with
        | stop h =>
          have hclosed : tally.closed (some parent) = ⟨0, tally.next⟩ := by
            simp [Tally.closed, hnone]
          rw [hclosed] at h
          have hcounting : Counting .outside none ⟨0, tally.next⟩ := .outside rfl
          obtain ⟨hend, count, hnumbered⟩ := ih hcounting hroots h
          exact ⟨hend, 0, hnumbered.stop⟩
  | @view _ view placed marks below rest _ hbelow _ ihbelow ihrest =>
    obtain ⟨entered, view', below', rest', marks₁, tally₁, tally₂, rfl, rfl, henters, htraces,
      hrest⟩ := h.view_inv hbelow
    have hnext := henters.next_le.trans htraces.next_le
    have hmarks : (BlockMark.view view.xref placed :: marks).filterMap BlockMark.start? =
        marks.filterMap BlockMark.start? := rfl
    have hviews : (view :: (below ++ rest)).flatMap View.starts =
        (view.blockMarks.filterMap BlockMark.start? ++ below.flatMap View.starts) ++
          rest.flatMap View.starts := by
      rw [List.flatMap_cons, List.flatMap_append, View.starts_eq_blockMarks, List.append_assoc]
    rw [hmarks, hviews] at hroots ⊢
    simp only [List.forall_mem_append] at hroots ihbelow ihrest
    have hroots' : (∀ start ∈ marks.filterMap BlockMark.start?, start.xref.index < tally₂.next) ∧
        ∀ start ∈ rest.flatMap View.starts, start.xref.index < tally₂.next :=
      ⟨fun start hstart => (hroots.1 start hstart).trans_le hnext,
        fun start hstart => (hroots.2.2 start hstart).trans_le hnext⟩
    cases hcounting with
    | outside hindex =>
      rw [enclosing_none] at henters
      cases henters
      obtain ⟨hzero, _, hview⟩ := ihbelow (.outside hindex) hroots.2.1 htraces
      obtain ⟨hend, _, hnumbered⟩ := ihrest (.outside hzero) hroots' hrest
      refine ⟨hend, 0, (hview.view hnumbered).perm ?_⟩
      rw [← List.append_assoc, ← List.append_assoc]
      exact List.perm_append_comm.append_right _
    | @block parent _ hnone hroot =>
      obtain ⟨count, hview, hindex, -⟩ := hbelow.countsInside.enter hbelow hroot henters htraces
      obtain ⟨hbelowMarks, hbelowStarts⟩ := hbelow.starts_eq_nil
      obtain ⟨hend, count', hnumbered⟩ := ihrest (.block hnone (hroot.trans_le hnext)) hroots' hrest
      rw [pendingNumbers, hindex, Nat.add_right_comm] at hnumbered
      rw [hbelowMarks, hbelowStarts]
      exact ⟨hend, count + count', hnumbered.viewInside hview⟩

end Outside

/-! ## The blocks of one root -/

theorem map_snd_filter_numbersFrom (root : Xref) (first count : Nat) :
    ((numbersFrom root first count).filter fun number => number.1 = root).map Prod.snd =
      (List.range' first count).map some := by
  rw [numbersFrom, List.filter_map, List.map_map]
  simp [Function.comp_def]

theorem exists_numbers_of_nodup {groups : List (Xref × Nat)} (h : (groups.map Prod.fst).Nodup)
    (root : Xref) :
    ∃ count, ((numbersOf groups).filter fun number => number.1 = root).map Prod.snd =
      (List.range' 1 count).map some := by
  induction groups with
  | nil => exact ⟨0, rfl⟩
  | cons group groups ih =>
    obtain ⟨other, count⟩ := group
    rw [List.map_cons, List.nodup_cons] at h
    have hsplit : ((numbersOf ((other, count) :: groups)).filter fun number => number.1 = root) =
        (numbersFrom other 1 count).filter (fun number => number.1 = root) ++
          (numbersOf groups).filter fun number => number.1 = root := by
      rw [numbersOf, List.flatMap_cons, List.filter_append]
      rfl
    by_cases hroot : other = root
    · subst hroot
      have hnone : (numbersOf groups).filter (fun number => number.1 = other) = [] := by
        rw [List.filter_eq_nil_iff]
        intro number hnumber heq
        obtain ⟨group, hgroup, hmem⟩ := List.mem_flatMap.1 hnumber
        obtain ⟨index, -, rfl⟩ := List.mem_map.1 hmem
        exact h.1 (List.mem_map.2 ⟨group, hgroup, by simpa using heq⟩)
      refine ⟨count, ?_⟩
      rw [hsplit, hnone, List.append_nil, map_snd_filter_numbersFrom]
    · have hnone : (numbersFrom other 1 count).filter (fun number => number.1 = root) = [] := by
        rw [List.filter_eq_nil_iff]
        intro number hnumber
        obtain ⟨index, -, rfl⟩ := List.mem_map.1 hnumber
        simpa using hroot
      rw [hsplit, hnone, List.nil_append]
      exact ih h.2

theorem map_subTemplateIndex_filter (starts : List I18nStart) (root : Xref) :
    (starts.filter fun start => start.root = root ∧ start.xref ≠ root).map
        I18nStart.subTemplateIndex =
      ((childNumbers starts).filter fun number => number.1 = root).map Prod.snd := by
  rw [childNumbers, List.filter_map, List.map_map, List.filter_filter]
  refine congrArg _ (List.filter_congr fun start _ => ?_)
  by_cases hroot : start.root = root
  · simp [hroot, eq_comm]
  · simp [hroot]

section Template

variable {component : String} {template : List Template.Node} {options : Options} {job : Job}

theorem Job.Intact.start_lt (h : job.Intact) {start : I18nStart} (hstart : start ∈ job.starts) :
    start.xref.index < job.ids.nextXref := by
  refine (distinct_iff.1 h.distinct).2 start.xref ?_
  obtain ⟨view, hview, hstart⟩ := List.mem_flatMap.1 hstart
  refine List.mem_flatMap.2 ⟨view, hview, ?_⟩
  rw [View.mem_starts] at hstart
  refine List.mem_cons_of_mem _ (List.mem_append_left _ (List.mem_flatMap.2 ⟨_, hstart, ?_⟩))
  simp [CreateOp.xrefs, CreateOp.declared]

/-- Where no message stands inside another, the propagation of blocks numbers the blocks of every
root from one on, without gaps, in the order of the document.  A root has no number. -/
theorem propagateI18nBlocks_numbers (h : Job.ofTemplate component template options = .ok job)
    (hapart : Template.MessagesApart template) :
    ∃ job', job.propagateI18nBlocks = .ok job' ∧
      InDocumentOrder job'.root.declaredViews job'.views ∧
      (∀ start ∈ job'.starts, start.root = start.xref → start.subTemplateIndex = none) ∧
      ∀ root ∈ job'.starts, root.root = root.xref →
        ∃ count, (job'.starts.filter fun start =>
            start.root = root.xref ∧ start.xref ≠ root.xref).map I18nStart.subTemplateIndex =
          (List.range' 1 count).map some := by
  obtain ⟨job', index, hrun, -, -, -, htraces⟩ := Job.propagateI18nBlocks_of_ofTemplate h
  obtain ⟨hintact, -⟩ := Job.ofTemplate_intact h
  have hforest : Forest .outside job.root.blockMarks job.views :=
    Job.forest_of_ofTemplate h hapart
  have hstarts : ∀ job : Job, job.starts =
      job.root.blockMarks.filterMap BlockMark.start? ++ job.views.flatMap View.starts := by
    intro job
    rw [Job.starts, Job.units, List.flatMap_cons, View.starts_eq_blockMarks]
  obtain ⟨-, _, hnumbered⟩ := htraces.numbered hforest (.outside rfl)
    (fun start hstart => hintact.start_lt (hstarts job ▸ hstart))
  obtain ⟨groups, hnumbers, hperm⟩ := hnumbered.numbers
  have hgroups : (groups.map Prod.fst).Nodup := by
    rw [hperm.nodup_iff, ← hstarts]
    exact Job.nodup_starts (distinct_iff.1 hintact.distinct).1
  refine ⟨job', hrun, ?_, ?_, ?_⟩
  · rw [View.declaredViews_eq_blockMarks]
    exact htraces.inDocumentOrder
  · rw [hstarts, List.forall_mem_append]
    exact ⟨fun start hstart _ => (hnumbered.marks start hstart).2, hnumbered.views⟩
  · intro root _ _
    rw [map_subTemplateIndex_filter, hstarts, childNumbers_append, hnumbered.childNumbers_eq_nil,
      hnumbers]
    exact exists_numbers_of_nodup hgroups root.xref

end Template

theorem messagesApart_album : Template.MessagesApart album := by
  simp [album, Template.messagesApart_cons, Template.messagesApart_nil, Template.messageFree_cons,
    Template.messageFree_nil, Template.Node.sequences, Template.Node.carriesMessage,
    Template.isMessage]

theorem propagateI18nBlocks_numbers_album : ∃ job job',
    Job.ofTemplate "Album" album {} = .ok job ∧ Template.MessagesApart album ∧
    job.propagateI18nBlocks = .ok job' ∧ job'.blockTable = albumBlocks ∧
    InDocumentOrder job'.root.declaredViews job'.views := by
  obtain ⟨job, job', hjob, hrun, htable⟩ := album_runs
  obtain ⟨job'', hrun', horder, -, -⟩ := propagateI18nBlocks_numbers hjob messagesApart_album
  obtain rfl : job'' = job' := Except.ok.inj (hrun'.symm.trans hrun)
  exact ⟨job, job'', hjob, messagesApart_album, hrun, htable, horder⟩

end TemplateLowering
