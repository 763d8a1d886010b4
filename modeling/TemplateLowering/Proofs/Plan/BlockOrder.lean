import TemplateLowering.Proofs.Plan.BlockNesting
import TemplateLowering.Proofs.Plan.IcuBlocks
import TemplateLowering.Proofs.Plan.Lasting

/-!
# Blocks in any order

Two phases put blocks into views.  They see no more of a job than what is read off its create
operations here, so that it does not matter which other phases come before them, except for the
numbers that they draw: `f` and `g` give the numbers of two jobs common names.
-/

namespace TemplateLowering

variable {phases : List Phase} {f g : Xref → Xref} {last last₁ : Nat}

def View.reading (phases : List Phase) (f : Xref → Xref) (view : View) : List CreateOp :=
  view.create.toList.filterMap (CreateOp.reading? phases f)

/-- The views have the same number and the same create operations, as far as they last. -/
structure View.SameReading (phases : List Phase) (f g : Xref → Xref) (view view' : View) :
    Prop where
  xref : view'.xref = view.xref
  ops : view'.reading phases g = view.reading phases f

/-- The numbers from `next` and `next₁` on, up to the last ones, have the same names. -/
def Aligned (f g : Xref → Xref) (last last₁ next next₁ : Nat) : Prop :=
  ∀ k, next + k < last → next₁ + k < last₁ → f ⟨next + k⟩ = g ⟨next₁ + k⟩

theorem Aligned.succ {next next₁ : Nat} (h : Aligned f g last last₁ next next₁) :
    Aligned f g last last₁ (next + 1) (next₁ + 1) := by
  intro k hk hk₁
  have hnext := h (k + 1) (by omega) (by omega)
  rwa [Nat.add_comm k 1, ← Nat.add_assoc, ← Nat.add_assoc] at hnext

/-! ## Marks -/

def BlockMark.named (f : Xref → Xref) : BlockMark → BlockMark
  | .start op => .start (op.lasting f)
  | mark => mark

def OpenBlock.named (f : Xref → Xref) (block : OpenBlock) : OpenBlock :=
  { block with root := f block.root }

theorem View.map_named_blockMarks (view : View) : view.blockMarks.map (BlockMark.named f) =
    (view.reading phases f).flatMap CreateOp.blockMarks := by
  rw [blockMarks, List.map_flatMap, reading, List.filterMap_eq_flatMap_toList, List.flatMap_assoc]
  refine List.flatMap_congr fun op _ => ?_
  cases op with
  | elementStart op =>
    simp only [CreateOp.reading?, CreateOp.lasting?, CreateOp.markNonBindable, Option.map_some,
      CreateOp.contained]
    split_ifs <;> rfl
  | _ => simp [CreateOp.reading?, CreateOp.lasting?, CreateOp.contained, CreateOp.markNonBindable,
      CreateOp.blockMarks, CreateOp.embeds, BlockMark.named]

theorem View.SameReading.blockMarks {view view' : View} (h : view.SameReading phases f g view') :
    view'.blockMarks.map (BlockMark.named g) = view.blockMarks.map (BlockMark.named f) := by
  rw [map_named_blockMarks, h.ops, ← map_named_blockMarks]

section Numbers

variable {op op' : CreateOp} {ops ops' : List CreateOp}

theorem CreateOp.eq_of_unnumbered (h : op'.unnumbered = op.unnumbered) :
    op'.blockMarks.length = op.blockMarks.length ∧ (op'.blockMarks = op.blockMarks → op' = op) := by
  cases op' with
  | i18nStart start' => cases op <;> simp_all [unnumbered, blockMarks]
  | _ => cases op <;> simp_all [unnumbered]

theorem eq_of_blockMarks_eq (h : ops'.map CreateOp.unnumbered = ops.map CreateOp.unnumbered)
    (hmarks : ops'.flatMap CreateOp.blockMarks = ops.flatMap CreateOp.blockMarks) : ops' = ops := by
  induction ops generalizing ops' with
  | nil => simpa using h
  | cons op ops ih =>
    cases ops' with
    | nil => simp at h
    | cons op' ops' =>
      simp only [List.map_cons, List.cons.injEq] at h
      obtain ⟨hlength, hop⟩ := CreateOp.eq_of_unnumbered h.1
      rw [List.flatMap_cons, List.flatMap_cons] at hmarks
      obtain ⟨hhead, htail⟩ := List.append_inj hmarks hlength
      rw [hop hhead, ih h.2 htail]

theorem SameButNumbers.reading {view view' : View}
    (h : SameButNumbers view.create.toList view'.create.toList) :
    (view'.reading phases f).map CreateOp.unnumbered =
      (view.reading phases f).map CreateOp.unnumbered := by
  have hread (view : View) : (view.reading phases f).map CreateOp.unnumbered =
      (view.create.toList.map CreateOp.unnumbered).filterMap (CreateOp.reading? phases f) := by
    rw [View.reading, List.map_filterMap, List.filterMap_map]
    refine List.filterMap_congr fun op _ => ?_
    cases op with
    | elementStart op =>
      simp only [CreateOp.reading?, CreateOp.lasting?, CreateOp.contained, CreateOp.markNonBindable,
        Function.comp_apply, CreateOp.unnumbered, Option.map_some]
      split_ifs <;> rfl
    | _ => rfl
  rw [hread, hread, h]

theorem View.SameReading.numbered {view view' other other' : View}
    (h : view.SameReading phases f g other) (hxref : other'.xref = view'.xref)
    (hsame : SameButNumbers view.create.toList view'.create.toList)
    (hsame' : SameButNumbers other.create.toList other'.create.toList)
    (hmarks : other'.blockMarks.map (BlockMark.named g) =
      view'.blockMarks.map (BlockMark.named f)) : view'.SameReading phases f g other' := by
  refine ⟨hxref, eq_of_blockMarks_eq ?_ ?_⟩
  · rw [hsame'.reading, h.ops, hsame.reading]
  · rw [← map_named_blockMarks, hmarks, map_named_blockMarks]

end Numbers

/-! ## The walk -/

section Walk

variable {block block₁ : Option OpenBlock} {tally tally' tally₁ tally₁' : Tally}
  {marks marks' marks₁ marks₁' : List BlockMark} {views views' views₁ views₁' : List View}

theorem Tally.closed_agree (hindex : tally₁.index = tally.index)
    (hblock : block₁.map (OpenBlock.named g) = block.map (OpenBlock.named f)) :
    (tally₁.closed block₁).index = (tally.closed block).index := by
  cases block <;> cases block₁ <;> simp_all [closed, OpenBlock.named]
  split_ifs <;> simp [hindex]

theorem I18nStart.lasting_withIndex (op : I18nStart) (index : Nat) :
    (op.withIndex index).lasting f = (op.lasting f).withIndex index := by
  unfold withIndex
  split <;> rfl

theorem Enters.agree {view view₁ entered entered₁ : View}
    (h : Enters block tally view entered tally') (h₁ : Enters block₁ tally₁ view₁ entered₁ tally₁')
    (hview : view.SameReading phases f g view₁)
    (hblock : block₁.map (OpenBlock.named g) = block.map (OpenBlock.named f))
    (hindex : tally₁.index = tally.index)
    (hnames : Aligned f g last last₁ tally.next tally₁.next) (hlast : tally'.next ≤ last)
    (hlast₁ : tally₁'.next ≤ last₁) :
    entered.SameReading phases f g entered₁ ∧ tally₁'.index = tally'.index ∧
      Aligned f g last last₁ tally'.next tally₁'.next := by
  cases h with
  | wrap hxref hops =>
    cases h₁ with
    | wrap hxref₁ hops₁ =>
      have hname : f ⟨tally.next⟩ = g ⟨tally₁.next⟩ := hnames 0 hlast hlast₁
      refine ⟨⟨by rw [hxref₁, hxref, hview.xref], ?_⟩, congrArg (· + 1) hindex, hnames.succ⟩
      have hread := hview.ops
      simp only [View.reading, hops₁, hops] at hread ⊢
      simp_all [OpenBlock.enclose, OpenBlock.named, CreateOp.reading?, CreateOp.lasting?,
        CreateOp.contained, I18nStart.lasting]
    | keep => simp at hblock
  | keep =>
    cases h₁ with
    | wrap => simp at hblock
    | keep => exact ⟨hview, hindex, hnames⟩

/-- Two walks over the same marks and over views that read the same leave the same marks behind, and
views that read the same. -/
theorem Traces.agree {more more₁ : List View}
    (h : Traces block tally marks views marks' views' tally')
    (h₁ : Traces block₁ tally₁ marks₁ views₁ marks₁' views₁' tally₁')
    (hblock : block₁.map (OpenBlock.named g) = block.map (OpenBlock.named f))
    (hmarks : marks₁.map (BlockMark.named g) = marks.map (BlockMark.named f))
    (hviews : List.Forall₂ (View.SameReading phases f g) (views ++ more) (views₁ ++ more₁))
    (hindex : tally₁.index = tally.index)
    (hnames : Aligned f g last last₁ tally.next tally₁.next) (hlast : tally'.next ≤ last)
    (hlast₁ : tally₁'.next ≤ last₁) :
    marks₁'.map (BlockMark.named g) = marks'.map (BlockMark.named f) ∧
      tally₁'.index = tally'.index ∧ Aligned f g last last₁ tally'.next tally₁'.next ∧
      List.Forall₂ (View.SameReading phases f g) views' views₁' ∧
      List.Forall₂ (View.SameReading phases f g) more more₁ := by
  induction h generalizing block₁ tally₁ marks₁ views₁ marks₁' views₁' tally₁' more more₁ with
  | nil =>
    cases h₁ with
    | nil => exact ⟨rfl, hindex, hnames, .nil, hviews⟩
    | _ => simp at hmarks
  | @start _ tally _ op _ _ _ _ _ ih =>
    cases h₁ with
    | @start _ _ _ op₁ _ _ _ _ h₁ =>
      simp only [List.map_cons, List.cons.injEq, BlockMark.named, BlockMark.start.injEq] at hmarks ⊢
      have hop : (op₁.withIndex tally₁.index).lasting g = (op.withIndex tally.index).lasting f := by
        rw [I18nStart.lasting_withIndex, I18nStart.lasting_withIndex, hmarks.1, hindex]
      obtain ⟨hmarks', hrest⟩ := ih h₁ (congrArg (some ∘ I18nStart.opened) hop) hmarks.2
        hviews hindex hnames hlast hlast₁
      exact ⟨⟨hop, hmarks'⟩, hrest⟩
    | _ => simp [BlockMark.named] at hmarks
  | @stop block tally _ _ _ _ _ _ ih =>
    cases h₁ with
    | stop h₁ =>
      have hnames' : Aligned f g last last₁ (tally.closed block).next
          (tally₁.closed block₁).next := by
        rw [Tally.closed_eq tally, Tally.closed_eq tally₁]
        exact hnames
      obtain ⟨hmarks', hrest⟩ := ih h₁ rfl (List.cons.inj hmarks).2 hviews
        (Tally.closed_agree hindex hblock) hnames' hlast hlast₁
      exact ⟨congrArg (_ :: ·) hmarks', hrest⟩
    | _ => simp [BlockMark.named] at hmarks
  | view hforest henters hbelow hxref hsame hrest ihbelow ihrest =>
    cases h₁ with
    | view hforest₁ henters₁ hbelow₁ hxref₁ hsame₁ hrest₁ =>
      simp only [List.map_cons, List.cons.injEq, BlockMark.named, BlockMark.view.injEq] at hmarks ⊢
      obtain ⟨⟨-, rfl⟩, hmarks⟩ := hmarks
      simp only [List.cons_append, List.append_assoc, List.forall₂_cons] at hviews
      obtain ⟨hview, hviews⟩ := hviews
      have hle := hrest.next_le.trans hlast
      have hle₁ := hrest₁.next_le.trans hlast₁
      obtain ⟨hentered, hindex, hnames⟩ := henters.agree henters₁ hview
        (by unfold enclosing; split_ifs; exacts [hblock, rfl]) hindex hnames
        (hbelow.next_le.trans hle) (hbelow₁.next_le.trans hle₁)
      obtain ⟨hmarksBelow, hindex, hnames, hviewsBelow, hviews⟩ :=
        ihbelow hbelow₁ rfl hentered.blockMarks hviews hindex hnames hle hle₁
      obtain ⟨hmarks, hindex, hnames, hviewsRest, hmore⟩ :=
        ihrest hrest₁ hblock hmarks hviews hindex hnames hlast hlast₁
      exact ⟨⟨⟨hview.xref, rfl⟩, hmarks⟩, hindex, hnames,
        .cons (hentered.numbered (by rw [hxref₁, hxref, hview.xref]) hsame hsame₁ hmarksBelow)
          (List.rel_append hviewsBelow hviewsRest), hmore⟩
    | _ => simp [BlockMark.named] at hmarks

end Walk

section Propagation

variable {start job job' next next' : Job} {scheduled scheduled' : List Phase} {phase : Phase}

theorem Phase.Alters.blockMarks_eq {op op' : CreateOp} (h : phase.Alters op op')
    (hphase : .propagateI18nBlocks ∉ phase :: phase.prerequisites) :
    op'.blockMarks = op.blockMarks ∧ op'.start? = op.start? := by
  cases h with
  | mark => cases op <;> exact ⟨rfl, rfl⟩
  | number | ofAttribute | ofBlock | ofIcu | convert => simp [Phase.prerequisites] at hphase
  | _ => exact ⟨rfl, rfl⟩

theorem Phase.Inserts.blockMarks_eq {op : CreateOp} (h : phase.Inserts op)
    (hphase : .propagateI18nBlocks ∉ phase :: phase.prerequisites) :
    op.blockMarks = [] ∧ op.start? = none := by
  cases phase with
  | saveAndRestoreView =>
    obtain ⟨decl, rfl⟩ := h
    exact ⟨rfl, rfl⟩
  | propagateI18nBlocks | wrapI18nIcus | createI18nContexts => simp [prerequisites] at hphase
  | _ => exact h.elim

end Propagation

/-! ## ICU expressions -/

/-- The operations with a block around every ICU expression outside all blocks, and the next number;
`lone` says that such a block is open. -/
def wrapped (f : Xref → Xref) : Nat → Bool → Bool → List CreateOp → List CreateOp × Nat
  | next, _, _, [] => ([], next)
  | next, true, lone, .icuStart op :: ops =>
      (wrapped f next true lone ops).map (.icuStart op :: ·) id
  | next, false, _, .icuStart op :: ops =>
      (wrapped f (next + 1) false true ops).map
        (icuBlockStart (f ⟨next⟩).index op.message :: .icuStart op :: ·) id
  | next, inBlock, true, .icuEnd xref :: ops =>
      (wrapped f next inBlock false ops).map (.icuEnd xref :: icuBlockEnd 0 :: ·) id
  | next, inBlock, lone, op :: ops =>
      (wrapped f next (op.inBlockAfter inBlock) lone ops).map (op :: ·) id

theorem le_wrapped (next : Nat) (inBlock lone : Bool) (ops : List CreateOp) :
    next ≤ (wrapped f next inBlock lone ops).2 := by
  fun_induction wrapped f next inBlock lone ops with
  | case1 => exact Nat.le_refl _
  | case3 => exact Nat.le_of_succ_le ‹_›
  | _ => assumption

theorem wrapped_agree {next next₁ : Nat} {inBlock lone : Bool} {ops : List CreateOp}
    (hnames : Aligned f g last last₁ next next₁)
    (hlast : (wrapped f next inBlock lone ops).2 ≤ last)
    (hlast₁ : (wrapped g next₁ inBlock lone ops).2 ≤ last₁) :
    (wrapped g next₁ inBlock lone ops).1 = (wrapped f next inBlock lone ops).1 ∧
      Aligned f g last last₁ (wrapped f next inBlock lone ops).2
        (wrapped g next₁ inBlock lone ops).2 := by
  fun_induction wrapped f next inBlock lone ops generalizing next₁ with
  | case1 => exact ⟨rfl, hnames⟩
  | case2 next lone op ops ih =>
    rw [wrapped] at hlast₁ ⊢
    obtain ⟨hops, hnames⟩ := ih hnames hlast hlast₁
    exact ⟨congrArg (List.cons _) hops, hnames⟩
  | case3 next _ op ops ih =>
    rw [wrapped] at hlast₁ ⊢
    have hname : f ⟨next⟩ = g ⟨next₁⟩ :=
      hnames 0 ((le_wrapped ..).trans hlast) ((le_wrapped ..).trans hlast₁)
    obtain ⟨hops, hnames⟩ := ih hnames.succ hlast hlast₁
    rw [hname]
    exact ⟨congrArg (fun ops => _ :: _ :: ops) hops, hnames⟩
  | case4 next inBlock xref ops ih =>
    rw [wrapped] at hlast₁ ⊢
    obtain ⟨hops, hnames⟩ := ih hnames hlast hlast₁
    exact ⟨congrArg (fun ops => _ :: _ :: ops) hops, hnames⟩
  | case5 next inBlock lone op ops hinside houtside hend ih =>
    rw [wrapped.eq_5 _ _ _ _ _ _ hinside houtside hend] at hlast₁ ⊢
    obtain ⟨hops, hnames⟩ := ih hnames hlast hlast₁
    exact ⟨congrArg (List.cons _) hops, hnames⟩

theorem wrapped_middle {middle : List CreateOp} (h : ∀ op ∈ middle, op.marks = []) (next : Nat)
    (xref : Xref) (ops : List CreateOp) :
    wrapped f next false true
        (middle.filterMap (CreateOp.reading? phases f) ++ .icuEnd xref :: ops) =
      (wrapped f next false false ops).map (fun ops =>
        middle.filterMap (CreateOp.reading? phases f) ++ .icuEnd xref :: icuBlockEnd 0 :: ops)
        id := by
  induction middle with
  | nil => rfl
  | cons op middle ih =>
    rw [List.forall_mem_cons] at h
    have hmarks := h.1
    cases op <;> simp [CreateOp.marks] at hmarks <;> first
      | exact ih h.2
      | exact congrArg (Prod.map (List.cons _) id) (ih h.2)

theorem Enclosed.reading {inBlock : Bool} {m m' : Nat} {ops ops' : List CreateOp}
    (h : Enclosed inBlock m ops ops' m') :
    wrapped f m inBlock false (ops.filterMap (CreateOp.reading? phases f)) =
      (ops'.filterMap (CreateOp.reading? phases f), m') := by
  induction h with
  | nil => rfl
  | @keep inBlock _ _ op _ _ hicu _ ih =>
    cases op with
    | elementStart op =>
      rw [List.filterMap_cons, List.filterMap_cons]
      simp only [CreateOp.reading?, CreateOp.lasting?, CreateOp.markNonBindable, Option.map_some,
        CreateOp.contained]
      split_ifs <;> exact congrArg (Prod.map (List.cons _) id) ih
    | icuStart op =>
      obtain rfl : inBlock = true := by simpa [CreateOp.isIcuStart] using hicu
      exact congrArg (Prod.map (List.cons _) id) ih
    | i18nContext op | variableDecl op => exact ih
    | _ => exact congrArg (Prod.map (List.cons _) id) ih
  | @lone m _ icu middle ops ops' hmiddle _ ih =>
    have hmiddle' (rest : List CreateOp) :
        (middle ++ .icuEnd icu.xref :: rest).filterMap (CreateOp.reading? phases f) =
          middle.filterMap (CreateOp.reading? phases f) ++
            .icuEnd icu.xref :: rest.filterMap (CreateOp.reading? phases f) := by
      rw [List.filterMap_append]
      rfl
    change (wrapped f (m + 1) false true
      ((middle ++ .icuEnd icu.xref :: ops).filterMap (CreateOp.reading? phases f))).map _ id =
        (_ :: _ :: (middle ++ .icuEnd icu.xref :: icuBlockEnd m :: ops').filterMap _, _)
    rw [hmiddle', hmiddle', wrapped_middle hmiddle, ih]
    rfl

theorem Enclosed.agree {inBlock : Bool} {m m' m₁ m₁' : Nat} {ops ops' ops₁ ops₁' : List CreateOp}
    (h : Enclosed inBlock m ops ops' m') (h₁ : Enclosed inBlock m₁ ops₁ ops₁' m₁')
    (hops : ops₁.filterMap (CreateOp.reading? phases g) =
      ops.filterMap (CreateOp.reading? phases f))
    (hnames : Aligned f g last last₁ m m₁) (hlast : m' ≤ last) (hlast₁ : m₁' ≤ last₁) :
    ops₁'.filterMap (CreateOp.reading? phases g) = ops'.filterMap (CreateOp.reading? phases f) ∧
      Aligned f g last last₁ m' m₁' := by
  have hread : wrapped f m inBlock false (ops.filterMap (CreateOp.reading? phases f)) =
      (ops'.filterMap (CreateOp.reading? phases f), m') := h.reading
  have hread₁ : wrapped g m₁ inBlock false (ops.filterMap (CreateOp.reading? phases f)) =
      (ops₁'.filterMap (CreateOp.reading? phases g), m₁') := hops ▸ h₁.reading
  have hagree := wrapped_agree hnames ((congrArg Prod.snd hread).trans_le hlast)
    ((congrArg Prod.snd hread₁).trans_le hlast₁)
  rwa [hread, hread₁] at hagree

section Wrapping

variable {start job job' next next' : Job} {scheduled scheduled' : List Phase} {s t s' t' : Ids}
  {views views' others others' : List View}

end Wrapping

end TemplateLowering
