import TemplateLowering.Proofs.Lowering.Forest
import TemplateLowering.Proofs.OpList.Sequence
import TemplateLowering.Proofs.Pass.I18nBlock

/-!
# The walk over blocks

The walk that gives views their blocks goes through a job by looking views up, and changes the lists
that it is about to read.  Since the views are in document order, it visits each of them once, and
what it does to a view and to the views below it depends on nothing else in the job.  `Traces` says
what that is, without the job: it reads the marks of a view and the views below it, and relates them
to the ones that the walk leaves behind.
-/

namespace TemplateLowering

variable {bound i : Nat} {back front : List (Nat × BlockMark)}

/-! ## What the walk does -/

/-- What the walk counts: the blocks of the current root, and the numbers that were drawn. -/
structure Tally where
  index : Nat
  next : Nat

/-- The tally after the end of a block.  The end of a root ends its count. -/
def Tally.closed (tally : Tally) : Option OpenBlock → Tally
  | some block => if block.hasIndex then tally else { tally with index := 0 }
  | none => tally

def CreateOp.unnumbered : CreateOp → CreateOp
  | .i18nStart op => .i18nStart { op with subTemplateIndex := none }
  | op => op

def SameButNumbers (ops ops' : List CreateOp) : Prop :=
  ops'.map CreateOp.unnumbered = ops.map CreateOp.unnumbered

/-- The content of a view is put in a block, if there is one to put it in. -/
inductive Enters : Option OpenBlock → Tally → View → View → Tally → Prop
  | wrap {parent : OpenBlock} {tally : Tally} {view view' : View}
      (hxref : view'.xref = view.xref)
      (hops : view'.create.toList = parent.enclose ⟨tally.next⟩ view.create.toList) :
      Enters (some parent) tally view view' ⟨tally.index + 1, tally.next + 1⟩
  | keep {tally : Tally} {view : View} : Enters none tally view view tally

/-- The block that a view is put in, where `block` is open. -/
def enclosing (placed : Bool) (block : Option OpenBlock) : Option OpenBlock :=
  if placed then block else none

/-- The walk along the marks of a view and over the views below it: the marks and the views before
it, and after it. -/
inductive Traces : Option OpenBlock → Tally → List BlockMark → List View →
    List BlockMark → List View → Tally → Prop
  | nil {block : Option OpenBlock} {tally : Tally} : Traces block tally [] [] [] [] tally
  | start {block : Option OpenBlock} {tally tally' : Tally} {op : I18nStart}
      {marks marks' : List BlockMark} {views views' : List View}
      (hrest : Traces (some (op.withIndex tally.index).opened) tally marks views marks' views'
        tally') :
      Traces block tally (.start op :: marks) views (.start (op.withIndex tally.index) :: marks')
        views' tally'
  | stop {block : Option OpenBlock} {tally tally' : Tally} {marks marks' : List BlockMark}
      {views views' : List View}
      (hrest : Traces none (tally.closed block) marks views marks' views' tally') :
      Traces block tally (.stop :: marks) views (.stop :: marks') views' tally'
  | view {block : Option OpenBlock} {tally tally₁ tally₂ tally' : Tally} {placed : Bool}
      {view entered view' : View} {marks marks' : List BlockMark}
      {below below' rest rest' : List View}
      (hforest : Forest .free view.blockMarks below)
      (henters : Enters (enclosing placed block) tally view entered tally₁)
      (hbelow : Traces none tally₁ entered.blockMarks below view'.blockMarks below' tally₂)
      (hxref : view'.xref = view.xref)
      (hsame : SameButNumbers entered.create.toList view'.create.toList)
      (hrest : Traces block tally₂ marks rest marks' rest' tally') :
      Traces block tally (.view view.xref placed :: marks) (view :: (below ++ rest))
        (.view view.xref placed :: marks') (view' :: (below' ++ rest')) tally'

theorem SameButNumbers.refl (ops : List CreateOp) : SameButNumbers ops ops :=
  rfl

theorem SameButNumbers.trans {ops ops' ops'' : List CreateOp} (h : SameButNumbers ops ops')
    (h' : SameButNumbers ops' ops'') : SameButNumbers ops ops'' :=
  Eq.trans h' h

theorem Traces.map_xref {block : Option OpenBlock} {tally tally' : Tally}
    {marks marks' : List BlockMark} {views views' : List View}
    (h : Traces block tally marks views marks' views' tally') :
    views'.map View.xref = views.map View.xref := by
  induction h with
  | nil => rfl
  | start _ ih => exact ih
  | stop _ ih => exact ih
  | view _ _ _ hxref _ _ ihbelow ihrest => simp [hxref, ihbelow, ihrest]

/-! ## Marks with their places -/

def BlockMark.step (id : OpId) : BlockMark → BlockStep
  | .start _ => .start id
  | .stop => .stop
  | .view xref placed => .view xref placed

theorem BlockStep.ofOp_eq (id : OpId) (op : CreateOp) :
    BlockStep.ofOp id op = op.blockMarks.map (BlockMark.step id) := by
  cases op with
  | repeaterCreate op =>
    simp [ofOp, ofView?, CreateOp.blockMarks, CreateOp.embeds, BlockMark.step, Function.comp_def]
  | projection op =>
    simp [ofOp, ofView?, CreateOp.blockMarks, CreateOp.embeds, BlockMark.step, Function.comp_def]
  | _ => rfl

theorem CreateOp.eq_of_start_mem {op : CreateOp} {start : I18nStart}
    (h : .start start ∈ op.blockMarks) : op = .i18nStart start := by
  cases op with
  | i18nStart op =>
    obtain rfl : start = op := by simpa [blockMarks] using h
    rfl
  | _ => simp [blockMarks] at h

theorem CreateOp.pairwise_blockMarks (op : CreateOp) :
    op.blockMarks.Pairwise fun _ mark => ∀ start, mark ≠ .start start := by
  cases op with
  | i18nStart op => exact List.pairwise_singleton _ _
  | i18nEnd op => exact List.pairwise_singleton _ _
  | _ =>
    simp only [blockMarks, List.pairwise_map]
    exact List.pairwise_of_forall fun _ _ start => by simp

def OpList.blockMarksAt (l : OpList CreateOp) (is : List Nat) : List (Nat × BlockMark) :=
  is.flatMap fun i => ((l.op? i).elim [] CreateOp.blockMarks).map (i, ·)

namespace OpList

variable {l : OpList CreateOp} {is : List Nat}

theorem Chain.blockSteps_eq (h : l.Chain is) :
    blockSteps l = (l.blockMarksAt is).map fun place => place.2.step (l.opId place.1) := by
  rw [blockSteps, entries, h.indices_eq, blockMarksAt, List.map_flatMap]
  have hops : ∀ i ∈ is, ∃ op, l.op? i = some op := fun i hi => h.exists_op? hi
  clear h
  induction is with
  | nil => rfl
  | cons i is ih =>
    obtain ⟨op, hop⟩ := hops i List.mem_cons_self
    have hrest := ih fun i hi => hops i (List.mem_cons_of_mem _ hi)
    rw [List.filterMap_cons, hop, Option.map_some, List.flatMap_cons, List.flatMap_cons, hrest,
      hop]
    simp [BlockStep.ofOp_eq, Function.comp_def]

theorem Chain.map_blockMarksAt (h : l.Chain is) :
    (l.blockMarksAt is).map Prod.snd = l.toList.flatMap CreateOp.blockMarks := by
  rw [h.toList_eq, blockMarksAt, List.map_flatMap]
  clear h
  induction is with
  | nil => rfl
  | cons i is ih =>
    rw [List.flatMap_cons, List.filterMap_cons, ih]
    cases l.op? i with
    | none => rfl
    | some op => simp [Function.comp_def]

theorem mem_blockMarksAt {mark : BlockMark} (h : (i, mark) ∈ l.blockMarksAt is) :
    i ∈ is ∧ ∃ op, l.op? i = some op ∧ mark ∈ op.blockMarks := by
  obtain ⟨j, hj, hmem⟩ := List.mem_flatMap.1 h
  obtain ⟨mark', hmark, heq⟩ := List.mem_map.1 hmem
  obtain ⟨rfl, rfl⟩ := Prod.mk.inj heq
  refine ⟨hj, ?_⟩
  cases hop : l.op? j with
  | none => simp [hop] at hmark
  | some op => exact ⟨op, rfl, by simpa [hop] using hmark⟩

theorem Chain.blockMarksAt_start (h : l.Chain is) {op : I18nStart}
    (hmarks : l.blockMarksAt is = front ++ (i, .start op) :: back) :
    i ∈ is ∧ l.op? i = some (.i18nStart op) ∧ (∀ place ∈ front, place.1 ≠ i) ∧
      ∀ place ∈ back, place.1 ≠ i := by
  have hmem : (i, BlockMark.start op) ∈ l.blockMarksAt is := by
    rw [hmarks]
    exact List.mem_append_right _ List.mem_cons_self
  obtain ⟨hi, op', hop, hstart⟩ := mem_blockMarksAt hmem
  obtain rfl := CreateOp.eq_of_start_mem hstart
  have hpairwise : (l.blockMarksAt is).Pairwise
      fun a b => a.1 = b.1 → ∀ start, b.2 ≠ .start start := by
    rw [blockMarksAt, List.pairwise_flatMap]
    constructor
    · intro j _
      rw [List.pairwise_map]
      cases l.op? j with
      | none => exact List.Pairwise.nil
      | some other =>
        refine other.pairwise_blockMarks.imp ?_
        intro _ _ hne _
        exact hne
    · refine h.indices_nodup.imp fun {j k} hne => ?_
      intro a ha b hb heq
      obtain ⟨_, -, rfl⟩ := List.mem_map.1 ha
      obtain ⟨_, -, rfl⟩ := List.mem_map.1 hb
      exact absurd heq hne
  rw [hmarks, List.pairwise_append, List.pairwise_cons] at hpairwise
  refine ⟨hi, hop, ?_, ?_⟩
  · intro place hplace heq
    exact hpairwise.2.2 place hplace _ List.mem_cons_self heq op rfl
  · rintro ⟨j, mark⟩ hplace rfl
    have hback : (j, mark) ∈ l.blockMarksAt is := by
      rw [hmarks]
      exact List.mem_append_right _ (List.mem_cons_of_mem _ hplace)
    obtain ⟨-, other, hother, hmark⟩ := mem_blockMarksAt hback
    obtain rfl : CreateOp.i18nStart op = other := by
      rw [hop] at hother
      exact Option.some.inj hother
    obtain rfl : mark = .start op := by simpa [CreateOp.blockMarks] using hmark
    exact hpairwise.2.1.1 _ hplace rfl op rfl

theorem Chain.blockMarksAt_setOp (h : l.Chain is) {op op' : I18nStart}
    (hmarks : l.blockMarksAt is = front ++ (i, .start op) :: back) :
    (l.setOp i (.i18nStart op')).blockMarksAt is = front ++ (i, .start op') :: back := by
  obtain ⟨hi, hop, hfront, hback⟩ := h.blockMarksAt_start hmarks
  let change : Nat × BlockMark → Nat × BlockMark :=
    fun place => if place.1 = i then (i, .start op') else place
  have hchange : (l.setOp i (.i18nStart op')).blockMarksAt is =
      (l.blockMarksAt is).map change := by
    rw [blockMarksAt, blockMarksAt, List.map_flatMap]
    refine List.flatMap_congr fun j hj => ?_
    rw [op?_setOp (h.lt_size hi)]
    by_cases hji : j = i
    · subst hji
      simp [hop, CreateOp.blockMarks, change]
    · simp [hji, change, Function.comp_def]
  have hkeep : ∀ places : List (Nat × BlockMark), (∀ place ∈ places, place.1 ≠ i) →
      places.map change = places := by
    intro places hplaces
    refine (List.map_congr_left fun place hplace => ?_).trans (List.map_id places)
    exact if_neg (hplaces place hplace)
  rw [hchange, hmarks, List.map_append, List.map_cons, hkeep front hfront, hkeep back hback]
  simp [change]

end OpList

/-! ## Changes of one view -/

section Views

variable {view : View} {is : List Nat}

theorem View.startsWithBlock_eq (h : view.create.Linked) :
    view.startsWithBlock = (view.create.toList.head?.bind CreateOp.start?).isSome := by
  obtain ⟨is, hchain⟩ := h
  rw [startsWithBlock, hchain.first?_eq, hchain.ids_eq, hchain.toList_eq]
  cases is with
  | nil => rfl
  | cons i is =>
    obtain ⟨op, hop⟩ := hchain.exists_op? List.mem_cons_self
    have hget : view.create.get? (view.create.opId i) = some op := by
      rw [OpList.get?, if_pos (by simp [OpList.holds, OpList.opId])]
      exact hop
    rw [List.filterMap_cons, hop, List.map_cons, List.head?_cons, Option.bind_some, hget]
    cases op <;> rfl

theorem I18nStart.unnumbered_withIndex (op : I18nStart) (index : Nat) :
    CreateOp.unnumbered (.i18nStart (op.withIndex index)) = CreateOp.unnumbered (.i18nStart op) := by
  unfold withIndex
  split <;> rfl

theorem View.numberBlock_spec (hchain : view.create.Chain is) {op : I18nStart}
    (hmarks : view.create.blockMarksAt is = front ++ (i, .start op) :: back) (index : Nat) :
    ∃ create, view.numberBlock (view.create.opId i) index = { view with create } ∧
      create.Chain is ∧ create.opId = view.create.opId ∧
      create.blockMarksAt is = front ++ (i, .start (op.withIndex index)) :: back ∧
      View.openedBlock? { view with create } (view.create.opId i) =
        some (op.withIndex index).opened ∧
      SameButNumbers view.create.toList create.toList := by
  obtain ⟨hi, hop, -, -⟩ := hchain.blockMarksAt_start hmarks
  have hlt := hchain.lt_size hi
  have hchain' := hchain.setOp i (.i18nStart (op.withIndex index))
  refine ⟨_, View.numberBlock_eq hchain hi hop index, hchain', rfl, hchain.blockMarksAt_setOp hmarks,
    View.openedBlock?_setOp hlt _, ?_⟩
  rw [SameButNumbers, hchain.toList_eq, hchain'.toList_eq, List.map_filterMap, List.map_filterMap]
  refine List.filterMap_congr fun j _ => ?_
  rw [OpList.op?_setOp hlt]
  by_cases hji : j = i
  · rw [if_pos hji, hji, hop, Option.map_some, Option.map_some, op.unnumbered_withIndex]
  · rw [if_neg hji]

end Views

/-! ## Changes of a job -/

namespace Job

variable {job job' : Job} {before after : List View} {view view' : View}

theorem unit?_of_units (hunits : job.units = before ++ view :: after)
    (hbefore : ∀ other ∈ before, other.xref ≠ view.xref) : job.unit? view.xref = some view := by
  have hnone : before.find? (fun other => other.xref = view.xref) = none := by
    simpa using hbefore
  rw [unit?, hunits, List.find?_append, hnone, Option.none_or, List.find?_cons_of_pos]
  simp

theorem Replaces.units_eq (h : job.Replaces job' view view')
    (hunits : job.units = before ++ view :: after)
    (hbefore : ∀ other ∈ before, other.xref ≠ view.xref) :
    job'.units = before ++ view' :: after := by
  obtain ⟨before', after', hunits', hjob', hbefore'⟩ := h
  rw [hunits] at hunits'
  rcases List.append_eq_append_iff.1 hunits' with ⟨middle, rfl, hrest⟩ | ⟨middle, rfl, hrest⟩
  · cases middle with
    | nil =>
      obtain ⟨-, rfl⟩ := List.cons.inj hrest
      simpa using hjob'
    | cons first middle =>
      obtain ⟨rfl, -⟩ := List.cons.inj hrest
      exact absurd rfl (hbefore' _ (by simp))
  · cases middle with
    | nil =>
      obtain ⟨-, rfl⟩ := List.cons.inj hrest
      simpa using hjob'
    | cons first middle =>
      obtain ⟨rfl, -⟩ := List.cons.inj hrest
      exact absurd rfl (hbefore _ (by simp))

theorem modifyUnit_units (f : View → View) (hunits : job.units = before ++ view :: after)
    (hbefore : ∀ other ∈ before, other.xref ≠ view.xref) :
    (job.modifyUnit view.xref f).units = before ++ f view :: after ∧
      (job.modifyUnit view.xref f).ids = job.ids := by
  obtain ⟨hreplaces, -, hids⟩ := modifyUnit_replaces f (unit?_of_units hunits hbefore)
  exact ⟨hreplaces.units_eq hunits hbefore, hids⟩

end Job

theorem wrapView_units {job : Job} {before after : List View} {view : View}
    (hunits : job.units = before ++ view :: after)
    (hbefore : ∀ other ∈ before, other.xref ≠ view.xref) (hlinked : view.create.Linked)
    (hfirst : view.create.toList.head?.bind CreateOp.start? = none) (parent : OpenBlock) :
    ∃ job' view', Yields (wrapView view.xref parent) job () job' ∧
      job'.units = before ++ view' :: after ∧ job'.ids.nextXref = job.ids.nextXref + 1 ∧
      view'.xref = view.xref ∧
      view'.create.Lists (parent.enclose ⟨job.ids.nextXref⟩ view.create.toList) := by
  have hunit := Job.unit?_of_units hunits hbefore
  have hstarts : ¬view.startsWithBlock = true := by
    rw [View.startsWithBlock_eq hlinked, hfirst]
    simp
  obtain ⟨create, hwrap, -, hlists⟩ :=
    View.wrapInBlock_lists hlinked ⟨job.ids.nextXref⟩ parent
  obtain ⟨job', hyields, hreplaces, -, hids⟩ := yields_wrapView hunit hstarts hwrap
  exact ⟨job', _, hyields, hreplaces.units_eq hunits hbefore, by rw [hids], rfl, hlists⟩

/-! ## The walk -/

/-- A walk of a view in a job, with the views below it: it changes them as `Traces` says, and no
other view. -/
def Walked (job : Job) (before : List View) (view : View) (below after : List View) (index : Nat)
    (job' : Job) (index' : Nat) : Prop :=
  ∃ view' below', job'.units = before ++ view' :: (below' ++ after) ∧ view'.xref = view.xref ∧
    SameButNumbers view.create.toList view'.create.toList ∧
    Traces none ⟨index, job.ids.nextXref⟩ view.blockMarks below view'.blockMarks below'
      ⟨index', job'.ids.nextXref⟩

/-- The views stand at the right place of the job: each can be found by its number, and the views
below the first one are in document order. -/
structure Job.Stands (job : Job) (before : List View) (view : View) (below after : List View) :
    Prop where
  units : job.units = before ++ view :: (below ++ after)
  nodup : (job.units.map View.xref).Nodup
  linked : ∀ unit ∈ view :: below, unit.create.Linked
  forest : Forest .free view.blockMarks below

/-- The visit of a view with fewer than `bound` views below it is a walk. -/
def VisitsBelow (visit : Xref → Nat → Walk Nat) (bound : Nat) : Prop :=
  ∀ (job : Job) (before : List View) (view : View) (below after : List View) (index : Nat),
    job.Stands before view below after → below.length < bound →
    ∃ index' job', Yields (visit view.xref index) job index' job' ∧
      Walked job before view below after index job' index'

theorem ne_xref_of_nodup {before after : List View} {view : View}
    (h : ((before ++ view :: after).map View.xref).Nodup) :
    ∀ other ∈ before, other.xref ≠ view.xref := by
  rw [List.map_append, List.map_cons, List.nodup_append] at h
  intro other hother
  exact h.2.2 _ (List.mem_map_of_mem hother) _ List.mem_cons_self

theorem OpenBlock.blockMarks_enclose (parent : OpenBlock) (xref : Xref) (ops : List CreateOp) :
    (parent.enclose xref ops).flatMap CreateOp.blockMarks =
      .start { xref, root := parent.root, message := parent.message, span := none } ::
        (ops.flatMap CreateOp.blockMarks ++ [.stop]) := by
  simp [enclose, CreateOp.blockMarks]

theorem visitDeclared_eq (visit : Xref → Nat → Walk Nat) (xref : Xref) (placed : Bool)
    (block : Option OpenBlock) (index : Nat) :
    visitDeclared visit xref placed block index =
      match enclosing placed block with
      | some parent => do
          wrapView xref parent
          visit xref (index + 1)
      | none => visit xref index := by
  cases placed <;> cases block <;> rfl

theorem visitDeclared_walked {visit : Xref → Nat → Walk Nat} (hvisit : VisitsBelow visit bound)
    {job : Job} {before after below : List View} {view : View}
    (hunits : job.units = before ++ view :: (below ++ after))
    (hnodup : (job.units.map View.xref).Nodup)
    (hlinked : ∀ unit ∈ view :: below, unit.create.Linked) {placed : Bool}
    (hplaced : placed = true → view.create.toList.head?.bind CreateOp.start? = none)
    (hforest : Forest .free view.blockMarks below) (hbound : below.length < bound)
    (block : Option OpenBlock) (index : Nat) :
    ∃ index' job' entered tally view' below',
      Yields (visitDeclared visit view.xref placed block index) job index' job' ∧
      job'.units = before ++ view' :: (below' ++ after) ∧ view'.xref = view.xref ∧
      Enters (enclosing placed block) ⟨index, job.ids.nextXref⟩ view entered tally ∧
      Traces none tally entered.blockMarks below view'.blockMarks below'
        ⟨index', job'.ids.nextXref⟩ ∧
      SameButNumbers entered.create.toList view'.create.toList := by
  rw [visitDeclared_eq]
  cases hblock : enclosing placed block with
  | none =>
    obtain ⟨index', job', hyields, view', below', hunits', hxref, hsame, htraces⟩ :=
      hvisit job before view below after index ⟨hunits, hnodup, hlinked, hforest⟩ hbound
    exact ⟨index', job', view, _, view', below', hyields, hunits', hxref, .keep, htraces, hsame⟩
  | some parent =>
    have hfirst : view.create.toList.head?.bind CreateOp.start? = none := by
      apply hplaced
      cases placed with
      | false => cases hblock
      | true => rfl
    have hbefore := ne_xref_of_nodup (hunits ▸ hnodup)
    obtain ⟨job₁, entered, hwrap, hunits₁, hnext, hxref, hlists⟩ :=
      wrapView_units hunits hbefore (hlinked _ List.mem_cons_self) hfirst parent
    have hstands : job₁.Stands before entered below after := by
      refine ⟨hunits₁, ?_, ?_, ?_⟩
      · rw [hunits, List.map_append, List.map_cons] at hnodup
        rwa [hunits₁, List.map_append, List.map_cons, hxref]
      · rw [List.forall_mem_cons] at hlinked ⊢
        exact ⟨hlists.linked, hlinked.2⟩
      · rw [View.blockMarks, hlists.toList, OpenBlock.blockMarks_enclose]
        exact hforest.enclosed _
    obtain ⟨index', job', hyields, view', below', hunits', hxref', hsame, htraces⟩ :=
      hvisit job₁ before entered below after (index + 1) hstands hbound
    rw [hxref] at hyields hxref'
    rw [hnext] at htraces
    exact ⟨index', job', entered, _, view', below',
      yields_bind.2 ⟨(), job₁, hwrap, hyields⟩, hunits', hxref', .wrap hxref hlists.toList, htraces,
      hsame⟩

/-! ## Following the steps of a view -/

/-- The walk of a view has passed some of its marks and stands before the others.  The views `front`
have been walked, the views `views` have not. -/
structure Job.Paused (job : Job) (before : List View) (view : View) (front views after : List View)
    (is : List Nat) (passed places : List (Nat × BlockMark)) : Prop where
  units : job.units = before ++ view :: (front ++ (views ++ after))
  nodup : (job.units.map View.xref).Nodup
  linked : ∀ unit ∈ views, unit.create.Linked
  chain : view.create.Chain is
  marks : view.create.blockMarksAt is = passed ++ places
  forest : Forest .free (places.map Prod.snd) views

/-- The rest of the walk changes the other marks and the views below them as `Traces` says. -/
def Resumed (job : Job) (before : List View) (view : View) (front views after : List View)
    (is : List Nat) (passed places : List (Nat × BlockMark)) (block : Option OpenBlock)
    (index : Nat) (job' : Job) (index' : Nat) : Prop :=
  ∃ view' places' views', job'.units = before ++ view' :: (front ++ (views' ++ after)) ∧
    view'.xref = view.xref ∧ view'.create.Chain is ∧
    SameButNumbers view.create.toList view'.create.toList ∧
    view'.create.blockMarksAt is = passed ++ places' ∧
    Traces block ⟨index, job.ids.nextXref⟩ (places.map Prod.snd) views (places'.map Prod.snd)
      views' ⟨index', job'.ids.nextXref⟩

theorem Tally.closed_eq (tally : Tally) (block : Option OpenBlock) :
    tally.closed block = ⟨(tally.closed block).index, tally.next⟩ := by
  unfold closed
  split
  · split <;> rfl
  · rfl

theorem followBlockSteps_stop (visit : Xref → Nat → Walk Nat) (view : Xref)
    (steps : List BlockStep) (block : Option OpenBlock) (index next : Nat) :
    followBlockSteps visit view (.stop :: steps) block index =
      followBlockSteps visit view steps none ((Tally.mk index next).closed block).index := by
  cases block with
  | none => rfl
  | some block =>
    simp only [followBlockSteps, Tally.closed]
    split <;> rfl

section Paused

variable {job job' : Job} {before front views after : List View} {view : View} {is : List Nat}
  {passed places : List (Nat × BlockMark)} {block : Option OpenBlock} {index index' i : Nat}

theorem Job.Paused.unit?_eq (h : job.Paused before view front views after is passed places) :
    job.unit? view.xref = some view :=
  Job.unit?_of_units h.units (ne_xref_of_nodup (h.units ▸ h.nodup))

theorem Job.Paused.number {op : I18nStart}
    (h : job.Paused before view front views after is passed ((i, .start op) :: places))
    (index : Nat) :
    ∃ job₁ view₁,
      job.modifyUnit view.xref (fun unit => unit.numberBlock (view.create.opId i) index) = job₁ ∧
      job₁.ids = job.ids ∧ view₁.xref = view.xref ∧ view₁.create.opId = view.create.opId ∧
      view₁.openedBlock? (view.create.opId i) = some (op.withIndex index).opened ∧
      SameButNumbers view.create.toList view₁.create.toList ∧
      job₁.Paused before view₁ front views after is (passed ++ [(i, .start (op.withIndex index))])
        places := by
  obtain ⟨create, hnumber, hchain, hid, hmarks, hopened, hsame⟩ :=
    View.numberBlock_spec h.chain h.marks index
  obtain ⟨hunits, hids⟩ := Job.modifyUnit_units
    (fun unit => unit.numberBlock (view.create.opId i) index) h.units
    (ne_xref_of_nodup (h.units ▸ h.nodup))
  rw [hnumber] at hunits
  refine ⟨_, { view with create }, rfl, hids, rfl, hid, hopened, hsame, hunits, ?_, h.linked, hchain,
    by simpa using hmarks, ?_⟩
  · have hnodup := h.nodup
    rw [h.units, List.map_append, List.map_cons] at hnodup
    rwa [hunits, List.map_append, List.map_cons]
  · cases h.forest with
    | start hopens hrest =>
      cases hopens
      exact hrest

theorem Job.Paused.stop
    (h : job.Paused before view front views after is passed ((i, .stop) :: places)) :
    job.Paused before view front views after is (passed ++ [(i, .stop)]) places := by
  refine ⟨h.units, h.nodup, h.linked, h.chain, by simpa using h.marks, ?_⟩
  cases h.forest with
  | stop hcloses hrest =>
    cases hcloses
    exact hrest

theorem followBlockSteps_resumed {visit : Xref → Nat → Walk Nat} (hvisit : VisitsBelow visit bound)
    (h : job.Paused before view front views after is passed places) (hbound : views.length ≤ bound)
    (block : Option OpenBlock) (index : Nat) :
    ∃ index' job',
      Yields (followBlockSteps visit view.xref
        (places.map fun place => place.2.step (view.create.opId place.1)) block index)
        job index' job' ∧
      Resumed job before view front views after is passed places block index job' index' := by
  induction places generalizing job view front views passed block index with
  | nil =>
    cases h.forest
    exact ⟨index, job, yields_pure.2 ⟨rfl, rfl⟩, view, [], [], h.units, rfl, h.chain, .refl _,
      h.marks, .nil⟩
  | cons place places ih =>
    obtain ⟨i, mark⟩ := place
    cases mark with
    | start op =>
      obtain ⟨job₁, view₁, hmodify, hids, hxref, hid, hopened, hsame, hpaused⟩ := h.number index
      obtain ⟨index', job', hyields, view', places', views', hunits', hxref', hchain', hsame',
        hmarks', htraces⟩ := ih hpaused hbound (some (op.withIndex index).opened) index
      rw [hids] at htraces
      refine ⟨index', job', ?_, view', (i, .start (op.withIndex index)) :: places', views', hunits',
        hxref'.trans hxref, hchain', hsame.trans hsame', by simpa using hmarks', .start htraces⟩
      have hunit := hpaused.unit?_eq
      rw [hxref] at hyields hunit
      rw [hid] at hyields
      simp only [List.map_cons, BlockMark.step, followBlockSteps, yields_bind]
      refine ⟨(), job₁, congrArg (fun job => Except.ok ((), job)) hmodify, job₁, job₁, rfl, ?_⟩
      rw [hunit, Option.bind_some, hopened]
      exact hyields
    | stop =>
      obtain ⟨index', job', hyields, view', places', views', hunits', hxref', hchain', hsame',
        hmarks', htraces⟩ := ih h.stop hbound none
          ((Tally.mk index job.ids.nextXref).closed block).index
      refine ⟨index', job', ?_, view', (i, .stop) :: places', views', hunits', hxref', hchain',
        hsame', by simpa using hmarks', .stop ?_⟩
      · rw [List.map_cons, BlockMark.step, followBlockSteps_stop _ _ _ _ _ job.ids.nextXref]
        exact hyields
      · rwa [Tally.closed_eq]
    | view xref placed =>
      obtain ⟨hunits, hnodup, hlinked, hchain, hmarks, hforest⟩ := h
      rw [List.map_cons, BlockMark.step, followBlockSteps_view]
      cases hforest with
      | view hplaced hbelow hrest =>
        rename_i inner below rest
        rw [List.length_cons, List.length_append] at hbound
        have hunits₀ : job.units =
            (before ++ view :: front) ++ inner :: (below ++ (rest ++ after)) := by
          simpa using hunits
        have hlinked₀ : ∀ unit ∈ inner :: below, unit.create.Linked :=
          fun unit hunit => hlinked unit (by simp at hunit ⊢; tauto)
        obtain ⟨index₁, job₁, entered, tally, inner', below', hyields₁, hunits₁, hxref₁, henters,
          htraces₁, hsame₁⟩ := visitDeclared_walked hvisit hunits₀ hnodup hlinked₀ hplaced hbelow
            (by omega) block index
        have hpaused : job₁.Paused before view (front ++ inner' :: below') rest after is
            (passed ++ [(i, .view inner.xref placed)]) places := by
          refine ⟨by simpa using hunits₁, ?_, ?_, hchain, by simpa using hmarks, hrest⟩
          · rw [hunits₀] at hnodup
            simpa [hunits₁, hxref₁, htraces₁.map_xref] using hnodup
          · exact fun unit hunit => hlinked unit (by simp [hunit])
        obtain ⟨index', job', hyields, view', places', views', hunits', hxref', hchain', hsame',
          hmarks', htraces⟩ := ih hpaused (by omega) block index₁
        exact ⟨index', job', yields_bind.2 ⟨index₁, job₁, hyields₁, hyields⟩, view',
          (i, .view inner.xref placed) :: places', inner' :: (below' ++ views'),
          by simpa using hunits', hxref', hchain', hsame', by simpa using hmarks',
          .view hbelow henters htraces₁ hxref₁ hsame₁ htraces⟩

end Paused

theorem visitsBelow_propagateBlocks (fuel : Nat) : VisitsBelow (propagateBlocks fuel) fuel := by
  induction fuel with
  | zero =>
    intro job before view below after index _ hbound
    exact absurd hbound (Nat.not_lt_zero _)
  | succ fuel ih =>
    intro job before view below after index hstands hbound
    obtain ⟨hunits, hnodup, hlinked, hforest⟩ := hstands
    rw [List.forall_mem_cons] at hlinked
    obtain ⟨is, hchain⟩ := hlinked.1
    have hpaused : job.Paused before view [] below after is [] (view.create.blockMarksAt is) := by
      refine ⟨hunits, hnodup, hlinked.2, hchain, rfl, ?_⟩
      rwa [hchain.map_blockMarksAt]
    obtain ⟨index', job', hyields, view', places', below', hunits', hxref', hchain', hsame, hmarks',
      htraces⟩ := followBlockSteps_resumed ih hpaused (Nat.le_of_lt_succ hbound) none index
    rw [List.nil_append] at hunits' hmarks'
    rw [hchain.map_blockMarksAt, ← hmarks', hchain'.map_blockMarksAt] at htraces
    refine ⟨index', job', ?_, view', below', hunits', hxref', hsame, htraces⟩
    simp only [propagateBlocks, yields_bind]
    refine ⟨job, job, rfl, ?_⟩
    rw [hpaused.unit?_eq]
    rw [← hchain.blockSteps_eq] at hyields
    exact hyields

theorem Job.propagateI18nBlocks_traces {job : Job} (hnodup : (job.units.map View.xref).Nodup)
    (hlinked : ∀ view ∈ job.units, view.create.Linked)
    (hforest : Forest .free job.root.blockMarks job.views) :
    ∃ job' index, job.propagateI18nBlocks = .ok job' ∧ job'.root.xref = job.root.xref ∧
      SameButNumbers job.root.create.toList job'.root.create.toList ∧
      Traces none ⟨0, job.ids.nextXref⟩ job.root.blockMarks job.views job'.root.blockMarks
        job'.views ⟨index, job'.ids.nextXref⟩ := by
  have hstands : job.Stands [] job.root job.views [] :=
    ⟨by simp [units], hnodup, hlinked, hforest⟩
  obtain ⟨index, job', hyields, root, views, hunits, hxref, hsame, htraces⟩ :=
    visitsBelow_propagateBlocks (job.views.length + 2) job [] job.root job.views [] 0 hstands
      (by omega)
  obtain ⟨rfl, rfl⟩ : job'.root = root ∧ job'.views = views := by simpa [units] using hunits
  refine ⟨job', index, ?_, hxref, hsame, htraces⟩
  rw [propagateI18nBlocks, yields_stateT.1 hyields]
  rfl

end TemplateLowering
