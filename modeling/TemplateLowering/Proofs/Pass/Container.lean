import TemplateLowering.Pass.Container
import TemplateLowering.Proofs.Job.Units

/-!
# Containers in outlines

Turning elements into containers changes the kind of their starts and ends.  The pass finds the end
of an element by its number alone.  Since no two elements of a view have the same number, an end is
turned exactly when its start is, and starts and ends stay balanced.
-/

namespace TemplateLowering

/-! ## Names of containers -/

theorem isNgContainer_qualified {key : String} (h : ':' ∉ key.toList) :
    isNgContainer (":" ++ key ++ ":ng-container") = true := by
  have hne : ∀ c ∈ key.toList, decide (c ≠ ':') = true := by
    intro c hc
    exact decide_eq_true fun heq => h (heq ▸ hc)
  have hchars : (":" ++ key ++ ":ng-container").toList =
      ':' :: (key.toList ++ ':' :: "ng-container".toList) := by
    simp
  have hdrop : (key.toList ++ ':' :: "ng-container".toList).dropWhile (fun c => decide (c ≠ ':')) =
      ':' :: "ng-container".toList := by
    rw [List.dropWhile_append_of_pos hne]
    rfl
  unfold isNgContainer TagName.splitLenient TagName.split
  rw [hchars]
  simp only [hdrop, String.ofList_toList, beq_self_eq_true]

/-! ## Turned brackets -/

/-- The bracket of an element becomes that of a container, if the element is among the turned
ones. -/
def Bracket.turned (turned : List Xref) (bracket : Bracket) : Bracket :=
  if bracket.kind = .element ∧ bracket.xref ∈ turned then ⟨.container, bracket.xref⟩ else bracket

def Mark.turned (turned : List Xref) : Mark → Mark
  | .start bracket => .start (bracket.turned turned)
  | .stop bracket => .stop (bracket.turned turned)

theorem Bracket.turned_cons {turned : List Xref} {bracket : Bracket} {x : Xref}
    (h : bracket ≠ ⟨.element, x⟩) : bracket.turned (x :: turned) = bracket.turned turned := by
  obtain ⟨kind, xref⟩ := bracket
  by_cases hkind : kind = .element
  · have hne : xref ≠ x := fun heq => h (by rw [hkind, heq])
    simp [Bracket.turned, hkind, hne]
  · simp [Bracket.turned, hkind]

theorem admitsStart_turned (turned : List Xref) (opened : List Bracket) :
    admitsStart (opened.map (Bracket.turned turned)) = admitsStart opened := by
  cases opened with
  | nil => rfl
  | cons bracket opened =>
    by_cases h : bracket.kind = .element ∧ bracket.xref ∈ turned
    · simp [admitsStart, Bracket.turned, h]
    · simp [admitsStart, Bracket.turned, h]

/-! ## Operations -/

def CreateOp.startedElements : CreateOp → List Xref
  | .elementStart op => [op.xref]
  | _ => []

/-- The change of an operation, while the turned elements go from `turned` to `turned'`. -/
structure CreateOp.Contains (turned : List Xref) (op op' : CreateOp) (turned' : List Xref) :
    Prop where
  features : op'.features = op.features
  tags : op'.tags = op.tags.filter fun tag => !isNgContainer tag
  blocks : op'.blocks = op.blocks
  xrefs : op'.xrefs = op.xrefs
  sound : op.Sound → op'.Sound
  covered : ∀ inBlock rest, covered inBlock (op'.marks ++ rest) = covered inBlock (op.marks ++ rest)
  marks : (∀ x ∈ op.startedElements, x ∉ turned) → op'.marks = op.marks.map (Mark.turned turned')
  state : turned' = turned ∨ ∃ x ∈ op.startedElements, turned' = x :: turned

theorem toContainer_spec (op : CreateOp) (turned : List Xref) :
    ∃ op' turned', Yields (toContainer op) turned op' turned' ∧ op.Contains turned op' turned' := by
  cases op with
  | elementStart op =>
    by_cases htag : isNgContainer op.tag = true
    · have hrun : ((toContainer (.elementStart op)).run turned).run =
          (.containerStart { op.toElementBase with placeholder := op.placeholder },
            op.xref :: turned) := by
        simp [toContainer, htag]
      refine ⟨_, _, yields_stateM.2 hrun, rfl, ?_, rfl, rfl, fun _ => ⟨rfl, ?_⟩, fun _ _ => rfl, ?_,
        .inr ⟨_, by simp [CreateOp.startedElements], rfl⟩⟩
      · simp [CreateOp.tags, htag]
      · simp [CreateOp.lists]
      · simp [CreateOp.marks, Mark.turned, Bracket.turned]
    · have hrun : ((toContainer (.elementStart op)).run turned).run =
          (.elementStart op, turned) := by
        simp [toContainer, htag]
      refine ⟨_, _, yields_stateM.2 hrun, rfl, ?_, rfl, rfl, fun h => h, fun _ _ => rfl, ?_,
        .inl rfl⟩
      · simp [CreateOp.tags, htag]
      · intro hfresh
        have hout : op.xref ∉ turned := hfresh op.xref (by simp [CreateOp.startedElements])
        simp [CreateOp.marks, Mark.turned, Bracket.turned, hout]
  | elementEnd op =>
    by_cases hmem : op.xref ∈ turned
    · have hrun : ((toContainer (.elementEnd op)).run turned).run =
          (.containerEnd op, turned) := by
        simp [toContainer, hmem]
      refine ⟨_, _, yields_stateM.2 hrun, rfl, rfl, rfl, rfl, fun _ => ⟨rfl, ?_⟩, fun _ _ => rfl,
        ?_, .inl rfl⟩
      · simp [CreateOp.lists]
      · simp [CreateOp.marks, Mark.turned, Bracket.turned, hmem]
    · have hrun : ((toContainer (.elementEnd op)).run turned).run =
          (.elementEnd op, turned) := by
        simp [toContainer, hmem]
      refine ⟨_, _, yields_stateM.2 hrun, rfl, rfl, rfl, rfl, fun h => h, fun _ _ => rfl, ?_,
        .inl rfl⟩
      simp [CreateOp.marks, Mark.turned, Bracket.turned, hmem]
  | _ =>
    refine ⟨_, turned, yields_stateM.2 rfl, rfl, rfl, rfl, rfl, fun h => h, fun _ _ => rfl, ?_,
      .inl rfl⟩
    simp [CreateOp.marks, Mark.turned, Bracket.turned]

theorem CreateOp.marks_cases (op : CreateOp) :
    op.marks = [] ∨ (∃ bracket, op.marks = [.stop bracket]) ∨
      ∃ bracket, op.marks = [.start bracket] ∧
        ∀ x, bracket = ⟨.element, x⟩ → x ∈ op.startedElements := by
  cases op with
  | elementStart op =>
    refine .inr (.inr ⟨_, rfl, ?_⟩)
    intro x hx
    simp [startedElements, (Bracket.mk.inj hx).2]
  | containerStart op => exact .inr (.inr ⟨_, rfl, fun _ hx => nomatch (Bracket.mk.inj hx).1⟩)
  | i18nStart op => exact .inr (.inr ⟨_, rfl, fun _ hx => nomatch (Bracket.mk.inj hx).1⟩)
  | icuStart op => exact .inr (.inr ⟨_, rfl, fun _ hx => nomatch (Bracket.mk.inj hx).1⟩)
  | elementEnd op => exact .inr (.inl ⟨_, rfl⟩)
  | containerEnd op => exact .inr (.inl ⟨_, rfl⟩)
  | i18nEnd op => exact .inr (.inl ⟨_, rfl⟩)
  | icuEnd op => exact .inr (.inl ⟨_, rfl⟩)
  | _ => exact .inl rfl

/-- Starts and ends stay balanced.  What is open is turned like its starts were, as long as the
elements that are still to come are new. -/
theorem balanced_of_contains {turned turned' : List Xref} {ops ops' : List CreateOp}
    (h : Threads CreateOp.Contains turned ops ops' turned') {opened : List Bracket}
    (hnodup : (ops.flatMap CreateOp.startedElements).Nodup)
    (hfresh : ∀ x ∈ ops.flatMap CreateOp.startedElements,
      x ∉ turned ∧ Bracket.mk .element x ∉ opened)
    (hbalanced : balanced opened (ops.flatMap CreateOp.marks) = true) :
    balanced (opened.map (Bracket.turned turned)) (ops'.flatMap CreateOp.marks) = true := by
  induction h generalizing opened with
  | nil =>
    cases opened with
    | nil => rfl
    | cons bracket opened => exact absurd hbalanced (by simp [balanced])
  | @cons turned turned₁ _ op op' ops ops' hop hrest ih =>
    rw [List.flatMap_cons] at hnodup hbalanced ⊢
    simp only [List.flatMap_cons, List.mem_append] at hfresh
    have hparts := List.nodup_append.1 hnodup
    have hmarks := hop.marks fun x hx => (hfresh x (.inl hx)).1
    -- The elements to come are not among those turned at this operation either.
    have hfresh' : ∀ x ∈ ops.flatMap CreateOp.startedElements, x ∉ turned₁ := by
      intro x hx
      rcases hop.state with hstate | ⟨y, hy, hstate⟩
      · rw [hstate]
        exact (hfresh x (.inr hx)).1
      · rw [hstate, List.mem_cons, not_or]
        exact ⟨fun heq => hparts.2.2 y hy x hx heq.symm, (hfresh x (.inr hx)).1⟩
    have hopened : opened.map (Bracket.turned turned₁) = opened.map (Bracket.turned turned) := by
      rcases hop.state with hstate | ⟨y, hy, hstate⟩
      · rw [hstate]
      · rw [hstate]
        apply List.map_congr_left
        intro bracket hbracket
        exact Bracket.turned_cons fun heq => (hfresh y (.inl hy)).2 (heq ▸ hbracket)
    rw [hmarks, ← hopened]
    rcases op.marks_cases with hnone | ⟨bracket, hstop⟩ | ⟨bracket, hstart, hstarted⟩
    · rw [hnone] at hbalanced ⊢
      exact ih hparts.2.1 (fun x hx => ⟨hfresh' x hx, (hfresh x (.inr hx)).2⟩) hbalanced
    · rw [hstop] at hbalanced ⊢
      cases opened with
      | nil => exact absurd hbalanced (by simp [balanced])
      | cons innermost opened =>
        simp only [List.singleton_append, balanced, Bool.and_eq_true, decide_eq_true_eq]
          at hbalanced
        have htail := ih hparts.2.1 (fun x hx => ⟨hfresh' x hx, fun hmem =>
          (hfresh x (.inr hx)).2 (List.mem_cons_of_mem _ hmem)⟩) hbalanced.2
        simp [Mark.turned, balanced, hbalanced.1, htail]
    · rw [hstart] at hbalanced ⊢
      simp only [List.singleton_append, balanced, Bool.and_eq_true] at hbalanced
      have hnew : ∀ x ∈ ops.flatMap CreateOp.startedElements,
          x ∉ turned₁ ∧ Bracket.mk .element x ∉ bracket :: opened := by
        intro x hx
        refine ⟨hfresh' x hx, ?_⟩
        rw [List.mem_cons, not_or]
        exact ⟨fun heq => hparts.2.2 x (hstarted x heq.symm) x hx rfl, (hfresh x (.inr hx)).2⟩
      have htail := ih hparts.2.1 hnew hbalanced.2
      simp only [List.map_cons, List.map_nil, List.singleton_append, Mark.turned, balanced,
        admitsStart_turned, Bool.and_eq_true]
      exact ⟨hbalanced.1, htail⟩

theorem covered_of_contains {turned turned' : List Xref} {ops ops' : List CreateOp}
    (h : Threads CreateOp.Contains turned ops ops' turned') (inBlock : Bool) :
    covered inBlock (ops'.flatMap CreateOp.marks) =
      covered inBlock (ops.flatMap CreateOp.marks) := by
  induction h generalizing inBlock with
  | nil => rfl
  | cons hop _ ih =>
    rw [List.flatMap_cons, List.flatMap_cons, hop.covered]
    exact covered_append_congr ih _ inBlock

/-! ## The pass -/

theorem startedElements_nodup {view : View} (h : view.xrefs.Nodup) :
    (view.create.toList.flatMap CreateOp.startedElements).Nodup := by
  have hsublist : ∀ op : CreateOp, op.startedElements.Sublist op.xrefs := by
    intro op
    cases op with
    | elementStart op => exact List.Sublist.refl _
    | _ => exact List.nil_sublist _
  have hcreate : (view.create.toList.flatMap CreateOp.xrefs).Nodup :=
    (List.nodup_append.1 (List.nodup_cons.1 h).2).1
  exact List.Nodup.sublist (List.Sublist.flatMap_right _ fun op _ => hsublist op) hcreate

theorem View.Sound.generateContainers {view : View} (hview : view.Sound)
    (hnodup : view.xrefs.Nodup) (n : Nat) : view.Turns id n n view.generateContainers ∧
      ∀ tag ∈ view.generateContainers.tags, isNgContainer tag = false := by
  obtain ⟨create, turned, ops, hyields, hlists, hthreads⟩ :=
    hview.create.lists.total_mapM (fun op _ => toContainer_spec op) []
  have heq : view.generateContainers = { view with create } := by
    rw [View.generateContainers, yields_stateM.1 hyields]
  have hops : List.Forall₂ (fun op op' => ∃ turned turned', op.Contains turned op' turned')
      view.create.toList ops := hthreads.forall₂ fun _ _ _ _ _ h => ⟨_, _, h⟩
  have hfeatures : View.features { view with create } = view.features := by
    rw [View.features, hlists.toList]
    apply flatMap_eq_of_forall₂ hops
    rintro _ _ ⟨_, _, h⟩
    exact h.features
  have htags : View.tags { view with create } =
      view.tags.filter fun tag => !isNgContainer tag := by
    rw [View.tags, View.tags, hlists.toList, List.filter_flatMap]
    apply flatMap_eq_of_forall₂ hops
    rintro _ _ ⟨_, _, h⟩
    exact h.tags
  have hblocks : View.blocks { view with create } = view.blocks := by
    rw [View.blocks, hlists.toList]
    apply flatMap_eq_of_forall₂ hops
    rintro _ _ ⟨_, _, h⟩
    exact h.blocks
  have hxrefs : ops.flatMap CreateOp.xrefs = view.create.toList.flatMap CreateOp.xrefs := by
    apply flatMap_eq_of_forall₂ hops
    rintro _ _ ⟨_, _, h⟩
    exact h.xrefs
  have hmarks : View.marks { view with create } = ops.flatMap CreateOp.marks := by
    rw [View.marks, hlists.toList]
  rw [heq]
  refine ⟨⟨View.grows_of_create rfl ?_ rfl, ⟨?_, ?_, ?_, ?_, rfl⟩,
    ⟨hlists.linked, ?_, hview.update⟩, ?_, ?_⟩, ?_⟩
  · rw [hlists.toList, hxrefs]
    exact Grows.refl _ _
  · simp only [View.outline, View.skeleton, hfeatures]
  · intro hbalanced
    simp only [View.outline, hmarks]
    exact balanced_of_contains hthreads (startedElements_nodup hnodup) (by simp) hbalanced
  · intro _ hcovered
    simp only [View.outline, hmarks, covered_of_contains hthreads]
    exact hcovered
  · intro tag htag
    simp only [View.outline, htags] at htag
    exact List.mem_of_mem_filter htag
  · intro op' hop'
    rw [hlists.toList] at hop'
    obtain ⟨op, hop, turned, turned', hcontains⟩ := exists_left_of_mem hops hop'
    exact hcontains.sound (hview.createOps op hop)
  · intro block hblock
    rwa [hblocks]
  · intro block hblock
    rw [hblocks] at hblock
    exact .inl hblock
  · intro tag htag
    rw [htags] at htag
    simpa using List.of_mem_filter htag

/-- Turning elements into containers keeps outlines in shape when all numbers are different, and
leaves no element that is to be turned. -/
theorem Job.generateNgContainers_turns {job : Job} (hsound : job.Sound)
    (hrooted : job.Rooted) (hnodup : job.xrefs.Nodup) : job.Turns id job.generateNgContainers ∧
      ∀ view ∈ job.generateNgContainers.units, ∀ tag ∈ view.tags, isNgContainer tag = false := by
  have hviews : ∀ view ∈ job.units, view.Turns id job.ids.nextXref job.ids.nextXref
      view.generateContainers ∧ ∀ tag ∈ view.generateContainers.tags, isNgContainer tag = false := by
    intro view hview
    exact (hsound view hview).generateContainers ((List.nodup_flatMap.1 hnodup).1 view hview) _
  refine ⟨turns_map hrooted fun view hview => (hviews view hview).1, ?_⟩
  intro view' hview'
  rw [generateNgContainers, mapUnits_eq] at hview'
  obtain ⟨view, hview, rfl⟩ : ∃ view ∈ job.units, view.generateContainers = view' := by
    simpa [units, eq_comm] using hview'
  exact (hviews view hview).2

end TemplateLowering
