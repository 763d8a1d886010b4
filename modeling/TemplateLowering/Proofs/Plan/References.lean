import TemplateLowering.Proofs.Lowering.Layout
import TemplateLowering.Proofs.Plan.Edits
import TemplateLowering.Proofs.Plan.Invariants

/-!
# References between operations

An operation may refer to others by their numbers: a binding or a listener to its element, a
conditional operation to its branches, a trigger to its deferred block and the block to its views.
Lowering declares whatever it refers to in the same view, and no phase takes a declaration away or
makes a new reference.
-/

namespace TemplateLowering

variable {op op' : CreateOp}

/-- The numbers that stand for something in the view once the operation has run. -/
def CreateOp.declares : CreateOp → List Xref
  | .repeaterCreate op => op.xref :: op.emptyView.toList
  | op => op.xref?.toList

/-- The numbers by which a create operation refers to others. -/
def CreateOp.references : CreateOp → List Xref
  | .listener op => [op.target]
  | .extractedAttribute op => [op.target]
  | .i18nAttributes op => [op.target]
  | .deferOn op => [op.defer]
  | .defer op => op.mainView ::
      (op.loadingView.toList ++ op.placeholderView.toList ++ op.errorView.toList)
  | _ => []

/-- The numbers by which an update operation refers to create operations. -/
def UpdateOp.references : UpdateOp → List Xref
  | .conditional op => op.target :: op.cases.map ConditionalCase.target
  | op => op.target?.toList

/-- All references of the operations are to numbers in the scope. -/
structure ClosedIn (scope : List Xref) (create : List CreateOp) (update : List UpdateOp) :
    Prop where
  create : ∀ x ∈ create.flatMap CreateOp.references, x ∈ scope
  update : ∀ x ∈ update.flatMap UpdateOp.references, x ∈ scope

/-- All references of the operations are declared among them. -/
abbrev Closed (create : List CreateOp) (update : List UpdateOp) : Prop :=
  ClosedIn (create.flatMap CreateOp.declares) create update

/-! ## Lowered operations -/

section Layout

variable {scope scope' : List Xref} {root target : Xref} {create create' : List CreateOp}
  {update update' : List UpdateOp}

theorem ClosedIn.append (h : ClosedIn scope create update) (h' : ClosedIn scope create' update') :
    ClosedIn scope (create ++ create') (update ++ update') := by
  constructor
  · intro x hx
    rw [List.flatMap_append, List.mem_append] at hx
    exact hx.elim (h.create x) (h'.create x)
  · intro x hx
    rw [List.flatMap_append, List.mem_append] at hx
    exact hx.elim (h.update x) (h'.update x)

theorem ClosedIn.mono (h : ClosedIn scope create update) (hscope : scope ⊆ scope') :
    ClosedIn scope' create update :=
  ⟨fun x hx => hscope (h.create x hx), fun x hx => hscope (h.update x hx)⟩

theorem closedIn_op (h : op.references = []) (scope : List Xref) : ClosedIn scope [op] [] := by
  constructor <;> simp [h]

theorem closed_op (h : op.references = []) : Closed [op] [] :=
  closedIn_op h _

theorem Closed.append (h : Closed create update) (h' : Closed create' update') :
    Closed (create ++ create') (update ++ update') := by
  unfold Closed
  rw [List.flatMap_append]
  exact (h.mono (List.subset_append_left _ _)).append (h'.mono (List.subset_append_right _ _))

theorem lowerListener_target {slot : Slot} {tag : Option String} {event : Template.BoundEvent}
    {op : Listener} {s t : Ids} (h : Yields (lowerListener root target slot tag event) s op t) :
    op.target = target := by
  simp only [lowerListener, yields_bind, yields_pure] at h
  obtain ⟨_, _, -, _, _, -, rfl, -⟩ := h
  rfl

theorem Binds.closedIn (h : Binds root target create update) (htarget : target ∈ scope) :
    ClosedIn scope create update := by
  constructor <;> intro x hx <;> obtain ⟨op, hop, hx⟩ := List.mem_flatMap.1 hx
  · suffices hreferences : op.references = [target] by
      rw [hreferences, List.mem_singleton] at hx
      exact hx ▸ htarget
    cases h.create op hop with
    | listener hlistener => rw [CreateOp.references, lowerListener_target hlistener]
    | extractedAttribute hbound => rw [CreateOp.references, hbound]
    | i18nAttributes hbound => rw [CreateOp.references, hbound]
  · obtain ⟨binding, rfl, hbinding⟩ := h.update op hop
    obtain rfl : x = binding.target := by simpa [UpdateOp.references, UpdateOp.target?] using hx
    exact hbinding ▸ htarget

theorem Binds.closed (h : Binds root target create update) (hop : target ∈ op.declares)
    (hreferences : op.references = []) : Closed (op :: create) update := by
  have htarget : target ∈ (op :: create).flatMap CreateOp.declares :=
    List.mem_flatMap.2 ⟨op, List.mem_cons_self, hop⟩
  exact (closedIn_op hreferences _).append (h.closedIn htarget)

theorem BranchLayout.closed {isFirst : Bool} {targets : List Xref}
    (h : BranchLayout root isFirst targets create update) :
    Closed create update ∧ targets ⊆ create.flatMap CreateOp.declares := by
  induction h with
  | nil => exact ⟨⟨by simp, by simp⟩, by simp⟩
  | @cons isFirst targets op copies create bindings update hcopies _ ih =>
    obtain ⟨hclosed, htargets⟩ := ih
    have hdeclares : (branchOp isFirst op).declares = [op.xref] := by cases isFirst <;> rfl
    have hreferences : (branchOp isFirst op).references = [] := by cases isFirst <;> rfl
    have hscope : (copies ++ branchOp isFirst op :: create).flatMap CreateOp.declares =
        copies.flatMap CreateOp.declares ++ op.xref :: create.flatMap CreateOp.declares := by
      rw [List.flatMap_append, List.flatMap_cons, hdeclares, List.singleton_append]
    rw [Closed, hscope]
    have hrest := (closedIn_op hreferences _).append
      (hclosed.mono (List.subset_cons_self op.xref _))
    refine ⟨(hcopies.closedIn (by simp)).append (hrest.mono (List.subset_append_right _ _)), ?_⟩
    exact List.Subset.trans (List.cons_subset_cons _ htargets) (List.subset_append_right _ _)

theorem BindsEmpty.closedIn {emptyView : Option Xref} (h : BindsEmpty root emptyView create update)
    (hscope : emptyView.toList ⊆ scope) : ClosedIn scope create update := by
  cases emptyView with
  | none =>
    obtain ⟨rfl, rfl⟩ := h
    exact ⟨by simp, by simp⟩
  | some target => exact Binds.closedIn h (hscope (by simp))

theorem Layout.closed (h : Layout root create update) : Closed create update := by
  induction h with
  | nil => exact ⟨by simp, by simp⟩
  | append _ _ ih ih' => exact ih.append ih'
  | text op => exact closed_op rfl
  | boundText htarget =>
    constructor <;>
      simp [CreateOp.references, CreateOp.declares, CreateOp.xref?, UpdateOp.references,
        UpdateOp.target?, htarget]
  | declaration htarget hname =>
    constructor <;>
      simp [CreateOp.references, CreateOp.declares, CreateOp.xref?, UpdateOp.references,
        UpdateOp.target?, htarget]
  | icu start _ ih =>
    have hopening : Closed [.icuStart start] [] := closed_op rfl
    have hclosing : Closed [.icuEnd start.xref] [] := closed_op rfl
    simpa using (hopening.append ih).append hclosing
  | @message _ _ start stop _ _ ih =>
    have hopening : Closed [.i18nStart start] [] := closed_op rfl
    have hclosing : Closed [.i18nEnd stop] [] := closed_op rfl
    simpa using (hopening.append ih).append hclosing
  | @element _ copies _ bindings start stop _ hbindings _ ih =>
    have hopening : Closed (.elementStart start :: copies) bindings :=
      hbindings.closed List.mem_cons_self rfl
    have hclosing : Closed [.elementEnd stop] [] := closed_op rfl
    simpa using (hopening.append ih).append hclosing
  | template hbindings => exact hbindings.closed List.mem_cons_self rfl
  | projection hbindings => exact hbindings.closed List.mem_cons_self rfl
  | @conditional create update op hbranches htarget =>
    obtain ⟨hclosed, htargets⟩ := hbranches.closed
    have hcases : ClosedIn (create.flatMap CreateOp.declares) [] [.conditional op] := by
      refine ⟨by simp, ?_⟩
      simp only [List.flatMap_singleton, UpdateOp.references, List.forall_mem_cons]
      exact ⟨htargets (List.mem_of_head? htarget), htargets⟩
    simpa using ClosedIn.append hclosed hcases
  | @loop op new emptyCopies copies emptyBindings bindings htarget hempty hcopies =>
    have hscope : (CreateOp.repeaterCreate op).declares ⊆
        (emptyCopies ++ copies ++ [CreateOp.repeaterCreate op]).flatMap CreateOp.declares := by
      rw [List.flatMap_append, List.flatMap_singleton]
      exact List.subset_append_right _ _
    refine ((hempty.closedIn ?_).append (hcopies.closedIn ?_)).append ⟨?_, ?_⟩
    · exact List.Subset.trans (List.subset_cons_self _ _) hscope
    · exact hscope List.mem_cons_self
    · simp [CreateOp.references]
    · rw [List.flatMap_singleton]
      simpa [UpdateOp.references, UpdateOp.target?, htarget] using hscope List.mem_cons_self
  | @deferred declarations op on when_ hviews hon hwhen =>
    have hdeclared : declarations.map (fun declaration => declaration.xref) ++ [op.xref] =
        (declarations.map CreateOp.template ++
          CreateOp.defer op :: on.map CreateOp.deferOn).flatMap CreateOp.declares := by
      rw [List.flatMap_append, List.flatMap_cons, List.flatMap_map, List.flatMap_map,
        List.map_eq_flatMap]
      simp [CreateOp.declares, CreateOp.xref?]
    rw [Closed, ← hdeclared]
    constructor
    · intro x hx
      simp only [List.flatMap_append, List.flatMap_cons, List.flatMap_map, List.mem_append,
        List.mem_flatMap, CreateOp.references, List.not_mem_nil, and_false, exists_false, false_or,
        hviews, List.mem_singleton] at hx ⊢
      rcases hx with hx | ⟨trigger, htrigger, rfl⟩
      · exact .inl hx
      · exact .inr (hon trigger htrigger)
    · intro x hx
      obtain ⟨trigger, htrigger, hx⟩ := List.mem_flatMap.1 (List.flatMap_map .. ▸ hx)
      obtain rfl : x = trigger.target := by simpa [UpdateOp.references, UpdateOp.target?] using hx
      simp [hwhen trigger htrigger]

end Layout

/-! ## Phases -/

section Phase

variable {phase : Phase}

theorem Phase.Alters.declares_eq (h : phase.Alters op op') : op'.declares = op.declares := by
  cases h with
  | mark => cases op <;> rfl
  | _ => rfl

theorem Phase.Alters.references_eq (h : phase.Alters op op') : op'.references = op.references := by
  cases h with
  | mark => cases op <;> rfl
  | _ => rfl

theorem Phase.Inserts.references_eq (h : phase.Inserts op) : op.references = [] := by
  cases h.inserted <;> rfl

theorem UpdateOp.references_of_sets? {op : UpdateOp} {target : Xref}
    (h : op.sets? = some target) : op.references = [target] := by
  cases op <;> simp [sets?] at h <;> simp [references, target?, h]

theorem Phase.Narrows.references_eq {op op' : UpdateOp} (h : phase.Narrows op op') :
    op'.references = op.references := by
  rcases h.eq_or_sets with rfl | ⟨target, hop, hop'⟩
  · rfl
  · rw [UpdateOp.references_of_sets? hop, UpdateOp.references_of_sets? hop']

theorem View.EditedBy.closed {view view' : View} (h : view.EditedBy phase view')
    (hclosed : Closed view.create.toList view.update.toList) :
    Closed view'.create.toList view'.update.toList := by
  have hscope : view.create.toList.flatMap CreateOp.declares ⊆
      view'.create.toList.flatMap CreateOp.declares := by
    intro x hx
    obtain ⟨op, hop, hx⟩ := List.mem_flatMap.1 hx
    obtain ⟨op', hop', halters⟩ := h.create.exists_altered hop
    exact List.mem_flatMap.2 ⟨op', hop', halters.declares_eq ▸ hx⟩
  constructor
  · have hreferences := h.create.flatMap_eq (fun _ _ => Phase.Alters.references_eq)
      fun _ => Phase.Inserts.references_eq
    intro x hx
    exact hscope (hclosed.create x (hreferences ▸ hx))
  · intro x hx
    obtain ⟨op', hop', hx⟩ := List.mem_flatMap.1 hx
    obtain ⟨op, hop, hnarrows⟩ := h.update.origin hop'
    exact hscope (hclosed.update x
      (List.mem_flatMap.2 ⟨op, hop, hnarrows.references_eq ▸ hx⟩))

end Phase

/-- Some create operation of the view has the number, or it is the number of the view for an empty
loop. -/
def View.Declares (view : View) (xref : Xref) : Prop :=
  ∃ op ∈ view.create.toList, op.xref? = some xref ∨
    ∃ loop : RepeaterCreate, op = .repeaterCreate loop ∧ loop.emptyView = some xref

theorem CreateOp.mem_declares {xref : Xref} :
    xref ∈ op.declares ↔ op.xref? = some xref ∨
      ∃ loop : RepeaterCreate, op = .repeaterCreate loop ∧ loop.emptyView = some xref := by
  cases op <;> simp [declares, xref?, eq_comm]

theorem View.declares_iff {view : View} {xref : Xref} :
    view.Declares xref ↔ xref ∈ view.create.toList.flatMap CreateOp.declares := by
  simp only [Declares, List.mem_flatMap, CreateOp.mem_declares]

def CreateOp.isListener : CreateOp → Bool
  | .listener _ => true
  | _ => false

def UpdateOp.hasCases : UpdateOp → Bool
  | .conditional op => !op.cases.isEmpty
  | _ => false

/-- Whether the operation is that of a deferred block with a view for the time of loading. -/
def CreateOp.showsLoading : CreateOp → Bool
  | .defer op => op.loadingView.isSome
  | _ => false

namespace Plan

variable {component : String} {template : List Template.Node} {options : Options}
variable {plan : Plan} {job job' : Job}

theorem closed_of_run (h : Job.ofTemplate component template options = .ok job)
    (hrun : plan.run job = .ok job') :
    ∀ view ∈ job'.units, Closed view.create.toList view.update.toList := by
  obtain ⟨root, hlaidOut⟩ := Job.exists_laidOut h
  apply induction_run h hrun (P := fun _ job =>
    ∀ view ∈ job.units, Closed view.create.toList view.update.toList)
  · intro view hview
    exact (hlaidOut view hview).closed
  · intro scheduled phase job₁ job₂ hreached henabled _ hok ih view' hview'
    have hviews := hreached.editedBy henabled hok
    obtain ⟨view, hview, hedited⟩ := exists_left_of_mem hviews hview'
    exact hedited.closed (ih view hview)

/-- Every reference between the operations of a job stays inside one view. -/
theorem references_declared_of_run (h : Job.ofTemplate component template options = .ok job)
    (hrun : plan.run job = .ok job') :
    ∀ view ∈ job'.units,
      (∀ op ∈ view.update.toList, ∀ target, op.target? = some target → view.Declares target) ∧
      (∀ op, .conditional op ∈ view.update.toList → ∀ branch ∈ op.cases,
        view.Declares branch.target) ∧
      (∀ op, .listener op ∈ view.create.toList → view.Declares op.target) ∧
      (∀ op, .extractedAttribute op ∈ view.create.toList → view.Declares op.target) ∧
      (∀ op, .i18nAttributes op ∈ view.create.toList → view.Declares op.target) ∧
      (∀ op, .deferOn op ∈ view.create.toList → view.Declares op.defer) ∧
      (∀ op, .deferWhen op ∈ view.update.toList → view.Declares op.target) ∧
      ∀ op, .defer op ∈ view.create.toList →
        view.Declares op.mainView ∧ (∀ xref ∈ op.loadingView, view.Declares xref) ∧
        (∀ xref ∈ op.placeholderView, view.Declares xref) ∧
        ∀ xref ∈ op.errorView, view.Declares xref := by
  intro view hview
  have hclosed := closed_of_run h hrun view hview
  have hcreate : ∀ op ∈ view.create.toList, ∀ xref ∈ op.references, view.Declares xref :=
    fun op hop xref hxref =>
      View.declares_iff.2 (hclosed.create xref (List.mem_flatMap.2 ⟨op, hop, hxref⟩))
  have hupdate : ∀ op ∈ view.update.toList, ∀ xref ∈ op.references, view.Declares xref :=
    fun op hop xref hxref =>
      View.declares_iff.2 (hclosed.update xref (List.mem_flatMap.2 ⟨op, hop, hxref⟩))
  refine ⟨?_, ?_, ?_, ?_, ?_, ?_, ?_, ?_⟩
  · intro op hop target htarget
    apply hupdate op hop
    cases op <;> simp_all [UpdateOp.references, UpdateOp.target?]
  · intro op hop branch hbranch
    exact hupdate _ hop _ (List.mem_cons_of_mem _ (List.mem_map_of_mem hbranch))
  · exact fun op hop => hcreate _ hop _ List.mem_cons_self
  · exact fun op hop => hcreate _ hop _ List.mem_cons_self
  · exact fun op hop => hcreate _ hop _ List.mem_cons_self
  · exact fun op hop => hcreate _ hop _ List.mem_cons_self
  · exact fun op hop => hupdate _ hop _ List.mem_cons_self
  · intro op hop
    refine ⟨hcreate _ hop _ List.mem_cons_self, ?_, ?_, ?_⟩ <;> intro xref hxref <;>
      exact hcreate _ hop _ (by simp [CreateOp.references, Option.mem_def.1 hxref])

theorem references_declared_of_run_gallery :
    ∃ job job', Job.ofTemplate "Gallery" gallery {} = .ok job ∧ standard.run job = .ok job' ∧
      (∃ view ∈ job'.views, ∃ op, .listener op ∈ view.create.toList ∧ view.Declares op.target) ∧
      (∃ op, .conditional op ∈ job'.root.update.toList ∧
        ∃ branch ∈ op.cases, job'.root.Declares branch.target) ∧
      ∃ op, .defer op ∈ job'.root.create.toList ∧
        ∃ xref ∈ op.loadingView, job'.root.Declares xref := by
  have heval : ((Job.ofTemplate "Gallery" gallery {}).toOption.bind fun job =>
      (standard.run job).toOption.map fun job' =>
        (job'.views.any fun view => view.create.toList.any CreateOp.isListener,
          job'.root.update.toList.any UpdateOp.hasCases,
          job'.root.create.toList.any CreateOp.showsLoading)) =
      some (true, true, true) := by decide +kernel
  obtain ⟨job, job', hjob, hrun, heval⟩ := exists_ok_of_eval heval
  simp only [Prod.mk.injEq, List.any_eq_true] at heval
  obtain ⟨⟨view, hview, op, hop, hlistener⟩, ⟨op', hop', hcases⟩, op'', hop'', hloading⟩ := heval
  have hdeclared := references_declared_of_run hjob hrun
  refine ⟨job, job', hjob, hrun, ⟨view, hview, ?_⟩, ?_, ?_⟩
  · cases op with
    | listener op => exact ⟨op, hop, (hdeclared view (List.mem_cons_of_mem _ hview)).2.2.1 op hop⟩
    | _ => simp [CreateOp.isListener] at hlistener
  · cases op' with
    | conditional op =>
      obtain ⟨branch, hbranch⟩ := List.isEmpty_eq_false_iff_exists_mem.1 (Bool.not_eq_true' _ ▸ hcases)
      exact ⟨op, hop', branch, hbranch,
        (hdeclared _ List.mem_cons_self).2.1 op hop' branch hbranch⟩
    | _ => simp [UpdateOp.hasCases] at hcases
  · cases op'' with
    | defer op =>
      obtain ⟨xref, hxref⟩ := Option.isSome_iff_exists.1 hloading
      exact ⟨op, hop'', xref, hxref,
        ((hdeclared _ List.mem_cons_self).2.2.2.2.2.2.2 op hop'').2.1 xref hxref⟩
    | _ => simp [CreateOp.showsLoading] at hloading

end Plan

end TemplateLowering
