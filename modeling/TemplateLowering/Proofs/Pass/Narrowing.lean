import Mathlib.Data.List.TakeWhile
import TemplateLowering.Proofs.Pass.Binding

/-!
# Bindings narrowed one by one

The two passes over the bindings walk along the update operations with a cursor, replacing and
removing operations under way, and mark elements in a third walk.  Together they are one map over the
update operations, given by a table, and marks on the first elements with certain numbers.
-/

namespace TemplateLowering

/-! ## One operation -/

def UpdateOp.narrowed? (job : JobKind) : UpdateOp → Option UpdateOp
  | .binding op => op.narrowed? job
  | op => some op

/-- The element of a binding that is dropped. -/
def UpdateOp.unboundTarget? : UpdateOp → Option Xref
  | .binding op => if op.kind = .attr ∧ op.name = "ngNonBindable" then some op.target else none
  | _ => none

def UpdateOp.isBinding : UpdateOp → Bool
  | .binding _ => true
  | _ => false

section Table

variable {job : JobKind} {op op' : UpdateOp} {part : List UpdateOp}

theorem changed_eq_ok {f : UpdateOp → Except Fault (OpList.Change UpdateOp)}
    (h : OpList.changed f op = .ok part) : ∃ change, f op = .ok change ∧ part = change.apply op := by
  unfold OpList.changed at h
  cases hf : f op with
  | error e => simp [hf] at h
  | ok change =>
    rw [hf] at h
    exact ⟨change, rfl, (Except.ok.inj h).symm⟩

theorem UpdateOp.left_of_isBinding (h : op.isBinding = false) :
    narrowStyle op = .ok .keep ∧ (∀ job, narrow job op = .ok .keep) ∧
      (∀ job, op.narrowed? job = some op) ∧ op.unboundTarget? = none := by
  cases op with
  | binding op => simp [isBinding] at h
  | _ => exact ⟨rfl, fun _ => rfl, fun _ => rfl, rfl⟩

/-- What the first pass leaves of an operation: it leaves it in turn, and the second pass makes of it
what the table says. -/
structure UpdateOp.Styled (op op' : UpdateOp) : Prop where
  again : narrowStyle op' = .ok .keep
  target : op'.unboundTarget? = op.unboundTarget?
  narrowed : ∀ job part, OpList.changed (narrow job) op' = .ok part →
    part = (op.narrowed? job).toList ∧ ∀ new ∈ part, new.isBinding = false

theorem UpdateOp.styled_replaced (h : op'.isBinding = false) (hop : op.unboundTarget? = none)
    (hrow : ∀ job, op.narrowed? job = some op') : op.Styled op' := by
  obtain ⟨hstyle, hnarrow, -, htarget⟩ := left_of_isBinding h
  refine ⟨hstyle, htarget.trans hop.symm, ?_⟩
  intro job part hpart
  obtain ⟨change, hchange, rfl⟩ := changed_eq_ok hpart
  obtain rfl := Except.ok.inj ((hnarrow job).symm.trans hchange)
  rw [hrow job]
  exact ⟨rfl, by simpa [OpList.Change.apply] using h⟩

theorem UpdateOp.isBinding_eq_false (h : op.bindings = []) : op.isBinding = false := by
  cases op with
  | binding op => simp [UpdateOp.bindings] at h
  | _ => rfl

theorem Binding.styled_left {op : Binding} (h : op.styleOp? = .ok none) :
    (UpdateOp.binding op).Styled (.binding op) := by
  have hstyle : op.shape.isStyle = false := by
    rcases op.styleOp?_cases with ⟨-, herror⟩ | ⟨-, hstyle, -⟩ | ⟨-, -, new, hnew, -⟩
    · simp [herror] at h
    · exact hstyle
    · simp [hnew] at h
  refine ⟨narrowStyle_binding_eq_ok.2 (.inl ⟨h, rfl⟩), rfl, ?_⟩
  intro job part hpart
  obtain ⟨change, hchange, rfl⟩ := changed_eq_ok hpart
  rcases narrow_binding_eq_ok.1 hchange with ⟨hbindable, rfl⟩ | ⟨hbindable, new, hrun, rfl⟩
  · obtain ⟨hkind, hname⟩ : op.kind = .attr ∧ op.name = "ngNonBindable" := by
      simpa [isNonBindable, nonBindableName] using hbindable
    simp [UpdateOp.narrowed?, narrowed?, hkind, hname, OpList.Change.apply]
  · obtain ⟨hnew, hrow⟩ := becomes_of_narrowedOp hrun
    rw [UpdateOp.narrowed?, hrow hstyle hbindable]
    exact ⟨rfl, by simpa [OpList.Change.apply] using UpdateOp.isBinding_eq_false hnew.bindings⟩

theorem Binding.styled_replaced {op : Binding} {new : UpdateOp}
    (h : op.styleOp? = .ok (some new)) : (UpdateOp.binding op).Styled new := by
  obtain ⟨hnew, hstyle, hrow⟩ := becomes_of_styleOp? h
  have hkind : op.kind ≠ .attr := by
    intro hkind
    simp [BindingShape.isStyle, shape, hkind] at hstyle
  exact UpdateOp.styled_replaced (UpdateOp.isBinding_eq_false hnew.bindings)
    (by simp [UpdateOp.unboundTarget?, hkind]) hrow

theorem UpdateOp.exists_styled (h : OpList.changed narrowStyle op = .ok part) :
    ∃ op', part = [op'] ∧ op.Styled op' := by
  obtain ⟨change, hchange, rfl⟩ := changed_eq_ok h
  cases op with
  | binding op =>
    rcases narrowStyle_binding_eq_ok.1 hchange with ⟨hstyle, rfl⟩ | ⟨new, hstyle, rfl⟩
    · exact ⟨_, rfl, Binding.styled_left hstyle⟩
    · exact ⟨new, rfl, Binding.styled_replaced hstyle⟩
  | _ =>
    obtain rfl := Except.ok.inj hchange
    exact ⟨_, rfl, styled_replaced rfl rfl fun _ => rfl⟩

end Table

/-! ## The update operations -/

section Update

variable {job : JobKind} {ops styled : List UpdateOp} {parts : List (List UpdateOp)} {s t : Unit}

theorem styled_flatten
    (h : Threads (fun s op part t => Yields (OpList.changed narrowStyle op) s part t) s ops parts
      t) :
    List.Forall₂ UpdateOp.Styled ops parts.flatten := by
  induction h with
  | nil => exact .nil
  | cons hfirst _ ih =>
    obtain ⟨op', rfl, hop'⟩ := UpdateOp.exists_styled (yields_except.1 hfirst)
    exact .cons hop' ih

theorem narrowed_flatten (hstyled : List.Forall₂ UpdateOp.Styled ops styled)
    (h : Threads (fun s op part t => Yields (OpList.changed (narrow job) op) s part t) s styled
      parts t) :
    parts.flatten = ops.filterMap (UpdateOp.narrowed? job) ∧
      ∀ new ∈ parts.flatten, new.isBinding = false := by
  induction hstyled generalizing s parts with
  | nil =>
    cases h
    simp
  | @cons op op' ops styled hop _ ih =>
    cases h with
    | @cons _ _ _ _ part _ parts hfirst hrest =>
      obtain ⟨rfl, hnew⟩ := hop.narrowed job part (yields_except.1 hfirst)
      obtain ⟨hparts, hall⟩ := ih hrest
      refine ⟨?_, ?_⟩
      · rw [List.flatten_cons, hparts, List.filterMap_cons]
        cases op.narrowed? job <;> rfl
      · intro new hmem
        rcases List.mem_append.1 (List.flatten_cons ▸ hmem) with hmem | hmem
        · exact hnew new hmem
        · exact hall new hmem

theorem nonBindableTargets_eq (update : OpList UpdateOp) :
    nonBindableTargets update = update.toList.filterMap UpdateOp.unboundTarget? := by
  apply List.filterMap_congr
  intro op _
  cases op with
  | binding op =>
    simp only [Binding.isNonBindable, nonBindableName, UpdateOp.unboundTarget?, Bool.and_eq_true,
      decide_eq_true_eq, beq_iff_eq]
  | _ => rfl

theorem unboundTargets_styled (h : List.Forall₂ UpdateOp.Styled ops styled) :
    styled.filterMap UpdateOp.unboundTarget? = ops.filterMap UpdateOp.unboundTarget? := by
  induction h with
  | nil => rfl
  | cons hop _ ih => rw [List.filterMap_cons, List.filterMap_cons, hop.target, ih]

end Update

/-! ## Both passes -/

/-- What the two passes make of a view. -/
structure View.Narrowed (job : JobKind) (view view' : View) : Prop where
  update : view'.update.toList = view.update.toList.filterMap (UpdateOp.narrowed? job)
  noBinding : ∀ op, .binding op ∉ view'.update.toList
  create : view'.create.toList =
    markedFirst (view.update.toList.filterMap UpdateOp.unboundTarget?) view.create.toList
  borne : ∀ target ∈ view.update.toList.filterMap UpdateOp.unboundTarget?,
    ∃ op ∈ view.create.toList, op.bears target = true
  rest : view' = { view with create := view'.create, update := view'.update }

section View

variable {job : JobKind} {view styled view' : View}

theorem UpdateOp.isBinding_of_isListEnd {op : UpdateOp} (h : ListOp.isListEnd op = true) :
    op.isBinding = false := by
  cases op with
  | binding op => simp [ListOp.isListEnd] at h
  | _ => rfl

theorem View.styled_of_changeUpdate (hlinked : view.update.Linked)
    (h : view.changeUpdate narrowStyle = .ok styled) :
    ∃ update, styled = { view with update } ∧ update.Linked ∧
      List.Forall₂ UpdateOp.Styled view.update.toList update.toList := by
  obtain ⟨update, parts, rfl, -, hparts, hlists⟩ := View.lists_of_changeUpdate hlinked
    (fun op _ hend => (UpdateOp.left_of_isBinding (UpdateOp.isBinding_of_isListEnd hend)).1)
    (fun _ _ => narrowStyle_replace) h
  refine ⟨update, rfl, hlists.linked, ?_⟩
  rw [hlists.toList]
  exact styled_flatten (yields_mapM.1 (yields_except.2 hparts : Yields _ () _ ()))

theorem View.changeUpdate_keep {f : UpdateOp → Except Fault (OpList.Change UpdateOp)}
    (hlinked : view.update.Linked) (h : ∀ op ∈ view.update.toList, f op = .ok .keep) :
    view.changeUpdate f = .ok view := by
  rw [changeUpdate, hlinked.changeAll_keep _ h]
  rfl

theorem View.markNonBindable_nil (hlinked : view.create.Linked) :
    view.markNonBindable [] = .ok view := by
  obtain ⟨is, hchain⟩ := hlinked
  have hop : ∀ op, Yields (TemplateLowering.markNonBindable op) [] op [] := by
    intro op
    simpa using yields_markNonBindable op []
  have hthreads : ∀ ops, Threads
      (fun s op op' t => Yields (TemplateLowering.markNonBindable op) s op' t) [] ops ops [] := by
    intro ops
    induction ops with
    | nil => exact .nil
    | cons op ops ih => exact .cons (hop op) ih
  have hrun := yields_stateM.1
    (hchain.yields_mapM.2 ⟨_, hthreads _, hchain.withOps_toList.symm⟩)
  simp [markNonBindable, hrun]

theorem View.narrowed_of_narrowBindings {update : OpList UpdateOp} (hcreate : view.create.Linked)
    (hupdate : update.Linked)
    (hstyled : List.Forall₂ UpdateOp.Styled view.update.toList update.toList)
    (h : { view with update }.narrowBindings job = .ok view') :
    view.Narrowed job view' ∧ view'.create.Linked ∧ view'.update.Linked := by
  unfold narrowBindings at h
  cases hchange : { view with update }.changeUpdate (narrow job) with
  | error e => simp [hchange, bind, Except.bind] at h
  | ok middle =>
    obtain ⟨update', parts, rfl, -, hparts, hlists⟩ := View.lists_of_changeUpdate hupdate
      (fun op _ hend =>
        (UpdateOp.left_of_isBinding (UpdateOp.isBinding_of_isListEnd hend)).2.1 job)
      (fun _ _ => narrow_replace) hchange
    obtain ⟨hnarrowed, hnew⟩ :=
      narrowed_flatten hstyled (yields_mapM.1 (yields_except.2 hparts : Yields _ () _ ()))
    simp only [hchange, bind, Except.bind, nonBindableTargets_eq,
      unboundTargets_styled hstyled] at h
    obtain ⟨create, rfl, -, hcreate, hborne⟩ :=
      @marked_of_markNonBindable { view with update := update' } _ _ hcreate h
    refine ⟨⟨?_, ?_, hcreate.toList, hborne, rfl⟩, hcreate.linked, hlists.linked⟩
    · rw [hlists.toList, hnarrowed]
    · intro op hmem
      rw [hlists.toList] at hmem
      simpa [UpdateOp.isBinding] using hnew _ hmem

theorem View.Narrowed.again (h : view.Narrowed job view') (hcreate : view'.create.Linked)
    (hupdate : view'.update.Linked) :
    view'.changeUpdate narrowStyle = .ok view' ∧ view'.narrowBindings job = .ok view' := by
  have hleft : ∀ op ∈ view'.update.toList, narrowStyle op = .ok .keep ∧
      (∀ job, narrow job op = .ok .keep) ∧ (∀ job, op.narrowed? job = some op) ∧
      op.unboundTarget? = none := by
    intro op hop
    apply UpdateOp.left_of_isBinding
    cases op with
    | binding op => exact absurd hop (h.noBinding op)
    | _ => rfl
  have htargets : nonBindableTargets view'.update = [] := by
    rw [nonBindableTargets_eq, List.filterMap_eq_nil_iff]
    exact fun op hop => (hleft op hop).2.2.2
  refine ⟨changeUpdate_keep hupdate fun op hop => (hleft op hop).1, ?_⟩
  rw [narrowBindings, htargets, changeUpdate_keep hupdate fun op hop => (hleft op hop).2.1 job]
  exact markNonBindable_nil hcreate

end View

/-! ## Jobs -/

section Job

variable {job styled job' : Job}

theorem Job.mapUnitsM_self {f : View → Except Fault View}
    (h : ∀ view ∈ job.units, f view = .ok view) : job.mapUnitsM f = .ok job := by
  have hviews : ∀ views : List View, (∀ view ∈ views, f view = .ok view) →
      views.mapM f = .ok views := by
    intro views hviews
    induction views with
    | nil => rfl
    | cons view views ih =>
      rw [List.mapM_cons, hviews view List.mem_cons_self,
        ih fun other hmem => hviews other (List.mem_cons_of_mem _ hmem)]
      rfl
  rw [mapUnitsM, h job.root List.mem_cons_self,
    hviews job.views fun view hmem => h view (List.mem_cons_of_mem _ hmem)]
  rfl

theorem forall_of_forall₂ {α β : Type} {R : α → β → Prop} {P : β → Prop} {as : List α}
    {bs : List β} (h : List.Forall₂ R as bs) (hP : ∀ a b, R a b → P b) : ∀ b ∈ bs, P b := by
  induction h with
  | nil => simp
  | cons hab _ ih => simpa using ⟨hP _ _ hab, ih⟩

/-- A name is split as `:namespace:name`, the namespace being all up to the second colon, if it has
that form, and else it has no namespace. -/
def TagName.Splits (name : String) (split : TagName) : Prop :=
  (∃ key, split.key = some key ∧ ':' ∉ key.toList ∧ name = ":" ++ key ++ ":" ++ split.name) ∨
    split = ⟨none, name⟩ ∧ ∀ key rest, ':' ∉ key.toList → name ≠ ":" ++ key ++ ":" ++ rest

theorem toList_qualified (key rest : String) : (":" ++ key ++ ":" ++ rest).toList =
    ':' :: (key.toList ++ ':' :: rest.toList) := by
  simp

theorem TagName.splits_splitLenient (name : String) : TagName.Splits name (splitLenient name) := by
  by_cases hform : ∃ key rest, ':' ∉ key.toList ∧ name = ":" ++ key ++ ":" ++ rest
  · obtain ⟨key, rest, hkey, rfl⟩ := hform
    have hne : ∀ c ∈ key.toList, decide (c ≠ ':') = true := by
      intro c hc
      exact decide_eq_true fun heq => hkey (heq ▸ hc)
    have hsplit : splitLenient (":" ++ key ++ ":" ++ rest) = ⟨some key, rest⟩ := by
      unfold splitLenient split
      rw [toList_qualified]
      simp only [List.dropWhile_append_of_pos hne, List.takeWhile_append_of_pos hne]
      simp
    rw [hsplit]
    exact .inl ⟨key, rfl, hkey, rfl⟩
  · have hnone : splitLenient name = ⟨none, name⟩ := by
      cases hname : name.toList with
      | nil => simp [splitLenient, split, hname]
      | cons first rest =>
        by_cases hfirst : first = ':'
        · subst hfirst
          have hout : ':' ∉ rest := by
            intro hmem
            obtain ⟨key, local_, rfl, hkey⟩ := List.eq_append_cons_of_mem hmem
            refine hform ⟨String.ofList key, String.ofList local_, by simpa using hkey, ?_⟩
            exact String.toList_inj.1 (by rw [toList_qualified, hname]; simp)
          have hrest : rest.dropWhile (fun c => decide (c ≠ ':')) = [] := by
            refine List.dropWhile_eq_nil_iff.2 fun c hc => decide_eq_true ?_
            rintro rfl
            exact hout hc
          simp only [splitLenient, split, hname, hrest]
        · simp [splitLenient, split, hname, hfirst]
    rw [hnone]
    exact .inr ⟨rfl, fun key rest hkey heq => hform ⟨key, rest, hkey, heq⟩⟩

/-- Narrowing the bindings of a job: the update operations of every view are narrowed one by one as
the table says, no binding is left, the first operation for the element of every dropped binding is
marked, and nothing else changes.  Either pass leaves what it has made, and both leave the final
job. -/
theorem Job.specializeBindings_narrows
    (hlinked : ∀ view ∈ job.units, view.create.Linked ∧ view.update.Linked)
    (hstyles : job.specializeStyleBindings = .ok styled)
    (hbindings : styled.specializeBindings = .ok job') :
    List.Forall₂ (View.Narrowed job.kind) job.units job'.units ∧
      job' = { job with root := job'.root, views := job'.views } ∧
      (∀ (op : CreateOp) (base : ElementBase), op.base? = some base →
        op.markNonBindable.base? = some { base with nonBindable := true }) ∧
      (∀ name, TagName.Splits name (TagName.splitLenient name)) ∧
      styled.specializeStyleBindings = .ok styled ∧
      job'.specializeStyleBindings = .ok job' ∧ job'.specializeBindings = .ok job' := by
  obtain ⟨hthreads, hreunited, hids⟩ :=
    yields_mapUnitsM (s := ()) (t := ()) (yields_except.2 hstyles)
  obtain ⟨hthreads', hreunited', hids'⟩ :=
    yields_mapUnitsM (s := ()) (t := ()) (yields_except.2 hbindings)
  have hkind : styled.kind = job.kind := hreunited.kind
  have hfirst : List.Forall₂ (fun view middle : View => view.create.Linked ∧
      ∃ update, middle = { view with update } ∧ update.Linked ∧
        List.Forall₂ UpdateOp.Styled view.update.toList update.toList) job.units styled.units := by
    refine hthreads.forall₂ ?_
    intro _ view middle _ hview hyields
    obtain ⟨hcreate, hupdate⟩ := hlinked view hview
    exact ⟨hcreate, View.styled_of_changeUpdate hupdate (yields_except.1 hyields)⟩
  have hsecond : List.Forall₂ (fun middle view' : View =>
      middle.narrowBindings job.kind = .ok view') styled.units job'.units := by
    refine hthreads'.forall₂ ?_
    intro _ middle view' _ _ hyields
    rw [hkind] at hyields
    exact yields_except.1 hyields
  have hboth : List.Forall₂ (fun view view' : View =>
      view.Narrowed job.kind view' ∧ view'.create.Linked ∧ view'.update.Linked)
      job.units job'.units := by
    refine forall₂_comp hfirst hsecond ?_
    rintro view middle view' ⟨hcreate, update, rfl, hupdate, hstyled⟩ hrun
    exact View.narrowed_of_narrowBindings hcreate hupdate hstyled hrun
  have hagain := forall_of_forall₂ hboth fun view view' hview =>
    hview.1.again hview.2.1 hview.2.2
  refine ⟨hboth.imp fun _ _ hview => hview.1, ?_, ?_, TagName.splits_splitLenient, ?_, ?_, ?_⟩
  · rw [hreunited', hreunited, hids', hids]
  · intro op base hbase
    cases op <;> simp [CreateOp.base?] at hbase <;> subst hbase <;> rfl
  · refine mapUnitsM_self (forall_of_forall₂ hfirst ?_)
    rintro view middle ⟨-, update, rfl, hupdate, hstyled⟩
    refine View.changeUpdate_keep hupdate (forall_of_forall₂ hstyled fun _ _ hop => hop.again)
  · exact mapUnitsM_self fun view' hview' => (hagain view' hview').1
  · have hkind' : job'.kind = job.kind := hreunited'.kind.trans hkind
    unfold specializeBindings
    rw [hkind']
    exact mapUnitsM_self fun view' hview' => (hagain view' hview').2

/-- A host with a class, a property and an attribute that keeps the first of two elements with the
same number unbound. -/
def unboundJob : Job where
  kind := .host
  component := "Link"
  options := {}
  root :=
    { xref := ⟨0⟩
      parent := none
      create := OpList.ofList ⟨0⟩
        [.elementStart { (default : ElementStart) with xref := ⟨1⟩, tag := "a" },
          .elementStart { (default : ElementStart) with xref := ⟨1⟩, tag := "b" }]
      update := OpList.ofList ⟨1⟩
        [.binding { (default : Binding) with target := ⟨1⟩, kind := .attr, name := "ngNonBindable" },
          .binding { (default : Binding) with target := ⟨0⟩, kind := .className, name := "active" },
          .binding { (default : Binding) with target := ⟨0⟩, kind := .property, name := "id" }] }
  views := []
  ids := {}

theorem Job.specializeBindings_narrows_unbound :
    (∀ view ∈ unboundJob.units, view.create.Linked ∧ view.update.Linked) ∧
      ∃ styled job', unboundJob.specializeStyleBindings = .ok styled ∧
        styled.specializeBindings = .ok job' ∧
        List.Forall₂ (View.Narrowed .host) unboundJob.units job'.units ∧
        job'.root.create.toList.map (fun op => op.base?.map (·.nonBindable)) =
          [some true, some false] ∧
        job'.root.update.toList.map UpdateOp.isBinding = [false, false] := by
  have hlinked : ∀ view ∈ unboundJob.units, view.create.Linked ∧ view.update.Linked := by
    intro view hview
    obtain rfl : view = unboundJob.root := by simpa [units, unboundJob] using hview
    exact ⟨(OpList.lists_ofList _ _).linked, (OpList.lists_ofList _ _).linked⟩
  have hrun : ((unboundJob.specializeStyleBindings >>= specializeBindings).toOption.map fun job =>
      (job.root.create.toList.map (fun op => op.base?.map (·.nonBindable)),
        job.root.update.toList.map UpdateOp.isBinding)) =
      some ([some true, some false], [false, false]) := by
    decide +kernel
  cases hstyles : unboundJob.specializeStyleBindings with
  | error e => simp [hstyles, bind, Except.bind, Except.toOption] at hrun
  | ok styled =>
    cases hbindings : styled.specializeBindings with
    | error e => simp [hstyles, hbindings, bind, Except.bind, Except.toOption] at hrun
    | ok job' =>
      rw [hstyles] at hrun
      change (styled.specializeBindings.toOption.map _) = _ at hrun
      rw [hbindings] at hrun
      obtain ⟨hcreate, hupdate⟩ := Prod.mk.inj (Option.some.inj hrun)
      exact ⟨hlinked, styled, job', rfl, hbindings,
        (specializeBindings_narrows hlinked hstyles hbindings).1, hcreate, hupdate⟩

end Job

end TemplateLowering
