import TemplateLowering.Compile
import TemplateLowering.Proofs.Lowering.Layout
import TemplateLowering.Proofs.Plan.Host

/-!
# Contents that are not bound

The attribute `ngNonBindable` marks the element on which it stands, and compiling fails when there is
none.  In the job of a template the attributes of a node are bound to one of three numbers: that of
an element-like operation, that of a projection, or that of the view for an empty loop.  Only the
first are elements.  The attributes of a host element are bound to the root, in which there is no
element at all.
-/

namespace TemplateLowering

variable {root target : Xref} {create : List CreateOp} {update : List UpdateOp}

/-! ## What attributes are bound to -/

/-- The numbers to which attributes are bound at an operation. -/
def CreateOp.hosts : CreateOp → List Xref
  | .projection op => [op.xref]
  | .repeaterCreate op => op.xref :: op.emptyView.toList
  | op => (op.base?.map ElementBase.xref).toList

namespace View

variable (view : View) (xref : Xref)

def HasElement : Prop :=
  ∃ op ∈ view.create.toList, ∃ base, op.base? = some base ∧ base.xref = xref

def HasProjection : Prop :=
  ∃ op, .projection op ∈ view.create.toList ∧ op.xref = xref

def HasEmptyView : Prop :=
  ∃ op, .repeaterCreate op ∈ view.create.toList ∧ op.emptyView = some xref

end View

theorem CreateOp.mem_hosts {op : CreateOp} {xref : Xref} :
    xref ∈ op.hosts ↔ (∃ base, op.base? = some base ∧ base.xref = xref) ∨
      (∃ inner, op = .projection inner ∧ inner.xref = xref) ∨
      ∃ inner, op = .repeaterCreate inner ∧ inner.emptyView = some xref := by
  cases op <;> simp [hosts, base?, eq_comm]

theorem View.mem_hosts {view : View} {xref : Xref} :
    xref ∈ view.create.toList.flatMap CreateOp.hosts ↔
      view.HasElement xref ∨ view.HasProjection xref ∨ view.HasEmptyView xref := by
  simp only [List.mem_flatMap, CreateOp.mem_hosts, and_or_left, exists_or, HasElement,
    HasProjection, HasEmptyView]
  refine or_congr_right (or_congr ⟨?_, ?_⟩ ⟨?_, ?_⟩)
  · rintro ⟨_, hop, op, rfl, hxref⟩
    exact ⟨op, hop, hxref⟩
  · rintro ⟨op, hop, hxref⟩
    exact ⟨_, hop, op, rfl, hxref⟩
  · rintro ⟨_, hop, op, rfl, hxref⟩
    exact ⟨op, hop, hxref⟩
  · rintro ⟨op, hop, hxref⟩
    exact ⟨_, hop, op, rfl, hxref⟩

/-- The bindings belong to operations of the view. -/
def Hosted (create : List CreateOp) (update : List UpdateOp) : Prop :=
  ∀ op, .binding op ∈ update → op.target ∈ create.flatMap CreateOp.hosts

theorem Hosted.append {create' : List CreateOp} {update' : List UpdateOp} (h : Hosted create update)
    (h' : Hosted create' update') : Hosted (create ++ create') (update ++ update') := by
  intro op hop
  rw [List.flatMap_append, List.mem_append]
  exact (List.mem_append.1 hop).imp (h op) (h' op)

theorem hosted_nil (create : List CreateOp) : Hosted create [] := by
  intro op hop
  simp at hop

theorem Binds.hosted {copies : List CreateOp} {update : List UpdateOp}
    (h : Binds root target copies update) (htarget : target ∈ create.flatMap CreateOp.hosts) :
    Hosted create update := by
  intro op hop
  obtain ⟨binding, heq, hbinding⟩ := h.update _ hop
  obtain rfl := UpdateOp.binding.inj heq
  exact hbinding ▸ htarget

theorem BranchLayout.hosted {isFirst : Bool} {targets : List Xref}
    (h : BranchLayout root isFirst targets create update) : Hosted create update := by
  induction h with
  | nil => exact hosted_nil _
  | @cons isFirst _ op copies create bindings update hcopies _ ih =>
    have hbindings : Hosted (copies ++ [branchOp isFirst op]) bindings := by
      refine hcopies.hosted ?_
      cases isFirst <;> simp [branchOp, CreateOp.hosts, CreateOp.base?]
    simpa using hbindings.append ih

theorem BindsEmpty.hosted {emptyView : Option Xref} {copies : List CreateOp}
    (h : BindsEmpty root emptyView copies update)
    (hviews : ∀ xref ∈ emptyView, xref ∈ create.flatMap CreateOp.hosts) : Hosted create update := by
  cases emptyView with
  | none =>
    obtain ⟨-, rfl⟩ := h
    exact hosted_nil create
  | some xref => exact Binds.hosted h (hviews xref rfl)

theorem Layout.hosted (h : Layout root create update) : Hosted create update := by
  induction h with
  | nil => exact hosted_nil _
  | append _ _ ih ih' => exact ih.append ih'
  | text op => exact hosted_nil _
  | boundText _ => simp [Hosted]
  | declaration _ _ => simp [Hosted]
  | icu start _ ih =>
    have hopening : Hosted [.icuStart start] [] := hosted_nil _
    simpa using (hopening.append ih).append (hosted_nil [.icuEnd start.xref])
  | @message _ _ start stop _ _ ih =>
    have hopening : Hosted [.i18nStart start] [] := hosted_nil _
    simpa using (hopening.append ih).append (hosted_nil [.i18nEnd stop])
  | @element _ copies _ bindings start stop _ hbindings _ ih =>
    have hopening : Hosted (.elementStart start :: copies) bindings :=
      hbindings.hosted (by simp [CreateOp.hosts, CreateOp.base?])
    simpa using (hopening.append ih).append (hosted_nil [.elementEnd stop])
  | template hbindings => exact hbindings.hosted (by simp [CreateOp.hosts, CreateOp.base?])
  | projection hbindings => exact hbindings.hosted (by simp [CreateOp.hosts])
  | @conditional _ _ op hbranches _ =>
    have hlast : Hosted [] [.conditional op] := by simp [Hosted]
    simpa using hbranches.hosted.append hlast
  | @loop op new emptyCopies copies emptyBindings bindings _ hempty hcopies =>
    have hhosts : ∀ xref, xref = op.xref ∨ op.emptyView = some xref →
        xref ∈ (emptyCopies ++ copies ++ [CreateOp.repeaterCreate op]).flatMap CreateOp.hosts := by
      intro xref hxref
      simp [CreateOp.hosts, hxref]
    have hbindings := hcopies.hosted (hhosts _ (.inl rfl))
    have hemptyBindings := hempty.hosted fun xref hxref => hhosts xref (.inr hxref)
    intro binding hbinding
    simp only [List.mem_append, List.mem_singleton, reduceCtorEq, or_false] at hbinding
    exact hbinding.elim (hemptyBindings binding) (hbindings binding)
  | deferred _ _ _ =>
    intro op hop
    simp at hop

/-! ## Numbers of a view -/

theorem CreateOp.count_hosts_le (op : CreateOp) (xref : Xref) :
    op.hosts.count xref ≤ op.xrefs.count xref + op.declaredViews.count xref := by
  have hdeclared : op.declared.count xref ≤ op.xrefs.count xref := by
    rw [CreateOp.xrefs, List.append_assoc, List.count_append]
    omega
  have hhosts : op.hosts.count xref ≤ op.declared.count xref + op.declaredViews.count xref := by
    cases op <;> simp [hosts, base?, declared, declaredViews]
  omega

theorem View.count_hosts_le (view : View) (xref : Xref) :
    (view.create.toList.flatMap CreateOp.hosts).count xref ≤
      (view.create.toList.flatMap CreateOp.xrefs).count xref + view.declaredViews.count xref := by
  rw [View.declaredViews]
  induction view.create.toList with
  | nil => simp
  | cons op ops ih =>
    have hop := op.count_hosts_le xref
    simp only [List.flatMap_cons, List.count_append]
    omega

theorem Job.count_xrefs_le (views : List View) (xref : Xref) :
    (views.map View.xref).count xref +
        (views.flatMap fun view => view.create.toList.flatMap CreateOp.xrefs).count xref ≤
      (views.flatMap View.xrefs).count xref := by
  induction views with
  | nil => simp
  | cons view views ih =>
    have hview : view.xrefs.count xref = [view.xref].count xref +
        ((view.create.toList.flatMap CreateOp.xrefs).count xref +
          (view.update.toList.flatMap UpdateOp.xrefs).count xref) := by
      rw [View.xrefs, ← List.singleton_append, List.count_append, List.count_append]
    have hcons : (view.xref :: views.map View.xref).count xref =
        [view.xref].count xref + (views.map View.xref).count xref := by
      rw [← List.singleton_append, List.count_append]
    simp only [List.map_cons, List.flatMap_cons, List.count_append, hview, hcons]
    omega

/-- No two operations of a view have attributes bound to the same number, and none has two such
numbers that are the same. -/
theorem Job.Intact.nodup_hosts {job : Job} (h : job.Intact) {view : View}
    (hview : view ∈ job.units) : (view.create.toList.flatMap CreateOp.hosts).Nodup := by
  rw [List.nodup_iff_count_le_one]
  intro xref
  have hhosts := view.count_hosts_le xref
  have hsublist : [view].Sublist job.units := List.singleton_sublist.2 hview
  have hcreate : (view.create.toList.flatMap CreateOp.xrefs).count xref ≤
      (job.units.flatMap fun view => view.create.toList.flatMap CreateOp.xrefs).count xref := by
    simpa using (hsublist.flatMap fun view =>
      view.create.toList.flatMap CreateOp.xrefs).count_le xref
  have hviews : view.declaredViews.count xref ≤ (job.units.map View.xref).count xref := by
    calc view.declaredViews.count xref
        ≤ (job.units.flatMap View.declaredViews).count xref := by
          simpa using (hsublist.flatMap View.declaredViews).count_le xref
      _ = (job.views.map View.xref).count xref := h.tree.perm_declaredViews.count_eq xref
      _ ≤ (job.units.map View.xref).count xref :=
          ((List.sublist_cons_self job.root job.views).map View.xref).count_le xref
  have hall := Job.count_xrefs_le job.units xref
  have hdistinct := List.nodup_iff_count_le_one.1 (distinct_iff.1 h.distinct).1 xref
  rw [Job.xrefs] at hdistinct
  omega

/-- A number to which attributes are bound is that of an element, unless it is that of a projection or
of the view for an empty loop. -/
theorem Job.Intact.hasElement_iff {job : Job} (h : job.Intact) {view : View}
    (hview : view ∈ job.units) {xref : Xref}
    (hhosts : xref ∈ view.create.toList.flatMap CreateOp.hosts) :
    view.HasElement xref ↔ ¬(view.HasProjection xref ∨ view.HasEmptyView xref) := by
  obtain ⟨hself, hothers⟩ := List.nodup_flatMap.1 (h.nodup_hosts hview)
  have hunique : ∀ op ∈ view.create.toList, ∀ other ∈ view.create.toList, xref ∈ op.hosts →
      xref ∈ other.hosts → op = other := by
    intro op hop other hother hmem hmem'
    by_contra hne
    have hsymm : Std.Symm (Function.onFun List.Disjoint CreateOp.hosts) :=
      ⟨fun _ _ hdisjoint => hdisjoint.symm⟩
    exact hothers.forall hop hother hne hmem hmem'
  constructor
  · rintro ⟨op, hop, base, hbase, hxref⟩ (⟨inner, hinner, hxref'⟩ | ⟨inner, hinner, hxref'⟩)
    · obtain rfl := hunique op hop _ hinner (CreateOp.mem_hosts.2 (.inl ⟨base, hbase, hxref⟩))
        (CreateOp.mem_hosts.2 (.inr (.inl ⟨inner, rfl, hxref'⟩)))
      simp [CreateOp.base?] at hbase
    · obtain rfl := hunique op hop _ hinner (CreateOp.mem_hosts.2 (.inl ⟨base, hbase, hxref⟩))
        (CreateOp.mem_hosts.2 (.inr (.inr ⟨inner, rfl, hxref'⟩)))
      obtain rfl := Option.some.inj hbase
      have hnodup := hself _ hop
      simp [CreateOp.hosts, hxref', hxref] at hnodup
  · intro hneither
    exact (View.mem_hosts.1 hhosts).resolve_right hneither

/-! ## The fault -/

section Fault

variable {start job : Job} {scheduled : List Phase}

theorem Follows.cause_of_specializeBindings_error (h : Follows start scheduled job)
    (henabled : Phase.specializeBindings.Enabled scheduled) (hnew : .specializeBindings ∉ scheduled)
    {fault : Fault} (hrun : job.specializeBindings = .error fault) :
    (∃ name, fault = .twoWayInterpolation name) ∧ start.HasTwoWayInterpolation ∨
      fault = .nonBindableTarget ∧ start.HasStrayNonBindable := by
  have hstyle : .specializeStyleBindings ∈ scheduled :=
    henabled _ (by simp [Phase.prerequisites])
  rw [h.hasTwoWayInterpolation_iff hstyle hnew, h.hasStrayNonBindable_iff hstyle hnew]
  obtain ⟨view, hview, hcause⟩ :=
    Job.cause_of_specializeBindings_error h.sound (h.isStyle_eq_false hstyle) hrun
  exact hcause.imp (fun hcause => ⟨hcause.1, view, hview, hcause.2⟩)
    fun hcause => ⟨hcause.1, view, hview, hcause.2⟩

theorem stray_of_runAll {I : List Phase → Job → Prop} {phases : List Phase}
    (hfollows : ∀ scheduled job, I scheduled job → Follows start scheduled job)
    (hstep : ∀ phase ∈ phases, ∀ scheduled job, I scheduled job →
      phase.Enabled scheduled → phase ∉ scheduled →
      Advances start phase job (I (phase :: scheduled))) (h : I scheduled job)
    (hcheck : checkPhases scheduled phases = .ok ())
    (hrun : runAll phases job = .error .nonBindableTarget) : start.HasStrayNonBindable := by
  induction phases generalizing scheduled job with
  | nil => simp [runAll, pure, Except.pure] at hrun
  | cons phase phases ih =>
    obtain ⟨henabled, hnew, hrest⟩ := checkPhases_cons.1 hcheck
    rw [List.forall_mem_cons] at hstep
    obtain ⟨hfails, hleads⟩ := hstep.1 scheduled job h henabled hnew
    rw [runAll_cons] at hrun
    by_cases hrefuses : start.Refuses phase
    · obtain ⟨fault, hfault, herror⟩ := hfails hrefuses
      rw [herror] at hrun
      obtain rfl := Except.error.inj hrun
      cases phase with
      | specializeBindings =>
        have hcause := (hfollows _ _ h).cause_of_specializeBindings_error henabled hnew herror
        simpa using hcause
      | specializeStyleBindings | optimizeTrackFns => simp [Phase.FailsWith] at hfault
      | _ => exact hfault.elim
    · obtain ⟨job₁, hok, hnext⟩ := hleads hrefuses
      rw [hok] at hrun
      exact ih hstep.2 hnext hrest hrun

theorem runAll_of_stray {I : List Phase → Job → Prop} {phases : List Phase}
    (hfollows : ∀ scheduled job, I scheduled job → Follows start scheduled job)
    (hstep : ∀ phase ∈ [Phase.specializeStyleBindings, .specializeBindings], ∀ scheduled job,
      I scheduled job → phase.Enabled scheduled → phase ∉ scheduled →
      Advances start phase job (I (phase :: scheduled)))
    (h : I [] start) (hclass : ¬start.HasClassInterpolation)
    (htwoWay : ¬start.HasTwoWayInterpolation) (hstray : start.HasStrayNonBindable) :
    runAll (.specializeStyleBindings :: .specializeBindings :: phases) start =
      .error .nonBindableTarget := by
  have hstyle := hstep .specializeStyleBindings (by simp) [] start h
    (by simp [Phase.Enabled, Phase.prerequisites]) (by simp)
  obtain ⟨job₁, hok, hnext⟩ := hstyle.2 hclass
  have henabled : Phase.specializeBindings.Enabled [.specializeStyleBindings] := by
    simp [Phase.Enabled, Phase.prerequisites]
  obtain ⟨fault, -, herror⟩ := (hstep .specializeBindings (by simp) _ job₁ hnext henabled
    (by simp)).1 (.inr hstray)
  have hcause := (hfollows _ _ hnext).cause_of_specializeBindings_error henabled (by simp)
    herror
  obtain ⟨rfl, -⟩ := hcause.resolve_left fun hcause => htwoWay hcause.2
  rw [runAll_cons, hok]
  change runAll (.specializeBindings :: phases) job₁ = _
  rw [runAll_cons, herror]
  rfl

end Fault

/-! ## Templates -/

section Template

variable {component : String} {template : List Template.Node} {options : Options} {job : Job}

theorem compileTemplate_eq (h : Job.ofTemplate component template options = .ok job) :
    compileTemplate component template options = (Plan.standard.run job).mapError .broken := by
  rw [compileTemplate, compileTemplateWith, h]
  rfl

theorem mapError_broken_eq_error {result : Except Fault Job} {fault : Fault} :
    result.mapError Failure.broken = .error (.broken fault) ↔ result = .error fault := by
  cases result <;> simp [Except.mapError]

theorem Job.hosted_of_ofTemplate (h : ofTemplate component template options = .ok job) :
    ∀ view ∈ job.units, Hosted view.create.toList view.update.toList := by
  obtain ⟨root, hlaidOut⟩ := Job.exists_laidOut h
  exact fun view hview => (hlaidOut view hview).hosted

theorem Plan.stray_of_standard_run (h : Job.ofTemplate component template options = .ok job)
    (hrun : standard.run job = .error .nonBindableTarget) : job.HasStrayNonBindable := by
  obtain ⟨hintact, hkind⟩ := Job.ofTemplate_intact h
  rw [standard.run_eq_runAll hkind] at hrun
  exact stray_of_runAll (fun _ _ hreached => hreached.follows)
    (fun _ _ _ _ hreached => hreached.step) (reached_refl hintact hkind) standard.isValid hrun

theorem Plan.standard_run_of_stray (h : Job.ofTemplate component template options = .ok job)
    (hstray : job.HasStrayNonBindable) :
    ∃ fault, standard.run job = .error fault ∧
      (¬job.HasClassInterpolation → ¬job.HasTwoWayInterpolation → fault = .nonBindableTarget) := by
  obtain ⟨fault, -, herror⟩ := run_of_refuses h standard
    ⟨.specializeBindings, by simp [standard, Phase.all], .inr hstray⟩
  refine ⟨fault, herror, ?_⟩
  intro hclass htwoWay
  obtain ⟨hintact, hkind⟩ := Job.ofTemplate_intact h
  rw [standard.run_eq_runAll hkind] at herror
  have hfault : runAll standard.phases job =
      .error .nonBindableTarget :=
    runAll_of_stray (fun _ _ hreached => hreached.follows)
      (fun _ _ _ _ hreached => hreached.step) (reached_refl hintact hkind) hclass htwoWay hstray
  exact Except.error.inj (herror.symm.trans hfault)

end Template

/-! ## Host bindings -/

section Host

variable {host : HostBindings} {options : Options} {job : Job}

theorem compileHostBindings_eq (h : Job.ofHostBindings host options = .ok job) :
    compileHostBindings host options = (Plan.standard.run job).mapError .broken := by
  rw [compileHostBindings, h]
  rfl

theorem Job.bindings_of_ofHostBindings (h : ofHostBindings host options = .ok job) :
    (∀ view ∈ job.units, ∀ xref, ¬view.HasElement xref) ∧ ¬job.HasClassInterpolation ∧
      ¬job.HasTwoWayInterpolation ∧ (job.HasStrayNonBindable ↔ host.HasNonBindable) := by
  obtain ⟨fragment, hhost, hroot, hviews, -, hbindable⟩ := exists_ofHost h
  have hunits : job.units = [job.root] := by rw [units, hviews]
  have helement : ∀ xref, ¬job.root.HasElement xref := by
    intro xref helement
    have hmem := View.element_mem_features.2 helement
    simp [hroot.features_ofHost hhost] at hmem
  have hkinds : ∀ op, .binding op ∈ fragment.update →
      op.kind = .attr ∨ op.kind = .property ∨ op.kind = .animation := by
    intro op hop
    obtain ⟨binding, heq, hbinding⟩ := hhost.update _ hop
    obtain rfl := UpdateOp.binding.inj heq
    exact hbinding.kind
  simp only [HasClassInterpolation, HasTwoWayInterpolation, HasStrayNonBindable, hunits,
    List.mem_singleton, exists_eq_left, forall_eq, hroot.update.toList, ← hbindable]
  refine ⟨helement, ?_, ?_, ?_⟩
  · rintro ⟨op, hop, hkind, -⟩
    simpa [hkind] using hkinds op hop
  · rintro ⟨op, hop, hkind, -⟩
    simpa [hkind] using hkinds op hop
  · refine exists_congr fun op => and_congr_right fun _ => ?_
    simp only [Binding.isNonBindable, nonBindableName, Bool.and_eq_true, decide_eq_true_eq,
      beq_iff_eq]
    refine ⟨fun hop => ⟨hop.1, hop.2.1⟩, fun hop => ⟨hop.1, hop.2, ?_⟩⟩
    intro other hother base hbase hxref
    exact helement op.target ⟨other, hother, base, hbase, hxref⟩

theorem Plan.standard_run_host (h : Job.ofHostBindings host options = .ok job) :
    standard.run job = .error .nonBindableTarget ↔ host.HasNonBindable := by
  obtain ⟨hsound, hrooted⟩ := Job.ofHostBindings_sound h
  obtain ⟨-, -, -, -, hkind, -⟩ := Job.exists_ofHost h
  obtain ⟨-, hclass, htwoWay, hstray⟩ := Job.bindings_of_ofHostBindings h
  have hstep : ∀ phase ∈ standard.hostPhases, ∀ scheduled job₁, Follows job scheduled job₁ →
      phase.Enabled scheduled → phase ∉ scheduled →
      Advances job phase job₁ (Follows job (phase :: scheduled)) :=
    fun phase hphase _ _ hfollows henabled hnew =>
      hfollows.step_of_appliesTo_host (List.mem_filter.1 hphase).2 henabled hnew
  rw [standard.run_eq_runAll_hostPhases hkind, ← hstray]
  constructor
  · exact stray_of_runAll (fun _ _ hfollows => hfollows) hstep
      (follows_refl hsound hrooted) standard.checkPhases_hostPhases
  · refine runAll_of_stray (fun _ _ hfollows => hfollows) (fun phase hphase => hstep phase ?_)
      (follows_refl hsound hrooted) hclass htwoWay
    rcases List.mem_pair.1 hphase with rfl | rfl <;> decide

end Host

/-! ## Compiling -/

/-- An attribute `ngNonBindable` in a template stands on an element-like operation of its view unless
it stands on a projection or on the root of what an empty loop shows.  Compiling a template fails at
such an attribute only if there is one, and if there is one it fails, with this fault unless a class
or a two-way property is bound to an interpolation as well.  An attribute `ngNonBindable` of a host
element stands on no operation, and host bindings fail at it exactly when there is one. -/
theorem compile_fails_at_nonBindable (component : String) (template : List Template.Node)
    (host : HostBindings) (options : Options) :
    (∀ job, Job.ofTemplate component template options = .ok job →
      (∀ view ∈ job.units, ∀ op, .binding op ∈ view.update.toList → op.isNonBindable = true →
        (view.HasElement op.target ↔
          ¬(view.HasProjection op.target ∨ view.HasEmptyView op.target))) ∧
      (compileTemplate component template options = .error (.broken .nonBindableTarget) →
        job.HasStrayNonBindable) ∧
      (job.HasStrayNonBindable →
        ∃ fault, compileTemplate component template options = .error (.broken fault) ∧
          (¬job.HasClassInterpolation → ¬job.HasTwoWayInterpolation →
            fault = .nonBindableTarget))) ∧
    ∀ job, Job.ofHostBindings host options = .ok job →
      (∀ view ∈ job.units, ∀ op, .binding op ∈ view.update.toList → op.isNonBindable = true →
        ¬view.HasElement op.target) ∧
      (compileHostBindings host options = .error (.broken .nonBindableTarget) ↔
        host.HasNonBindable) := by
  refine ⟨?_, ?_⟩
  · intro job h
    have hintact := (Job.ofTemplate_intact h).1
    rw [compileTemplate_eq h]
    simp only [mapError_broken_eq_error]
    refine ⟨?_, Plan.stray_of_standard_run h, Plan.standard_run_of_stray h⟩
    intro view hview op hop _
    exact hintact.hasElement_iff hview (Job.hosted_of_ofTemplate h view hview op hop)
  · intro job h
    rw [compileHostBindings_eq h, mapError_broken_eq_error]
    refine ⟨?_, Plan.standard_run_host h⟩
    intro view hview op _ _
    exact (Job.bindings_of_ofHostBindings h).1 view hview op.target

/-- A projection whose contents are not to be bound. -/
def unboundSlot : List Template.Node :=
  let here : SourceSpan := default
  [.content
    { selector := "*"
      attributes := [{ name := "ngNonBindable", value := "", span := here, i18n := none }]
      children := []
      span := here
      i18n := none }]

/-- A loop that shows an element whose contents are not to be bound when it is empty. -/
def unboundEmpty : List Template.Node :=
  let here : SourceSpan := default
  let spans : Template.BlockSpans := { whole := here, start := here, stop := none }
  [.forBlock
    { item := { name := "item", value := "$implicit", span := here }
      expression := { ast := .thisReceiver {} }
      trackBy := { ast := .thisReceiver {} }
      contextVariables := []
      children := []
      empty := some
        { children :=
            [.element
              { name := "p"
                attributes := [{ name := "ngNonBindable", value := "", span := here, i18n := none }]
                inputs := []
                outputs := []
                children := []
                references := []
                span := here
                startSpan := here
                endSpan := none
                i18n := none }]
          block := spans
          i18n := none }
      block := spans
      mainSpan := here
      i18n := none }]

/-- A host element whose contents are not to be bound. -/
def unboundHost : HostBindings :=
  { component := "Card"
    selector := "card"
    properties := []
    attributes :=
      [{ name := "ngNonBindable", value := .literal (.string "") none, span := default }]
    events := [] }

/-- In all three places the attribute is lowered, and there is no element that it could mark. -/
theorem compile_unbound_fails :
    (Job.ofTemplate "Slot" unboundSlot {}).isOk = true ∧
    compileTemplate "Slot" unboundSlot {} = .error (.broken .nonBindableTarget) ∧
    (Job.ofTemplate "List" unboundEmpty {}).isOk = true ∧
    compileTemplate "List" unboundEmpty {} = .error (.broken .nonBindableTarget) ∧
    (Job.ofHostBindings unboundHost {}).isOk = true ∧
    compileHostBindings unboundHost {} = .error (.broken .nonBindableTarget) :=
  ⟨rfl, rfl, rfl, rfl, rfl, rfl⟩

theorem compile_fails_at_nonBindable_unbound :
    ∃ job host, Job.ofTemplate "List" unboundEmpty {} = .ok job ∧
      Job.ofHostBindings unboundHost {} = .ok host ∧ job.HasStrayNonBindable ∧
      unboundHost.HasNonBindable := by
  have hjob : (Job.ofTemplate "List" unboundEmpty {}).isOk = true := rfl
  have hhost : (Job.ofHostBindings unboundHost {}).isOk = true := rfl
  obtain ⟨job, hjob⟩ := exists_eq_ok_of_isOk hjob
  obtain ⟨hostJob, hhost⟩ := exists_eq_ok_of_isOk hhost
  obtain ⟨htemplate, hhostBindings⟩ :=
    compile_fails_at_nonBindable "List" unboundEmpty unboundHost {}
  exact ⟨job, hostJob, hjob, hhost, (htemplate job hjob).2.1 rfl,
    (hhostBindings hostJob hhost).2.1 rfl⟩

end TemplateLowering
