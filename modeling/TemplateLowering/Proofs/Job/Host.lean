import TemplateLowering.Proofs.Lowering.Origin
import TemplateLowering.Proofs.Pass.Binding

/-!
# Jobs of host bindings

The job of host bindings has its root view only.  The create operations of the root are listeners,
and its update operations are bindings of the host element, which the root stands for: no operation
of the job declares an element.
-/

namespace TemplateLowering

variable {root : Xref} {host : HostBindings} {s t : Ids} {fragment : Fragment}

/-! ## Lowered host bindings -/

/-- Some attribute of the host element is named `ngNonBindable`. -/
def HostBindings.HasNonBindable (host : HostBindings) : Prop :=
  (∃ attr ∈ host.attributes, attr.name = "ngNonBindable") ∨
    ∃ property ∈ host.properties, property.isAnimation = false ∧
      property.name = "attr.ngNonBindable"

/-- A binding of the host element, for which `root` stands. -/
structure Binding.OfHost (root : Xref) (op : Binding) : Prop where
  target : op.target = root
  kind : op.kind = .attr ∨ op.kind = .property ∨ op.kind = .animation

/-- A listener that is sound and does something. -/
structure Listener.Acts (op : Listener) : Prop where
  sound : SoundOps op.handler
  handler : op.handler.toList ≠ []

/-- The operations of host bindings.  The handlers drew their numbers while the next one went from
`n` to `n'`. -/
structure Fragment.OfHost (root : Xref) (n n' : Nat) (f : Fragment) : Prop where
  create : ∀ op ∈ f.create, ∃ listener : Listener, op = .listener listener ∧ listener.Acts
  update : ∀ op ∈ f.update, ∃ binding : Binding, op = .binding binding ∧ binding.OfHost root
  views : f.views = []
  lists : Grows n n' [] (f.create.flatMap CreateOp.listNumbers)

theorem HostProperty.kind_cases (property : HostProperty) :
    property.kind = .attr ∨ property.kind = .property ∨ property.kind = .animation := by
  unfold kind
  split
  · exact .inr (.inr rfl)
  · split
    · exact .inl rfl
    · exact .inr (.inl rfl)

theorem hostAttributeName?_eq {name attr : String} :
    hostAttributeName? name = some attr ↔ name = "attr." ++ attr := by
  have hlists : name = "attr." ++ attr ↔ name.toList = "attr.".toList ++ attr.toList := by
    rw [← String.toList_append, String.toList_inj]
  rw [hlists]
  simp only [hostAttributeName?, List.isPrefixOf_iff_prefix]
  split
  · next h =>
    obtain ⟨rest, hrest⟩ := h
    rw [← hrest, List.drop_left, List.append_cancel_left_eq, Option.some.injEq,
      ← String.toList_inj, String.toList_ofList]
  · next h =>
    have hne : name.toList ≠ "attr.".toList ++ attr.toList :=
      fun heq => h ⟨attr.toList, heq.symm⟩
    exact iff_of_false (by simp) hne

theorem lowerHostProperty_spec {selector : String} {property : HostProperty} {op : Binding}
    (h : Yields (lowerHostProperty root selector property) s op t) :
    op.OfHost root ∧ t.nextList = s.nextList ∧
      (op.isNonBindable = true ↔
        property.isAnimation = false ∧ property.name = "attr.ngNonBindable") := by
  simp only [lowerHostProperty, yields_bind, yields_pure] at h
  obtain ⟨value, _, hvalue, rfl, rfl⟩ := h
  refine ⟨⟨rfl, property.kind_cases⟩, (loweredExprs_lowerValue hvalue).draws.lists, ?_⟩
  have hname := @hostAttributeName?_eq property.name "ngNonBindable"
  simp only [Binding.isNonBindable, HostProperty.kind, nonBindableName, Bool.and_eq_true, beq_iff_eq]
  rw [show "attr.ngNonBindable" = "attr." ++ "ngNonBindable" from rfl, ← hname]
  by_cases hanimation : property.isAnimation = true
  · simp [hanimation]
  · rcases Option.eq_none_or_eq_some (hostAttributeName? property.name) with hnone | ⟨attr, hsome⟩
    · simp [hanimation, hnone]
    · simp [hanimation, hsome]

theorem lowerHostEvent_spec {event : HostEvent} {op : Listener}
    (h : Yields (lowerHostEvent root event) s op t) :
    Grows s.nextList t.nextList [] (CreateOp.listener op).listNumbers ∧ op.Acts := by
  simp only [lowerHostEvent, yields_bind, yields_pure] at h
  obtain ⟨handler, _, hhandler, rfl, rfl⟩ := h
  obtain ⟨hgrows, hne⟩ := lowerHandler_raw hhandler
  exact ⟨hgrows, (lowerHandler_spec hhandler).2, hne⟩

theorem lowerHostProperties_spec {selector : String} {properties : List HostProperty}
    {ops : List Binding} (h : Yields (properties.mapM (lowerHostProperty root selector)) s ops t) :
    (∀ op ∈ ops, op.OfHost root) ∧ t.nextList = s.nextList ∧
      ((∃ op ∈ ops, op.isNonBindable = true) ↔ ∃ property ∈ properties,
        property.isAnimation = false ∧ property.name = "attr.ngNonBindable") := by
  have hthreads := yields_mapM.1 h
  clear h
  induction hthreads with
  | nil => simp
  | cons hop _ ih =>
    obtain ⟨hhost, hlists, hbindable⟩ := lowerHostProperty_spec hop
    obtain ⟨hhosts, hlists', hbindables⟩ := ih
    refine ⟨List.forall_mem_cons.2 ⟨hhost, hhosts⟩, hlists'.trans hlists, ?_⟩
    simp only [List.exists_mem_cons_iff, hbindable, hbindables]

theorem lowerHostAttribute_spec (root : Xref) (selector : String) (attr : HostAttribute) :
    (lowerHostAttribute root selector attr).OfHost root ∧
      ((lowerHostAttribute root selector attr).isNonBindable = true ↔
        attr.name = "ngNonBindable") := by
  refine ⟨⟨rfl, .inl rfl⟩, ?_⟩
  simp [Binding.isNonBindable, lowerHostAttribute, nonBindableName]

theorem lowerHostBindings_spec (h : Yields (lowerHostBindings root host) s fragment t) :
    fragment.OfHost root s.nextList t.nextList ∧
      ((∃ op, .binding op ∈ fragment.update ∧ op.isNonBindable = true) ↔
        host.HasNonBindable) := by
  simp only [lowerHostBindings, yields_bind, yields_pure] at h
  obtain ⟨properties, _, hproperties, listeners, _, hlisteners, rfl, rfl⟩ := h
  obtain ⟨hhosts, heq, hbindables⟩ := lowerHostProperties_spec hproperties
  have hlisteners := yields_mapM.1 hlisteners
  have hacts : ∀ op ∈ listeners, op.Acts := by
    intro op hop
    obtain ⟨event, -, s, t, hevent⟩ := hlisteners.exists_of_mem hop
    exact (lowerHostEvent_spec hevent).2
  have hattributes := lowerHostAttribute_spec root host.selector
  refine ⟨⟨?_, ?_, rfl, ?_⟩, ?_⟩
  · intro op hop
    obtain ⟨listener, hlistener, rfl⟩ := List.mem_map.1 hop
    exact ⟨listener, rfl, hacts listener hlistener⟩
  · intro op hop
    obtain ⟨binding, hbinding, rfl⟩ := List.mem_map.1 hop
    refine ⟨binding, rfl, ?_⟩
    rcases List.mem_append.1 hbinding with hbinding | hbinding
    · exact hhosts binding hbinding
    · obtain ⟨attr, -, rfl⟩ := List.mem_map.1 hbinding
      exact (hattributes attr).1
  · have hgrows : Grows _ _ (host.events.flatMap fun _ => []) _ :=
      hlisteners.grows fun _ _ _ _ _ hevent => (lowerHostEvent_spec hevent).1
    rw [List.flatMap_eq_nil_iff.2 fun _ _ => rfl] at hgrows
    rwa [List.flatMap_map, ← heq]
  · have hmem : ∀ op, UpdateOp.binding op ∈ (properties ++ host.attributes.map
        (lowerHostAttribute root host.selector)).map UpdateOp.binding ↔
        op ∈ properties ∨ ∃ attr ∈ host.attributes,
          lowerHostAttribute root host.selector attr = op := by
      intro op
      simp
    simp only [hmem, or_and_right, exists_or, hbindables, HostBindings.HasNonBindable]
    rw [or_comm]
    refine or_congr_left ?_
    constructor
    · rintro ⟨op, ⟨attr, hattr, rfl⟩, hbindable⟩
      exact ⟨attr, hattr, (hattributes attr).2.1 hbindable⟩
    · rintro ⟨attr, hattr, hname⟩
      exact ⟨_, ⟨attr, hattr, rfl⟩, (hattributes attr).2.2 hname⟩

/-! ## The job -/

namespace Job

variable {options : Options} {job : Job}

theorem exists_ofHost (h : ofHostBindings host options = .ok job) :
    ∃ fragment : Fragment, fragment.OfHost ⟨0⟩ freeIds.nextList job.ids.nextList ∧
      RootOf fragment job.root ∧ job.views = [] ∧ job.kind = .host ∧
      ((∃ op, .binding op ∈ fragment.update ∧ op.isNonBindable = true) ↔
        host.HasNonBindable) := by
  rw [ofHostBindings, addLowered_eq] at h
  cases hrun : outcome (lowerHostBindings ⟨0⟩ host) freeIds with
  | error e =>
    change Except.map _ (outcome (lowerHostBindings ⟨0⟩ host) freeIds) = _ at h
    simp [hrun, Except.map] at h
  | ok result =>
    obtain ⟨fragment, ids⟩ := result
    change Except.map _ (outcome (lowerHostBindings ⟨0⟩ host) freeIds) = _ at h
    rw [hrun] at h
    obtain rfl := Except.ok.inj h
    obtain ⟨hhost, hbindable⟩ := lowerHostBindings_spec hrun
    refine ⟨fragment, hhost, ?_, ?_, rfl, hbindable⟩
    · exact ⟨rfl, rfl, (OpList.lists_ofList _ []).appendAll fragment.create,
        (OpList.lists_ofList _ []).appendAll fragment.update, OpList.id_appendAll _ _,
        OpList.id_appendAll _ _, rfl⟩
    · exact hhost.views

section Root

variable {n n' : Nat} {view : View}

theorem RootOf.sound_ofHost (h : RootOf fragment view) (hhost : fragment.OfHost root n n') :
    view.Sound := by
  refine ⟨h.create.linked, ?_, h.update.linked, ?_⟩
  · intro op hop
    rw [h.create.toList] at hop
    obtain ⟨listener, rfl, hacts⟩ := hhost.create op hop
    exact ⟨rfl, by simpa [CreateOp.lists] using hacts.sound⟩
  · intro op hop
    rw [h.update.toList] at hop
    obtain ⟨binding, rfl, hbinding⟩ := hhost.update op hop
    refine sound_binding ?_
    rcases hbinding.kind with hkind | hkind | hkind <;> simp [hkind]

theorem RootOf.features_ofHost (h : RootOf fragment view) (hhost : fragment.OfHost root n n') :
    view.features = [] := by
  rw [View.features, h.create.toList, List.flatMap_eq_nil_iff]
  intro op hop
  obtain ⟨listener, rfl, -⟩ := hhost.create op hop
  rfl

theorem RootOf.blocks_ofHost (h : RootOf fragment view) (hhost : fragment.OfHost root n n') :
    view.blocks = [] := by
  rw [View.blocks, h.create.toList, List.flatMap_eq_nil_iff]
  intro op hop
  obtain ⟨listener, rfl, -⟩ := hhost.create op hop
  rfl

end Root

theorem ofHostBindings_sound (h : ofHostBindings host options = .ok job) :
    job.Sound ∧ job.Rooted := by
  obtain ⟨fragment, hhost, hroot, hviews, -⟩ := exists_ofHost h
  have hunits : job.units = [job.root] := by rw [units, hviews]
  refine ⟨?_, ?_⟩
  · rw [Sound, hunits, List.forall_mem_singleton]
    exact hroot.sound_ofHost hhost
  · have hblocks : job.blocks = [] := by
      rw [blocks, hunits, List.flatMap_singleton]
      exact hroot.blocks_ofHost hhost
    intro block hblock
    simp [hblocks] at hblock

end Job

end TemplateLowering
