import TemplateLowering.Plan
import TemplateLowering.Proofs.Job.Units
import TemplateLowering.Proofs.Op.Translation
import TemplateLowering.Proofs.Pass.Event

/-!
# Edits of views

What a phase may do to a view, said once for all phases.  A create operation is altered in its place
or stays, new operations are inserted between the others, and none is removed.  An update operation
is narrowed in its place or stays, and `ngNonBindable` is dropped.  Whatever is read off the
operations of a view is kept by a phase if no alteration, insertion or narrowing of the phase shows
in it.
-/

namespace TemplateLowering

variable {op op' : CreateOp}

/-- The node of which the operation sets a property, an attribute, a style or a class. -/
def UpdateOp.sets? : UpdateOp → Option Xref
  | .binding op => some op.target
  | .property op => some op.target
  | .twoWayProperty op => some op.target
  | .attr op => some op.target
  | .styleProp op => some op.target
  | .classProp op => some op.target
  | .styleMap op => some op.target
  | .classMap op => some op.target
  | _ => none

def UpdateOp.isStyle : UpdateOp → Bool
  | .styleProp _ | .classProp _ | .styleMap _ | .classMap _ => true
  | _ => false

theorem Binding.isStyle_of_styleOp? {op : Binding} {new : UpdateOp}
    (h : op.styleOp? = .ok (some new)) :
    new.isStyle = true ∧ new.sets? = some op.target ∧ op.kind ≠ .twoWayProperty := by
  cases hkind : op.kind <;>
    simp only [styleOp?, hkind, bind, Except.bind, pure, Except.pure, reduceCtorEq, Except.ok.injEq,
      Option.some.injEq] at h
  case className =>
    split at h
    · simp at h
    · obtain rfl := Option.some.inj (Except.ok.inj h)
      exact ⟨rfl, rfl, by simp⟩
  case styleProperty =>
    subst h
    exact ⟨rfl, rfl, by simp⟩
  all_goals
    split at h
    · obtain rfl := Option.some.inj (Except.ok.inj h)
      exact ⟨rfl, rfl, by simp⟩
    · split at h
      · obtain rfl := Option.some.inj (Except.ok.inj h)
        exact ⟨rfl, rfl, by simp⟩
      · simp at h

theorem Binding.eq_of_narrowedOp {op : Binding} {new : UpdateOp}
    (h : op.narrowedOp .template = .ok new) :
    (new = .attr op.attributeOp ∨ new = .property op.propertyOp) ∧ op.kind ≠ .twoWayProperty ∨
      ∃ expr, new = .twoWayProperty (op.twoWayPropertyOp expr) ∧ op.kind = .twoWayProperty := by
  cases hkind : op.kind <;>
    simp only [narrowedOp, hkind, bind, Except.bind, pure, Except.pure, reduceCtorEq, if_false,
      Except.ok.injEq] at h
  case twoWayProperty =>
    split at h
    · simp at h
    · exact .inr ⟨_, (Except.ok.inj h).symm, rfl⟩
  all_goals simp [← h]

/-- The operations of a handler stay, or a view is restored before them and left when they return. -/
inductive Restoring : List UpdateOp → List UpdateOp → Prop
  | keep {ops : List UpdateOp} : Restoring ops ops
  | restore {decl : VariableOp} {view : Xref} {ops : List UpdateOp} :
      decl.initializer = .restoreView view →
      Restoring ops (.variableDecl decl :: ops.map resetOnReturn)

/-- The listener stays, but its handler may restore a view. -/
structure Listener.Restored (op op' : Listener) : Prop where
  id : op'.handler.id = op.handler.id
  ops : Restoring op.handler.toList op'.handler.toList
  rest : op' = { op with handler := op'.handler }

namespace Phase

/-- The operations that a phase may leave as they are. -/
def Spares : Phase → CreateOp → Prop
  | .resolveDollarEvent, .listener _ => False
  | .generateTrackVariables, .repeaterCreate _ => False
  | _, _ => True

/-- What a phase may make of a create operation in its place. -/
inductive Alters : Phase → CreateOp → CreateOp → Prop
  | keep {phase : Phase} {op : CreateOp} : phase.Spares op → Alters phase op op
  | mark {op : CreateOp} : Alters .specializeBindings op op.markNonBindable
  | number {op : I18nStart} {index : Option Nat} :
      Alters .propagateI18nBlocks (.i18nStart op) (.i18nStart { op with subTemplateIndex := index })
  | ofAttribute {op : ExtractedAttribute} {context : Option Xref} :
      Alters .createI18nContexts (.extractedAttribute op)
        (.extractedAttribute { op with i18nContext := context })
  | ofBlock {op : I18nStart} {context : Option Xref} :
      Alters .createI18nContexts (.i18nStart op) (.i18nStart { op with context })
  | ofIcu {op : IcuStart} {context : Option Xref} :
      Alters .createI18nContexts (.icuStart op) (.icuStart { op with context })
  | convert {op : I18nContextOp} {kind : I18nContextKind} :
      Alters .createI18nContexts (.i18nContext op) (.i18nContext { op with kind })
  | restore {op : Listener} {handler : OpList UpdateOp} : op.Restored { op with handler } →
      Alters .saveAndRestoreView (.listener op) (.listener { op with handler })
  | event {op : Listener} {handler : OpList UpdateOp} {consumesEvent : Bool} :
      op.EventResolved { op with handler, consumesEvent } →
      Alters .resolveDollarEvent (.listener op) (.listener { op with handler, consumesEvent })
  | track {op : RepeaterCreate} {track : Expr} :
      CreateOp.resolveTrackReads (.repeaterCreate op) = .repeaterCreate { op with track } →
      Alters .generateTrackVariables (.repeaterCreate op) (.repeaterCreate { op with track })
  | trackFn {op : RepeaterCreate} {track : Expr} {trackByOps : Option (OpList UpdateOp)}
      {trackByFn : Option Expr} {usesComponentInstance : Bool} :
      Alters .optimizeTrackFns (.repeaterCreate op)
        (.repeaterCreate { op with track, trackByOps, trackByFn, usesComponentInstance })
  | containerStart {op : ElementStart} : isNgContainer op.tag = true →
      Alters .generateNgContainerOps (.elementStart op)
        (.containerStart { op.toElementBase with placeholder := op.placeholder })
  | containerEnd {op : EndOp} :
      Alters .generateNgContainerOps (.elementEnd op) (.containerEnd op)

/-- The create operations that a phase may insert. -/
def Inserts : Phase → CreateOp → Prop
  | .propagateI18nBlocks, op => op.bounds = true
  | .wrapI18nIcus, op => op.bounds = true
  | .createI18nContexts, op => op.context?.isSome = true
  | .saveAndRestoreView, op => ∃ decl, op = .variableDecl decl
  | _, _ => False

/-- What a phase may make of an update operation in its place. -/
inductive Narrows : Phase → UpdateOp → UpdateOp → Prop
  | keep {phase : Phase} {op : UpdateOp} : Narrows phase op op
  | style {op : Binding} {new : UpdateOp} : op.styleOp? = .ok (some new) →
      Narrows .specializeStyleBindings (.binding op) new
  | rest {op : Binding} {new : UpdateOp} : op.isNonBindable = false →
      op.narrowedOp .template = .ok new →
      Narrows .specializeBindings (.binding op) new
  | context {op : UpdateOp} (known : MessageContexts) :
      Narrows .createI18nContexts op (known.assignUpdate op)

def Drops : Phase → UpdateOp → Prop
  | .specializeBindings, .binding op => op.isNonBindable = true
  | _, _ => False

inductive Edits (phase : Phase) : List CreateOp → List CreateOp → Prop
  | nil : Edits phase [] []
  | alter {op op' : CreateOp} {ops ops' : List CreateOp} :
      phase.Alters op op' → Edits phase ops ops' → Edits phase (op :: ops) (op' :: ops')
  | insert {op : CreateOp} {ops ops' : List CreateOp} :
      phase.Inserts op → Edits phase ops ops' → Edits phase ops (op :: ops')

inductive Reduces (phase : Phase) : List UpdateOp → List UpdateOp → Prop
  | nil : Reduces phase [] []
  | narrow {op op' : UpdateOp} {ops ops' : List UpdateOp} :
      phase.Narrows op op' → Reduces phase ops ops' → Reduces phase (op :: ops) (op' :: ops')
  | drop {op : UpdateOp} {ops ops' : List UpdateOp} :
      phase.Drops op → Reduces phase ops ops' → Reduces phase (op :: ops) ops'

section Edits

variable {phase : Phase} {ops ops' ops'' more more' : List CreateOp}

/-- The phases that edit a view step by step. -/
def EditsInSteps (phase : Phase) : Prop :=
  phase = .propagateI18nBlocks ∨ phase = .createI18nContexts

theorem Alters.trans {op'' : CreateOp} (h : phase.Alters op op') (h' : phase.Alters op' op'')
    (hphase : phase.EditsInSteps) : phase.Alters op op'' := by
  rcases hphase with rfl | rfl <;> cases h <;> cases h' <;> constructor <;> trivial

inductive Inserted : Phase → CreateOp → Prop
  | start {phase : Phase} {op : I18nStart} : Inserted phase (.i18nStart op)
  | stop {phase : Phase} {op : EndOp} : Inserted phase (.i18nEnd op)
  | context {phase : Phase} {op : I18nContextOp} : Inserted phase (.i18nContext op)
  | declaration {op : VariableOp} : Inserted .saveAndRestoreView (.variableDecl op)

theorem Inserts.inserted (h : phase.Inserts op) : phase.Inserted op := by
  cases phase with
  | propagateI18nBlocks | wrapI18nIcus =>
    cases op <;> first | constructor | simp [Inserts, CreateOp.bounds] at h
  | createI18nContexts => cases op <;> first | constructor | simp [Inserts, CreateOp.context?] at h
  | saveAndRestoreView =>
    obtain ⟨decl, rfl⟩ := h
    exact .declaration
  | _ => exact h.elim

theorem Inserts.alters (h : phase.Inserts op) (h' : phase.Alters op op') : phase.Inserts op' := by
  cases h' with
  | keep => exact h
  | convert => rfl
  | number => rfl
  | restore => simp [Inserts] at h
  | _ => simp [Inserts, CreateOp.context?] at h

theorem Alters.alike (h : Phase.createI18nContexts.Alters op op') :
    op.Alike op' ∧ op'.xrefs = op.xrefs := by
  cases h with
  | keep _ => exact ⟨.refl _, rfl⟩
  | _ => exact ⟨CreateOp.alike_of_lists_eq_nil rfl rfl rfl rfl rfl rfl, rfl⟩

theorem edits_of_forall₂ (h : List.Forall₂ phase.Alters ops ops') : phase.Edits ops ops' := by
  induction h with
  | nil => exact .nil
  | cons halters _ ih => exact .alter halters ih

theorem Edits.refl (hphase : ∀ op, phase.Spares op) (ops : List CreateOp) : phase.Edits ops ops :=
  edits_of_forall₂ (List.forall₂_same.2 fun op _ => .keep (hphase op))

theorem edits_map {f : CreateOp → CreateOp} (h : ∀ op, phase.Alters op (f op))
    (ops : List CreateOp) : phase.Edits ops (ops.map f) := by
  apply edits_of_forall₂
  rw [List.forall₂_map_right_iff, List.forall₂_same]
  exact fun op _ => h op

theorem Edits.insertAll (h : phase.Edits ops ops') (hmore : ∀ op ∈ more, phase.Inserts op) :
    phase.Edits ops (more ++ ops') := by
  induction more with
  | nil => exact h
  | cons op more ih =>
    rw [List.forall_mem_cons] at hmore
    exact .insert hmore.1 (ih hmore.2)

theorem Edits.append (h : phase.Edits ops ops') (h' : phase.Edits more more') :
    phase.Edits (ops ++ more) (ops' ++ more') := by
  induction h with
  | nil => exact h'
  | alter halters _ ih => exact .alter halters ih
  | insert hinserts _ ih => exact .insert hinserts ih

theorem Edits.appendAll (h : phase.Edits ops ops') (hmore : ∀ op ∈ more, phase.Inserts op) :
    phase.Edits ops (ops' ++ more) := by
  have hrest : phase.Edits [] (more ++ []) := Edits.nil.insertAll hmore
  rw [List.append_nil] at hrest
  simpa using h.append hrest

theorem Edits.trans (h : phase.Edits ops ops') (h' : phase.Edits ops' ops'')
    (hphase : phase.EditsInSteps) : phase.Edits ops ops'' := by
  induction h' generalizing ops with
  | nil => exact h
  | insert hinserts _ ih => exact .insert hinserts (ih h)
  | alter halters _ ih =>
    cases h with
    | alter halters' hrest => exact .alter (halters'.trans halters hphase) (ih hrest)
    | insert hinserts hrest => exact .insert (hinserts.alters halters) (ih hrest)

/-- What no alteration and no insertion shows in stays the same. -/
theorem Edits.flatMap_eq {α : Type} {f : CreateOp → List α} (h : phase.Edits ops ops')
    (halters : ∀ op op', phase.Alters op op' → f op' = f op)
    (hinserts : ∀ op, phase.Inserts op → f op = []) : ops'.flatMap f = ops.flatMap f := by
  induction h with
  | nil => rfl
  | alter hop _ ih => rw [List.flatMap_cons, List.flatMap_cons, halters _ _ hop, ih]
  | insert hop _ ih => rw [List.flatMap_cons, hinserts _ hop, ih, List.nil_append]

theorem Edits.filterMap_eq {α : Type} {f : CreateOp → Option α} (h : phase.Edits ops ops')
    (halters : ∀ op op', phase.Alters op op' → f op' = f op)
    (hinserts : ∀ op, phase.Inserts op → f op = none) : ops'.filterMap f = ops.filterMap f := by
  rw [List.filterMap_eq_flatMap_toList, List.filterMap_eq_flatMap_toList]
  refine h.flatMap_eq ?_ ?_
  · intro op op' hop
    rw [halters op op' hop]
  · intro op hop
    rw [hinserts op hop, Option.toList_none]

/-- What alterations relate and no insertion shows in is related one by one. -/
theorem Edits.rel_filterMap {α : Type} {R : α → α → Prop} {f : CreateOp → Option α}
    (h : phase.Edits ops ops') (halters : ∀ op op', phase.Alters op op' → Option.Rel R (f op) (f op'))
    (hinserts : ∀ op, phase.Inserts op → f op = none) :
    List.Forall₂ R (ops.filterMap f) (ops'.filterMap f) := by
  induction h with
  | nil => exact .nil
  | @alter op op' _ _ hop _ ih =>
    have hrel := halters op op' hop
    rw [List.filterMap_cons, List.filterMap_cons]
    generalize f op = value, f op' = value' at hrel ⊢
    cases hrel with
    | none => exact ih
    | some hvalues => exact .cons hvalues ih
  | insert hop _ ih =>
    rw [List.filterMap_cons_none (hinserts _ hop)]
    exact ih

theorem Edits.exists_altered (h : phase.Edits ops ops') (hop : op ∈ ops) :
    ∃ op' ∈ ops', phase.Alters op op' := by
  induction h with
  | nil => simp at hop
  | alter halters _ ih =>
    rcases List.mem_cons.1 hop with rfl | hop
    · exact ⟨_, List.mem_cons_self, halters⟩
    · obtain ⟨op', hop', halters'⟩ := ih hop
      exact ⟨op', List.mem_cons_of_mem _ hop', halters'⟩
  | insert _ _ ih =>
    obtain ⟨op', hop', halters⟩ := ih hop
    exact ⟨op', List.mem_cons_of_mem _ hop', halters⟩

theorem Edits.origin (h : phase.Edits ops ops') (hop' : op' ∈ ops') :
    phase.Inserts op' ∨ ∃ op ∈ ops, phase.Alters op op' := by
  induction h with
  | nil => simp at hop'
  | alter halters _ ih =>
    rcases List.mem_cons.1 hop' with rfl | hop'
    · exact .inr ⟨_, List.mem_cons_self, halters⟩
    · refine (ih hop').imp_right ?_
      rintro ⟨op, hop, halters'⟩
      exact ⟨op, List.mem_cons_of_mem _ hop, halters'⟩
  | insert hinserts _ ih =>
    rcases List.mem_cons.1 hop' with rfl | hop'
    · exact .inl hinserts
    · exact ih hop'

end Edits

section Reduces

variable {phase : Phase} {ops ops' : List UpdateOp}

theorem Narrows.eq_or_sets {op op' : UpdateOp} (h : phase.Narrows op op') :
    op' = op ∨ ∃ target, op.sets? = some target ∧ op'.sets? = some target := by
  cases h with
  | keep => exact .inl rfl
  | style hnew => exact .inr ⟨_, rfl, (Binding.isStyle_of_styleOp? hnew).2.1⟩
  | rest _ hnew =>
    rcases Binding.eq_of_narrowedOp hnew with ⟨rfl | rfl, -⟩ | ⟨expr, rfl, -⟩ <;>
      exact .inr ⟨_, rfl, rfl⟩
  | context known =>
    cases op with
    | binding op | property op | attr op => exact .inr ⟨_, rfl, rfl⟩
    | _ => exact .inl rfl

theorem Drops.sets {op : UpdateOp} (h : phase.Drops op) : ∃ target, op.sets? = some target := by
  cases phase <;> cases op <;> first | exact ⟨_, rfl⟩ | exact h.elim

theorem reduces_map {f : UpdateOp → UpdateOp} (h : ∀ op, phase.Narrows op (f op))
    (ops : List UpdateOp) : phase.Reduces ops (ops.map f) := by
  induction ops with
  | nil => exact .nil
  | cons op ops ih => exact .narrow (h op) ih

theorem Reduces.refl (phase : Phase) (ops : List UpdateOp) : phase.Reduces ops ops := by
  have hreduces : phase.Reduces ops (ops.map id) := reduces_map (fun _ => .keep) ops
  rwa [List.map_id] at hreduces

theorem Reduces.flatMap_eq {α : Type} {f : UpdateOp → List α} (h : phase.Reduces ops ops')
    (hnarrows : ∀ op ∈ ops, ∀ op', phase.Narrows op op' → f op' = f op)
    (hdrops : ∀ op, phase.Drops op → f op = []) : ops'.flatMap f = ops.flatMap f := by
  induction h with
  | nil => rfl
  | narrow hop _ ih =>
    rw [List.forall_mem_cons] at hnarrows
    rw [List.flatMap_cons, List.flatMap_cons, hnarrows.1 _ hop, ih hnarrows.2]
  | drop hop _ ih =>
    rw [List.forall_mem_cons] at hnarrows
    rw [List.flatMap_cons, hdrops _ hop, ih hnarrows.2, List.nil_append]

theorem Reduces.filterMap_eq {α : Type} {f : UpdateOp → Option α} (h : phase.Reduces ops ops')
    (hsets : ∀ op target, op.sets? = some target → f op = none) :
    ops'.filterMap f = ops.filterMap f := by
  rw [List.filterMap_eq_flatMap_toList, List.filterMap_eq_flatMap_toList]
  refine h.flatMap_eq ?_ ?_
  · intro op _ op' hop
    rcases hop.eq_or_sets with rfl | ⟨target, hold, hnew⟩
    · rfl
    · rw [hsets op target hold, hsets op' target hnew]
  · intro op hop
    obtain ⟨target, htarget⟩ := hop.sets
    rw [hsets op target htarget, Option.toList_none]

theorem Reduces.origin (h : phase.Reduces ops ops') {op' : UpdateOp} (hop' : op' ∈ ops') :
    ∃ op ∈ ops, phase.Narrows op op' := by
  induction h with
  | nil => simp at hop'
  | narrow hnarrows _ ih =>
    rcases List.mem_cons.1 hop' with rfl | hop'
    · exact ⟨_, List.mem_cons_self, hnarrows⟩
    · obtain ⟨op, hop, hnarrows'⟩ := ih hop'
      exact ⟨op, List.mem_cons_of_mem _ hop, hnarrows'⟩
  | drop _ _ ih =>
    obtain ⟨op, hop, hnarrows⟩ := ih hop'
    exact ⟨op, List.mem_cons_of_mem _ hop, hnarrows⟩

end Reduces

end Phase

/-- Two views that differ at most in their operations. -/
structure View.SameFrame (view view' : View) : Prop where
  xref : view'.xref = view.xref
  parent : view'.parent = view.parent
  contextVariables : view'.contextVariables = view.contextVariables
  aliases : view'.aliases = view.aliases
  createId : view'.create.id = view.create.id
  updateId : view'.update.id = view.update.id

theorem View.SameFrame.refl (view : View) : view.SameFrame view :=
  ⟨rfl, rfl, rfl, rfl, rfl, rfl⟩

theorem View.SameFrame.trans {view view' view'' : View} (h : view.SameFrame view')
    (h' : view'.SameFrame view'') : view.SameFrame view'' :=
  ⟨h'.xref.trans h.xref, h'.parent.trans h.parent, h'.contextVariables.trans h.contextVariables,
    h'.aliases.trans h.aliases, h'.createId.trans h.createId, h'.updateId.trans h.updateId⟩

theorem View.sameFrame_of_create {view : View} {create : OpList CreateOp}
    (h : create.id = view.create.id) : view.SameFrame { view with create } :=
  ⟨rfl, rfl, rfl, rfl, h, rfl⟩

structure View.EditedBy (phase : Phase) (view view' : View) : Prop
    extends View.SameFrame view view' where
  create : phase.Edits view.create.toList view'.create.toList
  update : phase.Reduces view.update.toList view'.update.toList

section View

variable {phase : Phase} {view view' view'' : View}

theorem View.EditedBy.refl (hphase : ∀ op, phase.Spares op) (view : View) :
    view.EditedBy phase view :=
  ⟨.refl view, .refl hphase _, .refl phase _⟩

theorem View.EditedBy.trans (h : view.EditedBy phase view') (h' : view'.EditedBy phase view'')
    (hphase : phase.EditsInSteps) (hupdate : view''.update = view'.update) :
    view.EditedBy phase view'' :=
  ⟨h.toSameFrame.trans h'.toSameFrame, h.create.trans h'.create hphase, hupdate ▸ h.update⟩

end View

end TemplateLowering
