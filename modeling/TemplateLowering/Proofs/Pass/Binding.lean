import TemplateLowering.Pass.Binding
import TemplateLowering.Proofs.Job.Units
import TemplateLowering.Proofs.OpList.Image

/-!
# Narrowed bindings in outlines

Narrowing the bindings of styles and classes fails exactly when a class is bound to an
interpolation, and leaves the other bindings.  Narrowing the rest fails exactly when a two-way
property is bound to an interpolation or `ngNonBindable` stands on something that is no element, and
leaves no binding.  Together the two passes make of a binding what a table says.
-/

namespace TemplateLowering

/-! ## The table -/

def Binding.narrowedProperty (job : JobKind) (op : Binding) : UpdateOp :=
  if job = .host then
    .domProperty
      { name := op.name, value := op.value, kind := op.kind, i18nContext := op.i18nContext,
        security := op.security, span := op.span }
  else
    .property
      { target := op.target, name := op.name, value := op.value, kind := op.kind,
        security := op.security, isStructural := op.isStructural,
        templateKind := op.templateKind, i18nContext := op.i18nContext, message := op.message,
        span := op.span }

/-- What a binding becomes; the bindings that fit in no row cannot be narrowed. -/
def Binding.narrowed? (job : JobKind) (op : Binding) : Option UpdateOp :=
  match op.kind, op.value with
  | .className, .expression expr =>
      some (.classProp { target := op.target, name := op.name, expr, span := op.span })
  | .styleProperty, value =>
      some (.styleProp
        { target := op.target, name := op.name, value, unit := op.unit, span := op.span })
  | .property, value | .template, value =>
      if op.name = "style" then
        some (.styleMap { target := op.target, value, span := op.span })
      else if op.name = "class" then
        some (.classMap { target := op.target, value, span := op.span })
      else
        some (op.narrowedProperty job)
  | .animation, _ => some (op.narrowedProperty job)
  | .twoWayProperty, .expression expr =>
      some (.twoWayProperty
        { target := op.target, name := op.name, expr, security := op.security,
          isStructural := op.isStructural, templateKind := op.templateKind,
          i18nContext := op.i18nContext, message := op.message, span := op.span })
  | .attr, value =>
      if op.name = "ngNonBindable" then
        none
      else
        some (.attr
          { target := op.target, namespaceKey := (TagName.splitLenient op.name).key,
            name := (TagName.splitLenient op.name).name, value, security := op.security,
            isText := op.isText, isStructural := op.isStructural,
            templateKind := op.templateKind, i18nContext := op.i18nContext,
            message := op.message, span := op.span })
  | _, _ => some (.binding op)

/-! ## One binding -/

def BindingShape.isClassInterpolation (shape : BindingShape) : Bool :=
  shape.kind = .className && shape.isInterpolation

def BindingShape.isStyle (shape : BindingShape) : Bool :=
  match shape.kind with
  | .className | .styleProperty => true
  | .property | .template => shape.name = "style" || shape.name = "class"
  | .attr | .i18n | .animation | .twoWayProperty => false

def BindingShape.isTwoWayInterpolation (shape : BindingShape) : Bool :=
  shape.kind = .twoWayProperty && shape.isInterpolation

/-- The attribute that keeps the contents of its element from being bound. -/
def BindingShape.isNonBindable (shape : BindingShape) : Bool :=
  shape.kind = .attr && shape.name == nonBindableName

structure Binding.Becomes (op : Binding) (new : UpdateOp) : Prop where
  notEnd : ListOp.isListEnd new = false
  noBareSteps : new.bareSteps? = none
  bindings : new.bindings = []
  xrefs : new.xrefs = (UpdateOp.binding op).xrefs

section Cases

variable {op : Binding} {kind : JobKind}

theorem Binding.styleOp?_cases (op : Binding) :
    op.shape.isClassInterpolation = true ∧ op.styleOp? = .error .classInterpolation ∨
    op.shape.isClassInterpolation = false ∧ op.shape.isStyle = false ∧ op.styleOp? = .ok none ∨
    op.shape.isClassInterpolation = false ∧ op.shape.isStyle = true ∧
      ∃ new, op.styleOp? = .ok (some new) ∧ op.Becomes new ∧
        ∀ kind, op.narrowed? kind = some new := by
  obtain ⟨target, kind, name, value, unit, security, isText, isStructural, templateKind,
    i18nContext, message, span⟩ := op
  cases kind with
  | className =>
    cases value with
    | expression expr =>
      exact .inr (.inr ⟨rfl, rfl, _, rfl, ⟨rfl, rfl, rfl, rfl⟩, fun _ => rfl⟩)
    | interpolation value => exact .inl ⟨rfl, rfl⟩
  | styleProperty => exact .inr (.inr ⟨rfl, rfl, _, rfl, ⟨rfl, rfl, rfl, rfl⟩, fun _ => rfl⟩)
  | property | template =>
    by_cases hstyle : name = "style"
    · subst hstyle
      exact .inr (.inr ⟨rfl, rfl, _, rfl, ⟨rfl, rfl, rfl, rfl⟩, fun _ => rfl⟩)
    by_cases hclass : name = "class"
    · subst hclass
      exact .inr (.inr ⟨rfl, rfl, _, rfl, ⟨rfl, rfl, rfl, rfl⟩, fun _ => rfl⟩)
    · refine .inr (.inl ⟨rfl, by simp [shape, BindingShape.isStyle, hstyle, hclass], ?_⟩)
      simp [styleOp?, hstyle, hclass, pure, Except.pure]
  | _ => exact .inr (.inl ⟨rfl, rfl, rfl⟩)

theorem Binding.narrowedOp_cases (op : Binding) (kind : JobKind) :
    op.shape.isTwoWayInterpolation = true ∧
      op.narrowedOp kind = .error (.twoWayInterpolation op.name) ∨
    (op.kind = .i18n ∨ op.shape.isStyle = true) ∧
      op.narrowedOp kind = .error (.unhandledBinding op.kind) ∨
    op.shape.isTwoWayInterpolation = false ∧ ∃ new, op.narrowedOp kind = .ok new ∧
      op.Becomes new ∧
      (op.shape.isStyle = false → op.isNonBindable = false → op.narrowed? kind = some new) := by
  obtain ⟨target, sort, name, value, unit, security, isText, isStructural, templateKind,
    i18nContext, message, span⟩ := op
  cases sort with
  | i18n => exact .inr (.inl ⟨.inl rfl, rfl⟩)
  | className | styleProperty => exact .inr (.inl ⟨.inr rfl, rfl⟩)
  | twoWayProperty =>
    cases value with
    | expression expr =>
      exact .inr (.inr ⟨rfl, _, rfl, ⟨rfl, rfl, rfl, rfl⟩, fun _ _ => rfl⟩)
    | interpolation value => exact .inl ⟨rfl, rfl⟩
  | attr =>
    refine .inr (.inr ⟨rfl, _, rfl, ⟨rfl, rfl, rfl, rfl⟩, fun _ hbindable => ?_⟩)
    have hname : name ≠ "ngNonBindable" := by
      simpa [isNonBindable, nonBindableName] using hbindable
    simp [narrowed?, hname, attributeOp]
  | animation => cases kind <;> exact .inr (.inr ⟨rfl, _, rfl, ⟨rfl, rfl, rfl, rfl⟩, fun _ _ => rfl⟩)
  | property | template =>
    cases kind <;> refine .inr (.inr ⟨rfl, _, rfl, ⟨rfl, rfl, rfl, rfl⟩, fun hstyle _ => ?_⟩) <;>
    · have hnames : (decide (name = "style") || decide (name = "class")) = false := hstyle
      simp only [Bool.or_eq_false_iff, decide_eq_false_iff_not] at hnames
      simp only [narrowed?, hnames, if_false]
      rfl

theorem narrowStyle_binding_eq_ok {change : OpList.Change UpdateOp} :
    narrowStyle (.binding op) = .ok change ↔ (op.styleOp? = .ok none ∧ change = .keep) ∨
      ∃ new, op.styleOp? = .ok (some new) ∧ change = .replace new := by
  rcases hrun : op.styleOp? with e | _ | new <;>
    simp [narrowStyle, hrun, bind, Except.bind, pure, Except.pure, eq_comm]

theorem narrow_binding_eq_ok {change : OpList.Change UpdateOp} :
    narrow kind (.binding op) = .ok change ↔ (op.isNonBindable = true ∧ change = .drop) ∨
      op.isNonBindable = false ∧ ∃ new, op.narrowedOp kind = .ok new ∧ change = .replace new := by
  cases hbindable : op.isNonBindable <;> rcases hrun : op.narrowedOp kind with e | new <;>
    simp [narrow, hbindable, hrun, bind, Except.bind, pure, Except.pure, eq_comm]

theorem Binding.becomes_of_styleOp? {new : UpdateOp} (h : op.styleOp? = .ok (some new)) :
    op.Becomes new ∧ op.shape.isStyle = true ∧ ∀ kind, op.narrowed? kind = some new := by
  rcases op.styleOp?_cases with ⟨-, herror⟩ | ⟨-, -, hnone⟩ | ⟨-, hstyle, other, hother, hspec⟩
  · simp [herror] at h
  · simp [hnone] at h
  · obtain rfl := Option.some.inj (Except.ok.inj (hother.symm.trans h))
    exact ⟨hspec.1, hstyle, hspec.2⟩

theorem Binding.becomes_of_narrowedOp {new : UpdateOp} (h : op.narrowedOp kind = .ok new) :
    op.Becomes new ∧
      (op.shape.isStyle = false → op.isNonBindable = false → op.narrowed? kind = some new) := by
  rcases op.narrowedOp_cases kind with ⟨-, herror⟩ | ⟨-, herror⟩ | ⟨-, other, hother, hspec⟩
  · simp [herror] at h
  · simp [herror] at h
  · obtain rfl := Except.ok.inj (hother.symm.trans h)
    exact hspec

theorem narrowStyle_replace {op new : UpdateOp} (h : narrowStyle op = .ok (.replace new)) :
    ListOp.isListEnd new = false := by
  cases op with
  | binding op =>
    rcases narrowStyle_binding_eq_ok.1 h with ⟨-, hkeep⟩ | ⟨new', hrun, hreplace⟩
    · simp at hkeep
    · obtain rfl := OpList.Change.replace.inj hreplace
      exact (Binding.becomes_of_styleOp? hrun).1.notEnd
  | _ => simp [narrowStyle, pure, Except.pure] at h

theorem narrow_replace {op new : UpdateOp} (h : narrow kind op = .ok (.replace new)) :
    ListOp.isListEnd new = false := by
  cases op with
  | binding op =>
    rcases narrow_binding_eq_ok.1 h with ⟨-, hdrop⟩ | ⟨-, new', hrun, hreplace⟩
    · simp at hdrop
    · obtain rfl := OpList.Change.replace.inj hreplace
      exact (Binding.becomes_of_narrowedOp hrun).1.notEnd
  | _ => simp [narrow, pure, Except.pure] at h

end Cases

/-! ## Walking along the update operations -/

/-- What is left of an operation by a pass that narrows all bindings except those that it keeps. -/
structure UpdateOp.Narrows (keep : BindingShape → Bool) (op : UpdateOp) (part : List UpdateOp) :
    Prop where
  bindings : part.flatMap UpdateOp.bindings = op.bindings.filter keep
  sound : ∀ op' ∈ part, op'.Sound
  xrefs : ∀ x, (part.flatMap UpdateOp.xrefs).count x ≤ op.xrefs.count x

theorem SoundOps.keeps_ends {ops : OpList UpdateOp} (h : SoundOps ops)
    (f : UpdateOp → Except Fault (OpList.Change UpdateOp)) :
    ∀ op ∈ ops.toList, ListOp.isListEnd op = true → f op = .ok .keep := by
  intro op hop hend
  simp [(h.sound op hop).notEnd] at hend

section Walk

variable {view : View} {keep : BindingShape → Bool}
variable {f : UpdateOp → Except Fault (OpList.Change UpdateOp)}

theorem narrows_flatten {ops : List UpdateOp} {parts : List (List UpdateOp)}
    (h : List.Forall₂ (UpdateOp.Narrows keep) ops parts) :
    parts.flatten.flatMap UpdateOp.bindings = (ops.flatMap UpdateOp.bindings).filter keep ∧
      (∀ op' ∈ parts.flatten, op'.Sound) ∧
      ∀ x, (parts.flatten.flatMap UpdateOp.xrefs).count x ≤
        (ops.flatMap UpdateOp.xrefs).count x := by
  induction h with
  | nil => simp
  | cons hpart _ ih =>
    obtain ⟨hbindings, hsound, hxrefs⟩ := ih
    refine ⟨?_, ?_, ?_⟩
    · simp only [List.flatten_cons, List.flatMap_append, List.flatMap_cons, List.filter_append,
        hpart.bindings, hbindings]
    · intro op' hop'
      rcases List.mem_append.1 (List.flatten_cons ▸ hop') with hop' | hop'
      · exact hpart.sound op' hop'
      · exact hsound op' hop'
    · intro x
      have hhead := hpart.xrefs x
      have htail := hxrefs x
      simp only [List.flatten_cons, List.flatMap_append, List.flatMap_cons, List.count_append]
      omega

/-- A pass that narrows the bindings of a view except those that it keeps, and that fails on the
faulty ones. -/
structure View.Narrowable (view : View) (f : UpdateOp → Except Fault (OpList.Change UpdateOp))
    (keep faulty : BindingShape → Bool) (F : Fault → Prop) : Prop where
  notEnd : ∀ op new, f op = .ok (.replace new) → ListOp.isListEnd new = false
  narrows : ∀ op ∈ view.update.toList, (¬∃ shape ∈ op.bindings, faulty shape = true) →
    ∃ part, OpList.changed f op = .ok part ∧ op.Narrows keep part
  fails : ∀ op ∈ view.update.toList, (∃ shape ∈ op.bindings, faulty shape = true) →
    ∃ e, F e ∧ OpList.changed f op = .error e

theorem View.Narrowable.turns {faulty : BindingShape → Bool} {F : Fault → Prop}
    (h : view.Narrowable f keep faulty F) (hview : view.Sound)
    (hok : ¬∃ shape ∈ view.bindings, faulty shape = true) (n : Nat) :
    ∃ update, view.changeUpdate f = .ok { view with update } ∧
      view.Turns (List.filter keep) n n { view with update } := by
  have hops : ∀ op ∈ view.update.toList, ¬∃ shape ∈ op.bindings, faulty shape = true := by
    rintro op hop ⟨shape, hmem, hfaulty⟩
    exact hok ⟨shape, List.mem_flatMap.2 ⟨op, hop, hmem⟩, hfaulty⟩
  obtain ⟨parts, hparts, hnarrows⟩ :=
    except_mapM_total fun op hop => h.narrows op hop (hops op hop)
  obtain ⟨hbindings, hsound, hxrefs⟩ := narrows_flatten hnarrows
  have hchange := hview.update.linked.lists.changeAll Fault.list (hview.update.keeps_ends f) h.notEnd
  rw [hparts] at hchange
  obtain ⟨update, hrun, hlists, -⟩ := hchange
  rw [← hlists.toList] at hbindings hsound hxrefs
  refine ⟨update, by rw [View.changeUpdate, hrun]; rfl, ?_,
    ⟨rfl, fun h => h, fun _ h => h, fun _ h => h, hbindings⟩,
    ⟨hview.create, hview.createOps, hlists.linked, hsound⟩, fun _ h => h, fun _ h => .inl h⟩
  refine (Grows.refl n view.xrefs).subperm (fun _ => Nat.le_refl _) ?_
  intro x
  have hx := hxrefs x
  simp only [View.xrefs, List.count_cons, List.count_append]
  omega

theorem View.Narrowable.error {faulty : BindingShape → Bool} {F : Fault → Prop}
    (h : view.Narrowable f keep faulty F) (hview : view.Sound)
    (hfaulty : ∃ shape ∈ view.bindings, faulty shape = true) :
    ∃ e, F e ∧ view.changeUpdate f = .error e := by
  obtain ⟨shape, hmem, hfaulty⟩ := hfaulty
  obtain ⟨op, hop, hmem⟩ := List.mem_flatMap.1 hmem
  obtain ⟨e, he, herror⟩ := except_mapM_fails h.fails
    (fun op hop hok => (h.narrows op hop hok).imp fun _ => And.left) ⟨op, hop, shape, hmem, hfaulty⟩
  have hchange := hview.update.linked.lists.changeAll Fault.list (hview.update.keeps_ends f) h.notEnd
  rw [herror] at hchange
  refine ⟨e, he, ?_⟩
  rw [View.changeUpdate, hchange]
  rfl

theorem View.lists_of_changeUpdate {view' : View} (hlinked : view.update.Linked)
    (hends : ∀ op ∈ view.update.toList, ListOp.isListEnd op = true → f op = .ok .keep)
    (hnew : ∀ op new, f op = .ok (.replace new) → ListOp.isListEnd new = false)
    (h : view.changeUpdate f = .ok view') :
    ∃ update parts, view' = { view with update } ∧ update.id = view.update.id ∧
      view.update.toList.mapM (OpList.changed f) = .ok parts ∧ update.Lists parts.flatten := by
  have hchange := hlinked.lists.changeAll Fault.list hends hnew
  unfold View.changeUpdate at h
  cases hparts : view.update.toList.mapM (OpList.changed f) with
  | error e =>
    rw [hparts] at hchange
    simp [hchange, bind, Except.bind] at h
  | ok parts =>
    rw [hparts] at hchange
    obtain ⟨update, hrun, hlists, hid⟩ := hchange
    simp only [hrun, bind, Except.bind, pure, Except.pure, Except.ok.injEq] at h
    exact ⟨update, parts, h.symm, hid, rfl, hlists⟩

theorem UpdateOp.narrows_keep {op : UpdateOp} (hop : op.Sound)
    (hkeep : ∀ shape ∈ op.bindings, keep shape = true) : op.Narrows keep [op] := by
  refine ⟨?_, by simpa using hop, by simp⟩
  rw [List.filter_eq_self.2 hkeep]
  simp

theorem Binding.Becomes.narrows {op : Binding} {new : UpdateOp} (h : op.Becomes new)
    (hkeep : keep op.shape = false) : (UpdateOp.binding op).Narrows keep [new] := by
  have hold : (UpdateOp.binding op).bindings = [op.shape] := rfl
  refine ⟨by simp [hold, hkeep, h.bindings], ?_, by simp [h.xrefs]⟩
  simpa using ⟨h.notEnd, h.noBareSteps, by simp [h.bindings]⟩

end Walk

theorem changed_eq_of_ok {α ε : Type} {f : α → Except ε (OpList.Change α)} {op : α}
    {change : OpList.Change α} (h : f op = .ok change) :
    OpList.changed f op = .ok (change.apply op) := by
  rw [OpList.changed, h]
  rfl

theorem changed_eq_of_error {α ε : Type} {f : α → Except ε (OpList.Change α)} {op : α} {e : ε}
    (h : f op = .error e) : OpList.changed f op = .error e := by
  rw [OpList.changed, h]
  rfl

section Passes

variable {view : View} {job : Job}

theorem View.Sound.narrowable_styles (hview : view.Sound) :
    view.Narrowable narrowStyle (fun shape => !shape.isStyle) BindingShape.isClassInterpolation
      (· = .classInterpolation) := by
  refine ⟨fun _ _ => narrowStyle_replace, ?_, ?_⟩
  · intro op hop hclass
    have hsound := hview.update.sound op hop
    cases op with
    | binding op =>
      rcases op.styleOp?_cases with ⟨hfaulty, -⟩ | ⟨-, hstyle, hrun⟩ |
        ⟨-, hstyle, new, hrun, hnew, -⟩
      · exact absurd ⟨op.shape, by simp [UpdateOp.bindings], hfaulty⟩ hclass
      · have hchange := narrowStyle_binding_eq_ok.2 (.inl ⟨hrun, rfl⟩)
        refine ⟨_, changed_eq_of_ok hchange, UpdateOp.narrows_keep hsound ?_⟩
        simp [UpdateOp.bindings, hstyle]
      · have hchange := narrowStyle_binding_eq_ok.2 (.inr ⟨new, hrun, rfl⟩)
        exact ⟨_, changed_eq_of_ok hchange, hnew.narrows (by simp [hstyle])⟩
    | _ =>
      exact ⟨_, changed_eq_of_ok rfl, UpdateOp.narrows_keep hsound (by simp [UpdateOp.bindings])⟩
  · intro op _ hclass
    cases op with
    | binding op =>
      rcases op.styleOp?_cases with ⟨-, hrun⟩ | ⟨hok, -⟩ | ⟨hok, -⟩
      · exact ⟨_, rfl, changed_eq_of_error (by simp only [narrowStyle, hrun, bind, Except.bind])⟩
      all_goals simp [UpdateOp.bindings, hok] at hclass
    | _ => simp [UpdateOp.bindings] at hclass

theorem View.Sound.narrowable_rest (hview : view.Sound)
    (hstyle : ∀ shape ∈ view.bindings, shape.isStyle = false) (kind : JobKind) :
    view.Narrowable (narrow kind) (fun _ => false) BindingShape.isTwoWayInterpolation
      (fun e => ∃ name, e = .twoWayInterpolation name) := by
  refine ⟨fun _ _ => narrow_replace, ?_, ?_⟩
  · intro op hop htwoWay
    have hsound := hview.update.sound op hop
    cases op with
    | binding op =>
      have hshape : op.shape ∈ (UpdateOp.binding op).bindings := by simp [UpdateOp.bindings]
      rcases op.narrowedOp_cases kind with ⟨hfaulty, -⟩ | ⟨hi18n | hclass, -⟩ |
        ⟨-, new, hrun, hnew, -⟩
      · exact absurd ⟨op.shape, hshape, hfaulty⟩ htwoWay
      · exact absurd hi18n (hsound.kind op.shape hshape)
      · simp [hstyle op.shape (List.mem_flatMap.2 ⟨_, hop, hshape⟩)] at hclass
      · cases hbindable : op.isNonBindable with
        | true =>
          have hchange : narrow kind (.binding op) = .ok .drop :=
            narrow_binding_eq_ok.2 (.inl ⟨hbindable, rfl⟩)
          refine ⟨_, changed_eq_of_ok hchange, ?_, ?_, ?_⟩ <;> simp [OpList.Change.apply]
        | false =>
          have hchange := narrow_binding_eq_ok.2 (.inr ⟨hbindable, new, hrun, rfl⟩)
          exact ⟨_, changed_eq_of_ok hchange, hnew.narrows rfl⟩
    | _ =>
      exact ⟨_, changed_eq_of_ok rfl, UpdateOp.narrows_keep hsound (by simp [UpdateOp.bindings])⟩
  · intro op hop htwoWay
    cases op with
    | binding op =>
      have hfaulty : op.shape.isTwoWayInterpolation = true := by
        simpa [UpdateOp.bindings] using htwoWay
      have hkind : op.kind = .twoWayProperty := by
        simp only [BindingShape.isTwoWayInterpolation, Bool.and_eq_true, decide_eq_true_eq] at hfaulty
        exact hfaulty.1
      rcases op.narrowedOp_cases kind with ⟨-, hrun⟩ | ⟨hi18n | hclass, -⟩ | ⟨hok, -⟩
      · refine ⟨_, ⟨op.name, rfl⟩, changed_eq_of_error ?_⟩
        simp only [narrow, Binding.isNonBindable, hkind, hrun, bind, Except.bind]
        rfl
      · simp [hkind] at hi18n
      · simp [BindingShape.isStyle, Binding.shape, hkind] at hclass
      · simp [hok] at hfaulty
    | _ => simp [UpdateOp.bindings] at htwoWay

theorem Job.specializeStyleBindings_turns (hsound : job.Sound) (hrooted : job.Rooted)
    (h : ¬∃ view ∈ job.units, ∃ shape ∈ view.bindings, shape.isClassInterpolation = true) :
    ∃ job', job.specializeStyleBindings = .ok job' ∧
      job.Turns (List.filter fun shape => !shape.isStyle) job' := by
  refine turns_mapUnitsM hrooted fun view hview => ?_
  obtain ⟨update, hrun, hturns⟩ := (hsound view hview).narrowable_styles.turns (hsound view hview)
    (fun hclass => h ⟨view, hview, hclass⟩) job.ids.nextXref
  exact ⟨_, hrun, hturns⟩

theorem Job.specializeStyleBindings_fails (hsound : job.Sound)
    (h : ∃ view ∈ job.units, ∃ shape ∈ view.bindings, shape.isClassInterpolation = true) :
    job.specializeStyleBindings = .error .classInterpolation := by
  obtain ⟨e, rfl, herror⟩ := mapUnitsM_fails (F := (· = Fault.classInterpolation))
    (fun view hview hclass => (hsound view hview).narrowable_styles.error (hsound view hview) hclass)
    (fun view hview hclass => by
      obtain ⟨update, hrun, -⟩ :=
        (hsound view hview).narrowable_styles.turns (hsound view hview) hclass 0
      exact ⟨_, hrun⟩)
    h
  exact herror

end Passes

/-! ## Elements that are not bound -/

theorem CreateOp.alike_markNonBindable (op : CreateOp) :
    op.Alike op.markNonBindable ∧ op.markNonBindable.xrefs = op.xrefs := by
  cases op with
  | repeaterCreate op => exact ⟨⟨rfl, rfl, rfl, rfl, fun h => ⟨rfl, h.lists⟩⟩, rfl⟩
  | elementStart op => exact ⟨CreateOp.alike_of_lists_eq_nil rfl rfl rfl rfl rfl rfl, rfl⟩
  | containerStart op => exact ⟨CreateOp.alike_of_lists_eq_nil rfl rfl rfl rfl rfl rfl, rfl⟩
  | template op => exact ⟨CreateOp.alike_of_lists_eq_nil rfl rfl rfl rfl rfl rfl, rfl⟩
  | conditionalCreate op => exact ⟨CreateOp.alike_of_lists_eq_nil rfl rfl rfl rfl rfl rfl, rfl⟩
  | conditionalBranchCreate op =>
    exact ⟨CreateOp.alike_of_lists_eq_nil rfl rfl rfl rfl rfl rfl, rfl⟩
  | _ => exact ⟨.refl _, rfl⟩

theorem CreateOp.element_mem_features {op : CreateOp} {x : Xref} :
    .element x ∈ op.features ↔ ∃ base, op.base? = some base ∧ base.xref = x := by
  cases op with
  | repeaterCreate op => cases op.emptyView <;> simp [features, base?, eq_comm]
  | projection op => cases hview : op.fallbackView <;> simp [features, base?, hview]
  | _ => simp [features, base?, eq_comm]

def CreateOp.bears (target : Xref) (op : CreateOp) : Bool :=
  op.base?.any (·.xref = target)

/-- The operations, the first one for each of some elements marked. -/
def markedFirst (targets : List Xref) (ops : List CreateOp) : List CreateOp :=
  ops.mapIdx fun i op =>
    if ∃ target ∈ targets, ops.findIdx? (CreateOp.bears target) = some i then op.markNonBindable
    else op

section Marks

variable {view : View} {targets remaining : List Xref} {ops ops' : List CreateOp}

theorem CreateOp.bears_iff {op : CreateOp} {target : Xref} :
    op.bears target = true ↔ .element target ∈ op.features := by
  simp [bears, element_mem_features, Option.any_eq_true]

theorem View.exists_bears_iff {target : Xref} :
    (∃ op ∈ view.create.toList, op.bears target = true) ↔ .element target ∈ view.features := by
  simp only [View.features, List.mem_flatMap, CreateOp.bears_iff]

theorem markedFirst_cons (op : CreateOp) :
    markedFirst targets (op :: ops) =
      (if ∃ target ∈ targets, op.bears target = true then op.markNonBindable else op) ::
        markedFirst (targets.filter fun target => !op.bears target) ops := by
  have hfirst : (∃ target ∈ targets, (op :: ops).findIdx? (CreateOp.bears target) = some 0) ↔
      ∃ target ∈ targets, op.bears target = true := by
    simp only [List.findIdx?_cons]
    refine exists_congr fun target => and_congr_right fun _ => ?_
    cases op.bears target <;> simp
  have hrest : ∀ i, (∃ target ∈ targets,
        (op :: ops).findIdx? (CreateOp.bears target) = some (i + 1)) ↔
      ∃ target ∈ targets.filter (fun target => !op.bears target),
        ops.findIdx? (CreateOp.bears target) = some i := by
    intro i
    simp only [List.findIdx?_cons, List.mem_filter, and_assoc]
    refine exists_congr fun target => and_congr_right fun _ => ?_
    cases op.bears target <;> simp
  unfold markedFirst
  simp only [List.mapIdx_cons, hfirst, hrest]

theorem forall₂_markedFirst (targets : List Xref) (ops : List CreateOp) :
    List.Forall₂ (fun op op' => op' = op ∨ op' = op.markNonBindable) ops
      (markedFirst targets ops) := by
  induction ops generalizing targets with
  | nil => exact .nil
  | cons op ops ih =>
    rw [markedFirst_cons]
    refine .cons ?_ (ih _)
    split
    · exact .inr rfl
    · exact .inl rfl

theorem yields_markNonBindable (op : CreateOp) (targets : List Xref) :
    Yields (markNonBindable op) targets
      (if ∃ target ∈ targets, op.bears target = true then op.markNonBindable else op)
      (targets.filter fun target => !op.bears target) := by
  refine yields_stateM.2 ?_
  cases hbase : op.base? with
  | none =>
    have hbears : ∀ target, op.bears target = false := by simp [CreateOp.bears, hbase]
    simp [markNonBindable, hbase, hbears]
    rfl
  | some base =>
    have hbears : ∀ target, op.bears target = decide (base.xref = target) := by
      simp [CreateOp.bears, hbase]
    by_cases hmem : base.xref ∈ targets
    · simp [markNonBindable, hbase, hbears, hmem, eq_comm]
      rfl
    · have hfilter : targets.filter (fun target => !decide (base.xref = target)) = targets := by
        refine List.filter_eq_self.2 fun target htarget => ?_
        simpa using (ne_of_mem_of_not_mem htarget hmem).symm
      simp [markNonBindable, hbase, hbears, hmem, hfilter]
      rfl

theorem markedFirst_of_threads
    (h : Threads (fun s op op' t => Yields (markNonBindable op) s op' t) targets ops ops'
      remaining) :
    ops' = markedFirst targets ops ∧
      remaining = targets.filter fun target => !ops.any (CreateOp.bears target) := by
  induction h with
  | nil => simp [markedFirst]
  | cons hop _ ih =>
    obtain ⟨rfl, rfl⟩ := hop.unique (yields_markNonBindable _ _)
    obtain ⟨rfl, rfl⟩ := ih
    refine ⟨(markedFirst_cons _).symm, ?_⟩
    rw [List.filter_filter]
    apply List.filter_congr
    intro target _
    simp [Bool.and_comm]

theorem View.markNonBindable_eq (hlinked : view.create.Linked) (targets : List Xref) :
    ∃ create, create.id = view.create.id ∧
      create.Lists (markedFirst targets view.create.toList) ∧
      view.markNonBindable targets =
        if ∀ target ∈ targets, .element target ∈ view.features then .ok { view with create }
        else .error .nonBindableTarget := by
  obtain ⟨create, remaining, ops, hyields, hlists, hthreads⟩ := hlinked.lists.total_mapM
    (fun op _ s => ⟨_, _, yields_markNonBindable op s, yields_markNonBindable op s⟩) targets
  obtain ⟨rfl, hremaining⟩ := markedFirst_of_threads hthreads
  have hrun : (view.create.mapM TemplateLowering.markNonBindable).run targets =
      (create, remaining) := yields_stateM.1 hyields
  have hempty : remaining.isEmpty = true ↔
      ∀ target ∈ targets, .element target ∈ view.features := by
    simp [hremaining, ← View.exists_bears_iff]
  refine ⟨create, hlinked.id_of_mapM hyields, hlists, ?_⟩
  simp only [View.markNonBindable, hrun, hempty]

theorem View.marked_of_markNonBindable {view' : View} (hlinked : view.create.Linked)
    (h : view.markNonBindable targets = .ok view') :
    ∃ create, view' = { view with create } ∧ create.id = view.create.id ∧
      create.Lists (markedFirst targets view.create.toList) ∧
      ∀ target ∈ targets, ∃ op ∈ view.create.toList, op.bears target = true := by
  obtain ⟨create, hid, hlists, hmark⟩ := markNonBindable_eq hlinked targets
  rw [hmark] at h
  split at h
  case isTrue htargets =>
    exact ⟨create, (Except.ok.inj h).symm, hid, hlists, fun target htarget =>
      exists_bears_iff.2 (htargets target htarget)⟩
  case isFalse => simp at h

end Marks

def View.narrowBindings (job : JobKind) (view : View) : Except Fault View := do
  let targets := nonBindableTargets view.update
  let view ← view.changeUpdate (narrow job)
  view.markNonBindable targets

section Pass

variable {view : View} {job : Job}

theorem mem_nonBindableTargets {x : Xref} :
    x ∈ nonBindableTargets view.update ↔
      ∃ shape ∈ view.bindings, shape.isNonBindable = true ∧ shape.target = x := by
  simp only [nonBindableTargets, View.bindings, List.mem_filterMap, List.mem_flatMap]
  constructor
  · intro h
    obtain ⟨op, hop, htarget⟩ := h
    cases op with
    | binding op =>
      simp only [Option.ite_none_right_eq_some, Option.some.injEq] at htarget
      exact ⟨op.shape, ⟨_, hop, by simp [UpdateOp.bindings]⟩, htarget⟩
    | _ => simp at htarget
  · intro h
    obtain ⟨shape, ⟨op, hop, hshape⟩, hbindable, htarget⟩ := h
    cases op with
    | binding op =>
      obtain rfl : shape = op.shape := by simpa [UpdateOp.bindings] using hshape
      refine ⟨.binding op, hop, ?_⟩
      simp only [Option.ite_none_right_eq_some, Option.some.injEq]
      exact ⟨hbindable, htarget⟩
    | _ => simp [UpdateOp.bindings] at hshape

def View.HasFaultyBinding (view : View) : Prop :=
  (∃ shape ∈ view.bindings, shape.isTwoWayInterpolation = true) ∨
    ∃ shape ∈ view.bindings, shape.isNonBindable = true ∧ .element shape.target ∉ view.features

theorem View.Sound.narrowBindings (hview : view.Sound)
    (hstyle : ∀ shape ∈ view.bindings, shape.isStyle = false) (h : ¬view.HasFaultyBinding)
    (kind : JobKind) (n : Nat) :
    ∃ view', view.narrowBindings kind = .ok view' ∧
      view.Turns (List.filter fun _ => false) n n view' := by
  obtain ⟨htwoWay, hbindable⟩ := not_or.1 h
  obtain ⟨update, hrun, hturns⟩ := (hview.narrowable_rest hstyle kind).turns hview htwoWay n
  have htargets : ∀ x ∈ nonBindableTargets view.update, .element x ∈ view.features := by
    intro x hx
    obtain ⟨shape, hmem, hshape, rfl⟩ := mem_nonBindableTargets.1 hx
    by_contra hout
    exact hbindable ⟨shape, hmem, hshape, hout⟩
  obtain ⟨create, -, hlists, hmark⟩ :=
    View.markNonBindable_eq hturns.sound.create (nonBindableTargets view.update)
  replace hmark := hmark.trans (if_pos htargets)
  have halike : List.Forall₂ (fun op op' : CreateOp => op.Alike op' ∧ op'.xrefs = op.xrefs)
      view.create.toList (markedFirst (nonBindableTargets view.update) view.create.toList) := by
    refine (forall₂_markedFirst _ _).imp ?_
    rintro op op' (rfl | rfl)
    · exact ⟨.refl _, rfl⟩
    · exact op.alike_markNonBindable
  have hrewritten : View.Rewritten { view with update } { view with update, create } []
      (markedFirst (nonBindableTargets view.update) view.create.toList) [] :=
    ⟨rfl, rfl, by simpa using hlists, halike.imp fun _ _ h => h.1, by simp, by simp⟩
  have hmarked : View.Turns id n n { view with update } { view with update, create } := by
    refine View.turns_of_outline_eq (View.grows_of_create rfl ?_ rfl) (hrewritten.outline_eq rfl)
      (hrewritten.sound hturns.sound hturns.sound.update)
    rw [hlists.toList, flatMap_eq_of_forall₂ halike fun _ _ h => h.2]
    exact Grows.refl _ _
  refine ⟨{ view with update, create }, ?_, hturns.trans hmarked⟩
  simp only [View.narrowBindings, hrun, bind, Except.bind, hmark]

def Fault.IsBinding (fault : Fault) : Prop :=
  fault = .nonBindableTarget ∨ ∃ name, fault = .twoWayInterpolation name

theorem View.Sound.narrowBindings_fails (hview : view.Sound)
    (hstyle : ∀ shape ∈ view.bindings, shape.isStyle = false) (h : view.HasFaultyBinding)
    (kind : JobKind) :
    ∃ e : Fault, ((∃ name, e = .twoWayInterpolation name) ∧
        (∃ shape ∈ view.bindings, shape.isTwoWayInterpolation = true) ∨
      e = .nonBindableTarget ∧ ∃ shape ∈ view.bindings, shape.isNonBindable = true ∧
        .element shape.target ∉ view.features) ∧ view.narrowBindings kind = .error e := by
  have hnarrowable := hview.narrowable_rest hstyle kind
  by_cases htwoWay : ∃ shape ∈ view.bindings, shape.isTwoWayInterpolation = true
  · obtain ⟨e, hname, herror⟩ := hnarrowable.error hview htwoWay
    refine ⟨e, .inl ⟨hname, htwoWay⟩, ?_⟩
    simp only [View.narrowBindings, herror, bind, Except.bind]
  · obtain ⟨update, hrun, hturns⟩ := hnarrowable.turns hview htwoWay 0
    obtain ⟨shape, hmem, hshape, hout⟩ := h.resolve_left htwoWay
    obtain ⟨create, -, -, hmark⟩ :=
      View.markNonBindable_eq hturns.sound.create (nonBindableTargets view.update)
    replace hmark := hmark.trans (if_neg fun htargets =>
      hout (htargets _ (mem_nonBindableTargets.2 ⟨shape, hmem, hshape, rfl⟩)))
    refine ⟨_, .inr ⟨rfl, shape, hmem, hshape, hout⟩, ?_⟩
    simp only [View.narrowBindings, hrun, bind, Except.bind, hmark]

theorem Job.specializeBindings_turns (hsound : job.Sound) (hrooted : job.Rooted)
    (hstyle : ∀ view ∈ job.units, ∀ shape ∈ view.bindings, shape.isStyle = false)
    (h : ¬∃ view ∈ job.units, view.HasFaultyBinding) :
    ∃ job', job.specializeBindings = .ok job' ∧ job.Turns (List.filter fun _ => false) job' :=
  turns_mapUnitsM hrooted fun view hview => (hsound view hview).narrowBindings
    (hstyle view hview) (fun hfaulty => h ⟨view, hview, hfaulty⟩) job.kind _

theorem Job.specializeBindings_fails (hsound : job.Sound)
    (hstyle : ∀ view ∈ job.units, ∀ shape ∈ view.bindings, shape.isStyle = false)
    (h : ∃ view ∈ job.units, view.HasFaultyBinding) :
    ∃ e : Fault, e.IsBinding ∧ job.specializeBindings = .error e :=
  mapUnitsM_fails
    (fun view hview hfaulty => by
      obtain ⟨e, hfault, herror⟩ :=
        (hsound view hview).narrowBindings_fails (hstyle view hview) hfaulty job.kind
      exact ⟨e, hfault.symm.imp And.left And.left, herror⟩)
    (fun view hview hfaulty => by
      obtain ⟨view', hrun, -⟩ :=
        (hsound view hview).narrowBindings (hstyle view hview) hfaulty job.kind 0
      exact ⟨view', hrun⟩)
    h

theorem Job.cause_of_specializeBindings_error (hsound : job.Sound)
    (hstyle : ∀ view ∈ job.units, ∀ shape ∈ view.bindings, shape.isStyle = false) {e : Fault}
    (h : job.specializeBindings = .error e) :
    ∃ view ∈ job.units, (∃ name, e = .twoWayInterpolation name) ∧
        (∃ shape ∈ view.bindings, shape.isTwoWayInterpolation = true) ∨
      e = .nonBindableTarget ∧ ∃ shape ∈ view.bindings, shape.isNonBindable = true ∧
        .element shape.target ∉ view.features := by
  obtain ⟨view, hview, herror⟩ := exists_of_mapUnitsM_error h
  refine ⟨view, hview, ?_⟩
  by_cases hfaulty : view.HasFaultyBinding
  · obtain ⟨e', hfault, herror'⟩ :=
      (hsound view hview).narrowBindings_fails (hstyle view hview) hfaulty job.kind
    obtain rfl := Except.error.inj (herror'.symm.trans herror)
    exact hfault
  · obtain ⟨view', hrun, -⟩ :=
      (hsound view hview).narrowBindings (hstyle view hview) hfaulty job.kind 0
    exact absurd (hrun.symm.trans herror) (by simp)

end Pass

end TemplateLowering
