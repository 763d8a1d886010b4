import TemplateLowering.Proofs.Lowering.Expression
import TemplateLowering.Proofs.Lowering.Fragment

/-!
# Lowered attributes and events

Attributes, inputs and events become bindings, extracted attributes and listeners.  `Attached` has a
case for each kind of operation, with what is known of it and the numbers that it draws; a property
of these operations is an induction over `Attached`.
-/

namespace TemplateLowering

variable {root target : Xref} {s t : Ids} {f : Fragment} {slot : Slot} {tag : Option String}
  {kind : TemplateKind} {i18n : Option I18n.Meta} {node : String} {span : SourceSpan}
variable {create ops : List CreateOp}

/-! ## Steps that draw no number -/

theorem yields_ofExcept {α : Type} {result : Except CompileError α} {a : α} :
    Yields (MonadExcept.ofExcept result : Lower α) s a t ↔ result = .ok a ∧ s = t := by
  cases result with
  | error error => exact ⟨fun h => absurd h not_yields_throw, fun h => by simp at h⟩
  | ok value =>
    rw [show (MonadExcept.ofExcept (.ok value) : Lower α) = pure value from rfl, yields_pure]
    simp

theorem not_yields_rejectI18n {α : Type} {expected : String} {a : α} :
    ¬Yields (rejectI18n node expected i18n span : Lower α) s a t :=
  not_yields_throw

theorem eq_of_messageOf {message : Option I18n.Message}
    (h : Yields (messageOf i18n node span) s message t) : s = t := by
  unfold messageOf at h
  split at h
  · exact (yields_pure.1 h).2
  · exact (yields_pure.1 h).2
  · exact absurd h not_yields_rejectI18n

theorem eq_of_blockPlaceholderOf {placeholder : Option I18n.BlockPlaceholder}
    (h : Yields (blockPlaceholderOf i18n node span) s placeholder t) : s = t := by
  unfold blockPlaceholderOf at h
  split at h
  · exact (yields_pure.1 h).2
  · exact (yields_pure.1 h).2
  · exact absurd h not_yields_rejectI18n

theorem eq_of_checkAnimationPhase {event : Template.BoundEvent} {u : Unit}
    (h : Yields (checkAnimationPhase event) s u t) : s = t := by
  unfold checkAnimationPhase at h
  split at h
  · exact absurd h not_yields_throw
  · exact (yields_pure.1 h).2

/-! ## Values -/

theorem expressions_of_checked {strings placeholders : List String} {exprs : List Expr}
    {interpolation : Interpolation}
    (h : Interpolation.checked strings exprs placeholders = .ok interpolation) :
    interpolation.expressions = exprs := by
  unfold Interpolation.checked at h
  split at h
  · simp at h
  · simp only [Except.ok.injEq] at h
    rw [← h]

theorem loweredExprs_lowerValue {message : Option I18n.Message} {span : Option SourceSpan}
    {ast : Ast} {value : BindingValue} (h : Yields (lowerValue root message span ast) s value t) :
    LoweredExprs root s t value.exprs := by
  unfold lowerValue at h
  split at h
  · simp only [yields_bind, yields_map, lowerValue.liftExcept, yields_ofExcept] at h
    obtain ⟨exprs, _, hexprs, interpolation, ⟨hchecked, rfl⟩, rfl⟩ := h
    rw [BindingValue.exprs, expressions_of_checked hchecked]
    exact loweredExprs_lowerAll hexprs
  · obtain ⟨expr, hexpr, rfl⟩ := yields_map.1 h
    exact Ast.loweredExprs hexpr

theorem loweredExprs_stringLiteral (value : String) (span : SourceSpan) (s : Ids) :
    LoweredExprs root s s [stringLiteral value span] := by
  refine ⟨?_, ?_, by simp [stringLiteral]⟩
  · simpa [stringLiteral, Expr.pipes] using Draws.nil s
  · simpa using Expr.lowered_iff.2 ⟨rfl, by simp [stringLiteral, Expr.children]⟩

/-! ## Handlers -/

theorem exists_of_lowerHandler {handler : Ast} {event : String} {ops : OpList UpdateOp}
    (h : Yields (lowerHandler root handler event span) s ops t) :
    ∃ exprs last u, LoweredExprs root s u (exprs ++ [last]) ∧
      ops = OpList.ofList ⟨u.nextList⟩ (handlerStatements exprs last) ∧
      t = { u with nextList := u.nextList + 1 } := by
  simp only [lowerHandler, yields_bind] at h
  obtain ⟨exprs, u, hexprs, h⟩ := h
  split at h
  · exact absurd h not_yields_throw
  · next last hlast =>
    simp only [yields_bind, yields_freshList, yields_pure] at h
    obtain ⟨list, _, ⟨rfl, rfl⟩, rfl, rfl⟩ := h
    obtain ⟨front, rfl⟩ := List.getLast?_eq_some_iff.1 hlast
    exact ⟨front, last, u, loweredExprs_lowerAll hexprs, by rw [List.dropLast_concat], rfl⟩

theorem mem_handlerStatements {exprs : List Expr} {last : Expr} {op : UpdateOp}
    (h : op ∈ handlerStatements exprs last) : ∃ expr ∈ exprs ++ [last],
      op = .statement (.expression expr expr.span) ∨
        op = .statement (.return_ expr expr.span) := by
  rcases List.mem_append.1 h with h | h
  · obtain ⟨expr, hexpr, rfl⟩ := List.mem_map.1 h
    exact ⟨expr, List.mem_append_left _ hexpr, .inl rfl⟩
  · exact ⟨last, List.mem_append_right _ (List.mem_singleton_self _), .inr (List.mem_singleton.1 h)⟩

theorem sound_statement {body : Statement}
    (h : ∀ steps span, body ≠ .expression (.nextContext steps) span) :
    (UpdateOp.statement body).Sound := by
  refine ⟨rfl, ?_, by simp [UpdateOp.bindings]⟩
  unfold UpdateOp.bareSteps?
  split
  · rename_i steps span hbody
    exact absurd (UpdateOp.statement.inj hbody) (h steps span)
  · rfl

theorem lowerHandler_spec {handler : Ast} {event : String} {ops : OpList UpdateOp}
    (h : Yields (lowerHandler root handler event span) s ops t) :
    Grows s.nextXref t.nextXref [] (ops.toList.flatMap UpdateOp.xrefs) ∧ SoundOps ops := by
  obtain ⟨exprs, last, u, hexprs, rfl, rfl⟩ := exists_of_lowerHandler h
  have hlists := OpList.lists_ofList ⟨u.nextList⟩ (handlerStatements exprs last)
  have hxrefs : (handlerStatements exprs last).flatMap UpdateOp.xrefs =
      (exprs ++ [last]).flatMap Expr.pipes := by
    simp [handlerStatements, List.flatMap_map, UpdateOp.xrefs, UpdateOp.declared, UpdateOp.exprs,
      Statement.exprs]
  refine ⟨?_, hlists.linked, ?_⟩
  · rw [hlists.toList, hxrefs]
    exact hexprs.draws.grows
  · rw [hlists.toList]
    intro op hop
    obtain ⟨expr, hexpr, rfl | rfl⟩ := mem_handlerStatements hop
    · exact sound_statement fun steps _ heq =>
        hexprs.noSteps expr hexpr steps (Statement.expression.inj heq).1
    · exact sound_statement (by simp)

/-! ## Attached operations -/

/-- The operations of attributes and events of `target`, one after the other. -/
inductive Attached (root target : Xref) : Ids → Fragment → Ids → Prop
  | nil (s : Ids) : Attached root target s {} s
  | append {s u t : Ids} {f g : Fragment} (hf : Attached root target s f u)
      (hg : Attached root target u g t) : Attached root target s (f ++ g) t
  | binding {s t : Ids} {op : Binding} (htarget : op.target = target) (hkind : op.kind ≠ .i18n)
      (hcontext : op.i18nContext = none) (hvalue : LoweredExprs root s t op.value.exprs) :
      Attached root target s (Fragment.mk [] [.binding op] []) t
  | extractedAttribute {s : Ids} {op : ExtractedAttribute} (htarget : op.target = target)
      (hexpr : op.expr = none) (hcontext : op.i18nContext = none) :
      Attached root target s (Fragment.mk [.extractedAttribute op] [] []) s
  | listener {s t : Ids} {slot : Slot} {tag : Option String} {event : Template.BoundEvent}
      {op : Listener} (h : Yields (lowerListener root target slot tag event) s op t) :
      Attached root target s (Fragment.mk [.listener op] [] []) t
  | i18nAttributes {s : Ids} {op : I18nAttributesOp} (htarget : op.target = target)
      (hxref : op.xref = ⟨s.nextXref⟩) :
      Attached root target s (Fragment.mk [.i18nAttributes op] [] [])
        { s with nextXref := s.nextXref + 1 }

theorem Attached.ops_append {create' : List CreateOp} {update update' : List UpdateOp} {u : Ids}
    (h : Attached root target s (Fragment.mk create update []) t)
    (h' : Attached root target t (Fragment.mk create' update' []) u) :
    Attached root target s (Fragment.mk (create ++ create') (update ++ update') []) u :=
  h.append h'

theorem attached_mapM {α β : Type} {f : α → Lower β} {as : List α} {bs : List β}
    (create : β → List CreateOp) (update : β → List UpdateOp)
    (hf : ∀ {s a b t}, Yields (f a) s b t →
      Attached root target s (Fragment.mk (create b) (update b) []) t)
    (h : Yields (as.mapM f) s bs t) :
    Attached root target s (Fragment.mk (bs.flatMap create) (bs.flatMap update) []) t := by
  have hthreads := yields_mapM.1 h
  clear h
  induction hthreads with
  | nil => exact .nil _
  | cons hb _ ih => exact (hf hb).ops_append ih

theorem attached_bindings {α : Type} {f : α → Lower Binding} {as : List α} {ops : List Binding}
    (hf : ∀ {s a op t}, Yields (f a) s op t →
      Attached root target s (Fragment.mk [] [.binding op] []) t) (h : Yields (as.mapM f) s ops t) :
    Attached root target s (Fragment.mk [] (ops.map .binding) []) t := by
  have hattached := attached_mapM (fun _ => []) (fun op => [.binding op]) hf h
  rwa [List.flatMap_eq_nil_iff.2 fun _ _ => rfl, ← List.map_eq_flatMap] at hattached

theorem Attached.extracted {α : Type} {update : List UpdateOp}
    (h : Attached root target s (Fragment.mk [] update []) t) (op : α → ExtractedAttribute)
    (hop : ∀ a, (op a).target = target ∧ (op a).expr = none ∧ (op a).i18nContext = none)
    (as : List α) :
    Attached root target s (Fragment.mk (as.map fun a => .extractedAttribute (op a)) update [])
      t := by
  induction as with
  | nil => exact h
  | cons a as ih =>
    obtain ⟨htarget, hexpr, hcontext⟩ := hop a
    exact (Attached.extractedAttribute htarget hexpr hcontext).ops_append ih

/-! ## Elements -/

theorem BindingKind.ofType_ne_i18n (type : BindingType) : BindingKind.ofType type ≠ .i18n := by
  cases type <;> simp [BindingKind.ofType]

theorem attached_textAttribute {tag : String} {attr : Template.TextAttribute} {op : Binding}
    (root : Xref) (h : Yields (lowerTextAttribute target tag attr) s op t) :
    s = t ∧ Attached root target s (Fragment.mk [] [.binding op] []) t := by
  simp only [lowerTextAttribute, yields_bind, yields_pure] at h
  obtain ⟨message, _, hmessage, rfl, rfl⟩ := h
  obtain rfl := eq_of_messageOf hmessage
  exact ⟨rfl, .binding rfl (by simp) rfl (loweredExprs_stringLiteral _ _ _)⟩

theorem attached_textAttributes {tag : String} {attrs : List Template.TextAttribute}
    {ops : List Binding} (root : Xref)
    (h : Yields (attrs.mapM (lowerTextAttribute target tag)) s ops t) :
    s = t ∧ Attached root target s (Fragment.mk [] (ops.map .binding) []) t := by
  have heq : id t = id s :=
    (yields_mapM.1 h).keeps fun _ _ _ _ hop => (attached_textAttribute root hop).1.symm
  exact ⟨heq.symm, attached_bindings (fun hop => (attached_textAttribute root hop).2) h⟩

theorem attached_input {input : Template.BoundAttribute} {op : Binding}
    (h : Yields (lowerInput root target input) s op t) :
    Attached root target s (Fragment.mk [] [.binding op] []) t := by
  simp only [lowerInput, yields_bind, yields_pure] at h
  obtain ⟨message, _, hmessage, value, _, hvalue, rfl, rfl⟩ := h
  obtain rfl := eq_of_messageOf hmessage
  exact .binding rfl (BindingKind.ofType_ne_i18n _) rfl (loweredExprs_lowerValue hvalue)

theorem attached_listeners {events : List Template.BoundEvent}
    (h : Yields (lowerListeners root target slot tag events) s ops t) :
    Attached root target s (Fragment.mk ops [] []) t := by
  have hattached : Attached root target s (Fragment.mk _ _ []) t :=
    attached_mapM (fun op => [op]) (fun _ => []) (fun hop => by
      obtain ⟨listener, hlistener, rfl⟩ := yields_map.1 hop
      exact .listener hlistener) h
  rwa [List.flatMap_singleton', List.flatMap_eq_nil_iff.2 fun _ _ => rfl] at hattached

theorem attached_i18nAttributes {hasMessage : Bool} (root : Xref)
    (h : Yields (lowerI18nAttributes hasMessage target) s ops t) :
    Attached root target s (Fragment.mk ops [] []) t := by
  unfold lowerI18nAttributes at h
  split at h
  · simp only [yields_bind, yields_freshXref, yields_pure] at h
    obtain ⟨_, _, ⟨rfl, rfl⟩, rfl, rfl⟩ := h
    exact .i18nAttributes rfl rfl
  · obtain ⟨rfl, rfl⟩ := yields_pure.1 h
    exact .nil s

theorem attached_elementBindings {name tag : String} {attributes : List Template.TextAttribute}
    {inputs : List Template.BoundAttribute} {outputs : List Template.BoundEvent}
    (h : Yields (lowerElementBindings root target slot name tag attributes inputs outputs) s f t) :
    Attached root target s f t := by
  simp only [lowerElementBindings, yields_bind, yields_pure] at h
  obtain ⟨texts, _, htexts, dynamics, _, hdynamics, listeners, _, hlisteners, translated, _,
    htranslated, rfl, rfl⟩ := h
  have hbindings := (attached_textAttributes root htexts).2.ops_append
    (attached_bindings attached_input hdynamics)
  have hattached := (hbindings.ops_append (attached_listeners hlisteners)).ops_append
    (attached_i18nAttributes root htranslated)
  simpa using hattached

/-! ## Templates -/

theorem templateBindingKind_ne_i18n (kind : TemplateKind) (type : BindingType) (isText : Bool) :
    templateBindingKind kind type isText ≠ .i18n := by
  unfold templateBindingKind
  split
  · simp
  · exact BindingKind.ofType_ne_i18n type

def TemplateBinding.createOps : TemplateBinding → List CreateOp
  | .binding _ => []
  | .extracted op => [.extractedAttribute op]

def TemplateBinding.updateOps : TemplateBinding → List UpdateOp
  | .binding op => [.binding op]
  | .extracted _ => []

theorem attached_templateInput {input : TemplateInput} {lowered : Option TemplateBinding}
    (h : Yields (lowerTemplateInput root target kind input) s lowered t) :
    Attached root target s (Fragment.mk (lowered.toList.flatMap TemplateBinding.createOps)
      (lowered.toList.flatMap TemplateBinding.updateOps) []) t := by
  simp only [lowerTemplateInput, yields_bind] at h
  obtain ⟨message, u, hmessage, h⟩ := h
  obtain rfl := eq_of_messageOf hmessage
  split at h
  · obtain ⟨rfl, rfl⟩ := yields_pure.1 h
    exact .extractedAttribute rfl rfl rfl
  · split at h
    · obtain ⟨rfl, rfl⟩ := yields_pure.1 h
      exact .nil s
    · split at h <;> simp only [yields_bind, yields_pure] at h
      · obtain ⟨_, _, ⟨rfl, rfl⟩, rfl, rfl⟩ := h
        exact .binding rfl (templateBindingKind_ne_i18n _ _ _) rfl
          (loweredExprs_stringLiteral _ _ _)
      · obtain ⟨value, _, hvalue, rfl, rfl⟩ := h
        exact .binding rfl (templateBindingKind_ne_i18n _ _ _) rfl (loweredExprs_lowerValue hvalue)

theorem attached_templateOutput {event : Template.BoundEvent}
    (h : Yields (lowerTemplateOutput root target slot tag kind event) s ops t) :
    Attached root target s (Fragment.mk ops [] []) t := by
  simp only [lowerTemplateOutput, yields_bind] at h
  obtain ⟨_, _, hphase, h⟩ := h
  obtain rfl := eq_of_checkAnimationPhase hphase
  cases kind with
  | ngTemplate =>
    simp only [yields_bind, yields_pure] at h
    obtain ⟨listener, _, hlistener, rfl, rfl⟩ := h
    exact .listener hlistener
  | structural =>
    simp only [yields_ite, yields_pure] at h
    rcases h with ⟨-, rfl, rfl⟩ | ⟨-, rfl, rfl⟩
    · exact .nil s
    · exact .extractedAttribute rfl rfl rfl
  | block =>
    obtain ⟨rfl, rfl⟩ := yields_pure.1 h
    exact .nil s

theorem filterMap_eq_flatMap {β γ : Type} {f : β → Option γ} (g : β → List γ) (bs : List β)
    (h : ∀ b, (f b).toList = g b) : bs.filterMap f = bs.flatMap g := by
  rw [List.filterMap_eq_flatMap_toList]
  simp only [h]

theorem attached_templateBindings {inputs : List TemplateInput} {outputs : List Template.BoundEvent}
    (h : Yields (lowerTemplateBindings root target slot tag kind inputs outputs) s f t) :
    Attached root target s f t := by
  simp only [lowerTemplateBindings, yields_bind, yields_pure] at h
  obtain ⟨lowered, _, hlowered, events, _, hevents, translated, _, htranslated, rfl, rfl⟩ := h
  have hinputs := attached_mapM _ _ attached_templateInput hlowered
  have hevents := attached_mapM id (fun _ => []) attached_templateOutput hevents
  have hattached := (hinputs.ops_append hevents).ops_append
    (attached_i18nAttributes root htranslated)
  have hnone : events.flatMap (fun _ => ([] : List UpdateOp)) = [] := by simp
  rw [filterMap_eq_flatMap TemplateBinding.createOps, filterMap_eq_flatMap TemplateBinding.updateOps,
    List.filterMap_eq_flatMap_toList, List.flatMap_assoc, List.flatMap_assoc]
  · rwa [hnone, List.append_nil, List.append_nil, ← List.flatten_eq_flatMap] at hattached
  · intro binding
    cases binding <;> rfl
  · intro binding
    cases binding <;> rfl

theorem attached_branchRoot {children : List Template.Node} {copies : Fragment} (root : Xref)
    (h : Yields (lowerBranchRoot target children) s (tag, copies) t) :
    s = t ∧ Attached root target s copies t := by
  unfold lowerBranchRoot at h
  split at h
  · simp only [yields_pure, Prod.mk.injEq] at h
    obtain ⟨⟨-, rfl⟩, rfl⟩ := h
    exact ⟨rfl, .nil s⟩
  · simp only [yields_bind, yields_pure, Prod.mk.injEq] at h
    obtain ⟨bindings, _, hbindings, ⟨-, rfl⟩, rfl⟩ := h
    obtain ⟨rfl, hattached⟩ := attached_textAttributes root hbindings
    refine ⟨rfl, hattached.extracted _ ?_ _⟩
    exact fun _ => ⟨rfl, rfl, rfl⟩

/-! ## Plain operations -/

theorem sound_binding {op : Binding} (h : op.kind ≠ .i18n) : (UpdateOp.binding op).Sound :=
  ⟨rfl, rfl, by simpa [UpdateOp.bindings, Binding.shape] using h⟩

theorem sound_of_bindings_eq_nil {op : UpdateOp} (hend : ListOp.isListEnd op = false)
    (hsteps : op.bareSteps? = none) (hbindings : op.bindings = []) : op.Sound :=
  ⟨hend, hsteps, by simp [hbindings]⟩

/-- What the operations of attributes and events have in common. -/
structure CreateOp.Plain (op : CreateOp) : Prop where
  lowered : op.Lowered
  features : op.features = []
  marks : op.marks = []

theorem plain_of_lists_eq_nil {op : CreateOp} (hend : ListOp.isListEnd op = false)
    (hlists : op.lists = []) (hblocks : op.blocks = []) (hfeatures : op.features = [])
    (hmarks : op.marks = []) : op.Plain :=
  ⟨CreateOp.lowered_of_lists_eq_nil hend hlists hblocks, hfeatures, hmarks⟩

theorem Fragment.plain_of {update : List UpdateOp} (hgrows : Grows s.nextXref t.nextXref []
      (create.flatMap CreateOp.xrefs ++ update.flatMap UpdateOp.xrefs))
    (hcreate : ∀ op ∈ create, op.Plain) (hupdate : ∀ op ∈ update, op.Sound) :
    ({ create, update } : Fragment).Plain s t := by
  refine ⟨?_, ?_, hupdate, rfl⟩
  · simpa [Fragment.xrefs] using hgrows
  · intro op hop
    have hplain := hcreate op hop
    exact ⟨hplain.lowered, hplain.features, hplain.marks⟩

theorem plain_listener {op : Listener} (h : SoundOps op.handler) :
    (CreateOp.listener op).Plain := by
  refine ⟨⟨⟨rfl, ?_⟩, ?_⟩, rfl, rfl⟩
  · simpa [CreateOp.lists] using h
  · simp [CreateOp.blocks]

theorem Attached.plain (h : Attached root target s f t) : f.Plain s t := by
  induction h with
  | nil s => exact Fragment.plain_empty s
  | append _ _ ihf ihg => exact ihf.append ihg
  | binding _ hkind _ hvalue =>
    refine Fragment.plain_of ?_ (by simp) (by simpa using sound_binding hkind)
    simpa [UpdateOp.xrefs, UpdateOp.declared, UpdateOp.exprs] using hvalue.draws.grows
  | @extractedAttribute s _ _ hexpr =>
    refine Fragment.plain_of ?_ (by simpa using plain_of_lists_eq_nil rfl rfl rfl rfl rfl) (by simp)
    simpa [CreateOp.xrefs, CreateOp.declared, CreateOp.exprs, CreateOp.lists, hexpr] using
      Grows.refl s.nextXref []
  | listener h =>
    simp only [lowerListener, yields_bind, yields_pure] at h
    obtain ⟨_, _, hphase, handler, _, hhandler, rfl, rfl⟩ := h
    obtain rfl := eq_of_checkAnimationPhase hphase
    obtain ⟨hgrows, hsound⟩ := lowerHandler_spec hhandler
    refine Fragment.plain_of ?_ (by simpa using plain_listener hsound) (by simp)
    simpa [CreateOp.xrefs, CreateOp.declared, CreateOp.exprs, CreateOp.lists] using hgrows
  | @i18nAttributes s _ _ hxref =>
    refine Fragment.plain_of ?_ (by simpa using plain_of_lists_eq_nil rfl rfl rfl rfl rfl) (by simp)
    simpa [CreateOp.xrefs, CreateOp.declared, CreateOp.exprs, CreateOp.lists, hxref] using
      Grows.fresh s.nextXref

end TemplateLowering
