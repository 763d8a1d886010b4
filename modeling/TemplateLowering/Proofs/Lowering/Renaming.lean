import TemplateLowering.Proofs.Lowering.Node
import TemplateLowering.Proofs.Op.Renaming

/-!
# Lowering from other numbers

Lowering takes fresh numbers, and looks at them in no other way than to pass them on.  So it makes
no difference from which numbers it starts, except for a renaming: a computation that starts further
on fails with the same error, or gives the renamed result.
-/

namespace TemplateLowering

/-! ## Computations that correspond -/

/-- The supply `s'` is ahead of `s` by the renaming; the number of the root is taken. -/
structure Renaming.Moves (r : Renaming) (s s' : Ids) : Prop where
  taken : 0 < s.nextXref
  xref : s'.nextXref = s.nextXref + r.xrefs
  list : s'.nextList = s.nextList + r.lists

/-- Outcomes of computations from `s` that differ by the renaming. -/
inductive Renaming.SameOutcome {α β : Type} (r : Renaming) (R : α → β → Prop) (s : Ids) :
    Except CompileError (α × Ids) → Except CompileError (β × Ids) → Prop
  | ok {a : α} {b : β} {t t' : Ids} (h : R a b) (hmoves : r.Moves t t')
      (hxref : s.nextXref ≤ t.nextXref) (hlist : s.nextList ≤ t.nextList) :
      SameOutcome r R s (.ok (a, t)) (.ok (b, t'))
  | error {e : CompileError} : SameOutcome r R s (.error e) (.error e)

/-- Further on, `y` does what `x` does, with results that are related by `R`. -/
def Corresponds {α β : Type} (r : Renaming) (R : α → β → Prop) (x : Lower α) (y : Lower β) :
    Prop :=
  ∀ s s', r.Moves s s' → r.SameOutcome R s (outcome x s) (outcome y s')

section Rules

variable {α β γ δ : Type} {r : Renaming} {R : α → β → Prop} {S : γ → δ → Prop} {x : Lower α}
  {y : Lower β}

theorem corresponds_pure {a : α} {b : β} (h : R a b) : Corresponds r R (pure a) (pure b) := by
  intro s s' hmoves
  rw [Stateful.outcome_pure, Stateful.outcome_pure]
  exact .ok h hmoves le_rfl le_rfl

theorem corresponds_throw {e : CompileError} :
    Corresponds r R (throw e : Lower α) (throw e : Lower β) := by
  intro s s' _
  exact .error

theorem Corresponds.bind {f : α → Lower γ} {g : β → Lower δ} (h : Corresponds r R x y)
    (hfg : ∀ a b, R a b → Corresponds r S (f a) (g b)) : Corresponds r S (x >>= f) (y >>= g) := by
  intro s s' hmoves
  have hfirst := h s s' hmoves
  rw [Stateful.outcome_bind, Stateful.outcome_bind]
  generalize outcome x s = result, outcome y s' = result' at hfirst
  cases hfirst with
  | error => exact .error
  | @ok a b t t' hab hmoves' hxref hlist =>
    have hsecond := hfg a b hab t t' hmoves'
    change r.SameOutcome S s (outcome (f a) t) (outcome (g b) t')
    generalize outcome (f a) t = result, outcome (g b) t' = result' at hsecond
    cases hsecond with
    | error => exact .error
    | ok h hmoves'' hxref' hlist' => exact .ok h hmoves'' (hxref.trans hxref') (hlist.trans hlist')

theorem Corresponds.map {f : α → γ} {g : β → δ} (h : Corresponds r R x y)
    (hfg : ∀ a b, R a b → S (f a) (g b)) : Corresponds r S (f <$> x) (g <$> y) := by
  rw [← bind_pure_comp, ← bind_pure_comp]
  exact h.bind fun a b hab => corresponds_pure (hfg a b hab)

abbrev Renames (r : Renaming) (f : α → β) (x : Lower α) (y : Lower β) : Prop :=
  Corresponds r (fun a b => b = f a) x y

theorem Renames.bind {f : α → β} {g : α → Lower γ} {g' : β → Lower δ} (h : Renames r f x y)
    (hg : ∀ a, Corresponds r S (g a) (g' (f a))) : Corresponds r S (x >>= g) (y >>= g') :=
  Corresponds.bind h fun a _ hb => hb ▸ hg a

theorem Renames.map {f : α → β} {g : α → γ} {g' : β → δ} (h : Renames r f x y)
    (hg : ∀ a, S (g a) (g' (f a))) : Corresponds r S (g <$> x) (g' <$> y) :=
  Corresponds.map h fun a _ hb => hb ▸ hg a

theorem renames_mapM {ι : Type} {f : α → β} {g : ι → Lower α} {g' : ι → Lower β} {is : List ι}
    (h : ∀ i ∈ is, Renames r f (g i) (g' i)) : Renames r (List.map f) (is.mapM g) (is.mapM g') := by
  induction is with
  | nil =>
    rw [List.mapM_nil, List.mapM_nil]
    exact corresponds_pure rfl
  | cons i is ih =>
    rw [List.forall_mem_cons] at h
    rw [List.mapM_cons, List.mapM_cons]
    refine h.1.bind fun a => (ih h.2).bind fun as => ?_
    exact corresponds_pure rfl

end Rules

/-! ## Fresh numbers -/

section Fresh

variable {r : Renaming}

theorem Renaming.Moves.xref_eq {s s' : Ids} (h : r.Moves s s') :
    ⟨s'.nextXref⟩ = r.xref ⟨s.nextXref⟩ := by
  obtain ⟨index, hindex⟩ := Nat.exists_eq_add_one_of_ne_zero h.taken.ne'
  rw [h.xref, hindex]
  rfl

theorem Renaming.Moves.list_eq {s s' : Ids} (h : r.Moves s s') :
    ⟨s'.nextList⟩ = r.list ⟨s.nextList⟩ := by
  rw [h.list]
  rfl

theorem renames_freshXref : Renames r r.xref (Ids.freshXref : Lower Xref) Ids.freshXref := by
  intro s s' h
  have hmoves : r.Moves { s with nextXref := s.nextXref + 1 }
      { s' with nextXref := s'.nextXref + 1 } :=
    ⟨Nat.succ_pos _, by rw [h.xref, Nat.add_right_comm], h.list⟩
  exact .ok h.xref_eq hmoves (Nat.le_succ _) le_rfl

theorem renames_freshList : Renames r r.list (Ids.freshList : Lower ListId) Ids.freshList := by
  intro s s' h
  have hmoves : r.Moves { s with nextList := s.nextList + 1 }
      { s' with nextList := s'.nextList + 1 } :=
    ⟨h.taken, h.xref, by rw [h.list, Nat.add_right_comm]⟩
  exact .ok h.list_eq hmoves le_rfl (Nat.le_succ _)

def ViewIds.rename (r : Renaming) (ids : ViewIds) : ViewIds :=
  { xref := r.xref ids.xref
    createList := r.list ids.createList
    updateList := r.list ids.updateList }

theorem renames_freshView :
    Renames r (ViewIds.rename r) (Ids.freshView : Lower ViewIds) Ids.freshView := by
  unfold Ids.freshView
  refine renames_freshXref.bind fun xref => ?_
  refine renames_freshList.bind fun createList => ?_
  refine renames_freshList.bind fun updateList => ?_
  exact corresponds_pure rfl

end Fresh

/-! ## Expressions -/

section Expression

variable {r : Renaming} {root : Xref} {base : Option SourceSpan}

theorem Ast.rename_output (hroot : r.xref root = root) (ast : Ast) (target : Xref)
    (exprs : List Expr) : (ast.output root base target exprs).rename r =
      ast.output root base (r.xref target) (exprs.map (Expr.rename r)) := by
  cases ast with
  | thisReceiver => exact congrArg Expr.context hroot
  | map =>
    simp only [output, Expr.rename_map, List.map_zipWith, List.zipWith_map_right]
    rfl
  | array => exact Expr.rename_array r exprs _
  | pipe => exact Expr.rename_pipeBinding r target none _ exprs
  | call => cases exprs with
    | nil => rfl
    | cons fn args => exact Expr.rename_invoke r fn args _ _
  | safeCall => cases exprs with
    | nil => rfl
    | cons receiver args => exact Expr.rename_safeInvoke r receiver args
  | _ => rcases exprs with _ | ⟨_, _ | ⟨_, _ | _⟩⟩ <;> rfl

theorem Ast.renames_target (ast : Ast) : Renames r r.xref ast.target ast.target := by
  unfold target
  split
  · exact renames_freshXref
  · exact corresponds_pure rfl

theorem Ast.renames (hroot : r.xref root = root) (ast : Ast) :
    Renames r (Expr.rename r) (ast.lower root base) (ast.lower root base) := by
  induction ast using induction_parts with
  | h ast ih =>
    rcases lower_cases root base ast with ⟨-, reason, hlower⟩ | ⟨-, hlower⟩ <;> rw [hlower]
    · exact corresponds_throw
    · refine (renames_target ast).bind fun target => ?_
      exact (renames_mapM fun operand hoperand =>
        ih operand (mem_parts_of_mem_operands hoperand)).map fun exprs =>
          (rename_output hroot ast target exprs).symm

theorem renames_lowerAll (hroot : r.xref root = root) (asts : List Ast) :
    Renames r (List.map (Expr.rename r)) (lowerAll root base asts) (lowerAll root base asts) := by
  rw [Ast.lowerAll_eq]
  exact renames_mapM fun ast _ => Ast.renames hroot ast

end Expression

/-! ## Values -/

section Binding

variable {r : Renaming} {root target : Xref}

theorem renames_messageOf (i18n : Option I18n.Meta) (node : String) (span : SourceSpan) :
    Renames r id (messageOf i18n node span) (messageOf i18n node span) := by
  unfold messageOf
  split
  · exact corresponds_pure rfl
  · exact corresponds_pure rfl
  · exact corresponds_throw

theorem renames_blockPlaceholderOf (i18n : Option I18n.Meta) (node : String) (span : SourceSpan) :
    Renames r id (blockPlaceholderOf i18n node span) (blockPlaceholderOf i18n node span) := by
  unfold blockPlaceholderOf
  split
  · exact corresponds_pure rfl
  · exact corresponds_pure rfl
  · exact corresponds_throw

theorem renames_checkAnimationPhase (event : Template.BoundEvent) :
    Renames r id (checkAnimationPhase event) (checkAnimationPhase event) := by
  unfold checkAnimationPhase
  split
  · exact corresponds_throw
  · exact corresponds_pure rfl

theorem renames_checked (strings : List String) (exprs : List Expr) (placeholders : List String) :
    Renames r (Interpolation.rename r)
      (MonadExcept.ofExcept (Interpolation.checked strings exprs placeholders))
      (MonadExcept.ofExcept
        (Interpolation.checked strings (exprs.map (Expr.rename r)) placeholders)) := by
  unfold Interpolation.checked
  rw [List.length_map]
  split
  · exact corresponds_throw
  · exact corresponds_pure rfl

theorem renames_lowerValue (hroot : r.xref root = root) (message : Option I18n.Message)
    (span : Option SourceSpan) (ast : Ast) :
    Renames r (BindingValue.rename r) (lowerValue root message span ast)
      (lowerValue root message span ast) := by
  unfold lowerValue
  split
  · refine (renames_lowerAll hroot _).bind fun exprs => ?_
    exact (renames_checked _ exprs _).map fun _ => rfl
  · exact (Ast.renames hroot _).map fun _ => rfl

/-! ## Listeners -/

theorem map_rename_handlerStatements (exprs : List Expr) (last : Expr) :
    (handlerStatements exprs last).map (UpdateOp.rename r) =
      handlerStatements (exprs.map (Expr.rename r)) (last.rename r) := by
  simp only [handlerStatements, List.map_append, List.map_map, List.map_cons, List.map_nil,
    Expr.span_rename]
  congr 1
  refine List.map_congr_left fun expr _ => ?_
  simp only [Function.comp_apply, Expr.span_rename]
  rfl

theorem renames_lowerHandler (hroot : r.xref root = root) (handler : Ast) (event : String)
    (span : SourceSpan) :
    Renames r (OpList.rename r (UpdateOp.rename r)) (lowerHandler root handler event span)
      (lowerHandler root handler event span) := by
  unfold lowerHandler
  refine (renames_lowerAll hroot _).bind fun exprs => ?_
  rw [List.getLast?_map]
  cases exprs.getLast? with
  | none => exact corresponds_throw
  | some last =>
    refine renames_freshList.bind fun list => corresponds_pure ?_
    rw [OpList.rename_ofList, map_rename_handlerStatements, List.map_dropLast]

theorem renames_lowerListener (hroot : r.xref root = root) (slot : Slot) (tag : Option String)
    (event : Template.BoundEvent) :
    Renames r (Listener.rename r) (lowerListener root target slot tag event)
      (lowerListener root (r.xref target) slot tag event) := by
  unfold lowerListener
  refine (renames_checkAnimationPhase event).bind fun _ => ?_
  refine (renames_lowerHandler hroot _ _ _).bind fun handler => ?_
  exact corresponds_pure rfl

theorem renames_lowerListeners (hroot : r.xref root = root) (slot : Slot) (tag : Option String)
    (events : List Template.BoundEvent) :
    Renames r (List.map (CreateOp.rename r)) (lowerListeners root target slot tag events)
      (lowerListeners root (r.xref target) slot tag events) :=
  renames_mapM fun event _ => (renames_lowerListener hroot slot tag event).map fun _ => rfl

theorem renames_lowerI18nAttributes (hasMessage : Bool) :
    Renames r (List.map (CreateOp.rename r)) (lowerI18nAttributes hasMessage target)
      (lowerI18nAttributes hasMessage (r.xref target)) := by
  unfold lowerI18nAttributes
  split
  · exact renames_freshXref.bind fun xref => corresponds_pure rfl
  · exact corresponds_pure rfl

/-! ## Elements -/

theorem renames_lowerTextAttribute (tag : String) (attr : Template.TextAttribute) :
    Renames r (Binding.rename r) (lowerTextAttribute target tag attr)
      (lowerTextAttribute (r.xref target) tag attr) := by
  unfold lowerTextAttribute
  exact (renames_messageOf _ _ _).bind fun message => corresponds_pure rfl

theorem renames_lowerInput (hroot : r.xref root = root) (input : Template.BoundAttribute) :
    Renames r (Binding.rename r) (lowerInput root target input)
      (lowerInput root (r.xref target) input) := by
  unfold lowerInput
  refine (renames_messageOf _ _ _).bind fun message => ?_
  exact (renames_lowerValue hroot _ _ _).bind fun value => corresponds_pure rfl

/-- The operations are renamed, and so are the views but for the names known in them. -/
structure Fragment.Renamed (r : Renaming) (f g : Fragment) : Prop where
  create : g.create = f.create.map (CreateOp.rename r)
  update : g.update = f.update.map (UpdateOp.rename r)
  views : g.views.map View.unnamed = f.views.map fun view => (view.rename r).unnamed

theorem Fragment.renamed_ops {create create' : List CreateOp} {update update' : List UpdateOp}
    (hcreate : create' = create.map (CreateOp.rename r))
    (hupdate : update' = update.map (UpdateOp.rename r)) :
    (Fragment.mk create update []).Renamed r (Fragment.mk create' update' []) :=
  ⟨hcreate, hupdate, rfl⟩

theorem Fragment.Renamed.append {f f' g g' : Fragment} (hf : f.Renamed r f')
    (hg : g.Renamed r g') : (f ++ g).Renamed r (f' ++ g') := by
  constructor
  · rw [create_append, create_append, List.map_append, hf.create, hg.create]
  · rw [update_append, update_append, List.map_append, hf.update, hg.update]
  · rw [views_append, views_append, List.map_append, List.map_append, hf.views, hg.views]

theorem map_rename_bindings (bindings : List Binding) :
    (bindings.map (Binding.rename r)).map UpdateOp.binding =
      (bindings.map UpdateOp.binding).map (UpdateOp.rename r) := by
  rw [List.map_map, List.map_map]
  rfl

theorem corresponds_lowerElementBindings (hroot : r.xref root = root) (slot : Slot)
    (name tag : String) (attributes : List Template.TextAttribute)
    (inputs : List Template.BoundAttribute) (outputs : List Template.BoundEvent) :
    Corresponds r (Fragment.Renamed r)
      (lowerElementBindings root target slot name tag attributes inputs outputs)
      (lowerElementBindings root (r.xref target) slot name tag attributes inputs outputs) := by
  unfold lowerElementBindings
  refine (renames_mapM fun attr _ => renames_lowerTextAttribute name attr).bind fun texts => ?_
  refine (renames_mapM fun input _ => renames_lowerInput hroot input).bind fun dynamics => ?_
  refine (renames_lowerListeners hroot slot (some tag) outputs).bind fun listeners => ?_
  rw [← List.map_append, List.any_map]
  refine (renames_lowerI18nAttributes _).bind fun translated => corresponds_pure ?_
  exact Fragment.renamed_ops List.map_append.symm (map_rename_bindings _)

/-! ## Embedded templates -/

def TemplateBinding.rename (r : Renaming) : TemplateBinding → TemplateBinding
  | .binding op => .binding (op.rename r)
  | .extracted op => .extracted (op.rename r)

theorem TemplateBinding.hasMessage_rename (binding : TemplateBinding) :
    (binding.rename r).hasMessage = binding.hasMessage := by
  cases binding <;> rfl

theorem renames_lowerTemplateInput (hroot : r.xref root = root) (kind : TemplateKind)
    (input : TemplateInput) :
    Renames r (Option.map (TemplateBinding.rename r)) (lowerTemplateInput root target kind input)
      (lowerTemplateInput root (r.xref target) kind input) := by
  unfold lowerTemplateInput
  refine (renames_messageOf _ _ _).bind fun message => ?_
  dsimp only [id]
  split
  · exact corresponds_pure rfl
  · split
    · exact corresponds_pure rfl
    · split
      · exact corresponds_pure rfl
      · exact (renames_lowerValue hroot _ _ _).bind fun value => corresponds_pure rfl

theorem renames_lowerTemplateOutput (hroot : r.xref root = root) (slot : Slot)
    (tag : Option String) (kind : TemplateKind) (event : Template.BoundEvent) :
    Renames r (List.map (CreateOp.rename r)) (lowerTemplateOutput root target slot tag kind event)
      (lowerTemplateOutput root (r.xref target) slot tag kind event) := by
  unfold lowerTemplateOutput
  refine (renames_checkAnimationPhase event).bind fun _ => ?_
  cases kind with
  | ngTemplate =>
    exact (renames_lowerListener hroot slot tag event).bind fun listener => corresponds_pure rfl
  | structural =>
    dsimp only
    split <;> exact corresponds_pure rfl
  | block => exact corresponds_pure rfl

theorem corresponds_lowerTemplateBindings (hroot : r.xref root = root) (slot : Slot)
    (tag : Option String) (kind : TemplateKind) (inputs : List TemplateInput)
    (outputs : List Template.BoundEvent) :
    Corresponds r (Fragment.Renamed r)
      (lowerTemplateBindings root target slot tag kind inputs outputs)
      (lowerTemplateBindings root (r.xref target) slot tag kind inputs outputs) := by
  unfold lowerTemplateBindings
  refine (renames_mapM fun input _ =>
    renames_lowerTemplateInput hroot kind input).bind fun lowered => ?_
  refine (renames_mapM fun event _ =>
    renames_lowerTemplateOutput hroot slot tag kind event).bind fun events => ?_
  have hlowered : (lowered.map (Option.map (TemplateBinding.rename r))).filterMap id =
      (lowered.filterMap id).map (TemplateBinding.rename r) := by
    rw [List.filterMap_map, List.map_filterMap]
    rfl
  rw [hlowered, List.any_map]
  simp only [Function.comp_def, TemplateBinding.hasMessage_rename]
  refine (renames_lowerI18nAttributes _).bind fun translated => corresponds_pure ?_
  refine Fragment.renamed_ops ?_ ?_
  · rw [List.map_append, List.map_append, List.map_flatten, List.filterMap_map, List.map_filterMap]
    congr 2
    refine List.filterMap_congr fun binding _ => ?_
    cases binding <;> rfl
  · rw [List.filterMap_map, List.map_filterMap]
    refine List.filterMap_congr fun binding _ => ?_
    cases binding <;> rfl

/-! ## Branches of control flow blocks -/

theorem corresponds_lowerBranchRoot (children : List Template.Node) :
    Corresponds r (fun a b => b.1 = a.1 ∧ a.2.Renamed r b.2) (lowerBranchRoot target children)
      (lowerBranchRoot (r.xref target) children) := by
  unfold lowerBranchRoot
  split
  · exact corresponds_pure ⟨rfl, Fragment.renamed_ops rfl rfl⟩
  · refine (renames_mapM fun attr _ =>
      renames_lowerTextAttribute ngTemplateTag attr).bind fun bindings => ?_
    refine corresponds_pure ⟨rfl, Fragment.renamed_ops ?_ (map_rename_bindings _)⟩
    rw [List.map_map]
    rfl

end Binding

end TemplateLowering
