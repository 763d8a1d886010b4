import TemplateLowering.Pass.I18nContext
import TemplateLowering.Proofs.Op.Xrefs

/-!
# Translated messages in a view

The translated messages of a view are held by few of its operations: the starts and ends of blocks,
the starts of ICU expressions and the contexts.  The others can be left out of the list of
operations, and the blocks, the contexts and the places of the ICU expressions stay the same.
-/

namespace TemplateLowering

variable {op : CreateOp} {context : I18nContextOp} {ops : List CreateOp}

namespace CreateOp

/-- The operation, if it takes part in a translated message. -/
def translation : CreateOp → List CreateOp
  | .i18nStart op => [.i18nStart op]
  | .i18nEnd op => [.i18nEnd op]
  | .i18nContext op => [.i18nContext op]
  | .icuStart op => [.icuStart op]
  | _ => []

def start? : CreateOp → Option I18nStart
  | .i18nStart op => some op
  | _ => none

def context? : CreateOp → Option I18nContextOp
  | .i18nContext op => some op
  | _ => none

def icu? : CreateOp → Option IcuStart
  | .icuStart op => some op
  | _ => none

theorem start?_eq_some_iff {start : I18nStart} :
    op.start? = some start ↔ op = .i18nStart start := by
  cases op <;> simp [start?]

theorem context?_eq_some_iff : op.context? = some context ↔ op = .i18nContext context := by
  cases op <;> simp [context?]

theorem icu?_eq_some_iff {icu : IcuStart} : op.icu? = some icu ↔ op = .icuStart icu := by
  cases op <;> simp [icu?]

def bounds : CreateOp → Bool
  | .i18nStart _ | .i18nEnd _ => true
  | _ => false

/-- The block that is open after the operation. -/
def opens (block : Option I18nStart) : CreateOp → Option I18nStart
  | .i18nStart op => some op
  | .i18nEnd _ => none
  | _ => block

theorem opens_of_bounds (h : op.bounds = false) (block : Option I18nStart) :
    op.opens block = block := by
  cases op <;> simp [bounds] at h <;> rfl

theorem translation_cases (op : CreateOp) :
    op.translation = [op] ∨
      op.translation = [] ∧ op.start? = none ∧ op.context? = none ∧ op.icu? = none ∧
        ∀ block, op.opens block = block := by
  cases op with
  | i18nStart op => exact .inl rfl
  | i18nEnd op => exact .inl rfl
  | i18nContext op => exact .inl rfl
  | icuStart op => exact .inl rfl
  | _ => exact .inr ⟨rfl, rfl, rfl, rfl, fun _ => rfl⟩

end CreateOp

/-! ## Places of ICU expressions -/

/-- The ICU expressions, each with the block that is open there. -/
def icuPlaces : Option I18nStart → List CreateOp → List (IcuStart × Option I18nStart)
  | _, [] => []
  | block, op :: ops => op.icu?.toList.map (·, block) ++ icuPlaces (op.opens block) ops

theorem icuPlaces_append (block : Option I18nStart) (ops ops' : List CreateOp) :
    icuPlaces block (ops ++ ops') =
      icuPlaces block ops ++ icuPlaces (ops.foldl CreateOp.opens block) ops' := by
  induction ops generalizing block with
  | nil => rfl
  | cons op ops ih =>
    rw [List.cons_append, icuPlaces, icuPlaces, ih, List.append_assoc]
    rfl

theorem map_fst_icuPlaces (block : Option I18nStart) (ops : List CreateOp) :
    (icuPlaces block ops).map Prod.fst = ops.filterMap CreateOp.icu? := by
  induction ops generalizing block with
  | nil => rfl
  | cons op ops ih =>
    rw [icuPlaces, List.map_append, ih, List.map_map, List.filterMap_cons]
    cases op.icu? <;> rfl

theorem icuPlaces_of_placedIcus {block : Option I18nStart} {placed : List PlacedIcu}
    (h : placedIcus block ops = .ok placed) :
    icuPlaces block ops = placed.map fun place => (place.icu, some place.block) := by
  induction ops generalizing block placed with
  | nil =>
    simp only [placedIcus, pure, Except.pure, Except.ok.injEq] at h
    rw [← h]
    rfl
  | cons op ops ih =>
    cases op with
    | icuStart op =>
      cases block with
      | none => simp [placedIcus, throw, throwThe, MonadExceptOf.throw] at h
      | some block =>
        rw [placedIcus] at h
        obtain ⟨others, _, hothers, hplaced⟩ := yields_bind.1 (yields_except.2 h : Yields _ () _ ())
        obtain ⟨rfl, -⟩ := yields_pure.1 hplaced
        rw [List.map_cons, ← ih (yields_except.1 hothers)]
        rfl
    | _ =>
      simp only [placedIcus] at h
      exact ih h

theorem mem_icuPlaces_iff {block place : Option I18nStart} {icu : IcuStart} :
    (icu, place) ∈ icuPlaces block ops ↔
      ∃ before after, ops = before ++ .icuStart icu :: after ∧
        before.foldl CreateOp.opens block = place := by
  constructor
  · intro h
    induction ops generalizing block with
    | nil => simp [icuPlaces] at h
    | cons op ops ih =>
      rw [icuPlaces, List.mem_append] at h
      rcases h with h | h
      · obtain ⟨hicu, rfl⟩ : op.icu? = some icu ∧ block = place := by simpa using h
        rw [CreateOp.icu?_eq_some_iff.1 hicu]
        exact ⟨[], ops, rfl, rfl⟩
      · obtain ⟨before, after, rfl, hplace⟩ := ih h
        exact ⟨op :: before, after, rfl, hplace⟩
  · rintro ⟨before, after, rfl, rfl⟩
    rw [icuPlaces_append]
    simp [icuPlaces, CreateOp.icu?]

/-- The block that is open is the one that started last, if none has ended since. -/
theorem foldl_opens_eq_some_iff {block : I18nStart} :
    ops.foldl CreateOp.opens none = some block ↔
      ∃ front inner, ops = front ++ .i18nStart block :: inner ∧
        ∀ op ∈ inner, op.bounds = false := by
  constructor
  · intro h
    induction ops using List.reverseRecOn with
    | nil => simp at h
    | append_singleton ops op ih =>
      rw [List.foldl_append, List.foldl_cons, List.foldl_nil] at h
      by_cases hbounds : op.bounds = true
      · cases op with
        | i18nStart op =>
          obtain rfl : op = block := by simpa [CreateOp.opens] using h
          exact ⟨ops, [], rfl, by simp⟩
        | i18nEnd op => simp [CreateOp.opens] at h
        | _ => simp [CreateOp.bounds] at hbounds
      · rw [CreateOp.opens_of_bounds (by simpa using hbounds)] at h
        obtain ⟨front, inner, rfl, hinner⟩ := ih h
        refine ⟨front, inner ++ [op], by simp, ?_⟩
        intro other hother
        rcases List.mem_append.1 hother with hother | hother
        · exact hinner other hother
        · obtain rfl := List.mem_singleton.1 hother
          simpa using hbounds
  · rintro ⟨front, inner, rfl, hinner⟩
    rw [List.foldl_append, List.foldl_cons]
    induction inner using List.reverseRecOn with
    | nil => rfl
    | append_singleton inner op ih =>
      rw [List.foldl_append, List.foldl_cons, List.foldl_nil,
        CreateOp.opens_of_bounds (hinner op (by simp))]
      exact ih fun other hother => hinner other (by simp [hother])

/-! ## Operations that take no part -/

theorem filterMap_flatMap_translation {α : Type} {f : CreateOp → Option α}
    (hf : ∀ op : CreateOp, op.translation = [op] ∨ f op = none) (ops : List CreateOp) :
    (ops.flatMap CreateOp.translation).filterMap f = ops.filterMap f := by
  induction ops with
  | nil => rfl
  | cons op ops ih =>
    rw [List.flatMap_cons, List.filterMap_append, ih]
    rcases op.translation_cases with htranslation | ⟨htranslation, -⟩
    · rw [htranslation, ← List.filterMap_append, List.singleton_append]
    · have hnone : f op = none := (hf op).resolve_left (by simp [htranslation])
      rw [htranslation, List.filterMap_nil, List.nil_append, List.filterMap_cons_none hnone]

theorem icuPlaces_flatMap_translation (block : Option I18nStart) (ops : List CreateOp) :
    icuPlaces block (ops.flatMap CreateOp.translation) = icuPlaces block ops := by
  induction ops generalizing block with
  | nil => rfl
  | cons op ops ih =>
    rw [List.flatMap_cons]
    rcases op.translation_cases with htranslation | ⟨htranslation, -, -, hicu, hopens⟩
    · rw [htranslation, List.singleton_append, icuPlaces, icuPlaces, ih]
    · rw [htranslation, List.nil_append, icuPlaces, hicu, hopens, ih]
      rfl

/-! ## Views and jobs -/

namespace View

def translation (view : View) : List CreateOp :=
  view.create.toList.flatMap CreateOp.translation

def starts (view : View) : List I18nStart :=
  view.create.toList.filterMap CreateOp.start?

def contexts (view : View) : List I18nContextOp :=
  view.create.toList.filterMap CreateOp.context?

def places (view : View) : List (IcuStart × Option I18nStart) :=
  icuPlaces none view.create.toList

theorem mem_starts {view : View} {start : I18nStart} :
    start ∈ view.starts ↔ .i18nStart start ∈ view.create.toList := by
  simp [starts, CreateOp.start?_eq_some_iff]

theorem mem_contexts {view : View} :
    context ∈ view.contexts ↔ .i18nContext context ∈ view.create.toList := by
  simp [contexts, CreateOp.context?_eq_some_iff]

theorem starts_eq (view : View) : view.starts = view.translation.filterMap CreateOp.start? :=
  (filterMap_flatMap_translation
    (fun op => op.translation_cases.imp_right fun h => h.2.1) _).symm

theorem contexts_eq (view : View) :
    view.contexts = view.translation.filterMap CreateOp.context? :=
  (filterMap_flatMap_translation
    (fun op => op.translation_cases.imp_right fun h => h.2.2.1) _).symm

theorem places_eq (view : View) : view.places = icuPlaces none view.translation :=
  (icuPlaces_flatMap_translation none _).symm

end View

namespace Job

def translations (job : Job) : List (List CreateOp) :=
  job.units.map View.translation

def starts (job : Job) : List I18nStart :=
  job.units.flatMap View.starts

def contexts (job : Job) : List I18nContextOp :=
  job.units.flatMap View.contexts

def places (job : Job) : List (IcuStart × Option I18nStart) :=
  job.units.flatMap View.places

theorem flatMap_units_eq {α : Type} {job job' : Job} {f : View → List α}
    {g : List CreateOp → List α} (h : job'.translations = job.translations)
    (hf : ∀ view, f view = g view.translation) : job'.units.flatMap f = job.units.flatMap f := by
  have hjob : ∀ job : Job, job.units.flatMap f = job.translations.flatMap g := by
    intro job
    rw [translations, List.flatMap_map]
    exact List.flatMap_congr fun view _ => hf view
  rw [hjob, hjob, h]

end Job

/-! ## Numbers -/

section Numbers

variable {α : Type} {f : CreateOp → Option α} {g : α → Xref}

theorem sublist_flatMap_xrefs (hf : ∀ op a, f op = some a → op.declared = [g a])
    (ops : List CreateOp) : ((ops.filterMap f).map g).Sublist (ops.flatMap CreateOp.xrefs) := by
  induction ops with
  | nil => exact .slnil
  | cons op ops ih =>
    rw [List.flatMap_cons]
    cases hop : f op with
    | none =>
      rw [List.filterMap_cons_none hop]
      exact ih.trans (List.sublist_append_right _ _)
    | some a =>
      rw [List.filterMap_cons_some hop, List.map_cons, ← List.singleton_append, ← hf op a hop]
      refine List.Sublist.append ?_ ih
      rw [CreateOp.xrefs, List.append_assoc]
      exact List.sublist_append_left _ _

theorem View.sublist_xrefs (hf : ∀ op a, f op = some a → op.declared = [g a]) (view : View) :
    ((view.create.toList.filterMap f).map g).Sublist view.xrefs :=
  (sublist_flatMap_xrefs hf _).trans
    ((List.sublist_append_left _ _).trans (List.sublist_cons_self _ _))

theorem Job.nodup_flatMap_filterMap (hf : ∀ op a, f op = some a → op.declared = [g a]) {job : Job}
    (h : job.xrefs.Nodup) :
    (job.units.flatMap fun view => (view.create.toList.filterMap f).map g).Nodup :=
  h.sublist (List.Sublist.flatMap_right _ fun view _ => view.sublist_xrefs hf)

theorem Job.nodup_starts {job : Job} (h : job.xrefs.Nodup) :
    (job.starts.map I18nStart.xref).Nodup := by
  rw [starts, List.map_flatMap]
  refine nodup_flatMap_filterMap ?_ h
  intro op start hstart
  rw [CreateOp.start?_eq_some_iff.1 hstart]
  rfl

theorem Job.nodup_contexts {job : Job} (h : job.xrefs.Nodup) :
    (job.contexts.map I18nContextOp.xref).Nodup := by
  rw [contexts, List.map_flatMap]
  refine nodup_flatMap_filterMap ?_ h
  intro op context hcontext
  rw [CreateOp.context?_eq_some_iff.1 hcontext]
  rfl

theorem View.nodup_places {view : View} (h : view.xrefs.Nodup) :
    (view.places.map fun place => place.1.xref).Nodup := by
  have hxrefs : view.places.map (fun place => place.1.xref) =
      (view.create.toList.filterMap CreateOp.icu?).map IcuStart.xref := by
    rw [← map_fst_icuPlaces none, List.map_map]
    rfl
  rw [hxrefs]
  refine h.sublist (view.sublist_xrefs ?_)
  intro op icu hicu
  rw [CreateOp.icu?_eq_some_iff.1 hicu]
  rfl

end Numbers

/-- The context is the only one of the job with its number. -/
def Job.DeclaresOnce (job : Job) (context : I18nContextOp) : Prop :=
  job.contexts.filter (fun other => other.xref = context.xref) = [context]

theorem Job.declaresOnce {job : Job} (hxrefs : (job.contexts.map I18nContextOp.xref).Nodup)
    (h : context ∈ job.contexts) : job.DeclaresOnce context := by
  unfold DeclaresOnce
  obtain ⟨before, after, hcontexts⟩ := List.append_of_mem h
  rw [hcontexts, List.map_append, List.map_cons, List.nodup_middle, List.nodup_cons,
    List.mem_append, not_or] at hxrefs
  have hnone : ∀ others : List I18nContextOp, context.xref ∉ others.map I18nContextOp.xref →
      others.filter (fun other => other.xref = context.xref) = [] := by
    intro others hothers
    rw [List.filter_eq_nil_iff]
    intro other hother hxref
    exact hothers (List.mem_map.2 ⟨other, hother, by simpa using hxref⟩)
  rw [hcontexts, List.filter_append, List.filter_cons_of_pos (by simp), hnone _ hxrefs.1.1,
    hnone _ hxrefs.1.2, List.nil_append]

end TemplateLowering
