import TemplateLowering.Proofs.Pass.BlockContext

/-!
# Contexts of ICU expressions

An ICU expression shares the context of the block around it when it is the whole message of the
block, and otherwise a context is declared for it alone.  After the pass every block and every ICU
expression has its context, which is `Job.Contexted`.
-/

namespace TemplateLowering

/-! ## Places after a change -/

theorem icuPlaces_map {f : CreateOp → CreateOp} {g : IcuStart → IcuStart}
    (hicu : ∀ op, (f op).icu? = op.icu?.map g)
    (hopens : ∀ op block, (f op).opens block = op.opens block) (block : Option I18nStart)
    (ops : List CreateOp) :
    icuPlaces block (ops.map f) = (icuPlaces block ops).map fun place => (g place.1, place.2) := by
  induction ops generalizing block with
  | nil => rfl
  | cons op ops ih =>
    rw [List.map_cons, icuPlaces, icuPlaces, hopens, ih, hicu, List.map_append]
    cases op.icu? <;> rfl

theorem icuPlaces_eq_nil {ops : List CreateOp} (h : ∀ op ∈ ops, op.icu? = none)
    (block : Option I18nStart) : icuPlaces block ops = [] := by
  have hicus := map_fst_icuPlaces block ops
  rw [List.filterMap_eq_nil_iff.2 h] at hicus
  exact List.map_eq_nil_iff.1 hicus

theorem View.start_of_mem_places {view : View} {icu : IcuStart} {block : I18nStart}
    (h : (icu, some block) ∈ view.places) : block ∈ view.starts := by
  obtain ⟨before, after, hops, hblock⟩ := mem_icuPlaces_iff.1 h
  obtain ⟨front, inner, rfl, -⟩ := foldl_opens_eq_some_iff.1 hblock
  rw [View.mem_starts, hops]
  simp

theorem filterMap_map_append {α : Type} {f : CreateOp → CreateOp} {g : CreateOp → Option α}
    (hf : ∀ op, g (f op) = g op) (ops new : List CreateOp) :
    (ops.map f ++ new).filterMap g = ops.filterMap g ++ new.filterMap g := by
  rw [List.filterMap_append, List.filterMap_map]
  have hcomp : g ∘ f = g := funext hf
  rw [hcomp]

/-! ## Contexts of the ICU expressions of a view -/

def IcuStart.withContext (entries : List (Xref × Xref)) (icu : IcuStart) : IcuStart :=
  match entries.lookup icu.xref with
  | some context => { icu with context := some context }
  | none => icu

theorem icu?_assignIcuContext (entries : List (Xref × Xref)) (op : CreateOp) :
    (assignIcuContext entries op).icu? = op.icu?.map (IcuStart.withContext entries) := by
  cases op with
  | icuStart icu =>
    unfold assignIcuContext IcuStart.withContext CreateOp.icu?
    cases hlookup : entries.lookup icu.xref <;> simp [hlookup]
  | _ => rfl

theorem assignIcuContext_keeps (entries : List (Xref × Xref)) (op : CreateOp) :
    (assignIcuContext entries op).start? = op.start? ∧
      (assignIcuContext entries op).context? = op.context? ∧
      ∀ block, (assignIcuContext entries op).opens block = op.opens block := by
  cases op with
  | icuStart icu =>
    unfold assignIcuContext
    cases hlookup : entries.lookup icu.xref with
    | some context =>
      simp only [hlookup]
      exact ⟨rfl, rfl, fun _ => rfl⟩
    | none => simp [hlookup]
  | _ => exact ⟨rfl, rfl, fun _ => rfl⟩

def PlacedIcu.ownContext (placed : PlacedIcu) (xref : Xref) : I18nContextOp :=
  { xref, kind := .icu, block := some placed.block.root, message := placed.icu.message }

/-- The context is shared with the block, or it is declared for the ICU expression. -/
def PlacedIcu.Gets (placed : PlacedIcu) : Xref × Option CreateOp → Prop
  | (context, declared) =>
    (placed.icu.message.id = placed.block.message.id ∧ placed.block.context = some context ∧
        declared = none) ∨
      (placed.icu.message.id ≠ placed.block.message.id ∧
        declared = some (.i18nContext (placed.ownContext context)))

theorem PlacedIcu.gets_of_yields {placed : PlacedIcu} {blocks : BlockContexts}
    (hknown : blocks.lookup placed.block.xref = placed.block.context)
    (hsome : placed.block.context.isSome = true) {context : Xref × Option CreateOp}
    {s t : List Xref × Ids}
    (h : Yields (placed.context blocks : ContextPass (List Xref) _) s context t) :
    placed.Gets context ∧ t.1 = s.1 := by
  unfold PlacedIcu.context PlacedIcu.sharedContext? at h
  by_cases hid : placed.icu.message.id = placed.block.message.id
  · obtain ⟨xref, hxref⟩ := Option.isSome_iff_exists.1 hsome
    rw [if_pos hid, hknown, hxref] at h
    obtain ⟨rfl, rfl⟩ := yields_pure.1 h
    exact ⟨.inl ⟨hid, hxref, rfl⟩, rfl⟩
  · rw [if_neg hid] at h
    simp only [yields_bind, yields_pure] at h
    obtain ⟨xref, u, hxref, rfl, rfl⟩ := h
    exact ⟨.inr ⟨hid, rfl⟩, (yields_freshXref_context.1 hxref).2.1.symm⟩

theorem lookup_eq_some_of_mem {entries : List (Xref × Xref)} {key value : Xref}
    (hnodup : (entries.map Prod.fst).Nodup) (hmem : (key, value) ∈ entries) :
    entries.lookup key = some value := by
  induction entries with
  | nil => simp at hmem
  | cons entry entries ih =>
    obtain ⟨other, context⟩ := entry
    rw [List.map_cons, List.nodup_cons] at hnodup
    rcases List.mem_cons.1 hmem with heq | hrest
    · obtain ⟨rfl, rfl⟩ := Prod.mk.inj heq
      exact List.lookup_cons_self
    · have hne : key ≠ other := by
        rintro rfl
        exact hnodup.1 (List.mem_map.2 ⟨_, hrest, rfl⟩)
      rw [BlockContexts.lookup_cons_ne hne]
      exact ih hnodup.2 hrest

theorem lookup_assigned {placed : List PlacedIcu} {contexts : List (Xref × Option CreateOp)}
    (hnodup : (placed.map (·.icu.xref)).Nodup) (h : List.Forall₂ PlacedIcu.Gets placed contexts) :
    List.Forall₂ (fun place context => place.Gets context ∧
      ((placed.map (·.icu.xref)).zip (contexts.map Prod.fst)).reverse.lookup place.icu.xref =
        some context.1) placed contexts := by
  have hlength := h.length_eq
  rw [List.forall₂_iff_zip]
  refine ⟨hlength, ?_⟩
  intro place context hmem
  refine ⟨List.forall₂_zip h hmem, ?_⟩
  apply lookup_eq_some_of_mem
  · rw [List.map_reverse, List.nodup_reverse, List.map_fst_zip (by simp [hlength])]
    exact hnodup
  · rw [List.mem_reverse, List.zip_map]
    exact List.mem_map.2 ⟨_, hmem, rfl⟩

def PlacedIcu.settled (placed : PlacedIcu) (context : Xref) : IcuStart × Option I18nStart :=
  ({ placed.icu with context := some context }, some placed.block)

/-- Whether an ICU expression is not the whole message of the block around it. -/
def hasOwnContext : IcuStart × Option I18nStart → Bool
  | (icu, some block) => icu.message.id ≠ block.message.id
  | (_, none) => false

def settledPlaces (placed : List PlacedIcu) (contexts : List (Xref × Option CreateOp)) :
    List (IcuStart × Option I18nStart) :=
  List.zipWith (fun place context => place.settled context.1) placed contexts

section Settled

variable {placed : List PlacedIcu} {contexts : List (Xref × Option CreateOp)}

theorem mem_settledPlaces (h : List.Forall₂ PlacedIcu.Gets placed contexts)
    {place : IcuStart × Option I18nStart} (hplace : place ∈ settledPlaces placed contexts) :
    ∃ icu ∈ placed, ∃ context ∈ contexts, icu.Gets context ∧ icu.settled context.1 = place := by
  induction h with
  | nil => simp [settledPlaces] at hplace
  | @cons icu context placed contexts hgets _ ih =>
    rw [settledPlaces, List.zipWith_cons_cons] at hplace
    rcases List.mem_cons.1 hplace with rfl | hrest
    · exact ⟨icu, List.mem_cons_self, context, List.mem_cons_self, hgets, rfl⟩
    · obtain ⟨icu', hicu, context', hcontext, hspec⟩ := ih hrest
      exact ⟨icu', List.mem_cons_of_mem _ hicu, context', List.mem_cons_of_mem _ hcontext, hspec⟩

theorem settled_mem_settledPlaces (h : List.Forall₂ PlacedIcu.Gets placed contexts)
    {icu : PlacedIcu} (hicu : icu ∈ placed) :
    ∃ context, icu.Gets context ∧ icu.settled context.1 ∈ settledPlaces placed contexts := by
  induction h with
  | nil => simp at hicu
  | @cons icu' context placed contexts hgets _ ih =>
    rw [settledPlaces, List.zipWith_cons_cons]
    rcases List.mem_cons.1 hicu with rfl | hrest
    · exact ⟨context, hgets, List.mem_cons_self⟩
    · obtain ⟨context', hgets', hmem⟩ := ih hrest
      exact ⟨context', hgets', List.mem_cons_of_mem _ hmem⟩

theorem own_settledPlaces (h : List.Forall₂ PlacedIcu.Gets placed contexts) :
    ((settledPlaces placed contexts).filter hasOwnContext).map (fun place => place.1.context) =
      ((contexts.filterMap Prod.snd).filterMap CreateOp.context?).map fun op => some op.xref := by
  induction h with
  | nil => rfl
  | @cons place context placed contexts hgets _ ih =>
    obtain ⟨xref, declared⟩ := context
    rw [settledPlaces, List.zipWith_cons_cons]
    rcases hgets with ⟨hid, -, rfl⟩ | ⟨hid, rfl⟩
    · have hshared : hasOwnContext (place.settled xref) = false := by
        simpa [hasOwnContext, PlacedIcu.settled] using hid
      rw [List.filter_cons_of_neg (by simp [hshared])]
      exact ih
    · have hown : hasOwnContext (place.settled xref) = true := by
        simpa [hasOwnContext, PlacedIcu.settled] using hid
      rw [List.filter_cons_of_pos hown, List.map_cons, ← settledPlaces, ih]
      rfl

theorem exists_context_of_declared (h : List.Forall₂ PlacedIcu.Gets placed contexts) {op : CreateOp}
    (hop : op ∈ contexts.filterMap Prod.snd) : ∃ context, op = .i18nContext context := by
  obtain ⟨⟨xref, declared⟩, hcontext, hdeclared⟩ := List.mem_filterMap.1 hop
  obtain ⟨place, -, hgets⟩ := exists_left_of_mem h hcontext
  rcases hgets with ⟨-, -, hnone⟩ | ⟨-, hsome⟩
  · simp [hnone] at hdeclared
  · exact ⟨_, Option.some.inj (hdeclared.symm.trans hsome)⟩

theorem map_withContext_eq {entries : List (Xref × Xref)}
    (h : List.Forall₂ (fun place context => place.Gets context ∧
      entries.lookup place.icu.xref = some context.1) placed contexts) :
    placed.map (fun place => (place.icu.withContext entries, some place.block)) =
      settledPlaces placed contexts := by
  induction h with
  | nil => rfl
  | @cons place context placed contexts hlookup _ ih =>
    have hsettled : (place.icu.withContext entries, some place.block) =
        place.settled context.1 := by
      rw [IcuStart.withContext, hlookup.2]
      rfl
    rw [List.map_cons, ih, hsettled]
    rfl

end Settled

section View

variable {view view' : View} {blocks : BlockContexts} {s t : List Xref × Ids}

theorem View.Sound.createIcuContexts_spec (hview : view.Sound) (hnodup : view.xrefs.Nodup)
    (hblocks : ∀ start ∈ view.starts, blocks.lookup start.xref = start.context ∧
      start.context.isSome = true) (h : Yields (view.createIcuContexts blocks) s view' t) :
    ∃ placed contexts, List.Forall₂ PlacedIcu.Gets placed contexts ∧
      (∀ place ∈ placed, place.block ∈ view.starts) ∧ view'.starts = view.starts ∧
      view'.contexts =
        view.contexts ++ (contexts.filterMap Prod.snd).filterMap CreateOp.context? ∧
      view'.places = settledPlaces placed contexts ∧
      t.1 = s.1 ++ placed.filterMap (PlacedIcu.sharedContext? blocks) := by
  simp only [View.createIcuContexts, yields_bind, yields_pure, yields_lift_context] at h
  obtain ⟨placed, _, ⟨hplaced, rfl⟩, contexts, u, hcontexts, _, v, hmodify, hview', rfl⟩ := h
  obtain rfl : (u.1 ++ placed.filterMap (PlacedIcu.sharedContext? blocks), u.2) = v :=
    congrArg Prod.snd (Except.ok.inj hmodify)
  have hplaces : view.places = placed.map fun place => (place.icu, some place.block) :=
    icuPlaces_of_placedIcus hplaced
  have hblock : ∀ place ∈ placed, place.block ∈ view.starts := by
    intro place hplace
    have hmem : (place.icu, some place.block) ∈ view.places := hplaces ▸ List.mem_map_of_mem hplace
    exact View.start_of_mem_places hmem
  obtain ⟨hthreads, hshared⟩ := (yields_mapM.1 hcontexts).invariant (I := fun r => r.1 = s.1)
    (S := fun _ place context _ => place.Gets context) (by
      intro r place context t hplace hr hyields
      obtain ⟨hlookup, hsome⟩ := hblocks _ (hblock place hplace)
      obtain ⟨hgets, ht⟩ := PlacedIcu.gets_of_yields hlookup hsome hyields
      exact ⟨hgets, ht.trans hr⟩) rfl
  have hgets : List.Forall₂ PlacedIcu.Gets placed contexts :=
    hthreads.forall₂ fun _ _ _ _ _ h => h
  have hicus : (placed.map (·.icu.xref)).Nodup := by
    have hnodup' := View.nodup_places hnodup
    rw [hplaces, List.map_map] at hnodup'
    exact hnodup'
  have hassigned := lookup_assigned hicus hgets
  generalize ((placed.map (·.icu.xref)).zip (contexts.map Prod.fst)).reverse = entries
    at hview' hassigned
  have hlists := (hview.create.lists.map (assignIcuContext entries)).appendAll
    (contexts.filterMap Prod.snd)
  have hops : view'.create.toList = view.create.toList.map (assignIcuContext entries) ++
      contexts.filterMap Prod.snd := by
    rw [← hview']
    exact hlists.toList
  have hnone : ∀ op ∈ contexts.filterMap Prod.snd, op.start? = none ∧ op.icu? = none := by
    intro op hop
    obtain ⟨context, rfl⟩ := exists_context_of_declared hgets hop
    exact ⟨rfl, rfl⟩
  refine ⟨placed, contexts, hgets, hblock, ?_, ?_, ?_, by rw [hshared]⟩
  · rw [View.starts, View.starts, hops,
      filterMap_map_append fun op => (assignIcuContext_keeps entries op).1,
      List.filterMap_eq_nil_iff.2 fun op hop => (hnone op hop).1, List.append_nil]
  · rw [View.contexts, View.contexts, hops,
      filterMap_map_append fun op => (assignIcuContext_keeps entries op).2.1]
  · rw [View.places, hops, icuPlaces_append, icuPlaces_eq_nil fun op hop => (hnone op hop).2,
      List.append_nil, icuPlaces_map (icu?_assignIcuContext entries)
        fun op => (assignIcuContext_keeps entries op).2.2, ← View.places, hplaces, List.map_map]
    exact map_withContext_eq hassigned

/-- The ICU expressions at `places` have their contexts; those of `shared` are contexts of blocks. -/
structure IcusContexted (starts : List I18nStart) (contexts : List I18nContextOp)
    (places : List (IcuStart × Option I18nStart)) (shared : List Xref) : Prop where
  placed : ∀ place ∈ places, ∃ block ∈ starts, place.2 = some block ∧
    (place.1.message.id = block.message.id ∧
        (∃ xref ∈ shared, block.context = some xref ∧ place.1.context = some xref) ∨
      place.1.message.id ≠ block.message.id ∧
        ∃ context ∈ contexts, place.1.context = some context.xref ∧ context.kind = .icu ∧
          context.block = some block.root ∧ context.message = place.1.message)
  own : ((places.filter hasOwnContext).map fun place => place.1.context).Sublist
    (contexts.map fun context => some context.xref)

/-- A block and an ICU expression in it have the same context. -/
def SharedAt (starts : List I18nStart) (places : List (IcuStart × Option I18nStart))
    (xref : Xref) : Prop :=
  ∃ place ∈ places, ∃ block ∈ starts,
    place.2 = some block ∧ block.context = some xref ∧ place.1.context = some xref

structure View.IcusContexted (view view' : View) (shared shared' : List Xref) : Prop where
  starts : view'.starts = view.starts
  contexts : ∀ context ∈ view.contexts, context ∈ view'.contexts
  icus : TemplateLowering.IcusContexted view'.starts view'.contexts view'.places shared'
  stays : ∀ xref ∈ shared, xref ∈ shared'
  learnt : ∀ xref ∈ shared', xref ∈ shared ∨ SharedAt view'.starts view'.places xref

theorem View.Sound.icusContexted (hview : view.Sound) (hnodup : view.xrefs.Nodup)
    (hblocks : ∀ start ∈ view.starts, blocks.lookup start.xref = start.context ∧
      start.context.isSome = true) (h : Yields (view.createIcuContexts blocks) s view' t) :
    view.IcusContexted view' s.1 t.1 := by
  obtain ⟨placed, contexts, hgets, hblock, hstarts, hcontexts, hplaces, hshared⟩ :=
    hview.createIcuContexts_spec hnodup hblocks h
  refine ⟨hstarts, ?_, ⟨?_, ?_⟩, ?_, ?_⟩
  · intro context hcontext
    rw [hcontexts]
    exact List.mem_append_left _ hcontext
  · intro place hplace
    rw [hplaces] at hplace
    obtain ⟨icu, hicu, ⟨xref, declared⟩, hmem, hcase, rfl⟩ := mem_settledPlaces hgets hplace
    refine ⟨icu.block, hstarts ▸ hblock icu hicu, rfl, ?_⟩
    rcases hcase with ⟨hid, hcontext, -⟩ | ⟨hid, rfl⟩
    · refine .inl ⟨hid, xref, ?_, hcontext, rfl⟩
      rw [hshared]
      apply List.mem_append_right
      refine List.mem_filterMap.2 ⟨icu, hicu, ?_⟩
      rw [PlacedIcu.sharedContext?, if_pos hid, (hblocks _ (hblock icu hicu)).1, hcontext]
    · refine .inr ⟨hid, icu.ownContext xref, ?_, rfl, rfl, rfl, rfl⟩
      rw [hcontexts]
      apply List.mem_append_right
      exact List.mem_filterMap.2 ⟨_, List.mem_filterMap.2 ⟨_, hmem, rfl⟩, rfl⟩
  · rw [hplaces, own_settledPlaces hgets, hcontexts, List.map_append]
    exact List.sublist_append_right _ _
  · intro xref hxref
    rw [hshared]
    exact List.mem_append_left _ hxref
  · intro xref hxref
    rw [hshared] at hxref
    rcases List.mem_append.1 hxref with hold | hnew
    · exact .inl hold
    obtain ⟨icu, hicu, hcontext⟩ := List.mem_filterMap.1 hnew
    unfold PlacedIcu.sharedContext? at hcontext
    split at hcontext
    · next hid =>
      rw [(hblocks _ (hblock icu hicu)).1] at hcontext
      obtain ⟨⟨other, declared⟩, hcase, hmem⟩ := settled_mem_settledPlaces hgets hicu
      have hother : icu.block.context = some other := by
        rcases hcase with ⟨-, hother, -⟩ | ⟨hne, -⟩
        · exact hother
        · exact absurd hid hne
      obtain rfl : other = xref := Option.some.inj (hother.symm.trans hcontext)
      exact .inr ⟨_, hplaces ▸ hmem, icu.block, hstarts ▸ hblock icu hicu, rfl, hcontext, rfl⟩
    · simp at hcontext

end View

section Job

variable {job job' : Job} {blocks : BlockContexts} {shared : List Xref}

theorem Job.icusContexted (hjob : job.BlocksContexted blocks) (hnodup : job.xrefs.Nodup)
    (hsound : job.Sound)
    (h : job.runContextPass [] (View.createIcuContexts blocks) = .ok (job', shared)) :
    job'.starts = job.starts ∧ (∀ context ∈ job.contexts, context ∈ job'.contexts) ∧
      IcusContexted job'.starts job'.contexts job'.places shared ∧
      ∀ xref ∈ shared, SharedAt job'.starts job'.places xref := by
  have hblocks : ∀ start ∈ job.starts, blocks.lookup start.xref = start.context ∧
      start.context.isSome = true := by
    intro start hstart
    obtain ⟨context, -, hcontext, -⟩ := hjob.declared start hstart
    exact ⟨hjob.lookup start hstart, by rw [hcontext]; rfl⟩
  have hthreads := (threads_of_runContextPass h).imp
    (S := fun s view view' t => view.IcusContexted view' s.1 t.1) (by
      intro s view view' t hview hyields
      refine (hsound view hview).icusContexted ((List.nodup_flatMap.1 hnodup).1 view hview) ?_
        hyields
      intro start hstart
      exact hblocks start (List.mem_flatMap.2 ⟨view, hview, hstart⟩))
  have hviews : List.Forall₂ (fun view view' => ∃ shared shared',
      view.IcusContexted view' shared shared') job.units job'.units :=
    hthreads.forall₂ fun _ _ _ _ _ hview => ⟨_, _, hview⟩
  refine ⟨?_, ?_, ⟨?_, ?_⟩, ?_⟩
  · apply flatMap_eq_of_forall₂ hviews
    rintro _ _ ⟨_, _, hview⟩
    exact hview.starts
  · intro context hcontext
    obtain ⟨view, hview, hcontext⟩ := List.mem_flatMap.1 hcontext
    obtain ⟨view', hview', _, _, hspec⟩ := exists_right_of_mem hviews hview
    exact List.mem_flatMap.2 ⟨view', hview', hspec.contexts context hcontext⟩
  · intro place hplace
    obtain ⟨view', hview', hplace⟩ := List.mem_flatMap.1 hplace
    obtain ⟨view, -, u, v, hview, hend⟩ := hthreads.exists_of_mem_stays
      (K := fun s xref => xref ∈ s.1) (fun _ _ _ _ hview => hview.stays) hview'
    obtain ⟨block, hblock, heq, hcase⟩ := hview.icus.placed place hplace
    refine ⟨block, List.mem_flatMap.2 ⟨view', hview', hblock⟩, heq, ?_⟩
    rcases hcase with ⟨hid, xref, hxref, hcontexts⟩ | ⟨hid, context, hcontext, hspec⟩
    · exact .inl ⟨hid, xref, hend xref hxref, hcontexts⟩
    · exact .inr ⟨hid, context, List.mem_flatMap.2 ⟨view', hview', hcontext⟩, hspec⟩
  · rw [places, contexts, List.filter_flatMap, List.map_flatMap, List.map_flatMap]
    apply List.Sublist.flatMap_right
    intro view' hview'
    obtain ⟨view, -, _, _, hview⟩ := exists_left_of_mem hviews hview'
    exact hview.icus.own
  · intro xref hxref
    have hlearnt := hthreads.learnt (K := fun s xref => xref ∈ s.1)
      (L := fun view' xref => SharedAt view'.starts view'.places xref)
      (fun _ _ _ _ hview => hview.learnt) hxref
    rcases hlearnt with hnone | ⟨view', hview', place, hplace, block, hblock, hspec⟩
    · simp at hnone
    · exact ⟨place, List.mem_flatMap.2 ⟨view', hview', hplace⟩, block,
        List.mem_flatMap.2 ⟨view', hview', hblock⟩, hspec⟩

/-! ## Kinds -/

/-- A shared context becomes one for ICU expressions. -/
def I18nContextOp.converted (shared : List Xref) (context : I18nContextOp) : I18nContextOp :=
  if context.xref ∈ shared then { context with kind := .icu } else context

theorem I18nContextOp.converted_eq (shared : List Xref) (context : I18nContextOp) :
    (context.converted shared).xref = context.xref ∧
      (context.converted shared).block = context.block ∧
      (context.converted shared).message = context.message ∧
      (context.converted shared).kind = if context.xref ∈ shared then .icu else context.kind := by
  unfold converted
  split <;> exact ⟨rfl, rfl, rfl, rfl⟩

theorem convertToIcu_keeps (shared : List Xref) (op : CreateOp) :
    (convertToIcu shared op).start? = op.start? ∧ (convertToIcu shared op).icu? = op.icu? ∧
      (∀ block, (convertToIcu shared op).opens block = op.opens block) ∧
      (convertToIcu shared op).context? = op.context?.map (I18nContextOp.converted shared) := by
  cases op with
  | i18nContext context =>
    have hconverted : convertToIcu shared (.i18nContext context) =
        .i18nContext (context.converted shared) := by
      rw [convertToIcu, I18nContextOp.converted, apply_ite CreateOp.i18nContext]
    rw [hconverted]
    exact ⟨rfl, rfl, fun _ => rfl, rfl⟩
  | _ => exact ⟨rfl, rfl, fun _ => rfl, rfl⟩

theorem View.Sound.convertContexts {view : View} (hview : view.Sound) (shared : List Xref) :
    (view.convertContexts shared).starts = view.starts ∧
      (view.convertContexts shared).contexts =
        view.contexts.map (I18nContextOp.converted shared) ∧
      (view.convertContexts shared).places = view.places := by
  have hlists := hview.create.lists.map (convertToIcu shared)
  have hops : (view.convertContexts shared).create.toList =
      view.create.toList.map (convertToIcu shared) := hlists.toList
  refine ⟨?_, ?_, ?_⟩
  · rw [View.starts, View.starts, hops, List.filterMap_map]
    exact List.filterMap_congr fun op _ => (convertToIcu_keeps shared op).1
  · rw [View.contexts, View.contexts, hops, List.filterMap_map, List.map_filterMap]
    exact List.filterMap_congr fun op _ => (convertToIcu_keeps shared op).2.2.2
  · have hicu : ∀ op, (convertToIcu shared op).icu? = op.icu?.map id := by
      intro op
      rw [(convertToIcu_keeps shared op).2.1, Option.map_id, id]
    rw [View.places, View.places, hops,
      icuPlaces_map hicu fun op => (convertToIcu_keeps shared op).2.2.1]
    exact List.map_id _

theorem Job.convertContexts_spec (hsound : job.Sound) (shared : List Xref)
    (hjob' : job' = Id.run (job.mapUnitsM fun view => pure (view.convertContexts shared))) :
    job'.starts = job.starts ∧
      job'.contexts = job.contexts.map (I18nContextOp.converted shared) ∧
      job'.places = job.places := by
  have hunits : job'.units = job.units.map (View.convertContexts shared) := by
    rw [hjob', mapUnits_eq]
    rfl
  refine ⟨?_, ?_, ?_⟩
  · rw [starts, starts, hunits, List.flatMap_map]
    exact List.flatMap_congr fun view hview => ((hsound view hview).convertContexts shared).1
  · rw [contexts, contexts, hunits, List.flatMap_map, List.map_flatMap]
    exact List.flatMap_congr fun view hview => ((hsound view hview).convertContexts shared).2.1
  · rw [places, places, hunits, List.flatMap_map]
    exact List.flatMap_congr fun view hview => ((hsound view hview).convertContexts shared).2.2

end Job

/-! ## All contexts -/

/-- Every block and every ICU expression has its context: that of the root of the block, and that
of the block around the ICU expression or its own. -/
structure Job.Contexted (job : Job) : Prop where
  blocks : ∀ start ∈ job.starts, ∃ context ∈ job.contexts, start.context = some context.xref ∧
    context.block = some start.root ∧ context.message = start.message
  roots : ∀ start ∈ job.starts, ∀ other ∈ job.starts, start.root = other.root →
    start.context = other.context
  icus : ∀ place ∈ job.places, ∃ block ∈ job.starts, place.2 = some block ∧
    ∃ context ∈ job.contexts, place.1.context = some context.xref ∧ context.kind = .icu ∧
      context.block = some block.root ∧
      (place.1.message.id = block.message.id → block.context = some context.xref) ∧
      (place.1.message.id ≠ block.message.id → context.message = place.1.message)
  own : ((job.places.filter hasOwnContext).map fun place => place.1.context).Nodup
  kinds : ∀ start ∈ job.starts, ∀ context ∈ job.contexts, start.context = some context.xref →
    context.kind = .rootI18n ∨ ∃ place ∈ job.places, ∃ block, place.2 = some block ∧
      block.root = start.root ∧ place.1.context = start.context

section Contexted

variable {job job₁ job₂ : Job} {blocks : BlockContexts} {shared : List Xref}
variable {contexts : List I18nContextOp} {places : List (IcuStart × Option I18nStart)}

theorem Job.BlocksContexted.root_eq (h : job.BlocksContexted blocks) (hnodup : job.xrefs.Nodup)
    {start other : I18nStart} (hstart : start ∈ job.starts) (hother : other ∈ job.starts)
    (hcontext : start.context = other.context) : start.root = other.root := by
  obtain ⟨context, hmem, hxref, -, hblock, -⟩ := h.declared start hstart
  obtain ⟨context', hmem', hxref', -, hblock', -⟩ := h.declared other hother
  have heq : context.xref = context'.xref := by
    rw [hxref, hxref'] at hcontext
    exact Option.some.inj hcontext
  obtain rfl := List.inj_on_of_nodup_map (nodup_contexts hnodup) hmem hmem' heq
  exact Option.some.inj (hblock.symm.trans hblock')

theorem Job.BlocksContexted.icu (h : job.BlocksContexted blocks)
    (hcontexts : ∀ context ∈ job.contexts, context ∈ contexts)
    (hicus : IcusContexted job.starts contexts places shared)
    {place : IcuStart × Option I18nStart} (hplace : place ∈ places) :
    ∃ block ∈ job.starts, place.2 = some block ∧
      ∃ context ∈ contexts.map (I18nContextOp.converted shared),
        place.1.context = some context.xref ∧ context.kind = .icu ∧
        context.block = some block.root ∧
        (place.1.message.id = block.message.id → block.context = some context.xref) ∧
        (place.1.message.id ≠ block.message.id → context.message = place.1.message) := by
  obtain ⟨block, hblock, hat, hcase⟩ := hicus.placed place hplace
  refine ⟨block, hblock, hat, ?_⟩
  rcases hcase with ⟨hid, xref, hxref, hshared, hcontext⟩ |
    ⟨hid, context, hmem, hcontext, hkind, hroot, hmessage⟩
  · -- The context of the block, which is converted because it is shared.
    obtain ⟨context, hmem, hown, -, hroot, -⟩ := h.declared block hblock
    obtain rfl : context.xref = xref := Option.some.inj (hown.symm.trans hshared)
    obtain ⟨hxref', hblock', -, hkind'⟩ := context.converted_eq shared
    refine ⟨_, List.mem_map_of_mem (hcontexts context hmem), ?_, ?_, ?_, ?_, ?_⟩
    · rw [hcontext, hxref']
    · rw [hkind', if_pos hxref]
    · rw [hblock', hroot]
    · intro _
      rw [hshared, hxref']
    · intro hne
      exact absurd hid hne
  · obtain ⟨hxref', hblock', hmessage', hkind'⟩ := context.converted_eq shared
    refine ⟨_, List.mem_map_of_mem hmem, ?_, ?_, ?_, ?_, ?_⟩
    · rw [hcontext, hxref']
    · rw [hkind', hkind, ite_self]
    · rw [hblock', hroot]
    · intro hsame
      exact absurd hsame hid
    · intro _
      rw [hmessage', hmessage]

theorem Job.BlocksContexted.kind (h : job.BlocksContexted blocks) (hnodup : job.xrefs.Nodup)
    (hcontexts : ∀ context ∈ job.contexts, context ∈ contexts)
    (hxrefs : (contexts.map I18nContextOp.xref).Nodup)
    (hshared : ∀ xref ∈ shared, SharedAt job.starts places xref)
    {start : I18nStart} (hstart : start ∈ job.starts) {context : I18nContextOp}
    (hcontext : context ∈ contexts.map (I18nContextOp.converted shared))
    (hxref : start.context = some context.xref) :
    context.kind = .rootI18n ∨ ∃ place ∈ places, ∃ block, place.2 = some block ∧
      block.root = start.root ∧ place.1.context = start.context := by
  obtain ⟨old, hold, rfl⟩ := List.mem_map.1 hcontext
  obtain ⟨declared, hdeclared, hown, hkind, -⟩ := h.declared start hstart
  obtain ⟨hxref', -, -, hkind'⟩ := old.converted_eq shared
  have heq : old.xref = declared.xref := by
    rw [hown, hxref'] at hxref
    exact (Option.some.inj hxref).symm
  obtain rfl := List.inj_on_of_nodup_map hxrefs hold (hcontexts declared hdeclared) heq
  by_cases hmem : old.xref ∈ shared
  · obtain ⟨place, hplace, block, hblock, hat, hshares, hplaced⟩ := hshared _ hmem
    refine .inr ⟨place, hplace, block, hat, ?_, hplaced.trans hown.symm⟩
    exact h.root_eq hnodup hblock hstart (hshares.trans hown.symm)
  · rw [hkind', if_neg hmem]
    exact .inl hkind

theorem Job.BlocksContexted.contexted (hjob : job.BlocksContexted blocks)
    (hnodup : job.xrefs.Nodup) (hsound : job.Sound)
    (h : job.runContextPass [] (View.createIcuContexts blocks) = .ok (job₁, shared))
    (hnodup₁ : job₁.xrefs.Nodup) (hsound₁ : job₁.Sound)
    (hjob₂ : job₂ = Id.run (job₁.mapUnitsM fun view => pure (view.convertContexts shared))) :
    job₂.Contexted := by
  obtain ⟨hstarts, hcontexts, hicus, hshared⟩ := icusContexted hjob hnodup hsound h
  obtain ⟨hstarts₂, hcontexts₂, hplaces₂⟩ := convertContexts_spec hsound₁ shared hjob₂
  rw [hstarts] at hicus hshared hstarts₂
  have hxrefs := nodup_contexts hnodup₁
  refine ⟨?_, ?_, ?_, ?_, ?_⟩
  · intro start hstart
    rw [hstarts₂] at hstart
    obtain ⟨context, hmem, hxref, -, hblock, hmessage⟩ := hjob.declared start hstart
    obtain ⟨hxref', hblock', hmessage', -⟩ := context.converted_eq shared
    refine ⟨context.converted shared, ?_, ?_, ?_, ?_⟩
    · rw [hcontexts₂]
      exact List.mem_map_of_mem (hcontexts context hmem)
    · rw [hxref, hxref']
    · rw [hblock', hblock]
    · rw [hmessage', hmessage]
  · rw [hstarts₂]
    exact hjob.shared
  · rw [hplaces₂, hstarts₂, hcontexts₂]
    intro place hplace
    exact hjob.icu hcontexts hicus hplace
  · rw [hplaces₂]
    have hsome := hxrefs.map (Option.some_injective _)
    rw [List.map_map] at hsome
    exact hicus.own.nodup hsome
  · rw [hplaces₂, hstarts₂, hcontexts₂]
    intro start hstart context hcontext hxref
    exact hjob.kind hnodup hcontexts hxrefs hshared hstart hcontext hxref

theorem Job.contexted_of_createI18nContexts (hsound : job.Sound)
    (hrooted : job.Rooted) (hbalanced : job.Balanced) (hcovered : job.Covered)
    (hdistinct : Distinct job.ids.nextXref job.xrefs) (h : job.createI18nContexts = .ok job₁) :
    job₁.Contexted := by
  obtain ⟨job₂, job₃, job₄, job₅, roots, blocks, shared, hsteps⟩ :=
    exists_contextSteps hsound hrooted hbalanced hcovered
  have hdistinct₂ := hsteps.ofAttributes.2.grows.distinct hdistinct
  have hdistinct₃ := hsteps.ofRoots.2.grows.distinct hdistinct₂
  have hdistinct₄ := hsteps.ofBlocks.2.grows.distinct hdistinct₃
  have hdistinct₅ := hsteps.ofIcus.2.grows.distinct hdistinct₄
  have hroots := rootsContexted (distinct_iff.1 hdistinct₂).1 hsteps.ofAttributes.2.sound
    hsteps.ofRoots.1
  have hblocks := hroots.blocksContexted hsteps.ofRoots.2.rooted (distinct_iff.1 hdistinct₃).1
    hsteps.ofRoots.2.sound hsteps.ofBlocks.1
  rw [hsteps.eq_ok] at h
  exact hblocks.contexted (distinct_iff.1 hdistinct₄).1 hsteps.ofBlocks.2.sound hsteps.ofIcus.1
    (distinct_iff.1 hdistinct₅).1 hsteps.ofIcus.2.sound (Except.ok.inj h).symm

end Contexted

end TemplateLowering
