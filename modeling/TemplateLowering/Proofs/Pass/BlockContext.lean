import TemplateLowering.Proofs.Pass.I18nContext
import TemplateLowering.Proofs.Op.Translation

/-!
# Contexts of blocks

The context of a root block is declared in its own view, and the other blocks look it up by the
number of their root.  A number stands for one block only, so that a later view never replaces the
entry of a root, and the entry of a block that is not a root is never read for another block.
-/

namespace TemplateLowering

variable {start : I18nStart} {s t : BlockContexts × Ids}

def rootContext (xref : Xref) (block : I18nStart) : I18nContextOp :=
  { xref, kind := .rootI18n, block := some block.xref, message := block.message }

theorem BlockContexts.lookup_cons_ne {known : BlockContexts} {block context key : Xref}
    (h : key ≠ block) : List.lookup key ((block, context) :: known) = known.lookup key := by
  have hbeq : (key == block) = false := by simpa using h
  rw [List.lookup_cons, hbeq]

/-! ## Roots -/

section Declare

variable {s t : BlockContexts × Ids} {contexts : List CreateOp}

theorem declareRootContexts_spec {blocks : List I18nStart}
    (h : Yields (declareRootContexts blocks) s contexts t)
    (hnodup : (blocks.map I18nStart.xref).Nodup) :
    (∀ key ∉ blocks.map I18nStart.xref, t.1.lookup key = s.1.lookup key) ∧
      (∀ block ∈ blocks, ∃ xref, t.1.lookup block.xref = some xref ∧
        .i18nContext (rootContext xref block) ∈ contexts) ∧
      ∀ op ∈ contexts, op.start? = none := by
  induction blocks generalizing s contexts with
  | nil =>
    obtain ⟨rfl, rfl⟩ := yields_pure.1 h
    simp
  | cons block blocks ih =>
    rw [List.map_cons, List.nodup_cons] at hnodup
    simp only [declareRootContexts, yields_bind, yields_pure] at h
    obtain ⟨xref, u, hxref, _, v, hmodify, others, w, hothers, rfl, rfl⟩ := h
    obtain rfl : ((block.xref, xref) :: u.1, u.2) = v := congrArg Prod.snd (Except.ok.inj hmodify)
    have hknown : s.1 = u.1 := (yields_freshXref_context.1 hxref).2.1
    obtain ⟨hstays, hblocks, hstarts⟩ := ih hothers hnodup.2
    refine ⟨?_, ?_, ?_⟩
    · intro key hkey
      rw [List.map_cons, List.mem_cons, not_or] at hkey
      rw [hstays key hkey.2, BlockContexts.lookup_cons_ne hkey.1, hknown]
    · intro other hother
      rcases List.mem_cons.1 hother with rfl | hother
      · refine ⟨xref, ?_, List.mem_cons_self⟩
        rw [hstays _ hnodup.1]
        exact List.lookup_cons_self
      · obtain ⟨context, hlookup, hmem⟩ := hblocks other hother
        exact ⟨context, hlookup, List.mem_cons_of_mem _ hmem⟩
    · intro op hop
      rcases List.mem_cons.1 hop with rfl | hop
      · rfl
      · exact hstarts op hop

end Declare

theorem CreateOp.rootBlock?_eq_some_iff {op : CreateOp} :
    op.rootBlock? = some start ↔ op = .i18nStart start ∧ start.xref = start.root := by
  constructor
  · intro h
    cases op with
    | i18nStart op =>
      obtain ⟨hroot, rfl⟩ : op.xref = op.root ∧ op = start := by simpa [rootBlock?] using h
      exact ⟨rfl, hroot⟩
    | _ => simp [rootBlock?] at h
  · rintro ⟨rfl, hroot⟩
    simp [rootBlock?, hroot]

theorem BlockContexts.start_of_assignRoot {known : BlockContexts} {op : CreateOp}
    (h : known.assignRoot op = .i18nStart start) (hroot : start.xref = start.root) :
    ∃ old, op = .i18nStart old ∧ old.xref = old.root ∧
      start = { old with context := known.lookup old.xref } := by
  cases op with
  | i18nStart old =>
    by_cases hold : old.xref = old.root
    · rw [assignRoot, if_pos hold] at h
      exact ⟨old, rfl, hold, (CreateOp.i18nStart.inj h).symm⟩
    · rw [assignRoot, if_neg hold] at h
      obtain rfl := CreateOp.i18nStart.inj h
      exact absurd hroot hold
  | _ => simp [assignRoot] at h

def View.rootXrefs (view : View) : List Xref :=
  (view.create.toList.filterMap CreateOp.rootBlock?).map I18nStart.xref

theorem Job.nodup_rootXrefs {job : Job} (h : job.xrefs.Nodup) :
    (job.units.flatMap View.rootXrefs).Nodup := by
  apply nodup_flatMap_filterMap ?_ h
  intro op start hstart
  obtain ⟨rfl, -⟩ := CreateOp.rootBlock?_eq_some_iff.1 hstart
  rfl

structure View.RootsContexted (view view' : View) (known known' : BlockContexts) : Prop where
  stays : ∀ key ∉ view.rootXrefs, known'.lookup key = known.lookup key
  learnt : ∀ key ∈ view.rootXrefs, ∃ start ∈ view'.starts, start.xref = key ∧ start.root = key
  declared : ∀ start ∈ view'.starts, start.xref = start.root → start.xref ∈ view.rootXrefs ∧
    ∃ xref, known'.lookup start.xref = some xref ∧ start.context = some xref ∧
      rootContext xref start ∈ view'.contexts

theorem View.Sound.rootsContexted {view view' : View} (hview : view.Sound)
    (hnodup : view.rootXrefs.Nodup) (h : Yields view.createRootContexts s view' t) :
    view.RootsContexted view' s.1 t.1 := by
  simp only [View.createRootContexts, yields_bind, yields_pure] at h
  obtain ⟨contexts, u, hcontexts, known, v, hknown, rfl, rfl⟩ := h
  obtain ⟨rfl, rfl⟩ : u.1 = known ∧ u = v := Prod.mk.inj (Except.ok.inj hknown)
  obtain ⟨hstays, hblocks, hstarts⟩ := declareRootContexts_spec hcontexts hnodup
  have hlists := (hview.create.lists.map u.1.assignRoot).appendAll contexts
  refine ⟨hstays, ?_, ?_⟩
  · intro key hkey
    obtain ⟨start, hstart, rfl⟩ := List.mem_map.1 hkey
    obtain ⟨op, hop, hblock⟩ := List.mem_filterMap.1 hstart
    obtain ⟨rfl, hroot⟩ := CreateOp.rootBlock?_eq_some_iff.1 hblock
    refine ⟨{ start with context := u.1.lookup start.xref }, ?_, rfl, hroot.symm⟩
    rw [View.mem_starts, hlists.toList]
    apply List.mem_append_left
    refine List.mem_map.2 ⟨_, hop, ?_⟩
    rw [BlockContexts.assignRoot, if_pos hroot]
  · intro start hstart hroot
    rw [View.mem_starts, hlists.toList, List.mem_append] at hstart
    rcases hstart with hstart | hstart
    · obtain ⟨op, hop, hassigned⟩ := List.mem_map.1 hstart
      obtain ⟨old, rfl, hold, rfl⟩ := BlockContexts.start_of_assignRoot hassigned hroot
      have hmem : old ∈ view.create.toList.filterMap CreateOp.rootBlock? :=
        List.mem_filterMap.2 ⟨_, hop, CreateOp.rootBlock?_eq_some_iff.2 ⟨rfl, hold⟩⟩
      obtain ⟨xref, hlookup, hcontext⟩ := hblocks old hmem
      refine ⟨List.mem_map.2 ⟨old, hmem, rfl⟩, xref, hlookup, hlookup, ?_⟩
      rw [View.mem_contexts, hlists.toList]
      exact List.mem_append_right _ hcontext
    · exact absurd (hstarts _ hstart) (by simp [CreateOp.start?])

/-! ## Other blocks -/

section Children

variable {starts : List I18nStart} {roots known : BlockContexts}

structure BlockContexts.Roots (roots : BlockContexts) (starts : List I18nStart) : Prop where
  nodup : (starts.map I18nStart.xref).Nodup
  rooted : ∀ start ∈ starts, ∃ root ∈ starts, root.xref = start.root ∧ root.root = start.root
  knows : ∀ start ∈ starts, roots.Knows start.root
  assigned : ∀ start ∈ starts, start.xref = start.root → start.context = roots.lookup start.root

/-- The contexts of the roots are known, and every block that is known has that of its root. -/
structure BlockContexts.Follow (roots : BlockContexts) (starts : List I18nStart)
    (known : BlockContexts) : Prop where
  knows : ∀ key, roots.Knows key → known.Knows key
  lookup : ∀ key context, known.lookup key = some context →
    ∃ start ∈ starts, start.xref = key ∧ roots.lookup start.root = some context

/-- A block that is known has the context of its root, for no other block has its number. -/
theorem BlockContexts.Follow.lookup_eq (h : roots.Follow starts known) (hroots : roots.Roots starts)
    (hstart : start ∈ starts) {context : Xref} (hlookup : known.lookup start.xref = some context) :
    roots.lookup start.root = some context := by
  obtain ⟨other, hother, hxref, hcontext⟩ := h.lookup _ _ hlookup
  obtain rfl := List.inj_on_of_nodup_map hroots.nodup hother hstart hxref
  exact hcontext

theorem BlockContexts.Follow.lookup_root (h : roots.Follow starts known)
    (hroots : roots.Roots starts) (hstart : start ∈ starts) {context : Xref}
    (hlookup : known.lookup start.root = some context) :
    roots.lookup start.root = some context := by
  obtain ⟨root, hroot, hxref, hself⟩ := hroots.rooted start hstart
  rw [← hxref] at hlookup
  rw [← hself]
  exact h.lookup_eq hroots hroot hlookup

/-- The start of the same block, with the context of its root. -/
structure I18nStart.Contexted (roots : BlockContexts) (start start' : I18nStart) : Prop where
  xref : start'.xref = start.xref
  root : start'.root = start.root
  message : start'.message = start.message
  context : start'.context = roots.lookup start.root

/-- What a walk along some operations makes of the blocks and of the contexts in them. -/
structure BlockContexts.Assigns (roots : BlockContexts) (starts starts' : List I18nStart)
    (contexts contexts' : List I18nContextOp) (known known' : BlockContexts) : Prop where
  stays : ∀ key, known.Knows key → known'.Knows key
  contexts : contexts' = contexts
  starts : ∀ start' ∈ starts', known'.Knows start'.xref ∧
    ∃ start ∈ starts, start.Contexted roots start'

theorem BlockContexts.assigns_of_threads {α : Type} {startsOf : α → List I18nStart}
    {contextsOf : α → List I18nContextOp} {as bs : List α}
    (h : Threads (fun s a b t => roots.Assigns (startsOf a) (startsOf b) (contextsOf a)
      (contextsOf b) s.1 t.1) s as bs t) :
    roots.Assigns (as.flatMap startsOf) (bs.flatMap startsOf) (as.flatMap contextsOf)
      (bs.flatMap contextsOf) s.1 t.1 := by
  induction h with
  | nil => exact ⟨fun _ h => h, rfl, by simp⟩
  | cons hfirst _ ih =>
    refine ⟨fun key hkey => ih.stays key (hfirst.stays key hkey), ?_, ?_⟩
    · rw [List.flatMap_cons, List.flatMap_cons, hfirst.contexts, ih.contexts]
    · intro start' hstart'
      rw [List.flatMap_cons, List.mem_append] at hstart'
      rcases hstart' with hstart' | hstart'
      · obtain ⟨hknows, start, hstart, hcontexted⟩ := hfirst.starts start' hstart'
        exact ⟨ih.stays _ hknows, start, List.mem_append_left _ hstart, hcontexted⟩
      · obtain ⟨hknows, start, hstart, hcontexted⟩ := ih.starts start' hstart'
        exact ⟨hknows, start, List.mem_append_right _ hstart, hcontexted⟩

theorem assignChildContext_spec (hroots : roots.Roots starts) {op op' : CreateOp}
    (hop : ∀ start, op.start? = some start → start ∈ starts) (hs : roots.Follow starts s.1)
    (h : Yields (assignChildContext op) s op' t) :
    roots.Assigns op.start?.toList op'.start?.toList op.context?.toList op'.context?.toList s.1
      t.1 ∧ roots.Follow starts t.1 := by
  cases op with
  | i18nStart start =>
    have hstart := hop start rfl
    rcases yields_assignChildContext.1 h with ⟨hself, rfl, rfl⟩ | ⟨-, context, hlookup, rfl, rfl⟩
    · refine ⟨⟨fun _ h => h, rfl, ?_⟩, hs⟩
      intro start' hstart'
      obtain rfl := List.mem_singleton.1 hstart'
      refine ⟨?_, start', List.mem_cons_self, rfl, rfl, rfl, hroots.assigned start' hstart hself⟩
      rw [hself]
      exact hs.knows _ (hroots.knows start' hstart)
    · have hcontext := hs.lookup_root hroots hstart hlookup
      refine ⟨⟨?_, rfl, ?_⟩, ⟨?_, ?_⟩⟩
      · intro key hkey
        exact BlockContexts.knows_cons.2 (.inr hkey)
      · intro start' hstart'
        obtain rfl := List.mem_singleton.1 hstart'
        exact ⟨BlockContexts.knows_cons.2 (.inl rfl), start, List.mem_cons_self, rfl, rfl, rfl,
          hcontext.symm⟩
      · intro key hkey
        exact BlockContexts.knows_cons.2 (.inr (hs.knows key hkey))
      · intro key other hother
        by_cases hkey : key = start.xref
        · subst hkey
          rw [List.lookup_cons_self] at hother
          obtain rfl := Option.some.inj hother
          exact ⟨start, hstart, rfl, hcontext⟩
        · rw [BlockContexts.lookup_cons_ne hkey] at hother
          exact hs.lookup key other hother
  | _ =>
    obtain ⟨rfl, rfl⟩ := yields_pure.1 h
    exact ⟨⟨fun _ h => h, rfl, by simp [CreateOp.start?]⟩, hs⟩

theorem View.Sound.assignChildContexts_spec {view view' : View} (hview : view.Sound)
    (hroots : roots.Roots starts) (hstarts : ∀ start ∈ view.starts, start ∈ starts)
    (hs : roots.Follow starts s.1) (h : Yields view.assignChildContexts s view' t) :
    roots.Assigns view.starts view'.starts view.contexts view'.contexts s.1 t.1 ∧
      roots.Follow starts t.1 := by
  simp only [View.assignChildContexts, yields_bind, yields_pure] at h
  obtain ⟨create, _, hcreate, rfl, rfl⟩ := h
  obtain ⟨ops, hthreads, hlists⟩ := hview.create.lists.yields_mapM hcreate
  obtain ⟨hthreads, ht⟩ := hthreads.invariant (I := fun s => roots.Follow starts s.1)
    (S := fun s op op' t => roots.Assigns op.start?.toList op'.start?.toList op.context?.toList
      op'.context?.toList s.1 t.1) (by
      intro s op op' t hop hs hyields
      refine assignChildContext_spec hroots ?_ hs hyields
      intro start hstart
      exact hstarts start (List.mem_filterMap.2 ⟨op, hop, hstart⟩)) hs
  refine ⟨?_, ht⟩
  simp only [View.starts, View.contexts, hlists.toList, List.filterMap_eq_flatMap_toList]
  exact BlockContexts.assigns_of_threads hthreads

end Children

/-! ## All blocks -/

/-- Every block has the context that is declared for its root. -/
structure Job.BlocksContexted (job : Job) (blocks : BlockContexts) : Prop where
  declared : ∀ start ∈ job.starts, ∃ context ∈ job.contexts, start.context = some context.xref ∧
    context.kind = .rootI18n ∧ context.block = some start.root ∧ context.message = start.message
  lookup : ∀ start ∈ job.starts, blocks.lookup start.xref = start.context
  shared : ∀ start ∈ job.starts, ∀ other ∈ job.starts, start.root = other.root →
    start.context = other.context

theorem View.mem_blocks {view : View} {block : Block} :
    block ∈ view.blocks ↔
      ∃ start ∈ view.starts, ⟨start.xref, start.root, start.message⟩ = block := by
  rw [View.blocks, List.mem_flatMap]
  constructor
  · rintro ⟨op, hop, hblock⟩
    cases op with
    | i18nStart start => exact ⟨start, mem_starts.2 hop, (List.mem_singleton.1 hblock).symm⟩
    | _ => simp [CreateOp.blocks] at hblock
  · rintro ⟨start, hstart, rfl⟩
    exact ⟨_, mem_starts.1 hstart, List.mem_singleton.2 rfl⟩

theorem Job.mem_blocks {job : Job} {block : Block} :
    block ∈ job.blocks ↔ ∃ start ∈ job.starts, ⟨start.xref, start.root, start.message⟩ = block := by
  simp only [blocks, starts, List.mem_flatMap, View.mem_blocks]
  constructor
  · rintro ⟨view, hview, start, hstart, hblock⟩
    exact ⟨start, ⟨view, hview, hstart⟩, hblock⟩
  · rintro ⟨start, ⟨view, hview, hstart⟩, hblock⟩
    exact ⟨view, hview, start, hstart, hblock⟩

theorem Job.Rooted.exists_root {job : Job} (h : job.Rooted) (hstart : start ∈ job.starts) :
    ∃ root ∈ job.starts, root.xref = start.root ∧ root.root = start.root ∧
      root.message = start.message := by
  obtain ⟨root, hroot, hblock⟩ := mem_blocks.1 (h _ (mem_blocks.2 ⟨start, hstart, rfl⟩))
  exact ⟨root, hroot, Block.mk.inj hblock⟩

section Blocks

variable {job job' : Job} {roots blocks : BlockContexts}

/-- The contexts of all root blocks are declared, and nothing else is known. -/
structure Job.RootsContexted (job : Job) (roots : BlockContexts) : Prop where
  declared : ∀ start ∈ job.starts, start.xref = start.root → ∃ xref,
    roots.lookup start.xref = some xref ∧ start.context = some xref ∧
    rootContext xref start ∈ job.contexts
  learnt : ∀ key, roots.Knows key → ∃ start ∈ job.starts, start.xref = key ∧ start.root = key

theorem Job.rootsContexted (hnodup : job.xrefs.Nodup) (hsound : job.Sound)
    (h : job.runContextPass [] View.createRootContexts = .ok (job', roots)) :
    job'.RootsContexted roots := by
  have hroots := nodup_rootXrefs hnodup
  have hthreads := (threads_of_runContextPass h).imp (S := fun s view view' t =>
    view.RootsContexted view' s.1 t.1) fun s view view' t hview hyields =>
      (hsound view hview).rootsContexted ((List.nodup_flatMap.1 hroots).1 view hview) hyields
  constructor
  · intro start hstart hroot
    obtain ⟨view', hview', hstart⟩ := List.mem_flatMap.1 hstart
    obtain ⟨view, -, u, v, hview, hlookup⟩ := hthreads.look_eq_of_nodup
      (fun s key => s.1.lookup key) (fun _ _ _ _ hview => hview.stays) hroots hview'
    obtain ⟨hmem, xref, hknown, hcontext, hdeclared⟩ := hview.declared start hstart hroot
    refine ⟨xref, (hlookup _ hmem).trans hknown, hcontext, ?_⟩
    exact List.mem_flatMap.2 ⟨view', hview', hdeclared⟩
  · intro key hkey
    have hlearnt := hthreads.learnt (K := fun s key => BlockContexts.Knows s.1 key)
      (L := fun view' key => ∃ start ∈ view'.starts, start.xref = key ∧ start.root = key) (by
        intro s view view' t hview key hkey
        by_cases hmem : key ∈ view.rootXrefs
        · exact .inr (hview.learnt key hmem)
        · unfold BlockContexts.Knows at hkey ⊢
          exact .inl (hview.stays key hmem ▸ hkey)) hkey
    rcases hlearnt with hnone | ⟨view', hview', start, hstart, hxref, hroot⟩
    · simp [BlockContexts.Knows] at hnone
    · exact ⟨start, List.mem_flatMap.2 ⟨view', hview', hstart⟩, hxref, hroot⟩

theorem Job.RootsContexted.follow (h : job.RootsContexted roots) :
    roots.Follow job.starts roots := by
  refine ⟨fun _ h => h, ?_⟩
  intro key context hlookup
  obtain ⟨start, hstart, hxref, hroot⟩ := h.learnt key (by simp [BlockContexts.Knows, hlookup])
  exact ⟨start, hstart, hxref, hroot.symm ▸ hlookup⟩

theorem Job.RootsContexted.exists_declared (h : job.RootsContexted roots) (hrooted : job.Rooted)
    (hstart : start ∈ job.starts) :
    ∃ context ∈ job.contexts, roots.lookup start.root = some context.xref ∧
      context.kind = .rootI18n ∧ context.block = some start.root ∧
      context.message = start.message := by
  obtain ⟨root, hroot, hxref, hself, hmessage⟩ := hrooted.exists_root hstart
  obtain ⟨xref, hlookup, -, hdeclared⟩ := h.declared root hroot (hxref.trans hself.symm)
  exact ⟨_, hdeclared, hxref ▸ hlookup, rfl, congrArg some hxref, hmessage⟩

theorem Job.RootsContexted.assigned (h : job.RootsContexted roots) (hrooted : job.Rooted)
    (hnodup : job.xrefs.Nodup) : roots.Roots job.starts := by
  refine ⟨nodup_starts hnodup, ?_, ?_, ?_⟩
  · intro start hstart
    obtain ⟨root, hroot, hxref, hself, -⟩ := hrooted.exists_root hstart
    exact ⟨root, hroot, hxref, hself⟩
  · intro start hstart
    obtain ⟨context, -, hlookup, -⟩ := h.exists_declared hrooted hstart
    simp [BlockContexts.Knows, hlookup]
  · intro start hstart hself
    obtain ⟨xref, hlookup, hcontext, -⟩ := h.declared start hstart hself
    rw [hcontext, ← hself, hlookup]

theorem Job.assignChildContexts_spec (hroots : roots.Roots job.starts)
    (hfollow : roots.Follow job.starts roots) (hsound : job.Sound)
    (h : job.runContextPass roots View.assignChildContexts = .ok (job', blocks)) :
    roots.Follow job.starts blocks ∧
      roots.Assigns job.starts job'.starts job.contexts job'.contexts roots blocks := by
  obtain ⟨hthreads, hblocks⟩ := (threads_of_runContextPass h).invariant
    (I := fun s => roots.Follow job.starts s.1) (S := fun s view view' t =>
      roots.Assigns view.starts view'.starts view.contexts view'.contexts s.1 t.1) (by
      intro s view view' t hview hs hyields
      refine (hsound view hview).assignChildContexts_spec hroots ?_ hs hyields
      intro start hstart
      exact List.mem_flatMap.2 ⟨view, hview, hstart⟩) hfollow
  exact ⟨hblocks, BlockContexts.assigns_of_threads hthreads⟩

theorem Job.RootsContexted.blocksContexted (hjob : job.RootsContexted roots)
    (hrooted : job.Rooted) (hnodup : job.xrefs.Nodup) (hsound : job.Sound)
    (h : job.runContextPass roots View.assignChildContexts = .ok (job', blocks)) :
    job'.BlocksContexted blocks := by
  have hroots := hjob.assigned hrooted hnodup
  obtain ⟨hfollow, -, hcontexts, hstarts⟩ := assignChildContexts_spec hroots hjob.follow hsound h
  refine ⟨?_, ?_, ?_⟩
  · intro start' hstart'
    obtain ⟨-, start, hstart, hcontexted⟩ := hstarts start' hstart'
    obtain ⟨context, hcontext, hlookup, hspec⟩ := hjob.exists_declared hrooted hstart
    refine ⟨context, hcontexts ▸ hcontext, hcontexted.context.trans hlookup, ?_⟩
    rw [hcontexted.root, hcontexted.message]
    exact hspec
  · intro start' hstart'
    obtain ⟨hknows, start, hstart, hcontexted⟩ := hstarts start' hstart'
    obtain ⟨context, hlookup⟩ := Option.isSome_iff_exists.1 hknows
    rw [hlookup, hcontexted.context]
    rw [hcontexted.xref] at hlookup
    exact (hfollow.lookup_eq hroots hstart hlookup).symm
  · intro start' hstart' other' hother' hroot
    obtain ⟨-, start, -, hcontexted⟩ := hstarts start' hstart'
    obtain ⟨-, other, -, hcontexted'⟩ := hstarts other' hother'
    rw [hcontexted.context, hcontexted'.context, ← hcontexted.root, ← hcontexted'.root, hroot]

end Blocks

end TemplateLowering
