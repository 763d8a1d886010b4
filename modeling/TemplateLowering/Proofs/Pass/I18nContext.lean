import TemplateLowering.Proofs.Pass.Edit

/-!
# Contexts in outlines

The contexts of messages do not show in an outline.  A block that is not a root finds the context of
its root, because every root is a block of the job, and every ICU expression finds a block around it
where the marks are covered.
-/

namespace TemplateLowering

variable {view : View} {job : Job}

/-! ## Declared contexts -/

/-- The operations are bare, and their numbers were drawn between `n` and `n'`. -/
structure Contexts (n n' : Nat) (ops : List CreateOp) : Prop where
  bare : ∀ op ∈ ops, op.Bare
  grows : Grows n n' [] (ops.flatMap CreateOp.xrefs)

namespace Contexts

variable {n n' n'' : Nat} {ops ops' : List CreateOp}

theorem nil (n : Nat) : Contexts n n [] :=
  ⟨by simp, Grows.refl n []⟩

theorem declare (n : Nat) (op : I18nContextOp) (hxref : op.xref = ⟨n⟩) :
    Contexts n (n + 1) [.i18nContext op] := by
  have hbare : CreateOp.Bare (.i18nContext op) :=
    CreateOp.bare_of_lists_eq_nil rfl rfl rfl rfl rfl rfl
  refine ⟨by simpa using hbare, ?_⟩
  simpa [CreateOp.xrefs, CreateOp.declared, CreateOp.exprs, CreateOp.lists, hxref] using
    Grows.fresh n

theorem append (h : Contexts n n' ops) (h' : Contexts n' n'' ops') :
    Contexts n n'' (ops ++ ops') := by
  refine ⟨?_, by simpa using h.grows.append h'.grows⟩
  intro op hop
  rcases List.mem_append.1 hop with hop | hop
  · exact h.bare op hop
  · exact h'.bare op hop

end Contexts

section View

variable {view : View} {n n' : Nat}

theorem View.Sound.appendContexts (hview : view.Sound) {contexts : List CreateOp}
    (hcontexts : Contexts n n' contexts) :
    view.Retains n n' { view with create := view.create.appendAll contexts } := by
  have hlists := hview.create.lists.appendAll contexts
  have hrewritten : view.Rewritten { view with create := view.create.appendAll contexts } []
      view.create.toList contexts := by
    refine ⟨rfl, rfl, by simpa using hlists, ?_, by simp, hcontexts.bare⟩
    rw [List.forall₂_same]
    exact fun op _ => .refl op
  refine ⟨View.grows_of_create rfl ?_ rfl, hrewritten.outline_eq rfl,
    hrewritten.sound hview hview.update⟩
  have happend :=
    (Grows.refl n (view.create.toList.flatMap CreateOp.xrefs)).append hcontexts.grows
  rw [hlists.toList, List.flatMap_append]
  simpa using happend

theorem View.Sound.mapUpdate (hview : view.Sound) {f : UpdateOp → UpdateOp}
    (hf : ∀ op, op.Alike (f op) ∧ (f op).xrefs = op.xrefs) (n : Nat) :
    view.Retains n n { view with update := view.update.map f } := by
  have hlists := hview.update.linked.lists.map f
  have hbindings : (view.update.map f).toList.flatMap UpdateOp.bindings =
      view.update.toList.flatMap UpdateOp.bindings := by
    rw [hlists.toList, List.flatMap_map]
    exact List.flatMap_congr fun op _ => (hf op).1.bindings
  have hxrefs : (view.update.map f).toList.flatMap UpdateOp.xrefs =
      view.update.toList.flatMap UpdateOp.xrefs := by
    rw [hlists.toList, List.flatMap_map]
    exact List.flatMap_congr fun op _ => (hf op).2
  refine ⟨?_, ?_, hview.create, hview.createOps, hlists.linked, ?_⟩
  · simp only [View.xrefs, hxrefs]
    exact Grows.refl n _
  · simp only [View.outline, View.bindings, hbindings]
    rfl
  · intro op hop
    rw [hlists.toList] at hop
    obtain ⟨old, hold, rfl⟩ := List.mem_map.1 hop
    exact (hf old).1.sound (hview.update.sound old hold)

end View

/-! ## Changed operations -/

/-- The message that an operation carries, and the context of the message. -/
structure Label where
  message : Option I18n.Message
  context : Option Xref

def CreateOp.label? : CreateOp → Option Label
  | .extractedAttribute op => some ⟨op.message, op.i18nContext⟩
  | _ => none

/-- What becomes of an operation once the attributes have their contexts. -/
def CreateOp.Settles (op op' : CreateOp) : Prop :=
  Phase.createI18nContexts.Alters op op' ∧ op'.label? = op.label?

theorem CreateOp.Settles.refl (op : CreateOp) : op.Settles op :=
  ⟨.keep trivial, rfl⟩

theorem MessageContexts.assignCreate_alters (known : MessageContexts) (op : CreateOp) :
    Phase.createI18nContexts.Alters op (known.assignCreate op) := by
  cases op with
  | extractedAttribute op => exact .ofAttribute
  | _ => exact .keep trivial

theorem BlockContexts.assignRoot_settles (known : BlockContexts) (op : CreateOp) :
    op.Settles (known.assignRoot op) := by
  cases op with
  | i18nStart op =>
    rw [assignRoot]
    split
    · exact ⟨.ofBlock, rfl⟩
    · exact .refl _
  | _ => exact .refl _

theorem yields_assignChildContext {op : I18nStart} {op' : CreateOp} {s t : BlockContexts × Ids} :
    Yields (assignChildContext (.i18nStart op)) s op' t ↔
      op.xref = op.root ∧ op' = .i18nStart op ∧ s = t ∨
      op.xref ≠ op.root ∧ ∃ context, s.1.lookup op.root = some context ∧
        op' = .i18nStart { op with context := some context } ∧
        t = ((op.xref, context) :: s.1, s.2) := by
  by_cases hroot : op.xref = op.root
  · simp [assignChildContext, hroot, yields_pure, eq_comm]
  cases hlookup : s.1.lookup op.root with
  | none =>
    have hfails : ¬Yields (assignChildContext (.i18nStart op)) s op' t := by
      simp only [assignChildContext, if_neg hroot, yields_bind]
      rintro ⟨known, u, hknown, h⟩
      obtain ⟨rfl, rfl⟩ : s.1 = known ∧ s = u := Prod.mk.inj (Except.ok.inj hknown)
      rw [hlookup] at h
      exact not_yields_throw_context h
    simp [hroot, hfails]
  | some context =>
    have hyields : Yields (assignChildContext (.i18nStart op)) s
        (.i18nStart { op with context := some context }) ((op.xref, context) :: s.1, s.2) := by
      simp only [assignChildContext, if_neg hroot, yields_bind]
      refine ⟨s.1, s, rfl, ?_⟩
      rw [hlookup]
      simp only [yields_bind, yields_pure]
      exact ⟨(), _, rfl, trivial, rfl⟩
    constructor
    · intro h
      obtain ⟨rfl, rfl⟩ := h.unique hyields
      exact .inr ⟨hroot, context, rfl, rfl, rfl⟩
    · rintro (⟨hself, -⟩ | ⟨-, _, hcontext, rfl, rfl⟩)
      · exact absurd hself hroot
      · obtain rfl := Option.some.inj hcontext
        exact hyields

theorem assignChildContext_settles {op op' : CreateOp} {s t : BlockContexts × Ids}
    (h : Yields (assignChildContext op) s op' t) : op.Settles op' := by
  cases op with
  | i18nStart op =>
    rcases yields_assignChildContext.1 h with ⟨-, rfl, -⟩ | ⟨-, context, -, rfl, -⟩
    · exact .refl _
    · exact ⟨.ofBlock, rfl⟩
  | _ =>
    obtain ⟨rfl, -⟩ := yields_pure.1 h
    exact .refl _

theorem assignIcuContext_settles (contexts : List (Xref × Xref)) (op : CreateOp) :
    op.Settles (assignIcuContext contexts op) := by
  cases op with
  | icuStart op =>
    rw [assignIcuContext]
    split
    · exact ⟨.ofIcu, rfl⟩
    · exact .refl _
  | _ => exact .refl _

theorem convertToIcu_settles (shared : List Xref) (op : CreateOp) :
    op.Settles (convertToIcu shared op) := by
  cases op with
  | i18nContext op =>
    rw [convertToIcu]
    split
    · exact ⟨.convert, rfl⟩
    · exact .refl _
  | _ => exact .refl _

/-! ## Attributes -/

namespace MessageContexts

variable {known : MessageContexts} {n : Nat} {messages : List I18n.Message}

def Knows (known : MessageContexts) (message : I18n.Message) : Prop :=
  (known.find? message).isSome = true

theorem find?_append (known more : MessageContexts) (message : I18n.Message) :
    find? (known ++ more) message = (known.find? message).or (more.find? message) := by
  simp only [find?, List.find?_append, Option.map_or]

/-- The contexts for the messages that have none yet, with numbers from `n` on. -/
def added (known : MessageContexts) (n : Nat) : List I18n.Message → MessageContexts
  | [] => []
  | message :: messages =>
      if (known.find? message).isSome then known.added n messages
      else (message, ⟨n⟩) :: added (known ++ [(message, ⟨n⟩)]) (n + 1) messages

def declaration (entry : I18n.Message × Xref) : I18nContextOp :=
  { xref := entry.2, kind := .attr, block := none, message := entry.1 }

theorem added_append (known : MessageContexts) (n : Nat) (messages others : List I18n.Message) :
    known.added n (messages ++ others) = known.added n messages ++
      added (known ++ known.added n messages) (n + (known.added n messages).length) others := by
  induction messages generalizing known n with
  | nil => simp [added]
  | cons message messages ih =>
    rw [List.cons_append, added, added]
    split
    · exact ih known n
    · rw [ih, List.cons_append, List.append_assoc, List.length_cons, Nat.add_right_comm,
        Nat.add_assoc]
      rfl

theorem map_snd_added (known : MessageContexts) (n : Nat) (messages : List I18n.Message) :
    (known.added n messages).map Prod.snd =
      (List.range' n (known.added n messages).length).map Xref.mk := by
  induction messages generalizing known n with
  | nil => rfl
  | cons message messages ih =>
    rw [added]
    split
    · exact ih known n
    · rw [List.map_cons, ih]
      rfl

theorem mem_of_mem_added {entry : I18n.Message × Xref} (h : entry ∈ known.added n messages) :
    entry.1 ∈ messages := by
  induction messages generalizing known n with
  | nil => simp [added] at h
  | cons message messages ih =>
    rw [added] at h
    split at h
    · exact List.mem_cons_of_mem _ (ih h)
    · rcases List.mem_cons.1 h with rfl | h
      · exact List.mem_cons_self
      · exact List.mem_cons_of_mem _ (ih h)

theorem find?_eq_none_iff {message : I18n.Message} :
    known.find? message = none ↔ ∀ entry ∈ known, entry.1.same message = false := by
  simp [find?]

theorem pairwise_added (h : known.Pairwise fun entry other => entry.1.same other.1 = false) :
    (known ++ known.added n messages).Pairwise fun entry other => entry.1.same other.1 = false := by
  induction messages generalizing known n with
  | nil => simpa [added] using h
  | cons message messages ih =>
    rw [added]
    split
    · exact ih h
    · next hnone =>
      rw [Bool.not_eq_true, Option.isSome_eq_false_iff, Option.isNone_iff_eq_none,
        find?_eq_none_iff] at hnone
      rw [List.append_cons]
      refine ih (List.pairwise_append.2 ⟨h, List.pairwise_singleton _ _, ?_⟩)
      simpa using hnone

theorem knows_added (known : MessageContexts) (n : Nat) {message : I18n.Message}
    (h : message ∈ messages) (hself : message.same message = true) :
    Knows (known ++ known.added n messages) message := by
  induction messages generalizing known n with
  | nil => simp at h
  | cons other messages ih =>
    rw [added]
    rcases List.mem_cons.1 h with rfl | h
    · split
      · next hknown =>
        rw [Knows, find?_append, Option.isSome_or, hknown, Bool.true_or]
      · simp [Knows, find?, List.find?_append, hself]
    · split
      · exact ih _ _ h
      · rw [List.append_cons]
        exact ih _ _ h

theorem contexts_added (known : MessageContexts) (n : Nat) (messages : List I18n.Message) :
    Contexts n (n + (known.added n messages).length)
      ((known.added n messages).map fun entry => .i18nContext (declaration entry)) := by
  induction messages generalizing known n with
  | nil => exact .nil n
  | cons message messages ih =>
    rw [added]
    split
    · exact ih known n
    · have hdeclare := Contexts.declare n (declaration (message, ⟨n⟩)) rfl
      rw [List.length_cons, Nat.add_comm _ 1, ← Nat.add_assoc]
      exact hdeclare.append (ih _ _)

end MessageContexts

theorem yields_declareAttributeContexts (messages : List I18n.Message) (s : MessageContexts × Ids) :
    Yields (declareAttributeContexts messages) s
      ((s.1.added s.2.nextXref messages).map fun entry =>
        .i18nContext (MessageContexts.declaration entry))
      (s.1 ++ s.1.added s.2.nextXref messages,
        { s.2 with nextXref := s.2.nextXref + (s.1.added s.2.nextXref messages).length }) := by
  induction messages generalizing s with
  | nil => exact yields_pure.2 ⟨rfl, by simp [MessageContexts.added]⟩
  | cons message messages ih =>
    obtain ⟨known, ids⟩ := s
    simp only [declareAttributeContexts, yields_bind]
    refine ⟨known, (known, ids), rfl, ?_⟩
    cases hfind : known.find? message with
    | some context =>
      rw [MessageContexts.added, if_pos (by rw [hfind]; rfl)]
      exact ih (known, ids)
    | none =>
      have hrest := ih (known ++ [(message, ⟨ids.nextXref⟩)],
        { ids with nextXref := ids.nextXref + 1 })
      rw [MessageContexts.added, if_neg (by rw [hfind]; simp)]
      simp only [yields_bind, yields_pure]
      exact ⟨_, _, yields_freshXref_context.2 ⟨rfl, rfl, rfl⟩, (), _, rfl, _, _, hrest, rfl,
        by simp [Nat.add_assoc, Nat.add_comm 1]⟩

theorem MessageContexts.assignUpdate_alike (known : MessageContexts) (op : UpdateOp) :
    op.Alike (known.assignUpdate op) ∧ (known.assignUpdate op).xrefs = op.xrefs := by
  cases op with
  | binding op => exact ⟨⟨rfl, fun h => ⟨rfl, rfl, h.kind⟩⟩, rfl⟩
  | property op => exact ⟨⟨rfl, fun h => ⟨rfl, rfl, h.kind⟩⟩, rfl⟩
  | attr op => exact ⟨⟨rfl, fun h => ⟨rfl, rfl, h.kind⟩⟩, rfl⟩
  | _ => exact ⟨.refl _, rfl⟩

theorem View.Sound.createAttributeContexts (hview : view.Sound) (s : MessageContexts × Ids) :
    ∃ view' t, Yields view.createAttributeContexts s view' t ∧
      view.Retains s.2.nextXref t.2.nextXref view' := by
  obtain ⟨contexts, t, hyields, hcontexts⟩ : ∃ contexts t,
      Yields (declareAttributeContexts view.attributeMessages) s contexts t ∧
      Contexts s.2.nextXref t.2.nextXref contexts :=
    ⟨_, _, yields_declareAttributeContexts _ s, s.1.contexts_added _ _⟩
  have hcreate := hview.mapCreate (fun op _ => (t.1.assignCreate_alters op).alike) s.2.nextXref
  have hcontext := hcreate.sound.appendContexts hcontexts
  have hupdate := hcontext.sound.mapUpdate t.1.assignUpdate_alike t.2.nextXref
  refine ⟨_, t, ?_, (hcreate.trans hcontext).trans hupdate⟩
  simp only [View.createAttributeContexts, yields_bind, yields_pure]
  exact ⟨contexts, t, hyields, t.1, t, rfl, rfl, rfl⟩

/-! ## Passes that add contexts -/

theorem Job.turns_runContextPass {σ : Type} {f : View → ContextPass σ View} {I : σ → Prop}
    {R : σ → View → σ → Prop} (hrooted : job.Rooted) (init : σ) (hinit : I init)
    (h : ∀ view ∈ job.units, ∀ s : σ × Ids, I s.1 → ∃ view' t, Yields (f view) s view' t ∧
      view.Retains s.2.nextXref t.2.nextXref view' ∧ R s.1 view' t.1 ∧ I t.1) :
    ∃ job' final, job.runContextPass init f = .ok (job', final) ∧ job.Turns id job' ∧
      Threads (fun s _ view' t => R s.1 view' t.1) (init, job.ids) job.units job'.units
        (final, job'.ids) := by
  have hviews : ∀ view ∈ job.units, ∀ s : σ × Ids, I s.1 → ∃ view' t, Yields (f view) s view' t ∧
      (view.Turns id s.2.nextXref t.2.nextXref view' ∧ R s.1 view' t.1) ∧ I t.1 := by
    intro view hview s hs
    obtain ⟨view', t, hyields, hretains, hR, ht⟩ := h view hview s hs
    exact ⟨view', t, hyields, ⟨hretains.turns, hR⟩, ht⟩
  obtain ⟨job', final, hrun, hthreads, hreunited⟩ := invariant_runContextPass hviews hinit
  have hturns := hthreads.imp fun _ _ _ _ _ h => h.1
  exact ⟨job', final, hrun,
    turns_of_threads (fun s : σ × Ids => s.2.nextXref) hturns hreunited.kind rfl rfl hrooted,
    hthreads.imp fun _ _ _ _ _ h => h.2⟩

theorem Job.createAttributeContexts_turns (hsound : job.Sound) (hrooted : job.Rooted) :
    ∃ job', job.createAttributeContexts = .ok job' ∧ job.Turns id job' := by
  obtain ⟨job', final, hrun, hturns, -⟩ := turns_runContextPass (f := View.createAttributeContexts)
    (I := fun _ => True) (R := fun _ _ _ => True) hrooted [] trivial (by
      intro view hview s _
      obtain ⟨view', t, hyields, hretains⟩ := (hsound view hview).createAttributeContexts s
      exact ⟨view', t, hyields, hretains, trivial, trivial⟩)
  refine ⟨job', ?_, hturns⟩
  rw [createAttributeContexts, hrun]
  rfl

/-! ## Blocks -/

def BlockContexts.Knows (known : BlockContexts) (block : Xref) : Prop :=
  (known.lookup block).isSome = true

theorem BlockContexts.knows_cons {known : BlockContexts} {block context xref : Xref} :
    BlockContexts.Knows ((block, context) :: known) xref ↔ xref = block ∨ known.Knows xref := by
  unfold BlockContexts.Knows
  rw [List.lookup_cons]
  by_cases hxref : xref = block
  · simp [hxref]
  · have hbeq : (xref == block) = false := by simpa using hxref
    simp only [hbeq, hxref, false_or]

theorem declareRootContexts_total (blocks : List I18nStart) (s : BlockContexts × Ids) :
    ∃ contexts t, Yields (declareRootContexts blocks) s contexts t ∧
      Contexts s.2.nextXref t.2.nextXref contexts ∧
      (∀ xref, s.1.Knows xref → t.1.Knows xref) ∧ ∀ block ∈ blocks, t.1.Knows block.xref := by
  induction blocks generalizing s with
  | nil => exact ⟨[], s, yields_pure.2 ⟨rfl, rfl⟩, .nil _, fun _ h => h, by simp⟩
  | cons block blocks ih =>
    obtain ⟨known, ids⟩ := s
    have hdeclare := Contexts.declare ids.nextXref
      { xref := ⟨ids.nextXref⟩
        kind := .rootI18n
        block := some block.xref
        message := block.message } rfl
    obtain ⟨contexts, t, hyields, hcontexts, hstays, hblocks⟩ :=
      ih ((block.xref, ⟨ids.nextXref⟩) :: known, { ids with nextXref := ids.nextXref + 1 })
    refine ⟨_, t, ?_, hdeclare.append hcontexts, ?_, ?_⟩
    · simp only [declareRootContexts, yields_bind, yields_pure]
      exact ⟨_, _, yields_freshXref_context.2 ⟨rfl, rfl, rfl⟩, (), _, rfl, contexts, t, hyields,
        rfl, rfl⟩
    · intro xref hxref
      exact hstays xref (BlockContexts.knows_cons.2 (.inr hxref))
    · intro other hother
      rcases List.mem_cons.1 hother with rfl | hother
      · exact hstays _ (BlockContexts.knows_cons.2 (.inl rfl))
      · exact hblocks other hother

theorem View.exists_rootBlock_of_mem_blocks {block : Block} (hblock : block ∈ view.blocks)
    (hroot : block.root = block.xref) :
    ∃ op ∈ view.create.toList.filterMap CreateOp.rootBlock?, op.xref = block.xref := by
  obtain ⟨op, hop, hmem⟩ := List.mem_flatMap.1 hblock
  cases op with
  | i18nStart op =>
    obtain rfl := List.mem_singleton.1 hmem
    have hself : op.xref = op.root := hroot.symm
    exact ⟨op, List.mem_filterMap.2 ⟨_, hop, by simp [CreateOp.rootBlock?, hself]⟩, rfl⟩
  | _ => simp [CreateOp.blocks] at hmem

theorem View.Sound.createRootContexts (hview : view.Sound) (s : BlockContexts × Ids) :
    ∃ view' t, Yields view.createRootContexts s view' t ∧
      view.Retains s.2.nextXref t.2.nextXref view' ∧
      (∀ xref, s.1.Knows xref → t.1.Knows xref) ∧
      ∀ block ∈ view'.blocks, block.root = block.xref → t.1.Knows block.xref := by
  obtain ⟨contexts, t, hyields, hcontexts, hstays, hblocks⟩ :=
    declareRootContexts_total (view.create.toList.filterMap CreateOp.rootBlock?) s
  have hcreate := hview.mapCreate (fun op _ => (t.1.assignRoot_settles op).1.alike) s.2.nextXref
  have hretains := hcreate.trans (hcreate.sound.appendContexts hcontexts)
  refine ⟨_, t, ?_, hretains, hstays, ?_⟩
  · simp only [View.createRootContexts, yields_bind, yields_pure]
    exact ⟨contexts, t, hyields, t.1, t, rfl, rfl, rfl⟩
  · intro block hblock hroot
    have hsame : View.blocks _ = view.blocks := congrArg Outline.blocks hretains.outline
    rw [hsame] at hblock
    obtain ⟨op, hop, hxref⟩ := View.exists_rootBlock_of_mem_blocks hblock hroot
    exact hxref ▸ hblocks op hop

theorem Job.createRootContexts_turns (hsound : job.Sound) (hrooted : job.Rooted) :
    ∃ job' known, job.runContextPass [] View.createRootContexts = .ok (job', known) ∧
      job.Turns id job' ∧ ∀ block ∈ job'.blocks, BlockContexts.Knows known block.root := by
  obtain ⟨job', known, hrun, hturns, hthreads⟩ := turns_runContextPass
    (f := View.createRootContexts) (I := fun _ => True)
    (R := fun known view' known' => (∀ xref, known.Knows xref → known'.Knows xref) ∧
      ∀ block ∈ view'.blocks, block.root = block.xref → known'.Knows block.xref)
    hrooted [] trivial (by
      intro view hview s _
      obtain ⟨view', t, hyields, hretains, hstays, hblocks⟩ :=
        (hsound view hview).createRootContexts s
      exact ⟨view', t, hyields, hretains, ⟨hstays, hblocks⟩, trivial⟩)
  have hknown := hthreads.known (K := fun s xref => s.1.Knows xref)
    (L := fun view' xref => ∃ block ∈ view'.blocks, block.root = block.xref ∧ block.xref = xref)
    (fun _ _ _ _ h => h.1) (by
      rintro _ _ _ _ h _ ⟨block, hblock, hroot, rfl⟩
      exact h.2 block hblock hroot)
  refine ⟨job', known, hrun, hturns, ?_⟩
  intro block hblock
  obtain ⟨view', hview', hroot⟩ := List.mem_flatMap.1 (hturns.rooted block hblock)
  exact hknown view' hview' block.root ⟨_, hroot, rfl, rfl⟩

theorem assignChildContext_total (op : CreateOp) (s : BlockContexts × Ids)
    (hknown : ∀ block ∈ op.blocks, s.1.Knows block.root) :
    ∃ op' t, Yields (assignChildContext op) s op' t ∧ t.2 = s.2 ∧
      ∀ xref, s.1.Knows xref → t.1.Knows xref := by
  cases op with
  | i18nStart op =>
    by_cases hroot : op.xref = op.root
    · exact ⟨_, s, yields_assignChildContext.2 (.inl ⟨hroot, rfl, rfl⟩), rfl, fun _ h => h⟩
    · have hblock : s.1.Knows op.root := hknown ⟨op.xref, op.root, op.message⟩
        (by simp [CreateOp.blocks])
      obtain ⟨context, hcontext⟩ := Option.isSome_iff_exists.1 hblock
      refine ⟨_, _, yields_assignChildContext.2 (.inr ⟨hroot, context, hcontext, rfl, rfl⟩), rfl, ?_⟩
      exact fun xref hxref => BlockContexts.knows_cons.2 (.inr hxref)
  | _ => exact ⟨_, s, yields_pure.2 ⟨rfl, rfl⟩, rfl, fun _ h => h⟩

theorem View.Sound.assignChildContexts (hview : view.Sound) {roots : List Xref}
    (hroots : ∀ block ∈ view.blocks, block.root ∈ roots) (s : BlockContexts × Ids)
    (hknown : ∀ root ∈ roots, s.1.Knows root) :
    ∃ view' t, Yields view.assignChildContexts s view' t ∧
      view.Retains s.2.nextXref t.2.nextXref view' ∧ ∀ root ∈ roots, t.1.Knows root := by
  obtain ⟨create, t, ops, hyields, hlists, hthreads, ht⟩ := hview.create.lists.invariant_mapM
    (f := assignChildContext) (I := fun s => ∀ root ∈ roots, s.1.Knows root)
    (R := fun s op op' t => op.Alike op' ∧ op'.xrefs = op.xrefs ∧ t.2 = s.2) (by
      intro op hop s hs
      obtain ⟨op', t, hyields, hids, hstays⟩ := assignChildContext_total op s fun block hblock =>
        hs _ (hroots block (List.mem_flatMap.2 ⟨op, hop, hblock⟩))
      obtain ⟨halike, hxrefs⟩ := (assignChildContext_settles hyields).1.alike
      exact ⟨op', t, hyields, ⟨halike, hxrefs, hids⟩, fun root hroot =>
        hstays root (hs root hroot)⟩) hknown
  have hrewritten : view.Rewritten { view with create } [] ops [] :=
    ⟨rfl, rfl, by simpa using hlists, hthreads.forall₂ fun _ _ _ _ _ h => h.1, by simp, by simp⟩
  have hop : ∀ (s : BlockContexts × Ids) (op op' : CreateOp) (t : BlockContexts × Ids),
      op ∈ view.create.toList → op.Alike op' ∧ op'.xrefs = op.xrefs ∧ t.2 = s.2 →
      Grows s.2.nextXref t.2.nextXref op.xrefs op'.xrefs := by
    intro s op op' t _ hspec
    rw [hspec.2.1, hspec.2.2]
    exact Grows.refl _ _
  have hgrows := hthreads.grows hop
  refine ⟨{ view with create }, t, ?_, ⟨?_, hrewritten.outline_eq rfl,
    hrewritten.sound hview hview.update⟩, ht⟩
  · simp only [View.assignChildContexts, yields_bind, yields_pure]
    exact ⟨create, t, hyields, rfl, rfl⟩
  · exact View.grows_of_create rfl (hlists.toList ▸ hgrows) rfl

theorem Job.assignChildContexts_turns (hsound : job.Sound) (hrooted : job.Rooted)
    {known : BlockContexts} (hknown : ∀ block ∈ job.blocks, known.Knows block.root) :
    ∃ job' known', job.runContextPass known View.assignChildContexts = .ok (job', known') ∧
      job.Turns id job' := by
  have hroots : ∀ root ∈ job.blocks.map Block.root, known.Knows root := by
    intro root hroot
    obtain ⟨block, hblock, rfl⟩ := List.mem_map.1 hroot
    exact hknown block hblock
  obtain ⟨job', known', hrun, hturns, -⟩ := turns_runContextPass (f := View.assignChildContexts)
    (I := fun known => ∀ root ∈ job.blocks.map Block.root, known.Knows root)
    (R := fun _ _ _ => True) hrooted known hroots (by
      intro view hview s hs
      have hmem : ∀ block ∈ view.blocks, block.root ∈ job.blocks.map Block.root := by
        intro block hblock
        exact List.mem_map_of_mem (List.mem_flatMap.2 ⟨view, hview, hblock⟩)
      obtain ⟨view', t, hyields, hretains, ht⟩ :=
        (hsound view hview).assignChildContexts hmem s hs
      exact ⟨view', t, hyields, hretains, trivial, ht⟩)
  exact ⟨job', known', hrun, hturns⟩

/-! ## ICU expressions -/

theorem placedIcus_total (ops : List CreateOp) (block : Option I18nStart)
    (h : covered block.isSome (ops.flatMap CreateOp.marks) = true) :
    ∃ placed, placedIcus block ops = .ok placed := by
  induction ops generalizing block with
  | nil => exact ⟨[], by simp [placedIcus, pure, Except.pure]⟩
  | cons op ops ih =>
    rw [List.flatMap_cons] at h
    cases op with
    | i18nStart op => simpa only [placedIcus] using ih (some op) h
    | i18nEnd op => simpa only [placedIcus] using ih none h
    | icuStart op =>
      cases block with
      | none => simp [CreateOp.marks, covered] at h
      | some block =>
        have hrest : covered true (ops.flatMap CreateOp.marks) = true := h
        obtain ⟨placed, hplaced⟩ := ih (some block) hrest
        exact ⟨⟨op, block⟩ :: placed, by rw [placedIcus, hplaced]; rfl⟩
    | _ => simpa only [placedIcus] using ih block h

theorem PlacedIcu.context_total (blocks : BlockContexts) (placed : PlacedIcu)
    (s : List Xref × Ids) :
    ∃ context t, Yields (placed.context blocks : ContextPass (List Xref) _) s context t ∧
      Contexts s.2.nextXref t.2.nextXref context.2.toList := by
  unfold PlacedIcu.context
  cases placed.sharedContext? blocks with
  | some context => exact ⟨(context, none), s, yields_pure.2 ⟨rfl, rfl⟩, .nil _⟩
  | none =>
    simp only [yields_bind, yields_pure]
    refine ⟨_, _, ⟨_, (s.1, _), yields_freshXref_context.2 ⟨rfl, rfl, rfl⟩, rfl, rfl⟩, ?_⟩
    exact Contexts.declare s.2.nextXref _ rfl

theorem contexts_of_threads {s t : List Xref × Ids} {placed : List PlacedIcu}
    {contexts : List (Xref × Option CreateOp)}
    (h : Threads (fun s _ context t => Contexts s.2.nextXref t.2.nextXref context.2.toList) s placed
      contexts t) : Contexts s.2.nextXref t.2.nextXref (contexts.filterMap Prod.snd) := by
  induction h with
  | nil => exact .nil _
  | @cons _ _ _ _ context _ contexts hcontext _ ih =>
    have hcons : (context :: contexts).filterMap Prod.snd =
        context.2.toList ++ contexts.filterMap Prod.snd := by
      obtain ⟨xref, declared⟩ := context
      cases declared <;> rfl
    rw [hcons]
    exact hcontext.append ih

theorem View.Sound.createIcuContexts (hview : view.Sound)
    (hcovered : covered false view.marks = true) (blocks : BlockContexts) (s : List Xref × Ids) :
    ∃ view' t, Yields (view.createIcuContexts blocks) s view' t ∧
      view.Retains s.2.nextXref t.2.nextXref view' := by
  obtain ⟨placed, hplaced⟩ := placedIcus_total view.create.toList none hcovered
  obtain ⟨contexts, t, hyields, hthreads⟩ :=
    TemplateLowering.total_mapM
      (fun icu (_ : icu ∈ placed) s => PlacedIcu.context_total blocks icu s) s
  have hcreate := hview.mapCreate (fun op _ => (assignIcuContext_settles
    ((placed.map (·.icu.xref)).zip (contexts.map Prod.fst)).reverse op).1.alike) s.2.nextXref
  have hcontexts := hcreate.sound.appendContexts (contexts_of_threads hthreads)
  refine ⟨_, (t.1 ++ placed.filterMap (PlacedIcu.sharedContext? blocks), t.2), ?_,
    hcreate.trans hcontexts⟩
  simp only [View.createIcuContexts, yields_bind, yields_pure, yields_lift_context]
  exact ⟨placed, s, ⟨hplaced, rfl⟩, contexts, t, hyields, (), _, rfl, rfl, rfl⟩

theorem Job.createIcuContexts_turns (hsound : job.Sound) (hrooted : job.Rooted)
    (hcovered : job.Covered) (blocks : BlockContexts) :
    ∃ job' shared, job.runContextPass [] (View.createIcuContexts blocks) = .ok (job', shared) ∧
      job.Turns id job' := by
  obtain ⟨job', shared, hrun, hturns, -⟩ := turns_runContextPass
    (f := View.createIcuContexts blocks) (I := fun _ => True) (R := fun _ _ _ => True)
    hrooted [] trivial (by
      intro view hview s _
      obtain ⟨view', t, hyields, hretains⟩ :=
        (hsound view hview).createIcuContexts (hcovered view hview) blocks s
      exact ⟨view', t, hyields, hretains, trivial, trivial⟩)
  exact ⟨job', shared, hrun, hturns⟩

/-! ## The pass -/

/-- The jobs between the parts of the pass, and what the parts hand on. -/
structure Job.ContextSteps (job job₁ job₂ job₃ job₄ : Job) (roots blocks : BlockContexts)
    (shared : List Xref) : Prop where
  ofAttributes : job.createAttributeContexts = .ok job₁ ∧ job.Turns id job₁
  ofRoots : job₁.runContextPass [] View.createRootContexts = .ok (job₂, roots) ∧ job₁.Turns id job₂
  ofBlocks : job₂.runContextPass roots View.assignChildContexts = .ok (job₃, blocks) ∧
    job₂.Turns id job₃
  ofIcus : job₃.runContextPass [] (View.createIcuContexts blocks) = .ok (job₄, shared) ∧
    job₃.Turns id job₄

theorem Job.exists_contextSteps (hsound : job.Sound) (hrooted : job.Rooted)
    (hbalanced : job.Balanced) (hcovered : job.Covered) :
    ∃ job₁ job₂ job₃ job₄ roots blocks shared,
      job.ContextSteps job₁ job₂ job₃ job₄ roots blocks shared := by
  obtain ⟨job₁, hrun₁, hturns₁⟩ := createAttributeContexts_turns hsound hrooted
  obtain ⟨job₂, known, hrun₂, hturns₂, hknown⟩ :=
    createRootContexts_turns hturns₁.sound hturns₁.rooted
  obtain ⟨job₃, blocks, hrun₃, hturns₃⟩ :=
    assignChildContexts_turns hturns₂.sound hturns₂.rooted hknown
  have hbefore : job.Turns id job₃ := (hturns₁.trans hturns₂).trans hturns₃
  have hcovered₃ : job₃.Covered := by
    intro view' hview'
    obtain ⟨view, hview, hreshapes⟩ := exists_left_of_mem hbefore.outlines hview'
    exact hreshapes.covered (hbalanced view hview) (hcovered view hview)
  obtain ⟨job₄, shared, hrun₄, hturns₄⟩ :=
    createIcuContexts_turns hturns₃.sound hturns₃.rooted hcovered₃ blocks
  exact ⟨job₁, job₂, job₃, job₄, known, blocks, shared, ⟨hrun₁, hturns₁⟩, ⟨hrun₂, hturns₂⟩,
    ⟨hrun₃, hturns₃⟩, ⟨hrun₄, hturns₄⟩⟩

section Steps

variable {job job₁ job₂ job₃ job₄ : Job} {roots blocks : BlockContexts} {shared : List Xref}

theorem Job.ContextSteps.eq_ok (h : job.ContextSteps job₁ job₂ job₃ job₄ roots blocks shared) :
    job.createI18nContexts =
      .ok (Id.run (job₄.mapUnitsM fun view => pure (view.convertContexts shared))) := by
  rw [createI18nContexts, h.ofAttributes.1]
  simp only [bind, Except.bind, h.ofRoots.1, h.ofBlocks.1, h.ofIcus.1]
  rfl

theorem Job.ContextSteps.turns (h : job.ContextSteps job₁ job₂ job₃ job₄ roots blocks shared) :
    job.Turns id (Id.run (job₄.mapUnitsM fun view => pure (view.convertContexts shared))) := by
  have hconvert := turns_mapCreate h.ofIcus.2.sound h.ofIcus.2.rooted
    fun op _ => (convertToIcu_settles shared op).1.alike
  exact (((h.ofAttributes.2.trans h.ofRoots.2).trans h.ofBlocks.2).trans h.ofIcus.2).trans hconvert

end Steps

theorem Job.createI18nContexts_turns (hsound : job.Sound) (hrooted : job.Rooted)
    (hbalanced : job.Balanced) (hcovered : job.Covered) :
    ∃ job', job.createI18nContexts = .ok job' ∧ job.Turns id job' := by
  obtain ⟨job₁, job₂, job₃, job₄, roots, blocks, shared, hsteps⟩ :=
    exists_contextSteps hsound hrooted hbalanced hcovered
  exact ⟨_, hsteps.eq_ok, hsteps.turns⟩

end TemplateLowering
