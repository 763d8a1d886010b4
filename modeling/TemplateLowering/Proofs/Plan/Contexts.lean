import TemplateLowering.Proofs.Pass.IcuContext
import TemplateLowering.Proofs.Plan.Edits
import TemplateLowering.Proofs.Plan.Invariants

/-!
# Contexts after a plan

A plan that creates contexts creates them once, after the blocks were propagated and the lone ICU
expressions wrapped, and no later phase touches a translated message.  So every block and every ICU
expression of the result has its context.
-/

namespace TemplateLowering

variable {start : I18nStart} {place : IcuStart × Option I18nStart}

def CreateOp.usedContext? : CreateOp → Option Xref
  | .i18nStart op => op.context
  | .icuStart op => op.context
  | _ => none

/-- The ICU expression stands where the block is open: it is the last block that starts before it,
and no block ends in between. -/
def View.Places (view : View) (icu : IcuStart) (block : I18nStart) : Prop :=
  ∃ front inner after,
    view.create.toList = front ++ .i18nStart block :: (inner ++ .icuStart icu :: after) ∧
      ∀ op ∈ inner, op.bounds = false

/-- Some ICU expression in a block of the same root uses the context of the block. -/
def Job.SharesContext (job : Job) (start : I18nStart) : Prop :=
  ∃ view ∈ job.units, ∃ icu block, view.Places icu block ∧ block.root = start.root ∧
    icu.context = start.context

theorem View.places_iff {view : View} {icu : IcuStart} {block : I18nStart} :
    view.Places icu block ↔ (icu, some block) ∈ view.places := by
  rw [View.places, mem_icuPlaces_iff]
  constructor
  · rintro ⟨front, inner, after, hops, hinner⟩
    refine ⟨front ++ .i18nStart block :: inner, after, by simpa using hops, ?_⟩
    exact foldl_opens_eq_some_iff.2 ⟨front, inner, rfl, hinner⟩
  · rintro ⟨before, after, hops, hblock⟩
    obtain ⟨front, inner, rfl, hinner⟩ := foldl_opens_eq_some_iff.1 hblock
    exact ⟨front, inner, after, by simpa using hops, hinner⟩

theorem View.exists_place {view : View} {icu : IcuStart}
    (h : .icuStart icu ∈ view.create.toList) : ∃ block, (icu, block) ∈ view.places := by
  obtain ⟨before, after, hops⟩ := List.append_of_mem h
  exact ⟨_, mem_icuPlaces_iff.2 ⟨before, after, hops, rfl⟩⟩

namespace Job

variable {job job' : Job}

theorem mem_starts : start ∈ job.starts ↔ .i18nStart start ∈ job.createOps := by
  simp only [starts, createOps, List.mem_flatMap, View.mem_starts]

/-! ## Contexts that are used once -/

theorem hasOwnContext_iff {block : I18nStart} (h : place.2 = some block) :
    hasOwnContext place = true ↔ place.1.message.id ≠ block.message.id := by
  obtain ⟨icu, at_⟩ := place
  subst h
  simp [hasOwnContext]

namespace Contexted

theorem eq_of_xref_eq (hnodup : job.xrefs.Nodup) {context other : I18nContextOp}
    (hcontext : context ∈ job.contexts) (hother : other ∈ job.contexts)
    (hxref : some context.xref = some other.xref) : context = other :=
  List.inj_on_of_nodup_map (nodup_contexts hnodup) hcontext hother (Option.some.inj hxref)

theorem context_eq_iff (h : job.Contexted) (hnodup : job.xrefs.Nodup) {other : I18nStart}
    (hstart : start ∈ job.starts) (hother : other ∈ job.starts) :
    start.context = other.context ↔ start.root = other.root := by
  constructor
  · intro heq
    obtain ⟨context, hmem, hxref, hblock, -⟩ := h.blocks start hstart
    obtain ⟨context', hmem', hxref', hblock', -⟩ := h.blocks other hother
    rw [hxref, hxref'] at heq
    obtain rfl := eq_of_xref_eq hnodup hmem hmem' heq
    exact Option.some.inj (hblock.symm.trans hblock')
  · exact h.roots start hstart other hother

theorem context_ne (h : job.Contexted) (hnodup : job.xrefs.Nodup) (hplace : place ∈ job.places)
    (hown : hasOwnContext place = true) (hstart : start ∈ job.starts) :
    start.context ≠ place.1.context := by
  intro heq
  obtain ⟨block, hblock, hat, context, hmem, hxref, -, hroot, -, hmessage⟩ := h.icus place hplace
  have hid := (hasOwnContext_iff hat).1 hown
  obtain ⟨context', hmem', hxref', hroot', -⟩ := h.blocks start hstart
  obtain rfl := eq_of_xref_eq hnodup hmem' hmem (hxref'.symm.trans (heq.trans hxref))
  -- The block around the ICU expression would have the same context, and so the same message.
  have hsame : block.context = start.context :=
    h.roots block hblock start hstart (Option.some.inj (hroot.symm.trans hroot'))
  obtain ⟨context'', hmem'', hxref'', -, hmessage''⟩ := h.blocks block hblock
  obtain rfl := eq_of_xref_eq hnodup hmem'' hmem' (hxref''.symm.trans (hsame.trans hxref'))
  exact hid (congrArg I18n.Message.id ((hmessage hid).symm.trans hmessage''))

theorem hasOwnContext_of_context_eq (h : job.Contexted) (hnodup : job.xrefs.Nodup)
    {other : IcuStart × Option I18nStart} (hplace : place ∈ job.places)
    (hown : hasOwnContext place = true) (hother : other ∈ job.places)
    (hcontext : other.1.context = place.1.context) : hasOwnContext other = true := by
  obtain ⟨block, hblock, hat, context, -, hxref, -, -, hshared, -⟩ := h.icus other hother
  rw [hasOwnContext_iff hat]
  intro hid
  apply h.context_ne hnodup hplace hown hblock
  rw [hshared hid, ← hxref, hcontext]

theorem countP_usedContext? (h : job.Contexted) (hnodup : job.xrefs.Nodup)
    (hplace : place ∈ job.places) (hown : hasOwnContext place = true) :
    job.createOps.countP (fun op => op.usedContext? = place.1.context) = 1 := by
  have hicus : job.createOps.filterMap CreateOp.icu? = job.places.map Prod.fst := by
    rw [createOps, places, List.filterMap_flatMap, List.map_flatMap]
    exact List.flatMap_congr fun view _ => (map_fst_icuPlaces none _).symm
  obtain ⟨-, -, -, context, -, hxref, -⟩ := h.icus place hplace
  calc job.createOps.countP (fun op => op.usedContext? = place.1.context)
      = (job.createOps.filterMap CreateOp.icu?).countP
          (fun icu => icu.context = place.1.context) := by
        rw [List.countP_filterMap]
        apply List.countP_congr
        intro op hop
        cases op with
        | i18nStart start =>
          have hne := h.context_ne hnodup hplace hown (mem_starts.2 hop)
          simp [CreateOp.usedContext?, CreateOp.icu?, hne]
        | icuStart icu => exact Iff.rfl
        | _ => simp [CreateOp.usedContext?, CreateOp.icu?, hxref]
    _ = (job.places.filter hasOwnContext).countP
          (fun other => other.1.context = place.1.context) := by
        rw [hicus, List.countP_map, List.countP_filter]
        apply List.countP_congr
        intro other hother
        have hown' := h.hasOwnContext_of_context_eq hnodup hplace hown hother
        simpa using hown'
    _ = ((job.places.filter hasOwnContext).map fun other => other.1.context).count
          place.1.context := by
        rw [List.count_eq_countP, List.countP_map]
        apply List.countP_congr
        simp
    _ = 1 := by
        apply List.count_eq_one_of_mem h.own
        exact List.mem_map.2 ⟨place, List.mem_filter.2 ⟨hplace, hown⟩, rfl⟩

theorem sharesContext_iff :
    job.SharesContext start ↔ ∃ place ∈ job.places, ∃ block, place.2 = some block ∧
      block.root = start.root ∧ place.1.context = start.context := by
  simp only [SharesContext, View.places_iff]
  constructor
  · rintro ⟨view, hview, icu, block, hplace, hspec⟩
    exact ⟨(icu, some block), List.mem_flatMap.2 ⟨view, hview, hplace⟩, block, rfl, hspec⟩
  · rintro ⟨⟨icu, at_⟩, hplace, block, rfl, hspec⟩
    obtain ⟨view, hview, hplace⟩ := List.mem_flatMap.1 hplace
    exact ⟨view, hview, icu, block, hplace, hspec⟩

theorem block (h : job.Contexted) (hnodup : job.xrefs.Nodup) (hstart : start ∈ job.starts) :
    ∃ context, start.context = some context.xref ∧ job.DeclaresOnce context ∧
      context.block = some start.root ∧ context.message = start.message ∧
      (job.SharesContext start → context.kind = .icu) ∧
      (¬job.SharesContext start → context.kind = .rootI18n) := by
  obtain ⟨context, hmem, hxref, hblock, hmessage⟩ := h.blocks start hstart
  refine ⟨context, hxref, declaresOnce (nodup_contexts hnodup) hmem, hblock, hmessage, ?_, ?_⟩
  · intro hshares
    obtain ⟨place, hplace, -, -, -, hcontext⟩ := sharesContext_iff.1 hshares
    obtain ⟨-, -, -, context', hmem', hxref', hkind, -⟩ := h.icus place hplace
    obtain rfl := eq_of_xref_eq hnodup hmem' hmem
      (hxref'.symm.trans (hcontext.trans hxref))
    exact hkind
  · intro hshares
    rcases h.kinds start hstart context hmem hxref with hkind | hshared
    · exact hkind
    · exact absurd (sharesContext_iff.2 hshared) hshares

theorem icu (h : job.Contexted) (hnodup : job.xrefs.Nodup) {view : View} (hview : view ∈ job.units)
    {icu : IcuStart} (hicu : .icuStart icu ∈ view.create.toList) :
    (∃ block, view.Places icu block) ∧
      ∀ block, view.Places icu block → ∃ context,
        icu.context = some context.xref ∧ job.DeclaresOnce context ∧ context.kind = .icu ∧
        context.block = some block.root ∧
        (icu.message.id = block.message.id → icu.context = block.context) ∧
        (icu.message.id ≠ block.message.id → context.message = icu.message ∧
          job.createOps.countP (fun op => op.usedContext? = icu.context) = 1) := by
  constructor
  · obtain ⟨at_, hplace⟩ := view.exists_place hicu
    obtain ⟨block, -, rfl, -⟩ := h.icus _ (List.mem_flatMap.2 ⟨view, hview, hplace⟩)
    exact ⟨block, View.places_iff.2 hplace⟩
  · intro block hplace
    have hmem : (icu, some block) ∈ job.places :=
      List.mem_flatMap.2 ⟨view, hview, View.places_iff.1 hplace⟩
    obtain ⟨other, -, hat, context, hcontext, hxref, hkind, hroot, hshared, hmessage⟩ :=
      h.icus _ hmem
    obtain rfl := Option.some.inj hat
    refine ⟨context, hxref, declaresOnce (nodup_contexts hnodup) hcontext, hkind, hroot, ?_, ?_⟩
    · intro hid
      rw [hshared hid]
      exact hxref
    · intro hid
      exact ⟨hmessage hid, h.countP_usedContext? hnodup hmem ((hasOwnContext_iff rfl).2 hid)⟩

end Contexted

/-! ## Phases -/

theorem Contexted.of_translations_eq (h : job.Contexted)
    (heq : job'.translations = job.translations) : job'.Contexted := by
  have hstarts : job'.starts = job.starts := flatMap_units_eq heq View.starts_eq
  have hcontexts : job'.contexts = job.contexts := flatMap_units_eq heq View.contexts_eq
  have hplaces : job'.places = job.places := flatMap_units_eq heq View.places_eq
  obtain ⟨hblocks, hroots, hicus, hown, hkinds⟩ := h
  rw [← hstarts] at hblocks hroots hicus hkinds
  rw [← hcontexts] at hblocks hicus hkinds
  rw [← hplaces] at hicus hown hkinds
  exact ⟨hblocks, hroots, hicus, hown, hkinds⟩

end Job

def Phase.translates : Phase → Bool
  | .propagateI18nBlocks | .wrapI18nIcus | .createI18nContexts => true
  | _ => false

section Phase

variable {phase : Phase} {start job job' : Job} {scheduled : List Phase}

theorem Phase.Alters.translation_eq {op op' : CreateOp} (h : phase.Alters op op')
    (hphase : phase.translates = false) : op'.translation = op.translation := by
  cases h with
  | number | ofAttribute | ofBlock | ofIcu | convert => simp [translates] at hphase
  | mark => cases op <;> rfl
  | _ => rfl

theorem Phase.Inserts.translation_eq {op : CreateOp} (h : phase.Inserts op)
    (hphase : phase.translates = false) : op.translation = [] := by
  cases phase with
  | saveAndRestoreView =>
    obtain ⟨decl, rfl⟩ := h
    rfl
  | propagateI18nBlocks | wrapI18nIcus | createI18nContexts => simp [translates] at hphase
  | _ => exact h.elim

theorem Reached.translations_eq (h : Reached start scheduled job)
    (henabled : phase.Enabled scheduled) (hphase : phase.translates = false)
    (hrun : phase.run job = .ok job') : job'.translations = job.translations := by
  have hviews : List.Forall₂ (fun view view' : View => view'.translation = view.translation)
      job.units job'.units := (h.editedBy henabled hrun).imp fun _ _ hedited =>
    hedited.create.flatMap_eq (fun _ _ halters => halters.translation_eq hphase)
      fun _ hinserts => hinserts.translation_eq hphase
  rw [← List.forall₂_eq_eq_eq, Job.translations, Job.translations, List.forall₂_map_left_iff,
    List.forall₂_map_right_iff]
  exact hviews.flip

end Phase

/-- After the contexts were created no phase deals with messages: the others that do were run
before. -/
theorem Reached.translates_eq_false {start job : Job} {scheduled : List Phase} {phase : Phase}
    (h : Reached start scheduled job) (hdone : .createI18nContexts ∈ scheduled)
    (hnew : phase ∉ scheduled) : phase.translates = false := by
  by_contra htranslates
  apply hnew
  cases phase with
  | propagateI18nBlocks => exact h.follows.order _ hdone _ (by simp [Phase.prerequisites])
  | wrapI18nIcus => exact h.follows.order _ hdone _ (by simp [Phase.prerequisites])
  | createI18nContexts => exact hdone
  | _ => simp [Phase.translates] at htranslates

namespace Plan

variable {component : String} {template : List Template.Node} {options : Options}
variable {plan : Plan} {job job' : Job}

theorem contexted_of_run (h : Job.ofTemplate component template options = .ok job)
    (hrun : plan.run job = .ok job') (hphase : .createI18nContexts ∈ plan.phases) :
    job'.Contexted := by
  have hend : .createI18nContexts ∈ plan.phases.reverse → job'.Contexted := by
    apply induction_run h hrun (P := fun scheduled job =>
      .createI18nContexts ∈ scheduled → job.Contexted)
    · simp
    · intro scheduled phase job₁ job₂ hreached henabled hnew hok ih hmem
      have hintact := hreached.intact
      rcases List.mem_cons.1 hmem with rfl | hmem
      · have hcovered := hreached.achieved .wrapI18nIcus
          (henabled _ (by simp [Phase.prerequisites]))
        exact Job.contexted_of_createI18nContexts hintact.sound hintact.rooted hintact.balanced
          hcovered hintact.distinct hok
      · have htranslates := hreached.translates_eq_false hmem hnew
        exact (ih hmem).of_translations_eq
          (hreached.translations_eq henabled htranslates hok)
  exact hend (List.mem_reverse.2 hphase)

/-- Every block has a context that is declared once, for its root and with its message, and two
blocks have the same context exactly when they have the same root.  Every ICU expression stands in a
block and has a context for ICU expressions, declared once for the root of the block: the context of
the block itself if their messages have the same identifier, and otherwise a context with the message
of the ICU expression that nothing else uses.  The context of a block is one for ICU expressions if
it is shared, and one for a root block otherwise. -/
theorem contexts_consistent_of_run (h : Job.ofTemplate component template options = .ok job)
    (hrun : plan.run job = .ok job') (hphase : .createI18nContexts ∈ plan.phases) :
    (∀ start, .i18nStart start ∈ job'.createOps → ∃ context,
      start.context = some context.xref ∧ job'.DeclaresOnce context ∧
      context.block = some start.root ∧ context.message = start.message ∧
      (job'.SharesContext start → context.kind = .icu) ∧
      (¬job'.SharesContext start → context.kind = .rootI18n)) ∧
    (∀ start other, .i18nStart start ∈ job'.createOps → .i18nStart other ∈ job'.createOps →
      (start.context = other.context ↔ start.root = other.root)) ∧
    ∀ view ∈ job'.units, ∀ icu, .icuStart icu ∈ view.create.toList →
      (∃ block, view.Places icu block) ∧
      ∀ block, view.Places icu block → ∃ context,
        icu.context = some context.xref ∧ job'.DeclaresOnce context ∧ context.kind = .icu ∧
        context.block = some block.root ∧
        (icu.message.id = block.message.id → icu.context = block.context) ∧
        (icu.message.id ≠ block.message.id → context.message = icu.message ∧
          job'.createOps.countP (fun op => op.usedContext? = icu.context) = 1) := by
  have hcontexted := contexted_of_run h hrun hphase
  have hnodup := (distinct_iff.1 (reached_of_run h hrun).intact.distinct).1
  refine ⟨?_, ?_, ?_⟩
  · intro start hstart
    exact hcontexted.block hnodup (Job.mem_starts.2 hstart)
  · intro start other hstart hother
    exact hcontexted.context_eq_iff hnodup (Job.mem_starts.2 hstart) (Job.mem_starts.2 hother)
  · intro view hview icu hicu
    exact hcontexted.icu hnodup hview hicu

theorem contexts_consistent_of_run_gallery :
    ∃ job job', Job.ofTemplate "Gallery" gallery {} = .ok job ∧ standard.run job = .ok job' ∧
      .createI18nContexts ∈ standard.phases ∧
      (∃ start other, .i18nStart start ∈ job'.createOps ∧ .i18nStart other ∈ job'.createOps ∧
        start.xref ≠ other.xref ∧ start.context = other.context ∧
        ∃ context, start.context = some context.xref ∧ job'.DeclaresOnce context ∧
          context.message = start.message) ∧
      ∃ view ∈ job'.units, ∃ icu block, view.Places icu block ∧
        icu.message.id ≠ block.message.id ∧
        job'.createOps.countP (fun op => op.usedContext? = icu.context) = 1 := by
  have hphase : .createI18nContexts ∈ standard.phases := by decide
  have heval : ((Job.ofTemplate "Gallery" gallery {}).toOption.bind fun job =>
      (standard.run job).toOption.map fun job' =>
        (job'.starts.map fun start => (start.xref.index, start.root.index),
          job'.places.map hasOwnContext)) =
      some ([(2, 2), (31, 31), (30, 2)], [false, true, false]) := by decide +kernel
  obtain ⟨job, job', hjob, hrun, heval⟩ := exists_ok_of_eval heval
  obtain ⟨hstarts, hplaces⟩ := Prod.mk.inj heval
  obtain ⟨hblocks, hroots, hicus⟩ := contexts_consistent_of_run hjob hrun hphase
  have hroot : (2, 2) ∈ job'.starts.map fun start => (start.xref.index, start.root.index) := by
    simp [hstarts]
  have hchild : (30, 2) ∈ job'.starts.map fun start => (start.xref.index, start.root.index) := by
    simp [hstarts]
  have hown : true ∈ job'.places.map hasOwnContext := by simp [hplaces]
  refine ⟨job, job', hjob, hrun, hphase, ?_, ?_⟩
  · obtain ⟨start, hstart, hindices⟩ := List.mem_map.1 hroot
    obtain ⟨other, hother, hindices'⟩ := List.mem_map.1 hchild
    obtain ⟨hxref, hindex⟩ := Prod.mk.inj hindices
    obtain ⟨hxref', hindex'⟩ := Prod.mk.inj hindices'
    have hmem := Job.mem_starts.1 hstart
    have hmem' := Job.mem_starts.1 hother
    have hsame : start.root = other.root := congrArg Xref.mk (hindex.trans hindex'.symm)
    obtain ⟨context, hcontext, honce, -, hmessage, -⟩ := hblocks start hmem
    refine ⟨start, other, hmem, hmem', ?_, (hroots start other hmem hmem').2 hsame, context,
      hcontext, honce, hmessage⟩
    intro heq
    rw [heq, hxref'] at hxref
    simp at hxref
  · obtain ⟨⟨icu, place⟩, hplace, hown⟩ := List.mem_map.1 hown
    cases place with
    | none => simp [hasOwnContext] at hown
    | some block =>
      obtain ⟨view, hview, hplace⟩ := List.mem_flatMap.1 hplace
      have hid : icu.message.id ≠ block.message.id := by simpa [hasOwnContext] using hown
      have hplaced : view.Places icu block := View.places_iff.2 hplace
      have hicu : .icuStart icu ∈ view.create.toList := by
        obtain ⟨front, inner, after, hops, -⟩ := hplaced
        simp [hops]
      obtain ⟨context, -, -, -, -, -, hown⟩ := (hicus view hview icu hicu).2 block hplaced
      exact ⟨view, hview, icu, block, hplaced, hid, (hown hid).2⟩

end Plan

end TemplateLowering
