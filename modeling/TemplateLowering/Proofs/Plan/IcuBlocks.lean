import TemplateLowering.Proofs.Op.Translation
import TemplateLowering.Proofs.Plan.Invariants

/-!
# Blocks around the ICU expressions of a template

After any plan, wrapping puts a block around exactly the ICU expressions that stand outside all
blocks.  Every ICU expression then stands in a block, so that wrapping again finds none.
-/

namespace TemplateLowering

/-! ## Covered ICU expressions -/

/-- Before an ICU expression of a covered view, the last operation that starts or ends a block is a
start. -/
theorem exists_block_of_covered {ops front back : List CreateOp} {icu : IcuStart}
    (h : covered false (ops.flatMap CreateOp.marks) = true)
    (hops : ops = front ++ .icuStart icu :: back) :
    ∃ before block inner, front = before ++ .i18nStart block :: inner ∧
      ∀ op ∈ inner, op.bounds = false := by
  obtain ⟨placed, hplaced⟩ := placedIcus_total ops none h
  have hplace : (icu, front.foldl CreateOp.opens none) ∈ icuPlaces none ops :=
    mem_icuPlaces_iff.2 ⟨front, back, hops, rfl⟩
  rw [icuPlaces_of_placedIcus hplaced] at hplace
  obtain ⟨place, -, heq⟩ := List.mem_map.1 hplace
  obtain ⟨before, inner, hfront, hinner⟩ :=
    foldl_opens_eq_some_iff.1 (congrArg Prod.snd heq).symm
  exact ⟨before, place.block, inner, hfront, hinner⟩

theorem loneIcus_eq_nil {entries : List (OpId × CreateOp)} {inBlock : Bool}
    (h : covered inBlock ((entries.map Prod.snd).flatMap CreateOp.marks) = true) :
    loneIcus inBlock none entries = [] := by
  induction entries generalizing inBlock with
  | nil => rfl
  | cons entry entries ih =>
    obtain ⟨id, op⟩ := entry
    rw [List.map_cons, List.flatMap_cons] at h
    by_cases hkeep : inBlock = true ∨ op.isIcuStart = false
    · rw [loneIcus_cons_of_keep hkeep]
      rw [CreateOp.covered_marks_append hkeep] at h
      exact ih h
    · obtain ⟨hblock, hicu⟩ := not_or.1 hkeep
      cases op with
      | icuStart icu => simp [CreateOp.marks, covered, hblock] at h
      | _ => exact absurd rfl hicu

theorem View.yields_wrapIcus_self {view : View} (h : covered false view.marks = true) (s : Ids) :
    Yields view.wrapIcus s view s := by
  have hentries : view.create.entries.map Prod.snd = view.create.toList := by
    simp [OpList.entries, OpList.toList, List.map_filterMap]
  have hlone : loneIcus false none view.create.entries = [] :=
    loneIcus_eq_nil (by rw [hentries]; exact h)
  have hedit : editList view.create (pure () : OpList.Edit CreateOp Unit) = .ok view.create :=
    editList_eq_ok (yields_pure.2 ⟨rfl, rfl⟩)
  simp only [View.wrapIcus, hlone, List.mapM_nil, pure_bind]
  exact yields_pure.2 ⟨rfl, rfl⟩

namespace Job

variable {job : Job}

theorem mapUnitsFresh_eq_self {f : View → StateT Ids (Except Fault) View}
    (h : ∀ view ∈ job.units, ∀ s, Yields (f view) s view s) : job.mapUnitsFresh f = .ok job := by
  obtain ⟨job', hrun, hthreads, -⟩ := total_mapUnitsFresh
    (R := fun s view view' t => view' = view ∧ t = s) fun view hview s =>
      ⟨view, s, h view hview s, rfl, rfl⟩
  obtain ⟨-, hreunited⟩ := threads_of_mapUnitsFresh hrun
  have hids : id job'.ids = id job.ids := hthreads.keeps fun _ _ _ _ hsame => congrArg id hsame.2
  have hunits : List.Forall₂ Eq job.units job'.units :=
    hthreads.forall₂ fun _ _ _ _ _ hsame => hsame.1.symm
  rw [List.forall₂_eq_eq_eq] at hunits
  obtain ⟨hroot, hviews⟩ := List.cons.inj hunits
  rw [hrun, hreunited, ← hroot, ← hviews, show job'.ids = job.ids from hids]

theorem wrapI18nIcus_eq_self (h : job.Covered) : job.wrapI18nIcus = .ok job :=
  mapUnitsFresh_eq_self fun view hview => view.yields_wrapIcus_self (h view hview)

end Job

/-- The view with a block around every ICU expression that stands outside all blocks, where the
numbers of the blocks go from `s` to `t`. -/
def View.WrapsIcus (s : Ids) (view view' : View) (t : Ids) : Prop :=
  ∃ create, view' = { view with create } ∧ create.Linked ∧ create.id = view.create.id ∧
    t.nextList = s.nextList ∧ Enclosed false s.nextXref view.create.toList create.toList t.nextXref

theorem Job.Intact.wrapI18nIcus {job : Job} (h : job.Intact) :
    ∃ job', job.wrapI18nIcus = .ok job' ∧ job.Reunited job' ∧
      Threads View.WrapsIcus job.ids job.units job'.units job'.ids ∧
      job'.Covered := by
  obtain ⟨job', hrun, hwraps, -⟩ := total_mapUnitsFresh (R := View.WrapsIcus) fun view hview s => by
    obtain ⟨create, t, hyields, hlinked, hid, hlist, henclosed⟩ :=
      (h.sound view hview).exists_enclosed (h.balanced view hview) s
    exact ⟨_, t, hyields, create, rfl, hlinked, hid, hlist, henclosed⟩
  refine ⟨job', hrun, (threads_of_mapUnitsFresh hrun).2, hwraps, ?_⟩
  intro view' hview'
  obtain ⟨view, -, s, t, create, rfl, -, -, -, henclosed⟩ := hwraps.exists_of_mem hview'
  exact henclosed.covered

namespace Plan

variable {component : String} {template : List Template.Node} {options : Options}
variable {plan : Plan} {job job' : Job}

/-- Wrapping puts a block around every ICU expression that stands outside all blocks, with a number
that is not used in the job yet, and changes nothing else.  Afterwards the last operation before an
ICU expression that starts or ends a block is a start, and wrapping again changes nothing. -/
theorem icus_wrapped_of_run (h : Job.ofTemplate component template options = .ok job)
    (hrun : plan.run job = .ok job') :
    ∃ wrapped, job'.wrapI18nIcus = .ok wrapped ∧ job'.Reunited wrapped ∧
      (∀ xref ∈ job'.xrefs, xref.index < job'.ids.nextXref) ∧
      Threads View.WrapsIcus job'.ids job'.units wrapped.units wrapped.ids ∧
      (∀ view ∈ wrapped.units, ∀ front icu back,
        view.create.toList = front ++ .icuStart icu :: back →
        ∃ before block inner, front = before ++ .i18nStart block :: inner ∧
          ∀ op ∈ inner, op.bounds = false) ∧
      wrapped.wrapI18nIcus = .ok wrapped := by
  have hintact := (reached_of_run h hrun).intact
  obtain ⟨wrapped, hwrap, hreunited, hwraps, hcovered⟩ := hintact.wrapI18nIcus
  refine ⟨wrapped, hwrap, hreunited, (distinct_iff.1 hintact.distinct).2, hwraps, ?_,
    Job.wrapI18nIcus_eq_self hcovered⟩
  intro view hview front icu back hops
  exact exists_block_of_covered (hcovered view hview) hops

/-- The one ICU expression of the gallery that stands in no block gets one. -/
theorem icus_wrapped_of_run_gallery :
    ∃ job job' wrapped, Job.ofTemplate "Gallery" gallery {} = .ok job ∧
      Plan.run { phases := [.propagateI18nBlocks], isValid := rfl } job = .ok job' ∧
      job'.wrapI18nIcus = .ok wrapped ∧ job'.starts.length = 2 ∧ wrapped.starts.length = 3 ∧
      wrapped.wrapI18nIcus = .ok wrapped := by
  have hcounts : ((Job.ofTemplate "Gallery" gallery {}).toOption.bind fun job =>
      (Plan.run { phases := [.propagateI18nBlocks], isValid := rfl } job).toOption.map fun job' =>
        job'.wrapI18nIcus.toOption.map fun wrapped =>
          (job'.starts.length, wrapped.starts.length)) = some (some (2, 3)) := by
    decide +kernel
  obtain ⟨job, job', hjob, hrun, hcounts⟩ := exists_ok_of_eval hcounts
  obtain ⟨wrapped, hwrap, -, -, -, -, hagain⟩ := icus_wrapped_of_run hjob hrun
  simp only [hwrap, Except.toOption, Option.map_some, Option.some.injEq, Prod.mk.injEq] at hcounts
  exact ⟨job, job', wrapped, hjob, hrun, hwrap, hcounts.1, hcounts.2, hagain⟩

end Plan
end TemplateLowering
