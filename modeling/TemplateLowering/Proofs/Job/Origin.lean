import TemplateLowering.Proofs.Job.Intact
import TemplateLowering.Proofs.Lowering.Origin

/-!
# Jobs before any phase

The views of a template hold operations as lowering makes them.
-/

namespace TemplateLowering.Job

variable {component : String} {template : List Template.Node} {options : Options} {job : Job}
  {fragment : Fragment} {root : View} {n n' : Nat}

theorem exists_raw (h : ofTemplate component template options = .ok job) :
    ∃ fragment : Fragment, fragment.Raw freeIds.nextList job.ids.nextList ∧
      RootOf fragment job.root ∧ job.views = fragment.views := by
  obtain ⟨fragment, facts, hyields, hroot, hviews, -⟩ := exists_lowering h
  exact ⟨fragment, lowerNodes_raw hyields, hroot, hviews⟩

theorem RootOf.raw (h : RootOf fragment root) (hraw : fragment.Raw n n') : root.Raw := by
  constructor
  · rw [h.create.toList]
    exact hraw.create
  · rw [h.update.toList]
    exact hraw.update

theorem raw_of_ofTemplate (h : ofTemplate component template options = .ok job) :
    ∀ view ∈ job.units, view.Raw := by
  obtain ⟨fragment, hraw, hroot, hviews⟩ := exists_raw h
  rw [units, hviews, List.forall_mem_cons]
  exact ⟨hroot.raw hraw, hraw.views⟩

end TemplateLowering.Job
