import TemplateLowering.Proofs.Plan.Run

/-!
# When a plan fails

Whether a plan fails can be told from the job with which it starts: it fails exactly when one of its
phases refuses that job.  No order of the phases can bring about another fault.
-/

namespace TemplateLowering

namespace Phase

variable {phase : Phase} {fault : Fault}

theorem FailsWith.cases (h : phase.FailsWith fault) :
    fault = .classInterpolation ∨ (∃ name, fault = .twoWayInterpolation name) ∨
      fault = .nonBindableTarget ∨ fault = .pipeInTrack := by
  cases phase with
  | specializeStyleBindings => exact .inl h
  | specializeBindings =>
    rcases h with htarget | htwoWay
    · exact .inr (.inr (.inl htarget))
    · exact .inr (.inl htwoWay)
  | optimizeTrackFns => exact .inr (.inr (.inr h))
  | _ => exact h.elim

end Phase

theorem Job.exists_refuses_iff {job : Job} {phases : List Phase} :
    (∃ phase ∈ phases, job.Refuses phase) ↔
      (.specializeStyleBindings ∈ phases ∧ job.HasClassInterpolation) ∨
      (.specializeBindings ∈ phases ∧ (job.HasTwoWayInterpolation ∨ job.HasStrayNonBindable)) ∨
      (.optimizeTrackFns ∈ phases ∧ job.HasPipeInTrack) := by
  constructor
  · intro h
    obtain ⟨phase, hphase, hrefuses⟩ := h
    cases phase with
    | specializeStyleBindings => exact .inl ⟨hphase, hrefuses⟩
    | specializeBindings => exact .inr (.inl ⟨hphase, hrefuses⟩)
    | optimizeTrackFns => exact .inr (.inr ⟨hphase, hrefuses⟩)
    | _ => exact hrefuses.elim
  · intro h
    rcases h with ⟨hphase, hrefuses⟩ | ⟨hphase, hrefuses⟩ | ⟨hphase, hrefuses⟩
    · exact ⟨_, hphase, hrefuses⟩
    · exact ⟨_, hphase, hrefuses⟩
    · exact ⟨_, hphase, hrefuses⟩

namespace Plan

variable {component : String} {template : List Template.Node} {options : Options} {job : Job}

theorem fails_iff_exists_refuses (h : Job.ofTemplate component template options = .ok job)
    (plan : Plan) :
    (∃ fault, plan.run job = .error fault) ↔ ∃ phase ∈ plan.phases, job.Refuses phase := by
  constructor
  · intro hfails
    by_contra hrefuses
    obtain ⟨fault, hfault⟩ := hfails
    obtain ⟨job', -, hok⟩ := run_of_not_refuses h plan hrefuses
    rw [hok] at hfault
    simp at hfault
  · intro hrefuses
    obtain ⟨fault, -, herror⟩ := run_of_refuses h plan hrefuses
    exact ⟨fault, herror⟩

/-- A plan for the job of a template fails exactly when a class or a two-way property is bound to an
interpolation, `ngNonBindable` stands on no element, or a track expression holds a pipe, and the
phase that minds is in the plan.  There is no other fault. -/
theorem run_fails_iff (h : Job.ofTemplate component template options = .ok job) (plan : Plan) :
    ((∃ fault, plan.run job = .error fault) ↔
      (.specializeStyleBindings ∈ plan.phases ∧ job.HasClassInterpolation) ∨
      (.specializeBindings ∈ plan.phases ∧
        (job.HasTwoWayInterpolation ∨ job.HasStrayNonBindable)) ∨
      (.optimizeTrackFns ∈ plan.phases ∧ job.HasPipeInTrack)) ∧
    ∀ fault, plan.run job = .error fault →
      fault = .classInterpolation ∨ (∃ name, fault = .twoWayInterpolation name) ∨
        fault = .nonBindableTarget ∨ fault = .pipeInTrack := by
  refine ⟨(fails_iff_exists_refuses h plan).trans Job.exists_refuses_iff, ?_⟩
  intro fault hfault
  have hrefuses := (fails_iff_exists_refuses h plan).1 ⟨fault, hfault⟩
  obtain ⟨fault', ⟨phase, -, hfails⟩, herror⟩ := run_of_refuses h plan hrefuses
  rw [herror] at hfault
  obtain rfl := Except.error.inj hfault
  exact hfails.cases

end Plan

/-- A loop whose items are tracked by a pipe that is applied to the context. -/
def trackedByPipe : List Template.Node :=
  let here : SourceSpan := default
  [.forBlock
    { item := { name := "item", value := "$implicit", span := here }
      expression := { ast := .thisReceiver {} }
      trackBy := { ast := .pipe {} {} (.thisReceiver {}) "key" [] .byName }
      contextVariables := []
      children := [.text { value := "row", span := here }]
      empty := none
      block := { whole := here, start := here, stop := none }
      mainSpan := here
      i18n := none }]

theorem Plan.run_fails_iff_trackedByPipe :
    ∃ job, Job.ofTemplate "List" trackedByPipe {} = .ok job ∧
      (∃ fault, Plan.standard.run job = .error fault) ∧
      ((∃ fault, Plan.standard.run job = .error fault) ↔
        (.specializeStyleBindings ∈ Plan.standard.phases ∧ job.HasClassInterpolation) ∨
        (.specializeBindings ∈ Plan.standard.phases ∧
          (job.HasTwoWayInterpolation ∨ job.HasStrayNonBindable)) ∨
        (.optimizeTrackFns ∈ Plan.standard.phases ∧ job.HasPipeInTrack)) := by
  have hok : (Job.ofTemplate "List" trackedByPipe {}).isOk = true := by decide +kernel
  obtain ⟨job, hjob⟩ := exists_eq_ok_of_isOk hok
  have hrun : ((Job.ofTemplate "List" trackedByPipe {}).toOption.map fun job =>
      (Plan.standard.run job).isOk) = some false := by decide +kernel
  rw [hjob] at hrun
  have hfails := exists_eq_error_of_isOk (Option.some.inj hrun)
  exact ⟨job, hjob, hfails, (Plan.run_fails_iff hjob Plan.standard).1⟩

end TemplateLowering
