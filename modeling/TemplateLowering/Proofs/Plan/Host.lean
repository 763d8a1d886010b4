import TemplateLowering.Proofs.Job.Host
import TemplateLowering.Proofs.Plan.Run

/-!
# Plans for host bindings

A plan runs only those of its phases over the job of host bindings that are meant for such jobs.
None of them draws numbers or declares anything, so that less has to be known of the job than in
plans for templates.
-/

namespace TemplateLowering

section Step

variable {start job : Job} {scheduled phases : List Phase} {phase : Phase}

theorem Follows.advances_of_turns (h : Follows start scheduled job)
    (henabled : phase.Enabled scheduled) (hrefuses : ¬start.Refuses phase)
    (hphase : phase ≠ .specializeBindings ∧ phase ≠ .specializeStyleBindings)
    (hrun : ∃ job', phase.run job = .ok job' ∧ job.Turns id job') :
    Advances start phase job (Follows start (phase :: scheduled)) := by
  obtain ⟨job', hok, hturns⟩ := hrun
  refine advances_of_ok hrefuses ⟨job', hok, h.turns henabled hturns ?_⟩
  intro bindings
  rw [narrowedBy_cons hphase.1 hphase.2, id]

theorem Follows.step_of_appliesTo_host (h : Follows start scheduled job)
    (hhost : phase.appliesTo .host = true) (henabled : phase.Enabled scheduled)
    (hnew : phase ∉ scheduled) : Advances start phase job (Follows start (phase :: scheduled)) := by
  cases phase with
  | specializeStyleBindings =>
    exact (h.specializeStyleBindings hnew).imp fun _ hturns =>
      h.turns henabled hturns (narrowedBy_styles hnew)
  | specializeBindings =>
    exact (h.specializeBindings henabled hnew).imp fun _ hturns =>
      h.turns henabled hturns narrowedBy_rest
  | resolveDollarEvent =>
    exact h.advances_of_turns henabled not_false (by simp)
      ⟨_, rfl, Job.resolveDollarEvent_turns h.sound h.rooted⟩
  | mergeNextContextExpressions =>
    exact h.advances_of_turns henabled not_false (by simp)
      (Job.mergeNextContextExpressions_turns h.sound h.rooted)
  | _ => simp [Phase.appliesTo, Phase.kind, JobKind.appliesTo] at hhost

theorem Phase.appliesTo_host_of_mem_prerequisites {other : Phase}
    (hphase : phase.appliesTo .host = true) (hother : other ∈ phase.prerequisites) :
    other.appliesTo .host = true := by
  cases phase <;> simp_all [Phase.appliesTo, Phase.kind, Phase.prerequisites, JobKind.appliesTo]

theorem checkPhases_filter_host (h : checkPhases scheduled phases = .ok ()) :
    checkPhases (scheduled.filter (·.appliesTo .host)) (phases.filter (·.appliesTo .host)) =
      .ok () := by
  induction phases generalizing scheduled with
  | nil => rfl
  | cons phase phases ih =>
    obtain ⟨henabled, hnew, hrest⟩ := checkPhases_cons.1 h
    have ih := ih hrest
    by_cases hhost : phase.appliesTo .host = true
    · simp only [List.filter_cons, hhost, if_true] at ih ⊢
      refine checkPhases_cons.2 ⟨?_, fun hmem => hnew (List.mem_of_mem_filter hmem), ih⟩
      intro other hother
      exact List.mem_filter.2 ⟨henabled other hother,
        Phase.appliesTo_host_of_mem_prerequisites hhost hother⟩
    · simpa [List.filter_cons, hhost] using ih

end Step

namespace Plan

variable {host : HostBindings} {options : Options} {plan : Plan} {job job' : Job}

/-- The phases of the plan that are run over host bindings. -/
def hostPhases (plan : Plan) : List Phase :=
  plan.phases.filter (·.appliesTo .host)

theorem checkPhases_hostPhases (plan : Plan) : checkPhases [] plan.hostPhases = .ok () :=
  checkPhases_filter_host plan.isValid

theorem run_eq_runAll_hostPhases (plan : Plan) (hkind : job.kind = .host) :
    plan.run job = runAll plan.hostPhases job := by
  rw [run, hkind, hostPhases, runAll]

theorem induction_run_host (h : Job.ofHostBindings host options = .ok job)
    (hrun : plan.run job = .ok job') {P : Job → Prop} (hstart : P job)
    (hstep : ∀ (scheduled : List Phase) (phase : Phase) job₁ job₂, phase.appliesTo .host = true →
      Follows job scheduled job₁ → phase.run job₁ = .ok job₂ → P job₁ → P job₂) :
    Follows job plan.hostPhases.reverse job' ∧ P job' := by
  obtain ⟨hsound, hrooted⟩ := Job.ofHostBindings_sound h
  obtain ⟨-, -, -, -, hkind, -⟩ := Job.exists_ofHost h
  rw [plan.run_eq_runAll_hostPhases hkind] at hrun
  have hadvances : ∀ phase ∈ plan.hostPhases, ∀ scheduled job₁,
      Follows job scheduled job₁ ∧ P job₁ →
      phase.Enabled scheduled → phase ∉ scheduled →
      Advances job phase job₁ fun job₂ => Follows job (phase :: scheduled) job₂ ∧ P job₂ := by
    intro phase hphase scheduled job₁ ⟨hfollows, hjob₁⟩ henabled hnew
    have hhost := (List.mem_filter.1 hphase).2
    exact (hfollows.step_of_appliesTo_host hhost henabled hnew).and fun job₂ hok =>
      hstep scheduled phase job₁ job₂ hhost hfollows hok hjob₁
  obtain ⟨hfails, hleads⟩ := runAll_of_advances
    (I := fun scheduled job₁ => Follows job scheduled job₁ ∧ P job₁) hadvances
    ⟨follows_refl hsound hrooted, hstart⟩ plan.checkPhases_hostPhases
  rw [List.append_nil] at hleads
  by_cases hrefuses : ∃ phase ∈ plan.hostPhases, job.Refuses phase
  · obtain ⟨fault, -, herror⟩ := hfails hrefuses
    rw [herror] at hrun
    simp at hrun
  · obtain ⟨other, hother, hok⟩ := hleads hrefuses
    obtain rfl := Except.ok.inj (hok.symm.trans hrun)
    exact hother

end Plan

end TemplateLowering
