import TemplateLowering.Pass.Binding
import TemplateLowering.Pass.Container
import TemplateLowering.Pass.I18nBlock
import TemplateLowering.Pass.I18nContext
import TemplateLowering.Pass.Listener
import TemplateLowering.Pass.NextContext
import TemplateLowering.Pass.Track

/-!
# Plans

A plan is an order in which to run phases over a job.  It schedules each phase at most once, and
only after the phases whose results the phase relies on.
-/

namespace TemplateLowering

/-- One transformation of a job. -/
inductive Phase
  | specializeStyleBindings
  | specializeBindings
  | propagateI18nBlocks
  | wrapI18nIcus
  | createI18nContexts
  | saveAndRestoreView
  | resolveDollarEvent
  | generateTrackVariables
  | optimizeTrackFns
  | mergeNextContextExpressions
  | generateNgContainerOps
deriving DecidableEq, Inhabited, Repr

namespace Phase

/-- All phases, in the order in which they are normally run. -/
def all : List Phase :=
  [specializeStyleBindings, specializeBindings, propagateI18nBlocks, wrapI18nIcus,
    createI18nContexts, saveAndRestoreView, resolveDollarEvent, generateTrackVariables,
    optimizeTrackFns, mergeNextContextExpressions, generateNgContainerOps]

def name : Phase → String
  | specializeStyleBindings => "specialize_style_bindings"
  | specializeBindings => "specialize_bindings"
  | propagateI18nBlocks => "propagate_i18n_blocks"
  | wrapI18nIcus => "wrap_i18n_icus"
  | createI18nContexts => "create_i18n_contexts"
  | saveAndRestoreView => "save_and_restore_view"
  | resolveDollarEvent => "resolve_dollar_event"
  | generateTrackVariables => "generate_track_variables"
  | optimizeTrackFns => "optimize_track_fns"
  | mergeNextContextExpressions => "merge_next_context_expressions"
  | generateNgContainerOps => "generate_ng_container_ops"

def ofName? (name : String) : Option Phase :=
  all.find? fun phase => phase.name == name

/-- The jobs that the phase is meant for. -/
def kind : Phase → JobKind
  | specializeStyleBindings | specializeBindings | resolveDollarEvent
  | mergeNextContextExpressions => .both
  | propagateI18nBlocks | wrapI18nIcus | createI18nContexts | saveAndRestoreView
  | generateTrackVariables | optimizeTrackFns | generateNgContainerOps => .template

def appliesTo (phase : Phase) (job : JobKind) : Bool :=
  phase.kind.appliesTo job

/-- The phases whose results the phase relies on. -/
def prerequisites : Phase → List Phase
  | specializeBindings => [specializeStyleBindings]
  | optimizeTrackFns => [generateTrackVariables]
  | wrapI18nIcus => [propagateI18nBlocks]
  | createI18nContexts => [propagateI18nBlocks, wrapI18nIcus]
  | specializeStyleBindings | propagateI18nBlocks | saveAndRestoreView | resolveDollarEvent
  | generateTrackVariables | mergeNextContextExpressions | generateNgContainerOps => []

/-- Runs the phase, whatever the kind of the job. -/
def run (phase : Phase) (job : Job) : Except Fault Job :=
  match phase with
  | specializeStyleBindings => job.specializeStyleBindings
  | specializeBindings => job.specializeBindings
  | propagateI18nBlocks => job.propagateI18nBlocks
  | wrapI18nIcus => job.wrapI18nIcus
  | createI18nContexts => job.createI18nContexts
  | saveAndRestoreView => job.saveAndRestoreView
  | resolveDollarEvent => .ok job.resolveDollarEvent
  | generateTrackVariables => .ok job.generateTrackVariables
  | optimizeTrackFns => job.optimizeTrackFns
  | mergeNextContextExpressions => job.mergeNextContextExpressions
  | generateNgContainerOps => .ok job.generateNgContainers

end Phase

/-- Why an order of phases is not a plan. -/
inductive PlanError
  | phaseOrder (phase prerequisite : Phase)
  | duplicatePhase (phase : Phase)
deriving DecidableEq, Inhabited, Repr

def PlanError.message : PlanError → String
  | .phaseOrder phase prerequisite =>
      "Phase `" ++ phase.name ++ "` must run after `" ++ prerequisite.name ++ "`"
  | .duplicatePhase phase => "Phase `" ++ phase.name ++ "` is scheduled more than once"

/-- Checks that phases can follow those already scheduled. -/
def checkPhases : List Phase → List Phase → Except PlanError Unit
  | _, [] => .ok ()
  | scheduled, phase :: phases =>
      match phase.prerequisites.find? (· ∉ scheduled) with
      | some missing => .error (.phaseOrder phase missing)
      | none =>
          if phase ∈ scheduled then .error (.duplicatePhase phase)
          else checkPhases (phase :: scheduled) phases

/-- An order of phases that respects their prerequisites. -/
structure Plan where
  phases : List Phase
  isValid : checkPhases [] phases = .ok ()

namespace Plan

def ofPhases (phases : List Phase) : Except PlanError Plan :=
  match isValid : checkPhases [] phases with
  | .ok () => .ok { phases, isValid }
  | .error error => .error error

def standard : Plan :=
  { phases := Phase.all, isValid := rfl }

/-- Runs the phases that apply to the kind of the job, in order. -/
def run (plan : Plan) (job : Job) : Except Fault Job :=
  (plan.phases.filter (·.appliesTo job.kind)).foldlM (fun job phase => phase.run job) job

end Plan
end TemplateLowering
