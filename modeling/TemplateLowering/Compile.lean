import TemplateLowering.Job.Ingest
import TemplateLowering.Plan

/-!
# Compiling

Lowers a template, or a set of host bindings, and runs a plan over the job.
-/

namespace TemplateLowering

/-- Why nothing was compiled. -/
inductive Failure
  | template (component : String) (error : CompileError)
  | hostBindings (component : String) (error : CompileError)
  | broken (fault : Fault)

def Failure.message : Failure → String
  | .template component error =>
      "failed to ingest the template of " ++ component ++ ": " ++ error.message
  | .hostBindings component error =>
      "failed to ingest the host bindings of " ++ component ++ ": " ++ error.message
  | .broken fault => fault.message

def compileTemplateWith (component : String) (template : List Template.Node) (options : Options)
    (plan : Plan) : Except Failure Job := do
  let job ← (Job.ofTemplate component template options).mapError (.template component)
  (plan.run job).mapError .broken

def compileTemplate (component : String) (template : List Template.Node) (options : Options) :
    Except Failure Job :=
  compileTemplateWith component template options .standard

def compileHostBindings (host : HostBindings) (options : Options) : Except Failure Job := do
  let job ← (Job.ofHostBindings host options).mapError (.hostBindings host.component)
  (Plan.standard.run job).mapError .broken

end TemplateLowering
