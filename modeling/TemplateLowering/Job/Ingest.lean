import TemplateLowering.Lowering.Host
import TemplateLowering.Lowering.Node

/-!
# Jobs from templates and host bindings

`Job.ingest` adds nodes to a view of a job; `Job.ofTemplate` and `Job.ofHostBindings` make the job
of a whole template and of a set of host bindings.
-/

namespace TemplateLowering.Job

def facts (job : Job) : JobFacts :=
  { root := job.root.xref, compatibility := job.options.compatibilityMode }

/-- Adds a fragment to a view: its operations at the end of the view's lists, its views at the end
of the job's. -/
def addFragment (job : Job) (view : Xref) (fragment : Fragment) : Job :=
  let job := job.modifyUnit view fun unit =>
    { unit with
      create := unit.create.appendAll fragment.create
      update := unit.update.appendAll fragment.update }
  { job with views := job.views ++ fragment.views }

def addLowered (job : Job) (view : Xref) (lowering : Lower Fragment) : Except CompileError Job :=
  match lowering.run job.ids with
  | (.ok fragment, ids) => .ok { job.addFragment view fragment with ids }
  | (.error error, _) => .error error

/-- Lowers nodes into a view of the job. -/
def ingest (job : Job) (view : Xref) (nodes : List Template.Node) : Except CompileError Job :=
  job.addLowered view (lowerNodes job.facts view nodes)

/-- The job of a component's template. -/
def ofTemplate (component : String) (template : List Template.Node) (options : Options) :
    Except CompileError Job :=
  let job := new .template component options
  job.ingest job.root.xref template

/-- The job of a set of host bindings. -/
def ofHostBindings (host : HostBindings) (options : Options) : Except CompileError Job :=
  let job := new .host host.component options
  job.addLowered job.root.xref (lowerHostBindings job.root.xref host)

end TemplateLowering.Job
