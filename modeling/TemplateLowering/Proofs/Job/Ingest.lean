import TemplateLowering.Proofs.Job.Origin
import TemplateLowering.Proofs.Job.Units

/-!
# Nodes added to a view

`Job.ingest` works on any view of a job.  It appends to the two lists of that view and adds views at
the end of the job; all else stays as it was.
-/

namespace TemplateLowering

namespace Job

variable {job job' : Job} {nodes : List Template.Node} {view : View} {v : Xref}

end Job

end TemplateLowering
