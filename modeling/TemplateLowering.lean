import TemplateLowering.Compact.Create
import TemplateLowering.Compact.Message
import TemplateLowering.Interchange.Options
import TemplateLowering.Interchange.Template
import TemplateLowering.Json.Printer
import TemplateLowering.Op.List.Describe
import TemplateLowering.Proofs.Job.Append
import TemplateLowering.Proofs.Job.Ingest
import TemplateLowering.Proofs.Lowering.Placeholder
import TemplateLowering.Proofs.Lowering.Sketch
import TemplateLowering.Proofs.Op.Traversal
import TemplateLowering.Proofs.OpList.Tour
import TemplateLowering.Proofs.Pass.AttributeContext
import TemplateLowering.Proofs.Pass.ContextViews
import TemplateLowering.Proofs.Pass.Exits
import TemplateLowering.Proofs.Plan.BlockNumbers
import TemplateLowering.Proofs.Plan.Contexts
import TemplateLowering.Proofs.Plan.ControlFlow
import TemplateLowering.Proofs.Plan.IcuBlocks
import TemplateLowering.Proofs.Plan.Labels
import TemplateLowering.Proofs.Plan.Lists
import TemplateLowering.Proofs.Plan.NonBindable
import TemplateLowering.Proofs.Plan.Order
import TemplateLowering.Proofs.Plan.References
import TemplateLowering.Proofs.Plan.Tracking
import TemplateLowering.Proofs.Plan.ViewWalks
import TemplateLowering.Proofs.Security
import TemplateLowering.Proofs.Source.Location
import TemplateLowering.Text.Quoted
