import Cascade.Main
import Cascade.Report.Style
import Cascade.Script
import Cascade.Proofs.Batch.Abort
import Cascade.Proofs.Batch.Containment
import Cascade.Proofs.Batch.Depth
import Cascade.Proofs.Siblings.Abreast
import Cascade.Proofs.Siblings.Finish
import Cascade.Proofs.Reading.Written
import Cascade.Proofs.Siblings.Independence
import Cascade.Proofs.Context.Isolation
import Cascade.Proofs.Repetition.Meaning
import Cascade.Proofs.Reading.Agreement
import Cascade.Proofs.Reading.Members
import Cascade.Proofs.Reading.Slash
import Cascade.Proofs.Reading.Spacing
import Cascade.Proofs.Reading.BarePairs
import Cascade.Proofs.Session.BrokenModule
import Cascade.Proofs.Registry.Store
import Cascade.Proofs.Registry.Startup
import Cascade.Proofs.Registry.Given
import Cascade.Proofs.Log.Conservation
import Cascade.Proofs.Outside.Agreement
import Cascade.Proofs.Config.Layers
import Cascade.Proofs.Config.Overlay
import Cascade.Proofs.Chain.Refusal
import Cascade.Proofs.Convention.Interchange
import Cascade.Proofs.Config.References
import Cascade.Proofs.Registry.Sections
import Cascade.Proofs.Report.Protocol
import Cascade.Proofs.Batch.Tokens
