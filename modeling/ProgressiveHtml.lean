import ProgressiveHtml.Config.Text
import ProgressiveHtml.Proofs.Document.Content
import ProgressiveHtml.Proofs.Document.Overtaking
import ProgressiveHtml.Reader
import ProgressiveHtml.Session
import ProgressiveHtml.Proofs.Registry.Draining
import ProgressiveHtml.Proofs.Document.Cancellation
import ProgressiveHtml.Proofs.Template.Reference
import ProgressiveHtml.Proofs.Template.Questions
import ProgressiveHtml.Proofs.Template.Settling
import ProgressiveHtml.Proofs.Template.Reading
import ProgressiveHtml.Proofs.Rendering.Deadlines
import ProgressiveHtml.Proofs.Rendering.Stages
import ProgressiveHtml.Proofs.Rendering.Asked
import ProgressiveHtml.Proofs.Rendering.Beside
import ProgressiveHtml.Proofs.Rendering.Plan
import ProgressiveHtml.Proofs.Rendering.Evaluation
import ProgressiveHtml.Proofs.Document.Consumption
import ProgressiveHtml.Proofs.Document.Following
import ProgressiveHtml.Proofs.Document.Deciding
import ProgressiveHtml.Proofs.Document.Relocation
import ProgressiveHtml.Proofs.Document.Losses
import ProgressiveHtml.Proofs.Node.Apart
import ProgressiveHtml.Proofs.Registry.Chronicle
import ProgressiveHtml.Proofs.Registry.Independence
import ProgressiveHtml.Proofs.Document.Containment
import ProgressiveHtml.Proofs.Template.Weaving
import ProgressiveHtml.Proofs.Response.Books
import ProgressiveHtml.Proofs.Response.Ended
import ProgressiveHtml.Proofs.Response.Outcome
import ProgressiveHtml.Proofs.Document.Latency
import ProgressiveHtml.Proofs.Reader.Agreement
import ProgressiveHtml.Proofs.Document.Unplaced
import ProgressiveHtml.Proofs.Node.Once
import ProgressiveHtml.Proofs.Document.Activity
import ProgressiveHtml.Proofs.Node.InPlace
import ProgressiveHtml.Proofs.Node.Unambiguous
import ProgressiveHtml.Proofs.Node.Failing
import ProgressiveHtml.Proofs.Config.RoundTrip
import ProgressiveHtml.Proofs.Template.Emission
import ProgressiveHtml.Proofs.Template.Demand
import ProgressiveHtml.Proofs.Template.Unheld
import ProgressiveHtml.Proofs.Template.Blame
import ProgressiveHtml.Proofs.Response.FirstPatch
import ProgressiveHtml.Proofs.Config.Timeout
import ProgressiveHtml.Proofs.Markup.Reversible
