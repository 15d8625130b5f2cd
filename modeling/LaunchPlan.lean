import LaunchPlan.Main
import LaunchPlan.Proofs.AllOrNothing
import LaunchPlan.Proofs.Choices
import LaunchPlan.Proofs.EditedDefault
import LaunchPlan.Proofs.Groups
import LaunchPlan.Proofs.InnermostFault
import LaunchPlan.Proofs.Mentions
import LaunchPlan.Proofs.NodeSections
import LaunchPlan.Proofs.OutputsAfresh
import LaunchPlan.Proofs.Overrides
import LaunchPlan.Proofs.PackagePaths
import LaunchPlan.Proofs.PathComponents
import LaunchPlan.Proofs.ProcessElements
import LaunchPlan.Proofs.ProcessParameters
import LaunchPlan.Proofs.QuotedCommands
import LaunchPlan.Proofs.ReadingsAtOnce
import LaunchPlan.Proofs.RefusedDeclarations
import LaunchPlan.Proofs.ReportOrder
import LaunchPlan.Proofs.SafeReading
import LaunchPlan.Proofs.StopRequests
import LaunchPlan.Proofs.Verdict
import LaunchPlan.Proofs.WrittenSelectors
