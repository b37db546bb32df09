import UpdatePlanner.Main
import UpdatePlanner.Proofs.Data.Keys
import UpdatePlanner.Proofs.Data.Table
import UpdatePlanner.Proofs.Group.Assignment
import UpdatePlanner.Proofs.Group.Capping
import UpdatePlanner.Proofs.Group.Partition
import UpdatePlanner.Proofs.Group.Reloading
import UpdatePlanner.Proofs.Ignore.Gaps
import UpdatePlanner.Proofs.Ignore.Labels
import UpdatePlanner.Proofs.Ignore.OwnRange
import UpdatePlanner.Proofs.Plan.Accounts
import UpdatePlanner.Proofs.Plan.Blanket
import UpdatePlanner.Proofs.Plan.Ceiling
import UpdatePlanner.Proofs.Plan.Isolation
import UpdatePlanner.Proofs.Plan.Listing
import UpdatePlanner.Proofs.Plan.Offers
import UpdatePlanner.Proofs.Plan.Tightening
import UpdatePlanner.Proofs.Plan.Uncapped
import UpdatePlanner.Proofs.Report.Agreement
import UpdatePlanner.Proofs.Report.Counts
import UpdatePlanner.Proofs.Report.Listing
import UpdatePlanner.Proofs.Selection.Settled
import UpdatePlanner.Proofs.Version.Equivalence
import UpdatePlanner.Proofs.Requirement.Grammar
import UpdatePlanner.Proofs.Selection.Outcome
import UpdatePlanner.Proofs.Requirement.Rendering
import UpdatePlanner.Proofs.Requirement.Pessimistic
import UpdatePlanner.Proofs.Requirement.Convexity
import UpdatePlanner.Proofs.Selection.Rearranged
import UpdatePlanner.Proofs.Selection.Waiting
import UpdatePlanner.Proofs.Ignore.UpperBoundary
import UpdatePlanner.Proofs.Version.UpdateNumber
import UpdatePlanner.Proofs.Version.Rendering
import UpdatePlanner.Proofs.Version.Runs
import UpdatePlanner.Proofs.Plan.Union
import UpdatePlanner.Proofs.Calendar.Age
import UpdatePlanner.Proofs.Pattern.Encoding
import UpdatePlanner.Proofs.Pattern.Nesting
import UpdatePlanner.Proofs.Pattern.Stars
import UpdatePlanner.Proofs.Data.Records
import UpdatePlanner.Proofs.Selection.Encoding
import UpdatePlanner.Proofs.Plan.Checks
import UpdatePlanner.Proofs.Plan.Faults
