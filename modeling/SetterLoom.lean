import SetterLoom.Text.Quoted
import SetterLoom.Module.Edit
import SetterLoom.Module.External
import SetterLoom.Module.Retain
import SetterLoom.Module.Listing
import SetterLoom.Options
import SetterLoom.Weave.Pass
import SetterLoom.Workspace
import SetterLoom.Machine.Run
import SetterLoom.Report.Machine
import SetterLoom.Report.Weave
import SetterLoom.Proofs.Machine.Nested
import SetterLoom.Proofs.Weave.Preserved
import SetterLoom.Proofs.Weave.Woven
import SetterLoom.Proofs.Weave.Again
import SetterLoom.Proofs.Weave.Variables
import SetterLoom.Proofs.Weave.Unboxed
import SetterLoom.Proofs.Weave.Passed
import SetterLoom.Proofs.Weave.Returned
import SetterLoom.Proofs.Weave.Reordered
import SetterLoom.Proofs.Weave.Children
import SetterLoom.Proofs.Module.Registered
import SetterLoom.Proofs.Weave.Answers
import SetterLoom.Proofs.Machine.Unhooked
import SetterLoom.Proofs.Machine.Subscribed
import SetterLoom.Proofs.Weave.Bubbled
import SetterLoom.Proofs.Machine.History
import SetterLoom.Proofs.Machine.Dispatched
import SetterLoom.Proofs.Weave.Checked
import SetterLoom.Proofs.Weave.Confined
import SetterLoom.Proofs.Weave.Overloads
import SetterLoom.Proofs.Weave.Apart
import SetterLoom.Proofs.Weave.Accounted
import SetterLoom.Proofs.Weave.Reasons
import SetterLoom.Proofs.Module.Inherited
import SetterLoom.Proofs.Machine.Ranked
import SetterLoom.Proofs.Machine.Equated
import SetterLoom.Proofs.Markup.Configured
import SetterLoom.Proofs.Machine.Unmistaken
import SetterLoom.Proofs.Machine.Landing
import SetterLoom.Proofs.Weave.Edits
import SetterLoom.Proofs.Weave.Failed
import SetterLoom.Proofs.Weave.Located
