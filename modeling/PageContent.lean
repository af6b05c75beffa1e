import PageContent.Main
import PageContent.Proofs.Builder.Filtering
import PageContent.Proofs.Builder.Joined
import PageContent.Proofs.Builder.Listing
import PageContent.Proofs.ContentItem.Assembled
import PageContent.Proofs.ContentItem.Ending
import PageContent.Proofs.ContentItem.Image
import PageContent.Proofs.ContentItem.Integers
import PageContent.Proofs.ContentStream.Boundaries
import PageContent.Proofs.Drawing.Found
import PageContent.Proofs.OperatorTree.Additions
import PageContent.Proofs.OperatorTree.Bracketed
import PageContent.Proofs.OperatorTree.RoundTrip
import PageContent.Proofs.OperatorTree.Sole
import PageContent.Proofs.Workspace.Inserted
import PageContent.Proofs.Workspace.Removed
import PageContent.Proofs.Workspace.Sessions
import PageContent.Proofs.Workspace.Signalled
import PageContent.Proofs.Workspace.Single
import PageContent.Proofs.Workspace.Strangers
import PageContent.Proofs.Workspace.Swapped
import PageContent.Proofs.Workspace.Undone
import PageContent.Proofs.OperatorTree.Walked
import PageContent.Proofs.Builder.Made
import PageContent.Proofs.Token.Bounded
import PageContent.Proofs.Token.Fitting
import PageContent.Proofs.Token.Onward
import PageContent.Proofs.Drawing.Saved
import PageContent.Proofs.Drawing.Tagged
import PageContent.Proofs.Drawing.Extracted
import PageContent.Proofs.Document.Returned
import PageContent.Proofs.Operand.Converted
import PageContent.Proofs.Workspace.Reported
