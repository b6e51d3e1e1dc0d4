import ApiPages.Run
import ApiPages.Declaration
import ApiPages.Comment
import ApiPages.Json
import ApiPages.Markdown
import ApiPages.Yaml
import ApiPages.Tag.Custom
import ApiPages.Proofs.Table
import ApiPages.Proofs.Override.Unshared
import ApiPages.Proofs.Override.Overlay
import ApiPages.Proofs.Override.Step
import ApiPages.Proofs.Override.Worklist
import ApiPages.Proofs.Override.Fold
import ApiPages.Proofs.Override.Target
import ApiPages.Proofs.Override.Member
import ApiPages.Proofs.Override.Gathered
import ApiPages.Proofs.Comment.Cut
import ApiPages.Proofs.Comment.Fate
import ApiPages.Proofs.Text.Solid
import ApiPages.Proofs.Scan
import ApiPages.Proofs.Tag.Shape
import ApiPages.Proofs.Tag.Reading
import ApiPages.Proofs.Tag.Sturdy
import ApiPages.Proofs.Registry
import ApiPages.Proofs.Comment.Kept
import ApiPages.Proofs.Sources
import ApiPages.Proofs.Merge
import ApiPages.Proofs.Override.Ready
import ApiPages.Proofs.Page
import ApiPages.Proofs.Run
import ApiPages.Proofs.Override.Removal
import ApiPages.Proofs.Tag.Settled
import ApiPages.Proofs.Merge.Again
import ApiPages.Proofs.Run.Again
import ApiPages.Proofs.Scan.Break
import ApiPages.Proofs.Tag.Break
import ApiPages.Proofs.Comment.Joined
import ApiPages.Proofs.Logged
import ApiPages.Proofs.Logged.Stages
import ApiPages.Proofs.Logged.Run
import ApiPages.Proofs.Page.Section
import ApiPages.Proofs.Merge.Complaint
import ApiPages.Proofs.Override.Warned
import ApiPages.Proofs.Run.Warnings
import ApiPages.Proofs.Scan.Exact
import ApiPages.Proofs.Tag.Param
import ApiPages.Proofs.Comment.Decorated
import ApiPages.Proofs.Comment.Params
import ApiPages.Proofs.Text.Mark
import ApiPages.Proofs.Tag.Alike
import ApiPages.Proofs.Merge.Unrendered
import ApiPages.Proofs.Merge.Alike
import ApiPages.Proofs.Page.Alike
import ApiPages.Proofs.Merge.Calls
import ApiPages.Proofs.Merge.Reordered
import ApiPages.Proofs.Run.Pages
import ApiPages.Proofs.Merge.Repeated
import ApiPages.Proofs.Merge.Surplus
import ApiPages.Proofs.Override.Operations
import ApiPages.Proofs.Override.Shared
import ApiPages.Proofs.Override.Batch
import ApiPages.Proofs.Registry.Order
import ApiPages.Proofs.Page.Own
import ApiPages.Proofs.Page.Again
import ApiPages.Proofs.Merge.Covered
import ApiPages.Proofs.Merge.Declared
import ApiPages.Proofs.Merge.Derived
import ApiPages.Proofs.Registry.Discovery
import ApiPages.Proofs.Text.Visible
import ApiPages.Proofs.Comment.Unregistered
import ApiPages.Proofs.Tag.Returned
import ApiPages.Proofs.Comment.Delimited
import ApiPages.Proofs.Scan.Typed
import ApiPages.Proofs.Tag.Listed
import ApiPages.Proofs.Run.Shown
import ApiPages.Proofs.Override.Blocks
import ApiPages.Proofs.Scan.Operations
import ApiPages.Proofs.Tag.Performed
import ApiPages.Proofs.Occurrences
import ApiPages.Proofs.Written
import ApiPages.Proofs.Settings
