import DocWeave.Description.Decode
import DocWeave.Link.Javadoc
import DocWeave.Proofs.Comment.Reader
import DocWeave.Proofs.Comment.Conservation
import DocWeave.Proofs.Description.Edits
import DocWeave.Proofs.Pass.Attribution
import DocWeave.Proofs.Render.Moments
import DocWeave.Proofs.Pass.Gate
import DocWeave.Proofs.Resolution.Method
import DocWeave.Proofs.Pass.Order
import DocWeave.Proofs.Render.Calls
import DocWeave.Proofs.Resolution.Agreement
import DocWeave.Proofs.Resolution.Policy
import DocWeave.Proofs.Resolution.Overloads
import DocWeave.Proofs.Pass.Abort
import DocWeave.Proofs.Render.Unreached
import DocWeave.Proofs.Comment.Shape
import DocWeave.Proofs.Link.Destination
import DocWeave.Proofs.Members.Overriding
import DocWeave.Proofs.Resolution.ImportPath
import DocWeave.Proofs.Resolution.ImportOrder
import DocWeave.Proofs.DocTree.NormalForm
import DocWeave.Proofs.Render.NormalForm
import DocWeave.Proofs.Comment.Decoration
import DocWeave.Proofs.Comment.LinkTag
import DocWeave.Proofs.Comment.Partition
import DocWeave.Proofs.Resolution.Parameters
import DocWeave.Proofs.Workspace.History
import DocWeave.Proofs.Description.Loading
