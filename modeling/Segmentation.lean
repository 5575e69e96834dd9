import Segmentation.Text.Blank
import Segmentation.Text.Alphanumeric
import Segmentation.Text.Caseless
import Segmentation.Text.Identifier
import Segmentation.Text.Numeral
import Segmentation.Text.Order
import Segmentation.Text.Quoted
import Segmentation.Decimal.Shortest
import Segmentation.Calendar.Pattern
import Segmentation.Slot
import Segmentation.Catalog.Lookup
import Segmentation.Catalog.Stock
import Segmentation.Config
import Segmentation.Form.Config
import Segmentation.Form.Value
import Segmentation.Rule.Reachable
import Segmentation.Rule.Edit
import Segmentation.Decimal.ReadBack
import Segmentation.Calendar.ReadBack
import Segmentation.Expr.Grammar
import Segmentation.Expr.Report
import Segmentation.Proofs.Text.Split
import Segmentation.Proofs.Catalog.Lookup
import Segmentation.Proofs.Value.Written
import Segmentation.Proofs.Value.ReadBack
import Segmentation.Proofs.Value.Argument
import Segmentation.Proofs.Catalog.Slots
import Segmentation.Proofs.Catalog.Offered
import Segmentation.Proofs.Catalog.Fields
import Segmentation.Proofs.Catalog.Faults
import Segmentation.Proofs.Expr.Meaning
import Segmentation.Proofs.Expr.Derivation
import Segmentation.Proofs.Rule.Mirroring
import Segmentation.Proofs.Rule.Settled
import Segmentation.Proofs.Rule.Loading
import Segmentation.Proofs.Rule.Origin
import Segmentation.Proofs.Rule.Resolving
import Segmentation.Proofs.Rule.Building
import Segmentation.Proofs.Rule.Rebuilding
import Segmentation.Proofs.Rule.Choices
import Segmentation.Proofs.Rule.Coherence
import Segmentation.Proofs.Rule.Locality
import Segmentation.Proofs.Rule.Entering
import Segmentation.Proofs.Rule.Stepwise
import Segmentation.Proofs.Rule.Selecting
import Segmentation.Proofs.Rule.Expression
import Segmentation.Proofs.Rule.Reopening
import Segmentation.Proofs.Rule.Recall
import Segmentation.Proofs.Rule.Connectors
import Segmentation.Proofs.Rule.Identity
import Segmentation.Proofs.Rule.Extension
import Segmentation.Proofs.Rule.Validity
import Segmentation.Proofs.Rule.Handlers
import Segmentation.Proofs.Rule.Narrowing
import Segmentation.Proofs.Rule.LineEndings
import Segmentation.Proofs.Rule.Joining
import Segmentation.Proofs.Form.ReadBack
import Segmentation.Proofs.Expr.Position
import Segmentation.Proofs.Expr.Escapes
import Segmentation.Proofs.Text.Spelling
import Segmentation.Proofs.Form.Spelling
import Segmentation.Proofs.Decimal.Rounding
import Segmentation.Proofs.Decimal.Beyond
import Segmentation.Proofs.Form.WholeNumber
import Segmentation.Proofs.Decimal.PointFree
import Segmentation.Proofs.Expr.Identifier
