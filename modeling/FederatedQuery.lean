import FederatedQuery.Exchange.Artifact
import FederatedQuery.Exchange.Statement
import FederatedQuery.Plan.Digest
import FederatedQuery.Proofs.Cursor.Retries
import FederatedQuery.Proofs.Document.Moments
import FederatedQuery.Proofs.Expr.Substitution
import FederatedQuery.Proofs.Expr.Substring
import FederatedQuery.Proofs.Foreign.Batches
import FederatedQuery.Proofs.Foreign.Sessions
import FederatedQuery.Proofs.Pipeline.RoundTrip
import FederatedQuery.Proofs.Pipeline.SingleWrites
import FederatedQuery.Proofs.Pipeline.Sorting
import FederatedQuery.Proofs.Plan.Declared
import FederatedQuery.Proofs.Plan.Effects
import FederatedQuery.Proofs.Plan.Emission
import FederatedQuery.Proofs.Plan.Idempotence
import FederatedQuery.Proofs.Plan.Listed
import FederatedQuery.Proofs.Plan.Multiplicities
import FederatedQuery.Proofs.Plan.Simplified
import FederatedQuery.Proofs.Program.Equivalence
import FederatedQuery.Proofs.Rows.AnyOrder
import FederatedQuery.Proofs.Rows.Changes
import FederatedQuery.Proofs.Rows.Joins
import FederatedQuery.Proofs.Rows.Sorted
import FederatedQuery.Proofs.Simplify.Nesting
import FederatedQuery.Proofs.Simplify.Range
import FederatedQuery.Proofs.Sql.Clauses
import FederatedQuery.Proofs.Sql.Columns
import FederatedQuery.Proofs.Sql.Comments
import FederatedQuery.Proofs.Sql.GlobalAggregate
import FederatedQuery.Proofs.Sql.Labels
import FederatedQuery.Proofs.Sql.NullPlacement
import FederatedQuery.Proofs.Sql.Precedence
import FederatedQuery.Proofs.Sql.Quoting
import FederatedQuery.Proofs.Sql.SetOperations
