import GridQuery.Json.Text
import GridQuery.Proofs.Binding.Simultaneous
import GridQuery.Proofs.Executor.TwoPhase
import GridQuery.Proofs.Repository.Steering
import GridQuery.Repository
import GridQuery.Proofs.Page.Offsets
import GridQuery.Proofs.Page.Limited
import GridQuery.Proofs.Page.Tiling
import GridQuery.Proofs.Executor.Chain
import GridQuery.Proofs.Statement.Marked
import GridQuery.Proofs.Statement.Region
import GridQuery.Proofs.Statement.AddedLimit
import GridQuery.Proofs.Statement.Rejoined
import GridQuery.Proofs.Statement.Edits
import GridQuery.Proofs.Repository.Paging
import GridQuery.Proofs.Statement.Decorated
import GridQuery.Proofs.Criteria.Reader
import GridQuery.Proofs.Criteria.Groups
import GridQuery.Proofs.Criteria.Parameters
import GridQuery.Proofs.Criteria.Statement
import GridQuery.Proofs.Criteria.Clauses
import GridQuery.Proofs.Value.Literal
import GridQuery.Proofs.Criteria.Slots
import GridQuery.Proofs.Repository.Derived
import GridQuery.Proofs.Repository.Running
import GridQuery.Proofs.Statement.Balance
import GridQuery.Proofs.Json.RoundTrip
import GridQuery.Proofs.Statement.Narrowed
import GridQuery.Proofs.Statement.Reordered
import GridQuery.Proofs.Statement.KeyOrdering
import GridQuery.Proofs.Binding.Independent
