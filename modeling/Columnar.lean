import Columnar.Aggregation
import Columnar.Column
import Columnar.Column.Arithmetic
import Columnar.Column.Comparison
import Columnar.Column.Dictionary
import Columnar.Column.Import
import Columnar.Column.Inspect
import Columnar.Column.Order
import Columnar.Column.Reduction
import Columnar.Column.Slots
import Columnar.Column.Sorting
import Columnar.Column.Stack
import Columnar.Config
import Columnar.DType
import Columnar.Error
import Columnar.Expr
import Columnar.Expr.Eval
import Columnar.Expr.Json
import Columnar.Frame
import Columnar.Frame.Describe
import Columnar.Frame.GroupBy
import Columnar.Frame.Reshape
import Columnar.Grouping
import Columnar.Grouping.Aggregate
import Columnar.HashIndex
import Columnar.Hashing
import Columnar.Host
import Columnar.Join
import Columnar.Join.Layout
import Columnar.Json
import Columnar.Json.Parser
import Columnar.Json.Token
import Columnar.Metrics
import Columnar.Number.Binary
import Columnar.Number.Decimal
import Columnar.Number.Double
import Columnar.Operator
import Columnar.Operator.Run
import Columnar.Optimizer
import Columnar.Parallel
import Columnar.Parallel.Claiming
import Columnar.Parallel.Morsel
import Columnar.Parallel.Pool
import Columnar.Parallel.Rounding
import Columnar.Parallel.Trying
import Columnar.Pass.FilterMerge
import Columnar.Pass.FilterPlacement
import Columnar.Pass.Pruning
import Columnar.Pass.Sharing
import Columnar.Plan
import Columnar.Plan.Run
import Columnar.Proofs.Accumulating
import Columnar.Proofs.Aggregates
import Columnar.Proofs.Alone
import Columnar.Proofs.Broadcasting
import Columnar.Proofs.Buckets
import Columnar.Proofs.Building
import Columnar.Proofs.Caching
import Columnar.Proofs.Canonical
import Columnar.Proofs.Carrying
import Columnar.Proofs.Chaining
import Columnar.Proofs.Chains
import Columnar.Proofs.Claiming
import Columnar.Proofs.Coalescing
import Columnar.Proofs.Collisions
import Columnar.Proofs.Conjuncts
import Columnar.Proofs.Conversions
import Columnar.Proofs.Crossing
import Columnar.Proofs.Cutting
import Columnar.Proofs.Decimals
import Columnar.Proofs.Decoding
import Columnar.Proofs.Doubles
import Columnar.Proofs.Encoding
import Columnar.Proofs.Evaluation
import Columnar.Proofs.Extremes
import Columnar.Proofs.Framing
import Columnar.Proofs.Freshness
import Columnar.Proofs.Groups
import Columnar.Proofs.Hashes
import Columnar.Proofs.Hiding
import Columnar.Proofs.Index
import Columnar.Proofs.Inverting
import Columnar.Proofs.Joining
import Columnar.Proofs.Keeping
import Columnar.Proofs.Labels
import Columnar.Proofs.Layouts
import Columnar.Proofs.Leading
import Columnar.Proofs.Literals
import Columnar.Proofs.Locality
import Columnar.Proofs.Melting
import Columnar.Proofs.Merging
import Columnar.Proofs.Naming
import Columnar.Proofs.Narrowing
import Columnar.Proofs.NestedLoop
import Columnar.Proofs.Numerals
import Columnar.Proofs.Operators
import Columnar.Proofs.Originals
import Columnar.Proofs.Outcome
import Columnar.Proofs.Partition
import Columnar.Proofs.PerGroup
import Columnar.Proofs.Pivoting
import Columnar.Proofs.Placing
import Columnar.Proofs.Pricing
import Columnar.Proofs.Pruning
import Columnar.Proofs.Pushing
import Columnar.Proofs.Ranks
import Columnar.Proofs.Reading
import Columnar.Proofs.Reassembling
import Columnar.Proofs.Rejoining
import Columnar.Proofs.Requests
import Columnar.Proofs.Reshaping
import Columnar.Proofs.RowByRow
import Columnar.Proofs.Rows
import Columnar.Proofs.Rowwise
import Columnar.Proofs.Running
import Columnar.Proofs.Schedules
import Columnar.Proofs.Schemas
import Columnar.Proofs.Selecting
import Columnar.Proofs.Serving
import Columnar.Proofs.Shapes
import Columnar.Proofs.Sharing
import Columnar.Proofs.Sinking
import Columnar.Proofs.Sorting
import Columnar.Proofs.Sources
import Columnar.Proofs.Spreading
import Columnar.Proofs.Stacking
import Columnar.Proofs.Summaries
import Columnar.Proofs.Texts
import Columnar.Proofs.Tokens
import Columnar.Proofs.Trying
import Columnar.Proofs.Typing
import Columnar.Proofs.Unstacking
import Columnar.Proofs.Wholes
import Columnar.Proofs.Workers
import Columnar.Query
import Columnar.Scalar
import Columnar.Session
import Columnar.Source
import Columnar.Text.Blank
import Columnar.Text.Printable
import Columnar.Text.Quoted
import Columnar.Value
