import SpatialIndex.Box
import SpatialIndex.Catalog
import SpatialIndex.Config.Basic
import SpatialIndex.Config.Json
import SpatialIndex.Config.Toml
import SpatialIndex.Entry
import SpatialIndex.Error
import SpatialIndex.Expression.Basic
import SpatialIndex.Expression.Evaluate
import SpatialIndex.Function
import SpatialIndex.Geometry.Basic
import SpatialIndex.Geometry.Profile
import SpatialIndex.Geometry.Relate
import SpatialIndex.Geometry.Segment
import SpatialIndex.Index.Basic
import SpatialIndex.Index.Definition
import SpatialIndex.Index.Extraction
import SpatialIndex.Number.Binary
import SpatialIndex.Number.Decimal
import SpatialIndex.Plan.Basic
import SpatialIndex.Plan.Execute
import SpatialIndex.Plan.IndexAccess
import SpatialIndex.Plan.Match
import SpatialIndex.Plan.Optimize
import SpatialIndex.Scan
import SpatialIndex.Table.Filter
import SpatialIndex.Table.Storage
import SpatialIndex.Text.Invisible
import SpatialIndex.Text.Quoted
import SpatialIndex.Tree.Archive
import SpatialIndex.Tree.Basic
import SpatialIndex.Tree.Image
import SpatialIndex.Tree.Pack
import SpatialIndex.Tree.Search
import SpatialIndex.Tree.Statistics
import SpatialIndex.Tree.Validate
import SpatialIndex.Value
import SpatialIndex.Proofs.Outcome
import SpatialIndex.Proofs.Tree.Marking
import SpatialIndex.Proofs.Tree.WellFormed
import SpatialIndex.Proofs.Box
import SpatialIndex.Proofs.Entry
import SpatialIndex.Proofs.Tree.Grouping
import SpatialIndex.Proofs.Tree.Packing
import SpatialIndex.Proofs.Tree.Acceptance
import SpatialIndex.Proofs.Tree.Ordering
import SpatialIndex.Proofs.Tree.Search
import SpatialIndex.Proofs.Tree.Traversal
import SpatialIndex.Proofs.Tree.Estimate
import SpatialIndex.Proofs.Tree.Image
import SpatialIndex.Proofs.Value
import SpatialIndex.Proofs.Geometry.Bounds
import SpatialIndex.Proofs.Expression.Children
import SpatialIndex.Proofs.Expression.Substitution
import SpatialIndex.Proofs.Expression.Reading
import SpatialIndex.Proofs.Expression.Equality
import SpatialIndex.Proofs.Plan.Match
import SpatialIndex.Proofs.Table.Storage
import SpatialIndex.Proofs.Index.Extraction
import SpatialIndex.Proofs.Catalog.Operations
import SpatialIndex.Proofs.Catalog.Admission
import SpatialIndex.Proofs.Catalog.Names
import SpatialIndex.Proofs.Catalog.Changes
import SpatialIndex.Proofs.Catalog.Clients
import SpatialIndex.Proofs.Catalog.Current
import SpatialIndex.Proofs.Expression.Parts
import SpatialIndex.Proofs.Catalog.Creation
import SpatialIndex.Proofs.Scan
import SpatialIndex.Proofs.Catalog.Coverage
import SpatialIndex.Proofs.Catalog.Estimate
import SpatialIndex.Proofs.Plan.Execute
import SpatialIndex.Proofs.Plan.PulledFilter
import SpatialIndex.Proofs.Plan.IndexAccess
import SpatialIndex.Proofs.Plan.Optimize
import SpatialIndex.Proofs.Geometry.Relate
import SpatialIndex.Proofs.Function
import SpatialIndex.Proofs.Plan.Serving
import SpatialIndex.Proofs.Plan.Turning
import SpatialIndex.Proofs.Catalog.Identity
import SpatialIndex.Proofs.Plan.Interruption
import SpatialIndex.Proofs.Tree.Partitions
import SpatialIndex.Proofs.Tree.Shape
import SpatialIndex.Proofs.Plan.Walk
import SpatialIndex.Proofs.Plan.Columns
import SpatialIndex.Proofs.Plan.Settled
import SpatialIndex.Proofs.Plan.PulledRows
import SpatialIndex.Proofs.Plan.BoundKeys
import SpatialIndex.Proofs.Number.Exact
import SpatialIndex.Proofs.Number.Extended
import SpatialIndex.Proofs.Geometry.Outward
import SpatialIndex.Proofs.Number.Fitting
import SpatialIndex.Proofs.Tree.Safety
import SpatialIndex.Proofs.Tree.Capacity
import SpatialIndex.Proofs.Batches
import SpatialIndex.Proofs.Plan.Batches
import SpatialIndex.Proofs.Index.Accounting
import SpatialIndex.Proofs.Expression.Truth
import SpatialIndex.Proofs.Number.Whole
import SpatialIndex.Proofs.Value.Order
import SpatialIndex.Proofs.Tree.LeafOrder
import SpatialIndex.Proofs.Expression.Binding
import SpatialIndex.Proofs.Box.Hull
