import ListQuery.Builder.Exported
import ListQuery.Cache.Key
import ListQuery.Collection.Store
import ListQuery.Condition.Span
import ListQuery.Export
import ListQuery.Fault.Message
import ListQuery.Json.Read
import ListQuery.Response
import ListQuery.Scope
import ListQuery.Session.Turn
import ListQuery.Proofs.Condition.Resolved
import ListQuery.Proofs.Request.Resolved
import ListQuery.Proofs.Request.Merged
import ListQuery.Proofs.Predicate.Normal
import ListQuery.Proofs.Answers
import ListQuery.Proofs.Collection.Order
import ListQuery.Proofs.Collection.Sorted
import ListQuery.Proofs.Collection.Window
import ListQuery.Proofs.Walk
import ListQuery.Proofs.Inserts
import ListQuery.Proofs.Condition.Meaning
import ListQuery.Proofs.Request.Meaning
import ListQuery.Proofs.Plan
import ListQuery.Proofs.Scope
import ListQuery.Proofs.Number.Rounding
import ListQuery.Proofs.Number.Shortest
import ListQuery.Proofs.Number.Reading
import ListQuery.Proofs.Number.Ceiling
import ListQuery.Proofs.Number.Order
import ListQuery.Proofs.Pages
import ListQuery.Proofs.Json.Number
import ListQuery.Proofs.Json.Text
import ListQuery.Proofs.Json.Value
import ListQuery.Proofs.Value.Plain
import ListQuery.Proofs.Condition.Spelled
import ListQuery.Proofs.Request.Spelled
import ListQuery.Proofs.Cache.Key
import ListQuery.Proofs.Collection.Projection
import ListQuery.Proofs.Request.SamePage
import ListQuery.Proofs.Cache.Filters
import ListQuery.Proofs.Cache.Identity
import ListQuery.Proofs.Cache.WriteOrder
import ListQuery.Proofs.Cache.ReadThrough
import ListQuery.Proofs.Layers.Stack
import ListQuery.Proofs.Layers.Part
import ListQuery.Proofs.Cache.Caps
import ListQuery.Proofs.Projected
import ListQuery.Proofs.Request.ReadBack
import ListQuery.Proofs.Concurrent.Tasks
import ListQuery.Proofs.Concurrent.Coherent
import ListQuery.Proofs.Concurrent.Deliveries
import ListQuery.Proofs.Cache.Faults
import ListQuery.Proofs.Outsiders
import ListQuery.Proofs.Table
import ListQuery.Proofs.Cache.Lease
import ListQuery.Proofs.Cache.Vault
import ListQuery.Proofs.Cache.Lapse
import ListQuery.Proofs.Value.Equality
import ListQuery.Proofs.Number.Quotient
import ListQuery.Proofs.Collection.Groups
import ListQuery.Proofs.Collection.Totals
import ListQuery.Proofs.Collection.Grouped
import ListQuery.Proofs.Collection.Stable
import ListQuery.Proofs.Request.Compatible
import ListQuery.Proofs.Predicate.Evaluable
import ListQuery.Proofs.Predicate.Compiled
import ListQuery.Proofs.Cache.Pattern
import ListQuery.Proofs.Cache.Calls
import ListQuery.Proofs.Cache.Rack
import ListQuery.Proofs.Cache.Isolation
import ListQuery.Proofs.Cache.Windows
import ListQuery.Proofs.Exported
import ListQuery.Proofs.Predicate.Path
import ListQuery.Proofs.Predicate.Quantified
import ListQuery.Proofs.Predicate.Related
import ListQuery.Proofs.Value.Supplied
import ListQuery.Proofs.Condition.Supplied
import ListQuery.Proofs.Predicate.Supplied
import ListQuery.Proofs.Text.Lower
import ListQuery.Proofs.Predicate.Literal
import ListQuery.Proofs.Value.Reordered
import ListQuery.Proofs.Json.Reordered
import ListQuery.Proofs.Condition.Reordered
import ListQuery.Proofs.Matching
import ListQuery.Proofs.Request.Reordered
import ListQuery.Proofs.Trash
import ListQuery.Proofs.Membership
import ListQuery.Proofs.Value.Substitution
import ListQuery.Proofs.Collection.Having
import ListQuery.Proofs.Meter
import ListQuery.Proofs.Concurrent.Measured
import ListQuery.Proofs.Number.Nearest
import ListQuery.Proofs.PageBounds
