import RecordApi.Calendar.Date
import RecordApi.Calendar.DateTime
import RecordApi.Calendar.Time
import RecordApi.Codec
import RecordApi.Error
import RecordApi.Geometry
import RecordApi.Http.Branch
import RecordApi.Http.Method
import RecordApi.Http.Route
import RecordApi.Http.Router
import RecordApi.Http.Uri
import RecordApi.Instances
import RecordApi.Json.Basic
import RecordApi.Json.Extent
import RecordApi.Json.Number
import RecordApi.Json.Reader
import RecordApi.Json.Shape
import RecordApi.Json.Writer
import RecordApi.Keyed
import RecordApi.Number.Binary64
import RecordApi.Number.Decimal
import RecordApi.Number.FloatText
import RecordApi.Proofs.Geometry.WireForm
import RecordApi.Proofs.Query.Arranged
import RecordApi.Proofs.Query.Compared
import RecordApi.Proofs.Query.Cursor
import RecordApi.Proofs.Query.Joined
import RecordApi.Proofs.Query.ParamNames
import RecordApi.Proofs.Query.Substring
import RecordApi.Proofs.Resource.Additions
import RecordApi.Proofs.Resource.Creation
import RecordApi.Proofs.Resource.FailedRequest
import RecordApi.Proofs.Resource.Identified
import RecordApi.Proofs.Resource.Inserting
import RecordApi.Proofs.Resource.Listing
import RecordApi.Proofs.Resource.Named
import RecordApi.Proofs.Resource.Pruned
import RecordApi.Proofs.Resource.Reached
import RecordApi.Proofs.Resource.Staying
import RecordApi.Proofs.Resource.Subresources
import RecordApi.Proofs.Resource.WrittenBack
import RecordApi.Proofs.Schema.Described
import RecordApi.Proofs.Sql.Accepted
import RecordApi.Proofs.Sql.Aligned
import RecordApi.Proofs.Sql.Counterparts
import RecordApi.Proofs.Sql.Selection
import RecordApi.Proofs.Sql.Shape
import RecordApi.Proofs.Store.Commuting
import RecordApi.Proofs.Store.Deletion
import RecordApi.Proofs.Store.Erasure
import RecordApi.Proofs.Store.Forward
import RecordApi.Proofs.Store.Integrity
import RecordApi.Proofs.Store.Isolation
import RecordApi.Proofs.Value.Disturbed
import RecordApi.Proofs.Value.Returned
import RecordApi.Proofs.Value.Saturated
import RecordApi.Query.Assembly
import RecordApi.Query.Filter
import RecordApi.Query.Like
import RecordApi.Query.Plan
import RecordApi.Query.Predicate
import RecordApi.Record
import RecordApi.Resource.Admission
import RecordApi.Resource.Body
import RecordApi.Resource.Collection
import RecordApi.Resource.Config
import RecordApi.Resource.Context
import RecordApi.Resource.Hooks
import RecordApi.Resource.Included
import RecordApi.Resource.Rendering
import RecordApi.Resource.Session
import RecordApi.Resource.Single
import RecordApi.Schema.Basic
import RecordApi.Schema.ColumnType
import RecordApi.Schema.Ddl
import RecordApi.Schema.Declaration
import RecordApi.Schema.Error
import RecordApi.Schema.Resolve
import RecordApi.Schema.Validate
import RecordApi.Sql.Bound
import RecordApi.Sql.Condition
import RecordApi.Sql.Identifier
import RecordApi.Sql.Query
import RecordApi.Sql.Statement
import RecordApi.Sql.Write
import RecordApi.Store.Commit
import RecordApi.Store.Error
import RecordApi.Store.History
import RecordApi.Store.Keys
import RecordApi.Store.Row
import RecordApi.Store.Sorting
import RecordApi.Store.Tables
import RecordApi.Store.Transaction
import RecordApi.Text.Blank
import RecordApi.Text.Case
import RecordApi.Text.Case.Table
import RecordApi.Text.Digits
import RecordApi.Text.Quoted
import RecordApi.Text.Quoted.Table
import RecordApi.Text.Split
import RecordApi.Text.Utf8
import RecordApi.Uuid
import RecordApi.Value.Basic
import RecordApi.Value.Coerce
import RecordApi.Value.Order
