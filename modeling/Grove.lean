import Grove.Text
import Grove.Decimal.Power
import Grove.Decimal.Shortest
import Grove.Decimal.Reading
import Grove.Unicode.Script
import Grove.Unicode.Property
import Grove.Unicode.Folding
import Grove.Json.Printer
import Grove.Json.Reader
import Grove.Text.Quoted
import Grove.Criteria.Wire
import Grove.Criteria.Query
import Grove.Regex
import Grove.Regex.Error
import Grove.Regex.Escape
import Grove.Regex.Class
import Grove.Regex.Reader
import Grove.Criteria.Like
import Grove.Failure
import Grove.Window
import Grove.Document.Filter
import Grove.Document.Matcher
import Grove.Document.Order
import Grove.Uuid
import Grove.Instant
import Grove.Sql.Fragment
import Grove.Sql.Condition
import Grove.Sql.Statement
import Grove.Sql.Column
import Grove.Sql.Parameter
import Grove.Config
import Grove.Config.Reader
import Grove.Config.Validation
import Grove.Access
import Grove.Resource
import Grove.Resource.Forest
import Grove.Settings
import Grove.Selection
import Grove.Attempt
import Grove.Supply
import Grove.Document.Ledger
import Grove.Document.Collection
import Grove.Backend
import Grove.Document.Store
import Grove.Backend.Observed
import Grove.Steward
import Grove.Service
import Grove.Directory
import Grove.Text.Utf8
import Grove.Text.Percent
import Grove.Http.Message
import Grove.Http.MediaType
import Grove.Http.Body
import Grove.Http.Route
import Grove.Http.Handler
import Grove.Http.Server
import Grove.Postgres.Error
import Grove.Postgres.Row
import Grove.Postgres.Server
import Grove.Postgres.Store
import Grove.Postgres.Address
import Grove.Postgres.Bootstrap
import Grove.Proofs.Criteria.Height
import Grove.Proofs.Criteria.Meaning
import Grove.Proofs.Criteria.Descent
import Grove.Proofs.Decimal.Exact
import Grove.Proofs.Sql.Expression
import Grove.Proofs.Criteria.Dialects
import Grove.Proofs.Backend.Watch
import Grove.Proofs.Criteria.Confine
import Grove.Proofs.Document.Apart
import Grove.Proofs.Document.Holding
import Grove.Proofs.Document.Command
import Grove.Proofs.Document.Ledger
import Grove.Proofs.Document.Durable
import Grove.Proofs.Json.Equality
import Grove.Proofs.Http.Gate
import Grove.Proofs.Http.Handled
import Grove.Proofs.Http.Isolation
import Grove.Proofs.Http.Veil
import Grove.Proofs.Service.Complete
import Grove.Proofs.Document.Removal
import Grove.Proofs.Steward.Keys
import Grove.Proofs.Steward.Cascade
import Grove.Proofs.Steward.Retry
import Grove.Proofs.Document.Sound
import Grove.Proofs.Document.Key
import Grove.Proofs.Query.Grammar
import Grove.Proofs.Query.Lexing
import Grove.Proofs.Query.Parsing
import Grove.Proofs.Query.Spelling
import Grove.Proofs.Query.Printing
import Grove.Proofs.Criteria.Formula
import Grove.Proofs.Query.Selecting
import Grove.Proofs.Query.Blanks
import Grove.Proofs.Criteria.Restrict
import Grove.Proofs.Criteria.Values
import Grove.Proofs.Sql.Fragments
import Grove.Proofs.Sql.Phrases
import Grove.Proofs.Sql.Skeleton
import Grove.Proofs.Criteria.Wire
import Grove.Proofs.Service.Once
import Grove.Proofs.Json.Ordered
import Grove.Proofs.Steward.Stamps
import Grove.Proofs.Http.Emptied
import Grove.Proofs.Document.Order
import Grove.Proofs.Document.Pages
import Grove.Proofs.Directory.SignUp
import Grove.Proofs.Directory.Root
import Grove.Proofs.Document.Missing
import Grove.Proofs.Decimal.Rounding
import Grove.Proofs.Criteria.Integers
import Grove.Proofs.Steward.Embedded
import Grove.Proofs.Http.Created
import Grove.Proofs.Criteria.Room
import Grove.Proofs.Sql.Dotted
import Grove.Proofs.Sql.Wording
import Grove.Proofs.Sql.Placeholders
import Grove.Proofs.Sql.Syntax
import Grove.Proofs.Sql.Ranks
import Grove.Proofs.Sql.Reading
import Grove.Proofs.Sql.Rendering
import Grove.Proofs.Resource.Hierarchy
import Grove.Proofs.Sql.Containment
import Grove.Proofs.Regex.Matching
import Grove.Proofs.Regex.Ending
import Grove.Proofs.Regex.Escape
import Grove.Proofs.Regex.Class
import Grove.Proofs.Regex.Reader
import Grove.Proofs.Regex.Anchors
import Grove.Proofs.Regex.Literal
import Grove.Proofs.Criteria.Like
import Grove.Proofs.Criteria.Literal
import Grove.Proofs.Resource.Placement
import Grove.Proofs.Resource.Patterns
import Grove.Proofs.Access
import Grove.Proofs.Service.Settled
import Grove.Proofs.Directory.Lookup
import Grove.Proofs.Text.Fixed
import Grove.Proofs.Uuid
import Grove.Proofs.Instant
import Grove.Proofs.Postgres.Cells
import Grove.Proofs.Sql.Request
import Grove.Proofs.Postgres.Arranged
import Grove.Proofs.Postgres.Contents
import Grove.Proofs.Postgres.Update
import Grove.Proofs.Postgres.Pages
import Grove.Proofs.Postgres.Removal
import Grove.Proofs.Text.Numeral
import Grove.Proofs.Decimal.Reading
import Grove.Proofs.Sql.Binding
import Grove.Proofs.Settings
import Grove.Proofs.Postgres.Address
import Grove.Proofs.Steward.Selected
