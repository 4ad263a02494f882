import LensoFlags.Lib.Decimal
import LensoFlags.Lib.Table
import LensoFlags.Lib.Feed
import LensoFlags.Lib.Paging
import LensoFlags.Lib.Readable
import LensoFlags.Lib.Weighted
import LensoFlags.Lib.Serial
import LensoFlags.Lib.Locking
import LensoFlags.Lib.Waiting
import LensoFlags.Lib.Dialogue
import LensoFlags.Lib.SideBySide
import LensoFlags.Json
import LensoFlags.JsonText
import LensoFlags.Literals
import LensoFlags.Domain
import LensoFlags.Ruleset
import LensoFlags.Store
import LensoFlags.Retold
import LensoFlags.Requests
import LensoFlags.Validation
import LensoFlags.Rollout
import LensoFlags.Service
import LensoFlags.Authorization
import LensoFlags.Calls
import LensoFlags.RequestText
import LensoFlags.Lib.Entries
import LensoFlags.Documents
import LensoFlags.Columns
import LensoFlags.Decoding
import LensoFlags.WireText
import LensoFlags.ToolSchemas
import LensoFlags.DomainErrors
import LensoFlags.AgentTools
import LensoFlags.Answers
import LensoFlags.Conveyed
import LensoFlags.Agree
import LensoFlags.Abstract.Store
import LensoFlags.Abstract.Effect
import LensoFlags.Abstract.Change
import LensoFlags.Abstract.Sound
import LensoFlags.Abstract.History
import LensoFlags.Abstract.Receipts
import LensoFlags.Abstract.Evaluation
import LensoFlags.D1.Storage
import LensoFlags.D1.Represents
import LensoFlags.D1.Refinement
import LensoFlags.D1.Plan
import LensoFlags.D1.Transport
import LensoFlags.D1.Delivery
import LensoFlags.D1.Listings
import LensoFlags.Postgres.Schema
import LensoFlags.Postgres.Storage
import LensoFlags.Postgres.Footprint
import LensoFlags.Postgres.Guarded
import LensoFlags.Postgres.Represents
import LensoFlags.Postgres.Refinement
import LensoFlags.Postgres.Sessions
import LensoFlags.Postgres.Constraint
import LensoFlags.Postgres.Serializable
import LensoFlags.Postgres.Listings
import LensoFlags.Postgres.Waiting
import LensoFlags.Postgres.Jsonb
import LensoFlags.Postgres.Persisted
import LensoFlags.Postgres.Clock
import LensoFlags.Failures
import LensoFlags.Lifecycle
import LensoFlags.Receipts
import LensoFlags.Evaluations
import LensoFlags.Reproducible
import LensoFlags.Abstract.Room
import LensoFlags.Backends
import LensoFlags.Postgres.Config
import LensoFlags.Configured
import LensoFlags.Abstract.Commands
import LensoFlags.Abstract.Presented
import LensoFlags.Deployment
import LensoFlags.Accountable
import LensoFlags.Abstract.Advance
import LensoFlags.Abstract.Publications
import LensoFlags.Moments
import LensoFlags.Shown
import LensoFlags.Ordered
import LensoFlags.Explained
import LensoFlags.D1.Backend
import LensoFlags.Postgres.Backend
import LensoFlags.Deployed
import LensoFlags.Agents
import LensoFlags.Revisions
import LensoFlags.Values
import LensoFlags.Buckets
import LensoFlags.Pagination
import LensoFlags.Pages
import LensoFlags.Abstract.Paired
import LensoFlags.Tenants
import LensoFlags.Abstract.Owned
import LensoFlags.D1.Tenants
import LensoFlags.Postgres.Tenants
import LensoFlags.Isolation
import LensoFlags.Audited
import LensoFlags.Bounds
import LensoFlags.Storable
