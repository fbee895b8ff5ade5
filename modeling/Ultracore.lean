import Ultracore.Admin.Commands
import Ultracore.Admin.Confirm
import Ultracore.Admin.Engine
import Ultracore.Admin.Idempotency
import Ultracore.Admin.Once
import Ultracore.Admin.Turns
import Ultracore.Api.Runs
import Ultracore.Clock.Instant
import Ultracore.Core.ActorHeader
import Ultracore.Core.Policy
import Ultracore.Core.Resource
import Ultracore.Core.Run
import Ultracore.Events.Log
import Ultracore.Events.Range
import Ultracore.Events.Subscription
import Ultracore.Forest.Linked
import Ultracore.Http.Providers
import Ultracore.Http.RunTree
import Ultracore.Http.Tenants
import Ultracore.Loop.Batcher
import Ultracore.Loop.Names
import Ultracore.Loop.Outcomes
import Ultracore.Loop.Spawn
import Ultracore.Loop.Step
import Ultracore.Loop.Sweep
import Ultracore.Loop.Tools
import Ultracore.Loop.Waits
import Ultracore.Mcp.Cache
import Ultracore.Paging.Keyset
import Ultracore.Paging.Order
import Ultracore.Protocol.Acts
import Ultracore.Protocol.Children
import Ultracore.Protocol.Closing
import Ultracore.Protocol.Coverage
import Ultracore.Protocol.Emission
import Ultracore.Protocol.FanIn
import Ultracore.Protocol.Finality
import Ultracore.Protocol.History
import Ultracore.Protocol.Integrity
import Ultracore.Protocol.Memory
import Ultracore.Protocol.Order
import Ultracore.Protocol.Parking
import Ultracore.Protocol.Requests
import Ultracore.Protocol.Results
import Ultracore.Protocol.Resumption
import Ultracore.Protocol.Steps
import Ultracore.Protocol.Verdicts
import Ultracore.Protocol.Waits
import Ultracore.Provider.Nomad
import Ultracore.Query.Binding
import Ultracore.Query.Compile
import Ultracore.Query.Cursor
import Ultracore.Query.Descriptors
import Ultracore.Query.Keyset
import Ultracore.Query.Patterns
import Ultracore.Query.Placeholders
import Ultracore.Query.Timeline
import Ultracore.Resourcework.Announcements
import Ultracore.Resourcework.Backlog
import Ultracore.Resourcework.Commits
import Ultracore.Resourcework.Exposure
import Ultracore.Resourcework.Lifecycle
import Ultracore.Resourcework.Queue
import Ultracore.Resourcework.Reads
import Ultracore.Resourcework.Store
import Ultracore.Resourcework.Tokens
import Ultracore.Resourcework.Watch
import Ultracore.Resourcework.Work
import Ultracore.Secrets.Encodings
import Ultracore.Secrets.Handler
import Ultracore.Secrets.Redact
import Ultracore.Store.App
import Ultracore.Store.Events
import Ultracore.Store.Runs
import Ultracore.Store.Tables
import Ultracore.Store.Tx
import Ultracore.Store.Waits
import Ultracore.System.Carried
import Ultracore.System.Cohorts
import Ultracore.System.Conduct
import Ultracore.System.Emission
import Ultracore.System.FanIn
import Ultracore.System.Guarantees
import Ultracore.System.Histories
import Ultracore.System.Lineage
import Ultracore.System.Memory
import Ultracore.System.Parking
import Ultracore.System.Process
import Ultracore.System.Results
import Ultracore.System.Sound
import Ultracore.System.SpawnKeys
import Ultracore.System.Spawning
import Ultracore.System.Stopping
import Ultracore.System.Verdicts
import Ultracore.Tenancy.Isolation
import Ultracore.Tenancy.Methods
import Ultracore.Tenancy.Rows
import Ultracore.Tenancy.Scope
import Ultracore.Text.Base64
import Ultracore.Text.Basic
import Ultracore.Text.Codec
import Ultracore.Text.Hex
import Ultracore.Text.Like
import Ultracore.Text.Replace
import Ultracore.Text.Rfc3339
import Ultracore.Text.Split
import Ultracore.Tools.Calls
import Ultracore.Tools.Sessions
import Ultracore.Tunnel.Pool
import Ultracore.Tunnel.Signature
import Ultracore.Txn.Body
import Ultracore.Txn.Confined
import Ultracore.Txn.Footprint
import Ultracore.Txn.Machine
import Ultracore.Txn.Prog
import Ultracore.Txn.Prompt
import Ultracore.Txn.Serial
import Ultracore.Txn.Span
import Ultracore.Txn.Steps
import Ultracore.Txn.Table
import Ultracore.Web.UrlState
