import Rinfra.Core.Error
import Rinfra.Core.Time
import Rinfra.Core.Utf8
import Rinfra.Lib.Transition
import Rinfra.Lib.Lease
import Rinfra.Lib.Lines
import Rinfra.Lib.BigEndian
import Rinfra.Resilience.CircuitBreaker
import Rinfra.Resilience.History
import Rinfra.Resilience.WithCircuitBreaker
import Rinfra.Lock.Memory
import Rinfra.Lock.Exclusion
import Rinfra.Lock.Redis
import Rinfra.Lock.Agreement
import Rinfra.Timer.Loop
import Rinfra.Timer.Engine
import Rinfra.Timer.Loops
import Rinfra.Timer.Fleet
import Rinfra.Timer.Ledger
import Rinfra.Timer.Triggers
import Rinfra.Timer.Admission
import Rinfra.Plugins.Registry
import Rinfra.Plugins.Shutdown
import Rinfra.Plugins.Ownership
import Rinfra.Net.Tcp
import Rinfra.Net.Lifecycle
import Rinfra.Trpc.Client
import Rinfra.Trpc.Correlation
import Rinfra.Trpc.Orphans
import Rinfra.Trpc.Protocol
import Rinfra.Trpc.Servers
import Rinfra.Trpc.Session
import Rinfra.Trpc.Settling
import Rinfra.Cluster.Registry
import Rinfra.Cluster.Server
import Rinfra.Cluster.Teardown
import Rinfra.Cluster.Isolation
import Rinfra.Cluster.Barrier
import Rinfra.Cluster.Codec
import Rinfra.Cluster.Listing
import Rinfra.Admin.Store
import Rinfra.Admin.Metrics
import Rinfra.Admin.Exposition
import Rinfra.Admin.Durability
import Rinfra.Admin.Operations
import Rinfra.Admin.Atomicity
import Rinfra.Admin.Auth
import Rinfra.Admin.Builder
import Rinfra.Admin.Routes
import Rinfra.Admin.RootOnly
import Rinfra.Admin.Rotation
import Rinfra.Mq.Message
import Rinfra.Mq.Memory
import Rinfra.Mq.Delivery
import Rinfra.Mq.Independence
import Rinfra.Mq.RedisStreams
import Rinfra.Mq.StreamView
import Rinfra.Mq.Custody
import Rinfra.Mq.AtLeastOnce
import Rinfra.Mq.Nats
import Rinfra.Mq.Consumers
import Rinfra.Mq.Preservation
import Rinfra.RateLimit.Memory
import Rinfra.RateLimit.Redis
import Rinfra.RateLimit.Quota
import Rinfra.Lib.Sql.Lexer
import Rinfra.Lib.Sql.Expr
import Rinfra.Lib.Sql.Statement
import Rinfra.Lib.Sql.Command
import Rinfra.Lib.Listing
import Rinfra.Store.Spec
import Rinfra.Store.Repository
import Rinfra.Store.Placeholders
import Rinfra.Store.Meaning
import Rinfra.Store.Selection
import Rinfra.Store.Rows
import Rinfra.Store.Value
import Rinfra.Store.Derive
import Rinfra.Cache.Multilevel
import Rinfra.Cache.Coherence
import Rinfra.Cache.Expiry
import Rinfra.Crypto.RotatingKeys
import Rinfra.Lib.Decimal
import Rinfra.Lib.Double
import Rinfra.Lib.Exposition
import Rinfra.Lib.SortedMap
import Rinfra.Lib.Overriding
import Rinfra.Lib.Json
import Rinfra.Lib.Schema
import Rinfra.Config.Env
import Rinfra.Config.Order
import Rinfra.Config.Model
import Rinfra.Config.Loader
import Rinfra.Config.Strings
import Rinfra.Config.Simulation
import Rinfra.Config.Agreement
import Rinfra.Config.Idle
import Rinfra.Config.Reload
import Rinfra.Script.Worker
import Rinfra.Script.Pairing
import Rinfra.Sdk.Rpc
import Rinfra.Sdk.Resolver
import Rinfra.Sdk.Alignment
import Rinfra.Sdk.Live
import Rinfra.Sdk.JavaClient
import Rinfra.Sdk.JavaConnections
import Rinfra.Sdk.TsClient
import Rinfra.Sdk.TsConnections
import Rinfra.Sdk.TsPairing
import Rinfra.Sdk.PyClient
import Rinfra.Sdk.PyPairing
import Rinfra.Sdk.GoClient
import Rinfra.Sdk.GoLifecycle
import Rinfra.Sdk.GoListNodes
import Rinfra.Lib.FileTree
import Rinfra.FileStore.Local
import Rinfra.Lib.FileTree.Reach
import Rinfra.Lib.FileTree.Relative
import Rinfra.Lib.FileTree.Text
import Rinfra.Lib.FileTree.Keep
import Rinfra.FileStore.Confinement
import Rinfra.Http.Auth
import Rinfra.Http.Middleware
import Rinfra.Http.Exclusions
import Rinfra.Http.RateLimit
import Rinfra.HttpClient.Reqwest
import Rinfra.HttpClient.Guarding
import Rinfra.Trpc.Pending
import Rinfra.Core.Str
import Rinfra.Lib.Json.Text
import Rinfra.Http.I18nError
import Rinfra.Audit.FileLogger
import Rinfra.Audit.Acknowledged
import Rinfra.Cache.LossyMap
import Rinfra.Net.Messages
import Rinfra.Trpc.Truncation
import Rinfra.Cluster.Heartbeat
import Rinfra.Cluster.Worker
import Rinfra.Cluster.Network
import Rinfra.Lib.Word
import Rinfra.Sdk.Backoff
import Rinfra.Codecs.Protobuf
import Rinfra.Codecs.Lossless
import Rinfra.Lib.Framing
import Rinfra.Sdk.TsFraming
import Rinfra.Resilience.Retry
import Rinfra.Resilience.RetryBreaker
import Rinfra.Resilience.HalfOpen
import Rinfra.Http.RetryAfter
import Rinfra.Http.Stack
import Rinfra.Runtime.Startup
import Rinfra.Lock.Ttl
import Rinfra.Lock.Wakeup
import Rinfra.Timer.Bookkeeping
import Rinfra.Timer.Release
import Rinfra.Mq.Acks
import Rinfra.Timer.FireTimes
import Rinfra.Admin.Lifetime
import Rinfra.Cache.Failures
import Rinfra.Lib.Binary64
import Rinfra.Store.Exact
import Rinfra.Net.Ws
import Rinfra.Net.Heartbeat
import Rinfra.Net.Drain
import Rinfra.Lib.Slots
import Rinfra.Config.Watcher
import Rinfra.I18n.Arguments
import Rinfra.I18n.Catalog
import Rinfra.FileStore.Listing
import Rinfra.FileStore.Contents
import Rinfra.Admin.Families
import Rinfra.Audit.Recent
import Rinfra.Codecs.Registry
import Rinfra.Lib.StableSort
import Rinfra.Net.MiddlewareOrder
import Rinfra.Trpc.Startup
import Rinfra.Sdk.GoBlocking
import Rinfra.Store.Dialects
import Rinfra.Store.Commands
import Rinfra.Store.Collection
import Rinfra.Store.Refinement
