import SoulCoreKit.Lib.UnorderedMap
import SoulCoreKit.Lib.Run
import SoulCoreKit.Lib.SqlLexer
import SoulCoreKit.Lib.HttpMessage
import SoulCoreKit.Lib.Recency
import SoulCoreKit.Lib.LinkedMap
import SoulCoreKit.Lib.Precedence
import SoulCoreKit.Lib.Occurrence
import SoulCoreKit.Lib.Dependency
import SoulCoreKit.Lib.Framing
import SoulCoreKit.Lib.PartialDecision
import SoulCoreKit.Lib.SeparatedText
import SoulCoreKit.Lib.SemVer
import SoulCoreKit.Lib.BinarySearch
import SoulCoreKit.Lib.LabelSyntax
import SoulCoreKit.Lib.KeyDerivation
import SoulCoreKit.Lib.PlaceMarkers
import SoulCoreKit.Lib.Layering
import SoulCoreKit.Lib.Base64
import SoulCoreKit.Lib.StoredBlocks
import SoulCoreKit.Lib.Unicode
import SoulCoreKit.Lib.Rotation
import SoulCoreKit.Core.Result
import SoulCoreKit.Core.Scaffold
import SoulCoreKit.Core.Version
import SoulCoreKit.Mq.Broker
import SoulCoreKit.Mq.RabbitMQConsumer
import SoulCoreKit.Mq.RabbitMQConnection
import SoulCoreKit.Cache.ICache
import SoulCoreKit.Cache.MemoryCache
import SoulCoreKit.Cache.MultiLevelCache
import SoulCoreKit.Cache.LruSpec
import SoulCoreKit.Cache.DiskCache
import SoulCoreKit.Storage.MemoryCache
import SoulCoreKit.Storage.DiskCache
import SoulCoreKit.Storage.SqliteDatabase
import SoulCoreKit.Orm.SqlDialect
import SoulCoreKit.Orm.QueryWrapper
import SoulCoreKit.Orm.CallTree
import SoulCoreKit.Orm.Migration
import SoulCoreKit.Orm.CachedRepository
import SoulCoreKit.Orm.SqlRepository
import SoulCoreKit.Async.ThreadPool
import SoulCoreKit.Async.Future
import SoulCoreKit.Data.ConnectionPool
import SoulCoreKit.Data.Transaction
import SoulCoreKit.Network.CircuitBreaker
import SoulCoreKit.Network.RateLimiter
import SoulCoreKit.Network.ConnectionPool
import SoulCoreKit.Scheduler.ScheduledTask
import SoulCoreKit.Scheduler.TaskRun
import SoulCoreKit.Scheduler.CronSpec
import SoulCoreKit.Server.WebSocket
import SoulCoreKit.Server.HttpRequest
import SoulCoreKit.Server.HttpServer
import SoulCoreKit.Server.Middleware
import SoulCoreKit.Server.Connections
import SoulCoreKit.Server.WebSocketServer
import SoulCoreKit.Configuration.Config
import SoulCoreKit.Configuration.EtcdSource
import SoulCoreKit.Di.Container
import SoulCoreKit.Network.ConnectionManager
import SoulCoreKit.Network.HttpClient
import SoulCoreKit.Network.Policy
import SoulCoreKit.Network.ConnectionStateMachine
import SoulCoreKit.Network.StreamClient
import SoulCoreKit.Network.Downloader
import SoulCoreKit.Plugin.PluginManager
import SoulCoreKit.Event.TypedEventBus
import SoulCoreKit.Auth.SecureStorage
import SoulCoreKit.Auth.TokenManager
import SoulCoreKit.Logging.FileSink
import SoulCoreKit.Aop.AspectWeaver
import SoulCoreKit.Async.Coroutine
import SoulCoreKit.Lib.GroupIndex
import SoulCoreKit.Auth.AuthManager
import SoulCoreKit.Utils.CompressUtils
import SoulCoreKit.Utils.JsonHelper
import SoulCoreKit.Rpc.JsonSerializer
import SoulCoreKit.Rpc.ServiceRegistry
import SoulCoreKit.Observability.Metrics
import SoulCoreKit.Observability.ResourcePoolMonitor
import SoulCoreKit.Observability.Tracing
import SoulCoreKit.Proof.TopicMatch
import SoulCoreKit.Proof.MemoryCacheInvariant
import SoulCoreKit.Proof.MemoryCacheCapacity
import SoulCoreKit.Proof.LruHistory
import SoulCoreKit.Proof.MemoryCacheRefinement
import SoulCoreKit.Proof.StorageCache
import SoulCoreKit.Proof.DiskCacheAccounting
import SoulCoreKit.Proof.CacheTtl
import SoulCoreKit.Proof.MultiLevelLoops
import SoulCoreKit.Proof.MultiLevelTtl
import SoulCoreKit.Proof.Resurrection
import SoulCoreKit.Proof.BrokerStep
import SoulCoreKit.Proof.Conservation
import SoulCoreKit.Proof.Prefetch
import SoulCoreKit.Proof.ConditionMeaning
import SoulCoreKit.Proof.EmittedTree
import SoulCoreKit.Proof.PlaceholderAgreement
import SoulCoreKit.Proof.FullTableGuard
import SoulCoreKit.Proof.MigrationAtomicity
import SoulCoreKit.Proof.TopoSort
import SoulCoreKit.Proof.Lifecycle
import SoulCoreKit.Proof.ReceiveLoop
import SoulCoreKit.Proof.FrameRoundTrip
import SoulCoreKit.Proof.Segmentation
import SoulCoreKit.Proof.Pipeline
import SoulCoreKit.Proof.Recovery
import SoulCoreKit.Proof.Tripping
import SoulCoreKit.Proof.Admission
import SoulCoreKit.Proof.PoolAccounting
import SoulCoreKit.Proof.PoolExclusivity
import SoulCoreKit.Proof.PoolCapacity
import SoulCoreKit.Proof.WaitForDone
import SoulCoreKit.Proof.WorkerThreads
import SoulCoreKit.Proof.CronField
import SoulCoreKit.Proof.CronSearch
import SoulCoreKit.Proof.TimerArming
import SoulCoreKit.Proof.CacheTransparency
import SoulCoreKit.Proof.StorageDiskAccounting
import SoulCoreKit.Proof.StorageDiskExpiry
import SoulCoreKit.Proof.HotReload
import SoulCoreKit.Proof.BulkViews
import SoulCoreKit.Proof.SaveRoundTrip
import SoulCoreKit.Proof.Ownership
import SoulCoreKit.Proof.QualifierResolution
import SoulCoreKit.Proof.Reconnecting
import SoulCoreKit.Proof.FinalDisconnect
import SoulCoreKit.Proof.Delivery
import SoulCoreKit.Proof.SavePersists
import SoulCoreKit.Proof.MigrationRollback
import SoulCoreKit.Proof.EtcdRoundTrip
import SoulCoreKit.Proof.Handshake
import SoulCoreKit.Proof.StorageDurability
import SoulCoreKit.Proof.SoftDelete
import SoulCoreKit.Proof.RetryContract
import SoulCoreKit.Proof.CallAgreement
import SoulCoreKit.Proof.DownloadIntegrity
import SoulCoreKit.Proof.FutureCallbacks
import SoulCoreKit.Proof.FutureChains
import SoulCoreKit.Proof.Bindings
import SoulCoreKit.Proof.Unsubscription
import SoulCoreKit.Proof.PluginHandles
import SoulCoreKit.Proof.LogRetention
import SoulCoreKit.Proof.WeaveOrder
import SoulCoreKit.Proof.TaskProgress
import SoulCoreKit.Proof.LogoutFinality
import SoulCoreKit.Proof.CompressRoundTrip
import SoulCoreKit.Proof.TextConversion
import SoulCoreKit.Proof.RpcValues
import SoulCoreKit.Proof.VariantRoundTrip
import SoulCoreKit.Proof.MessageRoundTrip
import SoulCoreKit.Proof.Routing
import SoulCoreKit.Proof.RequeueOrder
import SoulCoreKit.Proof.DeliveryOrder
import SoulCoreKit.Proof.EvictionOrder
import SoulCoreKit.Proof.BatchCalls
import SoulCoreKit.Proof.LevelSearch
import SoulCoreKit.Proof.PutThenGet
import SoulCoreKit.Proof.StorageEviction
import SoulCoreKit.Proof.TableInvalidation
import SoulCoreKit.Proof.TokenBucket
import SoulCoreKit.Proof.Polling
import SoulCoreKit.Proof.WindowLimit
import SoulCoreKit.Proof.ProbeSlots
import SoulCoreKit.Proof.Backoff
import SoulCoreKit.Proof.HeartbeatSilence
import SoulCoreKit.Proof.PoolRefusal
import SoulCoreKit.Proof.IdleReclaim
import SoulCoreKit.Proof.OpenTransaction
import SoulCoreKit.Proof.CurrentVersion
import SoulCoreKit.Proof.Paging
import SoulCoreKit.Proof.QuotedNames
import SoulCoreKit.Proof.StatementsLineUp
import SoulCoreKit.Proof.Completable
import SoulCoreKit.Proof.BodyFraming
import SoulCoreKit.Proof.ResponseFraming
import SoulCoreKit.Proof.ClosingHandshake
import SoulCoreKit.Proof.TokenExpiry
import SoulCoreKit.Proof.AntiStarvation
import SoulCoreKit.Proof.TaskRearming
import SoulCoreKit.Proof.CronText
import SoulCoreKit.Proof.VersionOrder
import SoulCoreKit.Proof.HistogramExport
import SoulCoreKit.Proof.QuantileBounds
import SoulCoreKit.Proof.LabelText
import SoulCoreKit.Proof.LogSize
import SoulCoreKit.Proof.KeyDerivation
import SoulCoreKit.Proof.ConnectionHistory
import SoulCoreKit.Proof.ReconnectTimers
import SoulCoreKit.Proof.ReconnectPace
import SoulCoreKit.Proof.DatabaseLock
import SoulCoreKit.Proof.TracePropagation
import SoulCoreKit.Proof.CollectorThreads
import SoulCoreKit.Proof.ServiceCalls
import SoulCoreKit.Proof.SchedulerTasks
import SoulCoreKit.Proof.BuiltinChain
import SoulCoreKit.Proof.ConnectionService
