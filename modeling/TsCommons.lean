import TsCommons.Application.Mediator
import TsCommons.ArchitectureTests.DependencyAnalyzer
import TsCommons.Audit.AuditService
import TsCommons.Audit.ComplianceReporter
import TsCommons.Cache.BloomFilter
import TsCommons.Cache.BoundedFifo
import TsCommons.Cache.Coherence
import TsCommons.Cache.Expiry
import TsCommons.Cache.InMemoryCache
import TsCommons.Cache.MultiLevelCache
import TsCommons.Cache.Registers
import TsCommons.Cache.Sequential
import TsCommons.Cache.SingleFlight
import TsCommons.CacheRedis.CacheTagRegistry
import TsCommons.CacheRedis.RedisCache
import TsCommons.CacheRedis.RedisLock
import TsCommons.CacheRedis.RedisPubSub
import TsCommons.CacheRedis.Subscriptions
import TsCommons.Cdc.CdcProcessor
import TsCommons.Cdc.CdcTransformer
import TsCommons.Cdc.EventNormalizer
import TsCommons.Cli.MigrationCommand
import TsCommons.Config.HotReloadConfigLoader
import TsCommons.Config.ReloadOrder
import TsCommons.Contracts.SemVer
import TsCommons.DataPipeline.DeadLetterQueue
import TsCommons.DataWarehouse.SchemaEvolutionManager
import TsCommons.Discovery.HealthChecker
import TsCommons.Discovery.LeastConnections
import TsCommons.Discovery.ServiceRegistry
import TsCommons.Discovery.Watchers
import TsCommons.DockerUtils.GracefulShutdown
import TsCommons.EventSourcing.Aggregate
import TsCommons.EventSourcing.Atomicity
import TsCommons.EventSourcing.Delivery
import TsCommons.EventSourcing.EventReplayer
import TsCommons.EventSourcing.EventStore
import TsCommons.EventSourcing.LegalHistories
import TsCommons.EventSourcing.LostDelivery
import TsCommons.EventSourcing.OptimisticConcurrency
import TsCommons.EventSourcing.Projections
import TsCommons.EventSourcing.Subscriptions
import TsCommons.Features.ABTestManager
import TsCommons.Foundations.Arrivals
import TsCommons.Foundations.Base64
import TsCommons.Foundations.Bits
import TsCommons.Foundations.Callbacks
import TsCommons.Foundations.Chains
import TsCommons.Foundations.Comparisons
import TsCommons.Foundations.Concatenation
import TsCommons.Foundations.Doubles
import TsCommons.Foundations.Execution
import TsCommons.Foundations.Exposition
import TsCommons.Foundations.InsertionMap
import TsCommons.Foundations.InsertionSet
import TsCommons.Foundations.Json
import TsCommons.Foundations.JsonEquality
import TsCommons.Foundations.JsonRoundTrip
import TsCommons.Foundations.JsonStrings
import TsCommons.Foundations.KeyedRows
import TsCommons.Foundations.Lasso
import TsCommons.Foundations.LiveIteration
import TsCommons.Foundations.MapData
import TsCommons.Foundations.Numerals
import TsCommons.Foundations.Objects
import TsCommons.Foundations.PosixPath
import TsCommons.Foundations.Recency
import TsCommons.Foundations.References
import TsCommons.Foundations.SetMap
import TsCommons.Foundations.Settlements
import TsCommons.Foundations.Since
import TsCommons.Foundations.Slices
import TsCommons.Foundations.StableSort
import TsCommons.Foundations.Tally
import TsCommons.Foundations.Text
import TsCommons.Foundations.TokenBucket
import TsCommons.Foundations.Turning
import TsCommons.Foundations.UrlSearchParams
import TsCommons.Foundations.Utf16
import TsCommons.Foundations.Utf8
import TsCommons.Foundations.WeightedChoice
import TsCommons.Foundations.Window
import TsCommons.Foundations.Worklist
import TsCommons.Hotreload.Debouncing
import TsCommons.Hotreload.Glob
import TsCommons.Hotreload.GlobSegments
import TsCommons.Hotreload.GlobSource
import TsCommons.Hotreload.HotReloadOrchestrator
import TsCommons.Hotreload.IncrementalCompiler
import TsCommons.Hotreload.Invalidation
import TsCommons.Hotreload.PendingWork
import TsCommons.Hotreload.RegexLanguage
import TsCommons.Hotreload.TestRefresher
import TsCommons.Hotreload.WatchManager
import TsCommons.Idempotency.ExactlyOnce
import TsCommons.Idempotency.LockOwnership
import TsCommons.Idempotency.Store
import TsCommons.Idempotency.UseCase
import TsCommons.Incidents.IncidentManager
import TsCommons.Incidents.Lifecycle
import TsCommons.Incidents.Notifications
import TsCommons.K8s.BlueGreenDeployment
import TsCommons.K8s.CanaryRelease
import TsCommons.K8s.RollbackFinal
import TsCommons.Kernel.Result
import TsCommons.Kernel.ValueObject
import TsCommons.Messaging.FanOutBroker
import TsCommons.Messaging.RequestReplyBroker
import TsCommons.Messaging.TopicRouter
import TsCommons.MessagingEventbridge.EventBridgeEventConsumer
import TsCommons.MessagingKafka.KafkaEventConsumer
import TsCommons.MessagingRabbitmq.DeadLettering
import TsCommons.MessagingRabbitmq.Deduplication
import TsCommons.MessagingRabbitmq.RabbitMQEventConsumer
import TsCommons.MessagingRabbitmq.Retries
import TsCommons.Notifications.BulkSends
import TsCommons.Notifications.ManagedNotificationAdapter
import TsCommons.Notifications.RateLimiter
import TsCommons.Notifications.SendLimits
import TsCommons.Observability.GrafanaMetricsExporter
import TsCommons.Observability.InMemoryMetrics
import TsCommons.Observability.MetricTypes
import TsCommons.Observability.PiiRedactor
import TsCommons.Observability.SloTracker
import TsCommons.ObservabilityOtel.AdvancedTracer
import TsCommons.ObservabilityOtel.CriticalPath
import TsCommons.Outbox.Metrics
import TsCommons.Outbox.NoDoublePublish
import TsCommons.Outbox.OneAfterAnother
import TsCommons.Outbox.Relay
import TsCommons.Outbox.RetryDiscipline
import TsCommons.Outbox.RetryLog
import TsCommons.Outbox.Starvation
import TsCommons.Outbox.Store
import TsCommons.Persistence.DataLoader
import TsCommons.Persistence.QueryResultCache
import TsCommons.ProcessManager.CorrelationIndex
import TsCommons.ProcessManager.InMemoryProcessStore
import TsCommons.ProcessManager.ProcessManager
import TsCommons.ProcessManager.ProcessTimeoutScheduler
import TsCommons.Resilience.Bulkhead
import TsCommons.Resilience.CircuitBreaker
import TsCommons.Resilience.HealthCheck
import TsCommons.Resilience.Hedge
import TsCommons.Resilience.OpenPeriod
import TsCommons.Resilience.RateLimiter
import TsCommons.Resilience.Retry
import TsCommons.Saga.InFlight
import TsCommons.Saga.Rollback
import TsCommons.Saga.Sequential
import TsCommons.Saga.TerminalStates
import TsCommons.Saga.Transaction
import TsCommons.Scheduler.Accounting
import TsCommons.Scheduler.ConcurrencyLimit
import TsCommons.Scheduler.CronParser
import TsCommons.Scheduler.InMemoryScheduler
import TsCommons.SchemaRegistry.Compatibility
import TsCommons.SchemaRegistry.History
import TsCommons.SchemaRegistry.Registry
import TsCommons.Search.InMemorySearchAdapter
import TsCommons.Secrets.CachedSecretsAdapter
import TsCommons.Secrets.ReadAfterWrite
import TsCommons.Security.ApiKeyManager
import TsCommons.Security.ApiKeyUsageTracker
import TsCommons.Security.ApiKeyViews
import TsCommons.Security.AuthorizationCodeFlow
import TsCommons.Security.CertificateValidator
import TsCommons.Security.FieldEncryption
import TsCommons.Security.JwksClient
import TsCommons.Security.JwksFreshness
import TsCommons.Security.KeyLineage
import TsCommons.Security.KeyRotationManager
import TsCommons.Storage.BaseDirectory
import TsCommons.Storage.InMemoryStorageAdapter
import TsCommons.Storage.LocalStorageAdapter
import TsCommons.Storage.MultipartUpload
import TsCommons.Storage.ObjectsApart
import TsCommons.Streams.BackpressureQueue
import TsCommons.Streams.EventStream
import TsCommons.Streams.Grammar
import TsCommons.Streams.Outlet
import TsCommons.Streams.Pipelines
import TsCommons.Streams.SlidingWindow
import TsCommons.Streams.Sources
import TsCommons.Streams.StreamMerger
import TsCommons.Streams.WindowStrategy
import TsCommons.Testing.InMemoryIdempotencyStore
import TsCommons.Timeseries.Downsampler
import TsCommons.Timeseries.InfluxDBAdapter
import TsCommons.Timeseries.Types
import TsCommons.Web.CspBuilder
import TsCommons.Web.SseEmitter
import TsCommons.Web.SseFormatter
import TsCommons.Web.SseReplay
import TsCommons.WebGraphql.DataLoader
import TsCommons.WebSocket.LiveMembers
import TsCommons.WebSocket.RoomManager
import TsCommons.WebSocket.WebSocketConnection
import TsCommons.WebSocket.WebSocketServer
