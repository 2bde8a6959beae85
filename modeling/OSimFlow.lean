import OSimFlow.Lib.Keyed
import OSimFlow.Lib.Run
import OSimFlow.Lib.Dict
import OSimFlow.Lib.Prog
import OSimFlow.Errors
import OSimFlow.Campaign.SampleState
import OSimFlow.Observability.RunTrace
import OSimFlow.Observability.Durability
import OSimFlow.Queues.Journal
import OSimFlow.Fanout.AwaitOne
import OSimFlow.Fanout.Script
import OSimFlow.Fanout.Accounting
import OSimFlow.Lib.Pool
import OSimFlow.Fanout.WaitLoop
import OSimFlow.Fanout.Modes
import OSimFlow.Fanout.Partition
import OSimFlow.Fanout.Agreement
import OSimFlow.Fanout.Abort
import OSimFlow.Campaign.FanoutStep
import OSimFlow.Campaign.Quota
import OSimFlow.Breaker.CircuitBreaker
import OSimFlow.Breaker.Stragglers
import OSimFlow.Documents.RedisDocumentStore
import OSimFlow.Documents.BreakerSession
import OSimFlow.Lib.Triple
import OSimFlow.Lib.InverseIndex
import OSimFlow.Documents.UniqueIndexes
import OSimFlow.Queues.Publish
import OSimFlow.Cache.SQLiteCache
import OSimFlow.Lib.Separator
import OSimFlow.Cache.SharedStore
import OSimFlow.Queues.Delivery
import OSimFlow.Detached.Download
import OSimFlow.Detached.DownloadRuns
import OSimFlow.Detached.Submission
import OSimFlow.Api.Coordinator
import OSimFlow.Api.Handoff
import OSimFlow.Cache.Broadcast
import OSimFlow.Queues.Recovery
import OSimFlow.Campaign.Freshness
import OSimFlow.Lib.InPlace
import OSimFlow.Lib.Memo
import OSimFlow.Campaign.WarmApply
import OSimFlow.Lib.Undominated
import OSimFlow.Pareto.ParetoFront
import OSimFlow.Pareto.PersistedFront
import OSimFlow.Aggregation.CompileAggregation
import OSimFlow.Aggregation.LocalAggregation
import OSimFlow.Lib.Extended
import OSimFlow.Lib.Succeeds
import OSimFlow.Lib.Tree
import OSimFlow.Algorithms.EffectiveObjectives
import OSimFlow.Lib.Sorted
import OSimFlow.Lib.Padded
import OSimFlow.Algorithms.Swarm
import OSimFlow.Lib.Ledger
import OSimFlow.DataPoints.DataPoint
import OSimFlow.DataPoints.Genealogy
import OSimFlow.DataPoints.DataPointManager
import OSimFlow.Observability.Audit
import OSimFlow.Storage.Namespaces
import OSimFlow.Algorithms.Sampling
import OSimFlow.Algorithms.Sensitivity
import OSimFlow.Algorithms.Calibration
import OSimFlow.Aggregation.CompletionFence
import OSimFlow.Lib.Slots
import OSimFlow.Storage.UploadQueue
import OSimFlow.Api.CampaignRecord
import OSimFlow.Api.Events
import OSimFlow.Executors.SubmitRetry
import OSimFlow.Work.SimulationReuse
import OSimFlow.Executors.JobNames
import OSimFlow.Api.Containment
import OSimFlow.Executors.JobVerdict
import OSimFlow.Apply.OswArguments
import OSimFlow.Apply.Preflight
import OSimFlow.Lib.Shares
import OSimFlow.Osa.Study
import OSimFlow.Osa.Converters
import OSimFlow.Osa.References
import OSimFlow.Osa.RoundTrip
import OSimFlow.Lib.PosixPath
import OSimFlow.Executors.Transport
import OSimFlow.Work.TransientRetry
import OSimFlow.Lib.Expression
import OSimFlow.Expressions.SafeEval
import OSimFlow.Expressions.Agreement
import OSimFlow.Executors.PollingHandle
import OSimFlow.Executors.Deadline
import OSimFlow.Executors.Settling
import OSimFlow.Executors.CancelSweep
import OSimFlow.Executors.PayloadSignature
import OSimFlow.Lib.PosixTree
import OSimFlow.Executors.ResultTransport
import OSimFlow.Executors.ResultKeys
import OSimFlow.Executors.ResultDelivery
import OSimFlow.Executors.RateLimiter
import OSimFlow.JsonLoads
import OSimFlow.Observability.EventLog
import OSimFlow.Work.GenerateLhs
import OSimFlow.Algorithms.Surrogates
import OSimFlow.Algorithms.Islands
import OSimFlow.Algorithms.Uncertainty
import OSimFlow.Algorithms.DoeAnalysis
import OSimFlow.Algorithms.Convergence
import OSimFlow.Executors.LocalEnvironment
import OSimFlow.Lib.Hypervolume
import OSimFlow.Pareto.Hypervolume
import OSimFlow.Executors.SpotCeiling
import OSimFlow.Lib.Paging
import OSimFlow.Registry.ResultsQuery
import OSimFlow.Registry.CrossRun
import OSimFlow.Lib.Wal
import OSimFlow.Registry.ResultsDb
import OSimFlow.Campaign.WeatherPreflight
import OSimFlow.Registry.ServerCsv
import OSimFlow.Aggregation.OutOsw
import OSimFlow.Cache.InputHash
import OSimFlow.Apply.DottedNames
import OSimFlow.Algorithms.MeasuredSelection
import OSimFlow.Detached.BatchJobName
import OSimFlow.Detached.SampleListing
import OSimFlow.Aggregation.ManifestIndex
import OSimFlow.Algorithms.SequentialSearch
import OSimFlow.Cache.LookupMany
import OSimFlow.Algorithms.QDiscrete
import OSimFlow.Lib.Cells
import OSimFlow.Algorithms.DiscreteDraws
import OSimFlow.Algorithms.Conditional
import OSimFlow.Campaign.BatchManifest
import OSimFlow.Breaker.Transitions
import OSimFlow.Campaign.SignalEscalation
import OSimFlow.Fanout.BookkeepingOnce
import OSimFlow.Fanout.RecoveryBudget
import OSimFlow.Lib.Kahn
import OSimFlow.Work.DependencyGraph
import OSimFlow.Queues.Order
import OSimFlow.Cache.ImageRef
import OSimFlow.Campaign.ImportClosure
import OSimFlow.Executors.InputStaging
