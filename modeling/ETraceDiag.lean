import ETraceDiag.AlignedRecords
import ETraceDiag.AnomalyFeed
import ETraceDiag.AnomalyType
import ETraceDiag.Base64
import ETraceDiag.BatchWriter
import ETraceDiag.BlockIo
import ETraceDiag.BpfValues
import ETraceDiag.ByteStream
import ETraceDiag.CandidateDirection
import ETraceDiag.CausalInput
import ETraceDiag.ChangeLog
import ETraceDiag.ChartView
import ETraceDiag.ChiSquare
import ETraceDiag.Collectors
import ETraceDiag.ComplexFit
import ETraceDiag.ConfigBounds
import ETraceDiag.ConfigOverlay
import ETraceDiag.ConfigReload
import ETraceDiag.Contingency
import ETraceDiag.CpuList
import ETraceDiag.CrossScaleGate
import ETraceDiag.Decimation
import ETraceDiag.DeepDump
import ETraceDiag.DeepMaps
import ETraceDiag.DetectorCache
import ETraceDiag.DetectorFeedback
import ETraceDiag.EpisodeMaps
import ETraceDiag.EpisodeSeries
import ETraceDiag.EpisodeWindow
import ETraceDiag.Explainer
import ETraceDiag.FeatureCounters
import ETraceDiag.FeatureDeltas
import ETraceDiag.FeatureTick
import ETraceDiag.FeedbackConflicts
import ETraceDiag.FixedWidth
import ETraceDiag.FlameGraph
import ETraceDiag.FlightRecorder
import ETraceDiag.FoldedDump
import ETraceDiag.ForwardFill
import ETraceDiag.FreqModel
import ETraceDiag.FuseSegments
import ETraceDiag.Handshake
import ETraceDiag.HostRows
import ETraceDiag.HotFiles
import ETraceDiag.HttpHead
import ETraceDiag.Hysteresis
import ETraceDiag.JointFrame
import ETraceDiag.LatencyLedger
import ETraceDiag.LevelRemoval
import ETraceDiag.LockHotSpots
import ETraceDiag.LockWaits
import ETraceDiag.LogView
import ETraceDiag.LoggerSink
import ETraceDiag.MainLoop
import ETraceDiag.MapIteration
import ETraceDiag.MaxStack
import ETraceDiag.MemEvents
import ETraceDiag.Meminfo
import ETraceDiag.MergeLaw
import ETraceDiag.MissingData
import ETraceDiag.MixedRadix
import ETraceDiag.ModalityJoin
import ETraceDiag.ModelClient
import ETraceDiag.ModelSession
import ETraceDiag.NetSampling
import ETraceDiag.NetStack
import ETraceDiag.NetlinkDump
import ETraceDiag.Normalize
import ETraceDiag.OffcpuSampling
import ETraceDiag.OnCpu
import ETraceDiag.OomRing
import ETraceDiag.OutOfOrder
import ETraceDiag.OverlapGroups
import ETraceDiag.PerCpuMerge
import ETraceDiag.Percentiles
import ETraceDiag.PointStream
import ETraceDiag.PosixPath
import ETraceDiag.ProcNetDev
import ETraceDiag.ProcessTable
import ETraceDiag.Prometheus
import ETraceDiag.PsiLines
import ETraceDiag.PsiPc
import ETraceDiag.RacyCounter
import ETraceDiag.RecordSeqlock
import ETraceDiag.RegistrySeries
import ETraceDiag.Replay
import ETraceDiag.ReplyLoop
import ETraceDiag.RingBudget
import ETraceDiag.RunQueue
import ETraceDiag.SelectorState
import ETraceDiag.SeriesFrame
import ETraceDiag.SeriesOrder
import ETraceDiag.Serve
import ETraceDiag.Sessions
import ETraceDiag.Severity
import ETraceDiag.Skeleton
import ETraceDiag.SlidingWindow
import ETraceDiag.Snapshotter
import ETraceDiag.SockFlow
import ETraceDiag.Softnet
import ETraceDiag.StateConditioning
import ETraceDiag.SysPairing
import ETraceDiag.SysProducers
import ETraceDiag.TargetOrder
import ETraceDiag.TidReuse
import ETraceDiag.TimeWindow
import ETraceDiag.TopProcesses
import ETraceDiag.TopTasks
import ETraceDiag.TransactionLog
import ETraceDiag.VersionedStore
import ETraceDiag.Vmstat
import ETraceDiag.WaitSpans
import ETraceDiag.WebSocketFrame
import ETraceDiag.WsClient
import ETraceDiag.WsServer
