import CvdBench.Foundation.Machine
import CvdBench.Wire.Proto
import CvdBench.Spec.Parse
import CvdBench.Spec.PathSafe
import CvdBench.Spec.WorkerId
import CvdBench.Spec.BenchSpec
import CvdBench.Metrics.Aggregate
import CvdBench.Spec.Validate
import CvdBench.Master.Record
import CvdBench.Master.Scheduler
import CvdBench.Master.Service
import CvdBench.Master.System
import CvdBench.Master.Lifecycle
import CvdBench.Master.Effects
import CvdBench.Master.Sections
import CvdBench.Master.Invariant
import CvdBench.Master.Bindings
import CvdBench.Master.Queue
import CvdBench.Master.Replies
import CvdBench.Properties.JobLifecycle
import CvdBench.Properties.Scheduling
import CvdBench.Properties.StartBarrier
import CvdBench.Properties.Watcher
import CvdBench.Properties.Results
import CvdBench.Properties.ActiveJobs
import CvdBench.Properties.Slots
import CvdBench.Foundation.Pool
import CvdBench.Manifest.Exchange
import CvdBench.Properties.Distribution
import CvdBench.Manifest.DirFs
import CvdBench.Manifest.DirScan
import CvdBench.Manifest.DirRows
import CvdBench.Manifest.DirWake
import CvdBench.Manifest.DirInvariant
import CvdBench.Manifest.DirSleep
import CvdBench.Manifest.DirMeasure
import CvdBench.Properties.ScanProgress
import CvdBench.Manifest.DirAccount
import CvdBench.Manifest.Delivery
import CvdBench.Properties.ManifestDone
import CvdBench.Manifest.DirSmooth
import CvdBench.Properties.ScanExact
import CvdBench.Foundation.Csv
import CvdBench.Properties.ManifestCsv
import CvdBench.Worker.FsIo
import CvdBench.Worker.ReadStream
import CvdBench.Worker.Runner
import CvdBench.Worker.Consistency
import CvdBench.Worker.IoTask
import CvdBench.Worker.RunnerBooks
import CvdBench.Worker.IoTaskInvariant
import CvdBench.Properties.WorkerPipeline
import CvdBench.Events.Registry
import CvdBench.Events.Streams
import CvdBench.Events.Watch
import CvdBench.Events.Follow
import CvdBench.Properties.WatchStreams
import CvdBench.Master.Forget
import CvdBench.Master.MetricsPage
import CvdBench.Properties.Credentials
import CvdBench.Worker.StreamRead
import CvdBench.Worker.StreamChunks
import CvdBench.Properties.ReadConsistency
import CvdBench.Worker.Pacing
import CvdBench.Properties.RateLimits
import CvdBench.Foundation.Interval
import CvdBench.Metrics.Window
import CvdBench.Properties.EffectiveWindow
import CvdBench.Cli.Report
import CvdBench.Properties.WindowAgreement
import CvdBench.Worker.JobSpec
import CvdBench.Foundation.Lexical
import CvdBench.Properties.AcceptedSpecs
import CvdBench.Worker.WorkRoot
import CvdBench.Foundation.Overwrite
import CvdBench.Properties.PathContainment
import CvdBench.Worker.WriteFile
import CvdBench.Properties.WriteJob
import CvdBench.Properties.WriteRuns
import CvdBench.Properties.WrittenFiles
import CvdBench.Manifest.FileJob
import CvdBench.Properties.ManifestRounds
import CvdBench.Properties.OwnManifest
import CvdBench.Worker.Assigned
import CvdBench.Properties.UnknownJob
import CvdBench.Properties.WorkSets
import CvdBench.Properties.RunnerSuccess
import CvdBench.Worker.CheckedRun
import CvdBench.Properties.JobAbort
import CvdBench.Properties.ConsistencyOn
import CvdBench.Foundation.Tally
import CvdBench.Metrics.Counters
import CvdBench.Properties.CounterSums
import CvdBench.Foundation.Merging
import CvdBench.Metrics.PerOp
import CvdBench.Metrics.Latency
import CvdBench.Properties.LatencyComplete
import CvdBench.Worker.Measured
import CvdBench.Properties.MeasureWindow
import CvdBench.Master.Shown
import CvdBench.Properties.FinalProgress
import CvdBench.Foundation.FileTree
import CvdBench.Worker.Removal
import CvdBench.Properties.RemovalExact
import CvdBench.Foundation.Tour
import CvdBench.Worker.Phases
import CvdBench.Worker.Prebuild
import CvdBench.Properties.LayoutExact
import CvdBench.Foundation.Batches
import CvdBench.Foundation.Binary64
import CvdBench.Worker.LayoutPlan
import CvdBench.Worker.BuildRun
import CvdBench.Properties.BuildExact
import CvdBench.Properties.DurationGrammar
import CvdBench.Properties.ClockSync
import CvdBench.Foundation.CsvLines
import CvdBench.Manifest.DirLines
import CvdBench.Properties.ManifestLines
import CvdBench.Properties.RateGrammar
import CvdBench.Properties.RelativePaths
import CvdBench.Properties.BucketBounds
import CvdBench.Foundation.Pieces
import CvdBench.Properties.BlockRanges
import CvdBench.Foundation.Network
import CvdBench.Foundation.Binary64
import CvdBench.Worker.Backoff
import CvdBench.Properties.BackoffDelays
import CvdBench.Worker.Daemon
import CvdBench.Properties.DaemonJobs
import CvdBench.Cluster.System
import CvdBench.Properties.ClusterBarrier
import CvdBench.Properties.ClusterResults
import CvdBench.Worker.LayoutRun
import CvdBench.Properties.LayoutRuns
import CvdBench.Properties.MetadataJob
import CvdBench.Foundation.MakeDirs
import CvdBench.Worker.WriteRun
import CvdBench.Properties.PhaseOrder
import CvdBench.Properties.PhaseReports
import CvdBench.Foundation.Calls
import CvdBench.Cli.Session
import CvdBench.Properties.Sessions
import CvdBench.Worker.Identity
import CvdBench.Properties.GeneratedIds
import CvdBench.Master.Config
import CvdBench.Properties.ConfigChecks
