import CvdBench.Foundation.HashMap

/-!
The messages of `proto/master.proto`. Integers of the wire are `Int`, doubles are
`Float`, a `map` is a `HashMap`, an `optional` or message field is an `Option`.
-/

set_option autoImplicit false

namespace CvdBench.Proto

open Foundation

inductive JobStatus where
  | unspecified | pending | preparing | running | completed | failed | cancelled
  deriving DecidableEq, Repr

inductive EventKind where
  | unspecified | statusChange | progress | result | error
  deriving DecidableEq, Repr

inductive WorkerPhase where
  | unspecified | preparing | waitingStart | warmup | measuring | cleanup | finished
  deriving DecidableEq, Repr

/-- `WorkerPhase::try_from` on the enum number of the wire. -/
def WorkerPhase.ofNumber : Int → Option WorkerPhase
  | 0 => some .unspecified
  | 1 => some .preparing
  | 2 => some .waitingStart
  | 3 => some .warmup
  | 4 => some .measuring
  | 5 => some .cleanup
  | 6 => some .finished
  | _ => none

def WorkerPhase.number : WorkerPhase → Int
  | .unspecified => 0
  | .preparing => 1
  | .waitingStart => 2
  | .warmup => 3
  | .measuring => 4
  | .cleanup => 5
  | .finished => 6

def JobStatus.number : JobStatus → Int
  | .unspecified => 0
  | .pending => 1
  | .preparing => 2
  | .running => 3
  | .completed => 4
  | .failed => 5
  | .cancelled => 6

structure ConsistencyConfig where
  bucketName : String
  bucketUrl : String
  accessKey : String
  secretKey : String
  region : String
  keyPrefix : String
  sessionToken : String
  deriving DecidableEq, Repr

structure S3CredentialMaterial where
  accessKey : String
  secretKey : String
  sessionToken : String
  deriving DecidableEq, Repr

structure ReadConfig where
  concurrency : Int
  fileManifest : String
  dirManifest : String
  thinkTime : String
  rateLimit : String
  s3ConsistencyCheck : Option ConsistencyConfig
  loopFiles : Bool
  deriving DecidableEq, Repr

structure FileSizeRange where
  min : String
  max : String
  distribution : String
  deriving DecidableEq, Repr

structure WriteConfig where
  concurrency : Int
  dir : String
  fileSize : String
  fileSizeRange : Option FileSizeRange
  fsync : Bool
  cleanup : Bool
  thinkTime : String
  rateLimit : String
  verifyAfterWrite : Bool
  deriving DecidableEq, Repr

structure MetadataConfig where
  concurrency : Int
  dir : String
  ops : List String
  depth : Int
  width : Int
  filesPerDir : Int
  thinkTime : String
  rateLimit : String
  layoutConcurrency : Int
  readOnly : Bool
  readOnlyScanLimit : Int
  dirManifest : String
  deriving DecidableEq, Repr

structure BenchSpec where
  fsName : String
  ioMode : String
  ioAligned : Bool
  directIo : Bool
  blockSize : String
  duration : String
  warmup : String
  read : Option ReadConfig
  write : Option WriteConfig
  metadata : Option MetadataConfig
  targetWorkers : Int
  deriving DecidableEq, Repr

structure LatencyStats where
  p50 : Float
  p95 : Float
  p99 : Float
  p999 : Float
  max : Float
  avg : Float

def LatencyStats.default : LatencyStats := ⟨0, 0, 0, 0, 0, 0⟩

structure PerformanceMetrics where
  throughputMbps : Float
  iops : Float
  latencyUs : Option LatencyStats
  errorCount : Int
  errorRate : Float
  totalOps : Int
  totalBytes : Int
  latencyHistogramHdr : List UInt8

inductive ConsistencyErrorType where
  | unspecified | hashMismatch | sizeMismatch | fsReadError | s3ReadError | s3NotFound
  | s3Throttle | permissionDenied
  deriving DecidableEq, Repr

structure ConsistencyError where
  workerId : String
  fsPath : String
  s3Key : String
  type : ConsistencyErrorType
  message : String
  deriving DecidableEq, Repr

structure WorkerResult where
  workerId : String
  perOp : HashMap String PerformanceMetrics
  consistencyErrors : List ConsistencyError
  success : Bool
  error : Option String
  effectiveDurationMs : Int
  measureStartMs : Int
  measureEndMs : Int

structure WorkerProgress where
  workerId : String
  elapsedMs : Int
  perOp : HashMap String PerformanceMetrics
  phase : Int

structure AggregatedMetrics where
  total : Option PerformanceMetrics
  totalPerOp : HashMap String PerformanceMetrics
  perWorker : List WorkerResult

structure FileEntry where
  fsPath : String
  s3Key : String
  deriving DecidableEq, Repr

structure JobEvent where
  jobId : String
  status : JobStatus
  workerProgress : List WorkerProgress
  aggregated : Option AggregatedMetrics
  error : Option String
  timestamp : Int
  seq : Int
  kind : EventKind
  dirsScanned : Int
  filesScanned : Int
  scanDurationMs : Int

structure Job where
  jobId : String
  spec : Option BenchSpec
  status : JobStatus
  createdAt : Int

structure CreateJobResponse where
  jobId : String

structure QueryJobResponse where
  job : Option Job
  workerResults : List WorkerResult
  aggregated : Option AggregatedMetrics
  error : Option String
  runWorkers : Int
  dirsScanned : Int
  filesScanned : Int
  scanDurationMs : Int

structure ListJobsRequest where
  statusFilter : Option Int
  limit : Int

structure FetchJobResponse where
  jobId : Option String
  spec : Option BenchSpec
  mountPoint : Option String
  workerIndex : Option Int
  s3Credentials : Option S3CredentialMaterial
  masterNowMs : Int

structure ReportReadyRequest where
  jobId : String
  workerId : String
  error : Option String

structure ReportReadyResponse where
  cancelled : Bool
  unknownJob : Bool
  startAtMs : Int
  masterNowMs : Int

structure FetchFileBatchRequest where
  jobId : String
  workerId : String
  batchSize : Int

structure FetchFileBatchResponse where
  files : List FileEntry
  hasMore : Bool
  cancelled : Bool
  unknownJob : Bool

structure ReportProgressRequest where
  jobId : String
  progress : Option WorkerProgress

structure ReportProgressResponse where
  cancelled : Bool
  unknownJob : Bool

structure ReportResultRequest where
  jobId : String
  result : Option WorkerResult

structure ReportResultResponse where
  unknownJob : Bool

end CvdBench.Proto
