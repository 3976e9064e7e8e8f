import CvdBench.Metrics.Aggregate
import CvdBench.Spec.Validate

/-!
The record of one job (`state/job.rs`) and its aggregation on entering a terminal
status (`aggregate.rs`).
-/

set_option autoImplicit false

namespace CvdBench.Master

open Foundation Proto

abbrev JobId := String

abbrev WorkerId := String

abbrev Duration := Spec.Duration

/-- A point of the monotonic clock, in nanoseconds. -/
abbrev Instant := Nat

/-- What one section of a handler reads from outside the state: the successive
readings of the two clocks, the iteration order of the hash containers of each
owner, and the manifest files of the master's file system. -/
structure Ambient where
  nowMs : Nat → Int
  instant : Nat → Instant
  order : String → HashOrder String
  isFile : String → Bool
  openError : String → Option String

structure SchedulerConfig where
  workerStaleness : Duration
  jobRetention : Duration
  prepareTimeout : Duration
  startDelay : Duration
  fileQueueCapacity : Nat
  dirQueueCapacity : Nat
  dirScanConcurrency : Nat
  deriving DecidableEq, Repr

structure MasterConfig where
  scheduler : SchedulerConfig
  filesystems : HashMap String String

/-- The configuration, frozen at start, and the histogram crate. -/
structure MasterEnv (H : Type) where
  config : MasterConfig
  hdr : Metrics.HdrLib H

structure WorkerAssignment where
  workerIndex : Nat
  deriving DecidableEq, Repr

structure JobRecord where
  jobId : JobId
  specRedacted : BenchSpec
  credentials : Option S3CredentialMaterial
  status : JobStatus
  createdAtMs : Int
  error : Option String
  mountPoint : String
  targetWorkers : Nat
  workerAssignments : HashMap WorkerId WorkerAssignment
  runWorkers : Finset WorkerId
  readyWorkers : Finset WorkerId
  startAtMs : Int
  workerResults : HashMap WorkerId WorkerResult
  workerLastSeen : HashMap WorkerId Instant
  preparingSince : Option Instant
  latestProgress : HashMap WorkerId WorkerProgress
  aggregated : Option AggregatedMetrics
  windowMisaligned : Bool
  missingHistogramCount : Nat
  successWorkerCount : Nat
  terminalAtMs : Option Int
  /-- The job whose manifest cell holds the queue; the cell is shared with the reader. -/
  fileQueue : Option JobId
  manifestHandle : Option JobId

namespace JobRecord

def new (jobId : JobId) (specRedacted : BenchSpec) (credentials : Option S3CredentialMaterial)
    (mountPoint : String) (targetWorkers : Nat) (createdAtMs : Int) : JobRecord :=
  { jobId, specRedacted, credentials, status := .pending, createdAtMs, error := none
    mountPoint, targetWorkers, workerAssignments := ∅, runWorkers := ∅, readyWorkers := ∅
    startAtMs := 0, workerResults := ∅, workerLastSeen := ∅, preparingSince := none
    latestProgress := ∅, aggregated := none, windowMisaligned := false
    missingHistogramCount := 0, successWorkerCount := 0, terminalAtMs := none
    fileQueue := none, manifestHandle := none }

def toPbJob (r : JobRecord) : Job :=
  { jobId := r.jobId, spec := some r.specRedacted, status := r.status
    createdAt := r.createdAtMs }

def isTerminal (r : JobRecord) : Bool :=
  r.status == .completed || r.status == .failed || r.status == .cancelled

def slotsFilled (r : JobRecord) : Nat := min r.workerAssignments.len Spec.u32Max

/-- The truncated subtraction is `saturating_sub`. -/
def slotsRemaining (r : JobRecord) : Nat := r.targetWorkers - r.slotsFilled

def runWorkerCount (r : JobRecord) : Nat :=
  if r.runWorkers = ∅ then r.workerAssignments.len else r.runWorkers.card

def touch (r : JobRecord) (workerId : WorkerId) (now : Instant) : JobRecord :=
  { r with workerLastSeen := r.workerLastSeen.put workerId now }

def tryAssign (r : JobRecord) (workerId : WorkerId) (now : Instant) :
    Option (JobRecord × WorkerAssignment) :=
  if r.slotsRemaining = 0 then none
  else
    let assignment : WorkerAssignment := ⟨r.slotsFilled⟩
    let r := { r with workerAssignments := r.workerAssignments.put workerId assignment }
    some (r.touch workerId now, assignment)

def enterPreparing (r : JobRecord) (now : Instant) : JobRecord :=
  if r.status ≠ .pending then r
  else
    { r with
      runWorkers := r.workerAssignments.keys
      preparingSince := some now
      status := .preparing }

/-- `aggregate_into_record`; the results are passed in the order of the hash map. -/
def aggregateIntoRecord {H : Type} (lib : Metrics.HdrLib H) (order : HashOrder String)
    (nowMs : Int) (r : JobRecord) : JobRecord :=
  let summary := Metrics.aggregate lib order (order.values r.workerResults)
  { r with
    aggregated := some summary.aggregated
    windowMisaligned := summary.windowMisaligned
    missingHistogramCount := summary.missingHistogramCount
    successWorkerCount := summary.successWorkerCount
    terminalAtMs := some (r.terminalAtMs.getD nowMs) }

end JobRecord

end CvdBench.Master
