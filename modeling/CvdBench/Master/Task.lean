import CvdBench.Master.State
import CvdBench.Spec.WorkerId

/-!
What the handlers answer, and what a handler still has to do after it released a lock.
-/

set_option autoImplicit false

namespace CvdBench.Master

open Foundation Proto

/-- The error of a CLI or worker RPC, kept as data instead of rendered text. -/
inductive Status where
  | workerId (e : Spec.WorkerIdError)
  | required (field : String)
  | specParse (e : Spec.SpecConvertError)
  | specValidate (report : List Spec.Violation)
  | fsNotRegistered (fsName : String)
  | manifestMissing (kind path : String)
  | manifestUnreadable (kind path error : String)
  | jobNotFound (jobId : JobId)

/-- An answer, with the request it answers. -/
inductive Reply where
  | createJob (res : Except Status CreateJobResponse)
  | watchJob (jobId : JobId) (res : Except Status JobEvent)
  | queryJob (jobId : JobId) (res : Except Status QueryJobResponse)
  | deleteJob (jobId : JobId) (res : Except Status Unit)
  | listJobs (req : ListJobsRequest) (jobs : List Job)
  | fetchJob (workerId : WorkerId) (res : Except Status FetchJobResponse)
  | reportReady (req : ReportReadyRequest) (res : Except Status ReportReadyResponse)
  | fetchFileBatch (req : FetchFileBatchRequest) (res : Except Status FetchFileBatchResponse)
  | reportProgress (req : ReportProgressRequest) (res : Except Status ReportProgressResponse)
  | reportResult (req : ReportResultRequest) (res : Except Status ReportResultResponse)

/-- The rest of a handler between two of its lock sections, or a manifest reader. -/
inductive Task where
  /-- `create_job` before it queues the new job -/
  | createPush (jobId : JobId)
  /-- `delete_job` after it cancelled the job -/
  | deleteFinalize (jobId : JobId) (wasPending : Bool) (workers : List WorkerId)
  | deleteDequeue (jobId : JobId) (workers : List WorkerId)
  | deleteRelease (jobId : JobId) (workers : List WorkerId)
  /-- `report_ready` after a preparation error failed the job -/
  | readyRelease (req : ReportReadyRequest) (workers : List WorkerId)
  | readyFinalize (req : ReportReadyRequest)
  /-- `report_result` after its locked part, with the answer it will give -/
  | resultFinalize (req : ReportResultRequest) (workerId : WorkerId)
  | resultRelease (req : ReportResultRequest) (workerId : WorkerId) (unknownJob : Bool)
  /-- `tick_once` of the staleness watcher, which read its clock before locking -/
  | tickScan (now : Instant)
  | tickRelease (toClean : List (JobId × List WorkerId))
  | tickFinalize (jobIds : List JobId)
  /-- `tick_once` of the GC -/
  | gcScan (cutoffMs : Int)
  | gcRemove (toRemove : List JobId)
  /-- a manifest reader and its scanners -/
  | manifestReader (jobId : JobId)
  | manifestRelease (jobId : JobId) (workers : List WorkerId)
  | manifestFinalize (jobId : JobId)
  /-- `fetch_file_batch` after it looked up the queue -/
  | batchDrain (req : FetchFileBatchRequest) (cell : JobId) (batchSize : Nat)
  | batchAddPermits (req : FetchFileBatchRequest) (cell : JobId) (files : List FileEntry)
  | batchLoadDone (req : FetchFileBatchRequest) (cell : JobId)
  | batchIsEmpty (req : FetchFileBatchRequest) (cell : JobId)

/-- What one section leaves: the state, the answer if the handler is through, and
the tasks that carry on. -/
structure Outcome where
  state : MasterState
  reply : Option Reply
  spawn : List Task

def Outcome.answer (m : MasterState) (reply : Reply) : Outcome := ⟨m, some reply, []⟩

def Outcome.continue (m : MasterState) (task : Task) : Outcome := ⟨m, none, [task]⟩

def Outcome.finish (m : MasterState) : Outcome := ⟨m, none, []⟩

/-- `require_valid_worker_id`, then the handler. -/
def requireValidWorkerId (workerId : WorkerId) (m : MasterState) (refuse : Status → Reply)
    (handler : Outcome) : Outcome :=
  match Spec.validateWorkerId workerId with
  | .error e => .answer m (refuse (.workerId e))
  | .ok () => handler

end CvdBench.Master
