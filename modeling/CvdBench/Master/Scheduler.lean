import CvdBench.Master.Task

/-!
The scheduling entry points (`scheduler/fetch_job.rs`, `ready.rs`, `staleness.rs`).
Every definition is one section: what a handler does while it holds its locks.
-/

set_option autoImplicit false

namespace CvdBench.Master

open Foundation Proto

variable {H : Type} (env : MasterEnv H) (amb : Ambient)

def i32TryFrom (n : Nat) : Option Int := if n ≤ 2^31 - 1 then some n else none

def fetchJobResponse (id : JobId) (r : JobRecord) (assignment : WorkerAssignment)
    (nowMs : Int) : FetchJobResponse :=
  { jobId := some id, spec := some r.specRedacted, mountPoint := some r.mountPoint
    workerIndex := some ((i32TryFrom assignment.workerIndex).getD 0)
    s3Credentials := r.credentials, masterNowMs := nowMs }

def emptyFetchResponse (nowMs : Int) : FetchJobResponse :=
  { jobId := none, spec := none, mountPoint := none, workerIndex := none
    s3Credentials := none, masterNowMs := nowMs }

/-- The idempotent replay: the active job of the worker, if it is still there, not
terminal, and has the worker among its assignments. -/
def replay (m : MasterState) (workerId : WorkerId) :
    Option (JobId × JobRecord × WorkerAssignment) := do
  let id ← m.workerActiveJobs.get? workerId
  let r ← m.jobs.get? id
  if r.isTerminal then none
  else do
    let assignment ← r.workerAssignments.get? workerId
    return (id, r, assignment)

/-- The loop over the queue: skips ids that are gone or not pending, and gives a slot
of the first pending job. Returns the jobs and the queue it leaves. -/
def assignFront (workerId : WorkerId) (now : Instant) (jobs : HashMap JobId JobRecord) :
    List JobId →
      HashMap JobId JobRecord × List JobId × Option (JobId × JobRecord × WorkerAssignment)
  | [] => (jobs, [], none)
  | top :: rest => match jobs.get? top with
    | none => assignFront workerId now jobs rest
    | some r =>
        if r.status ≠ .pending then assignFront workerId now jobs rest
        else match r.tryAssign workerId now with
          | some (r, assignment) => (jobs.put top r, top :: rest, some (top, r, assignment))
          -- a full job that is still pending: the source calls this impossible
          | none => assignFront workerId now (jobs.put top (r.enterPreparing now)) rest

/-- The last slot is taken: enters PREPARING, starts the manifest reader, emits and
leaves the queue. -/
def fillJob (m : MasterState) (id : JobId) (r : JobRecord) (reply : Reply) : Outcome :=
  let (m, r, started) := startForFileQueueJob env.config m (r.enterPreparing (amb.instant 1))
  let m := (m.emitForJob (amb.order id) (amb.nowMs 1) r .statusChange).setJob id r
  { state := { m with pendingQueue := popIfFront m.pendingQueue id }
    reply := some reply
    spawn := if started then [.manifestReader id] else [] }

def fetchJobSection (m : MasterState) (workerId : WorkerId) : Outcome :=
  match replay m workerId with
  | some (id, r, assignment) =>
      let r := r.touch workerId (amb.instant 0)
      .answer (m.setJob id r)
        (.fetchJob workerId (.ok (fetchJobResponse id r assignment (amb.nowMs 0))))
  | none =>
      let active := m.workerActiveJobs.remove workerId
      match assignFront workerId (amb.instant 0) m.jobs m.pendingQueue with
      | (jobs, queue, none) =>
          .answer { m with jobs, pendingQueue := queue, workerActiveJobs := active }
            (.fetchJob workerId (.ok (emptyFetchResponse (amb.nowMs 0))))
      | (jobs, queue, some (id, r, assignment)) =>
          let m := { m with jobs, pendingQueue := queue
                            workerActiveJobs := active.put workerId id }
          let reply :=
            .fetchJob workerId (.ok (fetchJobResponse id r assignment (amb.nowMs 0)))
          if r.slotsRemaining = 0 then fillJob env amb m id r reply else .answer m reply

def fetchJob (m : MasterState) (workerId : WorkerId) : Outcome :=
  requireValidWorkerId workerId m (fun e => .fetchJob workerId (.error e))
    (fetchJobSection env amb m workerId)

def readyResponse (cancelled unknownJob : Bool) (startAtMs nowMs : Int) :
    ReportReadyResponse := ⟨cancelled, unknownJob, startAtMs, nowMs⟩

def readyUnknown (nowMs : Int) : ReportReadyResponse := readyResponse false true 0 nowMs

def i64TryFrom (n : Nat) : Option Int := if (n : Int) ≤ i64Max then some n else none

/-- `start_delay` in milliseconds, or 5000 when it does not fit. -/
def startDelayMs (config : MasterConfig) : Int :=
  (i64TryFrom (Spec.Duration.asMillis config.scheduler.startDelay)).getD 5000

def barrierOpens (r : JobRecord) : Bool :=
  r.status == .preparing && r.startAtMs == 0 && decide (r.runWorkers ≠ ∅) &&
    r.readyWorkers.card == r.runWorkers.card

def readyFail (m : MasterState) (req : ReportReadyRequest) (r : JobRecord) (reason : String) :
    Outcome :=
  let workerId := req.workerId
  let r := { r with status := .failed
                    error := some s!"worker {workerId} reported ready failure: {reason}" }
  let workers := (amb.order req.jobId).keys r.workerAssignments
  .continue (m.settle env.hdr amb 0 req.jobId r) (.readyRelease req workers)

/-- An error-free report: counted while the job is PENDING or PREPARING, and the one
that completes the barrier starts the job. -/
def readyAdvance (m : MasterState) (req : ReportReadyRequest) (r : JobRecord) : Outcome :=
  let answer := fun (r : JobRecord) =>
    Reply.reportReady req (.ok (readyResponse false false r.startAtMs (amb.nowMs 1)))
  if r.status = .preparing ∨ r.status = .pending then
    let r := { r with readyWorkers := insert req.workerId r.readyWorkers }
    if barrierOpens r then
      let r := { r with startAtMs := wrapI64 (amb.nowMs 0 + startDelayMs env.config)
                        status := .running }
      .answer ((m.emitForJob (amb.order req.jobId) (amb.nowMs 2) r .statusChange).setJob
        req.jobId r) (answer r)
    else .answer (m.setJob req.jobId r) (answer r)
  else .answer (m.setJob req.jobId r) (answer r)

def reportReadySection (m : MasterState) (req : ReportReadyRequest) : Outcome :=
  let answer := fun res => Outcome.answer m (.reportReady req (.ok res))
  match m.jobs.get? req.jobId with
  | none => answer (readyUnknown (amb.nowMs 0))
  | some r =>
      if r.status = .cancelled then answer (readyResponse true false 0 (amb.nowMs 0))
      else if r.isTerminal then answer (readyUnknown (amb.nowMs 0))
      else if ¬ r.workerAssignments.containsKey req.workerId then
        answer (readyUnknown (amb.nowMs 0))
      else
        let r := r.touch req.workerId (amb.instant 0)
        match req.error with
        | some reason =>
            if r.status ≠ .preparing then
              .answer (m.setJob req.jobId r)
                (.reportReady req (.ok (readyUnknown (amb.nowMs 0))))
            else readyFail env amb m req r reason
        | none => readyAdvance env amb m req r

def reportReady (m : MasterState) (req : ReportReadyRequest) : Outcome :=
  requireValidWorkerId req.workerId m (fun e => .reportReady req (.error e))
    (reportReadySection env amb m req)

def readyReleaseSection (m : MasterState) (req : ReportReadyRequest)
    (workers : List WorkerId) : Outcome :=
  .continue (m.releaseWorkers req.jobId workers) (.readyFinalize req)

def readyFinalizeSection (m : MasterState) (req : ReportReadyRequest) : Outcome :=
  .answer (m.finalizeStream req.jobId)
    (.reportReady req (.ok (readyResponse false false 0 (amb.nowMs 0))))

/-- How long the worker has been silent: since it was last seen, or else since the job
entered PREPARING, or else not at all. -/
def silence (r : JobRecord) (now : Instant) (w : WorkerId) : Duration :=
  now - ((r.workerLastSeen.get? w).or r.preparingSince).getD now

def findStaleWorker (order : HashOrder String) (r : JobRecord) (now : Instant)
    (threshold : Duration) : Option (WorkerId × Duration) :=
  ((order.iter r.runWorkers).find? fun w => decide (silence r now w > threshold)).map
    fun w => (w, silence r now w)

def prepareOverdue (config : SchedulerConfig) (r : JobRecord) (now : Instant) : Bool :=
  r.status == .preparing &&
    r.preparingSince.any fun t => decide (now - t > config.prepareTimeout)

def tickReason (config : SchedulerConfig) (order : HashOrder String) (r : JobRecord)
    (now : Instant) : Option String :=
  match findStaleWorker order r now config.workerStaleness with
  | some (w, age) =>
      let ageMs := Spec.Duration.asMillis age
      let stalenessMs := Spec.Duration.asMillis config.workerStaleness
      some s!"worker {w} stale ({ageMs} ms > worker_staleness {stalenessMs} ms)"
  | none =>
      if prepareOverdue config r now then
        let timeoutMs := Spec.Duration.asMillis config.prepareTimeout
        some s!"PREPARING exceeded prepare_timeout ({timeoutMs} ms) without all ReportReady"
      else none

def tickRecord (now : Instant) (k : Nat) (m : MasterState) (id : JobId) :
    MasterState × List (JobId × List WorkerId) :=
  match m.jobs.get? id with
  | none => (m, [])
  | some r =>
      if r.status ≠ .preparing ∧ r.status ≠ .running then (m, [])
      else match tickReason env.config.scheduler (amb.order id) r now with
        | none => (m, [])
        | some reason =>
            let r := { r with status := .failed, error := some reason }
            let workers := (amb.order id).keys r.workerAssignments
            (m.settle env.hdr amb k id r, [(id, workers)])

def tickLoop (now : Instant) :
    Nat → MasterState → List JobId → MasterState × List (JobId × List WorkerId)
  | _, m, [] => (m, [])
  | k, m, id :: ids =>
      let (m, toClean) := tickRecord env amb now k m id
      let (m, toClean') := tickLoop now (k + 2) m ids
      (m, toClean ++ toClean')

def tickScanSection (m : MasterState) (now : Instant) : Outcome :=
  match tickLoop env amb now 0 m ((amb.order "").keys m.jobs) with
  | (m, []) => .finish m
  | (m, toClean) => .continue m (.tickRelease toClean)

def releaseAll (m : MasterState) : List (JobId × List WorkerId) → MasterState
  | [] => m
  | (id, workers) :: rest => releaseAll (m.releaseWorkers id workers) rest

def tickReleaseSection (m : MasterState) (toClean : List (JobId × List WorkerId)) : Outcome :=
  .continue (releaseAll m toClean) (.tickFinalize (toClean.map (·.1)))

def tickFinalizeSection (m : MasterState) : List JobId → Outcome
  | [] => .finish m
  | [id] => .finish (m.finalizeStream id)
  | id :: ids => .continue (m.finalizeStream id) (.tickFinalize ids)

end CvdBench.Master
