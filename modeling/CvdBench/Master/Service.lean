import CvdBench.Master.Scheduler

/-!
The remaining entry points: `service/worker_rpc.rs`, `service/cli_rpc.rs`, the garbage
collection (`gc.rs`) and the failure of a manifest reader (`manifest.rs`).
-/

set_option autoImplicit false

namespace CvdBench.Master

open Foundation Proto

variable {H : Type} (env : MasterEnv H) (amb : Ambient)

def clampBatch (batchSize : Int) : Nat :=
  if batchSize ≤ 0 then 1000 else if batchSize > 10000 then 10000 else batchSize.toNat

def unknownBatch : FetchFileBatchResponse := ⟨[], false, false, true⟩

def fetchFileBatchSection (m : MasterState) (req : FetchFileBatchRequest) : Outcome :=
  let answer := fun m res => Outcome.answer m (.fetchFileBatch req (.ok res))
  match m.jobs.get? req.jobId with
  | none => answer m unknownBatch
  | some r =>
      if req.workerId ∉ r.runWorkers then answer m unknownBatch
      else match r.status with
        | .cancelled =>
            answer (m.setJob req.jobId (r.touch req.workerId (amb.instant 0)))
              ⟨[], false, true, false⟩
        | .running => match r.fileQueue with
          | none => answer m unknownBatch
          | some cell =>
              .continue (m.setJob req.jobId (r.touch req.workerId (amb.instant 0)))
                (.batchDrain req cell (clampBatch req.batchSize))
        | _ => answer m unknownBatch

def fetchFileBatch (m : MasterState) (req : FetchFileBatchRequest) : Outcome :=
  requireValidWorkerId req.workerId m (fun e => .fetchFileBatch req (.error e))
    (fetchFileBatchSection amb m req)

def batchDrainSection (m : MasterState) (req : FetchFileBatchRequest) (cell : JobId)
    (batchSize : Nat) : Outcome :=
  let c := m.cells cell
  let (files, queue) := c.queue.drainUpTo batchSize
  let m := m.setCell cell { c with queue }
  match files with
  | [] => .continue m (.batchLoadDone req cell)
  | files => .continue m (.batchAddPermits req cell files)

def batchAddPermitsSection (m : MasterState) (req : FetchFileBatchRequest) (cell : JobId)
    (files : List FileEntry) : Outcome :=
  let c := m.cells cell
  .answer (m.setCell cell { c with queue := c.queue.addPermits files.length })
    (.fetchFileBatch req (.ok ⟨files, true, false, false⟩))

def batchLoadDoneSection (m : MasterState) (req : FetchFileBatchRequest) (cell : JobId) :
    Outcome :=
  if (m.cells cell).manifestDone then .continue m (.batchIsEmpty req cell)
  else .answer m (.fetchFileBatch req (.ok ⟨[], true, false, false⟩))

def batchIsEmptySection (m : MasterState) (req : FetchFileBatchRequest) (cell : JobId) :
    Outcome :=
  let hasMore := !(m.cells cell).queue.inner.isEmpty
  .answer m (.fetchFileBatch req (.ok ⟨[], hasMore, false, false⟩))

def phaseAllowsPerOp (phase : Int) : Bool :=
  match (WorkerPhase.ofNumber phase).getD .unspecified with
  | .warmup | .measuring => true
  | _ => false

/-- `per_op` is dropped in a phase that must not carry one. -/
def admitProgress (progress : WorkerProgress) : WorkerProgress :=
  if phaseAllowsPerOp progress.phase then progress else { progress with perOp := ∅ }

def reportProgressSection (m : MasterState) (req : ReportProgressRequest)
    (progress : WorkerProgress) : Outcome :=
  let answer := fun m cancelled unknownJob =>
    Outcome.answer m (.reportProgress req (.ok ⟨cancelled, unknownJob⟩))
  let workerId := progress.workerId
  match m.jobs.get? req.jobId with
  | none => answer m false true
  | some r =>
      if r.status = .cancelled then
        answer (m.setJob req.jobId (r.touch workerId (amb.instant 0))) true false
      else if r.isTerminal then answer m false true
      else if ¬ r.workerAssignments.containsKey workerId then answer m false true
      else
        let r := r.touch workerId (amb.instant 0)
        let r := { r with
          latestProgress := r.latestProgress.put workerId (admitProgress progress) }
        answer ((m.emitForJob (amb.order req.jobId) (amb.nowMs 0) r .progress).setJob
          req.jobId r) false false

def reportProgress (m : MasterState) (req : ReportProgressRequest) : Outcome :=
  match req.progress with
  | none => .answer m (.reportProgress req (.error (.required "progress")))
  | some progress =>
      requireValidWorkerId progress.workerId m (fun e => .reportProgress req (.error e))
        (reportProgressSection amb m req progress)

def finalProgress (result : WorkerResult) : WorkerProgress :=
  let phase := if result.success then WorkerPhase.finished else WorkerPhase.unspecified
  { workerId := result.workerId, elapsedMs := result.effectiveDurationMs
    perOp := result.perOp, phase := phase.number }

/-- The locked part of a first result of a run worker while the job is RUNNING. -/
def recordResult (m : MasterState) (req : ReportResultRequest) (result : WorkerResult)
    (r : JobRecord) : Outcome :=
  let workerId := result.workerId
  let r := { r with
    latestProgress := r.latestProgress.put workerId (finalProgress result)
    workerResults := r.workerResults.put workerId result }
  if ¬ result.success then
    let r := { r with
      status := .failed
      error := result.error.or (some s!"worker {workerId} reported failure") }
    .continue (m.settle env.hdr amb 0 req.jobId r) (.resultFinalize req workerId)
  else if r.workerResults.len = r.runWorkers.card then
    let r := { r with status := .completed }
    .continue (m.settle env.hdr amb 0 req.jobId r) (.resultFinalize req workerId)
  else .continue (m.setJob req.jobId r) (.resultRelease req workerId false)

def reportResultSection (m : MasterState) (req : ReportResultRequest)
    (result : WorkerResult) : Outcome :=
  let workerId := result.workerId
  match m.jobs.get? req.jobId with
  | none => .continue m (.resultRelease req workerId true)
  | some r =>
      if workerId ∉ r.runWorkers then .continue m (.resultRelease req workerId true)
      else if r.status ≠ .running ∧ r.status ≠ .cancelled then
        .continue m (.resultRelease req workerId true)
      else
        let r := r.touch workerId (amb.instant 0)
        if r.workerResults.containsKey workerId then
          .continue (m.setJob req.jobId r) (.resultRelease req workerId false)
        else if r.status = .cancelled then
          -- a cancelled job keeps the progress entry but takes no further result
          let r := { r with
            latestProgress := r.latestProgress.put workerId (finalProgress result) }
          .continue (m.setJob req.jobId r) (.resultRelease req workerId false)
        else recordResult env amb m req result r

def reportResult (m : MasterState) (req : ReportResultRequest) : Outcome :=
  match req.result with
  | none => .answer m (.reportResult req (.error (.required "result")))
  | some result =>
      requireValidWorkerId result.workerId m (fun e => .reportResult req (.error e))
        (reportResultSection env amb m req result)

def resultFinalizeSection (m : MasterState) (req : ReportResultRequest)
    (workerId : WorkerId) : Outcome :=
  .continue (m.finalizeStream req.jobId) (.resultRelease req workerId false)

def resultReleaseSection (m : MasterState) (req : ReportResultRequest)
    (workerId : WorkerId) (unknownJob : Bool) : Outcome :=
  .answer (m.releaseWorkers req.jobId [workerId]) (.reportResult req (.ok ⟨unknownJob⟩))

def ensureReadableManifest (kind path : String) : Except Status Unit :=
  if ¬ amb.isFile path then .error (.manifestMissing kind path)
  else match amb.openError path with
    | some e => .error (.manifestUnreadable kind path e)
    | none => .ok ()

def ensureReadSource : Spec.ReadSource → Except Status Unit
  | .fileManifest path => ensureReadableManifest amb "file_manifest" path
  | .dirManifest path => ensureReadableManifest amb "dir_manifest" path

/-- Everything `create_job` does before it takes a lock: the record to insert. -/
def prepareJob (spec : Option BenchSpec) (id : JobId) : Except Status JobRecord := do
  let some protoSpec := spec | .error (.required "CreateJobRequest.spec")
  let business ← (Spec.BenchSpec.tryFromProto protoSpec).mapError .specParse
  (Spec.validate business {}).mapError .specValidate
  let some mountPoint := env.config.filesystems.get? business.fsName
    | .error (.fsNotRegistered business.fsName)
  match business.read with
  | some read => ensureReadSource amb read.source
  | none => .ok ()
  match business.metadata.bind (·.dirManifest) with
  | some path => ensureReadableManifest amb "metadata.dir_manifest" path
  | none => .ok ()
  let credentials := Spec.extractCredentials protoSpec
  let stored := Spec.redactInPlace protoSpec
  let stored :=
    if stored.targetWorkers ≤ 0 then { stored with targetWorkers := 1 } else stored
  return .new id stored credentials mountPoint business.targetWorkers (amb.nowMs 0)

def createJob (m : MasterState) (spec : Option BenchSpec) (id : JobId) : Outcome :=
  match prepareJob env amb spec id with
  | .error e => .answer m (.createJob (.error e))
  | .ok r =>
      let m := (m.setJob id r).setCell id .fresh
      .continue (m.emitForJob (amb.order id) (amb.nowMs 1) r .statusChange) (.createPush id)

def createPushSection (m : MasterState) (id : JobId) : Outcome :=
  .answer { m with pendingQueue := pushBack m.pendingQueue id } (.createJob (.ok ⟨id⟩))

def deleteJob (m : MasterState) (id : JobId) : Outcome :=
  match m.jobs.get? id with
  | none => .answer m (.deleteJob id (.error (.jobNotFound id)))
  | some r =>
      if r.isTerminal then .answer m (.deleteJob id (.ok ()))
      else
        let wasPending := r.status == .pending
        let workers := (amb.order id).keys r.workerAssignments
        .continue (m.settle env.hdr amb 0 id { r with status := .cancelled })
          (.deleteFinalize id wasPending workers)

/-- The end of `delete_job`: the active map is locked only if there is a worker. -/
def deleteRest (m : MasterState) (id : JobId) (workers : List WorkerId) : Outcome :=
  match workers with
  | [] => .answer m (.deleteJob id (.ok ()))
  | workers => .continue m (.deleteRelease id workers)

def deleteFinalizeSection (m : MasterState) (id : JobId) (wasPending : Bool)
    (workers : List WorkerId) : Outcome :=
  let m := m.finalizeStream id
  if wasPending then .continue m (.deleteDequeue id workers) else deleteRest m id workers

def deleteDequeueSection (m : MasterState) (id : JobId) (workers : List WorkerId) : Outcome :=
  deleteRest { m with pendingQueue := removePending m.pendingQueue id } id workers

def deleteReleaseSection (m : MasterState) (id : JobId) (workers : List WorkerId) : Outcome :=
  .answer (m.releaseWorkers id workers) (.deleteJob id (.ok ()))

def watchJob (m : MasterState) (id : JobId) : Outcome :=
  match m.jobs.get? id with
  | none => .answer m (.watchJob id (.error (.jobNotFound id)))
  | some r =>
      let snapshot := m.buildEvent (amb.order id) (amb.nowMs 0) r .statusChange
      let m := m.nextEventSeq
      -- the stream of a terminal job is a channel of its own, unknown to the registry
      let m :=
        if r.isTerminal then m
        else { m with subscribers := m.subscribers ++ [.subscribeWithSnapshot id snapshot] }
      .answer m (.watchJob id (.ok snapshot))

def queryJob (m : MasterState) (id : JobId) : Outcome :=
  match m.jobs.get? id with
  | none => .answer m (.queryJob id (.error (.jobNotFound id)))
  | some r =>
      let stats := (m.cells r.jobId).scanStats
      .answer m (.queryJob id (.ok
        { job := some r.toPbJob
          workerResults := (amb.order id).values r.workerResults
          aggregated := r.aggregated, error := r.error
          runWorkers := (i32TryFrom r.runWorkerCount).getD (2^31 - 1)
          dirsScanned := stats.dirsScanned, filesScanned := stats.filesScanned
          scanDurationMs := stats.scanDurationMs }))

def clampLimit (limit : Int) : Nat :=
  if limit ≤ 0 then 100 else if limit > 1000 then 1000 else limit.toNat

def listJobs (m : MasterState) (req : ListJobsRequest) : Outcome :=
  let items := ((amb.order "").values m.jobs).filter fun r =>
    req.statusFilter.all (· == r.status.number)
  let jobs := (items.map (·.toPbJob)).mergeSort fun a b => decide (b.createdAt ≤ a.createdAt)
  .answer m (.listJobs req (jobs.take (clampLimit req.limit)))

def retentionMs (config : MasterConfig) : Int :=
  (i64TryFrom (Spec.Duration.asMillis config.scheduler.jobRetention)).getD i64Max

/-- The start of a GC tick: the clock is read before the lock is taken. -/
def gcTick (m : MasterState) : Outcome :=
  .continue m (.gcScan (saturatingI64 (amb.nowMs 0 - retentionMs env.config)))

def gcExpired (cutoffMs : Int) (r : JobRecord) : Bool :=
  r.isTerminal && decide (r.terminalAtMs.getD r.createdAtMs ≤ cutoffMs)

def gcScanSection (m : MasterState) (cutoffMs : Int) : Outcome :=
  let toRemove := ((amb.order "").keys m.jobs).filter fun id =>
    (m.jobs.get? id).any (gcExpired cutoffMs)
  match toRemove with
  | [] => .finish m
  | toRemove => .continue m (.gcRemove toRemove)

def gcRemoveSection (m : MasterState) (toRemove : List JobId) : Outcome :=
  .finish { m with jobs := m.jobs.removeAll toRemove }

/-- What a reader or one of its scanners does to the cell it shares with the master. -/
inductive ReaderAct where
  | acquire
  | pushBack (entry : FileEntry)
  | setDone (done : Bool)
  | setCancel
  | addStats (dirs files elapsedMs : Int)
  deriving DecidableEq, Repr

def ReaderAct.apply (c : ManifestCell) : ReaderAct → Option ManifestCell
  | .acquire => c.queue.acquire.map fun queue => { c with queue }
  | .pushBack entry => (c.queue.pushBack entry).map fun queue => { c with queue }
  | .setDone done => some { c with manifestDone := done }
  | .setCancel => some { c with cancelFlag := true }
  | .addStats dirs files elapsedMs =>
      let stats := c.scanStats
      some { c with scanStats :=
        { dirsScanned := wrapI64 (stats.dirsScanned + dirs)
          filesScanned := wrapI64 (stats.filesScanned + files)
          scanDurationMs := wrapI64 (stats.scanDurationMs + elapsedMs) } }

def failJobDueToManifest (m : MasterState) (id : JobId) (reason : String) : Outcome :=
  match m.jobs.get? id with
  | none => .finish m
  | some r =>
      if r.isTerminal then .finish m
      else
        let r := { r with status := .failed, error := some s!"manifest reader: {reason}" }
        let workers := (amb.order id).keys r.workerAssignments
        .continue (m.settle env.hdr amb 0 id r) (.manifestRelease id workers)

def manifestReleaseSection (m : MasterState) (id : JobId) (workers : List WorkerId) : Outcome :=
  .continue (m.releaseWorkers id workers) (.manifestFinalize id)

def manifestFinalizeSection (m : MasterState) (id : JobId) : Outcome :=
  .finish (m.finalizeStream id)

end CvdBench.Master
