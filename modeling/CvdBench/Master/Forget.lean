import CvdBench.Master.Announce
import CvdBench.Spec.Redact

/-!
The master without its credentials. `forget` clears the credentials of every record, and
every section does the same before and after: none reads them but to hand them out in
`FetchJob`, where the answer forgets them too.
-/

set_option autoImplicit false

namespace CvdBench.Master

open Foundation Proto

def JobRecord.forget (r : JobRecord) : JobRecord := { r with credentials := none }

def MasterState.forget (m : MasterState) : MasterState :=
  { m with jobs := m.jobs.map JobRecord.forget }

/-- The answer without `s3_credentials`, which only a job of FetchJob has. -/
def Reply.forget : Reply → Reply
  | .fetchJob w (.ok resp) => .fetchJob w (.ok { resp with s3Credentials := none })
  | reply => reply

def Outcome.forget (o : Outcome) : Outcome :=
  ⟨o.state.forget, o.reply.map Reply.forget, o.spawn⟩

def Sys.forget (s : Sys) : Sys := { s with master := s.master.forget }

namespace JobRecord

variable (r : JobRecord)

@[simp] theorem forget_status : r.forget.status = r.status := rfl

@[simp] theorem forget_isTerminal : r.forget.isTerminal = r.isTerminal := rfl

@[simp] theorem forget_slotsRemaining : r.forget.slotsRemaining = r.slotsRemaining := rfl

@[simp] theorem forget_specRedacted : r.forget.specRedacted = r.specRedacted := rfl

@[simp] theorem forget_workerAssignments : r.forget.workerAssignments = r.workerAssignments := rfl

@[simp] theorem forget_workerResults : r.forget.workerResults = r.workerResults := rfl

@[simp] theorem forget_runWorkers : r.forget.runWorkers = r.runWorkers := rfl

@[simp] theorem forget_fileQueue : r.forget.fileQueue = r.fileQueue := rfl

theorem forget_touch (w : WorkerId) (now : Instant) :
    r.forget.touch w now = (r.touch w now).forget := rfl

end JobRecord

section

variable {H : Type} (m : MasterState) (id : JobId) (r : JobRecord)

@[simp] theorem forget_jobs : m.forget.jobs = m.jobs.map JobRecord.forget := rfl

@[simp] theorem forget_cells : m.forget.cells = m.cells := rfl

theorem forget_setJob : m.forget.setJob id r.forget = (m.setJob id r).forget := by
  simp [MasterState.forget, MasterState.setJob, HashMap.map_put]

theorem forget_emitForJob (order : HashOrder String) (nowMs : Int) (kind : EventKind) :
    m.forget.emitForJob order nowMs r.forget kind = (m.emitForJob order nowMs r kind).forget :=
  rfl

theorem forget_emitSet (order : HashOrder String) (nowMs : Int) (kind : EventKind) :
    (m.forget.emitForJob order nowMs r.forget kind).setJob id r.forget =
      ((m.emitForJob order nowMs r kind).setJob id r).forget := by
  rw [forget_emitForJob, forget_setJob]

theorem forget_settle (lib : Metrics.HdrLib H) (amb : Ambient) (k : Nat) :
    m.forget.settle lib amb k id r.forget = (m.settle lib amb k id r).forget :=
  forget_emitSet (m.cleanupCell (r.aggregateIntoRecord lib (amb.order id) (amb.nowMs k))) id
    { r.aggregateIntoRecord lib (amb.order id) (amb.nowMs k) with manifestHandle := none } _ _ _

theorem forget_releaseAll (toClean : List (JobId × List WorkerId)) :
    releaseAll m.forget toClean = (releaseAll m toClean).forget := by
  induction toClean generalizing m with
  | nil => rfl
  | cons p rest ih => exact ih (m.releaseWorkers p.1 p.2)

end

theorem forget_requireValid {w : WorkerId} {m : MasterState} {refuse : Status → Reply}
    {handler handler' : Outcome} (hrefuse : ∀ e, (refuse e).forget = refuse e)
    (h : handler' = handler.forget) :
    requireValidWorkerId w m.forget refuse handler' =
      (requireValidWorkerId w m refuse handler).forget := by
  unfold requireValidWorkerId
  split
  · simp [Outcome.forget, Outcome.answer, hrefuse]
  · exact h

section

variable {H : Type} (env : MasterEnv H) (amb : Ambient) (m : MasterState)

theorem forget_replay (w : WorkerId) : replay m.forget w =
    (replay m w).map fun found => (found.1, found.2.1.forget, found.2.2) := by
  unfold replay
  show (m.workerActiveJobs.get? w).bind _ = _
  cases hw : m.workerActiveJobs.get? w with
  | none => rfl
  | some id =>
    simp only [Option.bind_some, forget_jobs, HashMap.get?_map, Option.bind_eq_bind]
    cases hr : m.jobs.get? id with
    | none => rfl
    | some r =>
      simp only [Option.map_some, Option.bind_some]
      rw [JobRecord.forget_isTerminal]
      split
      · rfl
      · show (r.workerAssignments.get? w).bind _ = _
        cases r.workerAssignments.get? w with
        | none => rfl
        | some a => rfl

theorem forget_tryAssign (r : JobRecord) (w : WorkerId) (now : Instant) :
    r.forget.tryAssign w now = (r.tryAssign w now).map fun found => (found.1.forget, found.2) := by
  unfold JobRecord.tryAssign
  rw [JobRecord.forget_slotsRemaining]
  split
  · rfl
  · rfl

theorem forget_enterPreparing (r : JobRecord) (now : Instant) :
    r.forget.enterPreparing now = (r.enterPreparing now).forget := by
  unfold JobRecord.enterPreparing
  rw [JobRecord.forget_status]
  split
  · rfl
  · rfl

theorem forget_assignFront (w : WorkerId) (now : Instant) (jobs : HashMap JobId JobRecord)
    (queue : List JobId) :
    assignFront w now (jobs.map JobRecord.forget) queue =
      ((assignFront w now jobs queue).1.map JobRecord.forget,
        (assignFront w now jobs queue).2.1,
        (assignFront w now jobs queue).2.2.map fun found =>
          (found.1, found.2.1.forget, found.2.2)) := by
  induction queue generalizing jobs with
  | nil => rfl
  | cons top rest ih =>
    unfold assignFront
    rw [HashMap.get?_map]
    cases hr : jobs.get? top with
    | none => exact ih jobs
    | some r =>
      simp only [Option.map_some]
      rw [JobRecord.forget_status, forget_tryAssign]
      by_cases hpend : r.status ≠ .pending
      · simp only [if_pos hpend]
        exact ih jobs
      · simp only [if_neg hpend]
        cases r.tryAssign w now with
        | none =>
          simp only [Option.map_none]
          rw [forget_enterPreparing, ← HashMap.map_put]
          exact ih _
        | some found => simp [HashMap.map_put]

theorem forget_startForFileQueueJob (config : MasterConfig) (r : JobRecord) :
    startForFileQueueJob config m.forget r.forget =
      ((startForFileQueueJob config m r).1.forget, (startForFileQueueJob config m r).2.1.forget,
        (startForFileQueueJob config m r).2.2) := by
  unfold startForFileQueueJob
  rw [JobRecord.forget_specRedacted]
  cases manifestSource r.specRedacted with
  | none => rfl
  | some _ => rfl

theorem forget_fillJob (id : JobId) (r : JobRecord) (reply : Reply) :
    fillJob env amb m.forget id r.forget reply.forget = (fillJob env amb m id r reply).forget := by
  unfold fillJob
  rw [forget_enterPreparing, forget_startForFileQueueJob]
  generalize startForFileQueueJob env.config m (r.enterPreparing (amb.instant 1)) = started
  obtain ⟨m', r', b⟩ := started
  simp only
  rw [forget_emitSet]
  rfl

theorem forget_fetchJob (w : WorkerId) :
    fetchJob env amb m.forget w = (fetchJob env amb m w).forget := by
  refine forget_requireValid (fun _ => rfl) ?_
  unfold fetchJobSection
  rw [forget_replay]
  cases replay m w with
  | some found =>
    obtain ⟨id, r, a⟩ := found
    simp only [Option.map_some]
    have hset := forget_setJob m id (r.touch w (amb.instant 0))
    exact congrArg (Outcome.answer · _) hset
  | none =>
    simp only [Option.map_none, forget_jobs]
    rw [show m.forget.pendingQueue = m.pendingQueue from rfl, forget_assignFront]
    generalize assignFront w (amb.instant 0) m.jobs m.pendingQueue = res
    obtain ⟨jobs, queue, found⟩ := res
    cases found with
    | none => rfl
    | some found =>
      obtain ⟨id, r, a⟩ := found
      simp only [Option.map_some]
      rw [JobRecord.forget_slotsRemaining]
      by_cases hfull : r.slotsRemaining = 0
      · simp only [if_pos hfull]
        exact forget_fillJob env amb { m with
          jobs
          pendingQueue := queue
          workerActiveJobs := (m.workerActiveJobs.remove w).put w id } id r
          (.fetchJob w (.ok (fetchJobResponse id r a (amb.nowMs 0))))
      · simp only [if_neg hfull]
        rfl

theorem forget_get? (id : JobId) :
    m.forget.jobs.get? id = (m.jobs.get? id).map JobRecord.forget := HashMap.get?_map ..

theorem forget_answerSet (id : JobId) (r : JobRecord) {reply : Reply}
    (hreply : reply.forget = reply) :
    Outcome.answer (m.forget.setJob id r.forget) reply =
      (Outcome.answer (m.setJob id r) reply).forget := by
  rw [forget_setJob]
  simp [Outcome.answer, Outcome.forget, hreply]

theorem forget_answerEmit (order : HashOrder String) (nowMs : Int) (kind : EventKind)
    (id : JobId) (r : JobRecord) {reply : Reply} (hreply : reply.forget = reply) :
    Outcome.answer ((m.forget.emitForJob order nowMs r.forget kind).setJob id r.forget) reply =
      (Outcome.answer ((m.emitForJob order nowMs r kind).setJob id r) reply).forget := by
  rw [forget_emitSet]
  simp [Outcome.answer, Outcome.forget, hreply]

theorem forget_continueSet (id : JobId) (r : JobRecord) (t : Task) :
    Outcome.continue (m.forget.setJob id r.forget) t =
      (Outcome.continue (m.setJob id r) t).forget := by
  rw [forget_setJob]
  rfl

theorem forget_continueSettle (lib : Metrics.HdrLib H) (id : JobId) (r : JobRecord) (t : Task) :
    Outcome.continue (m.forget.settle lib amb 0 id r.forget) t =
      (Outcome.continue (m.settle lib amb 0 id r) t).forget := by
  rw [forget_settle]
  rfl

theorem forget_readyAdvance (req : ReportReadyRequest) (r : JobRecord) :
    readyAdvance env amb m.forget req r.forget = (readyAdvance env amb m req r).forget := by
  unfold readyAdvance
  by_cases hs : r.status = .preparing ∨ r.status = .pending
  · have hs' : r.forget.status = .preparing ∨ r.forget.status = .pending := hs
    simp only [if_pos hs, if_pos hs']
    by_cases hopen : barrierOpens
        { r with readyWorkers := insert req.workerId r.readyWorkers } = true
    · have hopen' : barrierOpens
        { r.forget with readyWorkers := insert req.workerId r.forget.readyWorkers } = true := hopen
      simp only [if_pos hopen, if_pos hopen']
      exact forget_answerEmit m (amb.order req.jobId) (amb.nowMs 2) .statusChange req.jobId
        { r with
          readyWorkers := insert req.workerId r.readyWorkers
          startAtMs := wrapI64 (amb.nowMs 0 + startDelayMs env.config)
          status := .running } rfl
    · have hopen' : ¬ barrierOpens
        { r.forget with readyWorkers := insert req.workerId r.forget.readyWorkers } = true := hopen
      simp only [if_neg hopen, if_neg hopen']
      exact forget_answerSet m req.jobId
        { r with readyWorkers := insert req.workerId r.readyWorkers } rfl
  · have hs' : ¬ (r.forget.status = .preparing ∨ r.forget.status = .pending) := hs
    simp only [if_neg hs, if_neg hs']
    exact forget_answerSet m req.jobId r rfl

theorem forget_reportReady (req : ReportReadyRequest) :
    reportReady env amb m.forget req = (reportReady env amb m req).forget := by
  refine forget_requireValid (fun _ => rfl) ?_
  unfold reportReadySection
  rw [forget_get?]
  cases m.jobs.get? req.jobId with
  | none => rfl
  | some r =>
    simp only [Option.map_some]
    rw [JobRecord.forget_status, JobRecord.forget_isTerminal, JobRecord.forget_workerAssignments,
      JobRecord.forget_touch]
    generalize r.touch req.workerId (amb.instant 0) = r'
    split
    · rfl
    · split
      · rfl
      · split
        · rfl
        · cases req.error with
          | none => exact forget_readyAdvance env amb m req r'
          | some reason =>
            simp only
            rw [JobRecord.forget_status]
            split
            · exact forget_answerSet m _ r' rfl
            · exact forget_continueSettle amb m env.hdr req.jobId
                { r' with
                  status := .failed
                  error := some s!"worker {req.workerId} reported ready failure: {reason}" } _

theorem forget_fetchFileBatch (req : FetchFileBatchRequest) :
    fetchFileBatch amb m.forget req = (fetchFileBatch amb m req).forget := by
  refine forget_requireValid (fun _ => rfl) ?_
  unfold fetchFileBatchSection
  rw [forget_get?]
  cases m.jobs.get? req.jobId with
  | none => rfl
  | some r =>
    simp only [Option.map_some]
    rw [JobRecord.forget_status, JobRecord.forget_fileQueue, JobRecord.forget_runWorkers]
    split
    · rfl
    · cases r.status with
      | cancelled => exact forget_answerSet m _ (r.touch req.workerId (amb.instant 0)) rfl
      | running =>
        cases r.fileQueue with
        | none => rfl
        | some cell => exact forget_continueSet m _ (r.touch req.workerId (amb.instant 0)) _
      | unspecified | pending | preparing | completed | failed => rfl

theorem forget_reportProgress (req : ReportProgressRequest) :
    reportProgress amb m.forget req = (reportProgress amb m req).forget := by
  unfold reportProgress
  cases req.progress with
  | none => rfl
  | some progress =>
    refine forget_requireValid (fun _ => rfl) ?_
    unfold reportProgressSection
    rw [forget_get?]
    cases m.jobs.get? req.jobId with
    | none => rfl
    | some r =>
      simp only [Option.map_some]
      rw [JobRecord.forget_status, JobRecord.forget_isTerminal,
        JobRecord.forget_workerAssignments]
      split
      · exact forget_answerSet m _ (r.touch progress.workerId (amb.instant 0)) rfl
      · split
        · rfl
        · split
          · rfl
          · exact forget_answerEmit m _ _ _ req.jobId
              { r.touch progress.workerId (amb.instant 0) with
                latestProgress :=
                  r.latestProgress.put progress.workerId (admitProgress progress) } rfl

theorem forget_recordResult (req : ReportResultRequest) (result : WorkerResult)
    (r : JobRecord) :
    recordResult env amb m.forget req result r.forget =
      (recordResult env amb m req result r).forget := by
  unfold recordResult
  simp only
  split
  · exact forget_continueSettle amb m env.hdr req.jobId
      { r with
        latestProgress := r.latestProgress.put result.workerId (finalProgress result)
        workerResults := r.workerResults.put result.workerId result
        status := .failed
        error := result.error.or (some s!"worker {result.workerId} reported failure") } _
  · rw [JobRecord.forget_workerResults, JobRecord.forget_runWorkers]
    split
    · exact forget_continueSettle amb m env.hdr req.jobId
        { r with
          latestProgress := r.latestProgress.put result.workerId (finalProgress result)
          workerResults := r.workerResults.put result.workerId result
          status := .completed } _
    · exact forget_continueSet m _
        { r with
          latestProgress := r.latestProgress.put result.workerId (finalProgress result)
          workerResults := r.workerResults.put result.workerId result } _

theorem forget_reportResult (req : ReportResultRequest) :
    reportResult env amb m.forget req = (reportResult env amb m req).forget := by
  unfold reportResult
  cases req.result with
  | none => rfl
  | some result =>
    refine forget_requireValid (fun _ => rfl) ?_
    unfold reportResultSection
    rw [forget_get?]
    cases m.jobs.get? req.jobId with
    | none => rfl
    | some r =>
      simp only [Option.map_some]
      rw [JobRecord.forget_status, JobRecord.forget_runWorkers, JobRecord.forget_touch,
        JobRecord.forget_workerResults, JobRecord.forget_status]
      split
      · rfl
      · split
        · rfl
        · split
          · exact forget_continueSet m _ (r.touch result.workerId (amb.instant 0)) _
          · split
            · exact forget_continueSet m _
                { r.touch result.workerId (amb.instant 0) with
                  latestProgress :=
                    r.latestProgress.put result.workerId (finalProgress result) } _
            · exact forget_recordResult env amb m req result
                (r.touch result.workerId (amb.instant 0))

theorem forget_deleteJob (id : JobId) :
    deleteJob env amb m.forget id = (deleteJob env amb m id).forget := by
  unfold deleteJob
  rw [forget_get?]
  cases m.jobs.get? id with
  | none => rfl
  | some r =>
    simp only [Option.map_some]
    rw [JobRecord.forget_isTerminal]
    split
    · rfl
    · exact forget_continueSettle amb m env.hdr id { r with status := .cancelled } _

theorem forget_watchJob (id : JobId) : watchJob amb m.forget id = (watchJob amb m id).forget := by
  unfold watchJob
  rw [forget_get?]
  cases m.jobs.get? id with
  | none => rfl
  | some r =>
    simp only [Option.map_some]
    rw [JobRecord.forget_isTerminal]
    split
    · rfl
    · rfl

theorem forget_queryJob (id : JobId) : queryJob amb m.forget id = (queryJob amb m id).forget := by
  unfold queryJob
  rw [forget_get?]
  cases m.jobs.get? id with
  | none => rfl
  | some r => rfl

theorem forget_listJobs (req : ListJobsRequest) :
    listJobs amb m.forget req = (listJobs amb m req).forget := by
  have hitems : ∀ items : List JobRecord,
      ((items.map JobRecord.forget).filter
          fun r => req.statusFilter.all (· == r.status.number)).map (·.toPbJob) =
        (items.filter fun r => req.statusFilter.all (· == r.status.number)).map
          (·.toPbJob) := by
    intro items
    rw [List.filter_map, List.map_map]
    rfl
  unfold listJobs
  rw [forget_jobs, HashOrder.values_map]
  simp only [hitems]
  rfl

theorem forget_failJob (id : JobId) (reason : String) :
    failJobDueToManifest env amb m.forget id reason =
      (failJobDueToManifest env amb m id reason).forget := by
  unfold failJobDueToManifest
  rw [forget_get?]
  cases m.jobs.get? id with
  | none => rfl
  | some r =>
    simp only [Option.map_some]
    rw [JobRecord.forget_isTerminal]
    split
    · rfl
    · exact forget_continueSettle amb m env.hdr id
        { r with status := .failed, error := some s!"manifest reader: {reason}" } _

theorem forget_startAction (act : Action) (hnew : ∀ spec id, act ≠ .createJob spec id) :
    startAction env amb m.forget act = (startAction env amb m act).map Outcome.forget := by
  cases act with
  | createJob spec id => exact absurd rfl (hnew spec id)
  | watchJob id => exact congrArg some (forget_watchJob amb m id)
  | queryJob id => exact congrArg some (forget_queryJob amb m id)
  | deleteJob id => exact congrArg some (forget_deleteJob env amb m id)
  | listJobs req => exact congrArg some (forget_listJobs amb m req)
  | fetchJob w => exact congrArg some (forget_fetchJob env amb m w)
  | reportReady req => exact congrArg some (forget_reportReady env amb m req)
  | fetchFileBatch req => exact congrArg some (forget_fetchFileBatch amb m req)
  | reportProgress req => exact congrArg some (forget_reportProgress amb m req)
  | reportResult req => exact congrArg some (forget_reportResult env amb m req)
  | staleTick | gcTick | resume | readerAct | readerFail | readerExit => rfl

theorem forget_tickRecord (now : Instant) (k : Nat) (id : JobId) :
    tickRecord env amb now k m.forget id =
      ((tickRecord env amb now k m id).1.forget, (tickRecord env amb now k m id).2) := by
  unfold tickRecord
  rw [forget_get?]
  cases m.jobs.get? id with
  | none => rfl
  | some r =>
    simp only [Option.map_some]
    have hreason : tickReason env.config.scheduler (amb.order id) r.forget now =
      tickReason env.config.scheduler (amb.order id) r now := rfl
    rw [JobRecord.forget_status, hreason]
    split
    · rfl
    · cases tickReason env.config.scheduler (amb.order id) r now with
      | none => rfl
      | some reason =>
        have hsettle := forget_settle m id { r with status := .failed, error := some reason }
          env.hdr amb k
        exact congrArg (fun m => (m, _)) hsettle

theorem forget_tickLoop (now : Instant) (k : Nat) (ids : List JobId) :
    tickLoop env amb now k m.forget ids =
      ((tickLoop env amb now k m ids).1.forget, (tickLoop env amb now k m ids).2) := by
  induction ids generalizing k m with
  | nil => rfl
  | cons id ids ih => simp only [tickLoop, forget_tickRecord, ih]

theorem forget_tickScan (now : Instant) :
    tickScanSection env amb m.forget now = (tickScanSection env amb m now).forget := by
  unfold tickScanSection
  rw [forget_jobs, HashOrder.keys_map, forget_tickLoop]
  generalize tickLoop env amb now 0 m ((amb.order "").keys m.jobs) = res
  obtain ⟨m', toClean⟩ := res
  cases toClean with
  | nil => rfl
  | cons p rest => rfl

theorem forget_gcScan (cutoffMs : Int) :
    gcScanSection amb m.forget cutoffMs = (gcScanSection amb m cutoffMs).forget := by
  have hexpired : (fun id => (m.forget.jobs.get? id).any (gcExpired cutoffMs)) =
      fun id => (m.jobs.get? id).any (gcExpired cutoffMs) := by
    funext id
    rw [forget_get?]
    cases m.jobs.get? id with
    | none => rfl
    | some r => rfl
  unfold gcScanSection
  rw [hexpired, forget_jobs, HashOrder.keys_map]
  simp only
  split
  · rfl
  · rfl

theorem forget_run (t : Task) :
    t.run env amb m.forget = (t.run env amb m).map Outcome.forget := by
  cases t with
  | deleteFinalize id wasPending workers =>
    cases wasPending with
    | true => rfl
    | false => cases workers <;> rfl
  | deleteDequeue id workers => cases workers <;> rfl
  | tickScan now => exact congrArg some (forget_tickScan env amb m now)
  | tickRelease toClean =>
    exact congrArg (fun m => some (Outcome.continue m _)) (forget_releaseAll m toClean)
  | tickFinalize ids =>
    cases ids with
    | nil => rfl
    | cons id rest => cases rest <;> rfl
  | gcScan cutoffMs => exact congrArg some (forget_gcScan amb m cutoffMs)
  | gcRemove ids =>
    have hjobs : m.forget.jobs.removeAll ids = (m.jobs.removeAll ids).map JobRecord.forget :=
      (HashMap.map_removeAll ..).symm
    exact congrArg (fun jobs => some (Outcome.finish { m with jobs })) hjobs
  | batchDrain req cell batchSize =>
    simp only [Task.run, batchDrainSection, Option.map_some]
    rw [forget_cells]
    generalize (m.cells cell).queue.drainUpTo batchSize = drained
    obtain ⟨files, queue⟩ := drained
    cases files <;> rfl
  | batchLoadDone req cell =>
    simp only [Task.run, batchLoadDoneSection, Option.map_some]
    rw [forget_cells]
    split
    · rfl
    · rfl
  | createPush | deleteRelease | readyRelease | readyFinalize | resultFinalize | resultRelease
  | manifestReader | manifestRelease | manifestFinalize | batchAddPermits | batchIsEmpty => rfl

/-- `prepareJob` on a spec that is redacted already, for a record without credentials. -/
def prepareForgotten (spec : BenchSpec) (id : JobId) : Except Status JobRecord := do
  let business ← (Spec.BenchSpec.tryFromProto spec).mapError .specParse
  (Spec.validate business { allowRedactedConsistencyCredentials := true }).mapError .specValidate
  let some mountPoint := env.config.filesystems.get? business.fsName
    | .error (.fsNotRegistered business.fsName)
  match business.read with
  | some read => ensureReadSource amb read.source
  | none => .ok ()
  match business.metadata.bind (·.dirManifest) with
  | some path => ensureReadableManifest amb "metadata.dir_manifest" path
  | none => .ok ()
  let stored := if spec.targetWorkers ≤ 0 then { spec with targetWorkers := 1 } else spec
  return .new id stored none mountPoint business.targetWorkers (amb.nowMs 0)

theorem forget_prepareJob {spec : BenchSpec} (hkeys : Spec.KeysSet spec) (id : JobId) :
    prepareForgotten env amb (Spec.redactInPlace spec) id =
      (prepareJob env amb (some spec) id).map JobRecord.forget := by
  unfold prepareJob prepareForgotten
  rw [Spec.tryFromProto_redact]
  simp only
  cases hspec : Spec.BenchSpec.tryFromProto spec with
  | error e => rfl
  | ok b =>
    have hvalid := Spec.validate_redact hkeys hspec
    show ((Spec.validate b.redact _).mapError Status.specValidate >>= _) =
      ((Spec.validate b {}).mapError Status.specValidate >>= _).map _
    rw [← hvalid]
    refine Spec.exceptBind_map _ fun _ => ?_
    have hfs : b.redact.fsName = b.fsName := rfl
    have hread : b.redact.read = b.read.map Spec.ReadConfig.redact := rfl
    have hmeta : b.redact.metadata = b.metadata := rfl
    have htarget : b.redact.targetWorkers = b.targetWorkers := rfl
    simp only [hfs, hread, hmeta, htarget]
    cases env.config.filesystems.get? b.fsName with
    | none => rfl
    | some mountPoint =>
      cases b.read with
      | none =>
        refine Spec.exceptBind_map _ fun _ => ?_
        cases b.metadata.bind (·.dirManifest) with
        | none => exact Spec.exceptBind_map _ fun _ => rfl
        | some path => exact Spec.exceptBind_map _ fun _ => rfl
      | some read =>
        refine Spec.exceptBind_map _ fun _ => ?_
        cases b.metadata.bind (·.dirManifest) with
        | none => exact Spec.exceptBind_map _ fun _ => rfl
        | some path => exact Spec.exceptBind_map _ fun _ => rfl

/-- `create_job` once it knows the record to insert. -/
def createPrepared (prepared : Except Status JobRecord) (id : JobId) : Outcome :=
  match prepared with
  | .error e => .answer m (.createJob (.error e))
  | .ok r =>
      let m := (m.setJob id r).setCell id .fresh
      .continue (m.emitForJob (amb.order id) (amb.nowMs 1) r .statusChange) (.createPush id)

theorem createJob_prepared (spec : Option BenchSpec) (id : JobId) :
    createJob env amb m spec id = createPrepared amb m (prepareJob env amb spec id) id := rfl

theorem forget_createPrepared (prepared : Except Status JobRecord) (id : JobId) :
    createPrepared amb m.forget (prepared.map JobRecord.forget) id =
      (createPrepared amb m prepared id).forget := by
  cases prepared with
  | error e => rfl
  | ok r =>
    have hset := forget_setJob m id r
    show Outcome.continue (((m.forget.setJob id r.forget).setCell id .fresh).emitForJob _ _
      r.forget _) _ = _
    rw [hset]
    rfl

theorem forget_createJob (spec : Option BenchSpec) (id : JobId) :
    (createJob env amb m spec id).forget =
      createPrepared amb m.forget ((prepareJob env amb spec id).map JobRecord.forget) id := by
  rw [createJob_prepared, forget_createPrepared]

end

/-- Two specs that differ in their credentials only, with keys that are set in both. -/
structure SpecAlike (spec spec' : BenchSpec) : Prop where
  creds : ∃ creds, spec' = Spec.withCredentials creds spec
  left : Spec.KeysSet spec
  right : Spec.KeysSet spec'

theorem SpecAlike.redacted {spec spec' : BenchSpec} (h : SpecAlike spec spec') :
    Spec.redactInPlace spec = Spec.redactInPlace spec' := by
  obtain ⟨creds, rfl⟩ := h.creds
  rw [Spec.redactInPlace_withCredentials]

inductive ActionAlike : Action → Action → Prop where
  | same (act : Action) : ActionAlike act act
  | createJob {spec spec' : BenchSpec} (id : JobId) : SpecAlike spec spec' →
      ActionAlike (.createJob (some spec) id) (.createJob (some spec') id)

structure ChoiceAlike (c c' : Choice) : Prop where
  act : ActionAlike c.act c'.act
  amb : c.amb = c'.amb

section

variable {H : Type} {env : MasterEnv H}

def forgetResult (p : Sys × Option Reply) : Sys × Option Reply :=
  (p.1.forget, p.2.map Reply.forget)

theorem forget_after (s : Sys) (rest : List Task) (o : Outcome) :
    s.forget.after rest o.forget = forgetResult (s.after rest o) := rfl

variable (env) in
theorem forget_step (s : Sys) (c : Choice) (hnew : ∀ spec id, c.act ≠ .createJob spec id) :
    s.forget.step env c = (s.step env c).map forgetResult := by
  have hinflight : s.forget.inflight = s.inflight := rfl
  have hmaster : s.forget.master = s.master.forget := rfl
  unfold Sys.step
  cases hact : c.act with
  | createJob spec id => exact absurd hact (hnew spec id)
  | resume i =>
    simp only [Sys.resume, hinflight, hmaster]
    cases s.inflight[i]? with
    | none => rfl
    | some t =>
      show (t.run env c.amb s.master.forget).bind _ = ((t.run env c.amb s.master).bind _).map _
      rw [forget_run]
      cases t.run env c.amb s.master with
      | none => rfl
      | some o => rfl
  | readerAct i act =>
    show (s.readerAt i).bind _ = ((s.readerAt i).bind _).map _
    cases s.readerAt i with
    | none => rfl
    | some id =>
      show (act.apply (s.master.cells id)).bind _ =
        ((act.apply (s.master.cells id)).bind _).map _
      cases act.apply (s.master.cells id) with
      | none => rfl
      | some cell => rfl
  | readerFail i reason =>
    show (s.readerAt i).bind _ = ((s.readerAt i).bind _).map _
    cases s.readerAt i with
    | none => rfl
    | some id =>
      have hfail := forget_failJob env c.amb s.master id reason
      exact congrArg (fun o => some (s.forget.after (s.inflight.eraseIdx i) o)) hfail
  | readerExit i =>
    show (s.readerAt i).bind _ = ((s.readerAt i).bind _).map _
    cases s.readerAt i with
    | none => rfl
    | some id => rfl
  | watchJob | queryJob | deleteJob | listJobs | fetchJob | reportReady | fetchFileBatch
  | reportProgress | reportResult | staleTick | gcTick =>
    have hstart := forget_startAction env c.amb s.master c.act hnew
    rw [hact] at hstart
    simp only [hmaster, hinflight, hstart, Option.map_map]
    rfl

/-- Two states that agree up to credentials go on to agree, and answer alike. -/
theorem alike_step {s s' : Sys} {c c' : Choice} (hs : s.forget = s'.forget)
    (hc : ChoiceAlike c c') :
    (s.step env c).map forgetResult = (s'.step env c').map forgetResult := by
  obtain ⟨act, amb⟩ := c
  obtain ⟨act', amb'⟩ := c'
  obtain ⟨hact, hamb⟩ := hc
  simp only at hact hamb
  subst hamb
  have hcreate : ∀ spec spec' id, (prepareJob env amb spec id).map JobRecord.forget =
      (prepareJob env amb spec' id).map JobRecord.forget →
      (s.step env ⟨.createJob spec id, amb⟩).map forgetResult =
        (s'.step env ⟨.createJob spec' id, amb⟩).map forgetResult := by
    intro spec spec' id hprep
    obtain ⟨hmaster, hinflight, hissued⟩ := Sys.mk.inj hs
    have hout : (createJob env amb s.master spec id).forget =
        (createJob env amb s'.master spec' id).forget := by
      rw [forget_createJob, forget_createJob, hmaster, hprep]
    unfold Sys.step
    simp only [← hissued]
    split
    · rfl
    · simp only [Option.map_some, Option.some.injEq, ← forget_after, hout, ← hinflight]
      simp only [Sys.forget, hmaster]
  by_cases hnew : ∀ spec id, act ≠ .createJob spec id
  · cases hact with
    | same =>
      rw [← forget_step env s ⟨act, amb⟩ hnew, ← forget_step env s' ⟨act, amb⟩ hnew, hs]
    | createJob id => exact absurd rfl (hnew _ id)
  · cases hact with
    | same =>
      push Not at hnew
      obtain ⟨spec, id, rfl⟩ := hnew
      exact hcreate spec spec id rfl
    | createJob id hspec =>
      refine hcreate _ _ id ?_
      rw [← forget_prepareJob env amb hspec.left, ← forget_prepareJob env amb hspec.right,
        hspec.redacted]

end

end CvdBench.Master
