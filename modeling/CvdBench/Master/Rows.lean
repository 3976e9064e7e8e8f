import CvdBench.Master.Effects

/-!
The rows of the calls that workers make: every branch of a handler, with the guards that
lead there and the outcome it leaves.
-/

set_option autoImplicit false

namespace CvdBench.Master

open Foundation Proto

theorem replay_eq_some {m : MasterState} {w : WorkerId} {id : JobId} {r : JobRecord}
    {a : WorkerAssignment} : replay m w = some (id, r, a) ↔
      m.workerActiveJobs.get? w = some id ∧ m.jobs.get? id = some r ∧
        r.isTerminal = false ∧ r.workerAssignments.get? w = some a := by
  unfold replay
  simp only [Option.bind_eq_bind, Option.bind_eq_some_iff, Option.pure_def]
  constructor
  · rintro ⟨id', hw, r', hr, h⟩
    split at h
    · cases h
    · next hterm =>
      obtain ⟨a', ha, heq⟩ := Option.bind_eq_some_iff.mp h
      cases heq
      exact ⟨hw, hr, Bool.eq_false_iff.mpr hterm, ha⟩
  · rintro ⟨hw, hr, hterm, ha⟩
    refine ⟨id, hw, r, hr, ?_⟩
    rw [if_neg (by simp [hterm]), ha, Option.bind_some]

theorem assignFront_skip {jobs : HashMap JobId JobRecord} {top : JobId} (w : WorkerId)
    (now : Instant) (rest : List JobId) (h : ¬ PendingAt jobs top) :
    assignFront w now jobs (top :: rest) = assignFront w now jobs rest := by
  cases hj : jobs.get? top with
  | none => simp [assignFront, hj]
  | some r =>
    have hs : r.status ≠ .pending := fun hs => h ⟨r, hj, hs⟩
    simp [assignFront, hj, hs]

theorem assignFront_spec {jobs : HashMap JobId JobRecord} (w : WorkerId) (now : Instant)
    (hco : ∀ id r, jobs.get? id = some r → r.Coherent) (queue : List JobId) :
    (assignFront w now jobs queue = (jobs, [], none) ∧
        ∀ id ∈ queue, ¬ PendingAt jobs id) ∨
      ∃ skipped id rest r, queue = skipped ++ id :: rest ∧
        (∀ id' ∈ skipped, ¬ PendingAt jobs id') ∧ jobs.get? id = some r ∧
        r.status = .pending ∧
        assignFront w now jobs queue =
          (jobs.put id ((r.withSlot w).note (r.workerLastSeen.put w now) r.latestProgress),
            id :: rest,
            some (id, (r.withSlot w).note (r.workerLastSeen.put w now) r.latestProgress,
              ⟨r.slotsFilled⟩)) := by
  induction queue with
  | nil => exact .inl ⟨rfl, by simp⟩
  | cons top rest ih =>
    by_cases htop : PendingAt jobs top
    · obtain ⟨r, hj, hs⟩ := htop
      have hsome := (hco top r hj).tryAssign_isSome hs w now
      obtain ⟨⟨r', a⟩, ha⟩ := Option.isSome_iff_exists.mp hsome
      obtain ⟨rfl, rfl⟩ := JobRecord.tryAssign_eq_some ha
      refine Or.inr ⟨[], top, rest, r, rfl, by simp, hj, hs, ?_⟩
      simp [assignFront, hj, hs, ha]
    · rw [assignFront_skip w now rest htop]
      rcases ih with ⟨hres, hall⟩ | ⟨skipped, id, rest', r, rfl, hsk, hr, hs, hres⟩
      · exact .inl ⟨hres, List.forall_mem_cons.mpr ⟨htop, hall⟩⟩
      · exact .inr ⟨top :: skipped, id, rest', r, rfl, List.forall_mem_cons.mpr ⟨htop, hsk⟩,
          hr, hs, hres⟩

theorem startForFileQueueJob_spec (config : MasterConfig) (m : MasterState) (r : JobRecord) :
    ∃ cells fileQueue manifestHandle started,
      startForFileQueueJob config m r =
        ({ m with cells }, { r with fileQueue, manifestHandle }, started) := by
  unfold startForFileQueueJob
  split
  · exact ⟨m.cells, r.fileQueue, r.manifestHandle, false, rfl⟩
  · exact ⟨_, _, _, _, rfl⟩

theorem enterPreparing_jobId (r : JobRecord) (now : Instant) :
    (r.enterPreparing now).jobId = r.jobId := by
  unfold JobRecord.enterPreparing
  split <;> rfl

theorem requireValidWorkerId_cases (w : WorkerId) (m : MasterState) (refuse : Status → Reply)
    (handler : Outcome) :
    (∃ e, requireValidWorkerId w m refuse handler = .answer m (refuse e)) ∨
      Spec.validateWorkerId w = .ok () ∧ requireValidWorkerId w m refuse handler = handler := by
  unfold requireValidWorkerId
  split
  · exact .inl ⟨_, rfl⟩
  · exact .inr ⟨‹_›, rfl⟩

/-- The job is not over, and the worker has a slot of it. -/
structure Serves (m : MasterState) (id : JobId) (w : WorkerId) (r : JobRecord) : Prop where
  found : m.jobs.get? id = some r
  live : r.isTerminal = false
  member : w ∈ r.workerAssignments.keys

section

variable {H : Type} (env : MasterEnv H) (amb : Ambient) (m : MasterState)

inductive FetchRow (w : WorkerId) : Outcome → Prop where
  | refused (e : Status) : FetchRow w (.answer m (.fetchJob w (.error e)))
  | replayed {id : JobId} {r : JobRecord} {a : WorkerAssignment} :
      replay m w = some (id, r, a) →
      FetchRow w (.answer (m.setJob id (r.touch w (amb.instant 0)))
        (.fetchJob w (.ok (fetchJobResponse id (r.touch w (amb.instant 0)) a (amb.nowMs 0)))))
  | none : replay m w = none → (∀ id ∈ m.pendingQueue, ¬ PendingAt m.jobs id) →
      FetchRow w (.answer
        { m with pendingQueue := [], workerActiveJobs := m.workerActiveJobs.remove w }
        (.fetchJob w (.ok (emptyFetchResponse (amb.nowMs 0)))))
  | assigned {skipped : List JobId} {id : JobId} {rest : List JobId} {r r₁ : JobRecord} :
      Slot m w (amb.instant 0) skipped id rest r r₁ → m.jobs.get? id = some r →
      (r.withSlot w).slotsRemaining ≠ 0 →
      FetchRow w (.answer
        { m with
          jobs := m.jobs.put id r₁
          pendingQueue := id :: rest
          workerActiveJobs := (m.workerActiveJobs.remove w).put w id }
        (.fetchJob w (.ok (fetchJobResponse id r₁ ⟨r.slotsFilled⟩ (amb.nowMs 0)))))
  | filled {skipped : List JobId} {id : JobId} {rest : List JobId} {r r₁ : JobRecord} :
      Slot m w (amb.instant 0) skipped id rest r r₁ → m.jobs.get? id = some r →
      (r.withSlot w).slotsRemaining = 0 →
      FetchRow w (fillJob env amb
        { m with
          jobs := m.jobs.put id r₁
          pendingQueue := id :: rest
          workerActiveJobs := (m.workerActiveJobs.remove w).put w id }
        id r₁ (.fetchJob w (.ok (fetchJobResponse id r₁ ⟨r.slotsFilled⟩ (amb.nowMs 0)))))

theorem fetchJob_row (hco : ∀ id r, m.jobs.get? id = some r → r.Coherent) (w : WorkerId) :
    FetchRow env amb m w (fetchJob env amb m w) := by
  unfold fetchJob
  rcases requireValidWorkerId_cases w m (fun e => .fetchJob w (.error e))
    (fetchJobSection env amb m w) with ⟨e, heq⟩ | ⟨hvalid, heq⟩
  · rw [heq]
    exact .refused e
  · rw [heq]
    unfold fetchJobSection
    cases hrep : replay m w with
    | some found => exact .replayed hrep
    | none =>
      rcases assignFront_spec w (amb.instant 0) hco m.pendingQueue with
        ⟨hres, hall⟩ | ⟨skipped, id, rest, r, hq, hsk, hr, hs, hres⟩
      · simp only [hres]
        exact .none hrep hall
      · simp only [hres]
        have hslot : Slot m w (amb.instant 0) skipped id rest r _ :=
          ⟨hrep, hvalid, hq, hsk, hs, rfl⟩
        split
        · next hfull => exact .filled hslot hr hfull
        · next hmore => exact .assigned hslot hr hmore

inductive ReadyRow (req : ReportReadyRequest) : Outcome → Prop where
  | refused (e : Status) : ReadyRow req (.answer m (.reportReady req (.error e)))
  | turnedAway (cancelled unknownJob : Bool) :
      ReadyRow req (.answer m
        (.reportReady req (.ok (readyResponse cancelled unknownJob 0 (amb.nowMs 0)))))
  | untimely {r : JobRecord} (reason : String) : Serves m req.jobId req.workerId r →
      req.error = some reason → r.status ≠ .preparing →
      ReadyRow req (.answer (m.setJob req.jobId (r.touch req.workerId (amb.instant 0)))
        (.reportReady req (.ok (readyUnknown (amb.nowMs 0)))))
  | failed {r : JobRecord} (reason : String) : Serves m req.jobId req.workerId r →
      req.error = some reason → r.status = .preparing →
      ReadyRow req (readyFail env amb m req (r.touch req.workerId (amb.instant 0)) reason)
  | started {r r₁ : JobRecord} : Serves m req.jobId req.workerId r → req.error = none →
      barrierOpens (r.withReady req.workerId) = true →
      r₁ = ((r.withReady req.workerId).touch req.workerId (amb.instant 0)).start
        (wrapI64 (amb.nowMs 0 + startDelayMs env.config)) →
      ReadyRow req (.answer
        ((m.emitForJob (amb.order req.jobId) (amb.nowMs 2) r₁ .statusChange).setJob req.jobId r₁)
        (.reportReady req (.ok (readyResponse false false r₁.startAtMs (amb.nowMs 1)))))
  | counted {r : JobRecord} : Serves m req.jobId req.workerId r → req.error = none →
      r.status = .preparing ∨ r.status = .pending →
      barrierOpens (r.withReady req.workerId) = false →
      ReadyRow req (.answer
        (m.setJob req.jobId ((r.withReady req.workerId).touch req.workerId (amb.instant 0)))
        (.reportReady req (.ok (readyResponse false false r.startAtMs (amb.nowMs 1)))))
  | noted {r : JobRecord} : Serves m req.jobId req.workerId r → req.error = none →
      ¬ (r.status = .preparing ∨ r.status = .pending) →
      ReadyRow req (.answer (m.setJob req.jobId (r.touch req.workerId (amb.instant 0)))
        (.reportReady req (.ok (readyResponse false false r.startAtMs (amb.nowMs 1)))))

theorem readyAdvance_row {req : ReportReadyRequest} {r : JobRecord}
    (hserves : Serves m req.jobId req.workerId r) (herr : req.error = none) :
    ReadyRow env amb m req
      (readyAdvance env amb m req (r.touch req.workerId (amb.instant 0))) := by
  unfold readyAdvance
  simp only
  split
  · next hs =>
    split
    · next hopen => exact .started hserves herr hopen rfl
    · next hclosed => exact .counted hserves herr hs (Bool.eq_false_iff.mpr hclosed)
  · next hs => exact .noted hserves herr hs

theorem reportReady_row (req : ReportReadyRequest) :
    ReadyRow env amb m req (reportReady env amb m req) := by
  unfold reportReady
  rcases requireValidWorkerId_cases req.workerId m (fun e => .reportReady req (.error e))
    (reportReadySection env amb m req) with ⟨e, heq⟩ | ⟨-, heq⟩
  · rw [heq]
    exact .refused e
  · rw [heq]
    unfold reportReadySection
    cases hr : m.jobs.get? req.jobId with
    | none => exact .turnedAway false true
    | some r =>
      simp only
      split
      · exact .turnedAway true false
      · split
        · exact .turnedAway false true
        · next hlive =>
          split
          · exact .turnedAway false true
          · next hmember =>
            have hserves : Serves m req.jobId req.workerId r :=
              ⟨hr, Bool.eq_false_iff.mpr hlive, HashMap.containsKey_iff.mp (not_not.mp hmember)⟩
            cases herr : req.error with
            | some reason =>
              simp only
              split
              · next hs => exact .untimely reason hserves herr hs
              · next hs => exact .failed reason hserves herr (not_not.mp hs)
            | none => exact readyAdvance_row env amb m hserves herr

inductive BatchRow (req : FetchFileBatchRequest) : Outcome → Prop where
  | refused (e : Status) : BatchRow req (.answer m (.fetchFileBatch req (.error e)))
  | unknown : BatchRow req (.answer m (.fetchFileBatch req (.ok unknownBatch)))
  | cancelled {r : JobRecord} : m.jobs.get? req.jobId = some r → req.workerId ∈ r.runWorkers →
      r.status = .cancelled →
      BatchRow req (.answer (m.setJob req.jobId (r.touch req.workerId (amb.instant 0)))
        (.fetchFileBatch req (.ok ⟨[], false, true, false⟩)))
  | drains {r : JobRecord} {cell : JobId} : m.jobs.get? req.jobId = some r →
      req.workerId ∈ r.runWorkers → r.status = .running → r.fileQueue = some cell →
      BatchRow req (.continue (m.setJob req.jobId (r.touch req.workerId (amb.instant 0)))
        (.batchDrain req cell (clampBatch req.batchSize)))

theorem fetchFileBatch_row (req : FetchFileBatchRequest) :
    BatchRow amb m req (fetchFileBatch amb m req) := by
  unfold fetchFileBatch
  rcases requireValidWorkerId_cases req.workerId m (fun e => .fetchFileBatch req (.error e))
    (fetchFileBatchSection amb m req) with ⟨e, heq⟩ | ⟨-, heq⟩
  · rw [heq]
    exact .refused e
  · rw [heq]
    unfold fetchFileBatchSection
    cases hr : m.jobs.get? req.jobId with
    | none => exact .unknown
    | some r =>
      simp only
      split
      · exact .unknown
      · next hmember =>
        split
        · next hs => exact .cancelled hr (not_not.mp hmember) hs
        · next hs =>
          split
          · exact .unknown
          · next cell hcell => exact .drains hr (not_not.mp hmember) hs hcell
        · exact .unknown

inductive ProgressRow (req : ReportProgressRequest) : Outcome → Prop where
  | refused (e : Status) : ProgressRow req (.answer m (.reportProgress req (.error e)))
  | unknown : ProgressRow req (.answer m (.reportProgress req (.ok ⟨false, true⟩)))
  | cancelled {progress : WorkerProgress} {r : JobRecord} : req.progress = some progress →
      m.jobs.get? req.jobId = some r → r.status = .cancelled →
      ProgressRow req (.answer (m.setJob req.jobId (r.touch progress.workerId (amb.instant 0)))
        (.reportProgress req (.ok ⟨true, false⟩)))
  | recorded {progress : WorkerProgress} {r r₁ : JobRecord} : req.progress = some progress →
      Serves m req.jobId progress.workerId r →
      r₁ = r.note (r.workerLastSeen.put progress.workerId (amb.instant 0))
        (r.latestProgress.put progress.workerId (admitProgress progress)) →
      ProgressRow req (.answer
        ((m.emitForJob (amb.order req.jobId) (amb.nowMs 0) r₁ .progress).setJob req.jobId r₁)
        (.reportProgress req (.ok ⟨false, false⟩)))

theorem reportProgress_row (req : ReportProgressRequest) :
    ProgressRow amb m req (reportProgress amb m req) := by
  unfold reportProgress
  cases hp : req.progress with
  | none => exact .refused _
  | some progress =>
    simp only
    rcases requireValidWorkerId_cases progress.workerId m (fun e => .reportProgress req (.error e))
      (reportProgressSection amb m req progress) with ⟨e, heq⟩ | ⟨-, heq⟩
    · rw [heq]
      exact .refused e
    · rw [heq]
      unfold reportProgressSection
      cases hr : m.jobs.get? req.jobId with
      | none => exact .unknown
      | some r =>
        simp only
        split
        · next hs => exact .cancelled hp hr hs
        · split
          · exact .unknown
          · next hlive =>
            split
            · exact .unknown
            · next hmember =>
              exact .recorded hp ⟨hr, Bool.eq_false_iff.mpr hlive,
                HashMap.containsKey_iff.mp (not_not.mp hmember)⟩ rfl

inductive ResultRow (req : ReportResultRequest) : Outcome → Prop where
  | refused (e : Status) : ResultRow req (.answer m (.reportResult req (.error e)))
  | unknown {result : WorkerResult} : req.result = some result →
      ResultRow req (.continue m (.resultRelease req result.workerId true))
  | again {result : WorkerResult} {r : JobRecord} : req.result = some result →
      m.jobs.get? req.jobId = some r → result.workerId ∈ r.runWorkers →
      r.status = .running ∨ r.status = .cancelled → result.workerId ∈ r.workerResults.keys →
      ResultRow req (.continue (m.setJob req.jobId (r.touch result.workerId (amb.instant 0)))
        (.resultRelease req result.workerId false))
  | cancelled {result : WorkerResult} {r : JobRecord} : req.result = some result →
      m.jobs.get? req.jobId = some r → result.workerId ∈ r.runWorkers →
      r.status = .cancelled → result.workerId ∉ r.workerResults.keys →
      ResultRow req (.continue
        (m.setJob req.jobId (r.note (r.workerLastSeen.put result.workerId (amb.instant 0))
          (r.latestProgress.put result.workerId (finalProgress result))))
        (.resultRelease req result.workerId false))
  | counted {result : WorkerResult} {r r₁ : JobRecord} : req.result = some result →
      m.jobs.get? req.jobId = some r → r.Takes result → result.success = true →
      (r.withResult result).workerResults.len ≠ r.runWorkers.card →
      r₁ = (r.withResult result).note (r.workerLastSeen.put result.workerId (amb.instant 0))
        (r.latestProgress.put result.workerId (finalProgress result)) →
      ResultRow req (.continue (m.setJob req.jobId r₁) (.resultRelease req result.workerId false))
  | settled {result : WorkerResult} {r r₀ r₁ : JobRecord} : req.result = some result →
      m.jobs.get? req.jobId = some r → r.Takes result → r.Ends r₀ →
      r₀.workerResults = (r.withResult result).workerResults →
      (result.success = true → (r.withResult result).workerResults.len = r.runWorkers.card) →
      r₁ = r₀.note (r.workerLastSeen.put result.workerId (amb.instant 0))
        (r.latestProgress.put result.workerId (finalProgress result)) →
      ResultRow req (.continue (m.settle env.hdr amb 0 req.jobId r₁)
        (.resultFinalize req result.workerId))

theorem recordResult_row {req : ReportResultRequest} {result : WorkerResult} {r : JobRecord}
    (hres : req.result = some result) (hr : m.jobs.get? req.jobId = some r)
    (ht : r.Takes result) :
    ResultRow env amb m req
      (recordResult env amb m req result (r.touch result.workerId (amb.instant 0))) := by
  unfold recordResult
  simp only
  split
  · next hfail =>
    exact .settled hres hr ht
      (.resultFailed result (result.error.or (some s!"worker {result.workerId} reported failure"))
        ht (Bool.eq_false_iff.mpr hfail)) rfl (fun h => absurd h hfail) rfl
  · next hsuccess =>
    split
    · next hall =>
      exact .settled hres hr ht (.completed result ht (not_not.mp hsuccess) hall) rfl
        (fun _ => hall) rfl
    · next hmore => exact .counted hres hr ht (not_not.mp hsuccess) hmore rfl

theorem reportResult_row (req : ReportResultRequest) :
    ResultRow env amb m req (reportResult env amb m req) := by
  unfold reportResult
  cases hres : req.result with
  | none => exact .refused _
  | some result =>
    simp only
    rcases requireValidWorkerId_cases result.workerId m (fun e => .reportResult req (.error e))
      (reportResultSection env amb m req result) with ⟨e, heq⟩ | ⟨-, heq⟩
    · rw [heq]
      exact .refused e
    · rw [heq]
      unfold reportResultSection
      cases hr : m.jobs.get? req.jobId with
      | none => exact .unknown hres
      | some r =>
        simp only
        split
        · exact .unknown hres
        · next hmember =>
          have hmember := not_not.mp hmember
          split
          · exact .unknown hres
          · next hstatus =>
            split
            · next hdup =>
              have hs : r.status = .running ∨ r.status = .cancelled := by tauto
              exact .again hres hr hmember hs (HashMap.containsKey_iff.mp hdup)
            · next hfirst =>
              have hfresh : result.workerId ∉ r.workerResults.keys := fun hmem =>
                hfirst (HashMap.containsKey_iff.mpr hmem)
              split
              · next hs => exact .cancelled hres hr hmember hs hfresh
              · next hs =>
                have hrun : r.status = .running := by
                  by_contra hrun
                  exact hstatus ⟨hrun, hs⟩
                exact recordResult_row env amb m hres hr ⟨hrun, hmember, hfresh⟩

end

end CvdBench.Master
