import CvdBench.Worker.Assigned
import CvdBench.Worker.Backoff
import CvdBench.Worker.Clock
import CvdBench.Worker.Runner

/-!
The daemon of a worker (`run_loop`): it fetches one job after the other, works on each
(`run_assigned_job`), and leaves its loop between two of them. Its calls of the master are the
requests that a step puts out, and a response is heard together with the request it answers.
-/

set_option autoImplicit false

namespace CvdBench.Worker

open Foundation Proto

inductive Request where
  | fetchJob (workerId : String)
  | reportReady (req : ReportReadyRequest)
  | fetchFileBatch (req : FetchFileBatchRequest)
  | reportProgress (req : ReportProgressRequest)
  | reportResult (req : ReportResultRequest)

/-- A response that is no error. -/
inductive Response where
  | fetchJob (workerId : String) (res : FetchJobResponse)
  | reportReady (req : ReportReadyRequest) (res : ReportReadyResponse)
  | fetchFileBatch (req : FetchFileBatchRequest) (res : FetchFileBatchResponse)
  | reportProgress (req : ReportProgressRequest) (res : ReportProgressResponse)
  | reportResult (req : ReportResultRequest) (res : ReportResultResponse)

/-- What a step reads from outside: the reason of a failure, the progress, the clock and the
metrics. -/
structure Payload where
  reason : String
  progress : WorkerProgress
  nowMs : Int
  perOp : HashMap String PerformanceMetrics
  consistencyErrors : List ConsistencyError

structure Working where
  jobId : String
  assignment : Assignment
  state : Assigned
  startAtMs : Int
  /-- built once, and sent again when an attempt fails -/
  result : Option WorkerResult

/-- Who awaits a response. -/
inductive Caller where
  | main
  | preflightProgress
  | progress
  | fetcher (i : Nat)
  deriving DecidableEq, Repr

inductive JobAct where
  | act (a : AssignedAct)
  | hear (c : Caller)

/-- The step takes a response that is no error. -/
def AssignedAct.hears : AssignedAct → Bool
  | .main (.ready (.ok _)) | .main (.result (.ok _)) => true
  | .preflightProgress (.response (.ok _)) | .progress (.response (.ok _)) => true
  | .fetcher _ (.response (.ok _)) => true
  | _ => false

def MainPc.isFinished : MainPc → Bool
  | .finished => true
  | _ => false

def MainPc.isReady : MainPc → Bool
  | .ready => true
  | _ => false

/-- `build_result_no_metrics`, of a job that is cancelled at the barrier -/
def Working.buildResultNoMetrics (workerId : String) (nowMs : Int) : WorkerResult :=
  { workerId, perOp := ∅, consistencyErrors := [], success := true, error := some "cancelled"
    effectiveDurationMs := 0, measureStartMs := nowMs, measureEndMs := nowMs }

def Working.buildResult (workerId : String) (job : AssignedJob) (startAtMs : Int) (load : Payload)
    (res : Bool × Option String) : WorkerResult :=
  let measureStart := measureStartMs startAtMs job.spec.warmup
  let measureEnd := min load.nowMs (plannedEndMs startAtMs job.spec.warmup job.spec.duration)
  { workerId, perOp := load.perOp, consistencyErrors := load.consistencyErrors
    success := res.1, error := res.2
    effectiveDurationMs := max (measureEnd - measureStart) 0
    measureStartMs := measureStart, measureEndMs := measureEnd }

namespace Working

variable (workerId : String) (load : Payload)

def start (jobId : String) (assignment : Assignment) : Working :=
  ⟨jobId, assignment, (assigned assignment).init, 0, none⟩

/-- What the caller makes of a response, if it answers what it has sent. -/
def heard (job : Working) : Caller → Response → Option AssignedAct
  | .main, .reportReady req res =>
      if req.jobId = job.jobId ∧ req.workerId = workerId ∧
          req.error.isNone = job.state.main.isReady then
        some (.main (.ready (.ok res)))
      else none
  | .main, .reportResult req res =>
      if req.jobId = job.jobId ∧ req.result.map (·.workerId) = some workerId then
        some (.main (.result (.ok res)))
      else none
  | .preflightProgress, .reportProgress req res =>
      if req.jobId = job.jobId ∧ req.progress.map (·.workerId) = some workerId then
        some (.preflightProgress (.response (.ok res)))
      else none
  | .progress, .reportProgress req res =>
      if req.jobId = job.jobId ∧ req.progress.map (·.workerId) = some workerId then
        some (.progress (.response (.ok res)))
      else none
  | .fetcher i, .fetchFileBatch req res =>
      if req.jobId = job.jobId ∧ req.workerId = workerId then
        some (.fetcher i (.response (.ok res)))
      else none
  | _, _ => none

def progressRequest (job : Working) (t : ProgressTask) : List Request :=
  match t.pc with
  | .check =>
      if job.state.cancelled || job.state.unknownJob then []
      else [.reportProgress ⟨job.jobId, some { load.progress with workerId }⟩]
  | _ => []

def requests (job : Working) : AssignedAct → List Request
  | .main .run => match job.state.main with
      | .readyError _ => [.reportReady ⟨job.jobId, workerId, some load.reason⟩]
      | .barrier =>
          if job.state.cancelled then [] else [.reportReady ⟨job.jobId, workerId, none⟩]
      | .reportCancelled =>
          [.reportResult ⟨job.jobId, some (buildResultNoMetrics workerId load.nowMs)⟩]
      | .attempt _ _ =>
          if job.state.unknownJob then []
          else job.result.toList.map fun result => .reportResult ⟨job.jobId, some result⟩
      | _ => []
  | .preflightProgress .run => job.progressRequest workerId load job.state.preflightProgress
  | .progress .run => job.progressRequest workerId load job.state.progress
  | .fetcher i .run => match job.state.fetchers[i]? with
      | some .top =>
          if job.state.cancelled then []
          else [.fetchFileBatch ⟨job.jobId, workerId, fetchBatchSize⟩]
      | _ => []
  | _ => []

def startAfter (job : Working) (act : AssignedAct) : Int :=
  match job.state.main, act with
  | .ready, .main (.ready (.ok res)) =>
      if !res.cancelled && !res.unknownJob && decide (res.startAtMs > 0) then res.startAtMs
      else job.startAtMs
  | _, _ => job.startAtMs

def resultAfter (job : Working) (act : AssignedAct) : Option WorkerResult :=
  match job.state.main, act, job.assignment with
  | .buildResult outcome, .main .run, .accepted assigned =>
      some (buildResult workerId assigned job.startAtMs load
        (outcome.result job.state.cancelled))
  | _, _, _ => job.result

def step (job : Working) (act : AssignedAct) : Option (Working × List Request) :=
  ((assigned job.assignment).step job.state act).map fun res =>
    ({ job with
      state := res.1
      startAtMs := job.startAfter act
      result := job.resultAfter workerId load act }, job.requests workerId load act)

end Working

def idleSleep : Spec.Duration := Spec.Duration.fromMillis 3000

inductive DaemonPc where
  | top
  /-- in `fetch_job` -/
  | fetching
  | sleeping (delay : Spec.Duration)
  | working (job : Working)
  | stopped

structure Daemon where
  pc : DaemonPc
  backoff : ExponentialBackoff
  shutdown : Bool

def Daemon.new : Daemon := ⟨.top, .default, false⟩

inductive DaemonAct where
  | signal
  | run
  | fetched
  | failed
  | wake
  | job (act : JobAct) (load : Payload)

namespace Daemon

variable (workerId : String)

/-- `try_fetch_once`, and what the loop makes of it. -/
def fetched (d : Daemon) (res : FetchJobResponse) : Daemon :=
  match res.jobId with
  | none => { d with pc := .sleeping idleSleep, backoff := d.backoff.reset }
  | some jobId =>
      { d with
        pc := .working (.start jobId (assignment workerId res))
        backoff := d.backoff.reset }

def run (d : Daemon) : Option (Daemon × List Request) :=
  match d.pc with
  | .top =>
      if d.shutdown then some ({ d with pc := .stopped }, [])
      else some ({ d with pc := .fetching }, [.fetchJob workerId])
  | .working job =>
      if job.state.main.isFinished then some ({ d with pc := .top }, []) else none
  | _ => none

def admits (d : Daemon) (act : AssignedAct) : Bool :=
  match act with
  | .shutdown => d.shutdown
  | act => !act.hears

def stepJob (d : Daemon) (load : Payload) (job : Working) (act : AssignedAct) :
    Option (Daemon × List Request) :=
  (job.step workerId load act).map fun res => ({ d with pc := .working res.1 }, res.2)

def step (d : Daemon) : DaemonAct × Option Response → Option (Daemon × List Request)
  | (.signal, none) => some ({ d with shutdown := true }, [])
  | (.run, none) => d.run workerId
  | (.fetched, some (.fetchJob w res)) => match d.pc with
      | .fetching => if w = workerId then some (d.fetched workerId res, []) else none
      | _ => none
  | (.failed, none) => match d.pc with
      | .fetching =>
          let (delay, backoff) := d.backoff.nextDelay
          some ({ d with
            pc := .sleeping delay
            backoff }, [])
      | _ => none
  | (.wake, none) => match d.pc with
      | .sleeping _ => some ({ d with pc := .top }, [])
      | _ => none
  | (.job (.act a) load, none) => match d.pc with
      | .working job => if d.admits a then d.stepJob workerId load job a else none
      | _ => none
  | (.job (.hear c) load, some res) => match d.pc with
      | .working job => (job.heard workerId c res).bind (d.stepJob workerId load job)
      | _ => none
  | _ => none

end Daemon

/-- `run_loop` -/
def daemon (workerId : String) : Machine Daemon (DaemonAct × Option Response) (List Request) :=
  ⟨.new, Daemon.step workerId⟩

abbrev DaemonEvent := Event Daemon (DaemonAct × Option Response) (List Request)

inductive Daemon.Move (workerId : String) (d : Daemon) :
    DaemonAct × Option Response → Daemon → List Request → Prop where
  | signal : Move workerId d (.signal, none) { d with shutdown := true } []
  | stop : d.pc = .top → d.shutdown = true →
      Move workerId d (.run, none) { d with pc := .stopped } []
  | fetch : d.pc = .top → d.shutdown = false →
      Move workerId d (.run, none) { d with pc := .fetching } [.fetchJob workerId]
  | ended (job : Working) : d.pc = .working job → job.state.main = .finished →
      Move workerId d (.run, none) { d with pc := .top } []
  | idle (res : FetchJobResponse) : d.pc = .fetching → res.jobId = none →
      Move workerId d (.fetched, some (.fetchJob workerId res))
        { d with
          pc := .sleeping idleSleep
          backoff := d.backoff.reset } []
  | assigned (res : FetchJobResponse) (jobId : String) : d.pc = .fetching →
      res.jobId = some jobId →
      Move workerId d (.fetched, some (.fetchJob workerId res))
        { d with
          pc := .working (.start jobId (assignment workerId res))
          backoff := d.backoff.reset } []
  | failed : d.pc = .fetching → Move workerId d (.failed, none)
      { d with
        pc := .sleeping d.backoff.nextDelay.1
        backoff := d.backoff.nextDelay.2 } []
  | wake (delay : Spec.Duration) : d.pc = .sleeping delay →
      Move workerId d (.wake, none) { d with pc := .top } []
  | job (act : DaemonAct) (heard : Option Response) (load : Payload) (job : Working)
      (a : AssignedAct) (s' : Assigned) (o : AssignedOut) : d.pc = .working job →
      (assigned job.assignment).step job.state a = some (s', o) →
      (a.hears = true → ∃ c res, heard = some res ∧ job.heard workerId c res = some a) →
      (a = .shutdown → d.shutdown = true) →
      Move workerId d (act, heard)
        { d with
          pc := .working { job with
            state := s'
            startAtMs := job.startAfter a
            result := job.resultAfter workerId load a } }
        (job.requests workerId load a)

variable {workerId : String} {d d' : Daemon} {out : List Request}

theorem Working.heard_ne_shutdown {job : Working} {c : Caller} {res : Response} {a : AssignedAct}
    (h : job.heard workerId c res = some a) : a ≠ .shutdown := by
  rintro rfl
  unfold Working.heard at h
  split at h
  all_goals first
    | cases h
    | split at h <;> cases h

theorem Daemon.stepJob_move {act : DaemonAct} {heard : Option Response} {load : Payload}
    {job : Working} {a : AssignedAct} (hpc : d.pc = .working job)
    (h : d.stepJob workerId load job a = some (d', out))
    (hhears : a.hears = true → ∃ c res, heard = some res ∧ job.heard workerId c res = some a)
    (hshutdown : a = .shutdown → d.shutdown = true) :
    Move workerId d (act, heard) d' out := by
  obtain ⟨⟨job', out'⟩, hjob, heq⟩ := Option.map_eq_some_iff.mp h
  cases heq
  obtain ⟨⟨s', o⟩, hstep, heq⟩ := Option.map_eq_some_iff.mp hjob
  cases heq
  exact .job act heard load job a s' o hpc hstep hhears hshutdown

theorem Daemon.run_move (h : d.run workerId = some (d', out)) :
    Move workerId d (.run, none) d' out := by
  unfold run at h
  split at h
  · next hpc =>
    split at h
    · next hshutdown =>
      cases h
      exact .stop hpc hshutdown
    · next hshutdown =>
      cases h
      exact .fetch hpc (by simpa using hshutdown)
  · next job hpc =>
    split at h
    · next hfinished =>
      cases h
      refine .ended job hpc ?_
      unfold MainPc.isFinished at hfinished
      split at hfinished
      · assumption
      · cases hfinished
    · cases h
  · cases h

theorem Daemon.step_move {act : DaemonAct × Option Response}
    (h : d.step workerId act = some (d', out)) : Move workerId d act d' out := by
  unfold step at h
  split at h
  · cases h
    exact .signal
  · exact run_move h
  · next w res =>
    split at h
    · next hpc =>
      split at h
      · next hw =>
        subst hw
        cases h
        unfold fetched
        split
        · next hnone => exact .idle res hpc hnone
        · next jobId hsome => exact .assigned res jobId hpc hsome
      · cases h
    · cases h
  · split at h
    · next hpc =>
      cases h
      exact .failed hpc
    · cases h
  · split at h
    · next delay hpc =>
      cases h
      exact .wake delay hpc
    · cases h
  · next a load =>
    split at h
    · next job hpc =>
      split at h
      · next hadmits =>
        refine stepJob_move hpc h (fun hhears => ?_) fun hshutdown => ?_
        · unfold admits at hadmits
          split at hadmits
          · cases hhears
          · simp [hhears] at hadmits
        · subst hshutdown
          exact hadmits
      · cases h
    · cases h
  · next c load res =>
    split at h
    · next job hpc =>
      obtain ⟨a, ha, h⟩ := Option.bind_eq_some_iff.mp h
      exact stepJob_move hpc h (fun _ => ⟨c, res, rfl, ha⟩)
        fun hshutdown => absurd hshutdown (Working.heard_ne_shutdown ha)
    · cases h
  · cases h

end CvdBench.Worker
