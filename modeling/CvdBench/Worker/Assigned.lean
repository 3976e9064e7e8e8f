import CvdBench.Foundation.Machine
import CvdBench.Worker.Preflight

/-!
A worker at work on one job (`run_assigned_job`): the main flow, the two tasks that report
progress, the fetchers of the hot loop, the write runner as far as its cleanup goes, and the
shutdown of the daemon. A task that has received a response may be overtaken by the others
before it has stored what the response says.
-/

set_option autoImplicit false

namespace CvdBench.Worker

open Foundation Proto

def reportResultMaxRetries : Nat := 8

def readyErrorMaxRetries : Nat := 5

inductive ProgressPc where
  | sleep
  | check
  /-- in `report_progress` -/
  | request
  | respond (res : ReportProgressResponse)
  | storeCancelled
  | finished

/-- An aborted task ends with its next await. -/
structure ProgressTask where
  pc : ProgressPc
  aborted : Bool

def ProgressTask.spawn : ProgressTask := ⟨.sleep, false⟩

def ProgressTask.over : ProgressTask := ⟨.finished, false⟩

def ProgressTask.await (t : ProgressTask) (pc : ProgressPc) : ProgressTask :=
  { t with pc := if t.aborted then .finished else pc }

def ProgressTask.abort (t : ProgressTask) : ProgressTask :=
  match t.pc with
  | .sleep | .request => ⟨.finished, true⟩
  | pc => ⟨pc, true⟩

inductive FetchPc where
  | top
  /-- in `fetch_file_batch` -/
  | request
  | respond (res : FetchFileBatchResponse)
  | storeCancelled
  | finished

def FetchPc.isFinished : FetchPc → Bool
  | .finished => true
  | _ => false

inductive MainPc where
  | preflight
  | readyError (attempt : Nat)
  | readyErrorSent (attempt : Nat)
  | readyErrorSleep (attempt : Nat)
  | barrier
  /-- in `report_ready` -/
  | ready
  | barrierSleep
  /-- the barrier was left with `Cancelled`, or with `UnknownJob` -/
  | reportCancelled
  | cancelledSent
  | storeUnknown
  | waitStart
  | workload
  | cleanup (outcome : RunnerOutcome)
  | checkUnknown (outcome : RunnerOutcome)
  | buildResult (outcome : RunnerOutcome)
  | attempt (n : Nat) (result : Bool × Option String)
  | resultSent (n : Nat) (result : Bool × Option String)
  | resultSleep (n : Nat) (result : Bool × Option String)
  | storeResultUnknown
  | finished

structure Assigned where
  main : MainPc
  preflightProgress : ProgressTask
  progress : ProgressTask
  fetchers : List FetchPc
  writing : Bool
  unknownJob : Bool
  cancelled : Bool
  roots : List (List Char)

inductive MainAct where
  | run
  | preflight (calls : PreflightCalls)
  | ready (res : Except String ReportReadyResponse)
  | wake
  | returned (outcome : RunnerOutcome)
  | cleanup (succeeds : Bool)
  | result (res : Except String ReportResultResponse)

inductive ProgressAct where
  | run
  | wake
  | response (res : Except String ReportProgressResponse)

inductive FetchAct where
  | run
  | leave
  | response (res : Except String FetchFileBatchResponse)

inductive AssignedAct where
  | main (act : MainAct)
  | preflightProgress (act : ProgressAct)
  | progress (act : ProgressAct)
  | fetcher (i : Nat) (act : FetchAct)
  | writeReturns (succeeds : Bool)
  | shutdown

inductive AssignedOut where
  | silent
  | heard (unknownJob : Bool)
  | reportResult (success : Bool) (error : Option String)
  deriving DecidableEq, Repr

structure JobFlags where
  unknownJob : Bool
  cancelled : Bool

def ProgressTask.step (flags : JobFlags) (t : ProgressTask) :
    ProgressAct → Option (ProgressTask × JobFlags × AssignedOut) :=
  fun act => match t.pc, act with
  | .sleep, .wake => some ({ t with pc := .check }, flags, .silent)
  | .check, .run =>
      if flags.cancelled || flags.unknownJob then some ({ t with pc := .finished }, flags, .silent)
      else some (t.await .request, flags, .silent)
  | .request, .response (.ok res) =>
      some ({ t with pc := .respond res }, flags, .heard res.unknownJob)
  | .request, .response (.error _) => some (t.await .sleep, flags, .silent)
  | .respond res, .run =>
      if res.unknownJob then
        some ({ t with pc := .storeCancelled }, { flags with unknownJob := true }, .silent)
      else if res.cancelled then
        some ({ t with pc := .finished }, { flags with cancelled := true }, .silent)
      else some (t.await .sleep, flags, .silent)
  | .storeCancelled, .run =>
      some ({ t with pc := .finished }, { flags with cancelled := true }, .silent)
  | _, _ => none

def FetchPc.step (flags : JobFlags) :
    FetchPc → FetchAct → Option (FetchPc × JobFlags × AssignedOut)
  | .top, .leave => some (.finished, flags, .silent)
  | .top, .run =>
      if flags.cancelled then some (.finished, flags, .silent) else some (.request, flags, .silent)
  | .request, .response (.ok res) => some (.respond res, flags, .heard res.unknownJob)
  | .request, .response (.error _) => some (.top, flags, .silent)
  | .respond res, .run =>
      if res.unknownJob then some (.storeCancelled, { flags with unknownJob := true }, .silent)
      else if res.cancelled then some (.finished, { flags with cancelled := true }, .silent)
      else some (.top, flags, .silent)
  | .respond res, .leave =>
      if res.unknownJob || res.cancelled then none else some (.finished, flags, .silent)
  | .storeCancelled, .run => some (.finished, { flags with cancelled := true }, .silent)
  | _, _ => none

def removeTree (root : List Char) (roots : List (List Char)) : List (List Char) :=
  roots.filter fun r => !(segments root).isPrefixOf (segments r)

/-- `cleanup_root` and `best_effort_cleanup` on a root, which is a directory if it is there. A
removal that fails leaves it in place. -/
def removeRoot (start : List Char → List Char → RootKind → CleanupStart) (mount : String)
    (root : List Char) (succeeds : Bool) (roots : List (List Char)) : List (List Char) :=
  match start mount.toList root (if root ∈ roots then .dir else .notFound) with
  | .sweep _ => if succeeds then removeTree root roots else roots
  | .refused | .nothing => roots

namespace Assigned

variable (job : AssignedJob)

def start (main : MainPc) (preflightProgress : ProgressTask) : Assigned where
  main
  preflightProgress
  progress := .over
  fetchers := []
  writing := false
  unknownJob := false
  cancelled := false
  roots := []

def flags (s : Assigned) : JobFlags := ⟨s.unknownJob, s.cancelled⟩

def setFlags (s : Assigned) (flags : JobFlags) : Assigned :=
  { s with
    unknownJob := flags.unknownJob
    cancelled := flags.cancelled }

def preflight (s : Assigned) (calls : PreflightCalls) : Assigned :=
  let (made, res) := job.runPreflight calls
  { s with
    main := match res with
      | .ok _ => .barrier
      | .error _ => .readyError 0
    preflightProgress := s.preflightProgress.abort
    roots := s.roots ++ made }

/-- The answer of ReportReady at the barrier: the cancellation is looked at first. -/
def readyAnswer (res : ReportReadyResponse) : MainPc :=
  if res.cancelled then .reportCancelled
  else if res.unknownJob then .storeUnknown
  else if res.startAtMs > 0 then .waitStart
  else .barrierSleep

def startWorkload (s : Assigned) : Assigned :=
  let fetches := [job.spec.read.isSome, (job.spec.metadata.bind (·.dirManifest)).isSome]
  { s with
    main := .workload
    progress := .spawn
    fetchers := (fetches.filter id).map fun _ => .top
    writing := job.spec.write.isSome }

/-- `send_ready_error`, and what comes after it. -/
def stepReadyError (s : Assigned) (act : MainAct) : Option (Assigned × AssignedOut) :=
  match s.main, act with
  | .readyError n, .run => some ({ s with main := .readyErrorSent n }, .silent)
  | .readyErrorSent _, .ready (.ok res) =>
      some ({ s with main := .finished }, .heard res.unknownJob)
  | .readyErrorSent n, .ready (.error _) =>
      some ({ s with
        main := if n + 1 < readyErrorMaxRetries then .readyErrorSleep n else .finished }, .silent)
  | .readyErrorSleep n, .wake => some ({ s with main := .readyError (n + 1) }, .silent)
  | _, _ => none

def stepMain (s : Assigned) (act : MainAct) : Option (Assigned × AssignedOut) :=
  match s.main, act with
  | .preflight, .preflight calls => some (s.preflight job calls, .silent)
  | .readyError _, act | .readyErrorSent _, act | .readyErrorSleep _, act => s.stepReadyError act
  | .barrier, .run =>
      some ({ s with main := if s.cancelled then .reportCancelled else .ready }, .silent)
  | .ready, .ready (.ok res) =>
      some ({ s with main := readyAnswer res }, .heard res.unknownJob)
  | .ready, .ready (.error _) => some ({ s with main := .barrierSleep }, .silent)
  | .barrierSleep, .wake => some ({ s with main := .barrier }, .silent)
  | .reportCancelled, .run =>
      some ({ s with main := .cancelledSent }, .reportResult true (some "cancelled"))
  | .cancelledSent, .result (.ok res) =>
      some ({ s with main := .finished }, .heard res.unknownJob)
  | .cancelledSent, .result (.error _) => some ({ s with main := .finished }, .silent)
  | .storeUnknown, .run =>
      some ({ s with
        main := .finished
        unknownJob := true }, .silent)
  | .waitStart, .wake => some (s.startWorkload job, .silent)
  | .workload, .returned outcome =>
      if !s.writing && s.fetchers.all FetchPc.isFinished then
        some ({ s with
          main := .cleanup outcome
          progress := s.progress.abort }, .silent)
      else none
  | .cleanup outcome, .cleanup succeeds =>
      some ({ s with
        main := .checkUnknown outcome
        roots := match job.prebuiltRoot? with
          | none => s.roots
          | some root => removeRoot bestEffortCleanup job.mountPoint root succeeds s.roots },
        .silent)
  | .checkUnknown outcome, .run =>
      some ({ s with main := if s.unknownJob then .finished else .buildResult outcome }, .silent)
  | .buildResult outcome, .run =>
      some ({ s with main := .attempt 0 (outcome.result s.cancelled) }, .silent)
  | .attempt n result, .run =>
      if s.unknownJob then some ({ s with main := .finished }, .silent)
      else some ({ s with main := .resultSent n result }, .reportResult result.1 result.2)
  | .resultSent _ _, .result (.ok res) =>
      some ({ s with main := if res.unknownJob then .storeResultUnknown else .finished },
        .heard res.unknownJob)
  | .resultSent n result, .result (.error _) =>
      some ({ s with
        main := if n + 1 < reportResultMaxRetries then .resultSleep n result else .finished },
        .silent)
  | .resultSleep n result, .wake => some ({ s with main := .attempt (n + 1) result }, .silent)
  | .storeResultUnknown, .run =>
      some ({ s with
        main := .finished
        unknownJob := true }, .silent)
  | _, _ => none

def step (s : Assigned) : AssignedAct → Option (Assigned × AssignedOut)
  | .main act => s.stepMain job act
  | .preflightProgress act => (s.preflightProgress.step s.flags act).map fun res =>
      ({ s.setFlags res.2.1 with preflightProgress := res.1 }, res.2.2)
  | .progress act => (s.progress.step s.flags act).map fun res =>
      ({ s.setFlags res.2.1 with progress := res.1 }, res.2.2)
  | .fetcher i act => do
      let f ← s.fetchers[i]?
      let (f, flags, out) ← f.step s.flags act
      return ({ s.setFlags flags with fetchers := s.fetchers.set i f }, out)
  | .writeReturns succeeds =>
      if s.writing then
        some ({ s with
          writing := false
          roots := match job.cleanedWriteRoot? with
            | none => s.roots
            | some root => removeRoot cleanupRoot job.mountPoint root succeeds s.roots },
          .silent)
      else none
  | .shutdown => some ({ s with cancelled := true }, .silent)

end Assigned

namespace Assigned

variable (job : AssignedJob)

inductive MainMove (s : Assigned) : MainAct → Assigned → AssignedOut → Prop where
  | preflight (calls : PreflightCalls) : s.main = .preflight →
      MainMove s (.preflight calls) (s.preflight job calls) .silent
  | readyError (act : MainAct) (s' : Assigned) (o : AssignedOut) :
      s.stepReadyError act = some (s', o) → MainMove s act s' o
  | leaveCancelled : s.main = .barrier → s.cancelled = true →
      MainMove s .run { s with main := .reportCancelled } .silent
  | askReady : s.main = .barrier → s.cancelled = false →
      MainMove s .run { s with main := .ready } .silent
  | readyOk (res : ReportReadyResponse) : s.main = .ready →
      MainMove s (.ready (.ok res)) { s with main := readyAnswer res } (.heard res.unknownJob)
  | readyFailed (err : String) : s.main = .ready →
      MainMove s (.ready (.error err)) { s with main := .barrierSleep } .silent
  | barrierAgain : s.main = .barrierSleep → MainMove s .wake { s with main := .barrier } .silent
  | reportCancelled : s.main = .reportCancelled →
      MainMove s .run { s with main := .cancelledSent } (.reportResult true (some "cancelled"))
  | cancelledOk (res : ReportResultResponse) : s.main = .cancelledSent →
      MainMove s (.result (.ok res)) { s with main := .finished } (.heard res.unknownJob)
  | cancelledFailed (err : String) : s.main = .cancelledSent →
      MainMove s (.result (.error err)) { s with main := .finished } .silent
  | storeUnknown : s.main = .storeUnknown → MainMove s .run
      { s with
        main := .finished
        unknownJob := true } .silent
  | startWorkload : s.main = .waitStart → MainMove s .wake (s.startWorkload job) .silent
  | returned (outcome : RunnerOutcome) : s.main = .workload → s.writing = false →
      (∀ f ∈ s.fetchers, f = .finished) → MainMove s (.returned outcome)
      { s with
        main := .cleanup outcome
        progress := s.progress.abort } .silent
  | cleanup (outcome : RunnerOutcome) (succeeds : Bool) : s.main = .cleanup outcome →
      MainMove s (.cleanup succeeds)
      { s with
        main := .checkUnknown outcome
        roots := match job.prebuiltRoot? with
          | none => s.roots
          | some root => removeRoot bestEffortCleanup job.mountPoint root succeeds s.roots } .silent
  | skip (outcome : RunnerOutcome) : s.main = .checkUnknown outcome → s.unknownJob = true →
      MainMove s .run { s with main := .finished } .silent
  | goOn (outcome : RunnerOutcome) : s.main = .checkUnknown outcome → s.unknownJob = false →
      MainMove s .run { s with main := .buildResult outcome } .silent
  | buildResult (outcome : RunnerOutcome) : s.main = .buildResult outcome → MainMove s .run
      { s with main := .attempt 0 (outcome.result s.cancelled) } .silent
  | giveUp (n : Nat) (result : Bool × Option String) : s.main = .attempt n result →
      s.unknownJob = true → MainMove s .run { s with main := .finished } .silent
  | send (n : Nat) (result : Bool × Option String) : s.main = .attempt n result →
      s.unknownJob = false → MainMove s .run { s with main := .resultSent n result }
      (.reportResult result.1 result.2)
  | resultOk (n : Nat) (result : Bool × Option String) (res : ReportResultResponse) :
      s.main = .resultSent n result → MainMove s (.result (.ok res))
      { s with main := if res.unknownJob then .storeResultUnknown else .finished }
      (.heard res.unknownJob)
  | resultFailed (n : Nat) (result : Bool × Option String) (err : String) :
      s.main = .resultSent n result → MainMove s (.result (.error err))
      { s with
        main := if n + 1 < reportResultMaxRetries then .resultSleep n result else .finished }
      .silent
  | retry (n : Nat) (result : Bool × Option String) : s.main = .resultSleep n result →
      MainMove s .wake { s with main := .attempt (n + 1) result } .silent
  | storeResultUnknown : s.main = .storeResultUnknown → MainMove s .run
      { s with
        main := .finished
        unknownJob := true } .silent

variable {job} {s s' : Assigned} {o : AssignedOut}

theorem FetchPc.isFinished_iff {f : FetchPc} : f.isFinished = true ↔ f = .finished := by
  cases f <;> simp [FetchPc.isFinished]

theorem stepMain_move {act : MainAct} (h : s.stepMain job act = some (s', o)) :
    s.MainMove job act s' o := by
  unfold stepMain at h
  split at h
  · next hmain =>
    cases h
    exact .preflight _ hmain
  · exact .readyError _ _ _ h
  · exact .readyError _ _ _ h
  · exact .readyError _ _ _ h
  · next hmain =>
    by_cases hcancelled : s.cancelled = true
    · rw [if_pos hcancelled] at h
      cases h
      exact .leaveCancelled hmain hcancelled
    · rw [if_neg hcancelled] at h
      cases h
      exact .askReady hmain (by simpa using hcancelled)
  · next hmain =>
    cases h
    exact .readyOk _ hmain
  · next hmain =>
    cases h
    exact .readyFailed _ hmain
  · next hmain =>
    cases h
    exact .barrierAgain hmain
  · next hmain =>
    cases h
    exact .reportCancelled hmain
  · next hmain =>
    cases h
    exact .cancelledOk _ hmain
  · next hmain =>
    cases h
    exact .cancelledFailed _ hmain
  · next hmain =>
    cases h
    exact .storeUnknown hmain
  · next hmain =>
    cases h
    exact .startWorkload hmain
  · next hmain =>
    split at h
    · next hdone =>
      cases h
      simp only [Bool.and_eq_true, Bool.not_eq_true', List.all_eq_true] at hdone
      refine .returned _ hmain hdone.1 ?_
      intro f hf
      exact FetchPc.isFinished_iff.mp (hdone.2 f hf)
    · cases h
  · next hmain =>
    cases h
    exact .cleanup _ _ hmain
  · next outcome hmain =>
    by_cases hunknown : s.unknownJob = true
    · rw [if_pos hunknown] at h
      cases h
      exact .skip outcome hmain hunknown
    · rw [if_neg hunknown] at h
      cases h
      exact .goOn outcome hmain (by simpa using hunknown)
  · next outcome hmain =>
    cases h
    exact .buildResult outcome hmain
  · next n result hmain =>
    split at h
    · next hunknown =>
      cases h
      exact .giveUp n result hmain hunknown
    · next hunknown =>
      cases h
      exact .send n result hmain (by simpa using hunknown)
  · next n result res hmain =>
    cases h
    exact .resultOk n result res hmain
  · next n result err hmain =>
    cases h
    exact .resultFailed n result err hmain
  · next n result hmain =>
    cases h
    exact .retry n result hmain
  · next hmain =>
    cases h
    exact .storeResultUnknown hmain
  · cases h

theorem stepReadyError_spec {act : MainAct} (h : s.stepReadyError act = some (s', o)) :
    ∃ main, s' = { s with main } ∧
      (∃ n, s.main = .readyError n ∨ s.main = .readyErrorSent n ∨ s.main = .readyErrorSleep n) ∧
      (main = .finished ∨
        ∃ n, main = .readyError n ∨ main = .readyErrorSent n ∨ main = .readyErrorSleep n) ∧
      (o = .silent ∨ ∃ unknown, o = .heard unknown) := by
  unfold stepReadyError at h
  split at h
  · next n hmain =>
    cases h
    exact ⟨_, rfl, ⟨n, .inl hmain⟩, .inr ⟨n, .inr (.inl rfl)⟩, .inl rfl⟩
  · next n res hmain =>
    cases h
    exact ⟨_, rfl, ⟨n, .inr (.inl hmain)⟩, .inl rfl, .inr ⟨_, rfl⟩⟩
  · next n err hmain =>
    cases h
    refine ⟨_, rfl, ⟨n, .inr (.inl hmain)⟩, ?_, .inl rfl⟩
    split
    · exact .inr ⟨n, .inr (.inr rfl)⟩
    · exact .inl rfl
  · next n hmain =>
    cases h
    exact ⟨_, rfl, ⟨n, .inr (.inr hmain)⟩, .inr ⟨n + 1, .inl rfl⟩, .inl rfl⟩
  · cases h

inductive Move (job : AssignedJob) (s : Assigned) :
    AssignedAct → Assigned → AssignedOut → Prop where
  | main (act : MainAct) (s' : Assigned) (o : AssignedOut) :
      s.MainMove job act s' o → Move job s (.main act) s' o
  | preflightProgress (act : ProgressAct) (t : ProgressTask) (flags : JobFlags) (o : AssignedOut) :
      s.preflightProgress.step s.flags act = some (t, flags, o) →
      Move job s (.preflightProgress act) { s.setFlags flags with preflightProgress := t } o
  | progress (act : ProgressAct) (t : ProgressTask) (flags : JobFlags) (o : AssignedOut) :
      s.progress.step s.flags act = some (t, flags, o) →
      Move job s (.progress act) { s.setFlags flags with progress := t } o
  | fetcher (i : Nat) (act : FetchAct) (f f' : FetchPc) (flags : JobFlags) (o : AssignedOut) :
      s.fetchers[i]? = some f → f.step s.flags act = some (f', flags, o) →
      Move job s (.fetcher i act) { s.setFlags flags with fetchers := s.fetchers.set i f' } o
  | writeReturns (succeeds : Bool) : s.writing = true → Move job s (.writeReturns succeeds)
      { s with
        writing := false
        roots := match job.cleanedWriteRoot? with
          | none => s.roots
          | some root => removeRoot cleanupRoot job.mountPoint root succeeds s.roots } .silent
  | shutdown : Move job s .shutdown { s with cancelled := true } .silent

theorem step_move {act : AssignedAct} (h : s.step job act = some (s', o)) :
    Move job s act s' o := by
  unfold step at h
  split at h
  · exact .main _ _ _ (stepMain_move h)
  · obtain ⟨⟨t, flags, out⟩, hstep, heq⟩ := Option.map_eq_some_iff.mp h
    cases heq
    exact .preflightProgress _ _ _ _ hstep
  · obtain ⟨⟨t, flags, out⟩, hstep, heq⟩ := Option.map_eq_some_iff.mp h
    cases heq
    exact .progress _ _ _ _ hstep
  · obtain ⟨f, hf, h⟩ := Option.bind_eq_some_iff.mp h
    obtain ⟨⟨f', flags, out⟩, hstep, heq⟩ := Option.bind_eq_some_iff.mp h
    cases heq
    exact .fetcher _ _ _ _ _ _ hf hstep
  · split at h
    · next hwriting =>
      cases h
      exact .writeReturns _ hwriting
    · cases h
  · cases h
    exact .shutdown

end Assigned

/-- `run_assigned_job`. A job that is refused gets its error reported, and no task is spawned. -/
def assigned : Assignment → Machine Assigned AssignedAct AssignedOut
  | .ignored => ⟨.start .finished .over, fun _ _ => none⟩
  | .refused => ⟨.start (.readyError 0) .over, fun s act => match act with
      | .main act => s.stepReadyError act
      | _ => none⟩
  | .accepted job => ⟨.start .preflight .spawn, Assigned.step job⟩

abbrev AssignedTrace := List (Event Assigned AssignedAct AssignedOut)

end CvdBench.Worker
