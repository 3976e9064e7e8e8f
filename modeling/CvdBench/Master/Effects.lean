import CvdBench.Master.Lifecycle
import CvdBench.Master.System

/-!
What one section does to the shared state. `Effect` is the list of all cases, and
`Section` adds what the tasks it spawns rely on. Everything later goes by these cases
and does not open the sections again.
-/

set_option autoImplicit false

namespace CvdBench.Master

open Foundation Proto

/-- The job was created and is gone or terminal; both last. -/
def Dead (issued : Finset JobId) (jobs : HashMap JobId JobRecord) (id : JobId) : Prop :=
  id ∈ issued ∧ ∀ r, jobs.get? id = some r → r.isTerminal = true

def Reported (issued : Finset JobId) (jobs : HashMap JobId JobRecord) (w : WorkerId)
    (id : JobId) : Prop :=
  id ∈ issued ∧ ∀ r, jobs.get? id = some r →
    r.isTerminal = true ∨ w ∈ r.workerResults.keys

theorem Dead.reported {issued : Finset JobId} {jobs : HashMap JobId JobRecord} {id : JobId}
    (h : Dead issued jobs id) (w : WorkerId) : Reported issued jobs w id :=
  ⟨h.1, fun r hr => .inl (h.2 r hr)⟩

/-- What a task in flight may rely on. -/
def Task.Ok (issued : Finset JobId) (jobs : HashMap JobId JobRecord) : Task → Prop
  | .createPush id => id ∈ issued
  | .deleteFinalize id _ _ | .deleteDequeue id _ | .deleteRelease id _
  | .manifestRelease id _ | .manifestFinalize id => Dead issued jobs id
  | .readyRelease req _ | .readyFinalize req => Dead issued jobs req.jobId
  | .resultFinalize req _ => Dead issued jobs req.jobId
  | .resultRelease req w unknownJob =>
      unknownJob = false → Reported issued jobs w req.jobId
  | .tickRelease toClean => ∀ p ∈ toClean, Dead issued jobs p.1
  | .tickFinalize ids | .gcRemove ids => ∀ id ∈ ids, Dead issued jobs id
  | .manifestReader id =>
      id ∈ issued ∧ ∀ r, jobs.get? id = some r → r.status ≠ .pending
  | .tickScan _ | .gcScan _ | .batchDrain .. | .batchAddPermits .. | .batchLoadDone ..
  | .batchIsEmpty .. => True

def Task.Follows (issued : Finset JobId) (jobs : HashMap JobId JobRecord) : Task → Prop
  | .createPush _ => False
  | t => t.Ok issued jobs

def Task.releases : Task → List (JobId × List WorkerId)
  | .deleteFinalize id _ workers | .deleteDequeue id workers | .deleteRelease id workers
  | .manifestRelease id workers => [(id, workers)]
  | .readyRelease req workers => [(req.jobId, workers)]
  | .resultFinalize req w | .resultRelease req w _ => [(req.jobId, [w])]
  | .tickRelease toClean => toClean
  | _ => []

def Task.owes (t : Task) (w : WorkerId) (id : JobId) : Prop :=
  ∃ workers, (id, workers) ∈ t.releases ∧ w ∈ workers

/-- Every task but the release after a report that the master did not accept. -/
def Task.acknowledged : Task → Bool
  | .resultRelease _ _ unknownJob => !unknownJob
  | _ => true

def Tells (m m' : MasterState) (ids : JobId → Prop) : Prop :=
  ∃ calls, m'.subscribers = m.subscribers ++ calls ∧
    ∀ id event, RegistryCall.broadcast id event ∈ calls → ids id

structure Kept (m m' : MasterState) : Prop where
  queue : m'.pendingQueue = m.pendingQueue
  active : m'.workerActiveJobs = m.workerActiveJobs

/-- The record `r` of the job became `r'`, and the only job announced is this one. -/
structure Wrote (m m' : MasterState) (id : JobId) (r r' : JobRecord) : Prop where
  found : m.jobs.get? id = some r
  jobs : m'.jobs = m.jobs.put id r'
  tells : Tells m m' fun j => j = id ∧ r.isTerminal = false

def PendingAt (jobs : HashMap JobId JobRecord) (id : JobId) : Prop :=
  ∃ r, jobs.get? id = some r ∧ r.status = .pending

/-- A fresh slot of the first pending job of the queue goes to `w`. -/
structure Slot (m : MasterState) (w : WorkerId) (now : Instant) (skipped : List JobId)
    (id : JobId) (rest : List JobId) (r r₁ : JobRecord) : Prop where
  noReplay : replay m w = none
  valid : Spec.validateWorkerId w = .ok ()
  queue : m.pendingQueue = skipped ++ id :: rest
  skips : ∀ id' ∈ skipped, ¬ PendingAt m.jobs id'
  pending : r.status = .pending
  slot : r₁ = (r.withSlot w).note (r.workerLastSeen.put w now) r.latestProgress

variable {H : Type} (env : MasterEnv H)

def tickVerdict (amb : Ambient) (now : Instant) (id : JobId) (r : JobRecord) : Option String :=
  if r.status = .preparing ∨ r.status = .running then
    tickReason env.config.scheduler (amb.order id) r now
  else none

inductive Effect (c : Choice) (m : MasterState) (cur : Option Task) (o : Outcome) : Prop where
  | idle : o.state.jobs = m.jobs → Kept m o.state → Tells m o.state (fun _ => False) →
      Effect c m cur o
  | noted {id r} (seen progress) : Wrote m o.state id r (r.note seen progress) →
      Kept m o.state → Effect c m cur o
  | resulted {r} (req result seen progress) : c.act = .reportResult req →
      req.result = some result →
      Wrote m o.state req.jobId r ((r.withResult result).note seen progress) →
      Kept m o.state → r.Takes result → result.success = true →
      (r.withResult result).workerResults.len ≠ r.runWorkers.card →
      o.spawn = [.resultRelease req result.workerId false] → Effect c m cur o
  | readied {r} (req seen) : c.act = .reportReady req → req.error = none →
      Wrote m o.state req.jobId r ((r.withReady req.workerId).note seen r.latestProgress) →
      Kept m o.state → r.status = .preparing ∨ r.status = .pending →
      req.workerId ∈ r.workerAssignments.keys →
      barrierOpens (r.withReady req.workerId) = false → o.spawn = [] → Effect c m cur o
  | started {r} (req seen) : c.act = .reportReady req → req.error = none →
      Wrote m o.state req.jobId r
        (((r.withReady req.workerId).note seen r.latestProgress).start
          (wrapI64 (c.amb.nowMs 0 + startDelayMs env.config))) →
      Kept m o.state → req.workerId ∈ r.workerAssignments.keys →
      barrierOpens (r.withReady req.workerId) = true → o.spawn = [] → Effect c m cur o
  /-- a terminal transition that will release every assigned worker -/
  | ended {id r r₀} (seen progress order nowMs t) : r.Ends r₀ →
      r₀.workerResults = r.workerResults →
      Wrote m o.state id r ((r₀.note seen progress).closed env.hdr order nowMs) →
      Kept m o.state → o.spawn = [t] → t.acknowledged = true →
      (∀ w ∈ r.workerAssignments.keys, t.owes w id) → Effect c m cur o
  /-- the terminal transition of `report_result`, which will release the reporter -/
  | concluded {r r₀} (req result seen progress order nowMs) : c.act = .reportResult req →
      req.result = some result → r.Takes result → r.Ends r₀ →
      r₀.workerResults = (r.withResult result).workerResults →
      Wrote m o.state req.jobId r ((r₀.note seen progress).closed env.hdr order nowMs) →
      Kept m o.state →
      (result.success = true → (r.withResult result).workerResults.len = r.runWorkers.card) →
      o.spawn = [.resultFinalize req result.workerId] → Effect c m cur o
  | ticked (now toClean) : cur = some (.tickScan now) → Kept m o.state →
      (∀ id r, m.jobs.get? id = some r → tickVerdict env c.amb now id r = none →
        o.state.jobs.get? id = some r) →
      (∀ id r reason, m.jobs.get? id = some r → tickVerdict env c.amb now id r = some reason →
        ∃ order nowMs, o.state.jobs.get? id =
          some ({ r with status := .failed, error := some reason }.closed env.hdr order nowMs)) →
      (∀ id, m.jobs.get? id = none → o.state.jobs.get? id = none) →
      (∀ id r reason, m.jobs.get? id = some r → tickVerdict env c.amb now id r = some reason →
        ∃ workers, (id, workers) ∈ toClean ∧ ∀ w ∈ r.workerAssignments.keys, w ∈ workers) →
      Tells m o.state (fun id => ∃ r reason, m.jobs.get? id = some r ∧
        tickVerdict env c.amb now id r = some reason) →
      (toClean = [] ∧ o.spawn = [] ∨ o.spawn = [.tickRelease toClean]) → Effect c m cur o
  | created {spec id r} : c.act = .createJob spec id → prepareJob env c.amb spec id = .ok r →
      o.state.jobs = m.jobs.put id r → Kept m o.state →
      Tells m o.state (fun j => j = id) → o.spawn = [.createPush id] → Effect c m cur o
  | pushed (id) : cur = some (.createPush id) → o.state.jobs = m.jobs →
      o.state.pendingQueue = m.pendingQueue ++ [id] →
      o.state.workerActiveJobs = m.workerActiveJobs → Tells m o.state (fun _ => False) →
      o.reply = some (.createJob (.ok ⟨id⟩)) → o.spawn = [] → Effect c m cur o
  | dequeued (id workers) : cur = some (.deleteDequeue id workers) →
      o.state.jobs = m.jobs → o.state.pendingQueue = m.pendingQueue.erase id →
      o.state.workerActiveJobs = m.workerActiveJobs → Tells m o.state (fun _ => False) →
      Effect c m cur o
  | fetchedNone (w) : c.act = .fetchJob w → replay m w = none →
      (∀ id ∈ m.pendingQueue, ¬ PendingAt m.jobs id) → o.state.jobs = m.jobs →
      o.state.pendingQueue = [] → o.state.workerActiveJobs = m.workerActiveJobs.remove w →
      Tells m o.state (fun _ => False) → o.spawn = [] → Effect c m cur o
  | assigned {w skipped id rest r r₁} : c.act = .fetchJob w →
      Slot m w (c.amb.instant 0) skipped id rest r r₁ → (r.withSlot w).slotsRemaining ≠ 0 →
      Wrote m o.state id r r₁ → o.state.pendingQueue = id :: rest →
      o.state.workerActiveJobs = (m.workerActiveJobs.remove w).put w id → o.spawn = [] →
      Effect c m cur o
  | filled {w skipped id rest r r₁} (fileQueue manifestHandle) : c.act = .fetchJob w →
      Slot m w (c.amb.instant 0) skipped id rest r r₁ → (r.withSlot w).slotsRemaining = 0 →
      Wrote m o.state id r (r₁.filled (c.amb.instant 1) fileQueue manifestHandle) →
      o.state.pendingQueue = rest →
      o.state.workerActiveJobs = (m.workerActiveJobs.remove w).put w id →
      (o.spawn = [] ∨ o.spawn = [.manifestReader id]) → Effect c m cur o
  | released (t : Task) : cur = some t → o.state.jobs = m.jobs →
      o.state.pendingQueue = m.pendingQueue →
      o.state.workerActiveJobs = (releaseAll m t.releases).workerActiveJobs →
      Tells m o.state (fun _ => False) → Effect c m cur o
  | collected (ids) : cur = some (.gcRemove ids) → o.state.jobs = m.jobs.removeAll ids →
      Kept m o.state → Tells m o.state (fun _ => False) → o.spawn = [] → Effect c m cur o

/-- A section: its effect, what its tasks rely on, and that it passes on the releases
that the task it ran still owed. -/
structure Section (c : Choice) (s : Sys) (cur : Option Task) (o : Outcome) : Prop where
  effect : Effect env c s.master cur o
  spawned : ∀ t ∈ o.spawn, t.Follows s.issued o.state.jobs
  owed : ∀ t ∈ cur, ∀ w id, t.owes w id →
    o.state.workerActiveJobs.get? w ≠ some id ∨
      ∃ t' ∈ o.spawn, t'.owes w id ∧ t'.acknowledged = true

structure Sys.Ok (s : Sys) : Prop where
  issued : ∀ id r, s.master.jobs.get? id = some r → id ∈ s.issued
  keyed : ∀ id r, s.master.jobs.get? id = some r → r.jobId = id
  coherent : ∀ id r, s.master.jobs.get? id = some r → r.Coherent
  tasks : ∀ t ∈ s.inflight, t.Ok s.issued s.master.jobs

end CvdBench.Master
