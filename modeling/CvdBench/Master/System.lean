import CvdBench.Foundation.Machine
import CvdBench.Master.Service
import Mathlib.Data.String.Basic

/-!
The master as a machine. One step is one lock section of one handler, so a run is an
interleaving of the sections of all handlers, watchers and manifest readers.
-/

set_option autoImplicit false

namespace CvdBench.Master

open Foundation Proto

inductive Action where
  | createJob (spec : Option BenchSpec) (id : JobId)
  | watchJob (id : JobId)
  | queryJob (id : JobId)
  | deleteJob (id : JobId)
  | listJobs (req : ListJobsRequest)
  | fetchJob (workerId : WorkerId)
  | reportReady (req : ReportReadyRequest)
  | fetchFileBatch (req : FetchFileBatchRequest)
  | reportProgress (req : ReportProgressRequest)
  | reportResult (req : ReportResultRequest)
  | staleTick
  | gcTick
  | resume (i : Nat)
  | readerAct (i : Nat) (act : ReaderAct)
  | readerFail (i : Nat) (reason : String)
  | readerExit (i : Nat)

/-- What the scheduler chooses: the section that runs, and what it reads. -/
structure Choice where
  act : Action
  amb : Ambient

/-- The shared state, the tasks in flight, and the ids that `Uuid::new_v4` returned so
far: it returns no id twice. -/
structure Sys where
  master : MasterState
  inflight : List Task
  issued : Finset JobId

def Sys.init : Sys := ⟨.new, [], ∅⟩

def Sys.after (s : Sys) (rest : List Task) (o : Outcome) : Sys × Option Reply :=
  ({ s with master := o.state, inflight := rest ++ o.spawn }, o.reply)

section

variable {H : Type} (env : MasterEnv H)

/-- The next section of a task; a manifest reader has none, it acts on its own. -/
def Task.run (amb : Ambient) (m : MasterState) : Task → Option Outcome
  | .createPush id => some (createPushSection m id)
  | .deleteFinalize id wasPending workers =>
      some (deleteFinalizeSection m id wasPending workers)
  | .deleteDequeue id workers => some (deleteDequeueSection m id workers)
  | .deleteRelease id workers => some (deleteReleaseSection m id workers)
  | .readyRelease req workers => some (readyReleaseSection m req workers)
  | .readyFinalize req => some (readyFinalizeSection amb m req)
  | .resultFinalize req workerId => some (resultFinalizeSection m req workerId)
  | .resultRelease req workerId unknownJob =>
      some (resultReleaseSection m req workerId unknownJob)
  | .tickScan now => some (tickScanSection env amb m now)
  | .tickRelease toClean => some (tickReleaseSection m toClean)
  | .tickFinalize jobIds => some (tickFinalizeSection m jobIds)
  | .gcScan cutoffMs => some (gcScanSection amb m cutoffMs)
  | .gcRemove toRemove => some (gcRemoveSection m toRemove)
  | .manifestReader _ => none
  | .manifestRelease id workers => some (manifestReleaseSection m id workers)
  | .manifestFinalize id => some (manifestFinalizeSection m id)
  | .batchDrain req cell batchSize => some (batchDrainSection m req cell batchSize)
  | .batchAddPermits req cell files => some (batchAddPermitsSection m req cell files)
  | .batchLoadDone req cell => some (batchLoadDoneSection m req cell)
  | .batchIsEmpty req cell => some (batchIsEmptySection m req cell)

def Sys.readerAt (s : Sys) (i : Nat) : Option JobId :=
  match s.inflight[i]? with
  | some (.manifestReader id) => some id
  | _ => none

def startAction (amb : Ambient) (m : MasterState) : Action → Option Outcome
  | .createJob spec id => some (createJob env amb m spec id)
  | .watchJob id => some (watchJob amb m id)
  | .queryJob id => some (queryJob amb m id)
  | .deleteJob id => some (deleteJob env amb m id)
  | .listJobs req => some (listJobs amb m req)
  | .fetchJob workerId => some (fetchJob env amb m workerId)
  | .reportReady req => some (reportReady env amb m req)
  | .fetchFileBatch req => some (fetchFileBatch amb m req)
  | .reportProgress req => some (reportProgress amb m req)
  | .reportResult req => some (reportResult env amb m req)
  | .staleTick => some (.continue m (.tickScan (amb.instant 0)))
  | .gcTick => some (gcTick env amb m)
  | _ => none

def Sys.resume (s : Sys) (amb : Ambient) (i : Nat) : Option (Sys × Option Reply) := do
  let t ← s.inflight[i]?
  let o ← t.run env amb s.master
  return s.after (s.inflight.eraseIdx i) o

def Sys.readerAct (s : Sys) (i : Nat) (act : ReaderAct) : Option (Sys × Option Reply) := do
  let id ← s.readerAt i
  let cell ← act.apply (s.master.cells id)
  return ({ s with master := s.master.setCell id cell }, none)

def Sys.readerFail (s : Sys) (amb : Ambient) (i : Nat) (reason : String) :
    Option (Sys × Option Reply) := do
  let id ← s.readerAt i
  return s.after (s.inflight.eraseIdx i) (failJobDueToManifest env amb s.master id reason)

def Sys.readerExit (s : Sys) (i : Nat) : Option (Sys × Option Reply) := do
  let _ ← s.readerAt i
  return ({ s with inflight := s.inflight.eraseIdx i }, none)

def Sys.step (s : Sys) (c : Choice) : Option (Sys × Option Reply) :=
  match c.act with
  | .resume i => s.resume env c.amb i
  | .readerAct i act => s.readerAct i act
  | .readerFail i reason => s.readerFail env c.amb i reason
  | .readerExit i => s.readerExit i
  | .createJob spec id =>
      if id ∈ s.issued then none
      else some ({ s with issued := insert id s.issued }.after s.inflight
        (createJob env c.amb s.master spec id))
  | act => (startAction env c.amb s.master act).map (s.after s.inflight)

/-- What one step does: a section runs, of a task in flight or of a new call, or a manifest
reader acts. -/
inductive Sys.Steps (s : Sys) (c : Choice) : Sys × Option Reply → Prop where
  | resume {i : Nat} {t : Task} {o : Outcome} (hact : c.act = .resume i)
      (ht : s.inflight[i]? = some t) (ho : t.run env c.amb s.master = some o) :
      Steps s c (s.after (s.inflight.eraseIdx i) o)
  | readerAct {i : Nat} {act : ReaderAct} {id : JobId} {cell : ManifestCell}
      (hact : c.act = .readerAct i act) (hid : s.readerAt i = some id)
      (hcell : act.apply (s.master.cells id) = some cell) :
      Steps s c ({ s with master := s.master.setCell id cell }, none)
  | readerFail {i : Nat} {reason : String} {id : JobId} (hact : c.act = .readerFail i reason)
      (hid : s.readerAt i = some id) :
      Steps s c (s.after (s.inflight.eraseIdx i)
        (failJobDueToManifest env c.amb s.master id reason))
  | readerExit {i : Nat} {id : JobId} (hact : c.act = .readerExit i)
      (hid : s.readerAt i = some id) :
      Steps s c ({ s with inflight := s.inflight.eraseIdx i }, none)
  | created {spec : Option BenchSpec} {id : JobId} (hact : c.act = .createJob spec id)
      (hissued : id ∉ s.issued) :
      Steps s c ({ s with issued := insert id s.issued }.after s.inflight
        (createJob env c.amb s.master spec id))
  | started {o : Outcome} (hnew : ∀ spec id, c.act ≠ .createJob spec id)
      (hold : ∀ i, c.act ≠ .resume i)
      (ho : startAction env c.amb s.master c.act = some o) : Steps s c (s.after s.inflight o)

variable {env} in
theorem Sys.step_cases {s : Sys} {c : Choice} {res : Sys × Option Reply}
    (h : s.step env c = some res) : s.Steps env c res := by
  unfold Sys.step at h
  cases hact : c.act with
  | resume i =>
    simp only [hact, Sys.resume, Option.bind_eq_bind, Option.bind_eq_some_iff,
      Option.pure_def, Option.some.injEq] at h
    obtain ⟨t, ht, o, ho, rfl⟩ := h
    exact .resume hact ht ho
  | readerAct i act =>
    simp only [hact, Sys.readerAct, Option.bind_eq_bind, Option.bind_eq_some_iff,
      Option.pure_def, Option.some.injEq] at h
    obtain ⟨id, hid, cell, hcell, rfl⟩ := h
    exact .readerAct hact hid hcell
  | readerFail i reason =>
    simp only [hact, Sys.readerFail, Option.bind_eq_bind, Option.bind_eq_some_iff,
      Option.pure_def, Option.some.injEq] at h
    obtain ⟨id, hid, rfl⟩ := h
    exact .readerFail hact hid
  | readerExit i =>
    simp only [hact, Sys.readerExit, Option.bind_eq_bind, Option.bind_eq_some_iff,
      Option.pure_def, Option.some.injEq] at h
    obtain ⟨id, hid, rfl⟩ := h
    exact .readerExit hact hid
  | createJob spec id =>
    simp only [hact] at h
    split at h
    · cases h
    · next hissued =>
      obtain rfl := Option.some.inj h
      exact .created hact hissued
  | watchJob | queryJob | deleteJob | listJobs | fetchJob | reportReady | fetchFileBatch
  | reportProgress | reportResult | staleTick | gcTick =>
    simp only [hact] at h
    rw [← hact, Option.map_eq_some_iff] at h
    obtain ⟨o, ho, rfl⟩ := h
    exact .started (by simp [hact]) (by simp [hact]) ho

variable {env} in
theorem Sys.step_resume {s : Sys} {c : Choice} {i : Nat} {t : Task} {o : Outcome}
    (hact : c.act = .resume i) (ht : s.inflight[i]? = some t)
    (ho : t.run env c.amb s.master = some o) :
    s.step env c = some (s.after (s.inflight.eraseIdx i) o) := by
  unfold Sys.step
  simp only [hact, Sys.resume, ht, Option.bind_eq_bind, Option.bind_some, ho, Option.pure_def]

variable {env} in
theorem Sys.step_call {s : Sys} {c : Choice} {o : Outcome}
    (hnew : ∀ spec id, c.act ≠ .createJob spec id)
    (ho : startAction env c.amb s.master c.act = some o) :
    s.step env c = some (s.after s.inflight o) := by
  unfold Sys.step
  cases hact : c.act with
  | createJob spec id => exact absurd hact (hnew spec id)
  | resume | readerAct | readerFail | readerExit =>
    rw [hact] at ho
    cases ho
  | watchJob | queryJob | deleteJob | listJobs | fetchJob | reportReady | fetchFileBatch
  | reportProgress | reportResult | staleTick | gcTick =>
    simp only
    rw [← hact, ho, Option.map_some]

def machine : Machine Sys Choice (Option Reply) := ⟨.init, Sys.step env⟩

abbrev Step := Event Sys Choice (Option Reply)

abbrev Trace := List Step

end

namespace Small

def hdr : Metrics.HdrLib Unit :=
  { decode := fun _ => none, add := fun _ _ => none, encodeV2Compressed := fun _ => none
    isEmpty := fun _ => true, valueAtQuantile := fun _ _ => 0, max := fun _ => 0
    mean := fun _ => 0 }

def env : MasterEnv Unit :=
  { config :=
      { scheduler :=
          { workerStaleness := 10000000000, jobRetention := 3600000000000
            prepareTimeout := 120000000000, startDelay := 5000000000
            fileQueueCapacity := 1024, dirQueueCapacity := 64, dirScanConcurrency := 4 }
        filesystems := HashMap.put ∅ "fs" "/mnt/fs" }
    hdr }

def amb (now : Instant) : Ambient :=
  { nowMs := fun _ => 1000, instant := fun _ => now
    order := fun _ => .ascending String, isFile := fun _ => true, openError := fun _ => none }

def spec (targetWorkers : Int) : BenchSpec :=
  { fsName := "fs", ioMode := "seq", ioAligned := true, directIo := false
    blockSize := "4096", duration := "1m", warmup := "", read := none
    write := some
      { concurrency := 1, dir := "out", fileSize := "4096", fileSizeRange := none
        fsync := false, cleanup := false, thinkTime := "", rateLimit := ""
        verifyAfterWrite := false }
    metadata := none, targetWorkers }

def result (workerId : WorkerId) (success : Bool) : WorkerResult :=
  { workerId, perOp := ∅, consistencyErrors := [], success, error := none
    effectiveDurationMs := 60000, measureStartMs := 1000, measureEndMs := 61000 }

def at0 (acts : List Action) : List Choice := acts.map fun act => ⟨act, amb 0⟩

def create (targetWorkers : Int) (id : JobId) : List Action :=
  [.createJob (some (spec targetWorkers)) id, .resume 0]

/-- A job that both of its workers, `a` and `b`, have fetched and prepared. -/
def running : List Action :=
  create 2 "j" ++ [.fetchJob "a", .fetchJob "b", .reportReady ⟨"j", "a", none⟩,
    .reportReady ⟨"j", "b", none⟩]

def report (w : WorkerId) (success : Bool) : ReportResultRequest :=
  ⟨"j", some (result w success)⟩

def delivered : List Action := running ++ [.reportResult (report "a" true)]

def completed : List Action :=
  delivered ++ [.resume 0, .reportResult (report "b" true), .resume 0, .resume 0]

def play (acts : List Action) : Sys := (machine env).play (machine env).init (at0 acts)

def delivery : Step :=
  ⟨play running, ⟨.reportResult (report "a" true), amb 0⟩, none, play delivered⟩

theorem delivery_mem (acts : List Action) :
    delivery ∈ (machine env).trace Sys.init (at0 (delivered ++ acts)) := by
  have hstep : (machine env).step delivery.pre delivery.act = some (delivery.post, none) := rfl
  exact (machine env).mem_trace Sys.init (at0 running) (at0 acts) hstep

end Small

end CvdBench.Master
