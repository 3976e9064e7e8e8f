import CvdBench.Worker.Assigned
import CvdBench.Worker.Clock

/-!
The phase of a job that a worker shows to the master: the main flow and the phase advancer
set it, and the two tasks that report progress read it. A task that is aborted goes on until
its next await, so it may still read or set the phase once.
-/

set_option autoImplicit false

namespace CvdBench.Worker

open Foundation Proto Spec

inductive LocalPhase where
  | preparing | waitingStart | warmup | measuring | cleanup | finished
  deriving DecidableEq, Repr

namespace LocalPhase

def toPb : LocalPhase → WorkerPhase
  | .preparing => .preparing
  | .waitingStart => .waitingStart
  | .warmup => .warmup
  | .measuring => .measuring
  | .cleanup => .cleanup
  | .finished => .finished

def code : LocalPhase → Nat
  | .preparing => 0
  | .waitingStart => 1
  | .warmup => 2
  | .measuring => 3
  | .cleanup => 4
  | .finished => 5

def fromU8 : Nat → LocalPhase
  | 0 => .preparing
  | 1 => .waitingStart
  | 2 => .warmup
  | 3 => .measuring
  | 4 => .cleanup
  | _ => .finished

@[simp] theorem fromU8_code (p : LocalPhase) : fromU8 p.code = p := by cases p <;> rfl

theorem code_le (p : LocalPhase) : p.code ≤ finished.code := by cases p <;> decide

end LocalPhase

/-- `AtomicU8` -/
structure PhaseTracker where
  bits : Nat
  deriving DecidableEq, Repr

def PhaseTracker.set (p : LocalPhase) : PhaseTracker := ⟨p.code⟩

def PhaseTracker.get (t : PhaseTracker) : LocalPhase := .fromU8 t.bits

@[simp] theorem PhaseTracker.get_set (p : LocalPhase) : (PhaseTracker.set p).get = p :=
  LocalPhase.fromU8_code p

structure PhaseTimes where
  startLocal : Instant
  measureStartLocal : Instant
  deadlineLocal : Instant
  deriving DecidableEq, Repr

/-- An instant that cannot be represented is a panic. -/
def phaseTimes (clock : MasterClockOffset) (startAtMs : Int) (spec : Spec.BenchSpec) :
    Option PhaseTimes := do
  let startLocal ← clock.masterToLocal startAtMs
  let measureStartLocal ← clock.masterToLocal (measureStartMs startAtMs spec.warmup)
  let deadlineLocal ← clock.masterToLocal (plannedEndMs startAtMs spec.warmup spec.duration)
  return ⟨startLocal, measureStartLocal, deadlineLocal⟩

inductive AdvancerPc where
  /-- before the flag is read, before the clock is read, and in the sleep of the loop that
  waits for the measurement -/
  | checkStart | clockStart | sleepStart
  | readWarmup | setMeasuring
  /-- the same of the loop that waits for the deadline -/
  | checkEnd | clockEnd | sleepEnd
  | readMeasuring | setCleanup
  | finished
  deriving DecidableEq, Repr

structure Advancer where
  pc : AdvancerPc
  aborted : Bool
  deriving DecidableEq, Repr

namespace Advancer

def spawn : Advancer := ⟨.checkStart, false⟩

def unspawned : Advancer := ⟨.finished, false⟩

def await (a : Advancer) (pc : AdvancerPc) : Advancer :=
  { a with pc := if a.aborted then .finished else pc }

def abort (a : Advancer) : Advancer :=
  match a.pc with
  | .sleepStart | .sleepEnd => ⟨.finished, true⟩
  | pc => ⟨pc, true⟩

def step (times : PhaseTimes) (now : Instant) (cancelled : Bool) (phase : PhaseTracker)
    (a : Advancer) : Option (Advancer × PhaseTracker) :=
  match a.pc with
  | .checkStart => some ({ a with pc := if cancelled then .finished else .clockStart }, phase)
  | .clockStart => some (if times.measureStartLocal ≤ now then { a with pc := .readWarmup }
      else a.await .sleepStart, phase)
  | .sleepStart => some ({ a with pc := .checkStart }, phase)
  | .readWarmup =>
      some ({ a with pc := if phase.get = .warmup then .setMeasuring else .checkEnd }, phase)
  | .setMeasuring => some ({ a with pc := .checkEnd }, .set .measuring)
  | .checkEnd => some ({ a with pc := if cancelled then .finished else .clockEnd }, phase)
  | .clockEnd => some (if times.deadlineLocal ≤ now then { a with pc := .readMeasuring }
      else a.await .sleepEnd, phase)
  | .sleepEnd => some ({ a with pc := .checkEnd }, phase)
  | .readMeasuring =>
      some ({ a with pc := if phase.get = .measuring then .setCleanup else .finished }, phase)
  | .setCleanup => some ({ a with pc := .finished }, .set .cleanup)
  | .finished => none

end Advancer

inductive Reporter where
  | preflight | workload
  deriving DecidableEq, Repr

/-- What a progress task has for its next report, once the flags have allowed it. -/
inductive Draft where
  | empty
  | begun
  | phase (p : LocalPhase)
  | timed (p : LocalPhase) (elapsedMs : Int)
  deriving DecidableEq, Repr

def ProgressTask.begins (flags : JobFlags) (t : ProgressTask) : Bool :=
  match t.pc with
  | .check => !(flags.cancelled || flags.unknownJob)
  | _ => false

/-- `elapsed_ms` -/
def reportedElapsedMs (clock : MasterClockOffset) (measureStartMs : Int) (now : Instant) : Int :=
  max (wrapI64 (clock.clockNowMaster now - measureStartMs)) 0

structure Phased where
  base : Assigned
  phase : PhaseTracker
  now : Instant
  clock : MasterClockOffset
  sentAt : Instant
  startAtMs : Int
  pending : Option LocalPhase
  /-- the wait for the start is over, and the phase is that of the hot loop -/
  entered : Option PhaseTimes
  advancer : Advancer
  preflightDraft : Draft
  draft : Draft

inductive PhasedAct where
  | elapse (d : Spec.Duration)
  | base (a : AssignedAct)
  | setPhase
  | enter
  | advance
  | readPhase (who : Reporter)
  | readClock (who : Reporter)
  | send (who : Reporter) (perOp : HashMap String PerformanceMetrics)

def phaseSet : MainPc → MainPc → Option LocalPhase
  | .preflight, .barrier => some .waitingStart
  | .barrier, .reportCancelled | .ready, .reportCancelled => some .finished
  | .storeUnknown, .finished => some .finished
  | .workload, .cleanup _ => some .cleanup
  | .checkUnknown _, .finished | .attempt _ _, .finished | .resultSent _ _, .finished
  | .storeResultUnknown, .finished => some .finished
  | _, _ => none

def MainPc.isWaitStart : MainPc → Bool
  | .waitStart => true
  | _ => false

namespace Phased

variable (job : AssignedJob)

def draftOf (s : Phased) : Reporter → Draft
  | .preflight => s.preflightDraft
  | .workload => s.draft

def setDraft (s : Phased) (who : Reporter) (draft : Draft) : Phased :=
  match who with
  | .preflight => { s with preflightDraft := draft }
  | .workload => { s with draft }

def blocks (s : Phased) : AssignedAct → Bool
  | .main _ => s.pending.isSome || (s.base.main.isWaitStart && s.entered.isNone)
  | .preflightProgress (.response _) => s.preflightDraft != .empty
  | .progress (.response _) => s.draft != .empty
  | _ => false

def timing (s : Phased) (act : MainAct) : Phased :=
  match s.base.main, act with
  | .barrier, .run => { s with sentAt := s.now }
  | .ready, .ready (.ok res) =>
      { s with
        clock := s.clock.refineWith res.masterNowMs s.sentAt s.now
        startAtMs := res.startAtMs }
  | _, _ => s

def advancerAfter (a : Advancer) : MainPc → MainPc → Advancer
  | .waitStart, .workload => .spawn
  | .workload, .cleanup _ => a.abort
  | _, _ => a

def after (s : Phased) (a : AssignedAct) (base : Assigned) : Phased :=
  match a with
  | .main act => { s.timing act with
      base
      pending := phaseSet s.base.main base.main
      advancer := advancerAfter s.advancer s.base.main base.main }
  | .preflightProgress .run => { s with
      base
      preflightDraft :=
        if s.base.preflightProgress.begins s.base.flags then .begun else s.preflightDraft }
  | .progress .run => { s with
      base
      draft := if s.base.progress.begins s.base.flags then .begun else s.draft }
  | _ => { s with base }

def firstPhase : LocalPhase := if job.spec.warmup = 0 then .measuring else .warmup

def enter (s : Phased) : Option Phased :=
  if s.base.main.isWaitStart ∧ s.pending = none ∧ s.entered = none then
    (phaseTimes s.clock s.startAtMs job.spec).bind fun times =>
      if times.startLocal ≤ s.now ∨ s.base.cancelled then
        some { s with
          phase := .set (firstPhase job)
          entered := some times }
      else none
  else none

def elapsedFor (fetched : MasterClockOffset) (s : Phased) : Reporter → Int
  | .preflight => reportedElapsedMs fetched 0 s.now
  | .workload => reportedElapsedMs s.clock (measureStartMs s.startAtMs job.spec.warmup) s.now

def request (who : Reporter) (p : LocalPhase) (elapsedMs : Int)
    (perOp : HashMap String PerformanceMetrics) : ReportProgressRequest :=
  ⟨job.jobId, some
    { workerId := job.workerId, elapsedMs
      perOp := if who = .workload ∧ p = .measuring then perOp else ∅
      phase := p.toPb.number }⟩

/-- `fetched` is the clock when the job was fetched. -/
def step (fetched : MasterClockOffset) (s : Phased) :
    PhasedAct → Option (Phased × Option (Reporter × ReportProgressRequest))
  | .elapse d => some ({ s with now := s.now + d }, none)
  | .base a =>
      if s.blocks a then none else (s.base.step job a).map fun res => (s.after a res.1, none)
  | .setPhase => s.pending.map fun p =>
      ({ s with
        phase := .set p
        pending := none }, none)
  | .enter => (s.enter job).map fun s' => (s', none)
  | .advance => s.entered.bind fun times =>
      (s.advancer.step times s.now s.base.cancelled s.phase).map fun res =>
        ({ s with
          advancer := res.1
          phase := res.2 }, none)
  | .readPhase who => match s.draftOf who with
      | .begun => some (s.setDraft who (.phase s.phase.get), none)
      | _ => none
  | .readClock who => match s.draftOf who with
      | .phase p => some (s.setDraft who (.timed p (s.elapsedFor job fetched who)), none)
      | _ => none
  | .send who perOp => match s.draftOf who with
      | .timed p elapsedMs =>
          some (s.setDraft who .empty, some (who, request job who p elapsedMs perOp))
      | _ => none

end Phased

/-- `run_assigned_job` with an accepted assignment, fetched at the instant `start`. -/
def phased (job : AssignedJob) (fetched : MasterClockOffset) (start : Instant) :
    Machine Phased PhasedAct (Option (Reporter × ReportProgressRequest)) where
  init :=
    { base := (assigned (.accepted job)).init, phase := .set .preparing, now := start
      clock := fetched, sentAt := start, startAtMs := 0, pending := none, entered := none
      advancer := .unspawned, preflightDraft := .empty, draft := .empty }
  step := Phased.step job fetched

end CvdBench.Worker
