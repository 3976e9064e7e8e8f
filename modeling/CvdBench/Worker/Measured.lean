import CvdBench.Metrics.PerOp
import CvdBench.Worker.IoTask
import CvdBench.Worker.Pacing
import CvdBench.Worker.TimedStream

/-!
The tasks of all workloads on a clock, as far as they record what they do: which step makes
an entry in the metrics, for which operation, and when that operation began and ended. The
waits for tokens and the think time are states in which the clock goes on. Instants are in
microseconds.
-/

set_option autoImplicit false

namespace CvdBench.Worker

open Foundation Metrics Proto

structure MeasureCfg where
  measureStart : Nat
  deadline : Nat
  mountPoint : String
  verifyAfterWrite : Bool
  consistency : Bool
  directIo : Bool

/-- One entry in the metrics, and the operation that it is of. -/
structure OpRecord where
  key : String
  recording : Recording
  began : Nat
  ended : Nat
  deriving DecidableEq, Repr

def elapsedUsSaturating (us : Nat) : Nat := min us (2^64 - 1)

def recordIf (inMeasure : Bool) (r : OpRecord) : Option OpRecord :=
  if inMeasure then some r else none

/-- What ends the awaits of the tasks. -/
inductive TimedAct where
  | run
  | size (n : Nat)
  | mkdir (res : Except String Unit)
  | written (res : Except String Nat)
  | verified (res : Except String Bool)
  | received (entry : Option FileEntry)
  | openFile (file : FileRead)
  | blocker
  | producer
  | checked (res : Except ConsistencyError Nat)
  | chosen (op : Option Spec.MetadataOp)
  | op (res : Option (Except String Unit))
  | stat (res : Except String Unit)

inductive TimedStep (σ : Type) where
  | more (st : σ) (rec : Option OpRecord)
  | leave
  /-- the task sets the abort flag and returns an error -/
  | fail (rec : Option OpRecord)

def TimedStep.map {σ τ : Type} (f : σ → τ) : TimedStep σ → TimedStep τ
  | .more st rec => .more (f st) rec
  | .leave => .leave
  | .fail rec => .fail rec

def TimedStep.rec? {σ : Type} : TimedStep σ → Option OpRecord
  | .more _ rec | .fail rec => rec
  | .leave => none

variable (cfg : MeasureCfg) (now : Nat) (stop : Bool)

def MeasureCfg.inMeasure : Bool := decide (cfg.measureStart ≤ now)

def MeasureCfg.quits : Bool := decide (cfg.deadline ≤ now) || stop

inductive WritePc where
  | top
  | acquire (size : Nat)
  | mkdir (size began : Nat)
  | payload (size : Nat)
  | write (size : Nat) (inMeasure : Bool) (began : Nat)
  | verify (size : Nat) (inMeasure : Bool) (began : Nat)
  | think
  deriving DecidableEq, Repr

def WritePc.step : WritePc → TimedAct → Option (TimedStep WritePc)
  | .top, .size n => some (if cfg.quits now stop then .leave else .more (.acquire n) none)
  | .acquire n, .run => some (.more (.mkdir n now) none)
  | .mkdir _ began, .mkdir (.error _) => some (.fail (some ⟨"write", .error, began, now⟩))
  | .mkdir n _, .mkdir (.ok ()) => some (.more (.payload n) none)
  | .payload n, .run => some (.more (.write n (cfg.inMeasure now) now) none)
  | .write _ _ began, .written (.error _) => some (.fail (some ⟨"write", .error, began, now⟩))
  | .write n inMeasure began, .written (.ok elapsed) =>
      some (.more (if cfg.verifyAfterWrite then .verify n inMeasure now else .think)
        (recordIf inMeasure ⟨"write", .op (elapsedUsSaturating elapsed) n, began, now⟩))
  | .verify _ _ began, .verified (.error _) =>
      some (.fail (some ⟨"write_verify", .error, began, now⟩))
  | .verify _ _ began, .verified (.ok false) =>
      some (.fail (some ⟨"write_verify", .error, began, now⟩))
  | .verify n inMeasure began, .verified (.ok true) =>
      some (.more .think (recordIf inMeasure
        ⟨"write_verify", .op (elapsedUsSaturating (now - began)) n, began, now⟩))
  | .think, .run => some (.more .top none)
  | _, _ => none

def ReadStreamEvent.key : ReadStreamEvent → String
  | .opened => "read.open"
  | .chunk _ => "read"
  | .closed => "read.close"

def ReadStreamEvent.size : ReadStreamEvent → Nat
  | .chunk bytes => bytes.length
  | _ => 0

inductive ReadPc where
  | top
  | recv
  | resolve (entry : FileEntry)
  | stream (s : TimedStream)
  | inspect (s : TimedStream) (t : TimedItem)
  | record (s : TimedStream) (t : TimedItem)
  /-- in `producer.await` -/
  | join (s : TimedStream) (failed : Bool)
  | checkFlags
  | checking
  | check (inMeasure : Bool) (began : Nat)
  | think
  deriving DecidableEq, Repr

def ReadPc.stream? : ReadPc → Option TimedStream
  | .stream s | .inspect s _ | .record s _ | .join s _ => some s
  | _ => none

def ReadPc.setStream (s : TimedStream) : ReadPc → ReadPc
  | .stream _ => .stream s
  | .inspect _ t => .inspect s t
  | .record _ t => .record s t
  | .join _ failed => .join s failed
  | pc => pc

/-- The entry that one item of the stream makes. Only one of an event is subject to the
clock, which is read when the item is received. -/
def TimedItem.rec? (t : TimedItem) : Option OpRecord :=
  match t.item with
  | .error err => some ⟨err.phase.op, .error, t.began, t.ended⟩
  | .ok event => recordIf (cfg.inMeasure now)
      ⟨event.key, .op (elapsedUsSaturating (t.ended - t.began)) event.size, t.began, t.ended⟩

def ReadPc.step : ReadPc → TimedAct → Option (TimedStep ReadPc)
  | .top, .run => some (if cfg.quits now stop then .leave else .more .recv none)
  | .recv, .received none => some .leave
  | .recv, .received (some entry) => some (.more (.resolve entry) none)
  | .resolve entry, .openFile file => match absPath cfg.mountPoint entry with
    | .error _ => some (.fail (some ⟨"read", .error, now, now⟩))
    | .ok _ => some (.more (.stream (.spawn cfg.directIo file)) none)
  | .stream s, .run => match s.chan with
    | t :: chan => some (.more (.inspect { s with chan } t) none)
    | [] => if s.producer = .done then some (.more (.join s.close false) none) else none
  | .inspect s t, .run =>
      some (.more (if stop then .join s.close false else .record s t) none)
  | .record s t, .run =>
      some (.more (match t.item with
        | .error _ => .join s.close true
        | .ok _ => .stream s) (t.rec? cfg now))
  | .join s failed, .run =>
      if s.producer = .done then some (if failed then .fail none else .more .checkFlags none)
      else none
  | .checkFlags, .run =>
      some (if stop then .leave else .more (if cfg.consistency then .checking else .think) none)
  | .checking, .run => some (.more (.check (cfg.inMeasure now) now) none)
  | .check inMeasure began, .checked (.ok s3Size) =>
      some (.more .think (recordIf inMeasure
        ⟨"consistency", .op (elapsedUsSaturating (now - began)) s3Size, began, now⟩))
  | .check _ began, .checked (.error _) =>
      some (.fail (some ⟨"consistency", .error, began, now⟩))
  | .think, .run => some (.more .top none)
  | pc, .blocker => (pc.stream?.bind (·.stepBlocker now)).map fun s => .more (pc.setStream s) none
  | pc, .producer => (pc.stream?.bind (·.stepProducer now)).map fun s => .more (pc.setStream s) none
  | _, _ => none

def metadataKey : Spec.MetadataOp → String
  | .stat => "metadata.stat"
  | .open => "metadata.open"
  | .readdir => "metadata.readdir"
  | .create => "metadata.create"
  | .mkdir => "metadata.mkdir"

inductive LayoutPc where
  | top
  | acquire (op : Spec.MetadataOp)
  | operate (op : Spec.MetadataOp) (inMeasure : Bool) (began : Nat)
  | think
  deriving DecidableEq, Repr

def LayoutPc.step : LayoutPc → TimedAct → Option (TimedStep LayoutPc)
  | .top, .chosen op =>
      some (if cfg.quits now stop then .leave
        else match op with
          | some op => .more (.acquire op) none
          | none => .leave)
  | .acquire op, .run => some (.more (.operate op (cfg.inMeasure now) now) none)
  | .operate _ _ _, .op none => some .leave
  | .operate op inMeasure began, .op (some (.ok ())) =>
      some (.more .think (recordIf inMeasure
        ⟨metadataKey op, .op (elapsedUsSaturating (now - began)) 0, began, now⟩))
  | .operate op _ began, .op (some (.error _)) =>
      some (.fail (some ⟨metadataKey op, .error, began, now⟩))
  | .think, .run => some (.more .top none)
  | _, _ => none

inductive StatPc where
  | top
  | recv
  | acquire (entry : FileEntry)
  | stat (inMeasure : Bool) (began : Nat)
  | think
  deriving DecidableEq, Repr

def StatPc.step : StatPc → TimedAct → Option (TimedStep StatPc)
  | .top, .run => some (if cfg.quits now stop then .leave else .more .recv none)
  | .recv, .received none => some .leave
  | .recv, .received (some entry) => some (.more (.acquire entry) none)
  | .acquire entry, .run => match absPath cfg.mountPoint entry with
    | .error _ => some (.fail (some ⟨"metadata.stat", .error, now, now⟩))
    | .ok _ => some (.more (.stat (cfg.inMeasure now) now) none)
  | .stat inMeasure began, .stat (.ok ()) =>
      some (.more .think (recordIf inMeasure
        ⟨"metadata.stat", .op (elapsedUsSaturating (now - began)) 0, began, now⟩))
  | .stat _ began, .stat (.error _) =>
      some (.fail (some ⟨"metadata.stat", .error, began, now⟩))
  | .think, .run => some (.more .top none)
  | _, _ => none

inductive TimedTask where
  | spawned (w : Workload)
  | write (pc : WritePc)
  | read (pc : ReadPc)
  | layout (pc : LayoutPc)
  | manifestStat (pc : StatPc)
  | finished
  deriving DecidableEq, Repr

def TimedTask.start : Workload → TimedTask
  | .write => .write .top
  | .read => .read .top
  | .layout => .layout .top
  | .manifestStat => .manifestStat .top

def MeasureCfg.keys : Workload → List String
  | .write => "write" :: if cfg.verifyAfterWrite then ["write_verify"] else []
  | .read => ["read", "read.open", "read.close"] ++ if cfg.consistency then ["consistency"] else []
  | .layout => [.create, .mkdir, .stat, .open, .readdir].map metadataKey
  | .manifestStat => ["metadata.stat"]

def TimedTask.step : TimedTask → TimedAct → Option (TimedStep TimedTask)
  | .spawned w, .run => some (.more (.start w) none)
  | .spawned _, _ | .finished, _ => none
  | .write pc, act => (pc.step cfg now stop act).map (·.map .write)
  | .read pc, act => (pc.step cfg now stop act).map (·.map .read)
  | .layout pc, act => (pc.step cfg now stop act).map (·.map .layout)
  | .manifestStat pc, act => (pc.step cfg now stop act).map (·.map .manifestStat)

def TimedTask.opens : TimedTask → List String
  | .spawned w => cfg.keys w
  | _ => []

structure Measured (H : Type) where
  now : Nat
  tasks : List TimedTask
  metrics : HashMap String (PerOpMetrics H)
  abort : Bool
  cancelled : Bool

inductive MeasureAct where
  | elapse (d : Nat)
  | task (i : Nat) (act : TimedAct)
  | abort
  | cancel

section

variable {H : Type} (lib : HdrRecorder H) (fresh : PerOpMetrics H)

/-- `MetricsRegistry::op` of several keys; what is there stays. -/
def openOps (metrics : HashMap String (PerOpMetrics H)) (keys : List String) :
    HashMap String (PerOpMetrics H) :=
  keys.foldl (fun metrics key => metrics.put key ((metrics.get? key).getD fresh)) metrics

def recordOpt (metrics : HashMap String (PerOpMetrics H)) :
    Option OpRecord → HashMap String (PerOpMetrics H)
  | none => metrics
  | some r => metrics.put r.key (((metrics.get? r.key).getD fresh).record lib r.recording)

namespace Measured

def goOn (s : Measured H) (i : Nat) (opened : List String) (res : TimedStep TimedTask) :
    Measured H × Option OpRecord :=
  let metrics := recordOpt lib fresh (openOps fresh s.metrics opened) res.rec?
  (match res with
    | .more st _ => { s with
        tasks := s.tasks.set i st
        metrics }
    | .leave => { s with
        tasks := s.tasks.set i .finished
        metrics }
    | .fail _ => { s with
        tasks := s.tasks.set i .finished
        metrics
        abort := true }, res.rec?)

def step (s : Measured H) : MeasureAct → Option (Measured H × Option OpRecord)
  | .elapse d => some ({ s with now := s.now + d }, none)
  | .task i act => do
      let task ← s.tasks[i]?
      let res ← task.step cfg s.now (s.abort || s.cancelled) act
      return s.goOn lib fresh i (task.opens cfg) res
  | .abort => some ({ s with abort := true }, none)
  | .cancel => some ({ s with cancelled := true }, none)

end Measured

/-- A worker whose tasks are spawned at `start`; `fresh` is what the registry makes for a
new key. -/
def measuring (start : Nat) (workloads : List Workload) :
    Machine (Measured H) MeasureAct (Option OpRecord) :=
  ⟨⟨start, workloads.map .spawned, ∅, false, false⟩, Measured.step cfg lib fresh⟩

end

end CvdBench.Worker
