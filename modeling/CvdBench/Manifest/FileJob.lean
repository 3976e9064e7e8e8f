import CvdBench.Manifest.Delivery
import CvdBench.Spec.Redact
import CvdBench.Worker.Runner
import Mathlib.Logic.Function.Basic

/-!
A job with a file queue: one reader in the master, and on every worker a runner for each
workload that gets its files with FetchFileBatch. A request names the job and the worker,
not the workload.
-/

set_option autoImplicit false

namespace CvdBench.Manifest

open Foundation Proto Master Worker

structure ManifestStart where
  path : String
  isDirManifest : Bool
  loopFiles : Bool
  deriving DecidableEq, Repr

def manifestStart (spec : BenchSpec) : Option ManifestStart :=
  match spec.read with
  | some read =>
      if !read.fileManifest.isEmpty then some ⟨read.fileManifest, false, read.loopFiles⟩
      else if !read.dirManifest.isEmpty then some ⟨read.dirManifest, true, read.loopFiles⟩
      else none
  | none => match spec.metadata with
    | some md => if !md.dirManifest.isEmpty then some ⟨md.dirManifest, true, false⟩ else none
    | none => none

/-- The files of the master's host, as far as the readers see them. -/
structure ManifestFiles where
  csv : String → CsvEnv
  dir : String → ScanEnv
  scanConcurrency : Nat

def ManifestFiles.source (files : ManifestFiles) (path : String) (isDirManifest : Bool) : Source :=
  if isDirManifest then .dir (files.dir path) files.scanConcurrency else .csv (files.csv path)

/-- The runners that fetch files: `read`, and the one that only calls `stat`. -/
inductive Consumer where
  | read
  | stat
  deriving DecidableEq, Repr

namespace Consumer

def source? (files : ManifestFiles) (spec : Spec.BenchSpec) : Consumer → Option Source
  | .read => spec.read.map fun read => match read.source with
    | .fileManifest path => files.source path false
    | .dirManifest path => files.source path true
  | .stat => (spec.metadata.bind (·.dirManifest)).map fun path => files.source path true

def denoted (files : ManifestFiles) (spec : Spec.BenchSpec) (w : Consumer) : Multiset FileEntry :=
  (w.source? files spec).elim 0 Source.denoted

/-- `run_workload` starts the runner. -/
def runs (spec : Spec.BenchSpec) : Consumer → Bool
  | .read => spec.read.isSome
  | .stat => (spec.metadata.bind (·.dirManifest)).isSome

end Consumer

/-- A runner on a worker, with the call that its fetcher awaits, by its number. -/
structure Seat (σ ε : Type) where
  runner : Runner σ ε
  call : Option Nat

structure FileJob (σ ε : Consumer → Type) where
  delivery : Option Delivery
  callers : List Consumer
  seats : (w : Consumer) → List (Seat (σ w) (ε w))

inductive FileJobAct (α : Consumer → Type) where
  | master (act : DeliveryAct)
  /-- the fetcher of the `k`-th worker sends its request, and the master takes it to the queue -/
  | request (w : Consumer) (k : Nat)
  | answer (w : Consumer) (k : Nat)
  /-- the master answers without the queue: the job is cancelled, or not to be served -/
  | turnAway (w : Consumer) (k : Nat) (cancelled : Bool)
  | lose (w : Consumer) (k : Nat) (status : String)
  | runner (w : Consumer) (k : Nat) (act : RunnerAct (α w))

abbrev FileJobOut := Option (Event Delivery DeliveryAct DeliveryOut)

namespace FileJob

variable {σ α ε ρ : Consumer → Type}

def init (files : ManifestFiles) (capacity workers : Nat) (stored : BenchSpec)
    (spec : Spec.BenchSpec) : FileJob σ ε where
  delivery := (manifestStart stored).map fun start =>
    .init (files.source start.path start.isDirManifest) capacity
  callers := []
  seats w := if w.runs spec then List.replicate workers ⟨.init, none⟩ else []

def setSeat (s : FileJob σ ε) (w : Consumer) (k : Nat) (seat : Seat (σ w) (ε w)) : FileJob σ ε :=
  { s with seats := Function.update s.seats w ((s.seats w).set k seat) }

def masterStep (files : ManifestFiles) (stored : BenchSpec) (s : FileJob σ ε) (act : DeliveryAct) :
    Option (FileJob σ ε × FileJobOut) := do
  let start ← manifestStart stored
  let d ← s.delivery
  let (d', o) ← d.step (files.source start.path start.isDirManifest) start.loopFiles act
  return ({ s with delivery := some d' }, some ⟨d, act, o, d'⟩)

/-- The request of the seat gets the next number. Its batch size is the same for all. -/
def request (files : ManifestFiles) (stored : BenchSpec) (s : FileJob σ ε) (w : Consumer) (k : Nat)
    (seat : Seat (σ w) (ε w)) : Option (FileJob σ ε × FileJobOut) :=
  match seat.runner.fetcher, seat.call with
  | .request, none => (s.masterStep files stored (.fetch fetchBatchSize)).map fun res =>
      ({ res.1.setSeat w k { seat with call := some s.callers.length } with
        callers := s.callers ++ [w] }, res.2)
  | _, _ => none

section

variable (W : (w : Consumer) → ItemTask (σ w) (α w) (ε w) (ρ w)) (concurrency : Consumer → Nat)

def seatStep (s : FileJob σ ε) (w : Consumer) (k : Nat) (seat : Seat (σ w) (ε w))
    (call : Option Nat) (act : RunnerAct (α w)) : Option (FileJob σ ε × FileJobOut) :=
  (seat.runner.step (W w) (concurrency w) act).map fun res =>
    (s.setSeat w k ⟨res.1, call⟩, none)

def answer (s : FileJob σ ε) (w : Consumer) (k : Nat) (seat : Seat (σ w) (ε w)) :
    Option (FileJob σ ε × FileJobOut) := do
  let i ← seat.call
  let d ← s.delivery
  match d.fetches[i]? with
  | some (.answered files hasMore) =>
      s.seatStep W concurrency w k seat none
        (.fetcher (.response (.ok ⟨files, hasMore, false, false⟩)))
  | _ => none

/-- `unknown_job`, or `cancelled`. -/
def turnAway (s : FileJob σ ε) (w : Consumer) (k : Nat) (cancelled : Bool)
    (seat : Seat (σ w) (ε w)) : Option (FileJob σ ε × FileJobOut) :=
  match seat.call with
  | some _ => none
  | none => s.seatStep W concurrency w k seat none
      (.fetcher (.response (.ok ⟨[], false, cancelled, !cancelled⟩)))

def step (files : ManifestFiles) (stored : BenchSpec) (s : FileJob σ ε) :
    FileJobAct α → Option (FileJob σ ε × FileJobOut)
  | .master (.fetch _) => none
  | .master act => s.masterStep files stored act
  | .request w k => do
      let seat ← (s.seats w)[k]?
      s.request files stored w k seat
  | .answer w k => do
      let seat ← (s.seats w)[k]?
      s.answer W concurrency w k seat
  | .turnAway w k cancelled => do
      let seat ← (s.seats w)[k]?
      s.turnAway W concurrency w k cancelled seat
  | .lose w k status => do
      let seat ← (s.seats w)[k]?
      s.seatStep W concurrency w k seat none (.fetcher (.response (.error status)))
  | .runner w k act => do
      let seat ← (s.seats w)[k]?
      if act.isResponse then none else s.seatStep W concurrency w k seat seat.call act

end

end FileJob

def fileJob {σ α ε ρ : Consumer → Type} (W : (w : Consumer) → ItemTask (σ w) (α w) (ε w) (ρ w))
    (concurrency : Consumer → Nat) (files : ManifestFiles) (capacity workers : Nat)
    (stored : BenchSpec) (spec : Spec.BenchSpec) :
    Machine (FileJob σ ε) (FileJobAct α) FileJobOut :=
  ⟨.init files capacity workers stored spec, FileJob.step W concurrency files stored⟩

abbrev FileJobTrace (σ α ε : Consumer → Type) :=
  List (Event (FileJob σ ε) (FileJobAct α) FileJobOut)

variable {σ α ε ρ : Consumer → Type}

def deliveryTrace (tr : FileJobTrace σ α ε) : DeliveryTrace := tr.filterMap (·.out)

def Event.takenBy (w : Consumer) (e : Event (FileJob σ ε) (FileJobAct α) FileJobOut) :
    List FileEntry :=
  match e.out with
  | some ⟨_, .resume i, o, _⟩ => if e.pre.callers[i]? = some w then o.taken else []
  | _ => []

def takenBy (w : Consumer) (tr : FileJobTrace σ α ε) : List FileEntry :=
  tr.flatMap (Event.takenBy w)

@[simp] theorem deliveryTrace_concat (tr : FileJobTrace σ α ε)
    (e : Event (FileJob σ ε) (FileJobAct α) FileJobOut) :
    deliveryTrace (tr ++ [e]) = deliveryTrace tr ++ e.out.toList := by
  simp only [deliveryTrace, List.filterMap_append, List.filterMap_cons, List.filterMap_nil]
  cases e.out <;> rfl

@[simp] theorem takenBy_concat (w : Consumer) (tr : FileJobTrace σ α ε)
    (e : Event (FileJob σ ε) (FileJobAct α) FileJobOut) :
    takenBy w (tr ++ [e]) = takenBy w tr ++ Event.takenBy w e := by
  simp [takenBy]

end CvdBench.Manifest
