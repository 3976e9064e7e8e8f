import CvdBench.Master.Record

/-!
The state of the master (`state.rs`, `state/pending.rs`), its events (`events.rs`) and
what a job shares with its manifest reader (`manifest.rs`, `manifest/queue.rs`).
-/

set_option autoImplicit false

namespace CvdBench.Master

open Foundation Proto

/-- `BoundedQueue`: the semaphore counts the free slots; `held` counts the producers
that took a permit and have not pushed their item yet. -/
structure BoundedQueue (α : Type) where
  inner : List α
  freeSlots : Nat
  semaphoreClosed : Bool
  held : Nat
  capacity : Nat

namespace BoundedQueue

variable {α : Type}

def new (capacity : Nat) : BoundedQueue α :=
  { inner := [], freeSlots := max capacity 1, semaphoreClosed := false, held := 0
    capacity := max capacity 1 }

/-- The first half of `push`: waits while no permit is free, fails once closed. -/
def acquire (q : BoundedQueue α) : Option (BoundedQueue α) :=
  if q.semaphoreClosed = false ∧ 0 < q.freeSlots then
    some { q with freeSlots := q.freeSlots - 1, held := q.held + 1 }
  else none

/-- The second half of `push`, of a producer that holds a permit. -/
def pushBack (q : BoundedQueue α) (item : α) : Option (BoundedQueue α) :=
  if 0 < q.held then some { q with inner := q.inner ++ [item], held := q.held - 1 } else none

/-- The locked half of `drain_up_to`; the permits are given back by `addPermits`. -/
def drainUpTo (q : BoundedQueue α) (n : Nat) : List α × BoundedQueue α :=
  (q.inner.take n, { q with inner := q.inner.drop n })

def addPermits (q : BoundedQueue α) (n : Nat) : BoundedQueue α :=
  { q with freeSlots := q.freeSlots + n }

def close (q : BoundedQueue α) : BoundedQueue α := { q with semaphoreClosed := true }

end BoundedQueue

structure ManifestScanStats where
  dirsScanned : Int
  filesScanned : Int
  scanDurationMs : Int
  deriving DecidableEq, Repr

/-- What the record of a job shares through `Arc` with its manifest reader and with
the handlers in flight. It outlives the record. -/
structure ManifestCell where
  queue : BoundedQueue FileEntry
  cancelFlag : Bool
  manifestDone : Bool
  scanStats : ManifestScanStats

def ManifestCell.fresh : ManifestCell :=
  { queue := .new 0, cancelFlag := false, manifestDone := false, scanStats := ⟨0, 0, 0⟩ }

/-- One call on the `SubscriberRegistry`. The registry has a lock of its own and the
master never reads it back, so the state keeps the calls in the order of that lock. -/
inductive RegistryCall where
  | subscribeWithSnapshot (jobId : JobId) (snapshot : JobEvent)
  | broadcast (jobId : JobId) (event : JobEvent)
  | terminate (jobId : JobId)

structure MasterState where
  jobs : HashMap JobId JobRecord
  pendingQueue : List JobId
  workerActiveJobs : HashMap WorkerId JobId
  subscribers : List RegistryCall
  eventSeq : Int
  cells : JobId → ManifestCell

def MasterState.new : MasterState :=
  { jobs := ∅, pendingQueue := [], workerActiveJobs := ∅, subscribers := [], eventSeq := 1
    cells := fun _ => .fresh }

def pushBack (queue : List JobId) (jobId : JobId) : List JobId := queue ++ [jobId]

def popIfFront (queue : List JobId) (expected : JobId) : List JobId :=
  if queue.head? = some expected then queue.tail else queue

def removePending (queue : List JobId) (jobId : JobId) : List JobId := queue.erase jobId

namespace MasterState

def setJob (m : MasterState) (id : JobId) (r : JobRecord) : MasterState :=
  { m with jobs := m.jobs.put id r }

def setCell (m : MasterState) (id : JobId) (c : ManifestCell) : MasterState :=
  { m with cells := Function.update m.cells id c }

def buildEvent (m : MasterState) (order : HashOrder String) (nowMs : Int) (r : JobRecord)
    (kind : EventKind) : JobEvent :=
  let stats := (m.cells r.jobId).scanStats
  { jobId := r.jobId, status := r.status
    workerProgress := order.values r.latestProgress
    aggregated := r.aggregated, error := r.error, timestamp := nowMs, seq := m.eventSeq, kind
    dirsScanned := stats.dirsScanned, filesScanned := stats.filesScanned
    scanDurationMs := stats.scanDurationMs }

def nextEventSeq (m : MasterState) : MasterState :=
  { m with eventSeq := wrapI64 (m.eventSeq + 1) }

def emitForJob (m : MasterState) (order : HashOrder String) (nowMs : Int) (r : JobRecord)
    (kind : EventKind) : MasterState :=
  let event := m.buildEvent order nowMs r kind
  { m.nextEventSeq with subscribers := m.subscribers ++ [.broadcast r.jobId event] }

def finalizeStream (m : MasterState) (jobId : JobId) : MasterState :=
  { m with subscribers := m.subscribers ++ [.terminate jobId] }

/-- The release loop of every terminal path: drops the entries of the workers that are
still bound to the job. -/
def releaseWorkers (m : MasterState) (jobId : JobId) (workers : List WorkerId) : MasterState :=
  { m with workerActiveJobs := m.workerActiveJobs.removeBound jobId workers }

def cleanupCell (m : MasterState) (r : JobRecord) : MasterState :=
  let cell := m.cells r.jobId
  let queue := if r.fileQueue.isSome then cell.queue.close else cell.queue
  m.setCell r.jobId { cell with cancelFlag := true, queue }

/-- Aggregates, cleans up, stores the record under `id` and emits its terminal event.
`k` numbers the readings of the wall clock. -/
def settle {H : Type} (m : MasterState) (lib : Metrics.HdrLib H) (amb : Ambient) (k : Nat)
    (id : JobId) (r : JobRecord) : MasterState :=
  let r := r.aggregateIntoRecord lib (amb.order id) (amb.nowMs k)
  let m := m.cleanupCell r
  let r := { r with manifestHandle := none }
  (m.emitForJob (amb.order id) (amb.nowMs (k + 1)) r .statusChange).setJob id r

end MasterState

def manifestSource (spec : BenchSpec) : Option String :=
  match spec.read with
  | some read =>
      if !read.fileManifest.isEmpty then some read.fileManifest
      else if !read.dirManifest.isEmpty then some read.dirManifest
      else none
  | none => match spec.metadata with
    | some md => if md.dirManifest.isEmpty then none else some md.dirManifest
    | none => none

/-- `start_for_file_queue_job`: the record and the cell with a fresh queue, and whether
a reader was spawned. The reader itself is the environment of the master. -/
def startForFileQueueJob (config : MasterConfig) (m : MasterState) (r : JobRecord) :
    MasterState × JobRecord × Bool :=
  match manifestSource r.specRedacted with
  | none => (m, r, false)
  | some _ =>
      let cell := m.cells r.jobId
      let m := m.setCell r.jobId
        { cell with queue := .new config.scheduler.fileQueueCapacity }
      (m, { r with fileQueue := some r.jobId, manifestHandle := some r.jobId }, true)

end CvdBench.Master
