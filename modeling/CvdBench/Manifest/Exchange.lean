import CvdBench.Foundation.Machine
import CvdBench.Foundation.Pool
import CvdBench.Master.System

/-!
A bounded queue between the tasks that push into it and the FetchFileBatch calls that
drain it (`manifest/queue.rs`, `service/worker_rpc.rs`). A call keeps its number after it
has returned, so what became of it can be looked up in the state.
-/

set_option autoImplicit false

namespace CvdBench.Manifest

open Foundation Proto Master

variable {α : Type}

/-- What a call still has to do, or what it answered. -/
inductive FetchTask (α : Type) where
  | drain (batchSize : Nat)
  | addPermits (files : List α)
  | loadDone
  | isEmpty
  | answered (files : List α) (hasMore : Bool)
  deriving DecidableEq, Repr

/-- The next section of a call. `done` is the value of `manifest_done` at that moment. -/
def FetchTask.step (done : Bool) (q : BoundedQueue α) :
    FetchTask α → Option (BoundedQueue α × FetchTask α)
  | .drain batchSize =>
      let (files, q) := q.drainUpTo batchSize
      match files with
      | [] => some (q, .loadDone)
      | files => some (q, .addPermits files)
  | .addPermits files => some (q.addPermits files.length, .answered files true)
  | .loadDone => some (q, if done then .isEmpty else .answered [] true)
  | .isEmpty => some (q, .answered [] (!q.inner.isEmpty))
  | .answered _ _ => none

/-- The permits that a call drained and has not given back yet. -/
def FetchTask.owed : FetchTask α → Nat
  | .addPermits files => files.length
  | _ => 0

def FetchTask.taken? : FetchTask α → Option (List α)
  | .drain _ => none
  | .addPermits files => some files
  | .loadDone => some []
  | .isEmpty => some []
  | .answered files _ => some files

/-- The rest of the handler in the master: the task that runs the next section of the
call on the cell of a job, or its answer. -/
def FetchTask.outcome (m : MasterState) (req : FetchFileBatchRequest) (cell : JobId)
    (q : BoundedQueue FileEntry) (t : FetchTask FileEntry) : Outcome :=
  let m := m.setCell cell { m.cells cell with queue := q }
  match t with
  | .drain batchSize => .continue m (.batchDrain req cell batchSize)
  | .addPermits files => .continue m (.batchAddPermits req cell files)
  | .loadDone => .continue m (.batchLoadDone req cell)
  | .isEmpty => .continue m (.batchIsEmpty req cell)
  | .answered files hasMore =>
      .answer m (.fetchFileBatch req (.ok ⟨files, hasMore, false, false⟩))

def FetchTask.task (req : FetchFileBatchRequest) (cell : JobId) :
    FetchTask FileEntry → Option Task
  | .drain batchSize => some (.batchDrain req cell batchSize)
  | .addPermits files => some (.batchAddPermits req cell files)
  | .loadDone => some (.batchLoadDone req cell)
  | .isEmpty => some (.batchIsEmpty req cell)
  | .answered _ _ => none

theorem setCell_queue_self (m : MasterState) (cell : JobId) :
    m.setCell cell { m.cells cell with queue := (m.cells cell).queue } = m := by
  simp [MasterState.setCell]

/-- The sections of FetchFileBatch in the master are the steps of the call on the cell. -/
theorem FetchTask.run_task {H : Type} (env : MasterEnv H) (amb : Ambient) (m : MasterState)
    (req : FetchFileBatchRequest) (cell : JobId) {t : FetchTask FileEntry} {task : Task}
    (h : t.task req cell = some task) :
    task.run env amb m = (t.step (m.cells cell).manifestDone (m.cells cell).queue).map
      fun res => FetchTask.outcome m req cell res.1 res.2 := by
  cases t with
  | drain batchSize =>
    cases h
    cases hfiles : (m.cells cell).queue.inner.take batchSize <;>
      simp [Task.run, batchDrainSection, FetchTask.step, BoundedQueue.drainUpTo, hfiles,
        FetchTask.outcome]
  | addPermits files =>
    cases h
    rfl
  | loadDone =>
    cases h
    simp only [Task.run, batchLoadDoneSection, FetchTask.step, Option.map_some,
      FetchTask.outcome, setCell_queue_self]
    cases (m.cells cell).manifestDone <;> rfl
  | isEmpty =>
    cases h
    simp [Task.run, batchIsEmptySection, FetchTask.step, FetchTask.outcome, setCell_queue_self]
  | answered files hasMore => cases h

inductive QueueClosed where
  | queueClosed
  deriving DecidableEq, Repr

/-- A push waits for a permit, holds one, and returns. -/
inductive Push (α : Type) where
  | waiting (item : α)
  | holding (item : α)
  | returned (item : α) (res : Except QueueClosed Unit)

structure Exchange (α : Type) where
  queue : BoundedQueue α
  pushes : List (Push α)
  fetches : List (FetchTask α)

inductive ExchangeAct (α : Type) where
  | push (item : α)
  | acquire (i : Nat)
  | pushBack (i : Nat)
  | refuse (i : Nat)
  | fetch (batchSize : Int)
  | resume (i : Nat) (done : Bool)
  | close

/-- The two steps whose order decides who gets what. -/
inductive ExchangeOut (α : Type) where
  | silent
  | pushed (i : Nat) (item : α)
  | drained (i : Nat) (files : List α)

namespace Exchange

def init (capacity : Nat) : Exchange α := ⟨.new capacity, [], []⟩

def setPush (x : Exchange α) (i : Nat) (p : Push α) : Exchange α :=
  { x with pushes := x.pushes.set i p }

def acquire (x : Exchange α) (i : Nat) : Option (Exchange α × ExchangeOut α) :=
  match x.pushes[i]? with
  | some (.waiting item) => x.queue.acquire.map fun queue =>
      (({ x with queue }).setPush i (.holding item), .silent)
  | _ => none

def pushBack (x : Exchange α) (i : Nat) : Option (Exchange α × ExchangeOut α) :=
  match x.pushes[i]? with
  | some (.holding item) => (x.queue.pushBack item).map fun queue =>
      (({ x with queue }).setPush i (.returned item (.ok ())), .pushed i item)
  | _ => none

def refuse (x : Exchange α) (i : Nat) : Option (Exchange α × ExchangeOut α) :=
  match x.pushes[i]? with
  | some (.waiting item) =>
      if x.queue.semaphoreClosed then
        some (x.setPush i (.returned item (.error .queueClosed)), .silent)
      else none
  | _ => none

def fetchOut (i : Nat) (t t' : FetchTask α) : ExchangeOut α :=
  match t, t'.taken? with
  | .drain _, some files => .drained i files
  | _, _ => .silent

def resume (x : Exchange α) (i : Nat) (done : Bool) :
    Option (Exchange α × ExchangeOut α) := do
  let t ← x.fetches[i]?
  let (queue, t') ← t.step done x.queue
  return ({ x with queue, fetches := x.fetches.set i t' }, fetchOut i t t')

def step (x : Exchange α) : ExchangeAct α → Option (Exchange α × ExchangeOut α)
  | .push item => some ({ x with pushes := x.pushes ++ [.waiting item] }, .silent)
  | .acquire i => x.acquire i
  | .pushBack i => x.pushBack i
  | .refuse i => x.refuse i
  | .fetch batchSize =>
      some ({ x with fetches := x.fetches ++ [.drain (clampBatch batchSize)] }, .silent)
  | .resume i done => x.resume i done
  | .close => some ({ x with queue := x.queue.close }, .silent)

end Exchange

def exchange (α : Type) (capacity : Nat) : Machine (Exchange α) (ExchangeAct α) (ExchangeOut α) :=
  ⟨.init capacity, Exchange.step⟩

abbrev ExchangeTrace (α : Type) := List (Event (Exchange α) (ExchangeAct α) (ExchangeOut α))

def ExchangeOut.pushed? : ExchangeOut α → Option (Nat × α)
  | .pushed i item => some (i, item)
  | _ => none

def ExchangeOut.drained? : ExchangeOut α → Option (Nat × List α)
  | .drained i files => some (i, files)
  | _ => none

/-- The pushes that executed their `push_back`, in that order. -/
def pushOrder (tr : ExchangeTrace α) : List (Nat × α) := tr.filterMap (·.out.pushed?)

def drainOrder (tr : ExchangeTrace α) : List (Nat × List α) := tr.filterMap (·.out.drained?)

@[simp] theorem pushOrder_concat (tr : ExchangeTrace α)
    (e : Event (Exchange α) (ExchangeAct α) (ExchangeOut α)) :
    pushOrder (tr ++ [e]) = pushOrder tr ++ e.out.pushed?.toList := by
  simp only [pushOrder, List.filterMap_append, List.filterMap_cons, List.filterMap_nil]
  cases e.out.pushed? <;> rfl

@[simp] theorem drainOrder_concat (tr : ExchangeTrace α)
    (e : Event (Exchange α) (ExchangeAct α) (ExchangeOut α)) :
    drainOrder (tr ++ [e]) = drainOrder tr ++ e.out.drained?.toList := by
  simp only [drainOrder, List.filterMap_append, List.filterMap_cons, List.filterMap_nil]
  cases e.out.drained? <;> rfl

end CvdBench.Manifest
