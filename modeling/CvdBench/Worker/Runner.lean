import CvdBench.Foundation.Machine
import CvdBench.Foundation.Pool
import CvdBench.Wire.Proto

/-!
The pipeline of a manifest workload on a worker (`runner/read.rs`, `runner/metadata.rs`):
the fetcher sends the entries of its batches through a bounded channel, and the tasks
receive them. What a task does with one entry is a parameter.
-/

set_option autoImplicit false

namespace CvdBench.Worker

open Foundation Proto

def fetchBatchSize : Nat := 1000

/-- How the work on one entry goes on. -/
inductive ItemStep (σ ε ρ : Type) where
  | more (st : σ)
  | done (report : ρ)
  /-- the task leaves its loop with `Ok` -/
  | leave
  /-- the task sets the abort flag and returns the error -/
  | fail (err : ε)

/-- The work on one entry. Its steps see whether the abort or the cancelled flag is set. -/
structure ItemTask (σ α ε ρ : Type) where
  start : FileEntry → σ
  step : Bool → FileEntry → σ → α → Option (ItemStep σ ε ρ)

/-- A task between its awaits. The two flags are read in one step: they only ever rise, so
that reading them one after the other gives nothing else. -/
inductive TaskPc (σ ε : Type) where
  | top
  | flags
  | recv
  | item (entry : FileEntry) (st : σ)
  | finished (res : Except ε Unit)

inductive FetcherPc where
  | top
  | flags
  | request
  | batch (files : List FileEntry) (hasMore : Bool)
  | send (entry : FileEntry) (files : List FileEntry) (hasMore : Bool)
  | finished

/-- `run` -/
inductive RunPc (ε : Type) where
  | spawn
  | dropRx
  | join (i : Nat) (firstErr : Option ε)
  | awaitFetcher (firstErr : Option ε)
  | returned (res : Except ε Unit)

structure Runner (σ ε : Type) where
  fetcher : FetcherPc
  chan : List FileEntry
  tasks : List (TaskPc σ ε)
  run : RunPc ε
  abort : Bool
  cancelled : Bool
  unknownJob : Bool
  late : Bool

inductive FetcherAct where
  | run
  | response (res : Except String FetchFileBatchResponse)

inductive TaskAct (α : Type) where
  | run
  | item (act : α)

inductive RunnerAct (α : Type) where
  | fetcher (act : FetcherAct)
  | task (i : Nat) (act : TaskAct α)
  | main
  | abort
  | cancel
  | deadline

inductive RunnerOut (ρ : Type) where
  | silent
  | batch (files : List FileEntry) (hasMore : Bool)
  | processed (i : Nat) (entry : FileEntry) (report : ρ)

variable {σ α ε ρ : Type}

def TaskPc.isFinished : TaskPc σ ε → Bool
  | .finished _ => true
  | _ => false

/-- `run` holds a receiver until it drops it. -/
def RunPc.holdsRx : RunPc ε → Bool
  | .spawn | .dropRx => true
  | _ => false

/-- `Ok(())`, or the first error that was joined -/
def firstResult : Option ε → Except ε Unit
  | none => .ok ()
  | some err => .error err

namespace Runner

def init : Runner σ ε := ⟨.top, [], [], .spawn, false, false, false, false⟩

def stop (s : Runner σ ε) : Bool := s.abort || s.cancelled

def noReceiver (s : Runner σ ε) : Bool := !s.run.holdsRx && s.tasks.all TaskPc.isFinished

def senderDropped (s : Runner σ ε) : Bool :=
  match s.fetcher with
  | .finished => true
  | _ => false

def capacity (concurrency : Nat) : Nat := max (fetchBatchSize * 4) (concurrency * 4)

def respond (s : Runner σ ε) (res : FetchFileBatchResponse) : Runner σ ε :=
  if res.unknownJob then
    { s with fetcher := .finished, unknownJob := true, cancelled := true, abort := true }
  else if res.cancelled then { s with fetcher := .finished, cancelled := true }
  else { s with fetcher := .batch res.files res.hasMore }

def batchOut (res : FetchFileBatchResponse) : RunnerOut ρ :=
  if res.unknownJob || res.cancelled then .silent else .batch res.files res.hasMore

def stepFetcher (concurrency : Nat) (s : Runner σ ε) (act : FetcherAct) :
    Option (Runner σ ε × RunnerOut ρ) :=
  match s.fetcher, act with
  | .top, .run => some ({ s with fetcher := if s.late then .finished else .flags }, .silent)
  | .flags, .run => some ({ s with fetcher := if s.stop then .finished else .request }, .silent)
  | .request, .response (.ok res) => some (s.respond res, batchOut res)
  -- a sleep comes first here, and after a batch without files
  | .request, .response (.error _) => some ({ s with fetcher := .top }, .silent)
  | .batch [] hasMore, .run =>
      some ({ s with fetcher := if hasMore then .top else .finished }, .silent)
  | .batch (entry :: files) hasMore, .run =>
      some ({ s with fetcher := if s.stop then .finished else .send entry files hasMore }, .silent)
  | .send entry files hasMore, .run =>
      if s.noReceiver then some ({ s with fetcher := .finished }, .silent)
      else if s.chan.length < capacity concurrency then
        some ({ s with chan := s.chan ++ [entry], fetcher := .batch files hasMore }, .silent)
      else none
  | _, _ => none

def setTask (s : Runner σ ε) (i : Nat) (pc : TaskPc σ ε) : Runner σ ε :=
  { s with tasks := s.tasks.set i pc }

def stepItem (s : Runner σ ε) (i : Nat) (entry : FileEntry) :
    ItemStep σ ε ρ → Runner σ ε × RunnerOut ρ
  | .more st => (s.setTask i (.item entry st), .silent)
  | .done report => (s.setTask i .top, .processed i entry report)
  | .leave => (s.setTask i (.finished (.ok ())), .silent)
  | .fail err => ({ s.setTask i (.finished (.error err)) with abort := true }, .silent)

def stepTask (W : ItemTask σ α ε ρ) (s : Runner σ ε) (i : Nat) (act : TaskAct α) :
    Option (Runner σ ε × RunnerOut ρ) :=
  match s.tasks[i]?, act with
  | some .top, .run =>
      some (s.setTask i (if s.late then .finished (.ok ()) else .flags), .silent)
  | some .flags, .run =>
      some (s.setTask i (if s.stop then .finished (.ok ()) else .recv), .silent)
  | some .recv, .run => match s.chan with
    | entry :: chan => some ({ s.setTask i (.item entry (W.start entry)) with chan }, .silent)
    | [] =>
        if s.senderDropped then some (s.setTask i (.finished (.ok ())), .silent) else none
  | some (.item entry st), .item act =>
      (W.step s.stop entry st act).map (s.stepItem i entry)
  | _, _ => none

/-- An error that is joined sets the abort flag again. -/
def stepMain (concurrency : Nat) (s : Runner σ ε) : Option (Runner σ ε) :=
  match s.run with
  | .spawn =>
      if s.tasks.length < concurrency then some { s with tasks := s.tasks ++ [.top] }
      else some { s with run := .dropRx }
  | .dropRx => some { s with run := .join 0 none }
  | .join i firstErr => match s.tasks[i]? with
    | none => some { s with run := .awaitFetcher firstErr }
    | some (.finished (.ok ())) => some { s with run := .join (i + 1) firstErr }
    | some (.finished (.error err)) =>
        some { s with abort := true, run := .join (i + 1) (firstErr <|> some err) }
    | some _ => none
  | .awaitFetcher firstErr =>
      if s.senderDropped then some { s with run := .returned (firstResult firstErr) } else none
  | .returned _ => none

def step (W : ItemTask σ α ε ρ) (concurrency : Nat) (s : Runner σ ε) :
    RunnerAct α → Option (Runner σ ε × RunnerOut ρ)
  | .fetcher act => s.stepFetcher concurrency act
  | .task i act => s.stepTask W i act
  | .main => (s.stepMain concurrency).map fun s' => (s', .silent)
  | .abort => some ({ s with abort := true }, .silent)
  | .cancel => some ({ s with cancelled := true }, .silent)
  | .deadline => some ({ s with late := true }, .silent)

end Runner

def runner (W : ItemTask σ α ε ρ) (concurrency : Nat) :
    Machine (Runner σ ε) (RunnerAct α) (RunnerOut ρ) :=
  ⟨.init, Runner.step W concurrency⟩

def RunnerAct.ofTask : RunnerAct α → Bool
  | .abort | .cancel | .deadline => false
  | _ => true

def RunnerAct.isResponse : RunnerAct α → Bool
  | .fetcher (.response _) => true
  | _ => false

abbrev RunnerTrace (σ α ε ρ : Type) := List (Event (Runner σ ε) (RunnerAct α) (RunnerOut ρ))

def RunnerOut.received : RunnerOut ρ → List FileEntry
  | .batch files _ => files
  | _ => []

def RunnerOut.worked : RunnerOut ρ → List FileEntry
  | .processed _ entry _ => [entry]
  | _ => []

def receivedEntries (tr : RunnerTrace σ α ε ρ) : List FileEntry := tr.flatMap (·.out.received)

def processedEntries (tr : RunnerTrace σ α ε ρ) : List FileEntry := tr.flatMap (·.out.worked)

end CvdBench.Worker
