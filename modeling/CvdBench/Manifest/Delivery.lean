import CvdBench.Manifest.DirAccount
import CvdBench.Manifest.FileCsv

/-!
The machine in which the manifest reader of a job works on its cell, beside FetchFileBatch
calls, a cancellation and a close of the queue.
-/

set_option autoImplicit false

namespace CvdBench.Manifest

open Foundation Proto Master

inductive Source where
  | csv (env : CsvEnv)
  | dir (env : ScanEnv) (scanConcurrency : Nat)

inductive ManifestReader where
  | csv (r : CsvReader)
  | dir (r : Pipeline)

inductive ManifestReaderAct where
  | csv (act : CsvAct)
  | dir (act : PipelineAct)

namespace Source

def start : Source → ManifestReader
  | .csv _ => .csv .top
  | .dir _ _ => .dir .top

def step (loopFiles cancel : Bool) (src : Source) (r : ManifestReader) (act : ManifestReaderAct) :
    Option (ManifestReader × CellStep) :=
  match src, r, act with
  | .csv env, .csv r, .csv act =>
      (r.step env loopFiles cancel act).map fun res => (.csv res.1, res.2)
  | .dir env n, .dir r, .dir act =>
      (r.step env n loopFiles cancel act).map fun res => (.dir res.1, res.2)
  | _, _, _ => none

def denoted : Source → Multiset FileEntry
  | .csv env => env.load
  | .dir env _ => env.load.1

end Source

def ManifestReader.isFinished : ManifestReader → Bool
  | .csv (.finished _) | .dir (.finished _) => true
  | _ => false

structure Delivery where
  reader : ManifestReader
  cell : ManifestCell
  fetches : List (FetchTask FileEntry)

inductive DeliveryAct where
  | reader (act : ManifestReaderAct)
  | fetch (batchSize : Int)
  | resume (i : Nat)
  | cancel
  | close

inductive DeliveryOut where
  | silent
  | reader (c : CellStep)
  | drained (files : List FileEntry)

namespace Delivery

def init (src : Source) (capacity : Nat) : Delivery :=
  ⟨src.start, { ManifestCell.fresh with queue := .new capacity }, []⟩

def fetchOut (t t' : FetchTask FileEntry) : DeliveryOut :=
  match t, t'.taken? with
  | .drain _, some files => .drained files
  | _, _ => .silent

def readerStep (src : Source) (loopFiles : Bool) (s : Delivery) (act : ManifestReaderAct) :
    Option (Delivery × DeliveryOut) := do
  let (reader, c) ← src.step loopFiles s.cell.cancelFlag s.reader act
  let cell ← c.apply s.cell
  return ({ s with reader, cell }, .reader c)

def resume (s : Delivery) (i : Nat) : Option (Delivery × DeliveryOut) := do
  let t ← s.fetches[i]?
  let (queue, t') ← t.step s.cell.manifestDone s.cell.queue
  return ({ s with cell := { s.cell with queue }, fetches := s.fetches.set i t' }, fetchOut t t')

def step (src : Source) (loopFiles : Bool) (s : Delivery) :
    DeliveryAct → Option (Delivery × DeliveryOut)
  | .reader act => s.readerStep src loopFiles act
  | .fetch batchSize =>
      some ({ s with fetches := s.fetches ++ [.drain (clampBatch batchSize)] }, .silent)
  | .resume i => s.resume i
  | .cancel => some ({ s with cell := { s.cell with cancelFlag := true } }, .silent)
  | .close => some ({ s with cell := { s.cell with queue := s.cell.queue.close } }, .silent)

end Delivery

def delivery (src : Source) (loopFiles : Bool) (capacity : Nat) :
    Machine Delivery DeliveryAct DeliveryOut :=
  ⟨.init src capacity, Delivery.step src loopFiles⟩

abbrev DeliveryTrace := List (Event Delivery DeliveryAct DeliveryOut)

def CellStep.pushed : CellStep → List FileEntry
  | .act (.pushBack file) => [file]
  | _ => []

def DeliveryOut.pushed : DeliveryOut → List FileEntry
  | .reader c => c.pushed
  | _ => []

def DeliveryOut.taken : DeliveryOut → List FileEntry
  | .drained files => files
  | _ => []

def pushedEntries (tr : DeliveryTrace) : List FileEntry := tr.flatMap (·.out.pushed)

def drainedEntries (tr : DeliveryTrace) : List FileEntry := tr.flatMap (·.out.taken)

@[simp] theorem pushedEntries_concat (tr : DeliveryTrace)
    (e : Event Delivery DeliveryAct DeliveryOut) :
    pushedEntries (tr ++ [e]) = pushedEntries tr ++ e.out.pushed := by
  simp [pushedEntries]

@[simp] theorem drainedEntries_concat (tr : DeliveryTrace)
    (e : Event Delivery DeliveryAct DeliveryOut) :
    drainedEntries (tr ++ [e]) = drainedEntries tr ++ e.out.taken := by
  simp [drainedEntries]

theorem CellStep.delivered_fst (c : CellStep) :
    c.delivered.1 = (c.pushed : Multiset FileEntry) := by
  cases c with
  | act a => cases a <;> rfl
  | _ => rfl

theorem CellStep.apply_queue {c : CellStep} {cell cell' : ManifestCell}
    (h : c.apply cell = some cell') :
    cell'.queue.inner = cell.queue.inner ++ c.pushed ∧
      (cell'.manifestDone = cell.manifestDone ∨ c = .act (.setDone cell'.manifestDone)) := by
  cases c with
  | «local» =>
    cases h
    simp [CellStep.pushed]
  | refused =>
    simp only [CellStep.apply] at h
    split at h
    · cases h
      simp [CellStep.pushed]
    · cases h
  | act a =>
    cases a with
    | acquire =>
      simp only [CellStep.apply, ReaderAct.apply, Option.map_eq_some_iff] at h
      obtain ⟨queue, hq, rfl⟩ := h
      unfold BoundedQueue.acquire at hq
      split at hq <;> cases hq
      simp [CellStep.pushed]
    | pushBack entry =>
      simp only [CellStep.apply, ReaderAct.apply, Option.map_eq_some_iff] at h
      obtain ⟨queue, hq, rfl⟩ := h
      unfold BoundedQueue.pushBack at hq
      split at hq <;> cases hq
      simp [CellStep.pushed]
    | setDone done =>
      cases h
      simp [CellStep.pushed]
    | setCancel =>
      cases h
      simp [CellStep.pushed]
    | addStats =>
      cases h
      simp [CellStep.pushed]

inductive Source.Steps (loopFiles cancel : Bool) :
    Source → ManifestReader → ManifestReaderAct → ManifestReader → CellStep → Prop where
  | csv {env : CsvEnv} {r r' : CsvReader} {act : CsvAct} {c : CellStep} :
      r.step env loopFiles cancel act = some (r', c) →
      Steps loopFiles cancel (.csv env) (.csv r) (.csv act) (.csv r') c
  | dir {env : ScanEnv} {n : Nat} {r r' : Pipeline} {act : PipelineAct} {c : CellStep} :
      r.step env n loopFiles cancel act = some (r', c) →
      Steps loopFiles cancel (.dir env n) (.dir r) (.dir act) (.dir r') c

theorem Source.step_cases {loopFiles cancel : Bool} {src : Source} {r r' : ManifestReader}
    {act : ManifestReaderAct} {c : CellStep} (h : src.step loopFiles cancel r act = some (r', c)) :
    Source.Steps loopFiles cancel src r act r' c := by
  unfold Source.step at h
  split at h
  · obtain ⟨⟨r₁, c₁⟩, hstep, heq⟩ := Option.map_eq_some_iff.mp h
    cases heq
    exact .csv hstep
  · obtain ⟨⟨r₁, c₁⟩, hstep, heq⟩ := Option.map_eq_some_iff.mp h
    cases heq
    exact .dir hstep
  · cases h

theorem Source.Steps.eq {loopFiles cancel : Bool} {src : Source} {r r' : ManifestReader}
    {act : ManifestReaderAct} {c : CellStep} (h : Source.Steps loopFiles cancel src r act r' c) :
    src.step loopFiles cancel r act = some (r', c) := by
  cases h with
  | csv hstep => exact Option.map_eq_some_iff.mpr ⟨_, hstep, rfl⟩
  | dir hstep => exact Option.map_eq_some_iff.mpr ⟨_, hstep, rfl⟩

inductive Delivery.Move (src : Source) (loopFiles : Bool) (s : Delivery) :
    DeliveryAct → Delivery → DeliveryOut → Prop where
  | reader (act : ManifestReaderAct) (r : ManifestReader) (c : CellStep) (cell : ManifestCell) :
      src.step loopFiles s.cell.cancelFlag s.reader act = some (r, c) → c.apply s.cell = some cell →
      s.Move src loopFiles (.reader act) { s with reader := r, cell } (.reader c)
  | fetch (batchSize : Int) : s.Move src loopFiles (.fetch batchSize)
      { s with fetches := s.fetches ++ [.drain (clampBatch batchSize)] } .silent
  | drain (i n : Nat) (t : FetchTask FileEntry) : s.fetches[i]? = some (.drain n) →
      (s.cell.queue.inner.take n = [] ∧ t = .loadDone) ∨
        t = .addPermits (s.cell.queue.inner.take n) →
      s.Move src loopFiles (.resume i)
        { s with
          cell := { s.cell with
            queue := { s.cell.queue with inner := s.cell.queue.inner.drop n } }
          fetches := s.fetches.set i t } (.drained (s.cell.queue.inner.take n))
  | addPermits (i : Nat) (files : List FileEntry) : s.fetches[i]? = some (.addPermits files) →
      s.Move src loopFiles (.resume i)
        { s with
          cell := { s.cell with queue := s.cell.queue.addPermits files.length }
          fetches := s.fetches.set i (.answered files true) } .silent
  | loadDone (i : Nat) : s.fetches[i]? = some .loadDone →
      s.Move src loopFiles (.resume i)
        { s with
          fetches := s.fetches.set i (if s.cell.manifestDone then .isEmpty else .answered [] true) }
        .silent
  | isEmpty (i : Nat) : s.fetches[i]? = some .isEmpty →
      s.Move src loopFiles (.resume i)
        { s with fetches := s.fetches.set i (.answered [] (!s.cell.queue.inner.isEmpty)) } .silent
  | cancel : s.Move src loopFiles .cancel
      { s with cell := { s.cell with cancelFlag := true } } .silent
  | close : s.Move src loopFiles .close
      { s with cell := { s.cell with queue := s.cell.queue.close } } .silent

theorem Delivery.resume_move {src : Source} {loopFiles : Bool} {s s' : Delivery} {i : Nat}
    {o : DeliveryOut} (h : s.resume i = some (s', o)) : s.Move src loopFiles (.resume i) s' o := by
  unfold Delivery.resume at h
  cases hi : s.fetches[i]? with
  | none => simp [hi] at h
  | some t =>
    cases t with
    | drain n =>
      cases hfiles : s.cell.queue.inner.take n with
      | nil =>
        simp [hi, FetchTask.step, BoundedQueue.drainUpTo, hfiles] at h
        obtain ⟨rfl, rfl⟩ := h
        have hmove : s.Move src loopFiles (.resume i) _ _ :=
          .drain i n .loadDone hi (.inl ⟨hfiles, rfl⟩)
        rw [hfiles] at hmove
        exact hmove
      | cons f fs =>
        simp [hi, FetchTask.step, BoundedQueue.drainUpTo, hfiles] at h
        obtain ⟨rfl, rfl⟩ := h
        have hmove : s.Move src loopFiles (.resume i) _ _ :=
          .drain i n (.addPermits (f :: fs)) hi (.inr (by rw [hfiles]))
        rw [hfiles] at hmove
        exact hmove
    | addPermits files =>
      simp [hi, FetchTask.step] at h
      obtain ⟨rfl, rfl⟩ := h
      exact .addPermits i files hi
    | loadDone =>
      simp [hi, FetchTask.step] at h
      obtain ⟨rfl, rfl⟩ := h
      exact .loadDone i hi
    | isEmpty =>
      simp [hi, FetchTask.step] at h
      obtain ⟨rfl, rfl⟩ := h
      exact .isEmpty i hi
    | answered files hasMore => simp [hi, FetchTask.step] at h

theorem Delivery.step_move {src : Source} {loopFiles : Bool} {s s' : Delivery}
    {act : DeliveryAct} {o : DeliveryOut} (h : s.step src loopFiles act = some (s', o)) :
    s.Move src loopFiles act s' o := by
  cases act with
  | reader act =>
    simp only [Delivery.step, Delivery.readerStep, Option.bind_eq_bind,
      Option.bind_eq_some_iff] at h
    obtain ⟨⟨r, c⟩, hstep, cell, hcell, heq⟩ := h
    cases heq
    exact .reader act r c cell hstep hcell
  | fetch batchSize =>
    cases h
    exact .fetch batchSize
  | resume i => exact Delivery.resume_move h
  | cancel =>
    cases h
    exact .cancel
  | close =>
    cases h
    exact .close

end CvdBench.Manifest
