import CvdBench.Master.Scheduler
import Mathlib.Logic.Relation

/-!
The life of one job record. `JobRecord.Step` lists everything that any section does to
a record, and the invariants of a record follow from it alone.
-/

set_option autoImplicit false

namespace CvdBench.Master

open Foundation Proto

/-- The transitions of `JobStatus`. -/
inductive Edge : JobStatus → JobStatus → Prop where
  | prepare : Edge .pending .preparing
  | start : Edge .preparing .running
  | complete : Edge .running .completed
  | failPreparing : Edge .preparing .failed
  | failRunning : Edge .running .failed
  | cancelPending : Edge .pending .cancelled
  | cancelPreparing : Edge .preparing .cancelled
  | cancelRunning : Edge .running .cancelled

namespace JobRecord

@[simp] theorem isTerminal_iff {r : JobRecord} :
    r.isTerminal = true ↔
      r.status = .completed ∨ r.status = .failed ∨ r.status = .cancelled := by
  simp [isTerminal, or_assoc]

theorem isTerminal_eq_false_iff {r : JobRecord} :
    r.isTerminal = false ↔
      r.status ≠ .completed ∧ r.status ≠ .failed ∧ r.status ≠ .cancelled := by
  simp [isTerminal, and_assoc]

/-- The start barrier of the job has been decided, one way or another. -/
def begun (r : JobRecord) : Prop := r.status ≠ .pending ∧ r.status ≠ .preparing

def note (r : JobRecord) (seen : HashMap WorkerId Instant)
    (progress : HashMap WorkerId WorkerProgress) : JobRecord :=
  { r with workerLastSeen := seen, latestProgress := progress }

def withReady (r : JobRecord) (w : WorkerId) : JobRecord :=
  { r with readyWorkers := insert w r.readyWorkers }

def withResult (r : JobRecord) (result : WorkerResult) : JobRecord :=
  { r with workerResults := r.workerResults.put result.workerId result }

def withSlot (r : JobRecord) (w : WorkerId) : JobRecord :=
  { r with workerAssignments := r.workerAssignments.put w ⟨r.slotsFilled⟩ }

def start (r : JobRecord) (atMs : Int) : JobRecord :=
  { r with startAtMs := atMs, status := .running }

def closed {H : Type} (lib : Metrics.HdrLib H) (order : HashOrder String) (nowMs : Int)
    (r : JobRecord) : JobRecord :=
  { r.aggregateIntoRecord lib order nowMs with manifestHandle := none }

def filled (r : JobRecord) (now : Instant) (fileQueue manifestHandle : Option JobId) :
    JobRecord :=
  { r.enterPreparing now with fileQueue, manifestHandle }

theorem tryAssign_eq_some {r r' : JobRecord} {w : WorkerId} {now : Instant}
    {a : WorkerAssignment} (h : r.tryAssign w now = some (r', a)) :
    a = ⟨r.slotsFilled⟩ ∧
      r' = (r.withSlot w).note (r.workerLastSeen.put w now) r.latestProgress := by
  unfold tryAssign at h
  split at h
  · cases h
  · simp only [Option.some.injEq, Prod.mk.injEq] at h
    exact ⟨h.2.symm, h.1.symm⟩

/-- A first result is taken from a run worker of a running job. -/
structure Takes (r : JobRecord) (result : WorkerResult) : Prop where
  running : r.status = .running
  member : result.workerId ∈ r.runWorkers
  fresh : result.workerId ∉ r.workerResults.keys

/-- The ways a job ends, before its record is aggregated. -/
inductive Ends (r : JobRecord) : JobRecord → Prop where
  | cancelled : r.isTerminal = false → r.status ≠ .unspecified →
      Ends r { r with status := .cancelled }
  | failed (error : Option String) : r.status = .preparing ∨ r.status = .running →
      Ends r { r with status := .failed, error }
  | resultFailed (result : WorkerResult) (error : Option String) :
      r.Takes result → result.success = false →
      Ends r { r.withResult result with status := .failed, error }
  | completed (result : WorkerResult) : r.Takes result → result.success = true →
      (r.withResult result).workerResults.len = r.runWorkers.card →
      Ends r { r.withResult result with status := .completed }

/-- Everything a section does to the record of a job. -/
inductive Step {H : Type} (lib : Metrics.HdrLib H) (r : JobRecord) : JobRecord → Prop where
  | noted (seen progress) : Step lib r (r.note seen progress)
  | resulted (seen progress) (result : WorkerResult) : r.Takes result →
      result.success = true → (r.withResult result).workerResults.len ≠ r.runWorkers.card →
      Step lib r ((r.withResult result).note seen progress)
  | readied (seen) (w : WorkerId) : r.status = .preparing ∨ r.status = .pending →
      w ∈ r.workerAssignments.keys → barrierOpens (r.withReady w) = false →
      Step lib r ((r.withReady w).note seen r.latestProgress)
  | started (seen) (w : WorkerId) (atMs : Int) : barrierOpens (r.withReady w) = true →
      w ∈ r.workerAssignments.keys →
      Step lib r (((r.withReady w).note seen r.latestProgress).start atMs)
  | assigned (seen) (w : WorkerId) : r.status = .pending →
      Spec.validateWorkerId w = .ok () → (r.withSlot w).slotsRemaining ≠ 0 →
      Step lib r ((r.withSlot w).note seen r.latestProgress)
  | filled (seen) (w : WorkerId) (now fileQueue manifestHandle) : r.status = .pending →
      Spec.validateWorkerId w = .ok () → (r.withSlot w).slotsRemaining = 0 →
      Step lib r
        (((r.withSlot w).note seen r.latestProgress).filled now fileQueue manifestHandle)
  | ended {r₀ : JobRecord} (seen progress order nowMs) : r.Ends r₀ →
      Step lib r ((r₀.note seen progress).closed lib order nowMs)

/-- The published part of a terminal record. -/
structure Frozen (r r' : JobRecord) : Prop where
  status : r'.status = r.status
  error : r'.error = r.error
  workerResults : r'.workerResults = r.workerResults
  aggregated : r'.aggregated = r.aggregated
  windowMisaligned : r'.windowMisaligned = r.windowMisaligned
  missingHistogramCount : r'.missingHistogramCount = r.missingHistogramCount
  successWorkerCount : r'.successWorkerCount = r.successWorkerCount
  terminalAtMs : r'.terminalAtMs = r.terminalAtMs
  runWorkers : r'.runWorkers = r.runWorkers
  readyWorkers : r'.readyWorkers = r.readyWorkers
  startAtMs : r'.startAtMs = r.startAtMs
  workerAssignments : r'.workerAssignments = r.workerAssignments

theorem Frozen.refl (r : JobRecord) : Frozen r r := by
  constructor <;> rfl

theorem Frozen.trans {r r' r'' : JobRecord} (h : Frozen r r') (h' : Frozen r' r'') :
    Frozen r r'' := by
  constructor
  · rw [h'.status, h.status]
  · rw [h'.error, h.error]
  · rw [h'.workerResults, h.workerResults]
  · rw [h'.aggregated, h.aggregated]
  · rw [h'.windowMisaligned, h.windowMisaligned]
  · rw [h'.missingHistogramCount, h.missingHistogramCount]
  · rw [h'.successWorkerCount, h.successWorkerCount]
  · rw [h'.terminalAtMs, h.terminalAtMs]
  · rw [h'.runWorkers, h.runWorkers]
  · rw [h'.readyWorkers, h.readyWorkers]
  · rw [h'.startAtMs, h.startAtMs]
  · rw [h'.workerAssignments, h.workerAssignments]

theorem Frozen.isTerminal {r r' : JobRecord} (h : Frozen r r') :
    r'.isTerminal = r.isTerminal := by
  simp only [JobRecord.isTerminal, h.status]

/-- `r'` is a later version of the record `r`. -/
structure Le (r r' : JobRecord) : Prop where
  status : Relation.ReflTransGen Edge r.status r'.status
  jobId : r'.jobId = r.jobId
  target : r'.targetWorkers = r.targetWorkers
  assigned : r.workerAssignments.keys ⊆ r'.workerAssignments.keys
  slots : r.status ≠ .pending → r'.workerAssignments = r.workerAssignments
  run : r.status ≠ .pending → r'.runWorkers = r.runWorkers
  start : r.begun → r'.startAtMs = r.startAtMs
  results : ∀ w x, r.workerResults.get? w = some x → r'.workerResults.get? w = some x
  frozen : r.isTerminal = true → Frozen r r'

end JobRecord

theorem Edge.not_pending {s t : JobStatus} (h : Edge s t) : t ≠ .pending := by
  cases h <;> decide

theorem Edge.not_preparing {s t : JobStatus} (h : Edge s t) (hs : s ≠ .pending) :
    t ≠ .preparing := by
  cases h <;> first | decide | exact absurd rfl hs

theorem Edge.path_not_pending {s t : JobStatus} (h : Relation.ReflTransGen Edge s t)
    (hs : s ≠ .pending) : t ≠ .pending := by
  induction h with
  | refl => exact hs
  | tail _ he _ => exact he.not_pending

theorem Edge.path_begun {s t : JobStatus} (h : Relation.ReflTransGen Edge s t)
    (hs : s ≠ .pending ∧ s ≠ .preparing) : t ≠ .pending ∧ t ≠ .preparing := by
  induction h with
  | refl => exact hs
  | tail _ he ih => exact ⟨he.not_pending, he.not_preparing ih.1⟩

namespace JobRecord

theorem Le.refl (r : JobRecord) : Le r r where
  status := .refl
  jobId := rfl
  target := rfl
  assigned := Finset.Subset.refl _
  slots _ := rfl
  run _ := rfl
  start _ := rfl
  results _ _ h := h
  frozen _ := .refl r

theorem Le.trans {r r' r'' : JobRecord} (h : Le r r') (h' : Le r' r'') : Le r r'' where
  status := h.status.trans h'.status
  jobId := by rw [h'.jobId, h.jobId]
  target := by rw [h'.target, h.target]
  assigned := h.assigned.trans h'.assigned
  slots hs := by rw [h'.slots (Edge.path_not_pending h.status hs), h.slots hs]
  run hs := by rw [h'.run (Edge.path_not_pending h.status hs), h.run hs]
  start hs := by rw [h'.start (Edge.path_begun h.status hs), h.start hs]
  results w x hx := h'.results w x (h.results w x hx)
  frozen ht := by
    have hf := h.frozen ht
    exact hf.trans (h'.frozen (by rw [hf.isTerminal, ht]))

section

variable {H : Type} {lib : Metrics.HdrLib H}

theorem enterPreparing_of_pending {r : JobRecord} (now : Instant) (h : r.status = .pending) :
    r.enterPreparing now =
      { r with
        runWorkers := r.workerAssignments.keys
        preparingSince := some now
        status := .preparing } := by
  simp [enterPreparing, h]

theorem Takes.get?_withResult {r : JobRecord} {result : WorkerResult} (h : r.Takes result)
    {w : WorkerId} {x : WorkerResult} (hx : r.workerResults.get? w = some x) :
    (r.withResult result).workerResults.get? w = some x := by
  have hne : w ≠ result.workerId := by
    rintro rfl
    exact h.fresh (HashMap.mem_keys_of_get? hx)
  rw [withResult, HashMap.get?_put_ne _ _ hne, hx]

theorem Takes.not_terminal {r : JobRecord} {result : WorkerResult} (h : r.Takes result) :
    ¬ r.isTerminal = true := by
  simp [h.running]

theorem Ends.edge {r r₀ : JobRecord} (h : r.Ends r₀) :
    Edge r.status r₀.status ∧ r₀.isTerminal = true ∧ ¬ r.isTerminal = true := by
  cases h with
  | cancelled hterm hspec =>
    refine ⟨?_, by simp, by simp [hterm]⟩
    rw [isTerminal_eq_false_iff] at hterm
    cases hs : r.status with
    | unspecified => exact absurd hs hspec
    | pending => exact .cancelPending
    | preparing => exact .cancelPreparing
    | running => exact .cancelRunning
    | completed => exact absurd hs hterm.1
    | failed => exact absurd hs hterm.2.1
    | cancelled => exact absurd hs hterm.2.2
  | failed error hs =>
    refine ⟨?_, by simp, ?_⟩
    · rcases hs with hs | hs <;> rw [hs]
      · exact .failPreparing
      · exact .failRunning
    · rcases hs with hs | hs <;> simp [hs]
  | resultFailed result error ht _ =>
    exact ⟨ht.running ▸ .failRunning, by simp, ht.not_terminal⟩
  | completed result ht _ _ =>
    exact ⟨ht.running ▸ .complete, by simp, ht.not_terminal⟩

theorem Ends.le {r r₀ : JobRecord} (h : r.Ends r₀) : Le r r₀ where
  status := .single h.edge.1
  jobId := by cases h <;> rfl
  target := by cases h <;> rfl
  assigned := by cases h <;> exact Finset.Subset.refl _
  slots _ := by cases h <;> rfl
  run _ := by cases h <;> rfl
  start _ := by cases h <;> rfl
  results w x hx := by
    cases h with
    | cancelled | failed => exact hx
    | resultFailed _ _ ht | completed _ ht => exact ht.get?_withResult hx
  frozen ht := absurd ht h.edge.2.2

theorem Step.le {r r' : JobRecord} (h : r.Step lib r') : Le r r' := by
  cases h with
  | noted seen progress =>
    exact { Le.refl r with frozen := fun _ => by constructor <;> rfl }
  | resulted seen progress result ht _ _ =>
    exact { Le.refl r with
      results := fun w x hx => ht.get?_withResult hx
      frozen := fun hterm => absurd hterm ht.not_terminal }
  | readied seen w hs _ _ =>
    exact { Le.refl r with
      frozen := fun hterm => by rcases hs with hs | hs <;> simp [hs] at hterm }
  | started seen w atMs hb _ =>
    have hs : r.status = .preparing := by
      simp only [barrierOpens, withReady, Bool.and_eq_true, beq_iff_eq] at hb
      exact hb.1.1.1
    exact { Le.refl r with
      status := by rw [hs]; exact .single .start
      start := fun hb => absurd hs hb.2
      frozen := fun hterm => by simp [hs] at hterm }
  | assigned seen w hs _ _ =>
    exact { Le.refl r with
      assigned := by simp [withSlot, note]
      slots := fun h => absurd hs h
      frozen := fun hterm => by simp [hs] at hterm }
  | filled seen w now fileQueue manifestHandle hs _ _ =>
    have hs' : ((r.withSlot w).note seen r.latestProgress).status = .pending := hs
    rw [JobRecord.filled, enterPreparing_of_pending now hs']
    exact { Le.refl r with
      status := by rw [hs]; exact .single .prepare
      assigned := by simp [withSlot, note]
      slots := fun h => absurd hs h
      run := fun h => absurd hs h
      start := fun h => absurd hs h.1
      frozen := fun hterm => by simp [hs] at hterm }
  | @ended r₀ seen progress order nowMs he =>
    have hle := he.le
    exact { hle with frozen := fun hterm => absurd hterm he.edge.2.2 }

theorem Step.edge {r r' : JobRecord} (h : r.Step lib r') :
    r'.status = r.status ∨ Edge r.status r'.status := by
  cases h with
  | noted | resulted | readied | assigned => exact .inl rfl
  | started seen w atMs hb _ =>
    simp only [barrierOpens, withReady, Bool.and_eq_true, beq_iff_eq] at hb
    exact .inr (by rw [hb.1.1.1]; exact .start)
  | filled seen w now fileQueue manifestHandle hs _ _ =>
    have hs' : ((r.withSlot w).note seen r.latestProgress).status = .pending := hs
    rw [JobRecord.filled, enterPreparing_of_pending now hs', hs]
    exact .inr .prepare
  | ended seen progress order nowMs he => exact .inr he.edge.1

theorem Step.spec {r r' : JobRecord} (h : r.Step lib r') : r'.specRedacted = r.specRedacted := by
  cases h with
  | noted | resulted | readied | assigned | started => rfl
  | filled seen w now fileQueue manifestHandle hs _ _ =>
    have hs' : ((r.withSlot w).note seen r.latestProgress).status = .pending := hs
    rw [JobRecord.filled, enterPreparing_of_pending now hs']
    rfl
  | @ended r₀ seen progress order nowMs he =>
    have hkept : r₀.specRedacted = r.specRedacted := by
      cases he <;> rfl
    exact hkept

theorem Step.createdAtMs {r r' : JobRecord} (h : r.Step lib r') :
    r'.createdAtMs = r.createdAtMs := by
  cases h with
  | noted | resulted | readied | assigned | started => rfl
  | filled seen w now fileQueue manifestHandle hs _ _ =>
    have hs' : ((r.withSlot w).note seen r.latestProgress).status = .pending := hs
    rw [JobRecord.filled, enterPreparing_of_pending now hs']
    rfl
  | @ended r₀ seen progress order nowMs he =>
    have hkept : r₀.createdAtMs = r.createdAtMs := by
      cases he <;> rfl
    exact hkept

end

/-- The record invariant: what the collections of a record say in each status. -/
structure Coherent (r : JobRecord) : Prop where
  specified : r.status ≠ .unspecified
  targetPos : 1 ≤ r.targetWorkers
  targetFits : r.targetWorkers ≤ Spec.u32Max
  validIds : ∀ w ∈ r.workerAssignments.keys, Spec.validateWorkerId w = .ok ()
  readyAssigned : r.readyWorkers ⊆ r.workerAssignments.keys
  resultsRun : r.workerResults.keys ⊆ r.runWorkers
  pending : r.status = .pending →
    r.runWorkers = ∅ ∧ r.workerResults.keys = ∅ ∧ r.startAtMs = 0 ∧
      r.workerAssignments.len < r.targetWorkers
  preparing : r.status = .preparing →
    r.runWorkers = r.workerAssignments.keys ∧ r.runWorkers.card = r.targetWorkers ∧
      r.readyWorkers ⊂ r.runWorkers ∧ r.workerResults.keys = ∅ ∧ r.startAtMs = 0
  running : r.status = .running →
    r.runWorkers = r.workerAssignments.keys ∧ r.runWorkers.card = r.targetWorkers ∧
      r.readyWorkers = r.runWorkers ∧ r.workerResults.keys ⊂ r.runWorkers ∧
      ∀ w x, r.workerResults.get? w = some x → x.success = true
  completed : r.status = .completed →
    r.runWorkers = r.workerAssignments.keys ∧ r.runWorkers.card = r.targetWorkers ∧
      r.readyWorkers = r.runWorkers ∧ r.workerResults.keys = r.runWorkers ∧
      ∀ w x, r.workerResults.get? w = some x → x.success = true
  published : r.isTerminal = true ↔ r.terminalAtMs.isSome = true ∧ r.aggregated.isSome = true

section

variable {H : Type} {lib : Metrics.HdrLib H} {r : JobRecord}

theorem Coherent.new {id : JobId} {spec : BenchSpec} {creds : Option S3CredentialMaterial}
    {mountPoint : String} {target : Nat} {nowMs : Int} (hlo : 1 ≤ target)
    (hhi : target ≤ Spec.u32Max) : Coherent (.new id spec creds mountPoint target nowMs) := by
  constructor <;> simp [JobRecord.new, hhi] <;> omega

theorem Coherent.slotsFilled_eq (h : Coherent r) (hs : r.status = .pending) :
    r.slotsFilled = r.workerAssignments.len := by
  have hlt := (h.pending hs).2.2.2
  have hfits := h.targetFits
  unfold slotsFilled
  omega

/-- The branch of `fetch_job` for a full job that is still pending is dead code. -/
theorem Coherent.tryAssign_isSome (h : Coherent r) (hs : r.status = .pending) (w : WorkerId)
    (now : Instant) : (r.tryAssign w now).isSome = true := by
  have hlt := (h.pending hs).2.2.2
  have hne : r.slotsRemaining ≠ 0 := by
    rw [slotsRemaining, h.slotsFilled_eq hs]
    omega
  simp [tryAssign, hne]

theorem withSlot_len_le (r : JobRecord) (w : WorkerId) :
    (r.withSlot w).workerAssignments.len ≤ r.workerAssignments.len + 1 := by
  by_cases hw : w ∈ r.workerAssignments.keys
  · simp [withSlot, HashMap.len_put_of_mem _ hw]
  · simp [withSlot, HashMap.len_put_of_notMem _ hw]

theorem slotsRemaining_withSlot (h : Coherent r) (hs : r.status = .pending) (w : WorkerId) :
    (r.withSlot w).slotsRemaining = r.targetWorkers - (r.withSlot w).workerAssignments.len := by
  have hlt := (h.pending hs).2.2.2
  have hfits := h.targetFits
  have hle := withSlot_len_le r w
  have htarget : (r.withSlot w).targetWorkers = r.targetWorkers := rfl
  unfold slotsRemaining slotsFilled
  rw [htarget]
  omega

theorem Coherent.last_slot (h : Coherent r) (hs : r.status = .pending) {w : WorkerId}
    (hfull : (r.withSlot w).slotsRemaining = 0) :
    w ∉ r.workerAssignments.keys ∧
      (r.withSlot w).workerAssignments.keys.card = r.targetWorkers := by
  have hlt := (h.pending hs).2.2.2
  rw [slotsRemaining_withSlot h hs] at hfull
  by_cases hw : w ∈ r.workerAssignments.keys
  · have hlen : (r.withSlot w).workerAssignments.len = r.workerAssignments.len :=
      HashMap.len_put_of_mem _ hw
    omega
  · have hlen : (r.withSlot w).workerAssignments.len = r.workerAssignments.len + 1 :=
      HashMap.len_put_of_notMem _ hw
    refine ⟨hw, ?_⟩
    have hcard : (r.withSlot w).workerAssignments.keys.card =
        (r.withSlot w).workerAssignments.len := rfl
    omega

theorem Coherent.note (h : Coherent r) (seen : HashMap WorkerId Instant)
    (progress : HashMap WorkerId WorkerProgress) : Coherent (r.note seen progress) :=
  { h with }

theorem Coherent.keys_withResult (h : Coherent r) {result : WorkerResult}
    (ht : r.Takes result) : (r.withResult result).workerResults.keys ⊆ r.runWorkers := by
  rw [withResult, HashMap.keys_put]
  exact Finset.insert_subset ht.member h.resultsRun

theorem Coherent.success_withResult (h : Coherent r) {result : WorkerResult}
    (ht : r.Takes result) (hok : result.success = true) (w : WorkerId) (x : WorkerResult)
    (hx : (r.withResult result).workerResults.get? w = some x) : x.success = true := by
  rw [withResult, HashMap.get?_put] at hx
  split at hx
  · cases hx; exact hok
  · exact (h.running ht.running).2.2.2.2 w x hx

theorem Coherent.resulted (h : Coherent r) {result : WorkerResult} (ht : r.Takes result)
    (hok : result.success = true)
    (hmore : (r.withResult result).workerResults.len ≠ r.runWorkers.card) :
    Coherent (r.withResult result) := by
  have hrun := h.running ht.running
  have hs : (r.withResult result).status = .running := ht.running
  have hne : (r.withResult result).workerResults.keys ≠ r.runWorkers :=
    fun heq => hmore (congrArg Finset.card heq)
  have hsub := h.keys_withResult ht
  exact { h with
    resultsRun := hsub
    pending := fun hp => by cases hs.symm.trans hp
    preparing := fun hp => by cases hs.symm.trans hp
    running := fun _ => ⟨hrun.1, hrun.2.1, hrun.2.2.1,
      Finset.ssubset_iff_subset_ne.mpr ⟨hsub, hne⟩, h.success_withResult ht hok⟩
    completed := fun hp => by cases hs.symm.trans hp }

theorem barrierOpens_iff : barrierOpens r = true ↔
    r.status = .preparing ∧ r.startAtMs = 0 ∧ r.runWorkers ≠ ∅ ∧
      r.readyWorkers.card = r.runWorkers.card := by
  simp [barrierOpens, and_assoc]

theorem Coherent.readied (h : Coherent r) {w : WorkerId}
    (hs : r.status = .preparing ∨ r.status = .pending) (hw : w ∈ r.workerAssignments.keys)
    (hclosed : barrierOpens (r.withReady w) = false) : Coherent (r.withReady w) := by
  have hsub : (r.withReady w).readyWorkers ⊆ r.workerAssignments.keys :=
    Finset.insert_subset hw h.readyAssigned
  have hstatus : (r.withReady w).status = r.status := rfl
  refine { h with
    readyAssigned := hsub
    preparing := fun hp => ?_
    running := fun hp => by rw [hstatus] at hp; simp [hp] at hs
    completed := fun hp => by rw [hstatus] at hp; simp [hp] at hs }
  obtain ⟨hrun, hcard, _, hres, hstart⟩ := h.preparing hp
  have hne : r.runWorkers ≠ ∅ := by
    intro hempty
    rw [hempty] at hcard
    simpa [← hcard] using h.targetPos
  refine ⟨hrun, hcard, ?_, hres, hstart⟩
  refine Finset.ssubset_iff_subset_ne.mpr ⟨by rw [← hrun] at hsub; exact hsub, ?_⟩
  intro heq
  have hopen : barrierOpens (r.withReady w) = true :=
    barrierOpens_iff.mpr ⟨hp, hstart, hne, congrArg Finset.card heq⟩
  rw [hclosed] at hopen
  cases hopen

theorem Coherent.started (h : Coherent r) {w : WorkerId} {atMs : Int}
    (hw : w ∈ r.workerAssignments.keys) (hopen : barrierOpens (r.withReady w) = true) :
    Coherent ((r.withReady w).start atMs) := by
  obtain ⟨hs, _, _, hcount⟩ := barrierOpens_iff.mp hopen
  have hs : r.status = .preparing := hs
  obtain ⟨hrun, hcard, _, hres, _⟩ := h.preparing hs
  have hstatus : ((r.withReady w).start atMs).status = .running := rfl
  have hsub : (r.withReady w).readyWorkers ⊆ r.runWorkers := by
    rw [hrun]
    exact Finset.insert_subset hw h.readyAssigned
  have hall : (r.withReady w).readyWorkers = r.runWorkers :=
    Finset.eq_of_subset_of_card_le hsub hcount.ge
  have hpos : 0 < r.runWorkers.card := by
    have := h.targetPos
    omega
  refine { h with
    specified := by simp [hstatus]
    readyAssigned := Finset.insert_subset hw h.readyAssigned
    pending := fun hp => by cases hstatus.symm.trans hp
    preparing := fun hp => by cases hstatus.symm.trans hp
    running := fun _ => ⟨hrun, hcard, hall, ?_, ?_⟩
    completed := fun hp => by cases hstatus.symm.trans hp
    published := ?_ }
  · show r.workerResults.keys ⊂ r.runWorkers
    rw [hres]
    exact Finset.empty_ssubset.mpr (Finset.card_pos.mp hpos)
  · intro w x hx
    have hmem : w ∈ r.workerResults.keys := HashMap.mem_keys_of_get? hx
    simp [hres] at hmem
  · have hnot : ¬ (r.terminalAtMs.isSome = true ∧ r.aggregated.isSome = true) := by
      rw [← h.published]; simp [hs]
    have hterm : ¬ ((r.withReady w).start atMs).isTerminal = true := by simp [hstatus]
    exact iff_of_false hterm hnot

theorem Coherent.validIds_withSlot (h : Coherent r) {w : WorkerId}
    (hw : Spec.validateWorkerId w = .ok ()) :
    ∀ w' ∈ (r.withSlot w).workerAssignments.keys, Spec.validateWorkerId w' = .ok () := by
  intro w' hw'
  rw [withSlot, HashMap.keys_put, Finset.mem_insert] at hw'
  rcases hw' with rfl | hw'
  · exact hw
  · exact h.validIds w' hw'

theorem Coherent.assigned (h : Coherent r) {w : WorkerId} (hs : r.status = .pending)
    (hw : Spec.validateWorkerId w = .ok ()) (hmore : (r.withSlot w).slotsRemaining ≠ 0) :
    Coherent (r.withSlot w) := by
  obtain ⟨hrun, hres, hstart, _⟩ := h.pending hs
  have hstatus : (r.withSlot w).status = .pending := hs
  have hlt : (r.withSlot w).workerAssignments.len < r.targetWorkers := by
    rw [slotsRemaining_withSlot h hs] at hmore
    omega
  have hsub : r.workerAssignments.keys ⊆ (r.withSlot w).workerAssignments.keys := by
    simp [withSlot]
  exact { h with
    validIds := h.validIds_withSlot hw
    readyAssigned := h.readyAssigned.trans hsub
    pending := fun _ => ⟨hrun, hres, hstart, hlt⟩
    preparing := fun hp => by cases hstatus.symm.trans hp
    running := fun hp => by cases hstatus.symm.trans hp
    completed := fun hp => by cases hstatus.symm.trans hp }

theorem Coherent.filled (h : Coherent r) {w : WorkerId} (now : Instant)
    (fileQueue manifestHandle : Option JobId) (hs : r.status = .pending)
    (hw : Spec.validateWorkerId w = .ok ()) (hfull : (r.withSlot w).slotsRemaining = 0) :
    Coherent ((r.withSlot w).filled now fileQueue manifestHandle) := by
  obtain ⟨_, hres, hstart, _⟩ := h.pending hs
  obtain ⟨hnew, hcard⟩ := h.last_slot hs hfull
  have hs' : (r.withSlot w).status = .pending := hs
  have hsub : r.workerAssignments.keys ⊆ (r.withSlot w).workerAssignments.keys := by
    simp [withSlot]
  have hmem : w ∈ (r.withSlot w).workerAssignments.keys := by simp [withSlot]
  have hready : r.readyWorkers ⊆ (r.withSlot w).workerAssignments.keys :=
    h.readyAssigned.trans hsub
  have hstrict : r.readyWorkers ⊂ (r.withSlot w).workerAssignments.keys := by
    refine Finset.ssubset_iff_subset_ne.mpr ⟨hready, ?_⟩
    rintro heq
    rw [← heq] at hmem
    exact hnew (h.readyAssigned hmem)
  rw [JobRecord.filled, enterPreparing_of_pending now hs']
  exact { h with
    specified := by simp
    validIds := h.validIds_withSlot hw
    readyAssigned := hready
    resultsRun := by
      show r.workerResults.keys ⊆ _
      simp [hres]
    pending := fun hp => by cases hp
    preparing := fun _ => ⟨rfl, hcard, hstrict, hres, hstart⟩
    running := fun hp => by cases hp
    completed := fun hp => by cases hp
    published := by
      have hnot := h.published
      simp only [isTerminal_iff, hs] at hnot
      simpa [withSlot] using hnot }

theorem Coherent.last_result (h : Coherent r) {result : WorkerResult} (ht : r.Takes result)
    (hall : (r.withResult result).workerResults.len = r.runWorkers.card) :
    (r.withResult result).workerResults.keys = r.runWorkers :=
  Finset.eq_of_subset_of_card_le (h.keys_withResult ht) hall.ge

theorem Coherent.reported (h : Coherent r) {w : WorkerId} (hw : w ∈ r.workerResults.keys) :
    r.status = .running ∨ r.isTerminal = true := by
  cases hs : r.status with
  | unspecified => exact absurd hs h.specified
  | pending =>
    rw [(h.pending hs).2.1] at hw
    cases hw
  | preparing =>
    rw [(h.preparing hs).2.2.2.1] at hw
    cases hw
  | running => exact .inl rfl
  | completed | failed | cancelled => exact .inr (by simp [isTerminal, hs])

theorem Coherent.ended (h : Coherent r) {r₀ : JobRecord} (he : r.Ends r₀)
    {seen : HashMap WorkerId Instant} {progress : HashMap WorkerId WorkerProgress}
    {order : HashOrder String} {nowMs : Int} :
    Coherent ((r₀.note seen progress).closed lib order nowMs) := by
  have hterm := he.edge.2.1
  have hbase : 1 ≤ r₀.targetWorkers ∧ r₀.targetWorkers ≤ Spec.u32Max ∧
      (∀ w ∈ r₀.workerAssignments.keys, Spec.validateWorkerId w = .ok ()) ∧
      r₀.readyWorkers ⊆ r₀.workerAssignments.keys ∧
      r₀.workerResults.keys ⊆ r₀.runWorkers := by
    have hlow := h.resultsRun
    cases he with
    | cancelled | failed =>
      exact ⟨h.targetPos, h.targetFits, h.validIds, h.readyAssigned, hlow⟩
    | resultFailed _ _ ht | completed _ ht =>
      exact ⟨h.targetPos, h.targetFits, h.validIds, h.readyAssigned, h.keys_withResult ht⟩
  have hdone : r₀.status = .completed →
      r₀.runWorkers = r₀.workerAssignments.keys ∧ r₀.runWorkers.card = r₀.targetWorkers ∧
        r₀.readyWorkers = r₀.runWorkers ∧ r₀.workerResults.keys = r₀.runWorkers ∧
        ∀ w x, r₀.workerResults.get? w = some x → x.success = true := by
    intro hc
    cases he with
    | cancelled | failed | resultFailed => cases hc
    | completed result ht hok hall =>
      have hrun := h.running ht.running
      exact ⟨hrun.1, hrun.2.1, hrun.2.2.1, h.last_result ht hall,
        h.success_withResult ht hok⟩
  obtain ⟨hpos, hfits, hvalid, hready, hres⟩ := hbase
  have hstatus : ((r₀.note seen progress).closed lib order nowMs).status = r₀.status := rfl
  rw [isTerminal_iff] at hterm
  refine ⟨?_, hpos, hfits, hvalid, hready, hres, ?_, ?_, ?_, hdone, ?_⟩
  · intro hp; rw [hstatus] at hp; simp [hp] at hterm
  · intro hp; rw [hstatus] at hp; simp [hp] at hterm
  · intro hp; rw [hstatus] at hp; simp [hp] at hterm
  · intro hp; rw [hstatus] at hp; simp [hp] at hterm
  · refine iff_of_true ?_ ⟨rfl, rfl⟩
    rw [isTerminal_iff]
    exact hterm

theorem Coherent.step {r' : JobRecord} (h : Coherent r) (hstep : r.Step lib r') :
    Coherent r' := by
  cases hstep with
  | noted seen progress => exact h.note _ _
  | resulted seen progress result ht hok hmore => exact (h.resulted ht hok hmore).note _ _
  | readied seen w hs hw hclosed => exact (h.readied hs hw hclosed).note _ _
  | started seen w atMs hopen hw => exact (h.started hw hopen).note _ _
  | assigned seen w hs hw hmore => exact (h.assigned hs hw hmore).note _ _
  | filled seen w now fileQueue manifestHandle hs hw hfull =>
    have hf := (h.filled now fileQueue manifestHandle hs hw hfull).note seen r.latestProgress
    have heq : ((r.withSlot w).note seen r.latestProgress).filled now fileQueue manifestHandle =
        ((r.withSlot w).filled now fileQueue manifestHandle).note seen r.latestProgress := by
      have hs' : (r.withSlot w).status = .pending := hs
      have hs'' : ((r.withSlot w).note seen r.latestProgress).status = .pending := hs
      rw [JobRecord.filled, JobRecord.filled, enterPreparing_of_pending now hs',
        enterPreparing_of_pending now hs'']
      rfl
    rw [heq]
    exact hf
  | ended seen progress order nowMs he => exact h.ended he

end

end JobRecord

end CvdBench.Master
