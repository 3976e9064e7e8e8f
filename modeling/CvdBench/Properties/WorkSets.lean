import CvdBench.Properties.PathContainment
import CvdBench.Properties.UnknownJob

/-!
The directories that a worker makes for one job: those of the runs that enter the hot loop
are gone when it goes back to polling, the others stay.
-/

set_option autoImplicit false

namespace CvdBench.Worker

open Foundation Proto

theorem mem_removeTree {root r : List Char} {roots : List (List Char)} :
    r ∈ removeTree root roots ↔ r ∈ roots ∧ ¬ segments root <+: segments r := by
  simp [removeTree, ← List.isPrefixOf_iff_prefix]

theorem removeRoot_spec {start : List Char → List Char → RootKind → CleanupStart} {mount : String}
    {root : List Char} (hstart : start = cleanupRoot ∨ start = bestEffortCleanup)
    (hinside : pathStartsWith root mount.toList = true) (roots : List (List Char)) :
    root ∉ removeRoot start mount root true roots ∧
      ∀ r ∈ removeRoot start mount root true roots, r ∈ roots := by
  have hkind : start mount.toList root (if root ∈ roots then .dir else .notFound) =
      if root ∈ roots then .sweep (.from root) else .nothing := by
    by_cases hmem : root ∈ roots
    · rcases hstart with rfl | rfl <;> simp [cleanupRoot, bestEffortCleanup, hinside, hmem]
    · rcases hstart with rfl | rfl <;> simp [cleanupRoot, bestEffortCleanup, hinside, hmem]
  unfold removeRoot
  rw [hkind]
  by_cases hmem : root ∈ roots
  · rw [if_pos hmem]
    constructor
    · intro hleft
      exact (mem_removeTree.mp hleft).2 (List.prefix_refl _)
    · intro r hr
      exact (mem_removeTree.mp hr).1
  · rw [if_neg hmem]
    exact ⟨hmem, fun r hr => hr⟩

/-- What a job of a master and a worker of its configuration come with. -/
structure AssignedJob.WellFormed (job : AssignedJob) : Prop where
  mount : job.mountPoint ≠ ""
  valid : Spec.validate job.spec validationContext = .ok ()
  worker : Spec.validateWorkerId job.workerId = .ok ()
  job : IsUuid job.jobId

theorem assignment_accepted {workerId : String} {resp : FetchJobResponse} {job : AssignedJob}
    (h : assignment workerId resp = .accepted job)
    (hworker : Spec.validateWorkerId workerId = .ok ())
    (huuid : ∀ jobId, resp.jobId = some jobId → IsUuid jobId) : job.WellFormed := by
  unfold assignment at h
  split at h
  · cases h
  · next jobId hjob =>
    simp only at h
    split at h
    · cases h
    · next hmount =>
      split at h
      · cases h
      · next spec hspec =>
        cases h
        refine ⟨by simpa using hmount, ?_, hworker, huuid jobId hjob⟩
        cases hproto : resp.spec with
        | none => simp [hproto, parseAndValidate] at hspec
        | some protoSpec =>
          rw [hproto] at hspec
          exact (parseAndValidate_ok.mp hspec).2

namespace AssignedJob

variable {job : AssignedJob} {root : List Char}

theorem WellFormed.rootIn_startsWith (h : job.WellFormed) {dir : String}
    (hdir : Spec.validateRelative dir = .ok ()) :
    pathStartsWith (job.rootIn dir) job.mountPoint.toList = true :=
  workRoot_startsWith h.mount (Spec.validateRelative_ok hdir).2.1
    (noSlash_head (validateWorkerId_ok h.worker).2) (noSlash_head h.job.name.2.1)

theorem WellFormed.prebuilt_startsWith (h : job.WellFormed)
    (hroot : job.prebuiltRoot? = some root) :
    pathStartsWith root job.mountPoint.toList = true := by
  obtain ⟨md, hmd, hroot⟩ := Option.bind_eq_some_iff.mp hroot
  split at hroot
  · cases hroot
  · next hown =>
    cases hroot
    refine h.rootIn_startsWith (Spec.validate_metadataDir h.valid hmd ?_)
    exact (by simpa using hown : md.readOnly = false ∧ md.dirManifest = none).2

theorem WellFormed.cleaned_startsWith (h : job.WellFormed)
    (hroot : job.cleanedWriteRoot? = some root) :
    pathStartsWith root job.mountPoint.toList = true := by
  obtain ⟨write, hwrite, hroot⟩ := Option.bind_eq_some_iff.mp hroot
  split at hroot
  · cases hroot
    exact h.rootIn_startsWith (Spec.validate_writeDir h.valid hwrite)
  · cases hroot

theorem mem_disposable : root ∈ job.disposable ↔
    job.prebuiltRoot? = some root ∨ job.cleanedWriteRoot? = some root := by
  simp [disposable]

theorem write_of_cleaned (h : job.cleanedWriteRoot? = some root) :
    job.spec.write.isSome = true := by
  obtain ⟨write, hwrite, -⟩ := Option.bind_eq_some_iff.mp h
  simp [hwrite]

end AssignedJob

def madeBy (job : AssignedJob) : AssignedAct → List (List Char)
  | .main (.preflight calls) => (job.runPreflight calls).1
  | _ => []

def madeIn (job : AssignedJob) (tr : AssignedTrace) : List (List Char) :=
  tr.flatMap fun e => madeBy job e.act

def EntersHotLoop (tr : AssignedTrace) : Prop := ∃ e ∈ tr, e.post.main = .workload

/-- No call that removes something fails. -/
def AssignedAct.removes : AssignedAct → Bool
  | .main (.cleanup succeeds) | .writeReturns succeeds => succeeds
  | _ => true

theorem entersHotLoop_concat {tr : AssignedTrace}
    {e : Event Assigned AssignedAct AssignedOut} :
    EntersHotLoop (tr ++ [e]) ↔ EntersHotLoop tr ∨ e.post.main = .workload := by
  simp only [EntersHotLoop, List.mem_append, List.mem_singleton]
  constructor
  · rintro ⟨e', hmem | rfl, hpost⟩
    · exact .inl ⟨e', hmem, hpost⟩
    · exact .inr hpost
  · rintro (⟨e', hmem, hpost⟩ | hpost)
    · exact ⟨e', .inl hmem, hpost⟩
    · exact ⟨e, .inr rfl, hpost⟩

theorem madeIn_concat (job : AssignedJob) (tr : AssignedTrace)
    (e : Event Assigned AssignedAct AssignedOut) :
    madeIn job (tr ++ [e]) = madeIn job tr ++ madeBy job e.act := by
  simp [madeIn]

def MainPc.entered : MainPc → Bool
  | .workload | .cleanup _ | .checkUnknown _ | .buildResult _ | .attempt _ _ | .resultSent _ _
  | .resultSleep _ _ | .storeResultUnknown => true
  | _ => false

def MainPc.cleaned : MainPc → Bool
  | .checkUnknown _ | .buildResult _ | .attempt _ _ | .resultSent _ _ | .resultSleep _ _
  | .storeResultUnknown | .finished => true
  | _ => false

/-- The hot loop has not been entered. -/
structure Untouched (job : AssignedJob) (tr : AssignedTrace) (s : Assigned) : Prop where
  main : s.main.entered = false
  writing : s.writing = false
  roots : s.roots = madeIn job tr

/-- The hot loop has been entered. -/
structure Disposed (job : AssignedJob) (s : Assigned) : Prop where
  main : s.main.entered = true ∨ s.main = .finished
  writing : s.main ≠ .workload → s.writing = false
  write : s.writing = false → ∀ root, job.cleanedWriteRoot? = some root → root ∉ s.roots
  prebuilt : s.main.cleaned = true → ∀ root, job.prebuiltRoot? = some root → root ∉ s.roots

structure RootsKept (job : AssignedJob) (tr : AssignedTrace) (s : Assigned) : Prop where
  before : ¬ EntersHotLoop tr → Untouched job tr s
  after : EntersHotLoop tr → Disposed job s

section

variable {job : AssignedJob} {tr : AssignedTrace} {s s' : Assigned} {act : AssignedAct}
  {out : AssignedOut}

theorem RootsKept.snocBefore (h : ¬ EntersHotLoop tr) (hmain : s'.main.entered = false)
    (hwriting : s'.writing = false) (hroots : s'.roots = madeIn job tr ++ madeBy job act) :
    RootsKept job (tr ++ [⟨s, act, out, s'⟩]) s' where
  before _ := by
    refine ⟨hmain, hwriting, ?_⟩
    rw [madeIn_concat]
    exact hroots
  after henters := by
    rcases entersHotLoop_concat.mp henters with henters | henters
    · exact absurd henters h
    · rw [henters] at hmain
      cases hmain

theorem RootsKept.snocAfter (h : EntersHotLoop tr ∨ s'.main = .workload)
    (hdisposed : Disposed job s') : RootsKept job (tr ++ [⟨s, act, out, s'⟩]) s' where
  before hnot := absurd (entersHotLoop_concat.mpr h) hnot
  after _ := hdisposed

theorem RootsKept.snocSame (h : RootsKept job tr s) (hmade : madeBy job act = [])
    (hroots : s'.roots = s.roots) (hwriting : s'.writing = s.writing)
    (hbefore : s.main.entered = false → s'.main.entered = false)
    (hafter : s.main.entered = true ∨ s.main = .finished →
      (s'.main.entered = true ∨ s'.main = .finished) ∧
        (s'.main ≠ .workload → s.main ≠ .workload ∨ s.writing = false) ∧
        (s'.main.cleaned = true → s.main.cleaned = true)) :
    RootsKept job (tr ++ [⟨s, act, out, s'⟩]) s' := by
  by_cases henters : EntersHotLoop tr
  · have hold := h.after henters
    obtain ⟨hmain, hwork, hcleaned⟩ := hafter hold.main
    refine .snocAfter (.inl henters) ⟨hmain, ?_, ?_, ?_⟩
    · intro hne
      rw [hwriting]
      rcases hwork hne with hne | hdone
      · exact hold.writing hne
      · exact hdone
    · intro hdone
      rw [hroots]
      exact hold.write (hwriting ▸ hdone)
    · intro hclean
      rw [hroots]
      exact hold.prebuilt (hcleaned hclean)
  · have hold := h.before henters
    refine .snocBefore henters (hbefore hold.main) (hwriting.trans hold.writing) ?_
    rw [hroots, hold.roots, hmade, List.append_nil]

theorem RootsKept.preflight (h : RootsKept job tr s) (hmain : s.main = .preflight)
    (calls : PreflightCalls) :
    RootsKept job (tr ++ [⟨s, .main (.preflight calls), out, s.preflight job calls⟩])
      (s.preflight job calls) := by
  by_cases henters : EntersHotLoop tr
  · have hold := (h.after henters).main
    simp [hmain, MainPc.entered] at hold
  · have hold := h.before henters
    refine .snocBefore henters ?_ hold.writing ?_
    · unfold Assigned.preflight
      dsimp only
      split <;> rfl
    · simp [Assigned.preflight, hold.roots, madeBy]

theorem RootsKept.cleanup (hwf : job.WellFormed) (h : RootsKept job tr s) {outcome : RunnerOutcome}
    (hmain : s.main = .cleanup outcome)
    (hmain' : s'.main = .checkUnknown outcome) (hwriting : s'.writing = s.writing)
    (hroots : s'.roots = match job.prebuiltRoot? with
      | none => s.roots
      | some root => removeRoot bestEffortCleanup job.mountPoint root true s.roots) :
    RootsKept job (tr ++ [⟨s, .main (.cleanup true), out, s'⟩]) s' := by
  by_cases henters : EntersHotLoop tr
  · have hold := h.after henters
    refine .snocAfter (.inl henters) ⟨.inl ?_, ?_, ?_, ?_⟩
    · rw [hmain']
      rfl
    · intro _
      rw [hwriting]
      exact hold.writing (by simp [hmain])
    · intro hdone root hroot
      have hgone := hold.write (hwriting ▸ hdone) root hroot
      rw [hroots]
      split
      · exact hgone
      · next prebuilt hprebuilt =>
        intro hleft
        exact hgone ((removeRoot_spec (.inr rfl) (hwf.prebuilt_startsWith hprebuilt) _).2 _ hleft)
    · intro _ root hroot
      rw [hroots, hroot]
      exact (removeRoot_spec (.inr rfl) (hwf.prebuilt_startsWith hroot) _).1
  · have hold := (h.before henters).main
    simp [hmain, MainPc.entered] at hold

theorem RootsKept.stepMain {act : MainAct} (hwf : job.WellFormed) (h : RootsKept job tr s)
    (hremoves : (AssignedAct.main act).removes = true) (hmove : s.MainMove job act s' out) :
    RootsKept job (tr ++ [⟨s, .main act, out, s'⟩]) s' := by
  cases hmove with
  | preflight calls hmain => exact h.preflight hmain calls
  | readyError _ _ _ hstep =>
    obtain ⟨main, rfl, ⟨n, hmain⟩, hmain', -⟩ := Assigned.stepReadyError_spec hstep
    have hmade : madeBy job (.main act) = [] := by
      cases act with
      | preflight calls =>
        rcases hmain with hmain | hmain | hmain <;>
          simp [Assigned.stepReadyError, hmain] at hstep
      | _ => rfl
    refine h.snocSame hmade rfl rfl ?_ ?_
    · intro _
      rcases hmain' with rfl | ⟨m, rfl | rfl | rfl⟩ <;> rfl
    · intro hold
      rcases hmain with hmain | hmain | hmain <;> simp [hmain, MainPc.entered] at hold
  | startWorkload hmain =>
    refine .snocAfter (.inr rfl) ⟨.inl rfl, fun hne => absurd rfl hne, ?_, ?_⟩
    · intro hdone root hroot
      have hwrite := AssignedJob.write_of_cleaned hroot
      simp [Assigned.startWorkload, hwrite] at hdone
    · intro hclean
      simp [Assigned.startWorkload, MainPc.cleaned] at hclean
  | returned outcome hmain hwriting =>
    refine h.snocSame rfl rfl rfl ?_ ?_
    · intro hold
      simp [hmain, MainPc.entered] at hold
    · intro _
      exact ⟨.inl rfl, fun _ => .inr hwriting, by simp [MainPc.cleaned]⟩
  | cleanup outcome succeeds hmain =>
    obtain rfl : succeeds = true := hremoves
    exact h.cleanup hwf hmain rfl rfl rfl
  | readyOk res hmain =>
    refine h.snocSame rfl rfl rfl ?_ ?_
    · intro _
      dsimp only [Assigned.readyAnswer]
      split_ifs <;> rfl
    · intro hold
      simp [hmain, MainPc.entered] at hold
  | resultOk n result res hmain | resultFailed n result err hmain =>
    refine h.snocSame rfl rfl rfl ?_ ?_
    · intro hold
      simp [hmain, MainPc.entered] at hold
    · intro _
      refine ⟨?_, fun _ => .inl (by simp [hmain]), fun _ => by simp [hmain, MainPc.cleaned]⟩
      dsimp only
      split_ifs
      · exact .inl rfl
      · exact .inr rfl
  | _ =>
    exact h.snocSame rfl rfl rfl (by simp [*, MainPc.entered])
      (by simp [*, MainPc.entered, MainPc.cleaned])

theorem RootsKept.step (hwf : job.WellFormed) (h : RootsKept job tr s)
    (hremoves : act.removes = true) (hmove : Assigned.Move job s act s' out) :
    RootsKept job (tr ++ [⟨s, act, out, s'⟩]) s' := by
  cases hmove with
  | main act _ _ hmain => exact h.stepMain hwf hremoves hmain
  | writeReturns succeeds hwriting =>
    obtain rfl : succeeds = true := hremoves
    by_cases henters : EntersHotLoop tr
    · have hold := h.after henters
      have hmain : s.main = .workload := by
        by_contra hne
        rw [hold.writing hne] at hwriting
        cases hwriting
      refine .snocAfter (.inl henters) ⟨hold.main, fun _ => rfl, ?_, ?_⟩
      · intro _ root hroot
        dsimp only
        rw [hroot]
        exact (removeRoot_spec (.inl rfl) (hwf.cleaned_startsWith hroot) _).1
      · intro hclean
        simp [hmain, MainPc.cleaned] at hclean
    · rw [(h.before henters).writing] at hwriting
      cases hwriting
  | preflightProgress | progress | fetcher | shutdown =>
    exact h.snocSame rfl rfl rfl id fun hmain => ⟨hmain, .inl, id⟩

/-- When the worker goes back to polling, the directories that it made for the job alone are
gone exactly if it entered the hot loop, or made none. -/
theorem work_sets_removed_iff {workerId : String} {resp : FetchJobResponse}
    (hjob : assignment workerId resp = .accepted job)
    (hworker : Spec.validateWorkerId workerId = .ok ())
    (huuid : ∀ jobId, resp.jobId = some jobId → IsUuid jobId)
    (hrun : (assigned (.accepted job)).Run (assigned (.accepted job)).init tr s)
    (hremoves : ∀ e ∈ tr, e.act.removes = true) (hdone : s.main = .finished) :
    (∀ root ∈ job.disposable, root ∉ s.roots) ↔
      EntersHotLoop tr ∨ ∀ root ∈ job.disposable, root ∉ madeIn job tr := by
  have hwf := assignment_accepted hjob hworker huuid
  have hkept : RootsKept job tr s := by
    refine hrun.historyWhere (fun _ act => act.removes = true) (P := RootsKept job) hremoves ?_ ?_
    · refine ⟨fun _ => ⟨rfl, rfl, rfl⟩, ?_⟩
      rintro ⟨e, he, -⟩
      cases he
    · intro tr s act s' out _ _ h hact hstep
      exact h.step hwf hact (Assigned.step_move hstep)
  by_cases henters : EntersHotLoop tr
  · have hdisposed := hkept.after henters
    have hclean : s.main.cleaned = true := by rw [hdone]; rfl
    have hwritten : s.writing = false := hdisposed.writing (by simp [hdone])
    refine iff_of_true ?_ (.inl henters)
    intro root hroot
    rcases AssignedJob.mem_disposable.mp hroot with hroot | hroot
    · exact hdisposed.prebuilt hclean root hroot
    · exact hdisposed.write hwritten root hroot
  · rw [(hkept.before henters).roots]
    exact ⟨.inr, fun h => h.resolve_left henters⟩

end

namespace Small

def cancelledAtBarrier : List AssignedAct :=
  [.main (.preflight allWell), .shutdown, .main .run, .main .run,
    .main (.result (.ok { unknownJob := false }))]

end Small

theorem work_sets_removed_small :
    (∀ root ∈ Small.cleanedJob.disposable,
      root ∉ ((assigned (.accepted Small.cleanedJob)).play
        (assigned (.accepted Small.cleanedJob)).init Small.unknownInHotLoop).roots) ↔
      EntersHotLoop ((assigned (.accepted Small.cleanedJob)).trace
          (assigned (.accepted Small.cleanedJob)).init Small.unknownInHotLoop) ∨
        ∀ root ∈ Small.cleanedJob.disposable, root ∉ madeIn Small.cleanedJob
          ((assigned (.accepted Small.cleanedJob)).trace
            (assigned (.accepted Small.cleanedJob)).init Small.unknownInHotLoop) := by
  have hjob : assignment "w" Small.cleanedResp = .accepted Small.cleanedJob := rfl
  refine work_sets_removed_iff hjob rfl ?_ ((assigned (.accepted Small.cleanedJob)).run_play _ _)
    (by decide) rfl
  intro jobId hid
  obtain rfl := Option.some.inj hid
  decide

/-- A job that is cancelled before it starts leaves its work set behind. -/
theorem cancelled_job_keeps_work_set :
    assignment "w" Small.cleanedResp = .accepted Small.cleanedJob ∧
      (∀ e ∈ (assigned (.accepted Small.cleanedJob)).trace
        (assigned (.accepted Small.cleanedJob)).init Small.cancelledAtBarrier,
        e.act.removes = true) ∧
      ((assigned (.accepted Small.cleanedJob)).play
        (assigned (.accepted Small.cleanedJob)).init Small.cancelledAtBarrier).main = .finished ∧
      ¬ ∀ root ∈ Small.cleanedJob.disposable,
        root ∉ ((assigned (.accepted Small.cleanedJob)).play
          (assigned (.accepted Small.cleanedJob)).init Small.cancelledAtBarrier).roots := by
  refine ⟨rfl, by decide, rfl, ?_⟩
  decide

end CvdBench.Worker
