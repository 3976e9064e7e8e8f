import CvdBench.Worker.Assigned

/-!
After a response with `unknown_job` the worker reports no result, in the runs in which no
step of the main flow passes over what a response said: the barrier is not left as cancelled
then, and where `unknown_job` is read no task has a response in hand that is not stored yet.
-/

set_option autoImplicit false

namespace CvdBench.Worker

open Foundation Proto

/-- The task has received `unknown_job`, and has not stored it. -/
def ProgressTask.holds (t : ProgressTask) : Bool :=
  match t.pc with
  | .respond res => res.unknownJob
  | _ => false

def FetchPc.holds : FetchPc → Bool
  | .respond res => res.unknownJob
  | _ => false

def ProgressTask.Stopped (t : ProgressTask) : Prop :=
  t.pc = .finished ∨ t.aborted = true ∧ t.pc ≠ .sleep ∧ t.pc ≠ .request

def MainPc.reports : MainPc → Bool
  | .readyError _ | .readyErrorSent _ | .readyErrorSleep _ => false
  | .cancelledSent | .storeUnknown | .storeResultUnknown | .finished => false
  | _ => true

def MainPc.early : MainPc → Bool
  | .preflight | .barrier | .ready | .barrierSleep | .waitStart => true
  | _ => false

namespace Assigned

def holds (s : Assigned) : Bool :=
  s.preflightProgress.holds || s.progress.holds || s.fetchers.any FetchPc.holds

def told (s : Assigned) : Bool := s.unknownJob || s.holds

/-- The step does not pass over an `unknown_job`. -/
def heeds (s : Assigned) (act : AssignedAct) : Bool :=
  match s.main, act with
  | .barrier, .main .run => !s.cancelled || !s.told
  | .ready, .main (.ready (.ok res)) => !res.cancelled || !res.unknownJob && !s.told
  | .attempt _ _, .main .run => s.unknownJob || !s.holds
  | _, _ => true

end Assigned

def HeardUnknown (tr : AssignedTrace) : Prop := ∃ e ∈ tr, e.out = .heard true

def AssignedOut.isReport : AssignedOut → Bool
  | .reportResult _ _ => true
  | _ => false

def NoReportAfterUnknown (tr : AssignedTrace) : Prop :=
  tr.Pairwise fun e e' => e.out = .heard true → e'.out.isReport = false

theorem heardUnknown_concat {tr : AssignedTrace} {e : Event Assigned AssignedAct AssignedOut} :
    HeardUnknown (tr ++ [e]) ↔ HeardUnknown tr ∨ e.out = .heard true := by
  simp only [HeardUnknown, List.mem_append, List.mem_singleton]
  constructor
  · rintro ⟨e', hmem | rfl, hout⟩
    · exact .inl ⟨e', hmem, hout⟩
    · exact .inr hout
  · rintro (⟨e', hmem, hout⟩ | hout)
    · exact ⟨e', .inl hmem, hout⟩
    · exact ⟨e, .inr rfl, hout⟩

theorem noReportAfterUnknown_concat {tr : AssignedTrace}
    {e : Event Assigned AssignedAct AssignedOut} (h : NoReportAfterUnknown tr)
    (he : HeardUnknown tr → e.out.isReport = false) : NoReportAfterUnknown (tr ++ [e]) := by
  refine List.pairwise_append.mpr ⟨h, List.pairwise_singleton _ _, ?_⟩
  intro e₁ he₁ e₂ he₂ hout
  rw [List.mem_singleton.mp he₂]
  exact he ⟨e₁, he₁, hout⟩

/-- A task stores what it has received, and reports nothing. -/
structure TaskStep (flags flags' : JobFlags) (holds holds' : Bool) (out : AssignedOut) : Prop where
  unknown : flags.unknownJob = true → flags'.unknownJob = true
  stored : holds = true → holds' = true ∨ flags'.unknownJob = true
  heard : out = .heard true → holds' = true
  noReport : out.isReport = false

section

variable {flags flags' : JobFlags} {out : AssignedOut}

theorem ProgressTask.step_task {t t' : ProgressTask} {act : ProgressAct}
    (h : t.step flags act = some (t', flags', out)) :
    TaskStep flags flags' t.holds t'.holds out := by
  unfold ProgressTask.step at h
  split at h
  · next hpc =>
    cases h
    exact ⟨id, by simp [ProgressTask.holds, hpc], by simp, rfl⟩
  · next hpc =>
    split at h
    · cases h
      exact ⟨id, by simp [ProgressTask.holds, hpc], by simp, rfl⟩
    · cases h
      exact ⟨id, by simp [ProgressTask.holds, hpc], by simp, rfl⟩
  · next res hpc =>
    cases h
    refine ⟨id, by simp [ProgressTask.holds, hpc], ?_, rfl⟩
    intro hheard
    simpa [ProgressTask.holds] using hheard
  · next hpc =>
    cases h
    exact ⟨id, by simp [ProgressTask.holds, hpc], by simp, rfl⟩
  · next res hpc =>
    split at h
    · cases h
      exact ⟨fun _ => rfl, fun _ => .inr rfl, by simp, rfl⟩
    · next hknown =>
      split at h
      · cases h
        exact ⟨id, by simp [ProgressTask.holds, hpc, hknown], by simp, rfl⟩
      · cases h
        exact ⟨id, by simp [ProgressTask.holds, hpc, hknown], by simp, rfl⟩
  · next hpc =>
    cases h
    exact ⟨id, by simp [ProgressTask.holds, hpc], by simp, rfl⟩
  · cases h

theorem ProgressTask.step_stopped {t t' : ProgressTask} {act : ProgressAct}
    (h : t.step flags act = some (t', flags', out)) (ht : t.Stopped) :
    t'.Stopped ∧ out = .silent := by
  have haborted : t.pc ≠ .finished → t.aborted = true := fun hpc => (ht.resolve_left hpc).1
  unfold ProgressTask.step at h
  split at h
  · next hpc => simp [ProgressTask.Stopped, hpc] at ht
  · next hpc =>
    have hend : (t.await .request).pc = .finished := by
      simp [ProgressTask.await, haborted (by simp [hpc])]
    split at h
    · cases h
      exact ⟨.inl rfl, rfl⟩
    · cases h
      exact ⟨.inl hend, rfl⟩
  · next hpc => simp [ProgressTask.Stopped, hpc] at ht
  · next hpc => simp [ProgressTask.Stopped, hpc] at ht
  · next res hpc =>
    have htrue := haborted (by simp [hpc])
    have hend : (t.await .sleep).pc = .finished := by simp [ProgressTask.await, htrue]
    split at h
    · cases h
      exact ⟨.inr ⟨htrue, by simp, by simp⟩, rfl⟩
    · split at h
      · cases h
        exact ⟨.inl rfl, rfl⟩
      · cases h
        exact ⟨.inl hend, rfl⟩
  · cases h
    exact ⟨.inl rfl, rfl⟩
  · cases h

theorem ProgressTask.abort_stopped (t : ProgressTask) : t.abort.Stopped := by
  unfold ProgressTask.abort ProgressTask.Stopped
  cases hpc : t.pc <;> simp

theorem ProgressTask.abort_holds (t : ProgressTask) : t.abort.holds = t.holds := by
  unfold ProgressTask.abort ProgressTask.holds
  cases hpc : t.pc <;> simp

theorem FetchPc.step_task {f f' : FetchPc} {act : FetchAct}
    (h : f.step flags act = some (f', flags', out)) :
    TaskStep flags flags' f.holds f'.holds out ∧ f ≠ .finished := by
  unfold FetchPc.step at h
  split at h
  · cases h
    exact ⟨⟨id, by simp [FetchPc.holds], by simp, rfl⟩, by simp⟩
  · split at h
    · cases h
      exact ⟨⟨id, by simp [FetchPc.holds], by simp, rfl⟩, by simp⟩
    · cases h
      exact ⟨⟨id, by simp [FetchPc.holds], by simp, rfl⟩, by simp⟩
  · cases h
    refine ⟨⟨id, by simp [FetchPc.holds], ?_, rfl⟩, by simp⟩
    intro hheard
    simpa [FetchPc.holds] using hheard
  · cases h
    exact ⟨⟨id, by simp [FetchPc.holds], by simp, rfl⟩, by simp⟩
  · next res =>
    split at h
    · cases h
      exact ⟨⟨fun _ => rfl, fun _ => .inr rfl, by simp, rfl⟩, by simp⟩
    · next hknown =>
      split at h
      · cases h
        exact ⟨⟨id, by simp [FetchPc.holds, hknown], by simp, rfl⟩, by simp⟩
      · cases h
        exact ⟨⟨id, by simp [FetchPc.holds, hknown], by simp, rfl⟩, by simp⟩
  · next res =>
    split at h
    · cases h
    · next hgoes =>
      have hknown : res.unknownJob = false := by
        cases hunknown : res.unknownJob with
        | false => rfl
        | true => simp [hunknown] at hgoes
      cases h
      exact ⟨⟨id, by simp [FetchPc.holds, hknown], by simp, rfl⟩, by simp⟩
  · cases h
    exact ⟨⟨id, by simp [FetchPc.holds], by simp, rfl⟩, by simp⟩
  · cases h

end

namespace Assigned

structure Phases (s : Assigned) : Prop where
  preflight : s.main ≠ .preflight → s.preflightProgress.Stopped
  early : s.main.early = true → s.progress.pc = .finished
  progress : s.main ≠ .workload → s.progress.Stopped
  fetchers : s.main ≠ .workload → ∀ f ∈ s.fetchers, f = .finished

variable {job : AssignedJob} {s s' : Assigned} {out : AssignedOut}

theorem told_iff : s.told = true ↔ s.unknownJob = true ∨ s.preflightProgress.holds = true ∨
    s.progress.holds = true ∨ ∃ f ∈ s.fetchers, f.holds = true := by
  simp [told, holds, List.any_eq_true, or_assoc]

theorem Phases.goOn (h : s.Phases) (hpre : s.main ≠ .preflight) (hwork : s.main ≠ .workload)
    (hearly : s'.main.early = true → s.main.early = true)
    (hpp : s'.preflightProgress = s.preflightProgress) (hp : s'.progress = s.progress)
    (hf : s'.fetchers = s.fetchers) : s'.Phases where
  preflight _ := by
    rw [hpp]
    exact h.preflight hpre
  early he := by
    rw [hp]
    exact h.early (hearly he)
  progress _ := by
    rw [hp]
    exact h.progress hwork
  fetchers _ := by
    rw [hf]
    exact h.fetchers hwork

theorem Phases.start_preflight : (start .preflight .spawn).Phases where
  preflight hmain := absurd rfl hmain
  early _ := rfl
  progress _ := .inl rfl
  fetchers _ := by simp [start]

theorem Phases.preflightEnds (h : s.Phases) (hmain : s.main = .preflight)
    (calls : PreflightCalls) : (s.preflight job calls).Phases where
  preflight _ := s.preflightProgress.abort_stopped
  early _ := h.early (by simp [hmain, MainPc.early])
  progress _ := h.progress (by simp [hmain])
  fetchers _ := h.fetchers (by simp [hmain])

theorem Phases.workloadStarts (h : s.Phases) (hmain : s.main = .waitStart) :
    (s.startWorkload job).Phases where
  preflight _ := h.preflight (by simp [hmain])
  early he := by simp [startWorkload, MainPc.early] at he
  progress hmain' := absurd rfl hmain'
  fetchers hmain' := absurd rfl hmain'

theorem Phases.startTold (h : s.Phases) (hmain : s.main = .waitStart) (htold : s.told = true) :
    (s.startWorkload job).told = true := by
  have hover := h.early (by simp [hmain, MainPc.early])
  have hnone := h.fetchers (by simp [hmain])
  rcases told_iff.mp htold with hunknown | hholds | hholds | ⟨f, hf, hholds⟩
  · exact told_iff.mpr (.inl hunknown)
  · exact told_iff.mpr (.inr (.inl hholds))
  · simp [ProgressTask.holds, hover] at hholds
  · simp [hnone f hf, FetchPc.holds] at hholds

theorem Phases.workloadEnds (h : s.Phases) (hmain : s.main = .workload)
    (hfetchers : ∀ f ∈ s.fetchers, f = .finished) (outcome : RunnerOutcome) :
    { s with
      main := .cleanup outcome
      progress := s.progress.abort }.Phases where
  preflight _ := h.preflight (by simp [hmain])
  early he := by simp [MainPc.early] at he
  progress _ := s.progress.abort_stopped
  fetchers _ := hfetchers

theorem MainMove.phases {act : MainAct} (hmove : s.MainMove job act s' out) (h : s.Phases) :
    s'.Phases := by
  cases hmove with
  | preflight calls hmain => exact h.preflightEnds hmain calls
  | readyError _ _ _ hstep =>
    obtain ⟨main, rfl, ⟨n, hmain⟩, hmain', -⟩ := stepReadyError_spec hstep
    refine h.goOn ?_ ?_ ?_ rfl rfl rfl
    · rcases hmain with hmain | hmain | hmain <;> simp [hmain]
    · rcases hmain with hmain | hmain | hmain <;> simp [hmain]
    · rcases hmain' with rfl | ⟨m, rfl | rfl | rfl⟩ <;> simp [MainPc.early]
  | startWorkload hmain => exact h.workloadStarts hmain
  | returned outcome hmain hwriting hfetchers => exact h.workloadEnds hmain hfetchers outcome
  | resultOk n result res hmain | resultFailed n result err hmain =>
    refine h.goOn (by simp [hmain]) (by simp [hmain]) ?_ rfl rfl rfl
    dsimp only
    split_ifs <;> simp [MainPc.early]
  | _ =>
    exact h.goOn (by simp [*]) (by simp [*]) (by simp [*, MainPc.early]) rfl rfl rfl

theorem Move.phases {act : AssignedAct} (hmove : Move job s act s' out) (h : s.Phases) :
    s'.Phases := by
  cases hmove with
  | main act _ _ hmain => exact hmain.phases h
  | preflightProgress act t flags out hstep =>
    refine ⟨fun hmain => ?_, h.early, h.progress, h.fetchers⟩
    exact (ProgressTask.step_stopped hstep (h.preflight hmain)).1
  | progress act t flags out hstep =>
    refine ⟨h.preflight, fun hearly => ?_, fun hmain => ?_, h.fetchers⟩
    · have hover := h.early hearly
      simp [ProgressTask.step, hover] at hstep
    · exact (ProgressTask.step_stopped hstep (h.progress hmain)).1
  | fetcher i act f f' flags out hf hstep =>
    refine ⟨h.preflight, h.early, h.progress, fun hmain => ?_⟩
    have hover := h.fetchers hmain f (List.mem_of_getElem? hf)
    exact absurd hover (FetchPc.step_task hstep).2
  | writeReturns => exact ⟨h.preflight, h.early, h.progress, h.fetchers⟩
  | shutdown => exact ⟨h.preflight, h.early, h.progress, h.fetchers⟩

/-- What the tasks do: they keep what they have been told, and report nothing. Nothing is
received where no task is at work. -/
structure TasksMove (s s' : Assigned) (out : AssignedOut) : Prop where
  main : s'.main = s.main
  told : s.told = true ∨ out = .heard true → s'.told = true
  noReport : out.isReport = false
  silent : s.main ≠ .preflight → s.main ≠ .workload → out = .silent

theorem Move.tasks {act : AssignedAct} (hmove : Move job s act s' out) (h : s.Phases) :
    (∃ act', act = .main act' ∧ s.MainMove job act' s' out) ∨ TasksMove s s' out := by
  cases hmove with
  | main act _ _ hmain => exact .inl ⟨act, rfl, hmain⟩
  | preflightProgress act t flags out hstep =>
    have htask := ProgressTask.step_task hstep
    refine .inr ⟨rfl, ?_, htask.noReport, ?_⟩
    · intro htold
      rw [told_iff, or_assoc, or_assoc] at htold
      rw [told_iff]
      rcases htold with hunknown | hholds | hrest | hheard
      · exact .inl (htask.unknown hunknown)
      · exact (htask.stored hholds).symm.imp_right .inl
      · exact .inr (.inr hrest)
      · exact .inr (.inl (htask.heard hheard))
    · intro hmain _
      exact (ProgressTask.step_stopped hstep (h.preflight hmain)).2
  | progress act t flags out hstep =>
    have htask := ProgressTask.step_task hstep
    refine .inr ⟨rfl, ?_, htask.noReport, ?_⟩
    · intro htold
      rw [told_iff, or_assoc, or_assoc, or_assoc] at htold
      rw [told_iff]
      rcases htold with hunknown | hholds | hholds | hrest | hheard
      · exact .inl (htask.unknown hunknown)
      · exact .inr (.inl hholds)
      · exact (htask.stored hholds).symm.imp_right fun hholds => .inr (.inl hholds)
      · exact .inr (.inr (.inr hrest))
      · exact .inr (.inr (.inl (htask.heard hheard)))
    · intro _ hmain
      exact (ProgressTask.step_stopped hstep (h.progress hmain)).2
  | fetcher i act f f' flags out hf hstep =>
    obtain ⟨htask, hlive⟩ := FetchPc.step_task hstep
    obtain ⟨hi, hget⟩ := List.getElem?_eq_some_iff.mp hf
    have hmem : f' ∈ s.fetchers.set i f' := List.mem_set hi f'
    refine .inr ⟨rfl, ?_, htask.noReport, ?_⟩
    · intro htold
      rw [told_iff, or_assoc, or_assoc, or_assoc] at htold
      rw [told_iff]
      rcases htold with hunknown | hholds | hholds | ⟨g, hg, hholds⟩ | hheard
      · exact .inl (htask.unknown hunknown)
      · exact .inr (.inl hholds)
      · exact .inr (.inr (.inl hholds))
      · -- the one that holds it is this fetcher, or one that stays as it is
        obtain ⟨j, hj⟩ := List.mem_iff_getElem?.mp hg
        by_cases hij : i = j
        · obtain rfl : f = g := Option.some.inj (hf.symm.trans (hij ▸ hj))
          refine (htask.stored hholds).symm.imp_right fun hholds => ?_
          exact .inr (.inr ⟨f', hmem, hholds⟩)
        · have hstays : g ∈ s.fetchers.set i f' :=
            List.mem_of_getElem? ((List.getElem?_set_ne hij).trans hj)
          exact .inr (.inr (.inr ⟨g, hstays, hholds⟩))
      · exact .inr (.inr (.inr ⟨f', hmem, htask.heard hheard⟩))
    · intro _ hmain
      exact absurd (h.fetchers hmain f (List.mem_of_getElem? hf)) hlive
  | writeReturns =>
    refine .inr ⟨rfl, fun htold => ?_, rfl, fun _ _ => rfl⟩
    simpa [told, holds] using htold
  | shutdown =>
    refine .inr ⟨rfl, fun htold => ?_, rfl, fun _ _ => rfl⟩
    simpa [told, holds] using htold

end Assigned

/-- What is known of a run that has led to `s`. -/
structure Heeding (tr : AssignedTrace) (s : Assigned) : Prop where
  phases : s.Phases
  noReport : NoReportAfterUnknown tr
  told : HeardUnknown tr → s.main.reports = true → s.told = true
  leaving : s.main = .reportCancelled → ¬ HeardUnknown tr

namespace Heeding

variable {tr : AssignedTrace} {s s' : Assigned} {act : AssignedAct} {out : AssignedOut}

theorem snoc (h : Heeding tr s) (hphases : s'.Phases)
    (hreport : HeardUnknown tr → out.isReport = false)
    (htold : HeardUnknown tr ∨ out = .heard true → s'.main.reports = true → s'.told = true)
    (hleaving : s'.main = .reportCancelled → ¬ HeardUnknown tr ∧ out ≠ .heard true) :
    Heeding (tr ++ [⟨s, act, out, s'⟩]) s' where
  phases := hphases
  noReport := noReportAfterUnknown_concat h.noReport hreport
  told hheard := htold (heardUnknown_concat.mp hheard)
  leaving hmain hheard := by
    obtain ⟨hbefore, hnow⟩ := hleaving hmain
    rcases heardUnknown_concat.mp hheard with hheard | hheard
    · exact hbefore hheard
    · exact hnow hheard

theorem snocTasks (h : Heeding tr s) (hphases : s'.Phases) (hmove : Assigned.TasksMove s s' out) :
    Heeding (tr ++ [⟨s, act, out, s'⟩]) s' := by
  refine h.snoc hphases (fun _ => hmove.noReport) ?_ ?_
  · rintro (hheard | hheard) hreports
    · exact hmove.told (.inl (h.told hheard (hmove.main ▸ hreports)))
    · exact hmove.told (.inr hheard)
  · intro hmain
    rw [hmove.main] at hmain
    refine ⟨h.leaving hmain, ?_⟩
    rw [hmove.silent (by simp [hmain]) (by simp [hmain])]
    simp

theorem snocQuiet (h : Heeding tr s) (hphases : s'.Phases) (hout : out = .silent)
    (hreports : s'.main.reports = true → s.main.reports = true)
    (htold : s.told = true → s'.told = true) (hleaving : s'.main ≠ .reportCancelled) :
    Heeding (tr ++ [⟨s, act, out, s'⟩]) s' := by
  subst hout
  refine h.snoc hphases (fun _ => rfl) ?_ (fun hmain => absurd hmain hleaving)
  rintro (hheard | hheard) hreports'
  · exact htold (h.told hheard (hreports hreports'))
  · cases hheard

theorem snocDone (h : Heeding tr s) (hphases : s'.Phases) (hout : out.isReport = false)
    (hreports : s'.main.reports = false) :
    Heeding (tr ++ [⟨s, act, out, s'⟩]) s' := by
  refine h.snoc hphases (fun _ => hout) ?_ ?_
  · intro _ hreports'
    rw [hreports] at hreports'
    cases hreports'
  · intro hmain
    rw [hmain] at hreports
    cases hreports

variable {job : AssignedJob}

theorem not_heard_of_not_told (h : Heeding tr s) (hreports : s.main.reports = true)
    (htold : s.told = false) : ¬ HeardUnknown tr := by
  intro hheard
  have := h.told hheard hreports
  rw [htold] at this
  cases this

theorem readyAnswered {res : ReportReadyResponse} (h : Heeding tr s) (hmain : s.main = .ready)
    (hheeds : s.heeds (.main (.ready (.ok res))) = true)
    (hphases : { s with main := Assigned.readyAnswer res }.Phases) :
    Heeding (tr ++ [⟨s, .main (.ready (.ok res)), .heard res.unknownJob,
      { s with main := Assigned.readyAnswer res }⟩])
      { s with main := Assigned.readyAnswer res } := by
  have hreports : s.main.reports = true := by simp [hmain, MainPc.reports]
  by_cases hcancelled : res.cancelled = true
  · -- the cancellation is looked at first
    have hheeds' : res.unknownJob = false ∧ s.told = false := by
      simpa [Assigned.heeds, hmain, hcancelled] using hheeds
    have hquiet := h.not_heard_of_not_told hreports hheeds'.2
    refine h.snoc hphases (fun _ => rfl) ?_ (fun _ => ⟨hquiet, by simp [hheeds'.1]⟩)
    rintro (hheard | hheard) _
    · exact absurd hheard hquiet
    · simp [hheeds'.1] at hheard
  · by_cases hunknown : res.unknownJob = true
    · refine h.snocDone hphases rfl ?_
      simp [Assigned.readyAnswer, hcancelled, hunknown, MainPc.reports]
    · refine h.snoc hphases (fun _ => rfl) ?_ ?_
      · rintro (hheard | hheard) _
        · exact h.told hheard hreports
        · exact absurd (by simpa using hheard) hunknown
      · intro hmain'
        simp only [Assigned.readyAnswer, if_neg hcancelled, if_neg hunknown] at hmain'
        split_ifs at hmain'

theorem stepMain {act : MainAct} (h : Heeding tr s) (hheeds : s.heeds (.main act) = true)
    (hmove : s.MainMove job act s' out) : Heeding (tr ++ [⟨s, .main act, out, s'⟩]) s' := by
  have hphases := hmove.phases h.phases
  cases hmove with
  | preflight calls hmain =>
    refine h.snocQuiet hphases rfl (fun _ => by simp [hmain, MainPc.reports]) ?_ ?_
    · intro htold
      simpa [Assigned.told, Assigned.holds, Assigned.preflight, ProgressTask.abort_holds]
        using htold
    · unfold Assigned.preflight
      dsimp only
      split <;> simp
  | readyError _ _ _ hstep =>
    obtain ⟨main, rfl, -, hmain, hout⟩ := Assigned.stepReadyError_spec hstep
    refine h.snocDone hphases ?_ ?_
    · rcases hout with rfl | ⟨unknown, rfl⟩ <;> rfl
    · rcases hmain with rfl | ⟨n, rfl | rfl | rfl⟩ <;> rfl
  | leaveCancelled hmain hcancelled =>
    have htold : s.told = false := by simpa [Assigned.heeds, hmain, hcancelled] using hheeds
    have hquiet := h.not_heard_of_not_told (by simp [hmain, MainPc.reports]) htold
    refine h.snoc hphases (fun _ => rfl) ?_ (fun _ => ⟨hquiet, by simp⟩)
    rintro (hheard | hheard) _
    · exact absurd hheard hquiet
    · cases hheard
  | readyOk res hmain => exact h.readyAnswered hmain hheeds hphases
  | reportCancelled hmain =>
    refine h.snoc hphases (fun hheard => absurd hheard (h.leaving hmain)) ?_ ?_
    · intro _ hreports
      simp [MainPc.reports] at hreports
    · simp
  | startWorkload hmain =>
    exact h.snocQuiet hphases rfl (fun _ => by simp [hmain, MainPc.reports])
      (h.phases.startTold hmain) (by simp [Assigned.startWorkload])
  | returned outcome hmain =>
    refine h.snocQuiet hphases rfl (fun _ => by simp [hmain, MainPc.reports]) ?_ (by simp)
    intro htold
    simpa [Assigned.told, Assigned.holds, ProgressTask.abort_holds] using htold
  | send n result hmain hunknown =>
    have hholds : s.holds = false := by simpa [Assigned.heeds, hmain, hunknown] using hheeds
    have hquiet := h.not_heard_of_not_told (by simp [hmain, MainPc.reports])
      (by simp [Assigned.told, hunknown, hholds])
    refine h.snoc hphases (fun hheard => absurd hheard hquiet) ?_ (by simp)
    rintro (hheard | hheard) _
    · exact absurd hheard hquiet
    · cases hheard
  | resultOk n result res hmain =>
    refine h.snocDone hphases rfl ?_
    dsimp only
    split_ifs <;> rfl
  | resultFailed n result err hmain =>
    refine h.snocQuiet hphases rfl (fun _ => by simp [hmain, MainPc.reports]) id ?_
    dsimp only
    split_ifs <;> simp
  | cancelledOk | cancelledFailed | storeUnknown | skip | giveUp | storeResultUnknown =>
    exact h.snocDone hphases rfl rfl
  | askReady | readyFailed | barrierAgain | cleanup | goOn | buildResult | retry =>
    exact h.snocQuiet hphases rfl (fun _ => by simp [*, MainPc.reports]) id (by simp)

end Heeding

theorem refused_no_report {tr : AssignedTrace} {s : Assigned}
    (hrun : (assigned .refused).Run (assigned .refused).init tr s) :
    ∀ e ∈ tr, e.out.isReport = false := by
  intro e he
  have hstep := (hrun.event he).1
  unfold assigned at hstep
  dsimp only at hstep
  split at hstep
  · obtain ⟨_, _, _, _, hout⟩ := Assigned.stepReadyError_spec hstep
    rcases hout with hout | ⟨unknown, hout⟩ <;> rw [hout] <;> rfl
  · cases hstep

theorem accepted_heeding {job : AssignedJob} {tr : AssignedTrace} {s : Assigned}
    (hrun : (assigned (.accepted job)).Run (assigned (.accepted job)).init tr s)
    (hheeds : ∀ e ∈ tr, e.pre.heeds e.act = true) : Heeding tr s := by
  refine hrun.historyWhere (fun s act => s.heeds act = true) (P := Heeding) hheeds ?_ ?_
  · refine ⟨.start_preflight, List.Pairwise.nil, ?_, ?_⟩
    · rintro ⟨e, he, -⟩
      cases he
    · intro _ ⟨e, he, _⟩
      cases he
  · intro tr s act s' out _ _ h hact hstep
    have hmove := Assigned.step_move hstep
    rcases hmove.tasks h.phases with ⟨act', rfl, hmain⟩ | htasks
    · exact h.stepMain hact hmain
    · exact h.snocTasks (hmove.phases h.phases) htasks

/-- Once `unknown_job` was received no result is reported, in a run whose main flow passes
over no `unknown_job`. -/
theorem no_report_after_unknown {a : Assignment} {tr : AssignedTrace} {s : Assigned}
    (hrun : (assigned a).Run (assigned a).init tr s)
    (hheeds : ∀ e ∈ tr, e.pre.heeds e.act = true) : NoReportAfterUnknown tr := by
  cases a with
  | ignored =>
    have hnone : ∀ e ∈ tr, False := by
      intro e he
      cases (hrun.event he).1
    exact List.pairwise_of_forall_mem_list fun e he => absurd (hnone e he) id
  | refused =>
    have hsilent := refused_no_report hrun
    exact List.pairwise_of_forall_mem_list fun _ _ e' he' _ => hsilent e' he'
  | accepted job => exact (accepted_heeding hrun hheeds).noReport

namespace Small

def cleanedSpec : BenchSpec :=
  { fsName := "fs", ioMode := "seq", ioAligned := true, directIo := false
    blockSize := "4096", duration := "1m", warmup := "", read := none
    write := some
      { concurrency := 1, dir := "out", fileSize := "4096", fileSizeRange := none
        fsync := false, cleanup := true, thinkTime := "", rateLimit := ""
        verifyAfterWrite := false }
    metadata := none, targetWorkers := 1 }

def cleanedResp : FetchJobResponse :=
  { jobId := some "0a1b2c3d-0000-4000-8000-00000000000a", spec := some cleanedSpec
    mountPoint := some "/mnt/fs", workerIndex := some 0, s3Credentials := none
    masterNowMs := 1000 }

def cleanedJob : AssignedJob where
  workerId := "w"
  jobId := "0a1b2c3d-0000-4000-8000-00000000000a"
  mountPoint := "/mnt/fs"
  spec :=
    { fsName := "fs", ioMode := .seq, ioAligned := true, directIo := false, blockSize := 4096
      duration := 60000000000, warmup := 0, targetWorkers := 1, read := none
      write := some
        { concurrency := 1, dir := "out", size := .fixed 4096, fsync := false, cleanup := true
          thinkTime := none, rateLimit := none, verifyAfterWrite := false }
      metadata := none }
  consistencyCheck := none
  s3Credentials := none

def allWell : PreflightCalls where
  mkdirWriteRoot := .ok ()
  scanExisting := .ok ()
  build := .built
  buildClient := .error "no client"

def started : List AssignedAct :=
  [.main (.preflight allWell), .main .run,
    .main (.ready (.ok { cancelled := false, unknownJob := false, startAtMs := 2000
                         masterNowMs := 1000 })),
    .main .wake]

/-- What a task that reports progress does up to the end that `unknown_job` puts to it. -/
def toldUnknown : List ProgressAct :=
  [.wake, .run, .response (.ok { cancelled := false, unknownJob := true }), .run, .run]

def unknownInHotLoop : List AssignedAct :=
  started ++ toldUnknown.map .progress ++
    [.writeReturns true, .main (.returned .ok), .main (.cleanup true), .main .run]

def unknownInPreflight : List AssignedAct :=
  toldUnknown.map .preflightProgress ++
    [.main (.preflight allWell), .main .run, .main .run]

end Small

theorem no_report_after_unknown_small :
    NoReportAfterUnknown ((assigned (.accepted Small.cleanedJob)).trace
      (assigned (.accepted Small.cleanedJob)).init Small.unknownInHotLoop) :=
  no_report_after_unknown ((assigned (.accepted Small.cleanedJob)).run_play _ _) (by decide)

/-- A job that is unknown before the barrier is reported as cancelled. -/
theorem reports_after_unknown :
    assignment "w" Small.cleanedResp = .accepted Small.cleanedJob ∧
      ¬ NoReportAfterUnknown ((assigned (.accepted Small.cleanedJob)).trace
        (assigned (.accepted Small.cleanedJob)).init Small.unknownInPreflight) := by
  refine ⟨rfl, ?_⟩
  unfold NoReportAfterUnknown
  decide

end CvdBench.Worker
