import CvdBench.Master.Bindings

/-!
The staleness watcher: which silence fails a job. The scan looks at all run workers,
those whose result is recorded included.
-/

set_option autoImplicit false

namespace CvdBench.Master

open Foundation Proto

variable {H : Type} {env : MasterEnv H}

def TickScan (e : Step) (now : Instant) : Prop :=
  ∃ i, e.act.act = .resume i ∧ e.pre.inflight[i]? = some (.tickScan now)

def Silent (config : SchedulerConfig) (r : JobRecord) (now : Instant) (w : WorkerId) : Prop :=
  w ∈ r.runWorkers ∧ silence r now w > config.workerStaleness

/-- The scan fails a job only if its preparation is overdue, or a run worker that has
no result yet is silent. -/
def FailsOnlyAwaited (config : SchedulerConfig) (e : Step) (now : Instant) : Prop :=
  ∀ id r r', e.pre.job id = some r → e.post.job id = some r' → r.status ≠ .failed →
    r'.status = .failed →
    r.status = .preparing ∧ prepareOverdue config r now = true ∨
      ∃ w, Silent config r now w ∧ w ∉ r.workerResults.keys

/-- No running job has a silent worker whose result is recorded, unless it also has a
silent one whose result is not. -/
def FinishedHeard (config : SchedulerConfig) (s : Sys) (now : Instant) : Prop :=
  ∀ id r, s.job id = some r → r.status = .running →
    (∃ w, Silent config r now w ∧ w ∈ r.workerResults.keys) →
    ∃ w, Silent config r now w ∧ w ∉ r.workerResults.keys

theorem findStaleWorker_isSome (config : SchedulerConfig) (order : HashOrder String)
    (r : JobRecord) (now : Instant) :
    (∃ p, findStaleWorker order r now config.workerStaleness = some p) ↔
      ∃ w, Silent config r now w := by
  unfold findStaleWorker Silent
  constructor
  · rintro ⟨p, hp⟩
    obtain ⟨w, hw, _⟩ := Option.map_eq_some_iff.mp hp
    have hmem := List.mem_of_find?_eq_some hw
    have hsilent := List.find?_some hw
    exact ⟨w, (order.mem_iter _ w).mp hmem, by simpa using hsilent⟩
  · rintro ⟨w, hw, hsilent⟩
    have hany : ((order.iter r.runWorkers).find? fun w =>
        decide (silence r now w > config.workerStaleness)).isSome = true := by
      rw [List.find?_isSome]
      exact ⟨w, (order.mem_iter _ w).mpr hw, by simpa using hsilent⟩
    obtain ⟨w', hw'⟩ := Option.isSome_iff_exists.mp hany
    exact ⟨_, by rw [hw', Option.map_some]⟩

theorem tickReason_cases (config : SchedulerConfig) (order : HashOrder String)
    (r : JobRecord) (now : Instant) :
    (∃ reason, tickReason config order r now = some reason) ↔
      (∃ w, Silent config r now w) ∨ prepareOverdue config r now = true := by
  rw [← findStaleWorker_isSome config order r now]
  unfold tickReason
  cases findStaleWorker order r now config.workerStaleness with
  | some p => simp
  | none =>
    cases prepareOverdue config r now with
    | true => simp
    | false => simp

theorem prepareOverdue_preparing {config : SchedulerConfig} {r : JobRecord} {now : Instant}
    (h : prepareOverdue config r now = true) : r.status = .preparing := by
  simp only [prepareOverdue, Bool.and_eq_true, beq_iff_eq] at h
  exact h.1

theorem tickScan_ticked {s s' : Sys} {c : Choice} {rep : Option Reply} {i : Nat}
    {now : Instant} (hok : s.Ok) (h : s.step env c = some (s', rep)) (hact : c.act = .resume i)
    (ht : s.inflight[i]? = some (.tickScan now)) :
    ∃ toClean, Ticked env c.amb now ((c.amb.order "").keys s.master.jobs) s.master s'.master
      toClean := by
  have hspec := tickLoop_spec env c.amb now 0 s.master ((c.amb.order "").keys s.master.jobs)
    (HashOrder.nodup_keys _ _) hok.keyed
  rw [Sys.step_resume hact ht rfl, Option.some.injEq] at h
  obtain ⟨rfl, _⟩ := Prod.mk.inj h
  refine ⟨(tickLoop env c.amb now 0 s.master ((c.amb.order "").keys s.master.jobs)).2, ?_⟩
  have hstate : (tickScanSection env c.amb s.master now).state =
      (tickLoop env c.amb now 0 s.master ((c.amb.order "").keys s.master.jobs)).1 := by
    unfold tickScanSection
    generalize tickLoop env c.amb now 0 s.master ((c.amb.order "").keys s.master.jobs) = res
    obtain ⟨m, toClean⟩ := res
    cases toClean <;> rfl
  simp only [hstate]
  exact hspec

/-- The scan of every tick of every run: it fails only jobs that still await the silent
worker if and only if every finished worker of a running job is still heard, or an
unfinished one is silent as well. -/
theorem watcher_fails_awaited_iff {s : Sys} {tr : Trace}
    (h : (machine env).Run Sys.init tr s) :
    ∀ e ∈ tr, ∀ now, TickScan e now →
      (FailsOnlyAwaited env.config.scheduler e now ↔
        FinishedHeard env.config.scheduler e.pre now) := by
  intro e he now hscan
  obtain ⟨i, hact, ht⟩ := hscan
  obtain ⟨hstep, hpre⟩ := h.event he
  have hok := Reachable.ok (hpre .init)
  obtain ⟨toClean, hticked⟩ := tickScan_ticked hok hstep hact ht
  have hmem : ∀ id r, e.pre.job id = some r →
      id ∈ (e.act.amb.order "").keys e.pre.master.jobs := fun id r hr =>
    HashOrder.mem_keys.mpr (HashMap.mem_keys_of_get? hr)
  constructor
  · intro honly id r hr hs ⟨w, hsilent, _⟩
    obtain ⟨reason, hreason⟩ :=
      (tickReason_cases env.config.scheduler (e.act.amb.order id) r now).mpr (.inl ⟨w, hsilent⟩)
    have hv : tickVerdict env e.act.amb now id r = some reason := by
      rw [tickVerdict, if_pos (.inr hs), hreason]
    obtain ⟨⟨order, nowMs, hpost⟩, _⟩ := hticked.failed id (hmem id r hr) r reason hr hv
    rcases honly id r _ hr hpost (by simp [hs]) rfl with ⟨hprep, _⟩ | hawaited
    · rw [hs] at hprep
      cases hprep
    · exact hawaited
  · intro hheard id r r' hr hr' hs hs'
    cases hv : tickVerdict env e.act.amb now id r with
    | none =>
      have hsame := hticked.spared id r hr fun _ => hv
      obtain rfl := Option.some.inj (hsame.symm.trans hr')
      exact absurd hs' hs
    | some reason =>
      obtain ⟨hstatus, hreason⟩ := tickVerdict_some hv
      rcases (tickReason_cases _ _ _ _).mp ⟨reason, hreason⟩ with ⟨w, hsilent⟩ | hoverdue
      · by_cases hw : w ∈ r.workerResults.keys
        · rcases hstatus with hprep | hrun
          · rw [((hok.coherent id r hr).preparing hprep).2.2.2.1] at hw
            cases hw
          · exact .inr (hheard id r hr hrun ⟨w, hsilent, hw⟩)
        · exact .inr ⟨w, hsilent, hw⟩
      · exact .inl ⟨prepareOverdue_preparing hoverdue, hoverdue⟩

/-- `a` delivers its result at once and only asks for further jobs from then on, `b` is
still at work. -/
def Small.finishedEarly : List Choice :=
  Small.at0 (Small.running ++ [.reportResult ⟨"j", some (Small.result "a" true)⟩, .resume 0]) ++
    [⟨.fetchJob "a", Small.amb 8000000000⟩,
      ⟨.reportProgress ⟨"j", some ⟨"b", 8000, ∅, 3⟩⟩, Small.amb 8000000000⟩]

def Small.ticking (now : Instant) : List Choice :=
  Small.finishedEarly ++ [⟨.staleTick, Small.amb now⟩]

def Small.beforeScan (now : Instant) : Sys :=
  (machine Small.env).play Sys.init (Small.ticking now)

/-- The tick at 9 s finds nobody silent. -/
theorem watcher_fails_awaited_small :
    ∃ t rep, (machine Small.env).step (Small.beforeScan 9000000000)
        ⟨.resume 0, Small.amb 9000000000⟩ = some (t, rep) ∧
      FailsOnlyAwaited Small.env.config.scheduler
        ⟨Small.beforeScan 9000000000, ⟨.resume 0, Small.amb 9000000000⟩, rep, t⟩
        9000000000 := by
  have hstep : ∃ res, (machine Small.env).step (Small.beforeScan 9000000000)
      ⟨.resume 0, Small.amb 9000000000⟩ = some res := Option.isSome_iff_exists.mp (by decide)
  obtain ⟨⟨t, rep⟩, hstep⟩ := hstep
  have hmem := (machine Small.env).mem_trace Sys.init (Small.ticking 9000000000) [] hstep
  refine ⟨t, rep, hstep, (watcher_fails_awaited_iff ((machine Small.env).run_play Sys.init _) _
    hmem _ ⟨0, rfl, rfl⟩).mpr ?_⟩
  have hheard : ∀ id ∈ (Small.beforeScan 9000000000).master.jobs.keys,
      ∀ r ∈ (Small.beforeScan 9000000000).job id, ∀ w ∈ r.runWorkers,
      ¬ silence r 9000000000 w > Small.env.config.scheduler.workerStaleness := by decide
  rintro id r hr _ ⟨w, ⟨hw, hsilent⟩, _⟩
  exact absurd hsilent (hheard id (HashMap.mem_keys_of_get? hr) r hr w hw)

/-- The tick at 11 s fails the job, though `b` was heard 3 s before and `a` asked for a
job then. -/
theorem watcher_fails_finished : ¬ ∀ (s : Sys) (tr : Trace),
    (machine Small.env).Run Sys.init tr s → ∀ e ∈ tr, ∀ now, TickScan e now →
      FailsOnlyAwaited Small.env.config.scheduler e now := by
  intro hall
  have hstep : ((machine Small.env).step (Small.beforeScan 11000000000)
      ⟨.resume 0, Small.amb 11000000000⟩).map
      (fun res => (res.1.job "j").map (·.status)) = some (some .failed) := by decide
  obtain ⟨⟨t, rep⟩, hstep, hpost⟩ := Option.map_eq_some_iff.mp hstep
  obtain ⟨r', hr', hfailed⟩ := Option.map_eq_some_iff.mp hpost
  have hmem := (machine Small.env).mem_trace Sys.init (Small.ticking 11000000000) [] hstep
  have honly := hall _ _ ((machine Small.env).run_play Sys.init _) _ hmem 11000000000
    ⟨0, rfl, rfl⟩
  have hpre : ((Small.beforeScan 11000000000).job "j").map (·.status) = some .running := by
    decide
  obtain ⟨r, hr, hrunning⟩ := Option.map_eq_some_iff.mp hpre
  have hheard : ∀ r ∈ (Small.beforeScan 11000000000).job "j", ∀ w ∈ r.runWorkers,
      silence r 11000000000 w > Small.env.config.scheduler.workerStaleness →
        w ∈ r.workerResults.keys := by decide
  rcases honly "j" r r' hr hr' (by simp [hrunning]) hfailed with ⟨hprep, _⟩ |
    ⟨w, ⟨hw, hsilent⟩, hnone⟩
  · rw [hrunning] at hprep
    cases hprep
  · exact hnone (hheard r hr w hw hsilent)

end CvdBench.Master
