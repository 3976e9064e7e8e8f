import CvdBench.Master.Bindings

/-!
`worker_active_jobs` over whole runs: a worker has one unfinished job at most, and at
rest the table holds live bindings only.
-/

set_option autoImplicit false

namespace CvdBench.Master

open Foundation Proto

variable {H : Type} {env : MasterEnv H}

def Unfinished (status : JobStatus) : Prop :=
  status ≠ .completed ∧ status ≠ .failed ∧ status ≠ .cancelled

theorem Edge.unfinished {a b : JobStatus} (h : Edge a b) : Unfinished a := by
  cases h <;> simp [Unfinished]

/-- At most one job that is not over awaits the worker, and the worker is bound to it. -/
def Sys.OneUnfinished (s : Sys) : Prop :=
  ∀ w id r, s.job id = some r → r.isTerminal = false → r.Awaits w →
    (∀ id' r', s.job id' = some r' → r'.isTerminal = false → r'.Awaits w → id' = id) ∧
      s.active w = some id

theorem Sys.Held.oneUnfinished {s : Sys} (h : s.Held Unfinished) : s.OneUnfinished := by
  intro w id r hr hterm hawaits
  have hactive := h w id r hr (JobRecord.isTerminal_eq_false_iff.mp hterm) hawaits
  refine ⟨fun id' r' hr' hterm' hawaits' => ?_, hactive⟩
  have hactive' := h w id' r' hr' (JobRecord.isTerminal_eq_false_iff.mp hterm') hawaits'
  exact Option.some.inj (hactive'.symm.trans hactive)

theorem Run.held {s : Sys} {tr : Trace} (h : (machine env).Run Sys.init tr s)
    {P : JobStatus → Prop} (hback : ∀ a b, Edge a b → P b → P a)
    (hlive : ∀ r : JobRecord, P r.status → r.isTerminal = false)
    (hsafe : ∀ e ∈ tr, ¬ Cuts P e.pre e.act) : s.Held P := by
  refine h.invariantWhere (fun s c => ¬ Cuts P s c) hsafe .init ?_ ?_
  · intro w id r hr
    simp [Sys.init, MasterState.new, Sys.job] at hr
  · intro s c s' rep hs hheld hcut hstep
    obtain ⟨cur, rest, spawn, hmove⟩ := Reachable.move hs hstep
    exact hmove.held (Reachable.ok hs) (Reachable.bound hs) hback hlive hheld hcut

/-- A binding that is cut leaves an unfinished job whose worker is bound to nothing. -/
theorem Cuts.breaks {P : JobStatus → Prop} {s s' : Sys} {c : Choice} {rep : Option Reply}
    (h : Cuts P s c) (hlive : ∀ r : JobRecord, P r.status → r.isTerminal = false)
    (hb : s.Bound) (hstep : s.step env c = some (s', rep)) : ¬ s'.OneUnfinished := by
  obtain ⟨i, req, w, unknownJob, r, hact, hi, hactive, hr, hP, hnores⟩ := h
  rw [Sys.step_resume hact hi rfl, Option.some.injEq] at hstep
  obtain ⟨rfl, _⟩ := Prod.mk.inj hstep
  intro hone
  have hbound := (hone w req.jobId r hr (hlive r hP) ⟨(hb w _ hactive).2 r hr, hnores⟩).2
  have hcleared : (s.master.workerActiveJobs.removeBound req.jobId [w]).get? w =
      some req.jobId := hbound
  rw [HashMap.get?_removeBound] at hcleared
  simp [show s.master.workerActiveJobs.get? w = some req.jobId from hactive] at hcleared

/-- In every run: the worker's one unfinished job is the job it is bound to, in every
state reached, if and only if no step clears the binding of a slot that is still live. -/
theorem one_unfinished_job_iff {s : Sys} {tr : Trace} (h : (machine env).Run Sys.init tr s) :
    (∀ e ∈ tr, e.post.OneUnfinished) ↔ ∀ e ∈ tr, ¬ Cuts Unfinished e.pre e.act := by
  have hlive : ∀ r : JobRecord, Unfinished r.status → r.isTerminal = false :=
    fun r hr => JobRecord.isTerminal_eq_false_iff.mpr hr
  constructor
  · intro hone e he hcut
    obtain ⟨hstep, hpre⟩ := h.event he
    exact hcut.breaks hlive (Reachable.bound (hpre .init)) hstep (hone e he)
  · intro hsafe e he
    obtain ⟨tr₁, tr₂, rfl⟩ := List.append_of_mem he
    obtain ⟨hpre, hstep, _⟩ := h.split rfl
    have hrun := hpre.append (.single hstep)
    refine (Run.held hrun (fun _ _ hedge _ => hedge.unfinished) hlive ?_).oneUnfinished
    intro e' he'
    exact hsafe e' (by simp at he' ⊢; tauto)

theorem Small.not_cuts (P : JobStatus → Prop) : ∀ e ∈ (machine Small.env).trace Sys.init
    (Small.at0 Small.completed), ¬ Cuts P e.pre e.act := by
  have hdone : ∀ e ∈ (machine Small.env).trace Sys.init (Small.at0 Small.completed),
      ∀ t ∈ e.pre.inflight, ∀ p ∈ t.releases, ∀ w ∈ p.2, ∀ r ∈ e.pre.job p.1,
        w ∈ r.workerResults.keys := by decide
  rintro e he ⟨i, req, w, unknownJob, r, _, hi, _, hr, _, hnores⟩
  exact hnores (hdone e he _ (List.mem_of_getElem? hi) (req.jobId, [w])
    (List.mem_singleton.mpr rfl) w (List.mem_singleton.mpr rfl) r hr)

/-- When `a` has delivered, the job awaits `b` alone, which is bound to it. -/
theorem one_unfinished_job_small : ∃ r, (Small.play Small.delivered).job "j" = some r ∧
    r.isTerminal = false ∧ r.Awaits "b" ∧ (Small.play Small.delivered).active "b" = some "j" := by
  have hone : (Small.play Small.delivered).OneUnfinished :=
    (one_unfinished_job_iff ((machine Small.env).run_play Sys.init (Small.at0 Small.completed))).mpr
      (Small.not_cuts _) _ (Small.delivery_mem _)
  have hawaits : ∀ r ∈ (Small.play Small.delivered).job "j", r.isTerminal = false ∧
      "b" ∈ r.workerAssignments.keys ∧ "b" ∉ r.workerResults.keys := by decide
  obtain ⟨hterm, hb⟩ := hawaits _ rfl
  exact ⟨_, rfl, hterm, hb, (hone "b" "j" _ rfl hterm hb).2⟩

def Small.twice : List Action :=
  Small.create 2 "j" ++ Small.create 1 "k" ++ [.fetchJob "a", .fetchJob "b",
    .reportResult (Small.report "a" true), .resume 0, .fetchJob "a"]

theorem two_unfinished_jobs :
    ¬ ∀ s, (machine Small.env).Reachable s → s.OneUnfinished := by
  intro hall
  have hone := hall _ ((machine Small.env).reachable_play (Small.at0 Small.twice))
  have hawaits : ∀ id ∈ ["j", "k"], ∀ r ∈ (Small.play Small.twice).job id,
      r.isTerminal = false ∧ "a" ∈ r.workerAssignments.keys ∧ "a" ∉ r.workerResults.keys := by
    decide
  have hj := hawaits "j" (by simp) _ rfl
  have hk := hawaits "k" (by simp) _ rfl
  exact absurd ((hone "a" "j" _ rfl hj.1 hj.2).1 "k" _ rfl hk.1 hk.2) (by decide)

def Task.midway : Task → Bool
  | .tickScan _ | .gcScan _ | .manifestReader _ => false
  | _ => true

def Sys.Quiescent (s : Sys) : Prop := ∀ t ∈ s.inflight, t.midway = false

instance (s : Sys) : Decidable s.Quiescent :=
  inferInstanceAs (Decidable (∀ t ∈ s.inflight, t.midway = false))

theorem Sys.Quiescent.not_owed {s : Sys} (h : s.Quiescent) (w : WorkerId) (id : JobId) :
    ¬ s.Owed w id := by
  rintro ⟨t, ht, ⟨workers, hmem, _⟩, _⟩
  have hrest := h t ht
  cases t with
  | tickScan | gcScan | manifestReader => cases hmem
  | _ => cases hrest

/-- In every run in which no reported failure takes the job away from another worker:
whenever no handler is midway, every binding is live. -/
theorem quiescent_bindings_live {s : Sys} {tr : Trace} (h : (machine env).Run Sys.init tr s)
    (hsafe : ∀ e ∈ tr, ¬ Strands e.pre e.act) (hq : s.Quiescent) :
    ∀ w id, s.active w = some id → s.Live w id := by
  have hstray : s.NoStray := by
    refine h.invariantWhere (fun s c => ¬ Strands s c) hsafe .init ?_ ?_
    · intro w id hw
      simp [Sys.init, MasterState.new, Sys.active] at hw
    · intro s c s' rep hs hstray hstrand hstep
      obtain ⟨cur, rest, spawn, hmove⟩ := Reachable.move hs hstep
      exact hmove.noStray (Reachable.ok hs) hstray hstrand
  intro w id hw
  exact (hstray w id hw).resolve_right (hq.not_owed w id)

/-- `a` has delivered and is released; `b` is at work. -/
theorem quiescent_bindings_live_small :
    (Small.play (Small.delivered ++ [.resume 0])).Live "b" "j" := by
  refine quiescent_bindings_live
    ((machine Small.env).run_play Sys.init (Small.at0 (Small.delivered ++ [.resume 0])))
    ?_ (by decide) "b" "j" rfl
  have hsuccess : ∀ c ∈ Small.at0 (Small.delivered ++ [.resume 0]), ∀ req result,
      c.act = .reportResult req → req.result = some result → result.success = true := by
    intro c hc req result hact hres
    simp [Small.delivered, Small.running, Small.create, Small.at0] at hc
    rcases hc with rfl | rfl | rfl | rfl | rfl | rfl | rfl | rfl <;> cases hact
    cases hres
    rfl
  rintro e he ⟨req, result, _, _, hact, hres, hfail, _⟩
  rw [hsuccess e.act ((machine Small.env).act_of_mem_trace he) req result hact hres] at hfail
  cases hfail

/-- `a` reports a failure. The job is FAILED, the call has ended, and `b` is bound to it. -/
theorem stale_binding : ¬ ∀ s, (machine Small.env).Reachable s → s.Quiescent →
    ∀ w id, s.active w = some id → s.Live w id := by
  intro hall
  have hfailed : ∀ r ∈ (Small.play (Small.running ++
      [.reportResult (Small.report "a" false), .resume 0, .resume 0])).job "j",
      r.isTerminal = true := by decide
  obtain ⟨r, hr, hterm, _⟩ := hall _ ((machine Small.env).reachable_play (Small.at0
    (Small.running ++ [.reportResult (Small.report "a" false), .resume 0, .resume 0])))
    (by decide) "b" "j" rfl
  rw [hfailed r hr] at hterm
  cases hterm

end CvdBench.Master
