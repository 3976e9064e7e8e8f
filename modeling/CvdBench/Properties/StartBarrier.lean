import CvdBench.Master.Bindings
import CvdBench.Master.Replies

/-!
The start barrier over whole runs: who starts a job, and the start instant that its
workers are told.
-/

set_option autoImplicit false

namespace CvdBench.Master

open Foundation Proto

variable {H : Type} {env : MasterEnv H}

def ReportsReady (e : Step) (id : JobId) (w : WorkerId) : Prop :=
  ∃ req r, e.act.act = .reportReady req ∧ req.jobId = id ∧ req.workerId = w ∧
    req.error = none ∧ e.pre.job id = some r ∧ w ∈ r.workerAssignments.keys

def Heard (tr : Trace) (s : Sys) : Prop := ∀ id r w, s.job id = some r →
  w ∈ r.readyWorkers → ∃ e ∈ tr, ReportsReady e id w

theorem Heard.snoc {tr : Trace} {s s' : Sys} {c : Choice} {rep : Option Reply}
    {cur : Option Task} {rest spawn : List Task} (h : Move env s c s' rep cur rest spawn)
    (hok : s.Ok) (hheard : Heard tr s) : Heard (tr ++ [⟨s, c, rep, s'⟩]) s' := by
  intro id r' w hr' hw
  cases h.origin hok hr' with
  | created _ _ _ _ _ hnew => simp [hnew, JobRecord.new] at hw
  | old r hr =>
    have hold : w ∈ r.readyWorkers → ∃ e ∈ tr ++ [⟨s, c, rep, s'⟩], ReportsReady e id w := by
      intro hmem
      obtain ⟨e, he, hrep⟩ := hheard id r w hr hmem
      exact ⟨e, List.mem_append_left _ he, hrep⟩
    cases h.change hok hr hr' with
    | kept _ _ heq => exact hold (heq ▸ hw)
    | closed _ _ heq => exact hold (heq ▸ hw)
    | slot _ _ _ _ _ heq => exact hold (heq ▸ hw)
    | result _ _ _ _ _ _ _ _ heq => exact hold (heq ▸ hw)
    | readied req hact herr hid hmem _ _ heq =>
      rw [heq, Finset.mem_insert] at hw
      rcases hw with rfl | hw
      · exact ⟨_, List.mem_append_right _ (List.mem_singleton.mpr rfl), req, r, hact, hid, rfl,
          herr, hr, hmem⟩
      · exact hold hw

theorem Run.heard {s : Sys} {tr : Trace} (h : (machine env).Run Sys.init tr s) :
    Heard tr s := by
  refine h.history (fun id r w hr => ?_) ?_
  · simp [machine, Sys.init, MasterState.new, Sys.job] at hr
  · intro tr s c s' rep hrun hheard hstep
    have hs : (machine env).Reachable s := ⟨tr, hrun⟩
    obtain ⟨cur, rest, spawn, hmove⟩ := Reachable.move hs hstep
    exact hheard.snoc hmove (Reachable.ok hs)

theorem Run.comparable {s t : Sys} {tr : Trace} (h : (machine env).Run s tr t)
    (hs : (machine env).Reachable s) {e e' : Step} (he : e ∈ tr) (he' : e' ∈ tr) :
    e.post.Later e'.post ∨ e'.post.Later e.post := by
  obtain ⟨tr₁, tr₂, rfl⟩ := List.append_of_mem he
  obtain ⟨h₁, hstep, h₂⟩ := h.split rfl
  have hrun := h₁.append (.single hstep)
  rcases List.mem_append.mp he' with hmem | hmem
  · exact .inr (Run.after hrun hs (List.mem_append_left _ hmem)).2
  · rcases List.mem_cons.mp hmem with rfl | hmem
    · exact .inl (.refl _)
    · obtain ⟨tr₃, tr₄, rfl⟩ := List.append_of_mem hmem
      obtain ⟨h₃, hstep', _⟩ := h₂.split rfl
      exact .inl (Run.later (h₃.append (.single hstep')) (hrun.reachable hs))

theorem JobRecord.Coherent.start_eq_zero {r : JobRecord} (h : r.Coherent) (hb : ¬ r.begun) :
    r.startAtMs = 0 := by
  by_cases hp : r.status = .pending
  · exact (h.pending hp).2.2.1
  · by_cases hprep : r.status = .preparing
    · exact (h.preparing hprep).2.2.2.2
    · exact absurd ⟨hp, hprep⟩ hb

/-- All records of a job along a run agree on one start instant. -/
theorem Run.oneStart {s : Sys} {tr : Trace} (h : (machine env).Run Sys.init tr s)
    (id : JobId) : ∃ startAt : Int, ∀ e ∈ tr, ∀ r, e.post.job id = some r →
      (r.begun → r.startAtMs = startAt) ∧ (¬ r.begun → r.startAtMs = 0) := by
  have hinit : (machine env).Reachable Sys.init := .init
  have hok : ∀ e ∈ tr, e.post.Ok := by
    intro e he
    obtain ⟨hstep, hpre⟩ := h.event he
    exact Reachable.ok ((hpre hinit).step hstep)
  have hzero : ∀ e ∈ tr, ∀ r, e.post.job id = some r → ¬ r.begun → r.startAtMs = 0 :=
    fun e he r hr hb => ((hok e he).coherent id r hr).start_eq_zero hb
  by_cases hex : ∃ e ∈ tr, ∃ r, e.post.job id = some r ∧ r.begun
  · obtain ⟨e₀, he₀, r₀, hr₀, hb₀⟩ := hex
    refine ⟨r₀.startAtMs, fun e he r hr => ⟨fun hb => ?_, hzero e he r hr⟩⟩
    rcases Run.comparable h hinit he₀ he with hlater | hlater
    · exact (hlater.le (hok e₀ he₀) hr₀ hr).start hb₀
    · exact ((hlater.le (hok e he) hr hr₀).start hb).symm
  · exact ⟨0, fun e he r hr => ⟨fun hb => absurd ⟨e, he, r, hr, hb⟩ hex, hzero e he r hr⟩⟩

/-- A ReportReady answers 0 or the start instant of the record it leaves. -/
theorem reportReady_reply (amb : Ambient) (m : MasterState) {req req' : ReportReadyRequest}
    {resp : ReportReadyResponse}
    (h : (reportReady env amb m req).reply = some (.reportReady req' (.ok resp))) :
    req' = req ∧ (resp.startAtMs = 0 ∨
      ∃ r, (reportReady env amb m req).state.jobs.get? req.jobId = some r ∧
        resp.startAtMs = r.startAtMs) := by
  have hrow := reportReady_row env amb m req
  generalize reportReady env amb m req = o at hrow h ⊢
  cases hrow with
  | refused e => cases h
  | turnedAway cancelled unknownJob => cases h; exact ⟨rfl, .inl rfl⟩
  | untimely reason hserves herr hs => cases h; exact ⟨rfl, .inl rfl⟩
  | failed reason hserves herr hs => cases h
  | started hserves herr hopen heq =>
    cases h
    exact ⟨rfl, .inr ⟨_, HashMap.get?_put_self .., rfl⟩⟩
  | counted hserves herr hs hclosed =>
    cases h
    exact ⟨rfl, .inr ⟨_, HashMap.get?_put_self .., rfl⟩⟩
  | noted hserves herr hs =>
    cases h
    exact ⟨rfl, .inr ⟨_, HashMap.get?_put_self .., rfl⟩⟩

variable (env) in
theorem reportReady_running (amb : Ambient) {m : MasterState} {req : ReportReadyRequest}
    {r : JobRecord} (hr : m.jobs.get? req.jobId = some r) (hs : r.status = .running)
    (herr : req.error = none) (hw : req.workerId ∈ r.workerAssignments.keys)
    (hvalid : Spec.validateWorkerId req.workerId = .ok ()) :
    ∃ resp, (reportReady env amb m req).reply = some (.reportReady req (.ok resp)) ∧
      resp.startAtMs = r.startAtMs := by
  have hcontains := HashMap.containsKey_iff.mpr hw
  have hs' : (r.touch req.workerId (amb.instant 0)).status = .running := hs
  unfold reportReady requireValidWorkerId reportReadySection readyAdvance
  simp only [hvalid, hr, hs, hs', herr, hcontains, JobRecord.isTerminal]
  exact ⟨_, rfl, rfl⟩

theorem reportReady_step {s s' : Sys} {c : Choice} {rep : Option Reply}
    {req : ReportReadyRequest} (hact : c.act = .reportReady req)
    (h : s.step env c = some (s', rep)) :
    s'.master = (reportReady env c.amb s.master req).state ∧
      rep = (reportReady env c.amb s.master req).reply := by
  rw [Sys.step_call (by simp [hact]) (by rw [hact]; rfl)] at h
  cases h
  exact ⟨rfl, rfl⟩

theorem readyReply_startAt {s s' : Sys} {c : Choice} {req : ReportReadyRequest}
    {resp : ReportReadyResponse}
    (h : s.step env c = some (s', some (.reportReady req (.ok resp)))) :
    resp.startAtMs = 0 ∨ ∃ r, s'.job req.jobId = some r ∧ resp.startAtMs = r.startAtMs := by
  rcases step_reply h with hrpc | ⟨i, t, _, _, hrpc, hrun⟩
  · have hact : ∃ req', c.act = .reportReady req' := by
      cases hact : c.act <;> rw [hact] at hrpc <;> cases hrpc
      exact ⟨_, rfl⟩
    obtain ⟨req', hact⟩ := hact
    obtain ⟨hstate, hrep⟩ := reportReady_step hact h
    obtain ⟨rfl, hout⟩ := reportReady_reply c.amb s.master hrep.symm
    rw [Sys.job, hstate]
    exact hout
  · cases t <;> cases hrpc
    · cases hrun
    · cases hrun
      exact .inl rfl

/-- The start barrier, over every run and for every job: the job starts only in an
error-free ReportReady, after each of its run workers has reported ready since it holds
its slot; and there is one start instant, which no record and no answer contradicts and
which every run worker of the running job is told. -/
theorem start_barrier {s : Sys} {tr : Trace} (h : (machine env).Run Sys.init tr s)
    (id : JobId) :
    (∀ tr₁ e tr₂, tr = tr₁ ++ e :: tr₂ → ∀ r', e.post.job id = some r' →
      r'.status = .running → (∀ r, e.pre.job id = some r → r.status ≠ .running) →
      (∃ req, e.act.act = .reportReady req ∧ req.jobId = id ∧ req.error = none) ∧
        ∀ w ∈ r'.runWorkers, ∃ e' ∈ tr₁ ++ [e], ReportsReady e' id w) ∧
    ∃ startAt : Int,
      (∀ e ∈ tr, ∀ r, e.post.job id = some r → r.startAtMs = 0 ∨ r.startAtMs = startAt) ∧
      (∀ e ∈ tr, ∀ req resp, e.out = some (.reportReady req (.ok resp)) → req.jobId = id →
        resp.startAtMs = 0 ∨ resp.startAtMs = startAt) ∧
      (∀ e ∈ tr, ∀ req r, e.act.act = .reportReady req → req.jobId = id →
        req.error = none → e.pre.job id = some r → r.status = .running →
        req.workerId ∈ r.runWorkers →
        ∃ resp, e.out = some (.reportReady req (.ok resp)) ∧ resp.startAtMs = startAt) := by
  have hinit : (machine env).Reachable Sys.init := .init
  refine ⟨fun tr₁ e tr₂ heq r' hr' hs' hnot => ?_, ?_⟩
  · obtain ⟨hpre, hstep, _⟩ := h.split heq
    have hs := hpre.reachable hinit
    have hok := Reachable.ok hs
    obtain ⟨cur, rest, spawn, hmove⟩ := Reachable.move hs hstep
    have hco := (hmove.ok hok).coherent id r' hr'
    have hheard := Run.heard (hpre.append (.single hstep))
    refine ⟨?_, fun w hw => hheard id r' w hr' (by rw [(hco.running hs').2.2.1]; exact hw)⟩
    cases hmove.origin hok hr' with
    | created _ _ _ _ _ hnew => simp [hnew, JobRecord.new] at hs'
    | old r hr =>
      have hns := hnot r hr
      cases hmove.change hok hr hr' with
      | kept _ _ _ heq => exact absurd (heq ▸ hs') hns
      | closed _ _ _ hterm => simp [hs'] at hterm
      | readied req hact herr hid => exact ⟨req, hact, hid, herr⟩
      | slot _ _ _ _ _ _ hout => rcases hout with ⟨hs'', _⟩ | ⟨hs'', _⟩ <;> simp [hs''] at hs'
      | result _ _ _ _ _ ht => exact absurd ht.running hns
  · obtain ⟨startAt, hone⟩ := Run.oneStart h id
    have hrecord : ∀ e ∈ tr, ∀ r, e.post.job id = some r →
        r.startAtMs = 0 ∨ r.startAtMs = startAt := by
      intro e he r hr
      by_cases hb : r.begun
      · exact .inr ((hone e he r hr).1 hb)
      · exact .inl ((hone e he r hr).2 hb)
    refine ⟨startAt, hrecord, fun e he req resp hout hid => ?_,
      fun e he req r hact hid herr hr hs hw => ?_⟩
    · obtain ⟨hstep, _⟩ := h.event he
      rw [hout] at hstep
      rcases readyReply_startAt hstep with hzero | ⟨r, hr, heq⟩
      · exact .inl hzero
      · rw [heq]
        exact hrecord e he r (hid ▸ hr)
    · obtain ⟨hstep, hpre⟩ := h.event he
      have hok := Reachable.ok (hpre hinit)
      have hco := hok.coherent id r hr
      have hmem : req.workerId ∈ r.workerAssignments.keys := by
        rw [← (hco.running hs).1]
        exact hw
      subst hid
      obtain ⟨hstate, hrep⟩ := reportReady_step hact hstep
      obtain ⟨resp, hresp, hstart⟩ := reportReady_running env e.act.amb hr hs herr hmem
        (hco.validIds _ hmem)
      refine ⟨resp, hrep.trans hresp, ?_⟩
      -- the record is still there after the step, with the same start instant
      obtain ⟨cur, rest, spawn, hmove⟩ := Reachable.move (hpre hinit) hstep
      have hb : r.begun := by simp [JobRecord.begun, hs]
      have hle : ∃ r', e.post.job req.jobId = some r' ∧ r.Le r' := by
        rcases hmove.fate hok hr with ⟨_, hterm⟩ | ⟨r', hr', rfl | hst⟩
        · simp [hs] at hterm
        · exact ⟨r', hr', .refl r'⟩
        · exact ⟨r', hr', hst.le⟩
      obtain ⟨r', hr', hle⟩ := hle
      rw [hstart, ← hle.start hb]
      exact (hone e he r' hr').1 (Edge.path_begun hle.status hb)

/-- Worker `a` asks again once the small job runs. -/
theorem start_barrier_small : ∃ startAt : Int,
    ∀ e ∈ (machine Small.env).trace Sys.init
        (Small.at0 (Small.running ++ [.reportReady ⟨"j", "a", none⟩])),
      ∀ req resp, e.out = some (.reportReady req (.ok resp)) → req.jobId = "j" →
        resp.startAtMs = 0 ∨ resp.startAtMs = startAt := by
  obtain ⟨startAt, _, hanswers, _⟩ := (start_barrier ((machine Small.env).run_play Sys.init
    (Small.at0 (Small.running ++ [.reportReady ⟨"j", "a", none⟩]))) "j").2
  exact ⟨startAt, hanswers⟩

end CvdBench.Master
