import CvdBench.Cluster.System

/-!
The start barrier across the whole system: no worker starts its hot loop before each worker of
the run has passed its preflight, and all of them start with the same instant.
-/

set_option autoImplicit false

namespace CvdBench.Master

open Foundation Proto

variable {H : Type} {env : MasterEnv H}

/-- All records of a job along a run agree on one start instant and on the workers of the
run, once the barrier is decided. -/
theorem Run.oneStartSet {s : Sys} {tr : Trace} (h : (machine env).Run Sys.init tr s)
    (id : JobId) : ∃ (startAt : Int) (run : Finset WorkerId), ∀ e ∈ tr, ∀ r,
      e.post.job id = some r → r.begun → r.startAtMs = startAt ∧ r.runWorkers = run := by
  have hinit : (machine env).Reachable Sys.init := .init
  have hok : ∀ e ∈ tr, e.post.Ok := by
    intro e he
    obtain ⟨hstep, hpre⟩ := h.event he
    exact Reachable.ok ((hpre hinit).step hstep)
  by_cases hex : ∃ e ∈ tr, ∃ r, e.post.job id = some r ∧ r.begun
  · obtain ⟨e₀, he₀, r₀, hr₀, hb₀⟩ := hex
    refine ⟨r₀.startAtMs, r₀.runWorkers, fun e he r hr hb => ?_⟩
    rcases Run.comparable h hinit he₀ he with hlater | hlater
    · have hle := hlater.le (hok e₀ he₀) hr₀ hr
      exact ⟨hle.start hb₀, hle.run hb₀.1⟩
    · have hle := hlater.le (hok e he) hr hr₀
      exact ⟨(hle.start hb).symm, (hle.run hb.1).symm⟩
  · exact ⟨0, ∅, fun e he r hr hb => absurd ⟨e, he, r, hr, hb⟩ hex⟩

theorem readyReply_running {s s' : Sys} {c : Choice} {req : ReportReadyRequest}
    {resp : ReportReadyResponse} (hok : s.Ok) (hok' : s'.Ok)
    (h : s.step env c = some (s', some (.reportReady req (.ok resp))))
    (hstart : resp.startAtMs ≠ 0) :
    ∃ r, s'.job req.jobId = some r ∧ r.status = .running ∧ r.startAtMs = resp.startAtMs ∧
      req.workerId ∈ r.runWorkers := by
  rcases step_reply h with hrpc | ⟨i, t, _, _, hrpc, hrun⟩
  · have hact : ∃ req', c.act = .reportReady req' := by
      cases hact : c.act <;> rw [hact] at hrpc <;> cases hrpc
      exact ⟨_, rfl⟩
    obtain ⟨req', hact⟩ := hact
    obtain ⟨hstate, hrep⟩ := reportReady_step hact h
    have hco' := hok'.coherent req.jobId
    rw [Sys.job, hstate]
    rw [hstate] at hco'
    have hrow := reportReady_row env c.amb s.master req'
    generalize reportReady env c.amb s.master req' = o at hrow hrep hco' ⊢
    cases hrow with
    | refused e => cases hrep
    | turnedAway cancelled unknownJob => cases hrep; exact absurd rfl hstart
    | untimely reason hserves herr hs => cases hrep; exact absurd rfl hstart
    | failed reason hserves herr hs => cases hrep
    | @started r r₁ hserves herr hopen heq =>
      cases hrep
      have hget := HashMap.get?_put_self s.master.jobs req.jobId r₁
      have hs : r₁.status = .running := by rw [heq]; rfl
      refine ⟨r₁, hget, hs, rfl, ?_⟩
      rw [((hco' r₁ hget).running hs).1, heq]
      exact hserves.member
    | @counted r hserves herr hs hclosed =>
      cases hrep
      have hzero : r.startAtMs = 0 := (hok.coherent _ r hserves.found).start_eq_zero fun hb => by
        rcases hs with hs | hs
        · exact hb.2 hs
        · exact hb.1 hs
      exact absurd hzero hstart
    | @noted r hserves herr hs =>
      cases hrep
      have hco := hok.coherent _ r hserves.found
      have hrunning : r.status = .running := by
        have hlive := JobRecord.isTerminal_eq_false_iff.mp hserves.live
        rw [not_or] at hs
        cases hstatus : r.status with
        | unspecified => exact absurd hstatus hco.specified
        | pending => exact absurd hstatus hs.2
        | preparing => exact absurd hstatus hs.1
        | running => rfl
        | completed => exact absurd hstatus hlive.1
        | failed => exact absurd hstatus hlive.2.1
        | cancelled => exact absurd hstatus hlive.2.2
      refine ⟨_, HashMap.get?_put_self .., hrunning, rfl, ?_⟩
      show req.workerId ∈ r.runWorkers
      rw [(hco.running hrunning).1]
      exact hserves.member
  · cases t <;> cases hrpc
    · cases hrun
    · cases hrun
      exact absurd rfl hstart

end CvdBench.Master

namespace CvdBench.Cluster

open Foundation Proto Master Worker

variable {H : Type} {env : MasterEnv H}

theorem startsLoop_timed {w : WorkerId} {e : DaemonEvent} {id : JobId} {startAtMs : Int}
    (hstep : e.pre.step w e.act = some (e.post, e.out)) (h : StartsLoop e id startAtMs) :
    ∃ job, e.pre.pc = .working job ∧ job.jobId = id ∧ job.state.main = .waitStart ∧
      job.startAtMs = startAtMs := by
  obtain ⟨job', ⟨job, hpre, hpost, hid, -, hmain, hmain'⟩, hstart⟩ := h
  refine ⟨job, hpre, hid, hmain, ?_⟩
  have hmove := Daemon.step_move hstep
  generalize e.act = act at hmove
  generalize e.post = post at hmove hpost
  generalize e.out = out at hmove
  cases hmove with
  | signal =>
    obtain rfl := DaemonPc.working.inj (hpre.symm.trans hpost)
    exact hstart
  | stop | fetch | ended | idle | failed | wake => cases hpost
  | assigned res jobId hpc hid =>
    rw [hpre] at hpc
    cases hpc
  | job act heard load job₀ a s' o hpc hstep hhears hshutdown =>
    obtain rfl := DaemonPc.working.inj (hpre.symm.trans hpc)
    obtain rfl := DaemonPc.working.inj hpost
    rw [← hstart]
    exact (startAfter_same a (by rw [hmain]; simp)).symm

/-- Whoever knows a start instant knows it from the running job, of which it is a worker; and
each worker of the run has passed its preflight. -/
theorem told_start {tr : ClusterTrace} {s : ClusterState} (h : Projects (cluster env) tr s)
    {w : WorkerId} {id : JobId} {startAtMs : Int} (hpos : 0 < startAtMs)
    (hears : ∃ e ∈ clientTrace w tr, HearsStart w e id startAtMs) :
    ∃ e ∈ serverTrace tr, ∃ r, e.post.job id = some r ∧ r.begun ∧ r.startAtMs = startAtMs ∧
      w ∈ r.runWorkers ∧ ∀ v ∈ r.runWorkers, ∃ e ∈ clientTrace v tr, Prepares e id := by
  obtain ⟨e, he, req, res, hout, rfl, rfl, rfl⟩ := hears_start h hears
  obtain ⟨tr₁, tr₂, hsplit⟩ := List.append_of_mem he
  obtain ⟨hrun, hstep, -⟩ := h.server.split hsplit
  have hpre := hrun.reachable reachable_init
  have hok' := Reachable.ok (hpre.step hstep)
  obtain ⟨r, hr, hs, hstart, hmem⟩ :=
    readyReply_running (Reachable.ok hpre) hok' (hout ▸ hstep) (by omega)
  refine ⟨e, he, r, hr, by simp [JobRecord.begun, hs], hstart, hmem, fun v hv => ?_⟩
  -- a worker of the run is ready, and it said so itself
  have hready : v ∈ r.readyWorkers := by
    rw [((hok'.coherent _ r hr).running hs).2.2.1]
    exact hv
  obtain ⟨e', he', req', r', hact, hid, rfl, herr, -, -⟩ :=
    Run.heard (hrun.snoc hstep) req.jobId r v hr hready
  have hmem' : e' ∈ serverTrace tr := by
    rw [hsplit, List.append_cons]
    exact List.mem_append_left _ he'
  rw [← hid]
  exact ready_explained h hmem' hact herr

/-- In every run of the whole system and for every job: the hot loops of the job all start with
one instant, each of them on a worker of the run, and at the time when the first of them begins
every worker of the run has passed its preflight. A record says the same once the barrier is
decided. -/
theorem cluster_barrier {tr : ClusterTrace} {s : ClusterState}
    (h : (cluster env).net.Run (cluster env).net.init tr s) (id : JobId) :
    ∃ (startAt : Int) (run : Finset WorkerId),
      (∀ tr₁ e tr₂ w e' startAtMs, tr = tr₁ ++ e :: tr₂ → e.out = .client w e' →
        StartsLoop e' id startAtMs →
          startAtMs = startAt ∧ 0 < startAt ∧ w ∈ run ∧
            ∀ v ∈ run, ∃ e'' ∈ clientTrace v tr₁, Prepares e'' id) ∧
      ∀ r, s.server.job id = some r → r.begun → r.startAtMs = startAt ∧ r.runWorkers = run := by
  have hprojects := Protocol.projects h
  obtain ⟨startAt, run, hone⟩ := Run.oneStartSet hprojects.server id
  refine ⟨startAt, run, fun tr₁ e tr₂ w e' startAtMs heq hout hstarts => ?_, fun r hr hb => ?_⟩
  · subst heq
    obtain ⟨hbefore, hpre, hstep⟩ := Protocol.clientStep h hout
    obtain ⟨job, hpc, rfl, hmain, rfl⟩ := startsLoop_timed hstep hstarts
    have hbacked := (daemon_justified (hbefore.client w)).working job (by rw [← hpre]; exact hpc)
    obtain ⟨hpos, hears⟩ := hbacked.timed (by rw [hmain]; rfl)
    obtain ⟨e₀, he₀, r, hr, hb, hstart, hmem, hall⟩ := told_start hbefore hpos hears
    obtain ⟨hstartAt, hrun⟩ := hone e₀ (mem_serverTrace_append he₀ _) r hr hb
    refine ⟨hstart.symm.trans hstartAt, by omega, hrun ▸ hmem, fun v hv => hall v (hrun ▸ hv)⟩
  · rcases hprojects.server.last with ⟨-, hinit⟩ | ⟨e, he, hpost⟩
    · rw [hinit] at hr
      cases hr
    · exact hone e he r (hpost ▸ hr) hb

theorem Small.starts : ∃ s e, (cluster Master.Small.env).net.step (Small.play Small.started)
    (Small.main "b" .wake) = some (s, .client "b" e) ∧ StartsLoop e "j" 6000 :=
  ⟨_, _, rfl, _, ⟨_, rfl, rfl, rfl, rfl, rfl, rfl⟩, rfl⟩

/-- When `b` starts its hot loop in the small cluster. -/
theorem cluster_barrier_small : ∃ run : Finset WorkerId, "b" ∈ run ∧ ∀ v ∈ run,
    ∃ e ∈ clientTrace v ((cluster Master.Small.env).net.trace
      (cluster Master.Small.env).net.init Small.started), Prepares e "j" := by
  obtain ⟨s, e, hstep, hstarts⟩ := Small.starts
  have hrun := ((cluster Master.Small.env).net.run_play (cluster Master.Small.env).net.init
    Small.started).snoc hstep
  obtain ⟨startAt, run, hall, -⟩ := cluster_barrier hrun "j"
  obtain ⟨-, -, hmem, hprep⟩ := hall _ _ [] _ _ _ rfl rfl hstarts
  exact ⟨run, hmem, hprep⟩

end CvdBench.Cluster

