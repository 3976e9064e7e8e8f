import CvdBench.Foundation.Tally
import CvdBench.Properties.ClusterBarrier
import CvdBench.Properties.EffectiveWindow

/-!
What the master knows of the workers: every recorded result was built by the worker whose name
it bears, of the job that it was handed, and the windows of one job have one beginning.
-/

set_option autoImplicit false

namespace CvdBench.Master

open Foundation Proto

variable {H : Type} {env : MasterEnv H}

def Reports (e : Step) (id : JobId) (w : WorkerId) (x : WorkerResult) : Prop :=
  ∃ req, e.act.act = .reportResult req ∧ req.jobId = id ∧ req.result = some x ∧ x.workerId = w

def Delivered (tr : Trace) (s : Sys) : Prop := ∀ id r w x, s.job id = some r →
  r.workerResults.get? w = some x → ∃ e ∈ tr, Reports e id w x

theorem Delivered.snoc {tr : Trace} {s s' : Sys} {c : Choice} {rep : Option Reply}
    {cur : Option Task} {rest spawn : List Task} (h : Move env s c s' rep cur rest spawn)
    (hok : s.Ok) (hdelivered : Delivered tr s) : Delivered (tr ++ [⟨s, c, rep, s'⟩]) s' := by
  intro id r' w x hr' hx
  cases h.origin hok hr' with
  | created _ _ _ _ _ hnew =>
    rw [hnew] at hx
    cases hx
  | old r hr =>
    have hold : r.workerResults.get? w = some x → ∃ e ∈ tr ++ [⟨s, c, rep, s'⟩],
        Reports e id w x := by
      intro hget
      obtain ⟨e, he, hrep⟩ := hdelivered id r w x hr hget
      exact ⟨e, List.mem_append_left _ he, hrep⟩
    cases h.change hok hr hr' with
    | kept _ heq | closed _ heq | readied _ _ _ _ _ _ heq | slot _ _ _ _ heq =>
      exact hold (heq ▸ hx)
    | result req result hact hres hid _ _ heq =>
      rw [heq, JobRecord.withResult, HashMap.get?_put] at hx
      split at hx
      · next hw =>
        cases hx
        exact ⟨_, List.mem_append_right _ (List.mem_singleton_self _), req, hact, hid, hres,
          hw.symm⟩
      · exact hold hx

theorem Run.delivered {s : Sys} {tr : Trace} (h : (machine env).Run Sys.init tr s) :
    Delivered tr s := by
  refine h.history (fun id r w x hr => ?_) ?_
  · cases hr
  · intro tr s c s' rep hrun hdelivered hstep
    have hs : (machine env).Reachable s := ⟨tr, hrun⟩
    obtain ⟨cur, rest, spawn, hmove⟩ := Reachable.move hs hstep
    exact hdelivered.snoc hmove (Reachable.ok hs)

structure Sys.SameSpecs (s s' : Sys) : Prop where
  issued : s.issued ⊆ s'.issued
  specs : ∀ id ∈ s.issued, ∀ r', s'.job id = some r' →
    ∃ r, s.job id = some r ∧ r'.specRedacted = r.specRedacted

theorem Sys.SameSpecs.trans {s s' s'' : Sys} (h : s.SameSpecs s') (h' : s'.SameSpecs s'') :
    s.SameSpecs s'' := by
  refine ⟨h.issued.trans h'.issued, fun id hid r'' hr'' => ?_⟩
  obtain ⟨r', hr', heq'⟩ := h'.specs id (h.issued hid) r'' hr''
  obtain ⟨r, hr, heq⟩ := h.specs id hid r' hr'
  exact ⟨r, hr, heq'.trans heq⟩

theorem Move.sameSpecs {s s' : Sys} {c : Choice} {rep : Option Reply} {cur : Option Task}
    {rest spawn : List Task} (hok : s.Ok) (h : Move env s c s' rep cur rest spawn) :
    s.SameSpecs s' := by
  refine ⟨h.issued, fun id hid r' hr' => ?_⟩
  cases h.origin hok hr' with
  | created _ hact => exact absurd hid (h.fresh _ _ hact).1
  | old r hr hold =>
    rcases hold with rfl | hstep
    · exact ⟨r', hr, rfl⟩
    · exact ⟨r, hr, hstep.spec⟩

theorem Run.oneSpec {s : Sys} {tr : Trace} (h : (machine env).Run Sys.init tr s) {id : JobId}
    {e e' : Step} (he : e ∈ tr) (he' : e' ∈ tr) {r r' : JobRecord}
    (hr : e.post.job id = some r) (hr' : e'.post.job id = some r') :
    r'.specRedacted = r.specRedacted := by
  have hissued : ∀ e ∈ tr, ∀ r, e.post.job id = some r → id ∈ e.post.issued := by
    intro e he r hr
    obtain ⟨hstep, hpre⟩ := h.event he
    exact (Reachable.ok ((hpre .init).step hstep)).issued id r hr
  have hordered := h.ordered (R := Sys.SameSpecs)
    (fun s => ⟨Finset.Subset.refl _, fun _ _ r hr => ⟨r, hr, rfl⟩⟩)
    (fun _ _ _ => Sys.SameSpecs.trans) .init
    (fun s c s' rep hs hstep => by
      obtain ⟨cur, rest, spawn, hmove⟩ := Reachable.move hs hstep
      exact hmove.sameSpecs (Reachable.ok hs)) he he'
  rcases hordered with hlater | hlater
  · obtain ⟨r₀, hr₀, heq⟩ := hlater.specs id (hissued e he r hr) r' hr'
    obtain rfl := Option.some.inj (hr.symm.trans hr₀)
    exact heq
  · obtain ⟨r₀, hr₀, heq⟩ := hlater.specs id (hissued e' he' r' hr') r hr
    obtain rfl := Option.some.inj (hr'.symm.trans hr₀)
    exact heq.symm

def JobRecord.Published (lib : Metrics.HdrLib H) (r : JobRecord) : Prop :=
  r.isTerminal = true → ∃ order : HashOrder String,
    r.windowMisaligned =
        (Metrics.aggregate lib order (order.values r.workerResults)).windowMisaligned ∧
      r.aggregated = some (Metrics.aggregate lib order (order.values r.workerResults)).aggregated

theorem JobRecord.Published.step {lib : Metrics.HdrLib H} {r r' : JobRecord}
    (h : r.Published lib) (hstep : r.Step lib r') : r'.Published lib := by
  cases hstep with
  | noted => exact h
  | resulted seen progress result ht =>
    intro hterm
    exact absurd hterm ht.not_terminal
  | readied seen w hs =>
    intro hterm
    have hterm : r.isTerminal = true := hterm
    rcases hs with hs | hs <;> simp [hs] at hterm
  | started seen w atMs =>
    intro hterm
    cases hterm
  | assigned seen w hs =>
    intro hterm
    have hterm : r.isTerminal = true := hterm
    simp [hs] at hterm
  | filled seen w now fileQueue manifestHandle hs =>
    have hs' : ((r.withSlot w).note seen r.latestProgress).status = .pending := hs
    rw [JobRecord.filled, enterPreparing_of_pending now hs']
    intro hterm
    cases hterm
  | ended seen progress order nowMs he =>
    intro _
    exact ⟨order, rfl, rfl⟩

theorem Reachable.published {s : Sys} (h : (machine env).Reachable s) :
    ∀ id r, s.job id = some r → r.Published env.hdr := by
  refine h.invariant (P := fun s => ∀ id r, s.job id = some r → r.Published env.hdr) ?_ ?_
  · rintro id r ⟨⟩
  · intro s c s' rep hs hpub hstep id r' hr'
    obtain ⟨cur, rest, spawn, hmove⟩ := Reachable.move hs hstep
    cases hmove.origin (Reachable.ok hs) hr' with
    | created _ _ _ _ _ hnew =>
      intro hterm
      rw [hnew] at hterm
      cases hterm
    | old r hr hold =>
      rcases hold with rfl | hstep
      · exact hpub id r' hr
      · exact (hpub id r hr).step hstep

end CvdBench.Master

namespace CvdBench.Cluster

open Foundation Proto Master Worker Metrics

variable {H : Type} {env : MasterEnv H} {tr : ClusterTrace} {s : ClusterState}

theorem account_workerId {w : WorkerId} {dtr : List DaemonEvent} {id : JobId} {x : WorkerResult}
    (h : Account w dtr id x) : x.workerId = w := by
  cases h <;> rfl

theorem recorded_account (h : Projects (cluster env) tr s) {id : JobId} {r : JobRecord}
    (hr : s.server.job id = some r) {w : WorkerId} {x : WorkerResult}
    (hx : r.workerResults.get? w = some x) : Account w (clientTrace w tr) id x := by
  obtain ⟨e, he, req, hact, rfl, hres, hw⟩ := Run.delivered h.server id r w x hr hx
  obtain ⟨v, x', hres', haccount⟩ := result_explained h he hact
  obtain rfl := Option.some.inj (hres.symm.trans hres')
  obtain rfl : v = w := (account_workerId haccount).symm.trans hw
  exact haccount

theorem startsLoop_told (h : Projects (cluster env) tr s) {w : WorkerId} {id : JobId}
    {startAtMs : Int} (hstarts : ∃ e ∈ clientTrace w tr, StartsLoop e id startAtMs) :
    0 < startAtMs ∧
      ∃ e ∈ serverTrace tr, ∃ r, e.post.job id = some r ∧ r.begun ∧ r.startAtMs = startAtMs := by
  obtain ⟨e, he, hstarts⟩ := hstarts
  obtain ⟨dtr₁, dtr₂, hsplit⟩ := List.append_of_mem he
  obtain ⟨hrun, hstep, -⟩ := (h.client w).split hsplit
  obtain ⟨job, hpc, rfl, hmain, rfl⟩ := startsLoop_timed hstep hstarts
  have hbacked := (daemon_justified hrun).working job hpc
  obtain ⟨hpos, e', he', hears⟩ := hbacked.timed (by rw [hmain]; rfl)
  have hmem : e' ∈ clientTrace w tr := by
    rw [hsplit]
    exact List.mem_append_left _ he'
  obtain ⟨e₀, he₀, r, hr, hb, hstart, -⟩ := told_start h hpos ⟨e', hmem, hears⟩
  exact ⟨hpos, e₀, he₀, r, hr, hb, hstart⟩

theorem assigned_spec (h : Projects (cluster env) tr s) {w : WorkerId} {id : JobId}
    {job : AssignedJob} (hassigns : ∃ e ∈ clientTrace w tr, Assigns w e id (.accepted job)) :
    ∃ e ∈ serverTrace tr, ∃ r, e.post.job id = some r ∧
      parseAndValidate (some r.specRedacted) = .ok job.spec := by
  obtain ⟨e, he, res, hout, hid, hjob⟩ := assigns_fetched h hassigns
  obtain ⟨hstep, hpre⟩ := h.server.event he
  obtain ⟨r, hr, hspec⟩ := fetchJob_spec (Reachable.ok (hpre .init)) (hout ▸ hstep) hid
  refine ⟨e, he, r, hr, ?_⟩
  unfold assignment at hjob
  rw [hid] at hjob
  simp only at hjob
  split at hjob
  · cases hjob
  · split at hjob
    · cases hjob
    · next spec hparse =>
      cases hjob
      rw [← hspec]
      exact hparse

theorem server_last (h : Projects (cluster env) tr s) {id : JobId} {r : JobRecord}
    (hr : s.server.job id = some r) : ∃ e ∈ serverTrace tr, e.post.job id = some r := by
  rcases h.server.last with ⟨-, hinit⟩ | ⟨e, he, hpost⟩
  · rw [hinit] at hr
    cases hr
  · exact ⟨e, he, hpost ▸ hr⟩

structure Measured (r : JobRecord) (spec : Spec.BenchSpec) (x : WorkerResult) : Prop where
  start : x.measureStartMs = measureStartMs r.startAtMs spec.warmup
  planned : x.measureEndMs ≤ plannedEndMs r.startAtMs spec.warmup spec.duration
  effective : x.effectiveDurationMs =
    max (x.measureEndMs - measureStartMs r.startAtMs spec.warmup) 0

/-- A recorded result with counters is that of a hot loop, which was timed by the record. -/
theorem recorded_measured (h : Projects (cluster env) tr s) {id : JobId} {r : JobRecord}
    (hr : s.server.job id = some r) {w : WorkerId} {x : WorkerResult}
    (hx : r.workerResults.get? w = some x) (hops : x.perOp ≠ ∅) :
    0 < r.startAtMs ∧
      ∃ spec, parseAndValidate (some r.specRedacted) = .ok spec ∧ Measured r spec x := by
  obtain ⟨e, he, hpost⟩ := server_last h hr
  cases recorded_account h hr hx with
  | cancelled nowMs => exact absurd rfl hops
  | finished job startAtMs load outcome wasCancelled hassigns hprep hstarts hreturns =>
    obtain ⟨hpos, e₁, he₁, r₁, hr₁, hb₁, hstart⟩ := startsLoop_told h hstarts
    obtain ⟨e₂, he₂, r₂, hr₂, hspec⟩ := assigned_spec h hassigns
    rw [Run.oneSpec h.server he he₂ hpost hr₂] at hspec
    -- the record has a result, so it runs or is over
    have hb : r.begun := by
      have hco := (Reachable.ok (h.server.reachable .init)).coherent id r hr
      rcases hco.reported (HashMap.mem_keys_of_get? hx) with hs | hterm
      · simp [JobRecord.begun, hs]
      · constructor <;> rintro hs <;> simp [hs] at hterm
    obtain ⟨startAt, run, hone⟩ := Run.oneStartSet h.server id
    have hsame : startAtMs = r.startAtMs :=
      hstart.symm.trans ((hone e₁ he₁ r₁ hr₁ hb₁).1.trans (hone e he r hpost hb).1.symm)
    subst hsame
    exact ⟨hpos, job.spec, hspec, rfl, min_le_right _ _, rfl⟩

theorem measureStartMs_nonneg {startAtMs : Int} (h : 0 < startAtMs) (warmup : Spec.Duration) :
    0 ≤ measureStartMs startAtMs warmup := by
  have hwarmup : 0 ≤ i64TryFromOr 0 (Spec.Duration.asMillis warmup) := by
    unfold i64TryFromOr
    split
    · exact Int.natCast_nonneg _
    · exact le_refl 0
  unfold measureStartMs saturatingI64 i64Max i64Min
  omega

theorem plannedEndMs_le (startAtMs : Int) (warmup duration : Spec.Duration) :
    plannedEndMs startAtMs warmup duration ≤ i64Max := by
  unfold plannedEndMs saturatingI64 i64Max i64Min
  omega

/-- In every run of the whole system: a recorded result was built by the daemon whose name it
bears, which was ready for the job before; and when a job is COMPLETED each worker of the run has
delivered a result, of a hot loop without an error or of a cancellation at the barrier. -/
theorem cluster_results (h : (cluster env).net.Run (cluster env).net.init tr s) {id : JobId}
    {r : JobRecord} (hr : s.server.job id = some r) :
    (∀ w x, r.workerResults.get? w = some x →
      x.workerId = w ∧ w ∈ r.runWorkers ∧ Account w (clientTrace w tr) id x) ∧
    (r.status = .completed → ∀ w ∈ r.runWorkers,
      (∃ e ∈ clientTrace w tr, Prepares e id) ∧ ∃ x, r.workerResults.get? w = some x ∧
        ((∃ nowMs, x = Working.buildResultNoMetrics w nowMs) ∨
          ∃ outcome, (∃ e ∈ clientTrace w tr, Returns e id outcome) ∧
            ∀ error, outcome ≠ .failed error)) := by
  have hprojects := Protocol.projects h
  have hco := (Reachable.ok (hprojects.server.reachable .init)).coherent id r hr
  refine ⟨fun w x hx => ?_, fun hs w hw => ?_⟩
  · have haccount := recorded_account hprojects hr hx
    exact ⟨account_workerId haccount, hco.resultsRun (HashMap.mem_keys_of_get? hx), haccount⟩
  · obtain ⟨-, -, -, hkeys, hsuccess⟩ := hco.completed hs
    rw [← hkeys] at hw
    obtain ⟨x, hx⟩ := HashMap.mem_keys_iff.mp hw
    have hok := hsuccess w x hx
    cases recorded_account hprojects hr hx with
    | cancelled nowMs hprep => exact ⟨hprep, _, hx, .inl ⟨nowMs, rfl⟩⟩
    | finished job startAtMs load outcome wasCancelled hassigns hprep hstarts hreturns =>
      refine ⟨hprep, _, hx, .inr ⟨outcome, hreturns, ?_⟩⟩
      rintro error rfl
      cases hok

theorem Small.completed_spec : ∃ r, (Small.play Small.completed).server.job "j" = some r ∧
    r.status = .completed ∧ (contributors (.ascending String)
      ((HashOrder.ascending String).values r.workerResults)).length = 2 := by
  have hsome : ((Small.play Small.completed).server.job "j").isSome = true := by decide +kernel
  obtain ⟨r, hr⟩ := Option.isSome_iff_exists.mp hsome
  have hall : ∀ r ∈ (Small.play Small.completed).server.job "j", r.status = .completed ∧
      (contributors (.ascending String)
        ((HashOrder.ascending String).values r.workerResults)).length = 2 := by decide +kernel
  exact ⟨r, hr, hall r hr⟩

theorem cluster_results_small : ∃ r, (Small.play Small.completed).server.job "j" = some r ∧
    ∀ w ∈ r.runWorkers, ∃ e ∈ clientTrace w ((cluster Master.Small.env).net.trace
      (cluster Master.Small.env).net.init Small.completed), Prepares e "j" := by
  obtain ⟨r, hr, hs, -⟩ := Small.completed_spec
  refine ⟨r, hr, fun w hw => ?_⟩
  exact ((cluster_results ((cluster Master.Small.env).net.run_play _ Small.completed)
    hr).2 hs w hw).1

/-- In every run of the whole system the workers of a job measure from one instant on. So two or
more workers with counters have a common window unless one of them measured nothing, it is as
long as the shortest of their measurements, and the record says so when the job is over. -/
theorem cluster_window (h : (cluster env).net.Run (cluster env).net.init tr s) {id : JobId}
    {r : JobRecord} (hr : s.server.job id = some r) (order : HashOrder String) :
    (∀ x ∈ contributors order (order.values r.workerResults), ∃ spec,
      parseAndValidate (some r.specRedacted) = .ok spec ∧ Measured r spec x) ∧
    (2 ≤ (contributors order (order.values r.workerResults)).length →
      computeEffectiveWindowMs (contributors order (order.values r.workerResults)) =
          (minEffective (contributors order (order.values r.workerResults)),
            decide (minEffective (contributors order (order.values r.workerResults)) = 0)) ∧
        (r.isTerminal = true → (r.windowMisaligned = true ↔ ∃ x ∈
          contributors order (order.values r.workerResults), x.effectiveDurationMs = 0))) := by
  have hprojects := Protocol.projects h
  have hmeasured : ∀ x ∈ contributors order (order.values r.workerResults),
      0 < r.startAtMs ∧
        ∃ spec, parseAndValidate (some r.specRedacted) = .ok spec ∧ Measured r spec x := by
    intro x hx
    obtain ⟨hx, hcounts⟩ := List.mem_filter.mp hx
    obtain ⟨w, hget⟩ := order.mem_values.mp hx
    refine recorded_measured hprojects hr hget fun hempty => ?_
    obtain ⟨op, m, hop, -⟩ := (hasCounters_iff order x).mp hcounts
    rw [hempty] at hop
    cases hop
  refine ⟨fun x hx => (hmeasured x hx).2, fun htwo => ?_⟩
  generalize hws : contributors order (order.values r.workerResults) = ws at hmeasured htwo ⊢
  obtain ⟨y, hy⟩ := List.exists_mem_of_length_pos (by omega : 0 < ws.length)
  obtain ⟨hpos, spec, hspec, -⟩ := hmeasured y hy
  have hsame : ∀ x ∈ ws, Measured r spec x := by
    intro x hx
    obtain ⟨-, spec', hspec', hx⟩ := hmeasured x hx
    rw [hspec] at hspec'
    cases hspec'
    exact hx
  have hwindow := window_of_common_start htwo (fun x hx => (hsame x hx).start)
    (fun x hx => (hsame x hx).effective) fun x hx => by
      have hplanned := (hsame x hx).planned
      have hnonneg := measureStartMs_nonneg hpos spec.warmup
      have hfits := plannedEndMs_le r.startAtMs spec.warmup spec.duration
      omega
  refine ⟨hwindow, fun hterm => ?_⟩
  obtain ⟨order', hmis, -⟩ := Reachable.published (hprojects.server.reachable .init) id r hr hterm
  have hperm := HashOrder.values_perm order order' r.workerResults
  rw [hmis, (aggregate_window_perm env.hdr order order' hperm).2, aggregate_misaligned, hws,
    hwindow, decide_eq_true_eq, minEffective_eq_zero_iff (List.ne_nil_of_mem hy)]
  intro x hx
  rw [(hsame x hx).effective]
  exact le_max_right _ _

theorem cluster_window_small : ∃ r, (Small.play Small.completed).server.job "j" = some r ∧
    (r.windowMisaligned = true ↔ ∃ x ∈ contributors (.ascending String)
      ((HashOrder.ascending String).values r.workerResults), x.effectiveDurationMs = 0) := by
  obtain ⟨r, hr, hs, htwo⟩ := Small.completed_spec
  refine ⟨r, hr, ?_⟩
  exact ((cluster_window ((cluster Master.Small.env).net.run_play _ Small.completed) hr
    (.ascending String)).2 (by rw [htwo])).2 (by simp [hs])

end CvdBench.Cluster
