import CvdBench.Master.Bindings
import CvdBench.Master.Replies

/-!
After a result is recorded: what a repeated ReportResult is answered, and what FetchJob
gives to the worker while the release of its binding is pending.
-/

set_option autoImplicit false

namespace CvdBench.Master

open Foundation Proto

variable {H : Type} {env : MasterEnv H}

def Records (e : Step) (id : JobId) (w : WorkerId) : Prop :=
  ∃ req result r r', e.act.act = .reportResult req ∧ req.jobId = id ∧
    req.result = some result ∧ result.workerId = w ∧ e.pre.job id = some r ∧
    w ∉ r.workerResults.keys ∧ e.post.job id = some r' ∧
    r'.workerResults.get? w = some result

/-- The part of a record that a repeated report must not touch. -/
structure JobRecord.SameOutcome (r r' : JobRecord) : Prop where
  results : r'.workerResults = r.workerResults
  aggregated : r'.aggregated = r.aggregated
  status : r'.status = r.status
  error : r'.error = r.error
  terminalAt : r'.terminalAtMs = r.terminalAtMs

/-- Whenever the task runs it ends the call with this answer, and leaves the jobs and the
subscribers alone. -/
def Task.AnswersResult (env : MasterEnv H) (t : Task) (req : ReportResultRequest)
    (unknownJob : Bool) : Prop :=
  ∀ amb m, ∃ m', t.run env amb m = some ⟨m', some (.reportResult req (.ok ⟨unknownJob⟩)), []⟩ ∧
    m'.jobs = m.jobs ∧ m'.subscribers = m.subscribers

/-- The repeated report is on its way to the answer `unknown_job = false`, has changed
nothing of the outcome and has announced nothing. -/
def RetryAcknowledged (env : MasterEnv H) (s : Sys) (c : Choice) (req : ReportResultRequest)
    (r : JobRecord) : Prop :=
  ∃ s' t, (machine env).step s c = some (s', none) ∧ s'.inflight = s.inflight ++ [t] ∧
    t.AnswersResult env req false ∧ s'.master.subscribers = s.master.subscribers ∧
    ∃ r', s'.job req.jobId = some r' ∧ r.SameOutcome r'

theorem resultRelease_answers (req : ReportResultRequest) (w : WorkerId) (unknownJob : Bool) :
    (Task.resultRelease req w unknownJob).AnswersResult env req unknownJob :=
  fun _ m => ⟨m.releaseWorkers req.jobId [w], rfl, rfl, rfl⟩

theorem Task.AnswersResult.unique {t : Task} {req : ReportResultRequest} {b b' : Bool}
    (h : t.AnswersResult env req b) (h' : t.AnswersResult env req b') : b = b' := by
  obtain ⟨_, hrun, _⟩ := h (Small.amb 0) .new
  obtain ⟨_, hrun', _⟩ := h' (Small.amb 0) .new
  rw [hrun] at hrun'
  cases hrun'
  rfl

variable (env) in
theorem reportResult_step (s : Sys) {c : Choice} {req : ReportResultRequest}
    (hact : c.act = .reportResult req) :
    (machine env).step s c = some (s.after s.inflight (reportResult env c.amb s.master req)) :=
  Sys.step_call (by simp [hact]) (by rw [hact]; rfl)

section

variable {s : Sys} {c : Choice} {req : ReportResultRequest} {result : WorkerResult}
  {r : JobRecord}

variable (env) in
theorem reportResult_valid (amb : Ambient) (m : MasterState) (hres : req.result = some result)
    (hvalid : Spec.validateWorkerId result.workerId = .ok ()) :
    reportResult env amb m req = reportResultSection env amb m req result := by
  rw [reportResult, hres]
  show requireValidWorkerId _ _ _ _ = _
  rw [requireValidWorkerId, hvalid]

theorem reportResultSection_duplicate (amb : Ambient) {m : MasterState}
    (hr : m.jobs.get? req.jobId = some r) (hrun : result.workerId ∈ r.runWorkers)
    (hs : r.status = .running ∨ r.status = .cancelled)
    (hmem : result.workerId ∈ r.workerResults.keys) :
    reportResultSection env amb m req result =
      .continue (m.setJob req.jobId (r.touch result.workerId (amb.instant 0)))
        (.resultRelease req result.workerId false) := by
  have hopen : ¬ (r.status ≠ .running ∧ r.status ≠ .cancelled) := by
    rcases hs with hs | hs <;> simp [hs]
  have hdup : (r.touch result.workerId (amb.instant 0)).workerResults.containsKey
      result.workerId = true := HashMap.containsKey_iff.mpr hmem
  unfold reportResultSection
  rw [hr]
  simp only [hrun, not_true_eq_false, if_false, hopen, hdup, if_true]

/-- The status gate comes first: a job that is COMPLETED or FAILED knows nobody. -/
theorem reportResultSection_over (amb : Ambient) {m : MasterState}
    (hr : m.jobs.get? req.jobId = some r)
    (hs : r.status = .completed ∨ r.status = .failed) :
    reportResultSection env amb m req result =
      .continue m (.resultRelease req result.workerId true) := by
  have hshut : r.status ≠ .running ∧ r.status ≠ .cancelled := by
    rcases hs with hs | hs <;> simp [hs]
  unfold reportResultSection
  rw [hr]
  simp only [hshut, ne_eq, not_false_eq_true, and_self, if_true, ite_self]

end

theorem Records.later {s t : Sys} {tr : Trace} (hs : (machine env).Reachable s)
    (h : (machine env).Run s tr t) {e : Step} (he : e ∈ tr) {id : JobId} {w : WorkerId}
    (hrec : Records e id w) {r : JobRecord} (hr : t.job id = some r) :
    w ∈ r.workerResults.keys ∧ w ∈ r.runWorkers ∧ Spec.validateWorkerId w = .ok () := by
  obtain ⟨req, result, r₀, r₁, hact, hid, hres, hw, hr₀, hfresh, hr₁, hget⟩ := hrec
  obtain ⟨hstep, hreach⟩ := h.event he
  have hpre := hreach hs
  have hok := Reachable.ok hpre
  obtain ⟨hpost, hlater⟩ := Run.after h hs he
  have hle := hlater.le (Reachable.ok hpost) hr₁ hr
  have hco := (Reachable.ok (h.reachable hs)).coherent id r hr
  have hmem : w ∈ r.workerResults.keys := HashMap.mem_keys_of_get? (hle.results w result hget)
  refine ⟨hmem, hco.resultsRun hmem, hco.validIds w (hle.assigned ?_)⟩
  -- the step that recorded the result found the job running
  obtain ⟨cur, rest, spawn, hmove⟩ := Reachable.move hpre hstep
  have hnew : r₁.workerResults ≠ r₀.workerResults := fun heq => by
    rw [heq] at hget
    exact hfresh (HashMap.mem_keys_of_get? hget)
  cases hmove.change hok hr₀ hr₁ with
  | kept _ heq | closed _ heq | readied _ _ _ _ _ _ heq | slot _ _ _ _ heq =>
    exact absurd heq hnew
  | result req' result' hact' hres' _ ht hwa =>
    rw [hact] at hact'
    cases hact'
    rw [hres] at hres'
    cases hres'
    rw [hwa, ← ((hok.coherent id r₀ hr₀).running ht.running).1, ← hw]
    exact ht.member

/-- A repeated report, with any payload and at any later time at which the record is
still there, is acknowledged without effect if and only if the job is not COMPLETED or
FAILED. -/
theorem result_retry_iff {s : Sys} {tr : Trace} (h : (machine env).Run Sys.init tr s)
    {e : Step} (he : e ∈ tr) {id : JobId} {w : WorkerId} (hrec : Records e id w)
    {r : JobRecord} (hr : s.job id = some r) {c : Choice} {req : ReportResultRequest}
    {result : WorkerResult} (hact : c.act = .reportResult req) (hid : req.jobId = id)
    (hres : req.result = some result) (hw : result.workerId = w) :
    RetryAcknowledged env s c req r ↔ ¬ (r.status = .completed ∨ r.status = .failed) := by
  subst hid hw
  obtain ⟨hmem, hrun, hvalid⟩ := hrec.later .init h he hr
  have hco := (Reachable.ok (h.reachable .init)).coherent _ r hr
  have hsection := reportResult_valid env c.amb s.master hres hvalid
  have hstep := reportResult_step env s hact
  constructor
  · rintro ⟨s', t, hstep', hinflight, hanswers, _⟩ hover
    rw [hsection, reportResultSection_over c.amb hr hover] at hstep
    rw [hstep] at hstep'
    cases hstep'
    have hlast := List.append_cancel_left hinflight
    cases hlast
    cases hanswers.unique (resultRelease_answers req result.workerId true)
  · intro hover
    have hs : r.status = .running ∨ r.status = .cancelled := by
      rcases hco.reported hmem with hrunning | hterm
      · exact .inl hrunning
      · rcases JobRecord.isTerminal_iff.mp hterm with hs | hs | hs
        · exact absurd (.inl hs) hover
        · exact absurd (.inr hs) hover
        · exact .inr hs
    rw [hsection, reportResultSection_duplicate c.amb hr hrun hs hmem] at hstep
    refine ⟨_, _, hstep, rfl, resultRelease_answers _ _ _, rfl,
      r.touch result.workerId (c.amb.instant 0), ?_, ⟨rfl, rfl, rfl, rfl, rfl⟩⟩
    show (s.master.jobs.put req.jobId _).get? req.jobId = _
    rw [HashMap.get?_put_self]

theorem Small.delivery_records : Records Small.delivery "j" "a" :=
  ⟨Small.report "a" true, Small.result "a" true, _, _, rfl, rfl, rfl, rfl, rfl, by decide, rfl,
    rfl⟩

/-- `a` repeats its report, with another payload, while `b` is still at work. -/
theorem result_retry_small : ∃ r, (Small.play Small.delivered).job "j" = some r ∧
    RetryAcknowledged Small.env (Small.play Small.delivered)
      ⟨.reportResult (Small.report "a" false), Small.amb 0⟩ (Small.report "a" false) r := by
  have hstatus : ∀ r ∈ (Small.play Small.delivered).job "j",
      ¬ (r.status = .completed ∨ r.status = .failed) := by decide
  refine ⟨_, rfl, ?_⟩
  exact (result_retry_iff ((machine Small.env).run_play Sys.init (Small.at0 Small.delivered))
    (Small.delivery_mem []) Small.delivery_records rfl rfl rfl rfl rfl).mpr (hstatus _ rfl)

/-- After the job is COMPLETED the same report is answered `unknown_job = true`. -/
theorem result_retry_refused : ¬ ∀ (s : Sys) (tr : Trace),
    (machine Small.env).Run Sys.init tr s → ∀ e ∈ tr, ∀ id w, Records e id w →
      ∀ r, s.job id = some r → ∀ c req result, c.act = .reportResult req → req.jobId = id →
        req.result = some result → result.workerId = w →
          RetryAcknowledged Small.env s c req r := by
  intro hall
  obtain ⟨s', t, hretry, hinflight, hanswers, _⟩ :=
    hall _ _ ((machine Small.env).run_play Sys.init (Small.at0 Small.completed)) _
      (Small.delivery_mem _) "j" "a" Small.delivery_records _ rfl
      ⟨.reportResult (Small.report "a" true), Small.amb 0⟩
      (Small.report "a" true) (Small.result "a" true) rfl rfl rfl rfl
  have hrefused : (machine Small.env).step (Small.play Small.completed)
      ⟨.reportResult (Small.report "a" true), Small.amb 0⟩ =
        some (Small.play (Small.completed ++ [.reportResult (Small.report "a" true)]), none) := rfl
  have hsame := hrefused.symm.trans hretry
  obtain rfl := congrArg Prod.fst (Option.some.inj hsame)
  have hlast : [Task.resultRelease (Small.report "a" true) "a" true] = [t] := hinflight
  cases hlast
  cases hanswers.unique (resultRelease_answers (Small.report "a" true) "a" true)

/-- FetchJob hands out only a job that goes on and has no result of the worker yet. -/
def HandsUnfinished (e : Step) : Prop :=
  ∀ w resp id, e.out = some (.fetchJob w (.ok resp)) → resp.jobId = some id →
    ∃ r, e.pre.job id = some r ∧ r.isTerminal = false ∧ w ∉ r.workerResults.keys

/-- The worker is still bound to a running job that has its result: the ReportResult that
recorded it, or a repeated one, has not released the binding yet. -/
def ReleasePending (s : Sys) (w : WorkerId) : Prop :=
  ∃ req r, s.active w = some req.jobId ∧ s.job req.jobId = some r ∧ r.status = .running ∧
    .resultRelease req w false ∈ s.inflight

/-- Every FetchJob of every run hands out unfinished work only, if and only if no release
of the worker is pending. -/
theorem fetch_unfinished_iff {s : Sys} {tr : Trace} (h : (machine env).Run Sys.init tr s) :
    ∀ e ∈ tr, ∀ w, e.act.act = .fetchJob w → (HandsUnfinished e ↔ ¬ ReleasePending e.pre w) := by
  intro e he w hact
  obtain ⟨hstep, hreach⟩ := h.event he
  have hs := hreach .init
  have hok := Reachable.ok hs
  constructor
  · rintro hunfinished ⟨req, r, hactive, hr, hrunning, hmem⟩
    have hterm : r.isTerminal = false := by simp [JobRecord.isTerminal, hrunning]
    have hassigned := (Reachable.bound hs w req.jobId hactive).2 r hr
    have hvalid := (hok.coherent _ r hr).validIds w hassigned
    obtain ⟨a, hrep⟩ := replay_of_bound (Reachable.bound hs) hactive hr hterm
    have hreply : e.out =
        some (.fetchJob w (.ok (fetchJobResponse req.jobId r a (e.act.amb.nowMs 0)))) := by
      rw [(fetchJob_step hact hstep).2, fetchJob, requireValidWorkerId, hvalid]
      show (fetchJobSection env e.act.amb e.pre.master w).reply = _
      rw [fetchJobSection, hrep]
      rfl
    obtain ⟨r', hr', _, hnone⟩ := hunfinished w _ req.jobId hreply rfl
    obtain rfl := Option.some.inj (hr.symm.trans hr')
    have hreported : Reported e.pre.issued e.pre.master.jobs w req.jobId :=
      hok.tasks _ hmem rfl
    rcases hreported.2 r hr with hover | hdone
    · rw [hterm] at hover
      cases hover
    · exact hnone hdone
  · intro hclear w' resp id hout hid
    rw [hout] at hstep
    obtain ⟨hact', hhands⟩ := fetchJob_hands hok hstep hid
    obtain rfl : w' = w := by
      rw [hact] at hact'
      cases hact'
      rfl
    rcases hhands with ⟨r, a, hrep⟩ | ⟨_, _, _, r, _, _, hr, hpending⟩
    · obtain ⟨hactive, hr, hterm, _⟩ := replay_eq_some.mp hrep
      refine ⟨r, hr, hterm, fun hdone => ?_⟩
      have howed := Reachable.delivered hs w' id r hactive hr hterm hdone
      obtain ⟨req, rfl, hmem⟩ := Owed.resultRelease hok howed hr hterm
      rcases (hok.coherent _ r hr).reported hdone with hrunning | hover
      · exact hclear ⟨req, r, hactive, hr, hrunning, hmem⟩
      · rw [hterm] at hover
        cases hover
    · have hnone := ((hok.coherent _ r hr).pending hpending).2.1
      refine ⟨r, hr, by simp [JobRecord.isTerminal, hpending], ?_⟩
      rw [hnone]
      exact Finset.notMem_empty w'

/-- `b` asks for its job again while the release of `a` is pending. -/
theorem fetch_unfinished_small : ∃ e ∈ (machine Small.env).trace Sys.init
    (Small.at0 (Small.delivered ++ [.fetchJob "b"])),
      e.act.act = .fetchJob "b" ∧ HandsUnfinished e := by
  have he := (machine Small.env).mem_trace Sys.init (Small.at0 Small.delivered) []
    (a := ⟨.fetchJob "b", Small.amb 0⟩) rfl
  refine ⟨_, he, rfl, ?_⟩
  refine (fetch_unfinished_iff ((machine Small.env).run_play Sys.init _) _ he "b" rfl).mpr ?_
  rintro ⟨req, r, _, _, _, hmem⟩
  have hsame : Task.resultRelease req "b" false ∈
      [Task.resultRelease (Small.report "a" true) "a" false] := hmem
  exact absurd (Task.resultRelease.inj (List.mem_singleton.mp hsame)).2.1 (by decide)

/-- `a` asks for a job between the two sections of its report: it gets the same job. -/
theorem fetch_finished : ¬ ∀ (s : Sys) (tr : Trace), (machine Small.env).Run Sys.init tr s →
    ∀ e ∈ tr, HandsUnfinished e := by
  intro hall
  have he := (machine Small.env).mem_trace Sys.init (Small.at0 Small.delivered) []
    (a := ⟨.fetchJob "a", Small.amb 0⟩) rfl
  obtain ⟨r, hr, _, hnone⟩ := hall _ _ ((machine Small.env).run_play Sys.init _) _ he "a" _ "j"
    rfl rfl
  have hdone : ∀ r ∈ (Small.play Small.delivered).job "j", "a" ∈ r.workerResults.keys := by
    decide
  exact hnone (hdone r hr)

end CvdBench.Master
