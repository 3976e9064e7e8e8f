import CvdBench.Properties.WorkSets
import CvdBench.Worker.Daemon

/-!
What lies behind the requests of a daemon: every one of them, and every result above all,
goes back to what the daemon has done for the job before.
-/

set_option autoImplicit false

namespace CvdBench.Worker

open Foundation Proto

def MainPc.prepared : MainPc → Bool
  | .preflight | .readyError _ | .readyErrorSent _ | .readyErrorSleep _ | .finished => false
  | _ => true

def MainPc.timed : MainPc → Bool
  | .waitStart => true
  | main => main.entered

def MainPc.outcome? : MainPc → Option RunnerOutcome
  | .cleanup outcome | .checkUnknown outcome | .buildResult outcome => some outcome
  | _ => none

def MainPc.reporting : MainPc → Bool
  | .attempt _ _ | .resultSent _ _ | .resultSleep _ _ => true
  | _ => false

/-- What a step can do to the main flow, as far as these go. -/
structure FlowStep (s s' : Assigned) (act : AssignedAct) : Prop where
  prepared : s'.main.prepared = true →
    s.main.prepared = true ∨ s.main = .preflight ∧ s'.main = .barrier
  timed : s'.main.timed = true → s.main.timed = true ∨
    ∃ res, s.main = .ready ∧ act = .main (.ready (.ok res)) ∧ s'.main = Assigned.readyAnswer res
  entered : s'.main.entered = true →
    s.main.entered = true ∨ s.main = .waitStart ∧ s'.main = .workload
  outcome : ∀ o, s'.main.outcome? = some o →
    s.main.outcome? = some o ∨ s.main = .workload ∧ s'.main = .cleanup o
  reporting : s'.main.reporting = true →
    s.main.reporting = true ∨ ∃ o, s.main = .buildResult o ∧ act = .main .run

section

variable {s s' : Assigned} {act : AssignedAct} {o : AssignedOut}

theorem FlowStep.same (h : s'.main = s.main) : FlowStep s s' act := by
  constructor
  all_goals simp only [h]
  all_goals grind

theorem FlowStep.off (hprepared : s'.main.prepared = false) : FlowStep s s' act := by
  constructor
  all_goals
    cases hs : s'.main <;> simp_all [MainPc.prepared, MainPc.timed, MainPc.entered,
      MainPc.outcome?, MainPc.reporting]

theorem readyAnswer_cases (res : ReportReadyResponse) :
    (Assigned.readyAnswer res = .reportCancelled ∨ Assigned.readyAnswer res = .storeUnknown ∨
      Assigned.readyAnswer res = .barrierSleep) ∨
    Assigned.readyAnswer res = .waitStart ∧ res.cancelled = false ∧ res.unknownJob = false ∧
      0 < res.startAtMs := by
  unfold Assigned.readyAnswer
  split
  · exact .inl (.inl rfl)
  · split
    · exact .inl (.inr (.inl rfl))
    · split
      · next hcancelled hunknown hstart =>
        exact .inr ⟨rfl, by simpa using hcancelled, by simpa using hunknown, hstart⟩
      · exact .inl (.inr (.inr rfl))

theorem flowStep_main {job : AssignedJob} {mact : MainAct}
    (h : s.MainMove job mact s' o) : FlowStep s s' (.main mact) := by
  cases h with
  | preflight calls hmain =>
    have hpost : (s.preflight job calls).main = .barrier ∨
        (s.preflight job calls).main = .readyError 0 := by
      unfold Assigned.preflight
      simp only
      split
      · exact .inl rfl
      · exact .inr rfl
    rcases hpost with hpost | hpost
    · constructor
      all_goals simp [hpost, hmain, MainPc.prepared, MainPc.timed, MainPc.entered,
        MainPc.outcome?, MainPc.reporting]
    · exact .off (by rw [hpost]; rfl)
  | readyError act s' o hstep =>
    obtain ⟨main, rfl, -, hpost, -⟩ := Assigned.stepReadyError_spec hstep
    rcases hpost with rfl | ⟨n, rfl | rfl | rfl⟩
    all_goals exact .off rfl
  | readyOk res hmain =>
    rcases readyAnswer_cases res with (hpost | hpost | hpost) | ⟨hpost, -⟩
    all_goals constructor
    all_goals simp [hpost, hmain, MainPc.prepared, MainPc.timed, MainPc.entered,
      MainPc.outcome?, MainPc.reporting]
  | resultOk n result res hmain =>
    constructor
    all_goals
      simp only [hmain]
      split <;> simp [MainPc.prepared, MainPc.timed, MainPc.entered, MainPc.outcome?,
        MainPc.reporting]
  | resultFailed n result err hmain =>
    constructor
    all_goals
      simp only [hmain]
      split <;> simp [MainPc.prepared, MainPc.timed, MainPc.entered, MainPc.outcome?,
        MainPc.reporting]
  | startWorkload hmain =>
    constructor
    all_goals simp [hmain, Assigned.startWorkload, MainPc.prepared, MainPc.timed, MainPc.entered,
      MainPc.outcome?, MainPc.reporting]
  | leaveCancelled hmain | askReady hmain | readyFailed err hmain | barrierAgain hmain
  | reportCancelled hmain | cancelledOk res hmain | cancelledFailed err hmain | storeUnknown hmain
  | returned outcome hmain | cleanup outcome succeeds hmain | skip outcome hmain
  | goOn outcome hmain | buildResult outcome hmain | giveUp n result hmain
  | send n result hmain | retry n result hmain | storeResultUnknown hmain =>
    constructor
    all_goals simp [hmain, MainPc.prepared, MainPc.timed, MainPc.entered, MainPc.outcome?,
      MainPc.reporting]

theorem flowStep {a : Assignment} (h : (assigned a).step s act = some (s', o)) :
    FlowStep s s' act := by
  cases a with
  | ignored => cases h
  | refused =>
    simp only [assigned] at h
    split at h
    · next mact =>
      obtain ⟨main, rfl, -, hpost, -⟩ := Assigned.stepReadyError_spec h
      rcases hpost with rfl | ⟨n, rfl | rfl | rfl⟩
      all_goals exact .off rfl
    · cases h
  | accepted job =>
    cases Assigned.step_move h with
    | main mact s' o hmove => exact flowStep_main hmove
    | preflightProgress | progress | fetcher | writeReturns | shutdown => exact .same rfl

end

section

variable (workerId : String) (e : DaemonEvent) (id : String)

def Assigns (a : Assignment) : Prop :=
  ∃ res, e.act.2 = some (.fetchJob workerId res) ∧ res.jobId = some id ∧ a = assignment workerId res

def Passes (main main' : MainPc) (job' : Working) : Prop :=
  ∃ job, e.pre.pc = .working job ∧ e.post.pc = .working job' ∧ job.jobId = id ∧
    job'.jobId = id ∧ job.state.main = main ∧ job'.state.main = main'

def Prepares : Prop := ∃ job', Passes e id .preflight .barrier job'

def StartsLoop (startAtMs : Int) : Prop :=
  ∃ job', Passes e id .waitStart .workload job' ∧ job'.startAtMs = startAtMs

def Returns (outcome : RunnerOutcome) : Prop :=
  ∃ job', Passes e id .workload (.cleanup outcome) job'

def HearsStart (startAtMs : Int) : Prop :=
  ∃ req res, e.act.2 = some (.reportReady req res) ∧ req.jobId = id ∧ req.workerId = workerId ∧
    req.error = none ∧ res.startAtMs = startAtMs

end

section

variable (workerId : String) (tr : List DaemonEvent)

/-- How the daemon came by a result: the job was cancelled at the barrier, or its hot loop has
ended. -/
inductive Account (id : String) : WorkerResult → Prop where
  | cancelled (nowMs : Int) : (∃ e ∈ tr, Prepares e id) →
      Account id (Working.buildResultNoMetrics workerId nowMs)
  | finished (job : AssignedJob) (startAtMs : Int) (load : Payload) (outcome : RunnerOutcome)
      (wasCancelled : Bool) : (∃ e ∈ tr, Assigns workerId e id (.accepted job)) →
      (∃ e ∈ tr, Prepares e id) → (∃ e ∈ tr, StartsLoop e id startAtMs) →
      (∃ e ∈ tr, Returns e id outcome) →
      Account id (Working.buildResult workerId job startAtMs load (outcome.result wasCancelled))

def Explained : Request → Prop
  | .fetchJob w => w = workerId
  | .reportReady req => req.workerId = workerId ∧
      (req.error = none → ∃ e ∈ tr, Prepares e req.jobId)
  | .fetchFileBatch req => req.workerId = workerId
  | .reportProgress req => req.progress.map (·.workerId) = some workerId
  | .reportResult req => ∃ result, req.result = some result ∧
      Account workerId tr req.jobId result

/-- What the job that the daemon works on goes back to. -/
structure Backed (job : Working) : Prop where
  assigned : ∃ e ∈ tr, Assigns workerId e job.jobId job.assignment
  prepared : job.state.main.prepared = true → ∃ e ∈ tr, Prepares e job.jobId
  timed : job.state.main.timed = true →
    0 < job.startAtMs ∧ ∃ e ∈ tr, HearsStart workerId e job.jobId job.startAtMs
  entered : job.state.main.entered = true → ∃ e ∈ tr, StartsLoop e job.jobId job.startAtMs
  outcome : ∀ o, job.state.main.outcome? = some o → ∃ e ∈ tr, Returns e job.jobId o
  result : job.state.main.reporting = true →
    ∃ result, job.result = some result ∧ Account workerId tr job.jobId result

structure Justified (d : Daemon) : Prop where
  working : ∀ job, d.pc = .working job → Backed workerId tr job
  sent : ∀ e ∈ tr, ∀ req ∈ e.out, Explained workerId tr req

end

section

variable {workerId : String} {tr : List DaemonEvent}

theorem exists_snoc {P : DaemonEvent → Prop} (h : ∃ e ∈ tr, P e) (e : DaemonEvent) :
    ∃ e' ∈ tr ++ [e], P e' := by
  obtain ⟨e', he', hP⟩ := h
  exact ⟨e', List.mem_append_left _ he', hP⟩

theorem exists_last {P : DaemonEvent → Prop} {e : DaemonEvent} (h : P e) :
    ∃ e' ∈ tr ++ [e], P e' :=
  ⟨e, List.mem_append_right _ (List.mem_singleton_self _), h⟩

theorem Account.snoc {id : String} {result : WorkerResult} (h : Account workerId tr id result)
    (e : DaemonEvent) : Account workerId (tr ++ [e]) id result := by
  cases h with
  | cancelled nowMs hprep => exact .cancelled nowMs (exists_snoc hprep e)
  | finished job startAtMs load outcome wasCancelled hjob hprep hstart hret =>
    exact .finished job startAtMs load outcome wasCancelled (exists_snoc hjob e)
      (exists_snoc hprep e) (exists_snoc hstart e) (exists_snoc hret e)

theorem Explained.snoc {req : Request} (h : Explained workerId tr req) (e : DaemonEvent) :
    Explained workerId (tr ++ [e]) req := by
  cases req with
  | reportReady req => exact ⟨h.1, fun herr => exists_snoc (h.2 herr) e⟩
  | reportResult req =>
    obtain ⟨result, hreq, haccount⟩ := h
    exact ⟨result, hreq, haccount.snoc e⟩
  | fetchJob | fetchFileBatch | reportProgress => exact h

theorem Backed.snoc {job : Working} (h : Backed workerId tr job) (e : DaemonEvent) :
    Backed workerId (tr ++ [e]) job where
  assigned := exists_snoc h.assigned e
  prepared hmain := exists_snoc (h.prepared hmain) e
  timed hmain := ⟨(h.timed hmain).1, exists_snoc (h.timed hmain).2 e⟩
  entered hmain := exists_snoc (h.entered hmain) e
  outcome o hmain := exists_snoc (h.outcome o hmain) e
  result hmain := by
    obtain ⟨result, hres, haccount⟩ := h.result hmain
    exact ⟨result, hres, haccount.snoc e⟩

theorem progressRequest_explained {load : Payload} {job : Working} {t : ProgressTask}
    {req : Request} (h : req ∈ job.progressRequest workerId load t) :
    Explained workerId tr req := by
  unfold Working.progressRequest at h
  split at h
  · split at h
    · cases h
    · rw [List.mem_singleton.mp h]
      rfl
  · cases h

theorem Backed.requests {load : Payload} {job : Working} (h : Backed workerId tr job)
    {a : AssignedAct} {req : Request} (hreq : req ∈ job.requests workerId load a) :
    Explained workerId tr req := by
  unfold Working.requests at hreq
  split at hreq
  · split at hreq
    · rw [List.mem_singleton.mp hreq]
      exact ⟨rfl, fun herr => nomatch herr⟩
    · next hmain =>
      split at hreq
      · cases hreq
      · rw [List.mem_singleton.mp hreq]
        exact ⟨rfl, fun _ => h.prepared (by rw [hmain]; rfl)⟩
    · next hmain =>
      rw [List.mem_singleton.mp hreq]
      exact ⟨_, rfl, .cancelled _ (h.prepared (by rw [hmain]; rfl))⟩
    · next hmain =>
      split at hreq
      · cases hreq
      · obtain ⟨result, hres, haccount⟩ := h.result (by rw [hmain]; rfl)
        rw [hres] at hreq
        obtain rfl := List.mem_singleton.mp hreq
        exact ⟨result, rfl, haccount⟩
    · cases hreq
  · exact progressRequest_explained hreq
  · exact progressRequest_explained hreq
  · split at hreq
    · split at hreq
      · cases hreq
      · rw [List.mem_singleton.mp hreq]
        rfl
    · cases hreq
  · cases hreq

theorem startAfter_same {job : Working} (a : AssignedAct) (h : job.state.main ≠ .ready) :
    job.startAfter a = job.startAtMs := by
  unfold Working.startAfter
  split
  · next res hmain => exact absurd hmain h
  · rfl

theorem resultAfter_same {load : Payload} {job : Working} (a : AssignedAct)
    (h : ∀ o, job.state.main ≠ .buildResult o) :
    job.resultAfter workerId load a = job.result := by
  unfold Working.resultAfter
  split
  · next o job hmain _ => exact absurd hmain (h o)
  · rfl

theorem heard_ready {job : Working} {c : Caller} {resp : Response} {res : ReportReadyResponse}
    (h : job.heard workerId c resp = some (.main (.ready (.ok res)))) :
    ∃ req, resp = .reportReady req res ∧ req.jobId = job.jobId ∧ req.workerId = workerId ∧
      req.error.isNone = job.state.main.isReady := by
  unfold Working.heard at h
  split at h
  case h_6 => cases h
  all_goals
    split at h
    · next hreq =>
      cases h
      try exact ⟨_, rfl, hreq⟩
    · cases h

theorem accepted_of_buildResult {a : Assignment} {s s' : Assigned} {act : AssignedAct}
    {o : AssignedOut} {outcome : RunnerOutcome} (h : (assigned a).step s act = some (s', o))
    (hmain : s.main = .buildResult outcome) : ∃ job, a = .accepted job := by
  cases a with
  | ignored => cases h
  | refused =>
    simp only [assigned] at h
    split at h
    · obtain ⟨_, _, ⟨n, hpre⟩, _⟩ := Assigned.stepReadyError_spec h
      rw [hmain] at hpre
      simp at hpre
    · cases h
  | accepted job => exact ⟨job, rfl⟩

theorem Backed.step {load : Payload} {job : Working} (h : Backed workerId tr job)
    {a : AssignedAct} {s' : Assigned} {o : AssignedOut} {e : DaemonEvent}
    (hstep : (Worker.assigned job.assignment).step job.state a = some (s', o))
    (hhears : a.hears = true → ∃ c res, e.act.2 = some res ∧ job.heard workerId c res = some a)
    {job' : Working} (hjob' : job' = { job with
      state := s'
      startAtMs := job.startAfter a
      result := job.resultAfter workerId load a })
    (hpre : e.pre.pc = .working job) (hpost : e.post.pc = .working job') :
    Backed workerId (tr ++ [e]) job' := by
  have hflow := flowStep hstep
  have hid : job'.jobId = job.jobId := by rw [hjob']
  have hstate : job'.state = s' := by rw [hjob']
  have hstart : job'.startAtMs = job.startAfter a := by rw [hjob']
  have hpasses : ∀ main main', job.state.main = main → s'.main = main' →
      Passes e job.jobId main main' job' :=
    fun main main' hm hm' => ⟨job, hpre, hpost, rfl, hid, hm, by rw [hstate, hm']⟩
  have hbefore := h.snoc e
  refine ⟨?_, fun hmain => ?_, fun hmain => ?_, fun hmain => ?_, fun out hmain => ?_,
    fun hmain => ?_⟩
  · rw [hid, hjob']
    exact hbefore.assigned
  · rw [hid]
    rw [hstate] at hmain
    rcases hflow.prepared hmain with hold | ⟨hpreflight, hbarrier⟩
    · exact hbefore.prepared hold
    · exact exists_last ⟨job', hpasses _ _ hpreflight hbarrier⟩
  · rw [hid, hstart]
    rw [hstate] at hmain
    rcases hflow.timed hmain with hold | ⟨res, hready, rfl, hanswer⟩
    · rw [startAfter_same a (by rintro hready; rw [hready] at hold; cases hold)]
      exact hbefore.timed hold
    · -- the answer carried a start instant
      have hwait : res.cancelled = false ∧ res.unknownJob = false ∧ 0 < res.startAtMs := by
        rcases readyAnswer_cases res with (hpost | hpost | hpost) | ⟨-, hres⟩
        · rw [hanswer, hpost] at hmain
          cases hmain
        · rw [hanswer, hpost] at hmain
          cases hmain
        · rw [hanswer, hpost] at hmain
          cases hmain
        · exact hres
      have hstartAt : job.startAfter (.main (.ready (.ok res))) = res.startAtMs := by
        unfold Working.startAfter
        simp [hready, hwait.1, hwait.2.1, hwait.2.2]
      obtain ⟨c, resp, hresp, hheard⟩ := hhears rfl
      obtain ⟨req, rfl, hreqId, hreqWorker, hnone⟩ := heard_ready hheard
      have herr : req.error = none := by
        rw [hready] at hnone
        exact Option.isNone_iff_eq_none.mp hnone
      rw [hstartAt]
      exact ⟨hwait.2.2, exists_last ⟨req, res, hresp, hreqId, hreqWorker, herr, rfl⟩⟩
  · rw [hid, hstart]
    rw [hstate] at hmain
    rcases hflow.entered hmain with hold | ⟨hwait, hloop⟩
    · rw [startAfter_same a (by rintro hready; rw [hready] at hold; cases hold)]
      exact hbefore.entered hold
    · rw [startAfter_same a (by rw [hwait]; simp)]
      refine exists_last ⟨job', hpasses _ _ hwait hloop, ?_⟩
      rw [hstart, startAfter_same a (by rw [hwait]; simp)]
  · rw [hid]
    rw [hstate] at hmain
    rcases hflow.outcome out hmain with hold | ⟨hwork, hclean⟩
    · exact hbefore.outcome out hold
    · exact exists_last ⟨job', hpasses _ _ hwork hclean⟩
  · rw [hid]
    rw [hstate] at hmain
    rcases hflow.reporting hmain with hold | ⟨outcome, hbuild, rfl⟩
    · have hsame : job'.result = job.result := by
        rw [hjob']
        exact resultAfter_same a fun o heq => by rw [heq] at hold; cases hold
      rw [hsame]
      exact hbefore.result hold
    · obtain ⟨accepted, hacc⟩ := accepted_of_buildResult hstep hbuild
      have hentered : job.state.main.entered = true := by rw [hbuild]; rfl
      have hbuilt : job'.result = some (Working.buildResult workerId accepted job.startAtMs load
          (outcome.result job.state.cancelled)) := by
        rw [hjob']
        simp [Working.resultAfter, hbuild, hacc]
      refine ⟨_, hbuilt, .finished accepted job.startAtMs load outcome _ ?_ ?_ ?_ ?_⟩
      · rw [← hacc]
        exact hbefore.assigned
      · exact hbefore.prepared (by rw [hbuild]; rfl)
      · exact hbefore.entered hentered
      · exact hbefore.outcome outcome (by rw [hbuild]; rfl)

theorem init_main (a : Assignment) : (assigned a).init.main.prepared = false := by
  cases a <;> rfl

theorem Backed.start {id : String} {a : Assignment} (h : ∃ e ∈ tr, Assigns workerId e id a) :
    Backed workerId tr (.start id a) := by
  have hmain : (Working.start id a).state.main.prepared = false := init_main a
  refine ⟨h, fun hp => ?_, fun ht => ?_, fun he => ?_, fun o ho => ?_, fun hr => ?_⟩
  · rw [hmain] at hp
    cases hp
  all_goals
    cases a with
    | ignored => first | cases ht | cases he | cases ho | cases hr
    | refused => first | cases ht | cases he | cases ho | cases hr
    | accepted job => first | cases ht | cases he | cases ho | cases hr

theorem Justified.snoc {d d' : Daemon} {act : DaemonAct × Option Response} {out : List Request}
    (h : Justified workerId tr d)
    (hworking : ∀ job, d'.pc = .working job → Backed workerId (tr ++ [⟨d, act, out, d'⟩]) job)
    (hout : ∀ req ∈ out, Explained workerId tr req) :
    Justified workerId (tr ++ [⟨d, act, out, d'⟩]) d' := by
  refine ⟨hworking, fun e he req hreq => ?_⟩
  rcases List.mem_append.mp he with he | he
  · exact (h.sent e he req hreq).snoc _
  · rw [List.mem_singleton.mp he] at hreq
    exact (hout req hreq).snoc _

theorem Daemon.Move.justified {d d' : Daemon} {act : DaemonAct × Option Response}
    {out : List Request} (hmove : Daemon.Move workerId d act d' out)
    (h : Justified workerId tr d) : Justified workerId (tr ++ [⟨d, act, out, d'⟩]) d' := by
  cases hmove with
  | signal => exact h.snoc (fun job hpc => (h.working job hpc).snoc _) (by simp)
  | stop | ended | idle | failed | wake => exact h.snoc (by simp) (by simp)
  | fetch =>
    refine h.snoc (by simp) fun req hreq => ?_
    rw [List.mem_singleton.mp hreq]
    rfl
  | assigned res jobId hpc hid =>
    refine h.snoc (fun job hjob => ?_) (by simp)
    obtain rfl := DaemonPc.working.inj hjob
    exact .start (exists_last ⟨res, rfl, hid, rfl⟩)
  | job dact heard load job a s' o hpc hstep hhears hshutdown =>
    refine h.snoc (fun job' hjob' => ?_) fun req hreq => (h.working job hpc).requests hreq
    obtain rfl := DaemonPc.working.inj hjob'
    exact (h.working job hpc).step hstep hhears rfl hpc rfl

/-- In every run of a daemon, everything it has sent goes back to what it did before. -/
theorem daemon_justified {d : Daemon}
    (h : (daemon workerId).Run (daemon workerId).init tr d) : Justified workerId tr d := by
  refine Machine.Run.history (P := Justified workerId) h ⟨?_, by simp⟩ ?_
  · rintro job ⟨⟩
  · intro tr d act d' out _ hjust hstep
    exact (Daemon.step_move hstep).justified hjust

end

end CvdBench.Worker
