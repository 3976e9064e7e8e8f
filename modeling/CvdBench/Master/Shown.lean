import CvdBench.Foundation.Tally
import CvdBench.Master.Announce

/-!
What the watchers are shown of the workers: every event about a job lists the progress map
that the section stores, and only a report of the worker itself writes its entry.
-/

set_option autoImplicit false

namespace CvdBench.Master

open Foundation Proto

def RegistryCall.carried : RegistryCall → Option (JobId × JobEvent)
  | .broadcast id event | .subscribeWithSnapshot id event => some (id, event)
  | .terminate _ => none

def Carries (jobs : HashMap JobId JobRecord) (id : JobId) (event : JobEvent) : Prop :=
  ∃ (r : JobRecord) (order : HashOrder String),
    jobs.get? id = some r ∧ event.workerProgress = order.values r.latestProgress

/-- What a section does to the progress map of a record. -/
inductive Entry (c : Choice) (id : JobId) (r r' : JobRecord) : Prop where
  | kept : r'.latestProgress = r.latestProgress → Entry c id r r'
  | progress (req : ReportProgressRequest) (p : WorkerProgress) :
      c.act = .reportProgress req → req.jobId = id → req.progress = some p →
      r.isTerminal = false →
      r'.latestProgress = r.latestProgress.put p.workerId (admitProgress p) → Entry c id r r'
  | result (req : ReportResultRequest) (res : WorkerResult) :
      c.act = .reportResult req → req.jobId = id → req.result = some res →
      res.workerId ∉ r.workerResults.keys →
      r'.latestProgress = r.latestProgress.put res.workerId (finalProgress res) →
      Entry c id r r'

/-- Where the progress map of a record comes from. -/
inductive Stored (c : Choice) (id : JobId) (jobs : HashMap JobId JobRecord) (r' : JobRecord) :
    Prop where
  | fresh : jobs.get? id = none → r'.latestProgress = ∅ → Stored c id jobs r'
  | old (r : JobRecord) : jobs.get? id = some r → Entry c id r r' → Stored c id jobs r'

structure Shows (c : Choice) (m m' : MasterState) (rep : Option Reply) : Prop where
  stored : ∀ id r', m'.jobs.get? id = some r' → Stored c id m.jobs r'
  calls : ∃ calls, m'.subscribers = m.subscribers ++ calls ∧
    ∀ call ∈ calls, ∀ id event, call.carried = some (id, event) → Carries m'.jobs id event
  opened : ∀ id event, openedBy rep = some (id, event) → Carries m'.jobs id event

section

variable {c : Choice} {m m' : MasterState} {rep : Option Reply}

theorem Stored.same {id : JobId} {jobs : HashMap JobId JobRecord} {r : JobRecord}
    (hr : jobs.get? id = some r) : Stored c id jobs r := .old r hr (.kept rfl)

theorem Stored.put {id : JobId} {jobs : HashMap JobId JobRecord} {r : JobRecord}
    (h : Stored c id jobs r) (j : JobId) {r' : JobRecord}
    (hr' : (jobs.put id r).get? j = some r') : Stored c j jobs r' := by
  by_cases hj : j = id
  · subst hj
    rw [HashMap.get?_put_self, Option.some.injEq] at hr'
    subst hr'
    exact h
  · rw [HashMap.get?_put_ne _ _ hj] at hr'
    exact .same hr'

theorem Shows.silent (hlog : m'.subscribers = m.subscribers)
    (hstored : ∀ id r', m'.jobs.get? id = some r' → Stored c id m.jobs r')
    (hrep : openedBy rep = none) : Shows c m m' rep := by
  refine ⟨hstored, ⟨[], by rw [hlog, List.append_nil], by simp⟩, fun id event h => ?_⟩
  rw [hrep] at h
  cases h

theorem Shows.quiet (hlog : m'.subscribers = m.subscribers) (hjobs : m'.jobs = m.jobs)
    (hrep : openedBy rep = none) : Shows c m m' rep := by
  refine .silent hlog (fun id r' hr' => ?_) hrep
  rw [hjobs] at hr'
  exact .same hr'

theorem Shows.finalize {ids : List JobId} (hjobs : m'.jobs = m.jobs)
    (hlog : m'.subscribers = m.subscribers ++ ids.map .terminate) (hrep : openedBy rep = none) :
    Shows c m m' rep := by
  refine ⟨fun id r' hr' => ?_, ⟨_, hlog, fun call hcall id event hcarried => ?_⟩,
    fun id event h => ?_⟩
  · rw [hjobs] at hr'
    exact .same hr'
  · obtain ⟨id', _, rfl⟩ := List.mem_map.mp hcall
    cases hcarried
  · rw [hrep] at h
    cases h

theorem Shows.broadcast {id : JobId} {event : JobEvent} {r : JobRecord}
    (hjobs : m'.jobs = m.jobs.put id r)
    (hlog : m'.subscribers = m.subscribers ++ [.broadcast id event])
    (hevent : ∃ order : HashOrder String, event.workerProgress = order.values r.latestProgress)
    (hstored : Stored c id m.jobs r) (hrep : openedBy rep = none) : Shows c m m' rep := by
  obtain ⟨order, hevent⟩ := hevent
  refine ⟨fun j r' hr' => ?_, ⟨_, hlog, fun call hcall id' event' hcarried => ?_⟩,
    fun id event h => ?_⟩
  · rw [hjobs] at hr'
    exact hstored.put j hr'
  · rw [List.mem_singleton.mp hcall] at hcarried
    cases hcarried
    exact ⟨r, order, by rw [hjobs, HashMap.get?_put_self], hevent⟩
  · rw [hrep] at h
    cases h

theorem Shows.emit {m₁ : MasterState} (order : HashOrder String) (nowMs : Int) (kind : EventKind)
    {id : JobId} (r : JobRecord) (hid : r.jobId = id) (hlog : m₁.subscribers = m.subscribers)
    (hjobs : m₁.jobs.put id r = m.jobs.put id r) (hstored : Stored c id m.jobs r)
    (hrep : openedBy rep = none) :
    Shows c m ((m₁.emitForJob order nowMs r kind).setJob id r) rep := by
  have hevent : ∃ order' : HashOrder String,
      (m₁.buildEvent order nowMs r kind).workerProgress = order'.values r.latestProgress :=
    ⟨order, rfl⟩
  refine .broadcast hjobs ?_ hevent hstored hrep
  show m₁.subscribers ++ [.broadcast r.jobId _] = _
  rw [hlog, hid]

theorem Stored.closed {H : Type} {lib : Metrics.HdrLib H} {order : HashOrder String} {nowMs : Int}
    {id : JobId} {jobs : HashMap JobId JobRecord} {r : JobRecord} (h : Stored c id jobs r) :
    Stored c id jobs (r.closed lib order nowMs) := by
  have hkept : (r.closed lib order nowMs).latestProgress = r.latestProgress := rfl
  cases h with
  | fresh hnew hempty => exact .fresh hnew (hkept.trans hempty)
  | old r₀ hr₀ hentry =>
    refine .old r₀ hr₀ ?_
    cases hentry with
    | kept h => exact .kept (hkept.trans h)
    | progress req p hact hreq hp hlive h =>
      exact .progress req p hact hreq hp hlive (hkept.trans h)
    | result req res hact hreq hres hnew h =>
      exact .result req res hact hreq hres hnew (hkept.trans h)

theorem Shows.settles {H : Type} (lib : Metrics.HdrLib H) (amb : Ambient) (k : Nat) {id : JobId}
    {r : JobRecord} (hid : r.jobId = id) (hstored : Stored c id m.jobs r)
    (hrep : openedBy rep = none) : Shows c m (m.settle lib amb k id r) rep :=
  .emit (amb.order id) (amb.nowMs (k + 1)) .statusChange
    (r.closed lib (amb.order id) (amb.nowMs k)) hid rfl rfl hstored.closed hrep

end

section

variable {H : Type} {env : MasterEnv H} {c : Choice} {s : Sys}

variable (c s) in
def Outcome.Shows (o : Outcome) : Prop := Master.Shows c s.master o.state o.reply

theorem Outcome.Shows.answerSame {reply : Reply} (h : openedBy (some reply) = none) :
    (Outcome.answer s.master reply).Shows c s := .quiet rfl rfl h

theorem Outcome.Shows.continueSame {t : Task} : (Outcome.continue s.master t).Shows c s :=
  .quiet rfl rfl rfl

theorem Outcome.Shows.answerPut {id : JobId} {r r' : JobRecord} {reply : Reply}
    (hr : s.master.jobs.get? id = some r) (hentry : Entry c id r r')
    (h : openedBy (some reply) = none) :
    (Outcome.answer (s.master.setJob id r') reply).Shows c s :=
  .silent rfl (fun j _ => Stored.put (.old r hr hentry) j) h

theorem Outcome.Shows.continuePut {id : JobId} {r r' : JobRecord} {t : Task}
    (hr : s.master.jobs.get? id = some r) (hentry : Entry c id r r') :
    (Outcome.continue (s.master.setJob id r') t).Shows c s :=
  .silent rfl (fun j _ => Stored.put (.old r hr hentry) j) rfl

theorem Outcome.Shows.settles (k : Nat) {id : JobId} {r r' : JobRecord} {t : Task}
    (hid : r'.jobId = id) (hr : s.master.jobs.get? id = some r) (hentry : Entry c id r r') :
    (Outcome.continue (s.master.settle env.hdr c.amb k id r') t).Shows c s :=
  Master.Shows.settles env.hdr c.amb k hid (.old r hr hentry) rfl

theorem fillJob_shows {m : MasterState} {id : JobId} {r r₀ r₁ : JobRecord} {reply : Reply}
    (hid : r₁.jobId = id) (hlog : m.subscribers = s.master.subscribers)
    (hjobs : m.jobs = s.master.jobs.put id r₀) (hr : s.master.jobs.get? id = some r)
    (hkept : r₁.latestProgress = r.latestProgress) (h : openedBy (some reply) = none) :
    (fillJob env c.amb m id r₁ reply).Shows c s := by
  obtain ⟨cells, fileQueue, manifestHandle, started, heq⟩ :=
    startForFileQueueJob_spec env.config m (r₁.enterPreparing (c.amb.instant 1))
  have hid' : (r₁.enterPreparing (c.amb.instant 1)).jobId = id :=
    (enterPreparing_jobId ..).trans hid
  have hkept' : (r₁.enterPreparing (c.amb.instant 1)).latestProgress = r.latestProgress := by
    rw [← hkept, JobRecord.enterPreparing]
    split <;> rfl
  unfold fillJob
  simp only [heq]
  have hput : { m with cells }.jobs.put id
      { r₁.enterPreparing (c.amb.instant 1) with fileQueue, manifestHandle } =
        s.master.jobs.put id
          { r₁.enterPreparing (c.amb.instant 1) with fileQueue, manifestHandle } := by
    rw [hjobs, HashMap.put_put]
  have hlog' : { m with cells }.subscribers = s.master.subscribers := hlog
  have hstored : Stored c id s.master.jobs
      { r₁.enterPreparing (c.amb.instant 1) with fileQueue, manifestHandle } :=
    .old r hr (.kept hkept')
  have hshows := Master.Shows.emit (c.amb.order id) (c.amb.nowMs 1) .statusChange
    { r₁.enterPreparing (c.amb.instant 1) with fileQueue, manifestHandle } hid' hlog' hput
    hstored h
  exact ⟨hshows.stored, hshows.calls, hshows.opened⟩

theorem fetchJob_shows (hok : s.Ok) (w : WorkerId) :
    (fetchJob env c.amb s.master w).Shows c s := by
  have hrow := fetchJob_row env c.amb s.master hok.coherent w
  generalize fetchJob env c.amb s.master w = o at hrow ⊢
  cases hrow with
  | refused e => exact .answerSame rfl
  | replayed hrep => exact .answerPut (replay_eq_some.mp hrep).2.1 (.kept rfl) rfl
  | none hrep hall => exact .quiet rfl rfl rfl
  | @assigned skipped id rest r r₁ hslot hr hmore =>
    have hkept : r₁.latestProgress = r.latestProgress := by rw [hslot.slot]; rfl
    have hstored : Stored c id s.master.jobs r₁ := .old r hr (.kept hkept)
    exact .silent rfl (fun j r' hr' => hstored.put j hr') rfl
  | @filled skipped id rest r r₁ hslot hr hfull =>
    have hid : r₁.jobId = id := by rw [hslot.slot]; exact hok.keyed id r hr
    exact fillJob_shows hid rfl rfl hr (by rw [hslot.slot]; rfl) rfl

theorem reportReady_shows (hok : s.Ok) (req : ReportReadyRequest) :
    (reportReady env c.amb s.master req).Shows c s := by
  have hrow := reportReady_row env c.amb s.master req
  generalize reportReady env c.amb s.master req = o at hrow ⊢
  cases hrow with
  | refused e => exact .answerSame rfl
  | turnedAway cancelled unknownJob => exact .answerSame rfl
  | untimely reason hserves herr hs => exact .answerPut hserves.found (.kept rfl) rfl
  | @failed r reason hserves herr hs =>
    exact .settles 0 (hok.keyed _ r hserves.found) hserves.found (.kept rfl)
  | started hserves herr hopen heq =>
    subst heq
    have hid := hok.keyed _ _ hserves.found
    exact Master.Shows.emit _ _ _ _ hid rfl rfl (.old _ hserves.found (.kept rfl)) rfl
  | counted hserves herr hs hclosed => exact .answerPut hserves.found (.kept rfl) rfl
  | noted hserves herr hs => exact .answerPut hserves.found (.kept rfl) rfl

theorem fetchFileBatch_shows (req : FetchFileBatchRequest) :
    (fetchFileBatch c.amb s.master req).Shows c s := by
  have hrow := fetchFileBatch_row c.amb s.master req
  generalize fetchFileBatch c.amb s.master req = o at hrow ⊢
  cases hrow with
  | refused e => exact .answerSame rfl
  | unknown => exact .answerSame rfl
  | cancelled hr hmember hs => exact .answerPut hr (.kept rfl) rfl
  | drains hr hmember hs hcell => exact .continuePut hr (.kept rfl)

theorem reportProgress_shows (hok : s.Ok) {req : ReportProgressRequest}
    (hact : c.act = .reportProgress req) : (reportProgress c.amb s.master req).Shows c s := by
  have hrow := reportProgress_row c.amb s.master req
  generalize reportProgress c.amb s.master req = o at hrow ⊢
  cases hrow with
  | refused e => exact .answerSame rfl
  | unknown => exact .answerSame rfl
  | cancelled hp hr hs => exact .answerPut hr (.kept rfl) rfl
  | @recorded p r r₁ hp hserves heq =>
    subst heq
    have hid := hok.keyed _ _ hserves.found
    exact Master.Shows.emit _ _ _ _ hid rfl rfl
      (.old r hserves.found (.progress req p hact rfl hp hserves.live rfl)) rfl

theorem reportResult_shows (hok : s.Ok) {req : ReportResultRequest}
    (hact : c.act = .reportResult req) : (reportResult env c.amb s.master req).Shows c s := by
  have hrow := reportResult_row env c.amb s.master req
  generalize reportResult env c.amb s.master req = o at hrow ⊢
  cases hrow with
  | refused e => exact .answerSame rfl
  | unknown hres => exact .continueSame
  | again hres hr hmember hs hdup => exact .continuePut hr (.kept rfl)
  | @cancelled result r hres hr hmember hs hfresh =>
    exact .continuePut hr (.result req result hact rfl hres hfresh rfl)
  | @counted result r r₁ hres hr ht hsuccess hmore heq =>
    subst heq
    exact .continuePut hr (.result req result hact rfl hres ht.fresh rfl)
  | @settled result r r₀ r₁ hres hr ht he hresults hall heq =>
    subst heq
    exact .settles 0 (he.le.jobId.trans (hok.keyed _ _ hr)) hr
      (.result req result hact rfl hres ht.fresh rfl)

theorem deleteJob_shows (hok : s.Ok) (id : JobId) :
    (deleteJob env c.amb s.master id).Shows c s := by
  unfold deleteJob
  cases hr : s.master.jobs.get? id with
  | none => exact .answerSame rfl
  | some r =>
    simp only
    split
    · exact .answerSame rfl
    · exact .settles 0 (hok.keyed id r hr) hr (.kept rfl)

theorem watchJob_shows (id : JobId) : (watchJob c.amb s.master id).Shows c s := by
  unfold watchJob
  cases hr : s.master.jobs.get? id with
  | none => exact .answerSame rfl
  | some r =>
    have hcarries : Carries s.master.jobs id
        (s.master.buildEvent (c.amb.order id) (c.amb.nowMs 0) r .statusChange) :=
      ⟨r, c.amb.order id, hr, rfl⟩
    have hopened : ∀ id' event, openedBy (some (.watchJob id (.ok
        (s.master.buildEvent (c.amb.order id) (c.amb.nowMs 0) r .statusChange)))) =
          some (id', event) → Carries s.master.jobs id' event := by
      intro id' event h
      cases h
      exact hcarries
    simp only
    split
    · exact ⟨fun j r' hr' => .same hr', ⟨[], by simp [Outcome.answer, MasterState.nextEventSeq],
        by simp⟩, hopened⟩
    · refine ⟨fun j r' hr' => .same hr', ⟨_, rfl, fun call hcall id' event hcarried => ?_⟩,
        hopened⟩
      rw [List.mem_singleton.mp hcall] at hcarried
      cases hcarried
      exact hcarries

theorem startAction_shows (hok : s.Ok) {o : Outcome} (hnew : ∀ spec id, c.act ≠ .createJob spec id)
    (h : startAction env c.amb s.master c.act = some o) : o.Shows c s := by
  cases hact : c.act with
  | createJob spec id => exact absurd hact (hnew spec id)
  | resume | readerAct | readerFail | readerExit => rw [hact] at h; cases h
  | watchJob id => rw [hact] at h; cases h; exact watchJob_shows id
  | queryJob id =>
    rw [hact] at h
    cases h
    unfold queryJob
    split
    · exact .answerSame rfl
    · exact .answerSame rfl
  | deleteJob id => rw [hact] at h; cases h; exact deleteJob_shows hok id
  | listJobs req => rw [hact] at h; cases h; exact .answerSame rfl
  | fetchJob w => rw [hact] at h; cases h; exact fetchJob_shows hok w
  | reportReady req => rw [hact] at h; cases h; exact reportReady_shows hok req
  | fetchFileBatch req => rw [hact] at h; cases h; exact fetchFileBatch_shows req
  | reportProgress req => rw [hact] at h; cases h; exact reportProgress_shows hok hact
  | reportResult req => rw [hact] at h; cases h; exact reportResult_shows hok hact
  | staleTick => rw [hact] at h; cases h; exact .quiet rfl rfl rfl
  | gcTick => rw [hact] at h; cases h; exact .quiet rfl rfl rfl

end

/-- Events are sent, but every record keeps its progress map. -/
structure Keeps (m m' : MasterState) : Prop where
  progress : ∀ id, (m'.jobs.get? id).map (·.latestProgress) =
    (m.jobs.get? id).map (·.latestProgress)
  calls : ∃ calls, m'.subscribers = m.subscribers ++ calls ∧
    ∀ call ∈ calls, ∀ id event, call.carried = some (id, event) → Carries m'.jobs id event

theorem Carries.keeps {jobs jobs' : HashMap JobId JobRecord} {id : JobId} {event : JobEvent}
    (h : Carries jobs id event) (heq : (jobs'.get? id).map (·.latestProgress) =
      (jobs.get? id).map (·.latestProgress)) : Carries jobs' id event := by
  obtain ⟨r, order, hr, hevent⟩ := h
  rw [hr, Option.map_some, Option.map_eq_some_iff] at heq
  obtain ⟨r', hr', hsame⟩ := heq
  exact ⟨r', order, hr', by rw [hevent, hsame]⟩

theorem Keeps.refl (m : MasterState) : Keeps m m := ⟨fun _ => rfl, [], by simp, by simp⟩

theorem Keeps.trans {m m' m'' : MasterState} (h : Keeps m m') (h' : Keeps m' m'') :
    Keeps m m'' := by
  obtain ⟨calls, hlog, hall⟩ := h.calls
  obtain ⟨calls', hlog', hall'⟩ := h'.calls
  refine ⟨fun id => (h'.progress id).trans (h.progress id), calls ++ calls', ?_, ?_⟩
  · rw [hlog', hlog, List.append_assoc]
  · intro call hcall id event hcarried
    rcases List.mem_append.mp hcall with hcall | hcall
    · exact (hall call hcall id event hcarried).keeps (h'.progress id)
    · exact hall' call hcall id event hcarried

theorem Keeps.shows {c : Choice} {m m' : MasterState} {rep : Option Reply} (h : Keeps m m')
    (hrep : openedBy rep = none) : Shows c m m' rep := by
  refine ⟨fun id r' hr' => ?_, h.calls, fun id event hopen => ?_⟩
  · have hprogress := h.progress id
    rw [hr', Option.map_some, eq_comm, Option.map_eq_some_iff] at hprogress
    obtain ⟨r, hr, hsame⟩ := hprogress
    exact .old r hr (.kept hsame.symm)
  · rw [hrep] at hopen
    cases hopen

section

variable {H : Type} (env : MasterEnv H) (amb : Ambient) (now : Instant)

theorem tickRecord_keeps (k : Nat) {m : MasterState} (id : JobId)
    (hkeyed : ∀ id r, m.jobs.get? id = some r → r.jobId = id) :
    Keeps m (tickRecord env amb now k m id).1 := by
  unfold tickRecord
  split
  · exact .refl m
  · next r hr =>
    split
    · exact .refl m
    · split
      · exact .refl m
      · next reason _ =>
        have hshows : Shows ⟨.staleTick, amb⟩ m (m.settle env.hdr amb k id
            { r with status := .failed, error := some reason }) none :=
          .settles env.hdr amb k (hkeyed id r hr) (.old r hr (.kept rfl)) rfl
        refine ⟨fun j => ?_, hshows.calls⟩
        show ((m.settle env.hdr amb k id _).jobs.get? j).map _ = _
        rw [settle_jobs]
        by_cases hj : j = id
        · subst hj
          rw [HashMap.get?_put_self, hr]
          rfl
        · rw [HashMap.get?_put_ne _ _ hj]

theorem tickLoop_keeps (k : Nat) (m : MasterState) (ids : List JobId)
    (hkeyed : ∀ id r, m.jobs.get? id = some r → r.jobId = id) :
    Keeps m (tickLoop env amb now k m ids).1 := by
  induction ids generalizing k m with
  | nil => exact .refl m
  | cons id ids ih =>
    have hkeyed' := (tickRecord_spec env amb now k id hkeyed).keyed hkeyed
    exact (tickRecord_keeps env amb now k id hkeyed).trans (ih (k + 2) _ hkeyed')

end

section

variable {H : Type} {env : MasterEnv H} {c : Choice} {s : Sys}

theorem tickScan_shows (hok : s.Ok) (now : Instant) :
    (tickScanSection env c.amb s.master now).Shows c s := by
  have hkeeps := tickLoop_keeps env c.amb now 0 s.master
    ((c.amb.order "").keys s.master.jobs) hok.keyed
  unfold tickScanSection
  revert hkeeps
  generalize tickLoop env c.amb now 0 s.master ((c.amb.order "").keys s.master.jobs) = res
  obtain ⟨m', toClean⟩ := res
  intro hkeeps
  cases toClean with
  | nil => exact hkeeps.shows rfl
  | cons p rest => exact hkeeps.shows rfl

theorem run_shows (hok : s.Ok) {t : Task} {o : Outcome} (h : t.run env c.amb s.master = some o) :
    o.Shows c s := by
  have hend : ∀ (m' : MasterState) (id : JobId) (rep : Option Reply),
      m'.jobs = s.master.jobs → m'.subscribers = s.master.subscribers ++ [.terminate id] →
      openedBy rep = none → Master.Shows c s.master m' rep := by
    intro m' id rep hjobs hlog hrep
    have hids : m'.subscribers = s.master.subscribers ++ [id].map .terminate := hlog
    exact .finalize hjobs hids hrep
  cases t with
  | manifestReader => cases h
  | createPush | deleteRelease | readyRelease | resultRelease | manifestRelease =>
    cases h
    exact .quiet rfl rfl rfl
  | readyFinalize req => cases h; exact hend _ req.jobId _ rfl rfl rfl
  | resultFinalize req w => cases h; exact hend _ req.jobId _ rfl rfl rfl
  | manifestFinalize id => cases h; exact hend _ id _ rfl rfl rfl
  | deleteFinalize id wasPending workers =>
    cases h
    unfold deleteFinalizeSection
    simp only
    split
    · exact hend _ id _ rfl rfl rfl
    · obtain ⟨hstate, hrep⟩ := deleteRest_quiet (s.master.finalizeStream id) id workers
      exact hend _ id _ ((congrArg MasterState.jobs hstate).trans rfl)
        ((congrArg MasterState.subscribers hstate).trans rfl) hrep
  | deleteDequeue id workers =>
    cases h
    obtain ⟨hstate, hrep⟩ := deleteRest_quiet
      { s.master with pendingQueue := removePending s.master.pendingQueue id } id workers
    exact .quiet ((congrArg MasterState.subscribers hstate).trans rfl)
      ((congrArg MasterState.jobs hstate).trans rfl) hrep
  | tickScan now => cases h; exact tickScan_shows hok now
  | tickRelease toClean =>
    cases h
    obtain ⟨hjobs, _, hlog⟩ := releaseAll_other s.master toClean
    exact .quiet hlog hjobs rfl
  | tickFinalize ids =>
    cases h
    cases ids with
    | nil => exact .quiet rfl rfl rfl
    | cons id rest =>
      cases rest with
      | nil => exact hend _ id _ rfl rfl rfl
      | cons id' rest => exact hend _ id _ rfl rfl rfl
  | gcScan cutoffMs =>
    cases h
    unfold gcScanSection
    simp only
    split
    · exact .quiet rfl rfl rfl
    · exact .quiet rfl rfl rfl
  | gcRemove ids =>
    cases h
    refine .silent rfl (fun j r hr => ?_) rfl
    have hget : (s.master.jobs.removeAll ids).get? j = some r := hr
    rw [HashMap.get?_removeAll] at hget
    split at hget
    · cases hget
    · exact .same hget
  | batchDrain req cell batchSize =>
    cases h
    unfold batchDrainSection
    simp only
    split
    · exact .quiet rfl rfl rfl
    · exact .quiet rfl rfl rfl
  | batchAddPermits | batchIsEmpty => cases h; exact .quiet rfl rfl rfl
  | batchLoadDone req cell =>
    cases h
    unfold batchLoadDoneSection
    split
    · exact .quiet rfl rfl rfl
    · exact .quiet rfl rfl rfl

theorem readerFail_shows (hok : s.Ok) (id : JobId) (reason : String) :
    (failJobDueToManifest env c.amb s.master id reason).Shows c s := by
  unfold failJobDueToManifest
  cases hr : s.master.jobs.get? id with
  | none => exact .quiet rfl rfl rfl
  | some r =>
    simp only
    split
    · exact .quiet rfl rfl rfl
    · exact .settles 0 (hok.keyed id r hr) hr (.kept rfl)

theorem createJob_shows (spec : Option BenchSpec) {id : JobId}
    (hnew : s.master.jobs.get? id = none) :
    (createJob env c.amb s.master spec id).Shows c s := by
  unfold createJob
  cases hprep : prepareJob env c.amb spec id with
  | error e => exact .answerSame rfl
  | ok r =>
    obtain ⟨_, _, _, _, _, _, _, hr⟩ := prepareJob_ok hprep
    have hid : r.jobId = id := by rw [hr]; rfl
    have hempty : r.latestProgress = ∅ := by rw [hr]; rfl
    have hevent : ∃ order : HashOrder String, (((s.master.setJob id r).setCell id .fresh).buildEvent
        (c.amb.order id) (c.amb.nowMs 1) r .statusChange).workerProgress =
          order.values r.latestProgress := ⟨c.amb.order id, rfl⟩
    refine Master.Shows.broadcast rfl ?_ hevent (.fresh hnew hempty) rfl
    rw [← hid]
    rfl

theorem step_shows {s' : Sys} {rep : Option Reply} (hok : s.Ok)
    (h : s.step env c = some (s', rep)) : Shows c s.master s'.master rep := by
  cases Sys.step_cases h with
  | resume hact ht ho => exact run_shows hok ho
  | readerAct => exact .quiet rfl rfl rfl
  | @readerFail i reason id hact hid => exact readerFail_shows hok id reason
  | readerExit => exact .quiet rfl rfl rfl
  | created hact hissued =>
    refine createJob_shows _ (Option.eq_none_iff_forall_not_mem.mpr fun r hr => ?_)
    exact hissued (hok.issued _ r hr)
  | started hnew hold ho => exact startAction_shows hok hnew ho

end

end CvdBench.Master
