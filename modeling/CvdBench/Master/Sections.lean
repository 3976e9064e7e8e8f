import CvdBench.Master.Rows

/-!
Every section of every handler has one of the effects.
-/

set_option autoImplicit false

namespace CvdBench.Master

open Foundation Proto

theorem Tells.of_eq {m m' : MasterState} {ids : JobId → Prop}
    (h : m'.subscribers = m.subscribers) : Tells m m' ids :=
  ⟨[], by simp [h], by simp⟩

theorem Tells.quiet {m m' : MasterState} {ids : JobId → Prop} {calls : List RegistryCall}
    (h : m'.subscribers = m.subscribers ++ calls)
    (hq : ∀ id event, RegistryCall.broadcast id event ∉ calls) : Tells m m' ids :=
  ⟨calls, h, fun id event hmem => absurd hmem (hq id event)⟩

theorem Tells.one {m m' : MasterState} {ids : JobId → Prop} {id : JobId} {event : JobEvent}
    (h : m'.subscribers = m.subscribers ++ [.broadcast id event]) (hid : ids id) :
    Tells m m' ids := by
  refine ⟨_, h, ?_⟩
  intro id' event' hmem
  simp only [List.mem_singleton, RegistryCall.broadcast.injEq] at hmem
  rw [hmem.1]
  exact hid

theorem Tells.mono {m m' : MasterState} {ids ids' : JobId → Prop} (h : Tells m m' ids)
    (hsub : ∀ id, ids id → ids' id) : Tells m m' ids' := by
  obtain ⟨calls, hc, hall⟩ := h
  exact ⟨calls, hc, fun id event hmem => hsub id (hall id event hmem)⟩

theorem Tells.trans {m m' m'' : MasterState} {ids : JobId → Prop} (h : Tells m m' ids)
    (h' : Tells m' m'' ids) : Tells m m'' ids := by
  obtain ⟨calls, hc, hall⟩ := h
  obtain ⟨calls', hc', hall'⟩ := h'
  refine ⟨calls ++ calls', by rw [hc', hc, List.append_assoc], ?_⟩
  intro id event hmem
  rcases List.mem_append.mp hmem with hmem | hmem
  · exact hall id event hmem
  · exact hall' id event hmem

theorem Kept.refl (m : MasterState) : Kept m m := ⟨rfl, rfl⟩

section

variable {H : Type} (m : MasterState) (lib : Metrics.HdrLib H) (amb : Ambient) (k : Nat)
  (id : JobId) (r : JobRecord)

theorem settle_jobs : (m.settle lib amb k id r).jobs =
    m.jobs.put id (r.closed lib (amb.order id) (amb.nowMs k)) := rfl

theorem settle_kept : Kept m (m.settle lib amb k id r) := ⟨rfl, rfl⟩

theorem settle_tells : Tells m (m.settle lib amb k id r) (fun j => j = r.jobId) :=
  .one rfl rfl

end

theorem releaseAll_other (m : MasterState) (toClean : List (JobId × List WorkerId)) :
    (releaseAll m toClean).jobs = m.jobs ∧
      (releaseAll m toClean).pendingQueue = m.pendingQueue ∧
      (releaseAll m toClean).subscribers = m.subscribers := by
  induction toClean generalizing m with
  | nil => exact ⟨rfl, rfl, rfl⟩
  | cons p rest ih => exact ih (m.releaseWorkers p.1 p.2)

theorem get?_releaseAll (m : MasterState) (toClean : List (JobId × List WorkerId))
    (w : WorkerId) (id : JobId) :
    (releaseAll m toClean).workerActiveJobs.get? w = some id ↔
      m.workerActiveJobs.get? w = some id ∧ ∀ workers, (id, workers) ∈ toClean → w ∉ workers := by
  induction toClean generalizing m with
  | nil => simp [releaseAll]
  | cons p rest ih =>
    obtain ⟨id', ws⟩ := p
    rw [releaseAll, ih, MasterState.releaseWorkers, HashMap.get?_removeBound]
    by_cases hdrop : w ∈ ws ∧ m.workerActiveJobs.get? w = some id'
    · rw [if_pos hdrop]
      constructor
      · intro h; cases h.1
      · rintro ⟨hw, hall⟩
        rw [hdrop.2, Option.some.injEq] at hw
        subst hw
        exact absurd hdrop.1 (hall ws (by simp))
    · rw [if_neg hdrop]
      refine and_congr_right fun hw => ?_
      constructor
      · intro h workers hmem
        rcases List.mem_cons.mp hmem with heq | hmem
        · cases heq
          exact fun hin => hdrop ⟨hin, hw⟩
        · exact h workers hmem
      · exact fun h workers hmem => h workers (List.mem_cons_of_mem _ hmem)

theorem get?_releaseAll_none {m : MasterState} {toClean : List (JobId × List WorkerId)}
    {w : WorkerId} (h : m.workerActiveJobs.get? w = none) :
    (releaseAll m toClean).workerActiveJobs.get? w = none := by
  cases hg : (releaseAll m toClean).workerActiveJobs.get? w with
  | none => rfl
  | some id =>
    rw [get?_releaseAll, h] at hg
    cases hg.1

theorem Task.Follows.only {issued : Finset JobId} {jobs : HashMap JobId JobRecord} {t : Task}
    (h : t.Follows issued jobs) : ∀ t' ∈ [t], t'.Follows issued jobs := by
  intro t' ht'
  rw [List.mem_singleton.mp ht']
  exact h

section

variable {H : Type} {env : MasterEnv H} {c : Choice} {s : Sys}

theorem Section.start {o : Outcome} (h : Effect env c s.master none o)
    (hspawn : ∀ t ∈ o.spawn, t.Follows s.issued o.state.jobs) : Section env c s none o :=
  ⟨h, hspawn, by simp⟩

theorem Section.answerSame (reply : Reply) :
    Section env c s none (.answer s.master reply) :=
  .start (.idle rfl (.refl _) (.of_eq rfl)) (by simp [Outcome.answer])

theorem Section.answerNoted {id : JobId} {r : JobRecord} {reply : Reply}
    (seen : HashMap WorkerId Instant) (progress : HashMap WorkerId WorkerProgress)
    (hr : s.master.jobs.get? id = some r) :
    Section env c s none (.answer (s.master.setJob id (r.note seen progress)) reply) :=
  .start (.noted seen progress ⟨hr, rfl, .of_eq rfl⟩ ⟨rfl, rfl⟩) (by simp [Outcome.answer])

theorem fillJob_spec (amb : Ambient) (m : MasterState) {id : JobId} {r : JobRecord}
    (reply : Reply) (hid : (r.enterPreparing (amb.instant 1)).jobId = id) :
    ∃ fileQueue manifestHandle,
      (fillJob env amb m id r reply).state.jobs =
          m.jobs.put id (r.filled (amb.instant 1) fileQueue manifestHandle) ∧
        (fillJob env amb m id r reply).state.pendingQueue = popIfFront m.pendingQueue id ∧
        (fillJob env amb m id r reply).state.workerActiveJobs = m.workerActiveJobs ∧
        Tells m (fillJob env amb m id r reply).state (fun j => j = id) ∧
        ((fillJob env amb m id r reply).spawn = [] ∨
          (fillJob env amb m id r reply).spawn = [.manifestReader id]) := by
  obtain ⟨cells, fileQueue, manifestHandle, started, heq⟩ :=
    startForFileQueueJob_spec env.config m (r.enterPreparing (amb.instant 1))
  refine ⟨fileQueue, manifestHandle, ?_⟩
  unfold fillJob
  simp only [heq]
  refine ⟨rfl, rfl, rfl, .one rfl hid, ?_⟩
  cases started
  · exact .inl rfl
  · exact .inr rfl

theorem fetchJob_section (hok : s.Ok) {w : WorkerId} (hact : c.act = .fetchJob w) :
    Section env c s none (fetchJob env c.amb s.master w) := by
  have hrow := fetchJob_row env c.amb s.master hok.coherent w
  generalize fetchJob env c.amb s.master w = o at hrow ⊢
  cases hrow with
  | refused e => exact .answerSame _
  | replayed hrep => exact .answerNoted _ _ (replay_eq_some.mp hrep).2.1
  | none hrep hall =>
    exact .start (.fetchedNone w hact hrep hall rfl rfl rfl (.of_eq rfl) rfl)
      (by simp [Outcome.answer])
  | assigned hslot hr hmore =>
    exact .start (.assigned hact hslot hmore ⟨hr, rfl, .of_eq rfl⟩ rfl rfl rfl)
      (by simp [Outcome.answer])
  | @filled skipped id rest r r₁ hslot hr hfull =>
    have hterm : r.isTerminal = false := by simp [JobRecord.isTerminal, hslot.pending]
    have hid : r₁.jobId = id := by rw [hslot.slot]; exact hok.keyed id r hr
    obtain ⟨fileQueue, manifestHandle, hjobs, hqueue, hactive, htells, hspawn⟩ :=
      fillJob_spec c.amb
        { s.master with
          jobs := s.master.jobs.put id r₁
          pendingQueue := id :: rest
          workerActiveJobs := (s.master.workerActiveJobs.remove w).put w id }
        (.fetchJob w (.ok (fetchJobResponse id r₁ ⟨r.slotsFilled⟩ (c.amb.nowMs 0))))
        ((enterPreparing_jobId r₁ (c.amb.instant 1)).trans hid)
    have hjobs' := hjobs.trans (HashMap.put_put _ _ _ _)
    refine .start (.filled fileQueue manifestHandle hact hslot hfull
      ⟨hr, hjobs', htells.mono fun j hj => ⟨hj, hterm⟩⟩ ?_ hactive hspawn) ?_
    · rw [hqueue]
      simp [popIfFront]
    · intro t ht
      rcases hspawn with hspawn | hspawn
      · rw [hspawn] at ht
        cases ht
      · rw [hspawn, List.mem_singleton] at ht
        subst ht
        refine ⟨hok.issued id r hr, fun r' hr' => ?_⟩
        rw [hjobs', HashMap.get?_put_self, Option.some.injEq] at hr'
        subst hr'
        have hs₁ : r₁.status = .pending := by rw [hslot.slot]; exact hslot.pending
        rw [JobRecord.filled, JobRecord.enterPreparing_of_pending _ hs₁]
        exact JobStatus.noConfusion

theorem Dead.of_put {issued : Finset JobId} (jobs : HashMap JobId JobRecord) {id : JobId}
    {r : JobRecord} (hid : id ∈ issued) (hr : r.isTerminal = true) :
    Dead issued (jobs.put id r) id := by
  refine ⟨hid, fun r' hr' => ?_⟩
  rw [HashMap.get?_put_self, Option.some.injEq] at hr'
  exact hr' ▸ hr

variable (env) in
theorem Sys.Ok.settles (hok : s.Ok) {id : JobId} {r r₀ : JobRecord} (amb : Ambient) (k : Nat)
    (hr : s.master.jobs.get? id = some r) (he : r.Ends r₀)
    (seen : HashMap WorkerId Instant) (progress : HashMap WorkerId WorkerProgress) :
    Wrote s.master (s.master.settle env.hdr amb k id (r₀.note seen progress)) id r
        ((r₀.note seen progress).closed env.hdr (amb.order id) (amb.nowMs k)) ∧
      Dead s.issued (s.master.settle env.hdr amb k id (r₀.note seen progress)).jobs id := by
  have hid : r₀.jobId = id := he.le.jobId.trans (hok.keyed id r hr)
  have hterm : r.isTerminal = false := Bool.eq_false_iff.mpr he.edge.2.2
  refine ⟨⟨hr, settle_jobs .., (settle_tells ..).mono fun j hj => ⟨hj.trans hid, hterm⟩⟩, ?_⟩
  exact .of_put _ (hok.issued id r hr) he.edge.2.1

theorem Section.ends (hok : s.Ok) {cur : Option Task} {id : JobId} {r r₀ : JobRecord} {t : Task}
    (hr : s.master.jobs.get? id = some r) (he : r.Ends r₀)
    (hresults : r₀.workerResults = r.workerResults) (seen : HashMap WorkerId Instant)
    (progress : HashMap WorkerId WorkerProgress) (hack : t.acknowledged = true)
    (howes : ∀ w ∈ r.workerAssignments.keys, t.owes w id)
    (hnext : ∀ jobs, Dead s.issued jobs id → t.Follows s.issued jobs)
    (hfree : ∀ t' ∈ cur, t'.releases = []) :
    Section env c s cur
      (.continue (s.master.settle env.hdr c.amb 0 id (r₀.note seen progress)) t) := by
  obtain ⟨hwrote, hdead⟩ := hok.settles env c.amb 0 hr he seen progress
  refine ⟨.ended _ _ _ _ t he hresults hwrote (settle_kept ..) rfl hack howes,
    (hnext _ hdead).only, ?_⟩
  rintro t' ht' w id' ⟨workers, hmem, _⟩
  rw [hfree t' ht'] at hmem
  cases hmem

theorem readyFail_section (hok : s.Ok) {req : ReportReadyRequest} {r : JobRecord}
    (hr : s.master.jobs.get? req.jobId = some r) (hs : r.status = .preparing)
    (reason : String) :
    Section env c s none (readyFail env c.amb s.master req
      (r.touch req.workerId (c.amb.instant 0)) reason) := by
  refine .ends hok hr (.failed _ (.inl hs)) rfl _ _ rfl (fun w hw => ?_) (fun _ hdead => hdead)
    (by simp)
  exact ⟨_, List.mem_singleton.mpr rfl, HashOrder.mem_keys.mpr hw⟩

theorem reportReady_section (hok : s.Ok) {req : ReportReadyRequest}
    (hact : c.act = .reportReady req) :
    Section env c s none (reportReady env c.amb s.master req) := by
  have hrow := reportReady_row env c.amb s.master req
  generalize reportReady env c.amb s.master req = o at hrow ⊢
  cases hrow with
  | refused e => exact .answerSame _
  | turnedAway cancelled unknownJob => exact .answerSame _
  | untimely reason hserves herr hs => exact .answerNoted _ _ hserves.found
  | failed reason hserves herr hs => exact readyFail_section hok hserves.found hs reason
  | started hserves herr hopen heq =>
    subst heq
    have hid := hok.keyed _ _ hserves.found
    exact .start (.started req _ hact herr ⟨hserves.found, rfl, .one rfl ⟨hid, hserves.live⟩⟩
      ⟨rfl, rfl⟩ hserves.member hopen rfl) (by simp [Outcome.answer])
  | counted hserves herr hs hclosed =>
    exact .start (.readied req _ hact herr ⟨hserves.found, rfl, .of_eq rfl⟩ ⟨rfl, rfl⟩ hs
      hserves.member hclosed rfl) (by simp [Outcome.answer])
  | noted hserves herr hs => exact .answerNoted _ _ hserves.found

theorem fetchFileBatch_section {req : FetchFileBatchRequest} :
    Section env c s none (fetchFileBatch c.amb s.master req) := by
  have hrow := fetchFileBatch_row c.amb s.master req
  generalize fetchFileBatch c.amb s.master req = o at hrow ⊢
  cases hrow with
  | refused e => exact .answerSame _
  | unknown => exact .answerSame _
  | cancelled hr hmember hs => exact .answerNoted _ _ hr
  | drains hr hmember hs hcell =>
    exact .start (.noted _ _ ⟨hr, rfl, .of_eq rfl⟩ ⟨rfl, rfl⟩) (Task.Follows.only trivial)

theorem reportProgress_section (hok : s.Ok) {req : ReportProgressRequest} :
    Section env c s none (reportProgress c.amb s.master req) := by
  have hrow := reportProgress_row c.amb s.master req
  generalize reportProgress c.amb s.master req = o at hrow ⊢
  cases hrow with
  | refused e => exact .answerSame _
  | unknown => exact .answerSame _
  | cancelled hp hr hs => exact .answerNoted _ _ hr
  | recorded hp hserves heq =>
    subst heq
    have hid := hok.keyed _ _ hserves.found
    exact .start (.noted _ _ ⟨hserves.found, rfl, .one rfl ⟨hid, hserves.live⟩⟩ ⟨rfl, rfl⟩)
      (by simp [Outcome.answer])

theorem reported_of_put {issued : Finset JobId} (jobs : HashMap JobId JobRecord) {id : JobId}
    {w : WorkerId} {r : JobRecord} (hid : id ∈ issued)
    (hr : r.isTerminal = true ∨ w ∈ r.workerResults.keys) :
    Reported issued (jobs.put id r) w id := by
  refine ⟨hid, fun r' hr' => ?_⟩
  rw [HashMap.get?_put_self, Option.some.injEq] at hr'
  exact hr' ▸ hr

theorem Section.releaseNoted (hok : s.Ok) {req : ReportResultRequest} {w : WorkerId}
    {r : JobRecord} (seen : HashMap WorkerId Instant)
    (progress : HashMap WorkerId WorkerProgress)
    (hr : s.master.jobs.get? req.jobId = some r)
    (hdone : r.isTerminal = true ∨ w ∈ r.workerResults.keys) :
    Section env c s none (.continue (s.master.setJob req.jobId (r.note seen progress))
      (.resultRelease req w false)) := by
  refine .start (.noted _ _ ⟨hr, rfl, .of_eq rfl⟩ ⟨rfl, rfl⟩) ?_
  intro t ht
  rw [List.mem_singleton.mp ht]
  exact fun _ => reported_of_put _ (hok.issued _ _ hr) hdone

theorem Section.releaseUnknown (req : ReportResultRequest) (w : WorkerId) :
    Section env c s none (.continue s.master (.resultRelease req w true)) := by
  refine .start (.idle rfl (.refl _) (.of_eq rfl)) ?_
  intro t ht
  rw [List.mem_singleton.mp ht]
  exact fun h => Bool.noConfusion h

theorem reportResult_section (hok : s.Ok) {req : ReportResultRequest}
    (hact : c.act = .reportResult req) :
    Section env c s none (reportResult env c.amb s.master req) := by
  have hrow := reportResult_row env c.amb s.master req
  generalize reportResult env c.amb s.master req = o at hrow ⊢
  cases hrow with
  | refused e => exact .answerSame _
  | unknown hres => exact .releaseUnknown _ _
  | again hres hr hmember hs hdup => exact .releaseNoted hok _ _ hr (.inr hdup)
  | cancelled hres hr hmember hs hfresh =>
    exact .releaseNoted hok _ _ hr (.inl (JobRecord.isTerminal_iff.mpr (.inr (.inr hs))))
  | @counted result r r₁ hres hr ht hsuccess hmore heq =>
    subst heq
    refine .start (.resulted req result _ _ hact hres ⟨hr, rfl, .of_eq rfl⟩ ⟨rfl, rfl⟩ ht
      hsuccess hmore rfl) (Task.Follows.only ?_)
    refine fun _ => reported_of_put _ (hok.issued _ _ hr) (.inr ?_)
    simp [JobRecord.note, JobRecord.withResult]
  | @settled result r r₀ r₁ hres hr ht he hresults hall heq =>
    subst heq
    obtain ⟨hwrote, hdead⟩ := hok.settles env c.amb 0 hr he
      (r.workerLastSeen.put result.workerId (c.amb.instant 0))
      (r.latestProgress.put result.workerId (finalProgress result))
    have hnext : (Task.resultFinalize req result.workerId).Follows s.issued _ := hdead
    exact .start (.concluded req result _ _ _ _ hact hres ht he hresults hwrote
      (settle_kept ..) hall rfl) hnext.only

theorem deleteJob_section (hok : s.Ok) {id : JobId} :
    Section env c s none (deleteJob env c.amb s.master id) := by
  unfold deleteJob
  cases hr : s.master.jobs.get? id with
  | none => exact .answerSame _
  | some r =>
    by_cases hterm : r.isTerminal = true
    · simp only [hterm, if_true]
      exact .answerSame _
    · simp only [hterm, Bool.false_eq_true, if_false]
      have he : r.Ends _ := .cancelled (Bool.eq_false_iff.mpr hterm)
        (hok.coherent id r hr).specified
      refine .ends hok hr he rfl r.workerLastSeen r.latestProgress rfl (fun w hw => ?_)
        (fun _ hdead => hdead) (by simp)
      exact ⟨_, List.mem_singleton.mpr rfl, HashOrder.mem_keys.mpr hw⟩

theorem watchJob_section {id : JobId} : Section env c s none (watchJob c.amb s.master id) := by
  unfold watchJob
  cases s.master.jobs.get? id with
  | none => exact .answerSame _
  | some r =>
    refine .start (.idle ?_ ?_ ?_) (by simp [Outcome.answer])
    · show (if r.isTerminal = true then _ else _ : MasterState).jobs = _
      split <;> rfl
    · show Kept _ (if r.isTerminal = true then _ else _ : MasterState)
      split <;> exact ⟨rfl, rfl⟩
    · show Tells _ (if r.isTerminal = true then _ else _ : MasterState) _
      split
      · exact .of_eq rfl
      · exact .quiet rfl (by simp)

theorem queryJob_section {id : JobId} : Section env c s none (queryJob c.amb s.master id) := by
  unfold queryJob
  cases s.master.jobs.get? id with
  | none => exact .answerSame _
  | some r => exact .answerSame _

theorem Section.continueSame {t : Task} (h : t.Follows s.issued s.master.jobs) :
    Section env c s none (.continue s.master t) := by
  refine .start (.idle rfl (.refl _) (.of_eq rfl)) ?_
  intro t' ht'
  rw [List.mem_singleton.mp ht']
  exact h

theorem startAction_section (hok : s.Ok) {o : Outcome}
    (hnew : ∀ spec id, c.act ≠ .createJob spec id)
    (h : startAction env c.amb s.master c.act = some o) : Section env c s none o := by
  cases hact : c.act with
  | createJob spec id => exact absurd hact (hnew spec id)
  | resume | readerAct | readerFail | readerExit => rw [hact] at h; cases h
  | watchJob id => rw [hact] at h; cases h; exact watchJob_section
  | queryJob id => rw [hact] at h; cases h; exact queryJob_section
  | deleteJob id => rw [hact] at h; cases h; exact deleteJob_section hok
  | listJobs req => rw [hact] at h; cases h; exact .answerSame _
  | fetchJob w => rw [hact] at h; cases h; exact fetchJob_section hok hact
  | reportReady req => rw [hact] at h; cases h; exact reportReady_section hok hact
  | fetchFileBatch req => rw [hact] at h; cases h; exact fetchFileBatch_section
  | reportProgress req => rw [hact] at h; cases h; exact reportProgress_section hok
  | reportResult req => rw [hact] at h; cases h; exact reportResult_section hok hact
  | staleTick => rw [hact] at h; cases h; exact .continueSame trivial
  | gcTick => rw [hact] at h; cases h; exact .continueSame trivial

/-- What the loop over `ids` does: a record fails if and only if it is judged so. -/
structure Ticked (env : MasterEnv H) (amb : Ambient) (now : Instant) (ids : List JobId)
    (m m' : MasterState) (toClean : List (JobId × List WorkerId)) : Prop where
  kept : Kept m m'
  tells : Tells m m' fun id => ∃ r reason, m.jobs.get? id = some r ∧
    tickVerdict env amb now id r = some reason
  absent : ∀ id, m.jobs.get? id = none → m'.jobs.get? id = none
  spared : ∀ id r, m.jobs.get? id = some r →
    (id ∈ ids → tickVerdict env amb now id r = none) → m'.jobs.get? id = some r
  failed : ∀ id ∈ ids, ∀ r reason, m.jobs.get? id = some r →
    tickVerdict env amb now id r = some reason →
    (∃ order nowMs, m'.jobs.get? id =
        some ({ r with status := .failed, error := some reason }.closed env.hdr order nowMs)) ∧
      ∃ workers, (id, workers) ∈ toClean ∧ ∀ w ∈ r.workerAssignments.keys, w ∈ workers
  listed : ∀ p ∈ toClean, p.1 ∈ ids ∧ ∃ r, m'.jobs.get? p.1 = some r ∧ r.isTerminal = true

variable (env) in
theorem tickRecord_spec (amb : Ambient) (now : Instant) (k : Nat) {m : MasterState}
    (id : JobId) (hkeyed : ∀ id r, m.jobs.get? id = some r → r.jobId = id) :
    Ticked env amb now [id] m (tickRecord env amb now k m id).1
      (tickRecord env amb now k m id).2 := by
  have hsame : (∀ r, m.jobs.get? id = some r → tickVerdict env amb now id r = none) →
      Ticked env amb now [id] m m [] := fun hnone =>
    { kept := .refl m
      tells := .of_eq rfl
      absent := fun _ h => h
      spared := fun _ _ h _ => h
      failed := fun id' hid' r reason hr hv => by
        rw [List.mem_singleton.mp hid'] at hr hv
        rw [hnone r hr] at hv
        cases hv
      listed := fun p hp => by cases hp }
  unfold tickRecord
  cases hr : m.jobs.get? id with
  | none => exact hsame fun r hr' => by rw [hr] at hr'; cases hr'
  | some r =>
    by_cases hs : r.status = .preparing ∨ r.status = .running
    · have hs' : ¬ (r.status ≠ .preparing ∧ r.status ≠ .running) := by tauto
      simp only [hs', if_false]
      have hv : tickVerdict env amb now id r =
          tickReason env.config.scheduler (amb.order id) r now := by simp [tickVerdict, hs]
      cases hreason : tickReason env.config.scheduler (amb.order id) r now with
      | none =>
        refine hsame fun r' hr' => ?_
        rw [hr, Option.some.injEq] at hr'
        rw [← hr', hv, hreason]
      | some reason =>
        simp only
        have hjobs := settle_jobs m env.hdr amb k id
          { r with status := .failed, error := some reason }
        have htells := settle_tells m env.hdr amb k id
          { r with status := .failed, error := some reason }
        refine ⟨settle_kept .., htells.mono fun j hj => ?_, fun id' hid' => ?_,
          fun id' r' hr' hv' => ?_, fun id' hid' r' reason' hr' hv' => ?_, fun p hp => ?_⟩
        · rw [hj, show _ = id from hkeyed id r hr]
          exact ⟨r, reason, hr, hv.trans hreason⟩
        · have hne : id' ≠ id := by
            rintro rfl
            rw [hr] at hid'
            cases hid'
          rw [hjobs, HashMap.get?_put_ne _ _ hne, hid']
        · have hne : id' ≠ id := by
            rintro rfl
            rw [hr, Option.some.injEq] at hr'
            have := hv' (by simp)
            rw [← hr', hv, hreason] at this
            cases this
          rw [hjobs, HashMap.get?_put_ne _ _ hne, hr']
        · obtain rfl := List.mem_singleton.mp hid'
          rw [hr, Option.some.injEq] at hr'
          subst hr'
          rw [hv, hreason, Option.some.injEq] at hv'
          subst hv'
          refine ⟨⟨_, _, by rw [hjobs, HashMap.get?_put_self]⟩, _, List.mem_singleton.mpr rfl,
            fun w hw => HashOrder.mem_keys.mpr hw⟩
        · rw [List.mem_singleton.mp hp]
          refine ⟨List.mem_singleton.mpr rfl, _, by rw [hjobs, HashMap.get?_put_self], ?_⟩
          rfl
    · have hs' : r.status ≠ .preparing ∧ r.status ≠ .running := by tauto
      simp only [hs', ne_eq, not_false_eq_true, and_self, if_true]
      refine hsame fun r' hr' => ?_
      rw [hr, Option.some.injEq] at hr'
      rw [← hr', tickVerdict, if_neg hs]

theorem Ticked.append {amb : Ambient} {now : Instant} {id : JobId} {ids : List JobId}
    {m m' m'' : MasterState} {toClean toClean' : List (JobId × List WorkerId)}
    (h : Ticked env amb now [id] m m' toClean) (h' : Ticked env amb now ids m' m'' toClean')
    (hnew : id ∉ ids) : Ticked env amb now (id :: ids) m m'' (toClean ++ toClean') := by
  have hback : ∀ id' ∈ ids, ∀ r, m.jobs.get? id' = some r → m'.jobs.get? id' = some r := by
    intro id' hid' r hr
    refine h.spared id' r hr fun hmem => ?_
    rw [List.mem_singleton] at hmem
    subst hmem
    exact absurd hid' hnew
  refine ⟨⟨h'.kept.queue.trans h.kept.queue, h'.kept.active.trans h.kept.active⟩, ?_,
    fun id' hid' => h'.absent id' (h.absent id' hid'), fun id' r hr hv => ?_,
    fun id' hid' r reason hr hv => ?_, fun p hp => ?_⟩
  · refine h.tells.trans (h'.tells.mono ?_)
    rintro id' ⟨r, reason, hr, hv⟩
    cases hm : m.jobs.get? id' with
    | none => rw [h.absent id' hm] at hr; cases hr
    | some r₀ =>
      by_cases hmem : id' ∈ [id] → tickVerdict env amb now id' r₀ = none
      · rw [h.spared id' r₀ hm hmem, Option.some.injEq] at hr
        subst hr
        exact ⟨r₀, reason, rfl, hv⟩
      · push Not at hmem
        obtain ⟨_, hne⟩ := hmem
        obtain ⟨reason₀, hreason₀⟩ := Option.ne_none_iff_exists'.mp hne
        exact ⟨r₀, reason₀, rfl, hreason₀⟩
  · refine h'.spared id' r (h.spared id' r hr fun hmem => ?_) fun hmem => ?_
    · exact hv (List.mem_cons.mpr (.inl (List.mem_singleton.mp hmem)))
    · exact hv (List.mem_cons_of_mem _ hmem)
  · rcases List.mem_cons.mp hid' with rfl | hid'
    · obtain ⟨⟨order, nowMs, hr'⟩, workers, hmem, hall⟩ :=
        h.failed id' (List.mem_singleton.mpr rfl) r reason hr hv
      refine ⟨⟨order, nowMs, h'.spared _ _ hr' fun hmem => absurd hmem hnew⟩, workers,
        List.mem_append_left _ hmem, hall⟩
    · obtain ⟨hr', workers, hmem, hall⟩ := h'.failed id' hid' r reason (hback id' hid' r hr) hv
      exact ⟨hr', workers, List.mem_append_right _ hmem, hall⟩
  · rcases List.mem_append.mp hp with hp | hp
    · obtain ⟨hmem, r, hr, hterm⟩ := h.listed p hp
      rw [List.mem_singleton] at hmem
      refine ⟨List.mem_cons.mpr (.inl hmem), r, h'.spared _ _ hr fun hin => ?_, hterm⟩
      rw [hmem] at hin
      exact absurd hin hnew
    · obtain ⟨hmem, hr⟩ := h'.listed p hp
      exact ⟨List.mem_cons_of_mem _ hmem, hr⟩

theorem Ticked.keyed {amb : Ambient} {now : Instant} {id : JobId} {m m' : MasterState}
    {toClean : List (JobId × List WorkerId)} (h : Ticked env amb now [id] m m' toClean)
    (hkeyed : ∀ id r, m.jobs.get? id = some r → r.jobId = id) :
    ∀ id r, m'.jobs.get? id = some r → r.jobId = id := by
  intro id' r' hr'
  cases hm : m.jobs.get? id' with
  | none => rw [h.absent id' hm] at hr'; cases hr'
  | some r =>
    by_cases hmem : id' ∈ [id] → tickVerdict env amb now id' r = none
    · rw [h.spared id' r hm hmem, Option.some.injEq] at hr'
      exact hr' ▸ hkeyed id' r hm
    · push Not at hmem
      obtain ⟨hin, hne⟩ := hmem
      obtain ⟨reason, hreason⟩ := Option.ne_none_iff_exists'.mp hne
      obtain ⟨⟨order, nowMs, heq⟩, _⟩ := h.failed id' hin r reason hm hreason
      rw [heq, Option.some.injEq] at hr'
      exact hr' ▸ hkeyed id' r hm

variable (env) in
theorem tickLoop_spec (amb : Ambient) (now : Instant) (k : Nat) (m : MasterState)
    (ids : List JobId) (hnodup : ids.Nodup)
    (hkeyed : ∀ id r, m.jobs.get? id = some r → r.jobId = id) :
    Ticked env amb now ids m (tickLoop env amb now k m ids).1
      (tickLoop env amb now k m ids).2 := by
  induction ids generalizing k m with
  | nil =>
    refine ⟨.refl m, .of_eq rfl, fun _ h => h, fun _ _ h _ => h, ?_, ?_⟩
    · intro id hid
      cases hid
    · intro p hp
      cases hp
  | cons id ids ih =>
    obtain ⟨hnew, hrest⟩ := List.nodup_cons.mp hnodup
    have hhead := tickRecord_spec env amb now k id hkeyed
    have htail := ih (k + 2) (tickRecord env amb now k m id).1 hrest (hhead.keyed hkeyed)
    exact hhead.append htail hnew

theorem tickScan_section (hok : s.Ok) {now : Instant} :
    Section env c s (some (.tickScan now)) (tickScanSection env c.amb s.master now) := by
  have hspec := tickLoop_spec env c.amb now 0 s.master
    ((c.amb.order "").keys s.master.jobs) (HashOrder.nodup_keys _ _) hok.keyed
  have hall : ∀ id r, s.master.jobs.get? id = some r →
      id ∈ (c.amb.order "").keys s.master.jobs := fun id r hr =>
    HashOrder.mem_keys.mpr (HashMap.mem_keys_of_get? hr)
  have hdead : ∀ p ∈ (tickLoop env c.amb now 0 s.master
      ((c.amb.order "").keys s.master.jobs)).2, Dead s.issued (tickLoop env c.amb now 0 s.master
        ((c.amb.order "").keys s.master.jobs)).1.jobs p.1 := by
    intro p hp
    obtain ⟨hmem, r, hr, hterm⟩ := hspec.listed p hp
    obtain ⟨r₀, hr₀⟩ := HashMap.mem_keys_iff.mp (HashOrder.mem_keys.mp hmem)
    refine ⟨hok.issued _ _ hr₀, fun r' hr' => ?_⟩
    rw [hr, Option.some.injEq] at hr'
    exact hr' ▸ hterm
  unfold tickScanSection
  revert hspec hdead
  generalize tickLoop env c.amb now 0 s.master ((c.amb.order "").keys s.master.jobs) = res
  obtain ⟨m', toClean⟩ := res
  intro hspec hdead
  have heffect : ∀ o : Outcome, o.state = m' →
      (toClean = [] ∧ o.spawn = [] ∨ o.spawn = [.tickRelease toClean]) →
      Effect env c s.master (some (.tickScan now)) o := by
    rintro o rfl hspawn
    exact .ticked now toClean rfl hspec.kept
      (fun id r hr hv => hspec.spared id r hr fun _ => hv)
      (fun id r reason hr hv => (hspec.failed id (hall id r hr) r reason hr hv).1)
      hspec.absent
      (fun id r reason hr hv => (hspec.failed id (hall id r hr) r reason hr hv).2)
      hspec.tells hspawn
  cases toClean with
  | nil =>
    refine ⟨heffect _ rfl (.inl ⟨rfl, rfl⟩), by simp [Outcome.finish], ?_⟩
    rintro t ht w id ⟨workers, hmem, _⟩
    cases ht
    cases hmem
  | cons p rest =>
    refine ⟨heffect _ rfl (.inr rfl), ?_, ?_⟩
    · intro t ht
      rw [List.mem_singleton.mp ht]
      exact hdead
    · rintro t ht w id ⟨workers, hmem, _⟩
      cases ht
      cases hmem

theorem releaseAll_clears {m : MasterState} {t : Task} {w : WorkerId} {id : JobId}
    (h : t.owes w id) : (releaseAll m t.releases).workerActiveJobs.get? w ≠ some id := by
  obtain ⟨workers, hmem, hw⟩ := h
  intro hget
  exact ((get?_releaseAll ..).mp hget).2 workers hmem hw

theorem Section.releases {t : Task} {reply : Option Reply} {spawn : List Task}
    (hspawn : ∀ t ∈ spawn, t.Follows s.issued s.master.jobs) :
    Section env c s (some t) ⟨releaseAll s.master t.releases, reply, spawn⟩ := by
  obtain ⟨hjobs, hqueue, hsubs⟩ := releaseAll_other s.master t.releases
  refine ⟨.released t rfl hjobs hqueue rfl (.of_eq hsubs), ?_, ?_⟩
  · rw [hjobs]
    exact hspawn
  · intro t' ht' w id howes
    cases ht'
    exact .inl (releaseAll_clears howes)

theorem Section.idles {t : Task} {o : Outcome} (hjobs : o.state.jobs = s.master.jobs)
    (hkept : Kept s.master o.state) (htells : Tells s.master o.state (fun _ => False))
    (hspawn : ∀ t ∈ o.spawn, t.Follows s.issued s.master.jobs)
    (howes : ∀ w id, t.owes w id → ∃ t' ∈ o.spawn, t'.owes w id ∧ t'.acknowledged = true) :
    Section env c s (some t) o := by
  refine ⟨.idle hjobs hkept htells, ?_, ?_⟩
  · rw [hjobs]
    exact hspawn
  · intro t' ht' w id h
    cases ht'
    exact .inr (howes w id h)

theorem Task.not_owes {t : Task} (h : t.releases = []) {w : WorkerId} {id : JobId} :
    ¬ t.owes w id := by
  rintro ⟨workers, hmem, _⟩
  rw [h] at hmem
  cases hmem

theorem Section.idlesFree {t : Task} {o : Outcome} (hfree : t.releases = [])
    (hjobs : o.state.jobs = s.master.jobs) (hkept : Kept s.master o.state)
    (htells : Tells s.master o.state (fun _ => False))
    (hspawn : ∀ t ∈ o.spawn, t.Follows s.issued s.master.jobs) : Section env c s (some t) o :=
  .idles hjobs hkept htells hspawn fun _ _ h => absurd h (Task.not_owes hfree)

theorem finalizeStream_tells (m : MasterState) (id : JobId) :
    Tells m (m.finalizeStream id) (fun _ => False) := .quiet rfl (by simp)

theorem deleteRest_spec (m : MasterState) {issued : Finset JobId}
    {jobs : HashMap JobId JobRecord} {id : JobId} (workers : List WorkerId)
    (hdead : Dead issued jobs id) :
    (deleteRest m id workers).state = m ∧
      (∀ t ∈ (deleteRest m id workers).spawn, t.Follows issued jobs) ∧
      ∀ w, w ∈ workers → ∃ t ∈ (deleteRest m id workers).spawn,
        t.owes w id ∧ t.acknowledged = true := by
  cases workers with
  | nil => exact ⟨rfl, by simp [deleteRest, Outcome.answer], by simp⟩
  | cons w ws =>
    refine ⟨rfl, ?_, ?_⟩
    · intro t ht
      rw [List.mem_singleton.mp ht]
      exact hdead
    · intro w' hw'
      exact ⟨_, List.mem_singleton.mpr rfl, ⟨_, List.mem_singleton.mpr rfl, hw'⟩, rfl⟩

theorem deleteFinalize_section {id : JobId} {wasPending : Bool} {workers : List WorkerId}
    (hdead : Dead s.issued s.master.jobs id) :
    Section env c s (some (.deleteFinalize id wasPending workers))
      (deleteFinalizeSection s.master id wasPending workers) := by
  have howes : ∀ w id', (Task.deleteFinalize id wasPending workers).owes w id' →
      id' = id ∧ w ∈ workers := by
    rintro w id' ⟨ws, hmem, hw⟩
    cases List.mem_singleton.mp hmem
    exact ⟨rfl, hw⟩
  unfold deleteFinalizeSection
  cases wasPending with
  | true =>
    refine .idles rfl ⟨rfl, rfl⟩ (finalizeStream_tells ..) ?_ ?_
    · intro t ht
      rw [List.mem_singleton.mp ht]
      exact hdead
    · intro w id' h
      obtain ⟨rfl, hw⟩ := howes w id' h
      exact ⟨_, List.mem_singleton.mpr rfl, ⟨_, List.mem_singleton.mpr rfl, hw⟩, rfl⟩
  | false =>
    simp only [Bool.false_eq_true, if_false]
    obtain ⟨hstate, hspawn, hpass⟩ := deleteRest_spec (s.master.finalizeStream id) workers hdead
    refine .idles (by rw [hstate]; rfl) (by rw [hstate]; exact ⟨rfl, rfl⟩)
      (by rw [hstate]; exact finalizeStream_tells ..) hspawn ?_
    intro w id' h
    obtain ⟨rfl, hw⟩ := howes w id' h
    exact hpass w hw

theorem deleteDequeue_section {id : JobId} {workers : List WorkerId}
    (hdead : Dead s.issued s.master.jobs id) :
    Section env c s (some (.deleteDequeue id workers))
      (deleteDequeueSection s.master id workers) := by
  obtain ⟨hstate, hspawn, hpass⟩ := deleteRest_spec
    { s.master with pendingQueue := removePending s.master.pendingQueue id } workers hdead
  unfold deleteDequeueSection
  refine ⟨.dequeued id workers rfl (by rw [hstate]) (by rw [hstate]; rfl) (by rw [hstate])
    (by rw [hstate]; exact .of_eq rfl), by rw [hstate]; exact hspawn, ?_⟩
  rintro t ht w id' ⟨ws, hmem, hw⟩
  cases ht
  cases List.mem_singleton.mp hmem
  exact .inr (hpass w hw)

theorem gcScan_section (hok : s.Ok) {cutoffMs : Int} :
    Section env c s (some (.gcScan cutoffMs)) (gcScanSection c.amb s.master cutoffMs) := by
  have hdead : ∀ id ∈ ((c.amb.order "").keys s.master.jobs).filter (fun id =>
      (s.master.jobs.get? id).any (gcExpired cutoffMs)), Dead s.issued s.master.jobs id := by
    intro id hid
    obtain ⟨_, hany⟩ := List.mem_filter.mp hid
    cases hr : s.master.jobs.get? id with
    | none => simp [hr] at hany
    | some r =>
      simp only [hr, Option.any_some, gcExpired, Bool.and_eq_true] at hany
      refine ⟨hok.issued id r hr, fun r' hr' => ?_⟩
      rw [hr, Option.some.injEq] at hr'
      exact hr' ▸ hany.1
  unfold gcScanSection
  revert hdead
  generalize ((c.amb.order "").keys s.master.jobs).filter (fun id =>
      (s.master.jobs.get? id).any (gcExpired cutoffMs)) = toRemove
  intro hdead
  cases toRemove with
  | nil => exact .idlesFree rfl rfl (.refl _) (.of_eq rfl) (by simp [Outcome.finish])
  | cons id ids =>
    refine .idlesFree rfl rfl (.refl _) (.of_eq rfl) ?_
    intro t ht
    rw [List.mem_singleton.mp ht]
    exact hdead

theorem tickFinalize_section {ids : List JobId}
    (hdead : ∀ id ∈ ids, Dead s.issued s.master.jobs id) :
    Section env c s (some (.tickFinalize ids)) (tickFinalizeSection s.master ids) := by
  cases ids with
  | nil =>
    exact .idlesFree rfl rfl (.refl _) (.of_eq rfl)
      (by simp [tickFinalizeSection, Outcome.finish])
  | cons id rest =>
    cases rest with
    | nil =>
      exact .idlesFree rfl rfl ⟨rfl, rfl⟩ (finalizeStream_tells s.master id)
        (by simp [tickFinalizeSection, Outcome.finish])
    | cons id' rest =>
      refine .idlesFree rfl rfl ⟨rfl, rfl⟩ (finalizeStream_tells s.master id) ?_
      have htail : (Task.tickFinalize (id' :: rest)).Follows s.issued s.master.jobs :=
        fun j hj => hdead j (List.mem_cons_of_mem _ hj)
      exact htail.only

theorem resultFinalize_section {req : ReportResultRequest} {w : WorkerId}
    (hdead : Dead s.issued s.master.jobs req.jobId) :
    Section env c s (some (.resultFinalize req w)) (resultFinalizeSection s.master req w) := by
  refine .idles rfl ⟨rfl, rfl⟩ (finalizeStream_tells ..) ?_ ?_
  · intro t ht
    rw [List.mem_singleton.mp ht]
    exact fun _ => hdead.reported w
  · exact fun w' id h => ⟨_, List.mem_singleton.mpr rfl, h, rfl⟩

theorem run_section (hok : s.Ok) {t : Task} {o : Outcome}
    (ht : t.Ok s.issued s.master.jobs) (h : t.run env c.amb s.master = some o) :
    Section env c s (some t) o := by
  cases t with
  | manifestReader => cases h
  | createPush id =>
    cases h
    refine ⟨.pushed id rfl rfl rfl rfl (.of_eq rfl) rfl rfl, by simp [createPushSection,
      Outcome.answer], ?_⟩
    intro t ht w id h
    cases ht
    exact absurd h (Task.not_owes rfl)
  | deleteFinalize id wasPending workers => cases h; exact deleteFinalize_section ht
  | deleteDequeue id workers => cases h; exact deleteDequeue_section ht
  | deleteRelease id workers => cases h; exact .releases (by simp)
  | readyRelease req workers =>
    cases h
    have hnext : (Task.readyFinalize req).Follows s.issued s.master.jobs := ht
    exact .releases hnext.only
  | readyFinalize req =>
    cases h
    exact .idlesFree rfl rfl ⟨rfl, rfl⟩ (finalizeStream_tells ..)
      (by simp [readyFinalizeSection, Outcome.answer])
  | resultFinalize req w => cases h; exact resultFinalize_section ht
  | resultRelease req w unknownJob => cases h; exact .releases (by simp)
  | tickScan now => cases h; exact tickScan_section hok
  | tickRelease toClean =>
    cases h
    have hnext : (Task.tickFinalize (toClean.map (·.1))).Follows s.issued s.master.jobs := by
      intro id hid
      obtain ⟨p, hp, rfl⟩ := List.mem_map.mp hid
      exact ht p hp
    exact .releases hnext.only
  | tickFinalize ids => cases h; exact tickFinalize_section ht
  | gcScan cutoffMs => cases h; exact gcScan_section hok
  | gcRemove ids =>
    cases h
    refine ⟨.collected ids rfl rfl ⟨rfl, rfl⟩ (.of_eq rfl) rfl, by simp [gcRemoveSection,
      Outcome.finish], ?_⟩
    intro t ht w id h
    cases ht
    exact absurd h (Task.not_owes rfl)
  | manifestRelease id workers =>
    cases h
    have hnext : (Task.manifestFinalize id).Follows s.issued s.master.jobs := ht
    exact .releases hnext.only
  | manifestFinalize id =>
    cases h
    exact .idlesFree rfl rfl ⟨rfl, rfl⟩ (finalizeStream_tells ..)
      (by simp [manifestFinalizeSection, Outcome.finish])
  | batchDrain req cell batchSize =>
    cases h
    unfold batchDrainSection
    simp only
    generalize (s.master.cells cell).queue.drainUpTo batchSize = drained
    split
    · exact .idlesFree rfl rfl ⟨rfl, rfl⟩ (.of_eq rfl) (Task.Follows.only trivial)
    · exact .idlesFree rfl rfl ⟨rfl, rfl⟩ (.of_eq rfl) (Task.Follows.only trivial)
  | batchAddPermits req cell files =>
    cases h
    exact .idlesFree rfl rfl ⟨rfl, rfl⟩ (.of_eq rfl) (by simp [batchAddPermitsSection,
      Outcome.answer])
  | batchLoadDone req cell =>
    cases h
    unfold batchLoadDoneSection
    split
    · exact .idlesFree rfl rfl (.refl _) (.of_eq rfl) (Task.Follows.only trivial)
    · exact .idlesFree rfl rfl (.refl _) (.of_eq rfl) (by simp [Outcome.answer])
  | batchIsEmpty req cell =>
    cases h
    exact .idlesFree rfl rfl (.refl _) (.of_eq rfl) (by simp [batchIsEmptySection,
      Outcome.answer])

theorem readerFail_section (hok : s.Ok) {id : JobId} {reason : String}
    (ht : (Task.manifestReader id).Ok s.issued s.master.jobs) :
    Section env c s (some (.manifestReader id))
      (failJobDueToManifest env c.amb s.master id reason) := by
  unfold failJobDueToManifest
  cases hr : s.master.jobs.get? id with
  | none => exact .idlesFree rfl rfl (.refl _) (.of_eq rfl) (by simp [Outcome.finish])
  | some r =>
    by_cases hterm : r.isTerminal = true
    · simp only [hterm, if_true]
      exact .idlesFree rfl rfl (.refl _) (.of_eq rfl) (by simp [Outcome.finish])
    · simp only [hterm, Bool.false_eq_true, if_false]
      have hs : r.status = .preparing ∨ r.status = .running := by
        have hspec := (hok.coherent id r hr).specified
        have hpend := ht.2 r hr
        rw [JobRecord.isTerminal_iff] at hterm
        cases hstatus : r.status <;> simp_all
      refine .ends hok hr (.failed _ hs) rfl r.workerLastSeen r.latestProgress rfl
        (fun w hw => ?_) (fun _ hdead => hdead) (fun t' ht' => ?_)
      · exact ⟨_, List.mem_singleton.mpr rfl, HashOrder.mem_keys.mpr hw⟩
      · cases ht'
        rfl

end

end CvdBench.Master
