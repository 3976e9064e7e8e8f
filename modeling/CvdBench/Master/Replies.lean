import CvdBench.Master.Invariant

/-!
Which section gives which answer: an answer of an RPC comes from a section of that RPC.
-/

set_option autoImplicit false

namespace CvdBench.Master

open Foundation Proto

inductive Rpc where
  | createJob | watchJob | queryJob | deleteJob | listJobs
  | fetchJob | reportReady | fetchFileBatch | reportProgress | reportResult
  deriving DecidableEq, Repr

def Reply.rpc : Reply → Rpc
  | .createJob _ => .createJob
  | .watchJob .. => .watchJob
  | .queryJob .. => .queryJob
  | .deleteJob .. => .deleteJob
  | .listJobs .. => .listJobs
  | .fetchJob .. => .fetchJob
  | .reportReady .. => .reportReady
  | .fetchFileBatch .. => .fetchFileBatch
  | .reportProgress .. => .reportProgress
  | .reportResult .. => .reportResult

def Action.rpc? : Action → Option Rpc
  | .createJob .. => some .createJob
  | .watchJob _ => some .watchJob
  | .queryJob _ => some .queryJob
  | .deleteJob _ => some .deleteJob
  | .listJobs _ => some .listJobs
  | .fetchJob _ => some .fetchJob
  | .reportReady _ => some .reportReady
  | .fetchFileBatch _ => some .fetchFileBatch
  | .reportProgress _ => some .reportProgress
  | .reportResult _ => some .reportResult
  | .staleTick | .gcTick | .resume _ | .readerAct .. | .readerFail .. | .readerExit _ => none

def Task.rpc? : Task → Option Rpc
  | .createPush _ => some .createJob
  | .deleteFinalize .. | .deleteDequeue .. | .deleteRelease .. => some .deleteJob
  | .readyRelease .. | .readyFinalize _ => some .reportReady
  | .resultFinalize .. | .resultRelease .. => some .reportResult
  | .batchDrain .. | .batchAddPermits .. | .batchLoadDone .. | .batchIsEmpty .. =>
      some .fetchFileBatch
  | .tickScan _ | .tickRelease _ | .tickFinalize _ | .gcScan _ | .gcRemove _
  | .manifestReader _ | .manifestRelease .. | .manifestFinalize _ => none

def Outcome.Answers (o : Outcome) (k : Option Rpc) : Prop :=
  ∀ rep, o.reply = some rep → k = some rep.rpc

theorem Outcome.Answers.answer (m : MasterState) (rep : Reply) :
    (Outcome.answer m rep).Answers (some rep.rpc) := by
  intro rep' h
  cases h
  rfl

theorem Outcome.Answers.silent {o : Outcome} (h : o.reply = none) (k : Option Rpc) :
    o.Answers k := by
  intro rep' hrep
  rw [h] at hrep
  cases hrep

theorem Outcome.Answers.continue (m : MasterState) (t : Task) (k : Option Rpc) :
    (Outcome.continue m t).Answers k := .silent rfl k

theorem Outcome.Answers.requireValid {w : WorkerId} {m : MasterState} {refuse : Status → Reply}
    {handler : Outcome} {k : Rpc} (hrefuse : ∀ e, (refuse e).rpc = k)
    (h : handler.Answers (some k)) :
    (requireValidWorkerId w m refuse handler).Answers (some k) := by
  unfold requireValidWorkerId
  split
  · next e _ => exact hrefuse (.workerId e) ▸ .answer m _
  · exact h

section

variable {H : Type} (env : MasterEnv H) (amb : Ambient) (m : MasterState)

theorem fetchJob_answers (w : WorkerId) :
    (fetchJob env amb m w).Answers (some .fetchJob) := by
  refine .requireValid (fun _ => rfl) ?_
  unfold fetchJobSection
  split
  · exact .answer _ _
  · simp only
    split
    · exact .answer _ _
    · split
      · unfold fillJob
        intro rep h
        cases h
        rfl
      · exact .answer _ _

theorem reportReady_answers (req : ReportReadyRequest) :
    (reportReady env amb m req).Answers (some .reportReady) := by
  have hrow := reportReady_row env amb m req
  generalize reportReady env amb m req = o at hrow ⊢
  cases hrow with
  | failed => exact .continue _ _ _
  | _ => exact .answer _ _

theorem fetchFileBatch_answers (req : FetchFileBatchRequest) :
    (fetchFileBatch amb m req).Answers (some .fetchFileBatch) := by
  have hrow := fetchFileBatch_row amb m req
  generalize fetchFileBatch amb m req = o at hrow ⊢
  cases hrow with
  | drains => exact .continue _ _ _
  | _ => exact .answer _ _

theorem reportProgress_answers (req : ReportProgressRequest) :
    (reportProgress amb m req).Answers (some .reportProgress) := by
  have hrow := reportProgress_row amb m req
  generalize reportProgress amb m req = o at hrow ⊢
  cases hrow with
  | _ => exact .answer _ _

theorem reportResult_answers (req : ReportResultRequest) :
    (reportResult env amb m req).Answers (some .reportResult) := by
  have hrow := reportResult_row env amb m req
  generalize reportResult env amb m req = o at hrow ⊢
  cases hrow with
  | refused => exact .answer _ _
  | _ => exact .continue _ _ _

theorem createJob_answers (spec : Option BenchSpec) (id : JobId) :
    (createJob env amb m spec id).Answers (some .createJob) ∧
      ∀ res, (createJob env amb m spec id).reply ≠ some (.createJob (.ok res)) := by
  unfold createJob
  split
  · exact ⟨.answer _ _, by simp [Outcome.answer]⟩
  · exact ⟨.continue _ _ _, by simp [Outcome.continue]⟩

theorem deleteRest_answers (id : JobId) (workers : List WorkerId) :
    (deleteRest m id workers).Answers (some .deleteJob) := by
  cases workers with
  | nil => exact .answer _ _
  | cons w ws => exact .continue _ _ _

theorem startAction_answers {a : Action} {o : Outcome} (h : startAction env amb m a = some o) :
    o.Answers a.rpc? := by
  cases a with
  | createJob spec id => cases h; exact (createJob_answers env amb m spec id).1
  | watchJob id =>
    cases h
    unfold watchJob
    split <;> exact .answer _ _
  | queryJob id =>
    cases h
    unfold queryJob
    split <;> exact .answer _ _
  | deleteJob id =>
    cases h
    unfold deleteJob
    split
    · exact .answer _ _
    · split
      · exact .answer _ _
      · exact .continue _ _ _
  | listJobs req => cases h; exact .answer _ _
  | fetchJob w => cases h; exact fetchJob_answers env amb m w
  | reportReady req => cases h; exact reportReady_answers env amb m req
  | fetchFileBatch req => cases h; exact fetchFileBatch_answers amb m req
  | reportProgress req => cases h; exact reportProgress_answers amb m req
  | reportResult req => cases h; exact reportResult_answers env amb m req
  | staleTick => cases h; exact .continue _ _ _
  | gcTick => cases h; exact .continue _ _ _
  | resume | readerAct | readerFail | readerExit => cases h

theorem run_answers {t : Task} {o : Outcome} (h : t.run env amb m = some o) :
    o.Answers t.rpc? := by
  cases t with
  | createPush id => cases h; exact .answer _ _
  | deleteFinalize id wasPending workers =>
    cases h
    cases wasPending with
    | true => exact .continue _ _ _
    | false => exact deleteRest_answers _ id workers
  | deleteDequeue id workers => cases h; exact deleteRest_answers _ id workers
  | deleteRelease | readyFinalize | resultRelease | batchAddPermits | batchIsEmpty =>
    cases h; exact .answer _ _
  | readyRelease | resultFinalize | tickRelease | manifestRelease =>
    cases h; exact .continue _ _ _
  | tickScan now =>
    cases h
    unfold tickScanSection
    split
    · exact .silent rfl _
    · exact .continue _ _ _
  | tickFinalize ids =>
    cases h
    unfold tickFinalizeSection
    split <;> exact .silent rfl _
  | gcScan cutoffMs =>
    cases h
    unfold gcScanSection
    simp only
    split <;> exact .silent rfl _
  | gcRemove | manifestFinalize => cases h; exact .silent rfl _
  | manifestReader => cases h
  | batchDrain req cell batchSize =>
    cases h
    unfold batchDrainSection
    simp only
    split <;> exact .continue _ _ _
  | batchLoadDone req cell =>
    cases h
    unfold batchLoadDoneSection
    split
    · exact .continue _ _ _
    · exact .answer _ _

end

theorem step_reply {H : Type} {env : MasterEnv H} {s s' : Sys} {c : Choice} {rep : Reply}
    (h : s.step env c = some (s', some rep)) :
    c.act.rpc? = some rep.rpc ∨ ∃ i t, c.act = .resume i ∧ s.inflight[i]? = some t ∧
      t.rpc? = some rep.rpc ∧ (t.run env c.amb s.master).bind (·.reply) = some rep := by
  have hcases := Sys.step_cases h
  generalize hres : (s', some rep) = res at hcases
  have hsnd := congrArg Prod.snd hres
  cases hcases with
  | @resume i t o hact ht ho =>
    have hrep : o.reply = some rep := hsnd.symm
    refine .inr ⟨i, t, hact, ht, run_answers env c.amb s.master ho rep hrep, ?_⟩
    rw [ho, Option.bind_some, hrep]
  | readerAct => cases hsnd
  | @readerFail i reason id =>
    have hrep : (failJobDueToManifest env c.amb s.master id reason).reply = some rep := hsnd.symm
    unfold failJobDueToManifest at hrep
    split at hrep
    · cases hrep
    · split at hrep <;> cases hrep
  | readerExit => cases hsnd
  | @created spec id hact =>
    rw [hact]
    exact .inl ((createJob_answers env c.amb s.master spec id).1 rep hsnd.symm)
  | started hnew hold ho =>
    exact .inl (startAction_answers env c.amb s.master ho rep hsnd.symm)

theorem fillJob_reply {H : Type} (env : MasterEnv H) (amb : Ambient) (m : MasterState)
    (id : JobId) (r : JobRecord) (reply : Reply) :
    (fillJob env amb m id r reply).reply = some reply ∧
      ∃ r', (fillJob env amb m id r reply).state.jobs.get? id = some r' ∧
        r'.workerAssignments = r.workerAssignments ∧ r'.credentials = r.credentials ∧
        r'.specRedacted = r.specRedacted := by
  obtain ⟨cells, fileQueue, manifestHandle, started, heq⟩ :=
    startForFileQueueJob_spec env.config m (r.enterPreparing (amb.instant 1))
  unfold fillJob
  simp only [heq]
  refine ⟨trivial, _, HashMap.get?_put_self .., ?_⟩
  show (r.enterPreparing (amb.instant 1)).workerAssignments = _ ∧
    (r.enterPreparing (amb.instant 1)).credentials = _ ∧
    (r.enterPreparing (amb.instant 1)).specRedacted = _
  unfold JobRecord.enterPreparing
  split <;> exact ⟨rfl, rfl, rfl⟩

theorem Slot.index {m : MasterState} {w : WorkerId} {now : Instant} {skipped : List JobId}
    {id : JobId} {rest : List JobId} {r r₁ : JobRecord} (h : Slot m w now skipped id rest r r₁) :
    r₁.workerAssignments.get? w = some ⟨r.slotsFilled⟩ := by
  rw [h.slot]
  exact HashMap.get?_put_self ..

theorem fetchJob_step {H : Type} {env : MasterEnv H} {s s' : Sys} {c : Choice}
    {rep : Option Reply} {w : WorkerId} (hact : c.act = .fetchJob w)
    (h : s.step env c = some (s', rep)) :
    s' = (s.after s.inflight (fetchJob env c.amb s.master w)).1 ∧
      rep = (fetchJob env c.amb s.master w).reply := by
  rw [Sys.step_call (by simp [hact]) (by rw [hact]; rfl)] at h
  cases h
  exact ⟨rfl, rfl⟩

section

variable {H : Type} {env : MasterEnv H} {s s' : Sys} {c : Choice} {w : WorkerId}
  {resp : FetchJobResponse}

/-- The three ways in which FetchJob answers: the replay, no job, a fresh slot. -/
theorem fetchJob_reply (hok : s.Ok)
    (h : s.step env c = some (s', some (.fetchJob w (.ok resp)))) :
    c.act = .fetchJob w ∧
      ((∃ id r a, replay s.master w = some (id, r, a) ∧
          resp = fetchJobResponse id r a (c.amb.nowMs 0) ∧
          ∃ r', s'.master.jobs.get? id = some r' ∧ r'.workerAssignments.get? w = some a ∧
            r'.credentials = r.credentials ∧ r'.specRedacted = r.specRedacted) ∨
        (replay s.master w = none ∧
          (∀ id ∈ s.master.pendingQueue, ¬ PendingAt s.master.jobs id) ∧
          resp = emptyFetchResponse (c.amb.nowMs 0)) ∨
        (replay s.master w = none ∧ ∃ skipped id rest r r₁ a,
          s.master.pendingQueue = skipped ++ id :: rest ∧
          (∀ id' ∈ skipped, ¬ PendingAt s.master.jobs id') ∧
          s.master.jobs.get? id = some r ∧ r.status = .pending ∧
          resp = fetchJobResponse id r₁ a (c.amb.nowMs 0) ∧
          ∃ r', s'.master.jobs.get? id = some r' ∧ r'.workerAssignments.get? w = some a ∧
            r'.credentials = r₁.credentials ∧ r'.specRedacted = r₁.specRedacted)) := by
  have hact : ∃ w', c.act = .fetchJob w' := by
    rcases step_reply h with hrpc | ⟨i, t, _, _, hrpc, _⟩
    · cases hact : c.act <;> rw [hact] at hrpc <;> cases hrpc
      exact ⟨_, rfl⟩
    · cases t <;> cases hrpc
  obtain ⟨w', hact⟩ := hact
  obtain ⟨hs', hreply⟩ := fetchJob_step hact h
  have hjobs : s'.master.jobs = (fetchJob env c.amb s.master w').state.jobs := by
    rw [hs']
    rfl
  rw [hjobs]
  have hrow := fetchJob_row env c.amb s.master hok.coherent w'
  generalize fetchJob env c.amb s.master w' = o at hrow hreply ⊢
  cases hrow with
  | refused e => cases hreply
  | @replayed id r a hrep =>
    cases hreply
    exact ⟨hact, .inl ⟨id, r, a, hrep, rfl, _, HashMap.get?_put_self ..,
      (replay_eq_some.mp hrep).2.2.2, rfl, rfl⟩⟩
  | none hrep hall =>
    cases hreply
    exact ⟨hact, .inr (.inl ⟨hrep, hall, rfl⟩)⟩
  | @assigned skipped id rest r r₁ hslot hr hmore =>
    cases hreply
    exact ⟨hact, .inr (.inr ⟨hslot.noReplay, skipped, id, rest, r, r₁, _, hslot.queue, hslot.skips,
      hr, hslot.pending, rfl, r₁, HashMap.get?_put_self .., hslot.index, rfl, rfl⟩)⟩
  | @filled skipped id rest r r₁ hslot hr hfull =>
    obtain ⟨hout, r', hr', hwa, hcreds⟩ := fillJob_reply env c.amb
      { s.master with
        jobs := s.master.jobs.put id r₁
        pendingQueue := id :: rest
        workerActiveJobs := (s.master.workerActiveJobs.remove w').put w' id }
      id r₁ (.fetchJob w' (.ok (fetchJobResponse id r₁ ⟨r.slotsFilled⟩ (c.amb.nowMs 0))))
    rw [hout] at hreply
    cases hreply
    exact ⟨hact, .inr (.inr ⟨hslot.noReplay, skipped, id, rest, r, r₁, _, hslot.queue, hslot.skips,
      hr, hslot.pending, rfl, r', hr', by rw [hwa]; exact hslot.index, hcreds⟩)⟩

theorem fetchJob_hands {id : JobId} (hok : s.Ok)
    (h : s.step env c = some (s', some (.fetchJob w (.ok resp)))) (hid : resp.jobId = some id) :
    c.act = .fetchJob w ∧ ((∃ r a, replay s.master w = some (id, r, a)) ∨
      (replay s.master w = none ∧ ∃ skipped rest r,
        s.master.pendingQueue = skipped ++ id :: rest ∧
        (∀ id' ∈ skipped, ¬ PendingAt s.master.jobs id') ∧
        s.master.jobs.get? id = some r ∧ r.status = .pending)) := by
  obtain ⟨hact, hcases⟩ := fetchJob_reply hok h
  refine ⟨hact, ?_⟩
  rcases hcases with ⟨id', r, a, hrep, rfl, _⟩ | ⟨_, _, rfl⟩ |
    ⟨hrep, skipped, id', rest, r, _, _, hq, hsk, hr, hs, rfl, _⟩
  · cases hid
    exact .inl ⟨r, a, hrep⟩
  · cases hid
  · cases hid
    exact .inr ⟨hrep, skipped, rest, r, hq, hsk, hr, hs⟩

theorem fetchJob_index {id : JobId} (hok : s.Ok)
    (h : s.step env c = some (s', some (.fetchJob w (.ok resp)))) (hid : resp.jobId = some id) :
    ∃ r' a, s'.master.jobs.get? id = some r' ∧ r'.workerAssignments.get? w = some a ∧
      resp.workerIndex = some ((i32TryFrom a.workerIndex).getD 0) := by
  rcases (fetchJob_reply hok h).2 with ⟨id', r, a, _, rfl, r', hr', ha, _⟩ | ⟨_, _, rfl⟩ |
    ⟨_, _, id', _, _, _, a, _, _, _, _, rfl, r', hr', ha, _⟩
  · cases hid
    exact ⟨r', a, hr', ha, rfl⟩
  · cases hid
  · cases hid
    exact ⟨r', a, hr', ha, rfl⟩

theorem fetchJob_grants {creds : S3CredentialMaterial} (hok : s.Ok)
    (h : s.step env c = some (s', some (.fetchJob w (.ok resp))))
    (hcreds : resp.s3Credentials = some creds) :
    ∃ id r', resp.jobId = some id ∧ s'.master.jobs.get? id = some r' ∧
      r'.credentials = some creds ∧ w ∈ r'.workerAssignments.keys := by
  rcases (fetchJob_reply hok h).2 with ⟨id, r, a, _, rfl, r', hr', ha, hsame, _⟩ |
    ⟨_, _, rfl⟩ | ⟨_, _, id, _, _, r, a, _, _, _, _, rfl, r', hr', ha, hsame, _⟩
  · exact ⟨id, r', rfl, hr', hsame.trans hcreds, HashMap.mem_keys_of_get? ha⟩
  · cases hcreds
  · exact ⟨id, r', rfl, hr', hsame.trans hcreds, HashMap.mem_keys_of_get? ha⟩

theorem fetchJob_spec {id : JobId} (hok : s.Ok)
    (h : s.step env c = some (s', some (.fetchJob w (.ok resp)))) (hid : resp.jobId = some id) :
    ∃ r', s'.master.jobs.get? id = some r' ∧ resp.spec = some r'.specRedacted := by
  rcases (fetchJob_reply hok h).2 with ⟨id', r, a, _, rfl, r', hr', _, _, hspec⟩ |
    ⟨_, _, rfl⟩ | ⟨_, _, id', _, _, r, a, _, _, _, _, rfl, r', hr', _, _, hspec⟩
  · cases hid
    exact ⟨r', hr', congrArg some hspec.symm⟩
  · cases hid
  · cases hid
    exact ⟨r', hr', congrArg some hspec.symm⟩

theorem fetchJob_none (hok : s.Ok)
    (h : s.step env c = some (s', some (.fetchJob w (.ok resp)))) (hid : resp.jobId = none) :
    replay s.master w = none ∧ ∀ id ∈ s.master.pendingQueue, ¬ PendingAt s.master.jobs id := by
  rcases (fetchJob_reply hok h).2 with ⟨id', r, a, _, rfl, _⟩ | ⟨hrep, hall, _⟩ |
    ⟨_, _, _, _, _, _, _, _, _, _, _, rfl, _⟩
  · cases hid
  · exact ⟨hrep, hall⟩
  · cases hid

end

end CvdBench.Master
