import CvdBench.Master.Invariant

/-!
The bindings of workers to jobs (`worker_active_jobs`): how a step changes one, what
every binding points to, and which bindings somebody is about to clear.
-/

set_option autoImplicit false

namespace CvdBench.Master

open Foundation Proto

variable {H : Type} {env : MasterEnv H}

def Sys.active (s : Sys) (w : WorkerId) : Option JobId := s.master.workerActiveJobs.get? w

/-- `w` holds a slot of the job and still has a result to deliver. -/
def JobRecord.Awaits (r : JobRecord) (w : WorkerId) : Prop :=
  w ∈ r.workerAssignments.keys ∧ w ∉ r.workerResults.keys

def Sys.Live (s : Sys) (w : WorkerId) (id : JobId) : Prop :=
  ∃ r, s.job id = some r ∧ r.isTerminal = false ∧ r.Awaits w

/-- Some task in flight is going to clear the binding. -/
def Sys.Owed (s : Sys) (w : WorkerId) (id : JobId) : Prop :=
  ∃ t ∈ s.inflight, t.owes w id ∧ t.acknowledged = true

section

variable {s s' : Sys} {c : Choice} {rep : Option Reply} {cur : Option Task}
  {rest spawn : List Task}

inductive Binding (env : MasterEnv H) (s s' : Sys) (c : Choice) (cur : Option Task)
    (w : WorkerId) : Prop where
  | same : s'.active w = s.active w → Binding env s s' c cur w
  | dropped : c.act = .fetchJob w → replay s.master w = none → s'.active w = none →
      Binding env s s' c cur w
  | released (t : Task) (id : JobId) : cur = some t → t.owes w id → s.active w = some id →
      s'.active w = none → Binding env s s' c cur w
  | assigned {skipped id rest r r₁} (r' : JobRecord) : c.act = .fetchJob w →
      Slot s.master w (c.amb.instant 0) skipped id rest r r₁ → s.job id = some r →
      s'.active w = some id → s'.job id = some r' →
      r'.workerAssignments = (r.withSlot w).workerAssignments →
      r'.workerResults = r.workerResults → r'.isTerminal = false → Binding env s s' c cur w

theorem active_fetch {m : HashMap WorkerId JobId} {w w' : WorkerId} {id : JobId}
    (h : w' ≠ w) : ((m.remove w).put w id).get? w' = m.get? w' := by
  rw [HashMap.get?_put_ne _ _ h, HashMap.get?_remove, if_neg h]

theorem Slot.keeps {m : MasterState} {w : WorkerId} {now : Instant} {skipped rest : List JobId}
    {id : JobId} {r r₁ : JobRecord} (h : Slot m w now skipped id rest r r₁) :
    r₁.status = .pending ∧ r₁.workerAssignments = (r.withSlot w).workerAssignments ∧
      r₁.workerResults = r.workerResults := by
  rw [h.slot]
  exact ⟨h.pending, rfl, rfl⟩

theorem JobRecord.filled_keeps {r : JobRecord} (now : Instant)
    (fileQueue manifestHandle : Option JobId) (h : r.status = .pending) :
    (r.filled now fileQueue manifestHandle).status = .preparing ∧
      (r.filled now fileQueue manifestHandle).workerAssignments = r.workerAssignments ∧
      (r.filled now fileQueue manifestHandle).workerResults = r.workerResults ∧
      (r.filled now fileQueue manifestHandle).readyWorkers = r.readyWorkers := by
  rw [JobRecord.filled, JobRecord.enterPreparing_of_pending now h]
  exact ⟨rfl, rfl, rfl, rfl⟩

theorem Slot.binding {w' : WorkerId} {now : Instant} {skipped after : List JobId} {id : JobId}
    {r r₁ r' : JobRecord} (hact : c.act = .fetchJob w') (hnow : now = c.amb.instant 0)
    (hslot : Slot s.master w' now skipped id after r r₁)
    (hwrote : Wrote s.master s'.master id r r')
    (hactive : s'.master.workerActiveJobs = (s.master.workerActiveJobs.remove w').put w' id)
    (hwa : r'.workerAssignments = r₁.workerAssignments)
    (hres : r'.workerResults = r₁.workerResults) (hterm : r'.isTerminal = false)
    (w : WorkerId) : Binding env s s' c cur w := by
  subst hnow
  by_cases hw : w = w'
  · subst hw
    obtain ⟨_, hwa₁, hres₁⟩ := hslot.keeps
    refine .assigned r' hact hslot hwrote.found ?_ ?_ (hwa.trans hwa₁) (hres.trans hres₁) hterm
    · rw [Sys.active, hactive, HashMap.get?_put_self]
    · rw [Sys.job, hwrote.jobs, HashMap.get?_put_self]
  · refine .same ?_
    rw [Sys.active, Sys.active, hactive, active_fetch hw]

theorem Move.binding (h : Move env s c s' rep cur rest spawn) (w : WorkerId) :
    Binding env s s' c cur w := by
  have hsame : s'.master.workerActiveJobs = s.master.workerActiveJobs →
      Binding env s s' c cur w := fun heq => .same (by rw [Sys.active, Sys.active, heq])
  cases h.effect with
  | idle _ hk | noted _ _ _ hk | resulted _ _ _ _ _ _ _ hk | readied _ _ _ _ _ hk
  | started _ _ _ _ _ hk | ended _ _ _ _ _ _ _ _ hk | concluded _ _ _ _ _ _ _ _ _ _ _ _ hk
  | ticked _ _ _ hk | created _ _ _ hk | collected _ _ _ hk => exact hsame hk.active
  | pushed _ _ _ _ hactive => exact hsame hactive
  | dequeued _ _ _ _ _ hactive => exact hsame hactive
  | fetchedNone w' hact hrep _ _ _ hactive =>
    by_cases hw : w = w'
    · subst hw
      refine .dropped hact hrep ?_
      rw [Sys.active, show s'.master.workerActiveJobs = _ from hactive,
        HashMap.get?_remove_self]
    · refine .same ?_
      rw [Sys.active, Sys.active, show s'.master.workerActiveJobs = _ from hactive,
        HashMap.get?_remove, if_neg hw]
  | assigned hact hslot _ hwrote _ hactive =>
    exact hslot.binding hact rfl hwrote hactive rfl rfl
      (by simp [JobRecord.isTerminal, hslot.keeps.1]) w
  | @filled w' skipped id rest' r r₁ fileQueue manifestHandle hact hslot _ hwrote _ hactive =>
    obtain ⟨hs, hwa, hres, _⟩ :=
      JobRecord.filled_keeps (c.amb.instant 1) fileQueue manifestHandle hslot.keeps.1
    exact hslot.binding hact rfl hwrote hactive hwa hres
      (by simp [JobRecord.isTerminal, hs]) w
  | released t hcur _ _ hactive =>
    have hactive' : s'.master.workerActiveJobs = _ := hactive
    cases hold : s.active w with
    | none =>
      refine .same ?_
      rw [Sys.active, hactive', get?_releaseAll_none hold, hold]
    | some id =>
      by_cases howes : t.owes w id
      · refine .released t id hcur howes hold ?_
        cases hnew : s'.active w with
        | none => rfl
        | some id' =>
          rw [Sys.active, hactive', get?_releaseAll] at hnew
          have hid : id' = id := by
            rw [Sys.active, hnew.1] at hold
            exact Option.some.inj hold
          subst hid
          obtain ⟨workers, hmem, hw⟩ := howes
          exact absurd hw (hnew.2 workers hmem)
      · refine .same ?_
        rw [hold, Sys.active, hactive', get?_releaseAll]
        exact ⟨hold, fun workers hmem hw => howes ⟨workers, hmem, hw⟩⟩

inductive Change (env : MasterEnv H) (s s' : Sys) (c : Choice) (spawn : List Task) (id : JobId)
    (r r' : JobRecord) : Prop where
  | kept : r'.workerAssignments = r.workerAssignments → r'.workerResults = r.workerResults →
      r'.readyWorkers = r.readyWorkers → r'.status = r.status → Change env s s' c spawn id r r'
  | closed : r'.workerAssignments = r.workerAssignments →
      r'.workerResults = r.workerResults → r'.readyWorkers = r.readyWorkers →
      r'.isTerminal = true → (∀ w ∈ r.workerAssignments.keys, ∃ t ∈ spawn,
        t.owes w id ∧ t.acknowledged = true) → Change env s s' c spawn id r r'
  | readied (req : ReportReadyRequest) : c.act = .reportReady req → req.error = none →
      req.jobId = id → req.workerId ∈ r.workerAssignments.keys →
      r'.workerAssignments = r.workerAssignments → r'.workerResults = r.workerResults →
      r'.readyWorkers = insert req.workerId r.readyWorkers →
      (r'.status = r.status ∧ r'.startAtMs = r.startAtMs ∨
        r'.status = .running ∧ barrierOpens (r.withReady req.workerId) = true ∧
          r'.startAtMs = wrapI64 (c.amb.nowMs 0 + startDelayMs env.config)) →
      Change env s s' c spawn id r r'
  | slot {w skipped after r₁} : c.act = .fetchJob w →
      Slot s.master w (c.amb.instant 0) skipped id after r r₁ → s'.active w = some id →
      r'.workerAssignments = (r.withSlot w).workerAssignments →
      r'.workerResults = r.workerResults → r'.readyWorkers = r.readyWorkers →
      (r'.status = .pending ∧ s'.master.pendingQueue = id :: after ∨
        r'.status = .preparing ∧ s'.master.pendingQueue = after) → Change env s s' c spawn id r r'
  | result (req : ReportResultRequest) (result : WorkerResult) : c.act = .reportResult req →
      req.result = some result → req.jobId = id → r.Takes result →
      r'.workerAssignments = r.workerAssignments →
      r'.workerResults = (r.withResult result).workerResults →
      r'.readyWorkers = r.readyWorkers →
      (result.success = true →
        r'.isTerminal = false ∨
          (r.withResult result).workerResults.len = r.runWorkers.card) →
      (∃ t ∈ spawn, t.owes result.workerId id ∧ t.acknowledged = true) →
      Change env s s' c spawn id r r'

theorem Change.refl (s s' : Sys) (c : Choice) (spawn : List Task) (id : JobId)
    (r : JobRecord) : Change env s s' c spawn id r r := .kept rfl rfl rfl rfl

theorem Wrote.split {m m' : MasterState} {j id : JobId} {r₀ r₀' r r' : JobRecord}
    (h : Wrote m m' j r₀ r₀') (hr : m.jobs.get? id = some r) (hr' : m'.jobs.get? id = some r') :
    r' = r ∨ id = j ∧ r = r₀ ∧ r' = r₀' := by
  rw [h.jobs, HashMap.get?_put] at hr'
  by_cases hid : id = j
  · subst hid
    rw [if_pos rfl] at hr'
    have hfound := h.found
    rw [hr, Option.some.injEq] at hfound
    exact .inr ⟨rfl, hfound, (Option.some.inj hr').symm⟩
  · rw [if_neg hid, hr, Option.some.injEq] at hr'
    exact .inl hr'.symm

theorem Effect.activeOf {m m' : HashMap WorkerId JobId} {w : WorkerId} {id : JobId}
    (h : m' = (m.remove w).put w id) : m'.get? w = some id := by
  rw [h, HashMap.get?_put_self]

theorem Move.change (h : Move env s c s' rep cur rest spawn) (hok : s.Ok) {id : JobId}
    {r r' : JobRecord} (hr : s.job id = some r) (hr' : s'.job id = some r') :
    Change env s s' c spawn id r r' := by
  have hsame : s'.master.jobs = s.master.jobs → Change env s s' c spawn id r r' := by
    intro heq
    rw [Sys.job, heq, ← Sys.job, hr, Option.some.injEq] at hr'
    exact hr' ▸ .refl ..
  cases h.effect with
  | idle hjobs => exact hsame hjobs
  | pushed _ _ hjobs => exact hsame hjobs
  | dequeued _ _ _ hjobs => exact hsame hjobs
  | fetchedNone _ _ _ _ hjobs => exact hsame hjobs
  | released _ _ hjobs => exact hsame hjobs
  | noted _ _ hw =>
    rcases hw.split hr hr' with rfl | ⟨rfl, rfl, rfl⟩
    · exact .refl ..
    · exact .kept rfl rfl rfl rfl
  | resulted req result _ _ hact hres hw _ ht hsucc hmore hspawn =>
    rcases hw.split hr hr' with rfl | ⟨rfl, rfl, rfl⟩
    · exact .refl ..
    · have hterm : r.isTerminal = false := Bool.eq_false_iff.mpr ht.not_terminal
      exact .result req result hact hres rfl ht rfl rfl rfl (fun _ => .inl hterm)
        ⟨_, hspawn ▸ List.mem_singleton.mpr rfl, ⟨_, List.mem_singleton.mpr rfl, by simp⟩, rfl⟩
  | readied req seen hact herr hw _ _ hmem =>
    rcases hw.split hr hr' with rfl | ⟨rfl, rfl, rfl⟩
    · exact .refl ..
    · exact .readied req hact herr rfl hmem rfl rfl rfl (.inl ⟨rfl, rfl⟩)
  | started req seen hact herr hw _ hmem hopen =>
    rcases hw.split hr hr' with rfl | ⟨rfl, rfl, rfl⟩
    · exact .refl ..
    · exact .readied req hact herr rfl hmem rfl rfl rfl (.inr ⟨rfl, hopen, rfl⟩)
  | @ended j r₀ r₁ seen progress order nowMs t he hres hw _ hspawn hack howes =>
    rcases hw.split hr hr' with rfl | ⟨rfl, rfl, rfl⟩
    · exact .refl ..
    · have hspawn' : spawn = [t] := hspawn
      refine .closed ?_ hres ?_ he.edge.2.1
        (fun w hw => ⟨t, by rw [hspawn']; exact List.mem_singleton.mpr rfl, howes w hw, hack⟩)
      · cases he <;> rfl
      · cases he <;> rfl
  | concluded req result seen progress order nowMs hact hres ht he hresults hw _ hall hspawn =>
    rcases hw.split hr hr' with rfl | ⟨rfl, rfl, rfl⟩
    · exact .refl ..
    · refine .result req result hact hres rfl ht ?_ hresults ?_ (fun hs => .inr (hall hs))
        ⟨_, hspawn ▸ List.mem_singleton.mpr rfl, ⟨_, List.mem_singleton.mpr rfl, by simp⟩, rfl⟩
      · cases he <;> rfl
      · cases he <;> rfl
  | ticked now toClean _ _ hspared hfailed _ hlisted _ hspawn =>
    cases hv : tickVerdict env c.amb now id r with
    | none =>
      have hkeep : s'.job id = some r := hspared id r hr hv
      rw [hkeep, Option.some.injEq] at hr'
      exact hr' ▸ .refl ..
    | some reason =>
      obtain ⟨order, nowMs, heq⟩ := hfailed id r reason hr hv
      obtain rfl := Option.some.inj (heq.symm.trans hr')
      obtain ⟨workers, hmem, hall⟩ := hlisted id r reason hr hv
      refine .closed rfl rfl rfl rfl fun w hw => ?_
      rcases hspawn with ⟨rfl, _⟩ | hspawn
      · cases hmem
      · have hspawn' : spawn = [.tickRelease toClean] := hspawn
        exact ⟨.tickRelease toClean, by rw [hspawn']; exact List.mem_singleton.mpr rfl,
          ⟨workers, hmem, hall w hw⟩, rfl⟩
  | @created spec j r₀ hact hprep hjobs =>
    have hne : id ≠ j := by
      rintro rfl
      exact (h.fresh _ _ hact).1 (hok.issued id r hr)
    have hjobs' : s'.master.jobs = s.master.jobs.put j r₀ := hjobs
    rw [Sys.job, hjobs', HashMap.get?_put_ne _ _ hne] at hr'
    obtain rfl := Option.some.inj (hr.symm.trans hr')
    exact .refl ..
  | collected ids _ hjobs =>
    have hjobs' : s'.master.jobs = s.master.jobs.removeAll ids := hjobs
    rw [Sys.job, hjobs', HashMap.get?_removeAll] at hr'
    split at hr'
    · cases hr'
    · obtain rfl := Option.some.inj (hr.symm.trans hr')
      exact .refl ..
  | @assigned w skipped j rest' r₀ r₁ hact hslot _ hw hqueue hactive =>
    rcases hw.split hr hr' with rfl | ⟨rfl, rfl, rfl⟩
    · exact .refl ..
    · obtain ⟨hs, hwa, hres⟩ := hslot.keeps
      refine .slot hact hslot (Effect.activeOf hactive) hwa hres ?_ (.inl ⟨hs, hqueue⟩)
      rw [hslot.slot]
      rfl
  | @filled w skipped j rest' r₀ r₁ fileQueue manifestHandle hact hslot _ hw hqueue hactive =>
    rcases hw.split hr hr' with rfl | ⟨rfl, rfl, rfl⟩
    · exact .refl ..
    · obtain ⟨hs, hwa, hres⟩ := hslot.keeps
      obtain ⟨hs', hwa', hres', hready'⟩ :=
        JobRecord.filled_keeps (c.amb.instant 1) fileQueue manifestHandle hs
      refine .slot hact hslot (Effect.activeOf hactive) (hwa'.trans hwa) (hres'.trans hres) ?_
        (.inr ⟨hs', hqueue⟩)
      rw [hready', hslot.slot]
      rfl

/-- A bound worker holds a slot of its job, as long as the job is there. -/
def Sys.Bound (s : Sys) : Prop := ∀ w id, s.active w = some id →
  id ∈ s.issued ∧ ∀ r, s.job id = some r → w ∈ r.workerAssignments.keys

theorem Move.bound (h : Move env s c s' rep cur rest spawn) (hok : s.Ok) (hb : s.Bound) :
    s'.Bound := by
  intro w id hw
  have hlater := h.later hok
  have hkeep : s.active w = some id → id ∈ s'.issued ∧
      ∀ r, s'.job id = some r → w ∈ r.workerAssignments.keys := by
    intro hold
    obtain ⟨hid, hall⟩ := hb w id hold
    refine ⟨hlater.issued hid, fun r' hr' => ?_⟩
    obtain ⟨r, hr, hle⟩ := hlater.jobs id hid r' hr'
    exact hle.assigned (hall r hr)
  cases h.binding w with
  | same heq => exact hkeep (heq ▸ hw)
  | dropped _ _ hnone => rw [hnone] at hw; cases hw
  | released _ _ _ _ _ hnone => rw [hnone] at hw; cases hw
  | @assigned skipped j rest' r r₁ r' _ _ hr hactive hr' hwa =>
    obtain rfl : j = id := Option.some.inj (hactive.symm.trans hw)
    refine ⟨hlater.issued (hok.issued j r hr), fun r'' hr'' => ?_⟩
    obtain rfl := Option.some.inj (hr'.symm.trans hr'')
    rw [hwa]
    simp [JobRecord.withSlot]

theorem Reachable.bound (h : (machine env).Reachable s) : s.Bound := by
  refine h.invariant (fun w id hw => ?_) ?_
  · simp [machine, Sys.init, MasterState.new, Sys.active] at hw
  · intro s c s' rep hs hb hstep
    obtain ⟨cur, rest, spawn, hmove⟩ := Reachable.move hs hstep
    exact hmove.bound (Reachable.ok hs) hb

theorem replay_of_bound (hb : s.Bound) {w : WorkerId} {id : JobId} {r : JobRecord}
    (hw : s.active w = some id) (hr : s.job id = some r) (hterm : r.isTerminal = false) :
    ∃ a, replay s.master w = some (id, r, a) := by
  obtain ⟨a, ha⟩ := HashMap.mem_keys_iff.mp ((hb w id hw).2 r hr)
  exact ⟨a, replay_eq_some.mpr ⟨hw, hr, hterm, ha⟩⟩

/-- A report of failure takes a job away from another worker that no task releases. -/
def Strands (s : Sys) (c : Choice) : Prop :=
  ∃ req result r w, c.act = .reportResult req ∧ req.result = some result ∧
    result.success = false ∧ s.job req.jobId = some r ∧ r.Takes result ∧
    w ≠ result.workerId ∧ s.active w = some req.jobId ∧ ¬ s.Owed w req.jobId

/-- Every binding of the table is live or about to be cleared. -/
def Sys.NoStray (s : Sys) : Prop :=
  ∀ w id, s.active w = some id → s.Live w id ∨ s.Owed w id

theorem Move.owedOr (h : Move env s c s' rep cur rest spawn) {w : WorkerId} {id : JobId}
    (howed : s.Owed w id) (hw : s'.active w = some id) : s'.Owed w id := by
  obtain ⟨t, ht, howes, hack⟩ := howed
  rcases h.mem_inflight.mp ht with hcur | hrest
  · rcases h.owed t hcur w id howes with hne | ⟨t', ht', howes', hack'⟩
    · exact absurd hw hne
    · exact ⟨t', h.mem_after.mpr (.inr ht'), howes', hack'⟩
  · exact ⟨t, h.mem_after.mpr (.inl hrest), howes, hack⟩

/-- When a slot stops awaiting its result, somebody owes the release, unless a failure
reported by another worker was the cause. -/
theorem Move.liveOr (h : Move env s c s' rep cur rest spawn) (hok : s.Ok) {w : WorkerId}
    {id : JobId} (hlive : s.Live w id) : s'.Live w id ∨ s'.Owed w id ∨
      ∃ req result r, c.act = .reportResult req ∧ req.result = some result ∧
        result.success = false ∧ req.jobId = id ∧ s.job id = some r ∧ r.Takes result ∧
        w ≠ result.workerId := by
  obtain ⟨r, hr, hterm, hmem, hnores⟩ := hlive
  have hspawned : (∃ t ∈ spawn, t.owes w id ∧ t.acknowledged = true) → s'.Owed w id := by
    rintro ⟨t, ht, howes, hack⟩
    exact ⟨t, h.mem_after.mpr (.inr ht), howes, hack⟩
  rcases h.fate hok hr with ⟨_, ht⟩ | ⟨r', hr', _⟩
  · rw [hterm] at ht
    cases ht
  · have hmem' : w ∈ r'.workerAssignments.keys :=
      ((h.later hok).le hok hr hr').assigned hmem
    cases h.change hok hr hr' with
    | kept _ hres _ hs =>
      refine .inl ⟨r', hr', ?_, hmem', by rw [hres]; exact hnores⟩
      rw [JobRecord.isTerminal, hs]
      exact hterm
    | closed _ _ _ _ hall => exact .inr (.inl (hspawned (hall w hmem)))
    | readied req _ _ _ _ _ hres _ hs =>
      refine .inl ⟨r', hr', ?_, hmem', by rw [hres]; exact hnores⟩
      rcases hs with ⟨hs, _⟩ | ⟨hs, _⟩
      · rw [JobRecord.isTerminal, hs]
        exact hterm
      · simp [JobRecord.isTerminal, hs]
    | slot _ _ _ _ hres _ hs =>
      refine .inl ⟨r', hr', ?_, hmem', by rw [hres]; exact hnores⟩
      rcases hs with ⟨hs, _⟩ | ⟨hs, _⟩ <;> simp [JobRecord.isTerminal, hs]
    | result req result hact hresult hid ht _ hresults _ hall hspawn =>
      by_cases hw : w = result.workerId
      · exact .inr (.inl (hspawned (hw ▸ hspawn)))
      by_cases hsucc : result.success = true
      · rcases hall hsucc with hterm' | hlast
        · refine .inl ⟨r', hr', hterm', hmem', ?_⟩
          rw [hresults, JobRecord.withResult, HashMap.keys_put, Finset.mem_insert]
          exact not_or.mpr ⟨hw, hnores⟩
        · -- the last result: every other run worker had delivered before
          have hco := hok.coherent id r hr
          have hkeys := hco.last_result ht hlast
          rw [← (hco.running ht.running).1, ← hkeys, JobRecord.withResult,
            HashMap.keys_put, Finset.mem_insert] at hmem
          exact absurd hmem (not_or.mpr ⟨hw, hnores⟩)
      · exact .inr (.inr ⟨req, result, r, hact, hresult, Bool.eq_false_iff.mpr hsucc, hid, hr,
          ht, hw⟩)

theorem Move.noStray (h : Move env s c s' rep cur rest spawn) (hok : s.Ok)
    (hstray : s.NoStray) (hsafe : ¬ Strands s c) : s'.NoStray := by
  intro w id hw
  have hkeep : s.active w = some id → s'.Live w id ∨ s'.Owed w id := by
    intro hold
    rcases hstray w id hold with hlive | howed
    · rcases h.liveOr hok hlive with hlive' | howed' | hfail
      · exact .inl hlive'
      · exact .inr howed'
      · obtain ⟨req, result, r, hact, hresult, hsucc, rfl, hr, ht, hne⟩ := hfail
        by_cases howed : s.Owed w req.jobId
        · exact .inr (h.owedOr howed hw)
        · exact absurd ⟨req, result, r, w, hact, hresult, hsucc, hr, ht, hne, hold, howed⟩ hsafe
    · exact .inr (h.owedOr howed hw)
  cases h.binding w with
  | same heq => exact hkeep (heq ▸ hw)
  | dropped _ _ hnone => rw [hnone] at hw; cases hw
  | released _ _ _ _ _ hnone => rw [hnone] at hw; cases hw
  | @assigned skipped j rest' r r₁ r' _ hslot hr hactive hr' hwa hres hterm =>
    obtain rfl : j = id := Option.some.inj (hactive.symm.trans hw)
    refine .inl ⟨r', hr', hterm, ?_, ?_⟩
    · rw [hwa]
      simp [JobRecord.withSlot]
    · rw [hres, ((hok.coherent j r hr).pending hslot.pending).2.1]
      exact Finset.notMem_empty w

def Sys.Delivered (s : Sys) : Prop := ∀ w id r, s.active w = some id → s.job id = some r →
  r.isTerminal = false → w ∈ r.workerResults.keys → s.Owed w id

theorem Move.delivered (h : Move env s c s' rep cur rest spawn) (hok : s.Ok)
    (hd : s.Delivered) : s'.Delivered := by
  intro w id r' hw hr' hterm' hres'
  have hold : s.active w = some id := by
    cases h.binding w with
    | same heq => exact heq ▸ hw
    | dropped _ _ hnone => rw [hnone] at hw; cases hw
    | released _ _ _ _ _ hnone => rw [hnone] at hw; cases hw
    | @assigned skipped j rest' r r₁ r₂ _ hslot hr hactive hr₂ _ hres =>
      obtain rfl : j = id := Option.some.inj (hactive.symm.trans hw)
      obtain rfl := Option.some.inj (hr'.symm.trans hr₂)
      rw [hres, ((hok.coherent j r hr).pending hslot.pending).2.1] at hres'
      cases hres'
  cases h.origin hok hr' with
  | created _ _ _ _ _ hnew => simp [hnew, JobRecord.new] at hres'
  | old r hr =>
    have hterm : r.isTerminal = false := by
      by_contra hne
      have hle := (h.later hok).le hok hr hr'
      rw [(hle.frozen (by simpa using hne)).isTerminal] at hterm'
      exact hne hterm'
    by_cases hres : w ∈ r.workerResults.keys
    · exact h.owedOr (hd w id r hold hr hterm hres) hw
    · have hnew : ∀ {m : HashMap WorkerId WorkerResult}, r'.workerResults = m →
          m = r.workerResults → s'.Owed w id := fun hm heq => by
        rw [hm, heq] at hres'
        exact absurd hres' hres
      cases h.change hok hr hr' with
      | kept _ heq | closed _ heq | readied _ _ _ _ _ _ heq | slot _ _ _ _ heq =>
        exact hnew heq rfl
      | result req result _ _ _ _ _ heq _ _ hspawn =>
        rw [heq, JobRecord.withResult, HashMap.keys_put, Finset.mem_insert] at hres'
        obtain rfl := hres'.resolve_right hres
        obtain ⟨t, ht, howes, hack⟩ := hspawn
        exact ⟨t, h.mem_after.mpr (.inr ht), howes, hack⟩

theorem Reachable.delivered (h : (machine env).Reachable s) : s.Delivered := by
  refine h.invariant (fun w id r hw => ?_) ?_
  · simp [machine, Sys.init, MasterState.new, Sys.active] at hw
  · intro s c s' rep hs hd hstep
    obtain ⟨cur, rest, spawn, hmove⟩ := Reachable.move hs hstep
    exact hmove.delivered (Reachable.ok hs) hd

theorem Task.Ok.resultRelease {issued : Finset JobId} {jobs : HashMap JobId JobRecord}
    {t : Task} (h : t.Ok issued jobs) {w : WorkerId} {id : JobId} {r : JobRecord}
    (howes : t.owes w id) (hr : jobs.get? id = some r) (hterm : r.isTerminal = false) :
    ∃ req unknownJob, t = .resultRelease req w unknownJob ∧ req.jobId = id := by
  obtain ⟨workers, hmem, hw⟩ := howes
  have hdead : ¬ Dead issued jobs id := fun hd => by
    rw [hd.2 r hr] at hterm
    cases hterm
  cases t with
  | deleteFinalize | deleteDequeue | deleteRelease | manifestRelease | readyRelease
  | resultFinalize =>
    cases List.mem_singleton.mp hmem
    exact absurd h hdead
  | tickRelease toClean => exact absurd (h _ hmem) hdead
  | resultRelease req w' unknownJob =>
    cases List.mem_singleton.mp hmem
    cases List.mem_singleton.mp hw
    exact ⟨req, unknownJob, rfl, rfl⟩
  | createPush | readyFinalize | tickScan | tickFinalize | gcScan | gcRemove | manifestReader
  | manifestFinalize | batchDrain | batchAddPermits | batchLoadDone | batchIsEmpty => cases hmem

theorem Owed.resultRelease (hok : s.Ok) {w : WorkerId} {id : JobId} {r : JobRecord}
    (howed : s.Owed w id) (hr : s.job id = some r) (hterm : r.isTerminal = false) :
    ∃ req : ReportResultRequest, req.jobId = id ∧
      .resultRelease req w false ∈ s.inflight := by
  obtain ⟨t, ht, howes, hack⟩ := howed
  obtain ⟨req, unknownJob, rfl, hid⟩ := (hok.tasks t ht).resultRelease howes hr hterm
  cases unknownJob with
  | false => exact ⟨req, hid, ht⟩
  | true => cases hack

/-- A late or refused ReportResult is about to clear the binding of a worker that still
holds a slot, of a job whose status is in `P`. -/
def Cuts (P : JobStatus → Prop) (s : Sys) (c : Choice) : Prop :=
  ∃ i req w unknownJob r, c.act = .resume i ∧
    s.inflight[i]? = some (.resultRelease req w unknownJob) ∧ s.active w = some req.jobId ∧
    s.job req.jobId = some r ∧ P r.status ∧ w ∉ r.workerResults.keys

def Sys.Held (P : JobStatus → Prop) (s : Sys) : Prop :=
  ∀ w id r, s.job id = some r → P r.status → r.Awaits w → s.active w = some id

theorem Move.held {P : JobStatus → Prop} (h : Move env s c s' rep cur rest spawn)
    (hok : s.Ok) (hb : s.Bound) (hback : ∀ a b, Edge a b → P b → P a)
    (hlive : ∀ r : JobRecord, P r.status → r.isTerminal = false) (hheld : s.Held P)
    (hsafe : ¬ Cuts P s c) : s'.Held P := by
  intro w id r' hr' hP' hawaits
  cases h.origin hok hr' with
  | created _ _ _ _ _ hnew =>
    have hmem := hawaits.1
    simp [hnew, JobRecord.new] at hmem
  | old r hr hold =>
    have hP : P r.status := by
      rcases hold with rfl | hstep
      · exact hP'
      · rcases hstep.edge with heq | hedge
        · exact heq ▸ hP'
        · exact hback _ _ hedge hP'
    have hle := (h.later hok).le hok hr hr'
    have hnores : w ∉ r.workerResults.keys := fun hmem => by
      obtain ⟨x, hx⟩ := HashMap.mem_keys_iff.mp hmem
      exact hawaits.2 (HashMap.mem_keys_of_get? (hle.results w x hx))
    by_cases hmem : w ∈ r.workerAssignments.keys
    · have hold := hheld w id r hr hP ⟨hmem, hnores⟩
      obtain ⟨a, hrep⟩ := replay_of_bound hb hold hr (hlive r hP)
      cases h.binding w with
      | same heq => rw [heq, hold]
      | dropped _ hnone => rw [hrep] at hnone; cases hnone
      | assigned _ _ hslot => rw [hslot.noReplay] at hrep; cases hrep
      | released t id' hcur howes hactive =>
        obtain rfl : id' = id := Option.some.inj (hactive.symm.trans hold)
        obtain ⟨i, hi, hact⟩ := h.ran t hcur
        obtain ⟨req, unknownJob, rfl, rfl⟩ :=
          (hok.tasks t (List.mem_of_getElem? hi)).resultRelease howes hr (hlive r hP)
        rcases hact with hact | ⟨_, hreader⟩
        · exact absurd ⟨i, req, w, unknownJob, r, hact, hi, hold, hr, hP, hnores⟩ hsafe
        · cases hreader
    · cases h.change hok hr hr' with
      | kept heq | closed heq | readied _ _ _ _ _ heq | result _ _ _ _ _ _ heq =>
        exact absurd (heq ▸ hawaits.1) hmem
      | slot _ _ hactive hwa =>
        have hw := hawaits.1
        rw [hwa, JobRecord.withSlot, HashMap.keys_put, Finset.mem_insert] at hw
        obtain rfl := hw.resolve_right hmem
        exact hactive

end

end CvdBench.Master
