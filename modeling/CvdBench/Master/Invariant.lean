import CvdBench.Master.Sections
import Mathlib.Data.List.Perm.Basic

/-!
The steps of the whole master: each runs one section of one task or call. From the
effects follow what a step does to one job, and the invariants that need no more.
-/

set_option autoImplicit false

namespace CvdBench.Master

open Foundation Proto

variable {H : Type} {env : MasterEnv H}

def storedSpec (protoSpec : BenchSpec) : BenchSpec :=
  let stored := Spec.redactInPlace protoSpec
  if stored.targetWorkers ≤ 0 then { stored with targetWorkers := 1 } else stored

theorem prepareJob_accepted {amb : Ambient} {spec : Option BenchSpec} {id : JobId}
    {r : JobRecord} (h : prepareJob env amb spec id = .ok r) :
    ∃ protoSpec business credentials mountPoint nowMs, spec = some protoSpec ∧
      Spec.BenchSpec.tryFromProto protoSpec = .ok business ∧
      Spec.validate business {} = .ok () ∧
      r = .new id (storedSpec protoSpec) credentials mountPoint business.targetWorkers nowMs := by
  unfold prepareJob at h
  cases spec with
  | none => cases h
  | some protoSpec =>
    simp only [Spec.exceptBind_ok] at h
    obtain ⟨business, hbusiness, _, hvalid, h⟩ := h
    split at h
    · -- the manifests are checked one after the other; each check that passes goes on
      split at h <;> simp only [Spec.exceptBind_ok] at h <;> obtain ⟨_, _, h⟩ := h
      all_goals
        split at h <;> simp only [Spec.exceptBind_ok] at h <;> obtain ⟨_, _, h⟩ := h
        all_goals
          obtain rfl := Except.ok.inj h
          exact ⟨_, _, _, _, _, rfl, Spec.exceptMapError_ok.mp hbusiness,
            Spec.exceptMapError_ok.mp hvalid, rfl⟩
    · cases h

theorem prepareJob_ok {amb : Ambient} {spec : Option BenchSpec} {id : JobId} {r : JobRecord}
    (h : prepareJob env amb spec id = .ok r) :
    ∃ stored credentials mountPoint target nowMs, 1 ≤ target ∧ target ≤ Spec.u32Max ∧
      r = .new id stored credentials mountPoint target nowMs := by
  obtain ⟨_, _, _, _, _, _, hparse, _, hr⟩ := prepareJob_accepted h
  obtain ⟨hlo, hhi⟩ := Spec.BenchSpec.tryFromProto_targetWorkers hparse
  exact ⟨_, _, _, _, _, hlo, hhi, hr⟩

/-- One step: the task `cur` (if any) ran a section, `rest` did not. -/
structure Move (env : MasterEnv H) (s : Sys) (c : Choice) (s' : Sys) (rep : Option Reply)
    (cur : Option Task) (rest spawn : List Task) : Prop where
  inflight : s.inflight.Perm (cur.toList ++ rest)
  after : s'.inflight = rest ++ spawn
  issued : s.issued ⊆ s'.issued
  fresh : ∀ spec id, c.act = .createJob spec id → id ∉ s.issued ∧ id ∈ s'.issued
  effect : Effect env c s.master cur ⟨s'.master, rep, spawn⟩
  spawned : ∀ t ∈ spawn, t.Ok s'.issued s'.master.jobs
  creates : ∀ id, .createPush id ∈ spawn → spawn = [.createPush id] ∧
    Kept s.master s'.master ∧ ∃ spec, c.act = .createJob spec id
  owed : ∀ t ∈ cur, ∀ w id, t.owes w id →
    s'.master.workerActiveJobs.get? w ≠ some id ∨
      ∃ t' ∈ spawn, t'.owes w id ∧ t'.acknowledged = true
  ran : ∀ t ∈ cur, ∃ i, s.inflight[i]? = some t ∧
    (c.act = .resume i ∨ ∃ id, t = .manifestReader id)
  resumed : ∀ i t, c.act = .resume i → s.inflight[i]? = some t → cur = some t
  pushed : ∀ id, cur = some (.createPush id) → spawn = [] ∧
    s'.master = { s.master with pendingQueue := s.master.pendingQueue ++ [id] } ∧
    rep = some (.createJob (.ok ⟨id⟩))

theorem Task.Follows.ok {issued : Finset JobId} {jobs : HashMap JobId JobRecord} {t : Task}
    (h : t.Follows issued jobs) : t.Ok issued jobs := by
  cases t with
  | createPush => cases h
  | _ => exact h

theorem Move.ofSection {s : Sys} {c : Choice} {cur : Option Task} {rest : List Task}
    {o : Outcome} (h : Section env c s cur o) (hperm : s.inflight.Perm (cur.toList ++ rest))
    (hnew : ∀ spec id, c.act ≠ .createJob spec id)
    (hran : ∀ t ∈ cur, ∃ i, s.inflight[i]? = some t ∧
      (c.act = .resume i ∨ ∃ id, t = .manifestReader id))
    (hresumed : ∀ i t, c.act = .resume i → s.inflight[i]? = some t → cur = some t)
    (hpushed : ∀ id, cur = some (.createPush id) → o = createPushSection s.master id) :
    Move env s c (s.after rest o).1 (s.after rest o).2 cur rest o.spawn where
  inflight := hperm
  after := rfl
  issued := Finset.Subset.refl _
  fresh spec id hact := absurd hact (hnew spec id)
  effect := h.effect
  spawned t ht := (h.spawned t ht).ok
  creates id hid := (h.spawned _ hid).elim
  owed := h.owed
  ran := hran
  resumed := hresumed
  pushed id hcur := by
    rw [hpushed id hcur]
    exact ⟨rfl, rfl, rfl⟩

theorem eraseIdx_perm {s : Sys} {i : Nat} {t : Task} (h : s.inflight[i]? = some t) :
    s.inflight.Perm ((some t).toList ++ s.inflight.eraseIdx i) := by
  obtain ⟨hi, rfl⟩ := List.getElem?_eq_some_iff.mp h
  exact (List.getElem_cons_eraseIdx_perm hi).symm

theorem readerAt_eq_some {s : Sys} {i : Nat} {id : JobId} (h : s.readerAt i = some id) :
    s.inflight[i]? = some (.manifestReader id) := by
  unfold Sys.readerAt at h
  split at h
  · next heq =>
    rw [heq]
    cases h
    rfl
  · cases h

theorem createJob_move {s : Sys} {c : Choice} {spec : Option BenchSpec} {id : JobId}
    (hact : c.act = .createJob spec id) (hid : id ∉ s.issued) :
    Move env s c ({ s with issued := insert id s.issued }.after s.inflight
        (createJob env c.amb s.master spec id)).1
      (createJob env c.amb s.master spec id).reply none s.inflight
      (createJob env c.amb s.master spec id).spawn := by
  have hfresh : ∀ spec' id', c.act = .createJob spec' id' →
      id' ∉ s.issued ∧ id' ∈ insert id s.issued := by
    intro spec' id' hact'
    rw [hact] at hact'
    cases hact'
    exact ⟨hid, Finset.mem_insert_self ..⟩
  unfold createJob
  cases hprep : prepareJob env c.amb spec id with
  | error e =>
    exact ⟨.refl _, rfl, Finset.subset_insert _ _, hfresh,
      .idle rfl (.refl _) (.of_eq rfl), by simp [Outcome.answer], by simp [Outcome.answer],
      by simp, by simp, by simp [hact], by simp⟩
  | ok r =>
    obtain ⟨_, _, _, _, _, _, _, hr⟩ := prepareJob_ok hprep
    have hjob : r.jobId = id := by rw [hr]; rfl
    refine ⟨.refl _, rfl, Finset.subset_insert _ _, hfresh,
      .created hact hprep rfl ⟨rfl, rfl⟩ (.one rfl hjob) rfl, ?_, ?_, by simp, by simp,
      by simp [hact], by simp⟩
    · intro t ht
      rw [List.mem_singleton.mp ht]
      exact Finset.mem_insert_self ..
    · intro id' hid'
      cases List.mem_singleton.mp hid'
      exact ⟨rfl, ⟨rfl, rfl⟩, spec, hact⟩

theorem step_move {s s' : Sys} {c : Choice} {rep : Option Reply} (hok : s.Ok)
    (h : s.step env c = some (s', rep)) :
    ∃ cur rest spawn, Move env s c s' rep cur rest spawn := by
  cases Sys.step_cases h with
  | @resume i t o hact ht ho =>
    have htask := hok.tasks t (List.mem_of_getElem? ht)
    refine ⟨some t, _, _, .ofSection (run_section hok htask ho) (eraseIdx_perm ht)
      (by simp [hact]) ?_ ?_ ?_⟩
    · intro t' ht'
      cases ht'
      exact ⟨i, ht, .inl hact⟩
    · intro i' t' hact' ht'
      rw [hact] at hact'
      cases hact'
      exact ht.symm.trans ht'
    · intro id hcur
      cases hcur
      cases ho
      rfl
  | readerAct hact =>
    exact ⟨none, s.inflight, [], .refl _, by simp, Finset.Subset.refl _, by simp [hact],
      .idle rfl ⟨rfl, rfl⟩ (.of_eq rfl), by simp, by simp, by simp, by simp, by simp [hact],
      by simp⟩
  | @readerFail i reason id hact hid =>
    have ht := readerAt_eq_some hid
    have htask := hok.tasks _ (List.mem_of_getElem? ht)
    refine ⟨_, _, _, .ofSection (readerFail_section hok htask) (eraseIdx_perm ht)
      (by simp [hact]) ?_ (by simp [hact]) (by simp)⟩
    intro t' ht'
    cases ht'
    exact ⟨i, ht, .inr ⟨id, rfl⟩⟩
  | @readerExit i id hact hid =>
    have ht := readerAt_eq_some hid
    refine ⟨_, s.inflight.eraseIdx i, [], eraseIdx_perm ht, by simp, Finset.Subset.refl _,
      by simp [hact], .idle rfl ⟨rfl, rfl⟩ (.of_eq rfl), by simp, by simp, ?_, ?_, by simp [hact],
      by simp⟩
    · intro t ht' w id' howes
      cases ht'
      exact absurd howes (Task.not_owes rfl)
    · intro t ht'
      cases ht'
      exact ⟨i, ht, .inr ⟨id, rfl⟩⟩
  | created hact hissued => exact ⟨none, _, _, createJob_move hact hissued⟩
  | started hnew hold ho =>
    exact ⟨none, _, _, .ofSection (startAction_section hok hnew ho) (.refl _) hnew (by simp)
      (fun i _ hact => absurd hact (hold i)) (by simp)⟩

inductive JobMove (env : MasterEnv H) (c : Choice) (spawn : List Task) (id : JobId) :
    Option JobRecord → Option JobRecord → Prop where
  | same (o : Option JobRecord) : JobMove env c spawn id o o
  | stepped {r r' : JobRecord} : r.Step env.hdr r' → JobMove env c spawn id (some r) (some r')
  | created {spec : Option BenchSpec} {r : JobRecord} : c.act = .createJob spec id →
      prepareJob env c.amb spec id = .ok r → spawn = [.createPush id] →
      JobMove env c spawn id none (some r)
  | collected {r : JobRecord} : r.isTerminal = true → JobMove env c spawn id (some r) none

theorem Wrote.job {c : Choice} {spawn : List Task} {m m' : MasterState} {j : JobId}
    {r r' : JobRecord}
    (h : Wrote m m' j r r') (hstep : r.Step env.hdr r') (id : JobId) :
    JobMove env c spawn id (m.jobs.get? id) (m'.jobs.get? id) := by
  rw [h.jobs, HashMap.get?_put]
  by_cases hid : id = j
  · subst hid
    rw [if_pos rfl, h.found]
    exact .stepped hstep
  · rw [if_neg hid]
    exact .same _

section

variable {s s' : Sys} {c : Choice} {rep : Option Reply} {cur : Option Task}
  {rest spawn : List Task}

theorem Move.mem_inflight (h : Move env s c s' rep cur rest spawn) {t : Task} :
    t ∈ s.inflight ↔ t ∈ cur ∨ t ∈ rest := by
  rw [h.inflight.mem_iff, List.mem_append, Option.mem_toList, Option.mem_def]

theorem Move.mem_after (h : Move env s c s' rep cur rest spawn) {t : Task} :
    t ∈ s'.inflight ↔ t ∈ rest ∨ t ∈ spawn := by
  rw [h.after, List.mem_append]

theorem tickVerdict_some {amb : Ambient} {now : Instant} {id : JobId} {r : JobRecord}
    {reason : String} (h : tickVerdict env amb now id r = some reason) :
    (r.status = .preparing ∨ r.status = .running) ∧
      tickReason env.config.scheduler (amb.order id) r now = some reason := by
  unfold tickVerdict at h
  split at h
  · exact ⟨‹_›, h⟩
  · cases h

theorem Move.job (hok : s.Ok) (h : Move env s c s' rep cur rest spawn) (id : JobId) :
    JobMove env c spawn id (s.master.jobs.get? id) (s'.master.jobs.get? id) := by
  have hsame : s'.master.jobs = s.master.jobs →
      JobMove env c spawn id (s.master.jobs.get? id) (s'.master.jobs.get? id) := by
    intro heq
    rw [heq]
    exact .same _
  cases h.effect with
  | idle hjobs => exact hsame hjobs
  | pushed _ _ hjobs => exact hsame hjobs
  | dequeued _ _ _ hjobs => exact hsame hjobs
  | fetchedNone _ _ _ _ hjobs => exact hsame hjobs
  | released _ _ hjobs => exact hsame hjobs
  | noted seen progress hw => exact hw.job (.noted _ _) id
  | resulted req result seen progress _ _ hw _ ht hsucc hmore =>
    exact hw.job (.resulted _ _ result ht hsucc hmore) id
  | readied req seen _ _ hw _ hs hmem hclosed => exact hw.job (.readied _ _ hs hmem hclosed) id
  | started req seen _ _ hw _ hmem hopen => exact hw.job (.started _ _ _ hopen hmem) id
  | ended seen progress order nowMs t he _ hw => exact hw.job (.ended _ _ _ _ he) id
  | concluded req result seen progress order nowMs _ _ _ he _ hw =>
    exact hw.job (.ended _ _ _ _ he) id
  | assigned _ hslot hmore hw =>
    rw [hslot.slot] at hw
    exact hw.job (.assigned _ _ hslot.pending hslot.valid hmore) id
  | filled fileQueue manifestHandle _ hslot hfull hw =>
    rw [hslot.slot] at hw
    exact hw.job (.filled _ _ _ _ _ hslot.pending hslot.valid hfull) id
  | @created spec j r hact hprep hjobs _ _ hspawn =>
    have hnone : s.master.jobs.get? j = none := by
      cases hr : s.master.jobs.get? j with
      | none => rfl
      | some r => exact absurd (hok.issued j r hr) (h.fresh _ _ hact).1
    simp only at hjobs
    rw [hjobs, HashMap.get?_put]
    by_cases hid : id = j
    · subst hid
      rw [if_pos rfl, hnone]
      exact .created hact hprep hspawn
    · rw [if_neg hid]
      exact .same _
  | collected ids hcur hjobs =>
    have htask := hok.tasks (.gcRemove ids) (h.mem_inflight.mpr (.inl hcur))
    simp only at hjobs
    rw [hjobs, HashMap.get?_removeAll]
    split
    · next hmem =>
      cases hr : s.master.jobs.get? id with
      | none => exact .same _
      | some r => exact .collected ((htask id hmem).2 r hr)
    · exact .same _
  | ticked now toClean _ _ hspared hfailed habsent =>
    cases hr : s.master.jobs.get? id with
    | none =>
      rw [show s'.master.jobs.get? id = none from habsent id hr]
      exact .same _
    | some r =>
      cases hv : tickVerdict env c.amb now id r with
      | none =>
        rw [show s'.master.jobs.get? id = some r from hspared id r hr hv]
        exact .same _
      | some reason =>
        obtain ⟨order, nowMs, heq⟩ := hfailed id r reason hr hv
        rw [show s'.master.jobs.get? id = _ from heq]
        exact .stepped (.ended r.workerLastSeen r.latestProgress order nowMs
          (.failed _ (tickVerdict_some hv).1))

end

def Sys.job (s : Sys) (id : JobId) : Option JobRecord := s.master.jobs.get? id

inductive Origin (env : MasterEnv H) (s : Sys) (c : Choice) (spawn : List Task) (id : JobId)
    (r' : JobRecord) : Prop where
  | created {spec stored credentials mountPoint target nowMs} : s.job id = none →
      c.act = .createJob spec id → spawn = [.createPush id] →
      1 ≤ target → target ≤ Spec.u32Max →
      r' = .new id stored credentials mountPoint target nowMs → Origin env s c spawn id r'
  | old (r : JobRecord) : s.job id = some r → r' = r ∨ r.Step env.hdr r' →
      Origin env s c spawn id r'

section

variable {s s' : Sys} {c : Choice} {rep : Option Reply} {cur : Option Task}
  {rest spawn : List Task} {id : JobId}

theorem Move.origin (h : Move env s c s' rep cur rest spawn) (hok : s.Ok) {r' : JobRecord}
    (hr' : s'.job id = some r') : Origin env s c spawn id r' := by
  have hjob := h.job hok id
  rw [show s'.master.jobs.get? id = some r' from hr'] at hjob
  generalize hr : s.master.jobs.get? id = o at hjob
  cases hjob with
  | same => exact .old r' hr (.inl rfl)
  | stepped hstep => exact .old _ hr (.inr hstep)
  | created hact hprep hspawn =>
    obtain ⟨_, _, _, _, _, hlo, hhi, rfl⟩ := prepareJob_ok hprep
    exact .created hr hact hspawn hlo hhi rfl

/-- A record stays or advances, or it was terminal and is collected. -/
theorem Move.fate (h : Move env s c s' rep cur rest spawn) (hok : s.Ok) {r : JobRecord}
    (hr : s.job id = some r) : s'.job id = none ∧ r.isTerminal = true ∨
      ∃ r', s'.job id = some r' ∧ (r' = r ∨ r.Step env.hdr r') := by
  have hjob := h.job hok id
  rw [show s.master.jobs.get? id = some r from hr] at hjob
  generalize hr' : s'.master.jobs.get? id = o at hjob
  cases hjob with
  | same => exact .inr ⟨r, hr', .inl rfl⟩
  | stepped hstep => exact .inr ⟨_, hr', .inr hstep⟩
  | collected hterm => exact .inl ⟨hr', hterm⟩

end

/-- `s'` is a later state than `s`: no job comes back, and records only advance. -/
structure Sys.Later (s s' : Sys) : Prop where
  issued : s.issued ⊆ s'.issued
  jobs : ∀ id ∈ s.issued, ∀ r', s'.master.jobs.get? id = some r' →
    ∃ r, s.master.jobs.get? id = some r ∧ r.Le r'

theorem Sys.Later.refl (s : Sys) : s.Later s :=
  ⟨Finset.Subset.refl _, fun _ _ r hr => ⟨r, hr, .refl r⟩⟩

theorem Sys.Later.trans {s s' s'' : Sys} (h : s.Later s') (h' : s'.Later s'') :
    s.Later s'' := by
  refine ⟨h.issued.trans h'.issued, fun id hid r'' hr'' => ?_⟩
  obtain ⟨r', hr', hle'⟩ := h'.jobs id (h.issued hid) r'' hr''
  obtain ⟨r, hr, hle⟩ := h.jobs id hid r' hr'
  exact ⟨r, hr, hle.trans hle'⟩

theorem Sys.Later.le {s s' : Sys} (h : s.Later s') (hok : s.Ok) {id : JobId}
    {r r' : JobRecord} (hr : s.job id = some r) (hr' : s'.job id = some r') : r.Le r' := by
  obtain ⟨r₀, hr₀, hle⟩ := h.jobs id (hok.issued id r hr) r' hr'
  obtain rfl := Option.some.inj (hr.symm.trans hr₀)
  exact hle

theorem Sys.Later.dead {s s' : Sys} (h : s.Later s') {id : JobId}
    (hd : Dead s.issued s.master.jobs id) : Dead s'.issued s'.master.jobs id := by
  refine ⟨h.issued hd.1, fun r' hr' => ?_⟩
  obtain ⟨r, hr, hle⟩ := h.jobs id hd.1 r' hr'
  have hterm := hd.2 r hr
  rw [(hle.frozen hterm).isTerminal, hterm]

theorem Sys.Later.reported {s s' : Sys} (h : s.Later s') {w : WorkerId} {id : JobId}
    (hd : Reported s.issued s.master.jobs w id) :
    Reported s'.issued s'.master.jobs w id := by
  refine ⟨h.issued hd.1, fun r' hr' => ?_⟩
  obtain ⟨r, hr, hle⟩ := h.jobs id hd.1 r' hr'
  rcases hd.2 r hr with hterm | hres
  · left
    rw [(hle.frozen hterm).isTerminal, hterm]
  · right
    obtain ⟨x, hx⟩ := HashMap.mem_keys_iff.mp hres
    exact HashMap.mem_keys_of_get? (hle.results w x hx)

theorem Sys.Later.task {s s' : Sys} (h : s.Later s') {t : Task}
    (ht : t.Ok s.issued s.master.jobs) : t.Ok s'.issued s'.master.jobs := by
  cases t with
  | createPush id => exact h.issued ht
  | deleteFinalize | deleteDequeue | deleteRelease | manifestRelease | manifestFinalize
  | readyRelease | readyFinalize | resultFinalize => exact h.dead ht
  | resultRelease req w unknownJob => exact fun hu => h.reported (ht hu)
  | tickRelease toClean => exact fun p hp => h.dead (ht p hp)
  | tickFinalize ids | gcRemove ids => exact fun id hid => h.dead (ht id hid)
  | manifestReader id =>
    refine ⟨h.issued ht.1, fun r' hr' => ?_⟩
    obtain ⟨r, hr, hle⟩ := h.jobs id ht.1 r' hr'
    exact Edge.path_not_pending hle.status (ht.2 r hr)
  | tickScan | gcScan | batchDrain | batchAddPermits | batchLoadDone | batchIsEmpty => trivial

theorem Move.later {s s' : Sys} {c : Choice} {rep : Option Reply} {cur : Option Task}
    {rest spawn : List Task} (hok : s.Ok) (h : Move env s c s' rep cur rest spawn) :
    s.Later s' := by
  refine ⟨h.issued, fun id hid r' hr' => ?_⟩
  cases h.origin hok hr' with
  | created _ hact => exact absurd hid (h.fresh _ _ hact).1
  | old r hr hold =>
    rcases hold with rfl | hstep
    · exact ⟨r', hr, .refl r'⟩
    · exact ⟨r, hr, hstep.le⟩

theorem Sys.Ok.init : Sys.init.Ok := by
  constructor <;> simp [Sys.init, MasterState.new]

theorem Move.ok {s s' : Sys} {c : Choice} {rep : Option Reply} {cur : Option Task}
    {rest spawn : List Task} (hok : s.Ok) (h : Move env s c s' rep cur rest spawn) : s'.Ok := by
  have hlater := h.later hok
  have hnew : ∀ id r', s'.master.jobs.get? id = some r' →
      id ∈ s'.issued ∧ r'.jobId = id ∧ r'.Coherent := by
    intro id r' hr'
    cases h.origin hok hr' with
    | created _ hact _ hlo hhi hnew =>
      subst hnew
      exact ⟨(h.fresh _ _ hact).2, rfl, .new hlo hhi⟩
    | old r hr hold =>
      refine ⟨h.issued (hok.issued id r hr), ?_⟩
      rcases hold with rfl | hstep
      · exact ⟨hok.keyed id r' hr, hok.coherent id r' hr⟩
      · exact ⟨hstep.le.jobId.trans (hok.keyed id r hr), (hok.coherent id r hr).step hstep⟩
  refine ⟨fun id r hr => (hnew id r hr).1, fun id r hr => (hnew id r hr).2.1,
    fun id r hr => (hnew id r hr).2.2, fun t ht => ?_⟩
  rcases h.mem_after.mp ht with ht | ht
  · exact hlater.task (hok.tasks t (h.mem_inflight.mpr (.inr ht)))
  · exact h.spawned t ht

theorem Reachable.ok {s : Sys} (h : (machine env).Reachable s) : s.Ok := by
  refine h.invariant Sys.Ok.init ?_
  intro s c s' rep _ hok hstep
  obtain ⟨cur, rest, spawn, hmove⟩ := step_move hok hstep
  exact hmove.ok hok

theorem Reachable.move {s s' : Sys} {c : Choice} {rep : Option Reply}
    (h : (machine env).Reachable s) (hstep : (machine env).step s c = some (s', rep)) :
    ∃ cur rest spawn, Move env s c s' rep cur rest spawn := step_move (Reachable.ok h) hstep

theorem Run.later {s t : Sys} {tr : Trace}
    (h : (machine env).Run s tr t) (hs : (machine env).Reachable s) : s.Later t := by
  refine h.relates Sys.Later.refl (fun _ _ _ => Sys.Later.trans) hs ?_
  intro s c s' rep hs hstep
  obtain ⟨cur, rest, spawn, hmove⟩ := Reachable.move hs hstep
  exact hmove.later (Reachable.ok hs)

theorem Run.after {s t : Sys} {tr : Trace} (h : (machine env).Run s tr t)
    (hs : (machine env).Reachable s) {e : Step} (he : e ∈ tr) :
    (machine env).Reachable e.post ∧ e.post.Later t := by
  obtain ⟨tr₁, tr₂, rfl⟩ := List.append_of_mem he
  obtain ⟨h₁, hstep, h₂⟩ := h.split rfl
  have hpost := (h₁.reachable hs).step hstep
  exact ⟨hpost, Run.later h₂ hpost⟩

end CvdBench.Master
