import CvdBench.Properties.JobAbort
import CvdBench.Properties.ReadConsistency
import CvdBench.Properties.UnknownJob
import CvdBench.Properties.WorkerPipeline
import CvdBench.Worker.CheckedRun

/-!
The consistency check of a read workload: when the preflight gives it a client, and that no
file passes it by in a job that succeeds, if no task panics.
-/

set_option autoImplicit false

namespace CvdBench.Worker

open Foundation Proto

namespace AssignedJob

variable {job : AssignedJob} {calls : PreflightCalls} {p : Preflight}

theorem Made.andThen_ok {α β : Type} {x : Made α} {f : α → Made β} {b : β}
    (h : (x.andThen f).2 = .ok b) : ∃ a, x.2 = .ok a ∧ (f a).2 = .ok b := by
  unfold Made.andThen at h
  split at h
  · cases h
  · next a ha => exact ⟨a, ha, h⟩

theorem makeConsistency_ok (hcheck : (job.spec.read.bind (·.s3ConsistencyCheck)).isSome = true)
    {client : Option ConsistencyClient} (h : job.makeConsistency calls = .ok client) :
    client.isSome = true := by
  unfold AssignedJob.makeConsistency at h
  rw [if_neg (by simp [Option.isNone_eq_false_iff.mpr hcheck])] at h
  split at h
  · cases h
  · cases h
  · cases hbuild : calls.buildClient with
    | error err => simp [hbuild, Except.map] at h
    | ok c =>
      simp only [hbuild, Except.map, Except.ok.injEq] at h
      rw [← h]
      rfl

/-- The client is there exactly if the metadata workload has no manifest. -/
theorem preflight_client_iff
    (hcheck : (job.spec.read.bind (·.s3ConsistencyCheck)).isSome = true)
    (h : (job.runPreflight calls).2 = .ok p) :
    p.consistency.isSome = true ↔
      ∀ md, job.spec.metadata = some md → md.dirManifest = none := by
  unfold AssignedJob.runPreflight at h
  obtain ⟨root, -, h⟩ := Made.andThen_ok h
  have hclient : ∀ layout, (job.makeConsistency calls).map (⟨root, layout, ·⟩) = .ok p →
      p.consistency.isSome = true := by
    intro layout h
    cases hmake : job.makeConsistency calls with
    | error err => simp [hmake, Except.map] at h
    | ok client =>
      simp only [hmake, Except.map, Except.ok.injEq] at h
      rw [← h]
      exact makeConsistency_ok hcheck hmake
  split at h
  · next hnone =>
    refine iff_of_true (hclient _ h) ?_
    intro md hmd
    rw [hnone] at hmd
    cases hmd
  · next md hmd =>
    split at h
    · next hmanifest =>
      cases h
      refine iff_of_false (by simp) ?_
      intro hall
      simp [hall md hmd] at hmanifest
    · next hmanifest =>
      obtain ⟨layout, -, h⟩ := Made.andThen_ok h
      refine iff_of_true (hclient layout h) ?_
      intro md' hmd'
      obtain rfl := Option.some.inj (hmd.symm.trans hmd')
      simpa using hmanifest

end AssignedJob

def ReadState.Hashed (ctx : ReadContext) : ReadState → Prop
  | .receive r | .close r none | .join r none | .checkFlags r => r.hasher = hashFor ctx r.seen
  | .inspect r item => ∃ seen, r.seen = seen ++ [item] ∧ r.hasher = hashFor ctx seen
  | .check r hash => hashFor ctx r.seen = some hash
  | _ => True

section

variable {ctx : ReadContext} {entry : FileEntry} {st st' : ReadState} {act : ReadAct}

theorem ReadState.Hashed.setStream {stream : ReadStream} (h : st.Hashed ctx) :
    (st.setStream stream).Hashed ctx := by
  cases st with
  | close r ioErr => cases ioErr <;> exact h
  | join r ioErr => cases ioErr <;> exact h
  | _ => exact h

theorem ReadState.Hashed.move (h : st.Hashed ctx)
    (hmove : st.Move ctx false entry act (.more st')) : st'.Hashed ctx := by
  cases hmove with
  | openFile file path hpath => simp [ReadState.Hashed, Reading.start, hashFor]
  | receive r item chan hchan => exact ⟨r.seen, rfl, h⟩
  | received r hchan hdone => exact h
  | stopped r item hstop => cases hstop
  | failed r err hstop => trivial
  | handle r event hstop =>
    obtain ⟨seen, hseen, hhasher⟩ := h
    simp only [ReadState.Hashed, Reading.handle, hseen, hashFor_concat, hhasher]
  | close r ioErr =>
    cases ioErr with
    | none => exact h
    | some err => trivial
  | join r hdone => exact h
  | check r hash hstop hhash => exact h.symm.trans hhash
  | stream st act stream stream' hact hstream hmove => exact h.setStream

end

namespace Runner

variable {σ α ε ρ : Type} {W : ItemTask σ α ε ρ} {c : Nat} {s s' : Runner σ ε}
  {act : RunnerAct α} {o : RunnerOut ρ}

theorem Move.keeps_item (hmove : s.Move W c act s' o) {i : Nat} {entry : FileEntry} {st : σ}
    (hi : s.tasks[i]? = some (.item entry st)) :
    s'.tasks[i]? = some (.item entry st) ∨ ∃ iact res, act = .task i (.item iact) ∧
      W.step s.stop entry st iact = some res ∧ s' = (s.stepItem i entry res).1 := by
  rcases hmove.keeps hi with hkept | hpc | hpc | hpc | ⟨entry', st', iact, res, hpc, hrest⟩
  · exact .inl hkept
  · cases hpc
  · cases hpc
  · cases hpc
  · cases hpc
    exact .inr ⟨iact, res, hrest⟩

theorem Move.cancelled_stays (hmove : s.Move W c act s' o) (h : s.cancelled = true) :
    s'.cancelled = true := by
  cases hmove with
  | respond res hf =>
    unfold Runner.respond
    split_ifs
    · rfl
    · rfl
    · exact h
  | item i entry st iact res hi hstep => cases res <;> exact h
  | cancel => rfl
  | _ => exact h

end Runner

def ReadRunAct.panics : ReadRunAct → Bool
  | .taskPanics _ => true
  | _ => false

/-- A task panics whose handle a runner joins. -/
def CheckedAct.panics : CheckedAct → Bool
  | .job act => act.panics
  | .read act => act.panics

namespace ReadRun

variable {text : ReadRunError → String} {ctx : ReadContext} {c : Nat} {s s' : ReadRun}
  {act : ReadRunAct}

theorem crew_fails {i : Nat} {err : ReadRunError}
    (hi : s.runner.tasks[i]? = some (.finished (.error err))) : (s.crew text c).Fails :=
  ⟨_, List.mem_of_getElem? (crew_getTask text c hi), text err, rfl⟩

theorem crew_calm (h : s.panicked = []) : (s.crew text c).Calm := by
  intro t ht hpanicked
  obtain ⟨i, hi⟩ := List.mem_iff_getElem?.mp ht
  simp only [crew, List.getElem?_mapIdx, Option.map_eq_some_iff] at hi
  obtain ⟨pc, -, rfl⟩ := hi
  simp only [h, List.contains_nil] at hpanicked
  cases pc with
  | finished res => cases res <;> cases hpanicked
  | _ => cases hpanicked

theorem Move.panicked (hmove : s.Move ctx c act s') (hact : act.panics = false) :
    s'.panicked = s.panicked := by
  cases hmove with
  | run | fetcherPanics | producerPanics => rfl
  | taskPanics => cases hact

/-- What a step of the read runner does to the two flags. -/
structure Flagged (text : ReadRunError → String) (c : Nat) (s s' : ReadRun) : Prop where
  abort : s'.runner.abort = true → s.runner.abort = true ∨ s'.runner.cancelled = true ∨
    (s'.crew text c).Fails
  cancelled : s.runner.cancelled = true → s'.runner.cancelled = true

theorem joinsPanicked_calm (hcalm : s.panicked = []) (ract : RunnerAct ReadAct) :
    s.joinsPanicked ract = false := by
  unfold ReadRun.joinsPanicked
  split
  · split <;> simp [hcalm]
  · rfl

theorem run_aborts (text : ReadRunError → String) {runner : Runner ReadState ReadRunError}
    {ract : RunnerAct ReadAct} {out : RunnerOut ReadReport}
    (hmove : s.runner.Move (readTask ctx) c ract runner out)
    (hworld : (ReadRunAct.run ract).ofWorld = false) (habort : runner.abort = true) :
    s.runner.abort = true ∨ runner.cancelled = true ∨
      (({ s with runner := { runner with abort := true } } : ReadRun).crew text c).Fails := by
  cases hmove with
  | respond res hf =>
    unfold Runner.respond at habort ⊢
    split_ifs at habort ⊢
    · exact .inr (.inl rfl)
    · exact .inl habort
    · exact .inl habort
  | item i entry st iact res hi hstep =>
    cases res with
    | fail err =>
      have hlt := (List.getElem?_eq_some_iff.mp hi).1
      have hfailed : (s.runner.stepItem i entry (.fail err : ReadItemStep)).1.tasks[i]? =
          some (.finished (.error err)) := by
        simp [Runner.stepItem, Runner.setTask, hlt]
      exact .inr (.inr (crew_fails hfailed))
    | _ => exact .inl habort
  | joinErr i firstErr err hrun hi => exact .inr (.inr (crew_fails hi))
  | abort => cases hworld
  | _ => exact .inl habort

theorem Move.flags (text : ReadRunError → String) (hcalm : s.panicked = [])
    (hworld : act.ofWorld = false) (hact : act.panics = false) (hmove : s.Move ctx c act s') :
    Flagged text c s s' := by
  cases hmove with
  | run ract runner out hrunner =>
    have hjoins := joinsPanicked_calm hcalm ract
    refine ⟨?_, fun h => hrunner.cancelled_stays h⟩
    intro habort
    have hset : runner.abort = true := by simpa [hjoins] using habort
    simpa [hset] using run_aborts text hrunner hworld hset
  | taskPanics => cases hact
  | fetcherPanics | producerPanics => exact ⟨.inl, id⟩

theorem CrewMove.blamed {c c' : Crew} (h : CrewMove c c') (hblamed : c.Blamed) : c'.Blamed := by
  cases h with
  | stays heq =>
    rw [heq]
    exact hblamed
  | step act aborts hstep => exact (Crew.step_move hstep).blamed hblamed

end ReadRun

namespace CheckedRun

variable {P : ReadParams} {s s' : CheckedRun} {act : CheckedAct} {u : Unit}

structure Linked (P : ReadParams) (s : CheckedRun) : Prop where
  marked : s.read.Marked
  calm : s.read.panicked = []
  crew : ∃ joined, s.job.runners[P.index]? = some ⟨s.read.crew P.text P.concurrency, joined⟩
  abort : s.job.abort = s.read.runner.abort
  cancelled : s.job.cancelled = s.read.runner.cancelled
  accounted : s.job.Accounted

theorem Linked.stepJob {act : MixedAct} {job : MixedRun} (h : Linked P s)
    (hrunner : act.runner? ≠ some P.index) (hact : act.panics = false)
    (hmove : s.job.Move act job) :
    Linked P
      { job
        read := { s.read with
          runner := { s.read.runner with
            abort := job.abort
            cancelled := job.cancelled } } } := by
  obtain ⟨joined, hcrew⟩ := h.crew
  refine ⟨⟨h.marked.tasks, h.marked.fetcher⟩, h.calm, ?_, rfl, rfl, h.accounted.move hact hmove⟩
  cases hmove with
  | runner k cact r crew aborts hr hstep =>
    have hne : k ≠ P.index := by
      rintro rfl
      exact hrunner rfl
    exact ⟨joined, (List.getElem?_set_ne hne).trans hcrew⟩
  | join k r res hr hres hjoined =>
    by_cases hk : k = P.index
    · subst hk
      obtain rfl := Option.some.inj (hr.symm.trans hcrew)
      refine ⟨true, ?_⟩
      simp [(List.getElem?_eq_some_iff.mp hr).1]
      rfl
    · exact ⟨joined, (List.getElem?_set_ne hk).trans hcrew⟩
  | finish | cancel | unknownJob => exact ⟨joined, hcrew⟩

theorem sound_crew {job : MixedRun} (h : job.Sound) {k : Nat} {r : RunnerHandle} {crew : Crew}
    (hr : job.runners[k]? = some r) (hmove : ReadRun.CrewMove r.crew crew)
    (abort cancelled : Bool) :
    { job with
      runners := job.runners.set k { r with crew }
      abort
      cancelled }.Sound := by
  cases hmove with
  | stays heq =>
    obtain ⟨hlt, hget⟩ := List.getElem?_eq_some_iff.mp hr
    have hself : job.runners.set k { r with crew } = job.runners := by
      rw [heq, ← hget, List.set_getElem_self]
    rw [hself]
    exact ⟨h.crews, h.joined, h.outcome⟩
  | step act aborts hstep =>
    have hnext := h.runner hr (Crew.step_move hstep)
    exact ⟨hnext.crews, hnext.joined, hnext.outcome⟩

theorem Linked.stepRead {act : ReadRunAct} {read : ReadRun} {r : RunnerHandle} (h : Linked P s)
    (hworld : act.ofWorld = false) (hact : act.panics = false)
    (hr : s.job.runners[P.index]? = some r)
    (hstep : s.read.step P.ctx P.concurrency act = some read) :
    Linked P
      { read
        job := { s.job with
          runners := s.job.runners.set P.index { r with crew := read.crew P.text P.concurrency }
          abort := read.runner.abort
          cancelled := read.runner.cancelled } } ∧
      (s.job.Faulted → read.runner.cancelled = true ∨
        ∃ q ∈ s.job.runners.set P.index { r with crew := read.crew P.text P.concurrency },
          q.crew.Blamed) := by
  obtain ⟨joined, hcrew⟩ := h.crew
  obtain rfl := Option.some.inj (hr.symm.trans hcrew)
  have hrow := ReadRun.step_move hstep
  have hmarked := hrow.marked h.marked
  have hmove := hrow.crewMove P.text h.marked
  have hcalm : read.panicked = [] := (hrow.panicked hact).trans h.calm
  have hflags := hrow.flags P.text h.calm hworld hact
  have hlt := (List.getElem?_eq_some_iff.mp hr).1
  have hfaulted : s.job.Faulted → read.runner.cancelled = true ∨
      ∃ q ∈ s.job.runners.set P.index ⟨read.crew P.text P.concurrency, joined⟩,
        q.crew.Blamed := by
    intro hold
    refine (MixedRun.faulted_set _ hr hmove.blamed hold).imp_left fun hcancelled => ?_
    exact hflags.cancelled (h.cancelled.symm.trans hcancelled)
  refine ⟨⟨hmarked, hcalm, ⟨joined, by simp [hlt]⟩, rfl, rfl, ?_⟩, hfaulted⟩
  refine ⟨sound_crew h.accounted.sound hr hmove _ _,
    Pool.forall_set h.accounted.calm (ReadRun.crew_calm hcalm), ?_⟩
  intro habort
  rcases hflags.abort habort with hold | hcancelled | hfails
  · exact hfaulted (h.accounted.abort (h.abort.trans hold))
  · exact .inl hcancelled
  · exact .inr ⟨_, List.mem_set hlt _, .inl hfails⟩

def WorksOn (s : CheckedRun) (i : Nat) (entry : FileEntry) (st : ReadState) : Prop :=
  s.read.runner.tasks[i]? = some (.item entry st)

/-- A file that was read to its end goes to the check, and no further before the check has
returned `Ok`. -/
structure FilesChecked (ctx : ReadContext) (tr : CheckedTrace) : Prop where
  passed : ∀ e ∈ tr, ∀ i entry r, e.pre.WorksOn i entry (.checkFlags r) →
    e.post.WorksOn i entry (.checkFlags r) ∨
      ∃ hash, hashFor ctx r.seen = some hash ∧ e.post.WorksOn i entry (.check r hash)
  checked : ∀ e ∈ tr, ∀ i entry r hash, e.pre.WorksOn i entry (.check r hash) →
    e.post.WorksOn i entry (.check r hash) ∨
      ∃ size, e.act = .read (.run (.task i (.item (.checked (.ok size)))))

variable {ctx : ReadContext} {tr : CheckedTrace} {e : Event CheckedRun CheckedAct Unit}

theorem FilesChecked.snoc (h : FilesChecked ctx tr) (he : FilesChecked ctx [e]) :
    FilesChecked ctx (tr ++ [e]) where
  passed e' he' := by
    rcases List.mem_append.mp he' with he' | he'
    · exact h.passed e' he'
    · exact he.passed e' he'
  checked e' he' := by
    rcases List.mem_append.mp he' with he' | he'
    · exact h.checked e' he'
    · exact he.checked e' he'

theorem FilesChecked.same (h : ∀ i entry st, st.stream? = none → e.pre.WorksOn i entry st →
    e.post.WorksOn i entry st) : FilesChecked ctx [e] where
  passed e' he' i entry r hi := by
    obtain rfl := List.mem_singleton.mp he'
    exact .inl (h i entry _ rfl hi)
  checked e' he' i entry r hash hi := by
    obtain rfl := List.mem_singleton.mp he'
    exact .inl (h i entry _ rfl hi)

/-- What is known of a run as long as nobody is to blame. -/
structure Checking (P : ReadParams) (tr : CheckedTrace) (s : CheckedRun) : Prop where
  hashed : ∀ t ∈ s.read.runner.tasks, t.Holds (ReadState.Hashed P.ctx)
  files : FilesChecked P.ctx tr

theorem Checking.stepRun {ract : RunnerAct ReadAct} {runner : Runner ReadState ReadRunError}
    {out : RunnerOut ReadReport} (h : Checking P tr s) (hclient : P.ctx.consistency = true)
    (hstop : s.read.runner.stop = false)
    (hmove : s.read.runner.Move (readTask P.ctx) P.concurrency ract runner out)
    (hpre : e.pre = s) (hact : e.act = .read (.run ract))
    (htasks : e.post.read.runner.tasks = runner.tasks)
    (hgood : ∀ (i : Nat) (err : ReadRunError), runner.tasks[i]? ≠ some (.finished (.error err))) :
    Checking P (tr ++ [e]) e.post := by
  refine ⟨?_, h.files.snoc ⟨?_, ?_⟩⟩
  · rw [htasks]
    refine hmove.holds h.hashed (fun _ => trivial) ?_
    intro i entry st st' iact _ _ hst hstep
    rw [hstop] at hstep
    exact hst.move (ReadState.step_move hstep)
  · intro e' he' i entry r hi
    obtain rfl := List.mem_singleton.mp he'
    rw [hpre] at hi
    unfold WorksOn at hi ⊢
    simp only [htasks]
    rcases hmove.keeps_item hi with hkept | ⟨iact, res, -, hstep, rfl⟩
    · exact .inl hkept
    · rw [hstop] at hstep
      have hhashed : r.hasher = hashFor P.ctx r.seen := h.hashed _ (List.mem_of_getElem? hi)
      have hlt := (List.getElem?_eq_some_iff.mp hi).1
      cases ReadState.step_move hstep with
      | leave _ hleft => cases hleft
      | done _ _ hnone =>
        rw [hnone] at hhashed
        simp [hashFor, hclient] at hhashed
      | check _ hash _ hhash =>
        refine .inr ⟨hash, hhashed.symm.trans hhash, ?_⟩
        simp [Runner.stepItem, Runner.setTask, hlt]
      | stream _ _ _ _ _ hstream => cases hstream
  · intro e' he' i entry r hash hi
    obtain rfl := List.mem_singleton.mp he'
    rw [hpre] at hi
    unfold WorksOn at hi ⊢
    simp only [htasks]
    rcases hmove.keeps_item hi with hkept | ⟨iact, res, hract, hstep, rfl⟩
    · exact .inl hkept
    · have hlt := (List.getElem?_eq_some_iff.mp hi).1
      cases ReadState.step_move hstep with
      | checked _ _ size => exact .inr ⟨size, by rw [hact, hract]⟩
      | mismatch _ _ err =>
        refine absurd ?_ (hgood i (.consistency r.path err.message))
        simp [Runner.stepItem, Runner.setTask, hlt]
      | stream _ _ _ _ _ hstream => cases hstream

theorem Checking.fetcherPanics {read : ReadRun} (h : Checking P tr s) (hpre : e.pre = s)
    (hpost : e.post.read = read) (htasks : read.runner.tasks = s.read.runner.tasks) :
    Checking P (tr ++ [e]) e.post := by
  refine ⟨by rw [hpost, htasks]; exact h.hashed, h.files.snoc (.same ?_)⟩
  intro i entry st _ hi
  unfold WorksOn at hi ⊢
  rw [hpost, htasks]
  rw [hpre] at hi
  exact hi

theorem Checking.producerPanics {read : ReadRun} (h : Checking P tr s) {j : Nat}
    {entry' : FileEntry} {st' : ReadState} {stream : ReadStream}
    (hj : s.read.runner.tasks[j]? = some (.item entry' st')) (hstream : st'.stream? = some stream)
    (hpre : e.pre = s) (hpost : e.post.read = read)
    (htasks : read.runner.tasks =
      s.read.runner.tasks.set j (.item entry' (st'.setStream stream.cut))) :
    Checking P (tr ++ [e]) e.post := by
  constructor
  · rw [hpost, htasks]
    have hold : st'.Hashed P.ctx := h.hashed _ (List.mem_of_getElem? hj)
    exact Pool.forall_set h.hashed (show TaskPc.Holds _ (.item _ _) from hold.setStream)
  · refine h.files.snoc (.same ?_)
    intro i entry st hnone hi
    unfold WorksOn at hi ⊢
    rw [hpost, htasks]
    rw [hpre] at hi
    have hne : j ≠ i := by
      rintro rfl
      rw [hj] at hi
      cases hi
      rw [hstream] at hnone
      cases hnone
    rwa [List.getElem?_set_ne hne]

theorem Linked.init {text : ReadRunError → String} {ctx : ReadContext} {spec : Spec.BenchSpec}
    (hread : spec.read.isSome = true) :
    Linked (readParams text ctx spec) ⟨.start spec, .init⟩ where
  marked := by
    refine ⟨?_, ?_⟩
    · intro i hi
      cases hi
    · intro h
      cases h
  calm := rfl
  crew := by
    obtain ⟨read, hread⟩ := Option.isSome_iff_exists.mp hread
    refine ⟨false, ?_⟩
    rw [ReadRun.crew_init]
    cases hwrite : spec.write <;> cases hmd : spec.metadata <;>
      simp [MixedRun.start, readParams, hread, hwrite, hmd]
  abort := rfl
  cancelled := rfl
  accounted := .start spec

/-- The invariant of a run: files are checked as long as nobody is to blame. -/
structure Watched (P : ReadParams) (tr : CheckedTrace) (s : CheckedRun) : Prop where
  linked : Linked P s
  checking : ¬ s.job.Faulted → Checking P tr s

theorem Linked.stop (h : Linked P s) (hgood : ¬ s.job.Faulted) :
    s.read.runner.stop = false := by
  have habort : s.read.runner.abort = false := by
    by_contra hset
    exact hgood (h.accounted.abort (h.abort.trans (by simpa using hset)))
  have hcancelled : s.read.runner.cancelled = false := by
    by_contra hset
    exact hgood (.inl (h.cancelled.trans (by simpa using hset)))
  simp [Runner.stop, habort, hcancelled]

theorem Linked.no_error (h : Linked P s) (hgood : ¬ s.job.Faulted) (i : Nat)
    (err : ReadRunError) : s.read.runner.tasks[i]? ≠ some (.finished (.error err)) := by
  intro hfailed
  obtain ⟨joined, hcrew⟩ := h.crew
  have hfails : (s.read.crew P.text P.concurrency).Fails := ReadRun.crew_fails hfailed
  exact hgood (.inr ⟨⟨_, joined⟩, List.mem_of_getElem? hcrew, .inl hfails⟩)

theorem Watched.step (h : Watched P tr s) (hclient : P.ctx.consistency = true)
    (hact : act.panics = false) (hstep : CheckedRun.step P s act = some (s', u)) :
    Watched P (tr ++ [⟨s, act, u, s'⟩]) s' := by
  cases act with
  | job act =>
    unfold CheckedRun.step at hstep
    simp only at hstep
    split at hstep
    · cases hstep
    · next hrunner =>
      obtain ⟨⟨job, u⟩, hjob, heq⟩ := Option.map_eq_some_iff.mp hstep
      cases heq
      have hmove := MixedRun.step_move hjob
      refine ⟨h.linked.stepJob hrunner hact hmove, fun hgood => ?_⟩
      have hold := h.checking fun hfaulted => hgood (hmove.faulted hfaulted)
      exact ⟨hold.hashed, hold.files.snoc (.same fun i entry st _ hi => hi)⟩
  | read ract =>
    unfold CheckedRun.step at hstep
    simp only at hstep
    split at hstep
    · cases hstep
    · next hworld =>
      obtain ⟨r, hr, hstep⟩ := Option.bind_eq_some_iff.mp hstep
      obtain ⟨read, hread, heq⟩ := Option.bind_eq_some_iff.mp hstep
      cases heq
      obtain ⟨hlinked, hfaulted⟩ := h.linked.stepRead (by simpa using hworld) hact hr hread
      refine ⟨hlinked, fun hgood => ?_⟩
      have hbefore : ¬ s.job.Faulted := fun hold => hgood (hfaulted hold)
      have hold := h.checking hbefore
      cases ReadRun.step_move hread with
      | run ract runner out hrunner =>
        exact hold.stepRun hclient (h.linked.stop hbefore) hrunner rfl rfl rfl
          (hlinked.no_error hgood)
      | taskPanics => cases hact
      | fetcherPanics => exact hold.fetcherPanics rfl rfl rfl
      | producerPanics j entry st stream hj hstream =>
        exact hold.producerPanics hj hstream rfl rfl rfl

theorem watched {text : ReadRunError → String} {ctx : ReadContext} {spec : Spec.BenchSpec}
    (hread : spec.read.isSome = true) (hclient : ctx.consistency = true)
    (hrun : (checkedRun text ctx spec).Run (checkedRun text ctx spec).init tr s)
    (hcalm : ∀ e ∈ tr, e.act.panics = false) : Watched (readParams text ctx spec) tr s := by
  refine hrun.historyWhere (fun _ act => act.panics = false)
    (P := Watched (readParams text ctx spec)) hcalm ?_ ?_
  · refine ⟨.init hread, fun _ => ⟨?_, ?_, ?_⟩⟩
    · intro t ht
      cases ht
    · intro e he
      cases he
    · intro e he
      cases he
  · intro tr s act s' u _ _ h hact hstep
    exact h.step hclient hact hstep

theorem Linked.finished (h : Linked P s) (hall : ∀ r ∈ s.job.runners, r.crew.handle = some .ok) :
    ∀ t ∈ s.read.runner.tasks, t.isFinished = true := by
  obtain ⟨joined, hcrew⟩ := h.crew
  have hmem := List.mem_of_getElem? hcrew
  have hmain := MixedRun.handle_ok (hall _ hmem)
  intro t ht
  obtain ⟨i, hi⟩ := List.mem_iff_getElem?.mp ht
  have hget := ReadRun.crew_getTask P.text P.concurrency hi
  obtain ⟨res, hres⟩ := (h.accounted.sound.crews _ hmem).ended hmain _ (List.mem_of_getElem? hget)
  by_contra hrunning
  rw [ReadRun.taskEnd_none (by simpa using hrunning)] at hres
  cases hres

end CheckedRun

/-- The check has a client exactly if the metadata workload has no manifest. Then a job that
succeeds without having been cancelled has checked every file that it has read, if no task of
a runner has panicked. -/
theorem consistency_never_off {job : AssignedJob} {calls : PreflightCalls} {p : Preflight}
    (hcheck : (job.spec.read.bind (·.s3ConsistencyCheck)).isSome = true)
    (hpre : (job.runPreflight calls).2 = .ok p) :
    (p.consistency.isSome = true ↔ ∀ md, job.spec.metadata = some md → md.dirManifest = none) ∧
      ((∀ md, job.spec.metadata = some md → md.dirManifest = none) →
        ∀ (text : ReadRunError → String) (tr : CheckedTrace) (s : CheckedRun),
          (checkedRun text (job.readContext p) job.spec).Run
            (checkedRun text (job.readContext p) job.spec).init tr s →
          (∀ e ∈ tr, e.act.panics = false) →
          ∀ outcome, s.job.outcome = some outcome →
            outcome.result s.job.cancelled = (true, none) →
            CheckedRun.FilesChecked (job.readContext p) tr ∧
              ∀ t ∈ s.read.runner.tasks, t.isFinished = true) := by
  have hclient := AssignedJob.preflight_client_iff hcheck hpre
  refine ⟨hclient, ?_⟩
  intro hmanifest text tr s hrun hcalm outcome hout hres
  have hread : job.spec.read.isSome = true := by
    cases hnone : job.spec.read with
    | none => simp [hnone] at hcheck
    | some read => rfl
  have hwatched := CheckedRun.watched hread (hclient.mpr hmanifest) hrun hcalm
  obtain ⟨hall, hgood⟩ := hwatched.linked.accounted.not_faulted hout hres
  exact ⟨(hwatched.checking hgood).files, hwatched.linked.finished hall⟩

namespace Small

def checkedResp (metadata : Option Proto.MetadataConfig) : FetchJobResponse :=
  { jobId := some "0a1b2c3d-0000-4000-8000-00000000000a"
    spec := some (Spec.redactInPlace { compared true with metadata })
    mountPoint := some "/mnt", workerIndex := some 0
    s3Credentials := some ⟨"A", "one", ""⟩, masterNowMs := 1000 }

def checkedJob (metadata : Option Spec.MetadataConfig) : AssignedJob where
  workerId := "w"
  jobId := "0a1b2c3d-0000-4000-8000-00000000000a"
  mountPoint := "/mnt"
  spec :=
    { parsed true with
      read := some
        { concurrency := 1, source := .fileManifest "/data/files.csv", thinkTime := none
          rateLimit := none, loopFiles := false
          s3ConsistencyCheck :=
            (Spec.redactInPlace (compared true)).read.bind (·.s3ConsistencyCheck) }
      metadata }
  consistencyCheck := (Spec.redactInPlace (compared true)).read.bind (·.s3ConsistencyCheck)
  s3Credentials := some ⟨"A", "one", ""⟩

def dirManifest : Proto.MetadataConfig :=
  { concurrency := 1, dir := "", ops := ["stat"], depth := 0, width := 0, filesPerDir := 0
    thinkTime := "", rateLimit := "", layoutConcurrency := 0, readOnly := false
    readOnlyScanLimit := 0, dirManifest := "/data/dirs.csv" }

def parsedManifest : Spec.MetadataConfig :=
  { concurrency := 1, dir := "", dirManifest := some "/data/dirs.csv", ops := [.stat]
    readOnly := false, readOnlyScanLimit := 0, depth := 0, width := 0, filesPerDir := 0
    layoutConcurrency := 1, thinkTime := none, rateLimit := none }

def clientBuilt : PreflightCalls := { allWell with buildClient := .ok s3Client }

def checkedOnce : List CheckedAct :=
  wholeRead.map (.read ∘ .run) ++ [.job (.join 0), .job .finish]

def uncheckedOnce : List CheckedAct :=
  (wholeRead.take 30 ++ wholeRead.drop 31).map (.read ∘ .run) ++
    ([.runner 0 .main, .runner 0 .main, .runner 0 (.task 0 .ok), .runner 0 .main,
      .runner 0 .main, .runner 0 (.fetcher 0 .ok), .runner 0 .main, .join 0, .join 1,
      .finish] : List MixedAct).map .job

def unrendered : ReadRunError → String
  | .io _ _ source => source
  | .pathEscape _ path => path
  | .consistency _ message => message

end Small

theorem consistency_never_off_small :
    CheckedRun.FilesChecked ⟨"/mnt", false, true⟩
      ((checkedRun Small.unrendered ⟨"/mnt", false, true⟩ (Small.checkedJob none).spec).trace
        (checkedRun Small.unrendered ⟨"/mnt", false, true⟩ (Small.checkedJob none).spec).init
        Small.checkedOnce) := by
  obtain ⟨-, hchecked⟩ := consistency_never_off
    (show ((Small.checkedJob none).spec.read.bind (·.s3ConsistencyCheck)).isSome = true from rfl)
    (show ((Small.checkedJob none).runPreflight Small.clientBuilt).2 =
      .ok ⟨none, none, some Small.s3Client⟩ from rfl)
  have hmanifest : ∀ md, (Small.checkedJob none).spec.metadata = some md →
      md.dirManifest = none := by
    intro md hmd
    cases hmd
  exact (hchecked hmanifest Small.unrendered _ _
    ((checkedRun Small.unrendered ⟨"/mnt", false, true⟩ (Small.checkedJob none).spec).run_play _
      Small.checkedOnce) (by decide) .ok rfl rfl).1

/-- The accepted job has its check configured, but the manifest keeps the client from it: the
file is read, not checked, and the job is a success. -/
theorem manifest_turns_check_off :
    assignment "w" (Small.checkedResp (some Small.dirManifest)) =
        .accepted (Small.checkedJob (some Small.parsedManifest)) ∧
      ((Small.checkedJob (some Small.parsedManifest)).spec.read.bind
        (·.s3ConsistencyCheck)).isSome = true ∧
      ((Small.checkedJob (some Small.parsedManifest)).runPreflight Small.clientBuilt).2 =
        .ok ⟨none, none, none⟩ ∧
      ((checkedRun Small.unrendered ⟨"/mnt", false, false⟩
          (Small.checkedJob (some Small.parsedManifest)).spec).play
        (checkedRun Small.unrendered ⟨"/mnt", false, false⟩
          (Small.checkedJob (some Small.parsedManifest)).spec).init
        Small.uncheckedOnce).job.outcome = some .ok ∧
      ¬ CheckedRun.FilesChecked ⟨"/mnt", false, false⟩
        ((checkedRun Small.unrendered ⟨"/mnt", false, false⟩
            (Small.checkedJob (some Small.parsedManifest)).spec).trace
          (checkedRun Small.unrendered ⟨"/mnt", false, false⟩
            (Small.checkedJob (some Small.parsedManifest)).spec).init
          Small.uncheckedOnce) := by
  refine ⟨rfl, rfl, rfl, rfl, fun hchecked => ?_⟩
  -- the step at which the task asks for its hasher
  have hpassed := hchecked.passed _ (List.getElem_mem (n := 29) (by decide)) 0 Small.entry
    ⟨"/mnt/f", .closes [[7]],
      { direct := false, pending := [], sync := [], producer := .done, chan := []
        rxOpen := false },
      [.ok .opened, .ok (.chunk [7]), .ok .closed], none⟩ rfl
  rcases hpassed with hstays | ⟨hash, hhash, -⟩
  · cases hstays
  · cases hhash

end CvdBench.Worker
