import CvdBench.Worker.Crew

/-!
Whether success means that every task has succeeded: it does for the runners in which nothing
panics, and for those in which some task returns an error.
-/

set_option autoImplicit false

namespace CvdBench.Worker

open Foundation

namespace Crew

structure AllOk (c : Crew) : Prop where
  tasks : ∀ t ∈ c.tasks, t.ended = some .ok
  producers : ∀ t ∈ c.tasks, ∀ p ∈ t.producers, p = some .ok
  fetchers : ∀ f ∈ c.fetchers, f = some .ok

def Fails (c : Crew) : Prop := ∃ t ∈ c.tasks, ∃ err, t.ended = some (.err err)

inductive Panics (c : Crew) : Prop where
  | task (t : CrewTask) : t ∈ c.tasks → t.ended = some .panicked → Panics c
  | producer (t : CrewTask) (p : Option (TaskEnd Empty)) :
      t ∈ c.tasks → p ∈ t.producers → p = some .panicked → Panics c
  | fetcher (f : Option (TaskEnd Empty)) : f ∈ c.fetchers → f = some .panicked → Panics c

def ends (c : Crew) : List (Option (TaskEnd String)) := c.tasks.map CrewTask.ended

end Crew

def CrewPc.joined (n : Nat) : CrewPc → Nat
  | .spawn | .panicked => 0
  | .join i _ => i
  | .awaitFetcher _ | .returned _ => n

def CrewPc.failed : CrewPc → Bool
  | .join _ firstErr | .awaitFetcher firstErr => firstErr.isSome
  | .returned (.error _) => true
  | .spawn | .returned (.ok ()) | .panicked => false

def CrewPc.isReturned : CrewPc → Bool
  | .returned _ => true
  | _ => false

def FailedBelow (ends : List (Option (TaskEnd String))) (n : Nat) : Prop :=
  ∃ j, j < n ∧ ∃ err, ends[j]? = some (some (.err err))

def EndedBelow (ends : List (Option (TaskEnd String))) (n : Nat) : Prop :=
  ∀ j, j < n → ∃ res, ends[j]? = some (some res)

section

variable {ends : List (Option (TaskEnd String))} {n i : Nat}

theorem EndedBelow.succ (h : EndedBelow ends i) {res : TaskEnd String}
    (hi : ends[i]? = some (some res)) : EndedBelow ends (i + 1) := by
  intro j hj
  rcases Nat.lt_succ_iff_lt_or_eq.mp hj with hlt | rfl
  · exact h j hlt
  · exact ⟨res, hi⟩

theorem FailedBelow.succ_iff {res : TaskEnd String} (hi : ends[i]? = some (some res)) :
    FailedBelow ends (i + 1) ↔ FailedBelow ends i ∨ res.isErr = true := by
  constructor
  · rintro ⟨j, hj, err, herr⟩
    rcases Nat.lt_succ_iff_lt_or_eq.mp hj with hlt | rfl
    · exact .inl ⟨j, hlt, err, herr⟩
    · rw [hi] at herr
      obtain rfl := Option.some.inj (Option.some.inj herr)
      exact .inr rfl
  · rintro (⟨j, hj, err, herr⟩ | herr)
    · exact ⟨j, by omega, err, herr⟩
    · cases res with
      | err err => exact ⟨i, by omega, err, hi⟩
      | ok | panicked => cases herr

theorem EndedBelow.set (h : EndedBelow ends n) (hi : ends[i]? = some none)
    (res : Option (TaskEnd String)) : EndedBelow (ends.set i res) n ∧
      (FailedBelow (ends.set i res) n ↔ FailedBelow ends n) := by
  have hne : ∀ j, j < n → i ≠ j := by
    rintro j hj rfl
    obtain ⟨res', hres⟩ := h i hj
    rw [hi] at hres
    cases hres
  constructor
  · intro j hj
    rw [List.getElem?_set_ne (hne j hj)]
    exact h j hj
  · constructor
    · rintro ⟨j, hj, err, herr⟩
      rw [List.getElem?_set_ne (hne j hj)] at herr
      exact ⟨j, hj, err, herr⟩
    · rintro ⟨j, hj, err, herr⟩
      exact ⟨j, hj, err, by rwa [List.getElem?_set_ne (hne j hj)]⟩

end

/-- The producers of a task that has not panicked have ended before it. -/
def CrewTask.Settled (t : CrewTask) : Prop :=
  ∀ res, t.ended = some res → res ≠ .panicked → ∀ p ∈ t.producers, p.isSome = true

structure Crew.Collected (c : Crew) : Prop where
  settled : ∀ t ∈ c.tasks, t.Settled
  joined : EndedBelow c.ends (c.main.joined c.ends.length)
  failed : c.main.failed = true ↔ FailedBelow c.ends (c.main.joined c.ends.length)
  fetchers : c.main.isReturned = true → ∀ f ∈ c.fetchers, f.isSome = true

namespace Crew

variable {c c' : Crew} {aborts : Bool}

theorem Collected.spawn (kind : RunnerKind) (concurrency : Nat) :
    (Crew.spawn kind concurrency).Collected where
  settled t ht := by cases ht
  joined j hj := absurd hj (Nat.not_lt_zero j)
  failed := by simp [Crew.spawn, CrewPc.failed, CrewPc.joined, FailedBelow]
  fetchers h := by cases h

theorem Collected.setTask (h : c.Collected) {i : Nat} {t t' : CrewTask} (hi : c.tasks[i]? = some t)
    (hends : t.ended = none ∨ t'.ended = t.ended) (hsettled : t'.Settled) :
    { c with tasks := c.tasks.set i t' }.Collected := by
  have hset : (c.tasks.set i t').map CrewTask.ended = c.ends.set i t'.ended := List.map_set
  have hget : c.ends[i]? = some t.ended := by simp [Crew.ends, hi]
  have hkept : EndedBelow (c.ends.set i t'.ended) (c.main.joined c.ends.length) ∧
      (FailedBelow (c.ends.set i t'.ended) (c.main.joined c.ends.length) ↔
        FailedBelow c.ends (c.main.joined c.ends.length)) := by
    rcases hends with hrunning | hsame
    · exact h.joined.set (hrunning ▸ hget) _
    · have hself : c.ends.set i t'.ended = c.ends := by
        obtain ⟨hlt, heq⟩ := List.getElem?_eq_some_iff.mp hget
        rw [hsame, ← heq, List.set_getElem_self]
      rw [hself]
      exact ⟨h.joined, .rfl⟩
  refine ⟨?_, ?_, ?_, h.fetchers⟩
  · intro u hu
    rcases List.mem_or_eq_of_mem_set hu with hu | rfl
    · exact h.settled u hu
    · exact hsettled
  · simpa [Crew.ends, hset] using hkept.1
  · simpa [Crew.ends, hset] using h.failed.trans hkept.2.symm

theorem Collected.join (h : c.Collected) {i : Nat} {firstErr : Option String} {t : CrewTask}
    {res : TaskEnd String} (hmain : c.main = .join i firstErr) (hi : c.tasks[i]? = some t)
    (hres : t.ended = some res) : (c.joinTask i firstErr res).1.Collected := by
  have hjoined := h.joined
  have hfailed := h.failed
  simp only [hmain, CrewPc.joined, CrewPc.failed] at hjoined hfailed
  have hends : c.ends[i]? = some (some res) := by simp [Crew.ends, hi, hres]
  have hnext := FailedBelow.succ_iff hends
  have hsame : res.isErr = false → (FailedBelow c.ends i ↔ FailedBelow c.ends (i + 1)) := by
    intro hgood
    rw [hnext, hgood]
    simp
  cases res with
  | ok =>
    refine ⟨h.settled, hjoined.succ hends, ?_, by simp [joinTask, CrewPc.isReturned]⟩
    exact hfailed.trans (hsame rfl)
  | err err =>
    refine ⟨h.settled, hjoined.succ hends, ?_, by simp [joinTask, CrewPc.isReturned]⟩
    exact iff_of_true (by cases firstErr <;> rfl) (hnext.mpr (.inr rfl))
  | panicked =>
    refine ⟨h.settled, hjoined.succ hends, ?_, by simp [joinTask, CrewPc.isReturned]⟩
    exact hfailed.trans (hsame rfl)

theorem Collected.past (h : c.Collected) {i : Nat} {firstErr : Option String}
    (hmain : c.main = .join i firstErr) (hi : c.tasks[i]? = none) :
    EndedBelow c.ends c.ends.length ∧
      (firstErr.isSome = true ↔ FailedBelow c.ends c.ends.length) := by
  have hjoined := h.joined
  have hfailed := h.failed
  simp only [hmain, CrewPc.joined, CrewPc.failed] at hjoined hfailed
  have hlen : c.ends.length ≤ i := by
    simpa [Crew.ends] using List.getElem?_eq_none_iff.mp hi
  refine ⟨fun j hj => hjoined j (by omega), hfailed.trans ?_⟩
  constructor
  · rintro ⟨j, -, err, herr⟩
    exact ⟨j, (List.getElem?_eq_some_iff.mp herr).1, err, herr⟩
  · rintro ⟨j, hj, herr⟩
    exact ⟨j, by omega, herr⟩

theorem Collected.move (h : c.Collected) {act : CrewAct} (hmove : c.Move act c' aborts) :
    c'.Collected := by
  cases hmove with
  | spawn hmain hlt =>
    refine ⟨?_, ?_, ?_, ?_⟩
    · intro t ht
      rcases List.mem_append.mp ht with ht | ht
      · exact h.settled t ht
      · rw [List.mem_singleton.mp ht]
        intro res hres
        cases hres
    · simp [hmain, CrewPc.joined, EndedBelow]
    · simp [hmain, CrewPc.failed, CrewPc.joined, FailedBelow]
    · simp [hmain, CrewPc.isReturned]
  | spawned hmain hge =>
    refine ⟨h.settled, ?_, ?_, by simp [CrewPc.isReturned]⟩
    · simp [CrewPc.joined, EndedBelow]
    · simp [CrewPc.failed, CrewPc.joined, FailedBelow]
  | join i firstErr t res hmain hi hres => exact h.join hmain hi hres
  | joined i firstErr hmain hi =>
    obtain ⟨hjoined, hfailed⟩ := h.past hmain hi
    exact ⟨h.settled, hjoined, hfailed, by simp [CrewPc.isReturned]⟩
  | returned firstErr hmain hfetchers =>
    have hjoined := h.joined
    have hfailed := h.failed
    simp only [hmain, CrewPc.joined, CrewPc.failed] at hjoined hfailed
    refine ⟨h.settled, hjoined, Iff.trans ?_ hfailed, fun _ => hfetchers⟩
    cases firstErr <;> simp [CrewPc.failed, firstResult]
  | mainPanics hrunning =>
    refine ⟨h.settled, ?_, ?_, by simp [CrewPc.isReturned]⟩
    · simp [CrewPc.joined, EndedBelow]
    · simp [CrewPc.failed, CrewPc.joined, FailedBelow]
  | fetcher i res hi =>
    refine ⟨h.settled, h.joined, h.failed, ?_⟩
    intro hmain f hf
    rcases List.mem_or_eq_of_mem_set hf with hf | rfl
    · exact h.fetchers hmain f hf
    · rfl
  | task i res producers hi hdone =>
    refine h.setTask hi (.inl rfl) ?_
    intro res' hres hne
    obtain rfl := Option.some.inj hres
    exact hdone hne
  | stream i producers hread hi hdone =>
    refine h.setTask hi (.inl rfl) ?_
    intro res hres
    cases hres
  | producer i j res t hi hj =>
    refine h.setTask hi (.inr rfl) ?_
    intro res' hres hne p hp
    rcases List.mem_or_eq_of_mem_set hp with hp | rfl
    · exact h.settled t (List.mem_of_getElem? hi) res' hres hne p hp
    · rfl

theorem Collected.returned_iff (h : c.Collected) {res : Except String Unit}
    (hmain : c.main = .returned res) : res = .ok () ↔ ¬ c.Fails := by
  have hfailed := h.failed
  have hfails : FailedBelow c.ends c.ends.length ↔ c.Fails := by
    constructor
    · rintro ⟨j, -, err, herr⟩
      simp only [Crew.ends, List.getElem?_map, Option.map_eq_some_iff] at herr
      obtain ⟨t, ht, hended⟩ := herr
      exact ⟨t, List.mem_of_getElem? ht, err, hended⟩
    · rintro ⟨t, ht, err, hended⟩
      obtain ⟨j, hj⟩ := List.mem_iff_getElem?.mp ht
      have herr : c.ends[j]? = some (some (.err err)) := by simp [Crew.ends, hj, hended]
      exact ⟨j, (List.getElem?_eq_some_iff.mp herr).1, err, herr⟩
  simp only [hmain, CrewPc.joined] at hfailed
  rw [← hfails, ← hfailed]
  cases res with
  | ok u => simp [CrewPc.failed]
  | error err => simp [CrewPc.failed]

theorem Collected.ended (h : c.Collected) {res : Except String Unit}
    (hmain : c.main = .returned res) : ∀ t ∈ c.tasks, ∃ res, t.ended = some res := by
  intro t ht
  obtain ⟨j, hj⟩ := List.mem_iff_getElem?.mp ht
  have hlt : j < c.ends.length := by
    simpa [Crew.ends] using (List.getElem?_eq_some_iff.mp hj).1
  obtain ⟨res, hres⟩ := h.joined j (by simpa [hmain, CrewPc.joined] using hlt)
  simp only [Crew.ends, List.getElem?_map, hj, Option.map_some, Option.some.injEq] at hres
  exact ⟨res, hres⟩

theorem Collected.allOk_iff (h : c.Collected) {res : Except String Unit}
    (hmain : c.main = .returned res) : c.AllOk ↔ ¬ c.Fails ∧ ¬ c.Panics := by
  constructor
  · intro hall
    constructor
    · rintro ⟨t, ht, err, herr⟩
      rw [hall.tasks t ht] at herr
      cases herr
    · rintro (⟨t, ht, hended⟩ | ⟨t, p, ht, hp, hended⟩ | ⟨f, hf, hended⟩)
      · rw [hall.tasks t ht] at hended
        cases hended
      · rw [hall.producers t ht p hp] at hended
        cases hended
      · rw [hall.fetchers f hf] at hended
        cases hended
  · rintro ⟨hgood, hcalm⟩
    have htasks : ∀ t ∈ c.tasks, t.ended = some .ok := by
      intro t ht
      obtain ⟨res, hres⟩ := h.ended hmain t ht
      cases res with
      | ok => exact hres
      | err err => exact absurd ⟨t, ht, err, hres⟩ hgood
      | panicked => exact absurd (.task t ht hres) hcalm
    refine ⟨htasks, ?_, ?_⟩
    · intro t ht p hp
      have hsome := h.settled t ht _ (htasks t ht) (by simp) p hp
      obtain ⟨res, rfl⟩ := Option.isSome_iff_exists.mp hsome
      cases res with
      | ok => rfl
      | err err => cases err
      | panicked => exact absurd (.producer t _ ht hp rfl) hcalm
    · intro f hf
      have hsome := h.fetchers (by rw [hmain]; rfl) f hf
      obtain ⟨res, rfl⟩ := Option.isSome_iff_exists.mp hsome
      cases res with
      | ok => rfl
      | err err => cases err
      | panicked => exact absurd (.fetcher _ hf rfl) hcalm

theorem Move.handle {act : CrewAct} (hmove : c.Move act c' aborts) {res : TaskEnd String}
    (hres : c.handle = some res) : c'.handle = some res := by
  cases hmove with
  | spawn hmain | spawned hmain | join _ _ _ _ hmain | joined _ _ hmain | returned _ hmain =>
    simp [Crew.handle, hmain] at hres
  | mainPanics hrunning =>
    rw [hrunning] at hres
    cases hres
  | fetcher | task | stream | producer => exact hres

end Crew

/-- Success, of a runner and of the job, means that everything spawned has succeeded. -/
structure SuccessMeansAllOk (s : MixedRun) : Prop where
  runner : ∀ r ∈ s.runners, ∀ res, r.crew.main = .returned res → (res = .ok () ↔ r.crew.AllOk)
  outcome : s.outcome = some .ok → ∀ r ∈ s.runners, r.crew.AllOk
  reported : ∀ outcome wasCancelled, s.outcome = some outcome →
    (outcome.result wasCancelled).1 = true → ∀ r ∈ s.runners, r.crew.AllOk

namespace MixedRun

structure Sound (s : MixedRun) : Prop where
  crews : ∀ r ∈ s.runners, r.crew.Collected
  joined : s.firstErr = none → ∀ r ∈ s.runners, r.joined = true → r.crew.handle = some .ok
  outcome : ∀ outcome, s.outcome = some outcome → (∃ error, outcome = .failed error) ∨
    ∀ r ∈ s.runners, r.crew.handle = some .ok

variable {s s' : MixedRun} {act : MixedAct} {u : Unit}

theorem Sound.start (spec : Spec.BenchSpec) : (start spec).Sound where
  crews r hr := by
    obtain ⟨kind, concurrency, rfl⟩ := mem_start hr
    exact .spawn kind concurrency
  joined _ r hr hjoined := by
    obtain ⟨kind, concurrency, rfl⟩ := mem_start hr
    cases hjoined
  outcome _ h := by cases h

theorem Sound.runner (h : s.Sound) {k : Nat} {r : RunnerHandle} {crew : Crew} {cact : CrewAct}
    {aborts : Bool} (hr : s.runners[k]? = some r) (hmove : r.crew.Move cact crew aborts) :
    { s with
      runners := s.runners.set k { r with crew }
      abort := s.abort || aborts }.Sound := by
  have hmem := List.mem_of_getElem? hr
  refine ⟨?_, ?_, ?_⟩
  · intro r' hr'
    rcases List.mem_or_eq_of_mem_set hr' with hr' | rfl
    · exact h.crews r' hr'
    · exact (h.crews r hmem).move hmove
  · intro hnone r' hr' hjoined
    rcases List.mem_or_eq_of_mem_set hr' with hr' | rfl
    · exact h.joined hnone r' hr' hjoined
    · exact hmove.handle (h.joined hnone r hmem hjoined)
  · intro outcome houtcome
    refine (h.outcome outcome houtcome).imp_right fun hall r' hr' => ?_
    rcases List.mem_or_eq_of_mem_set hr' with hr' | rfl
    · exact hall r' hr'
    · exact hmove.handle (hall r hmem)

theorem Sound.join (h : s.Sound) {k : Nat} {r : RunnerHandle} {res : TaskEnd String}
    (hr : s.runners[k]? = some r) (hres : r.crew.handle = some res) :
    { s with
      runners := s.runners.set k { r with joined := true }
      firstErr := s.firstErr <|> joinError res
      abort := s.abort || (joinError res).isSome }.Sound := by
  have hmem := List.mem_of_getElem? hr
  refine ⟨?_, ?_, ?_⟩
  · intro r' hr'
    rcases List.mem_or_eq_of_mem_set hr' with hr' | rfl
    · exact h.crews r' hr'
    · exact h.crews r hmem
  · intro hnone r' hr' hjoined
    have hboth : s.firstErr = none ∧ joinError res = none := by
      cases hfirst : s.firstErr with
      | some err => simp [hfirst] at hnone
      | none => simpa [hfirst] using hnone
    obtain ⟨hold, hnew⟩ := hboth
    rcases List.mem_or_eq_of_mem_set hr' with hr' | rfl
    · exact h.joined hold r' hr' hjoined
    · cases res with
      | ok => exact hres
      | err err => cases hnew
      | panicked => cases hnew
  · intro outcome houtcome
    refine (h.outcome outcome houtcome).imp_right fun hall r' hr' => ?_
    rcases List.mem_or_eq_of_mem_set hr' with hr' | rfl
    · exact hall r' hr'
    · exact hall r hmem

theorem Sound.finish (h : s.Sound) (hall : ∀ r ∈ s.runners, r.joined = true) :
    { s with outcome := some s.result }.Sound := by
  refine ⟨h.crews, h.joined, ?_⟩
  intro outcome houtcome
  obtain rfl := Option.some.inj houtcome
  unfold MixedRun.result
  split
  · next hempty =>
    refine .inr fun r hr => ?_
    rw [List.isEmpty_iff.mp hempty] at hr
    cases hr
  · cases hfirst : s.firstErr with
    | some error => exact .inl ⟨error, rfl⟩
    | none => exact .inr fun r hr => h.joined hfirst r hr (hall r hr)

theorem Sound.move (h : s.Sound) (hmove : s.Move act s') : s'.Sound := by
  cases hmove with
  | runner k cact r crew aborts hr hcrew => exact h.runner hr hcrew
  | join k r res hr hres hjoined => exact h.join hr hres
  | finish hnone hall => exact h.finish hall
  | cancel => exact ⟨h.crews, h.joined, h.outcome⟩
  | unknownJob => exact ⟨h.crews, h.joined, h.outcome⟩

theorem sound {spec : Spec.BenchSpec} (h : (mixedRun spec).Reachable s) : s.Sound :=
  h.invariant (Sound.start spec) fun _ _ _ _ _ hs hstep => hs.move (step_move hstep)

theorem handle_ok {c : Crew} (h : c.handle = some .ok) : c.main = .returned (.ok ()) := by
  unfold Crew.handle at h
  split at h
  · next hmain => exact hmain
  · cases h
  · cases h
  · cases h

end MixedRun

theorem CrewPc.isReturned_iff {pc : CrewPc} : pc.isReturned = true ↔ ∃ res, pc = .returned res := by
  cases pc <;> simp [CrewPc.isReturned]

/-- Success means that everything has succeeded exactly if in every runner that has returned
nothing has panicked, or some task has returned an error. -/
theorem success_means_all_ok_iff {spec : Spec.BenchSpec} {s : MixedRun}
    (h : (mixedRun spec).Reachable s) :
    SuccessMeansAllOk s ↔
      ∀ r ∈ s.runners, r.crew.main.isReturned = true → ¬ r.crew.Panics ∨ r.crew.Fails := by
  have hsound := MixedRun.sound h
  constructor
  · intro hsuccess r hr hret
    obtain ⟨res, hmain⟩ := CrewPc.isReturned_iff.mp hret
    have hcollected := hsound.crews r hr
    by_cases hfails : r.crew.Fails
    · exact .inr hfails
    · have hall := (hsuccess.runner r hr res hmain).mp ((hcollected.returned_iff hmain).mpr hfails)
      exact .inl ((hcollected.allOk_iff hmain).mp hall).2
  · intro hcalm
    have hrunner : ∀ r ∈ s.runners, ∀ res, r.crew.main = .returned res →
        (res = .ok () ↔ r.crew.AllOk) := by
      intro r hr res hmain
      have hcollected := hsound.crews r hr
      rw [hcollected.returned_iff hmain, hcollected.allOk_iff hmain]
      constructor
      · intro hgood
        exact ⟨hgood, (hcalm r hr (by rw [hmain]; rfl)).resolve_right hgood⟩
      · exact fun hgood => hgood.1
    have houtcome : ∀ outcome, s.outcome = some outcome → (∀ error, outcome ≠ .failed error) →
        ∀ r ∈ s.runners, r.crew.AllOk := by
      intro outcome hout hgood r hr
      rcases hsound.outcome outcome hout with ⟨error, herror⟩ | hall
      · exact absurd herror (hgood error)
      · exact (hrunner r hr _ (MixedRun.handle_ok (hall r hr))).mp rfl
    refine ⟨hrunner, fun hout => houtcome _ hout (by simp), ?_⟩
    intro outcome wasCancelled hout hsuccess
    refine houtcome outcome hout ?_
    rintro error rfl
    simp [RunnerOutcome.result] at hsuccess

namespace Small

def readsOneFile (res : TaskEnd String) : List MixedAct :=
  [.runner 0 .main, .runner 0 .main, .runner 0 (.stream 0), .runner 0 (.producer 0 0 .ok),
    .runner 0 (.task 0 res), .runner 0 .main, .runner 0 .main, .runner 0 (.fetcher 0 .ok),
    .runner 0 .main, .join 0, .finish]

def readSpec : Spec.BenchSpec where
  fsName := "fs"
  ioMode := .seq
  ioAligned := true
  directIo := false
  blockSize := 4096
  duration := 60000000000
  warmup := 0
  targetWorkers := 1
  read := some
    { concurrency := 1, source := .fileManifest "/data/files.csv", thinkTime := none
      rateLimit := none, s3ConsistencyCheck := none, loopFiles := false }
  write := none
  metadata := none

end Small

theorem success_means_all_ok_small :
    SuccessMeansAllOk ((mixedRun Small.readSpec).play (mixedRun Small.readSpec).init
        (Small.readsOneFile .ok)) ↔
      ∀ r ∈ ((mixedRun Small.readSpec).play (mixedRun Small.readSpec).init
          (Small.readsOneFile .ok)).runners,
        r.crew.main.isReturned = true → ¬ r.crew.Panics ∨ r.crew.Fails :=
  success_means_all_ok_iff ((mixedRun Small.readSpec).reachable_play _)

/-- A task that panics does not keep the job from being reported as a success. -/
theorem panic_reported_as_success :
    ((mixedRun Small.readSpec).play (mixedRun Small.readSpec).init
        (Small.readsOneFile .panicked)).outcome = some .ok ∧
      ¬ SuccessMeansAllOk ((mixedRun Small.readSpec).play (mixedRun Small.readSpec).init
        (Small.readsOneFile .panicked)) := by
  refine ⟨rfl, fun hsuccess => ?_⟩
  have hall := (hsuccess.outcome rfl _ List.mem_cons_self).tasks _ List.mem_cons_self
  cases hall

end CvdBench.Worker
