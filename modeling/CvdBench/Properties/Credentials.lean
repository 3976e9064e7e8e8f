import CvdBench.Events.Watch
import CvdBench.Master.Forget
import CvdBench.Master.MetricsPage
import CvdBench.Master.Replies

/-!
The credentials of a job reach nobody but the workers that the job is assigned to: two
runs that differ in credentials only cannot be told apart by anything else.
-/

set_option autoImplicit false

namespace CvdBench.Events

open Foundation Proto Master

section

variable {H : Type} {env : MasterEnv H}

theorem render_forget (showF64 : Float → String) (m : MasterState) :
    render showF64 m.forget = render showF64 m := by
  have hentries : (HashOrder.ascending JobId).entries m.forget.jobs =
      ((HashOrder.ascending JobId).entries m.jobs).map
        fun entry => (entry.1, entry.2.forget) := by
    rw [forget_jobs, HashOrder.entries_map]
  unfold render
  rw [hentries, List.map_map]
  rfl

inductive WatchAlike : WatchAction → WatchAction → Prop where
  | master {c c' : Choice} (slips : Nat → Bool) : ChoiceAlike c c' →
      WatchAlike (.master c slips) (.master c' slips)
  | recv (i : Nat) : WatchAlike (.recv i) (.recv i)
  | drop (i : Nat) : WatchAlike (.drop i) (.drop i)

/-- The states agree in everything but the credentials. -/
def StateAlike (s s' : Watched) : Prop :=
  s.sys.forget = s'.sys.forget ∧ s.watchers = s'.watchers

/-- What the outside sees of a step: the answer, where FetchJob may differ in
`s3_credentials`, the watch streams, and the metrics page. -/
structure LooksAlike (showF64 : Float → String) (e e' : WatchStep) : Prop where
  reply : e.out.map Reply.forget = e'.out.map Reply.forget
  streams : e.post.watchers.streams = e'.post.watchers.streams
  page : render showF64 e.post.sys.master = render showF64 e'.post.sys.master

theorem openedBy_forget (rep : Option Reply) : openedBy (rep.map Reply.forget) = openedBy rep := by
  cases rep with
  | none => rfl
  | some rep =>
    cases rep with
    | fetchJob w res => cases res <;> rfl
    | _ => rfl

theorem page_forget (showF64 : Float → String) {s s' : Sys} (h : s.forget = s'.forget) :
    render showF64 s.master = render showF64 s'.master := by
  have hmaster : s.master.forget = s'.master.forget := congrArg Sys.master h
  rw [← render_forget, hmaster, render_forget]

theorem stepStream_spec {s t : Watched} {i : Nat} {act : Stream → Option Stream}
    {o : Option Reply} (h : s.stepStream i act = some (t, o)) :
    ∃ c d, s.watchers.streams[i]? = some c ∧ act c = some d ∧
      t = { s with watchers := { s.watchers with streams := s.watchers.streams.set i d } } ∧
      o = none := by
  simp only [Watched.stepStream, Option.bind_eq_bind, Option.bind_eq_some_iff, Option.pure_def,
    Option.some.injEq] at h
  obtain ⟨c, hc, d, hd, heq⟩ := h
  obtain ⟨rfl, rfl⟩ := Prod.mk.inj heq
  exact ⟨c, d, hc, hd, rfl, rfl⟩

theorem StateAlike.stepMaster (showF64 : Float → String) {s s' t t' : Watched}
    {c c' : Choice} (slips : Nat → Bool) {o o' : Option Reply} (hs : StateAlike s s')
    (hc : ChoiceAlike c c') (hsys : s.sys.step env c = some (t.sys, o))
    (hsys' : s'.sys.step env c' = some (t'.sys, o'))
    (hw : t.watchers = ((newCalls s.sys t.sys).foldl (Watchers.apply slips) s.watchers).answer
      (newCalls s.sys t.sys) o)
    (hw' : t'.watchers = ((newCalls s'.sys t'.sys).foldl (Watchers.apply slips)
      s'.watchers).answer (newCalls s'.sys t'.sys) o') :
    StateAlike t t' ∧
      LooksAlike showF64 ⟨s, .master c slips, o, t⟩ ⟨s', .master c' slips, o', t'⟩ := by
  have hresult := @alike_step _ env _ _ _ _ hs.1 hc
  rw [hsys, hsys', Option.map_some, Option.map_some, Option.some.injEq] at hresult
  obtain ⟨hforget, hreply⟩ := Prod.mk.inj hresult
  have hcalls : newCalls s.sys t.sys = newCalls s'.sys t'.sys := by
    show newCalls s.sys.forget t.sys.forget = newCalls s'.sys.forget t'.sys.forget
    rw [hs.1, hforget]
  have hopened : openedBy o = openedBy o' := by
    rw [← openedBy_forget o, ← openedBy_forget o', hreply]
  have hwatchers : t.watchers = t'.watchers := by
    rw [hw, hw', hcalls, hs.2]
    unfold Watchers.answer
    rw [hopened]
  exact ⟨⟨hforget, hwatchers⟩, hreply, congrArg Watchers.streams hwatchers,
    page_forget showF64 hforget⟩

theorem StateAlike.stepStream (showF64 : Float → String) {s s' t t' : Watched} {i : Nat}
    {act : Stream → Option Stream} {a a' : WatchAction} {o o' : Option Reply}
    (hs : StateAlike s s') (h : s.stepStream i act = some (t, o))
    (h' : s'.stepStream i act = some (t', o')) :
    StateAlike t t' ∧ LooksAlike showF64 ⟨s, a, o, t⟩ ⟨s', a', o', t'⟩ := by
  obtain ⟨c, d, hc, hd, ht, ho⟩ := stepStream_spec h
  obtain ⟨c', d', hc', hd', ht', ho'⟩ := stepStream_spec h'
  have hcc : c = c' := by
    rw [hs.2] at hc
    exact Option.some.inj (hc.symm.trans hc')
  have hdd : d = d' := by
    rw [hcc] at hd
    exact Option.some.inj (hd.symm.trans hd')
  have hforget : t.sys.forget = t'.sys.forget := by
    rw [ht, ht']
    exact hs.1
  have hwatchers : t.watchers = t'.watchers := by
    rw [ht, ht']
    simp only [hs.2, hdd]
  refine ⟨⟨hforget, hwatchers⟩, ?_, congrArg Watchers.streams hwatchers,
    page_forget showF64 hforget⟩
  rw [ho, ho']

theorem StateAlike.step (showF64 : Float → String) {s s' t t' : Watched}
    {a a' : WatchAction} {o o' : Option Reply} (hs : StateAlike s s') (ha : WatchAlike a a')
    (h : (watching env).step s a = some (t, o)) (h' : (watching env).step s' a' = some (t', o')) :
    StateAlike t t' ∧ LooksAlike showF64 ⟨s, a, o, t⟩ ⟨s', a', o', t'⟩ := by
  cases ha with
  | master slips hc =>
    simp only [watching, Watched.step, Watched.stepMaster, Option.bind_eq_bind,
      Option.bind_eq_some_iff, Option.pure_def, Option.some.injEq] at h h'
    obtain ⟨⟨sys, rep⟩, hsys, heq⟩ := h
    obtain ⟨⟨sys', rep'⟩, hsys', heq'⟩ := h'
    cases heq
    cases heq'
    exact hs.stepMaster showF64 slips hc hsys hsys' rfl rfl
  | recv i => exact hs.stepStream showF64 h h'
  | drop i => exact hs.stepStream showF64 h h'

/-- Two runs with the same calls and ticks, up to the credentials in the specs of CreateJob,
look alike after every step. In either, credentials are sent to assigned workers only. -/
theorem credentials_noninterference (showF64 : Float → String) {tr tr' : List WatchStep}
    {t t' : Watched} (h : (watching env).Run (watching env).init tr t)
    (h' : (watching env).Run (watching env).init tr' t')
    (hacts : List.Forall₂ (fun e e' => WatchAlike e.act e'.act) tr tr') :
    List.Forall₂ (LooksAlike showF64) tr tr' ∧
      ∀ e ∈ tr, ∀ w resp creds, e.out = some (.fetchJob w (.ok resp)) →
        resp.s3Credentials = some creds → ∃ id r, resp.jobId = some id ∧
          e.post.sys.job id = some r ∧ r.credentials = some creds ∧
          w ∈ r.workerAssignments.keys := by
  refine ⟨?_, ?_⟩
  · have hinit : StateAlike (watching env).init (watching env).init := ⟨rfl, rfl⟩
    exact (h.unwinding (fun s s' a a' t t' o o' hs ha hstep hstep' =>
      hs.step showF64 ha hstep hstep') h' hinit hacts).2
  · intro e he w resp creds hout hcreds
    obtain ⟨hstep, hpre⟩ := h.event he
    have hok := Reachable.ok (Watched.reachable (hpre .init))
    rcases step_cases hstep with ⟨c, _, _, hsys, _⟩ | ⟨_, _, _, _, _, _, hnone⟩
    · rw [hout] at hsys
      exact fetchJob_grants hok hsys hcreds
    · rw [hout] at hnone
      cases hnone

end

namespace Small

open Master.Small

def readSpec (creds : S3CredentialMaterial) : BenchSpec :=
  { spec 1 with
    read := some
      { concurrency := 1, fileManifest := "/data/files.csv", dirManifest := "", thinkTime := ""
        rateLimit := "", loopFiles := false
        s3ConsistencyCheck := some
          { bucketName := "data", bucketUrl := "http://s3", region := "r1", keyPrefix := ""
            accessKey := creds.accessKey, secretKey := creds.secretKey
            sessionToken := creds.sessionToken } }
    write := none }

def oneKey : S3CredentialMaterial := ⟨"A", "one", ""⟩

def otherKey : S3CredentialMaterial := ⟨"B", "other", "token"⟩

def fetched (creds : S3CredentialMaterial) : List WatchAction :=
  (at0 [.createJob (some (readSpec creds)) "j", .resume 0, .watchJob "j", .fetchJob "a"]).map
    fun c => .master c fun _ => false

def fetchedTrace (creds : S3CredentialMaterial) : List WatchStep :=
  (watching env).trace (watching env).init (fetched creds)

def granted (tr : List WatchStep) : List S3CredentialMaterial :=
  tr.filterMap fun e => match e.out with
    | some (.fetchJob _ (.ok resp)) => resp.s3Credentials
    | _ => none

theorem readSpec_alike : SpecAlike (readSpec oneKey) (readSpec otherKey) where
  creds := ⟨otherKey, rfl⟩
  left := by
    intro creds h
    cases h
    decide
  right := by
    intro creds h
    cases h
    decide

theorem fetched_alike : List.Forall₂ (fun e e' => WatchAlike e.act e'.act)
    (fetchedTrace oneKey) (fetchedTrace otherKey) :=
  .cons (.master _ ⟨.createJob "j" readSpec_alike, rfl⟩)
    (.cons (.master _ ⟨.same _, rfl⟩) (.cons (.master _ ⟨.same _, rfl⟩)
      (.cons (.master _ ⟨.same _, rfl⟩) .nil)))

end Small

theorem credentials_noninterference_small :
    List.Forall₂ (LooksAlike fun _ => "0") (Small.fetchedTrace Small.oneKey)
        (Small.fetchedTrace Small.otherKey) ∧
      Small.granted (Small.fetchedTrace Small.oneKey) = [Small.oneKey] ∧
      Small.granted (Small.fetchedTrace Small.otherKey) = [Small.otherKey] :=
  ⟨(credentials_noninterference (fun _ => "0")
      ((watching Master.Small.env).run_play _ (Small.fetched Small.oneKey))
      ((watching Master.Small.env).run_play _ (Small.fetched Small.otherKey))
      Small.fetched_alike).1,
    by decide, by decide⟩

end CvdBench.Events
