import CvdBench.Properties.RunnerSuccess
import CvdBench.Worker.ReadRun

/-!
What the abort flag of a job says if no task panics: somebody was cancelled, or the job will
not succeed.
-/

set_option autoImplicit false

namespace CvdBench.Worker

open Foundation

/-- The task panics whose handle a runner joins. -/
def CrewAct.panics : CrewAct → Bool
  | .task _ .panicked => true
  | _ => false

def MixedAct.panics : MixedAct → Bool
  | .runner _ act => act.panics
  | _ => false

namespace Crew

def Calm (c : Crew) : Prop := ∀ t ∈ c.tasks, t.ended ≠ some .panicked

def Blamed (c : Crew) : Prop := c.Fails ∨ c.main = .panicked

/-- The rows of the machine, as far as the tasks and the flag go. -/
inductive TasksMove (c : Crew) : List CrewTask → CrewAct → Bool → Prop where
  | same (act : CrewAct) : TasksMove c c.tasks act false
  | spawn (act : CrewAct) : TasksMove c (c.tasks ++ [.spawn]) act false
  | join (act : CrewAct) (t : CrewTask) (res : TaskEnd String) : t ∈ c.tasks →
      t.ended = some res → res ≠ .ok → TasksMove c c.tasks act true
  | ends (i : Nat) (producers : List (Option (TaskEnd Empty))) (res : TaskEnd String) :
      c.tasks[i]? = some ⟨none, producers⟩ →
      TasksMove c (c.tasks.set i ⟨some res, producers⟩) (.task i res) res.isErr
  | producers (act : CrewAct) (i : Nat) (t t' : CrewTask) : c.tasks[i]? = some t →
      t'.ended = t.ended → TasksMove c (c.tasks.set i t') act false

variable {c c' : Crew} {act : CrewAct} {aborts : Bool}

theorem Move.tasks (h : c.Move act c' aborts) : TasksMove c c'.tasks act aborts := by
  cases h with
  | spawn => exact .spawn _
  | spawned | joined | returned | mainPanics | fetcher => exact .same _
  | join i firstErr t res hmain hi hres =>
    have hmem := List.mem_of_getElem? hi
    cases res with
    | ok => exact .same _
    | err err => exact .join _ t _ hmem hres (by simp)
    | panicked => exact .join _ t _ hmem hres (by simp)
  | task i res producers hi hdone => exact .ends i producers res hi
  | stream i producers hread hi hdone => exact .producers _ i _ _ hi rfl
  | producer i j res t hi hj => exact .producers _ i _ _ hi rfl

theorem TasksMove.ended_stays {tasks : List CrewTask} (hmove : TasksMove c tasks act aborts)
    {t : CrewTask} {res : TaskEnd String} (ht : t ∈ c.tasks) (hres : t.ended = some res) :
    ∃ t' ∈ tasks, t'.ended = some res := by
  obtain ⟨j, hj⟩ := List.mem_iff_getElem?.mp ht
  have hother : ∀ {i : Nat} {u : CrewTask}, i ≠ j → t ∈ c.tasks.set i u := by
    intro i u hij
    exact List.mem_of_getElem? ((List.getElem?_set_ne hij).trans hj)
  cases hmove with
  | same => exact ⟨t, ht, hres⟩
  | spawn => exact ⟨t, List.mem_append_left _ ht, hres⟩
  | join => exact ⟨t, ht, hres⟩
  | ends i producers res' hi =>
    refine ⟨t, hother ?_, hres⟩
    rintro rfl
    obtain rfl := Option.some.inj (hi.symm.trans hj)
    cases hres
  | producers _ i u u' hi hsame =>
    by_cases hij : i = j
    · subst hij
      obtain rfl : u = t := Option.some.inj (hi.symm.trans hj)
      exact ⟨u', List.mem_set (List.getElem?_eq_some_iff.mp hi).1 u', hsame.trans hres⟩
    · exact ⟨t, hother hij, hres⟩

theorem TasksMove.calm {tasks : List CrewTask} (hmove : TasksMove c tasks act aborts)
    (hact : act.panics = false) (h : c.Calm) : ∀ t ∈ tasks, t.ended ≠ some .panicked := by
  cases hmove with
  | same => exact h
  | spawn =>
    intro t ht
    rcases List.mem_append.mp ht with ht | ht
    · exact h t ht
    · rw [List.mem_singleton.mp ht]
      simp [CrewTask.spawn]
  | join => exact h
  | ends i producers res hi =>
    refine Pool.forall_set h ?_
    rintro ⟨⟩
    cases hact
  | producers _ i u u' hi hsame =>
    refine Pool.forall_set h ?_
    rw [hsame]
    exact h u (List.mem_of_getElem? hi)

theorem Move.calm (hmove : c.Move act c' aborts) (hact : act.panics = false)
    (h : c.Calm) : c'.Calm := hmove.tasks.calm hact h

theorem Move.blamed (hmove : c.Move act c' aborts) (h : c.Blamed) : c'.Blamed := by
  rcases h with ⟨t, ht, err, herr⟩ | hmain
  · obtain ⟨t', ht', herr'⟩ := hmove.tasks.ended_stays ht herr
    exact .inl ⟨t', ht', err, herr'⟩
  · have hpanicked : c.handle = some .panicked := by simp [Crew.handle, hmain]
    have hkept := hmove.handle hpanicked
    refine .inr ?_
    unfold Crew.handle at hkept
    split at hkept
    · cases hkept
    · cases hkept
    · next hmain' => exact hmain'
    · cases hkept

theorem Move.abort_blamed (hmove : c.Move act c' true) (h : c.Calm) : c'.Blamed := by
  have hrow := hmove.tasks
  generalize htasks : c'.tasks = tasks at hrow
  generalize haborts : true = aborts at hrow
  cases hrow with
  | same | spawn | producers => cases haborts
  | join _ t res ht hres hbad =>
    cases res with
    | ok => exact absurd rfl hbad
    | panicked => exact absurd hres (h t ht)
    | err err => exact .inl ⟨t, by rw [htasks]; exact ht, err, hres⟩
  | ends i producers res hi =>
    cases res with
    | ok | panicked => cases haborts
    | err err =>
      have hlt := (List.getElem?_eq_some_iff.mp hi).1
      refine .inl ⟨⟨some (.err err), producers⟩, ?_, err, rfl⟩
      rw [htasks]
      exact List.mem_set hlt _

theorem Collected.handle_blamed (h : c.Collected) {res : TaskEnd String}
    (hres : c.handle = some res) : c.Blamed ↔ res ≠ .ok := by
  unfold Crew.handle at hres
  split at hres
  · next hmain =>
    obtain rfl := Option.some.inj hres
    refine iff_of_false ?_ (by simp)
    rintro (hfails | hpanicked)
    · exact (h.returned_iff hmain).mp rfl hfails
    · rw [hmain] at hpanicked
      cases hpanicked
  · next err hmain =>
    obtain rfl := Option.some.inj hres
    refine iff_of_true (.inl ?_) (by simp)
    by_contra hgood
    cases (h.returned_iff hmain).mpr hgood
  · next hmain =>
    obtain rfl := Option.some.inj hres
    exact iff_of_true (.inr hmain) (by simp)
  · cases hres

end Crew

namespace MixedRun

def Faulted (s : MixedRun) : Prop := s.cancelled = true ∨ ∃ r ∈ s.runners, r.crew.Blamed

structure Accounted (s : MixedRun) : Prop where
  sound : s.Sound
  calm : ∀ r ∈ s.runners, r.crew.Calm
  abort : s.abort = true → s.Faulted

variable {s s' : MixedRun} {act : MixedAct} {u : Unit}

theorem Accounted.start (spec : Spec.BenchSpec) : (MixedRun.start spec).Accounted where
  sound := .start spec
  calm r hr t ht := by
    obtain ⟨kind, concurrency, rfl⟩ := mem_start hr
    cases ht
  abort h := by cases h

theorem faulted_set {k : Nat} {r : RunnerHandle} (r' : RunnerHandle) (hr : s.runners[k]? = some r)
    (hblamed : r.crew.Blamed → r'.crew.Blamed) (h : s.Faulted) :
    s.cancelled = true ∨ ∃ r ∈ s.runners.set k r', r.crew.Blamed := by
  refine h.imp_right ?_
  rintro ⟨q, hq, hblame⟩
  obtain ⟨j, hj⟩ := List.mem_iff_getElem?.mp hq
  by_cases hkj : k = j
  · subst hkj
    obtain rfl : r = q := Option.some.inj (hr.symm.trans hj)
    exact ⟨r', List.mem_set (List.getElem?_eq_some_iff.mp hr).1 r', hblamed hblame⟩
  · exact ⟨q, List.mem_of_getElem? ((List.getElem?_set_ne hkj).trans hj), hblame⟩

theorem Move.faulted (hmove : s.Move act s') (h : s.Faulted) : s'.Faulted := by
  cases hmove with
  | runner k cact r crew aborts hr hcrew => exact faulted_set _ hr hcrew.blamed h
  | join k r res hr hres hjoined => exact faulted_set { r with joined := true } hr id h
  | finish hnone hall => exact h
  | cancel => exact .inl rfl
  | unknownJob => exact .inl rfl

theorem Move.calm (hmove : s.Move act s') (hact : act.panics = false)
    (h : ∀ r ∈ s.runners, r.crew.Calm) : ∀ r ∈ s'.runners, r.crew.Calm := by
  cases hmove with
  | runner k cact r crew aborts hr hcrew =>
    exact Pool.forall_set h (hcrew.calm hact (h r (List.mem_of_getElem? hr)))
  | join k r res hr hres hjoined => exact Pool.forall_set h (h r (List.mem_of_getElem? hr))
  | finish | cancel | unknownJob => exact h

/-- Whoever sets the flag has somebody to blame. -/
theorem Accounted.aborts (h : s.Accounted) (hmove : s.Move act s') (hold : s.abort = false)
    (habort : s'.abort = true) : s'.Faulted := by
  cases hmove with
  | runner k cact r crew aborts hr hcrew =>
    obtain rfl : aborts = true := by simpa [hold] using habort
    have hblamed := hcrew.abort_blamed (h.calm r (List.mem_of_getElem? hr))
    exact .inr ⟨{ r with crew }, List.mem_set (List.getElem?_eq_some_iff.mp hr).1 _, hblamed⟩
  | join k r res hr hres hjoined =>
    have hbad : res ≠ .ok := by
      rintro rfl
      simp [hold, joinError] at habort
    have hblamed := ((h.sound.crews r (List.mem_of_getElem? hr)).handle_blamed hres).mpr hbad
    exact .inr ⟨{ r with joined := true },
      List.mem_set (List.getElem?_eq_some_iff.mp hr).1 _, hblamed⟩
  | finish | cancel => simp [hold] at habort
  | unknownJob => exact .inl rfl

theorem Accounted.move (h : s.Accounted) (hact : act.panics = false) (hmove : s.Move act s') :
    s'.Accounted := by
  refine ⟨h.sound.move hmove, hmove.calm hact h.calm, ?_⟩
  intro habort
  cases hold : s.abort with
  | false => exact h.aborts hmove hold habort
  | true => exact hmove.faulted (h.abort hold)

theorem Accounted.not_faulted (h : s.Accounted) {outcome : RunnerOutcome}
    (hout : s.outcome = some outcome) (hres : outcome.result s.cancelled = (true, none)) :
    (∀ r ∈ s.runners, r.crew.handle = some .ok) ∧ ¬ s.Faulted := by
  have hgood : ∀ error, outcome ≠ .failed error := by
    rintro error rfl
    simp [RunnerOutcome.result] at hres
  have hall : ∀ r ∈ s.runners, r.crew.handle = some .ok := by
    rcases h.sound.outcome outcome hout with ⟨error, herror⟩ | hall
    · exact absurd herror (hgood error)
    · exact hall
  refine ⟨hall, ?_⟩
  rintro (hcancelled | ⟨r, hr, hblamed⟩)
  · cases outcome <;> simp [RunnerOutcome.result, hcancelled] at hres
  · exact ((h.sound.crews r hr).handle_blamed (hall r hr)).mp hblamed rfl

end MixedRun

end CvdBench.Worker
