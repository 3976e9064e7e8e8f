import CvdBench.Foundation.Machine
import CvdBench.Worker.Preflight
import CvdBench.Worker.Runner

/-!
Who spawns whom in the hot loop, and how the ends are collected: a runner joins its tasks in
their order and then awaits its fetcher, a read task awaits the producer of every file, and
`run_workload` joins the runners as they end. What the tasks do is left open, and every one of
them may panic. The write runner's cleanup gives no error to anybody and is left out.
-/

set_option autoImplicit false

namespace CvdBench.Worker

open Foundation

/-- How a spawned task ends. -/
inductive TaskEnd (ε : Type) where
  | ok
  | err (err : ε)
  | panicked
  deriving DecidableEq, Repr

/-- `run_with_root`, `run_with_layout`, `run_manifest_stat` and `read::run` -/
inductive RunnerKind where
  | write | layout | manifestStat | read
  deriving DecidableEq, Repr

namespace RunnerKind

def fetches : RunnerKind → Bool
  | .manifestStat | .read => true
  | .write | .layout => false

def label : RunnerKind → String
  | .write => "write runner: "
  | .layout => "metadata runner: "
  | .manifestStat => "metadata manifest stat runner: "
  | .read => "read runner: "

end RunnerKind

/-- A producer is there for one file, and gives nothing back. `none` while a task runs. -/
structure CrewTask where
  ended : Option (TaskEnd String)
  producers : List (Option (TaskEnd Empty))
  deriving DecidableEq, Repr

def CrewTask.spawn : CrewTask := ⟨none, []⟩

inductive CrewPc where
  | spawn
  | join (i : Nat) (firstErr : Option String)
  | awaitFetcher (firstErr : Option String)
  | returned (res : Except String Unit)
  | panicked

structure Crew where
  kind : RunnerKind
  concurrency : Nat
  fetchers : List (Option (TaskEnd Empty))
  tasks : List CrewTask
  main : CrewPc

inductive CrewAct where
  | main
  | mainPanics
  | fetcher (i : Nat) (res : TaskEnd Empty)
  | task (i : Nat) (res : TaskEnd String)
  | stream (i : Nat)
  | producer (i j : Nat) (res : TaskEnd Empty)

def TaskEnd.isErr {ε : Type} : TaskEnd ε → Bool
  | .err _ => true
  | _ => false

namespace Crew

def spawn (kind : RunnerKind) (concurrency : Nat) : Crew where
  kind
  concurrency
  fetchers := if kind.fetches then [none] else []
  tasks := []
  main := .spawn

def joinTask (s : Crew) (i : Nat) (firstErr : Option String) :
    TaskEnd String → Crew × Bool
  | .ok => ({ s with main := .join (i + 1) firstErr }, false)
  | .err err => ({ s with main := .join (i + 1) (firstErr <|> some err) }, true)
  -- a join error is only logged
  | .panicked => ({ s with main := .join (i + 1) firstErr }, true)

def stepMain (s : Crew) : Option (Crew × Bool) :=
  match s.main with
  | .spawn =>
      if s.tasks.length < s.concurrency then
        some ({ s with tasks := s.tasks ++ [.spawn] }, false)
      else some ({ s with main := .join 0 none }, false)
  | .join i firstErr => match s.tasks[i]? with
    | none => some ({ s with main := .awaitFetcher firstErr }, false)
    | some t => t.ended.map (s.joinTask i firstErr)
  | .awaitFetcher firstErr =>
      if s.fetchers.all Option.isSome then
        some ({ s with main := .returned (firstResult firstErr) }, false)
      else none
  | .returned _ | .panicked => none

/-- The step, and whether it sets the abort flag. A task that fails sets it itself. -/
def step (s : Crew) : CrewAct → Option (Crew × Bool)
  | .main => s.stepMain
  | .mainPanics => match s.main with
    | .returned _ | .panicked => none
    | _ => some ({ s with main := .panicked }, false)
  | .fetcher i res => match s.fetchers[i]? with
    | some none => some ({ s with fetchers := s.fetchers.set i (some res) }, false)
    | _ => none
  | .task i res => match s.tasks[i]? with
    | some ⟨none, producers⟩ =>
        -- only a task that panics leaves a producer behind
        if res = .panicked ∨ producers.all Option.isSome then
          some ({ s with tasks := s.tasks.set i ⟨some res, producers⟩ }, res.isErr)
        else none
    | _ => none
  | .stream i => match s.tasks[i]? with
    | some ⟨none, producers⟩ =>
        if s.kind = .read ∧ producers.all Option.isSome then
          some ({ s with tasks := s.tasks.set i ⟨none, producers ++ [none]⟩ }, false)
        else none
    | _ => none
  | .producer i j res => match s.tasks[i]? with
    | some ⟨ended, producers⟩ => match producers[j]? with
      | some none =>
          some ({ s with tasks := s.tasks.set i ⟨ended, producers.set j (some res)⟩ }, false)
      | _ => none
    | none => none

def handle (s : Crew) : Option (TaskEnd String) :=
  match s.main with
  | .returned (.ok ()) => some .ok
  | .returned (.error err) => some (.err (s.kind.label ++ err))
  | .panicked => some .panicked
  | _ => none

end Crew

namespace Crew

inductive Move (s : Crew) : CrewAct → Crew → Bool → Prop where
  | spawn : s.main = .spawn → s.tasks.length < s.concurrency →
      Move s .main { s with tasks := s.tasks ++ [.spawn] } false
  | spawned : s.main = .spawn → s.concurrency ≤ s.tasks.length →
      Move s .main { s with main := .join 0 none } false
  | join (i : Nat) (firstErr : Option String) (t : CrewTask) (res : TaskEnd String) :
      s.main = .join i firstErr → s.tasks[i]? = some t → t.ended = some res →
      Move s .main (s.joinTask i firstErr res).1 (s.joinTask i firstErr res).2
  | joined (i : Nat) (firstErr : Option String) : s.main = .join i firstErr →
      s.tasks[i]? = none → Move s .main { s with main := .awaitFetcher firstErr } false
  | returned (firstErr : Option String) : s.main = .awaitFetcher firstErr →
      (∀ f ∈ s.fetchers, f.isSome = true) →
      Move s .main { s with main := .returned (firstResult firstErr) } false
  | mainPanics : s.handle = none → Move s .mainPanics { s with main := .panicked } false
  | fetcher (i : Nat) (res : TaskEnd Empty) : s.fetchers[i]? = some none →
      Move s (.fetcher i res) { s with fetchers := s.fetchers.set i (some res) } false
  | task (i : Nat) (res : TaskEnd String) (producers : List (Option (TaskEnd Empty))) :
      s.tasks[i]? = some ⟨none, producers⟩ →
      (res ≠ .panicked → ∀ p ∈ producers, p.isSome = true) →
      Move s (.task i res) { s with tasks := s.tasks.set i ⟨some res, producers⟩ } res.isErr
  | stream (i : Nat) (producers : List (Option (TaskEnd Empty))) : s.kind = .read →
      s.tasks[i]? = some ⟨none, producers⟩ → (∀ p ∈ producers, p.isSome = true) →
      Move s (.stream i) { s with tasks := s.tasks.set i ⟨none, producers ++ [none]⟩ } false
  | producer (i j : Nat) (res : TaskEnd Empty) (t : CrewTask) : s.tasks[i]? = some t →
      t.producers[j]? = some none →
      Move s (.producer i j res)
        { s with tasks := s.tasks.set i { t with producers := t.producers.set j (some res) } }
        false

variable {s s' : Crew} {act : CrewAct} {aborts : Bool}

theorem stepMain_move (h : s.stepMain = some (s', aborts)) : s.Move .main s' aborts := by
  unfold Crew.stepMain at h
  split at h
  · next hmain =>
    split at h
    · next hlt =>
      cases h
      exact .spawn hmain hlt
    · next hge =>
      cases h
      exact .spawned hmain (Nat.le_of_not_lt hge)
  · next i firstErr hmain =>
    split at h
    · next hi =>
      cases h
      exact .joined i firstErr hmain hi
    · next t hi =>
      obtain ⟨res, hres, heq⟩ := Option.map_eq_some_iff.mp h
      have hmove := Move.join i firstErr t res hmain hi hres
      rwa [heq] at hmove
  · next firstErr hmain =>
    split at h
    · next hall =>
      cases h
      exact .returned firstErr hmain (List.all_eq_true.mp hall)
    · cases h
  · cases h
  · cases h

theorem step_move (h : s.step act = some (s', aborts)) : s.Move act s' aborts := by
  cases act with
  | main => exact stepMain_move h
  | mainPanics =>
    unfold Crew.step at h
    simp only at h
    split at h
    · cases h
    · cases h
    · next hreturned hpanicked =>
      cases h
      refine .mainPanics ?_
      unfold Crew.handle
      split
      · next hmain => exact absurd hmain (hreturned _)
      · next hmain => exact absurd hmain (hreturned _)
      · next hmain => exact absurd hmain hpanicked
      · rfl
  | fetcher i res =>
    unfold Crew.step at h
    simp only at h
    split at h
    · next hi =>
      cases h
      exact .fetcher i res hi
    · cases h
  | task i res =>
    unfold Crew.step at h
    simp only at h
    split at h
    · next producers hi =>
      split at h
      · next hdone =>
        cases h
        exact .task i res producers hi fun hne => List.all_eq_true.mp (hdone.resolve_left hne)
      · cases h
    · cases h
  | stream i =>
    unfold Crew.step at h
    simp only at h
    split at h
    · next producers hi =>
      split at h
      · next hread =>
        cases h
        exact .stream i producers hread.1 hi (List.all_eq_true.mp hread.2)
      · cases h
    · cases h
  | producer i j res =>
    unfold Crew.step at h
    simp only at h
    split at h
    · next ended producers hi =>
      split at h
      · next hj =>
        cases h
        exact .producer i j res ⟨ended, producers⟩ hi hj
      · cases h
    · cases h

end Crew

structure RunnerHandle where
  crew : Crew
  joined : Bool

structure MixedRun where
  runners : List RunnerHandle
  firstErr : Option String
  outcome : Option RunnerOutcome
  abort : Bool
  cancelled : Bool

inductive MixedAct where
  | runner (k : Nat) (act : CrewAct)
  | join (k : Nat)
  /-- the loop is left, or without any runner the sleep is over -/
  | finish
  | cancel
  /-- a fetcher is told `unknown_job` -/
  | unknownJob

namespace MixedRun

def start (spec : Spec.BenchSpec) : MixedRun where
  runners :=
    (spec.write.map fun write => ⟨.spawn .write write.concurrency, false⟩).toList ++
    (spec.metadata.map fun md =>
      ⟨.spawn (if md.dirManifest.isSome then .manifestStat else .layout) md.concurrency,
        false⟩).toList ++
    (spec.read.map fun read => ⟨.spawn .read read.concurrency, false⟩).toList
  firstErr := none
  outcome := none
  abort := false
  cancelled := false

def joinError : TaskEnd String → Option String
  | .ok => none
  | .err err => some err
  | .panicked => some "runner join: panic"

def result (s : MixedRun) : RunnerOutcome :=
  if s.runners.isEmpty then (if s.cancelled then .cancelled else .notImplemented)
  else match s.firstErr with
    | some error => .failed error
    | none => .ok

def step (s : MixedRun) : MixedAct → Option (MixedRun × Unit)
  | .runner k act => do
      let r ← s.runners[k]?
      let (crew, aborts) ← r.crew.step act
      return ({ s with
        runners := s.runners.set k { r with crew }
        abort := s.abort || aborts }, ())
  | .join k => do
      let r ← s.runners[k]?
      let res ← r.crew.handle
      if r.joined then none
      else return ({ s with
        runners := s.runners.set k { r with joined := true }
        firstErr := s.firstErr <|> joinError res
        abort := s.abort || (joinError res).isSome }, ())
  | .finish =>
      if s.outcome.isNone && s.runners.all RunnerHandle.joined then
        some ({ s with outcome := some s.result }, ())
      else none
  | .cancel => some ({ s with cancelled := true }, ())
  | .unknownJob => some ({ s with
      cancelled := true
      abort := true }, ())

end MixedRun

def mixedRun (spec : Spec.BenchSpec) : Machine MixedRun MixedAct Unit :=
  ⟨.start spec, MixedRun.step⟩

namespace MixedRun

inductive Move (s : MixedRun) : MixedAct → MixedRun → Prop where
  | runner (k : Nat) (act : CrewAct) (r : RunnerHandle) (crew : Crew) (aborts : Bool) :
      s.runners[k]? = some r → r.crew.Move act crew aborts →
      Move s (.runner k act) { s with
        runners := s.runners.set k { r with crew }
        abort := s.abort || aborts }
  | join (k : Nat) (r : RunnerHandle) (res : TaskEnd String) : s.runners[k]? = some r →
      r.crew.handle = some res → r.joined = false →
      Move s (.join k) { s with
        runners := s.runners.set k { r with joined := true }
        firstErr := s.firstErr <|> joinError res
        abort := s.abort || (joinError res).isSome }
  | finish : s.outcome = none → (∀ r ∈ s.runners, r.joined = true) →
      Move s .finish { s with outcome := some s.result }
  | cancel : Move s .cancel { s with cancelled := true }
  | unknownJob : Move s .unknownJob { s with
      cancelled := true
      abort := true }

theorem step_move {s s' : MixedRun} {act : MixedAct} {u : Unit} (h : s.step act = some (s', u)) :
    s.Move act s' := by
  cases act with
  | runner k act =>
    obtain ⟨r, hr, h⟩ := Option.bind_eq_some_iff.mp h
    obtain ⟨⟨crew, aborts⟩, hcrew, heq⟩ := Option.bind_eq_some_iff.mp h
    cases heq
    exact .runner k act r crew aborts hr (Crew.step_move hcrew)
  | join k =>
    obtain ⟨r, hr, h⟩ := Option.bind_eq_some_iff.mp h
    obtain ⟨res, hres, h⟩ := Option.bind_eq_some_iff.mp h
    split at h
    · cases h
    · next hjoined =>
      cases h
      exact .join k r res hr hres (by simpa using hjoined)
  | finish =>
    unfold MixedRun.step at h
    simp only at h
    split at h
    · next hdone =>
      cases h
      simp only [Bool.and_eq_true, Option.isNone_iff_eq_none, List.all_eq_true] at hdone
      exact .finish hdone.1 hdone.2
    · cases h
  | cancel =>
    cases h
    exact .cancel
  | unknownJob =>
    cases h
    exact .unknownJob

theorem mem_start {spec : Spec.BenchSpec} {r : RunnerHandle} (hr : r ∈ (start spec).runners) :
    ∃ kind concurrency, r = ⟨.spawn kind concurrency, false⟩ := by
  simp only [start, List.mem_append, Option.mem_toList, Option.map_eq_some_iff] at hr
  rcases hr with (⟨write, -, rfl⟩ | ⟨md, -, rfl⟩) | ⟨read, -, rfl⟩ <;> exact ⟨_, _, rfl⟩

end MixedRun

end CvdBench.Worker
