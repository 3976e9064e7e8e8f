import CvdBench.Worker.Crew
import CvdBench.Worker.IoTask
import CvdBench.Worker.RunnerInvariant

/-!
The read runner with tasks that may panic, and what `run_workload` sees of it: every step of
it is one step of the runner whose tasks are left open, or none.
-/

set_option autoImplicit false

namespace CvdBench.Worker

open Foundation

structure ReadRun where
  runner : Runner ReadState ReadRunError
  /-- the io_tasks that have panicked; `runner` has them as finished -/
  panicked : List Nat
  fetcherPanicked : Bool

inductive ReadRunAct where
  | run (act : RunnerAct ReadAct)
  | taskPanics (i : Nat)
  | fetcherPanics
  /-- the producer of the file that the task at `i` reads -/
  | producerPanics (i : Nat)

/-- With the end of the producer its senders are dropped. -/
def ReadStream.cut (s : ReadStream) : ReadStream :=
  { s with
    pending := []
    sync := []
    producer := .done }

def FetcherPc.isFinished : FetcherPc → Bool
  | .finished => true
  | _ => false

theorem Crew.step_join {c : Crew} {i : Nat} {firstErr : Option String} {res : TaskEnd String}
    {producers : List (Option (TaskEnd Empty))} (hmain : c.main = .join i firstErr)
    (hi : c.tasks[i]? = some ⟨some res, producers⟩) :
    c.step .main = some (c.joinTask i firstErr res) := by
  simp [Crew.step, Crew.stepMain, hmain, hi]

namespace ReadRun

def init : ReadRun := ⟨.init, [], false⟩

/-- A join error sets the abort flag. -/
def joinsPanicked (s : ReadRun) : RunnerAct ReadAct → Bool
  | .main => match s.runner.run with
    | .join i _ => s.panicked.contains i
    | _ => false
  | _ => false

def step (ctx : ReadContext) (concurrency : Nat) (s : ReadRun) : ReadRunAct → Option ReadRun
  | .run act => (s.runner.step (readTask ctx) concurrency act).map fun res =>
      { s with runner := { res.1 with abort := res.1.abort || s.joinsPanicked act } }
  | .taskPanics i => match s.runner.tasks[i]? with
    | none | some (.finished _) => none
    | some _ => some { s with
        runner := s.runner.setTask i (.finished (.ok ()))
        panicked := i :: s.panicked }
  | .fetcherPanics =>
      if s.runner.fetcher.isFinished then none
      else some { s with
        runner := { s.runner with fetcher := .finished }
        fetcherPanicked := true }
  | .producerPanics i => match s.runner.tasks[i]? with
    | some (.item entry st) => match st.stream? with
      | some stream =>
          if stream.producer = .done then none
          else some { s with
            runner := s.runner.setTask i (.item entry (st.setStream stream.cut)) }
      | none => none
    | _ => none

inductive Move (ctx : ReadContext) (concurrency : Nat) (s : ReadRun) :
    ReadRunAct → ReadRun → Prop where
  | run (act : RunnerAct ReadAct) (runner : Runner ReadState ReadRunError)
      (out : RunnerOut ReadReport) : s.runner.Move (readTask ctx) concurrency act runner out →
      Move ctx concurrency s (.run act)
        { s with runner := { runner with abort := runner.abort || s.joinsPanicked act } }
  | taskPanics (i : Nat) (pc : TaskPc ReadState ReadRunError) : s.runner.tasks[i]? = some pc →
      pc.isFinished = false →
      Move ctx concurrency s (.taskPanics i) { s with
        runner := s.runner.setTask i (.finished (.ok ()))
        panicked := i :: s.panicked }
  | fetcherPanics : s.runner.fetcher.isFinished = false →
      Move ctx concurrency s .fetcherPanics { s with
        runner := { s.runner with fetcher := .finished }
        fetcherPanicked := true }
  | producerPanics (i : Nat) (entry : Proto.FileEntry) (st : ReadState) (stream : ReadStream) :
      s.runner.tasks[i]? = some (.item entry st) → st.stream? = some stream →
      stream.producer ≠ .done →
      Move ctx concurrency s (.producerPanics i)
        { s with runner := s.runner.setTask i (.item entry (st.setStream stream.cut)) }

theorem step_move {ctx : ReadContext} {concurrency : Nat} {s s' : ReadRun} {act : ReadRunAct}
    (h : s.step ctx concurrency act = some s') : s.Move ctx concurrency act s' := by
  cases act with
  | run act =>
    obtain ⟨⟨runner, out⟩, hrunner, heq⟩ := Option.map_eq_some_iff.mp h
    cases heq
    exact .run act runner out (Runner.step_move hrunner)
  | taskPanics i =>
    unfold ReadRun.step at h
    simp only at h
    split at h
    · cases h
    · cases h
    · next pc hrunning hi =>
      cases h
      refine .taskPanics i pc hi ?_
      cases pc with
      | finished res => exact absurd rfl (hrunning res)
      | _ => rfl
  | fetcherPanics =>
    unfold ReadRun.step at h
    simp only at h
    split at h
    · cases h
    · next hf =>
      cases h
      exact .fetcherPanics (by simpa using hf)
  | producerPanics i =>
    unfold ReadRun.step at h
    simp only at h
    split at h
    · next entry st hi =>
      split at h
      · next stream hstream =>
        split at h
        · cases h
        · next hrunning =>
          cases h
          exact .producerPanics i entry st stream hi hstream hrunning
      · cases h
    · cases h

variable (text : ReadRunError → String)

def taskEnd (panicked : Bool) : TaskPc ReadState ReadRunError → Option (TaskEnd String)
  | .finished (.ok ()) => some (if panicked then .panicked else .ok)
  | .finished (.error err) => some (.err (text err))
  | _ => none

def fetcherEnd (panicked : Bool) (pc : FetcherPc) : Option (TaskEnd Empty) :=
  if pc.isFinished then some (if panicked then .panicked else .ok) else none

def crewPc : RunPc ReadRunError → CrewPc
  | .spawn => .spawn
  | .dropRx => .join 0 none
  | .join i firstErr => .join i (firstErr.map text)
  | .awaitFetcher firstErr => .awaitFetcher (firstErr.map text)
  | .returned (.ok ()) => .returned (.ok ())
  | .returned (.error err) => .returned (.error (text err))

/-- The producers are left out. -/
def crew (concurrency : Nat) (s : ReadRun) : Crew where
  kind := .read
  concurrency
  fetchers := [fetcherEnd s.fetcherPanicked s.runner.fetcher]
  tasks := s.runner.tasks.mapIdx fun i t => ⟨taskEnd text (s.panicked.contains i) t, []⟩
  main := crewPc text s.runner.run

structure Marked (s : ReadRun) : Prop where
  tasks : ∀ i ∈ s.panicked, s.runner.tasks[i]? = some (.finished (.ok ()))
  fetcher : s.fetcherPanicked = true → s.runner.fetcher.isFinished = true

/-- The crew takes one step, or stays as it is. -/
inductive CrewMove (c c' : Crew) : Prop where
  | stays : c' = c → CrewMove c c'
  | step (act : CrewAct) (aborts : Bool) : c.step act = some (c', aborts) → CrewMove c c'

variable {text} {concurrency : Nat} {s : ReadRun} {ctx : ReadContext}

theorem crew_init : init.crew text concurrency = .spawn .read concurrency := rfl

theorem not_panicked (h : s.Marked) {i : Nat} {pc : TaskPc ReadState ReadRunError}
    (hi : s.runner.tasks[i]? = some pc) (hpc : pc.isFinished = false) :
    s.panicked.contains i = false := by
  by_contra hne
  have hmem : i ∈ s.panicked := by simpa using hne
  have hold := h.tasks i hmem
  rw [hi] at hold
  cases hold
  cases hpc

theorem taskEnd_none {panicked : Bool} {pc : TaskPc ReadState ReadRunError}
    (hpc : pc.isFinished = false) : taskEnd text panicked pc = none := by
  cases pc with
  | finished res => cases hpc
  | _ => rfl

theorem crew_setTask {runner : Runner ReadState ReadRunError} {i : Nat}
    {pc : TaskPc ReadState ReadRunError}
    (htasks : runner.tasks = s.runner.tasks.set i pc) (hrun : runner.run = s.runner.run)
    (hfetcher : runner.fetcher = s.runner.fetcher) :
    ({ s with runner } : ReadRun).crew text concurrency =
      { s.crew text concurrency with
        tasks := (s.crew text concurrency).tasks.set i
          ⟨taskEnd text (s.panicked.contains i) pc, []⟩ } := by
  simp [crew, htasks, hrun, hfetcher, List.mapIdx_set]

section

variable {runner : Runner ReadState ReadRunError} {i : Nat}
  {pc pc' : TaskPc ReadState ReadRunError}

theorem crew_getTask (text : ReadRunError → String) (concurrency : Nat)
    (hi : s.runner.tasks[i]? = some pc) :
    (s.crew text concurrency).tasks[i]? =
      some ⟨taskEnd text (s.panicked.contains i) pc, []⟩ := by
  simp [crew, List.getElem?_mapIdx, hi]

theorem crew_task (h : s.Marked) (hi : s.runner.tasks[i]? = some pc) (hpc : pc.isFinished = false)
    (htasks : runner.tasks = s.runner.tasks.set i pc') (hrun : runner.run = s.runner.run)
    (hfetcher : runner.fetcher = s.runner.fetcher) :
    CrewMove (s.crew text concurrency) (({ s with runner } : ReadRun).crew text concurrency) := by
  have hget := crew_getTask text concurrency hi
  rw [taskEnd_none hpc] at hget
  rw [crew_setTask htasks hrun hfetcher, not_panicked h hi hpc]
  cases hend : taskEnd text false pc' with
  | none =>
    refine .stays ?_
    obtain ⟨hlt, heq⟩ := List.getElem?_eq_some_iff.mp hget
    rw [← heq, List.set_getElem_self]
  | some res =>
    refine .step (.task i res) res.isErr ?_
    simp [Crew.step, hget]

theorem crew_fetcher (h : s.Marked) (hf : s.runner.fetcher.isFinished = false)
    (htasks : runner.tasks = s.runner.tasks) (hrun : runner.run = s.runner.run) :
    CrewMove (s.crew text concurrency) (({ s with runner } : ReadRun).crew text concurrency) := by
  have hcalm : s.fetcherPanicked = false := by
    by_contra hne
    rw [h.fetcher (by simpa using hne)] at hf
    cases hf
  cases hend : runner.fetcher.isFinished with
  | false =>
    refine .stays ?_
    simp [crew, fetcherEnd, htasks, hrun, hf, hend]
  | true =>
    refine .step (.fetcher 0 .ok) false ?_
    simp [Crew.step, crew, fetcherEnd, htasks, hrun, hf, hend, hcalm]

theorem crew_respond (h : s.Marked) (hf : s.runner.fetcher.isFinished = false)
    (res : Proto.FetchFileBatchResponse) (abort : Bool) :
    CrewMove (s.crew text concurrency)
      (({ s with runner := { s.runner.respond res with abort } } : ReadRun).crew
        text concurrency) := by
  refine crew_fetcher h hf ?_ ?_
  · unfold Runner.respond
    split_ifs <;> rfl
  · unfold Runner.respond
    split_ifs <;> rfl

theorem crew_item (h : s.Marked) {entry : Proto.FileEntry} {st : ReadState}
    (hi : s.runner.tasks[i]? = some (.item entry st)) (res : ReadItemStep) (abort : Bool) :
    CrewMove (s.crew text concurrency)
      (({ s with runner := { (s.runner.stepItem i entry res).1 with abort } } : ReadRun).crew
        text concurrency) := by
  cases res with
  | more st' => exact crew_task h hi rfl rfl rfl rfl
  | done report => exact crew_task h hi rfl rfl rfl rfl
  | leave => exact crew_task h hi rfl rfl rfl rfl
  | fail err => exact crew_task h hi rfl rfl rfl rfl

theorem crew_join {firstErr firstErr' : Option ReadRunError} {res : Except ReadRunError Unit}
    (hrun : s.runner.run = .join i firstErr) (hi : s.runner.tasks[i]? = some (.finished res))
    (herr : firstErr' = match res with
      | .ok () => firstErr
      | .error err => firstErr <|> some err) (abort : Bool) :
    CrewMove (s.crew text concurrency)
      (({ s with runner := { s.runner with
          abort
          run := .join (i + 1) firstErr' } } : ReadRun).crew text concurrency) := by
  have hget := crew_getTask text concurrency hi
  have hmain : (s.crew text concurrency).main = .join i (firstErr.map text) := by
    simp [crew, hrun, crewPc]
  subst herr
  cases res with
  | error err =>
    refine .step .main true ((Crew.step_join hmain hget).trans ?_)
    simp [Crew.joinTask, crew, crewPc]
  | ok u =>
    cases hpanicked : s.panicked.contains i with
    | false =>
      rw [hpanicked] at hget
      refine .step .main false ((Crew.step_join hmain hget).trans ?_)
      simp [Crew.joinTask, crew, crewPc]
    | true =>
      rw [hpanicked] at hget
      refine .step .main true ((Crew.step_join hmain hget).trans ?_)
      simp [Crew.joinTask, crew, crewPc]

theorem crew_run (h : s.Marked) {act : RunnerAct ReadAct} {o : RunnerOut ReadReport}
    (hmove : s.runner.Move (readTask ctx) concurrency act runner o) (abort : Bool) :
    CrewMove (s.crew text concurrency)
      (({ s with runner := { runner with abort } } : ReadRun).crew text concurrency) := by
  cases hmove with
  | respond res hf => exact crew_respond h (by simp [hf, FetcherPc.isFinished]) res abort
  | fetchTop hf | fetchFlags hf | retry _ hf | batchEnd _ hf | batchNext _ _ _ hf
  | sendFail _ _ _ hf | send _ _ _ hf =>
    exact crew_fetcher h (by simp [hf, FetcherPc.isFinished]) rfl rfl
  | taskTop i hi | taskFlags i hi | recvEnd i hi => exact crew_task h hi rfl rfl rfl rfl
  | recv i entry chan hi => exact crew_task h hi rfl rfl rfl rfl
  | item i entry st act res hi hstep => exact crew_item h hi res abort
  | spawn hrun hlt =>
    refine .step .main false ?_
    simp [Crew.step, Crew.stepMain, crew, hrun, crewPc, hlt, CrewTask.spawn, taskEnd]
  | spawned hrun hge =>
    refine .step .main false ?_
    simp [Crew.step, Crew.stepMain, crew, hrun, crewPc, Nat.not_lt.mpr hge]
  | dropRx hrun => exact .stays (by simp [crew, hrun, crewPc])
  | joinOk i firstErr hrun hi => exact crew_join hrun hi rfl abort
  | joinErr i firstErr err hrun hi => exact crew_join hrun hi rfl abort
  | joined i firstErr hrun hi =>
    refine .step .main false ?_
    simp [Crew.step, Crew.stepMain, crew, hrun, crewPc, List.getElem?_mapIdx, hi]
  | returned firstErr hrun hf =>
    refine .step .main false ?_
    cases firstErr <;>
      simp [Crew.step, Crew.stepMain, crew, hrun, crewPc, fetcherEnd, hf, FetcherPc.isFinished,
        firstResult]
  | abort | cancel | deadline => exact .stays rfl

theorem finished_stays {act : RunnerAct ReadAct} {o : RunnerOut ReadReport}
    {s runner : Runner ReadState ReadRunError} {res : Except ReadRunError Unit}
    (hmove : s.Move (readTask ctx) concurrency act runner o)
    (hi : s.tasks[i]? = some (.finished res)) : runner.tasks[i]? = some (.finished res) := by
  rcases hmove.keeps hi with hkept | hpc | hpc | hpc | ⟨entry, st, iact, res, hpc, -⟩
  · exact hkept
  · cases hpc
  · cases hpc
  · cases hpc
  · cases hpc

theorem fetcher_stays {act : RunnerAct ReadAct} {o : RunnerOut ReadReport}
    {s runner : Runner ReadState ReadRunError}
    (hmove : s.Move (readTask ctx) concurrency act runner o)
    (hf : s.fetcher.isFinished = true) : runner.fetcher.isFinished = true := by
  cases hmove with
  | respond res hf' | fetchTop hf' | fetchFlags hf' | retry _ hf' | batchEnd _ hf'
  | batchNext _ _ _ hf' | sendFail _ _ _ hf' | send _ _ _ hf' =>
    rw [hf'] at hf
    cases hf
  | item j entry st act res hj hstep => cases res <;> exact hf
  | _ => exact hf

theorem crew_taskPanics (hi : s.runner.tasks[i]? = some pc) (hpc : pc.isFinished = false) :
    CrewMove (s.crew text concurrency)
      (({ s with
          runner := s.runner.setTask i (.finished (.ok ()))
          panicked := i :: s.panicked } : ReadRun).crew text concurrency) := by
  refine .step (.task i .panicked) false ?_
  have hget := crew_getTask text concurrency hi
  rw [taskEnd_none hpc] at hget
  simp only [Crew.step, hget, true_or, if_true, TaskEnd.isErr, Option.some.injEq,
    Prod.mk.injEq, and_true]
  simp only [crew, Runner.setTask, Crew.mk.injEq, true_and, and_true]
  refine List.ext_getElem? fun j => ?_
  by_cases hij : i = j
  · subst hij
    simp [(List.getElem?_eq_some_iff.mp hi).1, taskEnd]
  · simp [List.getElem?_set_ne hij, Ne.symm hij]

theorem Move.marked {act : ReadRunAct} {s' : ReadRun} (h : s.Marked)
    (hmove : s.Move ctx concurrency act s') : s'.Marked := by
  cases hmove with
  | run act runner out hrunner =>
    refine ⟨?_, ?_⟩
    · intro i hi
      have hkept := finished_stays hrunner (h.tasks i hi)
      exact hkept
    · intro hpanicked
      have hkept := fetcher_stays hrunner (h.fetcher hpanicked)
      exact hkept
  | taskPanics i pc hi hpc =>
    refine ⟨?_, h.fetcher⟩
    intro j hj
    have hlt := (List.getElem?_eq_some_iff.mp hi).1
    by_cases hij : i = j
    · subst hij
      simp [Runner.setTask, hlt]
    · have hold := h.tasks j ((List.mem_cons.mp hj).resolve_left (Ne.symm hij))
      simpa [Runner.setTask, List.getElem?_set_ne hij] using hold
  | fetcherPanics hf => exact ⟨h.tasks, fun _ => rfl⟩
  | producerPanics i entry st stream hi hstream hrunning =>
    refine ⟨?_, h.fetcher⟩
    intro j hj
    have hold := h.tasks j hj
    have hne : i ≠ j := by
      rintro rfl
      rw [hi] at hold
      cases hold
    simpa [Runner.setTask, List.getElem?_set_ne hne] using hold

theorem Move.crewMove (text : ReadRunError → String) {act : ReadRunAct} {s' : ReadRun}
    (h : s.Marked)
    (hmove : s.Move ctx concurrency act s') :
    CrewMove (s.crew text concurrency) (s'.crew text concurrency) := by
  cases hmove with
  | run act runner out hrunner => exact crew_run h hrunner _
  | taskPanics i pc hi hpc => exact crew_taskPanics hi hpc
  | fetcherPanics hf =>
    refine .step (.fetcher 0 .panicked) false ?_
    have hnone : fetcherEnd s.fetcherPanicked s.runner.fetcher = none := by simp [fetcherEnd, hf]
    have hsome : fetcherEnd true .finished = some .panicked := rfl
    simp [Crew.step, ReadRun.crew, hnone, hsome]
  | producerPanics i entry st stream hi => exact crew_task h hi rfl rfl rfl rfl

end

end ReadRun

end CvdBench.Worker
