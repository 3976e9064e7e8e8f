import CvdBench.Worker.IoTaskInvariant
import CvdBench.Worker.RunnerBooks

/-!
The pipelines of the manifest workloads never get stuck, and what has not been stopped early
has worked on every entry exactly once. The exception is a direct read that is given up with
more than three items to come: its thread, its producer and its task wait for ever.
-/

set_option autoImplicit false

namespace CvdBench.Worker

open Foundation Proto

/-- Where no task can step, all have ended. When `run` has returned `Ok` before the deadline
and with both flags clear, the fetcher has seen `has_more = false`, and every entry of a batch
has been worked on once, as often as it was in one. -/
structure Pipelined {σ α ε ρ : Type} (W : ItemTask σ α ε ρ) (c : Nat) (Complete : ρ → Prop)
    (tr : RunnerTrace σ α ε ρ) (s : Runner σ ε) : Prop where
  live : (∀ act : RunnerAct α, act.ofTask = true → s.step W c act = none) → s.Ended
  complete : s.Clean → s.run = .returned (.ok ()) →
    SawEnd tr ∧ (processedEntries tr : Multiset FileEntry) = receivedEntries tr ∧
      ∀ e ∈ tr, ∀ i entry report, e.out = .processed i entry report → Complete report

theorem Runner.SoundBooks.pipelined {σ α ε ρ : Type} {W : ItemTask σ α ε ρ} {c : Nat}
    {Complete : ρ → Prop} {tr : RunnerTrace σ α ε ρ} {s : Runner σ ε} {C : σ → α → Bool}
    {Ok Whole : σ → Prop} (hlive : W.Live C Ok) (hc : 1 ≤ c)
    (h : Runner.SoundBooks Ok Whole Complete c tr s) : Pipelined W c Complete tr s where
  live hstuck := h.1.ended hlive hstuck
  complete hclean hrun := by
    have hbooks := h.2 hc hclean
    obtain ⟨hend, hentries⟩ := hbooks.complete h.1.joined hc hrun
    exact ⟨hend, hentries, hbooks.reports⟩

section

variable {ctx : ReadContext} {c i : Nat} {s s' : Runner ReadState ReadRunError}
  {act : RunnerAct ReadAct} {o : RunnerOut ReadReport}

def Runner.HungAt (i : Nat) (s : Runner ReadState ReadRunError) : Prop :=
  ∃ entry r ioErr, s.tasks[i]? = some (.item entry (.join r ioErr)) ∧ r.stream.Hung

theorem Runner.HungAt.setTask {j : Nat} (h : s.HungAt i) (hne : j ≠ i)
    (pc : TaskPc ReadState ReadRunError) : (s.setTask j pc).HungAt i := by
  obtain ⟨entry, r, ioErr, hi, hhung⟩ := h
  exact ⟨entry, r, ioErr, by simpa [Runner.setTask, List.getElem?_set_ne hne] using hi, hhung⟩

theorem Runner.HungAt.move (h : s.HungAt i) (hmove : s.Move (readTask ctx) c act s' o) :
    s'.HungAt i := by
  obtain ⟨entry, r, ioErr, hi, hhung⟩ := id h
  have hother : ∀ (j : Nat) (pc : TaskPc ReadState ReadRunError), s.tasks[j]? = some pc →
      (∀ entry st, pc ≠ .item entry st) → j ≠ i := by
    rintro j pc hj hpc rfl
    rw [hi] at hj
    cases hj
    exact hpc _ _ rfl
  cases hmove with
  | respond res hf =>
    unfold Runner.respond
    split
    · exact h
    · split <;> exact h
  | taskTop j hj => exact h.setTask (hother j _ hj (by simp)) _
  | taskFlags j hj => exact h.setTask (hother j _ hj (by simp)) _
  | recv j entry' chan hj hchan => exact h.setTask (hother j _ hj (by simp)) _
  | recvEnd j hj => exact h.setTask (hother j _ hj (by simp)) _
  | item j entry' st iact res hj hres =>
    by_cases hji : j = i
    · subst hji
      rw [hi] at hj
      cases hj
      have hstep := ReadState.step_move hres
      cases hstep with
      | joinErr r err hdone => exact absurd hdone hhung.running
      | join r hdone => exact absurd hdone hhung.running
      | stream st iact stream stream' hact hstream hmove =>
        cases hstream
        exact ⟨entry, { r with stream := stream' }, ioErr, Pool.getElem?_set_self _ hi,
          hhung.move hmove⟩
    · cases res with
      | fail err => exact h.setTask hji (.finished (.error err))
      | _ => exact h.setTask hji _
  | spawn hrun hlt =>
    refine ⟨entry, r, ioErr, ?_, hhung⟩
    have hlen := (List.getElem?_eq_some_iff.mp hi).1
    simp only
    rw [List.getElem?_append_left hlen]
    exact hi
  | _ => exact h

theorem Runner.HungAt.not_returned (h : s.HungAt i) (hjoined : s.Joined c)
    (res : Except ReadRunError Unit) : s.run ≠ .returned res := by
  intro hrun
  obtain ⟨entry, r, ioErr, hi, _⟩ := h
  have hfinished := hjoined.all_finished (by simp [hrun]) (by simp [hrun, RunPc.joined]) _
    (List.mem_of_getElem? hi)
  cases hfinished

theorem Runner.Sound.hungAt (h : s.Sound ReadState.Ok c)
    (hnot : s.permits ReadState.roomy act = false)
    (hmove : s.Move (readTask ctx) c act s' o) : ∃ i, s'.HungAt i := by
  cases hmove with
  | item i entry st iact res hi hres =>
    have hok : st.Ok := h.items _ (List.mem_of_getElem? hi)
    rw [Runner.permits_item hi] at hnot
    cases ReadState.step_move hres with
    | close r ioErr =>
      have hmore : r.stream.direct = true ∧ 3 < r.stream.unsent.length := by
        simpa [ReadState.roomy] using hnot
      exact ⟨i, entry, _, ioErr, Pool.getElem?_set_self _ hi,
        ReadStream.Flowing.close_hung hok hmore.1 hmore.2⟩
    | stream st act stream stream' hact hstream hmove =>
      rcases hact with rfl | rfl <;> cases st <;> cases hnot
    | _ => cases hnot
  | _ => cases hnot

end

/-- For every concurrency from 1 on, every sequence of FetchFileBatch answers and every
interleaving. In a run in which no receiver of a direct read is dropped with more than three
items to come, the read pipeline keeps its promise; with the first such step `run` will never
return. The stat pipeline keeps it in every run. -/
theorem pipelines_complete {c : Nat} (hc : 1 ≤ c) :
    (∀ (ctx : ReadContext) (tr : RunnerTrace ReadState ReadAct ReadRunError ReadReport)
        (s : Runner ReadState ReadRunError),
      (runner (readTask ctx) c).Run .init tr s →
      (∀ e ∈ tr, e.pre.permits ReadState.roomy e.act = true) →
      Pipelined (readTask ctx) c (ReadReport.Complete ctx) tr s ∧
      ∀ act t o, s.step (readTask ctx) c act = some (t, o) →
        s.permits ReadState.roomy act = false →
        ∀ tr' u, (runner (readTask ctx) c).Run t tr' u → ∀ res, u.run ≠ .returned res) ∧
    (∀ (mountPoint : String) (tr : RunnerTrace Unit StatAct MetadataRunError Unit)
        (s : Runner Unit MetadataRunError),
      (runner (statTask mountPoint) c).Run .init tr s →
      Pipelined (statTask mountPoint) c (fun _ => True) tr s) := by
  refine ⟨fun ctx tr s h hroomy => ⟨?_, ?_⟩, fun mountPoint tr s h => ?_⟩
  · have hbooks := Runner.Run.soundBooks (readTask_live ctx) (readTask_thorough ctx) h hroomy
    exact hbooks.pipelined (readTask_live ctx) hc
  · intro act t o hstep hnot tr' u hrun
    have hbooks := Runner.Run.soundBooks (readTask_live ctx) (readTask_thorough ctx) h hroomy
    have hmove := Runner.step_move hstep
    obtain ⟨i, hhung⟩ := hbooks.1.hungAt hnot hmove
    have hlast : u.Joined c ∧ u.HungAt i := by
      induction hrun with
      | nil => exact ⟨hbooks.1.joined.move hmove, hhung⟩
      | snoc hr hs ih =>
        exact ⟨ih.1.move (Runner.step_move hs), ih.2.move (Runner.step_move hs)⟩
    exact hlast.2.not_returned hlast.1
  · have hfree : ∀ e ∈ tr, e.pre.permits (fun _ _ => true) e.act = true := by
      intro e he
      unfold Runner.permits
      split
      · split <;> rfl
      · rfl
    have hbooks := Runner.Run.soundBooks (statTask_live mountPoint)
      (statTask_thorough mountPoint) h hfree
    exact hbooks.pipelined (statTask_live mountPoint) hc

def Small.entry : FileEntry := ⟨"f", ""⟩

def Small.readContext (directIo : Bool) : ReadContext := ⟨"/mnt", directIo, true⟩

def Small.opens (file : FileRead) : List (RunnerAct ReadAct) :=
  List.replicate 3 .main ++ List.replicate 2 (.fetcher .run) ++
    [.fetcher (.response (.ok ⟨[Small.entry], false, false, false⟩))] ++
    List.replicate 3 (.fetcher .run) ++ List.replicate 3 (.task 0 .run) ++
    [.task 0 (.item (.openFile file))]

def Small.wholeRead : List (RunnerAct ReadAct) :=
  let pass : List (RunnerAct ReadAct) := [.task 0 (.item .producer), .task 0 (.item .producer),
    .task 0 (.item .run), .task 0 (.item .run)]
  Small.opens (.closes [[7]]) ++ pass ++ pass ++ pass ++
    [.task 0 (.item .producer)] ++ List.replicate 4 (.task 0 (.item .run)) ++
    [.task 0 (.item (.checked (.ok 1)))] ++ List.replicate 3 (.task 0 .run) ++
    List.replicate 3 .main

theorem pipelines_complete_small :
    (processedEntries ((runner (readTask (Small.readContext false)) 1).trace .init
      Small.wholeRead) : Multiset FileEntry) = {Small.entry} := by
  obtain ⟨hread, _⟩ := pipelines_complete (c := 1) (by decide)
  have hrun := (runner (readTask (Small.readContext false)) 1).run_play .init Small.wholeRead
  have hroomy : ∀ e ∈ (runner (readTask (Small.readContext false)) 1).trace .init
      Small.wholeRead, e.pre.permits ReadState.roomy e.act = true := by
    decide
  obtain ⟨hpipelined, _⟩ := hread (Small.readContext false) _ _ hrun hroomy
  obtain ⟨_, hentries, _⟩ := hpipelined.complete ⟨rfl, rfl, rfl⟩ rfl
  rw [hentries]
  rfl

/-- A direct read of five chunks is cancelled after its first item: the producer drops one
item more, and the thread fills its channel. -/
def Small.givenUp : List (RunnerAct ReadAct) :=
  Small.opens (.closes [[1], [2], [3], [4], [5]]) ++
    [.task 0 (.item .blocker), .task 0 (.item .producer), .task 0 (.item .producer),
      .task 0 (.item .run), .cancel, .task 0 (.item .run), .task 0 (.item .run),
      .task 0 (.item .blocker), .task 0 (.item .producer), .task 0 (.item .producer),
      .task 0 (.item .blocker), .task 0 (.item .blocker)]

def Small.hungReading : Reading where
  path := "/mnt/f"
  file := .closes [[1], [2], [3], [4], [5]]
  stream :=
    { direct := true, pending := FileRead.chunkItems [[4], [5]] ++ [.ok .closed],
      sync := FileRead.chunkItems [[2], [3]], producer := .await, chan := [], rxOpen := false }
  seen := [.ok .opened]
  hasher := some .new

structure Small.Hung (s : Runner ReadState ReadRunError) : Prop where
  fetcher : s.fetcher = .finished
  tasks : s.tasks = [.item Small.entry (.join Small.hungReading none)]
  run : s.run = .join 0 none

theorem Small.Hung.stuck {s : Runner ReadState ReadRunError} (h : Small.Hung s)
    {act : RunnerAct ReadAct} (hact : act.ofTask = true) :
    s.step (readTask (Small.readContext true)) 1 act = none := by
  obtain ⟨hfetcher, htasks, hrun⟩ := h
  cases act with
  | fetcher fact => simp [Runner.step, Runner.stepFetcher, hfetcher]
  | main => simp [Runner.step, Runner.stepMain, hrun, htasks]
  | task i tact =>
    cases i with
    | succ i => simp [Runner.step, Runner.stepTask, htasks]
    | zero =>
      cases tact with
      | run => simp [Runner.step, Runner.stepTask, htasks]
      | item iact =>
        have hnone : (readTask (Small.readContext true)).step s.stop Small.entry
            (.join Small.hungReading none) iact = none := by
          cases iact <;> rfl
        simp [Runner.step, Runner.stepTask, htasks, hnone]
  | _ => cases hact

/-- A reachable state in which no task has ended but the fetcher, and from which none will
ever step. -/
theorem pipeline_hangs :
    ∃ s, (runner (readTask (Small.readContext true)) 1).Reachable s ∧ ¬ s.Ended ∧
      ∀ tr t, (runner (readTask (Small.readContext true)) 1).Run s tr t →
        ∀ act : RunnerAct ReadAct, act.ofTask = true →
          t.step (readTask (Small.readContext true)) 1 act = none := by
  refine ⟨_, Machine.reachable_play _ Small.givenUp, ?_, ?_⟩
  · intro hended
    obtain ⟨res, hres⟩ := hended.run
    cases hres
  · intro tr t hrun act hact
    have hung : Small.Hung t := by
      induction hrun with
      | nil => exact ⟨rfl, rfl, rfl⟩
      | @snoc t u tr a o hr hs ih =>
        cases htask : a.ofTask with
        | true =>
          have hnone := ih.stuck htask
          rw [show t.step (readTask (Small.readContext true)) 1 a = some (u, o) from hs] at hnone
          cases hnone
        | false => cases a <;> cases htask <;> cases hs <;> exact ⟨ih.fetcher, ih.tasks, ih.run⟩
    exact hung.stuck hact

end CvdBench.Worker
