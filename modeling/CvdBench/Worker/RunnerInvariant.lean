import CvdBench.Worker.Runner

/-!
The invariants of a pipeline, for any work on the entries: who has been joined, and where the
entries of the batches are as long as nothing stops the tasks early.
-/

set_option autoImplicit false

namespace CvdBench.Worker

open Foundation Proto

variable {σ α ε ρ : Type} {W : ItemTask σ α ε ρ} {c : Nat} {s s' : Runner σ ε}
  {act : RunnerAct α} {o : RunnerOut ρ}

namespace Runner

inductive Move (W : ItemTask σ α ε ρ) (c : Nat) (s : Runner σ ε) :
    RunnerAct α → Runner σ ε → RunnerOut ρ → Prop where
  | fetchTop : s.fetcher = .top → Move W c s (.fetcher .run)
      { s with fetcher := if s.late then .finished else .flags } .silent
  | fetchFlags : s.fetcher = .flags → Move W c s (.fetcher .run)
      { s with fetcher := if s.stop then .finished else .request } .silent
  | respond (res : FetchFileBatchResponse) : s.fetcher = .request →
      Move W c s (.fetcher (.response (.ok res))) (s.respond res) (batchOut res)
  | retry (err : String) : s.fetcher = .request →
      Move W c s (.fetcher (.response (.error err))) { s with fetcher := .top } .silent
  | batchEnd (hasMore : Bool) : s.fetcher = .batch [] hasMore → Move W c s (.fetcher .run)
      { s with fetcher := if hasMore then .top else .finished } .silent
  | batchNext (entry : FileEntry) (files : List FileEntry) (hasMore : Bool) :
      s.fetcher = .batch (entry :: files) hasMore → Move W c s (.fetcher .run)
      { s with fetcher := if s.stop then .finished else .send entry files hasMore } .silent
  | sendFail (entry : FileEntry) (files : List FileEntry) (hasMore : Bool) :
      s.fetcher = .send entry files hasMore → s.noReceiver = true →
      Move W c s (.fetcher .run) { s with fetcher := .finished } .silent
  | send (entry : FileEntry) (files : List FileEntry) (hasMore : Bool) :
      s.fetcher = .send entry files hasMore → s.noReceiver = false →
      s.chan.length < capacity c → Move W c s (.fetcher .run)
      { s with chan := s.chan ++ [entry], fetcher := .batch files hasMore } .silent
  | taskTop (i : Nat) : s.tasks[i]? = some .top → Move W c s (.task i .run)
      (s.setTask i (if s.late then .finished (.ok ()) else .flags)) .silent
  | taskFlags (i : Nat) : s.tasks[i]? = some .flags → Move W c s (.task i .run)
      (s.setTask i (if s.stop then .finished (.ok ()) else .recv)) .silent
  | recv (i : Nat) (entry : FileEntry) (chan : List FileEntry) : s.tasks[i]? = some .recv →
      s.chan = entry :: chan → Move W c s (.task i .run)
      { s.setTask i (.item entry (W.start entry)) with chan } .silent
  | recvEnd (i : Nat) : s.tasks[i]? = some .recv → s.chan = [] → s.fetcher = .finished →
      Move W c s (.task i .run) (s.setTask i (.finished (.ok ()))) .silent
  | item (i : Nat) (entry : FileEntry) (st : σ) (act : α) (res : ItemStep σ ε ρ) :
      s.tasks[i]? = some (.item entry st) → W.step s.stop entry st act = some res →
      Move W c s (.task i (.item act)) (s.stepItem i entry res).1 (s.stepItem i entry res).2
  | spawn : s.run = .spawn → s.tasks.length < c →
      Move W c s .main { s with tasks := s.tasks ++ [.top] } .silent
  | spawned : s.run = .spawn → c ≤ s.tasks.length →
      Move W c s .main { s with run := .dropRx } .silent
  | dropRx : s.run = .dropRx → Move W c s .main { s with run := .join 0 none } .silent
  | joinOk (i : Nat) (firstErr : Option ε) : s.run = .join i firstErr →
      s.tasks[i]? = some (.finished (.ok ())) →
      Move W c s .main { s with run := .join (i + 1) firstErr } .silent
  | joinErr (i : Nat) (firstErr : Option ε) (err : ε) : s.run = .join i firstErr →
      s.tasks[i]? = some (.finished (.error err)) → Move W c s .main
      { s with abort := true, run := .join (i + 1) (firstErr <|> some err) } .silent
  | joined (i : Nat) (firstErr : Option ε) : s.run = .join i firstErr → s.tasks[i]? = none →
      Move W c s .main { s with run := .awaitFetcher firstErr } .silent
  | returned (firstErr : Option ε) : s.run = .awaitFetcher firstErr → s.fetcher = .finished →
      Move W c s .main { s with run := .returned (firstResult firstErr) } .silent
  | abort : Move W c s .abort { s with abort := true } .silent
  | cancel : Move W c s .cancel { s with cancelled := true } .silent
  | deadline : Move W c s .deadline { s with late := true } .silent

theorem senderDropped_iff : s.senderDropped = true ↔ s.fetcher = .finished := by
  unfold senderDropped
  cases s.fetcher <;> simp

theorem stepFetcher_move {fact : FetcherAct} (h : s.stepFetcher c fact = some (s', o)) :
    s.Move W c (.fetcher fact) s' o := by
  unfold stepFetcher at h
  split at h
  · next hf =>
    cases h
    exact .fetchTop hf
  · next hf =>
    cases h
    exact .fetchFlags hf
  · next res hf =>
    cases h
    exact .respond res hf
  · next err hf =>
    cases h
    exact .retry err hf
  · next hasMore hf =>
    cases h
    exact .batchEnd hasMore hf
  · next entry files hasMore hf =>
    cases h
    exact .batchNext entry files hasMore hf
  · next entry files hasMore hf =>
    split at h
    · next hnone =>
      cases h
      exact .sendFail entry files hasMore hf hnone
    · next hsome =>
      split at h
      · next hroom =>
        cases h
        exact .send entry files hasMore hf (by simpa using hsome) hroom
      · cases h
  · cases h

theorem stepTask_move {i : Nat} {tact : TaskAct α} (h : s.stepTask W i tact = some (s', o)) :
    s.Move W c (.task i tact) s' o := by
  unfold stepTask at h
  split at h
  · next hi =>
    cases h
    exact .taskTop i hi
  · next hi =>
    cases h
    exact .taskFlags i hi
  · next hi =>
    split at h
    · next entry chan hchan =>
      cases h
      exact .recv i entry chan hi hchan
    · next hchan =>
      split at h
      · next hdropped =>
        cases h
        exact .recvEnd i hi hchan (senderDropped_iff.mp hdropped)
      · cases h
  · next entry st act hi =>
    simp only [Option.map_eq_some_iff] at h
    obtain ⟨res, hstep, heq⟩ := h
    have hmove := Move.item (c := c) i entry st act res hi hstep
    rw [heq] at hmove
    exact hmove
  · cases h

theorem stepMain_move (h : s.stepMain c = some s') :
    s.Move W c .main s' (.silent : RunnerOut ρ) := by
  unfold stepMain at h
  split at h
  · next hrun =>
    split at h
    · next hlt =>
      cases h
      exact .spawn hrun hlt
    · next hge =>
      cases h
      exact .spawned hrun (by omega)
  · next hrun =>
    cases h
    exact .dropRx hrun
  · next i firstErr hrun =>
    split at h
    · next hi =>
      cases h
      exact .joined i firstErr hrun hi
    · next hi =>
      cases h
      exact .joinOk i firstErr hrun hi
    · next err hi =>
      cases h
      exact .joinErr i firstErr err hrun hi
    · cases h
  · next firstErr hrun =>
    split at h
    · next hdropped =>
      cases h
      exact .returned firstErr hrun (senderDropped_iff.mp hdropped)
    · cases h
  · cases h

theorem step_move (h : s.step W c act = some (s', o)) : s.Move W c act s' o := by
  cases act with
  | fetcher act => exact stepFetcher_move h
  | task i act => exact stepTask_move h
  | main =>
    simp only [Runner.step, Option.map_eq_some_iff] at h
    obtain ⟨t, hstep, heq⟩ := h
    cases heq
    exact stepMain_move hstep
  | abort =>
    cases h
    exact .abort
  | cancel =>
    cases h
    exact .cancel
  | deadline =>
    cases h
    exact .deadline

theorem Move.keeps (hmove : s.Move W c act s' o) {i : Nat} {pc : TaskPc σ ε}
    (hi : s.tasks[i]? = some pc) :
    s'.tasks[i]? = some pc ∨ pc = .top ∨ pc = .flags ∨ pc = .recv ∨
      ∃ entry st iact res, pc = .item entry st ∧ act = .task i (.item iact) ∧
        W.step s.stop entry st iact = some res ∧ s' = (s.stepItem i entry res).1 := by
  have hother : ∀ {j : Nat}, j ≠ i → ∀ pc', (s.tasks.set j pc')[i]? = some pc :=
    fun hne pc' => (List.getElem?_set_ne hne).trans hi
  have hsame : ∀ {j : Nat} {pc'}, s.tasks[j]? = some pc' → j = i → pc = pc' := by
    rintro j pc' hj rfl
    exact Option.some.inj (hi.symm.trans hj)
  cases hmove with
  | respond res hf =>
    unfold Runner.respond
    split_ifs <;> exact .inl hi
  | taskTop j hj =>
    by_cases hij : j = i
    · exact .inr (.inl (hsame hj hij))
    · exact .inl (hother hij _)
  | taskFlags j hj =>
    by_cases hij : j = i
    · exact .inr (.inr (.inl (hsame hj hij)))
    · exact .inl (hother hij _)
  | recv j entry chan hj | recvEnd j hj =>
    by_cases hij : j = i
    · exact .inr (.inr (.inr (.inl (hsame hj hij))))
    · exact .inl (hother hij _)
  | item j entry st iact res hj hstep =>
    by_cases hij : j = i
    · subst hij
      exact .inr (.inr (.inr (.inr ⟨entry, st, iact, res, hsame hj rfl, rfl, hstep, rfl⟩)))
    · cases res <;> exact .inl (hother hij _)
  | spawn => exact .inl ((List.getElem?_append_left (List.getElem?_eq_some_iff.mp hi).1).trans hi)
  | _ => exact .inl hi

end Runner

def RunPc.joined (c : Nat) : RunPc ε → Nat
  | .spawn | .dropRx => 0
  | .join i _ => i
  | .awaitFetcher _ | .returned _ => c

def RunPc.isReturned : RunPc ε → Bool
  | .returned _ => true
  | _ => false

structure Runner.Joined (c : Nat) (s : Runner σ ε) : Prop where
  spawning : s.run = .spawn → s.tasks.length ≤ c
  spawned : s.run ≠ .spawn → s.tasks.length = c
  joined : ∀ j, j < s.run.joined c → ∃ res, s.tasks[j]? = some (.finished res)
  ended : s.run.isReturned = true → s.fetcher = .finished

namespace Runner

theorem Joined.init : (.init : Runner σ ε).Joined c where
  spawning _ := Nat.zero_le c
  spawned h := absurd rfl h
  joined j hj := absurd hj (Nat.not_lt_zero j)
  ended h := by cases h

theorem Joined.setTask {i : Nat} {pc : TaskPc σ ε} (h : s.Joined c) (hi : s.tasks[i]? = some pc)
    (hpc : pc.isFinished = false) (pc' : TaskPc σ ε) : (s.setTask i pc').Joined c where
  spawning hrun := by
    have hle := h.spawning hrun
    simpa [Runner.setTask] using hle
  spawned hrun := by
    have heq := h.spawned hrun
    simpa [Runner.setTask] using heq
  joined j hj := by
    obtain ⟨res, hres⟩ := h.joined j hj
    have hne : j ≠ i := by
      rintro rfl
      rw [hi] at hres
      cases hres
      cases hpc
    exact ⟨res, by simpa [Runner.setTask, List.getElem?_set_ne hne.symm] using hres⟩
  ended := h.ended

theorem Joined.setFetcher (h : s.Joined c) (hf : s.fetcher ≠ .finished) (pc : FetcherPc) :
    ({ s with fetcher := pc } : Runner σ ε).Joined c where
  spawning := h.spawning
  spawned := h.spawned
  joined := h.joined
  ended hrun := absurd (h.ended hrun) hf

theorem Joined.move (h : s.Joined c) (hmove : s.Move W c act s' o) : s'.Joined c := by
  cases hmove with
  | fetchTop hf | fetchFlags hf | retry _ hf | batchEnd _ hf | batchNext _ _ _ hf
  | sendFail _ _ _ hf => exact h.setFetcher (by simp [hf]) _
  | respond res hf =>
    have hset := h.setFetcher (by simp [hf]) (s.respond res).fetcher
    unfold respond at hset ⊢
    split
    · simp only [*, if_true] at hset
      exact ⟨hset.spawning, hset.spawned, hset.joined, fun _ => rfl⟩
    · split
      · exact ⟨h.spawning, h.spawned, h.joined, fun _ => rfl⟩
      · exact h.setFetcher (by simp [hf]) _
  | send entry files hasMore hf hsome hroom =>
    have hset := h.setFetcher (by simp [hf]) (.batch files hasMore)
    exact ⟨hset.spawning, hset.spawned, hset.joined, hset.ended⟩
  | taskTop i hi | taskFlags i hi | recvEnd i hi => exact h.setTask hi rfl _
  | recv i entry chan hi hchan =>
    have hset := h.setTask hi rfl (.item entry (W.start entry))
    exact ⟨hset.spawning, hset.spawned, hset.joined, hset.ended⟩
  | item i entry st act res hi hstep =>
    cases res with
    | more st' => exact h.setTask hi rfl _
    | done report => exact h.setTask hi rfl _
    | leave => exact h.setTask hi rfl _
    | fail err =>
      have hset := h.setTask hi rfl (.finished (.error err))
      exact ⟨hset.spawning, hset.spawned, hset.joined, hset.ended⟩
  | spawn hrun hlt =>
    refine ⟨fun _ => ?_, fun hne => absurd hrun hne, fun j hj => ?_, h.ended⟩
    · simp only [List.length_append, List.length_cons, List.length_nil]
      omega
    · simp [hrun, RunPc.joined] at hj
  | spawned hrun hge =>
    have hle := h.spawning hrun
    exact ⟨by simp, fun _ => by simp only; omega, by simp [RunPc.joined],
      by simp [RunPc.isReturned]⟩
  | dropRx hrun =>
    exact ⟨by simp, fun _ => h.spawned (by simp [hrun]), by simp [RunPc.joined],
      by simp [RunPc.isReturned]⟩
  | joinOk i firstErr hrun hi | joinErr i firstErr err hrun hi =>
    refine ⟨by simp, fun _ => h.spawned (by simp [hrun]), fun j hj => ?_,
      by simp [RunPc.isReturned]⟩
    simp only [RunPc.joined] at hj
    by_cases hji : j = i
    · subst hji
      exact ⟨_, hi⟩
    · exact h.joined j (by simp only [hrun, RunPc.joined]; omega)
  | joined i firstErr hrun hi =>
    have hlen := h.spawned (by simp [hrun])
    have hge : s.tasks.length ≤ i := List.getElem?_eq_none_iff.mp hi
    refine ⟨by simp, fun _ => hlen, fun j hj => ?_, by simp [RunPc.isReturned]⟩
    simp only [RunPc.joined] at hj
    exact h.joined j (by simp only [hrun, RunPc.joined]; omega)
  | returned firstErr hrun hf =>
    refine ⟨by simp, fun _ => h.spawned (by simp [hrun]), fun j hj => ?_, fun _ => hf⟩
    exact h.joined j (by simpa [hrun, RunPc.joined] using hj)
  | abort | cancel | deadline => exact ⟨h.spawning, h.spawned, h.joined, h.ended⟩

theorem Joined.all_finished (h : s.Joined c) (hrun : s.run ≠ .spawn) (hc : s.run.joined c = c) :
    ∀ t ∈ s.tasks, t.isFinished = true := by
  intro t ht
  obtain ⟨j, hj⟩ := List.mem_iff_getElem?.mp ht
  have hlt := (List.getElem?_eq_some_iff.mp hj).1
  obtain ⟨res, hres⟩ := h.joined j (by rw [hc, ← h.spawned hrun]; exact hlt)
  rw [hj] at hres
  cases hres
  rfl

end Runner

/-- Work that never blocks for good, as long as its steps meet `C`. -/
structure ItemTask.Live (W : ItemTask σ α ε ρ) (C : σ → α → Bool) (Ok : σ → Prop) : Prop where
  start : ∀ entry, Ok (W.start entry)
  step : ∀ {stop : Bool} {entry : FileEntry} {st st' : σ} {act : α}, Ok st → C st act = true →
    W.step stop entry st act = some (.more st') → Ok st'
  progress : ∀ (stop : Bool) (entry : FileEntry) {st : σ}, Ok st →
    ∃ act, (W.step stop entry st act).isSome = true

def TaskPc.Holds (Ok : σ → Prop) : TaskPc σ ε → Prop
  | .item _ st => Ok st
  | _ => True

namespace Runner

def permits (C : σ → α → Bool) (s : Runner σ ε) : RunnerAct α → Bool
  | .task i (.item act) => match s.tasks[i]? with
    | some (.item _ st) => C st act
    | _ => true
  | _ => true

theorem permits_item {C : σ → α → Bool} {i : Nat} {entry : FileEntry} {st : σ} {iact : α}
    (hi : s.tasks[i]? = some (.item entry st)) :
    s.permits C (.task i (.item iact)) = C st iact := by
  simp [permits, hi]

structure Sound (Ok : σ → Prop) (c : Nat) (s : Runner σ ε) : Prop where
  joined : s.Joined c
  items : ∀ t ∈ s.tasks, t.Holds Ok

variable {C : σ → α → Bool} {Ok : σ → Prop}

theorem Sound.init : (.init : Runner σ ε).Sound Ok c :=
  ⟨.init, fun t ht => by cases ht⟩

theorem Move.holds {P : σ → Prop} (hmove : s.Move W c act s' o)
    (hitems : ∀ t ∈ s.tasks, t.Holds P) (hstart : ∀ entry, P (W.start entry))
    (hstep : ∀ (i : Nat) (entry : FileEntry) (st st' : σ) (iact : α), act = .task i (.item iact) →
      s.tasks[i]? = some (.item entry st) → P st →
      W.step s.stop entry st iact = some (.more st') → P st') :
    ∀ t ∈ s'.tasks, t.Holds P := by
  cases hmove with
  | respond res hf =>
    unfold Runner.respond
    split
    · exact hitems
    · split <;> exact hitems
  | taskTop i hi =>
    refine Pool.forall_set hitems ?_
    split <;> trivial
  | taskFlags i hi =>
    refine Pool.forall_set hitems ?_
    split <;> trivial
  | recv i entry chan hi hchan => exact Pool.forall_set hitems (hstart entry)
  | recvEnd i hi => exact Pool.forall_set hitems trivial
  | item i entry st iact res hi hres =>
    have hst : P st := hitems _ (List.mem_of_getElem? hi)
    cases res with
    | more st' => exact Pool.forall_set hitems (hstep i entry st st' iact rfl hi hst hres)
    | done report => exact Pool.forall_set hitems trivial
    | leave => exact Pool.forall_set hitems trivial
    | fail err => exact Pool.forall_set hitems trivial
  | spawn hrun hlt =>
    intro t ht
    rcases List.mem_append.mp ht with ht | ht
    · exact hitems t ht
    · rw [List.mem_singleton.mp ht]
      trivial
  | _ => exact hitems

theorem Sound.move (hlive : W.Live C Ok) (h : s.Sound Ok c) (hC : s.permits C act = true)
    (hmove : s.Move W c act s' o) : s'.Sound Ok c := by
  refine ⟨h.joined.move hmove, hmove.holds h.items hlive.start ?_⟩
  rintro i entry st st' iact rfl hi hst hres
  rw [permits_item hi] at hC
  exact hlive.step hst hC hres

/-- All tasks have ended, and `run` has returned. -/
structure Ended (s : Runner σ ε) : Prop where
  fetcher : s.fetcher = .finished
  tasks : ∀ t ∈ s.tasks, t.isFinished = true
  run : ∃ res, s.run = .returned res

/-- A fetcher that cannot step has finished, when the channel is empty or nobody receives. -/
theorem fetcher_stuck (hchan : s.chan = [] ∨ s.noReceiver = true)
    (hstuck : ∀ act : FetcherAct, s.stepFetcher c act = (none : Option (_ × RunnerOut ρ))) :
    s.fetcher = .finished := by
  have hrun := hstuck .run
  have hresponse := hstuck (.response (.error ""))
  unfold stepFetcher at hrun hresponse
  cases hf : s.fetcher with
  | finished => rfl
  | request => simp [hf] at hresponse
  | batch files hasMore => cases files <;> simp [hf] at hrun
  | send entry files hasMore =>
    rcases hchan with hchan | hnone
    · have hroom : 0 < capacity c := by simp [capacity, fetchBatchSize]
      cases hnone : s.noReceiver <;> simp [hf, hnone, hchan, hroom] at hrun
    · simp [hf, hnone] at hrun
  | _ => simp [hf] at hrun

theorem Sound.ended (hlive : W.Live C Ok) (h : s.Sound Ok c)
    (hstuck : ∀ act : RunnerAct α, act.ofTask = true → s.step W c act = none) : s.Ended := by
  have hfetcher : ∀ act : FetcherAct, s.stepFetcher c act = (none : Option (_ × RunnerOut ρ)) :=
    fun act => hstuck (.fetcher act) rfl
  have hmain : s.stepMain c = none := by
    have hnone := hstuck .main rfl
    simpa [Runner.step] using hnone
  -- a task that has not finished waits for an entry, and the fetcher has not dropped its sender
  have hwaits : ∀ (i : Nat) (t : TaskPc σ ε), s.tasks[i]? = some t → t.isFinished = false →
      s.chan = [] ∧ s.senderDropped = false := by
    intro i t hi hrunning
    have hrun := hstuck (.task i .run) rfl
    simp only [Runner.step, stepTask, hi] at hrun
    cases t with
    | top => simp at hrun
    | flags => simp at hrun
    | recv =>
      cases hchan : s.chan with
      | nil =>
        cases hdropped : s.senderDropped with
        | false => exact ⟨rfl, rfl⟩
        | true => simp [hchan, hdropped] at hrun
      | cons entry chan => simp [hchan] at hrun
    | item entry st =>
      obtain ⟨act, hact⟩ := hlive.progress s.stop entry (h.items _ (List.mem_of_getElem? hi))
      have hnone := hstuck (.task i (.item act)) rfl
      simp only [Runner.step, stepTask, hi, Option.map_eq_none_iff] at hnone
      simp [hnone] at hact
    | finished res => cases hrunning
  have hall : s.run.joined c = c → s.run ≠ .spawn → s.run ≠ .dropRx → s.fetcher = .finished := by
    intro hjoined hspawn hdrop
    refine fetcher_stuck (.inr ?_) hfetcher
    have hfinished := h.joined.all_finished hspawn hjoined
    cases hrun : s.run <;> simp_all [noReceiver, RunPc.holdsRx]
  cases hrun : s.run with
  | spawn =>
    simp only [stepMain, hrun] at hmain
    split at hmain <;> cases hmain
  | dropRx => simp [stepMain, hrun] at hmain
  | join i firstErr =>
    simp only [stepMain, hrun] at hmain
    cases hi : s.tasks[i]? with
    | none => simp [hi] at hmain
    | some t =>
      cases t with
      | finished res => cases res <;> simp [hi] at hmain
      | _ =>
        obtain ⟨hchan, hdropped⟩ := hwaits i _ hi rfl
        have hf := fetcher_stuck (.inl hchan) hfetcher
        rw [senderDropped_iff.mpr hf] at hdropped
        cases hdropped
  | awaitFetcher firstErr =>
    have hf := hall (by simp [hrun, RunPc.joined]) (by simp [hrun]) (by simp [hrun])
    simp [stepMain, hrun, senderDropped_iff.mpr hf] at hmain
  | returned res =>
    refine ⟨h.joined.ended (by simp [hrun, RunPc.isReturned]), ?_, res, hrun⟩
    exact h.joined.all_finished (by simp [hrun]) (by simp [hrun, RunPc.joined])

end Runner

end CvdBench.Worker
