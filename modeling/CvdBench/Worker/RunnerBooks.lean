import CvdBench.Worker.RunnerInvariant

/-!
The books of a pipeline that nothing stops early: every entry of a batch is with the
fetcher, in the channel, in the hands of one task, or has been worked on.
-/

set_option autoImplicit false

namespace CvdBench.Worker

open Foundation Proto

variable {σ α ε ρ : Type} {W : ItemTask σ α ε ρ} {c : Nat} {s s' : Runner σ ε}
  {act : RunnerAct α} {o : RunnerOut ρ} {tr : RunnerTrace σ α ε ρ}

/-- Work that ends with a complete report, if no flag is ever set. -/
structure ItemTask.Thorough (W : ItemTask σ α ε ρ) (Ok Whole : σ → Prop) (Complete : ρ → Prop) :
    Prop where
  start : ∀ entry, Whole (W.start entry)
  step : ∀ {entry : FileEntry} {st st' : σ} {act : α}, Ok st → Whole st →
    W.step false entry st act = some (.more st') → Whole st'
  done : ∀ {entry : FileEntry} {st : σ} {act : α} {report : ρ}, Whole st →
    W.step false entry st act = some (.done report) → Complete report
  stays : ∀ {entry : FileEntry} {st : σ} {act : α}, W.step false entry st act ≠ some .leave

def FetcherPc.left : FetcherPc → List FileEntry
  | .batch files _ => files
  | .send entry files _ => entry :: files
  | _ => []

def FetcherPc.ends : FetcherPc → Bool
  | .finished => true
  | .batch _ hasMore | .send _ _ hasMore => !hasMore
  | _ => false

def TaskPc.entries : TaskPc σ ε → Multiset FileEntry
  | .item entry _ => {entry}
  | _ => 0

def SawEnd (tr : RunnerTrace σ α ε ρ) : Prop := ∃ e ∈ tr, ∃ files, e.out = .batch files false

namespace Runner

/-- Neither flag is set, and the deadline has not passed. -/
structure Clean (s : Runner σ ε) : Prop where
  abort : s.abort = false
  cancelled : s.cancelled = false
  early : s.late = false

structure Books (Whole : σ → Prop) (Complete : ρ → Prop) (tr : RunnerTrace σ α ε ρ)
    (s : Runner σ ε) : Prop where
  entries : (receivedEntries tr : Multiset FileEntry) = (processedEntries tr : Multiset FileEntry) +
    (s.chan : Multiset FileEntry) + (s.fetcher.left : Multiset FileEntry) +
      Pool.total TaskPc.entries s.tasks
  sawEnd : s.fetcher.ends = true → SawEnd tr
  drained : ∀ t ∈ s.tasks, t.isFinished = true → s.fetcher = .finished ∧ s.chan = []
  whole : ∀ t ∈ s.tasks, t.Holds Whole
  reports : ∀ e ∈ tr, ∀ i entry report, e.out = .processed i entry report → Complete report

variable {Ok Whole : σ → Prop} {Complete : ρ → Prop}

theorem Clean.stop (h : s.Clean) : s.stop = false := by
  simp [Runner.stop, h.abort, h.cancelled]

theorem Move.clean (h : s'.Clean) (hmove : s.Move W c act s' o) : s.Clean := by
  obtain ⟨habort, hcancelled, hlate⟩ := h
  cases hmove with
  | respond res hf =>
    unfold Runner.respond at habort hcancelled hlate
    split at habort
    · cases habort
    · next hknown =>
      rw [if_neg hknown] at hcancelled hlate
      split at hcancelled
      · cases hcancelled
      · next hgoes =>
        rw [if_neg hgoes] at habort hlate
        exact ⟨habort, hcancelled, hlate⟩
  | item i entry st act res hi hstep =>
    cases res with
    | fail err => cases habort
    | _ => exact ⟨habort, hcancelled, hlate⟩
  | joinErr i firstErr err hrun hi => cases habort
  | abort => cases habort
  | cancel => cases hcancelled
  | deadline => cases hlate
  | _ => exact ⟨habort, hcancelled, hlate⟩

theorem Books.init : Books Whole Complete ([] : RunnerTrace σ α ε ρ) (.init : Runner σ ε) where
  entries := by simp [receivedEntries, processedEntries, Runner.init, FetcherPc.left]
  sawEnd h := by cases h
  drained t ht := by cases ht
  whole t ht := by cases ht
  reports e he := by cases he

theorem silent_received (e : Event (Runner σ ε) (RunnerAct α) (RunnerOut ρ))
    (he : e.out = .silent) : receivedEntries (tr ++ [e]) = receivedEntries tr := by
  simp [receivedEntries, he, RunnerOut.received]

theorem silent_processed (e : Event (Runner σ ε) (RunnerAct α) (RunnerOut ρ))
    (he : e.out = .silent) : processedEntries (tr ++ [e]) = processedEntries tr := by
  simp [processedEntries, he, RunnerOut.worked]

theorem SawEnd.snoc (h : SawEnd tr) (e : Event (Runner σ ε) (RunnerAct α) (RunnerOut ρ)) :
    SawEnd (tr ++ [e]) := by
  obtain ⟨e', he', hout⟩ := h
  exact ⟨e', List.mem_append_left _ he', hout⟩

theorem Books.reports_snoc (h : Books Whole Complete tr s)
    {e : Event (Runner σ ε) (RunnerAct α) (RunnerOut ρ)}
    (he : ∀ i entry report, e.out = .processed i entry report → Complete report) :
    ∀ e' ∈ tr ++ [e], ∀ i entry report, e'.out = .processed i entry report → Complete report := by
  intro e' he'
  rcases List.mem_append.mp he' with he' | he'
  · exact h.reports e' he'
  · rw [List.mem_singleton.mp he']
    exact he

section

variable {e : Event (Runner σ ε) (RunnerAct α) (RunnerOut ρ)}

theorem Books.fetcher (h : Books Whole Complete tr s) (he : e.out = .silent) (pc : FetcherPc)
    (hleft : pc.left = s.fetcher.left) (hends : pc.ends = true → s.fetcher.ends = true)
    (hrunning : s.fetcher ≠ .finished) :
    Books Whole Complete (tr ++ [e]) { s with fetcher := pc } where
  entries := by
    rw [silent_received e he, silent_processed e he, hleft]
    exact h.entries
  sawEnd hpc := SawEnd.snoc (h.sawEnd (hends hpc)) e
  drained t ht hfinished := absurd (h.drained t ht hfinished).1 hrunning
  whole := h.whole
  reports := h.reports_snoc (by simp [he])

theorem Books.setTask {i : Nat} {pc pc' : TaskPc σ ε} (h : Books Whole Complete tr s)
    (he : e.out = .silent) (hi : s.tasks[i]? = some pc) (hentries : pc'.entries = pc.entries)
    (hwhole : pc'.Holds Whole)
    (hdrained : pc'.isFinished = true → s.fetcher = .finished ∧ s.chan = []) :
    Books Whole Complete (tr ++ [e]) (s.setTask i pc') where
  entries := by
    rw [silent_received e he, silent_processed e he]
    simp only [Runner.setTask]
    rw [Pool.total_set_eq TaskPc.entries hi hentries]
    exact h.entries
  sawEnd hends := SawEnd.snoc (h.sawEnd hends) e
  drained t ht hfinished := by
    rcases List.mem_or_eq_of_mem_set ht with hmem | rfl
    · exact h.drained t hmem hfinished
    · exact hdrained hfinished
  whole := Pool.forall_set h.whole hwhole
  reports := h.reports_snoc (by simp [he])

theorem Books.main (h : Books Whole Complete tr s) (he : e.out = .silent) (run : RunPc ε) :
    Books Whole Complete (tr ++ [e]) { s with run } where
  entries := by
    rw [silent_received e he, silent_processed e he]
    exact h.entries
  sawEnd hends := SawEnd.snoc (h.sawEnd hends) e
  drained := h.drained
  whole := h.whole
  reports := h.reports_snoc (by simp [he])

theorem Books.respond {res : FetchFileBatchResponse} (h : Books Whole Complete tr s)
    (he : e.out = batchOut res) (hf : s.fetcher = .request) (hclean : (s.respond res).Clean) :
    Books Whole Complete (tr ++ [e]) (s.respond res) := by
  obtain ⟨habort, hcancelled, _⟩ := hclean
  unfold Runner.respond at habort hcancelled ⊢
  split
  · next hunknown => simp [hunknown] at habort
  · next hknown =>
    split
    · next hcancel => simp [hknown, hcancel] at hcancelled
    · next hgoes =>
      have hout : e.out = .batch res.files res.hasMore := by
        rw [he, batchOut]
        simp [hknown, hgoes]
      constructor
      · have hentries := h.entries
        simp only [hf, FetcherPc.left, Multiset.coe_nil, add_zero] at hentries
        simp only [receivedEntries, processedEntries, List.flatMap_append, List.flatMap_singleton,
          hout, RunnerOut.received, RunnerOut.worked, List.append_nil, ← Multiset.coe_add,
          FetcherPc.left] at hentries ⊢
        rw [hentries]
        abel
      · intro hends
        have hmore : res.hasMore = false := by simpa [FetcherPc.ends] using hends
        exact ⟨e, by simp, res.files, by rw [hout, hmore]⟩
      · intro t ht hfinished
        have hold := (h.drained t ht hfinished).1
        rw [hf] at hold
        cases hold
      · exact h.whole
      · exact h.reports_snoc (by simp [hout])

theorem Books.send {entry : FileEntry} {files : List FileEntry} {hasMore : Bool}
    (h : Books Whole Complete tr s) (he : e.out = .silent)
    (hf : s.fetcher = .send entry files hasMore) :
    Books Whole Complete (tr ++ [e])
      { s with chan := s.chan ++ [entry], fetcher := .batch files hasMore } where
  entries := by
    have hentries := h.entries
    rw [silent_received e he, silent_processed e he]
    simp only [hf, FetcherPc.left] at hentries
    rw [hentries, ← Multiset.cons_coe, ← Multiset.singleton_add, ← Multiset.coe_add,
      Multiset.coe_singleton]
    simp only [FetcherPc.left]
    abel
  sawEnd hends := SawEnd.snoc (h.sawEnd (by rw [hf]; exact hends)) e
  drained t ht hfinished := by
    have hold := (h.drained t ht hfinished).1
    rw [hf] at hold
    cases hold
  whole := h.whole
  reports := h.reports_snoc (by simp [he])

theorem Books.recv {i : Nat} {entry : FileEntry} {chan : List FileEntry} {st : σ}
    (h : Books Whole Complete tr s) (he : e.out = .silent) (hi : s.tasks[i]? = some .recv)
    (hchan : s.chan = entry :: chan) (hst : Whole st) :
    Books Whole Complete (tr ++ [e]) { s.setTask i (.item entry st) with chan } where
  entries := by
    have hentries := h.entries
    obtain ⟨rest, htotal, hset⟩ := Pool.total_split TaskPc.entries hi
    rw [silent_received e he, silent_processed e he]
    simp only [Runner.setTask]
    rw [hentries, hchan, htotal, hset, ← Multiset.cons_coe, ← Multiset.singleton_add]
    simp only [TaskPc.entries]
    abel
  sawEnd hends := SawEnd.snoc (h.sawEnd hends) e
  drained t ht hfinished := by
    rcases List.mem_or_eq_of_mem_set ht with hmem | rfl
    · have hnil := (h.drained t hmem hfinished).2
      rw [hchan] at hnil
      cases hnil
    · cases hfinished
  whole := Pool.forall_set h.whole hst
  reports := h.reports_snoc (by simp [he])

theorem Books.done {i : Nat} {entry : FileEntry} {st : σ} {report : ρ}
    (h : Books Whole Complete tr s) (he : e.out = .processed i entry report)
    (hi : s.tasks[i]? = some (.item entry st)) (hreport : Complete report) :
    Books Whole Complete (tr ++ [e]) (s.setTask i .top) where
  entries := by
    have hentries := h.entries
    obtain ⟨rest, htotal, hset⟩ := Pool.total_split TaskPc.entries hi
    rw [htotal] at hentries
    simp only [receivedEntries, processedEntries, List.flatMap_append, List.flatMap_singleton,
      he, RunnerOut.received, RunnerOut.worked, List.append_nil, ← Multiset.coe_add,
      Runner.setTask] at hentries ⊢
    rw [hentries, hset]
    simp only [TaskPc.entries, Multiset.coe_singleton]
    abel
  sawEnd hends := SawEnd.snoc (h.sawEnd hends) e
  drained t ht hfinished := by
    rcases List.mem_or_eq_of_mem_set ht with hmem | rfl
    · exact h.drained t hmem hfinished
    · cases hfinished
  whole := Pool.forall_set h.whole trivial
  reports := by
    refine h.reports_snoc fun j entry' report' hout => ?_
    rw [he] at hout
    cases hout
    exact hreport

theorem Books.spawn (h : Books Whole Complete tr s) (he : e.out = .silent) :
    Books Whole Complete (tr ++ [e]) { s with tasks := s.tasks ++ [.top] } where
  entries := by
    rw [silent_received e he, silent_processed e he]
    simp only [Pool.total_concat, TaskPc.entries, add_zero]
    exact h.entries
  sawEnd hends := SawEnd.snoc (h.sawEnd hends) e
  drained t ht hfinished := by
    rcases List.mem_append.mp ht with ht | ht
    · exact h.drained t ht hfinished
    · rw [List.mem_singleton.mp ht] at hfinished
      cases hfinished
  whole t ht := by
    rcases List.mem_append.mp ht with ht | ht
    · exact h.whole t ht
    · rw [List.mem_singleton.mp ht]
      trivial
  reports := h.reports_snoc (by simp [he])

end

/-- While a task is there to receive, no `send` fails before the fetcher has finished. -/
theorem Books.receiver (h : Books Whole Complete tr s) (hjoined : s.Joined c) (hc : 1 ≤ c)
    (hrunning : s.fetcher ≠ .finished) : s.noReceiver = false := by
  cases hnone : s.noReceiver with
  | false => rfl
  | true =>
    simp only [noReceiver, Bool.and_eq_true, Bool.not_eq_true', List.all_eq_true] at hnone
    obtain ⟨hrx, hall⟩ := hnone
    have hlen := hjoined.spawned (by rintro hrun; simp [hrun, RunPc.holdsRx] at hrx)
    obtain ⟨t, ht⟩ := List.exists_mem_of_length_pos (l := s.tasks) (by omega)
    exact absurd (h.drained t ht (hall t ht)).1 hrunning

theorem Books.move (hthorough : W.Thorough Ok Whole Complete) (hc : 1 ≤ c) (hsound : s.Sound Ok c)
    (hclean' : s'.Clean) (h : Books Whole Complete tr s) (hmove : s.Move W c act s' o) :
    Books Whole Complete (tr ++ [⟨s, act, o, s'⟩]) s' := by
  have hclean := hmove.clean hclean'
  have hstop := hclean.stop
  have hearly := hclean.early
  cases hmove with
  | fetchTop hf =>
    exact h.fetcher rfl _ (by simp [hf, hearly, FetcherPc.left])
      (by simp [hearly, FetcherPc.ends]) (by simp [hf])
  | fetchFlags hf =>
    exact h.fetcher rfl _ (by simp [hf, hstop, FetcherPc.left])
      (by simp [hstop, FetcherPc.ends]) (by simp [hf])
  | respond res hf => exact h.respond rfl hf hclean'
  | retry err hf =>
    exact h.fetcher rfl _ (by simp [hf, FetcherPc.left]) (by simp [FetcherPc.ends]) (by simp [hf])
  | batchEnd hasMore hf =>
    cases hasMore <;>
      exact h.fetcher rfl _ (by simp [hf, FetcherPc.left]) (by simp [hf, FetcherPc.ends])
        (by simp [hf])
  | batchNext entry files hasMore hf =>
    exact h.fetcher rfl _ (by simp [hf, hstop, FetcherPc.left])
      (by simp [hf, hstop, FetcherPc.ends]) (by simp [hf])
  | sendFail entry files hasMore hf hnone =>
    rw [h.receiver hsound.joined hc (by simp [hf])] at hnone
    cases hnone
  | send entry files hasMore hf hsome hroom => exact h.send rfl hf
  | taskTop i hi =>
    exact h.setTask rfl hi (by simp [hearly, TaskPc.entries]) (by simp [hearly, TaskPc.Holds])
      (by simp [hearly, TaskPc.isFinished])
  | taskFlags i hi =>
    exact h.setTask rfl hi (by simp [hstop, TaskPc.entries]) (by simp [hstop, TaskPc.Holds])
      (by simp [hstop, TaskPc.isFinished])
  | recv i entry chan hi hchan => exact h.recv rfl hi hchan (hthorough.start entry)
  | recvEnd i hi hchan hf => exact h.setTask rfl hi rfl trivial fun _ => ⟨hf, hchan⟩
  | item i entry st iact res hi hres =>
    rw [hstop] at hres
    have hok : Ok st := hsound.items _ (List.mem_of_getElem? hi)
    have hst : Whole st := h.whole _ (List.mem_of_getElem? hi)
    cases res with
    | more st' => exact h.setTask rfl hi rfl (hthorough.step hok hst hres) (by intro hf; cases hf)
    | done report => exact h.done rfl hi (hthorough.done hst hres)
    | leave => exact absurd hres hthorough.stays
    | fail err =>
      have hfalse := hclean'.abort
      cases hfalse
  | spawn hrun hlt => exact h.spawn rfl
  | spawned | dropRx | joinOk | joined | returned => exact h.main rfl _
  | joinErr i firstErr err hrun hi =>
    have hfalse := hclean'.abort
    cases hfalse
  | abort =>
    have hfalse := hclean'.abort
    cases hfalse
  | cancel =>
    have hfalse := hclean'.cancelled
    cases hfalse
  | deadline =>
    have hfalse := hclean'.early
    cases hfalse

def SoundBooks (Ok Whole : σ → Prop) (Complete : ρ → Prop) (c : Nat) (tr : RunnerTrace σ α ε ρ)
    (s : Runner σ ε) : Prop :=
  s.Sound Ok c ∧ (1 ≤ c → s.Clean → Books Whole Complete tr s)

theorem Run.soundBooks {C : σ → α → Bool} (hlive : W.Live C Ok)
    (hthorough : W.Thorough Ok Whole Complete) (h : (runner W c).Run .init tr s)
    (hC : ∀ e ∈ tr, e.pre.permits C e.act = true) : SoundBooks Ok Whole Complete c tr s := by
  refine h.historyWhere (fun s act => s.permits C act = true) hC ⟨.init, fun _ _ => .init⟩ ?_
  intro tr s act s' o _ _ hs hact hstep
  have hmove := step_move hstep
  refine ⟨hs.1.move hlive hact hmove, fun hc hclean => ?_⟩
  exact (hs.2 hc (hmove.clean hclean)).move hthorough hc hs.1 hclean hmove

theorem Books.complete (h : Books Whole Complete tr s) (hjoined : s.Joined c) (hc : 1 ≤ c)
    {res : Except ε Unit} (hrun : s.run = .returned res) :
    SawEnd tr ∧ (processedEntries tr : Multiset FileEntry) = receivedEntries tr := by
  have hfetcher := hjoined.ended (by simp [hrun, RunPc.isReturned])
  have hlen := hjoined.spawned (by simp [hrun])
  have hall := hjoined.all_finished (by simp [hrun]) (by simp [hrun, RunPc.joined])
  obtain ⟨t, ht⟩ := List.exists_mem_of_length_pos (l := s.tasks) (by omega)
  have hchan := (h.drained t ht (hall t ht)).2
  have hnone : Pool.total TaskPc.entries s.tasks = 0 := by
    refine Pool.total_eq_zero fun t ht => ?_
    have hfinished := hall t ht
    cases t with
    | item entry st => cases hfinished
    | _ => rfl
  refine ⟨h.sawEnd (by simp [hfetcher, FetcherPc.ends]), ?_⟩
  rw [h.entries, hchan, hfetcher, hnone]
  simp [FetcherPc.left]

structure Within (P : FileEntry → Prop) (s : Runner σ ε) : Prop where
  fetcher : ∀ entry ∈ s.fetcher.left, P entry
  chan : ∀ entry ∈ s.chan, P entry
  tasks : ∀ t ∈ s.tasks, ∀ entry ∈ t.entries, P entry

section

variable {P : FileEntry → Prop}

theorem Within.init : Within P (.init : Runner σ ε) where
  fetcher entry h := by cases h
  chan entry h := by cases h
  tasks t h := by cases h

theorem Within.setTask {i : Nat} {pc : TaskPc σ ε} (h : Within P s)
    (hpc : ∀ entry ∈ pc.entries, P entry) : Within P (s.setTask i pc) :=
  ⟨h.fetcher, h.chan, Pool.forall_set h.tasks hpc⟩

theorem Move.within (h : s.Move W c act s' o) (hbatch : ∀ entry ∈ o.received, P entry)
    (hs : Within P s) : Within P s' := by
  cases h with
  | fetchTop | fetchFlags =>
    refine ⟨?_, hs.chan, hs.tasks⟩
    intro entry hentry
    split at hentry <;> cases hentry
  | respond res hf =>
    unfold Runner.respond
    unfold batchOut at hbatch
    split
    · exact ⟨by simp [FetcherPc.left], hs.chan, hs.tasks⟩
    · split
      · exact ⟨by simp [FetcherPc.left], hs.chan, hs.tasks⟩
      · next hknown hgoes =>
        simp only [hknown, hgoes] at hbatch
        exact ⟨hbatch, hs.chan, hs.tasks⟩
  | retry | sendFail => exact ⟨by simp [FetcherPc.left], hs.chan, hs.tasks⟩
  | batchEnd hasMore =>
    refine ⟨?_, hs.chan, hs.tasks⟩
    intro entry hentry
    split at hentry <;> cases hentry
  | batchNext entry files hasMore hf =>
    have hleft := hs.fetcher
    rw [hf] at hleft
    refine ⟨?_, hs.chan, hs.tasks⟩
    intro entry' hentry
    split at hentry
    · cases hentry
    · exact hleft entry' hentry
  | send entry files hasMore hf =>
    have hleft := hs.fetcher
    rw [hf] at hleft
    refine ⟨fun entry' hentry => hleft entry' (List.mem_cons_of_mem _ hentry), ?_, hs.tasks⟩
    intro entry' hentry
    rcases List.mem_append.mp hentry with hold | hnew
    · exact hs.chan entry' hold
    · rw [List.mem_singleton.mp hnew]
      exact hleft entry List.mem_cons_self
  | taskTop | taskFlags =>
    refine hs.setTask ?_
    intro entry hentry
    split at hentry <;> simp [TaskPc.entries] at hentry
  | recv i entry chan hi hchan =>
    have hold := hs.chan
    rw [hchan] at hold
    refine ⟨hs.fetcher, fun entry' hentry => hold entry' (List.mem_cons_of_mem _ hentry), ?_⟩
    refine Pool.forall_set hs.tasks ?_
    intro entry' hentry
    rw [Multiset.mem_singleton.mp hentry]
    exact hold entry List.mem_cons_self
  | recvEnd => exact hs.setTask (by simp [TaskPc.entries])
  | item i entry st act res hi hstep =>
    have hold := hs.tasks _ (List.mem_of_getElem? hi)
    cases res with
    | more st' => exact hs.setTask hold
    | done report => exact hs.setTask (by simp [TaskPc.entries])
    | leave => exact hs.setTask (by simp [TaskPc.entries])
    | fail err =>
      have hset : Within P (s.setTask i (.finished (.error err))) :=
        hs.setTask (by simp [TaskPc.entries])
      exact ⟨hset.fetcher, hset.chan, hset.tasks⟩
  | spawn =>
    refine ⟨hs.fetcher, hs.chan, ?_⟩
    intro t ht
    rcases List.mem_append.mp ht with hold | hnew
    · exact hs.tasks t hold
    · rw [List.mem_singleton.mp hnew]
      simp [TaskPc.entries]
  | _ => exact ⟨hs.fetcher, hs.chan, hs.tasks⟩

end

end Runner

end CvdBench.Worker
