import CvdBench.Properties.ManifestDone

/-!
What a reader pushes over all its passes: only entries that the manifest denotes, however
the run goes, and all of them in every pass that the cancel flag does not cut short.
-/

set_option autoImplicit false

namespace CvdBench.Manifest

open Foundation Foundation.Text Proto Master

variable {cancel : Bool}

section

variable {env : ScanEnv}

theorem DirReader.Move.left_le {q q' : DirWorkQueue} {fault : Option String} {r r' : DirReader}
    {sig : Signal} (h : DirReader.Move env cancel q fault r r' q' sig) :
    (r'.left env + q'.left env).1 ≤ (r.left env + q.left env).1 := by
  rcases h.left with heq | ⟨err, rfl⟩ | ⟨_, _, rfl, rfl⟩
  · rw [heq]
  · have hq : q' = q := by cases h <;> rfl
    rw [hq, Prod.fst_add, Prod.fst_add]
    exact add_le_add_left (Multiset.zero_le _) _
  · rw [Prod.fst_add, Prod.fst_add]
    exact add_le_add_left (Multiset.zero_le _) _

theorem Scanner.left_afterDir (res : Except DirScanError Unit) :
    ((Scanner.afterDir res).left env).1 = 0 := by
  cases res <;> rfl

theorem Scanner.Move.left_le {q q' : DirWorkQueue} {act : ScannerAct} {s s' : Scanner}
    {sig : Signal} {c : CellStep} (h : Scanner.Move env cancel q act s s' q' sig c) :
    (s'.left env + q'.left env + c.delivered).1 ≤ (s.left env + q.left env).1 := by
  rcases h.left with heq | hfail | ⟨_, _, hzero, rfl, rfl⟩
  · rw [heq]
  · have hidle : (s'.left env).1 = 0 ∧ q'.left env = q.left env ∧ c.delivered.1 = 0 := by
      cases h with
      | finishLast res => exact ⟨by cases res <;> rfl, rfl, rfl⟩
      | finish res => exact ⟨Scanner.left_afterDir res, rfl, rfl⟩
      | finishWake res => exact ⟨Scanner.left_afterDir res, rfl, rfl⟩
      | scanFail | entriesFail | fileRefused | dirRefused => exact ⟨rfl, rfl, rfl⟩
      | _ => cases hfail
    simp only [Prod.fst_add, hidle, zero_add, add_zero]
    exact Multiset.le_add_left _ _
  · simp only [Prod.fst_add, hzero, CellStep.delivered, zero_add, add_zero]
    exact Multiset.le_add_left _ _

theorem DirPass.Move.left_le {p p' : DirPass} {act : PassAct} {c : CellStep}
    (h : p.Move env cancel act p' c) : (p'.left env).1 + c.delivered.1 ≤ (p.left env).1 := by
  cases h with
  | reader _ hr hmove hsig =>
    have hle := hmove.left_le
    rw [(signal_signalled hsig).left]
    subst hr
    simp only [DirPass.left, Prod.fst_add, CellStep.delivered, Prod.fst_zero, add_zero] at hle ⊢
    exact add_le_add_left hle _
  | @scanner i act pick s s' q sig c p' hi hmove hsig =>
    have hle := hmove.left_le
    rw [(signal_signalled hsig).left]
    obtain ⟨rest, htotal, hset⟩ := Pool.total_split (Scanner.left env) hi
    simp only [DirPass.left, hset, htotal, Prod.fst_add] at hle ⊢
    calc (p.reader.left env).1 + (q.left env).1 + ((s'.left env).1 + rest.1) + c.delivered.1
        = (s'.left env).1 + (q.left env).1 + c.delivered.1 + ((p.reader.left env).1 + rest.1) := by
          abel
      _ ≤ (s.left env).1 + (p.queue.left env).1 + ((p.reader.left env).1 + rest.1) :=
          add_le_add_left hle _
      _ = (p.reader.left env).1 + (p.queue.left env).1 + ((s.left env).1 + rest.1) := by abel
  | main hmove =>
    cases hmove with
    | closeWake k err =>
      rw [(notifyWaiters_signalled { p with main := .join k (some err) }).left]
      simp [DirPass.left, CellStep.delivered]
    | _ => simp [DirPass.left, CellStep.delivered, DirWorkQueue.left, DirWorkQueue.close]

end

def ManifestReader.isPassed : ManifestReader → Bool
  | .csv .passed | .dir .passed => true
  | _ => false

def Source.left : Source → ManifestReader → Multiset FileEntry
  | .csv env, .csv r => r.left env
  | .dir env _, .dir (.pass p) => (p.left env).1
  | _, _ => 0

theorem CsvReader.Move.within {env : CsvEnv} {loopFiles : Bool} {r r' : CsvReader} {c : CellStep}
    (h : r.Move env loopFiles cancel r' c) (hr : r.left env ≤ env.load) :
    r'.left env + c.pushed ≤ env.load := by
  cases h with
  | record n record rest =>
    simp only [CsvReader.left] at hr
    rcases CsvReader.record_cases n rest record with ⟨err, heq⟩ | ⟨heq, hleft⟩ | ⟨entry, heq, hleft⟩
    · rw [heq]
      exact Multiset.zero_le _
    · rw [heq]
      rw [hleft] at hr
      simpa [CsvReader.left, CellStep.pushed] using hr
    · rw [heq]
      rw [hleft] at hr
      simpa [CsvReader.left, CellStep.pushed] using hr
  | top => simp [CsvReader.left, CellStep.pushed]
  | opened => simp [CsvReader.left, CellStep.pushed, CsvEnv.load]
  | acquire n entry rest => simpa [CsvReader.left, CellStep.pushed] using hr
  | pushBack n entry rest =>
    rw [CsvReader.left, CellStep.pushed, Multiset.coe_singleton, add_comm]
    exact hr
  | _ =>
    simp only [CsvReader.left, CellStep.pushed, Multiset.coe_nil, add_zero]
    exact Multiset.zero_le _

theorem CsvReader.step_unpassed {env : CsvEnv} {r : CsvReader} {act : CsvAct} (hr : r ≠ .passed)
    (loopFiles : Bool) : r.step env loopFiles cancel act = r.step env false cancel act := by
  cases r with
  | passed => exact absurd rfl hr
  | records n rest => cases rest <;> cases act <;> rfl
  | _ => cases act <;> rfl

theorem Pipeline.step_unpassed {env : ScanEnv} {n : Nat} {r : Pipeline} {act : PipelineAct}
    (hr : r ≠ .passed) (loopFiles : Bool) :
    r.step env n loopFiles cancel act = r.step env n false cancel act := by
  cases r with
  | passed => exact absurd rfl hr
  | _ => cases act <;> rfl

namespace Source

variable {src : Source} {loopFiles : Bool} {r r' : ManifestReader} {act : ManifestReaderAct}
  {c : CellStep}

theorem step_within (h : src.step loopFiles cancel r act = some (r', c))
    (hr : src.left r ≤ src.denoted) : src.left r' + c.pushed ≤ src.denoted := by
  cases step_cases h with
  | csv hstep => exact (CsvReader.step_move hstep).within hr
  | dir hstep =>
    cases Pipeline.step_move hstep with
    | top => simp [left, denoted, CellStep.pushed, DirPass.left_init]
    | pass p p' act c hmove =>
      have hle := hmove.left_le
      rw [CellStep.delivered_fst] at hle
      exact le_trans hle hr
    | _ => exact Multiset.zero_le _

theorem step_loops (h : src.step loopFiles cancel r act = some (r', c)) :
    src.step false cancel r act = some (r', c) ∨
      r.isPassed = true ∧ r' = src.start ∧ c.pushed = [] := by
  cases step_cases h with
  | csv hstep =>
    cases CsvReader.step_move hstep with
    | loop => exact .inr ⟨rfl, rfl, rfl⟩
    | done hloop => exact .inl (Steps.csv (by rw [← hloop, hstep])).eq
    | _ => exact .inl (Steps.csv (by rw [← CsvReader.step_unpassed (by simp) loopFiles, hstep])).eq
  | dir hstep =>
    cases Pipeline.step_move hstep with
    | loop => exact .inr ⟨rfl, rfl, rfl⟩
    | done hloop => exact .inl (Steps.dir (by rw [← hloop, hstep])).eq
    | _ => exact .inl (Steps.dir (by rw [← Pipeline.step_unpassed (by simp) loopFiles, hstep])).eq

end Source

section

variable {src : Source} {loopFiles : Bool} {capacity : Nat} {tr : DeliveryTrace} {s s' : Delivery}
  {act : DeliveryAct} {o : DeliveryOut}

/-- Every entry is one that the manifest denotes, wherever it is. -/
structure Delivery.Within (src : Source) (s : Delivery) : Prop where
  reader : src.left s.reader ≤ src.denoted
  queue : ∀ file ∈ s.cell.queue.inner, file ∈ src.denoted
  fetches : ∀ t ∈ s.fetches, ∀ files, t.taken? = some files → ∀ file ∈ files, file ∈ src.denoted

theorem Delivery.Within.init : (Delivery.init src capacity).Within src where
  reader := by cases src <;> exact Multiset.zero_le _
  queue := by simp [Delivery.init, ManifestCell.fresh, BoundedQueue.new]
  fetches := by simp [Delivery.init]

theorem Delivery.Move.within (h : s.Move src loopFiles act s' o) (hs : s.Within src) :
    s'.Within src ∧ ∀ file ∈ o.taken, file ∈ src.denoted := by
  cases h with
  | reader act r c cell hstep hcell =>
    have hle := Source.step_within hstep hs.reader
    have hpushed : ∀ file ∈ c.pushed, file ∈ src.denoted := by
      intro file hfile
      exact Multiset.mem_of_le hle (Multiset.mem_add.mpr (.inr (Multiset.mem_coe.mpr hfile)))
    refine ⟨⟨le_trans (Multiset.le_add_right _ _) hle, ?_, hs.fetches⟩, by simp [DeliveryOut.taken]⟩
    intro file hfile
    rw [(c.apply_queue hcell).1] at hfile
    rcases List.mem_append.mp hfile with hold | hnew
    · exact hs.queue file hold
    · exact hpushed file hnew
  | fetch batchSize =>
    refine ⟨⟨hs.reader, hs.queue, ?_⟩, by simp [DeliveryOut.taken]⟩
    intro t ht files htaken
    rcases List.mem_append.mp ht with hold | hnew
    · exact hs.fetches t hold files htaken
    · rw [List.mem_singleton.mp hnew] at htaken
      cases htaken
  | drain i n t hi ht =>
    have htake : ∀ file ∈ s.cell.queue.inner.take n, file ∈ src.denoted :=
      fun file hfile => hs.queue file (List.mem_of_mem_take hfile)
    refine ⟨⟨hs.reader, fun file hfile => hs.queue file (List.mem_of_mem_drop hfile), ?_⟩, htake⟩
    refine Pool.forall_set hs.fetches ?_
    intro files htaken
    rcases ht with ⟨_, rfl⟩ | rfl
    · cases htaken
      simp
    · cases htaken
      exact htake
  | addPermits i files hi =>
    refine ⟨⟨hs.reader, hs.queue, Pool.forall_set hs.fetches ?_⟩, by simp [DeliveryOut.taken]⟩
    exact hs.fetches (.addPermits files) (List.mem_of_getElem? hi)
  | loadDone i hi =>
    refine ⟨⟨hs.reader, hs.queue, Pool.forall_set hs.fetches ?_⟩, by simp [DeliveryOut.taken]⟩
    intro files htaken
    cases hdone : s.cell.manifestDone <;> simp [hdone, FetchTask.taken?] at htaken <;> simp [htaken]
  | isEmpty i hi =>
    refine ⟨⟨hs.reader, hs.queue, Pool.forall_set hs.fetches ?_⟩, by simp [DeliveryOut.taken]⟩
    intro files htaken
    cases htaken
    simp
  | cancel => exact ⟨⟨hs.reader, hs.queue, hs.fetches⟩, by simp [DeliveryOut.taken]⟩
  | close => exact ⟨⟨hs.reader, hs.queue, hs.fetches⟩, by simp [DeliveryOut.taken]⟩

theorem Run.within (h : (delivery src loopFiles capacity).Run (.init src capacity) tr s) :
    s.Within src := by
  refine Machine.Reachable.invariant (M := delivery src loopFiles capacity) ?_ ?_ ⟨tr, h⟩
  · exact .init
  · intro s act s' o _ hs hstep
    exact ((Delivery.step_move hstep).within hs).1

theorem Run.content (h : (delivery src loopFiles capacity).Run (.init src capacity) tr s) :
    drainedEntries tr ++ s.cell.queue.inner = pushedEntries tr := by
  refine h.history (P := fun tr s => drainedEntries tr ++ s.cell.queue.inner = pushedEntries tr)
    rfl ?_
  intro tr s act s' o _ hs hstep
  rw [drainedEntries_concat, pushedEntries_concat]
  exact (Delivery.step_move hstep).content hs

/-- The passes that are over have pushed the whole manifest each, and the books of the
pass that runs are right. -/
def Rounds (src : Source) (pushed : Multiset FileEntry) (r : ManifestReader) : Prop :=
  ∃ (k : Nat) (out : Multiset FileEntry), pushed = k • src.denoted + out ∧ src.Books out r

theorem Source.Books.passed {out : Multiset FileEntry} {r : ManifestReader} (h : src.Books out r)
    (hr : r.isPassed = true) : out = src.denoted := by
  cases src with
  | csv env =>
    cases r with
    | csv r =>
      cases r with
      | passed => exact h
      | _ => cases hr
    | dir r => cases h
  | dir env n =>
    cases r with
    | csv r => cases h
    | dir r =>
      cases r with
      | passed => exact h
      | _ => cases hr

theorem Rounds.step {pushed : Multiset FileEntry} {r r' : ManifestReader} {ract : ManifestReaderAct}
    {c : CellStep} (h : Rounds src pushed r) (hcut : src.Uncut cancel r ract)
    (hstep : src.step loopFiles cancel r ract = some (r', c)) :
    Rounds src (pushed + c.pushed) r' := by
  obtain ⟨k, out, rfl, hbooks⟩ := h
  rcases Source.step_loops hstep with honce | ⟨hpassed, rfl, hsilent⟩
  · exact ⟨k, out + c.pushed, by rw [add_assoc], (Source.step_books honce hcut hbooks).1⟩
  · refine ⟨k + 1, 0, ?_, by cases src <;> rfl⟩
    rw [hbooks.passed hpassed, hsilent, succ_nsmul]
    rfl

theorem Run.rounds (h : (delivery src loopFiles capacity).Run (.init src capacity) tr s)
    (huncut : ∀ e ∈ tr, e.pre.Uncut src e.act) : Rounds src (pushedEntries tr) s.reader := by
  refine h.historyWhere (P := fun tr s => Rounds src (pushedEntries tr) s.reader)
    (fun s act => s.Uncut src act) huncut ?_ ?_
  · exact ⟨0, 0, rfl, by cases src <;> rfl⟩
  · intro tr s act s' o _ _ hs hcut hstep
    rw [pushedEntries_concat, ← Multiset.coe_add]
    cases Delivery.step_move hstep with
    | reader ract r c cell hread _ => exact hs.step hcut hread
    | _ => simpa only [DeliveryOut.pushed, Multiset.coe_nil, add_zero] using hs

end

end CvdBench.Manifest
