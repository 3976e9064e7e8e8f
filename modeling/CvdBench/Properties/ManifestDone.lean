import CvdBench.Manifest.Delivery

/-!
The end of the manifest is announced when everything has been delivered, unless the cancel
flag cuts a pass short: the pass returns `Ok` then, and `done` is set all the same.
-/

set_option autoImplicit false

namespace CvdBench.Manifest

open Foundation Proto Master

variable {cancel : Bool} {out : Multiset FileEntry}

def CsvReader.Books (env : CsvEnv) (out : Multiset FileEntry) : CsvReader → Prop
  | .top => out = 0
  | .passed => out = env.load
  | .finished _ => True
  | r => out + r.left env = env.load

def Pipeline.Books (env : ScanEnv) (out : Multiset FileEntry) : Pipeline → Prop
  | .top => out = 0
  | .pass p => p.Spent env out ∧ p.Phases ∧ 0 < p.scanners.length
  | .passed => out = env.load.1
  | .finished _ => True

namespace Source

def Books (out : Multiset FileEntry) : Source → ManifestReader → Prop
  | .csv env, .csv r => r.Books env out
  | .dir env _, .dir r => r.Books env out
  | _, _ => False

/-- The task of a pass that reads the cancel flag when it is set finds nothing left to be
pushed, or the pass has failed already. -/
def Uncut (cancel : Bool) : Source → ManifestReader → ManifestReaderAct → Prop
  | .csv env, .csv r, _ => cancel = true → r.sees = true → r.left env = 0
  | .dir env _, .dir (.pass p), .dir (.pass act) => p.Uncut env cancel act
  | _, _, _ => True

end Source

theorem CsvReader.Move.books {env : CsvEnv} {r r' : CsvReader} {c : CellStep}
    (h : r.Move env false cancel r' c) (hcut : cancel = true → r.sees = true → r.left env = 0)
    (hb : r.Books env out) :
    r'.Books env (out + c.pushed) ∧ ∀ done, c = .act (.setDone done) →
      (∃ res, r' = .finished res) ∧ out = env.load := by
  cases h with
  | topCancel | openFail | refused => exact ⟨trivial, fun done heq => by cases heq⟩
  | top =>
    refine ⟨?_, fun done heq => by cases heq⟩
    simp only [CsvReader.Books] at hb
    simp [CsvReader.Books, CsvReader.left, CellStep.pushed, hb]
  | opened =>
    refine ⟨?_, fun done heq => by cases heq⟩
    simpa [CsvReader.Books, CsvReader.left, CellStep.pushed, CsvEnv.load] using hb
  | recordsEnd n =>
    refine ⟨?_, fun done heq => by cases heq⟩
    simpa [CsvReader.Books, CsvReader.left, CellStep.pushed, recordsLeft] using hb
  | recordsCancel n record rest hcancel =>
    refine ⟨?_, fun done heq => by cases heq⟩
    have hzero := hcut hcancel rfl
    simp only [CsvReader.Books, hzero] at hb
    simpa [CsvReader.Books, CellStep.pushed] using hb
  | record n record rest =>
    refine ⟨?_, fun done heq => by cases heq⟩
    simp only [CsvReader.Books, CsvReader.left] at hb
    rcases CsvReader.record_cases n rest record with ⟨err, heq⟩ | ⟨heq, hleft⟩ | ⟨entry, heq, hleft⟩
    · rw [heq]
      trivial
    · rw [hleft] at hb
      rw [heq]
      simpa [CsvReader.Books, CsvReader.left, CellStep.pushed] using hb
    · rw [hleft] at hb
      rw [heq]
      simpa [CsvReader.Books, CsvReader.left, CellStep.pushed] using hb
  | acquire n entry rest =>
    refine ⟨?_, fun done heq => by cases heq⟩
    simpa [CsvReader.Books, CsvReader.left, CellStep.pushed] using hb
  | pushBack n entry rest =>
    refine ⟨?_, fun done heq => by cases heq⟩
    simp only [CsvReader.Books, CsvReader.left] at hb
    simp only [CsvReader.Books, CsvReader.left, CellStep.pushed, Multiset.coe_singleton]
    rw [← hb, add_assoc]
  | loop hloop => cases hloop
  | done _ => exact ⟨trivial, fun done _ => ⟨⟨_, rfl⟩, hb⟩⟩

theorem Scanner.Move.not_setDone {env : ScanEnv} {q q' : DirWorkQueue} {act : ScannerAct}
    {s s' : Scanner} {sig : Signal} {c : CellStep}
    (h : Scanner.Move env cancel q act s s' q' sig c) (done : Bool) : c ≠ .act (.setDone done) := by
  cases h <;> simp

theorem DirPass.Move.not_setDone {env : ScanEnv} {p p' : DirPass} {act : PassAct} {c : CellStep}
    (h : p.Move env cancel act p' c) (done : Bool) : c ≠ .act (.setDone done) := by
  cases h with
  | reader => simp
  | scanner _ hmove => exact hmove.not_setDone done
  | main hmove => cases hmove <;> simp

theorem Pipeline.books_init (env : ScanEnv) (n : Nat) :
    (Pipeline.pass (.init n)).Books env 0 :=
  ⟨.init n, .init n, by simp [DirPass.init]⟩

theorem Pipeline.Move.books {env : ScanEnv} {n : Nat} {r r' : Pipeline} {act : PipelineAct}
    {c : CellStep} (h : Pipeline.Move env n false cancel r act r' c)
    (hcut : (Source.dir env n).Uncut cancel (.dir r) (.dir act)) (hb : r.Books env out) :
    r'.Books env (out + c.pushed) ∧ ∀ done, c = .act (.setDone done) →
      (∃ res, r' = .finished res) ∧ out = env.load.1 := by
  cases h with
  | topCancel => exact ⟨trivial, fun done heq => by cases heq⟩
  | top =>
    refine ⟨?_, fun done heq => by cases heq⟩
    simp only [Pipeline.Books] at hb
    simpa [CellStep.pushed, hb] using Pipeline.books_init env n
  | pass p p' act c hmove =>
    refine ⟨?_, fun done heq => absurd heq (hmove.not_setDone done)⟩
    obtain ⟨hspent, hphases, hlen⟩ := hb
    have hmoved := hspent.move hcut hmove
    rw [CellStep.delivered_fst] at hmoved
    refine ⟨hmoved, hmove.phases hphases, ?_⟩
    rw [hmove.length_eq]
    exact hlen
  | returnedOk p hmain =>
    refine ⟨?_, fun done heq => by cases heq⟩
    obtain ⟨hspent, hphases, hlen⟩ := hb
    simpa [Pipeline.Books, CellStep.pushed] using hspent.returned hphases hlen hmain
  | returnedErr => exact ⟨trivial, fun done heq => by cases heq⟩
  | loop hloop => cases hloop
  | done => exact ⟨trivial, fun done _ => ⟨⟨_, rfl⟩, hb⟩⟩

namespace Source

variable {src : Source} {r r' : ManifestReader} {act : ManifestReaderAct} {c : CellStep}

theorem step_books (h : src.step false cancel r act = some (r', c))
    (hcut : src.Uncut cancel r act) (hb : src.Books out r) :
    src.Books (out + c.pushed) r' ∧ ∀ done, c = .act (.setDone done) →
      r'.isFinished = true ∧ out = src.denoted := by
  cases step_cases h with
  | csv hstep =>
    obtain ⟨hbooks, hdone⟩ := (CsvReader.step_move hstep).books hcut hb
    refine ⟨hbooks, fun done heq => ?_⟩
    obtain ⟨⟨res, hres⟩, hout⟩ := hdone done heq
    rw [hres]
    exact ⟨rfl, hout⟩
  | dir hstep =>
    obtain ⟨hbooks, hdone⟩ := (Pipeline.step_move hstep).books hcut hb
    refine ⟨hbooks, fun done heq => ?_⟩
    obtain ⟨⟨res, hres⟩, hout⟩ := hdone done heq
    rw [hres]
    exact ⟨rfl, hout⟩

theorem step_loop (h : src.step true cancel r act = some (r', c)) : c ≠ .act (.setDone true) := by
  cases step_cases h with
  | csv hstep =>
    cases CsvReader.step_move hstep with
    | done hloop => cases hloop
    | _ => simp
  | dir hstep =>
    cases Pipeline.step_move hstep with
    | pass _ _ _ _ hmove => exact hmove.not_setDone true
    | done hloop => cases hloop
    | _ => simp

theorem step_finished {loopFiles : Bool} (hr : r.isFinished = true) :
    src.step loopFiles cancel r act = none := by
  unfold step
  split
  · next r act =>
    cases r with
    | finished res => cases act <;> rfl
    | _ => cases hr
  · next r act =>
    cases r with
    | finished res => cases act <;> rfl
    | _ => cases hr
  · rfl

end Source

section

variable {src : Source} {loopFiles : Bool} {capacity : Nat} {tr : DeliveryTrace} {s s' : Delivery}
  {act : DeliveryAct} {o : DeliveryOut}

/-- With this step the cancel flag cuts nothing off. -/
def Delivery.Uncut (src : Source) (s : Delivery) : DeliveryAct → Prop
  | .reader act => src.Uncut s.cell.cancelFlag s.reader act
  | _ => True

theorem Delivery.Move.content (h : s.Move src loopFiles act s' o)
    (hc : drainedEntries tr ++ s.cell.queue.inner = pushedEntries tr) :
    drainedEntries tr ++ o.taken ++ s'.cell.queue.inner = pushedEntries tr ++ o.pushed := by
  cases h with
  | reader act r c cell _ hcell =>
    obtain ⟨hinner, _⟩ := c.apply_queue hcell
    simp only [DeliveryOut.taken, DeliveryOut.pushed, List.append_nil]
    rw [hinner, ← hc, List.append_assoc]
  | drain i n t =>
    simp only [DeliveryOut.taken, DeliveryOut.pushed, List.append_nil, List.append_assoc,
      List.take_append_drop]
    exact hc
  | _ =>
    simp only [DeliveryOut.taken, DeliveryOut.pushed, List.append_nil]
    exact hc

structure Delivered (src : Source) (tr : DeliveryTrace) (s : Delivery) : Prop where
  content : drainedEntries tr ++ s.cell.queue.inner = pushedEntries tr
  books : src.Books (pushedEntries tr) s.reader
  done : s.cell.manifestDone = true →
    s.reader.isFinished = true ∧ (pushedEntries tr : Multiset FileEntry) = src.denoted
  asked : ∀ i : Nat, s.fetches[i]? = some .isEmpty → s.cell.manifestDone = true
  ended : ∀ (i : Nat) files, s.fetches[i]? = some (.answered files false) →
    s.cell.manifestDone = true ∧ s.cell.queue.inner = []

/-- A call comes to ask for the queue only when the end is announced, and learns that it
is empty only when it is. -/
theorem Delivery.Move.called (h : s.Move src loopFiles act s' o) (j : Nat) :
    (s'.fetches[j]? = some .isEmpty →
      s.fetches[j]? = some .isEmpty ∨ s.cell.manifestDone = true) ∧
    ∀ files, s'.fetches[j]? = some (.answered files false) →
      s.fetches[j]? = some (.answered files false) ∨
        s.fetches[j]? = some .isEmpty ∧ s.cell.queue.inner = [] := by
  cases h with
  | fetch batchSize =>
    rw [Pool.getElem?_concat_iff (by simp)]
    refine ⟨.inl, fun files hj => ?_⟩
    exact .inl ((Pool.getElem?_concat_iff (by simp) j).mp hj)
  | drain i n t hi ht =>
    simp only [Pool.getElem?_set t hi j]
    by_cases heq : j = i
    · rcases ht with ⟨_, rfl⟩ | rfl <;> simp [heq]
    · simp only [if_neg heq]
      exact ⟨.inl, fun files => .inl⟩
  | addPermits i files hi =>
    simp only [Pool.getElem?_set _ hi j]
    by_cases heq : j = i
    · simp [heq]
    · simp only [if_neg heq]
      exact ⟨.inl, fun files => .inl⟩
  | loadDone i hi =>
    simp only [Pool.getElem?_set _ hi j]
    by_cases heq : j = i
    · cases s.cell.manifestDone <;> simp [heq]
    · simp only [if_neg heq]
      exact ⟨.inl, fun files => .inl⟩
  | isEmpty i hi =>
    simp only [Pool.getElem?_set _ hi j]
    by_cases heq : j = i
    · subst heq
      simp [hi]
    · simp only [if_neg heq]
      exact ⟨.inl, fun files => .inl⟩
  | reader | cancel | close => exact ⟨.inl, fun files => .inl⟩

theorem Delivery.Move.others (h : s.Move src loopFiles act s' o)
    (hact : ∀ ract, act ≠ .reader ract) :
    s'.reader = s.reader ∧ s'.cell.manifestDone = s.cell.manifestDone ∧ o.pushed = [] ∧
      (s.cell.queue.inner = [] → s'.cell.queue.inner = []) := by
  cases h with
  | reader ract => exact absurd rfl (hact ract)
  | drain i n t =>
    refine ⟨rfl, rfl, rfl, fun hempty => ?_⟩
    simp [hempty]
  | _ => exact ⟨rfl, rfl, rfl, fun hempty => hempty⟩

theorem Delivered.init : Delivered src [] (.init src capacity) where
  content := rfl
  books := by cases src <;> rfl
  done := fun h => by cases h
  asked := fun i hi => by cases hi
  ended := fun i files hi => by cases hi

theorem Delivered.reader {c : CellStep} {r : ManifestReader} {cell : ManifestCell}
    {ract : ManifestReaderAct} (h : Delivered src tr s)
    (hcut : src.Uncut s.cell.cancelFlag s.reader ract)
    (hstep : src.step false s.cell.cancelFlag s.reader ract = some (r, c))
    (hcell : c.apply s.cell = some cell) :
    Delivered src (tr ++ [⟨s, .reader ract, .reader c, { s with reader := r, cell }⟩])
      { s with reader := r, cell } := by
  have hnot : s.cell.manifestDone = false := by
    cases hdone : s.cell.manifestDone with
    | false => rfl
    | true =>
      rw [Source.step_finished (h.done hdone).1] at hstep
      cases hstep
  obtain ⟨hinner, hflag⟩ := c.apply_queue hcell
  obtain ⟨hbooks, hset⟩ := Source.step_books hstep hcut h.books
  constructor
  · rw [drainedEntries_concat, pushedEntries_concat]
    have hmove : s.Move src false (.reader ract) _ (.reader c) := .reader ract r c cell hstep hcell
    exact hmove.content h.content
  · rw [pushedEntries_concat]
    simpa [DeliveryOut.pushed] using hbooks
  · intro hdone
    rcases hflag with hsame | heq
    · rw [hsame, hnot] at hdone
      cases hdone
    · obtain ⟨hfin, hout⟩ := hset _ heq
      refine ⟨hfin, ?_⟩
      rw [pushedEntries_concat, heq]
      simpa [DeliveryOut.pushed, CellStep.pushed] using hout
  · intro i hi
    rw [h.asked i hi] at hnot
    cases hnot
  · intro i files hi
    rw [(h.ended i files hi).1] at hnot
    cases hnot

theorem Delivered.move (h : Delivered src tr s) (hcut : s.Uncut src act)
    (hmove : s.Move src false act s' o) : Delivered src (tr ++ [⟨s, act, o, s'⟩]) s' := by
  have hcontent := hmove.content h.content
  have hcalled := hmove.called
  by_cases hact : ∀ ract, act ≠ .reader ract
  · obtain ⟨hreader, hdone, hpushed, hempty⟩ := hmove.others hact
    constructor
    · rw [drainedEntries_concat, pushedEntries_concat]
      exact hcontent
    · rw [hreader, pushedEntries_concat, hpushed, List.append_nil]
      exact h.books
    · rw [hreader, hdone, pushedEntries_concat, hpushed, List.append_nil]
      exact h.done
    · intro j hj
      rw [hdone]
      rcases (hcalled j).1 hj with hold | hnew
      · exact h.asked j hold
      · exact hnew
    · intro j files hj
      rw [hdone]
      rcases (hcalled j).2 files hj with hold | ⟨hold, hnil⟩
      · obtain ⟨hd, hnil⟩ := h.ended j files hold
        exact ⟨hd, hempty hnil⟩
      · exact ⟨h.asked j hold, hempty hnil⟩
  · cases hmove with
    | reader ract r c cell hstep hcell => exact h.reader hcut hstep hcell
    | _ => exact absurd (by simp) hact

structure Unannounced (s : Delivery) : Prop where
  done : s.cell.manifestDone = false
  asked : ∀ i : Nat, s.fetches[i]? ≠ some .isEmpty
  ended : ∀ (i : Nat) files, s.fetches[i]? ≠ some (.answered files false)

theorem Unannounced.move (h : Unannounced s) (hmove : s.Move src true act s' o) :
    Unannounced s' := by
  have hcalled := hmove.called
  refine ⟨?_, fun j hj => ?_, fun j files hj => ?_⟩
  · cases hmove with
    | reader ract r c cell hstep hcell =>
      rcases (c.apply_queue hcell).2 with hsame | heq
      · exact hsame.trans h.done
      · cases hdone : cell.manifestDone with
        | false => rfl
        | true =>
          rw [hdone] at heq
          exact absurd heq (Source.step_loop hstep)
    | _ => exact h.done
  · rcases (hcalled j).1 hj with hold | hnew
    · exact h.asked j hold
    · rw [h.done] at hnew
      cases hnew
  · rcases (hcalled j).2 files hj with hold | ⟨hold, _⟩
    · exact h.ended j files hold
    · exact h.asked j hold

theorem Run.unannounced (h : (delivery src true capacity).Run (.init src capacity) tr s) :
    Unannounced s := by
  refine Machine.Reachable.invariant (M := delivery src true capacity) ?_ ?_ ⟨tr, h⟩
  · exact ⟨rfl, fun i hi => (by cases hi), fun i files hi => (by cases hi)⟩
  · intro s act s' o _ hs hstep
    exact hs.move (Delivery.step_move hstep)

theorem Run.delivered (h : (delivery src false capacity).Run (.init src capacity) tr s)
    (huncut : ∀ e ∈ tr, e.pre.Uncut src e.act) : Delivered src tr s := by
  refine h.historyWhere (fun s act => s.Uncut src act) huncut .init ?_
  intro tr s act s' o _ _ hs hcut hstep
  exact hs.move hcut (Delivery.step_move hstep)

/-- For every manifest, CSV or directories with any number of scanners, and every
interleaving of the reader, of FetchFileBatch calls, of a cancellation and of a close:
with `loop_files` the end is never announced. Without it, as long as the cancel flag cuts
nothing off, `manifest_done` is true only when the entries pushed are those of the
manifest, and a call answers that there is no more only when all of them have been
drained. -/
theorem manifestDone_delivered
    (h : (delivery src loopFiles capacity).Run (.init src capacity) tr s) :
    (loopFiles = true → s.cell.manifestDone = false ∧
      ∀ (i : Nat) files, s.fetches[i]? ≠ some (.answered files false)) ∧
    (loopFiles = false → (∀ e ∈ tr, e.pre.Uncut src e.act) →
      (s.cell.manifestDone = true → (pushedEntries tr : Multiset FileEntry) = src.denoted) ∧
      ∀ (i : Nat) files, s.fetches[i]? = some (.answered files false) →
        (drainedEntries tr : Multiset FileEntry) = src.denoted ∧ s.cell.queue.inner = []) := by
  constructor
  · intro hloop
    subst hloop
    have hun : Unannounced s := Run.unannounced h
    exact ⟨hun.done, hun.ended⟩
  · intro hloop huncut
    subst hloop
    have hdel : Delivered src tr s := Run.delivered h huncut
    refine ⟨fun hdone => (hdel.done hdone).2, fun i files hi => ?_⟩
    obtain ⟨hdone, hempty⟩ := hdel.ended i files hi
    have hcontent := hdel.content
    rw [hempty, List.append_nil] at hcontent
    rw [hcontent]
    exact ⟨(hdel.done hdone).2, hempty⟩

end

def Small.csvEnv : CsvEnv :=
  { csv := fun _ => [.ok ["a", "k1"], .ok ["b"]], content := "a,k1\nb\n" }

def Small.reads (n : Nat) : List DeliveryAct := List.replicate n (.reader (.csv .run))

def Small.toTheEnd : List DeliveryAct :=
  Small.reads 10 ++ [.fetch 10, .resume 0, .resume 0, .fetch 10, .resume 1, .resume 1, .resume 1]

theorem manifestDone_delivered_small :
    (drainedEntries ((delivery (.csv Small.csvEnv) false 4).trace (.init (.csv Small.csvEnv) 4)
      Small.toTheEnd) : Multiset FileEntry) = (Source.csv Small.csvEnv).denoted := by
  have hflag : ∀ e ∈ (delivery (.csv Small.csvEnv) false 4).trace (.init (.csv Small.csvEnv) 4)
      Small.toTheEnd, e.pre.cell.cancelFlag = false := by decide
  have hrun := (delivery (.csv Small.csvEnv) false 4).run_play (.init (.csv Small.csvEnv) 4)
    Small.toTheEnd
  refine (((manifestDone_delivered hrun).2 rfl fun e he => ?_).2 1 [] rfl).1
  cases hact : e.act with
  | reader act =>
    cases hreader : e.pre.reader with
    | csv r =>
      simp only [Delivery.Uncut, hreader, Source.Uncut, hflag e he]
      intro hcancel
      cases hcancel
    | dir r =>
      simp only [Delivery.Uncut, hreader, Source.Uncut]
  | _ => trivial

/-- The job is cancelled when the first record has been pushed, while a call is on its
way. -/
def Small.cutShort : List DeliveryAct :=
  Small.reads 5 ++ [.fetch 10, .resume 0, .resume 0, .fetch 10, .resume 1, .cancel] ++
    Small.reads 2 ++ [.resume 1, .resume 1]

/-- The second record is never pushed, `manifest_done` is true, and the call is told that
there is no more. -/
theorem manifestDone_cutShort :
    ¬ ∀ (src : Source) (capacity : Nat) (tr : DeliveryTrace) (s : Delivery),
      (delivery src false capacity).Run (.init src capacity) tr s →
        (s.cell.manifestDone = true → src.denoted ≤ (pushedEntries tr : Multiset FileEntry)) ∧
        ∀ (i : Nat) files, s.fetches[i]? = some (.answered files false) →
          src.denoted ≤ (drainedEntries tr : Multiset FileEntry) := by
  intro hall
  have hrun := (delivery (.csv Small.csvEnv) false 4).run_play (.init (.csv Small.csvEnv) 4)
    Small.cutShort
  have hle := (hall _ _ _ _ hrun).1 rfl
  have hcard := Multiset.card_le_card hle
  revert hcard
  decide

end CvdBench.Manifest
