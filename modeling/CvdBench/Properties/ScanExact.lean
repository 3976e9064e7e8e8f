import CvdBench.Manifest.Delivery
import CvdBench.Manifest.DirMeasure
import CvdBench.Manifest.DirSmooth
import CvdBench.Properties.ScanProgress

/-!
The directory scan is complete and exact. In a run that nothing disturbs, what has been
delivered and what is left always add up to the tree, and the scan can only wait for the
file queue to be drained.
-/

set_option autoImplicit false

namespace CvdBench.Manifest

open Foundation Foundation.Text Proto Master

variable {env : ScanEnv} {t : FileTree}

def Scanner.holds : Scanner → Nat
  | .pushFileHeld .. => 1
  | _ => 0

def CellStep.takes : CellStep → Nat
  | .act .acquire => 1
  | _ => 0

def CellStep.puts : CellStep → Nat
  | .act (.pushBack _) => 1
  | _ => 0

/-- Counters only grow. -/
def CellStep.Counts (c : CellStep) : Prop :=
  ∀ dirs files ms, c = .act (.addStats dirs files ms) → 0 ≤ dirs ∧ 0 ≤ files

theorem Scanner.Move.holds {cancel : Bool} {q q' : DirWorkQueue} {act : ScannerAct}
    {s s' : Scanner} {sig : Signal} {c : CellStep}
    (h : Scanner.Move env cancel q act s s' q' sig c) :
    s'.holds + c.puts = s.holds + c.takes ∧ c.Counts := by
  cases h with
  | fileCount | countDir =>
    refine ⟨rfl, fun dirs files ms heq => ?_⟩
    cases heq
    decide
  | finish res | finishWake res =>
    refine ⟨by cases res <;> rfl, fun dirs files ms heq => by cases heq⟩
  | _ => exact ⟨rfl, fun dirs files ms heq => by cases heq⟩

theorem Scanner.Woken.holds_eq {s s' : Scanner} (h : s.Woken s') : s'.holds = s.holds := by
  cases h <;> rfl

namespace DirPass

variable {p p' : DirPass}

theorem Signalled.holds (h : p.Signalled p') :
    Pool.total Scanner.holds p'.scanners = Pool.total Scanner.holds p.scanners :=
  Pool.total_rel (fun _ _ hw => hw.holds_eq) h.scanners

theorem Move.holds {cancel : Bool} {act : PassAct} {c : CellStep}
    (h : p.Move env cancel act p' c) :
    Pool.total Scanner.holds p'.scanners + c.puts =
      Pool.total Scanner.holds p.scanners + c.takes ∧ c.Counts := by
  cases h with
  | reader _ _ _ hsig =>
    rw [(signal_signalled hsig).holds]
    exact ⟨rfl, fun dirs files ms heq => by cases heq⟩
  | @scanner i act pick s s' q sig c p' hi hmove hsig =>
    have htotal := Pool.total_set Scanner.holds s' hi
    obtain ⟨hholds, hcounts⟩ := hmove.holds
    rw [(signal_signalled hsig).holds]
    refine ⟨?_, hcounts⟩
    simp only
    omega
  | main hmove =>
    cases hmove with
    | closeWake k err =>
      rw [(notifyWaiters_signalled { p with main := .join k (some err) }).holds]
      exact ⟨rfl, fun dirs files ms heq => by cases heq⟩
    | addElapsed firstErr ms =>
      refine ⟨rfl, fun dirs files ms heq => ?_⟩
      cases heq
      decide
    | _ => exact ⟨rfl, fun dirs files ms heq => by cases heq⟩

end DirPass

namespace Pipeline

def left (env : ScanEnv) : Pipeline → Load
  | .top => env.load
  | .pass p => p.left env
  | .passed | .finished _ => 0

def holds : Pipeline → Nat
  | .pass p => Pool.total Scanner.holds p.scanners
  | _ => 0

def work (env : ScanEnv) (n : Nat) : Pipeline → Nat
  | .top => (DirPass.init n).work env (max n 1) + 3
  | .pass p => p.work env (max n 1) + 2
  | .passed => 1
  | .finished _ => 0

structure PassOk (env : ScanEnv) (t : FileTree) (n : Nat) (p : DirPass) : Prop where
  smooth : p.Smooth env t
  ok : p.ScanOk env false
  spent : ∃ out, p.Spent env out
  stopped : .finished (.ok ()) ∈ p.scanners → p.AllDone
  length : p.scanners.length = max n 1

def Ok (env : ScanEnv) (t : FileTree) (n : Nat) : Pipeline → Prop
  | .pass p => PassOk env t n p
  | .finished res => res = .ok ()
  | .top | .passed => True

end Pipeline

def PipelineAct.noFault : PipelineAct → Prop
  | .pass act => act.noFault
  | .run => True

theorem Pipeline.PassOk.init (n : Nat) : Pipeline.PassOk env t n (.init n) where
  smooth := .init n
  ok := .init n
  spent := ⟨0, .init n⟩
  stopped := by simp [DirPass.init]
  length := by simp [DirPass.init]

theorem Pipeline.PassOk.move {n : Nat} {p p' : DirPass} {act : PassAct} {c : CellStep}
    (hp : PassOk env t n p) (hshows : env.fs.Shows t) (hlists : t.Lists env.content)
    (hact : act.noFault) (hc : c ≠ .refused) (h : p.Move env false act p' c) :
    PassOk env t n p' := by
  obtain ⟨out, hspent⟩ := hp.spent
  refine ⟨hp.smooth.move hshows hlists hact hc h, hp.ok.move (hp.smooth.stays act) h, ?_, ?_, ?_⟩
  · exact ⟨_, hspent.move (fun hcancel => by cases hcancel) h⟩
  · exact hp.smooth.stopped_move hp.ok.counted hspent.readerDone hp.stopped h
  · rw [h.length_eq]
    exact hp.length

theorem Pipeline.Move.exact {n : Nat} {r r' : Pipeline} {act : PipelineAct} {c : CellStep}
    (h : Pipeline.Move env n false false r act r' c) (hshows : env.fs.Shows t)
    (hlists : t.Lists env.content) (hact : act.noFault) (hc : c ≠ .refused) (hr : r.Ok env t n) :
    r'.Ok env t n ∧ r'.left env + c.delivered = r.left env ∧
      (r'.holds + c.puts = r.holds + c.takes ∧ c.Counts) ∧ r'.work env n < r.work env n ∧
      c ≠ .act .setCancel := by
  cases h with
  | topCancel hcancel => cases hcancel
  | top =>
    refine ⟨.init n, ?_, ⟨?_, fun dirs files ms heq => by cases heq⟩, ?_, by simp⟩
    · simp [Pipeline.left, DirPass.left_init, CellStep.delivered]
    · have hzero : Pool.total Scanner.holds (DirPass.init n).scanners = 0 := by
        refine Pool.total_eq_zero fun s hs => ?_
        rw [List.eq_of_mem_replicate hs]
        rfl
      simp [Pipeline.holds, hzero, CellStep.puts, CellStep.takes]
    · simp only [Pipeline.work]
      omega
  | pass p p' act c hmove =>
    have hp' := Pipeline.PassOk.move hr hshows hlists hact hc hmove
    refine ⟨hp', hp'.smooth.left hmove, hmove.holds, ?_, hr.smooth.not_setCancel hmove⟩
    have hwork := hmove.work env (max n 1) hr.length
    simp only [Pipeline.work]
    omega
  | returnedOk p hmain =>
    have hlen : 0 < p.scanners.length := by
      rw [hr.length]
      omega
    obtain ⟨_, hleft⟩ := hr.smooth.left_returned hr.ok.phases hlen hr.stopped hmain
    have hzero : Pool.total Scanner.holds p.scanners = 0 := by
      refine Pool.total_eq_zero fun s hs => ?_
      obtain ⟨res, rfl⟩ := (hr.ok.phases.returned hmain).1.2 s hs
      rfl
    refine ⟨trivial, ?_, ⟨?_, fun dirs files ms heq => by cases heq⟩, ?_, by simp⟩
    · simp [Pipeline.left, hleft, CellStep.delivered]
    · simp [Pipeline.holds, hzero, CellStep.puts, CellStep.takes]
    · simp only [Pipeline.work]
      omega
  | returnedErr p err hmain =>
    have hlen : 0 < p.scanners.length := by
      rw [hr.length]
      omega
    obtain ⟨herr, _⟩ := hr.smooth.left_returned hr.ok.phases hlen hr.stopped hmain
    cases herr
  | loop hloop => cases hloop
  | done =>
    refine ⟨rfl, ?_, ⟨rfl, fun dirs files ms heq => by cases heq⟩, ?_, by simp⟩
    · simp [Pipeline.left, CellStep.delivered]
    · simp [Pipeline.work]

theorem CellStep.apply_permits {c : CellStep} {cell cell' : ManifestCell}
    (h : c.apply cell = some cell') :
    cell'.queue.freeSlots + cell'.queue.held + cell'.queue.inner.length =
      cell.queue.freeSlots + cell.queue.held + cell.queue.inner.length ∧
    cell'.queue.held + c.puts = cell.queue.held + c.takes ∧
    cell'.queue.semaphoreClosed = cell.queue.semaphoreClosed ∧
    (cell'.cancelFlag = cell.cancelFlag ∨ c = .act .setCancel) := by
  cases c with
  | «local» =>
    cases h
    exact ⟨rfl, rfl, rfl, .inl rfl⟩
  | refused =>
    simp only [CellStep.apply] at h
    split at h
    · cases h
      exact ⟨rfl, rfl, rfl, .inl rfl⟩
    · cases h
  | act a =>
    cases a with
    | acquire =>
      simp only [CellStep.apply, ReaderAct.apply, Option.map_eq_some_iff] at h
      obtain ⟨queue, hq, rfl⟩ := h
      unfold BoundedQueue.acquire at hq
      split at hq
      · next hfree =>
        cases hq
        refine ⟨?_, rfl, rfl, .inl rfl⟩
        simp only
        omega
      · cases hq
    | pushBack entry =>
      simp only [CellStep.apply, ReaderAct.apply, Option.map_eq_some_iff] at h
      obtain ⟨queue, hq, rfl⟩ := h
      unfold BoundedQueue.pushBack at hq
      split at hq
      · next hheld =>
        cases hq
        refine ⟨?_, ?_, rfl, .inl rfl⟩
        · simp only [List.length_append, List.length_singleton]
          omega
        · simp only [CellStep.puts, CellStep.takes]
          omega
      · cases hq
    | setCancel =>
      cases h
      exact ⟨rfl, rfl, rfl, .inr rfl⟩
    | setDone | addStats =>
      cases h
      exact ⟨rfl, rfl, rfl, .inl rfl⟩

theorem CellStep.apply_stats {c : CellStep} {cell cell' : ManifestCell} (hcounts : c.Counts)
    (h : c.apply cell = some cell') {dirs files : Nat}
    (hdirs : cell.scanStats.dirsScanned = wrapI64 dirs)
    (hfiles : cell.scanStats.filesScanned = wrapI64 files) :
    cell'.scanStats.dirsScanned = wrapI64 (dirs + c.delivered.2.1 : Nat) ∧
      cell'.scanStats.filesScanned = wrapI64 (files + c.delivered.2.2 : Nat) := by
  cases c with
  | «local» =>
    cases h
    exact ⟨hdirs, hfiles⟩
  | refused =>
    simp only [CellStep.apply] at h
    split at h
    · cases h
      exact ⟨hdirs, hfiles⟩
    · cases h
  | act a =>
    cases a with
    | acquire | pushBack =>
      simp only [CellStep.apply, ReaderAct.apply, Option.map_eq_some_iff] at h
      obtain ⟨queue, _, rfl⟩ := h
      exact ⟨hdirs, hfiles⟩
    | setCancel | setDone =>
      cases h
      exact ⟨hdirs, hfiles⟩
    | addStats d f ms =>
      cases h
      obtain ⟨hd, hf⟩ := hcounts d f ms rfl
      simp [CellStep.delivered, hdirs, hfiles, wrapI64_add, Int.toNat_of_nonneg hd,
        Int.toNat_of_nonneg hf]

/-- No call of the operating system fails with this step, and it neither cancels the job nor
closes the queue. -/
def DeliveryAct.undisturbed : DeliveryAct → Prop
  | .reader (.dir act) => act.noFault
  | .cancel | .close => False
  | _ => True

def DeliveryAct.isReader : DeliveryAct → Bool
  | .reader _ => true
  | _ => false

def DeliveryOut.load : DeliveryOut → Load
  | .reader c => c.delivered
  | _ => 0

def deliveredLoad (tr : DeliveryTrace) : Load := (tr.map (·.out.load)).sum

@[simp] theorem deliveredLoad_concat (tr : DeliveryTrace)
    (e : Event Delivery DeliveryAct DeliveryOut) :
    deliveredLoad (tr ++ [e]) = deliveredLoad tr + e.out.load := by
  simp [deliveredLoad]

theorem deliveredLoad_fst (tr : DeliveryTrace) :
    (deliveredLoad tr).1 = (pushedEntries tr : Multiset FileEntry) := by
  induction tr using List.reverseRecOn with
  | nil => rfl
  | append_singleton tr e ih =>
    rw [deliveredLoad_concat, pushedEntries_concat, Prod.fst_add, ih, ← Multiset.coe_add]
    congr 1
    cases e.out with
    | reader c => exact c.delivered_fst
    | _ => rfl

section

variable {n capacity : Nat} {tr : DeliveryTrace} {s s' : Delivery} {act : DeliveryAct}
  {o : DeliveryOut}

def Delivery.work (env : ScanEnv) (n : Nat) (s : Delivery) : Nat :=
  match s.reader with
  | .dir r => r.work env n
  | .csv _ => 0

structure Exact (env : ScanEnv) (t : FileTree) (n capacity : Nat) (tr : DeliveryTrace)
    (s : Delivery) : Prop where
  reader : ∃ r, s.reader = .dir r ∧ r.Ok env t n ∧ deliveredLoad tr + r.left env = env.load ∧
    s.cell.queue.held = r.holds
  flag : s.cell.cancelFlag = false
  opened : s.cell.queue.semaphoreClosed = false
  permits : s.cell.queue.freeSlots + s.cell.queue.held + s.cell.queue.inner.length +
    Pool.total FetchTask.owed s.fetches = max capacity 1
  dirs : s.cell.scanStats.dirsScanned = wrapI64 (deliveredLoad tr).2.1
  files : s.cell.scanStats.filesScanned = wrapI64 (deliveredLoad tr).2.2
  steps : tr.countP (fun e => e.act.isReader) + s.work env n ≤ Pipeline.top.work env n

theorem Exact.init : Exact env t n capacity [] (.init (.dir env n) capacity) where
  reader := ⟨.top, rfl, trivial, by simp [deliveredLoad, Pipeline.left], rfl⟩
  flag := rfl
  opened := rfl
  permits := by simp [Delivery.init, BoundedQueue.new]
  dirs := by simp [Delivery.init, ManifestCell.fresh, deliveredLoad, wrapI64]
  files := by simp [Delivery.init, ManifestCell.fresh, deliveredLoad, wrapI64]
  steps := by simp [Delivery.work, Delivery.init, Source.start]

theorem CellStep.not_refused {c : CellStep} {cell cell' : ManifestCell}
    (hopen : cell.queue.semaphoreClosed = false) (h : c.apply cell = some cell') :
    c ≠ .refused := by
  rintro rfl
  simp [CellStep.apply, hopen] at h

theorem Exact.readerMove {r' : ManifestReader} {c : CellStep} {cell : ManifestCell}
    {ract : ManifestReaderAct} (h : Exact env t n capacity tr s) (hshows : env.fs.Shows t)
    (hlists : t.Lists env.content) (hact : (DeliveryAct.reader ract).undisturbed)
    (hstep : (Source.dir env n).step false s.cell.cancelFlag s.reader ract = some (r', c))
    (hcell : c.apply s.cell = some cell) :
    Exact env t n capacity (tr ++ [⟨s, .reader ract, .reader c, { s with reader := r', cell }⟩])
      { s with reader := r', cell } := by
  obtain ⟨r, hreader, hok, hbooks, hheld⟩ := h.reader
  rw [hreader, h.flag] at hstep
  cases Source.step_cases hstep with
  | @dir _ _ _ r₁ act _ hstep =>
    obtain ⟨hok', hleft, ⟨hholds, hcounts⟩, hwork, hcancel⟩ :=
      (Pipeline.step_move hstep).exact hshows hlists
      hact (CellStep.not_refused h.opened hcell) hok
    obtain ⟨hpermits, hputs, hclosed, hflag⟩ := c.apply_permits hcell
    obtain ⟨hdirs, hfiles⟩ := c.apply_stats hcounts hcell h.dirs h.files
    constructor
    · refine ⟨r₁, rfl, hok', ?_, ?_⟩
      · rw [deliveredLoad_concat, ← hbooks, ← hleft]
        simp only [DeliveryOut.load]
        abel
      · simp only
        omega
    · simp only
      rcases hflag with hsame | heq
      · rw [hsame]
        exact h.flag
      · exact absurd heq hcancel
    · exact hclosed.trans h.opened
    · have hold := h.permits
      simp only
      omega
    · rw [deliveredLoad_concat]
      exact hdirs
    · rw [deliveredLoad_concat]
      exact hfiles
    · have hsteps := h.steps
      simp only [Delivery.work, hreader] at hsteps
      have hone : (DeliveryAct.reader (.dir act)).isReader = true := rfl
      rw [List.countP_append, List.countP_singleton, if_pos hone]
      simp only [Delivery.work]
      omega

theorem Delivery.Move.permits {src : Source} {loopFiles : Bool} (h : s.Move src loopFiles act s' o)
    (hact : ∀ ract, act ≠ .reader ract) :
    s'.cell.queue.freeSlots + s'.cell.queue.held + s'.cell.queue.inner.length +
        Pool.total FetchTask.owed s'.fetches =
      s.cell.queue.freeSlots + s.cell.queue.held + s.cell.queue.inner.length +
        Pool.total FetchTask.owed s.fetches := by
  cases h with
  | reader ract => exact absurd rfl (hact ract)
  | fetch batchSize => simp [FetchTask.owed]
  | drain i k u hi hu =>
    have htotal := Pool.total_set FetchTask.owed u hi
    have hlen : (s.cell.queue.inner.drop k).length + u.owed = s.cell.queue.inner.length := by
      have hsplit := congrArg List.length (List.take_append_drop k s.cell.queue.inner)
      rw [List.length_append] at hsplit
      rcases hu with ⟨hnil, rfl⟩ | rfl
      · rw [hnil] at hsplit
        simpa [FetchTask.owed] using hsplit
      · simp only [FetchTask.owed]
        omega
    have hdrain : FetchTask.owed (.drain k : FetchTask FileEntry) = 0 := rfl
    rw [hdrain] at htotal
    simp only
    omega
  | addPermits i files hi =>
    have htotal := Pool.total_set FetchTask.owed (.answered files true) hi
    simp only [FetchTask.owed, BoundedQueue.addPermits] at htotal ⊢
    omega
  | loadDone i hi =>
    simp only
    rw [Pool.total_set_eq FetchTask.owed hi (by split <;> rfl)]
  | isEmpty i hi =>
    have htotal := Pool.total_set_eq FetchTask.owed
      (u := .answered [] (!s.cell.queue.inner.isEmpty)) hi rfl
    simp only
    rw [htotal]
  | cancel | close => rfl

theorem Delivery.Move.quiet {src : Source} {loopFiles : Bool} (h : s.Move src loopFiles act s' o)
    (hact : ∀ ract, act ≠ .reader ract) (hund : act.undisturbed) :
    s'.reader = s.reader ∧ o.load = 0 ∧ s'.cell.cancelFlag = s.cell.cancelFlag ∧
      s'.cell.queue.semaphoreClosed = s.cell.queue.semaphoreClosed ∧
      s'.cell.queue.held = s.cell.queue.held ∧ s'.cell.scanStats = s.cell.scanStats := by
  cases h with
  | reader ract => exact absurd rfl (hact ract)
  | cancel | close => cases hund
  | _ => exact ⟨rfl, rfl, rfl, rfl, rfl, rfl⟩

theorem Exact.move (h : Exact env t n capacity tr s) (hshows : env.fs.Shows t)
    (hlists : t.Lists env.content) (hund : act.undisturbed)
    (hmove : s.Move (.dir env n) false act s' o) :
    Exact env t n capacity (tr ++ [⟨s, act, o, s'⟩]) s' := by
  by_cases hact : ∀ ract, act ≠ .reader ract
  · obtain ⟨hreader, hload, hflag, hclosed, hheld, hstats⟩ := hmove.quiet hact hund
    constructor
    · rw [hreader, hheld, deliveredLoad_concat, hload, add_zero]
      exact h.reader
    · exact hflag.trans h.flag
    · exact hclosed.trans h.opened
    · rw [hmove.permits hact]
      exact h.permits
    · rw [hstats, deliveredLoad_concat, hload, add_zero]
      exact h.dirs
    · rw [hstats, deliveredLoad_concat, hload, add_zero]
      exact h.files
    · have hquiet : act.isReader = false := by
        cases act with
        | reader ract => exact absurd rfl (hact ract)
        | _ => rfl
      rw [List.countP_append, List.countP_singleton, if_neg (by simp [hquiet]), Delivery.work,
        hreader]
      exact h.steps
  · cases hmove with
    | reader ract r c cell hstep hcell => exact h.readerMove hshows hlists hund hstep hcell
    | _ => exact absurd (by simp) hact

theorem Run.exact (hshows : env.fs.Shows t) (hlists : t.Lists env.content)
    (h : (delivery (.dir env n) false capacity).Run (.init (.dir env n) capacity) tr s)
    (hund : ∀ e ∈ tr, e.act.undisturbed) : Exact env t n capacity tr s := by
  refine h.historyWhere (fun _ act => act.undisturbed) hund .init ?_
  intro tr s act s' o _ _ hs hact hstep
  exact hs.move hshows hlists hact (Delivery.step_move hstep)

theorem Exact.holder (h : Exact env t n capacity tr s) (hheld : 0 < s.cell.queue.held) :
    ∃ act, DeliveryAct.undisturbed (.reader act) ∧
      s.step (.dir env n) false (.reader act) ≠ none := by
  obtain ⟨r, hreader, _, _, hholds⟩ := h.reader
  cases r with
  | pass p =>
    have hex : ∃ s ∈ p.scanners, s.holds ≠ 0 := by
      by_contra hno
      have hzero : Pool.total Scanner.holds p.scanners = 0 :=
        Pool.total_eq_zero fun s hs => by_contra fun hne => hno ⟨s, hs, hne⟩
      simp only [Pipeline.holds] at hholds
      omega
    obtain ⟨u, hu, hne⟩ := hex
    obtain ⟨i, hi⟩ := List.mem_iff_getElem?.mp hu
    cases u with
    | pushFileHeld dir rest file =>
      refine ⟨.dir (.pass (.scanner i .run 0)), trivial, ?_⟩
      simp [Delivery.step, Delivery.readerStep, hreader, Source.step, Pipeline.step, DirPass.step,
        DirPass.scannerStep, hi, Scanner.step, DirPass.signal, CellStep.apply, ReaderAct.apply,
        BoundedQueue.pushBack, hheld]
    | _ => exact absurd rfl hne
  | _ =>
    simp only [Pipeline.holds] at hholds
    omega

theorem CellStep.apply_isSome (c : CellStep) {cell : ManifestCell}
    (hopen : cell.queue.semaphoreClosed = false) (hfree : 0 < cell.queue.freeSlots)
    (hheld : c.puts = 1 → 0 < cell.queue.held) (hc : c ≠ .refused) :
    ∃ cell', c.apply cell = some cell' := by
  cases c with
  | «local» => exact ⟨_, rfl⟩
  | refused => exact absurd rfl hc
  | act a =>
    cases a with
    | acquire =>
      refine Option.isSome_iff_exists.mp ?_
      simp [CellStep.apply, ReaderAct.apply, BoundedQueue.acquire, hopen, hfree]
    | pushBack entry =>
      have hpos := hheld rfl
      refine Option.isSome_iff_exists.mp ?_
      simp [CellStep.apply, ReaderAct.apply, BoundedQueue.pushBack, hpos]
    | setDone | setCancel | addStats => exact ⟨_, rfl⟩

theorem DirPass.Move.not_refused {cancel : Bool} {p p' : DirPass} {act : PassAct} {c : CellStep}
    (h : p.Move env cancel act p' c) (hplain : act.plain) : c ≠ .refused := by
  cases h with
  | reader => simp
  | @scanner i act pick s s' q sig c p' hi hmove hsig =>
    cases hmove with
    | fileRefused dir rest file heq =>
      subst heq
      cases hplain
    | _ => simp
  | main hmove => cases hmove <;> simp

theorem Exact.progress (h : Exact env t n capacity tr s) (hfree : 0 < s.cell.queue.freeSlots)
    (hrunning : ∀ res, s.reader ≠ .dir (.finished res)) :
    ∃ act, DeliveryAct.undisturbed (.reader act) ∧
      s.step (.dir env n) false (.reader act) ≠ none := by
  by_contra hno
  have hstuck : ∀ act, DeliveryAct.undisturbed (.reader act) →
      s.step (.dir env n) false (.reader act) = none := by
    intro act hact
    by_contra hne
    exact hno ⟨act, hact, hne⟩
  obtain ⟨r, hreader, hok, _, hholds⟩ := h.reader
  cases r with
  | finished res => exact hrunning res hreader
  | top =>
    have hstep := hstuck (.dir .run) trivial
    simp [Delivery.step, Delivery.readerStep, hreader, Source.step, Pipeline.step,
      CellStep.apply] at hstep
  | passed =>
    have hstep := hstuck (.dir .run) trivial
    simp [Delivery.step, Delivery.readerStep, hreader, Source.step, Pipeline.step,
      CellStep.apply, ReaderAct.apply] at hstep
  | pass p =>
    have hhalted : p.Halted env false := by
      intro act hplain
      cases hstep : p.step env false act with
      | none => rfl
      | some res =>
        obtain ⟨p', c⟩ := res
        have hact : act.noFault := by
          cases act with
          | scanner i act pick => cases act <;> trivial
          | readerFault => cases hplain
          | _ => trivial
        have hnone := hstuck (.dir (.pass act)) hact
        have hmove := DirPass.step_move hstep
        have hheld : c.puts = 1 → 0 < s.cell.queue.held := by
          intro hputs
          have htakes : c.takes = 0 := by
            cases c with
            | act a => cases a <;> first | rfl | cases hputs
            | _ => rfl
          have hsum := hmove.holds.1
          simp only [Pipeline.holds] at hholds
          omega
        have hcell := c.apply_isSome h.opened hfree hheld (hmove.not_refused hplain)
        obtain ⟨cell, hcell⟩ := hcell
        simp [Delivery.step, Delivery.readerStep, hreader, h.flag, Source.step, Pipeline.step,
          hstep, hcell] at hnone
    obtain ⟨⟨res, hmain⟩, _⟩ := hhalted.complete hok.ok
    have hstep := hstuck (.dir .run) trivial
    cases res <;> simp [Delivery.step, Delivery.readerStep, hreader, Source.step, Pipeline.step,
      hmain, CellStep.apply] at hstep

/-- For every tree, every manifest of existing directories, every number of scanners, every
capacity of the file queue and every interleaving with FetchFileBatch calls in which
nothing fails, nobody cancels and nobody closes the queue. When the pass has ended, it
has ended with `Ok`, has pushed the regular files below the listed directories and
nothing else, and has counted them and the directories; before that, it has pushed some
of them. It cannot step for ever, and where it cannot step it has ended, or the file
queue waits to be drained. -/
theorem scan_exact (hshows : env.fs.Shows t) (hlists : t.Lists env.content)
    (h : (delivery (.dir env n) false capacity).Run (.init (.dir env n) capacity) tr s)
    (hund : ∀ e ∈ tr, e.act.undisturbed) :
    (∀ res, s.reader = .dir (.finished res) → res = .ok () ∧
      (pushedEntries tr : Multiset FileEntry) = (t.load env.content).1 ∧
      s.cell.scanStats.dirsScanned = wrapI64 (t.load env.content).2.1 ∧
      s.cell.scanStats.filesScanned = wrapI64 (pushedEntries tr).length) ∧
    (pushedEntries tr : Multiset FileEntry) ≤ (t.load env.content).1 ∧
    tr.countP (fun e => e.act.isReader) ≤ Pipeline.top.work env n ∧
    ((∀ act, DeliveryAct.undisturbed (.reader act) →
        s.step (.dir env n) false (.reader act) = none) →
      (∃ res, s.reader = .dir (.finished res)) ∨ s.cell.queue.inner ≠ [] ∨
        ∃ (i : Nat) (files : List FileEntry), s.fetches[i]? = some (.addPermits files)) := by
  have hexact := Run.exact hshows hlists h hund
  obtain ⟨r, hreader, hok, hbooks, _⟩ := hexact.reader
  rw [ScanEnv.load_eq hshows hlists] at hbooks
  have hfst := congrArg Prod.fst hbooks
  rw [Prod.fst_add, deliveredLoad_fst] at hfst
  refine ⟨fun res hres => ?_, ?_, ?_, fun hstuck => ?_⟩
  · rw [hreader] at hres
    cases hres
    simp only [Pipeline.left, Prod.fst_zero, add_zero] at hbooks hfst
    have hcard : (deliveredLoad tr).2.2 = (pushedEntries tr).length := by
      rw [hbooks, FileTree.load_card, ← hfst, Multiset.coe_card]
    refine ⟨hok, hfst, ?_, ?_⟩
    · rw [hexact.dirs, hbooks]
    · rw [hexact.files, hcard]
  · rw [← hfst]
    exact Multiset.le_add_right _ _
  · exact Nat.le_trans (Nat.le_add_right _ _) hexact.steps
  · by_contra hno
    simp only [not_or, not_exists, not_not] at hno
    obtain ⟨hrunning, hempty, howes⟩ := hno
    have howed : Pool.total FetchTask.owed s.fetches = 0 := by
      refine Pool.total_eq_zero fun u hu => ?_
      obtain ⟨i, hi⟩ := List.mem_iff_getElem?.mp hu
      cases u with
      | addPermits files => exact absurd hi (howes i files)
      | _ => rfl
    have hpermits := hexact.permits
    rw [hempty, howed, List.length_nil] at hpermits
    have hmoves : ∃ act, DeliveryAct.undisturbed (.reader act) ∧
        s.step (.dir env n) false (.reader act) ≠ none := by
      by_cases hheld : 0 < s.cell.queue.held
      · exact hexact.holder hheld
      · exact hexact.progress (by omega) hrunning
    obtain ⟨act, hact, hne⟩ := hmoves
    exact hne (hstuck act hact)

end

def Small.tree : FileTree where
  root := .dir "a" (.dir "x" (.file "g" .nil) (.symlink "l" (.file "f" .nil))) .nil
  wellFormed := by decide

def Small.treeEnv : ScanEnv := { fs := Small.tree.fs ["m"], content := "# all\na\n" }

def Small.wholeTree : List DeliveryAct :=
  let drain (i : Nat) : List DeliveryAct := [.fetch 10, .resume i, .resume i]
  let scanner : List DeliveryAct := List.replicate 20 (.reader (.dir (.pass (.scanner 0 .run 0))))
  [.reader (.dir .run)] ++ List.replicate 7 (.reader (.dir (.pass (.reader 0)))) ++ scanner ++
    drain 0 ++ scanner ++ drain 1 ++ scanner ++
    List.replicate 4 (.reader (.dir (.pass (.main 5)))) ++ List.replicate 2 (.reader (.dir .run))

theorem scan_exact_small :
    (pushedEntries ((delivery (.dir Small.treeEnv 1) false 1).trace
      (.init (.dir Small.treeEnv 1) 1) Small.wholeTree) : Multiset FileEntry) =
        {⟨"a/f", ""⟩, ⟨"a/x/g", ""⟩} := by
  have hlists : Small.tree.Lists Small.treeEnv.content := by
    intro line hline
    have hlines : Text.lines Small.treeEnv.content.toList = [['#', ' ', 'a', 'l', 'l'], ['a']] := by
      decide
    rw [hlines] at hline
    simp only [List.mem_cons, List.not_mem_nil, or_false] at hline
    rcases hline with rfl | rfl
    · exact .inl rfl
    · exact .inr ⟨["a"], _, rfl, rfl⟩
  have hund : ∀ e ∈ (delivery (.dir Small.treeEnv 1) false 1).trace
      (.init (.dir Small.treeEnv 1) 1) Small.wholeTree, e.act.undisturbed := by
    intro e he
    have hact := (delivery (.dir Small.treeEnv 1) false 1).act_of_mem_trace he
    simp only [Small.wholeTree, List.mem_append, List.mem_cons, List.mem_replicate,
      List.not_mem_nil, or_false] at hact
    rcases hact with ((((((((heq | ⟨_, heq⟩) | ⟨_, heq⟩) | heq | heq | heq) | ⟨_, heq⟩) |
      heq | heq | heq) | ⟨_, heq⟩) | ⟨_, heq⟩) | ⟨_, heq⟩) <;> rw [heq] <;> trivial
  have hexact := scan_exact (Small.tree.shows ["m"]) hlists
    ((delivery (.dir Small.treeEnv 1) false 1).run_play (.init (.dir Small.treeEnv 1) 1)
      Small.wholeTree) hund
  rw [(hexact.1 (.ok ()) rfl).2.1]
  decide

end CvdBench.Manifest
