import CvdBench.Manifest.DirContents
import CvdBench.Manifest.DirInvariant

/-!
The books of a pass: what it has delivered and what its tasks have left add up to the
manifest, until a task fails. A pass that returns `Ok` has nothing left, if the cancel
flag was seen only when there was nothing left.
-/

set_option autoImplicit false

namespace CvdBench.Manifest

open Foundation Foundation.Text Proto Master

variable {env : ScanEnv} {cancel : Bool}

theorem Scanner.Woken.left_eq {s s' : Scanner} (h : s.Woken s') : s'.left env = s.left env := by
  cases h <;> rfl

theorem Scanner.Woken.failing_eq {s s' : Scanner} (h : s.Woken s') : s'.failing = s.failing := by
  cases h <;> rfl

theorem Scanner.left_idle {s : Scanner} (h : s.busy = 0) : (s.left env).1 = 0 := by
  cases s with
  | finishWake res => cases res <;> rfl
  | finishDir res => simp [Scanner.busy] at h
  | scan | entries | pushFile | pushFileHeld | countFile | pushDir | pushDirNotify =>
    simp [Scanner.busy] at h
  | _ => rfl

theorem Scanner.Move.failing {q q' : DirWorkQueue} {act : ScannerAct} {s s' : Scanner}
    {sig : Signal} {c : CellStep} (h : Scanner.Move env cancel q act s s' q' sig c)
    (hs : s.failing = true) : s'.failing = true := by
  cases h with
  | finishLast res | finish res | finishWake res =>
    cases res with
    | ok => cases hs
    | error err => rfl
  | _ => cases hs

/-- A scanner ends with `Ok` when it sees the flag, when the queue is closed, or when the
scan is done. -/
theorem Scanner.Move.finished_ok {q q' : DirWorkQueue} {act : ScannerAct} {s : Scanner}
    {sig : Signal} {c : CellStep}
    (h : Scanner.Move env cancel q act s (.finished (.ok ())) q' sig c) :
    (cancel = true ∧ s.sees = true) ∨ q.closed = true ∨
      s = .popLock ∧ q.dirs = [] ∧ q.readerDone = true ∧ q.pendingDirs = 0 := by
  generalize hs' : Scanner.finished (.ok ()) = s' at h
  cases h with
  | topCancel hcancel | popCancel hcancel => exact .inl ⟨hcancel, rfl⟩
  | popClosed hclosed => exact .inr (.inl hclosed)
  | popDone _ hdirs hdone hpending => exact .inr (.inr ⟨rfl, hdirs, hdone, hpending⟩)
  | finish res | finishWake res => cases res <;> simp [Scanner.afterDir] at hs'
  | _ => simp at hs'

namespace DirPass

variable {p p' : DirPass}

def Failing (p : DirPass) : Prop :=
  (∃ err, p.reader = .finished (.error err)) ∨ ∃ s ∈ p.scanners, s.failing = true

def Settled (env : ScanEnv) (p : DirPass) : Prop := (p.left env).1 = 0 ∨ p.Failing

def Sees (p : DirPass) : PassAct → Prop
  | .reader _ | .readerFault _ => p.reader.sees = true
  | .scanner i _ _ => ∃ s, p.scanners[i]? = some s ∧ s.sees = true
  | .main _ => False

/-- The cancel flag cuts nothing off. -/
def Uncut (env : ScanEnv) (cancel : Bool) (p : DirPass) (act : PassAct) : Prop :=
  cancel = true → p.Sees act → p.Settled env

theorem Signalled.left (h : p.Signalled p') : p'.left env = p.left env := by
  have htotal := Pool.total_rel (f := Scanner.left env) (fun _ _ hw => hw.left_eq) h.scanners
  unfold DirPass.left
  rw [h.reader, htotal, DirWorkQueue.left, DirWorkQueue.left, h.dirs]

theorem Signalled.failing (h : p.Signalled p') (hp : p.Failing) : p'.Failing := by
  rcases hp with ⟨err, herr⟩ | ⟨s, hs, hf⟩
  · exact .inl ⟨err, h.reader.trans herr⟩
  · obtain ⟨s', hs', hw⟩ := h.mem hs
    exact .inr ⟨s', hs', hw.failing_eq.trans hf⟩

theorem Move.failing {act : PassAct} {c : CellStep} (h : p.Move env cancel act p' c)
    (hp : p.Failing) : p'.Failing := by
  cases h with
  | reader _ hr hmove hsig =>
    refine (signal_signalled hsig).failing ?_
    rcases hp with ⟨err, herr⟩ | hs
    · rw [hr] at herr
      subst herr
      cases hmove
    · exact .inr hs
  | @scanner i act pick s s' q sig c p' hi hmove hsig =>
    refine (signal_signalled hsig).failing ?_
    rcases hp with herr | ⟨t, ht, hf⟩
    · exact .inl herr
    · obtain ⟨j, hj⟩ := List.mem_iff_getElem?.mp ht
      have hset := Pool.getElem?_set s' hi j
      by_cases heq : j = i
      · subst heq
        rw [hi] at hj
        cases hj
        rw [if_pos rfl] at hset
        exact .inr ⟨s', List.mem_of_getElem? hset, hmove.failing hf⟩
      · rw [if_neg heq, hj] at hset
        exact .inr ⟨t, List.mem_of_getElem? hset, hf⟩
  | main hmove =>
    cases hmove with
    | closeWake k err =>
      exact (notifyWaiters_signalled { p with main := .join k (some err) }).failing hp
    | _ => exact hp

theorem Move.left {act : PassAct} {c : CellStep} (h : p.Move env cancel act p' c) :
    p'.left env + c.delivered = p.left env ∨ p'.Failing ∨
      cancel = true ∧ p.Sees act ∧ (p'.left env).1 ≤ (p.left env).1 ∧ c = .local := by
  cases h with
  | @reader act fault pick r r' q sig p' hact hr hmove hsig =>
    have hsignalled := signal_signalled hsig
    rw [hsignalled.left]
    rcases hmove.left with heq | ⟨err, rfl⟩ | ⟨hcancel, hsees, rfl, rfl⟩
    · left
      simp only [DirPass.left, hr, ← heq, CellStep.delivered, add_zero]
    · exact .inr (.inl (hsignalled.failing (.inl ⟨err, rfl⟩)))
    · refine .inr (.inr ⟨hcancel, ?_, ?_, rfl⟩)
      · rw [← hr] at hsees
        rcases hact with ⟨⟨pick, rfl⟩, _⟩ | ⟨source, rfl, _⟩ <;> exact hsees
      · simp only [DirPass.left, DirReader.left, zero_add, Prod.fst_add]
        exact add_le_add_left (Multiset.le_add_left _ _) _
  | @scanner i act pick s s' q sig c p' hi hmove hsig =>
    have hsignalled := signal_signalled hsig
    rw [hsignalled.left]
    obtain ⟨rest, htotal, hset⟩ := Pool.total_split (Scanner.left env) hi
    rcases hmove.left with heq | hfail | ⟨hcancel, hsees, hzero, rfl, rfl⟩
    · left
      simp only [DirPass.left, hset, htotal]
      calc p.reader.left env + q.left env + (s'.left env + rest) + c.delivered
          = p.reader.left env + (s'.left env + q.left env + c.delivered) + rest := by abel
        _ = p.reader.left env + (s.left env + p.queue.left env) + rest := by rw [heq]
        _ = p.reader.left env + p.queue.left env + (s.left env + rest) := by abel
    · refine .inr (.inl (hsignalled.failing (.inr ⟨s', ?_, hfail⟩)))
      exact List.mem_of_getElem? (Pool.getElem?_set_self s' hi)
    · refine .inr (.inr ⟨hcancel, ⟨s, hi, hsees⟩, ?_, rfl⟩)
      simp only [DirPass.left, hset, htotal, Prod.fst_add, hzero, zero_add]
      exact add_le_add_right (Multiset.le_add_left _ _) _
  | main hmove =>
    left
    cases hmove with
    | closeWake k err =>
      rw [(notifyWaiters_signalled { p with main := .join k (some err) }).left]
      simp [DirPass.left, CellStep.delivered]
    | _ => simp [DirPass.left, CellStep.delivered, DirWorkQueue.left, DirWorkQueue.close]

theorem Move.settled {act : PassAct} {c : CellStep} (h : p.Move env cancel act p' c)
    (hp : p.Settled env) : p'.Settled env := by
  rcases hp with hzero | hfail
  · rcases h.left with heq | hfail | ⟨_, _, hle, _⟩
    · rw [← heq, Prod.fst_add] at hzero
      refine .inl (le_antisymm ?_ (Multiset.zero_le _))
      rw [← hzero]
      exact Multiset.le_add_right _ _
    · exact .inr hfail
    · rw [hzero] at hle
      exact .inl (le_antisymm hle (Multiset.zero_le _))
  · exact .inr (h.failing hfail)

structure Spent (env : ScanEnv) (out : Multiset FileEntry) (p : DirPass) : Prop where
  books : out + (p.left env).1 = env.load.1 ∨ p.Failing
  closing : p.reader = .close ∨ p.reader = .closeWake ∨ p.queue.closed = true → p.Settled env
  stopped : .finished (.ok ()) ∈ p.scanners → p.Settled env
  failed : p.main.firstErr.isSome → p.Failing
  readerDone : p.queue.readerDone = true → p.reader = .wake ∨ ∃ res, p.reader = .finished res
  counted : p.Counted

theorem total_left_idle {scanners : List Scanner} (h : Pool.total Scanner.busy scanners = 0) :
    (Pool.total (Scanner.left env) scanners).1 = 0 := by
  induction scanners with
  | nil => rfl
  | cons s scanners ih =>
    rw [Pool.total_cons] at h
    rw [Pool.total_cons, Prod.fst_add, Scanner.left_idle (by omega), ih (by omega), add_zero]

theorem total_left_top (n : Nat) : Pool.total (Scanner.left env) (List.replicate n .top) = 0 := by
  refine Pool.total_eq_zero fun s hs => ?_
  rw [List.eq_of_mem_replicate hs]
  rfl

theorem left_init (n : Nat) : (DirPass.init n).left env = env.load := by
  simp [DirPass.left, DirPass.init, DirReader.left, DirWorkQueue.left, DirWorkQueue.new,
    total_left_top]

theorem Spent.init (n : Nat) : (DirPass.init n).Spent env 0 where
  books := by simp [left_init]
  closing := by simp [DirPass.init, DirWorkQueue.new]
  stopped := by simp [DirPass.init]
  failed := by simp [DirPass.init, PassMain.firstErr]
  readerDone := by simp [DirPass.init, DirWorkQueue.new]
  counted := by
    have hidle : Pool.total Scanner.busy (List.replicate (max n 1) .top) = 0 := by
      refine Pool.total_eq_zero fun s hs => ?_
      rw [List.eq_of_mem_replicate hs]
      rfl
    simp [Counted, DirPass.init, DirWorkQueue.new, hidle]

section

variable {out : Multiset FileEntry} {act : PassAct} {c : CellStep}

theorem Spent.books_move (hp : p.Spent env out) (hcut : p.Uncut env cancel act)
    (h : p.Move env cancel act p' c) :
    out + c.delivered.1 + (p'.left env).1 = env.load.1 ∨ p'.Failing := by
  rcases hp.books with hbooks | hfail
  · rcases h.left with heq | hfail | ⟨hcancel, hsees, hle, rfl⟩
    · left
      rw [← hbooks, ← heq, Prod.fst_add]
      abel
    · exact .inr hfail
    · rcases hcut hcancel hsees with hzero | hfail
      · left
        rw [hzero] at hle hbooks
        rw [le_antisymm hle (Multiset.zero_le _), ← hbooks]
        simp [CellStep.delivered]
      · exact .inr (h.failing hfail)
  · exact .inr (h.failing hfail)

theorem Spent.closing_move (hp : p.Spent env out) (hcut : p.Uncut env cancel act)
    (h : p.Move env cancel act p' c)
    (hclosing : p'.reader = .close ∨ p'.reader = .closeWake ∨ p'.queue.closed = true) :
    p'.Settled env := by
  refine h.settled ?_
  cases h with
  | @reader act fault pick r r' q sig p' hact hr hmove hsig =>
    have hsignalled := signal_signalled hsig
    rw [hsignalled.reader, hsignalled.closed] at hclosing
    have hsees : r.sees = true → p.Sees act := by
      intro hsees
      rw [← hr] at hsees
      rcases hact with ⟨⟨pick, rfl⟩, _⟩ | ⟨source, rfl, _⟩ <;> exact hsees
    cases hmove with
    | linesCancel n line rest hcancel => exact hcut hcancel (hsees rfl)
    | close => exact hp.closing (.inl hr)
    | closeWake => exact hp.closing (.inr (.inl hr))
    | _ =>
      simp only [reduceCtorEq, false_or] at hclosing
      exact hp.closing (.inr (.inr hclosing))
  | @scanner i act pick s s' q sig c p' hi hmove hsig =>
    have hsignalled := signal_signalled hsig
    rw [hsignalled.reader, hsignalled.closed] at hclosing
    simp only [(Scanner.Move.queue_flags hmove).2] at hclosing
    exact hp.closing hclosing
  | main hmove =>
    cases hmove with
    | close k err hmain => exact .inr (hp.failed (by simp [hmain, PassMain.firstErr]))
    | _ => exact hp.closing hclosing

theorem Spent.stopped_move (hp : p.Spent env out) (hcut : p.Uncut env cancel act)
    (h : p.Move env cancel act p' c) (hmem : .finished (.ok ()) ∈ p'.scanners) :
    p'.Settled env := by
  refine h.settled ?_
  cases h with
  | reader _ _ _ hsig =>
    obtain ⟨s, hs, hw⟩ := (signal_signalled hsig).mem' hmem
    rw [hw.eq_of_finished.mp rfl] at hs
    exact hp.stopped hs
  | @scanner i act pick s s' q sig c p' hi hmove hsig =>
    obtain ⟨t, ht, hw⟩ := (signal_signalled hsig).mem' hmem
    rw [hw.eq_of_finished.mp rfl] at ht
    rcases List.mem_or_eq_of_mem_set ht with hold | heq
    · exact hp.stopped hold
    · subst heq
      rcases hmove.finished_ok with ⟨hcancel, hsees⟩ | hclosed | ⟨rfl, hdirs, hdone, hpending⟩
      · exact hcut hcancel ⟨s, hi, hsees⟩
      · exact hp.closing (.inr (.inr hclosed))
      · left
        have hcounted := hp.counted
        rw [Counted, hpending, hdirs] at hcounted
        simp only [List.length_nil] at hcounted
        have hidle : (Pool.total (Scanner.left env) p.scanners).1 = 0 :=
          total_left_idle (by omega)
        have hreader : p.reader.left env = 0 := by
          rcases hp.readerDone hdone with heq | ⟨res, heq⟩ <;> rw [heq] <;> rfl
        simp [DirPass.left, hreader, DirWorkQueue.left, hdirs, hidle]
  | main hmove =>
    cases hmove with
    | closeWake k err =>
      obtain ⟨s, hs, hw⟩ :=
        (notifyWaiters_signalled { p with main := .join k (some err) }).mem' hmem
      rw [hw.eq_of_finished.mp rfl] at hs
      exact hp.stopped hs
    | _ => exact hp.stopped hmem

theorem Spent.failed_move (hp : p.Spent env out) (h : p.Move env cancel act p' c)
    (hsome : p'.main.firstErr.isSome) : p'.Failing := by
  refine h.failing ?_
  cases h with
  | reader _ _ _ hsig =>
    rw [(signal_signalled hsig).main] at hsome
    exact hp.failed hsome
  | scanner _ _ hsig =>
    rw [(signal_signalled hsig).main] at hsome
    exact hp.failed hsome
  | main hmove =>
    cases hmove with
    | readerOk => simp [PassMain.firstErr] at hsome
    | readerFailed err _ hreader => exact .inl ⟨err, hreader⟩
    | joinedFailed k firstErr err _ hk =>
      exact .inr ⟨_, List.mem_of_getElem? hk, rfl⟩
    | addElapsed firstErr ms hmain =>
      refine hp.failed ?_
      cases firstErr with
      | none => simp [DirPass.result, PassMain.firstErr] at hsome
      | some err => simp [hmain, PassMain.firstErr]
    | close k err hmain | closeWake k err hmain | setCancel k err hmain =>
      exact hp.failed (by simp [hmain, PassMain.firstErr])
    | joinedAll k firstErr hmain | joinedOk k firstErr hmain =>
      refine hp.failed ?_
      simpa [hmain, PassMain.firstErr] using hsome

theorem Move.readerDone (h : p.Move env cancel act p' c)
    (hp : p.queue.readerDone = true → p.reader = .wake ∨ ∃ res, p.reader = .finished res)
    (hdone : p'.queue.readerDone = true) :
    p'.reader = .wake ∨ ∃ res, p'.reader = .finished res := by
  cases h with
  | @reader act fault pick r r' q sig p' _ hr hmove hsig =>
    have hsignalled := signal_signalled hsig
    rw [hsignalled.readerDone] at hdone
    rw [hsignalled.reader]
    cases hmove with
    | markWake => exact .inl rfl
    | openFail | linesInvalid | pushClosed | mark | wake | closeWake => exact .inr ⟨_, rfl⟩
    | _ =>
      rcases hp hdone with heq | ⟨res, heq⟩
      · rw [hr] at heq
        cases heq
      · rw [hr] at heq
        cases heq
  | @scanner i act pick s s' q sig c p' hi hmove hsig =>
    have hsignalled := signal_signalled hsig
    rw [hsignalled.readerDone] at hdone
    simp only [(Scanner.Move.queue_flags hmove).1] at hdone
    rw [hsignalled.reader]
    exact hp hdone
  | main hmove =>
    cases hmove <;> exact hp hdone

theorem Spent.move (hp : p.Spent env out) (hcut : p.Uncut env cancel act)
    (h : p.Move env cancel act p' c) : p'.Spent env (out + c.delivered.1) where
  books := hp.books_move hcut h
  closing := hp.closing_move hcut h
  stopped := hp.stopped_move hcut h
  failed := hp.failed_move h
  readerDone := h.readerDone hp.readerDone
  counted := h.counted hp.counted

/-- A pass that returned `Ok` has pushed what the manifest denotes. -/
theorem Spent.returned (hp : p.Spent env out) (hphases : p.Phases)
    (hlen : 0 < p.scanners.length) (hmain : p.main = .returned (.ok ())) : out = env.load.1 := by
  obtain ⟨hcomplete, hfailed⟩ := hphases.returned hmain
  have hnot : ¬ p.Failing := by
    intro hfail
    have hf : p.Failed := by
      rcases hfail with herr | ⟨s, hs, hf⟩
      · exact .inl herr
      · obtain ⟨res, rfl⟩ := hcomplete.2 s hs
        cases res with
        | ok => cases hf
        | error err => exact .inr ⟨err, hs⟩
    obtain ⟨err, herr⟩ := hfailed hf
    cases herr
  have hok : .finished (.ok ()) ∈ p.scanners := by
    obtain ⟨s, hs⟩ := List.exists_mem_of_length_pos hlen
    obtain ⟨res, rfl⟩ := hcomplete.2 s hs
    cases res with
    | ok => exact hs
    | error err => exact absurd (.inr ⟨_, hs, rfl⟩) hnot
  have hzero := (hp.stopped hok).resolve_right hnot
  have hbooks := hp.books.resolve_right hnot
  rw [hzero, add_zero] at hbooks
  exact hbooks

end

end DirPass

end CvdBench.Manifest
