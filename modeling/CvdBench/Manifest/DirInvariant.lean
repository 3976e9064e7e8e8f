import CvdBench.Manifest.DirWake

/-!
The invariants of a pass, each by cases on the rows of a step: first what the step does
to the queue and to the task that takes it, then what its signal changes.
-/

set_option autoImplicit false

namespace CvdBench.Manifest

open Foundation Foundation.Text Proto Master

variable {env : ScanEnv} {cancel : Bool}

namespace DirPass

/-- `pending_dirs` counts the queued directories and those in work. -/
def Counted (p : DirPass) : Prop :=
  p.queue.pendingDirs = p.queue.dirs.length + Pool.total Scanner.busy p.scanners

theorem Signalled.counted {p p' : DirPass} (h : p.Signalled p') (hp : p.Counted) : p'.Counted := by
  unfold Counted at hp ⊢
  rw [h.pendingDirs, h.dirs, h.total]
  exact hp

theorem Move.counted {p p' : DirPass} {act : PassAct} {c : CellStep}
    (h : p.Move env cancel act p' c) (hp : p.Counted) : p'.Counted := by
  unfold Counted at hp
  cases h with
  | reader _ _ hmove hsig =>
    refine (signal_signalled hsig).counted ?_
    unfold Counted
    cases hmove with
    | push n dir rest _ =>
      simp only [List.length_append, List.length_singleton]
      omega
    | _ => exact hp
  | @scanner i act pick s s' q sig c p' hi hmove hsig =>
    refine (signal_signalled hsig).counted ?_
    unfold Counted
    have htotal := Pool.total_set Scanner.busy s' hi
    cases hmove with
    | popDir dir dirs _ hdirs =>
      have hb : Scanner.busy (.scan dir) = 1 := rfl
      have hb' : Scanner.busy .popLock = 0 := rfl
      rw [hb, hb'] at htotal
      rw [hdirs, List.length_cons] at hp
      simp only
      omega
    | dirPush dir rest sub _ =>
      have hb : Scanner.busy (.pushDirNotify dir rest) = 1 := rfl
      have hb' : Scanner.busy (.pushDir dir rest sub) = 1 := rfl
      rw [hb, hb'] at htotal
      simp only [List.length_append, List.length_singleton]
      omega
    | finishLast res _ _ =>
      have hb : Scanner.busy (.finishWake res) = 0 := rfl
      have hb' : Scanner.busy (.finishDir res) = 1 := rfl
      rw [hb, hb'] at htotal
      simp only
      omega
    | finish res _ =>
      have hb : Scanner.busy (Scanner.afterDir res) = 0 := by cases res <;> rfl
      have hb' : Scanner.busy (.finishDir res) = 1 := rfl
      rw [hb, hb'] at htotal
      simp only
      omega
    | finishWake res =>
      have hb : Scanner.busy (Scanner.afterDir res) = 0 := by cases res <;> rfl
      have hb' : Scanner.busy (.finishWake res) = 0 := rfl
      rw [hb, hb'] at htotal
      simp only
      omega
    | _ =>
      simp only [Scanner.busy] at htotal
      simp only
      omega
  | main hmove =>
    cases hmove with
    | closeWake k err _ =>
    exact (notifyWaiters_signalled { p with main := .join k (some err) }).counted hp
    | _ => exact hp

end DirPass

def PassMain.firstErr : PassMain → Option DirScanError
  | .joinReader => none
  | .close _ err | .closeWake _ err | .setCancel _ err => some err
  | .join _ firstErr | .addElapsed firstErr => firstErr
  | .returned (.error err) => some err
  | .returned (.ok ()) => none

def PassMain.joined (n : Nat) : PassMain → Nat
  | .joinReader => 0
  | .close k _ | .closeWake k _ | .join k _ | .setCancel k _ => k
  | .addElapsed _ | .returned _ => n

theorem Scanner.Move.unfinished {q q' : DirWorkQueue} {act : ScannerAct} {s s' : Scanner}
    {sig : Signal} {c : CellStep} (h : Scanner.Move env cancel q act s s' q' sig c)
    (res : Except DirScanError Unit) : s ≠ .finished res := by
  cases h <;> simp

theorem Scanner.Move.queue_flags {q q' : DirWorkQueue} {act : ScannerAct} {s s' : Scanner}
    {sig : Signal} {c : CellStep} (h : Scanner.Move env cancel q act s s' q' sig c) :
    q'.readerDone = q.readerDone ∧ q'.closed = q.closed := by
  cases h <;> exact ⟨rfl, rfl⟩

namespace DirPass

variable {p p' : DirPass}

structure Phases (p : DirPass) : Prop where
  reader : p.main ≠ .joinReader → ∃ res, p.reader = .finished res
  readerErr : p.main ≠ .joinReader → ∀ err, p.reader = .finished (.error err) →
    p.main.firstErr.isSome
  joined : ∀ j < p.main.joined p.scanners.length,
    ∃ res, p.scanners[j]? = some (.finished res)
  joinedErr : ∀ j < p.main.joined p.scanners.length, ∀ err,
    p.scanners[j]? = some (.finished (.error err)) → p.main.firstErr.isSome
  cancelling : ∀ k err, p.main = .setCancel k err →
    ∃ res, p.scanners[k]? = some (.finished res)
  readerOk : p.reader = .finished (.ok ()) → p.queue.readerDone = true ∨ p.queue.closed = true
  readerWake : p.reader = .wake → p.queue.readerDone = true
  readerClose : p.reader = .closeWake → p.queue.closed = true
  readerFailed : ∀ err, p.reader = .finished (.error err) →
    p.main = .joinReader ∨ (∃ k e, p.main = .close k e) ∨ p.queue.closed = true
  mainWake : ∀ k err, p.main = .closeWake k err → p.queue.closed = true

theorem Phases.init (n : Nat) : (DirPass.init n).Phases := by
  constructor <;> simp [DirPass.init, PassMain.joined]

theorem Signalled.phases (h : p.Signalled p') (hp : p.Phases) : p'.Phases where
  reader := by
    rw [h.main, h.reader]
    exact hp.reader
  readerErr := by
    rw [h.main, h.reader]
    exact hp.readerErr
  joined := by
    intro j hj
    rw [h.main, h.length] at hj
    obtain ⟨res, hres⟩ := hp.joined j hj
    exact ⟨res, h.finished_iff.mpr hres⟩
  joinedErr := by
    intro j hj err herr
    rw [h.main, h.length] at hj
    rw [h.main]
    exact hp.joinedErr j hj err (h.finished_iff.mp herr)
  cancelling := by
    intro k err hmain
    rw [h.main] at hmain
    obtain ⟨res, hres⟩ := hp.cancelling k err hmain
    exact ⟨res, h.finished_iff.mpr hres⟩
  readerOk := by
    rw [h.reader, h.readerDone, h.closed]
    exact hp.readerOk
  readerWake := by
    rw [h.reader, h.readerDone]
    exact hp.readerWake
  readerClose := by
    rw [h.reader, h.closed]
    exact hp.readerClose
  readerFailed := by
    rw [h.reader, h.main, h.closed]
    exact hp.readerFailed
  mainWake := by
    rw [h.main, h.closed]
    exact hp.mainWake

theorem finished_set {scanners : List Scanner} {i j : Nat} {s s' : Scanner}
    (hi : scanners[i]? = some s) (hs : ∀ res, s ≠ .finished res)
    {res : Except DirScanError Unit} (hj : scanners[j]? = some (.finished res)) :
    (scanners.set i s')[j]? = some (.finished res) := by
  rw [Pool.getElem?_set s' hi]
  by_cases heq : j = i
  · subst heq
    rw [hi] at hj
    exact absurd (Option.some.inj hj) (hs res)
  · rw [if_neg heq]
    exact hj

theorem Phases.readerMove {fault : Option String} {r : DirReader} {q : DirWorkQueue}
    {sig : Signal} (hp : p.Phases) (h : DirReader.Move env cancel p.queue fault p.reader r q sig) :
    ({ p with reader := r, queue := q } : DirPass).Phases := by
  have hmain : p.main = .joinReader := by
    by_contra hne
    obtain ⟨res, hres⟩ := hp.reader hne
    rw [hres] at h
    cases h
  have hjoined : ∀ n, p.main.joined n = 0 := by simp [hmain, PassMain.joined]
  constructor
  · exact fun hne => absurd hmain hne
  · exact fun hne => absurd hmain hne
  · exact fun j hj => absurd hj (by simp [hjoined])
  · exact fun j hj => absurd hj (by simp [hjoined])
  · intro k err hk
    simp [hmain] at hk
  · intro hr
    simp only at hr
    generalize hr₀ : p.reader = r₀ at h
    cases h <;> simp_all
    · exact .inl (hp.readerWake hr₀)
    · exact .inr (hp.readerClose hr₀)
  · intro hr
    simp only at hr
    generalize hr₀ : p.reader = r₀ at h
    cases h <;> simp_all
  · intro hr
    simp only at hr
    generalize hr₀ : p.reader = r₀ at h
    cases h <;> simp_all
  · exact fun _ _ => .inl hmain
  · intro k err hk
    simp [hmain] at hk

theorem Phases.scannerMove {i : Nat} {act : ScannerAct} {s s' : Scanner} {q : DirWorkQueue}
    {sig : Signal} {c : CellStep} (hp : p.Phases) (hi : p.scanners[i]? = some s)
    (h : Scanner.Move env cancel p.queue act s s' q sig c) :
    ({ p with queue := q, scanners := p.scanners.set i s' } : DirPass).Phases := by
  obtain ⟨hdone, hclosed⟩ := Scanner.Move.queue_flags h
  constructor
  · exact hp.reader
  · exact hp.readerErr
  · intro j hj
    simp only [List.length_set] at hj
    obtain ⟨res, hres⟩ := hp.joined j hj
    exact ⟨res, finished_set hi h.unfinished hres⟩
  · intro j hj err herr
    simp only [List.length_set] at hj
    obtain ⟨res, hres⟩ := hp.joined j hj
    rw [finished_set hi h.unfinished hres] at herr
    exact hp.joinedErr j hj err (hres.trans herr)
  · intro k err hk
    obtain ⟨res, hres⟩ := hp.cancelling k err hk
    exact ⟨res, finished_set hi h.unfinished hres⟩
  · intro hr
    simp only [hdone, hclosed]
    exact hp.readerOk hr
  · intro hr
    simp only [hdone]
    exact hp.readerWake hr
  · intro hr
    simp only [hclosed]
    exact hp.readerClose hr
  · intro err hr
    simp only [hclosed]
    exact hp.readerFailed err hr
  · intro k err hk
    simp only [hclosed]
    exact hp.mainWake k err hk

theorem Phases.withMain {m : PassMain} (hp : p.Phases) (hpast : p.main ≠ .joinReader)
    (hopen : ∀ k e, p.main ≠ .close k e)
    (herr : p.main.firstErr.isSome → m.firstErr.isSome)
    (hjoined : ∀ j < m.joined p.scanners.length, ∃ res, p.scanners[j]? = some (.finished res))
    (hjoinedErr : ∀ j < m.joined p.scanners.length, ∀ err,
      p.scanners[j]? = some (.finished (.error err)) → m.firstErr.isSome)
    (hcancel : ∀ k err, m = .setCancel k err → ∃ res, p.scanners[k]? = some (.finished res))
    (hwake : ∀ k err, m ≠ .closeWake k err) : ({ p with main := m } : DirPass).Phases := by
  constructor
  · exact fun _ => hp.reader hpast
  · exact fun _ err hr => herr (hp.readerErr hpast err hr)
  · exact hjoined
  · exact hjoinedErr
  · exact hcancel
  · exact hp.readerOk
  · exact hp.readerWake
  · exact hp.readerClose
  · intro err hr
    rcases hp.readerFailed err hr with h | ⟨k, e, h⟩ | h
    · exact absurd h hpast
    · exact absurd h (hopen k e)
    · exact .inr (.inr h)
  · intro k err hk
    exact absurd hk (hwake k err)

theorem Phases.mainMove {c : CellStep} (hp : p.Phases) (h : p.MainMove p' c) : p'.Phases := by
  cases h with
  | readerOk hmain hreader =>
    constructor <;> simp [PassMain.joined, hreader]
    exact hp.readerOk hreader
  | readerFailed err hmain hreader =>
    constructor <;> simp [PassMain.joined, PassMain.firstErr, hreader]
  | close k err hmain =>
    have hreader := hp.reader (by simp [hmain])
    constructor <;> simp [PassMain.firstErr, DirWorkQueue.close]
    · exact hreader
    · intro j hj
      exact hp.joined j (by simpa [hmain, PassMain.joined] using hj)
    · exact hp.readerWake
  | closeWake k err hmain =>
    refine (notifyWaiters_signalled { p with main := .join k (some err) }).phases ?_
    refine hp.withMain (by simp [hmain]) (by simp [hmain]) (by simp [PassMain.firstErr]) ?_
      (by simp [PassMain.firstErr]) (by simp) (by simp)
    intro j hj
    exact hp.joined j (by simpa [hmain, PassMain.joined] using hj)
  | joinedAll k firstErr hmain hk =>
    have hle : p.scanners.length ≤ k := List.getElem?_eq_none_iff.mp hk
    have hlt : ∀ j < p.scanners.length, j < p.main.joined p.scanners.length := by
      intro j hj
      simp only [hmain, PassMain.joined]
      omega
    have herr : p.main.firstErr = firstErr := by rw [hmain]; rfl
    refine hp.withMain (by simp [hmain]) (by simp [hmain]) (by simp [hmain, PassMain.firstErr])
      (fun j hj => hp.joined j (hlt j hj)) (fun j hj err he => ?_) (by simp) (by simp)
    have hsome := hp.joinedErr j (hlt j hj) err he
    rw [herr] at hsome
    exact hsome
  | joinedOk k firstErr hmain hk =>
    have hlt : ∀ j < k + 1, j ≠ k → j < p.main.joined p.scanners.length := by
      intro j hj hne
      simp only [hmain, PassMain.joined]
      omega
    have herr : p.main.firstErr = firstErr := by rw [hmain]; rfl
    refine hp.withMain (by simp [hmain]) (by simp [hmain]) (by simp [hmain, PassMain.firstErr])
      (fun j hj => ?_) (fun j hj err he => ?_) (by simp) (by simp)
    · by_cases hjk : j = k
      · subst hjk
        exact ⟨_, hk⟩
      · exact hp.joined j (hlt j hj hjk)
    · by_cases hjk : j = k
      · subst hjk
        rw [hk] at he
        cases he
      · have hsome := hp.joinedErr j (hlt j hj hjk) err he
        rw [herr] at hsome
        exact hsome
  | joinedFailed k firstErr err hmain hk =>
    refine hp.withMain (by simp [hmain]) (by simp [hmain]) (by simp [PassMain.firstErr])
      (fun j hj => hp.joined j (by simpa [hmain, PassMain.joined] using hj))
      (by simp [PassMain.firstErr]) (fun k' err' heq => ?_) (by simp)
    cases heq
    exact ⟨_, hk⟩
  | setCancel k err hmain =>
    refine hp.withMain (by simp [hmain]) (by simp [hmain]) (by simp [PassMain.firstErr])
      (fun j hj => ?_) (by simp [PassMain.firstErr]) (by simp) (by simp)
    by_cases hjk : j = k
    · subst hjk
      exact hp.cancelling j err hmain
    · refine hp.joined j ?_
      simp only [PassMain.joined] at hj
      simp only [hmain, PassMain.joined]
      omega
  | addElapsed firstErr ms hmain =>
    have herr : p.main.firstErr = firstErr := by rw [hmain]; rfl
    have hresult : (PassMain.returned (result firstErr)).firstErr = firstErr := by
      cases firstErr <;> rfl
    have hlt : ∀ j < p.scanners.length, j < p.main.joined p.scanners.length := by
      intro j hj
      simpa [hmain, PassMain.joined] using hj
    refine hp.withMain (by simp [hmain]) (by simp [hmain]) (by simp [hresult, herr])
      (fun j hj => hp.joined j (hlt j hj)) (fun j hj err he => ?_) (by simp) (by simp)
    have hsome := hp.joinedErr j (hlt j hj) err he
    rw [herr] at hsome
    rw [hresult]
    exact hsome

theorem Move.phases {act : PassAct} {c : CellStep} (h : p.Move env cancel act p' c)
    (hp : p.Phases) : p'.Phases := by
  cases h with
  | reader _ hr hmove hsig =>
    subst hr
    exact (signal_signalled hsig).phases (hp.readerMove hmove)
  | scanner hi hmove hsig => exact (signal_signalled hsig).phases (hp.scannerMove hi hmove)
  | main hmove => exact hp.mainMove hmove

def Complete (p : DirPass) : Prop :=
  (∃ res, p.main = .returned res) ∧ ∀ s ∈ p.scanners, ∃ res, s = .finished res

def Failed (p : DirPass) : Prop :=
  (∃ err, p.reader = .finished (.error err)) ∨ ∃ err, .finished (.error err) ∈ p.scanners

theorem Phases.returned (hp : p.Phases) {res : Except DirScanError Unit}
    (hmain : p.main = .returned res) :
    p.Complete ∧ (p.Failed → ∃ err, res = .error err) := by
  have hlt : ∀ j < p.scanners.length, j < p.main.joined p.scanners.length := by
    intro j hj
    simpa [hmain, PassMain.joined] using hj
  have hsome : p.main.firstErr.isSome → ∃ err, res = .error err := by
    intro h
    rw [hmain] at h
    cases res with
    | ok => cases h
    | error err => exact ⟨err, rfl⟩
  refine ⟨⟨⟨res, hmain⟩, fun s hs => ?_⟩, fun hfailed => ?_⟩
  · obtain ⟨j, hj⟩ := List.mem_iff_getElem?.mp hs
    obtain ⟨res', hres'⟩ := hp.joined j (hlt j (List.getElem?_eq_some_iff.mp hj).1)
    rw [hj] at hres'
    exact ⟨res', Option.some.inj hres'⟩
  · rcases hfailed with ⟨err, herr⟩ | ⟨err, hs⟩
    · exact hsome (hp.readerErr (by simp [hmain]) err herr)
    · obtain ⟨j, hj⟩ := List.mem_iff_getElem?.mp hs
      exact hsome (hp.joinedErr j (hlt j (List.getElem?_eq_some_iff.mp hj).1) err hj)

end DirPass

end CvdBench.Manifest
