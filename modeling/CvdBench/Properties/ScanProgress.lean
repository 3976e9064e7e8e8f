import CvdBench.Manifest.DirMeasure
import CvdBench.Manifest.DirSleep

/-!
A pass of the directory scan comes to its end. It cannot go on for ever, since every step
lowers a measure; and it stops short of its end only where a scanner that left its loop
early has abandoned the queue.
-/

set_option autoImplicit false

namespace CvdBench.Manifest

open Foundation Foundation.Text Proto Master

structure Scan where
  pass : DirPass
  cancel : Bool

inductive ScanAct where
  | task (act : PassAct)
  | cancel

def ScanAct.isTask : ScanAct → Bool
  | .task _ => true
  | .cancel => false

def Scan.step (env : ScanEnv) (s : Scan) : ScanAct → Option (Scan × CellStep)
  | .task act => (s.pass.step env s.cancel act).map fun res =>
      (⟨res.1, s.cancel || res.2 == .act .setCancel⟩, res.2)
  | .cancel => some ({ s with cancel := true }, .local)

def scan (env : ScanEnv) (scanConcurrency : Nat) : Machine Scan ScanAct CellStep :=
  ⟨⟨.init scanConcurrency, false⟩, Scan.step env⟩

variable {env : ScanEnv} {cancel : Bool}

theorem Scan.task_move {s s' : Scan} {act : PassAct} {c : CellStep}
    (h : s.step env (.task act) = some (s', c)) :
    s.pass.Move env s.cancel act s'.pass c ∧ (s'.cancel = s.cancel ∨ s'.cancel = true) := by
  simp only [Scan.step, Option.map_eq_some_iff] at h
  obtain ⟨⟨p, c'⟩, hstep, heq⟩ := h
  cases heq
  refine ⟨DirPass.step_move hstep, ?_⟩
  cases s.cancel with
  | true => exact .inl rfl
  | false =>
    cases (c' == CellStep.act .setCancel) with
    | true => exact .inr rfl
    | false => exact .inl rfl

def PassAct.plain : PassAct → Prop
  | .reader _ | .main _ | .scanner _ .run _ => True
  | _ => False

theorem DirReader.step_isSome (env : ScanEnv) (cancel : Bool) {r : DirReader}
    (h : ∀ res, r ≠ .finished res) (q : DirWorkQueue) :
    ∃ res, r.step env cancel q none = some res := by
  cases r with
  | lines n rest =>
    cases rest with
    | nil => exact ⟨_, rfl⟩
    | cons line rest =>
      simp only [DirReader.step]
      split
      · exact ⟨_, rfl⟩
      · split <;> exact ⟨_, rfl⟩
  | push n dir rest =>
    simp only [DirReader.step]
    split <;> exact ⟨_, rfl⟩
  | markDone =>
    simp only [DirReader.step]
    split <;> exact ⟨_, rfl⟩
  | finished res => exact absurd rfl (h res)
  | _ => exact ⟨_, rfl⟩

theorem Scanner.step_isSome (env : ScanEnv) (cancel : Bool) {s : Scanner} (hparked : s ≠ .parked)
    (h : ∀ res, s ≠ .finished res) (q : DirWorkQueue) :
    ∃ res, s.step env cancel q .run = some res := by
  cases s with
  | parked => exact absurd rfl hparked
  | finished res => exact absurd rfl (h res)
  | await b =>
    simp only [Scanner.step]
    split <;> exact ⟨_, rfl⟩
  | scan dir | entries dir rest =>
    simp only [Scanner.step]
    split
    · exact ⟨_, rfl⟩
    · split <;> exact ⟨_, rfl⟩
  | popLock | pushDir | finishDir =>
    simp only [Scanner.step]
    split <;> exact ⟨_, rfl⟩
  | _ => exact ⟨_, rfl⟩

namespace DirPass

variable {p p' : DirPass}

theorem signal_isSome (p : DirPass) (sig : Signal) : ∃ pick p', p.signal pick sig = some p' := by
  cases sig with
  | silent => exact ⟨0, p, rfl⟩
  | all => exact ⟨0, p.notifyWaiters, rfl⟩
  | one =>
    cases hany : p.scanners.any isParked with
    | false => exact ⟨0, _, by simp only [signal, notifyOne, hany]; rfl⟩
    | true =>
      obtain ⟨s, hs, hparked⟩ := List.any_eq_true.mp hany
      obtain ⟨pick, hpick⟩ := List.mem_iff_getElem?.mp hs
      cases s with
      | parked => exact ⟨pick, _, by simp only [signal, notifyOne, hany, hpick]; rfl⟩
      | _ => cases hparked

theorem reader_enabled (env : ScanEnv) (cancel : Bool) (p : DirPass)
    (h : ∀ res, p.reader ≠ .finished res) :
    ∃ pick res, p.step env cancel (.reader pick) = some res := by
  obtain ⟨⟨r, q, sig⟩, hstep⟩ := DirReader.step_isSome env cancel h p.queue
  obtain ⟨pick, p', hsig⟩ := signal_isSome { p with reader := r, queue := q } sig
  exact ⟨pick, (p', .local), by simp [step, readerStep, hstep, hsig]⟩

theorem scanner_enabled (env : ScanEnv) (cancel : Bool) {i : Nat} {s : Scanner}
    (hi : p.scanners[i]? = some s) (hparked : s ≠ .parked) (h : ∀ res, s ≠ .finished res) :
    ∃ pick res, p.step env cancel (.scanner i .run pick) = some res := by
  obtain ⟨⟨s', q, sig, c⟩, hstep⟩ :=
    Scanner.step_isSome env cancel hparked h p.queue
  obtain ⟨pick, p', hsig⟩ :=
    signal_isSome { p with queue := q, scanners := p.scanners.set i s' } sig
  exact ⟨pick, (p', c), by simp [step, scannerStep, hi, hstep, hsig]⟩

/-- No task can step, unless something fails. -/
def Halted (env : ScanEnv) (cancel : Bool) (p : DirPass) : Prop :=
  ∀ act : PassAct, act.plain → p.step env cancel act = none

theorem Halted.reader (h : p.Halted env cancel) : ∃ res, p.reader = .finished res := by
  by_contra hno
  obtain ⟨pick, res, hstep⟩ :=
    p.reader_enabled env cancel fun res heq => hno ⟨res, heq⟩
  rw [h (.reader pick) trivial] at hstep
  cases hstep

theorem Halted.scanner (h : p.Halted env cancel) {s : Scanner} (hs : s ∈ p.scanners) :
    s = .parked ∨ ∃ res, s = .finished res := by
  by_contra hno
  rw [not_or] at hno
  obtain ⟨i, hi⟩ := List.mem_iff_getElem?.mp hs
  obtain ⟨pick, res, hstep⟩ := scanner_enabled env cancel hi hno.1
    fun res heq => hno.2 ⟨res, heq⟩
  rw [h (.scanner i .run pick) trivial] at hstep
  cases hstep

theorem Halted.main (h : p.Halted env cancel) :
    (∃ res, p.main = .returned res) ∨
      ∃ k firstErr, p.main = .join k firstErr ∧ p.scanners[k]? = some .parked := by
  have hstep := h (.main 0) trivial
  obtain ⟨res, hreader⟩ := h.reader
  simp only [step, mainStep] at hstep
  cases hmain : p.main with
  | returned res => exact .inl ⟨res, rfl⟩
  | joinReader =>
    rw [hmain, hreader] at hstep
    cases res <;> cases hstep
  | join k firstErr =>
    refine .inr ⟨k, firstErr, rfl, ?_⟩
    simp only [hmain] at hstep
    cases hk : p.scanners[k]? with
    | none => simp [hk] at hstep
    | some s =>
      rcases h.scanner (List.mem_of_getElem? hk) with rfl | ⟨res, rfl⟩
      · rfl
      · cases res <;> simp [hk] at hstep
  | _ =>
    rw [hmain] at hstep
    cases hstep

/-- A scanner on which `single_pass` waits does not sleep for good. -/
theorem Halted.complete (h : p.Halted env cancel) (hok : p.ScanOk env cancel) : p.Complete := by
  have hparked : ∀ k firstErr, p.main = .join k firstErr → p.scanners[k]? ≠ some .parked := by
    intro k firstErr hmain hk
    have hsleeps : ¬ p.Awake := by
      intro hawake
      cases hawake _ (List.mem_of_getElem? hk)
    obtain ⟨res, hreader⟩ := h.reader
    have hclosed : p.queue.closed = false := by
      cases hclosed : p.queue.closed with
      | false => rfl
      | true =>
        rcases hok.closedAwake hclosed with (⟨k', err, hk'⟩ | hr) | hawake
        · simp [hmain] at hk'
        · simp [hreader] at hr
        · exact absurd hawake hsleeps
    have hdirs : p.queue.dirs = [] := by
      by_contra hdirs
      rcases hok.watched hdirs hclosed hsleeps with ⟨s, hs, halert⟩ | hsignal | ⟨_, hs⟩ | hclose
      · rcases h.scanner hs with rfl | ⟨res', rfl⟩ <;> cases halert
      · rw [hreader] at hsignal
        exact hsignal
      · rcases h.scanner hs with heq | ⟨res', heq⟩ <;> cases heq
      · rcases hclose with ⟨k', err, hk'⟩ | ⟨k', err, hk'⟩ | ⟨hjoin, _⟩ | ⟨j, err, hj, herr, hlt⟩
        · simp [hmain] at hk'
        · simp [hmain] at hk'
        · simp [hmain] at hjoin
        · simp only [hmain, PassMain.joined] at hj
          rcases Nat.lt_or_eq_of_le hj with hkj | heq
          · obtain ⟨res', hres'⟩ := hlt k hkj
            rw [hk] at hres'
            cases hres'
          · subst heq
            rw [hk] at herr
            cases herr
    have hpending : p.queue.pendingDirs = 0 := by
      have hcounted := hok.counted
      have hidle : Pool.total Scanner.busy p.scanners = 0 := by
        refine Pool.total_eq_zero fun s hs => ?_
        rcases h.scanner hs with rfl | ⟨res', rfl⟩ <;> rfl
      rw [Counted, hidle, hdirs] at hcounted
      exact hcounted
    have hdone : p.queue.readerDone = true := by
      cases res with
      | ok =>
        rcases hok.phases.readerOk hreader with hdone | htrue
        · exact hdone
        · simp [hclosed] at htrue
      | error err =>
        rcases hok.phases.readerFailed err hreader with hm | ⟨k', e, hm⟩ | htrue
        · simp [hmain] at hm
        · simp [hmain] at hm
        · simp [hclosed] at htrue
    rcases hok.doneAwake hdone hpending with hr | ⟨res', hs⟩ | hawake
    · simp [hreader] at hr
    · rcases h.scanner hs with heq | ⟨res'', heq⟩ <;> cases heq
    · exact hsleeps hawake
  rcases h.main with ⟨res, hmain⟩ | ⟨k, firstErr, hmain, hk⟩
  · refine ⟨⟨res, hmain⟩, fun s hs => ?_⟩
    obtain ⟨j, hj⟩ := List.mem_iff_getElem?.mp hs
    obtain ⟨hlt, _⟩ := List.getElem?_eq_some_iff.mp hj
    obtain ⟨res', hres'⟩ := hok.phases.joined j (by simpa [hmain, PassMain.joined] using hlt)
    rw [hj] at hres'
    exact ⟨res', Option.some.inj hres'⟩
  · exact absurd hk (hparked k firstErr hmain)

end DirPass

def Scan.Stays (env : ScanEnv) (s : Scan) : ScanAct → Prop
  | .task act => s.pass.Stays env s.cancel act
  | .cancel => True

def Scan.Ok (env : ScanEnv) (s : Scan) : Prop := s.pass.ScanOk env s.cancel

theorem Scan.Ok.step {s s' : Scan} {act : ScanAct} {c : CellStep} (hok : s.Ok env)
    (hstays : s.Stays env act) (h : s.step env act = some (s', c)) : s'.Ok env := by
  cases act with
  | task act =>
    obtain ⟨hmove, hcancel⟩ := Scan.task_move h
    have hmoved := hok.move hstays hmove
    unfold Scan.Ok
    rcases hcancel with heq | htrue
    · rw [heq]
      exact hmoved
    · rw [htrue]
      exact hmoved.cancelled
  | cancel =>
    cases h
    exact DirPass.ScanOk.cancelled hok

theorem Scan.Run.ok {scanConcurrency : Nat} {tr : List (Event Scan ScanAct CellStep)} {s : Scan}
    (h : (scan env scanConcurrency).Run (scan env scanConcurrency).init tr s)
    (hstays : ∀ e ∈ tr, e.pre.Stays env e.act) : s.Ok env := by
  refine h.invariantWhere (fun s act => s.Stays env act) hstays .init ?_ ?_
  · exact DirPass.ScanOk.init scanConcurrency
  · intro s act s' c _ hok hst hstep
    exact hok.step hst hstep

theorem Scan.Run.bounded {scanConcurrency : Nat} {tr : List (Event Scan ScanAct CellStep)}
    {s : Scan} (h : (scan env scanConcurrency).Run (scan env scanConcurrency).init tr s) :
    tr.countP (fun e => e.act.isTask) ≤
      (DirPass.init scanConcurrency).work env (max scanConcurrency 1) := by
  have hbound := h.bounded ScanAct.isTask (fun s => s.pass.work env (max scanConcurrency 1))
    (P := fun s => s.pass.scanners.length = max scanConcurrency 1) (by simp [scan, DirPass.init]) ?_
  · exact Nat.le_trans (Nat.le_add_right _ _) hbound.2
  · intro s act s' c hlen hstep
    cases act with
    | task act =>
      obtain ⟨hmove, _⟩ := Scan.task_move hstep
      exact ⟨hmove.length_eq.trans hlen, hmove.work env _ hlen⟩
    | cancel =>
      cases hstep
      exact ⟨hlen, Nat.le_refl _⟩

/-- For every finite tree, manifest, number of scanners and interleaving, with errors and
a cancellation at any step: as long as no scanner abandons the queue, a pass in which no
task can step is complete; a pass cannot step for ever; and when `single_pass` has
returned, every scanner has, and a failure of any task is the error of the pass. -/
theorem scan_completes {scanConcurrency : Nat} {tr : List (Event Scan ScanAct CellStep)}
    {s : Scan} (h : (scan env scanConcurrency).Run (scan env scanConcurrency).init tr s)
    (hstays : ∀ e ∈ tr, e.pre.Stays env e.act) :
    (s.pass.Halted env s.cancel → s.pass.Complete) ∧
    tr.countP (fun e => e.act.isTask) ≤
      (DirPass.init scanConcurrency).work env (max scanConcurrency 1) ∧
    ∀ res, s.pass.main = .returned res →
      s.pass.Complete ∧ (s.pass.Failed → ∃ err, res = .error err) := by
  have hok : s.pass.ScanOk env s.cancel := Scan.Run.ok h hstays
  exact ⟨fun hhalted => hhalted.complete hok, Scan.Run.bounded h,
    fun res hmain => hok.phases.returned hmain⟩

def Small.listing : Path → Option (List DirEntry)
  | ["m", "a"] => some [("x", .dir), ("f", .file)]
  | ["m", "a", "x"] => some []
  | _ => none

def Small.size : Path → Nat
  | ["m", "a"] => 4
  | ["m", "a", "x"] => 1
  | _ => 0

theorem Small.finite (dir : Path) (es : List DirEntry) (h : Small.listing dir = some es) :
    listingSize Small.size dir es < Small.size dir := by
  unfold Small.listing at h
  split at h <;> cases h <;> decide

def Small.scanEnv : ScanEnv :=
  { fs := { mountPoint := ["m"], readDir := Small.listing, canonicalize := some
            size := Small.size, finite := Small.finite }
    content := "a\n" }

def Small.walk : List ScanAct :=
  List.replicate 6 (.task (.reader 0)) ++ List.replicate 28 (.task (.scanner 0 .run 0)) ++
    List.replicate 4 (.task (.main 5))

theorem scan_completes_small :
    ((scan Small.scanEnv 1).play (scan Small.scanEnv 1).init Small.walk).pass.Complete := by
  have hleaves : ∀ e ∈ (scan Small.scanEnv 1).trace (scan Small.scanEnv 1).init Small.walk,
      ∀ s ∈ e.pre.pass.scanners, (s.leaves e.pre.cancel).isNone := by decide
  refine ((scan_completes ((scan Small.scanEnv 1).run_play _ Small.walk) ?_).2.2 (.ok ()) rfl).1
  intro e he
  have hnone := hleaves e he
  cases hact : e.act with
  | cancel => trivial
  | task act =>
    cases act with
    | scanner i act pick =>
      rintro ⟨s, res, hi, hres, _⟩
      have hs := hnone s (List.mem_of_getElem? hi)
      rw [hres] at hs
      cases hs
    | _ => trivial

/-- Three scanners sleep, the first is woken for `a` and the second for `x`, which the
first has queued; both see the cancel flag, and the third sleeps on. -/
def Small.forgotten : List ScanAct :=
  List.replicate 4 (.task (.scanner 0 .run 0)) ++ List.replicate 4 (.task (.scanner 1 .run 0)) ++
    List.replicate 4 (.task (.scanner 2 .run 0)) ++ List.replicate 6 (.task (.reader 0)) ++
    List.replicate 6 (.task (.scanner 0 .run 1)) ++ [.cancel, .task (.scanner 1 .run 0)] ++
    List.replicate 4 (.task (.scanner 0 .run 0)) ++ List.replicate 3 (.task (.main 5))

theorem scan_forgets : ¬ ∀ (env : ScanEnv) (scanConcurrency : Nat) (s : Scan),
    (scan env scanConcurrency).Reachable s → .parked ∈ s.pass.scanners →
      ¬ s.pass.Halted env s.cancel := by
  intro hall
  have hfinal : (scan Small.scanEnv 3).play (scan Small.scanEnv 3).init Small.forgotten =
      ⟨⟨.join 2 none, ⟨[["a", "x"]], true, 1, false, false⟩, .finished (.ok ()),
        [.finished (.ok ()), .finished (.ok ()), .parked]⟩, true⟩ := by rfl
  have hreach := (scan Small.scanEnv 3).reachable_play Small.forgotten
  rw [hfinal] at hreach
  refine hall _ _ _ hreach (by simp) ?_
  intro act _
  cases act with
  | scanner i act pick =>
    match i with
    | 0 | 1 | 2 | i + 3 => rfl
  | _ => rfl

end CvdBench.Manifest
