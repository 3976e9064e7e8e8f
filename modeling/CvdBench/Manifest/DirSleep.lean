import CvdBench.Manifest.DirInvariant

/-!
No sleeper is forgotten, unless a scanner leaves its loop early and abandons the queue.
-/

set_option autoImplicit false

namespace CvdBench.Manifest

open Foundation Foundation.Text Proto Master

variable {env : ScanEnv} {cancel : Bool}

def DirReader.willSignal (env : ScanEnv) (cancel : Bool) : DirReader → Prop
  | .opening => (∃ line ∈ Text.lines env.content.toList, dirLine line ≠ .skip) ∨
      cancel = true ∧ Text.lines env.content.toList ≠ []
  | .lines _ rest => (∃ line ∈ rest, dirLine line ≠ .skip) ∨ cancel = true ∧ rest ≠ []
  | .push .. | .notify .. | .close => True
  | _ => False

/-- A scanner gets ready to sleep only when it has found the open queue empty and the
scan not done. -/
theorem Scanner.Move.waiting_of {q q' : DirWorkQueue} {act : ScannerAct} {s s' : Scanner}
    {sig : Signal} {c : CellStep} (h : Scanner.Move env cancel q act s s' q' sig c)
    (hs' : s'.waiting = true) : s.waiting = true ∨
      q.closed = false ∧ q.dirs = [] ∧ (q.readerDone = false ∨ q.pendingDirs ≠ 0) := by
  cases h with
  | popWait hopen hdirs hdone => exact .inr ⟨hopen, hdirs, hdone⟩
  | park => exact .inl rfl
  | finish res => cases res <;> cases hs'
  | finishWake res => cases res <;> cases hs'
  | _ => cases hs'

namespace DirPass

def ClosePending (p : DirPass) : Prop :=
  (∃ k err, p.main = .closeWake k err) ∨ p.reader = .closeWake

def ClosedAwake (p : DirPass) : Prop :=
  p.queue.closed = true → p.ClosePending ∨ p.Awake

def DoneAwake (p : DirPass) : Prop :=
  p.queue.readerDone = true → p.queue.pendingDirs = 0 →
    p.reader = .wake ∨ (∃ res, Scanner.finishWake res ∈ p.scanners) ∨ p.Awake

def WillClose (p : DirPass) : Prop :=
  (∃ k err, p.main = .close k err) ∨ (∃ k err, p.main = .setCancel k err) ∨
  (p.main = .joinReader ∧ ∃ err, p.reader = .finished (.error err)) ∨
  ∃ j err, p.main.joined p.scanners.length ≤ j ∧
    p.scanners[j]? = some (.finished (.error err)) ∧
    ∀ i < j, ∃ res, p.scanners[i]? = some (.finished res)

def Attended (env : ScanEnv) (cancel : Bool) (p : DirPass) : Prop :=
  (∃ s ∈ p.scanners, s.alert = true) ∨ p.reader.willSignal env cancel ∨
  (p.queue.permit = true ∧ .await false ∈ p.scanners) ∨ p.WillClose

def Watched (env : ScanEnv) (cancel : Bool) (p : DirPass) : Prop :=
  p.queue.dirs ≠ [] → p.queue.closed = false → ¬ p.Awake → p.Attended env cancel

/-- The scanner at this position leaves its loop on the cancel flag or an error, and
leaves directories in the open queue and a sleeper with nobody to wake it. -/
def Abandons (env : ScanEnv) (cancel : Bool) (p : DirPass) (i : Nat) : Prop :=
  ∃ s res, p.scanners[i]? = some s ∧ s.leaves cancel = some res ∧
    ¬ ({ p with scanners := p.scanners.set i (.finished res) } : DirPass).Watched env cancel

variable {p p' : DirPass}

theorem Signalled.attended (h : p.Signalled p') (hp : p.Attended env cancel) :
    p'.Attended env cancel := by
  rcases hp with ⟨s, hs, halert⟩ | hsignal | ⟨hpermit, hmem⟩ | hclose
  · obtain ⟨s', hs', hw⟩ := h.mem hs
    exact .inl ⟨s', hs', hw.alert_of halert⟩
  · rw [← h.reader] at hsignal
    exact .inr (.inl hsignal)
  · obtain ⟨s', hs', hw⟩ := h.mem hmem
    cases hw with
    | same => exact .inr (.inr (.inl ⟨h.permit hpermit, hs'⟩))
    | await b => exact .inl ⟨_, hs', rfl⟩
  · refine .inr (.inr (.inr ?_))
    rcases hclose with hk | hk | ⟨hmain, err, herr⟩ | ⟨j, err, hj, herr, hlt⟩
    · rw [← h.main] at hk
      exact .inl hk
    · rw [← h.main] at hk
      exact .inr (.inl hk)
    · rw [← h.main] at hmain
      rw [← h.reader] at herr
      exact .inr (.inr (.inl ⟨hmain, err, herr⟩))
    · refine .inr (.inr (.inr ⟨j, err, ?_, h.finished_iff.mpr herr, fun i hi => ?_⟩))
      · rw [h.main, h.length]
        exact hj
      · obtain ⟨res, hres⟩ := hlt i hi
        exact ⟨res, h.finished_iff.mpr hres⟩

theorem Signalled.watched (h : p.Signalled p') (hp : p.Watched env cancel) :
    p'.Watched env cancel := by
  intro hdirs hclosed hawake
  rw [h.dirs] at hdirs
  rw [h.closed] at hclosed
  exact h.attended (hp hdirs hclosed fun hall => hawake (h.awake hall))

theorem Signalled.closePending (h : p.Signalled p') (hp : p.ClosePending) : p'.ClosePending := by
  unfold ClosePending at hp ⊢
  rw [h.main, h.reader]
  exact hp

theorem Awake.watched (h : p.Awake) : p.Watched env cancel := fun _ _ hno => absurd h hno

theorem set_awake {q q' : DirWorkQueue} {act : ScannerAct} {i : Nat} {s s' : Scanner}
    {sig : Signal} {c : CellStep} (hawake : p.Awake) (hi : p.scanners[i]? = some s)
    (hmove : Scanner.Move env cancel q act s s' q' sig c)
    (hover : q.closed = true ∨ q.readerDone = true ∧ q.pendingDirs = 0) :
    ({ p with scanners := p.scanners.set i s' } : DirPass).Awake := by
  refine Pool.forall_set hawake ?_
  cases hwait : s'.waiting with
  | false => rfl
  | true =>
    rcases hmove.waiting_of hwait with hs | ⟨hopen, _, hmore⟩
    · rw [hawake s (List.mem_of_getElem? hi)] at hs
      cases hs
    · rcases hover with hclosed | ⟨hdone, hpending⟩
      · rw [hopen] at hclosed
        cases hclosed
      · rcases hmore with hread | hne
        · simp [hread] at hdone
        · exact absurd hpending hne

theorem awake_of_unparked (hparked : ∀ s ∈ p.scanners, s ≠ .parked)
    (hawait : .await false ∉ p.scanners) : p.Awake := by
  intro s hs
  cases s with
  | parked => exact absurd rfl (hparked _ hs)
  | await b =>
    cases b with
    | false => exact absurd hs hawait
    | true => rfl
  | _ => rfl

theorem Move.closedAwake {act : PassAct} {c : CellStep} (h : p.Move env cancel act p' c)
    (hp : p.ClosedAwake) : p'.ClosedAwake := by
  cases h with
  | @reader _ fault pick r r' q sig _ _ hr hmove hsig =>
    intro hclosed
    rw [(signal_signalled hsig).closed] at hclosed
    cases hmove with
    | close => exact .inl ((signal_signalled hsig).closePending (.inr rfl))
    | closeWake =>
      cases hsig
      exact .inr (notifyWaiters_awake _)
    | wake =>
      cases hsig
      exact .inr (notifyWaiters_awake _)
    | _ =>
      rcases hp hclosed with (hmain | hreader) | hawake
      · exact .inl ((signal_signalled hsig).closePending (.inl hmain))
      · rw [hr] at hreader
        cases hreader
      · exact .inr ((signal_signalled hsig).awake hawake)
  | @scanner i act pick s s' q sig c p' hi hmove hsig =>
    intro hclosed
    rw [(signal_signalled hsig).closed] at hclosed
    simp only [(Scanner.Move.queue_flags hmove).2] at hclosed
    rcases hp hclosed with hpending | hawake
    · exact .inl ((signal_signalled hsig).closePending hpending)
    · exact .inr ((signal_signalled hsig).awake (set_awake hawake hi hmove (.inl hclosed)))
  | main hmove =>
    intro hclosed
    cases hmove with
    | close k err => exact .inl (.inl ⟨k, err, rfl⟩)
    | closeWake => exact .inr (notifyWaiters_awake _)
    | readerOk hmain | readerFailed _ hmain | joinedAll _ _ hmain | joinedOk _ _ hmain
    | joinedFailed _ _ _ hmain | setCancel _ _ hmain | addElapsed _ _ hmain =>
      rcases hp hclosed with (⟨k, err, hk⟩ | hreader) | hawake
      · rw [hmain] at hk
        cases hk
      · exact .inl (.inr hreader)
      · exact .inr hawake

theorem Signalled.finishWake_mem (h : p.Signalled p') {res : Except DirScanError Unit}
    (hmem : Scanner.finishWake res ∈ p.scanners) : Scanner.finishWake res ∈ p'.scanners := by
  obtain ⟨s', hs', hw⟩ := h.mem hmem
  rw [hw.finishWake rfl] at hs'
  exact hs'

theorem mem_set_of_ne {scanners : List Scanner} {i : Nat} {s s' t : Scanner}
    (hi : scanners[i]? = some s) (ht : t ∈ scanners) (hne : t ≠ s) : t ∈ scanners.set i s' := by
  obtain ⟨j, hj⟩ := List.mem_iff_getElem?.mp ht
  refine List.mem_iff_getElem?.mpr ⟨j, ?_⟩
  rw [Pool.getElem?_set s' hi, if_neg ?_]
  · exact hj
  · intro heq
    subst heq
    rw [hi] at hj
    exact hne (Option.some.inj hj).symm

theorem Move.doneAwake {act : PassAct} {c : CellStep} (h : p.Move env cancel act p' c)
    (hp : p.DoneAwake) : p'.DoneAwake := by
  cases h with
  | @reader _ fault pick r r' q sig _ _ hr hmove hsig =>
    have hsignalled := signal_signalled hsig
    intro hdone hpending
    rw [hsignalled.readerDone] at hdone
    rw [hsignalled.pendingDirs] at hpending
    rw [hsignalled.reader]
    cases hmove with
    | markWake => exact .inl rfl
    | mark hne => exact absurd hpending hne
    | push => simp at hpending
    | wake =>
      cases hsig
      exact .inr (.inr (notifyWaiters_awake _))
    | closeWake =>
      cases hsig
      exact .inr (.inr (notifyWaiters_awake _))
    | _ =>
      rcases hp hdone hpending with hreader | ⟨res, hmem⟩ | hawake
      · rw [hr] at hreader
        cases hreader
      · exact .inr (.inl ⟨res, hsignalled.finishWake_mem hmem⟩)
      · exact .inr (.inr (hsignalled.awake hawake))
  | @scanner i act pick s s' q sig c p' hi hmove hsig =>
    have hsignalled := signal_signalled hsig
    intro hdone hpending
    rw [hsignalled.readerDone] at hdone
    rw [hsignalled.pendingDirs] at hpending
    rw [hsignalled.reader]
    have hawake' : p.queue.readerDone = true → p.queue.pendingDirs = 0 → p.Awake →
        ∀ t ∈ p.scanners.set i s', t.waiting = false :=
      fun hdone hpending hawake => set_awake hawake hi hmove (.inr ⟨hdone, hpending⟩)
    cases hmove with
    | dirPush => simp at hpending
    | finishLast res =>
      refine .inr (.inl ⟨res, hsignalled.finishWake_mem ?_⟩)
      exact List.mem_of_getElem? (Pool.getElem?_set_self _ hi)
    | finish res hopen =>
      simp only at hdone hpending
      rcases hopen with hread | hne
      · simp [hread] at hdone
      · exact absurd hpending hne
    | finishWake res =>
      cases hsig
      exact .inr (.inr (notifyWaiters_awake _))
    | _ =>
      rcases hp hdone hpending with hreader | ⟨res, hmem⟩ | hawake
      · exact .inl hreader
      · exact .inr (.inl ⟨res, hsignalled.finishWake_mem (mem_set_of_ne hi hmem (by simp))⟩)
      · exact .inr (.inr (hsignalled.awake (hawake' hdone hpending hawake)))
  | main hmove =>
    cases hmove with
    | closeWake => exact fun _ _ => .inr (.inr (notifyWaiters_awake _))
    | _ => exact hp

theorem Attended.readerMove {r : DirReader} {q : DirWorkQueue} (hp : p.Attended env cancel)
    (hmain : p.main = .joinReader) (hreader : ∀ res, p.reader ≠ .finished res)
    (hpermit : q.permit = p.queue.permit)
    (hsignal : p.reader.willSignal env cancel →
      ({ p with reader := r, queue := q } : DirPass).Attended env cancel) :
    ({ p with reader := r, queue := q } : DirPass).Attended env cancel := by
  rcases hp with halert | hsig | ⟨hper, hmem⟩ | hclose
  · exact .inl halert
  · exact hsignal hsig
  · exact .inr (.inr (.inl ⟨hpermit.trans hper, hmem⟩))
  · rcases hclose with ⟨k, err, hk⟩ | ⟨k, err, hk⟩ | ⟨_, err, herr⟩ | hfailed
    · simp [hmain] at hk
    · simp [hmain] at hk
    · exact absurd herr (hreader _)
    · exact .inr (.inr (.inr (.inr (.inr (.inr hfailed)))))

theorem Move.watched_reader {fault : Option String} {pick : Nat} {r r' : DirReader}
    {q : DirWorkQueue} {sig : Signal} (hphases : p.Phases) (hp : p.Watched env cancel)
    (hr : p.reader = r) (hmove : DirReader.Move env cancel p.queue fault r r' q sig)
    (hsig : ({ p with reader := r', queue := q } : DirPass).signal pick sig = some p') :
    p'.Watched env cancel := by
  have hnot : ∀ res, p.reader ≠ .finished res := by
    intro res heq
    rw [hr] at heq
    subst heq
    cases hmove
  have hmain : p.main = .joinReader := by
    by_contra hne
    obtain ⟨res, hres⟩ := hphases.reader hne
    exact hnot res hres
  have hfails : ∀ err q', ({ p with reader := .finished (.error err), queue := q' } :
      DirPass).Attended env cancel :=
    fun err q' => .inr (.inr (.inr (.inr (.inr (.inl ⟨hmain, err, rfl⟩)))))
  cases hmove with
  | openFail source =>
    cases hsig
    exact fun _ _ _ => hfails _ _
  | opened =>
    cases hsig
    intro hdirs hclosed hawake
    refine (hp hdirs hclosed hawake).readerMove hmain hnot rfl fun hsignal => ?_
    rw [hr] at hsignal
    exact .inr (.inl hsignal)
  | linesEnd n =>
    cases hsig
    intro hdirs hclosed hawake
    refine (hp hdirs hclosed hawake).readerMove hmain hnot rfl fun hsignal => ?_
    rw [hr] at hsignal
    simp [DirReader.willSignal] at hsignal
  | linesCancel n line rest =>
    cases hsig
    exact fun _ _ _ => .inr (.inl trivial)
  | linesSkip n line rest hcancel hline =>
    cases hsig
    intro hdirs hclosed hawake
    refine (hp hdirs hclosed hawake).readerMove hmain hnot rfl fun hsignal => ?_
    rw [hr] at hsignal
    rcases hsignal with ⟨line', hmem, hne⟩ | ⟨htrue, _⟩
    · rcases List.mem_cons.mp hmem with heq | hmem
      · rw [heq] at hne
        exact absurd hline hne
      · exact .inr (.inl (.inl ⟨line', hmem, hne⟩))
    · simp [hcancel] at htrue
  | linesInvalid n line rest e =>
    cases hsig
    exact fun _ _ _ => hfails _ _
  | linesDir n line rest rel =>
    cases hsig
    exact fun _ _ _ => .inr (.inl trivial)
  | pushClosed n dir rest =>
    cases hsig
    exact fun _ _ _ => hfails _ _
  | push n dir rest =>
    cases hsig
    exact fun _ _ _ => .inr (.inl trivial)
  | notify n rest =>
    intro _ _ hawake
    rcases notifyOne_effect hsig with halert | ⟨hpermit, hparked⟩
    · exact .inl halert
    · refine .inr (.inr (.inl ⟨hpermit, ?_⟩))
      by_contra hno
      exact hawake (awake_of_unparked hparked hno)
  | markWake | mark =>
    cases hsig
    intro hdirs hclosed hawake
    refine (hp hdirs hclosed hawake).readerMove hmain hnot rfl fun hsignal => ?_
    rw [hr] at hsignal
    cases hsignal
  | wake =>
    cases hsig
    exact (notifyWaiters_awake _).watched
  | close =>
    cases hsig
    exact fun _ hclosed => by simp at hclosed
  | closeWake =>
    cases hsig
    exact (notifyWaiters_awake _).watched

theorem alert_set {scanners : List Scanner} {i : Nat} {s s' : Scanner}
    (hi : scanners[i]? = some s) (halert : s'.alert = true) :
    ∃ t ∈ scanners.set i s', t.alert = true :=
  ⟨s', List.mem_of_getElem? (Pool.getElem?_set_self s' hi), halert⟩

theorem Watched.park {i : Nat} (hp : p.Watched env cancel)
    (hi : p.scanners[i]? = some (.await false)) (hpermit : p.queue.permit = false) :
    ({ p with scanners := p.scanners.set i .parked } : DirPass).Watched env cancel := by
  intro hdirs hclosed _
  have hawake : ¬ p.Awake := by
    intro hall
    have hwait := hall _ (List.mem_of_getElem? hi)
    cases hwait
  rcases hp hdirs hclosed hawake with ⟨s, hs, halert⟩ | hsignal | ⟨htrue, _⟩ | hclose
  · refine .inl ⟨s, mem_set_of_ne hi hs ?_, halert⟩
    intro heq
    subst heq
    cases halert
  · exact .inr (.inl hsignal)
  · rw [hpermit] at htrue
    cases htrue
  · refine .inr (.inr (.inr ?_))
    rcases hclose with hk | hk | hk | ⟨j, err, hj, herr, hlt⟩
    · exact .inl hk
    · exact .inr (.inl hk)
    · exact .inr (.inr (.inl hk))
    · refine .inr (.inr (.inr ⟨j, err, ?_, finished_set hi (by simp) herr, fun i' hi' => ?_⟩))
      · simpa using hj
      · obtain ⟨res, hres⟩ := hlt i' hi'
        exact ⟨res, finished_set hi (by simp) hres⟩

theorem Move.watched_scanner {i pick : Nat} {act : ScannerAct} {s s' : Scanner}
    {q : DirWorkQueue} {sig : Signal} {c : CellStep} (hp : p.Watched env cancel)
    (hstays : ¬ p.Abandons env cancel i)
    (hi : p.scanners[i]? = some s) (hmove : Scanner.Move env cancel p.queue act s s' q sig c)
    (hsig : ({ p with queue := q, scanners := p.scanners.set i s' } : DirPass).signal
      pick sig = some p') : p'.Watched env cancel := by
  have hleaves : ∀ res, s.leaves cancel = some res →
      ({ p with scanners := p.scanners.set i (.finished res) } : DirPass).Watched env cancel := by
    intro res hres
    by_contra hno
    exact hstays ⟨s, res, hi, hres, hno⟩
  have halert : s'.alert = true → p'.Watched env cancel := by
    intro halert
    exact (signal_signalled hsig).watched fun _ _ _ => .inl (alert_set hi halert)
  cases hmove with
  | topCancel hcancel =>
    cases hsig
    exact hleaves _ (by simp [Scanner.leaves, hcancel])
  | popCancel hcancel =>
    cases hsig
    exact hleaves _ (by simp [Scanner.leaves, hcancel])
  | popClosed hclosed =>
    cases hsig
    exact fun _ hopen => by simp [hclosed] at hopen
  | popDone _ hdirs =>
    cases hsig
    exact fun hne => absurd hdirs hne
  | popWait _ hdirs =>
    cases hsig
    exact fun hne => absurd hdirs hne
  | park hpermit =>
    cases hsig
    exact hp.park hi hpermit
  | finish res =>
    cases res with
    | ok => exact halert rfl
    | error err =>
      cases hsig
      exact hleaves (.error err) rfl
  | finishWake res =>
    cases hsig
    exact (notifyWaiters_awake _).watched
  | _ => exact halert rfl

theorem Phases.awake_of_all (hp : p.Phases)
    (hall : p.main.joined p.scanners.length = p.scanners.length) : p.Awake := by
  intro s hs
  obtain ⟨j, hj⟩ := List.mem_iff_getElem?.mp hs
  obtain ⟨hlt, _⟩ := List.getElem?_eq_some_iff.mp hj
  rw [← hall] at hlt
  obtain ⟨res, hres⟩ := hp.joined j hlt
  rw [hres] at hj
  cases hj
  rfl

theorem Move.watched_main {c : CellStep} (hphases : p.Phases) (hp : p.Watched env cancel)
    (h : p.MainMove p' c) : p'.Watched env cancel := by
  have hkeep : ∀ m, ({ p with main := m } : DirPass).WillClose →
      ({ p with main := m } : DirPass).Watched env cancel :=
    fun m hclose _ _ _ => .inr (.inr (.inr hclose))
  have hsame : ∀ m, (p.WillClose → ({ p with main := m } : DirPass).WillClose) →
      ({ p with main := m } : DirPass).Watched env cancel := by
    intro m hm hdirs hclosed hawake
    rcases hp hdirs hclosed hawake with h | h | h | h
    · exact .inl h
    · exact .inr (.inl h)
    · exact .inr (.inr (.inl h))
    · exact .inr (.inr (.inr (hm h)))
  cases h with
  | readerOk hmain hreader =>
    refine hsame _ ?_
    rintro (⟨k, err, hk⟩ | ⟨k, err, hk⟩ | ⟨_, err, herr⟩ | ⟨j, err, _, herr, hlt⟩)
    · simp [hmain] at hk
    · simp [hmain] at hk
    · simp [hreader] at herr
    · exact .inr (.inr (.inr ⟨j, err, Nat.zero_le j, herr, hlt⟩))
  | readerFailed err hmain hreader => exact hkeep _ (.inl ⟨0, err, rfl⟩)
  | close k err hmain => exact fun _ hclosed => by simp [DirWorkQueue.close] at hclosed
  | closeWake k err hmain => exact (notifyWaiters_awake _).watched
  | joinedAll k firstErr hmain hk =>
    have hle : p.scanners.length ≤ k := List.getElem?_eq_none_iff.mp hk
    have hawake : p.Awake := by
      intro s hs
      obtain ⟨j, hj⟩ := List.mem_iff_getElem?.mp hs
      obtain ⟨hlt, _⟩ := List.getElem?_eq_some_iff.mp hj
      obtain ⟨res, hres⟩ := hphases.joined j (by simp only [hmain, PassMain.joined]; omega)
      rw [hres] at hj
      cases hj
      rfl
    exact fun _ _ hno => absurd hawake hno
  | joinedOk k firstErr hmain hk =>
    refine hsame _ ?_
    rintro (⟨k', err, hk'⟩ | ⟨k', err, hk'⟩ | ⟨hjoin, _⟩ | ⟨j, err, hj, herr, hlt⟩)
    · simp [hmain] at hk'
    · simp [hmain] at hk'
    · simp [hmain] at hjoin
    · refine .inr (.inr (.inr ⟨j, err, ?_, herr, hlt⟩))
      simp only [hmain, PassMain.joined] at hj
      simp only [PassMain.joined]
      have hne : j ≠ k := by
        intro heq
        subst heq
        rw [hk] at herr
        cases herr
      omega
  | joinedFailed k firstErr err hmain hk => exact hkeep _ (.inr (.inl ⟨k, _, rfl⟩))
  | setCancel k err hmain => exact hkeep _ (.inl ⟨k + 1, err, rfl⟩)
  | addElapsed firstErr ms hmain =>
    have hawake := hphases.awake_of_all (by simp [hmain, PassMain.joined])
    exact fun _ _ hno => absurd hawake hno

structure ScanOk (env : ScanEnv) (cancel : Bool) (p : DirPass) : Prop where
  counted : p.Counted
  phases : p.Phases
  closedAwake : p.ClosedAwake
  doneAwake : p.DoneAwake
  watched : p.Watched env cancel

theorem total_replicate_top (n : Nat) :
    Pool.total Scanner.busy (List.replicate n .top) = 0 := by
  refine Pool.total_eq_zero fun s hs => ?_
  rw [List.eq_of_mem_replicate hs]
  rfl

theorem ScanOk.init (n : Nat) : (DirPass.init n).ScanOk env cancel where
  counted := by simp [Counted, DirPass.init, DirWorkQueue.new, total_replicate_top]
  phases := .init n
  closedAwake := fun hclosed => by simp [DirPass.init, DirWorkQueue.new] at hclosed
  doneAwake := fun hdone => by simp [DirPass.init, DirWorkQueue.new] at hdone
  watched := fun hdirs => absurd rfl hdirs

def Stays (env : ScanEnv) (cancel : Bool) (p : DirPass) : PassAct → Prop
  | .scanner i _ _ => ¬ p.Abandons env cancel i
  | _ => True

theorem ScanOk.move {act : PassAct} {c : CellStep} (hp : p.ScanOk env cancel)
    (hstays : p.Stays env cancel act) (h : p.Move env cancel act p' c) :
    p'.ScanOk env cancel where
  counted := h.counted hp.counted
  phases := h.phases hp.phases
  closedAwake := h.closedAwake hp.closedAwake
  doneAwake := h.doneAwake hp.doneAwake
  watched := by
    cases h with
    | reader _ hr hmove hsig => exact Move.watched_reader hp.phases hp.watched hr hmove hsig
    | scanner hi hmove hsig => exact Move.watched_scanner hp.watched hstays hi hmove hsig
    | main hmove => exact Move.watched_main hp.phases hp.watched hmove

theorem willSignal_true {r : DirReader} (h : r.willSignal env cancel) :
    r.willSignal env true := by
  cases r with
  | opening | lines =>
    rcases h with h | ⟨_, h⟩
    · exact .inl h
    · exact .inr ⟨rfl, h⟩
  | push | notify | close => trivial
  | _ => cases h

theorem ScanOk.cancelled (hp : p.ScanOk env cancel) : p.ScanOk env true where
  counted := hp.counted
  phases := hp.phases
  closedAwake := hp.closedAwake
  doneAwake := hp.doneAwake
  watched := by
    intro hdirs hclosed hawake
    rcases hp.watched hdirs hclosed hawake with h | h | h | h
    · exact .inl h
    · exact .inr (.inl (willSignal_true h))
    · exact .inr (.inr (.inl h))
    · exact .inr (.inr (.inr h))

end DirPass

end CvdBench.Manifest
