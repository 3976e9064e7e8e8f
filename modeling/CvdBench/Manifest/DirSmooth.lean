import CvdBench.Manifest.DirAccount
import CvdBench.Manifest.DirSleep
import CvdBench.Manifest.DirTree

/-!
A pass over a tree in which no call fails, nobody cancels and the file queue stays open:
no task fails, the flag is never seen, and a scanner leaves only when all is done.
-/

set_option autoImplicit false

namespace CvdBench.Manifest

open Foundation Foundation.Text Proto Master

section

variable (env : ScanEnv) (t : FileTree)

def EntriesKnown (dir : Path) (es : List DirEntry) : Prop :=
  ∀ e ∈ es, (e.2 = .dir → (t.root.lookup (dir ++ [e.1])).isSome) ∧
    (e.2 = .file → ∃ file, env.fs.fileEntry dir e.1 = .ok file)

def LinesKnown (rest : List (List Char)) : Prop :=
  ∀ line ∈ rest, dirLine line = .skip ∨
    ∃ path d, dirLine line = .dir path ∧ t.root.lookup path = some d

def Scanner.Smooth : Scanner → Prop
  | .scan dir => (t.root.lookup dir).isSome
  | .entries dir rest | .pushFile dir rest _ | .pushFileHeld dir rest _ | .countFile dir rest
  | .pushDirNotify dir rest => EntriesKnown env t dir rest
  | .pushDir dir rest sub => EntriesKnown env t dir rest ∧ (t.root.lookup sub).isSome
  | .finishDir res | .finishWake res | .finished res => res = .ok ()
  | _ => True

def DirReader.Smooth : DirReader → Prop
  | .lines _ rest | .notify _ rest => LinesKnown t rest
  | .push _ dir rest => (t.root.lookup dir).isSome ∧ LinesKnown t rest
  | .close | .closeWake => False
  | .finished res => res = .ok ()
  | _ => True

structure DirPass.Smooth (p : DirPass) : Prop where
  reader : p.reader.Smooth t
  dirs : ∀ dir ∈ p.queue.dirs, (t.root.lookup dir).isSome
  scanners : ∀ s ∈ p.scanners, s.Smooth env t
  main : p.main.firstErr = none
  closed : p.queue.closed = false

end

def PassAct.noFault : PassAct → Prop
  | .readerFault _ | .scanner _ (.fault _) _ => False
  | _ => True

variable {env : ScanEnv} {t : FileTree} {cancel : Bool}

theorem Scanner.Woken.smooth {s s' : Scanner} (h : s.Woken s') (hs : s.Smooth env t) :
    s'.Smooth env t := by
  cases h with
  | same s => exact hs
  | parked => trivial
  | await b => trivial

theorem entriesKnown_listing (hshows : env.fs.Shows t) {dir : Path} {d : DirTree}
    (hd : t.root.lookup dir = some d) : EntriesKnown env t dir d.listing := by
  intro e he
  obtain ⟨name, ft⟩ := e
  constructor
  · intro hft
    simp only at hft
    subst hft
    obtain ⟨sub, hsub⟩ := DirTree.child_isSome he
    rw [DirTree.lookup_append, hd]
    simp [hsub]
  · intro hft
    simp only at hft
    subst hft
    exact ⟨_, hshows.fileEntry hd he⟩

theorem DirReader.Move.smooth {q q' : DirWorkQueue} {r r' : DirReader} {sig : Signal}
    (hlists : t.Lists env.content) (h : DirReader.Move env false q none r r' q' sig)
    (hr : r.Smooth t) (hdirs : ∀ dir ∈ q.dirs, (t.root.lookup dir).isSome)
    (hclosed : q.closed = false) :
    r'.Smooth t ∧ (∀ dir ∈ q'.dirs, (t.root.lookup dir).isSome) ∧ q'.closed = false := by
  cases h with
  | openFail source hfault => cases hfault
  | opened => exact ⟨hlists, hdirs, hclosed⟩
  | linesCancel n line rest hcancel => cases hcancel
  | linesSkip n line rest =>
    exact ⟨fun l hl => hr l (List.mem_cons_of_mem _ hl), hdirs, hclosed⟩
  | linesInvalid n line rest e _ hline =>
    rcases hr line (List.mem_cons_self ..) with hskip | ⟨path, d, hdir, _⟩
    · rw [hline] at hskip
      cases hskip
    · rw [hline] at hdir
      cases hdir
  | linesDir n line rest rel _ hline =>
    rcases hr line (List.mem_cons_self ..) with hskip | ⟨path, d, hdir, hd⟩
    · rw [hline] at hskip
      cases hskip
    · rw [hline] at hdir
      cases hdir
      exact ⟨⟨by simp [hd], fun l hl => hr l (List.mem_cons_of_mem _ hl)⟩, hdirs, hclosed⟩
  | pushClosed n dir rest htrue =>
    rw [hclosed] at htrue
    cases htrue
  | push n dir rest =>
    refine ⟨hr.2, fun d hd => ?_, hclosed⟩
    rcases List.mem_append.mp hd with hd | hd
    · exact hdirs d hd
    · rw [List.mem_singleton.mp hd]
      exact hr.1
  | notify n rest => exact ⟨hr, hdirs, hclosed⟩
  | linesEnd | markWake | mark | wake => exact ⟨by trivial, hdirs, hclosed⟩
  | close => cases hr
  | closeWake => cases hr

theorem Scanner.Move.smooth {q q' : DirWorkQueue} {act : ScannerAct} {s s' : Scanner}
    {sig : Signal} {c : CellStep} (hshows : env.fs.Shows t)
    (h : Scanner.Move env false q act s s' q' sig c) (hact : ∀ f, act ≠ .fault f)
    (hc : c ≠ .refused) (hs : s.Smooth env t)
    (hdirs : ∀ dir ∈ q.dirs, (t.root.lookup dir).isSome) (hclosed : q.closed = false) :
    s'.Smooth env t ∧ (∀ dir ∈ q'.dirs, (t.root.lookup dir).isSome) ∧ q'.closed = false := by
  cases h with
  | topCancel hcancel | popCancel hcancel => cases hcancel
  | scanCancel dir hcancel | entriesCancel dir rest hcancel => cases hcancel
  | popClosed htrue | dirRefused dir rest sub htrue =>
    rw [hclosed] at htrue
    cases htrue
  | popDir dir dirs _ heq =>
    refine ⟨hdirs dir (by simp [heq]), fun d hd => hdirs d (by simp [heq, hd]), hclosed⟩
  | scanFail dir e _ hfail =>
    obtain ⟨d, hd⟩ := Option.isSome_iff_exists.mp hs
    rcases hfail with ⟨f, heq⟩ | hnone
    · exact absurd heq (hact f)
    · rw [hshows.readDir dir d hd] at hnone
      cases hnone
  | scan dir es _ hes =>
    obtain ⟨d, hd⟩ := Option.isSome_iff_exists.mp hs
    rw [hshows.readDir dir d hd] at hes
    cases hes
    exact ⟨entriesKnown_listing hshows hd, hdirs, hclosed⟩
  | entriesFail dir rest e _ hfail =>
    rcases hfail with ⟨f, heq⟩ | ⟨name, rest', rfl, herr⟩
    · exact absurd heq (hact f)
    · obtain ⟨file, hfile⟩ := (hs _ (List.mem_cons_self ..)).2 rfl
      simp only at hfile
      rw [herr] at hfile
      cases hfile
  | entrySkip dir e rest =>
    exact ⟨fun e' he' => hs e' (List.mem_cons_of_mem _ he'), hdirs, hclosed⟩
  | entryFile dir name rest file =>
    exact ⟨fun e' he' => hs e' (List.mem_cons_of_mem _ he'), hdirs, hclosed⟩
  | entryDir dir name rest =>
    have hsub := (hs _ (List.mem_cons_self ..)).1 rfl
    exact ⟨⟨fun e' he' => hs e' (List.mem_cons_of_mem _ he'), hsub⟩, hdirs, hclosed⟩
  | fileRefused => exact absurd rfl hc
  | dirPush dir rest sub =>
    refine ⟨hs.1, fun d hd => ?_, hclosed⟩
    rcases List.mem_append.mp hd with hd | hd
    · exact hdirs d hd
    · rw [List.mem_singleton.mp hd]
      exact hs.2
  | finish res | finishWake res =>
    simp only [Scanner.Smooth] at hs
    subst hs
    exact ⟨trivial, hdirs, hclosed⟩
  | _ => exact ⟨by first | exact hs | trivial, hdirs, hclosed⟩

namespace DirPass

variable {p p' : DirPass}

theorem Signalled.smooth (h : p.Signalled p') (hp : p.Smooth env t) : p'.Smooth env t where
  reader := by
    rw [h.reader]
    exact hp.reader
  dirs := by
    rw [h.dirs]
    exact hp.dirs
  scanners := by
    intro s' hs'
    obtain ⟨s, hs, hw⟩ := h.mem' hs'
    exact hw.smooth (hp.scanners s hs)
  main := by
    rw [h.main]
    exact hp.main
  closed := by
    rw [h.closed]
    exact hp.closed

theorem Smooth.init (n : Nat) : (DirPass.init n).Smooth env t where
  reader := trivial
  dirs := by simp [DirPass.init, DirWorkQueue.new]
  scanners := by
    intro s hs
    rw [List.eq_of_mem_replicate hs]
    trivial
  main := rfl
  closed := rfl

theorem Smooth.move {act : PassAct} {c : CellStep} (hp : p.Smooth env t)
    (hshows : env.fs.Shows t) (hlists : t.Lists env.content) (hact : act.noFault)
    (hc : c ≠ .refused) (h : p.Move env false act p' c) : p'.Smooth env t := by
  cases h with
  | reader hfault hr hmove hsig =>
    refine (signal_signalled hsig).smooth ?_
    rcases hfault with ⟨⟨pick, rfl⟩, rfl⟩ | ⟨source, rfl, _⟩
    · rw [← hr] at hmove
      obtain ⟨hreader, hdirs, hclosed⟩ := hmove.smooth hlists hp.reader hp.dirs hp.closed
      exact ⟨hreader, hdirs, hp.scanners, hp.main, hclosed⟩
    · cases hact
  | @scanner i act pick s s' q sig c p' hi hmove hsig =>
    refine (signal_signalled hsig).smooth ?_
    have hact' : ∀ f, act ≠ .fault f := by
      intro f heq
      subst heq
      cases hact
    obtain ⟨hs, hdirs, hclosed⟩ := hmove.smooth hshows hact' hc
      (hp.scanners _ (List.mem_of_getElem? hi)) hp.dirs hp.closed
    exact ⟨hp.reader, hdirs, Pool.forall_set hp.scanners hs, hp.main, hclosed⟩
  | main hmove =>
    have hfirst := hp.main
    cases hmove with
    | readerOk hmain => exact ⟨hp.reader, hp.dirs, hp.scanners, rfl, hp.closed⟩
    | readerFailed err hmain hreader =>
      have hr := hp.reader
      rw [hreader] at hr
      cases hr
    | close k err hmain | closeWake k err hmain | setCancel k err hmain =>
      simp [hmain, PassMain.firstErr] at hfirst
    | joinedFailed k firstErr err hmain hk =>
      have hs := hp.scanners _ (List.mem_of_getElem? hk)
      cases hs
    | joinedAll k firstErr hmain | joinedOk k firstErr hmain =>
      refine ⟨hp.reader, hp.dirs, hp.scanners, ?_, hp.closed⟩
      simpa [hmain, PassMain.firstErr] using hfirst
    | addElapsed firstErr ms hmain =>
      refine ⟨hp.reader, hp.dirs, hp.scanners, ?_, hp.closed⟩
      simp only [hmain, PassMain.firstErr] at hfirst
      simp [hfirst, DirPass.result, PassMain.firstErr]

theorem Smooth.not_failing (hp : p.Smooth env t) : ¬ p.Failing := by
  rintro (⟨err, herr⟩ | ⟨s, hs, hfail⟩)
  · have hr := hp.reader
    rw [herr] at hr
    cases hr
  · have hsmooth := hp.scanners s hs
    cases s with
    | finishDir res | finishWake res | finished res =>
      simp only [Scanner.Smooth] at hsmooth
      subst hsmooth
      cases hfail
    | _ => cases hfail

theorem Smooth.left {act : PassAct} {c : CellStep} (hp' : p'.Smooth env t)
    (h : p.Move env false act p' c) : p'.left env + c.delivered = p.left env := by
  rcases h.left with heq | hfail | ⟨hcancel, _⟩
  · exact heq
  · exact absurd hfail hp'.not_failing
  · cases hcancel

theorem Smooth.not_setCancel {act : PassAct} {c : CellStep} (hp : p.Smooth env t)
    (h : p.Move env false act p' c) : c ≠ .act .setCancel := by
  cases h with
  | reader => simp
  | scanner _ hmove => cases hmove <;> simp
  | main hmove =>
    have hfirst := hp.main
    cases hmove with
    | setCancel k err hmain => simp [hmain, PassMain.firstErr] at hfirst
    | _ => simp

theorem Smooth.stays (hp : p.Smooth env t) (act : PassAct) : p.Stays env false act := by
  cases act with
  | scanner i act pick =>
    rintro ⟨s, res, hi, hleaves, _⟩
    have hs := hp.scanners s (List.mem_of_getElem? hi)
    unfold Scanner.leaves at hleaves
    split at hleaves
    · cases hleaves
    · cases hleaves
    · cases hs
    · cases hs
    · cases hleaves
  | _ => trivial

def AllDone (p : DirPass) : Prop :=
  p.queue.dirs = [] ∧ p.queue.readerDone = true ∧ p.queue.pendingDirs = 0

theorem AllDone.move {act : PassAct} {c : CellStep} (hp : p.AllDone) (hcounted : p.Counted)
    (hreader : p.queue.readerDone = true → p.reader = .wake ∨ ∃ res, p.reader = .finished res)
    (h : p.Move env cancel act p' c) : p'.AllDone := by
  obtain ⟨hdirs, hdone, hpending⟩ := hp
  cases h with
  | @reader act fault pick r r' q sig p' _ hr hmove hsig =>
    have hsignalled := signal_signalled hsig
    unfold AllDone
    rw [hsignalled.dirs, hsignalled.readerDone, hsignalled.pendingDirs]
    rcases hreader hdone with heq | ⟨res, heq⟩
    · rw [hr] at heq
      subst heq
      cases hmove
      exact ⟨hdirs, hdone, hpending⟩
    · rw [hr] at heq
      subst heq
      cases hmove
  | @scanner i act pick s s' q sig c p' hi hmove hsig =>
    have hsignalled := signal_signalled hsig
    unfold AllDone
    rw [hsignalled.dirs, hsignalled.readerDone, hsignalled.pendingDirs]
    have hidle : s.busy = 0 := by
      have hle := Pool.le_total (f := Scanner.busy) (List.mem_of_getElem? hi)
      rw [Counted, hpending, hdirs] at hcounted
      simp only [List.length_nil] at hcounted
      omega
    cases hmove with
    | popDir dir dirs _ heq =>
      rw [hdirs] at heq
      cases heq
    | dirPush | finishLast | finish => simp [Scanner.busy] at hidle
    | _ => exact ⟨hdirs, hdone, hpending⟩
  | main hmove =>
    cases hmove <;> exact ⟨hdirs, hdone, hpending⟩

theorem Smooth.stopped_move {act : PassAct} {c : CellStep} (hp : p.Smooth env t)
    (hcounted : p.Counted)
    (hreader : p.queue.readerDone = true → p.reader = .wake ∨ ∃ res, p.reader = .finished res)
    (hstopped : .finished (.ok ()) ∈ p.scanners → p.AllDone) (h : p.Move env false act p' c)
    (hmem : .finished (.ok ()) ∈ p'.scanners) : p'.AllDone := by
  refine AllDone.move ?_ hcounted hreader h
  cases h with
  | reader _ _ _ hsig =>
    obtain ⟨s, hs, hw⟩ := (signal_signalled hsig).mem' hmem
    rw [hw.eq_of_finished.mp rfl] at hs
    exact hstopped hs
  | @scanner i act pick s s' q sig c p' hi hmove hsig =>
    obtain ⟨u, hu, hw⟩ := (signal_signalled hsig).mem' hmem
    rw [hw.eq_of_finished.mp rfl] at hu
    rcases List.mem_or_eq_of_mem_set hu with hold | heq
    · exact hstopped hold
    · subst heq
      rcases hmove.finished_ok with ⟨hcancel, _⟩ | hclosed | ⟨_, hdirs, hdone, hpending⟩
      · cases hcancel
      · rw [hp.closed] at hclosed
        cases hclosed
      · exact ⟨hdirs, hdone, hpending⟩
  | main hmove =>
    cases hmove with
    | closeWake k err =>
      obtain ⟨s, hs, hw⟩ :=
        (notifyWaiters_signalled { p with main := .join k (some err) }).mem' hmem
      rw [hw.eq_of_finished.mp rfl] at hs
      exact hstopped hs
    | _ => exact hstopped hmem

theorem Smooth.left_returned {res : Except DirScanError Unit} (hp : p.Smooth env t)
    (hphases : p.Phases) (hlen : 0 < p.scanners.length)
    (hstopped : .finished (.ok ()) ∈ p.scanners → p.AllDone) (hmain : p.main = .returned res) :
    res = .ok () ∧ p.left env = 0 := by
  have hfirst := hp.main
  rw [hmain] at hfirst
  have hres : res = .ok () := by
    cases res with
    | ok => rfl
    | error err => cases hfirst
  have hcomplete := (hphases.returned hmain).1
  have hfinished : ∀ s ∈ p.scanners, s = .finished (.ok ()) := by
    intro s hs
    obtain ⟨res', rfl⟩ := hcomplete.2 s hs
    have hsmooth := hp.scanners _ hs
    simp only [Scanner.Smooth] at hsmooth
    rw [hsmooth]
  obtain ⟨s, hs⟩ := List.exists_mem_of_length_pos hlen
  have hmem := hs
  rw [hfinished s hs] at hmem
  obtain ⟨hdirs, _, _⟩ := hstopped hmem
  obtain ⟨res', hreader⟩ := hphases.reader (by simp [hmain])
  have htotal : Pool.total (Scanner.left env) p.scanners = 0 := by
    refine Pool.total_eq_zero fun s hs => ?_
    rw [hfinished s hs]
    rfl
  refine ⟨hres, ?_⟩
  simp [DirPass.left, hreader, DirReader.left, DirWorkQueue.left, hdirs, htotal]

end DirPass

end CvdBench.Manifest
