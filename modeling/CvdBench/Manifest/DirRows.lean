import CvdBench.Manifest.DirScan

/-!
What one step of each task of a pass can do, said once: every invariant of the scan is
derived from these rows.
-/

set_option autoImplicit false

namespace CvdBench.Manifest

open Foundation Foundation.Text Proto Master

variable {env : ScanEnv} {cancel : Bool}

theorem DirWorkQueue.push_open {q : DirWorkQueue} (h : q.closed = false) (dir : Path) :
    q.push dir = some { q with dirs := q.dirs ++ [dir], pendingDirs := q.pendingDirs + 1 } := by
  simp [DirWorkQueue.push, h]

theorem DirWorkQueue.push_closed {q : DirWorkQueue} (h : q.closed = true) (dir : Path) :
    q.push dir = none := by
  simp [DirWorkQueue.push, h]

theorem DirWorkQueue.pop_cases (q : DirWorkQueue) :
    (q.closed = true ∧ q.pop = (q, .done)) ∨
    (∃ dir dirs, q.closed = false ∧ q.dirs = dir :: dirs ∧
      q.pop = ({ q with dirs }, .dir dir)) ∨
    (q.closed = false ∧ q.dirs = [] ∧ q.readerDone = true ∧ q.pendingDirs = 0 ∧
      q.pop = (q, .done)) ∨
    (q.closed = false ∧ q.dirs = [] ∧ (q.readerDone = false ∨ q.pendingDirs ≠ 0) ∧
      q.pop = (q, .wait)) := by
  cases hclosed : q.closed with
  | true => exact .inl ⟨rfl, by simp [DirWorkQueue.pop, hclosed]⟩
  | false =>
    right
    cases hdirs : q.dirs with
    | cons dir dirs => exact .inl ⟨dir, dirs, rfl, rfl, by simp [DirWorkQueue.pop, hclosed, hdirs]⟩
    | nil =>
      right
      by_cases hdone : q.readerDone = true ∧ q.pendingDirs = 0
      · exact .inl ⟨rfl, rfl, hdone.1, hdone.2, by simp [DirWorkQueue.pop, hclosed, hdirs, hdone]⟩
      · refine .inr ⟨rfl, rfl, ?_, by simp [DirWorkQueue.pop, hclosed, hdirs, hdone]⟩
        rw [not_and_or, Bool.not_eq_true] at hdone
        exact hdone

theorem DirWorkQueue.finishDir_cases (q : DirWorkQueue) :
    (q.readerDone = true ∧ q.pendingDirs - 1 = 0 ∧
      q.finishDir = ({ q with pendingDirs := q.pendingDirs - 1 }, true)) ∨
    ((q.readerDone = false ∨ q.pendingDirs - 1 ≠ 0) ∧
      q.finishDir = ({ q with pendingDirs := q.pendingDirs - 1 }, false)) := by
  by_cases hlast : q.readerDone = true ∧ q.pendingDirs - 1 = 0
  · exact .inl ⟨hlast.1, hlast.2, by simp [DirWorkQueue.finishDir, hlast]⟩
  · refine .inr ⟨?_, ?_⟩
    · rw [not_and_or, Bool.not_eq_true] at hlast
      exact hlast
    · simp only [DirWorkQueue.finishDir, Prod.mk.injEq, true_and]
      simpa using hlast

inductive DirReader.Move (env : ScanEnv) (cancel : Bool) (q : DirWorkQueue)
    (fault : Option String) :
    DirReader → DirReader → DirWorkQueue → Signal → Prop where
  | openFail (source : String) : fault = some source →
      Move env cancel q fault .opening (.finished (.error (.io source))) q .silent
  | opened : Move env cancel q fault .opening (.lines 1 (Text.lines env.content.toList)) q .silent
  | linesEnd (n : Nat) : Move env cancel q fault (.lines n []) .markDone q .silent
  | linesCancel (n : Nat) (line : List Char) (rest : List (List Char)) : cancel = true →
      Move env cancel q fault (.lines n (line :: rest)) .close q .silent
  | linesSkip (n : Nat) (line : List Char) (rest : List (List Char)) : cancel = false →
      dirLine line = .skip →
      Move env cancel q fault (.lines n (line :: rest)) (.lines (n + 1) rest) q .silent
  | linesInvalid (n : Nat) (line : List Char) (rest : List (List Char)) (e : Spec.PathSafeError) :
      cancel = false → dirLine line = .invalid e →
      Move env cancel q fault (.lines n (line :: rest)) (.finished (.error (.pathSafe n e))) q
        .silent
  | linesDir (n : Nat) (line : List Char) (rest : List (List Char)) (rel : Path) :
      cancel = false → dirLine line = .dir rel →
      Move env cancel q fault (.lines n (line :: rest)) (.push n rel rest) q .silent
  | pushClosed (n : Nat) (dir : Path) (rest : List (List Char)) : q.closed = true →
      Move env cancel q fault (.push n dir rest) (.finished (.error .queueClosed)) q .silent
  | push (n : Nat) (dir : Path) (rest : List (List Char)) : q.closed = false →
      Move env cancel q fault (.push n dir rest) (.notify n rest)
        { q with dirs := q.dirs ++ [dir], pendingDirs := q.pendingDirs + 1 } .silent
  | notify (n : Nat) (rest : List (List Char)) :
      Move env cancel q fault (.notify n rest) (.lines (n + 1) rest) q .one
  | markWake : q.pendingDirs = 0 ∨ q.dirs = [] →
      Move env cancel q fault .markDone .wake { q with readerDone := true } .silent
  | mark : q.pendingDirs ≠ 0 → q.dirs ≠ [] →
      Move env cancel q fault .markDone (.finished (.ok ())) { q with readerDone := true } .silent
  | wake : Move env cancel q fault .wake (.finished (.ok ())) q .all
  | close : Move env cancel q fault .close .closeWake { q with closed := true } .silent
  | closeWake : Move env cancel q fault .closeWake (.finished (.ok ())) q .all

theorem DirReader.step_move {q q' : DirWorkQueue} {fault : Option String} {r r' : DirReader}
    {sig : Signal} (h : r.step env cancel q fault = some (r', q', sig)) :
    DirReader.Move env cancel q fault r r' q' sig := by
  cases r with
  | opening =>
    cases fault with
    | none =>
      cases h
      exact .opened
    | some source =>
      cases h
      exact .openFail source rfl
  | lines n rest =>
    cases rest with
    | nil =>
      cases h
      exact .linesEnd n
    | cons line rest =>
      cases hcancel : cancel with
      | true =>
        simp [DirReader.step, hcancel] at h
        obtain ⟨rfl, rfl, rfl⟩ := h
        exact .linesCancel n line rest rfl
      | false =>
        cases hline : dirLine line with
        | skip =>
          simp [DirReader.step, hcancel, hline] at h
          obtain ⟨rfl, rfl, rfl⟩ := h
          exact .linesSkip n line rest rfl hline
        | dir rel =>
          simp [DirReader.step, hcancel, hline] at h
          obtain ⟨rfl, rfl, rfl⟩ := h
          exact .linesDir n line rest rel rfl hline
        | invalid e =>
          simp [DirReader.step, hcancel, hline] at h
          obtain ⟨rfl, rfl, rfl⟩ := h
          exact .linesInvalid n line rest e rfl hline
  | push n dir rest =>
    cases hclosed : q.closed with
    | true =>
      rw [DirReader.step, DirWorkQueue.push_closed hclosed] at h
      cases h
      exact .pushClosed n dir rest hclosed
    | false =>
      rw [DirReader.step, DirWorkQueue.push_open hclosed] at h
      cases h
      exact .push n dir rest hclosed
  | notify n rest =>
    cases h
    exact .notify n rest
  | markDone =>
    by_cases hwake : q.pendingDirs = 0 ∨ q.dirs = []
    · have hmark : q.markReaderDone = ({ q with readerDone := true }, true) := by
        cases hwake <;> simp_all [DirWorkQueue.markReaderDone]
      simp [DirReader.step, hmark] at h
      obtain ⟨rfl, rfl, rfl⟩ := h
      exact .markWake hwake
    · have hmark : q.markReaderDone = ({ q with readerDone := true }, false) := by
        simp_all [DirWorkQueue.markReaderDone]
      simp [DirReader.step, hmark] at h
      obtain ⟨rfl, rfl, rfl⟩ := h
      exact .mark (fun h0 => hwake (.inl h0)) (fun h0 => hwake (.inr h0))
  | wake =>
    cases h
    exact .wake
  | close =>
    cases h
    exact .close
  | closeWake =>
    cases h
    exact .closeWake
  | finished res => cases h

inductive Scanner.Move (env : ScanEnv) (cancel : Bool) (q : DirWorkQueue) (act : ScannerAct) :
    Scanner → Scanner → DirWorkQueue → Signal → CellStep → Prop where
  | topCancel : cancel = true → Move env cancel q act .top (.finished (.ok ())) q .silent .local
  | top : cancel = false → Move env cancel q act .top .popTop q .silent .local
  | popCancel : cancel = true → Move env cancel q act .popTop (.finished (.ok ())) q .silent .local
  | popTop : cancel = false → Move env cancel q act .popTop .popLock q .silent .local
  | popClosed : q.closed = true →
      Move env cancel q act .popLock (.finished (.ok ())) q .silent .local
  | popDir (dir : Path) (dirs : List Path) : q.closed = false → q.dirs = dir :: dirs →
      Move env cancel q act .popLock (.scan dir) { q with dirs } .silent .local
  | popDone : q.closed = false → q.dirs = [] → q.readerDone = true → q.pendingDirs = 0 →
      Move env cancel q act .popLock (.finished (.ok ())) q .silent .local
  | popWait : q.closed = false → q.dirs = [] → q.readerDone = false ∨ q.pendingDirs ≠ 0 →
      Move env cancel q act .popLock (.await false) q .silent .local
  | awaitPermit (b : Bool) : q.permit = true →
      Move env cancel q act (.await b) .popTop { q with permit := false } .silent .local
  | awaitSignalled : q.permit = false → Move env cancel q act (.await true) .popTop q .silent .local
  | park : q.permit = false → Move env cancel q act (.await false) .parked q .silent .local
  | scanCancel (dir : Path) : cancel = true →
      Move env cancel q act (.scan dir) (.finishDir (.ok ())) q .silent .local
  | scanFail (dir : Path) (e : DirScanError) : cancel = false →
      (∃ f, act = .fault f) ∨ env.fs.readDir (env.fs.mountPoint ++ dir) = none →
      Move env cancel q act (.scan dir) (.finishDir (.error e)) q .silent .local
  | scan (dir : Path) (es : List DirEntry) : cancel = false →
      env.fs.readDir (env.fs.mountPoint ++ dir) = some es →
      Move env cancel q act (.scan dir) (.entries dir es) q .silent .local
  | entriesCancel (dir : Path) (rest : List DirEntry) : cancel = true →
      Move env cancel q act (.entries dir rest) (.finishDir (.ok ())) q .silent .local
  | entriesFail (dir : Path) (rest : List DirEntry) (e : DirScanError) : cancel = false →
      (∃ f, act = .fault f) ∨ (∃ name rest', rest = (name, .file) :: rest' ∧
        env.fs.fileEntry dir name = .error e) →
      Move env cancel q act (.entries dir rest) (.finishDir (.error e)) q .silent .local
  | entriesEnd (dir : Path) : cancel = false →
      Move env cancel q act (.entries dir []) (.finishDir (.ok ())) q .silent .local
  | entrySkip (dir : Path) (e : DirEntry) (rest : List DirEntry) : cancel = false →
      e.2 ≠ .file → e.2 ≠ .dir →
      Move env cancel q act (.entries dir (e :: rest)) (.entries dir rest) q .silent .local
  | entryFile (dir : Path) (name : String) (rest : List DirEntry) (file : FileEntry) :
      cancel = false → env.fs.fileEntry dir name = .ok file →
      Move env cancel q act (.entries dir ((name, .file) :: rest)) (.pushFile dir rest file) q
        .silent .local
  | entryDir (dir : Path) (name : String) (rest : List DirEntry) : cancel = false →
      Move env cancel q act (.entries dir ((name, .dir) :: rest))
        (.pushDir dir rest (dir ++ [name])) q .silent .local
  | fileAcquire (dir : Path) (rest : List DirEntry) (file : FileEntry) :
      Move env cancel q act (.pushFile dir rest file) (.pushFileHeld dir rest file) q .silent
        (.act .acquire)
  | fileRefused (dir : Path) (rest : List DirEntry) (file : FileEntry) : act = .refused →
      Move env cancel q act (.pushFile dir rest file) (.finishDir (.error .queueClosed)) q .silent
        .refused
  | filePush (dir : Path) (rest : List DirEntry) (file : FileEntry) :
      Move env cancel q act (.pushFileHeld dir rest file) (.countFile dir rest) q .silent
        (.act (.pushBack file))
  | fileCount (dir : Path) (rest : List DirEntry) :
      Move env cancel q act (.countFile dir rest) (.entries dir rest) q .silent
        (.act (.addStats 0 1 0))
  | dirRefused (dir : Path) (rest : List DirEntry) (sub : Path) : q.closed = true →
      Move env cancel q act (.pushDir dir rest sub) (.finishDir (.error .queueClosed)) q .silent
        .local
  | dirPush (dir : Path) (rest : List DirEntry) (sub : Path) : q.closed = false →
      Move env cancel q act (.pushDir dir rest sub) (.pushDirNotify dir rest)
        { q with dirs := q.dirs ++ [sub], pendingDirs := q.pendingDirs + 1 } .silent .local
  | dirNotify (dir : Path) (rest : List DirEntry) :
      Move env cancel q act (.pushDirNotify dir rest) (.entries dir rest) q .one .local
  | finishLast (res : Except DirScanError Unit) : q.readerDone = true → q.pendingDirs - 1 = 0 →
      Move env cancel q act (.finishDir res) (.finishWake res)
        { q with pendingDirs := q.pendingDirs - 1 } .silent .local
  | finish (res : Except DirScanError Unit) : q.readerDone = false ∨ q.pendingDirs - 1 ≠ 0 →
      Move env cancel q act (.finishDir res) (Scanner.afterDir res)
        { q with pendingDirs := q.pendingDirs - 1 } .silent .local
  | finishWake (res : Except DirScanError Unit) :
      Move env cancel q act (.finishWake res) (Scanner.afterDir res) q .all .local
  | countDir : Move env cancel q act .countDir .top q .silent (.act (.addStats 1 0 0))

theorem Scanner.entry_move {q : DirWorkQueue} (dir : Path) (e : DirEntry)
    (rest : List DirEntry) :
    Scanner.Move env false q .run (.entries dir (e :: rest)) (Scanner.entry env dir rest e) q
      .silent .local := by
  obtain ⟨name, type⟩ := e
  cases type with
  | symlink => exact .entrySkip dir _ rest rfl (by simp) (by simp)
  | other => exact .entrySkip dir _ rest rfl (by simp) (by simp)
  | file =>
    cases hfile : env.fs.fileEntry dir name with
    | error err =>
      simp only [Scanner.entry, hfile]
      exact .entriesFail dir _ err rfl (.inr ⟨name, rest, rfl, hfile⟩)
    | ok file =>
      simp only [Scanner.entry, hfile]
      exact .entryFile dir name rest file rfl hfile
  | dir =>
    simp only [Scanner.entry, DirFs.subdir_eq]
    exact .entryDir dir name rest rfl

section

variable {q q' : DirWorkQueue} {act : ScannerAct} {s' : Scanner} {sig : Signal} {c : CellStep}

theorem Scanner.scan_move {dir : Path}
    (h : (Scanner.scan dir).step env cancel q act = some (s', q', sig, c)) :
    Scanner.Move env cancel q act (.scan dir) s' q' sig c := by
  cases hcancel : cancel with
  | true =>
    simp only [Scanner.step, hcancel, if_true] at h
    cases h
    exact .scanCancel dir rfl
  | false =>
    simp only [Scanner.step, hcancel] at h
    cases act with
    | fault f =>
      cases f with
      | readDir source =>
        cases h
        exact .scanFail dir _ rfl (.inl ⟨_, rfl⟩)
      | metadata name source => cases h
      | join source => cases h
    | refused => cases h
    | run =>
      cases hlist : env.fs.readDir (env.fs.mountPoint ++ dir) with
      | none =>
        simp only [hlist] at h
        cases h
        exact .scanFail dir _ rfl (.inr hlist)
      | some es =>
        simp only [hlist] at h
        cases h
        exact .scan dir es rfl hlist

theorem Scanner.entries_move {dir : Path} {rest : List DirEntry}
    (h : (Scanner.entries dir rest).step env cancel q act = some (s', q', sig, c)) :
    Scanner.Move env cancel q act (.entries dir rest) s' q' sig c := by
  cases hcancel : cancel with
  | true =>
    simp only [Scanner.step, hcancel, if_true] at h
    cases h
    exact .entriesCancel dir rest rfl
  | false =>
    simp only [Scanner.step, hcancel] at h
    cases act with
    | fault f =>
      cases h
      exact .entriesFail dir rest _ rfl (.inl ⟨_, rfl⟩)
    | refused => cases h
    | run =>
      cases rest with
      | nil =>
        cases h
        exact .entriesEnd dir rfl
      | cons e rest =>
        cases h
        exact Scanner.entry_move dir e rest

end

theorem Scanner.step_move {q q' : DirWorkQueue} {act : ScannerAct} {s s' : Scanner}
    {sig : Signal} {c : CellStep} (h : s.step env cancel q act = some (s', q', sig, c)) :
    Scanner.Move env cancel q act s s' q' sig c := by
  cases s with
  | top =>
    cases h
    cases hcancel : cancel with
    | true => exact .topCancel rfl
    | false => exact .top rfl
  | popTop =>
    cases h
    cases hcancel : cancel with
    | true => exact .popCancel rfl
    | false => exact .popTop rfl
  | popLock =>
    rcases q.pop_cases with ⟨hclosed, hpop⟩ | ⟨dir, dirs, hclosed, hdirs, hpop⟩ |
      ⟨hclosed, hdirs, hread, hpending, hpop⟩ | ⟨hclosed, hdirs, hwork, hpop⟩ <;>
      rw [Scanner.step, hpop] at h <;> cases h
    · exact .popClosed hclosed
    · exact .popDir dir dirs hclosed hdirs
    · exact .popDone hclosed hdirs hread hpending
    · exact .popWait hclosed hdirs hwork
  | await b =>
    cases hpermit : q.permit with
    | true =>
      simp only [Scanner.step, hpermit, if_true] at h
      cases h
      exact .awaitPermit b hpermit
    | false =>
      simp only [Scanner.step, hpermit] at h
      cases h
      cases b with
      | true => exact .awaitSignalled hpermit
      | false => exact .park hpermit
  | parked => cases h
  | scan dir => exact Scanner.scan_move h
  | entries dir rest => exact Scanner.entries_move h
  | pushFile dir rest file =>
    cases act with
    | run =>
      cases h
      exact .fileAcquire dir rest file
    | refused =>
      cases h
      exact .fileRefused dir rest file rfl
    | fault f => cases h
  | pushFileHeld dir rest file =>
    cases h
    exact .filePush dir rest file
  | countFile dir rest =>
    cases h
    exact .fileCount dir rest
  | pushDir dir rest sub =>
    cases hclosed : q.closed with
    | true =>
      rw [Scanner.step, DirWorkQueue.push_closed hclosed] at h
      cases h
      exact .dirRefused dir rest sub hclosed
    | false =>
      rw [Scanner.step, DirWorkQueue.push_open hclosed] at h
      cases h
      exact .dirPush dir rest sub hclosed
  | pushDirNotify dir rest =>
    cases h
    exact .dirNotify dir rest
  | finishDir res =>
    rcases q.finishDir_cases with ⟨hread, hpending, hfinish⟩ | ⟨hwork, hfinish⟩ <;>
      rw [Scanner.step, hfinish] at h <;> cases h
    · exact .finishLast res hread hpending
    · exact .finish res hwork
  | finishWake res =>
    cases h
    exact .finishWake res
  | countDir =>
    cases h
    exact .countDir
  | finished res => cases h

inductive DirPass.MainMove (p : DirPass) : DirPass → CellStep → Prop where
  | readerOk : p.main = .joinReader → p.reader = .finished (.ok ()) →
      p.MainMove { p with main := .join 0 none } .local
  | readerFailed (err : DirScanError) : p.main = .joinReader → p.reader = .finished (.error err) →
      p.MainMove { p with main := .close 0 err } .local
  | close (k : Nat) (err : DirScanError) : p.main = .close k err →
      p.MainMove { p with main := .closeWake k err, queue := p.queue.close } .local
  | closeWake (k : Nat) (err : DirScanError) : p.main = .closeWake k err →
      p.MainMove { p with main := .join k (some err) }.notifyWaiters .local
  | joinedAll (k : Nat) (firstErr : Option DirScanError) : p.main = .join k firstErr →
      p.scanners[k]? = none → p.MainMove { p with main := .addElapsed firstErr } .local
  | joinedOk (k : Nat) (firstErr : Option DirScanError) : p.main = .join k firstErr →
      p.scanners[k]? = some (.finished (.ok ())) →
      p.MainMove { p with main := .join (k + 1) firstErr } .local
  | joinedFailed (k : Nat) (firstErr : Option DirScanError) (err : DirScanError) :
      p.main = .join k firstErr → p.scanners[k]? = some (.finished (.error err)) →
      p.MainMove { p with main := .setCancel k (firstErr.getD err) } .local
  | setCancel (k : Nat) (err : DirScanError) : p.main = .setCancel k err →
      p.MainMove { p with main := .close (k + 1) err } (.act .setCancel)
  | addElapsed (firstErr : Option DirScanError) (elapsedMs : Int) : p.main = .addElapsed firstErr →
      p.MainMove { p with main := .returned (DirPass.result firstErr) }
        (.act (.addStats 0 0 elapsedMs))

theorem DirPass.mainStep_move {p p' : DirPass} {elapsedMs : Int} {c : CellStep}
    (h : p.mainStep elapsedMs = some (p', c)) : p.MainMove p' c := by
  unfold DirPass.mainStep at h
  split at h
  · next hmain =>
    split at h
    · next hreader =>
      cases h
      exact .readerOk hmain hreader
    · next err hreader =>
      cases h
      exact .readerFailed err hmain hreader
    · cases h
  · next k err hmain =>
    cases h
    exact .close k err hmain
  · next k err hmain =>
    cases h
    exact .closeWake k err hmain
  · next k firstErr hmain =>
    split at h
    · next hk =>
      cases h
      exact .joinedAll k firstErr hmain hk
    · next hk =>
      cases h
      exact .joinedOk k firstErr hmain hk
    · next err hk =>
      cases h
      exact .joinedFailed k firstErr err hmain hk
    · cases h
  · next k err hmain =>
    cases h
    exact .setCancel k err hmain
  · next firstErr hmain =>
    cases h
    exact .addElapsed firstErr elapsedMs hmain
  · cases h

inductive DirPass.Move (env : ScanEnv) (cancel : Bool) (p : DirPass) :
    PassAct → DirPass → CellStep → Prop where
  | reader {act : PassAct} {fault : Option String} {pick : Nat} {r r' : DirReader}
      {q : DirWorkQueue} {sig : Signal} {p' : DirPass} :
      ((∃ pick, act = .reader pick) ∧ fault = none ∨
        ∃ source, act = .readerFault source ∧ fault = some source) → p.reader = r →
      DirReader.Move env cancel p.queue fault r r' q sig →
      ({ p with reader := r', queue := q }).signal pick sig = some p' →
      p.Move env cancel act p' .local
  | scanner {i : Nat} {act : ScannerAct} {pick : Nat} {s s' : Scanner} {q : DirWorkQueue}
      {sig : Signal} {c : CellStep} {p' : DirPass} :
      p.scanners[i]? = some s → Scanner.Move env cancel p.queue act s s' q sig c →
      ({ p with queue := q, scanners := p.scanners.set i s' }).signal pick sig = some p' →
      p.Move env cancel (.scanner i act pick) p' c
  | main {elapsedMs : Int} {p' : DirPass} {c : CellStep} : p.MainMove p' c →
      p.Move env cancel (.main elapsedMs) p' c

theorem DirPass.readerStep_move {p p' : DirPass} {fault : Option String} {pick : Nat}
    {c : CellStep} {act : PassAct}
    (hact : (∃ pick, act = .reader pick) ∧ fault = none ∨
      ∃ source, act = .readerFault source ∧ fault = some source)
    (h : p.readerStep env cancel fault pick = some (p', c)) : p.Move env cancel act p' c := by
  unfold DirPass.readerStep at h
  cases hstep : p.reader.step env cancel p.queue fault with
  | none => simp [hstep] at h
  | some res =>
    obtain ⟨r, q, sig⟩ := res
    cases hsig : ({ p with reader := r, queue := q } : DirPass).signal pick sig with
    | none => simp [hstep, hsig] at h
    | some p₁ =>
      simp [hstep, hsig] at h
      obtain ⟨rfl, rfl⟩ := h
      exact .reader hact rfl (DirReader.step_move hstep) hsig

theorem DirPass.scannerStep_move {p p' : DirPass} {i pick : Nat} {act : ScannerAct}
    {c : CellStep} (h : p.scannerStep env cancel i act pick = some (p', c)) :
    p.Move env cancel (.scanner i act pick) p' c := by
  unfold DirPass.scannerStep at h
  cases hi : p.scanners[i]? with
  | none => simp [hi] at h
  | some s =>
    cases hstep : s.step env cancel p.queue act with
    | none => simp [hi, hstep] at h
    | some res =>
      obtain ⟨s', q, sig, c'⟩ := res
      cases hsig : ({ p with queue := q, scanners := p.scanners.set i s' } : DirPass).signal
          pick sig with
      | none => simp [hi, hstep, hsig] at h
      | some p₁ =>
        simp [hi, hstep, hsig] at h
        obtain ⟨rfl, rfl⟩ := h
        exact .scanner hi (Scanner.step_move hstep) hsig

theorem DirPass.step_move {p p' : DirPass} {act : PassAct} {c : CellStep}
    (h : p.step env cancel act = some (p', c)) : p.Move env cancel act p' c := by
  cases act with
  | reader pick => exact DirPass.readerStep_move (.inl ⟨⟨pick, rfl⟩, rfl⟩) h
  | readerFault source =>
    simp only [DirPass.step] at h
    split at h
    · exact DirPass.readerStep_move (.inr ⟨source, rfl, rfl⟩) h
    · cases h
  | scanner i act pick => exact DirPass.scannerStep_move h
  | main elapsedMs => exact .main (DirPass.mainStep_move h)

inductive Pipeline.Move (env : ScanEnv) (n : Nat) (loopFiles cancel : Bool) :
    Pipeline → PipelineAct → Pipeline → CellStep → Prop where
  | topCancel : cancel = true → Move env n loopFiles cancel .top .run (.finished (.ok ())) .local
  | top : cancel = false → Move env n loopFiles cancel .top .run (.pass (.init n)) .local
  | pass (p p' : DirPass) (act : PassAct) (c : CellStep) : p.Move env cancel act p' c →
      Move env n loopFiles cancel (.pass p) (.pass act) (.pass p') c
  | returnedOk (p : DirPass) : p.main = .returned (.ok ()) →
      Move env n loopFiles cancel (.pass p) .run .passed .local
  | returnedErr (p : DirPass) (err : DirScanError) : p.main = .returned (.error err) →
      Move env n loopFiles cancel (.pass p) .run (.finished (.error err)) .local
  | loop : loopFiles = true →
      Move env n loopFiles cancel .passed .run .top (.act (.setDone false))
  | done : loopFiles = false →
      Move env n loopFiles cancel .passed .run (.finished (.ok ())) (.act (.setDone true))

theorem Pipeline.step_move {env : ScanEnv} {n : Nat} {loopFiles : Bool} {r r' : Pipeline}
    {act : PipelineAct} {c : CellStep} (h : r.step env n loopFiles cancel act = some (r', c)) :
    Pipeline.Move env n loopFiles cancel r act r' c := by
  unfold Pipeline.step at h
  split at h
  · cases hcancel : cancel with
    | true =>
      rw [hcancel] at h
      cases h
      exact .topCancel rfl
    | false =>
      rw [hcancel] at h
      cases h
      exact .top rfl
  · simp only [Option.map_eq_some_iff] at h
    obtain ⟨⟨p', c'⟩, hstep, heq⟩ := h
    cases heq
    exact .pass _ _ _ _ (DirPass.step_move hstep)
  · split at h
    · next hmain =>
      cases h
      exact .returnedOk _ hmain
    · next err hmain =>
      cases h
      exact .returnedErr _ err hmain
    · cases h
  · split at h
    · next hloop =>
      cases h
      exact .loop hloop
    · next hloop =>
      cases h
      exact .done (by simpa using hloop)
  · cases h

end CvdBench.Manifest
