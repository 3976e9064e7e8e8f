import CvdBench.Manifest.DirInvariant

/-!
The errors of a directory scan that carry a line number: only the reader of the manifest
makes them, and the number is that of the line it is at.
-/

set_option autoImplicit false

namespace CvdBench.Manifest

open Foundation Foundation.Text Proto Master

variable {env : ScanEnv} {cancel : Bool}

/-- The line `lineno` of the manifest, counted from 1, is the first one whose path is
rejected. -/
structure ScanEnv.Rejects (env : ScanEnv) (lineno : Nat) (source : Spec.PathSafeError) : Prop where
  pos : 1 ≤ lineno
  line : ∃ line, (splitInclusive env.content.toList)[lineno - 1]? = some line ∧
    dirLine (stripNewline line) = .invalid source
  first : ∀ line ∈ (splitInclusive env.content.toList).take (lineno - 1), ∀ source',
    dirLine (stripNewline line) ≠ .invalid source'

def ScanEnv.Names (env : ScanEnv) (err : DirScanError) : Prop :=
  ∀ lineno source, err = .pathSafe lineno source → env.Rejects lineno source

def Invalid (line : List Char) : Prop := ∃ source, dirLine line = .invalid source

theorem ScanEnv.rejects {done rest : List (List Char)} {line : List Char}
    {source : Spec.PathSafeError}
    (h : Passed Invalid (Text.lines env.content.toList) done (line :: rest))
    (hline : dirLine line = .invalid source) : env.Rejects (done.length + 1) source := by
  obtain ⟨hat, hbefore⟩ := h.here
  unfold Text.lines at hat hbefore
  refine ⟨Nat.le_add_left 1 _, ?_, ?_⟩
  · rw [List.getElem?_map, Option.map_eq_some_iff] at hat
    obtain ⟨raw, hraw, rfl⟩ := hat
    exact ⟨raw, hraw, hline⟩
  · intro raw hraw source' hinvalid
    rw [← List.map_take] at hbefore
    exact hbefore _ (List.mem_map_of_mem hraw) ⟨source', hinvalid⟩

def DirReader.Numbered (env : ScanEnv) : DirReader → Prop
  | .lines n rest => ∃ done,
      Passed Invalid (Text.lines env.content.toList) done rest ∧ n = done.length + 1
  | .push n _ rest | .notify n rest => ∃ done,
      Passed Invalid (Text.lines env.content.toList) done rest ∧ n = done.length
  | .finished (.error err) => env.Names err
  | _ => True

theorem DirReader.Move.numbered {q q' : DirWorkQueue} {fault : Option String} {r r' : DirReader}
    {sig : Signal} (h : DirReader.Move env cancel q fault r r' q' sig) (hr : r.Numbered env) :
    r'.Numbered env := by
  cases h with
  | opened => exact ⟨[], .start _ _, rfl⟩
  | linesSkip n line rest _ hline =>
    obtain ⟨done, hdone, rfl⟩ := hr
    exact ⟨done ++ [line], hdone.next (by simp [Invalid, hline]), by simp⟩
  | linesDir n line rest rel _ hline =>
    obtain ⟨done, hdone, rfl⟩ := hr
    exact ⟨done ++ [line], hdone.next (by simp [Invalid, hline]), by simp⟩
  | linesInvalid n line rest source _ hline =>
    obtain ⟨done, hdone, rfl⟩ := hr
    intro lineno source' herr
    cases herr
    exact ScanEnv.rejects hdone hline
  | push n dir rest _ => exact hr
  | notify n rest =>
    obtain ⟨done, hdone, rfl⟩ := hr
    exact ⟨done, hdone, rfl⟩
  | openFail source _ | pushClosed n dir rest _ =>
    intro lineno source' herr
    cases herr
  | _ => trivial

def DirScanError.lineno? : DirScanError → Option Nat
  | .pathSafe lineno _ => some lineno
  | _ => none

theorem ScanEnv.Names.of_none {err : DirScanError} (h : err.lineno? = none) : env.Names err := by
  rintro lineno source rfl
  cases h

def Scanner.err? : Scanner → Option DirScanError
  | .finishDir (.error err) | .finishWake (.error err) | .finished (.error err) => some err
  | _ => none

theorem DirFs.fileEntry_unnumbered {fs : DirFs} {dir : Path} {name : String} {err : DirScanError}
    (h : fs.fileEntry dir name = .error err) : err.lineno? = none := by
  unfold DirFs.fileEntry at h
  simp only at h
  split at h
  · cases h
    rfl
  · split at h
    · cases h
      rfl
    · split at h <;> cases h
      rfl

theorem Scanner.entry_unnumbered {dir : Path} {rest : List DirEntry} {e : DirEntry}
    {err : DirScanError} (h : (Scanner.entry env dir rest e).err? = some err) :
    err.lineno? = none := by
  obtain ⟨name, type⟩ := e
  cases type with
  | symlink | other => cases h
  | file =>
    cases hfile : env.fs.fileEntry dir name with
    | error err' =>
      simp only [Scanner.entry, hfile] at h
      obtain rfl := Option.some.inj h
      exact DirFs.fileEntry_unnumbered hfile
    | ok file =>
      simp only [Scanner.entry, hfile] at h
      cases h
  | dir =>
    simp only [Scanner.entry, DirFs.subdir_eq] at h
    cases h

theorem ScanFault.error_unnumbered (abs : Path) (f : ScanFault) :
    (f.error abs).lineno? = none := by
  cases f <;> rfl

theorem Scanner.finishWake_err {res : Except DirScanError Unit} {err : DirScanError}
    (h : (Scanner.finishWake res).err? = some err) : res = .error err := by
  cases res with
  | ok u => cases h
  | error err' =>
    obtain rfl := Option.some.inj h
    rfl

theorem Scanner.afterDir_err {res : Except DirScanError Unit} {err : DirScanError}
    (h : (Scanner.afterDir res).err? = some err) : res = .error err := by
  cases res with
  | ok u => cases h
  | error err' =>
    obtain rfl := Option.some.inj h
    rfl

theorem Scanner.step_unnumbered {q q' : DirWorkQueue} {act : ScannerAct} {s s' : Scanner}
    {sig : Signal} {c : CellStep} (h : s.step env cancel q act = some (s', q', sig, c))
    (hs : ∀ err, s.err? = some err → err.lineno? = none) {err : DirScanError}
    (herr : s'.err? = some err) : err.lineno? = none := by
  cases Scanner.step_move h with
  | scanFail dir err' hcancel _ =>
    obtain rfl := Option.some.inj herr
    unfold Scanner.step at h
    rw [hcancel] at h
    simp only [Bool.false_eq_true, if_false] at h
    split at h
    · cases h
      rfl
    · split at h <;> cases h
      rfl
    · cases h
  | entriesFail dir rest err' hcancel _ =>
    unfold Scanner.step at h
    rw [hcancel] at h
    simp only [Bool.false_eq_true, if_false] at h
    split at h
    · cases h
      obtain rfl := Option.some.inj herr
      exact ScanFault.error_unnumbered _ _
    · split at h
      · cases h
      · next e rest' =>
        have hentry := congrArg (fun res => res.map Prod.fst) h
        simp only [Option.map_some, Option.some.injEq] at hentry
        rw [← hentry] at herr
        exact Scanner.entry_unnumbered herr
    · cases h
  | fileRefused | dirRefused =>
    obtain rfl := Option.some.inj herr
    rfl
  | finishLast res =>
    obtain rfl := Scanner.finishWake_err herr
    exact hs err rfl
  | finish res | finishWake res =>
    obtain rfl := Scanner.afterDir_err herr
    exact hs err rfl
  | _ => cases herr

theorem Scanner.Woken.err?_eq {s s' : Scanner} (h : Woken s s') : s'.err? = s.err? := by
  cases h <;> rfl

structure DirPass.Numbered (env : ScanEnv) (p : DirPass) : Prop where
  reader : p.reader.Numbered env
  scanners : ∀ s ∈ p.scanners, ∀ err, s.err? = some err → err.lineno? = none
  main : ∀ err, p.main.firstErr = some err → env.Names err

namespace DirPass

variable {p p' : DirPass} {c : CellStep}

theorem Signalled.numbered (h : p.Signalled p') (hp : p.Numbered env) : p'.Numbered env where
  reader := by
    rw [h.reader]
    exact hp.reader
  scanners := by
    intro s' hs' err herr
    obtain ⟨s, hs, hwoken⟩ := h.mem' hs'
    rw [hwoken.err?_eq] at herr
    exact hp.scanners s hs err herr
  main := by
    rw [h.main]
    exact hp.main

theorem Numbered.init (n : Nat) : (DirPass.init n).Numbered env where
  reader := trivial
  scanners := by
    intro s hs err herr
    rw [List.eq_of_mem_replicate hs] at herr
    cases herr
  main := by
    intro err herr
    cases herr

theorem Numbered.readerStep {fault : Option String} {pick : Nat} (hp : p.Numbered env)
    (h : p.readerStep env cancel fault pick = some (p', c)) : p'.Numbered env := by
  simp only [DirPass.readerStep, Option.bind_eq_bind, Option.bind_eq_some_iff] at h
  obtain ⟨⟨r, q, sig⟩, hstep, p₁, hsig, hsome⟩ := h
  cases hsome
  refine (signal_signalled hsig).numbered ⟨?_, hp.scanners, hp.main⟩
  exact (DirReader.step_move hstep).numbered hp.reader

theorem Numbered.scannerStep {i pick : Nat} {act : ScannerAct} (hp : p.Numbered env)
    (h : p.scannerStep env cancel i act pick = some (p', c)) : p'.Numbered env := by
  simp only [DirPass.scannerStep, Option.bind_eq_bind, Option.bind_eq_some_iff] at h
  obtain ⟨s, hs, ⟨s', q, sig, c'⟩, hstep, p₁, hsig, hsome⟩ := h
  cases hsome
  refine (signal_signalled hsig).numbered ⟨hp.reader, ?_, hp.main⟩
  intro t ht err herr
  rcases List.mem_or_eq_of_mem_set ht with hold | rfl
  · exact hp.scanners t hold err herr
  · exact Scanner.step_unnumbered hstep (hp.scanners s (List.mem_of_getElem? hs)) herr

theorem Numbered.mainMove (hp : p.Numbered env) (h : p.MainMove p' c) : p'.Numbered env := by
  cases h with
  | readerOk => exact ⟨hp.reader, hp.scanners, fun _ herr => by cases herr⟩
  | readerFailed err _ hreader =>
    refine ⟨hp.reader, hp.scanners, ?_⟩
    intro err' herr
    obtain rfl := Option.some.inj herr
    have hnumbered := hp.reader
    rw [hreader] at hnumbered
    exact hnumbered
  | close k err hmain =>
    exact ⟨hp.reader, hp.scanners, fun err' herr => hp.main err' (by rw [hmain]; exact herr)⟩
  | closeWake k err hmain =>
    refine (notifyWaiters_signalled { p with main := .join k (some err) }).numbered ?_
    exact ⟨hp.reader, hp.scanners, fun err' herr => hp.main err' (by rw [hmain]; exact herr)⟩
  | joinedAll k firstErr hmain _ | joinedOk k firstErr hmain _ | setCancel k err hmain =>
    exact ⟨hp.reader, hp.scanners, fun err' herr => hp.main err' (by rw [hmain]; exact herr)⟩
  | joinedFailed k firstErr err hmain hk =>
    refine ⟨hp.reader, hp.scanners, ?_⟩
    intro err' herr
    obtain rfl := Option.some.inj herr
    cases firstErr with
    | some err₁ => exact hp.main err₁ (by rw [hmain]; rfl)
    | none =>
      have hunnumbered := hp.scanners _ (List.mem_of_getElem? hk) err rfl
      exact .of_none hunnumbered
  | addElapsed firstErr elapsedMs hmain =>
    refine ⟨hp.reader, hp.scanners, ?_⟩
    intro err' herr
    cases firstErr with
    | none => cases herr
    | some err => exact hp.main err' (by rw [hmain]; exact herr)

theorem Numbered.step {act : PassAct} (hp : p.Numbered env)
    (h : p.step env cancel act = some (p', c)) : p'.Numbered env := by
  cases act with
  | reader pick => exact hp.readerStep h
  | readerFault source =>
    simp only [DirPass.step] at h
    split at h
    · exact hp.readerStep h
    · cases h
  | scanner i act pick => exact hp.scannerStep h
  | main elapsedMs => exact hp.mainMove (DirPass.mainStep_move h)

end DirPass

def Pipeline.Numbered (env : ScanEnv) : Pipeline → Prop
  | .pass p => p.Numbered env
  | .finished (.error err) => env.Names err
  | _ => True

theorem Pipeline.Numbered.step {n : Nat} {loopFiles : Bool} {r r' : Pipeline}
    {act : PipelineAct} {c : CellStep} (hr : r.Numbered env)
    (h : r.step env n loopFiles cancel act = some (r', c)) : r'.Numbered env := by
  cases Pipeline.step_move h with
  | top => exact .init n
  | pass p p' act c _ =>
    simp only [Pipeline.step, Option.map_eq_some_iff] at h
    obtain ⟨⟨p₁, c₁⟩, hstep, heq⟩ := h
    cases heq
    exact DirPass.Numbered.step hr hstep
  | returnedErr p err hmain => exact hr.main err (by rw [hmain]; rfl)
  | _ => trivial

end CvdBench.Manifest
